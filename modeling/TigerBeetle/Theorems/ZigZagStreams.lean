import TigerBeetle.Theorems.KWayMerge
import TigerBeetle.ZigZagMerge

namespace TigerBeetle

open Fallible
open TournamentTree (cmpLt_asymm cmpLt_irrefl cmpLt_trans cmpLt_trichotomy read_of_some write_of_some)
open KWayMerge (cmpLe_iff cmpLe_trans cmpLt_of_lt_of_le)

variable {Key Value : Type}

namespace ZigZagStream

section Lists

variable {α : Type} {p q : α → Bool} {a : α} {l : List α}

theorem mem_dropWhile (ha : a ∈ l) (hp : p a = false) : a ∈ l.dropWhile p := by
  induction l with
  | nil => cases ha
  | cons b l ih =>
    by_cases hb : p b
    · rw [List.dropWhile_cons_of_pos hb]
      obtain rfl | ha := List.mem_cons.mp ha
      · rw [hb] at hp
        cases hp
      · exact ih ha
    · rw [List.dropWhile_cons_of_neg hb]
      exact ha

theorem head_dropWhile {rest : List α} (h : l.dropWhile p = a :: rest) : p a = false := by
  induction l with
  | nil => cases h
  | cons b l ih =>
    by_cases hb : p b
    · rw [List.dropWhile_cons_of_pos hb] at h
      exact ih h
    · rw [List.dropWhile_cons_of_neg hb, List.cons.injEq] at h
      rw [← h.1]
      simpa using hb

theorem countP_lt_countP (hpq : ∀ x, p x → q x) (ha : a ∈ l) (hp : p a = false) (hq : q a) :
    l.countP p < l.countP q := by
  induction l with
  | nil => cases ha
  | cons b l ih =>
    rw [List.countP_cons, List.countP_cons]
    have hle : l.countP p ≤ l.countP q := List.countP_mono_left fun x _ => hpq x
    obtain rfl | ha := List.mem_cons.mp ha
    · rw [hp, hq]
      simp
      omega
    · have := ih ha
      have hb : (if p b then 1 else 0) ≤ if q b then 1 else 0 := by
        by_cases hpb : p b
        · rw [if_pos hpb, if_pos (hpq b hpb)]
        · rw [if_neg hpb]
          exact Nat.zero_le _
      omega

end Lists

def values (stream : ZigZagStream Value) : List Value :=
  stream.loaded ++ stream.unloaded

def IsPending (stream : ZigZagStream Value) : Prop :=
  stream.loaded = [] ∧ stream.ended = false

def Head (keyFromValue : Value → Key) (stream : ZigZagStream Value) (key : Key) : Prop :=
  ∃ value rest, stream.loaded = value :: rest ∧ keyFromValue value = key

variable [LinearOrder Key] {direction : Direction} {keyFromValue : Value → Key}
  {stream : ZigZagStream Value} {key probeKey : Key} {value : Value}

-- The values come in the strict order of their keys, and a stream that has been seen to end has been
-- loaded as a whole.
structure Sound (direction : Direction) (keyFromValue : Value → Key) (stream : ZigZagStream Value) :
    Prop where
  strict : stream.values.Pairwise fun a b => direction.cmpLt (keyFromValue a) (keyFromValue b)
  whole : stream.ended = true → stream.unloaded = []

omit [LinearOrder Key] in
theorem peek_pending (h : stream.IsPending) : stream.peek keyFromValue = .error {} := by
  rw [peek, h.1]
  simp [h.2]

omit [LinearOrder Key] in
theorem peek_head (h : stream.Head keyFromValue key) : stream.peek keyFromValue = .ok (some key) := by
  obtain ⟨value, rest, hloaded, rfl⟩ := h
  rw [peek, hloaded]

omit [LinearOrder Key] in
theorem peek_ended (h : stream.loaded = []) (hended : stream.ended = true) :
    stream.peek keyFromValue = .ok none := by
  rw [peek, h]
  simp [hended]

omit [LinearOrder Key] in
theorem state (keyFromValue : Value → Key) (stream : ZigZagStream Value) :
    stream.IsPending ∨ (stream.loaded = [] ∧ stream.ended = true) ∨
      ∃ key, stream.Head keyFromValue key := by
  cases hloaded : stream.loaded with
  | nil =>
    cases hended : stream.ended with
    | false => exact .inl ⟨hloaded, hended⟩
    | true => exact .inr (.inl ⟨rfl, rfl⟩)
  | cons value rest => exact .inr (.inr ⟨_, value, rest, hloaded, rfl⟩)

theorem Sound.head_le (h : stream.Sound direction keyFromValue) (hhead : stream.Head keyFromValue key)
    (hv : value ∈ stream.values) : direction.cmpLe key (keyFromValue value) := by
  obtain ⟨first, rest, hloaded, rfl⟩ := hhead
  have hstrict := h.strict
  rw [values, hloaded, List.cons_append] at hv hstrict
  obtain rfl | hv := List.mem_cons.mp hv
  · exact cmpLe_iff.mpr (.inr rfl)
  · exact cmpLe_iff.mpr (.inl (List.rel_of_pairwise_cons hstrict hv))

theorem probe_sublist : (stream.probe keyFromValue direction probeKey).values.Sublist stream.values :=
  (List.dropWhile_sublist _).append (List.dropWhile_sublist _)

theorem mem_probe (hv : value ∈ stream.values) (hle : ¬direction.cmpLt (keyFromValue value) probeKey) :
    value ∈ (stream.probe keyFromValue direction probeKey).values := by
  have hpassed := Bool.eq_false_iff.mpr hle
  obtain h | h := List.mem_append.mp hv
  · exact List.mem_append_left _ (mem_dropWhile h hpassed)
  · exact List.mem_append_right _ (mem_dropWhile h hpassed)

theorem Sound.probe (h : stream.Sound direction keyFromValue) :
    (stream.probe keyFromValue direction probeKey).Sound direction keyFromValue where
  strict := h.strict.sublist probe_sublist
  whole hended := by
    rw [ZigZagStream.probe, h.whole hended]
    rfl

theorem probe_head (h : (stream.probe keyFromValue direction probeKey).Head keyFromValue key) :
    direction.cmpLe probeKey key := by
  obtain ⟨value, rest, hloaded, rfl⟩ := h
  have hnot : direction.cmpLt (keyFromValue value) probeKey = false :=
    head_dropWhile (p := fun value => direction.cmpLt (keyFromValue value) probeKey) hloaded
  obtain h | h | h := cmpLt_trichotomy direction probeKey (keyFromValue value)
  · exact cmpLe_iff.mpr (.inl h)
  · exact cmpLe_iff.mpr (.inr h)
  · rw [hnot] at h
    cases h

theorem IsPending.probe (h : stream.IsPending) :
    (stream.probe keyFromValue direction probeKey).IsPending := by
  refine ⟨?_, h.2⟩
  rw [ZigZagStream.probe, h.1]
  rfl

omit [LinearOrder Key] in
theorem values_refill (count : Nat) (seen : Bool) :
    (stream.refill count seen).values = stream.values := by
  simp [values, refill]

theorem Sound.refill (h : stream.Sound direction keyFromValue) (count : Nat) (seen : Bool) :
    (stream.refill count seen).Sound direction keyFromValue where
  strict := by
    rw [values_refill]
    exact h.strict
  whole hended := by
    simp only [ZigZagStream.refill, Bool.or_eq_true, Bool.and_eq_true, List.isEmpty_iff] at hended ⊢
    obtain hended | hended := hended
    · rw [h.whole hended, List.drop_nil]
    · exact hended.2

end ZigZagStream

namespace ZigZagMerge

open ZigZagStream ZigZagMergeIterator

variable [LinearOrder Key] {spec : ZigZagMergeSpec Key Value} {direction : Direction}
  {initial context context' : List (ZigZagStream Value)} {popped : List Value} {i : Nat} {k : Key}
  {stream : ZigZagStream Value}

def Common (spec : ZigZagMergeSpec Key Value) (context : List (ZigZagStream Value)) (k : Key) : Prop :=
  ∀ stream ∈ context, ∃ value ∈ stream.values, spec.keyFromValue value = k

omit [LinearOrder Key] in
theorem common_of_set (hi : context[i]? = some stream)
    {stream' : ZigZagStream Value}
    (hsub : ∀ value ∈ stream'.values, value ∈ stream.values)
    (hk : Common spec (context.set i stream') k) : Common spec context k := by
  intro s hs
  obtain ⟨j, hj⟩ := List.mem_iff_getElem?.mp hs
  by_cases hij : i = j
  · subst hij
    rw [hi] at hj
    cases hj
    obtain ⟨value, hv, hkey⟩ := hk _ (List.mem_set (List.getElem?_eq_some_iff.mp hi).1 _)
    exact ⟨value, hsub value hv, hkey⟩
  · exact hk s (List.mem_of_getElem? ((List.getElem?_set_ne hij).trans hj))

-- What has been popped, and what the streams still have, of the streams that were given.
structure Merging (spec : ZigZagMergeSpec Key Value) (direction : Direction)
    (initial : List (ZigZagStream Value)) (popped : List Value) (context : List (ZigZagStream Value)) :
    Prop where
  count : context.length = initial.length
  sound : ∀ stream ∈ context, stream.Sound direction spec.keyFromValue
  within : ∀ stream ∈ context, ∀ value ∈ stream.values,
    value ∈ initial.flatMap ZigZagStream.values
  ordered : popped.Pairwise fun a b => direction.cmpLt (spec.keyFromValue a) (spec.keyFromValue b)
  ahead : ∀ p ∈ popped, ∀ stream ∈ context, ∀ value ∈ stream.values,
    direction.cmpLt (spec.keyFromValue p) (spec.keyFromValue value)
  common : ∀ k, Common spec initial k ↔
    (∃ p ∈ popped, spec.keyFromValue p = k) ∨ Common spec context k

namespace Merging

variable (h : Merging spec direction initial popped context)

include h

-- A probe with a key that no common key comes before.
theorem probe {probeKey : Key} (hi : context[i]? = some stream)
    (hleast : ∀ k, Common spec context k → direction.cmpLe probeKey k) :
    Merging spec direction initial popped
      (context.set i (stream.probe spec.keyFromValue direction probeKey)) := by
  have hmem := List.mem_of_getElem? hi
  have hset : ∀ s ∈ context.set i (stream.probe spec.keyFromValue direction probeKey),
      s ∈ context ∨ s = stream.probe spec.keyFromValue direction probeKey :=
    fun s hs => List.mem_or_eq_of_mem_set hs
  refine {
    count := (List.length_set ..).trans h.count
    sound := fun s hs => ?_
    within := fun s hs value hv => ?_
    ordered := h.ordered
    ahead := fun p hp s hs value hv => ?_
    common := fun k => (h.common k).trans (or_congr_right ⟨fun hk s hs => ?_, fun hk s hs => ?_⟩)
  }
  · obtain hs | rfl := hset s hs
    · exact h.sound s hs
    · exact (h.sound _ hmem).probe
  · obtain hs | rfl := hset s hs
    · exact h.within s hs value hv
    · exact h.within _ hmem value (probe_sublist.mem hv)
  · obtain hs | rfl := hset s hs
    · exact h.ahead p hp s hs value hv
    · exact h.ahead p hp _ hmem value (probe_sublist.mem hv)
  · obtain hs | rfl := hset s hs
    · exact hk s hs
    · obtain ⟨value, hv, rfl⟩ := hk _ hmem
      refine ⟨value, mem_probe hv fun hlt => ?_, rfl⟩
      exact cmpLt_irrefl (cmpLt_of_lt_of_le hlt (hleast _ hk))
  · exact common_of_set hi (fun value hv => probe_sublist.mem hv) hk s hs

theorem refill (hi : context[i]? = some stream) (count : Nat) (seen : Bool) :
    Merging spec direction initial popped (context.set i (stream.refill count seen)) := by
  have hmem := List.mem_of_getElem? hi
  have hset : ∀ s ∈ context.set i (stream.refill count seen),
      ∃ s' ∈ context, s.values = s'.values := fun s hs => by
    obtain hs | rfl := List.mem_or_eq_of_mem_set hs
    · exact ⟨s, hs, rfl⟩
    · exact ⟨stream, hmem, values_refill count seen⟩
  refine {
    count := (List.length_set ..).trans h.count
    sound := fun s hs => ?_
    within := fun s hs value hv => ?_
    ordered := h.ordered
    ahead := fun p hp s hs value hv => ?_
    common := fun k => (h.common k).trans (or_congr_right ⟨fun hk s hs => ?_, fun hk s hs => ?_⟩)
  }
  · obtain hs | rfl := List.mem_or_eq_of_mem_set hs
    · exact h.sound s hs
    · exact (h.sound _ hmem).refill count seen
  · obtain ⟨s', hs', heq⟩ := hset s hs
    exact h.within s' hs' value (heq ▸ hv)
  · obtain ⟨s', hs', heq⟩ := hset s hs
    exact h.ahead p hp s' hs' value (heq ▸ hv)
  · obtain ⟨s', hs', heq⟩ := hset s hs
    rw [heq]
    exact hk s' hs'
  · exact common_of_set hi (fun value hv => values_refill count seen ▸ hv) hk s hs

-- Once all streams have the same head, it is a common key, and it is the first one.
theorem advance {value : Value} (hne : context ≠ [])
    (hheads : ∀ stream ∈ context, ∃ rest, stream.loaded = value :: rest) :
    Merging spec direction initial (popped ++ [value])
      (context.map fun stream => { stream with loaded := stream.loaded.tail }) := by
  have hvalues : ∀ s ∈ context,
      s.values = value :: ZigZagStream.values { s with loaded := s.loaded.tail } := by
    intro s hs
    obtain ⟨rest, hrest⟩ := hheads s hs
    rw [values, values, hrest]
    rfl
  have hfirst : ∀ s ∈ context, ∀ x ∈ ZigZagStream.values { s with loaded := s.loaded.tail },
      direction.cmpLt (spec.keyFromValue value) (spec.keyFromValue x) := by
    intro s hs x hx
    have hstrict := (h.sound s hs).strict
    rw [hvalues s hs] at hstrict
    exact List.rel_of_pairwise_cons hstrict hx
  refine {
    count := (List.length_map ..).trans h.count
    sound := fun s hs => ?_
    within := fun s hs x hx => ?_
    ordered := ?_
    ahead := fun p hp s hs x hx => ?_
    common := fun k => (h.common k).trans ⟨fun hk => ?_, fun hk => ?_⟩
  }
  · obtain ⟨s', hs', rfl⟩ := List.mem_map.mp hs
    have hstrict := (h.sound s' hs').strict
    rw [hvalues s' hs'] at hstrict
    exact ⟨hstrict.tail, (h.sound s' hs').whole⟩
  · obtain ⟨s', hs', rfl⟩ := List.mem_map.mp hs
    exact h.within s' hs' x (hvalues s' hs' ▸ List.mem_cons_of_mem _ hx)
  · refine List.pairwise_append.mpr ⟨h.ordered, List.pairwise_singleton .., fun p hp x hx => ?_⟩
    obtain ⟨s, hs⟩ := List.exists_mem_of_ne_nil context hne
    rw [List.mem_singleton.mp hx]
    exact h.ahead p hp s hs value (hvalues s hs ▸ List.mem_cons_self)
  · obtain ⟨s', hs', rfl⟩ := List.mem_map.mp hs
    obtain hp | hp := List.mem_append.mp hp
    · exact h.ahead p hp s' hs' x (hvalues s' hs' ▸ List.mem_cons_of_mem _ hx)
    · rw [List.mem_singleton.mp hp]
      exact hfirst s' hs' x hx
  · obtain ⟨p, hp, hk⟩ | hk := hk
    · exact .inl ⟨p, List.mem_append_left _ hp, hk⟩
    · by_cases heq : spec.keyFromValue value = k
      · exact .inl ⟨value, List.mem_append_right _ (List.mem_singleton_self _), heq⟩
      · refine .inr fun s hs => ?_
        obtain ⟨s', hs', rfl⟩ := List.mem_map.mp hs
        obtain ⟨x, hx, hxk⟩ := hk s' hs'
        rw [hvalues s' hs'] at hx
        obtain rfl | hx := List.mem_cons.mp hx
        · exact absurd hxk heq
        · exact ⟨x, hx, hxk⟩
  · obtain ⟨p, hp, hk⟩ | hk := hk
    · obtain hp | hp := List.mem_append.mp hp
      · exact .inl ⟨p, hp, hk⟩
      · refine .inr fun s hs => ⟨value, hvalues s hs ▸ List.mem_cons_self, ?_⟩
        rw [← hk, List.mem_singleton.mp hp]
    · refine .inr fun s hs => ?_
      obtain ⟨x, hx, hxk⟩ := hk _ (List.mem_map_of_mem hs)
      exact ⟨x, hvalues s hs ▸ List.mem_cons_of_mem _ hx, hxk⟩

end Merging

section Gallop

variable {iterator : ZigZagMergeIterator Key Value} {candidate : Key} {stream' : ZigZagStream Value}

theorem cmpLe_of_not_cmpLt {a b : Key} (h : ¬direction.cmpLt a b) : direction.cmpLe b a := by
  obtain hlt | heq | hgt := cmpLt_trichotomy direction a b
  · exact absurd hlt h
  · exact cmpLe_iff.mpr (.inr heq.symm)
  · exact cmpLe_iff.mpr (.inl hgt)

omit [LinearOrder Key] in
theorem set_self (hi : context[i]? = some stream) : context.set i stream = context := by
  obtain ⟨hlt, rfl⟩ := List.getElem?_eq_some_iff.mp hi
  exact List.set_getElem_self hlt

-- What a peek answers about a stream.
def Peeked (spec : ZigZagMergeSpec Key Value) (stream : ZigZagStream Value)
    (answer : Except ZigZagStream.Pending (Option Key)) : Prop :=
  (answer = .error {} ∧ stream.IsPending) ∨ (answer = .ok none ∧ stream.values = []) ∨
    ∃ key, answer = .ok (some key) ∧ stream.Head spec.keyFromValue key

theorem peeked (spec : ZigZagMergeSpec Key Value) (h : stream.Sound direction spec.keyFromValue) :
    Peeked spec stream (stream.peek spec.keyFromValue) := by
  obtain hpending | ⟨hloaded, hended⟩ | ⟨key, hhead⟩ := ZigZagStream.state spec.keyFromValue stream
  · exact .inl ⟨peek_pending hpending, hpending⟩
  · exact .inr (.inl ⟨peek_ended hloaded hended, by rw [values, hloaded, h.whole hended]; rfl⟩)
  · exact .inr (.inr ⟨key, peek_head hhead, hhead⟩)

omit [LinearOrder Key] in
theorem streamPeek_ok (hi : context[i]? = some stream) :
    streamPeek spec context i = .ok (stream.peek spec.keyFromValue) := by
  rw [streamPeek, read_of_some hi]
  rfl

omit [LinearOrder Key] in
theorem Head.mem {key : Key} (h : stream.Head spec.keyFromValue key) :
    ∃ value ∈ stream.values, spec.keyFromValue value = key := by
  obtain ⟨value, rest, hloaded, hkey⟩ := h
  exact ⟨value, by rw [values, hloaded]; exact List.mem_cons_self, hkey⟩

theorem Merging.peeked_le (h : Merging spec direction initial popped context)
    (hi : context[i]? = some stream) {key keyPeeked : Key}
    (hpeeked : ∃ p ∈ popped, spec.keyFromValue p = keyPeeked)
    (hhead : stream.Head spec.keyFromValue key) : direction.cmpLe keyPeeked key := by
  obtain ⟨p, hp, rfl⟩ := hpeeked
  obtain ⟨value, hv, rfl⟩ := Head.mem hhead
  exact cmpLe_iff.mpr (.inl (h.ahead p hp _ (List.mem_of_getElem? hi) value hv))

theorem gallopKey_ok (h : Merging spec direction initial popped iterator.context)
    (hdirection : iterator.direction = direction)
    (hpeeked : ∀ k ∈ iterator.keyPeeked, ∃ p ∈ popped, spec.keyFromValue p = k)
    (hlt : i < iterator.streamsCount) (hi : iterator.context[i]? = some stream)
    (hleast : ∀ k, Common spec iterator.context k → direction.cmpLe candidate k) :
    ∃ answer stream', iterator.gallopKey spec i candidate =
        .ok (answer, { iterator with context := iterator.context.set i stream' }) ∧
      Merging spec direction initial popped (iterator.context.set i stream') ∧
      (∀ value ∈ stream'.values, value ∈ stream.values) ∧ Peeked spec stream' answer ∧
      ∀ key, answer = .ok (some key) → direction.cmpLe candidate key := by
  have hself := set_self hi
  have hsound := h.sound stream (List.mem_of_getElem? hi)
  rw [gallopKey, assert_of hlt, ok_bind, streamPeek_ok hi, ok_bind]
  have hpeek := peeked spec hsound
  obtain ⟨heq, -⟩ | ⟨heq, -⟩ | ⟨key, heq, hhead⟩ := hpeek
  · exact ⟨.error {}, stream, by rw [heq, hself]; rfl, by rw [hself]; exact h, fun _ => id,
      heq ▸ peeked spec hsound, fun key hk => by cases hk⟩
  · exact ⟨.ok none, stream, by rw [heq, hself]; rfl, by rw [hself]; exact h, fun _ => id,
      heq ▸ peeked spec hsound, fun key hk => by cases hk⟩
  · rw [heq]
    simp only
    rw [assert_of fun k hk => hdirection ▸ h.peeked_le hi (hpeeked k hk) hhead, ok_bind]
    by_cases hbefore : iterator.direction.cmpLt key candidate
    · have h' := h.probe hi hleast
      have hi' : (iterator.context.set i (stream.probe spec.keyFromValue direction candidate))[i]? =
          some (stream.probe spec.keyFromValue direction candidate) :=
        List.getElem?_set_self (List.getElem?_eq_some_iff.mp hi).1
      have hsound' := h'.sound _ (List.mem_of_getElem? hi')
      have hsub : ∀ value ∈ (stream.probe spec.keyFromValue direction candidate).values,
          value ∈ stream.values := fun value hv => probe_sublist.mem hv
      rw [if_pos hbefore, streamProbe, read_of_some hi, ok_bind, hdirection]
      simp only [pure_bind]
      rw [streamPeek_ok hi', ok_bind]
      obtain ⟨heq', -⟩ | ⟨heq', -⟩ | ⟨key', heq', hhead'⟩ := peeked spec hsound'
      · exact ⟨.error {}, _, by rw [heq']; rfl, h', hsub, heq' ▸ peeked spec hsound',
          fun key hk => by cases hk⟩
      · exact ⟨.ok none, _, by rw [heq']; rfl, h', hsub, heq' ▸ peeked spec hsound',
          fun key hk => by cases hk⟩
      · rw [heq']
        simp only
        rw [assert_of (probe_head hhead'), ok_bind,
          assert_of fun k hk => h'.peeked_le hi' (hpeeked k hk) hhead', ok_bind]
        refine ⟨.ok (some key'), _, rfl, h', hsub, heq' ▸ peeked spec hsound', fun key hk => ?_⟩
        cases hk
        exact probe_head hhead'
    · rw [if_neg hbefore]
      refine ⟨.ok (some key), stream, by rw [hself]; rfl, by rw [hself]; exact h, fun _ => id,
        heq ▸ peeked spec hsound, fun key' hk => ?_⟩
      cases hk
      exact cmpLe_of_not_cmpLt (hdirection ▸ hbefore)

end Gallop

end ZigZagMerge

end TigerBeetle
