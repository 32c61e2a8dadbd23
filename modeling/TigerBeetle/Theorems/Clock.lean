import TigerBeetle.Clock
import TigerBeetle.Theorems.Marzullo

namespace TigerBeetle.Clocks.Clock

open Fallible Marzullo

variable {replicaCount : Nat} {sources : Fin replicaCount → Option Sample} {quorum tolerance : Nat}
  {tuples : List Tuple}

-- A source's interval ends this far below and above its offset.
def lowOf (tolerance : Nat) (sources : Fin replicaCount → Option Sample)
    (source : Fin replicaCount) : Int :=
  (sources source).elim 0 fun sample => sample.clockOffset - padding tolerance sample

def highOf (tolerance : Nat) (sources : Fin replicaCount → Option Sample)
    (source : Fin replicaCount) : Int :=
  (sources source).elim 0 fun sample => sample.clockOffset + padding tolerance sample

theorem padding_nonneg {sample : Sample} : 0 ≤ padding tolerance sample := by
  unfold padding saturate i64Max
  omega

theorem padding_le {sample : Sample} : padding tolerance sample ≤ sample.oneWayDelay + tolerance := by
  unfold padding saturate
  omega

theorem lowOf_le_highOf (source : Fin replicaCount) :
    lowOf tolerance sources source ≤ highOf tolerance sources source := by
  unfold lowOf highOf
  cases sources source with
  | none => exact le_rfl
  | some sample =>
    have hnonneg := @padding_nonneg tolerance sample
    simp only [Option.elim_some]
    omega

section Fill

-- Each source is sampled.
def Sampled (sources : Fin replicaCount → Option Sample) : Prop :=
  ∀ source, (sources source).isSome

theorem take_set_set {α : Type} {list : List α} {i : Nat} {a b : α} (h : i + 1 < list.length) :
    ((list.set i a).set (i + 1) b).take (i + 2) = list.take i ++ [a, b] := by
  have hi : i < list.length := by omega
  rw [List.take_add_one, List.getElem?_set_self (by simpa using h), List.take_set_of_le (by omega),
    List.take_add_one, List.getElem?_set_self (by simpa using hi), List.take_set_of_le (by omega)]
  simp

theorem u64_meets {value : Nat} : Meets (· = .overflow) (fun _ => True) (u64 value) := by
  unfold u64
  split
  · trivial
  · exact rfl

-- The tuples of some of the sources are written.
structure Filled (tolerance : Nat) (sources : Fin replicaCount → Option Sample)
    (done : List (Fin replicaCount)) (filled : List Tuple × Nat) : Prop where
  length : filled.1.length = 2 * replicaCount
  count : filled.2 = 2 * done.length
  take : filled.1.take (2 * done.length) = done.flatMap fun source =>
    [lowerOf (lowOf tolerance sources) source, upperOf (highOf tolerance sources) source]

theorem fillTuples_meets (hs : Sampled sources) {done : List (Fin replicaCount)}
    {filled : List Tuple × Nat} {source : Fin replicaCount} (h : Filled tolerance sources done filled)
    (hlt : done.length < replicaCount) :
    Meets (· = .overflow) (Filled tolerance sources (done ++ [source]))
      (fillTuples sources tolerance filled source) := by
  obtain ⟨tuples, count⟩ := filled
  have hlength : tuples.length = 2 * replicaCount := h.length
  have hcount : count = 2 * done.length := h.count
  have ⟨sample, hsample⟩ := Option.isSome_iff_exists.mp (hs source)
  unfold fillTuples
  simp only [hsample]
  refine Meets.bind u64_meets fun _ _ => ?_
  refine Meets.bind (i64_meets (Q := (· = _)) rfl) fun lower hlower => ?_
  rw [ensure_of (by omega), ok_bind]
  refine Meets.bind (i64_meets (Q := (· = _)) rfl) fun upper hupper => ?_
  rw [ensure_of (by rw [List.length_set]; omega), ok_bind]
  refine { length := by simpa using hlength, count := ?_, take := ?_ }
  · simp only [List.length_append, List.length_singleton]
    omega
  · have hlow : (⟨source, lower, .lower⟩ : Tuple) = lowerOf (lowOf tolerance sources) source := by
      rw [lowerOf, lowOf, hsample, hlower]
      rfl
    have hhigh : (⟨source, upper, .upper⟩ : Tuple) = upperOf (highOf tolerance sources) source := by
      rw [upperOf, highOf, hsample, hupper]
      rfl
    have htake : tuples.take (2 * done.length) = _ := h.take
    simp only [List.length_append, List.length_singleton, Nat.mul_add, Nat.mul_one]
    rw [hcount, take_set_set (by omega), htake, hlow, hhigh, List.flatMap_append]
    rfl

theorem foldlM_fillTuples_meets (hs : Sampled sources) {done rest : List (Fin replicaCount)}
    {filled : List Tuple × Nat} (h : Filled tolerance sources done filled)
    (hle : (done ++ rest).length ≤ replicaCount) :
    Meets (· = .overflow) (Filled tolerance sources (done ++ rest))
      (rest.foldlM (fillTuples sources tolerance) filled) := by
  induction rest generalizing done filled with
  | nil => exact (List.append_nil done).symm ▸ h
  | cons source rest ih =>
    have hlt : done.length < replicaCount := by
      simp only [List.length_append, List.length_cons] at hle
      omega
    rw [List.foldlM_cons]
    refine Meets.bind (fillTuples_meets hs h hlt) fun filled' h' => ?_
    have hrun := ih h' (by simpa using hle)
    rwa [List.append_assoc] at hrun

-- With a sample of each source, nothing that was in the buffer before is left.
theorem fillWindowTuples_meets (hs : Sampled sources) (hlength : tuples.length = 2 * replicaCount) :
    Meets (· = .overflow)
      (fun filled => filled.1 = bounds (lowOf tolerance sources) (highOf tolerance sources))
      (fillWindowTuples tuples sources tolerance) := by
  have hinitial : Filled tolerance sources [] (tuples, 0) := ⟨hlength, rfl, rfl⟩
  unfold fillWindowTuples
  refine (foldlM_fillTuples_meets hs hinitial (by simp)).weaken fun filled h => ?_
  have htake := h.take
  rw [List.nil_append, List.length_finRange, ← h.length, List.take_length] at htake
  exact htake

end Fill

section Rounds

-- The tolerance of a round.
def toleranceOf (round : Nat) : Nat :=
  clockOffsetToleranceMax / 2 ^ round

-- What a round makes of the samples, with its own tolerance and nothing of the rounds before it.
def Answers (sources : Fin replicaCount → Option Sample) (round : Nat) (interval : Interval) : Prop :=
  ∃ tuples, smallestInterval (bounds (lowOf (toleranceOf round) sources)
    (highOf (toleranceOf round) sources)) = .ok (interval, tuples)

-- The interval is what the round answers, and a quorum of the sources agrees on it.
structure Found (sources : Fin replicaCount → Option Sample) (quorum round : Nat) (interval : Interval) :
    Prop where
  answers : Answers sources round interval
  ordered : interval.lowerBound ≤ interval.upperBound
  agreed : ∃ agreeing : Finset (Fin replicaCount),
    quorum ≤ agreeing.card ∧ ∀ source ∈ agreeing, ∃ sample, sources source = some sample ∧
      sample.clockOffset - sample.oneWayDelay - toleranceOf round ≤ interval.lowerBound ∧
      interval.upperBound ≤ sample.clockOffset + sample.oneWayDelay + toleranceOf round

-- The interval was found in the last round that had a quorum.
def Trusted (sources : Fin replicaCount → Option Sample) (quorum : Nat) (interval : Interval) : Prop :=
  ∃ round, Found sources quorum round interval ∧ (toleranceOf round = 0 ∨
    ∃ interval', Answers sources (round + 1) interval' ∧ interval'.sourcesTrue < quorum)

theorem toleranceOf_succ {round : Nat} : toleranceOf round / 2 = toleranceOf (round + 1) := by
  unfold toleranceOf
  rw [Nat.div_div_eq_div_mul, ← Nat.pow_succ]

theorem agreed_of_containing (hs : Sampled sources) {interval : Interval}
    (hq : quorum ≤ (containing (lowOf tolerance sources) (highOf tolerance sources) interval).card) :
    ∃ agreeing : Finset (Fin replicaCount),
      quorum ≤ agreeing.card ∧ ∀ source ∈ agreeing, ∃ sample, sources source = some sample ∧
        sample.clockOffset - sample.oneWayDelay - tolerance ≤ interval.lowerBound ∧
        interval.upperBound ≤ sample.clockOffset + sample.oneWayDelay + tolerance := by
  refine ⟨_, hq, fun source hsource => ?_⟩
  have ⟨hlow, hhigh⟩ := (Finset.mem_filter.mp hsource).2
  have ⟨sample, hsample⟩ := Option.isSome_iff_exists.mp (hs source)
  have hle := @padding_le tolerance sample
  rw [lowOf, hsample, Option.elim_some] at hlow
  rw [highOf, hsample, Option.elim_some] at hhigh
  exact ⟨sample, hsample, by omega, by omega⟩

-- The induction is on the rounds that are left, of which there are enough to get rid of the tolerance.
theorem synchronizeRounds_meets (hs : Sampled sources) (hpos : 0 < replicaCount)
    (hmax : replicaCount ≤ 255) {rounds round : Nat} {synchronized : Option Interval}
    (hlength : tuples.length = 2 * replicaCount) (hround : rounds + round = 64)
    (hsync : ∀ interval ∈ synchronized, ∃ last, round = last + 1 ∧ toleranceOf last ≠ 0 ∧
      Found sources quorum last interval) :
    Meets (· = .overflow) (fun (tuples, synchronized) => tuples.length = 2 * replicaCount ∧
        ∀ interval ∈ synchronized, Trusted sources quorum interval)
      (synchronizeRounds sources quorum rounds (toleranceOf round) tuples synchronized) := by
  induction rounds generalizing round tuples synchronized with
  | zero =>
    refine ⟨hlength, fun interval hmem => ?_⟩
    obtain ⟨last, hlast, hne, _⟩ := hsync interval hmem
    obtain rfl : last = 63 := by omega
    exact absurd (by decide) hne
  | succ rounds ih =>
    rw [synchronizeRounds]
    refine Meets.bind (fillWindowTuples_meets hs hlength) ?_
    rintro ⟨filled, _⟩ rfl
    refine Meets.bind (smallestInterval_meets lowOf_le_highOf hpos hmax).returned ?_
    rintro ⟨interval, tuples'⟩ ⟨hanswers, hordered, htrue, hlength'⟩
    have hanswers : Answers sources round interval := ⟨_, hanswers⟩
    simp only
    split
    case isTrue hquorum =>
      refine ⟨hlength', fun interval' hmem => ?_⟩
      obtain ⟨last, rfl, _, hfound⟩ := hsync interval' hmem
      exact ⟨last, hfound, .inr ⟨interval, hanswers, hquorum⟩⟩
    case isFalse hquorum =>
      have hfound : Found sources quorum round interval :=
        ⟨hanswers, hordered, agreed_of_containing hs (by omega)⟩
      split
      case isTrue hzero =>
        refine ⟨hlength', fun interval' hmem => ?_⟩
        exact Option.mem_some_iff.mp hmem ▸ ⟨round, hfound, .inl hzero⟩
      case isFalse hne =>
        rw [toleranceOf_succ]
        refine ih hlength' (by omega) fun interval' hmem => ?_
        exact Option.mem_some_iff.mp hmem ▸ ⟨round, rfl, hne, hfound⟩

end Rounds

section Steps

variable {clock clock' : Clock replicaCount} {now : Nat} {readings : Readings}
  {replica : Fin replicaCount} {m0 m2 : Nat} {t1 : Int}

-- The invariant of a clock whose last monotonic reading is `now`.
structure Sound (clock : Clock replicaCount) (now : Nat) : Prop where
  unsynchronized : clock.window.synchronized = none
  own : clock.window.sources clock.replica = some ⟨0, 0⟩
  window_le : clock.window.monotonic ≤ now
  epoch_le : clock.epoch.monotonic ≤ now
  tuples : clock.marzulloTuples.length = 2 * replicaCount

-- Monotonic time does not go back.
structure Readings.Follow (readings : Readings) (now : Nat) : Prop where
  start : now ≤ readings.start
  installed : readings.start ≤ readings.installed
  done : readings.installed ≤ readings.done

-- The window is due, and it has new samples.
structure Evaluates (clock : Clock replicaCount) (readings : Readings) : Prop where
  due : windowMin ≤ readings.start - clock.window.monotonic
  fresh : readings.start - clock.window.monotonic < windowMax
  learned : clock.window.learned

theorem reset_own {monotonic : Nat} {realtime : Int} :
    (Epoch.reset replica monotonic realtime).sources replica = some ⟨0, 0⟩ :=
  if_pos rfl

theorem estimateAsymmetricDelay_meets {oneWayDelay : Nat} {clockOffset : Int} :
    Meets (· = .overflow) (fun _ => True)
      (clock.estimateAsymmetricDelay replica oneWayDelay clockOffset) := by
  unfold estimateAsymmetricDelay
  split
  case h_1 => trivial
  case h_2 epochSample _ =>
    split
    case isTrue => trivial
    case isFalse =>
      refine Meets.bind (i64_meets (Q := fun _ => True) trivial) fun upper _ => ?_
      split
      case isTrue => trivial
      case isFalse =>
        refine Meets.bind (i64_meets (Q := fun _ => True) trivial) fun lower _ => ?_
        split <;> trivial

theorem Sound.learn_meets (h : clock.Sound now) (hr : replica ≠ clock.replica) :
    Meets (· = .overflow) (fun clock' => clock'.Sound now) (clock.learn replica m0 t1 m2) := by
  unfold learn
  rw [ensure_of hr, ok_bind]
  split
  case isTrue => exact h
  case isFalse =>
    split
    case isTrue => exact h
    case isFalse horder =>
      split
      case isTrue => exact h
      case isFalse hwindow =>
        rw [ensure_of (by omega), ok_bind]
        simp only
        split
        case isTrue => exact h
        case isFalse =>
          refine Meets.bind estimateAsymmetricDelay_meets fun delay _ => ?_
          have hown : ∀ sample, Function.update clock.window.sources replica sample clock.replica =
              some ⟨0, 0⟩ := fun sample => by rw [Function.update_of_ne hr.symm, h.own]
          exact { h with own := hown _ }

theorem afterSynchronization_meets {interval : Interval}
    (hi : clock.epoch.synchronized = some interval) (hle : clock.epoch.monotonic ≤ now)
    (ho : interval.lowerBound ≤ interval.upperBound) :
    Meets (· = .overflow) (fun _ => True) (clock.afterSynchronization now) := by
  unfold afterSynchronization
  simp only [hi]
  rw [ensure_of hle, ok_bind]
  refine Meets.bind (i64_meets (Q := (· = _)) rfl) fun base hbase => ?_
  refine Meets.bind (i64_meets (Q := (· = _)) rfl) fun lower hlower => ?_
  refine Meets.bind (i64_meets (Q := (· = _)) rfl) fun base' hbase' => ?_
  refine Meets.bind (i64_meets (Q := (· = _)) rfl) fun upper hupper => ?_
  rw [ensure_of (by omega)]
  trivial

-- The outcome of an evaluation that fails no assertion.
def Installs (clock clock' : Clock replicaCount) : Prop :=
  clock'.epoch = clock.epoch ∨ ∃ interval, clock'.epoch.synchronized = some interval ∧
    Trusted clock.window.sources clock.quorum interval

theorem Sound.synchronize_meets (h : clock.Sound now) (hmax : replicaCount ≤ 255)
    (hf : readings.Follow now) (hs : clock.Evaluates readings → Sampled clock.window.sources) :
    Meets (· = .overflow)
      (fun clock' => clock'.Sound readings.done ∧ clock'.replica = clock.replica ∧ clock.Installs clock')
      (clock.synchronize readings) := by
  have hstart := hf.start
  have hinstalled := hf.installed
  have hdone := hf.done
  have hwindow := h.window_le
  have hepoch := h.epoch_le
  have hkeep : clock.Sound readings.done :=
    { h with window_le := by omega, epoch_le := by omega }
  have hpos : 0 < replicaCount := Nat.zero_lt_of_lt clock.replica.isLt
  unfold synchronize
  rw [ensure_of h.unsynchronized, ok_bind, ensure_of (by omega), ok_bind]
  simp only
  split
  case isTrue => exact ⟨hkeep, rfl, .inl rfl⟩
  case isFalse hmin =>
    split
    case isTrue =>
      refine ⟨{ hkeep with unsynchronized := rfl, own := reset_own, window_le := ?_ }, rfl, .inl rfl⟩
      show readings.start ≤ readings.done
      omega
    case isFalse hexpired =>
      split
      case isTrue => exact ⟨hkeep, rfl, .inl rfl⟩
      case isFalse hlearned =>
        have hsampled := hs ⟨by omega, by omega, by simpa using hlearned⟩
        rw [ensure_of h.own, ok_bind]
        have hfirst : clockOffsetToleranceMax = toleranceOf 0 := (Nat.div_one _).symm
        rw [hfirst]
        refine Meets.bind (synchronizeRounds_meets hsampled hpos hmax h.tuples rfl (by simp)) ?_
        rintro ⟨tuples, synchronized⟩ ⟨hlength, htrusted⟩
        cases synchronized with
        | none =>
          exact ⟨{ hkeep with unsynchronized := rfl, own := h.own, tuples := hlength }, rfl, .inl rfl⟩
        | some interval =>
          have hinterval := htrusted interval rfl
          have hordered : interval.lowerBound ≤ interval.upperBound := by
            obtain ⟨_, hfound, _⟩ := hinterval
            exact hfound.ordered
          simp only
          refine Meets.bind (R := fun _ => True)
            (afterSynchronization_meets rfl (by simp only; omega) hordered) fun _ _ => ?_
          refine ⟨⟨rfl, reset_own, ?_, ?_, hlength⟩, rfl, .inr ⟨interval, rfl, hinterval⟩⟩
          · exact hdone
          · show clock.window.monotonic ≤ readings.done
            omega

theorem Sound.tick_meets (h : clock.Sound now) (hmax : replicaCount ≤ 255)
    (hf : readings.Follow now) (hs : clock.Evaluates readings → Sampled clock.window.sources) :
    Meets (· = .overflow) (fun clock' => clock'.Sound readings.done) (clock.tick readings) := by
  unfold tick
  split
  case isTrue =>
    have hwindow := h.window_le
    have hepoch := h.epoch_le
    have hstart := hf.start
    have hinstalled := hf.installed
    have hdone := hf.done
    exact { h with window_le := by omega, epoch_le := by omega }
  case isFalse =>
    refine Meets.bind (h.synchronize_meets hmax hf hs) fun clock' hclock' => ?_
    obtain ⟨h', _, _⟩ := hclock'
    rw [ensure_of h'.epoch_le, ok_bind]
    split
    case isTrue => exact { h' with epoch_le := le_rfl }
    case isFalse => exact h'

end Steps

section Runs

variable {options : ClockOptions} {clock : Clock options.replicaCount.toNat} {now : Nat}

-- The clocks of the runs in which each window that is evaluated has a sample of each source, with
-- the last monotonic reading.
inductive Reachable (options : ClockOptions) : Clock options.replicaCount.toNat → Nat → Prop
  | new {clock : Clock options.replicaCount.toNat} {now : Nat} {realtime : Int} :
      new options now realtime = .ok clock → Reachable options clock now
  | learn {clock clock' : Clock options.replicaCount.toNat} {now : Nat}
      {replica : Fin options.replicaCount.toNat} {m0 m2 : Nat} {t1 : Int} :
      Reachable options clock now → clock.learn replica m0 t1 m2 = .ok clock' →
      Reachable options clock' now
  | tick {clock clock' : Clock options.replicaCount.toNat} {now : Nat} {readings : Readings} :
      Reachable options clock now → readings.Follow now →
      (clock.Evaluates readings → Sampled clock.window.sources) →
      clock.tick readings = .ok clock' → Reachable options clock' readings.done

theorem replicaCount_le : options.replicaCount.toNat ≤ 255 := by
  have hlt := options.replicaCount.toNat_lt
  omega

theorem new_sound {realtime : Int} (h : new options now realtime = .ok clock) : clock.Sound now := by
  unfold new at h
  obtain ⟨_, _, h⟩ := bind_eq_ok.mp h
  split at h
  case isTrue hlt =>
    obtain ⟨_, _, h⟩ := bind_eq_ok.mp h
    obtain ⟨_, _, h⟩ := bind_eq_ok.mp h
    obtain ⟨_, _, h⟩ := bind_eq_ok.mp h
    cases h
    exact ⟨rfl, reset_own, le_rfl, le_rfl, by simp [Nat.mul_comm]⟩
  case isFalse => cases h

theorem Reachable.sound (h : Reachable options clock now) : clock.Sound now := by
  induction h with
  | new h => exact new_sound h
  | learn _ hlearn ih =>
    have ⟨_, hr, _⟩ := bind_eq_ok.mp hlearn
    exact (ih.learn_meets (of_ensure hr)).post hlearn
  | tick _ hf hs htick ih => exact (ih.tick_meets replicaCount_le hf hs).post htick

-- As long as each window that is evaluated has a sample of each source, no assertion fails, and a
-- quorum of the sources that are sampled agree on each interval that is installed.
theorem Reachable.trusts (h : Reachable options clock now) :
    (∀ replica ≠ clock.replica, ∀ m0 t1 m2,
      Meets (· = .overflow) (fun _ => True) (clock.learn replica m0 t1 m2)) ∧
    ∀ readings, Readings.Follow readings now →
      (clock.Evaluates readings → Sampled clock.window.sources) →
      Meets (· = .overflow) (fun clock' => clock.Installs clock') (clock.synchronize readings) ∧
      Meets (· = .overflow) (fun _ => True) (clock.tick readings) := by
  have hsound := h.sound
  refine ⟨fun replica hr m0 t1 m2 => (hsound.learn_meets hr).weaken fun _ _ => trivial,
    fun readings hf hs => ⟨?_, ?_⟩⟩
  · exact (hsound.synchronize_meets replicaCount_le hf hs).weaken fun _ h => h.2.2
  · exact (hsound.tick_meets replicaCount_le hf hs).weaken fun _ _ => trivial

-- Two seconds into a window of a cluster of three.
def due : Readings := ⟨windowMin, 0, windowMin, 0, windowMin, 0⟩

theorem Reachable.trusts_due : ∃ clock, Reachable ⟨3, 0, 2⟩ clock 0 ∧ clock.Evaluates due ∧
    Meets (· = .overflow) (fun clock' => clock.Installs clock') (clock.synchronize due) := by
  have ⟨clock, hclock⟩ : ∃ clock, (do
      let clock ← Clock.new ⟨3, 0, 2⟩ 0 0
      let clock ← clock.learn ⟨1, by decide⟩ 0 0 0
      clock.learn ⟨2, by decide⟩ 0 5 0) = .ok clock := ⟨_, rfl⟩
  have ⟨opened, hnew, hclock⟩ := bind_eq_ok.mp hclock
  have ⟨first, hfirst, hsecond⟩ := bind_eq_ok.mp hclock
  have hr : Reachable ⟨3, 0, 2⟩ clock 0 := ((Reachable.new hnew).learn hfirst).learn hsecond
  cases hnew
  cases hfirst
  cases hsecond
  refine ⟨_, hr, ⟨by decide, by decide, rfl⟩, ((Reachable.trusts hr).2 due ?_ ?_).1⟩
  · exact ⟨by decide, le_rfl, le_rfl⟩
  · exact fun _ => by unfold Sampled; decide

-- With a sample of one of the two other replicas, the evaluation of the first window fails: the
-- tuples that were never written are taken for those of a source.
theorem tick_unsampled : (do
    let clock ← new ⟨3, 0, 2⟩ 0 0
    let clock ← clock.learn ⟨1, by decide⟩ 0 0 0
    clock.tick due) = .error (.panic "p.source < tuple.source") :=
  rfl

end Runs

end TigerBeetle.Clocks.Clock
