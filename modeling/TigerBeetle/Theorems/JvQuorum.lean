import TigerBeetle.JvQuorum

namespace TigerBeetle.JvQuorum

open Fallible

variable {jvs : List (Option JoinedView)} {options : QuorumOptions} {all canonical : List JoinedView}
    {logView logView' opHead opMin op count : Nat} {header : Prepare} {found : Option Prepare}

theorem headerCanonical_meets :
    Meets (fun _ => True) (fun found => ∀ header ∈ found, header.op = op)
      (headerCanonical op canonical) := by
  induction canonical with
  | nil => exact fun _ h => absurd h (Option.not_mem_none _)
  | cons jv jvs ih =>
    unfold headerCanonical
    simp only [Meets.ite_iff]
    refine ⟨fun _ => ih, fun _ => ?_⟩
    split
    · trivial
    · simp only [Meets.bind_eq, Meets.ite_iff, Meets.pure_eq, partial_assert]
      refine fun hop => ⟨fun _ _ h => ?_, fun _ => ih⟩
      cases h
      exact hop

theorem headerForOp_some :
    Meets (fun _ => True) (· = some header) (headerForOp op logView (some header) canonical) := by
  induction canonical with
  | nil => rfl
  | cons jv jvs ih =>
    unfold headerForOp
    simp only [Meets.bind_eq, Meets.ite_iff, partial_assert]
    refine fun _ => ⟨fun _ => ih, fun _ => ?_⟩
    split
    · exact ih
    · simp only [Meets.bind_eq, Meets.ite_iff, partial_assert]
      exact ⟨fun _ _ => ih, fun _ => ih⟩

-- Where the messages have a canonical header for an op, it is the one that is collected.
theorem headerForOp_eq (h : headerCanonical op canonical = .ok (some header)) :
    Meets (fun _ => True) (· = some header) (headerForOp op logView none canonical) := by
  induction canonical with
  | nil => cases h
  | cons jv jvs ih =>
    unfold headerCanonical at h
    unfold headerForOp
    simp only [Meets.bind_eq, Meets.ite_iff, partial_assert]
    refine fun _ => ⟨fun hop => ih (by rwa [if_pos hop] at h), fun hop => ?_⟩
    rw [if_neg hop] at h
    cases hi : jv.headers[jv.header.op - op]? with
    | none =>
      rw [hi] at h
      cases h
    | some header' =>
      rw [hi] at h
      obtain ⟨_, _, h⟩ := bind_eq_ok.mp h
      simp only [Meets.ite_iff]
      refine ⟨fun hv => ?_, fun hv => ih (by rwa [if_neg hv] at h)⟩
      rw [if_pos hv] at h
      cases h
      exact headerForOp_some

-- The op has a canonical header, of which there is a copy, and too few messages miss it.
structure Kept (options : QuorumOptions) (all canonical : List JoinedView) (logView : Nat)
    (header : Prepare) : Prop where
  canonical : headerCanonical header.op canonical = .ok (some header)
  tally : ∃ t, tally header.op logView (some header) all = .ok t ∧
    t.nacks < options.quorumNackPrepare ∧ 0 < t.copies

def Dropped (options : QuorumOptions) (all canonical : List JoinedView) (logView op : Nat) : Prop :=
  ∃ found t, headerCanonical op canonical = .ok found ∧ tally op logView found all = .ok t ∧
    options.quorumNackPrepare ≤ t.nacks

theorem findHead_meets (h : 0 < op + count) :
    Meets (fun _ => True)
      (fun head => ∀ opHead, head = .found opHead → op ≤ opHead + 1 ∧ opHead < op + count ∧
        (∀ o, op ≤ o → o ≤ opHead → ∃ header, header.op = o ∧
          Kept options all canonical logView header) ∧
        (opHead + 1 < op + count → Dropped options all canonical logView (opHead + 1)))
      (findHead options all canonical logView opMin count op) := by
  induction count generalizing op with
  | zero =>
    intro opHead he
    cases he
    exact ⟨by omega, by omega, fun o _ _ => by omega, fun _ => by omega⟩
  | succ count ih =>
    unfold findHead
    simp only [Meets.bind_eq]
    refine (Meets.trivial.returned.and headerCanonical_meets).weaken fun found hfound => ?_
    obtain ⟨⟨hfound, _⟩, hop⟩ := hfound
    refine Meets.trivial.returned.weaken fun t ht => ?_
    simp only [Meets.ite_iff, Meets.bind_eq, Meets.pure_eq, partial_assert]
    refine ⟨fun hn hlt opHead he => ?_, fun hn => ⟨fun _ => ?_, fun hk => ?_⟩⟩
    · cases he
      refine ⟨by omega, by omega, fun o _ _ => by omega, fun _ => ?_⟩
      rw [Nat.sub_add_cancel (by omega)]
      exact ⟨found, t, hfound, ht.1, hn⟩
    · constructor <;> intro _ opHead he <;> cases he
    · refine (ih (by omega)).weaken fun head hhead opHead he => ?_
      obtain ⟨h₁, h₂, h₃, h₄⟩ := hhead opHead he
      refine ⟨by omega, by omega, fun o hle hle' => ?_, fun hlt => h₄ (by omega)⟩
      by_cases ho : o = op
      · subst ho
        cases found with
        | none        => exact absurd (.inl rfl) hk
        | some header =>
          obtain rfl := hop header rfl
          exact ⟨header, rfl, hfound, t, ht.1, by omega, by omega⟩
      · exact h₃ o (by omega) hle'

theorem collectHeaders_meets {childParent : Option Nat}
    (h : ∀ o, opMin ≤ o → o < opMin + count → ∃ header, header.op = o ∧
      Kept options all canonical logView header) :
    Meets (fun _ => True)
      (fun headers => headers.map Prepare.op = (List.range' opMin count).reverse ∧
        (∀ header ∈ headers, Kept options all canonical logView header) ∧
        (headers.IsChain fun newer older => older.checksum = newer.parent) ∧
        ∀ parent ∈ childParent, ∀ header ∈ headers.head?, header.checksum = parent)
      (collectHeaders canonical logView' opMin count childParent) := by
  induction count generalizing childParent with
  | zero => exact ⟨rfl, fun _ h => absurd h List.not_mem_nil, .nil, fun _ _ _ h =>
      absurd h (Option.not_mem_none _)⟩
  | succ count ih =>
    obtain ⟨header, hop, hk⟩ := h (opMin + count) (by omega) (by omega)
    unfold collectHeaders
    simp only [Meets.bind_eq, partial_assert]
    refine (headerForOp_eq (hop ▸ hk.canonical)).weaken fun found hf hp => ?_
    subst hf
    simp only [Meets.bind_eq, Meets.pure_eq]
    refine (ih fun o hle hlt => h o hle (by omega)).weaken fun headers hheaders => ?_
    obtain ⟨h₁, h₂, h₃, h₄⟩ := hheaders
    refine ⟨?_, List.forall_mem_cons.mpr ⟨hk, h₂⟩, ?_, ?_⟩
    · rw [List.range'_concat, List.map_cons, h₁]
      simp [hop]
    · cases headers with
      | nil => exact .singleton _
      | cons older headers => exact .cons_cons (h₄ _ rfl _ rfl) h₃
    · intro parent hm header' hh
      cases hh
      obtain ⟨h, hh, he⟩ := hp parent hm
      cases hh
      exact he

-- A log that is decided on reaches from the highest commit that the messages know of to a head. Its
-- headers are the canonical ones and hash-chained, each has a copy and is not nacked by a quorum, and
-- what comes right after the head is nacked by one.
structure Decision (jvs : List (Option JoinedView)) (options : QuorumOptions) (opHead opMin : Nat)
    (headers : List Prepare) (all canonical : List JoinedView) (logView opMax : Nat) : Prop where
  received : jvsAll jvs = .ok all
  quorum : options.quorumViewChange ≤ all.length
  newest : jvsCanonical jvs = .ok canonical ∧ logViewMax jvs = .ok logView
  reaches : opMaxCanonical jvs = .ok opMax ∧ opMin ≤ opHead ∧ opHead ≤ opMax
  committed : commitMax jvs = .ok opMin
  ops : headers.map Prepare.op = (List.range' opMin (opHead + 1 - opMin)).reverse
  chain : headers.IsChain fun newer older => older.checksum = newer.parent
  kept : ∀ header ∈ headers, Kept options all canonical logView header
  dropped : opHead < opMax → Dropped options all canonical logView (opHead + 1)

theorem quorumHeaders_decides {headers : List Prepare}
    (h : quorumHeaders jvs options = .ok (.completeValid opHead opMin headers)) :
    ∃ all canonical logView opMax,
      Decision jvs options opHead opMin headers all canonical logView opMax := by
  suffices hm : Meets (fun _ => True) (fun result => result = .completeValid opHead opMin headers →
      ∃ all canonical logView opMax,
        Decision jvs options opHead opMin headers all canonical logView opMax)
      (quorumHeaders jvs options) from hm.post h rfl
  unfold quorumHeaders
  simp only [Meets.bind_eq, Meets.ite_iff, Meets.pure_eq, partial_assert]
  intro _ _ _
  refine ⟨fun _ _ => ?_, fun _ _ => ?_⟩
  all_goals
    refine Meets.trivial.returned.weaken fun all hall => ⟨fun _ => by simp, fun hq => ?_⟩
    refine Meets.trivial.returned.weaken fun logView hlog => ?_
    refine Meets.trivial.returned.weaken fun canonical hcanonical _ _ => ?_
    refine Meets.trivial.returned.weaken fun opMax hmax => ?_
    refine Meets.trivial.returned.weaken fun opMin hmin hle => ?_
    refine (findHead_meets (by omega)).weaken fun head hhead => ?_
    cases head with
    | awaitingRepair  => simp
    | completeInvalid => simp
    | found opHead =>
      obtain ⟨h₁, h₂, h₃, h₄⟩ := hhead opHead rfl
      simp only [Meets.bind_eq, Meets.pure_eq, partial_assert]
      intro hlow hhigh
      unfold headersForView
      split
      case h_2 => trivial
      case h_1 =>
        simp only [Meets.bind_eq, partial_assert]
        refine fun _ => (collectHeaders_meets fun o hle hlt => h₃ o hle (by omega)).weaken
          fun _ hheaders he => ?_
        obtain ⟨hops, hkept, hchain, _⟩ := hheaders
        cases he
        exact ⟨all, canonical, logView, opMax, hall.1, by omega, ⟨hcanonical.1, hlog.1⟩,
          ⟨hmax.1, hlow, hhigh⟩, hmin.1, hops, hchain, hkept, fun hlt => h₄ (by omega)⟩

-- Two messages about the same prepares, of which both replicas nack the last one.
def joined (replica : Nat) : JoinedView where
  header := {
    cluster := 0, view := 1, replica, presentBitset := 6, nackBitset := 1, op := 2, commitMin := 0
    checkpointOp := 0, logView := 0 }
  headers := [
    { Prepare.zeroed with op := 2, checksum := 3, parent := 2, operation := .noop },
    { Prepare.zeroed with op := 1, checksum := 2, parent := 1, operation := .noop },
    { Prepare.zeroed with checksum := 1, operation := .root }]

theorem quorumHeaders_decides_joined : ∃ all canonical logView opMax,
    Decision [some (joined 0), some (joined 1)] ⟨2, 2, 1⟩ 1 0 ((joined 0).headers.drop 1)
      all canonical logView opMax :=
  quorumHeaders_decides rfl

end TigerBeetle.JvQuorum
