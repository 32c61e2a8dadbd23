import TigerBeetle.Machine
import TigerBeetle.Theorems.ViewChange

namespace TigerBeetle

open Fallible

-- A replica that is about to leave its view, with the votes to leave that are outstanding: who
-- voted, and for which view. Whenever the replica left a view, the departures record which replicas
-- had an outstanding vote for that view.
structure Voting where
  replica : Replica
  votes : Finset (Nat × Nat)
  departures : List (Finset Nat)

namespace Voting

inductive Event
  | exitView (header : ExitView)
  | sendExitView
  | commitHeartbeat (view timestamp commit now : Nat)
  | exitViewWindowTimeout

variable (s : Voting)

def votersFor (view : Nat) : Finset Nat :=
  (s.votes.filter (·.2 = view)).image (·.1)

def voters : Finset Nat :=
  s.votersFor s.replica.view

def vote (replica view : Nat) : Voting :=
  { s with votes := insert (replica, view) s.votes }

def rescind (replica view : Nat) : Voting :=
  { s with votes := s.votes.erase (replica, view) }

def keepOwn : Voting :=
  { s with votes := s.votes.filter (·.1 = s.replica.replicaIndex) }

-- The replica moves on to another state, which departs from its view if the views differ.
def advance (r : Replica) : Voting :=
  { s with
    replica := r
    departures := if r.view = s.replica.view then s.departures else s.departures ++ [s.voters] }

-- A heartbeat of the primary that is newer than the last one.
def freshHeartbeat (view timestamp : Nat) : Prop :=
  ¬s.replica.isPrimary ∧ s.replica.status = .normal ∧ view = s.replica.view ∧
    s.replica.heartbeatTimestamp < timestamp

instance {view timestamp : Nat} : Decidable (s.freshHeartbeat view timestamp) :=
  inferInstanceAs (Decidable (_ ∧ _))

def step [Env] (s : Voting) : Event → Result Voting
  | .exitView header => do
    return (s.vote header.replica header.view).advance (← s.replica.onExitView header)
  | .sendExitView => do
    return (s.vote s.replica.replicaIndex s.replica.view).advance (← s.replica.sendExitView)
  | .commitHeartbeat view timestamp commit now => do
    let r ← s.replica.onCommitHeartbeat view timestamp commit now
    return if s.freshHeartbeat view timestamp then
      (s.rescind s.replica.replicaIndex s.replica.view).advance r
    else
      s.advance r
  | .exitViewWindowTimeout => do
    return s.keepOwn.advance (← s.replica.onExitViewWindowTimeout)

def machine [Env] : Machine Voting Event Fault where
  init s := (s.replica.status = .normal ∨ s.replica.status = .viewChange) ∧
    s.replica.exitViewFromAllReplicas = 0 ∧ s.votes = ∅ ∧ s.departures = []
  step := step

-- A replica leaves its view by a quorum of votes, and as soon as there is one.
structure ByQuorum (s : Voting) : Prop where
  departed : ∀ voters ∈ s.departures, s.replica.quorum.viewChange ≤ voters.card
  remains : s.voters.card < s.replica.quorum.viewChange

-- No vote is for a newer view, a received vote of a replica whose index is at least the size of a
-- quorum does not precede the quorum, and the own vote does not complete it.
def Regular (s : Voting) : Event → Prop
  | .exitView header =>
    header.view ≤ s.replica.view ∧
      (header.view = s.replica.view →
        let voters := (s.vote header.replica header.view).voters
        s.replica.quorum.viewChange ≤ voters.card ∨
          voters ⊆ Finset.range s.replica.quorum.viewChange)
  | .sendExitView =>
    (s.vote s.replica.replicaIndex s.replica.view).voters.card < s.replica.quorum.viewChange
  | .commitHeartbeat .. | .exitViewWindowTimeout => True

structure Invariant (s : Voting) : Prop extends ByQuorum s where
  status : s.replica.status = .normal ∨ s.replica.status = .viewChange
  bits : s.replica.exitViewFromAllReplicas < 2 ^ 64
  ones : BitSet.ones 64 s.replica.exitViewFromAllReplicas = s.voters
  past : ∀ vote ∈ s.votes, vote.2 ≤ s.replica.view

variable {s : Voting} {replica view : Nat} {r : Replica}

@[simp]
theorem mem_votersFor : replica ∈ s.votersFor view ↔ (replica, view) ∈ s.votes := by
  simp [votersFor]

@[simp]
theorem mem_voters : replica ∈ s.voters ↔ (replica, s.replica.view) ∈ s.votes :=
  mem_votersFor

@[simp]
theorem voters_vote : (s.vote replica s.replica.view).voters = insert replica s.voters := by
  ext
  simp [vote]

theorem voters_vote_of_ne (h : view ≠ s.replica.view) : (s.vote replica view).voters = s.voters := by
  ext
  simp [vote, h.symm]

theorem voters_rescind : (s.rescind replica s.replica.view).voters = s.voters.erase replica := by
  ext
  simp [rescind, and_comm]

theorem voters_keepOwn : s.keepOwn.voters = s.voters.filter (· = s.replica.replicaIndex) := by
  ext
  simp [keepOwn]

theorem ones_vote (hi : s.Invariant) (h : replica < 64) :
    BitSet.ones 64 (BitSet.insert s.replica.exitViewFromAllReplicas replica) =
      (s.vote replica s.replica.view).voters := by
  rw [BitSet.ones_insert h, hi.ones, voters_vote]

-- The comparison that the code makes, in terms of the votes.
theorem quorum_iff (hi : s.Invariant) (h : replica < 64) :
    2 ^ s.replica.quorum.viewChange - 1 ≤ BitSet.insert s.replica.exitViewFromAllReplicas replica ↔
      s.replica.quorum.viewChange ≤ (s.vote replica s.replica.view).voters.card ∨
        ¬(s.vote replica s.replica.view).voters ⊆ Finset.range s.replica.quorum.viewChange := by
  rw [BitSet.mask_le_iff (BitSet.insert_lt hi.bits h), BitSet.countOnes, ones_vote hi h]

namespace Invariant

variable {t : Voting}

-- The replica counts the votes of `t` and remains in its view.
theorem remain (hi : s.Invariant) (ht : t.replica = s.replica) (hd : t.departures = s.departures)
    (hp : ∀ vote ∈ t.votes, vote.2 ≤ s.replica.view) (hv : r.view = s.replica.view)
    (hn : r.replicaCount = s.replica.replicaCount) (hs : r.status = s.replica.status)
    (hb : r.exitViewFromAllReplicas < 2 ^ 64)
    (ho : BitSet.ones 64 r.exitViewFromAllReplicas = t.voters)
    (hc : t.voters.card < s.replica.quorum.viewChange) : (t.advance r).Invariant := by
  have hq : r.quorum = s.replica.quorum := by rw [Replica.quorum, hn, Replica.quorum]
  have hv' : r.view = t.replica.view := by rw [hv, ht]
  have he : (t.advance r).voters = t.voters := by
    ext
    simp [advance, hv']
  constructor
  case toByQuorum =>
    constructor
    case departed => simpa [advance, hv', hd, hq] using hi.departed
    case remains => rwa [he, advance, hq]
  case status => exact hs ▸ hi.status
  case bits => exact hb
  case ones => exact ho.trans he.symm
  case past => exact hv ▸ hp

-- The votes for the view that the replica leaves do not count for the next one.
theorem depart (hi : s.Invariant) (ht : t.replica = s.replica) (hd : t.departures = s.departures)
    (hp : ∀ vote ∈ t.votes, vote.2 ≤ s.replica.view) (hv : r.view = s.replica.view + 1)
    (hn : r.replicaCount = s.replica.replicaCount) (hs : r.status = .viewChange)
    (hb : r.exitViewFromAllReplicas = 0) (hc : s.replica.quorum.viewChange ≤ t.voters.card) :
    (t.advance r).Invariant := by
  have hq : r.quorum = s.replica.quorum := by rw [Replica.quorum, hn, Replica.quorum]
  have he : (t.advance r).voters = ∅ := by
    ext i
    simp only [mem_voters, advance, Finset.notMem_empty, iff_false, hv]
    exact fun h => Nat.not_succ_le_self _ (hp _ h)
  constructor
  case toByQuorum =>
    constructor
    case departed =>
      simp only [advance, ht, hv, Nat.succ_ne_self, ↓reduceIte, List.mem_append,
        List.mem_singleton, hq, hd]
      rintro voters (h | rfl)
      · exact hi.departed voters h
      · exact hc
    case remains =>
      rw [he]
      exact Quorum.viewChange_pos
  case status => exact .inr hs
  case bits => simp [advance, hb]
  case ones => simp [advance, hb, BitSet.ones_zero, ← he]
  case past => exact fun vote h => (hp vote h).trans (hv ▸ Nat.le_succ _)

theorem past_vote (hi : s.Invariant) (hv : view ≤ s.replica.view) :
    ∀ vote ∈ (s.vote replica view).votes, vote.2 ≤ s.replica.view := by
  simp only [Voting.vote, Finset.mem_insert]
  rintro vote (rfl | h)
  · exact hv
  · exact hi.past vote h

variable [Env] {header : ExitView} {timestamp commit now : Nat}

theorem exitView (hi : s.Invariant) (hg : s.Regular (.exitView header)) :
    Meets (fun _ => True) Invariant (s.step (.exitView header)) := by
  have ⟨hle, hg⟩ := hg
  simp only [step, Replica.onExitView, Meets.bind_eq, Meets.ite_iff, Meets.pure_eq, partial_assert]
  refine ⟨fun hs => absurd hs ?status, fun _ => ⟨fun hlt => ?past, fun hnlt hr _ => ?current⟩⟩
  case status =>
    have := hi.status
    tauto
  case past =>
    have he : (s.vote header.replica header.view).voters = s.voters := voters_vote_of_ne hlt.ne
    exact hi.remain rfl rfl (hi.past_vote hle) rfl rfl rfl hi.bits (he ▸ hi.ones) (he ▸ hi.remains)
  case current =>
    have hv : header.view = s.replica.view := by omega
    have hq := quorum_iff hi hr
    have hp : ∀ vote ∈ (s.vote header.replica header.view).votes, vote.2 ≤ s.replica.view :=
      hi.past_vote hle
    rw [hv] at hp ⊢
    constructor
    case left =>
      intro hb
      have hc := (hq.mp hb).elim id fun h => (hv ▸ hg hv).resolve_right h
      exact Replica.transitionToViewChangeStatus_meets .all fun _ _ _ _ _ _ =>
        hi.depart rfl rfl hp rfl rfl rfl rfl hc
    case right =>
      intro hb
      have hc := not_or.mp (hq.not.mp hb)
      exact hi.remain rfl rfl hp rfl rfl rfl (BitSet.insert_lt hi.bits hr) (ones_vote hi hr)
        (by omega)

theorem sendExitView (hi : s.Invariant) (hg : s.Regular .sendExitView) :
    Meets (fun _ => True) Invariant (s.step .sendExitView) := by
  simp only [step, Replica.sendExitView, Meets.bind_eq, Meets.pure_eq, partial_assert]
  intro hr
  exact hi.remain rfl rfl (hi.past_vote le_rfl) rfl rfl rfl (BitSet.insert_lt hi.bits hr)
    (ones_vote hi hr) hg

theorem commitHeartbeat (hi : s.Invariant) :
    Meets (fun _ => True) Invariant (s.step (.commitHeartbeat view timestamp commit now)) := by
  simp only [step, Replica.onCommitHeartbeat, Meets.bind_eq, Meets.ite_iff, Meets.pure_eq,
    partial_assert, Replica.advanceCommitMax_eq]
  refine ⟨fun hs => ?ignored, fun hs => ⟨fun ht hr => ?fresh, fun ht => ?stale⟩⟩
  case ignored =>
    have hf : ¬s.freshHeartbeat view timestamp := by
      unfold freshHeartbeat
      tauto
    rw [if_neg hf]
    exact hi.remain rfl rfl hi.past rfl rfl rfl hi.bits hi.ones hi.remains
  case fresh =>
    have hf : s.freshHeartbeat view timestamp := by
      unfold freshHeartbeat
      tauto
    rw [if_pos hf]
    refine hi.remain rfl rfl ?past rfl rfl rfl (BitSet.erase_le.trans_lt hi.bits) ?ones ?card
    case past => exact fun vote h => hi.past vote (Finset.mem_of_mem_erase h)
    case ones => rw [BitSet.ones_erase hr, hi.ones, voters_rescind]
    case card =>
      rw [voters_rescind]
      exact Finset.card_erase_le.trans_lt hi.remains
  case stale =>
    have hf : ¬s.freshHeartbeat view timestamp := fun h => ht h.2.2.2
    rw [if_neg hf]
    exact hi.remain rfl rfl hi.past rfl rfl rfl hi.bits hi.ones hi.remains

theorem exitViewWindowTimeout (hi : s.Invariant) :
    Meets (fun _ => True) Invariant (s.step .exitViewWindowTimeout) := by
  simp only [step, Replica.onExitViewWindowTimeout, Meets.bind_eq, Meets.pure_eq, meets_assertOn_eq,
    implies_true, and_true, partial_assert]
  intro _ _ hr
  have hm : s.replica.exitViewFromAllReplicas.testBit s.replica.replicaIndex ↔
      s.replica.replicaIndex ∈ s.voters := by
    simp [← hi.ones, hr]
  refine hi.remain rfl rfl ?past rfl rfl rfl ?bits ?ones ?card
  case past => exact fun vote h => hi.past vote (Finset.mem_of_mem_filter vote h)
  case bits =>
    dsimp only
    split
    · exact BitSet.shiftLeft_lt hr
    · decide
  case ones =>
    simp only [voters_keepOwn, Finset.filter_eq', ← hm]
    split
    · exact BitSet.ones_shiftLeft hr
    · exact BitSet.ones_zero
  case card =>
    rw [voters_keepOwn]
    exact (Finset.card_filter_le _ _).trans_lt hi.remains

theorem init (h : machine.init s) : s.Invariant := by
  have ⟨hs, hb, hv, hd⟩ := h
  have he : s.voters = ∅ := by simp [voters, votersFor, hv]
  constructor
  case toByQuorum => exact ⟨by simp [hd], he ▸ Quorum.viewChange_pos⟩
  case status => exact hs
  case bits => simp [hb]
  case ones => rw [hb, BitSet.ones_zero, he]
  case past => simp [hv]

theorem step {e : Event} (hi : s.Invariant) (hg : s.Regular e) :
    Meets (fun _ => True) Invariant (s.step e) := by
  cases e with
  | exitView              => exact hi.exitView hg
  | sendExitView          => exact hi.sendExitView hg
  | commitHeartbeat       => exact hi.commitHeartbeat
  | exitViewWindowTimeout => exact hi.exitViewWindowTimeout

end Invariant

-- In a run without irregular votes, every view is left by a quorum of votes for that view, and as
-- soon as there is one.
theorem by_quorum_of_regular [Env] (h : machine.Reachable Regular s) : s.ByQuorum :=
  Invariant.toByQuorum <| h.invariant (fun _ => .init) fun _ _ _ hi hg => (hi.step hg).post

section

attribute [local instance] Env.plain

instance : DecidablePred ByQuorum := fun _ =>
  decidable_of_iff (_ ∧ _) ⟨fun ⟨hd, hr⟩ => ⟨hd, hr⟩, fun h => ⟨h.departed, h.remains⟩⟩

instance {e : Event} : Decidable (s.Regular e) :=
  match e with
  | .exitView _            => inferInstanceAs (Decidable (_ ∧ (_ → _ ∨ _)))
  | .sendExitView          => inferInstanceAs (Decidable (_ < _))
  | .commitHeartbeat ..    => .isTrue trivial
  | .exitViewWindowTimeout => .isTrue trivial

def startedVoting : Voting where
  replica := .started 0 0 3 (by decide)
  votes := ∅
  departures := []

theorem init_startedVoting : machine.init startedVoting :=
  ⟨.inl rfl, rfl, rfl, rfl⟩

def voteOf (replica : Nat) : Event :=
  .exitView { cluster := 0, view := 0, replica }

-- In a cluster of three, two votes make a quorum.
theorem by_quorum_of_regular_started :
    ∃ s, machine.Reachable Regular s ∧ s.ByQuorum ∧ s.departures = [{1, 2}] := by
  have hl : machine.Leads Regular (·.departures = [{1, 2}]) [voteOf 1, voteOf 2] startedVoting := by
    decide
  have ⟨s, hs, hd⟩ := Machine.Reachable.leads (.init init_startedVoting) hl
  exact ⟨s, hs, by_quorum_of_regular hs, hd⟩

-- The vote of the last replica suffices to leave the view.
theorem not_by_quorum : ¬∀ s, machine.Reachable (fun _ _ => True) s → s.ByQuorum := by
  intro h
  have hl : machine.Leads (fun _ _ => True) (¬·.ByQuorum) [voteOf 2] startedVoting := by decide
  have ⟨s, hs, hq⟩ := Machine.Reachable.leads (.init init_startedVoting) hl
  exact hq (h s hs)

end

end Voting

end TigerBeetle
