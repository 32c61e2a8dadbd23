import TigerBeetle.Machine
import TigerBeetle.Theorems.Requests

namespace TigerBeetle

open Fallible Fault

-- The failures that are not about checkpoints which diverge.
abbrev Undiverged : Fault → Prop :=
  Besides .checkpoint

theorem undiverged : Lenient Undiverged :=
  .besides (by decide)

variable {message : String}

theorem undiverged_quorum : Undiverged (.panic .quorum message) :=
  nofun

theorem undiverged_session : Undiverged (.panic .session message) :=
  nofun

theorem undiverged_window : Undiverged (.panic .window message) :=
  nofun

variable {Q : Unit → Prop} {p : Prop}

theorem undiverged_timeout [Decidable p] :
    Meets Undiverged Q (assertOn .timeout p message) = (p → Q ()) := by
  rw [meets_assertOn_eq, eq_true (show Undiverged (.panic .timeout message) from nofun), implies_true,
    and_true]

theorem undiverged_assert [Decidable p] : Meets Undiverged Q (assert p message) = (p → Q ()) :=
  undiverged.assert_eq

theorem undiverged_abort {α : Type} {Q : α → Prop} : Meets Undiverged Q (abort message) :=
  undiverged.general message

-- The failures besides those of a timeout that fires into a state which it cannot handle.
abbrev Handled : Fault → Prop :=
  Besides .timeout

theorem careless_handled : Careless Handled :=
  .besides (by decide) (by decide)

theorem handled : Lenient Handled :=
  careless_handled.toLenient

theorem handled_assert [Decidable p] : Meets Handled Q (assert p message) = (p → Q ()) :=
  handled.assert_eq

theorem handled_assertOn {concern : Concern} (h : concern ≠ .timeout) [Decidable p] :
    Meets Handled Q (assertOn concern p message) = (p → Q ()) := by
  rw [meets_assertOn_eq, eq_true (show Handled (.panic concern message) from h), implies_true, and_true]

theorem handled_window [Decidable p] : Meets Handled Q (assertOn .window p message) = (p → Q ()) :=
  handled_assertOn (by decide)

theorem handled_timeout [Decidable p] (h : p) :
    Meets Handled Q (assertOn .timeout p message) = Q () := by
  rw [meets_assertOn_eq, eq_true h, true_implies, not_true_eq_false, false_implies, and_true]

theorem handled_abort {α : Type} {Q : α → Prop} : Meets Handled Q (abort message) :=
  handled.general message

-- The failures that are about neither of these.
def Incidental : Fault → Prop
  | .panic concern _ => concern ≠ .checkpoint ∧ concern ≠ .timeout
  | .cutOff          => True

theorem incidental : Lenient Incidental where
  general _ := by simp [Incidental]
  cutOff := trivial

theorem incidental_window : Incidental (.panic .window message) := by
  simp [Incidental]

theorem incidental_assert [Decidable p] : Meets Incidental Q (assert p message) = (p → Q ()) :=
  incidental.assert_eq

theorem incidental_abort {α : Type} {Q : α → Prop} : Meets Incidental Q (abort message) :=
  incidental.general message

theorem Incidental.undiverged {fault : Fault} (h : Incidental fault) : Undiverged fault := by
  cases fault with
  | panic  => exact h.1
  | cutOff => trivial

theorem Incidental.handled {fault : Fault} (h : Incidental fault) : Handled fault := by
  cases fault with
  | panic  => exact h.2
  | cutOff => trivial

-- A check that fails no assertion about checkpoints or timeouts.
def Concurs {α : Type} (x : Result α) : Prop :=
  Meets Incidental (fun _ => True) x

namespace Concurs

variable {α β : Type} {x : Result α} {Q : α → Prop}

theorem of_unwatched (h : Unwatched x) : Concurs x :=
  incidental.meets h fun _ _ => trivial

theorem meets_of {E : Fault → Prop} (he : ∀ fault, Incidental fault → E fault) (h : Concurs x)
    (hq : ∀ a, x = .ok a → Q a) : Meets E Q x := by
  cases x with
  | ok a        => exact hq a rfl
  | error fault => exact he fault h

theorem here (h : Concurs x) (hq : ∀ a, x = .ok a → Q a) : Meets Incidental Q x :=
  h.meets_of (fun _ => id) hq

theorem meets (h : Concurs x) (hq : ∀ a, x = .ok a → Q a) : Meets Undiverged Q x :=
  h.meets_of (fun _ => Incidental.undiverged) hq

theorem handled (h : Concurs x) (hq : ∀ a, x = .ok a → Q a) : Meets Handled Q x :=
  h.meets_of (fun _ => Incidental.handled) hq

theorem bind {f : α → Result β} (h : Concurs x) (hf : ∀ a, Concurs (f a)) : Concurs (x >>= f) :=
  Meets.bind_iff.mpr (h.here fun a _ => hf a)

theorem mapM {f : α → Result β} (hf : ∀ a, Concurs (f a)) {l : List α} : Concurs (l.mapM f) := by
  induction l with
  | nil => trivial
  | cons a l ih =>
    rw [List.mapM_cons]
    exact (hf a).bind fun _ => ih.bind fun _ => trivial

theorem forM {f : α → Result PUnit} (hf : ∀ a, Concurs (f a)) {l : List α} :
    Concurs (l.forM f) := by
  induction l with
  | nil => trivial
  | cons a l ih => exact (hf a).bind fun _ => ih

end Concurs

variable {opMin count : Nat}

namespace Journal

variable {journal : Journal} {header : Prepare}

theorem hasHeader_concurs : Concurs (journal.hasHeader header) :=
  hasHeader_meets incidental trivial

theorem hasPrepare_concurs : Concurs (journal.hasPrepare header) := by
  unfold Concurs hasPrepare
  simp only [Meets.bind_eq, Meets.ite_iff, Meets.pure_eq, incidental_assert, implies_true, and_true]

theorem findLatestHeadersBreak_concurs {opMax : Nat} {b : Option Prepare}
    {range : Option HeaderRange} :
    Concurs (journal.findLatestHeadersBreak opMin opMax count b range) := by
  induction count generalizing b range with
  | zero => trivial
  | succ count ih =>
    have ih' {b : Option Prepare} {range : Option HeaderRange} : Meets Incidental (fun _ => True)
        (journal.findLatestHeadersBreak opMin opMax count b range) := ih
    unfold Concurs findLatestHeadersBreak
    dsimp only
    split
    all_goals simp only [Meets.bind_eq, Meets.ite_iff, Meets.pure_eq, meets_assert_eq, meets_abort,
      incidental.general, ih', implies_true, and_true]

theorem findLatestHeadersBreakBetween_concurs {opMax : Nat} :
    Concurs (journal.findLatestHeadersBreakBetween opMin opMax) := by
  unfold Concurs findLatestHeadersBreakBetween
  simp only [Meets.bind_eq, incidental_assert]
  intro _ _ _
  refine findLatestHeadersBreak_concurs.here fun range _ => ?_
  cases range with
  | none => trivial
  | some range =>
    simp only [Meets.bind_eq, Meets.pure_eq, incidental_assert, implies_true]

end Journal

namespace ClientReplies

variable {replies : ClientReplies}

theorem ready_concurs : Concurs replies.ready := by
  unfold Concurs ready
  simp only [Meets.bind_eq, Meets.pure_eq, incidental_assert, implies_true]

theorem checkpoint_concurs : Concurs replies.checkpoint := by
  unfold Concurs checkpoint
  simp only [Meets.bind_eq, Meets.pure_eq, incidental_assert, implies_true]

end ClientReplies

variable {op : Nat}

namespace JvQuorum

variable {jvs : List (Option JoinedView)} {all : List JoinedView}

theorem received_concurs {replica : Nat} : Concurs (received replica jvs) := by
  induction jvs generalizing replica with
  | nil => trivial
  | cons slot jvs ih =>
    cases slot with
    | none => exact ih
    | some message =>
      unfold Concurs received
      simp only [Meets.bind_eq, Meets.pure_eq, incidental_assert]
      exact fun _ => ih

theorem logViewMax_concurs : Concurs (logViewMax jvs) := by
  refine received_concurs.bind fun all => ?_
  simp only [Concurs, Meets.bind_eq, incidental_assert]
  intro _
  split
  case h_1 => trivial
  case h_2 => exact incidental_abort

theorem commitMax_concurs : Concurs (commitMax jvs) := by
  have hof {jv : JoinedView} : Concurs (commitMaxOf jv) := by
    unfold commitMaxOf
    split
    case h_2 => exact incidental_abort
    case h_1 =>
      split
      case h_1 => trivial
      case h_2 => exact incidental_abort
  refine received_concurs.bind fun all => ?_
  simp only [Concurs, Meets.bind_eq, Meets.pure_eq, incidental_assert]
  exact fun _ => Concurs.mapM fun _ => hof

theorem timestampMax_concurs : Concurs (timestampMax jvs) := by
  refine received_concurs.bind fun all => (Concurs.mapM fun jv => ?_).bind fun _ => ?_
  · split
    case h_1 => trivial
    case h_2 => exact incidental_abort
  · split
    case h_1 => trivial
    case h_2 => exact incidental_abort

theorem opMaxCanonical_concurs : Concurs (opMaxCanonical jvs) := by
  have hcanonical : Concurs (jvsCanonical jvs) :=
    logViewMax_concurs.bind fun _ => received_concurs.bind fun _ => trivial
  refine hcanonical.bind fun _ => ?_
  split
  case h_1 => trivial
  case h_2 => exact incidental_abort

theorem headerCanonical_concurs : Concurs (headerCanonical op all) := by
  induction all with
  | nil => trivial
  | cons jv all ih =>
    have ih' : Meets Incidental (fun _ => True) (headerCanonical op all) := ih
    unfold Concurs headerCanonical
    refine Meets.ite_iff.mpr ⟨fun _ => ih, fun _ => ?_⟩
    split
    case h_1 => exact incidental_abort
    case h_2 =>
      simp only [Meets.bind_eq, Meets.ite_iff, Meets.pure_eq, meets_assert_eq, incidental.general,
        ih', implies_true, and_true]

theorem tally_concurs {logViewCanonical : Nat} {canonical : Option Prepare} :
    Concurs (tally op logViewCanonical canonical all) := by
  refine (Concurs.mapM fun jv => ?_).bind fun _ => trivial
  unfold Concurs tallyOf
  refine Meets.ite_iff.mpr ⟨fun _ => trivial, fun _ => ?_⟩
  dsimp only
  split
  case h_1 => trivial
  case h_2 =>
    cases canonical
    all_goals simp only [Meets.bind_eq, Meets.ite_iff, Meets.pure_eq, incidental_assert,
      implies_true, and_true]

theorem findHead_concurs {options : QuorumOptions} {canonical : List JoinedView}
    {logViewCanonical opHeadMin : Nat} :
    Concurs (findHead options all canonical logViewCanonical opHeadMin count op) := by
  induction count generalizing op with
  | zero => trivial
  | succ count ih =>
    have ih' : Meets Incidental (fun _ => True)
        (findHead options all canonical logViewCanonical opHeadMin count (op + 1)) := ih
    unfold findHead
    refine headerCanonical_concurs.bind fun _ => tally_concurs.bind fun _ => ?_
    simp only [Concurs, Meets.bind_eq, Meets.ite_iff, Meets.pure_eq, meets_assert_eq,
      incidental.general, ih', implies_true, and_true]

theorem headerForOp_concurs {logView : Nat} {found : Option Prepare} :
    Concurs (headerForOp op logView found all) := by
  induction all generalizing found with
  | nil => trivial
  | cons jv all ih =>
    unfold Concurs headerForOp
    simp only [Meets.bind_eq, incidental_assert]
    refine fun _ => Meets.ite_iff.mpr ⟨fun _ => ih, fun _ => ?_⟩
    split
    case h_1 => exact ih
    case h_2 =>
      refine Meets.ite_iff.mpr ⟨fun _ => ?_, fun _ => ih⟩
      cases found with
      | none => exact ih
      | some header =>
        simp only [Meets.bind_eq, incidental_assert]
        exact fun _ => ih

theorem collectHeaders_concurs {logView : Nat} {childParent : Option Nat} :
    Concurs (collectHeaders all logView opMin count childParent) := by
  induction count generalizing childParent with
  | zero => trivial
  | succ count ih =>
    unfold collectHeaders
    refine headerForOp_concurs.bind fun header => ?_
    simp only [Concurs, Meets.bind_eq, incidental_assert]
    intro _
    cases header with
    | none        => exact incidental_abort
    | some header => exact ih.bind fun _ => trivial

theorem quorumHeaders_concurs {options : QuorumOptions} : Concurs (quorumHeaders jvs options) := by
  have hcanonical : Concurs (jvsCanonical jvs) :=
    logViewMax_concurs.bind fun _ => received_concurs.bind fun _ => trivial
  have hview {canonical : List JoinedView} {opMax opMin : Nat} :
      Concurs (headersForView canonical opMax opMin) := by
    unfold headersForView
    split
    case h_2 => exact incidental_abort
    case h_1 =>
      simp only [Concurs, Meets.bind_eq, incidental_assert]
      exact fun _ => collectHeaders_concurs
  unfold Concurs quorumHeaders
  simp only [Meets.bind_eq, Meets.ite_iff, Meets.pure_eq, incidental_assert]
  intro _ _ _
  refine ⟨fun _ _ => ?_, fun _ _ => ?_⟩
  all_goals
    refine received_concurs.here fun _ _ => ⟨fun _ => trivial, fun _ => ?_⟩
    refine logViewMax_concurs.here fun _ _ => hcanonical.here fun _ _ _ _ => ?_
    refine opMaxCanonical_concurs.here fun _ _ => commitMax_concurs.here fun _ _ _ => ?_
    refine findHead_concurs.here fun head _ => ?_
    cases head with
    | awaitingRepair  => trivial
    | completeInvalid => trivial
    | found opHead    =>
      simp only [Meets.bind_eq, Meets.pure_eq, incidental_assert]
      exact fun _ _ => hview.here fun _ _ => trivial

theorem verify_concurs : Concurs (verify jvs) := by
  have hmessage {message : JoinedView} : Concurs (verifyMessage message) := by
    unfold Concurs verifyMessage
    simp only [Meets.bind_eq, incidental_assert]
    intros
    split
    case h_2 => exact incidental_abort
    case h_1 =>
      simp only [Meets.bind_eq, incidental_assert, implies_true]
  have hops {a b : JoinedView} {opMin count : Nat} : Concurs (verifyOps a b opMin count) := by
    induction count with
    | zero => trivial
    | succ count ih =>
      unfold verifyOps
      refine ih.bind fun _ => ?_
      dsimp only
      split
      case h_2 => exact incidental_abort
      case h_1 =>
        split
        case h_2 => exact incidental_abort
        case h_1 =>
          simp only [Concurs, Meets.ite_iff, Meets.pure_eq, incidental_assert, implies_true, and_true]
  have hpair {a b : JoinedView} : Concurs (verifyPair a b) := by
    unfold Concurs verifyPair
    refine Meets.ite_iff.mpr ⟨fun _ => trivial, fun _ => ?_⟩
    split
    case h_1 => exact hops
    case h_2 => exact incidental_abort
  have hpairs {before after : List JoinedView} : Concurs (verifyPairs before after) := by
    induction after generalizing before with
    | nil => trivial
    | cons jv jvs ih => exact (Concurs.forM fun _ => hpair).bind fun _ => ih
  exact received_concurs.bind fun _ => (Concurs.forM fun _ => hmessage).bind fun _ => hpairs

end JvQuorum

namespace Replica

variable {r : Replica}

theorem opRepairMax_concurs : Concurs r.opRepairMax := by
  unfold Concurs opRepairMax
  simp only [Meets.bind_eq, Meets.pure_eq, meets_assert_eq, meets_assertOn_eq, incidental.general,
    incidental_window, implies_true, and_true]

theorem assertRepairs_concurs : Concurs r.assertRepairs := by
  have hallowed : Concurs r.repairsAllowed := by
    unfold Concurs repairsAllowed
    split
    all_goals simp only [Meets.bind_eq, Meets.ite_iff, Meets.pure_eq, incidental_assert,
      implies_true, and_true]
  unfold Concurs assertRepairs
  simp only [Meets.bind_eq, incidental_assert, implies_true]
  exact fun _ => hallowed

theorem chooseAnyOtherReplica_concurs : Concurs r.chooseAnyOtherReplica := by
  unfold Concurs chooseAnyOtherReplica
  simp only [Meets.bind_eq, Meets.pure_eq, incidental_assert, implies_true]

theorem viewHead_concurs {commitMax : Nat} {headers : List Prepare} :
    Concurs (r.viewHead commitMax headers) := by
  induction headers with
  | nil => trivial
  | cons header headers ih =>
    have ih' : Meets Incidental (fun _ => True) (r.viewHead commitMax headers) := ih
    unfold Concurs viewHead
    simp only [Meets.bind_eq, Meets.ite_iff, Meets.pure_eq, meets_assert_eq, incidental.general, ih',
      implies_true, and_true]

theorem connectsHashChain_concurs {fuel : Nat} {entry : Prepare} :
    Concurs (r.connectsHashChain fuel entry) := by
  induction fuel generalizing entry with
  | zero => exact incidental.cutOff
  | succ fuel ih =>
    unfold connectsHashChain
    refine Meets.ite_iff.mpr ⟨fun _ => ?_, fun _ => trivial⟩
    split
    case h_1 => trivial
    case h_2 => exact Meets.ite_iff.mpr ⟨fun _ => trivial, fun _ => ih⟩

theorem ignoreJoinView_concurs {joinView : JoinView} : Concurs (r.ignoreJoinView joinView) := by
  unfold Concurs ignoreJoinView
  simp only [Meets.bind_eq, Meets.ite_iff, Meets.pure_eq, incidental_assert, implies_true, and_true]

theorem ignoreView_concurs {view : View} : Concurs (r.ignoreView view) := by
  unfold Concurs ignoreView
  simp only [Meets.bind_eq, Meets.pure_eq, incidental_assert, implies_true]

theorem opPrepareOkMax_concurs : Concurs r.opPrepareOkMax :=
  Concurs.bind (.of_unwatched opCheckpointNextTrigger_unwatched) fun _ => trivial

theorem commitTriggersCheckpoint_concurs : Concurs r.commitTriggersCheckpoint := by
  unfold commitTriggersCheckpoint
  split
  case h_2 => exact incidental_abort
  case h_1 =>
    simp only [Concurs, Meets.bind_eq, incidental_assert]
    intro _
    refine (Concurs.of_unwatched opCheckpointNextTrigger_unwatched).here fun _ _ => ?_
    simp only [Meets.pure_eq, implies_true]

theorem validHashChain_concurs : Concurs r.validHashChain := by
  have hbetween {opMin opMax : Nat} :
      Meets Incidental (fun _ => True) (r.validHashChainBetween opMin opMax) :=
    Concurs.of_unwatched validHashChainBetween_unwatched
  unfold Concurs validHashChain
  simp only [Meets.bind_eq, incidental_assert]
  intro _ _
  refine opRepairMax_concurs.here fun _ _ => ?_
  simp only [Meets.bind_eq, Meets.ite_iff, Meets.pure_eq, meets_assert_eq, incidental.general,
    hbetween, implies_true, and_true]

theorem primaryJournalHeadersRepaired_concurs : Concurs r.primaryJournalHeadersRepaired := by
  unfold Concurs primaryJournalHeadersRepaired
  simp only [Meets.bind_eq, incidental_assert]
  intros
  exact Concurs.of_unwatched validHashChainBetween_unwatched

-- The checks for the header of a repair, after which it is installed or not.
theorem repairHeader_meets {E : Fault → Prop} {Q : Bool × Replica → Prop} {header : Prepare}
    (he : ∀ fault, Incidental fault → E fault) (skip : Q (false, r))
    (install : Meets E (fun journal => Q (true, { r with journal })) (r.journal.setHeaderAsDirty header)) :
    Meets E Q (r.repairHeader header) := by
  have hset : Meets E Q (do
      return (true, { r with journal := ← r.journal.setHeaderAsDirty header })) :=
    Meets.bind_iff.mpr install
  have any {α : Type} {x : Result α} {f : α → Result (Bool × Replica)} (hx : Concurs x)
      (hf : ∀ a, Meets E Q (f a)) : Meets E Q (x >>= f) :=
    Meets.bind_iff.mpr (hx.meets_of he fun a _ => hf a)
  have hhead : Concurs (if header.op = r.op then (!·) <$> r.journal.hasHeader header
      else pure false) :=
    Meets.ite_iff.mpr ⟨fun _ => Meets.map_iff.mpr Journal.hasHeader_concurs, fun _ => trivial⟩
  have hstatus {p : Prop} [Decidable p] {message : String} : Concurs (assert p message) :=
    meets_assert.mpr ⟨fun _ => trivial, fun _ => incidental.general _⟩
  have hconnects : Concurs (r.repairHeaderWouldConnectHashChain header) :=
    connectsHashChain_concurs
  unfold repairHeader
  refine any hstatus fun _ => ?_
  simp only [Meets.ite_iff, Meets.pure_eq]
  refine ⟨fun _ => skip, fun _ => ⟨fun _ => skip, fun _ => any hhead fun _ => ?_⟩⟩
  simp only [Meets.ite_iff, Meets.pure_eq]
  refine ⟨fun _ => skip, fun _ => ⟨fun _ => skip, fun _ => ?_⟩⟩
  refine any Journal.hasHeader_concurs fun _ => any Journal.hasPrepare_concurs fun _ => ?_
  simp only [Meets.ite_iff, Meets.pure_eq]
  refine ⟨fun _ => skip, fun _ => ⟨fun _ => any hconnects fun _ => ?_, fun _ => ?_⟩⟩
  case' refine_2 => refine any trivial fun _ => ?_
  all_goals exact Meets.ite_iff.mpr ⟨fun _ => skip, fun _ => hset⟩

variable [Env]

theorem headersBelow_concurs : Concurs (r.headersBelow count op) := by
  induction count generalizing op with
  | zero => trivial
  | succ count ih =>
    cases op with
    | zero    => trivial
    | succ op =>
      exact (Concurs.of_unwatched journalHeaderOrRoot_unwatched).bind fun _ => ih.bind fun _ => trivial

theorem headersAtHooks_concurs {hooks : List Nat} : Concurs (r.headersAtHooks opMin op hooks) := by
  induction hooks generalizing op with
  | nil => trivial
  | cons hook hooks ih =>
    unfold headersAtHooks
    refine Meets.ite_iff.mpr ⟨fun _ => ?_, fun _ => ih⟩
    exact (Concurs.of_unwatched journalHeaderOrRoot_unwatched).bind fun _ => ih.bind fun _ => trivial

theorem commitPrefetch_concurs : Concurs r.commitPrefetch := by
  unfold Concurs commitPrefetch StateMachine.prefetch
  split
  case h_2 => exact incidental_abort
  case h_1 =>
    split
    case h_2 => exact incidental_abort
    case h_1 =>
      simp only [Meets.bind_eq, Meets.ite_iff, incidental_assert, implies_true, and_true]

end Replica

end TigerBeetle
