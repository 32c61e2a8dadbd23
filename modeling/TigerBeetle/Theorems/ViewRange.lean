import TigerBeetle.ViewRange
import TigerBeetle.Theorems.ViewChange

-- The views for an op are those of the prepares of the log.
namespace TigerBeetle

open Fallible

-- The prepares of a log by their ops. Each one names its predecessor, and views do not decrease.
structure PrepareLog where
  entry : Nat → Option Prepare
  op : ∀ {op prepare}, entry op = some prepare → prepare.op = op
  chained : ∀ {op prepare child}, entry op = some prepare → entry (op + 1) = some child →
    child.parent = prepare.checksum
  monotonic : ∀ {op op' prepare prepare'}, op ≤ op' → entry op = some prepare →
    entry op' = some prepare' → prepare.view ≤ prepare'.view

namespace ViewChangeHeaders

variable [Env] {command : ViewChangeCommand} {header child next head : Prepare}
variable {headers : List Prepare} {op index logView headOp : Nat}

def IsValid (header : Prepare) : Prop :=
  jvHeaderType header = .ok .valid

-- The headers below one that is valid: blank ones, and valid ones of lower ops and of no higher views.
inductive Descends : Prepare → List Prepare → Prop
  | nil {child : Prepare} : Descends child []
  | blank {child header : Prepare} {headers : List Prepare} (type : jvHeaderType header = .ok .blank)
    (rest : Descends child headers) : Descends child (header :: headers)
  | valid {child header : Prepare} {headers : List Prepare} (type : IsValid header)
    (op : header.op < child.op) (view : header.view ≤ child.view) (rest : Descends header headers) :
    Descends child (header :: headers)

theorem rest_of_verifyFrom {header : Prepare} {headers : List Prepare}
    (h : verifyFrom command headOp child index (header :: headers) = .ok ()) :
    header.op < child.op ∧ ∃ type, jvHeaderType header = .ok type ∧ (match type with
      | .blank => verifyFrom command headOp child (index + 1) headers
      | .valid => do
        assert (header.view ≤ child.view) "header.view <= child.view"
        assert (header.timestamp < child.timestamp) "header.timestamp < child.timestamp"
        if header.op + 1 = child.op then
          assert (header.checksum = child.parent) "header.checksum == child.parent"
        verifyFrom command headOp header (index + 1) headers) = .ok () := by
  unfold verifyFrom at h
  obtain ⟨hlt, h⟩ := assert_ok h
  dsimp only at h
  refine ⟨hlt, ?_⟩
  by_cases hconsecutive : command = .joinView ∨ index < pipelinePrepareQueueMax + 1
  · rw [if_pos hconsecutive] at h
    exact bind_eq_ok.mp (assert_ok h).2
  · rw [if_neg hconsecutive] at h
    exact bind_eq_ok.mp h

theorem descends_of_verifyFrom (h : verifyFrom command headOp child index headers = .ok ()) :
    Descends child headers := by
  induction headers generalizing child index with
  | nil => exact .nil
  | cons header headers ih =>
    obtain ⟨hlt, type, htype, hrest⟩ := rest_of_verifyFrom h
    cases type with
    | blank => exact .blank htype (ih hrest)
    | valid =>
      obtain ⟨hview, hrest⟩ := assert_ok hrest
      obtain ⟨_, hrest⟩ := assert_ok hrest
      refine .valid htype hlt hview ?_
      dsimp only at hrest
      by_cases hadjacent : header.op + 1 = child.op
      · rw [if_pos hadjacent] at hrest
        exact ih (assert_ok hrest).2
      · rw [if_neg hadjacent] at hrest
        exact ih hrest

theorem descends_of_verify (h : verify command headers = .ok ()) :
    ∃ head rest, headers = head :: rest ∧ IsValid head ∧ Descends head rest := by
  cases headers with
  | nil => cases h
  | cons head rest =>
    unfold verify at h
    obtain ⟨_, h⟩ := assert_ok h
    obtain ⟨type, htype, h⟩ := bind_eq_ok.mp h
    obtain ⟨rfl, h⟩ := assert_ok h
    exact ⟨head, rest, rfl, htype, descends_of_verifyFrom h⟩

theorem oldestFrom_of (h : Descends child headers) (hindex : 0 < index) :
    ∃ oldest, oldestFrom index (some child) headers = .ok (some oldest) ∧ oldest.op ≤ child.op ∧
      oldest.view ≤ child.view ∧ oldest ∈ child :: headers ∧ (oldest = child ∨ IsValid oldest) := by
  induction h generalizing index with
  | nil => exact ⟨_, rfl, Nat.le_refl _, Nat.le_refl _, List.mem_cons_self, .inl rfl⟩
  | @blank child header headers htype _ ih =>
    obtain ⟨oldest, holdest, hop, hview, hm, hvalid⟩ := ih (Nat.succ_pos index)
    refine ⟨oldest, ?_, hop, hview, ?_, hvalid⟩
    · unfold oldestFrom
      rw [htype, ok_bind]
      dsimp only
      rw [assert_of hindex, ok_bind, holdest]
    · exact (List.mem_cons.mp hm).elim (fun he => he ▸ List.mem_cons_self) fun hm =>
        List.mem_cons_of_mem _ (List.mem_cons_of_mem _ hm)
  | @valid child header headers htype hop hview _ ih =>
    obtain ⟨oldest, holdest, hop', hview', hm, hvalid⟩ := ih (Nat.succ_pos index)
    refine ⟨oldest, ?_, by omega, by omega, List.mem_cons_of_mem _ hm, .inr ?_⟩
    · unfold oldestFrom
      rw [htype, ok_bind]
      exact holdest
    · exact hvalid.elim (fun he => he ▸ htype) id

theorem oldestFrom_head (hvalid : IsValid head) (h : Descends head headers) :
    ∃ oldest, oldestFrom 0 none (head :: headers) = .ok (some oldest) ∧ oldest.op ≤ head.op ∧
      oldest.view ≤ head.view ∧ oldest ∈ head :: headers ∧ IsValid oldest := by
  obtain ⟨oldest, holdest, hop, hview, hm, hvalid'⟩ := oldestFrom_of h Nat.one_pos
  refine ⟨oldest, ?_, hop, hview, hm, hvalid'.elim (fun he => he ▸ hvalid) id⟩
  unfold oldestFrom
  rw [hvalid, ok_bind]
  exact holdest

-- The types of all headers are known.
def Typed (headers : List Prepare) : Prop :=
  ∀ header ∈ headers, ∃ type, jvHeaderType header = .ok type

theorem Descends.typed (h : Descends child headers) : Typed headers := by
  induction h with
  | nil => nofun
  | blank htype _ ih => exact List.forall_mem_cons.mpr ⟨⟨_, htype⟩, ih⟩
  | valid htype _ _ _ ih => exact List.forall_mem_cons.mpr ⟨⟨_, htype⟩, ih⟩

-- The valid header of the op is found if there is one.
theorem validAt_of (h : Typed headers) : ∃ found, validAt op headers = .ok found ∧
    (∀ header ∈ found, header ∈ headers ∧ IsValid header ∧ header.op = op) ∧
    (found = none → ∀ header ∈ headers, IsValid header → header.op ≠ op) := by
  induction headers with
  | nil => exact ⟨none, rfl, nofun, fun _ => nofun⟩
  | cons header headers ih =>
    obtain ⟨⟨type, htype⟩, hrest⟩ := List.forall_mem_cons.mp h
    unfold validAt
    rw [htype, ok_bind]
    split
    · next hfound =>
      refine ⟨some header, rfl, fun header' hm => ?_, nofun⟩
      obtain rfl := Option.some.inj hm
      exact ⟨List.mem_cons_self, htype.trans (congrArg _ hfound.1), hfound.2⟩
    · next hnot =>
      obtain ⟨found, hfound, hsome, hnone⟩ := ih hrest
      refine ⟨found, hfound, fun header' hm => ?_, fun hn => ?_⟩
      · obtain ⟨hm', hrest'⟩ := hsome header' hm
        exact ⟨List.mem_cons_of_mem _ hm', hrest'⟩
      · refine List.forall_mem_cons.mpr ⟨fun hvalid hop => hnot ⟨?_, hop⟩, hnone hn⟩
        exact Except.ok.inj (htype.symm.trans hvalid)

-- An op between two valid headers, none of which is its own, is found between two successive ones.
theorem between_of (h : Descends next headers) (hnext : op < next.op)
    (hoff : ∀ header ∈ headers, IsValid header → header.op ≠ op) {oldest : Prepare}
    (hm : oldest ∈ next :: headers) (hvalid : IsValid oldest) (hop : oldest.op ≤ op) :
    ∃ prev next', between op next headers = .ok (some ⟨prev.view, next'.view⟩) ∧
      prev ∈ headers ∧ IsValid prev ∧ prev.op < op ∧ op < next'.op ∧ next' ∈ next :: headers ∧
      (next' = next ∨ IsValid next') := by
  induction h with
  | nil =>
    obtain rfl := List.mem_singleton.mp hm
    omega
  | @blank next header headers htype _ ih =>
    obtain ⟨_, hoff⟩ := List.forall_mem_cons.mp hoff
    have hm' : oldest ∈ next :: headers := by
      obtain rfl | hm := List.mem_cons.mp hm
      · exact List.mem_cons_self
      · obtain rfl | hm := List.mem_cons.mp hm
        · exact absurd (Except.ok.inj (htype.symm.trans hvalid)) nofun
        · exact List.mem_cons_of_mem _ hm
    obtain ⟨prev, next', hfound, hprev, hvalid', hlt, hlt', hm'', hor⟩ := ih hnext hoff hm'
    refine ⟨prev, next', ?_, List.mem_cons_of_mem _ hprev, hvalid', hlt, hlt', ?_, hor⟩
    · unfold between
      rw [htype, ok_bind]
      exact hfound
    · exact (List.mem_cons.mp hm'').elim (fun he => he ▸ List.mem_cons_self) fun hm =>
        List.mem_cons_of_mem _ (List.mem_cons_of_mem _ hm)
  | @valid next header headers htype hlt hview _ ih =>
    obtain ⟨hne, hoff⟩ := List.forall_mem_cons.mp hoff
    unfold between
    rw [htype, ok_bind]
    dsimp only
    by_cases hbelow : header.op < op
    · rw [if_pos ⟨hbelow, hnext⟩]
      exact ⟨header, next, rfl, List.mem_cons_self, htype, hbelow, hnext, List.mem_cons_self, .inl rfl⟩
    · have habove : op < header.op := by
        have := hne htype
        omega
      rw [if_neg fun hand => hbelow hand.1]
      have hm' : oldest ∈ header :: headers := by
        obtain rfl | hm := List.mem_cons.mp hm
        · omega
        · exact hm
      obtain ⟨prev, next', hfound, hprev, hvalid', hlt, hlt', hm'', hor⟩ := ih habove hoff hm'
      exact ⟨prev, next', hfound, List.mem_cons_of_mem _ hprev, hvalid', hlt, hlt',
        List.mem_cons_of_mem _ hm'', .inr (hor.elim (fun he => he ▸ htype) id)⟩

-- The logs of a log view: they hold the valid headers, and what is above the head is of the log view.
structure Agrees (log : PrepareLog) (headers : List Prepare) (logView : Nat) : Prop where
  entry : ∀ header ∈ headers, IsValid header → log.entry header.op = some header
  above : ∀ head ∈ headers.head?, ∀ op prepare, head.op < op → log.entry op = some prepare →
    prepare.view = logView

-- The range that is answered holds the view of the prepare of the op, whatever the log is.
theorem viewForOp_sound (hverify : verify command headers = .ok ())
    (hlogView : ∀ head ∈ headers.head?, head.view ≤ logView) :
    ∃ range, viewForOp headers op logView = .ok range ∧
      ∀ log : PrepareLog, Agrees log headers logView → ∀ prepare, log.entry op = some prepare →
        range.min ≤ prepare.view ∧ prepare.view ≤ range.max := by
  obtain ⟨head, rest, rfl, hvalid, hdescends⟩ := descends_of_verify hverify
  obtain ⟨oldest, holdest, hop, hview, hm, hvalid'⟩ := oldestFrom_head hvalid hdescends
  have hle : head.view ≤ logView := hlogView head rfl
  unfold viewForOp
  dsimp only [List.head?_cons]
  rw [holdest, ok_bind]
  dsimp only
  rw [assert_of hle, assert_of hview, assert_of hop, ok_bind, ok_bind, ok_bind]
  by_cases hbelow : op < oldest.op
  · rw [if_pos hbelow]
    refine ⟨_, rfl, fun log hlog prepare hprepare => ⟨Nat.zero_le _, ?_⟩⟩
    exact log.monotonic (Nat.le_of_lt hbelow) hprepare (hlog.entry oldest hm hvalid')
  rw [if_neg hbelow]
  by_cases habove : head.op < op
  · rw [if_pos habove]
    refine ⟨_, rfl, fun log hlog prepare hprepare => ?_⟩
    have heq := hlog.above head rfl op prepare habove hprepare
    exact ⟨Nat.le_of_eq heq.symm, Nat.le_of_eq heq⟩
  rw [if_neg habove]
  have htyped : Typed (head :: rest) := List.forall_mem_cons.mpr ⟨⟨_, hvalid⟩, hdescends.typed⟩
  obtain ⟨found, hfound, hsome, hnone⟩ := @validAt_of _ _ op htyped
  rw [hfound, ok_bind]
  cases found with
  | some header =>
    obtain ⟨hm', hvalid'', rfl⟩ := hsome header rfl
    refine ⟨_, rfl, fun log hlog prepare hprepare => ?_⟩
    obtain rfl := Option.some.inj (hprepare.symm.trans (hlog.entry header hm' hvalid''))
    exact ⟨Nat.le_refl _, Nat.le_refl _⟩
  | none =>
    obtain ⟨hne, hoff⟩ := List.forall_mem_cons.mp (hnone rfl)
    have hnext : op < head.op := by
      have := hne hvalid
      omega
    obtain ⟨prev, next, hrange, hprev, hvalidPrev, hlt, hlt', hmnext, hor⟩ :=
      between_of hdescends hnext hoff hm hvalid' (Nat.le_of_not_lt hbelow)
    have hvalidNext : IsValid next := hor.elim (fun he => he ▸ hvalid) id
    dsimp only
    rw [hvalid, ok_bind, assert_of rfl, ok_bind, List.tail_cons, hrange, ok_bind]
    refine ⟨_, rfl, fun log hlog prepare hprepare => ⟨?_, ?_⟩⟩
    · have hentry := hlog.entry prev (List.mem_cons_of_mem _ hprev) hvalidPrev
      exact log.monotonic (Nat.le_of_lt hlt) hentry hprepare
    · exact log.monotonic (Nat.le_of_lt hlt') hprepare (hlog.entry next hmnext hvalidNext)

end ViewChangeHeaders

namespace ViewChangeHeaders

attribute [local instance] Env.plain

def missing : Prepare :=
  Prepare.setChecksum { Prepare.zeroed with
    op := 1, view := 2, parent := (Prepare.root 0).checksum, operation := .noop }

def gapHead : Prepare :=
  Prepare.setChecksum { Prepare.zeroed with
    op := 2, view := 3, release := 1, parent := missing.checksum, client := 1, timestamp := 1
    request := 1, operation := .noop }

def gapped : List Prepare := [gapHead, jvBlank 1, Prepare.root 0]

-- The log that the headers are of.
def gapLog : PrepareLog where
  entry op := [Prepare.root 0, missing, gapHead][op]?
  op {op _} h := by
    rcases op with _ | _ | _ | _ <;> cases h <;> rfl
  chained {op _ _} h h' := by
    rcases op with _ | _ | _ | _ <;> cases h <;> cases h' <;> rfl
  monotonic {op op' _ _} hle h h' := by
    rcases op with _ | _ | _ | _ <;> cases h <;> rcases op' with _ | _ | _ | _ <;> cases h' <;>
      first | decide | omega

theorem gapLog_agrees : Agrees gapLog gapped 4 where
  entry header hm hvalid := by
    simp only [gapped, List.mem_cons, List.not_mem_nil, or_false] at hm
    obtain rfl | rfl | rfl := hm
    · rfl
    · cases hvalid
    · rfl
  above head hm op prepare hlt h := by
    cases hm
    rcases op with _ | _ | _ | _ <;> cases h <;> contradiction

theorem viewForOp_sound_gap : ∃ range, viewForOp gapped 1 4 = .ok range ∧
    range.min ≤ missing.view ∧ missing.view ≤ range.max := by
  have hverify : verify .joinView gapped = .ok () := by decide
  have hlogView : ∀ head ∈ gapped.head?, head.view ≤ 4 := by decide
  obtain ⟨range, hrange, hlog⟩ := @viewForOp_sound _ _ _ 1 _ hverify hlogView
  exact ⟨range, hrange, hlog gapLog gapLog_agrees missing rfl⟩

end ViewChangeHeaders

end TigerBeetle
