import TigerBeetle.Recovery

namespace TigerBeetle.Wal

variable {header prepare : Option Prepare} {data : RecoveryData} {h p : Prepare}

-- What becomes of a slot by what is left of its two copies. Only a prepare that is intact may be kept,
-- and one of the next checkpoint is truncated.
def slotDecision (data : RecoveryData) (solo : Bool) : Option Prepare → Option Prepare → RecoveryDecision
  | _, none => .vsr
  | none, some p =>
    if p.operation = .reserved then
      if solo then .fix else .vsr
    else if data.opPrepareMax < p.op then
      if solo then .unr else .cut
    else
      if solo ∨ p.op = data.opMax then .fix else .vsr
  | some h, some p =>
    if p.operation = .reserved ∧ h.operation = .reserved then
      .nil
    else if p.operation ≠ .reserved ∧ data.opPrepareMax < p.op ∨
        h.operation ≠ .reserved ∧ data.opPrepareMax < h.op then
      if solo then .unr else .cut
    else if p.operation = .reserved then
      .vsr
    else if h.operation = .reserved ∨ h.checksum ≠ p.checksum ∧ h.op < p.op then
      .fix
    else
      if h.checksum = p.checksum then .eql else .vsr

-- What two intact copies have to have in common. Within the checkpoint they are the same prepare, or
-- prepares of different ops or of different views.
def Agree (data : RecoveryData) (h p : Prepare) : Prop :=
  if p.operation = .reserved then
    if h.operation = .reserved then
      h.checksum = p.checksum ∧ h.op = p.op ∧ h.view = p.view
    else
      data.opPrepareMax < h.op → p.op ≤ h.op
  else
    h.operation = .reserved ∨ data.opPrepareMax < p.op ∨ data.opPrepareMax < h.op ∨
      if h.checksum = p.checksum then h.op = p.op ∧ h.view = p.view else h.op = p.op → h.view ≠ p.view

instance : Decidable (Agree data h p) := by
  unfold Agree
  infer_instance

-- The decisions of a case, without and with other replicas.
def decisions (result : Result Case) : Option (RecoveryDecision × RecoveryDecision) :=
  result.toOption.map fun c => (c.decision false, c.decision true)

theorem decisions_eq_some {result : Result Case} {a b : RecoveryDecision} :
    decisions result = some (a, b) ↔
      ∃ c, result = .ok c ∧ c.decision false = a ∧ c.decision true = b := by
  cases result <;> simp [decisions, Except.toOption]

theorem decisions_header : ∀ hr hb : Bool,
    decisions (matchCase [true, hr, false, false, false, false, hb, false, false, false, false]
      recoveryCases none) = some (.vsr, .vsr) := by
  decide

theorem decisions_prepare : ∀ pr m pb : Bool,
    decisions (matchCase [false, false, true, pr, m, pb, false, false, false, false, false]
        recoveryCases none) =
      let d (solo : Bool) : RecoveryDecision :=
        if pr then if solo then .fix else .vsr
        else if pb then if solo then .unr else .cut
        else if solo ∨ m then .fix else .vsr
      some (d false, d true) := by
  decide

-- There are 512 rows less those that no two headers have.
theorem decisions_both : ∀ hr pr m pb hb c o l v : Bool,
    (o = true → l = false) → (hb = true → pb = false → l = false) →
    decisions (matchCase [true, hr, true, pr, m, pb, hb, c, o, l, v] recoveryCases none) =
      let d (solo : Bool) : RecoveryDecision :=
        if pr ∧ hr then .nil
        else if pr = false ∧ pb ∨ hr = false ∧ hb then if solo then .unr else .cut
        else if pr then .vsr
        else if hr ∨ c = false ∧ l then .fix
        else if c then .eql else .vsr
      if (if pr then (if hr then c ∧ o ∧ v else hb → l = false)
          else hr ∨ pb ∨ hb ∨ if c then o ∧ v else o → v = false) then
        some (d false, d true)
      else
        none := by
  decide +kernel

theorem decisions_recoveryCase :
    decisions (recoveryCase header prepare data) =
      if ∀ h ∈ header, ∀ p ∈ prepare, Agree data h p then
        some (slotDecision data false header prepare, slotDecision data true header prepare)
      else none := by
  unfold recoveryCase
  cases header with
  | none =>
    cases prepare with
    | none   => rfl
    | some p =>
      refine (decisions_prepare (p.operation = .reserved) (p.op = data.opMax)
        (data.opPrepareMax < p.op)).trans ?_
      simp [slotDecision]
  | some h =>
    cases prepare with
    | none   =>
      refine (decisions_header (h.operation = .reserved) (data.opPrepareMax < h.op)).trans ?_
      simp [slotDecision]
    | some p =>
      refine (decisions_both (h.operation = .reserved) (p.operation = .reserved) (p.op = data.opMax)
        (data.opPrepareMax < p.op) (data.opPrepareMax < h.op) (h.checksum = p.checksum)
        (h.op = p.op) (h.op < p.op) (h.view = p.view) ?_ ?_).trans ?_
      · simp only [decide_eq_true_eq, decide_eq_false_iff_not]
        omega
      · simp only [decide_eq_true_eq, decide_eq_false_iff_not]
        omega
      · simp [slotDecision, Agree]

theorem recoveryCase_of_agree (h : ∀ h ∈ header, ∀ p ∈ prepare, Agree data h p) :
    ∃ c, recoveryCase header prepare data = .ok c ∧
      ∀ solo, c.decision solo = slotDecision data solo header prepare := by
  have hd := @decisions_recoveryCase header prepare data
  rw [if_pos h] at hd
  obtain ⟨c, hc, hm, hs⟩ := decisions_eq_some.mp hd
  exact ⟨c, hc, Bool.rec hm hs⟩

-- A slot gets a case if and only if its copies agree, and none but the one that is due.
theorem recoveryCase_decides :
    ((∃ c, recoveryCase header prepare data = .ok c) ↔
      ∀ h ∈ header, ∀ p ∈ prepare, Agree data h p) ∧
    ∀ c, recoveryCase header prepare data = .ok c →
      ∀ solo, c.decision solo = slotDecision data solo header prepare := by
  have hagree : ∀ c, recoveryCase header prepare data = .ok c →
      ∀ h ∈ header, ∀ p ∈ prepare, Agree data h p := by
    intro c hc
    by_contra h
    have hd := @decisions_recoveryCase header prepare data
    rw [if_neg h, hc] at hd
    cases hd
  refine ⟨⟨fun ⟨c, hc⟩ => hagree c hc, fun h => ?_⟩, fun c hc => ?_⟩
  · obtain ⟨c, hc, _⟩ := recoveryCase_of_agree h
    exact ⟨c, hc⟩
  · obtain ⟨c', hc', hd⟩ := recoveryCase_of_agree (hagree c hc)
    obtain rfl : c = c' := Except.ok.inj (hc.symm.trans hc')
    exact hd

section ReadBack

variable [Env] {cluster slot : Nat}

-- What a slot is read back as. No checksums collide, a slot without a prepare was written as reserved,
-- and there is one prepare for an op in a view.
structure ReadBack (cluster slot : Nat) (header prepare : Option Prepare) : Prop where
  ofHeader : ∀ h ∈ header, headerOk cluster slot h = some h
  ofPrepare : ∀ p ∈ prepare, headerOk cluster slot p = some p
  reserved : ∀ h, h ∈ header ∨ h ∈ prepare → h.operation = .reserved → h = Prepare.reserve cluster slot
  collision : ∀ h ∈ header, ∀ p ∈ prepare, h.checksum = p.checksum → h = p
  unique : ∀ h ∈ header, ∀ p ∈ prepare, h.operation ≠ .reserved → p.operation ≠ .reserved →
    h.op = p.op → h.view = p.view → h = p

theorem headerOk_slot (h : headerOk cluster slot p = some p) :
    slot = if p.operation = .reserved then p.op else p.op % journalSlotCount := by
  unfold headerOk at h
  by_contra hne
  rw [if_neg fun hok => hne hok.2.2] at h
  cases h

theorem ReadBack.agree (hr : ReadBack cluster slot header prepare) (hh : h ∈ header) (hp : p ∈ prepare) :
    Agree data h p := by
  unfold Agree
  split
  · next hpr =>
    split
    · next hhr =>
      rw [hr.reserved h (.inl hh) hhr, hr.reserved p (.inr hp) hpr]
      exact ⟨rfl, rfl, rfl⟩
    · next hhr =>
      -- A reserved prepare has the least op that goes to the slot.
      have hs := headerOk_slot (hr.ofHeader h hh)
      rw [headerOk_slot (hr.ofPrepare p hp), if_pos hpr, if_neg hhr] at hs
      exact fun _ => hs ▸ Nat.mod_le ..
  · next hpr =>
    by_cases hhr : h.operation = .reserved
    · exact .inl hhr
    · refine .inr (.inr (.inr ?_))
      split
      · next hc =>
        rw [hr.collision h hh p hp hc]
        exact ⟨rfl, rfl⟩
      · next hc =>
        intro hop hview
        exact hc (congrArg Prepare.checksum (hr.unique h hh p hp hhr hpr hop hview))

-- Recovery does not abort on what it reads back.
theorem recoveryCase_of_readBack (hr : ReadBack cluster slot header prepare) :
    ∃ c, recoveryCase header prepare data = .ok c ∧
      ∀ solo, c.decision solo = slotDecision data solo header prepare :=
  recoveryCase_of_agree fun _ hh _ hp => hr.agree hh hp

end ReadBack

section Runs

attribute [local instance] Env.plain

def prepareAt (op : Nat) : Prepare :=
  Prepare.setChecksum { Prepare.zeroed with op, operation := .pulse }

-- The header is still that of the lap of the ring before.
theorem recoveryCase_of_lap : ∃ c,
    recoveryCase (some (prepareAt 3)) (some (prepareAt 1027)) ⟨1027, 2000⟩ = .ok c ∧
      ∀ solo, c.decision solo = .fix := by
  have hr : ReadBack 0 3 (some (prepareAt 3)) (some (prepareAt 1027)) := by
    constructor
    case reserved =>
      rintro h (hh | hh) hr <;> cases hh <;> exact absurd hr (by decide)
    all_goals
      simp only [Option.mem_def, Option.some.injEq, forall_eq']
      decide +kernel
  obtain ⟨c, hc, hd⟩ := @recoveryCase_of_readBack _ _ ⟨1027, 2000⟩ _ _ _ hr
  exact ⟨c, hc, fun solo => (hd solo).trans (by cases solo <;> decide +kernel)⟩

end Runs

end TigerBeetle.Wal
