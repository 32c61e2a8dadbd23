import Mathlib

-- Scans of a list that skip some of its elements and stop at others.
namespace Scan

universe u

variable {α : Type u}

inductive Verdict
  | skip
  | take
  | stop
  | fault
  deriving DecidableEq, Repr

variable (verdict : α → Verdict)

-- The next element that is taken and what is left behind it. There may be none, and nothing is returned
-- for a fault.
def next : List α → Option (Option (α × List α))
  | [] => some none
  | a :: as =>
    match verdict a with
    | .skip => next as
    | .take => some (some (a, as))
    | .stop => some none
    | .fault => none

-- All elements that are taken.
def scan : List α → Option (List α)
  | [] => some []
  | a :: as =>
    match verdict a with
    | .skip => scan as
    | .take => (scan as).map (a :: ·)
    | .stop => some []
    | .fault => none

-- All elements that are to be taken, wherever they are.
def takable (as : List α) : List α :=
  as.filter fun a => verdict a = .take

-- What is to be taken stands in front of the stops, and faults stand behind one.
structure Clean (as : List α) : Prop where
  stops : ∀ before a after, as = before ++ a :: after → verdict a = .stop →
    ∀ b ∈ after, verdict b ≠ .take
  faults : ∀ before a after, as = before ++ a :: after → verdict a = .fault →
    ∃ b ∈ before, verdict b = .stop

variable {verdict : α → Verdict} {a : α} {as taken rest : List α}

theorem mem_takable : a ∈ takable verdict as ↔ a ∈ as ∧ verdict a = .take := by
  simp [takable]

theorem takable_cons_of_ne (h : verdict a ≠ .take) : takable verdict (a :: as) = takable verdict as := by
  simp [takable, h]

theorem takable_cons_of_take (h : verdict a = .take) :
    takable verdict (a :: as) = a :: takable verdict as := by
  simp [takable, h]

theorem takable_eq_nil : takable verdict as = [] ↔ ∀ a ∈ as, verdict a ≠ .take := by
  simp [takable, List.filter_eq_nil_iff]

-- An element that neither stops a scan nor is a fault makes no difference to the others.
theorem clean_cons_iff (hs : verdict a ≠ .stop) (hf : verdict a ≠ .fault) :
    Clean verdict (a :: as) ↔ Clean verdict as := by
  constructor
  · intro h
    refine ⟨fun before b after heq => h.stops (a :: before) b after (by rw [heq]; rfl),
      fun before b after heq hb => ?_⟩
    obtain ⟨c, hc, hstop⟩ := h.faults (a :: before) b after (by rw [heq]; rfl) hb
    obtain rfl | hc := List.mem_cons.mp hc
    · exact absurd hstop hs
    · exact ⟨c, hc, hstop⟩
  · intro h
    refine ⟨fun before b after heq hb => ?_, fun before b after heq hb => ?_⟩
    · cases before with
      | nil =>
        obtain ⟨rfl, _⟩ := List.cons.inj heq
        exact absurd hb hs
      | cons c before =>
        obtain ⟨_, rfl⟩ := List.cons.inj heq
        exact h.stops before b after rfl hb
    · cases before with
      | nil =>
        obtain ⟨rfl, _⟩ := List.cons.inj heq
        exact absurd hb hf
      | cons c before =>
        obtain ⟨_, rfl⟩ := List.cons.inj heq
        obtain ⟨d, hd, hstop⟩ := h.faults before b after rfl hb
        exact ⟨d, List.mem_cons_of_mem _ hd, hstop⟩

theorem clean_cons_stop_iff (hs : verdict a = .stop) :
    Clean verdict (a :: as) ↔ ∀ b ∈ as, verdict b ≠ .take := by
  refine ⟨fun h => h.stops [] a as rfl hs, fun h => ⟨fun before b after heq _ c hc => ?_,
    fun before b after heq hb => ?_⟩⟩
  · cases before with
    | nil =>
      obtain ⟨_, rfl⟩ := List.cons.inj heq
      exact h c hc
    | cons d before =>
      obtain ⟨_, rfl⟩ := List.cons.inj heq
      exact h c (List.mem_append_right _ (List.mem_cons_of_mem _ hc))
  · cases before with
    | nil =>
      obtain ⟨rfl, _⟩ := List.cons.inj heq
      rw [hs] at hb
      cases hb
    | cons d before =>
      obtain ⟨rfl, _⟩ := List.cons.inj heq
      exact ⟨a, List.mem_cons_self, hs⟩

theorem not_clean_cons_fault (hf : verdict a = .fault) : ¬Clean verdict (a :: as) := by
  intro h
  obtain ⟨b, hb, _⟩ := h.faults [] a as rfl hf
  cases hb

-- A scan takes exactly what is to be taken if and only if the list is clean.
theorem scan_eq_takable_iff : scan verdict as = some (takable verdict as) ↔ Clean verdict as := by
  induction as with
  | nil =>
    refine iff_of_true rfl ⟨fun before a after heq => ?_, fun before a after heq => ?_⟩
    · exact absurd heq.symm (List.append_ne_nil_of_right_ne_nil _ (List.cons_ne_nil _ _))
    · exact absurd heq.symm (List.append_ne_nil_of_right_ne_nil _ (List.cons_ne_nil _ _))
  | cons a as ih =>
    cases hv : verdict a with
    | skip =>
      rw [scan, hv, takable_cons_of_ne (by rw [hv]; nofun),
        clean_cons_iff (by rw [hv]; nofun) (by rw [hv]; nofun)]
      exact ih
    | take =>
      rw [scan, hv, takable_cons_of_take hv, clean_cons_iff (by rw [hv]; nofun) (by rw [hv]; nofun), ← ih]
      simp
    | stop =>
      rw [scan, hv, takable_cons_of_ne (by rw [hv]; nofun), clean_cons_stop_iff hv, ← takable_eq_nil]
      exact ⟨fun h => (Option.some.inj h).symm, fun h => congrArg some h.symm⟩
    | fault =>
      rw [scan, hv]
      exact iff_of_false nofun (not_clean_cons_fault hv)

-- Nothing else is taken.
theorem scan_prefix (h : scan verdict as = some taken) : taken <+: takable verdict as := by
  induction as generalizing taken with
  | nil =>
    cases h
    exact List.prefix_refl _
  | cons a as ih =>
    rw [scan] at h
    cases hv : verdict a with
    | skip =>
      rw [hv] at h
      rw [takable_cons_of_ne (by rw [hv]; nofun)]
      exact ih h
    | take =>
      rw [hv] at h
      obtain ⟨taken', h', rfl⟩ := Option.map_eq_some_iff.mp h
      rw [takable_cons_of_take hv]
      exact (List.cons_prefix_cons).mpr ⟨rfl, ih h'⟩
    | stop =>
      rw [hv] at h
      cases h
      exact List.nil_prefix
    | fault =>
      rw [hv] at h
      cases h

-- A scan takes one element after the other.
theorem scan_eq_next : scan verdict as = match next verdict as with
    | none => none
    | some none => some []
    | some (some (a, rest)) => (scan verdict rest).map (a :: ·) := by
  induction as with
  | nil => rfl
  | cons a as ih =>
    rw [scan, next]
    cases verdict a with
    | skip => exact ih
    | take => rfl
    | stop => rfl
    | fault => rfl

theorem next_length (h : next verdict as = some (some (a, rest))) : rest.length < as.length := by
  induction as with
  | nil => cases h
  | cons b as ih =>
    rw [next] at h
    cases hv : verdict b with
    | skip =>
      rw [hv] at h
      exact Nat.lt_succ_of_lt (ih h)
    | take =>
      rw [hv] at h
      cases h
      exact Nat.lt_succ_self _
    | stop =>
      rw [hv] at h
      cases h
    | fault =>
      rw [hv] at h
      cases h

theorem next_subset (h : next verdict as = some (some (a, rest))) : rest ⊆ as := by
  induction as with
  | nil => cases h
  | cons b as ih =>
    rw [next] at h
    cases hv : verdict b with
    | skip =>
      rw [hv] at h
      exact fun c hc => List.mem_cons_of_mem _ (ih h hc)
    | take =>
      rw [hv] at h
      cases h
      exact List.subset_cons_self ..
    | stop =>
      rw [hv] at h
      cases h
    | fault =>
      rw [hv] at h
      cases h

theorem mem_of_next (h : next verdict as = some (some (a, rest))) : a ∈ as ∧ verdict a = .take := by
  induction as with
  | nil => cases h
  | cons b as ih =>
    rw [next] at h
    cases hv : verdict b with
    | skip =>
      rw [hv] at h
      exact ⟨List.mem_cons_of_mem _ (ih h).1, (ih h).2⟩
    | take =>
      rw [hv] at h
      cases h
      exact ⟨List.mem_cons_self, hv⟩
    | stop =>
      rw [hv] at h
      cases h
    | fault =>
      rw [hv] at h
      cases h

end Scan
