import Mathlib

-- Things that others close, each of them one at a time.
structure Exclusive {ι κ : Type} (closed : ι → Prop) (closer : ι → κ → Prop) (original : ι → Prop) :
    Prop where
  closes : ∀ i k, closer i k → closed i ∧ ¬original i
  caused : ∀ i, closed i → original i ∨ ∃ k, closer i k
  kept : ∀ i, original i → closed i
  unique : ∀ i k k', closer i k → closer i k' → k = k'

namespace Exclusive

variable {ι κ : Type} {closed closed' : ι → Prop} {closer closer' : ι → κ → Prop}
    {original original' s : ι → Prop} {k : κ}

section

variable (h : Exclusive closed closer original)

include h

theorem closed_iff {i : ι} (hi : ¬original i) : closed i ↔ ∃! k, closer i k := by
  refine ⟨fun hc => ?_, fun ⟨k, hk, _⟩ => (h.closes i k hk).1⟩
  obtain ho | ⟨k, hk⟩ := h.caused i hc
  · exact absurd ho hi
  · exact ⟨k, hk, fun k' hk' => h.unique i k' k hk' hk⟩

-- Something closes what is open.
theorem add (hs : ∀ i, s i → ¬closed i)
    (hclosed : ∀ i, closed' i ↔ closed i ∨ s i)
    (hcloser : ∀ i j, closer' i j ↔ closer i j ∨ j = k ∧ s i) : Exclusive closed' closer' original := by
  refine ⟨fun i j hj => ?_, fun i hi => ?_, fun i hi => ?_, fun i j j' hj hj' => ?_⟩
  · rw [hclosed]
    obtain hj | ⟨_, hi⟩ := (hcloser i j).mp hj
    · exact ⟨.inl (h.closes i j hj).1, (h.closes i j hj).2⟩
    · exact ⟨.inr hi, fun ho => hs i hi (h.kept i ho)⟩
  · obtain hi | hi := (hclosed i).mp hi
    · exact (h.caused i hi).imp_right fun ⟨j, hj⟩ => ⟨j, (hcloser i j).mpr (.inl hj)⟩
    · exact .inr ⟨k, (hcloser i k).mpr (.inr ⟨rfl, hi⟩)⟩
  · exact (hclosed i).mpr (.inl (h.kept i hi))
  · obtain hj | ⟨rfl, hi⟩ := (hcloser i j).mp hj <;> obtain hj' | ⟨rfl, hi'⟩ := (hcloser i j').mp hj'
    · exact h.unique i j j' hj hj'
    · exact absurd (h.closes i j hj).1 (hs i hi')
    · exact absurd (h.closes i j' hj').1 (hs i hi)
    · rfl

-- What something has closed is open again without it.
theorem remove (hclosed : ∀ i, closed' i ↔ closed i ∧ ¬closer i k)
    (hcloser : ∀ i j, closer' i j ↔ closer i j ∧ j ≠ k) : Exclusive closed' closer' original := by
  refine ⟨fun i j hj => ?_, fun i hi => ?_, fun i hi => ?_, fun i j j' hj hj' => ?_⟩
  · obtain ⟨hj, hne⟩ := (hcloser i j).mp hj
    obtain ⟨hi, ho⟩ := h.closes i j hj
    exact ⟨(hclosed i).mpr ⟨hi, fun hk => hne (h.unique i j k hj hk)⟩, ho⟩
  · obtain ⟨hi, hn⟩ := (hclosed i).mp hi
    refine (h.caused i hi).imp_right fun ⟨j, hj⟩ => ⟨j, (hcloser i j).mpr ⟨hj, ?_⟩⟩
    rintro rfl
    exact hn hj
  · exact (hclosed i).mpr ⟨h.kept i hi, fun hk => (h.closes i k hk).2 hi⟩
  · exact h.unique i j j' ((hcloser i j).mp hj).1 ((hcloser i j').mp hj').1

-- There is something new that is closed from the start.
theorem grow (hs : ∀ i, s i → ∀ k, ¬closer i k)
    (hclosed : ∀ i, closed' i ↔ closed i ∨ s i) (horiginal : ∀ i, original' i ↔ original i ∨ s i) :
    Exclusive closed' closer original' := by
  refine ⟨fun i j hj => ?_, fun i hi => ?_, fun i hi => ?_, h.unique⟩
  · obtain ⟨hi, ho⟩ := h.closes i j hj
    refine ⟨(hclosed i).mpr (.inl hi), fun ho' => ?_⟩
    obtain ho' | hi' := (horiginal i).mp ho'
    · exact ho ho'
    · exact hs i hi' j hj
  · obtain hi | hi := (hclosed i).mp hi
    · exact (h.caused i hi).imp_left fun ho => (horiginal i).mpr (.inl ho)
    · exact .inl ((horiginal i).mpr (.inr hi))
  · obtain hi | hi := (horiginal i).mp hi
    · exact (hclosed i).mpr (.inl (h.kept i hi))
    · exact (hclosed i).mpr (.inr hi)

end

end Exclusive
