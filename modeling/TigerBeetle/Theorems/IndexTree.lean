import TigerBeetle.IndexTree

namespace TigerBeetle

def Write.other : Write → Write
  | put    => remove
  | remove => put

-- Puts and removes take turns.
def Alternates : (next : Write) → List Write → Prop
  | _, []               => True
  | next, write :: rest => write = next ∧ Alternates next.other rest

theorem alternates_append {next write : Write} {writes : List Write} :
    Alternates next (writes ++ [write]) ↔
      Alternates next writes ∧ write = writes.getLast?.elim next Write.other := by
  induction writes generalizing next with
  | nil => simp [Alternates]
  | cons w writes ih =>
    simp only [List.cons_append, Alternates, ih, and_assoc]
    refine and_congr_right fun hw => and_congr_right fun _ => ?_
    rw [List.getLast?_cons]
    cases writes.getLast? <;> simp [hw]

namespace IndexTree

variable {F : Type} [DecidableEq F] {tree : IndexTree F} {key : CompositeKey F}
    {live live' : CompositeKey F → Prop}

def writesTo (tree : IndexTree F) (key : CompositeKey F) : List Write :=
  (tree.writes.filter fun write => write.2 = key).map Prod.fst

-- The keys that are there are those whose last write is a put.
structure Mirrors (tree : IndexTree F) (live : CompositeKey F → Prop) : Prop where
  alternates : ∀ key, Alternates .put (tree.writesTo key)
  live : ∀ key, (tree.writesTo key).getLast? = some .put ↔ live key

variable {k : CompositeKey F}

theorem writesTo_put :
    (tree.put key).writesTo k = tree.writesTo k ++ if k = key then [.put] else [] := by
  unfold writesTo put
  by_cases h : key = k <;> simp [h, eq_comm]

theorem writesTo_remove :
    (tree.remove key).writesTo k = tree.writesTo k ++ if k = key then [.remove] else [] := by
  unfold writesTo remove
  by_cases h : key = k <;> simp [h, eq_comm]

namespace Mirrors

theorem new : (new : IndexTree F).Mirrors fun _ => False where
  alternates _ := trivial
  live _ := by simp [writesTo, IndexTree.new]

theorem congr (h : tree.Mirrors live) (hl : ∀ key, live key ↔ live' key) : tree.Mirrors live' :=
  ⟨h.alternates, fun key => (h.live key).trans (hl key)⟩

theorem put (h : tree.Mirrors live) (hn : ¬live key) :
    (tree.put key).Mirrors fun k => k = key ∨ live k where
  alternates k := by
    rw [writesTo_put]
    split
    · next he =>
      rw [alternates_append]
      refine ⟨h.alternates k, ?_⟩
      have hlast : (tree.writesTo k).getLast? ≠ some .put := fun hp => hn (he ▸ (h.live k).mp hp)
      cases hw : (tree.writesTo k).getLast? with
      | none       => rfl
      | some write =>
        cases write with
        | put    => exact absurd hw hlast
        | remove => rfl
    · simpa using h.alternates k
  live k := by
    rw [writesTo_put]
    split
    · next he => simp [he]
    · next hne => simpa [hne] using h.live k

theorem remove (h : tree.Mirrors live) (hl : live key) :
    (tree.remove key).Mirrors fun k => k ≠ key ∧ live k where
  alternates k := by
    rw [writesTo_remove]
    split
    · next he =>
      rw [alternates_append, (h.live k).mpr (he ▸ hl)]
      exact ⟨h.alternates k, rfl⟩
    · simpa using h.alternates k
  live k := by
    rw [writesTo_remove]
    split
    · next he => simp [he]
    · next hne => simpa [hne] using h.live k

end Mirrors

section Objects

variable {K O : Type} [DecidableEq K] {index : O → Option F} {timestamp : O → Nat}
    {objects : K → Option O} {id : K} {object old : O}

-- The keys of the objects that have a value of the field.
def Indexed (index : O → Option F) (timestamp : O → Nat) (objects : K → Option O)
    (key : CompositeKey F) : Prop :=
  ∃ id object, objects id = some object ∧ timestamp object = key.timestamp ∧
    index object = some key.field

omit [DecidableEq F] in
theorem indexed_insert (hn : objects id = none) :
    Indexed index timestamp (Function.update objects id (some object)) k ↔
      timestamp object = k.timestamp ∧ index object = some k.field ∨
        Indexed index timestamp objects k := by
  constructor
  case mp =>
    intro ⟨id', object', ho, hi⟩
    rw [Function.update_apply] at ho
    split at ho
    · cases ho
      exact .inl hi
    · exact .inr ⟨id', object', ho, hi⟩
  case mpr =>
    intro h
    obtain hi | ⟨id', object', ho, hi⟩ := h
    · exact ⟨id, object, by simp, hi⟩
    · refine ⟨id', object', ?_, hi⟩
      rwa [Function.update_of_ne]
      rintro rfl
      rw [hn] at ho
      cases ho

omit [DecidableEq F] in
theorem indexed_update (hl : objects id = some old)
    (hu : ∀ id' o, objects id' = some o → timestamp o = timestamp old → id' = id)
    (ht : timestamp old = timestamp object) :
    Indexed index timestamp (Function.update objects id (some object)) k ↔
      if k.timestamp = timestamp old then index object = some k.field
      else Indexed index timestamp objects k := by
  constructor
  case mp =>
    intro ⟨id', object', ho, hts, hi⟩
    rw [Function.update_apply] at ho
    split at ho
    · cases ho
      rwa [if_pos (hts.symm.trans ht.symm)]
    · next hne =>
      rw [if_neg fun he => hne (hu id' object' ho (hts.trans he))]
      exact ⟨id', object', ho, hts, hi⟩
  case mpr =>
    intro h
    split at h
    · next he => exact ⟨id, object, by simp, ht.symm.trans he.symm, h⟩
    · next hne =>
      have ⟨id', object', ho, hts, hi⟩ := h
      refine ⟨id', object', ?_, hts, hi⟩
      rwa [Function.update_of_ne]
      rintro rfl
      rw [hl] at ho
      cases ho
      exact hne hts.symm

theorem Mirrors.insertIndex (h : tree.Mirrors (Indexed index timestamp objects))
    (hn : objects id = none) (hf : ∀ id o, objects id = some o → timestamp o ≠ timestamp object) :
    (tree.insertIndex (index object) (timestamp object)).Mirrors
      (Indexed index timestamp (Function.update objects id (some object))) := by
  unfold IndexTree.insertIndex
  cases hi : index object with
  | none =>
    refine h.congr fun k => ?_
    rw [indexed_insert hn, hi]
    simp
  | some v =>
    refine (@Mirrors.put _ _ _ ⟨v, timestamp object⟩ _ h fun ⟨id', o, ho, ht, _⟩ => hf id' o ho ht).congr
      fun k => ?_
    rw [indexed_insert hn, hi]
    refine or_congr_left ?_
    cases k
    simp [and_comm, eq_comm]

-- An object that is put back is indexed by its new value.
theorem Mirrors.diffIndex (h : tree.Mirrors (Indexed index timestamp objects))
    (hl : objects id = some old)
    (hu : ∀ id' o, objects id' = some o → timestamp o = timestamp old → id' = id)
    (ht : timestamp old = timestamp object) :
    (tree.diffIndex (index old) (index object) (timestamp old) (timestamp object)).Mirrors
      (Indexed index timestamp (Function.update objects id (some object))) := by
  have hold : ∀ k : CompositeKey F, k.timestamp = timestamp old →
      (Indexed index timestamp objects k ↔ index old = some k.field) := by
    intro k hk
    refine ⟨fun ⟨id', o, ho, hts, hi⟩ => ?_, fun hi => ⟨id, old, hl, hk.symm, hi⟩⟩
    obtain rfl := hu id' o ho (hts.trans hk)
    rw [hl] at ho
    cases ho
    exact hi
  have hremove : (tree.removeIndex (index old) (timestamp old)).Mirrors
      fun k => k.timestamp ≠ timestamp old ∧ Indexed index timestamp objects k := by
    unfold IndexTree.removeIndex
    cases hi : index old with
    | none =>
      refine h.congr fun k => ⟨fun hk => ⟨fun he => ?_, hk⟩, And.right⟩
      have := (hold k he).mp hk
      rw [hi] at this
      cases this
    | some v =>
      refine (@Mirrors.remove _ _ _ ⟨v, timestamp old⟩ _ h ⟨id, old, hl, rfl, hi⟩).congr fun k => ?_
      refine and_congr_left fun hk => not_congr ⟨fun he => he ▸ rfl, fun he => ?_⟩
      have hv := (hold k he).mp hk
      rw [hi] at hv
      cases hv
      exact congrArg (CompositeKey.mk k.field) he
  unfold IndexTree.diffIndex
  split
  · unfold IndexTree.insertIndex
    cases hi : index object with
    | none =>
      refine hremove.congr fun k => ?_
      rw [indexed_update hl hu ht, hi]
      split
      · next he => simp [he]
      · next he => simp [he]
    | some v =>
      refine (@Mirrors.put _ _ _ ⟨v, timestamp object⟩ _ hremove fun hk => hk.1 ht.symm).congr fun k => ?_
      rw [indexed_update hl hu ht, hi]
      split
      · next he =>
        refine ⟨fun hk => hk.elim (fun hk => hk ▸ rfl) fun hk => absurd he hk.1, fun hv => ?_⟩
        cases hv
        exact .inl (congrArg (CompositeKey.mk k.field) (he.trans ht))
      · next he =>
        refine ⟨fun hk => hk.elim (fun hk => absurd ?_ he) And.right, fun hk => .inr ⟨he, hk⟩⟩
        rw [hk, ht]
  · next heq =>
    refine h.congr fun k => ?_
    rw [indexed_update hl hu ht]
    split
    · next he => rw [hold k he, not_not.mp heq]
    · exact Iff.rfl

end Objects

end IndexTree

end TigerBeetle
