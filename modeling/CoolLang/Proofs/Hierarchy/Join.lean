import CoolLang.Proofs.Hierarchy.Conformance

/-!
# Joins

The join of two types is the least type that both conform to: what both lead to lies above the first
class on the way up from one that the other leads to. In trees, where there is only one such type,
the laws of a semilattice follow, and a join of many types is one of the set of them.
-/

namespace CoolLang.Hierarchy

open Relation

variable {h : Hierarchy} {a b c : String}

theorem conforms_join (h : Hierarchy) (a b : String) :
    h.conforms a (h.join a b) = true ∧ h.conforms b (h.join a b) = true := by
  unfold join
  split
  · rename_i hab
    exact ⟨h.conforms_self a, hab ▸ h.conforms_self a⟩
  · dsimp only
    split
    · rename_i d hd
      obtain ⟨e, he, hname⟩ : ∃ e ∈ h.ancestors a, e.name = d.name := by
        simpa using List.find?_some hd
      refine ⟨hname ▸ conforms_of_mem_ancestors he, ?_⟩
      exact conforms_of_mem_ancestors (List.mem_of_find?_eq_some hd)
    · exact ⟨h.conforms_object a, h.conforms_object b⟩

/-- Two different names that lead to the same one belong to known classes. -/
theorem contains_of_ne (hab : a ≠ b) (hac : ReflTransGen h.Inherits a c)
    (hbc : ReflTransGen h.Inherits b c) : h.contains a = true := by
  by_contra ha
  have heq : a = c := eq_of_not_contains (by simpa using ha) hac
  subst heq
  -- what leads to `a` from another class has `a` for the last of its parents
  rcases ReflTransGen.cases_tail hbc with heq | ⟨d, -, hda⟩
  · exact hab heq
  · exact ha hda.contains_right

/-- The join lies below all that both types conform to. -/
theorem join_conforms (hac : h.conforms a c = true) (hbc : h.conforms b c = true) :
    h.conforms (h.join a b) c = true := by
  by_cases hab : a = b
  · rwa [join, if_pos hab]
  by_cases hc : c = ClassName.object
  · exact hc ▸ h.conforms_object _
  have hac' := (conforms_iff.mp hac).resolve_left hc
  have hbc' := (conforms_iff.mp hbc).resolve_left hc
  have hca : c ∈ (h.ancestors a).map (·.name) :=
    mem_ancestors_iff.mpr ⟨contains_of_ne hab hac' hbc', hac'⟩
  have hcb : c ∈ (h.ancestors b).map (·.name) :=
    mem_ancestors_iff.mpr ⟨contains_of_ne (Ne.symm hab) hbc' hac', hbc'⟩
  obtain ⟨e, he, rfl⟩ := List.mem_map.mp hcb
  rw [join, if_neg hab]
  dsimp only
  split
  · rename_i d hd
    obtain ⟨-, pre, post, hsplit, hpre⟩ := List.find?_eq_some_iff_append.mp hd
    have hchain := (isChain_ancestors h b).imp fun _ _ hstep => TransGen.single hstep
    rw [hsplit, List.map_append, List.map_cons] at hchain
    rw [hsplit] at he
    rcases List.mem_append.mp he with he | he
    · -- a shared class before the first one
      have hnot := hpre e he
      simp only [Bool.not_eq_true', List.contains_eq_mem, decide_eq_false_iff_not] at hnot
      exact absurd hca hnot
    · rcases List.mem_cons.mp he with rfl | he
      · exact h.conforms_self _
      · have habove := hchain.right_of_append.rel_cons (List.mem_map_of_mem he)
        exact conforms_iff.mpr (Or.inr habove.to_reflTransGen)
  · rename_i hnone
    have hnot := List.find?_eq_none.mp hnone e he
    simp only [List.contains_eq_mem, decide_eq_true_eq] at hnot
    exact absurd hca hnot

theorem join_self (h : Hierarchy) (a : String) : h.join a a = a := by
  rw [join, if_pos rfl]

namespace IsTree

theorem join_comm (ht : h.IsTree) (a b : String) : h.join a b = h.join b a := by
  have hle : ∀ a b, h.conforms (h.join a b) (h.join b a) = true := by
    intro a b
    obtain ⟨hb, ha⟩ := h.conforms_join b a
    exact join_conforms ha hb
  exact ht.conforms_antisymm (hle a b) (hle b a)

theorem join_assoc (ht : h.IsTree) (a b c : String) :
    h.join (h.join a b) c = h.join a (h.join b c) := by
  obtain ⟨ha, hb⟩ := h.conforms_join a b
  obtain ⟨hab, hc⟩ := h.conforms_join (h.join a b) c
  obtain ⟨hb', hc'⟩ := h.conforms_join b c
  obtain ⟨ha', hbc⟩ := h.conforms_join a (h.join b c)
  apply ht.conforms_antisymm
  · exact join_conforms (join_conforms ha' (ht.conforms_trans hb' hbc)) (ht.conforms_trans hc' hbc)
  · exact join_conforms (ht.conforms_trans ha hab) (join_conforms (ht.conforms_trans hb hab) hc)

end IsTree

/-! ## Joins of many types -/

/-- Every one of some types conforms to their join. -/
theorem IsTree.conforms_foldl_join (ht : h.IsTree) (types : List String) :
    ∀ first, ∀ t ∈ first :: types, h.conforms t (types.foldl h.join first) = true := by
  induction types with
  | nil =>
      intro first t hmem
      rw [List.mem_singleton] at hmem
      exact hmem ▸ h.conforms_self first
  | cons next types ih =>
      intro first t hmem
      have hjoin := h.conforms_join first next
      have hrest := ih (h.join first next)
      rw [List.foldl_cons]
      rcases List.mem_cons.mp hmem with rfl | hmem
      · exact ht.conforms_trans hjoin.1 (hrest _ List.mem_cons_self)
      rcases List.mem_cons.mp hmem with rfl | hmem
      · exact ht.conforms_trans hjoin.2 (hrest _ List.mem_cons_self)
      · exact hrest t (List.mem_cons_of_mem _ hmem)

/-- The join of some types lies below all that every one of them conforms to. -/
theorem foldl_join_conforms (types : List String) :
    ∀ first, (∀ t ∈ first :: types, h.conforms t c = true) →
      h.conforms (types.foldl h.join first) c = true := by
  induction types with
  | nil =>
      intro first hall
      exact hall first List.mem_cons_self
  | cons next types ih =>
      intro first hall
      rw [List.forall_mem_cons, List.forall_mem_cons] at hall
      exact ih _ (List.forall_mem_cons.mpr ⟨join_conforms hall.1 hall.2.1, hall.2.2⟩)

/-- The join of some types depends on nothing but which types they are. -/
theorem IsTree.foldl_join_eq (ht : h.IsTree) {types types' : List String} {first first' : String}
    (hmem : ∀ t, t ∈ first :: types ↔ t ∈ first' :: types') :
    types.foldl h.join first = types'.foldl h.join first' := by
  apply ht.conforms_antisymm
  · apply foldl_join_conforms
    intro t htypes
    exact ht.conforms_foldl_join types' first' t ((hmem t).mp htypes)
  · apply foldl_join_conforms
    intro t htypes
    exact ht.conforms_foldl_join types first t ((hmem t).mpr htypes)

end CoolLang.Hierarchy
