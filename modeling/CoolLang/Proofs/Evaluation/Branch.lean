import CoolLang.Proofs.Evaluation.Outcome
import CoolLang.Proofs.Hierarchy.Conformance
import CoolLang.Proofs.Object.Blueprint

/-!
# The branch that a `case` takes

A run counts the steps from the class of a value to the types of the branches and takes the branch
with the fewest. In a tree the classes above a class form a chain, so fewer steps up it is to be
below: the branch that is taken is the least of those that match, and it does not matter in which
order the branches are written.
-/

namespace CoolLang

/-- The branch matches the class, and its type is below the types of all branches that do. -/
structure Hierarchy.IsLeastBranch (h : Hierarchy) (C : String) (branches : List Branch)
    (b : Branch) : Prop where
  mem : b ∈ branches
  matched : h.conforms C b.typeName = true
  least : ∀ b' ∈ branches, h.conforms C b'.typeName = true →
    h.conforms b.typeName b'.typeName = true

/-! ## Steps up -/

namespace Blueprint

variable {h : Hierarchy} {C T T' : String} {i j : Nat}

theorem getElem?_of_distance? {b : Blueprint} (hi : b.distance? T = some i) :
    (b.ancestors.map (·.name))[i]? = some T := by
  rw [distance?, List.findIdx?_eq_some_iff_getElem] at hi
  obtain ⟨hlt, hname, -⟩ := hi
  rw [List.getElem?_map, List.getElem?_eq_getElem hlt, Option.map_some, beq_iff_eq.mp hname]

/-- As many steps lead to one class only. -/
theorem eq_of_distance? {b : Blueprint} (hi : b.distance? T = some i)
    (hi' : b.distance? T' = some i) : T = T' :=
  Option.some.inj ((getElem?_of_distance? hi).symm.trans (getElem?_of_distance? hi'))

theorem isSome_distance? (ht : h.IsTree) (hC : h.contains C = true) (T : String) :
    ((ofClass h C).distance? T).isSome = h.conforms C T := by
  rw [distance?, List.findIdx?_isSome, Bool.eq_iff_iff, List.any_eq_true]
  constructor
  · rintro ⟨d, hd, hname⟩
    rw [← beq_iff_eq.mp hname]
    exact Hierarchy.conforms_of_mem_ancestors hd
  · intro hT
    obtain ⟨d, hd, rfl⟩ := ht.exists_ancestor hC hT
    exact ⟨d, hd, beq_self_eq_true _⟩

/-- What takes fewer steps to reach is below. -/
theorem conforms_of_distance?_le (hi : (ofClass h C).distance? T = some i)
    (hj : (ofClass h C).distance? T' = some j) (hij : i ≤ j) : h.conforms T T' = true := by
  rcases Nat.eq_or_lt_of_le hij with rfl | hlt
  · rw [eq_of_distance? hi hj]
    exact h.conforms_self T'
  · have hchain := (h.isChain_ancestors C).imp fun _ _ hstep => Relation.TransGen.single hstep
    obtain ⟨hi, hT⟩ := List.getElem?_eq_some_iff.mp (getElem?_of_distance? hi)
    obtain ⟨hj, hT'⟩ := List.getElem?_eq_some_iff.mp (getElem?_of_distance? hj)
    have hup := List.pairwise_iff_getElem.mp hchain.pairwise i j hi hj hlt
    rw [← hT, ← hT']
    exact Hierarchy.conforms_iff.mpr (Or.inr hup.to_reflTransGen)

end Blueprint

/-! ## The closest branch -/

namespace Eval

variable {b : Blueprint} {branches : List Branch}

theorem closestBranch?_eq_none_iff :
    closestBranch? b branches = none ↔ ∀ br ∈ branches, b.distance? br.typeName = none := by
  induction branches with
  | nil => simp [closestBranch?]
  | cons br branches ih =>
      rw [closestBranch?, List.forall_mem_cons, ← ih]
      cases b.distance? br.typeName with
      | none => simp
      | some d =>
          cases closestBranch? b branches with
          | none => simp
          | some best =>
              dsimp only
              split <;> simp

theorem closestBranch?_le {distance : Nat} {chosen : Branch}
    (hchosen : closestBranch? b branches = some (distance, chosen)) {br : Branch}
    (hbr : br ∈ branches) {d : Nat} (hd : b.distance? br.typeName = some d) : distance ≤ d := by
  induction branches generalizing distance chosen with
  | nil => cases hbr
  | cons first branches ih =>
      rw [closestBranch?] at hchosen
      cases hfirst : b.distance? first.typeName with
      | none =>
          rw [hfirst] at hchosen
          rcases List.mem_cons.mp hbr with rfl | hbr
          · cases hfirst.symm.trans hd
          · exact ih hchosen hbr
      | some n =>
          rw [hfirst] at hchosen
          cases hrest : closestBranch? b branches with
          | none =>
              rw [hrest] at hchosen
              cases hchosen
              rcases List.mem_cons.mp hbr with rfl | hbr
              · cases hfirst.symm.trans hd
                exact Nat.le_refl _
              · cases (closestBranch?_eq_none_iff.mp hrest br hbr).symm.trans hd
          | some best =>
              obtain ⟨least, best⟩ := best
              rw [hrest] at hchosen
              dsimp only at hchosen
              rcases List.mem_cons.mp hbr with rfl | hbr
              · cases hfirst.symm.trans hd
                split at hchosen <;> cases hchosen <;> omega
              · have hle := ih hrest hbr
                split at hchosen <;> cases hchosen <;> omega

/-- Whatever the expressions inside do: with these branches, a `case` on the value goes on with the
given one, whose variable is bound to the value. -/
def TakesBranch (p : Program) (v : Value) (m : Machine) (branches : List Branch)
    (b : Branch) : Prop :=
  ∀ ev rounds scrutinee span env m₀, ev scrutinee env m₀ = .ok v m →
    step p ev rounds (.caseOf scrutinee branches span) env m₀ =
      (define env b.name v >>= fun env => ev b.body env) m

/-- Whatever the expressions inside do: with these branches, a `case` on the value fails because
there is none for its class. -/
def TakesNone (p : Program) (v : Value) (m : Machine) (branches : List Branch)
    (C : String) : Prop :=
  ∀ ev rounds scrutinee span env m₀, ev scrutinee env m₀ = .ok v m →
    step p ev rounds (.caseOf scrutinee branches span) env m₀ =
      .error (.fault ⟨.noMatchingBranch C, span.start⟩) m

section

variable {p : Program} {v : Value} {m : Machine} {C : String} {br : Branch}

theorem takesBranch_of_closestBranch? {distance : Nat} (hv : v.className? m.store = some C)
    (hb : p.classes.find? C = some b)
    (hbr : closestBranch? b branches = some (distance, br)) : TakesBranch p v m branches br := by
  intro ev rounds scrutinee span env m₀ hscrutinee
  exact (bind_ok hscrutinee).trans (branch_matched hv hb hbr env)

theorem takesNone_of_closestBranch? (hv : v.className? m.store = some C)
    (hb : p.classes.find? C = some b) (hnone : closestBranch? b branches = none) :
    TakesNone p v m branches C := by
  intro ev rounds scrutinee span env m₀ hscrutinee
  exact (bind_ok hscrutinee).trans (branch_unmatched hv hb hnone env)

/-- A branch whose body yields a value does not fail. -/
theorem TakesBranch.not_takesNone (hbr : TakesBranch p v m branches br) :
    ¬ TakesNone p v m branches C := by
  intro hnone
  let ev : Evaluator := fun _ _ _ => .ok v m
  have htaken := hbr ev 0 (.self .nowhere) .nowhere (.ofSelf .void) m rfl
  cases htaken.symm.trans (hnone ev 0 (.self .nowhere) .nowhere (.ofSelf .void) m rfl)

end

end Eval

/-! ## Least branches -/

namespace Hierarchy

variable {h : Hierarchy} {C : String} {branches branches' : List Branch} {b : Branch}

theorem IsLeastBranch.of_perm (hb : h.IsLeastBranch C branches b)
    (hperm : branches.Perm branches') : h.IsLeastBranch C branches' b :=
  ⟨hperm.mem_iff.mp hb.mem, hb.matched, fun b' hb' => hb.least b' (hperm.mem_iff.mpr hb')⟩

theorem IsLeastBranch.unique (ht : h.IsTree) (hdistinct : (branches.map (·.typeName)).Nodup)
    (hb : h.IsLeastBranch C branches b) {b' : Branch} (hb' : h.IsLeastBranch C branches b') :
    b' = b :=
  List.inj_on_of_nodup_map hdistinct hb'.mem hb.mem
    (ht.conforms_antisymm (hb'.least b hb.mem hb.matched) (hb.least b' hb'.mem hb'.matched))

theorem IsTree.isLeastBranch_of_closestBranch? (ht : h.IsTree) (hC : h.contains C = true)
    {distance : Nat} (hb : Eval.closestBranch? (.ofClass h C) branches = some (distance, b)) :
    h.IsLeastBranch C branches b := by
  obtain ⟨hmem, hdistance⟩ := Eval.closestBranch?_eq_some hb
  refine ⟨hmem, ?_, fun b' hb' hmatched => ?_⟩
  · rw [← Blueprint.isSome_distance? ht hC, hdistance]
    rfl
  · rw [← Blueprint.isSome_distance? ht hC] at hmatched
    obtain ⟨d, hd⟩ := Option.isSome_iff_exists.mp hmatched
    exact Blueprint.conforms_of_distance?_le hdistance hd (Eval.closestBranch?_le hb hb' hd)

theorem IsTree.closestBranch?_eq_none_iff (ht : h.IsTree) (hC : h.contains C = true) :
    Eval.closestBranch? (.ofClass h C) branches = none ↔
      ∀ b ∈ branches, h.conforms C b.typeName = false := by
  rw [Eval.closestBranch?_eq_none_iff]
  refine forall₂_congr fun b _ => ?_
  rw [← Blueprint.isSome_distance? ht hC, Option.isSome_eq_false_iff, Option.isNone_iff_eq_none]

/-- **A `case` takes the least branch that matches.** Let validation find nothing wrong with a
program, let a value be of a known class, and let the types of the branches differ. If a branch
matches, then one branch is the least of those that do; a `case` takes it, in whichever order the
branches are written. It fails for want of a branch if and only if none matches. -/
theorem case_takes_least_branch {program : List ClassDecl} (hh : ofProgram program = (h, []))
    {p : Program} (hp : p.classes = .ofHierarchy h) (hC : h.contains C = true) {v : Value}
    {m : Machine} (hv : v.className? m.store = some C)
    (hdistinct : (branches.map (·.typeName)).Nodup) :
    ((∃ b ∈ branches, h.conforms C b.typeName = true) → ∃! b, h.IsLeastBranch C branches b) ∧
    ∀ branches', branches'.Perm branches →
      (∀ b, h.IsLeastBranch C branches b → Eval.TakesBranch p v m branches' b) ∧
      (Eval.TakesNone p v m branches' C ↔ ∀ b ∈ branches, h.conforms C b.typeName = false) := by
  have ht := isTree_of_ofProgram hh
  have hfind : p.classes.find? C = some (.ofClass h C) := by
    rw [hp, ClassTable.find?_ofHierarchy_of_contains hC]
  constructor
  · rintro ⟨b₀, hb₀, hmatched⟩
    cases hclosest : Eval.closestBranch? (.ofClass h C) branches with
    | none =>
        rw [(ht.closestBranch?_eq_none_iff hC).mp hclosest b₀ hb₀] at hmatched
        cases hmatched
    | some found =>
        have hleast := ht.isLeastBranch_of_closestBranch? hC hclosest
        exact ⟨found.2, hleast, fun b hb => hleast.unique ht hdistinct hb⟩
  · intro branches' hperm
    have hnone : Eval.closestBranch? (.ofClass h C) branches' = none ↔
        ∀ b ∈ branches, h.conforms C b.typeName = false := by
      rw [ht.closestBranch?_eq_none_iff hC]
      simp only [hperm.mem_iff]
    cases hclosest : Eval.closestBranch? (.ofClass h C) branches' with
    | none =>
        have hunmatched := hnone.mp hclosest
        refine ⟨fun b hb => ?_, iff_of_true ?_ hunmatched⟩
        · cases (hunmatched b hb.mem).symm.trans hb.matched
        · exact Eval.takesNone_of_closestBranch? hv hfind hclosest
    | some found =>
        have htaken := Eval.takesBranch_of_closestBranch? hv hfind hclosest
        have hleast := (ht.isLeastBranch_of_closestBranch? hC hclosest).of_perm hperm
        refine ⟨fun b hb => hb.unique ht hdistinct hleast ▸ htaken, ?_⟩
        refine iff_of_false htaken.not_takesNone fun hunmatched => ?_
        rw [hnone.mpr hunmatched] at hclosest
        cases hclosest

/-- A branch that yields what it is given. -/
def branchFor (T : String) : Branch := ⟨"it", T, .name "it" .nowhere, .nowhere⟩

/-- A hound is taken care of as a dog, wherever the branch for dogs stands. An integer is no
animal. -/
theorem case_takes_least_branch_zoo :
    ∃ h p m, ofProgram zoo = (h, []) ∧ Value.className? m.store (.object 2) = some "Hound" ∧
      Eval.TakesBranch p (.object 2) m [branchFor "Animal", branchFor "Cat", branchFor "Dog"]
        (branchFor "Dog") ∧
      Eval.TakesBranch p (.object 2) m [branchFor "Dog", branchFor "Cat", branchFor "Animal"]
        (branchFor "Dog") ∧
      Eval.TakesNone p (.int 7) m [branchFor "Animal", branchFor "Cat"] ClassName.int := by
  let h := (ofProgram zoo).1
  let start := Machine.initial h []
  let m := { start with store := start.store.addObject (.ofBlueprint (.ofClass h "Hound")) }
  let p : Program := ⟨.ofHierarchy h, 0, 0⟩
  have hhound : Value.className? m.store (.object 2) = some "Hound" := by decide +kernel
  have hint : Value.className? m.store (.int 7) = some ClassName.int := rfl
  have hthree : ([branchFor "Animal", branchFor "Cat", branchFor "Dog"].map
      (·.typeName)).Nodup := by decide
  have htwo : ([branchFor "Animal", branchFor "Cat"].map (·.typeName)).Nodup := by decide
  have hp : p.classes = .ofHierarchy h := rfl
  obtain ⟨-, htakes⟩ := case_takes_least_branch ofProgram_zoo hp (by decide +kernel) hhound hthree
  obtain ⟨-, hfails⟩ := case_takes_least_branch ofProgram_zoo hp (by decide +kernel) hint htwo
  have hdog : h.IsLeastBranch "Hound" [branchFor "Animal", branchFor "Cat", branchFor "Dog"]
      (branchFor "Dog") :=
    ⟨by simp, by decide +kernel, by decide +kernel⟩
  exact ⟨h, p, m, ofProgram_zoo, hhound, (htakes _ (.refl _)).1 _ hdog,
    (htakes _ (List.reverse_perm _)).1 _ hdog, (hfails _ (.refl _)).2.mpr (by decide +kernel)⟩

end Hierarchy

end CoolLang
