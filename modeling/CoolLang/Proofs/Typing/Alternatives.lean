import CoolLang.Proofs.Hierarchy.Join
import CoolLang.Proofs.Typing.Query

/-!
# Types of alternatives

The type of a `case` is the join of the types of its branches. Each branch is checked by itself, and
a join depends on nothing but the types that are joined, so the order of the branches makes no
difference.
-/

namespace CoolLang

open Check Hierarchy

variable {h : Hierarchy}

theorem Check.bind_fst {α β : Type} (x : Check α) (f : α → Check β) (s : Checker) :
    ((x >>= f) s).1 = (f (x s).1 (x s).2).1 := rfl

/-! ## One branch by itself -/

theorem finds_checkBranch (h : Hierarchy) (seen : List String) (b : Branch) :
    Finds (checkBranch h seen b) fun _ _ => True := by
  refine (Finds.branchHead h b seen).bind fun declared => ?_
  have hbody := (finds_checkExpr h b.body).binds.framed fun Γ => Γ.push.pop_declare b.name declared
  exact hbody.mono fun _ _ _ _ => trivial

theorem uniform_checkBranch (h : Hierarchy) (seen : List String) (b : Branch) :
    Uniform (checkBranch h seen b) :=
  .branch seen (uniform_checkExpr h b.body)

/-- The branches before it matter to what is reported on a branch, but not to its type. -/
theorem checkBranch_fst (seen : List String) (b : Branch) (s : Checker) :
    (checkBranch h seen b s).1 = (checkBranch h [] b s).1 := by
  have hdeclared : (branchHead h b seen s).1 = (branchHead h b [] s).1 := by
    cases hb : seen.contains b.typeName <;> simp only [branchHead, hb] <;> rfl
  have hbody : ∀ seen, (checkBranch h seen b s).1 = (checkExpr h b.body
      { s with scope := s.scope.push.declare b.name (branchHead h b seen s).1 }).1 := by
    intro seen
    have hlogs := (Finds.branchHead h b seen s).1
    have halike : Checker.Alike
        { (branchHead h b seen s).2 with
          scope := (branchHead h b seen s).2.scope.push.declare b.name (branchHead h b seen s).1 }
        { s with scope := s.scope.push.declare b.name (branchHead h b seen s).1 } :=
      ⟨hlogs.currentClass, fun x => by rw [hlogs.scope]⟩
    exact (uniform_checkExpr h b.body _ _ halike).1
  rw [hbody seen, hbody [], hdeclared]

/-! ## All branches -/

/-- The types of the branches are those that each of them has by itself. -/
theorem checkBranches_fst (bs : List Branch) :
    ∀ (seen : List String) (s : Checker),
      (checkBranches h seen bs s).1 = bs.map fun b => (checkBranch h [] b s).1 := by
  induction bs with
  | nil =>
      intro seen s
      rw [checkBranches]
      rfl
  | cons b bs ih =>
      intro seen s
      have hlogs := (finds_checkBranch h seen b s).1
      have hrest := ih (b.typeName :: seen) (checkBranch h seen b s).2
      rw [checkBranches_cons, bind_fst, bind_fst, hrest, List.map_cons, ← checkBranch_fst seen]
      refine congrArg (_ :: ·) (List.map_congr_left fun b' _ => ?_)
      exact (uniform_checkBranch h [] b' _ _ hlogs.alike).1.symm

/-- The type of a `case` is the join of the types that its branches have by themselves. -/
theorem checkExpr_caseOf_fst (scrutinee : Expr) (branches : List Branch) (span : Span)
    (s : Checker) :
    (checkExpr h (.caseOf scrutinee branches span) s).1 =
      h.joinAll (branches.map fun b => (checkBranch h [] b s).1) := by
  have hlogs := (finds_checkExpr h scrutinee s).1
  have htypes : (checkBranches h [] branches (checkExpr h scrutinee s).2).1 =
      branches.map fun b => (checkBranch h [] b s).1 := by
    rw [checkBranches_fst]
    refine List.map_congr_left fun b _ => ?_
    exact (uniform_checkBranch h [] b _ _ hlogs.alike).1.symm
  rw [← htypes, checkExpr, bind_fst, bind_fst]
  cases (checkBranches h [] branches (checkExpr h scrutinee s).2).1 <;> rfl

theorem Hierarchy.IsTree.joinAll_eq_of_perm (ht : h.IsTree) {types types' : List String}
    (hperm : types.Perm types') : h.joinAll types = h.joinAll types' := by
  cases types with
  | nil => rw [hperm.nil_eq]
  | cons first rest =>
      cases types' with
      | nil => exact absurd hperm.symm.nil_eq (by simp)
      | cons first' rest' => exact ht.foldl_join_eq fun t => hperm.mem_iff

/-- **The join is the least upper bound.** Where validation finds nothing wrong, two types, be they
known or not, conform to their join, and their join conforms to all that both conform to. It follows
that joining is idempotent, commutative and associative, and that the type found for a `case`, from
any state of the check, does not depend on the order of its branches. -/
theorem join_isLeastUpperBound {program : List ClassDecl} (hh : ofProgram program = (h, [])) :
    (∀ a b, h.conforms a (h.join a b) = true ∧ h.conforms b (h.join a b) = true) ∧
    (∀ a b c, h.conforms a c = true → h.conforms b c = true →
      h.conforms (h.join a b) c = true) ∧
    (∀ a, h.join a a = a) ∧ (∀ a b, h.join a b = h.join b a) ∧
    (∀ a b c, h.join (h.join a b) c = h.join a (h.join b c)) ∧
    ∀ scrutinee branches branches' span s, branches.Perm branches' →
      (checkExpr h (.caseOf scrutinee branches span) s).1 =
        (checkExpr h (.caseOf scrutinee branches' span) s).1 := by
  have ht := isTree_of_ofProgram hh
  refine ⟨h.conforms_join, fun a b c => join_conforms, h.join_self, ht.join_comm, ht.join_assoc, ?_⟩
  intro scrutinee branches branches' span s hperm
  rw [checkExpr_caseOf_fst, checkExpr_caseOf_fst]
  exact ht.joinAll_eq_of_perm (hperm.map _)

/-- The least that a hound and a cat both are is an animal, and a `case` over them and a dog has that
type in either order. -/
theorem join_isLeastUpperBound_zoo :
    ∃ h, ofProgram zoo = (h, []) ∧ h.join "Hound" "Cat" = "Animal" ∧
      (∀ c, h.conforms "Hound" c = true → h.conforms "Cat" c = true →
        h.conforms "Animal" c = true) ∧
      ∃ hound cat dog : Branch,
        (checkExpr h (.caseOf (.self .nowhere) [hound, cat, dog] .nowhere) .initial).1 = "Animal" ∧
        (checkExpr h (.caseOf (.self .nowhere) [dog, cat, hound] .nowhere) .initial).1 =
          "Animal" := by
  obtain ⟨-, hleast, -, -, -, horder⟩ := join_isLeastUpperBound ofProgram_zoo
  have hjoin : (ofProgram zoo).1.join "Hound" "Cat" = "Animal" := by decide +kernel
  refine ⟨_, ofProgram_zoo, hjoin, fun c hhound hcat => hjoin ▸ hleast _ _ c hhound hcat, ?_⟩
  let branch (T : String) : Branch := ⟨"x", T, .name "x" .nowhere, .nowhere⟩
  have hcase : (checkExpr (ofProgram zoo).1 (.caseOf (.self .nowhere)
      [branch "Hound", branch "Cat", branch "Dog"] .nowhere) .initial).1 = "Animal" := by
    decide +kernel
  refine ⟨branch "Hound", branch "Cat", branch "Dog", hcase, ?_⟩
  rw [← hcase]
  exact horder _ _ _ _ _ (List.reverse_perm [branch "Hound", branch "Cat", branch "Dog"])

end CoolLang
