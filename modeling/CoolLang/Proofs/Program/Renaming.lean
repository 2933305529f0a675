import CoolLang.Proofs.Evaluation.Alpha
import CoolLang.Proofs.Typing.Alpha

/-!
# Bound names may be changed

A variable of a `let` or of a branch of a `case` may be given another name, at its binding and
wherever it is meant, if the expressions of the program do not use that name yet. Attributes,
methods and formal parameters may have it: nothing refers to them by it, so none is hidden.
-/

namespace CoolLang

open List (Forall₂)

/-! ## Programs with one binding renamed -/

/-- A binding of `x` in the expression of the feature is changed into one of `y`. -/
inductive Feature.Rebinds (x y : String) : Feature → Feature → Prop where
  | attr (name T : String) {e e' : Expr} (h : e.Rebinds x y e') (s : Span) :
      Feature.Rebinds x y (.attr ⟨name, T, some e, s⟩) (.attr ⟨name, T, some e', s⟩)
  | method (name : String) (formals : List Formal) (T : String) {e e' : Expr}
      (h : e.Rebinds x y e') (s : Span) :
      Feature.Rebinds x y (.method ⟨name, formals, T, e, s⟩) (.method ⟨name, formals, T, e', s⟩)

inductive ClassDecl.Rebinds (x y : String) : ClassDecl → ClassDecl → Prop where
  | feature (name : String) (parent : Option String) (pre : List Feature) {f f' : Feature}
      (h : f.Rebinds x y f') (post : List Feature) (s : Span) :
      ClassDecl.Rebinds x y ⟨name, parent, pre ++ f :: post, s⟩ ⟨name, parent, pre ++ f' :: post, s⟩

/-- The second program is the first with one binding of `x` changed into one of `y`. -/
inductive ProgramRebinds (x y : String) : List ClassDecl → List ClassDecl → Prop where
  | inClass (pre : List ClassDecl) {d d' : ClassDecl} (h : d.Rebinds x y d')
      (post : List ClassDecl) : ProgramRebinds x y (pre ++ d :: post) (pre ++ d' :: post)

/-- No expression of the feature mentions the name. -/
def Feature.Avoids (y : String) : Feature → Prop
  | .attr a => ∀ e ∈ a.init, e.Avoids y
  | .method m => m.body.Avoids y

def ClassDecl.Avoids (y : String) (d : ClassDecl) : Prop :=
  ∀ f ∈ d.features, f.Avoids y

/-! ## They are alpha-equivalent -/

section

variable {x y : String}

theorem Feature.alpha_refl {f : Feature} (h : f.Avoids y) : f.Alpha f := by
  cases f with
  | attr a => exact .attr ⟨rfl, rfl, optionAlpha_refl (Pairing.keeps_nil y) a.init h, rfl⟩
  | method m =>
      exact .method ⟨rfl, rfl, rfl, CoolLang.alpha_refl (Pairing.keeps_nil y) m.body h, rfl⟩

theorem ClassDecl.alpha_refl {d : ClassDecl} (h : d.Avoids y) : d.Alpha d :=
  ⟨rfl, rfl, List.forall₂_same.mpr fun f hf => Feature.alpha_refl (h f hf), rfl⟩

/-- Where one item of a list is replaced, the rest is related to itself. -/
theorem forall₂_replace {α : Type} {R : α → α → Prop} {a a' : α} (h : R a a')
    (pre post : List α) (hrefl : ∀ b ∈ pre ++ a :: post, R b b) :
    Forall₂ R (pre ++ a :: post) (pre ++ a' :: post) := by
  obtain ⟨hpre, hpost⟩ := List.forall_mem_append.mp hrefl
  exact List.rel_append (List.forall₂_same.mpr hpre)
    (.cons h (List.forall₂_same.mpr (List.forall_mem_cons.mp hpost).2))

theorem Feature.Rebinds.alpha {f f' : Feature} (h : f.Rebinds x y f') (hx : x ≠ "self")
    (hy : y ≠ "self") (havoids : f.Avoids y) : f.Alpha f' := by
  cases h with
  | attr name T he s =>
      exact .attr ⟨rfl, rfl, .some (he.alpha hx hy (havoids _ rfl) (Pairing.keeps_nil y)), rfl⟩
  | method name formals T he s =>
      exact .method ⟨rfl, rfl, rfl, he.alpha hx hy havoids (Pairing.keeps_nil y), rfl⟩

theorem ClassDecl.Rebinds.alpha {d d' : ClassDecl} (h : d.Rebinds x y d') (hx : x ≠ "self")
    (hy : y ≠ "self") (havoids : d.Avoids y) : d.Alpha d' := by
  cases h with
  | feature name parent pre hf post s =>
      have hchanged := hf.alpha hx hy (havoids _ (List.mem_append_right _ List.mem_cons_self))
      refine ⟨rfl, rfl, forall₂_replace hchanged pre post fun g hg => ?_, rfl⟩
      exact Feature.alpha_refl (havoids g hg)

theorem ProgramRebinds.alpha {program program' : List ClassDecl}
    (h : ProgramRebinds x y program program') (hx : x ≠ "self") (hy : y ≠ "self")
    (havoids : ∀ d ∈ program, d.Avoids y) : Forall₂ ClassDecl.Alpha program program' := by
  cases h with
  | inClass pre hd post =>
      have hchanged := hd.alpha hx hy (havoids _ (List.mem_append_right _ List.mem_cons_self))
      refine forall₂_replace hchanged pre post fun c hc => ?_
      exact ClassDecl.alpha_refl (havoids c hc)

end

open Hierarchy

/-- **Bound names may be changed.** Where one binding of a `let` or a `case`, of a name other than
`self`, gets a name that no expression of the program mentions, the same is wrong with the class
graph, the same kinds of diagnostics are reported at the same places in the same order, and every
run has the same result: what it writes, what it leaves unread, and its value or its fault. -/
theorem rename_irrelevant {x y : String} {program program' : List ClassDecl}
    (h : ProgramRebinds x y program program') (hx : x ≠ "self") (hy : y ≠ "self")
    (havoids : ∀ d ∈ program, d.Avoids y) :
    (ofProgram program').2 = (ofProgram program).2 ∧
    (ofProgram program').1.typeCheck.map (·.key) = (ofProgram program).1.typeCheck.map (·.key) ∧
    ∀ fuel warnings settings input,
      evaluate fuel (ofProgram program').1 warnings settings input =
        evaluate fuel (ofProgram program).1 warnings settings input := by
  obtain ⟨hh, hviolations⟩ := alpha_ofProgram (h.alpha hx hy havoids)
  exact ⟨hviolations.symm, hh.map_key_typeCheck.symm, fun fuel warnings settings input =>
    (hh.evaluate fuel warnings settings input).symm⟩

/-- A variable with the given name is counted up; a variable `n` inside starts from it and is
written, and then the outer one is. -/
def tally (outer : String) : List ClassDecl :=
  let write (e : Expr) : Expr := .dispatch none none "out_int" [e] .nowhere
  let plus (e : Expr) (n : Int64) : Expr := .binary .plus e (.int n .nowhere) .nowhere
  let named (x : String) : Expr := .name x .nowhere
  let inner : Expr :=
    .letIn [⟨"n", ClassName.int, some (plus (named outer) 3), .nowhere⟩]
      (write (named "n")) .nowhere
  [⟨ClassName.mainClass, some ClassName.io,
    [.method ⟨mainMethod, [], ClassName.object,
      .letIn [⟨outer, ClassName.int, some (.int 1 .nowhere), .nowhere⟩]
        (.block [.assign outer (plus (named outer) 1) .nowhere, inner,
          write (named outer)] .nowhere) .nowhere, .nowhere⟩], .nowhere⟩]

/-- With its outer variable renamed, and the inner one of the old name left alone, the tally is
accepted as before and writes the same. -/
theorem rename_irrelevant_tally :
    (ofProgram (tally "k")).2 = [] ∧ (ofProgram (tally "k")).1.typeCheck = [] ∧
    (evaluate 9 (ofProgram (tally "k")).1 [] {} []).map (fun r => (r.output, r.value?)) =
      some ("52", some (.object ClassName.mainClass)) := by
  have hrebinds : ProgramRebinds "n" "k" (tally "n") (tally "k") :=
    .inClass [] (.feature _ _ [] (.method _ _ _ (.letIn _ _ _ _ _) _) [] _) []
  obtain ⟨hfirst, hcheck, hrun⟩ := rename_irrelevant hrebinds (by decide) (by decide) (by
    intro d hd f hf
    obtain rfl := List.mem_singleton.mp hd
    obtain rfl := List.mem_singleton.mp hf
    show Expr.Avoids _ _
    decide +kernel)
  have htypes : (ofProgram (tally "n")).1.typeCheck = [] := by decide +kernel
  rw [htypes, List.map_nil, List.map_eq_nil_iff] at hcheck
  refine ⟨hfirst.trans (by decide +kernel), hcheck, ?_⟩
  rw [hrun]
  decide +kernel

end CoolLang
