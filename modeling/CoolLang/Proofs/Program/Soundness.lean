import CoolLang.Proofs.Declaration.Written
import CoolLang.Proofs.Evaluation.Soundness

/-!
# Sound programs

What the type check without a complaint promises of every run of a program.
-/

namespace CoolLang

namespace Hierarchy

variable {h : Hierarchy}

/-- The method that a program starts with is one of its own. -/
theorem Plain.main_returnType_ne (hplain : h.Plain) (ht : h.IsTree) {owner : String}
    {main : Method}
    (hmain : h.findMethod? ClassName.mainClass mainMethod = some (owner, main)) :
    main.returnType ≠ ClassName.selfType := by
  obtain ⟨c, hc, -, hown⟩ := findMethod?_eq_some hmain
  rcases ht.wellNamed.builtin_or_user (mem_classes_of_mem_ancestors hc) with hbuilt | huser
  · have hnone : ∀ c ∈ Builtin.classes, (c.method? mainMethod).isNone = true := by decide
    have hnone := hnone c hbuilt
    rw [hown] at hnone
    cases hnone
  · exact hplain.returnTypes c huser main (List.mem_of_find?_eq_some hown)

end Hierarchy

theorem Eval.Yields.program {h : Hierarchy} (hwt : h.WellTyped) (hplain : h.Plain) {p : Program}
    (hp : p.classes = .ofHierarchy h) {owner : String} {main : Method}
    (hMain : h.contains ClassName.mainClass = true)
    (hmain : h.findMethod? ClassName.mainClass mainMethod = some (owner, main))
    (hformals : main.formals = []) (fuel : Nat) (input : Input) :
    (Eval.program p fuel).Yields h [] (.initial h input) fun v _ s =>
      v.Fits h s main.returnType := by
  have hev := Evaluator.Sound.eval hwt hplain hp fuel
  refine .bind (.instantiate hwt hplain hp hev (Store.wellTyped_initial hwt input) hMain _) ?_
  intro object types m hgrows hobject
  refine (Eval.Yields.dispatch hwt hplain hp hev hgrows.wellTyped hobject .dynamic hmain ?_ _).mono
    fun _ hv => ?_
  · rw [hformals]
    exact .nil
  · rwa [ClassName.resolve_of_ne (hplain.main_returnType_ne hwt.tree hmain)] at hv

/-- **Type soundness.** Let validation and the type check find nothing in a program, not even
something to warn of, and let the program be plain. With any input, any limits and any fuel its run
does not end because a method is not defined, and not in an internal fault other than an input that
cannot be read. What it returns is of a class that conforms to the declared type of the main method,
or is void, where that type is none of those that are never void.

Programs read from a source are all written, see `written_of_readProgram`. -/
theorem program_sound {program : List ClassDecl} {h : Hierarchy}
    (hh : Hierarchy.ofProgram program = (h, [])) (hcheck : h.typeCheck = [])
    (hwritten : ∀ d ∈ program, d.Written) (hplain : h.Plain) (settings : Settings)
    (input : Input) (fuel : Nat) :
    (∀ d m, Eval.program (.ofHierarchy h settings) fuel (.initial h input) = .error (.fault d) m →
      (∀ className method, d.cause ≠ .undefinedMethod className method) ∧
      ∀ message, d.cause = .internal message →
        message = "failed to read input: stream did not contain valid UTF-8") ∧
    ∃ owner main, h.findMethod? ClassName.mainClass mainMethod = some (owner, main) ∧
      ∀ v m, Eval.program (.ofHierarchy h settings) fuel (.initial h input) = .ok v m →
        (v = .void ∧ main.returnType ∉ ClassName.finals) ∨
        ∃ className, v.className? m.store = some className ∧
          h.conforms className main.returnType = true := by
  have hwt := Hierarchy.wellTyped_of_ofProgram hh hcheck hwritten
  obtain ⟨hMain, owner, main, hmain, hformals⟩ := Hierarchy.exists_main_of_ofProgram hh
  have hrun := Eval.Yields.program (p := .ofHierarchy h settings) hwt hplain rfl hMain hmain
    hformals fuel input
  refine ⟨fun d m herr => ?_, owner, main, hmain, fun v m hok => ?_⟩
  · have hexcused := hrun.error herr
    refine ⟨fun className method hcause => ?_, fun message hcause => ?_⟩
    · simp [Halt.isExcused, hcause, Cause.isExcused] at hexcused
    · simpa [Halt.isExcused, hcause, Cause.isExcused] using hexcused
  · obtain ⟨types, -, hfits⟩ := hrun.ok hok
    cases hfits with
    | void hT => exact Or.inl ⟨rfl, hT⟩
    | ofClass hclass hconf => exact Or.inr ⟨_, hclass, hconf⟩

/-- Squares and discs: an attribute is inherited, a method is overridden, an object is copied, and
there is a branch for each of two classes. -/
def shapes : List ClassDecl :=
  let name (x : String) : Expr := .name x .nowhere
  let call (r : Option Expr) (x : String) (args : List Expr) : Expr :=
    .dispatch r none x args .nowhere
  let times (l r : Expr) : Expr := .binary .times l r .nowhere
  let field (x T : String) (init : Expr) : Feature := .attr ⟨x, T, some init, .nowhere⟩
  let method (x T : String) (body : Expr) : Feature := .method ⟨x, [], T, body, .nowhere⟩
  let square : Expr := times (name "side") (name "side")
  let twin : Expr := call (some (name "shape")) "twin" []
  [⟨"Shape", none,
      [field "side" "Int" (.int 3 .nowhere), method "twin" "Shape" (call none "copy" [])],
      .nowhere⟩,
    ⟨"Square", some "Shape", [method "area" "Int" square], .nowhere⟩,
    ⟨"Disc", some "Square", [method "area" "Int" (times (.int 3 .nowhere) square)], .nowhere⟩,
    ⟨ClassName.mainClass, some ClassName.io,
      [field "shape" "Square" (.new "Disc" .nowhere),
        method mainMethod "Shape" (.block [
          call none "out_int" [call (some (name "shape")) "area" []],
          .caseOf twin [⟨"s", "Square", twin, .nowhere⟩, ⟨"d", "Disc", name "d", .nowhere⟩]
            .nowhere] .nowhere)],
      .nowhere⟩]

theorem program_sound_shapes :
    ∃ h, Hierarchy.ofProgram shapes = (h, []) ∧ h.typeCheck = [] ∧ (∀ d ∈ shapes, d.Written) ∧
      h.Plain ∧ ∃ v m, Eval.program (.ofHierarchy h {}) 20 (.initial h []) = .ok v m ∧
        m.output = "27" ∧
        ∃ owner main, h.findMethod? ClassName.mainClass mainMethod = some (owner, main) ∧
          ((v = .void ∧ main.returnType ∉ ClassName.finals) ∨
            ∃ className, v.className? m.store = some className ∧
              h.conforms className main.returnType = true) := by
  have hnil : (Hierarchy.ofProgram shapes).2 = [] := by decide +kernel
  have hh : Hierarchy.ofProgram shapes = ((Hierarchy.ofProgram shapes).1, []) := by rw [← hnil]
  have hcheck : (Hierarchy.ofProgram shapes).1.typeCheck = [] := by decide +kernel
  have hwritten : ∀ d ∈ shapes, d.Written := by decide +kernel
  have hplain : (Hierarchy.ofProgram shapes).1.Plain :=
    ⟨by decide +kernel, by decide +kernel, by decide +kernel⟩
  have hout : (match Eval.program (.ofHierarchy (Hierarchy.ofProgram shapes).1 {}) 20
        (.initial (Hierarchy.ofProgram shapes).1 []) with
      | .ok _ m => m.output
      | .error _ _ => "") = "27" := by decide +kernel
  obtain ⟨-, owner, main, hmain, hvalue⟩ := program_sound hh hcheck hwritten hplain {} [] 20
  refine ⟨_, hh, hcheck, hwritten, hplain, ?_⟩
  split at hout
  · rename_i v m hrun
    exact ⟨v, m, hrun, hout, owner, main, hmain, hvalue v m hrun⟩
  · exact absurd hout (by decide)

end CoolLang
