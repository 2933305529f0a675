import CoolLang.Proofs.Typing.Class
import CoolLang.Proofs.Typing.Query

/-!
# The reports on a program, class by class

Each class is checked on its own. What is reported about it depends neither on the classes checked
before nor on what was reported about them, so the type check of a program is the reports on its
classes, one after the other.
-/

namespace CoolLang

open Check

/-- What is checked of a method inside the frame of its formals: the type it declares and the type
of its body. -/
def checkSignatureAndBody (h : Hierarchy) (c : ClassInfo) (m : Method) :
    Check (String × String) := do
  m.formals.forM (checkFormal h m.span.start)
  let declared ← Check.declaredType h m.returnType m.span.start
  checkOverride h c m
  let received ← checkExpr h m.body
  return (declared, received)

theorem checkMethod_eq (h : Hierarchy) (c : ClassInfo) (m : Method) :
    checkMethod h c m = (do
      let types ← (do
        Check.modifyScope .push
        let types ← checkSignatureAndBody h c m
        Check.modifyScope .pop
        return types : Check (String × String))
      Check.requireConforms h types.2 types.1 s!"body of method {m.name}" m.body.span.start) :=
  rfl

theorem declares_checkSignatureAndBody (h : Hierarchy) (c : ClassInfo) (m : Method)
    (s : Checker) : s.Declares (checkSignatureAndBody h c m s).2 := by
  have hrest := (Finds.declaredType h m.returnType m.span.start).bind fun declared =>
    (finds_checkOverride h c m).bind fun _ => (finds_checkExpr h m.body).bind fun received =>
      Finds.ret (a := (declared, received)) (P := fun _ _ => _ → _ → _ → True)
        fun _ _ _ _ => trivial
  exact (((binds_checkFormals h m.span.start m.formals).bind fun _ => hrest.binds) s).1

namespace Check.Uniform

variable {α : Type} {h : Hierarchy}

theorem forM {f : α → Check Unit} (hf : ∀ a, Uniform (f a)) (as : List α) :
    Uniform (as.forM f) := by
  induction as with
  | nil => exact ret _
  | cons a as ih => exact (hf a).bind fun _ => ih

/-! ## Features -/

theorem checkAttribute (c : ClassInfo) (a : Attribute) :
    Uniform (CoolLang.checkAttribute h c a) := by
  refine (requireBindable _ _ _).bind fun _ => (declaredType _ _).bind fun D => ?_
  have hinit := uniform_checkInitializer h s!"initializer of attribute {a.name}" D a.init
  split
  · exact (report _ _).bind fun _ => hinit
  · exact hinit

theorem checkFormal (position : Position) (formal : Parameter) :
    Uniform (CoolLang.checkFormal h position formal) :=
  (requireBindable _ _ _).bind fun _ => (declaredClass _ _ _).bind fun D => declare formal.name D

theorem checkFormalsMatch (method ancestor : String) (position : Position)
    (overridden : List Parameter) : ∀ index formals,
      Uniform (CoolLang.checkFormalsMatch method ancestor position index overridden formals) := by
  induction overridden with
  | nil => intro index formals; exact ret _
  | cons expected overridden ih =>
      intro index formals
      cases formals with
      | nil => exact ret _
      | cons received formals => exact ite ((report _ _).bind fun _ => ih _ _) (ih _ _)

theorem checkOverride (c : ClassInfo) (m : Method) : Uniform (CoolLang.checkOverride h c m) := by
  unfold CoolLang.checkOverride
  split
  · exact ret _
  · refine ite (report _ _) ((checkFormalsMatch _ _ _ _ _ _).bind fun _ => ?_)
    exact ite (report _ _) (ret _)

theorem checkMethod (c : ClassInfo) (m : Method) : Uniform (CoolLang.checkMethod h c m) := by
  have hinside : Uniform (checkSignatureAndBody h c m) :=
    (forM (checkFormal m.span.start) m.formals).bind fun _ =>
      (declaredType m.returnType m.span.start).bind fun declared =>
        (checkOverride c m).bind fun _ =>
          (uniform_checkExpr h m.body).bind fun received => ret (declared, received)
  rw [checkMethod_eq]
  exact (framed Scope.pop_push (fun _ _ hΓ x => hΓ x) hinside
    (declares_checkSignatureAndBody h c m)).bind fun types => requireConforms _ _ _ _

theorem features (c : ClassInfo) : Uniform (do
    c.attributes.forM (CoolLang.checkAttribute h c)
    c.methodsInOrder.forM (CoolLang.checkMethod h c)) :=
  (forM (checkAttribute c) _).bind fun _ => forM (checkMethod c) _

end Check.Uniform

namespace Hierarchy

/-! ## Classes -/

/-- What the check of one class has to report. -/
def reports (h : Hierarchy) (c : ClassInfo) : List Diagnostic :=
  (checkClass h c .initial).2.log

/-- A class is checked with no names in scope, and none are left there. -/
theorem checkClass_spec (h : Hierarchy) (c : ClassInfo) {s : Checker} (hs : s.scope = .empty) :
    (checkClass h c s).2.scope = .empty ∧ (checkClass h c s).2.log = s.log ++ h.reports c := by
  have hscope := ((Finds.forM (finds_checkAttribute h c) c.attributes).bind
    (Q := fun _ _ => True) fun _ => (Finds.forM (finds_checkMethod h c) c.methodsInOrder).mono
      fun _ _ _ _ => trivial) { s with currentClass := c.name }
  have halike : Checker.Alike { s with currentClass := c.name }
      { Checker.initial with currentClass := c.name } := ⟨rfl, fun x => by rw [hs]; rfl⟩
  obtain ⟨-, -, reports, hlog, hlog'⟩ := Uniform.features (h := h) c _ _ halike
  rw [← checkClass_apply] at hscope hlog hlog'
  refine ⟨hscope.1.scope.trans hs, ?_⟩
  rw [hlog, Hierarchy.reports, hlog']
  rfl

theorem log_forM_checkClass (h : Hierarchy) (cs : List ClassInfo) :
    ∀ s : Checker, s.scope = .empty →
      (cs.forM (checkClass h) s).2.log = s.log ++ cs.flatMap h.reports := by
  induction cs with
  | nil => intro s _; exact (List.append_nil _).symm
  | cons c cs ih =>
      intro s hs
      obtain ⟨hscope, hlog⟩ := h.checkClass_spec c hs
      refine (ih (checkClass h c s).2 hscope).trans ?_
      rw [hlog, List.flatMap_cons, List.append_assoc]

/-- **Classes are checked independently.** -/
theorem typeCheck_eq (h : Hierarchy) : h.typeCheck = h.userClasses.flatMap h.reports :=
  h.log_forM_checkClass h.userClasses .initial rfl

end Hierarchy

end CoolLang
