import CoolLang.Proofs.Typing.Override

/-!
# What objects are made of

If the type check of a program has found nothing fatal, then every `new` in the program names a
class that there is, or `SELF_TYPE`. It does not matter what it was warned about.
-/

namespace CoolLang

/-- The expression is not a `new` that names an unknown class. -/
def Hierarchy.knows (h : Hierarchy) : Expr → Bool
  | .new typeName _ => typeName = ClassName.selfType || h.contains typeName
  | _ => true

theorem Hierarchy.contains_of_knows {h : Hierarchy} {typeName : String} {span : Span}
    (hnew : (Expr.new typeName span).every h.knows = true)
    (hself : typeName ≠ ClassName.selfType) : h.contains typeName = true := by
  have hknown := Expr.every_self hnew
  simpa [knows, hself] using hknown

open Check

theorem clears_declaredType (h : Hierarchy) (typeName : String) (position : Position) :
    Clears (declaredType h typeName position)
      ((typeName = ClassName.selfType || h.contains typeName) = true) := by
  refine .ite (fun hknown => ?_) fun _ => ?_
  · exact (Clears.of_finds (Finds.resolve typeName)).mono fun _ => hknown
  · exact (Clears.report position rfl).andThen fun _ => .ret _ trivial

mutual

/-- Every `new` in an expression is looked at. -/
theorem clears_checkExpr (h : Hierarchy) : (e : Expr) →
    Clears (checkExpr h e) (e.every h.knows = true)
  | .int .. => by
      rw [checkExpr]
      exact .ret _ rfl
  | .str .. => by
      rw [checkExpr]
      exact .ret _ rfl
  | .bool .. => by
      rw [checkExpr]
      exact .ret _ rfl
  | .self _ => by
      rw [checkExpr]
      exact (Clears.of_finds Finds.currentClass).mono fun _ => rfl
  | .name x span => by
      rw [checkExpr]
      exact (Clears.of_finds (Finds.name h x span)).mono fun _ => rfl
  | .assign x value span => by
      rw [checkExpr]
      refine .skip (.of_finds (Finds.requireBindable _ _ _)) fun _ => ?_
      refine ((clears_checkExpr h value).andThen fun S => ?_).mono fun hvalue => ?_
      · exact .skip (.of_finds (Finds.assignment h x S _ _)) fun _ => .ret _ trivial
      · simp [Expr.every, Hierarchy.knows, hvalue]
  | .dispatch r q method args span => by
      rw [checkExpr]
      refine ((clears_checkReceiver h r).bind fun R =>
        .skip (.of_finds (Finds.lookupClass? h R q _)) fun t =>
          (clears_checkArguments h args).andThen fun types => ?_).mono ?_
      · cases t with
        | none => exact .ret _ trivial
        | some T => exact .of_finds (Finds.call h R T method types span.start)
      · rintro ⟨hr, hargs⟩
        simp [Expr.every, Hierarchy.knows, hr, hargs]
  | .new typeName span => by
      rw [checkExpr]
      exact clears_declaredType h typeName span.start
  | .cond c t f _ => by
      rw [checkExpr]
      refine ((clears_checkExpr h c).bind fun B =>
        .skip (.of_finds (Finds.requireExact B _ _ _)) fun _ =>
          (clears_checkExpr h t).bind fun T =>
            (clears_checkExpr h f).andThen fun F => .ret _ trivial).mono ?_
      rintro ⟨hc, ht, hf⟩
      simp [Expr.every, Hierarchy.knows, hc, ht, hf]
  | .loop c body _ => by
      rw [checkExpr]
      refine ((clears_checkExpr h c).bind fun B =>
        .skip (.of_finds (Finds.requireExact B _ _ _)) fun _ =>
          (clears_checkExpr h body).andThen fun T => .ret _ trivial).mono ?_
      rintro ⟨hc, hbody⟩
      simp [Expr.every, Hierarchy.knows, hc, hbody]
  | .block body _ => by
      rw [checkExpr]
      refine (clears_checkSequence h ClassName.object body).mono fun hbody => ?_
      simp [Expr.every, Hierarchy.knows, hbody]
  | .letIn bs body _ => by
      rw [checkExpr]
      refine .skip (.modifyScope _) fun _ => ?_
      refine ((clears_checkBindings h bs).bind fun _ =>
        (clears_checkExpr h body).andThen fun T =>
          .skip (.modifyScope _) fun _ => .ret _ trivial).mono ?_
      rintro ⟨hbs, hbody⟩
      simp [Expr.every, Hierarchy.knows, hbs, hbody]
  | .caseOf scrutinee branches _ => by
      rw [checkExpr]
      refine ((clears_checkExpr h scrutinee).bind fun T =>
        (clears_checkBranches h [] branches).andThen fun types => .ret _ trivial).mono ?_
      rintro ⟨hscrutinee, hbranches⟩
      simp [Expr.every, Hierarchy.knows, hscrutinee, hbranches]
  | .isVoid e _ => by
      rw [checkExpr]
      refine ((clears_checkExpr h e).andThen fun T => .ret _ trivial).mono fun he => ?_
      simp [Expr.every, Hierarchy.knows, he]
  | .unary op e _ => by
      rw [checkExpr]
      refine ((clears_checkExpr h e).andThen fun T => .of_finds (Finds.unary h op T _)).mono ?_
      intro he
      simp [Expr.every, Hierarchy.knows, he]
  | .binary op l r _ => by
      rw [checkExpr]
      refine ((clears_checkExpr h l).bind fun L =>
        (clears_checkExpr h r).andThen fun R => .of_finds (Finds.binary h op L R _ _)).mono ?_
      rintro ⟨hl, hr⟩
      simp [Expr.every, Hierarchy.knows, hl, hr]
  | .primitive .. => by
      rw [checkExpr]
      exact .ret _ rfl

theorem clears_checkReceiver (h : Hierarchy) : (r : Option Expr) →
    Clears (checkReceiver h r) (everyOption h.knows r = true)
  | none => by
      rw [checkReceiver]
      exact (Clears.of_finds Finds.currentClass).mono fun _ => rfl
  | some e => by
      rw [checkReceiver]
      exact clears_checkExpr h e

theorem clears_checkArguments (h : Hierarchy) : (es : List Expr) →
    Clears (checkArguments h es) (everyExprs h.knows es = true)
  | [] => by
      rw [checkArguments]
      exact .ret _ rfl
  | e :: es => by
      rw [checkArguments]
      refine ((clears_checkExpr h e).bind fun T =>
        (clears_checkArguments h es).andThen fun types => .ret _ trivial).mono ?_
      rintro ⟨he, hes⟩
      simp [everyExprs, he, hes]

theorem clears_checkSequence (h : Hierarchy) : (last : String) → (es : List Expr) →
    Clears (checkSequence h last es) (everyExprs h.knows es = true)
  | _, [] => by
      rw [checkSequence]
      exact .ret _ rfl
  | _, e :: es => by
      rw [checkSequence]
      refine ((clears_checkExpr h e).bind fun T => clears_checkSequence h T es).mono ?_
      rintro ⟨he, hes⟩
      simp [everyExprs, he, hes]

theorem clears_checkBindings (h : Hierarchy) : (bs : List Binding) →
    Clears (checkBindings h bs) (everyBindings h.knows bs = true)
  | [] => by
      rw [checkBindings]
      exact .ret _ rfl
  | ⟨x, T, init, span⟩ :: bs => by
      rw [checkBindings]
      refine .skip (.of_finds (Finds.requireBindable _ _ _)) fun _ => ?_
      refine .skip (.of_finds (Finds.declaredType h T _)) fun D => ?_
      refine ((clears_checkInitializer h _ D init).bind fun _ =>
        .skip (.modifyScope _) fun _ => clears_checkBindings h bs).mono ?_
      rintro ⟨hinit, hbs⟩
      simp [everyBindings, hinit, hbs]

theorem clears_checkInitializer (h : Hierarchy) : (context declared : String) →
    (init : Option Expr) →
    Clears (checkInitializer h context declared init) (everyOption h.knows init = true)
  | _, _, none => by
      rw [checkInitializer]
      exact .ret _ rfl
  | _, _, some e => by
      rw [checkInitializer]
      exact (clears_checkExpr h e).andThen fun S => .of_finds (Finds.requireConforms h S _ _ _)

theorem clears_checkBranches (h : Hierarchy) : (seen : List String) → (bs : List Branch) →
    Clears (checkBranches h seen bs) (everyBranches h.knows bs = true)
  | _, [] => by
      rw [checkBranches]
      exact .ret _ rfl
  | seen, ⟨x, T, body, span⟩ :: bs => by
      rw [checkBranches]
      refine .skip (.of_finds (Finds.branchHead h _ seen)) fun D => ?_
      refine .skip (.modifyScope _) fun _ => ?_
      refine ((clears_checkExpr h body).bind fun B => .skip (.modifyScope _) fun _ =>
        (clears_checkBranches h (T :: seen) bs).andThen fun types => .ret _ trivial).mono ?_
      rintro ⟨hbody, hbs⟩
      simp [everyBranches, hbody, hbs]

end

/-! ## Classes -/

theorem clears_init_checkAttribute (h : Hierarchy) (c : ClassInfo) (a : Attribute) :
    Clears (checkAttribute h c a) (∀ e ∈ a.init, e.every h.knows = true) := by
  refine .skip (.of_finds (Finds.requireBindable _ _ _)) fun _ => ?_
  refine .skip (.of_finds (Finds.declaredType h _ _)) fun D => ?_
  have hinit := (clears_checkInitializer h s!"initializer of attribute {a.name}" D a.init).mono
    everyOption_iff.mp
  dsimp only
  split
  · exact .skip (.warn _ _) fun _ => hinit
  · exact hinit

theorem clears_body_checkMethod (h : Hierarchy) (c : ClassInfo) (m : Method) :
    Clears (checkMethod h c m) (m.body.every h.knows = true) := by
  refine .skip (.modifyScope _) fun _ => .skip (.of_binds (binds_checkFormals h _ _)) fun _ => ?_
  refine .skip (.of_finds (Finds.declaredType h _ _)) fun _ => ?_
  refine .skip ((clears_checkOverride h c m).mono fun _ => trivial) fun _ => ?_
  refine (clears_checkExpr h m.body).andThen fun received => ?_
  exact .skip (.modifyScope _) fun _ => .of_finds (Finds.requireConforms h received _ _ _)

theorem clears_expressions_checkClass (h : Hierarchy) (c : ClassInfo) :
    Clears (checkClass h c) (∀ e ∈ c.expressions, e.every h.knows = true) := by
  have hattributes := Clears.forM (clears_init_checkAttribute h c) c.attributes
  have hmethods := Clears.forM (clears_body_checkMethod h c) c.methodsInOrder
  intro s
  obtain ⟨hlog, hknown⟩ := hattributes.bind (fun _ => hmethods) { s with currentClass := c.name }
  rw [← checkClass_apply] at hlog hknown
  refine ⟨hlog, fun hclear e he => ?_⟩
  obtain ⟨hinits, hbodies⟩ := hknown hclear
  rcases List.mem_append.mp he with he | he
  · obtain ⟨m, hm, rfl⟩ := List.mem_map.mp he
    exact hbodies m (List.mem_mergeSort.mpr hm)
  · obtain ⟨a, ha, he⟩ := List.mem_filterMap.mp he
    exact hinits a ha e he

/-- **What the type check without fatal complaints says of `new`.** -/
theorem Hierarchy.WellNamed.knows_of_typeCheck {h : Hierarchy} (hh : h.WellNamed)
    (hcheck : ∀ d ∈ h.typeCheck, d.isFatal = false) :
    ∀ e ∈ h.expressions, e.every h.knows = true := by
  have huser := (Clears.forM (clears_expressions_checkClass h) h.userClasses Checker.initial).2
    hcheck
  have hbuiltin : ∀ c ∈ Builtin.classes, ∀ e ∈ c.expressions, e.isPrimitive = true := by decide
  intro e he
  obtain ⟨c, hc, he⟩ := List.mem_flatMap.mp he
  rcases hh.builtin_or_user hc with hc | hc
  · have hprimitive := hbuiltin c hc e he
    cases e with
    | primitive => rfl
    | _ => cases hprimitive
  · exact huser c hc e he

end CoolLang
