import CoolLang.Proofs.Typing.Checker

/-!
# Well-typed classes

What the check of a class without complaints says of its attributes and methods.
-/

namespace CoolLang

/-- What callers of a method rely on. -/
def Method.signature (m : Method) : List String × String :=
  (m.formals.map (·.typeName), m.returnType)

/-- The scope with formals declared in its innermost frame. -/
def Scope.declareAll (Γ : Scope) (formals : List Parameter) : Scope :=
  formals.foldl (fun Γ f => Γ.declare f.name f.typeName) Γ

/-- The scope that the body of a method is checked in. -/
def Method.scope (m : Method) : Scope :=
  Scope.empty.push.declareAll m.formals

structure Attribute.WellTyped (h : Hierarchy) (c : ClassInfo) (a : Attribute) : Prop where
  declarable : h.Declarable a.typeName
  /-- No ancestor declares the attribute. -/
  fresh : ∀ d ∈ (h.ancestors c.name).tail, d.attribute? a.name = none
  init : (∀ e ∈ a.init, e.Written) →
    InitializerHasType h c.name .empty a.init (ClassName.resolve c.name a.typeName)

structure Method.WellTyped (h : Hierarchy) (c : ClassInfo) (m : Method) : Prop where
  formals : ∀ f ∈ m.formals, h.contains f.typeName = true
  returns : h.Declarable m.returnType
  overrides : ∀ {parent owner overridden}, c.parent = some parent →
    h.findMethod? parent m.name = some (owner, overridden) → overridden.signature = m.signature
  body : m.body.Written → ∃ T, HasType h c.name m.scope m.body T ∧
    h.conforms T (ClassName.resolve c.name m.returnType) = true

structure ClassInfo.WellTyped (h : Hierarchy) (c : ClassInfo) : Prop where
  attributes : ∀ a ∈ c.attributes, a.WellTyped h c
  methods : ∀ m ∈ c.methods, m.WellTyped h c

open Check

theorem Check.Finds.forM {α : Type} {f : α → Check Unit} {P : α → Checker → Prop}
    (hf : ∀ a, Finds (f a) fun s _ => P a s) (as : List α) :
    Finds (as.forM f) fun s _ => ∀ a ∈ as, P a s := by
  induction as with
  | nil => exact .ret fun s a ha => absurd ha List.not_mem_nil
  | cons a as ih =>
      refine (hf a).bind fun _ => ih.mono fun s _ has ha => ?_
      exact List.forall_mem_cons.mpr ⟨ha, has⟩

/-! ## Attributes -/

theorem finds_checkAttribute (h : Hierarchy) (c : ClassInfo) (a : Attribute) :
    Finds (checkAttribute h c a) fun s _ =>
      s.currentClass = c.name → s.scope = .empty → a.WellTyped h c := by
  refine (Finds.requireBindable _ _ _).bind fun _ =>
    (Finds.declaredType h a.typeName a.span.start).bind fun D => ?_
  have hinit := finds_checkInitializer h s!"initializer of attribute {a.name}" D a.init
  split
  · exact .reported (hinit.mono fun _ _ _ => trivial)
  · rename_i hfresh
    refine hinit.mono ?_
    rintro s _ hinit ⟨hdeclarable, rfl⟩ - hclass hscope
    rw [hclass, hscope] at hinit
    refine ⟨hdeclarable, fun d hd => ?_, hinit⟩
    simpa using List.find?_eq_none.mp hfresh d hd

/-! ## Methods -/

theorem binds_checkFormal (h : Hierarchy) (position : Position) (f : Parameter) :
    Binds (checkFormal h position f) fun s _ s' => h.contains f.typeName = true ∧
      s' = { s with scope := s.scope.declare f.name f.typeName } := by
  have hall := (Finds.requireBindable f.name "the name of a formal parameter" position).binds.bind
    fun _ => (Finds.declaredClass h f.typeName s!"formal parameter {f.name}" position).binds.bind
      fun D => Binds.declare f.name D
  refine hall.mono ?_
  rintro s _ s' ⟨_, _, ⟨rfl, -⟩, D, _, ⟨rfl, hknown, rfl⟩, rfl⟩
  exact ⟨hknown, rfl⟩

theorem binds_checkFormals (h : Hierarchy) (position : Position) (formals : List Parameter) :
    Binds (formals.forM (checkFormal h position)) fun s _ s' =>
      (∀ f ∈ formals, h.contains f.typeName = true) ∧
      s' = { s with scope := s.scope.declareAll formals } := by
  induction formals with
  | nil =>
      exact fun s => ⟨(Checker.Logs.refl s).declares, fun _ =>
        ⟨fun f hf => absurd hf List.not_mem_nil, rfl⟩⟩
  | cons f formals ih =>
      refine ((binds_checkFormal h position f).bind fun _ => ih).mono ?_
      rintro s _ s' ⟨_, _, ⟨hf, rfl⟩, hformals, rfl⟩
      exact ⟨List.forall_mem_cons.mpr ⟨hf, hformals⟩, rfl⟩

theorem finds_checkFormalsMatch (method ancestor : String) (position : Position)
    (overridden : List Parameter) :
    ∀ index formals, Finds (checkFormalsMatch method ancestor position index overridden formals)
      fun _ _ => overridden.length = formals.length →
        overridden.map (·.typeName) = formals.map (·.typeName) := by
  induction overridden with
  | nil =>
      intro index formals
      refine .ret fun s hlength => ?_
      rw [List.length_nil, eq_comm, List.length_eq_zero_iff] at hlength
      rw [hlength]
  | cons expected overridden ih =>
      intro index formals
      cases formals with
      | nil => exact .ret fun s hlength => absurd hlength (by simp)
      | cons received formals =>
          refine .ite (fun _ => .reported ((ih _ _).mono fun _ _ _ => trivial)) fun htype => ?_
          refine (ih (index + 1) formals).mono fun s _ hrest hlength => ?_
          rw [List.map_cons, List.map_cons, hrest (by simpa using hlength)]
          rw [not_ne_iff.mp htype]

theorem finds_checkOverride (h : Hierarchy) (c : ClassInfo) (m : Method) :
    Finds (checkOverride h c m) fun _ _ => ∀ {parent owner overridden},
      c.parent = some parent → h.findMethod? parent m.name = some (owner, overridden) →
        overridden.signature = m.signature := by
  unfold checkOverride
  split
  · rename_i hnone
    refine .ret fun s parent owner overridden hparent hfound => ?_
    rw [hparent] at hnone
    exact absurd (hnone.symm.trans hfound) (by simp)
  · rename_i owner overridden hsome
    refine .ite (fun _ => .report) fun harity => ?_
    have hreturns : Finds (if overridden.returnType ≠ m.returnType then
        report (Cause.overrideReturnTypeChanged m.name owner overridden.returnType m.returnType)
          m.span.start else pure PUnit.unit) fun _ _ => overridden.returnType = m.returnType :=
      .ite (fun _ => .report) fun hreturn => .ret fun _ => not_ne_iff.mp hreturn
    refine (finds_checkFormalsMatch _ _ _ overridden.formals 1 m.formals).bind fun _ =>
      hreturns.mono ?_
    intro s _ hreturn hformals parent owner' overridden' hparent hfound
    rw [hparent] at hsome
    cases hsome.symm.trans hfound
    exact Prod.ext (hformals (not_ne_iff.mp harity)) hreturn

theorem finds_checkMethod (h : Hierarchy) (c : ClassInfo) (m : Method) :
    Finds (checkMethod h c m) fun s _ =>
      s.currentClass = c.name → s.scope = .empty → m.WellTyped h c := by
  -- what is checked inside the frame of the formals
  let inside : Check (String × String) := do
    m.formals.forM (checkFormal h m.span.start)
    let declared ← Check.declaredType h m.returnType m.span.start
    checkOverride h c m
    let received ← checkExpr h m.body
    return (declared, received)
  have hinside := (binds_checkFormals h m.span.start m.formals).bind fun _ =>
    (Finds.bind (Q := fun s (types : String × String) =>
        h.Declarable m.returnType ∧
        types.1 = ClassName.resolve s.currentClass m.returnType ∧
        (∀ {parent owner overridden}, c.parent = some parent →
          h.findMethod? parent m.name = some (owner, overridden) →
            overridden.signature = m.signature) ∧
        (m.body.Written → HasType h s.currentClass s.scope m.body types.2))
      (Finds.declaredType h m.returnType m.span.start) fun declared =>
      (finds_checkOverride h c m).bind fun _ => (finds_checkExpr h m.body).bind fun received =>
        .ret (a := (declared, received)) fun s hbody hoverride hdeclared =>
          ⟨hdeclared.1, hdeclared.2, hoverride, hbody⟩).binds
  have hall := Finds.bind (Q := fun s _ =>
      s.currentClass = c.name → s.scope = .empty → m.WellTyped h c)
    ((show Binds inside _ from hinside).framed Scope.pop_push) fun types =>
      (Finds.requireConforms h types.2 types.1 s!"body of method {m.name}"
        m.body.span.start).mono ?_
  · exact hall
  · rintro s _ hconforms ⟨_, _, s₁, ⟨hformals, rfl⟩, -, hreturns, htype, hoverride, hbody⟩
      hclass hscope
    dsimp only at htype hbody
    rw [hclass, hscope] at hbody
    rw [htype, hclass] at hconforms
    exact ⟨hformals, hreturns, hoverride, fun hw => ⟨types.2, hbody hw, hconforms⟩⟩

/-! ## Classes -/

theorem checkClass_apply (h : Hierarchy) (c : ClassInfo) (s : Checker) :
    checkClass h c s = (do
      c.attributes.forM (checkAttribute h c)
      c.methodsInOrder.forM (checkMethod h c) : Check Unit)
        { s with currentClass := c.name } := rfl

/-- Classes are checked one after the other, each in an empty scope. -/
theorem wellTyped_of_forM (h : Hierarchy) (cs : List ClassInfo) :
    ∀ s : Checker, s.scope = .empty → s.log <+: (cs.forM (checkClass h) s).2.log ∧
      ((cs.forM (checkClass h) s).2.log = s.log → ∀ c ∈ cs, c.WellTyped h) := by
  induction cs with
  | nil => exact fun s _ => ⟨List.prefix_refl _, fun _ => nofun⟩
  | cons c cs ih =>
      intro s hscope
      have hclass := ((Finds.forM (finds_checkAttribute h c) c.attributes).bind fun _ =>
        (Finds.forM (finds_checkMethod h c) c.methodsInOrder).mono
          (Q := fun s _ => (∀ a ∈ c.attributes, s.currentClass = c.name → s.scope = .empty →
            a.WellTyped h c) → s.currentClass = c.name → s.scope = .empty → c.WellTyped h) ?_)
        { s with currentClass := c.name }
      · rw [← checkClass_apply] at hclass
        obtain ⟨hlogs, hsilent⟩ := hclass
        obtain ⟨hlog, hrest⟩ := ih (checkClass h c s).2 (hlogs.scope.trans hscope)
        refine ⟨hlogs.log.trans hlog, fun heq => ?_⟩
        have hstill : (checkClass h c s).2.log = s.log := log_eq_of_prefix hlogs.log hlog heq
        exact List.forall_mem_cons.mpr
          ⟨hsilent hstill rfl hscope, hrest (heq.trans hstill.symm)⟩
      · intro s' _ hmethods hattributes hclass hscope
        refine ⟨fun a ha => hattributes a ha hclass hscope, fun m hm => ?_⟩
        exact hmethods m (List.mem_mergeSort.mpr hm) hclass hscope

/-- **What the type check without complaints says.** -/
theorem Hierarchy.wellTyped_of_typeCheck {h : Hierarchy} (hcheck : h.typeCheck = []) :
    ∀ c ∈ h.userClasses, c.WellTyped h :=
  (wellTyped_of_forM h h.userClasses Checker.initial rfl).2 hcheck

end CoolLang
