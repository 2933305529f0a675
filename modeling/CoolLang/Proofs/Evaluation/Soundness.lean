import CoolLang.Program.Run
import CoolLang.Proofs.Evaluation.Yields

/-!
# Type soundness

A program that passed validation and the type check without a complaint looks up no method in vain
and runs into no internal fault, and what it returns fits the declared type of its main method.
Three kinds of programs are left out, for which this does not hold: those with methods that return
`SELF_TYPE`, those with attributes of that type, and those where an attribute and a method that meet
in one class share a name.
-/

namespace CoolLang

/-- The program makes no use of `SELF_TYPE` in its features, and no attribute of a class has the
name of one of its methods, inherited ones included. -/
structure Hierarchy.Plain (h : Hierarchy) : Prop where
  returnTypes : ∀ c ∈ h.userClasses, ∀ m ∈ c.methods, m.returnType ≠ ClassName.selfType
  attributeTypes : ∀ c ∈ h.userClasses, ∀ a ∈ c.attributes, a.typeName ≠ ClassName.selfType
  apart : ∀ c ∈ h.classes, ∀ d ∈ h.ancestors c.name, ∀ e ∈ h.ancestors c.name,
    ∀ a ∈ d.attributes, ∀ m ∈ e.methods, a.name ≠ m.name

namespace ClassName

theorem resolve_selfType (self : String) : resolve self selfType = self := if_pos rfl

theorem resolve_of_ne {typeName : String} (hne : typeName ≠ selfType) (self : String) :
    resolve self typeName = typeName := if_neg hne

end ClassName

namespace Hierarchy

variable {h : Hierarchy} {D x owner : String}

theorem Plain.findAttribute?_eq_none (hplain : h.Plain) (hD : h.contains D = true) {m : Method}
    (hm : h.findMethod? D x = some (owner, m)) : h.findAttribute? D x = none := by
  obtain ⟨c, hc⟩ := exists_find?_of_contains hD
  obtain ⟨e, he, -, hme⟩ := findMethod?_eq_some hm
  cases ha : h.findAttribute? D x with
  | none => rfl
  | some found =>
      obtain ⟨owner', a⟩ := found
      obtain ⟨d, hd, -, had⟩ := findAttribute?_eq_some ha
      have hapart := hplain.apart c (mem_classes_of_find? hc)
      rw [name_of_find? hc] at hapart
      have hne := hapart d hd e he a (List.mem_of_find?_eq_some had) m
        (List.mem_of_find?_eq_some hme)
      rw [ClassInfo.name_of_attribute? had, ClassInfo.name_of_method? hme] at hne
      exact absurd rfl hne

theorem Plain.attributeType_ne (hplain : h.Plain) (hwt : h.WellTyped) {a : Attribute}
    (ha : h.findAttribute? D x = some (owner, a)) : a.typeName ≠ ClassName.selfType := by
  obtain ⟨c, hc, -, -, hmem, -⟩ := hwt.wellTyped_of_findAttribute? ha
  exact hplain.attributeTypes c hc a hmem

/-- A value of a class of the program is an object. -/
theorem WellTyped.exists_object (hwt : h.WellTyped) {c : ClassInfo} (hc : c ∈ h.userClasses)
    {s : Store} {types : List String} (hs : s.WellTyped h types) {v : Value}
    (hv : v.className? s = some D) (hDc : h.conforms D c.name = true) :
    ∃ place, v = .object place := by
  have huser : ClassName.isReserved c.name = false := by
    simpa using (List.mem_filter.mp hc).2
  obtain ⟨d, hd, hname⟩ := hwt.tree.exists_ancestor
    (hs.contains_className? hwt.tree hv) hDc
  -- the other values belong to built-in classes, and so do their ancestors
  have hbuiltin : ∀ b ∈ Builtin.classes, b.name ≠ D := by
    rintro b hb rfl
    have hreserved := hwt.tree.isReserved_of_mem_ancestors hb hd
    rw [hname, huser] at hreserved
    cases hreserved
  cases v with
  | object place => exact ⟨place, rfl⟩
  | int => cases hv; exact absurd rfl (hbuiltin Builtin.int (by simp [Builtin.classes]))
  | str => cases hv; exact absurd rfl (hbuiltin Builtin.string (by simp [Builtin.classes]))
  | bool => cases hv; exact absurd rfl (hbuiltin Builtin.bool (by simp [Builtin.classes]))
  | void => cases hv

end Hierarchy

/-- The evaluator does right by every well-typed expression. -/
def Evaluator.Sound (h : Hierarchy) (ev : Evaluator) : Prop :=
  ∀ ⦃C Γ e T types env m⦄, HasType h C Γ e T → m.store.WellTyped h types →
    env.WellTyped h C Γ types m.store →
    (ev e env).Yields h types m fun v _ s => v.Fits h s T

namespace Eval.Yields

variable {h : Hierarchy} {types : List String} {ev : Evaluator} {m : Machine} {C : String}
  {Γ : Scope} {env : Environment} {e : Expr}

/-! ## Operands and sequences -/

theorem bool (ht : h.IsTree) (hev : ev.Sound h) (he : HasType h C Γ e ClassName.bool)
    (hs : m.store.WellTyped h types) (henv : env.WellTyped h C Γ types m.store) :
    (Eval.bool ev e env).Yields h types m fun _ _ _ => True := by
  refine bind (hev he hs henv) fun {v types₁ m₁} hgrows hv => ?_
  obtain ⟨b, rfl⟩ := hv.exists_bool ht hgrows.wellTyped
  exact ret hgrows.wellTyped trivial

theorem int (ht : h.IsTree) (hev : ev.Sound h) (he : HasType h C Γ e ClassName.int)
    (hs : m.store.WellTyped h types) (henv : env.WellTyped h C Γ types m.store) :
    (Eval.int ev e env).Yields h types m fun _ _ _ => True := by
  refine bind (hev he hs henv) fun {v types₁ m₁} hgrows hv => ?_
  obtain ⟨n, rfl⟩ := hv.exists_int ht hgrows.wellTyped
  exact ret hgrows.wellTyped trivial

theorem receiver (hev : ev.Sound h) {r : Option Expr} {R : String}
    (hr : ReceiverHasType h C Γ r R) (hs : m.store.WellTyped h types)
    (henv : env.WellTyped h C Γ types m.store) :
    (Eval.receiver ev env r).Yields h types m fun v _ s => v.Fits h s R := by
  cases hr with
  | none =>
      obtain ⟨place, D, -, hclass, hDC⟩ := henv.self
      exact ret hs (.ofClass hclass hDC)
  | some he => exact hev he hs henv

theorem arguments (hev : ev.Sound h) {es : List Expr} :
    ∀ {Ts types m}, ArgumentsHaveTypes h C Γ es Ts → m.store.WellTyped h types →
      env.WellTyped h C Γ types m.store →
      (Eval.arguments ev env es).Yields h types m fun vs _ s =>
        List.Forall₂ (fun v T => v.Fits h s T) vs Ts := by
  induction es with
  | nil =>
      intro Ts types m hes hs henv
      cases hes
      exact ret hs .nil
  | cons e es ih =>
      intro Ts types m hes hs henv
      cases hes with
      | cons he hes =>
          refine bind (hev he hs henv) fun {v types₁ m₁} hgrows₁ hv => ?_
          refine bind (ih hes hgrows₁.wellTyped (henv.later hgrows₁.keeps hgrows₁.types))
            fun {vs types₂ m₂} hgrows₂ hvs => ?_
          exact ret hgrows₂.wellTyped (.cons (hv.keeps hgrows₂.keeps) hvs)

theorem sequence (hev : ev.Sound h) {es : List Expr} :
    ∀ {L T types m last}, SequenceHasType h C Γ L es T → m.store.WellTyped h types →
      env.WellTyped h C Γ types m.store → last.Fits h m.store L →
      (Eval.sequence ev env last es).Yields h types m fun v _ s => v.Fits h s T := by
  induction es with
  | nil =>
      intro L T types m last hes hs henv hlast
      cases hes
      exact ret hs hlast
  | cons e es ih =>
      intro L T types m last hes hs henv _
      cases hes with
      | cons he hes =>
          refine bind (hev he hs henv) fun {v types₁ m₁} hgrows hv => ?_
          exact ih hes hgrows.wellTyped (henv.later hgrows.keeps hgrows.types) hv

theorem initialValue (ht : h.IsTree) (hev : ev.Sound h) {b : Binding}
    (hinit : InitializerHasType h C Γ b.init (ClassName.resolve C b.typeName))
    (hs : m.store.WellTyped h types) (henv : env.WellTyped h C Γ types m.store) :
    (Eval.initialValue ev env b).Yields h types m fun v _ s =>
      v.Fits h s (ClassName.resolve C b.typeName) := by
  unfold Eval.initialValue
  cases hb : b.init with
  | none =>
      refine ret hs ?_
      by_cases hself : b.typeName = ClassName.selfType
      · rw [hself, ClassName.resolve_selfType]
        exact .void (henv.ordinary ht hs)
      · rw [ClassName.resolve_of_ne hself]
        exact Value.fits_defaultFor b.typeName
  | some e =>
      rw [hb] at hinit
      cases hinit with
      | some he hST => exact (hev he hs henv).mono fun _ hv => hv.conforms ht hST

theorem bindings (ht : h.IsTree) (hev : ev.Sound h) {bs : List Binding} :
    ∀ {Γ Γ' types m env}, BindingsHaveTypes h C Γ bs Γ' → m.store.WellTyped h types →
      env.WellTyped h C Γ types m.store →
      (Eval.bindings ev env bs).Yields h types m fun env' types' s =>
        env'.WellTyped h C Γ' types' s := by
  induction bs with
  | nil =>
      intro Γ Γ' types m env hbs hs henv
      cases hbs
      exact ret hs henv
  | cons b bs ih =>
      intro Γ Γ' types m env hbs hs henv
      cases hbs with
      | cons hT hinit hbs =>
          rw [bindings_cons]
          refine bind (initialValue ht hev hinit hs henv) fun {v types₁ m₁} hgrows₁ hv => ?_
          refine bind (define hgrows₁.wellTyped (henv.later hgrows₁.keeps hgrows₁.types) hv)
            fun {env' types₂ m₂} hgrows₂ henv' => ?_
          exact ih hbs hgrows₂.wellTyped henv'

theorem repeatWhile (ht : h.IsTree) (hev : ev.Sound h) {c body : Expr} {T : String}
    (hc : HasType h C Γ c ClassName.bool) (hbody : HasType h C Γ body T) (rounds : Nat) :
    ∀ {types m}, m.store.WellTyped h types → env.WellTyped h C Γ types m.store →
      (Eval.repeatWhile (Eval.bool ev c env) (ev body env) rounds).Yields h types m fun v _ s =>
        v.Fits h s ClassName.object := by
  induction rounds with
  | zero => intro types m _ _; exact of_error rfl rfl
  | succ rounds ih =>
      intro types m hs henv
      refine bind (bool ht hev hc hs henv) fun {again types₁ m₁} hgrows₁ _ => ?_
      have henv₁ := henv.later hgrows₁.keeps hgrows₁.types
      cases again with
      | false => exact ret hgrows₁.wellTyped (.void (by decide))
      | true =>
          refine bind (hev hbody hgrows₁.wellTyped henv₁) fun {v types₂ m₂} hgrows₂ _ => ?_
          exact ih hgrows₂.wellTyped (henv₁.later hgrows₂.keeps hgrows₂.types)

/-! ## Calls -/

/-- The environment that the body of a method starts from, before its formals are bound. -/
theorem wellTyped_ofSelf (types : List String) {place : Nat} {D : String} {s : Store}
    (hclass : (Value.object place).className? s = some D) (hDC : h.conforms D C = true)
    (hΓ : ∀ x, Γ.typeOf? x = none) :
    (Environment.ofSelf (.object place)).WellTyped h C Γ types s :=
  ⟨⟨place, D, rfl, hclass, hDC⟩, fun _ => rfl, fun hx => by rw [hΓ] at hx; cases hx⟩

/-- A method of class `c`, called on a receiver of a class `D` at or below `c`. -/
theorem invoke (hwt : h.WellTyped) (hplain : h.Plain) {p : Program} (hev : ev.Sound h)
    (hs : m.store.WellTyped h types) {c : ClassInfo} {f : Method} (hc : c ∈ h.classes)
    (hf : f ∈ c.methods) {v : Value} {D : String} {values : List Value}
    (hv : v.className? m.store = some D) (hDc : h.conforms D c.name = true)
    (hvalues : List.Forall₂ (fun w T => w.Fits h m.store T) values (f.formals.map (·.typeName)))
    (position : Position) :
    (Eval.invoke p ev v f values position).Yields h types m fun w _ s =>
      w.Fits h s (ClassName.resolve D f.returnType) := by
  cases hprim : f.primitive? with
  | some operation =>
      rw [Eval.invoke, hprim]
      exact perform hwt.tree hs (hwt.builtin_of_primitive? hc hf hprim) hf hprim hv hDc hvalues
        position
  | none =>
      have huser := hwt.user_of_primitive?_eq_none hc hf hprim
      have hne := hplain.returnTypes c huser f hf
      have htyped := (hwt.classes c huser).methods f hf
      obtain ⟨T, hbody, hT⟩ := htyped.body
        (hwt.written c huser f.body (List.mem_append_left _ (List.mem_map_of_mem hf)))
      -- the declared type is not `SELF_TYPE`, so it means the same for the caller
      rw [ClassName.resolve_of_ne hne] at hT ⊢
      rcases invoke_cases p ev v values position m hprim with hdeep | ⟨-, heq⟩
      · exact of_error hdeep rfl
      · obtain ⟨place, rfl⟩ := hwt.exists_object huser hs hv hDc
        have hself := wellTyped_ofSelf types hv hDc (Γ := Scope.empty.push) fun _ => rfl
        refine of_eq heq (withinCall (bind (bindFormals f.formals hs hself hvalues) ?_))
        intro env types₁ m₁ hgrows henv
        exact (hev hbody hgrows.wellTyped henv).mono fun _ hw => hw.conforms hwt.tree hT

/-- What a call returns is typed from the point of view of the caller, who knows the receiver by its
static type `R` only. -/
theorem dispatch (hwt : h.WellTyped) (hplain : h.Plain) {p : Program}
    (hp : p.classes = .ofHierarchy h) (hev : ev.Sound h) (hs : m.store.WellTyped h types)
    {v : Value} {R T x owner : String} {q : Option String} {f : Method} {values : List Value}
    (hv : v.Fits h m.store R) (hT : h.LooksUpIn R q T)
    (hf : h.findMethod? T x = some (owner, f))
    (hvalues : List.Forall₂ (fun w T => w.Fits h m.store T) values (f.formals.map (·.typeName)))
    (position : Position) :
    (Eval.dispatch p ev v q x values position).Yields h types m fun w _ s =>
      w.Fits h s (ClassName.resolve R f.returnType) := by
  cases hv with
  | void => exact of_error (dispatch_void rfl) rfl
  | @ofClass _ D _ hclass hDR =>
      have hD := hs.contains_className? hwt.tree hclass
      -- the class where the method is looked up when the call is made
      obtain ⟨hL, hDL, owner', f', hf', hsig⟩ : h.contains (q.getD D) = true ∧
          h.conforms D (q.getD D) = true ∧ ∃ owner' f',
            h.findMethod? (q.getD D) x = some (owner', f') ∧ f'.signature = f.signature := by
        cases hT with
        | dynamic =>
            exact ⟨hD, h.conforms_self D, hwt.findMethod?_of_conforms hD hDR hf⟩
        | qualified _ hknown hRT =>
            exact ⟨hknown, hwt.tree.conforms_trans hDR hRT, owner, f, hf, rfl⟩
      have hformals : f'.formals.map (·.typeName) = f.formals.map (·.typeName) :=
        congrArg Prod.fst hsig
      have hreturns : f'.returnType = f.returnType := congrArg Prod.snd hsig
      rw [← hformals] at hvalues
      have harity : f'.arity = values.length := by
        rw [hvalues.length_eq, List.length_map, Method.arity]
      have hfound : (Blueprint.ofClass h (q.getD D)).findMethod? x values.length = some f' := by
        rw [← harity]
        exact Blueprint.findMethod?_of_findMethod? hf'
      have hblueprint : p.classes.find? (q.getD D) = some (.ofClass h (q.getD D)) := by
        rw [hp]
        exact ClassTable.find?_ofHierarchy_of_contains hL
      obtain ⟨c, hc, -, hown⟩ := Hierarchy.findMethod?_eq_some hf'
      have hDc : h.conforms D c.name = true :=
        hwt.tree.conforms_trans hDL (Hierarchy.conforms_of_mem_ancestors hc)
      refine of_eq (dispatch_found hclass hblueprint hfound) ?_
      refine (invoke hwt hplain hev hs (Hierarchy.mem_classes_of_mem_ancestors hc)
        (List.mem_of_find?_eq_some hown) hclass hDc hvalues position).mono ?_
      intro w types' s' _ hw
      rw [hreturns] at hw
      by_cases hself : f.returnType = ClassName.selfType
      · rw [hself, ClassName.resolve_selfType] at hw ⊢
        exact hw.conforms hwt.tree hDR
      · rw [ClassName.resolve_of_ne hself] at hw ⊢
        exact hw

/-! ## Names -/

theorem name (hwt : h.WellTyped) (hplain : h.Plain) {p : Program}
    (hp : p.classes = .ofHierarchy h) (hev : ev.Sound h) {x T : String} {span : Span}
    (hx : HasType h C Γ (.name x span) T) (hs : m.store.WellTyped h types)
    (henv : env.WellTyped h C Γ types m.store) :
    (Eval.name p ev x env span.start).Yields h types m fun v _ s => v.Fits h s T := by
  obtain ⟨place, o, hself, ho, hDC⟩ := henv.exists_self
  have ho' := hs.objects ho
  have hobject : env.self.object? m.store = some o := by rw [hself, Value.object?, ho]
  cases hx with
  | localName hx =>
      obtain ⟨cell, hcell, hT⟩ := henv.present hx
      obtain ⟨v, hv, hfits⟩ := hs.cells hT
      have hget : env.get? m.store x = some v := by
        rw [Environment.get?, hcell]
        exact hv
      exact of_ok (name_local hget) (.refl hs) hfits
  | attributeName hx ha =>
      have hget := Environment.get?_of_place?_eq_none m.store (henv.absent hx)
      obtain ⟨v, hv, hfits⟩ :=
        ho'.present (hwt.findAttribute?_of_conforms ho'.known hDC ha)
      have hattribute : (env.self.object? m.store).bind (·.get? x) = some v := by
        rw [hobject]
        exact hv
      rw [ClassName.resolve_of_ne (hplain.attributeType_ne hwt ha)]
      exact of_ok (name_attribute hget hattribute) (.refl hs) hfits
  | methodName hx ha hm hformals =>
      have hget := Environment.get?_of_place?_eq_none m.store (henv.absent hx)
      -- a method of the name rules out an attribute in any class below
      obtain ⟨owner', f', hf', -⟩ := hwt.findMethod?_of_conforms ho'.known hDC hm
      have hnone : (env.self.object? m.store).bind (·.get? x) = none := by
        rw [hobject]
        exact ho'.absent (hplain.findAttribute?_eq_none ho'.known hf')
      have hfits : env.self.Fits h m.store C := by
        obtain ⟨_, D, -, hclass, hDC⟩ := henv.self
        exact .ofClass hclass hDC
      refine of_eq (name_method hget hnone)
        (dispatch hwt hplain hp hev hs hfits .dynamic hm ?_ span.start)
      rw [hformals]
      exact .nil

/-! ## Construction -/

/-- An attribute of an object of class `D` gets its initial value. -/
theorem fillSlot (hwt : h.WellTyped) (hplain : h.Plain) (hev : ev.Sound h)
    (hs : m.store.WellTyped h types) {place : Nat} {D owner : String} {slot : Attribute}
    (hclass : (Value.object place).className? m.store = some D)
    (hslot : h.findAttribute? D slot.name = some (owner, slot)) :
    (Eval.fillSlot ev place slot).Yields h types m fun _ _ _ => True := by
  obtain ⟨c, huser, -, hc, hmem, htyped⟩ := hwt.wellTyped_of_findAttribute? hslot
  unfold Eval.fillSlot
  cases hinit : slot.init with
  | none => exact ret hs trivial
  | some e =>
      have hwritten := hwt.written c huser e
        (List.mem_append_right _ (List.mem_filterMap.mpr ⟨slot, hmem, hinit⟩))
      have htype := htyped.init fun e' he' => by
        cases hinit.symm.trans he'
        exact hwritten
      rw [hinit, ClassName.resolve_of_ne (hplain.attributeTypes c huser slot hmem)] at htype
      obtain ⟨S, he, hS⟩ : ∃ S, HasType h c.name .empty e S ∧
          h.conforms S slot.typeName = true := by
        cases htype with
        | some he hS => exact ⟨_, he, hS⟩
      have henv := wellTyped_ofSelf types (Γ := .empty) hclass
        (Hierarchy.conforms_of_mem_ancestors hc) fun _ => rfl
      refine bind (hev he hs henv) fun {v types₁ m₁} hgrows hv => ?_
      -- whatever the initial value did to the object, it is still one of the class
      obtain ⟨o, ho, rfl⟩ : ∃ o, m₁.store.object? place = some o ∧ o.blueprint.name = D := by
        simpa [Value.className?] using Value.className?_of_keeps hgrows.keeps hclass
      exact of_ok rfl ⟨List.prefix_refl _, m₁.store.keeps_setField place slot.name v,
        hgrows.wellTyped.setField ho hslot (hv.conforms hwt.tree hS)⟩ trivial

theorem runInitializers (hwt : h.WellTyped) (hplain : h.Plain) (hev : ev.Sound h) {place : Nat}
    {D : String} (slots : List Attribute)
    (hslots : ∀ slot ∈ slots, ∃ owner, h.findAttribute? D slot.name = some (owner, slot)) :
    ∀ {types m}, m.store.WellTyped h types →
      (Value.object place).className? m.store = some D →
      (Eval.runInitializers ev place slots).Yields h types m fun _ _ _ => True := by
  induction slots with
  | nil => intro types m hs _; exact ret hs trivial
  | cons slot slots ih =>
      intro types m hs hclass
      obtain ⟨owner, hslot⟩ := hslots slot List.mem_cons_self
      rw [runInitializers_cons]
      refine bind (fillSlot hwt hplain hev hs hclass hslot) fun {_ types₁ m₁} hgrows _ => ?_
      exact ih (fun slot hmem => hslots slot (List.mem_cons_of_mem _ hmem)) hgrows.wellTyped
        (Value.className?_of_keeps hgrows.keeps hclass)

theorem construct (hwt : h.WellTyped) (hplain : h.Plain) {p : Program}
    (hp : p.classes = .ofHierarchy h) (hev : ev.Sound h) (hs : m.store.WellTyped h types)
    {D : String} (hD : h.contains D = true) (hord : D ∉ ClassName.finals)
    (position : Position) :
    (Eval.construct p ev D position).Yields h types m fun v _ s => v.Fits h s D := by
  have hblueprint : p.classes.find? D = some (.ofClass h D) := by
    rw [hp]
    exact ClassTable.find?_ofHierarchy_of_contains hD
  rcases construct_cases ev position m hblueprint with ⟨cause, hcause, herr⟩ | ⟨-, -, heq⟩
  · refine of_error herr ?_
    simp only [List.mem_cons, List.not_mem_nil, or_false] at hcause
    rcases hcause with rfl | rfl <;> rfl
  · -- the new object is well typed before any initial value: its slots hold defaults
    have hgrows : m.store.Grows h types types
        (m.store.addObject (.ofBlueprint (.ofClass h D))) :=
      ⟨List.prefix_refl _, m.store.keeps_addObject _,
        hs.addObject (Object.wellTyped_ofBlueprint hwt hD hord)⟩
    have hclass : (Value.object m.store.objects.size).className?
        (m.store.addObject (.ofBlueprint (.ofClass h D))) = some D := by
      simp [Value.className?, Object.ofBlueprint, Blueprint.ofClass]
    refine of_later heq hgrows (bind (withinConstruction (runInitializers hwt hplain hev _
      (fun _ => hwt.findAttribute?_of_mem_layout hD) hgrows.wellTyped hclass)) ?_)
    intro _ types₁ m₁ hgrows₁ _
    exact ret hgrows₁.wellTyped
      (.ofClass (Value.className?_of_keeps hgrows₁.keeps hclass) (h.conforms_self D))

theorem instantiate (hwt : h.WellTyped) (hplain : h.Plain) {p : Program}
    (hp : p.classes = .ofHierarchy h) (hev : ev.Sound h) (hs : m.store.WellTyped h types)
    {D : String} (hD : h.contains D = true) (position : Position) :
    (Eval.instantiate p ev D position).Yields h types m fun v _ s => v.Fits h s D := by
  unfold Eval.instantiate
  split
  · exact ret hs (Value.fits_defaultFor D)
  · rename_i hord
    split
    · rename_i hroot
      subst hroot
      exact ret hs (.ofClass hs.root (h.conforms_self _))
    · split
      · rename_i hio
        subst hio
        exact ret hs (.ofClass hs.io (h.conforms_self _))
      · exact construct hwt hplain hp hev hs hD (by simpa using hord) position

/-- The class that `new` makes an object of is known, and its objects fit the type of the
expression. -/
theorem newClass (ht : h.IsTree) (hs : m.store.WellTyped h types)
    (henv : env.WellTyped h C Γ types m.store) {T : String} (hT : h.Declarable T)
    (position : Position) :
    (Eval.newClass T env position).Yields h types m fun D _ _ =>
      h.contains D = true ∧ h.conforms D (ClassName.resolve C T) = true := by
  by_cases hself : T = ClassName.selfType
  · subst hself
    obtain ⟨place, D, -, hclass, hDC⟩ := henv.self
    have hrun : Eval.newClass ClassName.selfType env position m = .ok D m := by
      have hname : Eval.className? env.self m = .ok (some D) m := by rw [Eval.className?, hclass]
      rw [Eval.newClass, if_pos rfl, bind_ok hname]
      rfl
    rw [ClassName.resolve_selfType]
    exact of_ok hrun (.refl hs) ⟨hs.contains_className? ht hclass, hDC⟩
  · rw [Eval.newClass, if_neg hself, ClassName.resolve_of_ne hself]
    exact ret hs ⟨hT.resolve_left hself, h.conforms_self T⟩

/-! ## Branches and operators -/

theorem branch (hwt : h.WellTyped) {p : Program} (hp : p.classes = .ofHierarchy h)
    (hev : ev.Sound h) (hs : m.store.WellTyped h types)
    (henv : env.WellTyped h C Γ types m.store) {v : Value} {S : String}
    (hv : v.Fits h m.store S) {branches : List Branch} {Ts : List String}
    (hbranches : BranchesHaveTypes h C Γ branches Ts) (position : Position) :
    (Eval.branch p ev v branches env position).Yields h types m fun w _ s =>
      w.Fits h s (h.joinAll Ts) := by
  cases hv with
  | void => exact of_error (branch_void rfl branches env) rfl
  | @ofClass _ D _ hclass _ =>
      have hblueprint : p.classes.find? D = some (.ofClass h D) := by
        rw [hp]
        exact ClassTable.find?_ofHierarchy_of_contains
          (hs.contains_className? hwt.tree hclass)
      cases hbranch : closestBranch? (.ofClass h D) branches with
      | none => exact of_error (branch_unmatched hclass hblueprint hbranch env) rfl
      | some found =>
          obtain ⟨distance, chosen⟩ := found
          obtain ⟨hchosen, hdistance⟩ := closestBranch?_eq_some hbranch
          obtain ⟨c, hc, hname⟩ := Blueprint.exists_of_distance? hdistance
          obtain ⟨T, hT, hbody⟩ := hbranches.body_of_mem hchosen
          -- the type of the branch is above the class of the value, whatever `S` is
          have hfits : v.Fits h m.store chosen.typeName :=
            .ofClass hclass (hname ▸ Hierarchy.conforms_of_mem_ancestors hc)
          refine of_eq (branch_matched hclass hblueprint hbranch env)
            (bind (define hs henv.push hfits) ?_)
          intro env' types₁ m₁ hgrows henv'
          exact (hev hbody hgrows.wellTyped henv').mono fun _ hw =>
            hw.conforms hwt.tree (hwt.tree.conforms_joinAll hT)

theorem arithmetic (hs : m.store.WellTyped h types) {op : BinaryOp} (hop : op ≠ .equals)
    (a b : Int64) (position : Position) :
    (Eval.arithmetic op a b position).Yields h types m fun v _ s =>
      v.Fits h s (if op.isArithmetic then ClassName.int else ClassName.bool) := by
  cases op with
  | plus => exact ret hs (Value.fits_int _)
  | minus => exact ret hs (Value.fits_int _)
  | times => exact ret hs (Value.fits_int _)
  | divide =>
      unfold Eval.arithmetic
      dsimp only
      split
      · exact of_error rfl rfl
      · exact ret hs (Value.fits_int _)
  | less => exact ret hs (Value.fits_bool _)
  | lessEquals => exact ret hs (Value.fits_bool _)
  | equals => exact absurd rfl hop

end Eval.Yields

/-! ## Runs -/

namespace Evaluator.Sound

variable {h : Hierarchy} {p : Program}

/-- One layer of evaluation, one rule of typing for each kind of expression. -/
theorem step (hwt : h.WellTyped) (hplain : h.Plain) (hp : p.classes = .ofHierarchy h)
    {ev : Evaluator} (hev : ev.Sound h) (rounds : Nat) : (Eval.step p ev rounds).Sound h := by
  intro C Γ e T types env m he hs henv
  have ht := hwt.tree
  cases he with
  | int => exact .ret hs (Value.fits_int _)
  | str => exact .ret hs (Value.fits_str _)
  | bool => exact .ret hs (Value.fits_bool _)
  | self =>
      obtain ⟨place, D, -, hclass, hDC⟩ := henv.self
      exact .ret hs (.ofClass hclass hDC)
  | @localName _ _ _ span hx => exact .name hwt hplain hp hev (.localName (s := span) hx) hs henv
  | @attributeName _ _ _ _ span hx ha =>
      exact .name hwt hplain hp hev (.attributeName (s := span) hx ha) hs henv
  | @methodName _ _ _ _ span hx ha hm hformals =>
      exact .name hwt hplain hp hev (.methodName (s := span) hx ha hm hformals) hs henv
  | assignLocal hx hvalue hST =>
      refine .bind (hev hvalue hs henv) fun {v types₁ m₁} hgrows₁ hv => ?_
      refine .bind (.assignLocal hgrows₁.wellTyped (henv.later hgrows₁.keeps hgrows₁.types) hx
        (hv.conforms ht hST) _) fun hgrows₂ _ => ?_
      exact .ret hgrows₂.wellTyped (hv.keeps hgrows₂.keeps)
  | assignAttribute hx ha hvalue hST =>
      rw [ClassName.resolve_of_ne (hplain.attributeType_ne hwt ha)] at hST
      refine .bind (hev hvalue hs henv) fun {v types₁ m₁} hgrows₁ hv => ?_
      refine .bind (.assignAttribute hwt hgrows₁.wellTyped
        (henv.later hgrows₁.keeps hgrows₁.types) hx ha (hv.conforms ht hST) _)
        fun hgrows₂ _ => ?_
      exact .ret hgrows₂.wellTyped (hv.keeps hgrows₂.keeps)
  | dispatch hr hT hargs hm hconf =>
      rw [Eval.step_dispatch]
      refine .bind (.receiver hev hr hs henv) fun {v types₁ m₁} hgrows₁ hv => ?_
      refine .bind (.arguments hev hargs hgrows₁.wellTyped
        (henv.later hgrows₁.keeps hgrows₁.types)) fun {vs types₂ m₂} hgrows₂ hvs => ?_
      exact .dispatch hwt hplain hp hev hgrows₂.wellTyped (hv.keeps hgrows₂.keeps) hT hm
        (Value.fits_formals ht hvs hconf) _
  | new hT =>
      refine .bind (.newClass ht hs henv hT _) fun {D types₁ m₁} hgrows₁ hD => ?_
      exact (Eval.Yields.instantiate hwt hplain hp hev hgrows₁.wellTyped hD.1 _).mono
        fun _ hv => hv.conforms ht hD.2
  | cond hc hthen helse =>
      refine .bind (.bool ht hev hc hs henv) fun {b types₁ m₁} hgrows _ => ?_
      have henv₁ := henv.later hgrows.keeps hgrows.types
      have hjoin := h.conforms_join
      cases b with
      | true =>
          exact (hev hthen hgrows.wellTyped henv₁).mono fun _ hv => hv.conforms ht (hjoin _ _).1
      | false =>
          exact (hev helse hgrows.wellTyped henv₁).mono fun _ hv => hv.conforms ht (hjoin _ _).2
  | loop hc hbody => exact .repeatWhile ht hev hc hbody rounds hs henv
  | block hbody => exact .sequence hev hbody hs henv (.void (by decide))
  | letIn hbs hbody =>
      refine .bind (.bindings ht hev hbs hs henv.push) fun hgrows henv' => ?_
      exact hev hbody hgrows.wellTyped henv'
  | caseOf hscrutinee hbranches =>
      refine .bind (hev hscrutinee hs henv) fun {v types₁ m₁} hgrows hv => ?_
      exact .branch hwt hp hev hgrows.wellTyped (henv.later hgrows.keeps hgrows.types) hv
        hbranches _
  | isVoid he =>
      exact .bind (hev he hs henv) fun hgrows _ => .ret hgrows.wellTyped (Value.fits_bool _)
  | negate he =>
      exact .bind (.int ht hev he hs henv) fun hgrows _ =>
        .ret hgrows.wellTyped (Value.fits_int _)
  | not he =>
      exact .bind (.bool ht hev he hs henv) fun hgrows _ =>
        .ret hgrows.wellTyped (Value.fits_bool _)
  | equals hl hr =>
      refine .bind (hev hl hs henv) fun hgrows₁ _ => ?_
      refine .bind (hev hr hgrows₁.wellTyped (henv.later hgrows₁.keeps hgrows₁.types))
        fun hgrows₂ _ => ?_
      exact .ret hgrows₂.wellTyped (Value.fits_bool _)
  | @binary _ op l r span hop hl hr =>
      show (Eval.binary ev op l r env span.start).Yields h types m _
      rw [Eval.binary, if_neg hop]
      refine .bind (.int ht hev hl hs henv) fun hgrows₁ _ => ?_
      refine .bind (.int ht hev hr hgrows₁.wellTyped (henv.later hgrows₁.keeps hgrows₁.types))
        fun hgrows₂ _ => ?_
      exact .arithmetic hgrows₂.wellTyped hop _ _ _

theorem eval (hwt : h.WellTyped) (hplain : h.Plain) (hp : p.classes = .ofHierarchy h)
    (fuel : Nat) : (eval p fuel).Sound h := by
  induction fuel with
  | zero => intro C Γ e T types env m _ _ _; exact .of_error rfl rfl
  | succ fuel ih => exact step hwt hplain hp ih fuel

end Evaluator.Sound

end CoolLang
