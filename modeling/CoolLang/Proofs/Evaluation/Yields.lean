import CoolLang.Proofs.Evaluation.Outcome
import CoolLang.Proofs.Evaluation.Typing

/-!
# Typed computations

A computation yields what it should if from a typed store it comes to a typed store and a result as
described, or halts for an excused reason. The reasons that are not excused are those that the type
check is meant to exclude. The operations of the built-in classes are covered here, the rules of
evaluation in `Soundness`.
-/

namespace CoolLang

/-- Not a fault that a type check should exclude: neither a missing method nor an internal fault,
apart from input that is no text. -/
def Cause.isExcused : Cause → Bool
  | .undefinedMethod _ _ => false
  | .internal message => message == "failed to read input: stream did not contain valid UTF-8"
  | _ => true

def Halt.isExcused : Halt → Bool
  | .fault d => d.cause.isExcused
  | .outOfFuel => true

/-- From a store with typed cells to a later one. -/
structure Store.Grows (h : Hierarchy) (types : List String) (s : Store) (types' : List String)
    (s' : Store) : Prop where
  types : types <+: types'
  keeps : s.Keeps s'
  wellTyped : s'.WellTyped h types'

namespace Store.Grows

variable {h : Hierarchy} {t₁ t₂ t₃ : List String} {s₁ s₂ s₃ : Store}

theorem refl (hs : s₁.WellTyped h t₁) : s₁.Grows h t₁ t₁ s₁ :=
  ⟨List.prefix_refl _, .refl _, hs⟩

theorem trans (h₁ : s₁.Grows h t₁ t₂ s₂) (h₂ : s₂.Grows h t₂ t₃ s₃) : s₁.Grows h t₁ t₃ s₃ :=
  ⟨h₁.types.trans h₂.types, h₁.keeps.trans h₂.keeps, h₂.wellTyped⟩

end Store.Grows

namespace Eval

variable {α β : Type} {h : Hierarchy} {types : List String}

/-- The computation yields a result as described in a store that has grown, or halts for an excused
reason. -/
structure Yields (h : Hierarchy) (types : List String) (x : Eval α) (m : Machine)
    (P : α → List String → Store → Prop) : Prop where
  ok : ∀ {a m'}, x m = .ok a m' →
    ∃ types', m.store.Grows h types types' m'.store ∧ P a types' m'.store
  error : ∀ {halt m'}, x m = .error halt m' → halt.isExcused = true

namespace Yields

variable {P : α → List String → Store → Prop} {Q : β → List String → Store → Prop}

theorem of_ok {x : Eval α} {m m' : Machine} {a : α} {types' : List String}
    (hx : x m = .ok a m') (hgrows : m.store.Grows h types types' m'.store)
    (hP : P a types' m'.store) : Yields h types x m P where
  ok hok := by
    cases hx.symm.trans hok
    exact ⟨types', hgrows, hP⟩
  error herr := by cases hx.symm.trans herr

theorem of_error {x : Eval α} {m m' : Machine} {halt : Halt} (hx : x m = .error halt m')
    (hhalt : halt.isExcused = true) : Yields h types x m P where
  ok hok := by cases hx.symm.trans hok
  error herr := by
    cases hx.symm.trans herr
    exact hhalt

/-- A value that is at hand, in a store that stays as it is. -/
theorem ret {a : α} {m : Machine} (hs : m.store.WellTyped h types) (hP : P a types m.store) :
    Yields h types (pure a) m P :=
  of_ok rfl (.refl hs) hP

/-- The computation is another one in a store that has grown. -/
theorem of_later {x y : Eval α} {m m' : Machine} {types' : List String} (hxy : x m = y m')
    (hgrows : m.store.Grows h types types' m'.store) (hy : Yields h types' y m' P) :
    Yields h types x m P where
  ok hok := by
    obtain ⟨types₂, hgrows₂, hP⟩ := hy.ok (hxy.symm.trans hok)
    exact ⟨types₂, hgrows.trans hgrows₂, hP⟩
  error herr := hy.error (hxy.symm.trans herr)

theorem of_eq {x y : Eval α} {m : Machine} (hxy : x m = y m) (hy : Yields h types y m P) :
    Yields h types x m P :=
  ⟨fun hok => hy.ok (hxy.symm.trans hok), fun herr => hy.error (hxy.symm.trans herr)⟩

theorem bind {x : Eval α} {f : α → Eval β} {m : Machine} (hx : Yields h types x m P)
    (hf : ∀ {a types₁ m₁}, m.store.Grows h types types₁ m₁.store → P a types₁ m₁.store →
      Yields h types₁ (f a) m₁ Q) : Yields h types (x >>= f) m Q where
  ok hok := by
    obtain ⟨a, m₁, hxa, hfa⟩ := bind_eq_ok hok
    obtain ⟨types₁, hgrows₁, hP⟩ := hx.ok hxa
    obtain ⟨types₂, hgrows₂, hQ⟩ := (hf hgrows₁ hP).ok hfa
    exact ⟨types₂, hgrows₁.trans hgrows₂, hQ⟩
  error herr := by
    rcases bind_eq_error herr with herr | ⟨a, m₁, hxa, herr⟩
    · exact hx.error herr
    · obtain ⟨types₁, hgrows₁, hP⟩ := hx.ok hxa
      exact (hf hgrows₁ hP).error herr

theorem mono {P' : α → List String → Store → Prop} {x : Eval α} {m : Machine}
    (hx : Yields h types x m P) (hP : ∀ {a types' s'}, m.store.Grows h types types' s' →
      P a types' s' → P' a types' s') : Yields h types x m P' where
  ok hok := by
    obtain ⟨types', hgrows, ha⟩ := hx.ok hok
    exact ⟨types', hgrows, hP hgrows ha⟩
  error := hx.error

theorem withinCall {x : Eval α} {m : Machine}
    (hx : Yields h types x { m with callDepth := m.callDepth + 1 } P) :
    Yields h types x.withinCall m P := by
  cases hrun : x { m with callDepth := m.callDepth + 1 } with
  | ok a m' =>
      obtain ⟨types', hgrows, hP⟩ := hx.ok hrun
      exact of_ok (withinCall_ok hrun) hgrows hP
  | error halt m' => exact of_error (withinCall_error hrun) (hx.error hrun)

theorem withinConstruction {name : String} {x : Eval α} {m : Machine}
    (hx : Yields h types x { m with constructing := name :: m.constructing } P) :
    Yields h types (x.withinConstruction name) m P := by
  cases hrun : x { m with constructing := name :: m.constructing } with
  | ok a m' =>
      obtain ⟨types', hgrows, hP⟩ := hx.ok hrun
      exact of_ok (withinConstruction_ok hrun) hgrows hP
  | error halt m' => exact of_error (withinConstruction_error hrun) (hx.error hrun)

/-! ## Operations on the store -/

variable {m : Machine} {C : String} {Γ : Scope} {env : Environment}

/-- A new local name, in a cell of its type. -/
theorem define (hs : m.store.WellTyped h types) (henv : env.WellTyped h C Γ types m.store)
    {x T : String} {v : Value} (hv : v.Fits h m.store T) :
    Yields h types (Eval.define env x v) m fun env' types' s =>
      env'.WellTyped h C (Γ.declare x T) types' s := by
  have hgrows : m.store.Grows h types (types ++ [T]) (m.store.addCell v) :=
    ⟨List.prefix_append _ _, m.store.keeps_addCell v, hs.addCell hv⟩
  refine of_ok rfl hgrows ((henv.later hgrows.keeps hgrows.types).bind ?_)
  rw [hs.size, List.getElem?_concat_length]

theorem bindFormals (formals : List Parameter) :
    ∀ {types m Γ env} {values : List Value}, m.store.WellTyped h types →
      env.WellTyped h C Γ types m.store →
      List.Forall₂ (fun v T => v.Fits h m.store T) values (formals.map (·.typeName)) →
      Yields h types (Eval.bindFormals env formals values) m fun env' types' s =>
        env'.WellTyped h C (Γ.declareAll formals) types' s := by
  induction formals with
  | nil =>
      intro types m Γ env values hs henv _
      exact ret hs henv
  | cons formal formals ih =>
      intro types m Γ env values hs henv hvalues
      cases hvalues with
      | cons hv hvalues =>
          refine bind (define hs henv hv) fun {env' types₁ m₁} hgrows henv' => ?_
          exact ih hgrows.wellTyped henv'
            (hvalues.imp fun _ _ hfits => hfits.keeps hgrows.keeps)

theorem assignLocal (hs : m.store.WellTyped h types)
    (henv : env.WellTyped h C Γ types m.store) {x T : String} (hx : Γ.typeOf? x = some T)
    {v : Value} (hv : v.Fits h m.store T) (position : Position) :
    Yields h types (Eval.assign env x v position) m fun _ _ _ => True := by
  obtain ⟨place, hplace, hT⟩ := henv.present hx
  have hassign : Eval.assign env x v position m =
      .ok () { m with store := m.store.setCell place v } := by
    rw [Eval.assign, hplace]
  exact of_ok hassign ⟨List.prefix_refl _, m.store.keeps_setCell place v, hs.setCell hT hv⟩ trivial

theorem assignAttribute (hwt : h.WellTyped) (hs : m.store.WellTyped h types)
    (henv : env.WellTyped h C Γ types m.store) {x owner : String} {a : Attribute}
    (hx : Γ.typeOf? x = none) (ha : h.findAttribute? C x = some (owner, a)) {v : Value}
    (hv : v.Fits h m.store a.typeName) (position : Position) :
    Yields h types (Eval.assign env x v position) m fun _ _ _ => True := by
  obtain ⟨place, o, hself, ho, hconf⟩ := henv.exists_self
  have ho' := hs.objects ho
  have hattr := hwt.findAttribute?_of_conforms ho'.known hconf ha
  have hassign : Eval.assign env x v position m =
      .ok () { m with store := m.store.setField place x v } := by
    simp only [Eval.assign, henv.absent hx, hself, ho, Option.any_some,
      Object.WellTyped.hasAttribute_eq hwt ho', hattr, Option.isSome_some, if_true]
    rfl
  exact of_ok hassign ⟨List.prefix_refl _, m.store.keeps_setField place x v,
    hs.setField ho hattr hv⟩ trivial

/-! ## Built-in operations -/

theorem nextLine (hs : m.store.WellTyped h types) (position : Position) :
    Yields h types (Primitive.nextLine? position) m fun _ _ _ => True := by
  refine bind (P := fun _ _ _ => True) (of_ok rfl (.refl hs) trivial)
    fun {line types₁ m₁} hgrows _ => ?_
  cases line with
  | text line => exact ret hgrows.wellTyped trivial
  | endOfInput => exact ret hgrows.wellTyped trivial
  | malformed => exact of_error rfl (beq_self_eq_true _)

/-- What a method of a built-in class returns fits its type, where `SELF_TYPE` is the class of the
receiver. -/
theorem perform (ht : h.IsTree) (hs : m.store.WellTyped h types) {c : ClassInfo} {f : Method}
    {operation : Primitive} (hc : c ∈ Builtin.classes) (hf : f ∈ c.methods)
    (hop : f.primitive? = some operation) {v : Value} {D : String} {values : List Value}
    (hv : v.className? m.store = some D) (hD : h.conforms D c.name = true)
    (hvalues : List.Forall₂ (fun w T => w.Fits h m.store T) values (f.formals.map (·.typeName)))
    (position : Position) :
    Yields h types (operation.perform v values position) m fun w _ s =>
      w.Fits h s (ClassName.resolve D f.returnType) := by
  have hself : v.Fits h m.store D := .ofClass hv (h.conforms_self D)
  have hown : v.Fits h m.store c.name := .ofClass hv hD
  simp only [Builtin.classes, List.mem_cons, List.not_mem_nil, or_false] at hc
  rcases hc with rfl | rfl | rfl | rfl | rfl
  · simp only [Builtin.object, Builtin.build, List.mem_cons, List.not_mem_nil, or_false] at hf
    rcases hf with rfl | rfl | rfl <;> cases hop <;> cases hvalues
    · exact of_error rfl rfl
    · exact of_ok rfl (.refl hs) (Value.fits_str _)
    · obtain ⟨hcopy, hclass⟩ := hs.copy v
      refine of_ok rfl ⟨List.prefix_refl _, m.store.keeps_copy v, hcopy⟩ ?_
      exact .ofClass (hclass.trans hv) (h.conforms_self D)
  · simp only [Builtin.io, Builtin.build, List.mem_cons, List.not_mem_nil, or_false] at hf
    rcases hf with rfl | rfl | rfl | rfl <;> cases hop
    · cases hvalues with
      | cons hw hrest =>
          cases hrest
          obtain ⟨text, rfl⟩ := hw.exists_str ht hs
          exact of_ok rfl (.refl hs) hself
    · cases hvalues with
      | cons hw hrest =>
          cases hrest
          obtain ⟨n, rfl⟩ := hw.exists_int ht hs
          exact of_ok rfl (.refl hs) hself
    · cases hvalues
      exact bind (nextLine hs position) fun hgrows _ => ret hgrows.wellTyped (Value.fits_str _)
    · cases hvalues
      exact bind (nextLine hs position) fun hgrows _ => ret hgrows.wellTyped (Value.fits_int _)
  · cases hf
  · obtain ⟨text, rfl⟩ := hown.exists_str ht hs
    simp only [Builtin.string, Builtin.build, List.mem_cons, List.not_mem_nil, or_false] at hf
    rcases hf with rfl | rfl | rfl <;> cases hop
    · cases hvalues
      exact ret hs (Value.fits_int _)
    · cases hvalues with
      | cons hw hrest =>
          cases hrest
          obtain ⟨suffix, rfl⟩ := hw.exists_str ht hs
          exact ret hs (Value.fits_str _)
    · cases hvalues with
      | cons hstart hrest =>
          cases hrest with
          | cons hsize hrest =>
              cases hrest
              obtain ⟨start, rfl⟩ := hstart.exists_int ht hs
              obtain ⟨size, rfl⟩ := hsize.exists_int ht hs
              unfold Primitive.perform
              dsimp only
              split
              · exact ret hs (Value.fits_str _)
              · exact of_error rfl rfl
  · cases hf

end Yields

end Eval

end CoolLang
