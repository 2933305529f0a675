import CoolLang.Program.Run
import CoolLang.Proofs.Evaluation.Frames

/-!
# What names stand for

A name is a local variable, an attribute or a method that is called without arguments. The type
check decides this by the class that the name stands in, evaluation by the object that `self` is,
which may belong to a class below. They agree on local variables and on attributes. A name that the
type check takes for a method is evaluated as an attribute if the class of `self` has one of that
name.
-/

namespace CoolLang

inductive Referent where
  | localVariable
  /-- An attribute that the class declares. -/
  | attribute (owner : String)
  | method
deriving DecidableEq

/-- What the type check takes a name for, and the type that it has then, see `Check.name_eq`. -/
def Context.lookup? (h : Hierarchy) (c : Context) (x : String) : Option (Referent × String) :=
  match c.scope.typeOf? x with
  | some T => some (.localVariable, T)
  | none =>
    match h.findAttribute? c.owner x with
    | some (owner, a) => some (.attribute owner, ClassName.resolve c.owner a.typeName)
    | none =>
      match h.findMethod? c.owner x with
      | some (_, ⟨_, returnType, [], _, _⟩) =>
        some (.method, ClassName.resolve c.owner returnType)
      | _ => none

/-- What evaluation takes a name for, and the value if that is a variable, see `Eval.name_eq`. -/
def Environment.lookup (s : Store) (env : Environment) (x : String) : Referent × Option Value :=
  match env.get? s x with
  | some v => (.localVariable, some v)
  | none =>
    match env.self.object? s with
    | none => (.method, none)
    | some o =>
      match o.get? x with
      | some v => (.attribute (o.blueprint.attributeOwner x), some v)
      | none => (.method, none)

section

variable {h : Hierarchy} {c : Context} {x T owner : String} {a : Attribute} {f : Method}

theorem Context.lookup?_local (hx : c.scope.typeOf? x = some T) :
    c.lookup? h x = some (.localVariable, T) := by
  rw [lookup?, hx]

theorem Context.lookup?_attribute (hx : c.scope.typeOf? x = none)
    (ha : h.findAttribute? c.owner x = some (owner, a)) :
    c.lookup? h x = some (.attribute owner, ClassName.resolve c.owner a.typeName) := by
  rw [lookup?, hx, ha]

theorem Context.lookup?_method (hx : c.scope.typeOf? x = none)
    (ha : h.findAttribute? c.owner x = none) (hf : h.findMethod? c.owner x = some (owner, f))
    (hformals : f.formals = []) :
    c.lookup? h x = some (.method, ClassName.resolve c.owner f.returnType) := by
  obtain ⟨name, returnType, formals, body, span⟩ := f
  subst hformals
  rw [lookup?, hx, ha, hf]

variable {s : Store} {env : Environment} {v : Value} {o : Object}

theorem Environment.lookup_local (hx : env.get? s x = some v) :
    env.lookup s x = (.localVariable, some v) := by
  rw [lookup, hx]

theorem Environment.lookup_attribute (hx : env.get? s x = none)
    (ho : env.self.object? s = some o) (hv : o.get? x = some v) :
    env.lookup s x = (.attribute (o.blueprint.attributeOwner x), some v) := by
  rw [lookup, hx, ho]
  simp only [hv]

theorem Environment.lookup_method (hx : env.get? s x = none)
    (hnone : (env.self.object? s).bind (·.get? x) = none) :
    env.lookup s x = (.method, none) := by
  rw [lookup, hx]
  cases ho : env.self.object? s with
  | none => rfl
  | some o =>
      rw [ho] at hnone
      simp only [show o.get? x = none from hnone]

end

/-- The type check does as `Context.lookup?` says, and complains where that finds nothing. -/
theorem Check.name_eq (h : Hierarchy) (x : String) (position : Position) (s : Checker) :
    Check.name h x position s =
      match Context.lookup? h ⟨s.currentClass, s.scope⟩ x with
      | some (_, T) => (T, s)
      | none =>
        (ClassName.object, { s with log := s.log ++ [⟨.variableNotDeclared x, position⟩] }) := by
  obtain ⟨C, Γ, log⟩ := s
  simp only [Check.name, variableType?, Context.lookup?, bind, StateT.bind]
  cases Γ.typeOf? x with
  | some T => rfl
  | none =>
      cases h.findAttribute? C x with
      | some found => rfl
      | none =>
          show (match h.findMethod? C x with
            | some (_, ⟨_, returnType, [], _, _⟩) => Check.resolve returnType
            | _ => do
              report (.variableNotDeclared x) position
              return ClassName.object) ⟨C, Γ, log⟩ = _
          rcases h.findMethod? C x with _ | ⟨owner, name, returnType, _ | _, body, span⟩ <;> rfl

/-- Evaluation does as `Environment.lookup` says. -/
theorem Eval.name_eq (p : Program) (ev : Evaluator) (x : String) (env : Environment)
    (position : Position) (m : Machine) :
    Eval.name p ev x env position m =
      match env.lookup m.store x with
      | (_, some v) => .ok v m
      | (_, none) => Eval.dispatch p ev env.self none x [] position m := by
  cases hx : env.get? m.store x with
  | some v =>
      rw [Environment.lookup_local hx]
      exact name_local hx
  | none =>
      cases hv : (env.self.object? m.store).bind (·.get? x) with
      | none =>
          rw [Environment.lookup_method hx hv]
          exact name_method hx hv
      | some v =>
          obtain ⟨o, ho, hget⟩ := Option.bind_eq_some_iff.mp hv
          rw [Environment.lookup_attribute hx ho hget]
          exact name_attribute hx hv

/-! ## Attributes of `self` -/

section

variable {h : Hierarchy} {s : Store} {self : Value} {D x : String}

theorem Object.Shaped.isSome_get? (hwt : h.WellTyped) {o : Object} (ho : o.Shaped h) (x : String) :
    (o.get? x).isSome = (h.findAttribute? o.blueprint.name x).isSome := by
  rw [ho.fields x, ← hwt.hasAttribute_eq ho.known, ← ho.blueprint]

theorem get?_self_eq_none (hwt : h.WellTyped) (hs : s.Shaped h)
    (hself : self.className? s = some D) (hx : h.findAttribute? D x = none) :
    (self.object? s).bind (·.get? x) = none := by
  cases self with
  | object place =>
      simp only [Value.className?, Option.map_eq_some_iff] at hself
      obtain ⟨o, ho, rfl⟩ := hself
      have hsome := (hs place o ho).isSome_get? hwt x
      rw [hx, Option.isSome_none, Option.isSome_eq_false_iff, Option.isNone_iff_eq_none] at hsome
      rw [Value.object?, ho]
      exact hsome
  | _ => rfl

theorem exists_get?_self (hwt : h.WellTyped) (hs : s.Shaped h)
    (hself : self.className? s = some D) {owner : String} {a : Attribute}
    (hx : h.findAttribute? D x = some (owner, a)) :
    ∃ o v, self.object? s = some o ∧ o.get? x = some v ∧
      o.blueprint.attributeOwner x = owner := by
  have hbuiltin : ∀ b ∈ Builtin.classes, b.name ≠ D := by
    rintro b hb rfl
    rw [hwt.findAttribute?_builtin hb] at hx
    cases hx
  cases self with
  | object place =>
      simp only [Value.className?, Option.map_eq_some_iff] at hself
      obtain ⟨o, ho, rfl⟩ := hself
      have hshaped := hs place o ho
      have hsome := hshaped.isSome_get? hwt x
      rw [hx] at hsome
      obtain ⟨v, hv⟩ := Option.isSome_iff_exists.mp hsome
      refine ⟨o, v, ho, hv, ?_⟩
      rw [hshaped.blueprint]
      exact hwt.attributeOwner_eq hshaped.known hx
  | int => cases hself; exact absurd rfl (hbuiltin Builtin.int (by simp [Builtin.classes]))
  | str => cases hself; exact absurd rfl (hbuiltin Builtin.string (by simp [Builtin.classes]))
  | bool => cases hself; exact absurd rfl (hbuiltin Builtin.bool (by simp [Builtin.classes]))
  | void => cases hself

end

/-- **What a sound frame makes of a name.** Evaluation takes it for what the type check takes it
for, unless that is a method and the class of `self` has an attribute of the name. -/
theorem Frame.Sound.lookup_eq {h : Hierarchy} (hwt : h.WellTyped) {f : Frame} (hf : f.Sound h)
    {x D : String} {span : Span} (hx : f.expr = .name x span)
    (hself : f.env.self.className? f.machine.store = some D)
    (hD : h.conforms D f.context.owner = true) :
    ∃ r T, f.context.lookup? h x = some (r, T) ∧
      (f.env.lookup f.machine.store x).1 =
        match r, h.findAttribute? D x with
        | .method, some (owner, _) => .attribute owner
        | r, _ => r := by
  obtain ⟨c, e, env, m⟩ := f
  obtain ⟨⟨T, htyped⟩, henv, hs⟩ := hf
  dsimp only at hx hself hD htyped henv hs ⊢
  subst hx
  have hknown := hs.contains_className? hwt.tree hself
  cases htyped with
  | localName hT =>
      obtain ⟨v, hv⟩ := henv.exists_get? hT
      refine ⟨_, _, Context.lookup?_local hT, ?_⟩
      rw [Environment.lookup_local hv]
  | attributeName hT ha =>
      obtain ⟨o, v, ho, hv, howner⟩ := exists_get?_self hwt hs hself
        (hwt.findAttribute?_of_conforms hknown hD ha)
      refine ⟨_, _, Context.lookup?_attribute hT ha, ?_⟩
      rw [Environment.lookup_attribute (henv.get?_eq_none hT) ho hv, howner]
  | methodName hT ha hm hformals =>
      refine ⟨_, _, Context.lookup?_method hT ha hm hformals, ?_⟩
      -- the class of `self` may have an attribute that the class of the feature has not
      cases hfind : h.findAttribute? D x with
      | none =>
          rw [Environment.lookup_method (henv.get?_eq_none hT)
            (get?_self_eq_none hwt hs hself hfind)]
      | some found =>
          obtain ⟨o, v, ho, hv, howner⟩ := exists_get?_self hwt hs hself hfind
          rw [Environment.lookup_attribute (henv.get?_eq_none hT) ho hv, howner]

/-! ## A method that is taken for an attribute -/

/-- A clock tells the time, and a watch is read for it. The main class has a time of its own. -/
def watches : List ClassDecl :=
  let method (x : String) (body : Expr) : Feature := .method ⟨x, [], ClassName.int, body, .nowhere⟩
  [⟨"Clock", none, [method "time" (.int 12 .nowhere)], .nowhere⟩,
    ⟨"Watch", some "Clock", [method mainMethod (.name "time" .nowhere)], .nowhere⟩,
    ⟨ClassName.mainClass, some "Watch", [.attr ⟨"time", ClassName.int, none, .nowhere⟩], .nowhere⟩]

def watchHierarchy : Hierarchy := (Hierarchy.ofProgram watches).1

/-- The machine once there is an object of the main class. -/
def watchMachine : Machine :=
  let start := Machine.initial watchHierarchy []
  { start with
    store := start.store.addObject (.ofBlueprint (.ofClass watchHierarchy ClassName.mainClass)) }

/-- The name in the method of the watch, which is called on that object. -/
def readingFrame : Frame where
  context := ⟨"Watch", Scope.empty.push⟩
  expr := .name "time" .nowhere
  env := .ofSelf (.object 2)
  machine := { watchMachine with callDepth := 1 }

theorem visits_readingFrame (fuel : Nat) :
    Visits (.ofHierarchy watchHierarchy {}) fuel (.initial watchHierarchy []) fuel
      readingFrame := by
  have hMain : watchHierarchy.contains ClassName.mainClass = true := by decide +kernel
  have hblueprint := ClassTable.find?_ofHierarchy_of_contains hMain
  have hslots : ∀ slot ∈ (Blueprint.ofClass watchHierarchy ClassName.mainClass).layout,
      slot.init = none := by decide +kernel
  have hfound : (Blueprint.ofClass watchHierarchy ClassName.mainClass).findMethod? mainMethod 0 =
      some ⟨mainMethod, ClassName.int, [], .name "time" .nowhere, .nowhere⟩ := by rfl
  have hclass : (Value.object 2).className? watchMachine.store = some ClassName.mainClass := rfl
  refine .run (.of_halts fun ev halt hhalt => ?_)
  have hobject : Scoped.instantiate (.ofHierarchy watchHierarchy {}) ev ClassName.mainClass
      .nowhere (.initial watchHierarchy []) = .ok (.object 2) watchMachine := by
    rw [Scoped.instantiate, if_neg (by decide), if_neg (by decide), if_neg (by decide)]
    exact Scoped.construct_of_init_eq_none hblueprint hslots List.not_mem_nil (by decide) _
  rw [Scoped.program, Eval.bind_ok hobject, Scoped.dispatch_found hclass hblueprint hfound]
  exact ⟨_, (Eval.bind_ok rfl).trans (Eval.withinCall_error hhalt)⟩

theorem ofProgram_watches : Hierarchy.ofProgram watches = (watchHierarchy, []) := by
  have hnil : (Hierarchy.ofProgram watches).2 = [] := by decide +kernel
  rw [watchHierarchy, ← hnil]

theorem typeCheck_watchHierarchy : watchHierarchy.typeCheck = [] := by decide +kernel

/-! ## Every run -/

/-- **Names on every run.** Let validation and the type check find nothing in a program. Whenever a
run evaluates a name in a feature of a class, with `self` an object of that class or of one below,
the type check has taken the name for something. What it took for a local variable is one, and what
it took for an attribute is that attribute of `self`. What it took for a method is called as one if
and only if the class of `self` has no attribute of the name. -/
theorem Visits.lookup_name {program : List ClassDecl} {h : Hierarchy}
    (hh : Hierarchy.ofProgram program = (h, [])) (hcheck : h.typeCheck = [])
    (hwritten : ∀ d ∈ program, d.Written) {settings : Settings} {input : Input}
    {fuel left : Nat} {f : Frame}
    (hf : Visits (.ofHierarchy h settings) fuel (.initial h input) left f) {x : String}
    {span : Span} (hx : f.expr = .name x span) {D : String}
    (hself : f.env.self.className? f.machine.store = some D)
    (hD : h.conforms D f.context.owner = true) :
    ∃ r T, f.context.lookup? h x = some (r, T) ∧
      (r = .localVariable → (f.env.lookup f.machine.store x).1 = .localVariable) ∧
      (∀ owner, r = .attribute owner →
        (f.env.lookup f.machine.store x).1 = .attribute owner) ∧
      (r = .method →
        ((f.env.lookup f.machine.store x).1 = .method ↔ h.findAttribute? D x = none)) := by
  have hwt := Hierarchy.wellTyped_of_ofProgram hh hcheck hwritten
  have hsound := hf.sound hwt rfl (Store.shaped_initial hwt.tree input)
  obtain ⟨r, T, hr, heq⟩ := hsound.lookup_eq hwt hx hself hD
  refine ⟨r, T, hr, ?_, ?_, ?_⟩
  · rintro rfl
    exact heq
  · rintro owner rfl
    exact heq
  · rintro rfl
    rw [heq]
    cases h.findAttribute? D x with
    | none => simp
    | some found => simp

theorem Visits.lookup_name_reading :
    Hierarchy.ofProgram watches = (watchHierarchy, []) ∧ watchHierarchy.typeCheck = [] ∧
    (∀ d ∈ watches, d.Written) ∧
    Visits (.ofHierarchy watchHierarchy {}) 2 (.initial watchHierarchy []) 2 readingFrame ∧
    readingFrame.context.lookup? watchHierarchy "time" = some (.method, ClassName.int) ∧
    ((readingFrame.env.lookup readingFrame.machine.store "time").1 = .method ↔
      watchHierarchy.findAttribute? ClassName.mainClass "time" = none) := by
  have hwritten : ∀ d ∈ watches, d.Written := by decide +kernel
  have hmethod : readingFrame.context.lookup? watchHierarchy "time" =
      some (.method, ClassName.int) := by decide +kernel
  obtain ⟨r, T, hr, -, -, hcalled⟩ := Visits.lookup_name ofProgram_watches
    typeCheck_watchHierarchy hwritten (visits_readingFrame 2) (x := "time") rfl
    (D := ClassName.mainClass) (by decide +kernel) (by decide +kernel)
  cases hmethod.symm.trans hr
  exact ⟨ofProgram_watches, typeCheck_watchHierarchy, hwritten, visits_readingFrame 2, hmethod,
    hcalled rfl⟩

/-- A name need not be evaluated as what the type check takes it for: the watch calls a method in
the eyes of the type check, and reads an attribute of the class below when it is run. -/
theorem time_is_captured :
    Hierarchy.ofProgram watches = (watchHierarchy, []) ∧ watchHierarchy.typeCheck = [] ∧
    ∃ f, Visits (.ofHierarchy watchHierarchy {}) 2 (.initial watchHierarchy []) 2 f ∧
      f.expr = .name "time" .nowhere ∧
      f.env.self.className? f.machine.store = some ClassName.mainClass ∧
      watchHierarchy.conforms ClassName.mainClass f.context.owner = true ∧
      f.context.lookup? watchHierarchy "time" = some (.method, ClassName.int) ∧
      f.env.lookup f.machine.store "time" =
        (.attribute ClassName.mainClass, some (.int 0)) :=
  ⟨ofProgram_watches, typeCheck_watchHierarchy, readingFrame, visits_readingFrame 2, rfl,
    by decide +kernel, by decide +kernel, by decide +kernel, by decide +kernel⟩

end CoolLang
