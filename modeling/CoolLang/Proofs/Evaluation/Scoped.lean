import CoolLang.Proofs.Evaluation.Outcome
import CoolLang.Proofs.Typing.Program

/-!
# Evaluation in context

An expression is evaluated in the course of a feature of some class, at a point where certain local
names are declared. The evaluator has no need to know; here it is told. The rules of evaluation are
those of `Eval.step`, each with a note of the context that the expressions inside are evaluated in.
What is evaluated is the same: an evaluator that pays no heed to contexts is carried to one that
pays none.
-/

namespace CoolLang

/-- Where in a program an expression stands. -/
structure Context where
  /-- The class whose feature it is part of. -/
  owner : String
  /-- The local names that are declared there. -/
  scope : Scope

abbrev ScopedEvaluator := Context → Evaluator

/-- The scope behind the bindings of a `let`. -/
def Scope.declareBindings (owner : String) (Γ : Scope) (bs : List Binding) : Scope :=
  bs.foldl (fun Γ b => Γ.declare b.name (ClassName.resolve owner b.typeName)) Γ

theorem BindingsHaveTypes.scope_eq {h : Hierarchy} {C : String} {bs : List Binding} :
    ∀ {Γ Γ'}, BindingsHaveTypes h C Γ bs Γ' → Γ' = Γ.declareBindings C bs := by
  induction bs with
  | nil =>
      intro Γ Γ' hbs
      cases hbs
      rfl
  | cons b bs ih =>
      intro Γ Γ' hbs
      cases hbs with
      | cons _ _ hbs => exact ih hbs

namespace Blueprint

/-- The class of the method that a call finds. -/
def methodOwner (b : Blueprint) (name : String) (arity : Nat) : String :=
  (b.ancestors.find? fun c => ((c.method? name).filter (·.arity == arity)).isSome).elim ""
    (·.name)

/-- The class of an attribute. One that is declared twice belongs to the class nearer to the
root. -/
def attributeOwner (b : Blueprint) (name : String) : String :=
  (b.ancestors.reverse.find? fun c => (c.attribute? name).isSome).elim "" (·.name)

end Blueprint

/-- The method that a call finds and the class that it belongs to. -/
theorem Blueprint.findMethod?_methodOwner {b : Blueprint} {name : String} {arity : Nat}
    {m : Method} (hm : b.findMethod? name arity = some m) :
    ∃ c ∈ b.ancestors, c.name = b.methodOwner name arity ∧ c.method? name = some m ∧
      m.arity = arity := by
  unfold findMethod? at hm
  unfold methodOwner
  generalize b.ancestors = cs at hm ⊢
  induction cs with
  | nil => cases hm
  | cons c cs ih =>
      rw [List.findSome?_cons] at hm
      rw [List.find?_cons]
      cases hown : (c.method? name).filter (·.arity == arity) with
      | none =>
          rw [hown] at hm
          obtain ⟨d, hd, hfound⟩ := ih hm
          exact ⟨d, List.mem_cons_of_mem c hd, hfound⟩
      | some own =>
          rw [hown] at hm
          cases hm
          rw [Option.filter_eq_some_iff] at hown
          exact ⟨c, List.mem_cons_self, rfl, hown.1, by simpa using hown.2⟩

/-- An accepted program declares an attribute once, so there is no doubt about its class. -/
theorem Hierarchy.WellTyped.attributeOwner_eq {h : Hierarchy} (hwt : h.WellTyped)
    {D x owner : String} (hD : h.contains D = true) {a : Attribute}
    (ha : h.findAttribute? D x = some (owner, a)) :
    (Blueprint.ofClass h D).attributeOwner x = owner := by
  unfold Blueprint.attributeOwner
  cases hfind : (Blueprint.ofClass h D).ancestors.reverse.find? fun c =>
      (c.attribute? x).isSome with
  | none =>
      obtain ⟨d, hd, -, hown⟩ := findAttribute?_eq_some ha
      have hnone := List.find?_eq_none.mp hfind d (List.mem_reverse.mpr hd)
      rw [hown] at hnone
      exact absurd rfl hnone
  | some c =>
      have hc : c ∈ h.ancestors D := List.mem_reverse.mp (List.mem_of_find?_eq_some hfind)
      have hsome := List.find?_some hfind
      obtain ⟨a', ha'⟩ := Option.isSome_iff_exists.mp hsome
      -- `D` inherits the attribute as the class has it, so both declarations are one
      have hcknown := hwt.tree.find?_of_mem (mem_classes_of_mem_ancestors hc)
      have hself := hwt.tree.findAttribute?_self hcknown ha'
      have hbelow := hwt.findAttribute?_of_conforms hD (conforms_of_mem_ancestors hc) hself
      exact congrArg Prod.fst (Option.some.inj (hbelow.symm.trans ha))

namespace Scoped

open Eval

variable (p : Program) (ev : ScopedEvaluator)

/-! ## Rules that change the context -/

def runInitializers (b : Blueprint) (place : Nat) : List Attribute → Eval Unit
  | [] => return
  | slot :: slots => do
    fillSlot (ev ⟨b.attributeOwner slot.name, .empty⟩) place slot
    runInitializers b place slots

def construct (className : String) (position : Position) : Eval Value := do
  guardConstruction p className position
  let b ← blueprint p className position
  let place ← addObject (.ofBlueprint b)
  withinConstruction className (runInitializers ev b place b.layout)
  return .object place

def instantiate (className : String) (position : Position) : Eval Value :=
  if ClassName.finals.contains className then return .defaultFor className
  else if className = ClassName.object then return .object Machine.rootObject
  else if className = ClassName.io then return .object Machine.ioObject
  else construct p ev className position

def dispatch (receiver : Value) (qualifier : Option String) (method : String)
    (arguments : List Value) (position : Position) : Eval Value := do
  match ← className? receiver with
  | none => fault (.dispatchOnVoid method) position
  | some className =>
    let b ← blueprint p (qualifier.getD className) position
    match b.findMethod? method arguments.length with
    | none => fault (.undefinedMethod b.name method) position
    | some found =>
      invoke p (ev ⟨b.methodOwner method arguments.length, found.scope⟩) receiver found arguments
        position

def name (x : String) (env : Environment) (position : Position) : Eval Value := do
  match ← local? env x with
  | some v => return v
  | none =>
    match ← attribute? env x with
    | some v => return v
    | none => dispatch p ev env.self none x [] position

def bindings (owner : String) : Scope → Environment → List Binding → Eval Environment
  | _, env, [] => return env
  | Γ, env, b :: bs => do
    let v ← initialValue (ev ⟨owner, Γ⟩) env b
    let env ← define env b.name v
    bindings owner (Γ.declare b.name (ClassName.resolve owner b.typeName)) env bs

def branch (c : Context) (v : Value) (branches : List Branch) (env : Environment)
    (position : Position) : Eval Value := do
  match ← className? v with
  | none => fault .caseOnVoid position
  | some className =>
    let b ← blueprint p className position
    match closestBranch? b branches with
    | none => fault (.noMatchingBranch className) position
    | some (_, chosen) =>
      let env ← define env chosen.name v
      ev ⟨c.owner, c.scope.push.declare chosen.name chosen.typeName⟩ chosen.body env

/-! ## Evaluation -/

/-- The rule for each kind of expression. Most kinds evaluate what is inside them in the context
that they are in. -/
def step (rounds : Nat) : ScopedEvaluator :=
  fun c e env =>
    match e with
    | .name x span => name p ev x env span.start
    | .dispatch r qualifier method args span => do
      let self ← receiver (ev c) env r
      let values ← arguments (ev c) env args
      dispatch p ev self qualifier method values span.start
    | .new typeName span => do
      let className ← newClass typeName env span.start
      instantiate p ev className span.start
    | .letIn bs body _ => do
      let env ← bindings ev c.owner c.scope.push env bs
      ev ⟨c.owner, c.scope.push.declareBindings c.owner bs⟩ body env
    | .caseOf scrutinee branches span => do
      let v ← ev c scrutinee env
      branch p ev c v branches env span.start
    | e => Eval.step p (ev c) rounds e env

def eval : Nat → ScopedEvaluator
  | 0 => fun _ _ _ => outOfFuel
  | fuel + 1 => step p (eval fuel) fuel

def program : Eval Value := do
  let object ← instantiate p ev ClassName.mainClass .nowhere
  dispatch p ev object none mainMethod [] .nowhere

/-! ## Calls and constructions, once their look-ups are done -/

section

variable {p ev} {className : String} {b : Blueprint} {m : Machine}

theorem dispatch_found {receiver : Value} {qualifier : Option String} {method : String}
    {arguments : List Value} {found : Method} (hc : receiver.className? m.store = some className)
    (hb : p.classes.find? (qualifier.getD className) = some b)
    (hfound : b.findMethod? method arguments.length = some found) (position : Position) :
    dispatch p ev receiver qualifier method arguments position m =
      invoke p (ev ⟨b.methodOwner method arguments.length, found.scope⟩) receiver found arguments
        position m := by
  have hname : className? receiver m = .ok (some className) m := by rw [className?, hc]
  rw [dispatch, bind_ok hname]
  refine (bind_ok (blueprint_of_some hb position m)).trans ?_
  simp only [hfound]

theorem runInitializers_of_init_eq_none {place : Nat} {slots : List Attribute}
    (hslots : ∀ slot ∈ slots, slot.init = none) :
    runInitializers ev b place slots = pure () := by
  induction slots with
  | nil => rfl
  | cons slot slots ih =>
      have hslot := hslots slot List.mem_cons_self
      rw [runInitializers, ih fun s hs => hslots s (List.mem_cons_of_mem _ hs), fillSlot, hslot]
      rfl

/-- No evaluation takes part in the construction of an object without initial values. -/
theorem construct_of_init_eq_none (hb : p.classes.find? className = some b)
    (hslots : ∀ slot ∈ b.layout, slot.init = none) (hfresh : className ∉ m.constructing)
    (hdepth : m.constructing.length < p.maxConstructionDepth) (position : Position) :
    construct p ev className position m =
      .ok (.object m.store.objects.size)
        { m with store := m.store.addObject (.ofBlueprint b) } := by
  have hguard : guardConstruction p className position m = .ok () m := by
    rw [guardConstruction, if_neg (by simpa using hfresh), if_neg (Nat.not_le.mpr hdepth)]
  rw [construct, bind_ok hguard]
  refine (bind_ok (blueprint_of_some hb position m)).trans ?_
  simp only [runInitializers_of_init_eq_none hslots]
  rfl

end

/-! ## Contexts do not matter -/

variable {p ev} {base : Evaluator}

theorem runInitializers_const (b : Blueprint) (place : Nat) (slots : List Attribute) :
    runInitializers (fun _ => base) b place slots = Eval.runInitializers base place slots := by
  induction slots with
  | nil => rfl
  | cons slot slots ih => rw [runInitializers_cons, runInitializers, ih]

theorem construct_const (className : String) (position : Position) :
    construct p (fun _ => base) className position =
      Eval.construct p base className position := by
  simp only [construct, runInitializers_const]
  rfl

theorem instantiate_const (className : String) (position : Position) :
    instantiate p (fun _ => base) className position =
      Eval.instantiate p base className position := by
  rw [instantiate, construct_const]
  rfl

theorem bindings_const (owner : String) (bs : List Binding) :
    ∀ Γ env, bindings (fun _ => base) owner Γ env bs = Eval.bindings base env bs := by
  induction bs with
  | nil => intro Γ env; rfl
  | cons b bs ih =>
      intro Γ env
      rw [bindings_cons, bindings]
      simp only [ih]

theorem step_const (rounds : Nat) (c : Context) :
    step p (fun _ => base) rounds c = Eval.step p base rounds := by
  funext e env
  cases e with
  | dispatch r qualifier method args span => exact (step_dispatch ..).symm
  | new typeName span =>
      simp only [step, instantiate_const]
      rfl
  | letIn bs body span =>
      simp only [step, bindings_const]
      rfl
  | _ => rfl

theorem eval_eq (p : Program) (fuel : Nat) : eval p fuel = fun _ => CoolLang.eval p fuel := by
  induction fuel with
  | zero => rfl
  | succ fuel ih =>
      funext c
      rw [eval, ih, step_const]
      rfl

/-- **The same runs.** -/
theorem program_eval (p : Program) (fuel : Nat) :
    program p (eval p fuel) = Eval.program p fuel := by
  rw [eval_eq, program, instantiate_const]
  rfl

end Scoped

end CoolLang
