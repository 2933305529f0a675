import CoolLang.Proofs.Evaluation.Shape
import CoolLang.Proofs.Evaluation.Visits

/-!
# Frames of well-typed programs

In a program that passed validation and the type check without a complaint, everything that a run
evaluates is well typed in the context that it is evaluated in, and the names of the environment are
those of the context. The program may misuse `SELF_TYPE`, and its values need not fit their types.
-/

namespace CoolLang

structure Frame.Sound (h : Hierarchy) (f : Frame) : Prop where
  typed : ∃ T, HasType h f.context.owner f.context.scope f.expr T
  env : f.env.Agrees f.context.scope f.machine.store
  store : f.machine.store.Shaped h

/-- The evaluator `ev` does what `base` does, at the frames that are sound. -/
structure Follows (h : Hierarchy) (base : Evaluator) (ev : ScopedEvaluator) : Prop where
  keeps : base.Keeps (Machine.KeepsShape h)
  same : ∀ f : Frame, f.Sound h → f.outcome ev = base f.expr f.env f.machine

namespace Follows

open Eval

variable {h : Hierarchy} {p : Program} {base : Evaluator} {ev : ScopedEvaluator} {C : String}
  {Γ : Scope} {env : Environment} {m : Machine} {e : Expr} {T : String}

theorem expr (hev : Follows h base ev) (he : HasType h C Γ e T)
    (henv : env.Agrees Γ m.store) (hs : m.store.Shaped h) :
    ev ⟨C, Γ⟩ e env m = base e env m :=
  hev.same ⟨⟨C, Γ⟩, e, env, m⟩ ⟨⟨T, he⟩, henv, hs⟩

theorem keepsShape {α : Type} {x : Eval α} {a : α} {m₁ : Machine}
    (hkeeps : m.KeepsShape h (x.final m)) (hx : x m = .ok a m₁) :
    m.store.KeepsShape h m₁.store := by
  rwa [final_ok hx] at hkeeps

/-! ## Operands and sequences

The conservation of shapes, `hR`, takes the shape of the store and the agreement of the environment
from each part of a rule to the next. -/

theorem bool (hev : Follows h base ev) (he : HasType h C Γ e T)
    (henv : env.Agrees Γ m.store) (hs : m.store.Shaped h) :
    Eval.bool (ev ⟨C, Γ⟩) e env m = Eval.bool base e env m :=
  bind_eq_bind (hev.expr he henv hs) fun _ _ _ => rfl

theorem int (hev : Follows h base ev) (he : HasType h C Γ e T)
    (henv : env.Agrees Γ m.store) (hs : m.store.Shaped h) :
    Eval.int (ev ⟨C, Γ⟩) e env m = Eval.int base e env m :=
  bind_eq_bind (hev.expr he henv hs) fun _ _ _ => rfl

theorem receiver (hev : Follows h base ev) {r : Option Expr} (hr : ReceiverHasType h C Γ r T)
    (henv : env.Agrees Γ m.store) (hs : m.store.Shaped h) :
    Eval.receiver (ev ⟨C, Γ⟩) env r m = Eval.receiver base env r m := by
  cases hr with
  | none => rfl
  | some he => exact hev.expr he henv hs

theorem arguments (hev : Follows h base ev) {es : List Expr} :
    ∀ {Ts m}, ArgumentsHaveTypes h C Γ es Ts → env.Agrees Γ m.store → m.store.Shaped h →
      Eval.arguments (ev ⟨C, Γ⟩) env es m = Eval.arguments base env es m := by
  induction es with
  | nil => intro Ts m _ _ _; rfl
  | cons e es ih =>
      intro Ts m hes henv hs
      cases hes with
      | cons he hes =>
          refine bind_eq_bind (hev.expr he henv hs) fun v m₁ hv => ?_
          have hshape := keepsShape (hev.keeps _ _ _) hv
          refine bind_eq_bind (ih hes (henv.later hshape.cells) (hshape.shaped hs)) ?_
          exact fun _ _ _ => rfl

theorem sequence (hev : Follows h base ev) {es : List Expr} :
    ∀ {L T last m}, SequenceHasType h C Γ L es T → env.Agrees Γ m.store → m.store.Shaped h →
      Eval.sequence (ev ⟨C, Γ⟩) env last es m = Eval.sequence base env last es m := by
  induction es with
  | nil => intro L T last m _ _ _; rfl
  | cons e es ih =>
      intro L T last m hes henv hs
      cases hes with
      | cons he hes =>
          refine bind_eq_bind (hev.expr he henv hs) fun v m₁ hv => ?_
          have hshape := keepsShape (hev.keeps _ _ _) hv
          exact ih hes (henv.later hshape.cells) (hshape.shaped hs)

theorem repeatWhile (hev : Follows h base ev) (hp : p.classes = .ofHierarchy h) {c body : Expr}
    {S : String} (hc : HasType h C Γ c S) (hbody : HasType h C Γ body T) (rounds : Nat) :
    ∀ {m}, env.Agrees Γ m.store → m.store.Shaped h →
      Eval.repeatWhile (Eval.bool (ev ⟨C, Γ⟩) c env) (ev ⟨C, Γ⟩ body env) rounds m =
        Eval.repeatWhile (Eval.bool base c env) (base body env) rounds m := by
  have hR := Machine.conserved_keepsShape hp
  induction rounds with
  | zero => intro m _ _; rfl
  | succ rounds ih =>
      intro m henv hs
      refine bind_eq_bind (hev.bool hc henv hs) fun again m₁ hagain => ?_
      have hshape₁ := keepsShape (hR.bool hev.keeps c env m) hagain
      have henv₁ := henv.later hshape₁.cells
      have hs₁ := hshape₁.shaped hs
      cases again with
      | false => rfl
      | true =>
          refine bind_eq_bind (hev.expr hbody henv₁ hs₁) fun v m₂ hv => ?_
          have hshape₂ := keepsShape (hev.keeps _ _ _) hv
          exact ih (henv₁.later hshape₂.cells) (hshape₂.shaped hs₁)

theorem initialValue (hev : Follows h base ev) {b : Binding}
    (hinit : InitializerHasType h C Γ b.init T) (henv : env.Agrees Γ m.store)
    (hs : m.store.Shaped h) :
    Eval.initialValue (ev ⟨C, Γ⟩) env b m = Eval.initialValue base env b m := by
  unfold Eval.initialValue
  cases hb : b.init with
  | none => rfl
  | some e =>
      rw [hb] at hinit
      cases hinit with
      | some he _ => exact hev.expr he henv hs

theorem bindings (hev : Follows h base ev) (hp : p.classes = .ofHierarchy h)
    {bs : List Binding} :
    ∀ {Γ Γ' env m}, BindingsHaveTypes h C Γ bs Γ' → env.Agrees Γ m.store → m.store.Shaped h →
      Scoped.bindings ev C Γ env bs m = Eval.bindings base env bs m := by
  have hR := Machine.conserved_keepsShape hp
  induction bs with
  | nil => intro Γ Γ' env m _ _ _; rfl
  | cons b bs ih =>
      intro Γ Γ' env m hbs henv hs
      cases hbs with
      | cons hT hinit hbs =>
          rw [bindings_cons, Scoped.bindings]
          refine bind_eq_bind (hev.initialValue hinit henv hs) fun v m₁ hv => ?_
          have hshape := keepsShape (hR.initialValue hev.keeps env _ m) hv
          refine bind_eq_bind rfl fun env' m₂ hdefine => ?_
          cases hdefine
          exact ih hbs ((henv.later hshape.cells).define _ _ v) (hshape.shaped hs)

/-! ## Bindings and formals

The environment that they leave has the names that they declare. -/

theorem agrees_bindings (hR : Conserved p (Machine.KeepsShape h))
    (hkeeps : base.Keeps (Machine.KeepsShape h)) {bs : List Binding} {env' : Environment}
    {m' : Machine} :
    ∀ {Γ env m}, env.Agrees Γ m.store → Eval.bindings base env bs m = .ok env' m' →
      env'.Agrees (Γ.declareBindings C bs) m'.store := by
  induction bs with
  | nil =>
      intro Γ env m henv hrun
      cases hrun
      exact henv
  | cons b bs ih =>
      intro Γ env m henv hrun
      rw [bindings_cons] at hrun
      obtain ⟨v, m₁, hv, hrun⟩ := bind_eq_ok hrun
      obtain ⟨env₁, m₂, hdefine, hrun⟩ := bind_eq_ok hrun
      cases hdefine
      have hshape := keepsShape (hR.initialValue hkeeps env b m) hv
      exact ih ((henv.later hshape.cells).define b.name (ClassName.resolve C b.typeName) v) hrun

theorem agrees_bindFormals {formals : List Parameter} {env' : Environment} {m' : Machine} :
    ∀ {Γ env m} {values : List Value}, env.Agrees Γ m.store → formals.length = values.length →
      Eval.bindFormals env formals values m = .ok env' m' →
      env'.Agrees (Γ.declareAll formals) m'.store := by
  induction formals with
  | nil =>
      intro Γ env m values henv _ hrun
      cases hrun
      exact henv
  | cons formal formals ih =>
      intro Γ env m values henv hlen hrun
      cases values with
      | nil => cases hlen
      | cons v values =>
          obtain ⟨env₁, m₁, hdefine, hrun⟩ := bind_eq_ok hrun
          cases hdefine
          exact ih (henv.define formal.name formal.typeName v) (Nat.succ.inj hlen) hrun

/-! ## Calls -/

theorem invoke (hev : Follows h base ev) (hwt : h.WellTyped) (hp : p.classes = .ofHierarchy h)
    (hs : m.store.Shaped h) {c : ClassInfo} {found : Method} (hc : c ∈ h.classes)
    (hfound : found ∈ c.methods) (v : Value) {values : List Value}
    (harity : found.arity = values.length) (position : Position) :
    Eval.invoke p (ev ⟨c.name, found.scope⟩) v found values position m =
      Eval.invoke p base v found values position m := by
  cases hprim : found.primitive? with
  | some operation => rw [Eval.invoke, Eval.invoke, hprim]
  | none =>
      have huser := hwt.user_of_primitive?_eq_none hc hfound hprim
      obtain ⟨T, hbody, -⟩ := ((hwt.classes c huser).methods found hfound).body
        (hwt.written c huser found.body (List.mem_append_left _ (List.mem_map_of_mem hfound)))
      rw [Eval.invoke, Eval.invoke, hprim]
      refine bind_eq_bind rfl fun _ m₁ hguard => ?_
      obtain ⟨rfl, -⟩ := guardCall_eq_ok hguard
      refine withinCall_eq (bind_eq_bind rfl fun env m₂ henv => ?_)
      have hshape := keepsShape
        ((Machine.conserved_keepsShape hp).bindFormals found.formals (.ofSelf v) values _) henv
      have hself := Environment.Agrees.ofSelf (s := m₁.store) v (Γ := Scope.empty.push)
        fun _ => rfl
      exact hev.expr hbody (agrees_bindFormals (m := { m₁ with callDepth := m₁.callDepth + 1 })
        hself harity henv) (hshape.shaped hs)

theorem dispatch (hev : Follows h base ev) (hwt : h.WellTyped)
    (hp : p.classes = .ofHierarchy h) (hs : m.store.Shaped h) (receiver : Value)
    (qualifier : Option String) (method : String) (values : List Value) (position : Position) :
    Scoped.dispatch p ev receiver qualifier method values position m =
      Eval.dispatch p base receiver qualifier method values position m := by
  refine bind_eq_bind rfl fun className m₁ hclass => ?_
  cases hclass
  cases receiver.className? m.store with
  | none => rfl
  | some className =>
      refine bind_eq_bind rfl fun b m₁ hblueprint => ?_
      obtain ⟨hfind, rfl⟩ := blueprint_eq_ok hblueprint
      rw [hp] at hfind
      obtain ⟨-, rfl⟩ := ClassTable.find?_ofHierarchy_eq_some hfind
      cases hfound : (Blueprint.ofClass h (qualifier.getD className)).findMethod? method
          values.length with
      | none => rfl
      | some found =>
          -- any method that the call finds is typed in its own class, be it the one that the type
          -- check had in mind or not
          obtain ⟨c, hc, howner, hown, harity⟩ := Blueprint.findMethod?_methodOwner hfound
          rw [← howner]
          exact hev.invoke hwt hp hs (Hierarchy.mem_classes_of_mem_ancestors hc)
            (List.mem_of_find?_eq_some hown) receiver harity position

theorem name (hev : Follows h base ev) (hwt : h.WellTyped) (hp : p.classes = .ofHierarchy h)
    (hs : m.store.Shaped h) (x : String) (env : Environment) (position : Position) :
    Scoped.name p ev x env position m = Eval.name p base x env position m := by
  refine bind_eq_bind rfl fun v? m₁ hlocal => ?_
  cases hlocal
  cases env.get? m.store x with
  | some v => rfl
  | none =>
      refine bind_eq_bind rfl fun w? m₁ hattribute => ?_
      cases hattribute
      cases (env.self.object? m.store).bind (·.get? x) with
      | some w => rfl
      | none => exact hev.dispatch hwt hp hs env.self none x [] position

/-! ## Construction -/

theorem fillSlot (hev : Follows h base ev) (hwt : h.WellTyped) (hs : m.store.Shaped h)
    {D owner : String} {slot : Attribute}
    (hslot : h.findAttribute? D slot.name = some (owner, slot)) (place : Nat) :
    Eval.fillSlot (ev ⟨owner, .empty⟩) place slot m = Eval.fillSlot base place slot m := by
  obtain ⟨c, huser, rfl, -, hmem, htyped⟩ := hwt.wellTyped_of_findAttribute? hslot
  unfold Eval.fillSlot
  cases hinit : slot.init with
  | none => rfl
  | some e =>
      have htype := htyped.init fun e' he' =>
        hwt.written c huser e' (List.mem_append_right _ (List.mem_filterMap.mpr ⟨slot, hmem, he'⟩))
      rw [hinit] at htype
      cases htype with
      | some he _ =>
          exact bind_eq_bind (hev.expr he (.ofSelf _ fun _ => rfl) hs) fun _ _ _ => rfl

/-- The object under construction is the one at `place`. -/
theorem runInitializers (hev : Follows h base ev) (hobj : base.Keeps Machine.KeepsObjects)
    (hwt : h.WellTyped) (hp : p.classes = .ofHierarchy h) {D : String}
    (hD : h.contains D = true) (place : Nat) {slots : List Attribute}
    (hslots : ∀ slot ∈ slots, slot ∈ (Blueprint.ofClass h D).layout) :
    ∀ {m}, m.store.Shaped h →
      (∃ o, m.store.object? place = some o ∧ o.blueprint = .ofClass h D) →
      Scoped.runInitializers ev (.ofClass h D) place slots m =
        Eval.runInitializers base place slots m := by
  induction slots with
  | nil => intro m _ _; rfl
  | cons slot slots ih =>
      intro m hs hplace
      have hmem := hslots slot List.mem_cons_self
      have hslot := Blueprint.hasAttribute_of_mem hmem
      obtain ⟨owner, hfind⟩ := hwt.findAttribute?_of_mem_layout hD hmem
      -- the slot is filled in the context of the class that declares it
      rw [runInitializers_cons, Scoped.runInitializers, hwt.attributeOwner_eq hD hfind]
      refine bind_eq_bind (hev.fillSlot hwt hs hfind place) fun _ m₁ hrun => ?_
      have hshape := keepsShape
        ((Machine.conserved_keepsShape hp).fillSlot hev.keeps hobj hslot hplace) hrun
      exact ih (fun s hs => hslots s (List.mem_cons_of_mem _ hs)) (hshape.shaped hs)
        (Eval.object?_of_fillSlot hobj hplace hrun)

theorem construct (hev : Follows h base ev) (hobj : base.Keeps Machine.KeepsObjects)
    (hwt : h.WellTyped) (hp : p.classes = .ofHierarchy h) (hs : m.store.Shaped h)
    (className : String) (position : Position) :
    Scoped.construct p ev className position m = Eval.construct p base className position m := by
  refine bind_eq_bind rfl fun _ m₁ hguard => ?_
  obtain ⟨rfl, -⟩ := guardConstruction_eq_ok hguard
  refine bind_eq_bind rfl fun b m₁ hblueprint => ?_
  obtain ⟨hfind, rfl⟩ := blueprint_eq_ok hblueprint
  rw [hp] at hfind
  obtain ⟨hknown, rfl⟩ := ClassTable.find?_ofHierarchy_eq_some hfind
  refine bind_eq_bind rfl fun place m₁ hadd => ?_
  cases hadd
  refine bind_eq_bind (withinConstruction_eq ?_) fun _ _ _ => rfl
  exact hev.runInitializers hobj hwt hp hknown _ (fun _ hslot => hslot)
    (hs.addObject (Object.shaped_ofBlueprint hknown))
    ⟨_, Store.object?_addObject_size _ _, rfl⟩

theorem instantiate (hev : Follows h base ev) (hobj : base.Keeps Machine.KeepsObjects)
    (hwt : h.WellTyped) (hp : p.classes = .ofHierarchy h) (hs : m.store.Shaped h)
    (className : String) (position : Position) :
    Scoped.instantiate p ev className position m =
      Eval.instantiate p base className position m := by
  unfold Scoped.instantiate Eval.instantiate
  split
  · rfl
  · split
    · rfl
    · split
      · rfl
      · exact hev.construct hobj hwt hp hs className position

theorem branch (hev : Follows h base ev) (henv : env.Agrees Γ m.store) (hs : m.store.Shaped h)
    {branches : List Branch} {Ts : List String}
    (hbranches : BranchesHaveTypes h C Γ branches Ts) (v : Value) (position : Position) :
    Scoped.branch p ev ⟨C, Γ⟩ v branches env position m =
      Eval.branch p base v branches env position m := by
  refine bind_eq_bind rfl fun className m₁ hclass => ?_
  cases hclass
  cases v.className? m.store with
  | none => rfl
  | some className =>
      refine bind_eq_bind rfl fun b m₁ hblueprint => ?_
      obtain ⟨-, rfl⟩ := blueprint_eq_ok hblueprint
      cases hchosen : closestBranch? b branches with
      | none => rfl
      | some found =>
          obtain ⟨hmem, -⟩ := closestBranch?_eq_some hchosen
          obtain ⟨T, -, hbody⟩ := hbranches.body_of_mem hmem
          refine bind_eq_bind rfl fun env' m₂ hdefine => ?_
          cases hdefine
          exact hev.expr hbody (henv.push.define _ _ v) hs

/-! ## Runs -/

/-- The rule for a sound frame depends on sound frames only. -/
theorem step (hev : Follows h base ev) (hobj : base.Keeps Machine.KeepsObjects)
    (hwt : h.WellTyped) (hp : p.classes = .ofHierarchy h) (rounds : Nat) {f : Frame}
    (hf : f.Sound h) :
    f.outcome (Scoped.step p ev rounds) = Eval.step p base rounds f.expr f.env f.machine := by
  have hR := Machine.conserved_keepsShape hp
  obtain ⟨⟨C, Γ⟩, e, env, m⟩ := f
  obtain ⟨⟨T, he⟩, henv, hs⟩ := hf
  show Scoped.step p ev rounds ⟨C, Γ⟩ e env m = Eval.step p base rounds e env m
  cases he with
  | int | str | bool | self => rfl
  | localName | attributeName | methodName => exact hev.name hwt hp hs _ env _
  | assignLocal _ hvalue _ | assignAttribute _ _ hvalue _ =>
      exact bind_eq_bind (hev.expr hvalue henv hs) fun _ _ _ => rfl
  | dispatch hr _ hargs _ _ =>
      rw [step_dispatch]
      refine bind_eq_bind (hev.receiver hr henv hs) fun v m₁ hv => ?_
      have hshape₁ := keepsShape (hR.receiver hev.keeps _ env m) hv
      have hs₁ := hshape₁.shaped hs
      refine bind_eq_bind (hev.arguments hargs (henv.later hshape₁.cells) hs₁)
        fun vs m₂ hvs => ?_
      have hshape₂ := keepsShape (hR.arguments hev.keeps env _ m₁) hvs
      exact hev.dispatch hwt hp (hshape₂.shaped hs₁) v _ _ vs _
  | new =>
      refine bind_eq_bind rfl fun className m₁ hclass => ?_
      have hshape := keepsShape (hR.newClass _ env _ m) hclass
      exact hev.instantiate hobj hwt hp (hshape.shaped hs) className _
  | cond hc hthen helse =>
      refine bind_eq_bind (hev.bool hc henv hs) fun b m₁ hb => ?_
      have hshape := keepsShape (hR.bool hev.keeps _ env m) hb
      cases b with
      | true => exact hev.expr hthen (henv.later hshape.cells) (hshape.shaped hs)
      | false => exact hev.expr helse (henv.later hshape.cells) (hshape.shaped hs)
  | loop hc hbody => exact hev.repeatWhile hp hc hbody rounds henv hs
  | block hbody => exact hev.sequence hbody henv hs
  | letIn hbs hbody =>
      refine bind_eq_bind (hev.bindings hp hbs henv.push hs) fun env' m₁ hrun => ?_
      have hshape := keepsShape (hR.bindings hev.keeps _ env m) hrun
      rw [hbs.scope_eq] at hbody
      exact hev.expr hbody (agrees_bindings hR hev.keeps henv.push hrun) (hshape.shaped hs)
  | caseOf hscrutinee hbranches =>
      refine bind_eq_bind (hev.expr hscrutinee henv hs) fun v m₁ hv => ?_
      have hshape := keepsShape (hev.keeps _ _ _) hv
      exact hev.branch (henv.later hshape.cells) (hshape.shaped hs) hbranches v _
  | isVoid he => exact bind_eq_bind (hev.expr he henv hs) fun _ _ _ => rfl
  | negate he => exact bind_eq_bind (hev.int he henv hs) fun _ _ _ => rfl
  | not he => exact bind_eq_bind (hev.bool he henv hs) fun _ _ _ => rfl
  | equals hl hr =>
      refine bind_eq_bind (hev.expr hl henv hs) fun a m₁ ha => ?_
      have hshape := keepsShape (hev.keeps _ _ _) ha
      exact bind_eq_bind (hev.expr hr (henv.later hshape.cells) (hshape.shaped hs))
        fun _ _ _ => rfl
  | @binary _ op l r span hop hl hr =>
      show Eval.binary (ev ⟨C, Γ⟩) op l r env span.start m =
        Eval.binary base op l r env span.start m
      rw [Eval.binary, Eval.binary, if_neg hop, if_neg hop]
      refine bind_eq_bind (hev.int hl henv hs) fun a m₁ ha => ?_
      have hshape := keepsShape (hR.int hev.keeps l env m) ha
      exact bind_eq_bind (hev.int hr (henv.later hshape.cells) (hshape.shaped hs))
        fun _ _ _ => rfl

theorem program (hev : Follows h base ev) (hobj : base.Keeps Machine.KeepsObjects)
    (hwt : h.WellTyped) (hp : p.classes = .ofHierarchy h) (hs : m.store.Shaped h) :
    Scoped.program p ev m = Scoped.program p (fun _ => base) m := by
  rw [Scoped.program, Scoped.program, Scoped.instantiate_const]
  refine bind_eq_bind (hev.instantiate hobj hwt hp hs _ _) fun object m₁ hobject => ?_
  have hshape := keepsShape
    ((Machine.conserved_keepsShape hp).instantiate hev.keeps hobj _ _ m) hobject
  exact hev.dispatch hwt hp (hshape.shaped hs) object none mainMethod [] _

end Follows

/-- **Runs visit sound frames.** -/
theorem Visits.sound {h : Hierarchy} {p : Program} (hwt : h.WellTyped)
    (hp : p.classes = .ofHierarchy h) {fuel left : Nat} {start : Machine} {f : Frame}
    (hs : start.store.Shaped h) (hf : Visits p fuel start left f) : f.Sound h := by
  have hkeeps := (Machine.conserved_keepsShape hp).eval
  have hobj := Machine.keepsObjects_eval p
  refine hf.invariant (fun ev hev => ?_) fun left f hf ev hev => ?_
  · rw [Scoped.eval_eq] at hev ⊢
    exact Follows.program ⟨hkeeps fuel, hev⟩ (hobj fuel) hwt hp hs
  · rw [Scoped.eval_eq] at hev ⊢
    rw [Follows.step ⟨hkeeps left, hev⟩ (hobj left) hwt hp left hf, Frame.outcome,
      Scoped.step_const]

end CoolLang
