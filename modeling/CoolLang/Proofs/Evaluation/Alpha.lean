import CoolLang.Program.Run
import CoolLang.Proofs.Evaluation.Outcome
import CoolLang.Proofs.Object.Alpha

/-!
# Runs of alpha-equivalent programs

Two alpha-equivalent expressions, in environments that give paired names the same cells, are
evaluated in step. Their machines look the same from outside all the time, and both end with the
same value or stop at the same place for the same reason. That the names of a fault are the same,
too, is because a name that is no local variable is paired with itself only.
-/

namespace CoolLang

open List (Forall₂)

/-! ## Machines and environments -/

structure Machine.SameOutline (m m' : Machine) : Prop where
  store : m.store.SameOutline m'.store
  output : m.output = m'.output
  input : m.input = m'.input
  constructing : m.constructing = m'.constructing
  callDepth : m.callDepth = m'.callDepth

/-- How many cells there are. -/
def Machine.cellCount (m : Machine) : Nat := m.store.cells.size

theorem Machine.SameOutline.withStore {m m' : Machine} (hm : m.SameOutline m') {s s' : Store}
    (hs : s.SameOutline s') : SameOutline { m with store := s } { m' with store := s' } :=
  ⟨hs, hm.output, hm.input, hm.constructing, hm.callDepth⟩

/-- Paired names have the same cell, which is one of the first `n`, and names without one are the
same. -/
structure Environment.Paired (ctx : Pairing) (n : Nat) (env env' : Environment) : Prop where
  self : env.self = env'.self
  place? : ∀ {a b}, ctx.Matches a b → env.place? a = env'.place? b
  free : ∀ {a b}, ctx.Matches a b → env.place? a = none → a = b
  bound : ∀ {a place}, env.place? a = some place → place < n

namespace Environment.Paired

variable {ctx : Pairing} {n : Nat} {env env' : Environment}

theorem ofSelf (n : Nat) (v : Value) : (Environment.ofSelf v).Paired [] n (.ofSelf v) :=
  ⟨rfl, fun _ => rfl, fun hab _ => hab, nofun⟩

theorem later (h : env.Paired ctx n env') {n' : Nat} (hn : n ≤ n') : env.Paired ctx n' env' :=
  ⟨h.self, h.place?, h.free, fun hplace => Nat.lt_of_lt_of_le (h.bound hplace) hn⟩

theorem bind (h : env.Paired ctx n env') (x y : String) :
    (env.bind x n).Paired ((x, y) :: ctx) (n + 1) (env'.bind y n) := by
  refine ⟨h.self, ?_, ?_, ?_⟩
  · rintro a b (⟨rfl, rfl⟩ | ⟨ha, hb, hab⟩)
    · rw [place?_bind_self, place?_bind_self]
    · rw [place?_bind_of_ne env n ha, place?_bind_of_ne env' n hb, h.place? hab]
  · rintro a b (⟨rfl, rfl⟩ | ⟨ha, hb, hab⟩) hnone
    · rw [place?_bind_self] at hnone
      cases hnone
    · rw [place?_bind_of_ne env n ha] at hnone
      exact h.free hab hnone
  · intro a place hplace
    by_cases ha : a = x
    · subst ha
      rw [place?_bind_self] at hplace
      cases hplace
      exact Nat.lt_succ_self _
    · rw [place?_bind_of_ne env n ha] at hplace
      exact Nat.lt_succ_of_lt (h.bound hplace)

/-- A name that is bound under itself in both needs no pair. -/
theorem unpair {x : String} (h : env.Paired [(x, x)] n env') : env.Paired [] n env' :=
  ⟨h.self, fun hab => h.place? (Pairing.matches_singleton hab x),
    fun hab => h.free (Pairing.matches_singleton hab x), h.bound⟩

variable {m m' : Machine}

theorem get? (h : env.Paired ctx m.cellCount env') (hm : m.SameOutline m') {a b : String}
    (hab : ctx.Matches a b) : env.get? m.store a = env'.get? m'.store b := by
  rw [Environment.get?, Environment.get?, h.place? hab]
  congr 1
  funext place
  rw [Store.cell?, Store.cell?, hm.store.cells]

/-- A name without a value has no cell. -/
theorem eq_of_get? (h : env.Paired ctx m.cellCount env') {a b : String} (hab : ctx.Matches a b)
    (hnone : env.get? m.store a = none) : a = b := by
  refine h.free hab ?_
  cases hplace : env.place? a with
  | none => rfl
  | some place =>
      rw [Environment.get?, hplace, Option.bind_some, Store.cell?, Array.getElem?_eq_none_iff]
        at hnone
      exact absurd (h.bound hplace) (Nat.not_lt.mpr hnone)

end Environment.Paired

namespace Eval

variable {α β γ δ : Type}

/-- Outcomes from machines with `n` cells: both are values, related by `Q` where so many cells are
in use, or both are the same halt. The machines look the same from outside. -/
inductive Outcomes (n : Nat) (Q : α → β → Nat → Prop) :
    EStateM.Result Halt Machine α → EStateM.Result Halt Machine β → Prop where
  | ok {a : α} {b : β} {m m' : Machine} (hm : m.SameOutline m') (hn : n ≤ m.cellCount)
      (hab : Q a b m.cellCount) : Outcomes n Q (.ok a m) (.ok b m')
  | error {halt : Halt} {m m' : Machine} (hm : m.SameOutline m') :
      Outcomes n Q (.error halt m) (.error halt m')

/-- The two computations go in step. -/
def Agree (Q : α → β → Nat → Prop) (x : Eval α) (y : Eval β) (m m' : Machine) : Prop :=
  Outcomes m.cellCount Q (x m) (y m')

/-- One value for both. -/
def Same (a b : α) (_ : Nat) : Prop := a = b

namespace Agree

variable {P : α → β → Nat → Prop} {Q : γ → δ → Nat → Prop} {m m' : Machine}

theorem of_eq {x x₁ : Eval α} {y y₁ : Eval β} (hx : x m = x₁ m) (hy : y m' = y₁ m')
    (h : Agree P x₁ y₁ m m') : Agree P x y m m' := by
  rw [Agree, hx, hy]
  exact h

theorem of_ok {x : Eval α} {y : Eval β} {a : α} {b : β} {m₁ m₁' : Machine}
    (hx : x m = .ok a m₁) (hy : y m' = .ok b m₁') (hm : m₁.SameOutline m₁')
    (hn : m.cellCount ≤ m₁.cellCount) (hab : P a b m₁.cellCount) : Agree P x y m m' := by
  rw [Agree, hx, hy]
  exact .ok hm hn hab

theorem of_error {x : Eval α} {y : Eval β} {halt : Halt} {m₁ m₁' : Machine}
    (hx : x m = .error halt m₁) (hy : y m' = .error halt m₁') (hm : m₁.SameOutline m₁') :
    Agree P x y m m' := by
  rw [Agree, hx, hy]
  exact .error hm

theorem ret {a : α} {b : β} (hm : m.SameOutline m') (hab : P a b m.cellCount) :
    Agree P (pure a) (pure b) m m' :=
  of_ok rfl rfl hm (Nat.le_refl _) hab

theorem fault (cause : Cause) (position : Position) (hm : m.SameOutline m') :
    Agree P (Eval.fault cause position) (Eval.fault cause position) m m' :=
  of_error rfl rfl hm

/-- The second parts start where the first parts end. -/
theorem bind {x : Eval α} {y : Eval β} {f : α → Eval γ} {g : β → Eval δ}
    (hxy : Agree P x y m m')
    (hfg : ∀ {a b m₁ m₁'}, m₁.SameOutline m₁' → m.cellCount ≤ m₁.cellCount →
      P a b m₁.cellCount → Agree Q (f a) (g b) m₁ m₁') :
    Agree Q (x >>= f) (y >>= g) m m' := by
  unfold Agree at hxy
  generalize hx : x m = r at hxy
  generalize hy : y m' = r' at hxy
  cases hxy with
  | error hm => exact of_error (bind_error hx) (bind_error hy) hm
  | @ok a b m₁ m₁' hm hn hab =>
      -- cells are only added, so those from before both parts are there after both
      have hrest := hfg hm hn hab
      unfold Agree at hrest ⊢
      rw [bind_ok hx, bind_ok hy]
      generalize f a m₁ = r at hrest ⊢
      generalize g b m₁' = r' at hrest ⊢
      cases hrest with
      | ok hm₂ hn₂ hq => exact .ok hm₂ (Nat.le_trans hn hn₂) hq
      | error hm₂ => exact .error hm₂

theorem withinCall {x : Eval α} {y : Eval β} (hm : m.SameOutline m')
    (h : ∀ {m₁ m₁' : Machine}, m₁.SameOutline m₁' → Agree P x y m₁ m₁') :
    Agree P x.withinCall y.withinCall m m' := by
  have hin : Machine.SameOutline { m with callDepth := m.callDepth + 1 }
      { m' with callDepth := m'.callDepth + 1 } :=
    ⟨hm.store, hm.output, hm.input, hm.constructing, by rw [hm.callDepth]⟩
  have hbody := h hin
  unfold Agree at hbody
  generalize hx : x { m with callDepth := m.callDepth + 1 } = r at hbody
  generalize hy : y { m' with callDepth := m'.callDepth + 1 } = r' at hbody
  cases hbody with
  | ok hm₁ hn hab =>
      refine of_ok (withinCall_ok hx) (withinCall_ok hy) ?_ hn hab
      exact ⟨hm₁.store, hm₁.output, hm₁.input, hm₁.constructing, by rw [hm₁.callDepth]⟩
  | error hm₁ =>
      refine of_error (withinCall_error hx) (withinCall_error hy) ?_
      exact ⟨hm₁.store, hm₁.output, hm₁.input, hm₁.constructing, by rw [hm₁.callDepth]⟩

theorem withinConstruction (name : String) {x : Eval α} {y : Eval β} (hm : m.SameOutline m')
    (h : ∀ {m₁ m₁' : Machine}, m₁.SameOutline m₁' → Agree P x y m₁ m₁') :
    Agree P (x.withinConstruction name) (y.withinConstruction name) m m' := by
  have hin : Machine.SameOutline { m with constructing := name :: m.constructing }
      { m' with constructing := name :: m'.constructing } :=
    ⟨hm.store, hm.output, hm.input, by rw [hm.constructing], hm.callDepth⟩
  have hbody := h hin
  unfold Agree at hbody
  generalize hx : x { m with constructing := name :: m.constructing } = r at hbody
  generalize hy : y { m' with constructing := name :: m'.constructing } = r' at hbody
  cases hbody with
  | ok hm₁ hn hab =>
      refine of_ok (withinConstruction_ok hx) (withinConstruction_ok hy) ?_ hn hab
      exact ⟨hm₁.store, hm₁.output, hm₁.input, by rw [hm₁.constructing], hm₁.callDepth⟩
  | error hm₁ =>
      refine of_error (withinConstruction_error hx) (withinConstruction_error hy) ?_
      exact ⟨hm₁.store, hm₁.output, hm₁.input, by rw [hm₁.constructing], hm₁.callDepth⟩

/-! ## The store -/

variable {ctx : Pairing} {env env' : Environment}

theorem define (hm : m.SameOutline m') (henv : env.Paired ctx m.cellCount env') (x y : String)
    (v : Value) : Agree (fun e e' n => e.Paired ((x, y) :: ctx) n e') (Eval.define env x v)
      (Eval.define env' y v) m m' := by
  have hsize : m.cellCount + 1 = (m.store.addCell v).cells.size := (Array.size_push ..).symm
  refine of_ok rfl rfl (hm.withStore (hm.store.addCell v)) ?_ ?_
  · exact Nat.le_trans (Nat.le_succ _) (Nat.le_of_eq hsize)
  · have hbind := henv.bind x y
    rw [hsize] at hbind
    show (env.bind x m.store.cells.size).Paired _ _ (env'.bind y m'.store.cells.size)
    rw [← hm.store.cells]
    exact hbind

theorem bindFormals (formals : List Parameter) : ∀ {m m' : Machine} {env env' : Environment}
    (arguments : List Value), m.SameOutline m' → env.Paired [] m.cellCount env' →
      Agree (fun e e' n => e.Paired [] n e') (Eval.bindFormals env formals arguments)
        (Eval.bindFormals env' formals arguments) m m' := by
  induction formals with
  | nil => intro m m' env env' arguments hm henv; exact ret hm henv
  | cons formal formals ih =>
      intro m m' env env' arguments hm henv
      cases arguments with
      | nil => exact ret hm henv
      | cons v arguments =>
          exact bind (define hm henv formal.name formal.name v) fun hm₁ _ hpaired =>
            ih arguments hm₁ hpaired.unpair

theorem assign (hm : m.SameOutline m') (henv : env.Paired ctx m.cellCount env') {a b : String}
    (hab : ctx.Matches a b) (v : Value) (position : Position) :
    Agree Same (Eval.assign env a v position) (Eval.assign env' b v position) m m' := by
  cases hplace : env.place? a with
  | some place =>
      have hrun : Eval.assign env a v position m =
          .ok () { m with store := m.store.setCell place v } := by
        rw [Eval.assign, hplace]
      have hrun' : Eval.assign env' b v position m' =
          .ok () { m' with store := m'.store.setCell place v } := by
        rw [Eval.assign, ← henv.place? hab, hplace]
      refine of_ok hrun hrun' (hm.withStore (hm.store.setCell place v)) (Nat.le_of_eq ?_) rfl
      exact (Array.size_setIfInBounds ..).symm
  | none =>
      -- no local variable, so the name was not changed and may be an attribute of both
      obtain rfl := henv.free hab hplace
      have hplace' : env'.place? a = none := by rw [← henv.place? hab, hplace]
      unfold Agree Eval.assign
      rw [hplace, hplace', henv.self]
      cases env'.self with
      | object place =>
          dsimp only
          rw [hm.store.hasAttribute place a]
          split
          · exact .ok (hm.withStore (hm.store.setField place a v)) (Nat.le_refl _) rfl
          · exact .error hm
      | _ => exact .error hm

/-! ## Operations of the built-in classes -/

theorem nextLine? (hm : m.SameOutline m') (position : Position) :
    Agree Same (Primitive.nextLine? position) (Primitive.nextLine? position) m m' := by
  have hread : Agree Same Eval.readLine Eval.readLine m m' := by
    refine of_ok rfl rfl ⟨hm.store, hm.output, ?_, hm.constructing, hm.callDepth⟩
      (Nat.le_refl _) ?_
    · exact congrArg (fun input : Input => input.readLine.2) hm.input
    · exact congrArg (fun input : Input => input.readLine.1) hm.input
  refine bind hread ?_
  rintro line _ m₁ m₁' hm₁ - rfl
  cases line with
  | text line => exact ret hm₁ rfl
  | endOfInput => exact ret hm₁ rfl
  | malformed => exact fault _ _ hm₁

theorem perform (hm : m.SameOutline m') (operation : Primitive) (receiver : Value)
    (arguments : List Value) (position : Position) :
    Agree Same (operation.perform receiver arguments position)
      (operation.perform receiver arguments position) m m' := by
  -- an operation looks at no more of the store than the class and the text of its receiver
  obtain ⟨act, hact⟩ := operation.perform_eq receiver arguments position
  have hact' := hact m'
  rw [← hm.store.className?, ← hm.store.render] at hact'
  refine of_eq (hact m) hact' ?_
  cases act (receiver.className? m.store) (receiver.render m.store) with
  | value v => exact ret hm rfl
  | fault cause _ => exact fault cause position hm
  | copy =>
      obtain ⟨hvalue, hstore⟩ := hm.store.copy receiver
      refine of_ok rfl rfl (hm.withStore hstore) (Nat.le_of_eq ?_) hvalue
      exact congrArg Array.size (Store.cells_copy m.store receiver).symm
  | write text =>
      refine of_ok rfl rfl ⟨hm.store, ?_, hm.input, hm.constructing, hm.callDepth⟩
        (Nat.le_refl _) rfl
      exact congrArg (· ++ text) hm.output
  | read answer =>
      refine bind (nextLine? hm position) ?_
      rintro line _ m₁ m₁' hm₁ - rfl
      exact ret hm₁ rfl

end Agree

end Eval

/-! ## Rules -/

structure Program.Alpha (p p' : Program) : Prop where
  find? : ∀ name, Both Blueprint.Alpha (p.classes.find? name) (p'.classes.find? name)
  maxCallDepth : p.maxCallDepth = p'.maxCallDepth
  maxConstructionDepth : p.maxConstructionDepth = p'.maxConstructionDepth

/-- Alpha-equivalent expressions are evaluated in step. -/
def Evaluator.Agree (ev ev' : Evaluator) : Prop :=
  ∀ {ctx : Pairing} {e e' : Expr} {env env' : Environment} {m m' : Machine},
    e.Alpha ctx e' → m.SameOutline m' → env.Paired ctx m.cellCount env' →
    Eval.Agree Eval.Same (ev e env) (ev' e' env') m m'

namespace Eval.Agree

variable {ctx : Pairing} {p p' : Program} {ev ev' : Evaluator} {env env' : Environment}
  {m m' : Machine}

theorem bool (hev : Evaluator.Agree ev ev') {e e' : Expr} (he : e.Alpha ctx e')
    (hm : m.SameOutline m') (henv : env.Paired ctx m.cellCount env') :
    Agree Same (Eval.bool ev e env) (Eval.bool ev' e' env') m m' := by
  refine bind (hev he hm henv) ?_
  rintro v _ m₁ m₁' hm₁ - rfl
  rw [he.span_eq]
  cases v with
  | bool b => exact ret hm₁ rfl
  | _ =>
      refine of_error rfl ?_ hm₁
      rw [hm₁.store.render]
      rfl

theorem int (hev : Evaluator.Agree ev ev') {e e' : Expr} (he : e.Alpha ctx e')
    (hm : m.SameOutline m') (henv : env.Paired ctx m.cellCount env') :
    Agree Same (Eval.int ev e env) (Eval.int ev' e' env') m m' := by
  refine bind (hev he hm henv) ?_
  rintro v _ m₁ m₁' hm₁ - rfl
  rw [he.span_eq]
  cases v with
  | int n => exact ret hm₁ rfl
  | _ =>
      refine of_error rfl ?_ hm₁
      rw [hm₁.store.render]
      rfl

theorem receiver (hev : Evaluator.Agree ev ev') {r r' : Option Expr} (hr : OptionAlpha ctx r r')
    (hm : m.SameOutline m') (henv : env.Paired ctx m.cellCount env') :
    Agree Same (Eval.receiver ev env r) (Eval.receiver ev' env' r') m m' := by
  cases hr with
  | none => exact ret hm henv.self
  | some he => exact hev he hm henv

theorem arguments (hev : Evaluator.Agree ev ev') : (es : List Expr) → {es' : List Expr} →
    {m m' : Machine} → ExprsAlpha ctx es es' → m.SameOutline m' →
    env.Paired ctx m.cellCount env' →
    Agree Same (Eval.arguments ev env es) (Eval.arguments ev' env' es') m m'
  | [], _, _, _, hes, hm, _ => by
      cases hes
      exact ret hm rfl
  | e :: es, _, _, _, hes, hm, henv => by
      cases hes with
      | cons he hes =>
          refine bind (hev he hm henv) ?_
          rintro v _ m₁ m₁' hm₁ hn rfl
          refine bind (arguments hev es hes hm₁ (henv.later hn)) ?_
          rintro vs _ m₂ m₂' hm₂ - rfl
          exact ret hm₂ rfl

theorem sequence (hev : Evaluator.Agree ev ev') : (es : List Expr) → {es' : List Expr} →
    (last : Value) → {m m' : Machine} → ExprsAlpha ctx es es' → m.SameOutline m' →
    env.Paired ctx m.cellCount env' →
    Agree Same (Eval.sequence ev env last es) (Eval.sequence ev' env' last es') m m'
  | [], _, _, _, _, hes, hm, _ => by
      cases hes
      exact ret hm rfl
  | e :: es, _, _, _, _, hes, hm, henv => by
      cases hes with
      | cons he hes =>
          refine bind (hev he hm henv) ?_
          rintro v _ m₁ m₁' hm₁ hn rfl
          exact sequence hev es v hes hm₁ (henv.later hn)

theorem initialValue (hev : Evaluator.Agree ev ev') {init init' : Option Expr}
    (hinit : OptionAlpha ctx init init') (x y T : String) (s : Span) (hm : m.SameOutline m')
    (henv : env.Paired ctx m.cellCount env') :
    Agree Same (Eval.initialValue ev env ⟨x, T, init, s⟩)
      (Eval.initialValue ev' env' ⟨y, T, init', s⟩) m m' := by
  cases hinit with
  | none => exact ret hm rfl
  | some he => exact hev he hm henv

/-- The variables of two `let`s are paired one after the other. -/
theorem bindings (hev : Evaluator.Agree ev ev') : (bs : List Binding) → {bs' : List Binding} →
    {ctx ctx' : Pairing} → {env env' : Environment} → {m m' : Machine} →
    BindingsAlpha ctx bs bs' ctx' → m.SameOutline m' → env.Paired ctx m.cellCount env' →
    Agree (fun e e' n => e.Paired ctx' n e') (Eval.bindings ev env bs)
      (Eval.bindings ev' env' bs') m m'
  | [], _, _, _, _, _, _, _, hbs, hm, henv => by
      cases hbs
      exact ret hm henv
  | ⟨x, T, init, s⟩ :: bs, _, _, _, _, _, _, _, hbs, hm, henv => by
      cases hbs with
      | @cons _ _ _ y _ _ _ _ hself _ hinit _ hbs =>
          rw [bindings_cons, bindings_cons]
          refine bind (initialValue hev hinit x y T s hm henv) ?_
          rintro v _ m₁ m₁' hm₁ hn rfl
          exact bind (define hm₁ (henv.later hn) x y v) fun hm₂ _ henv₂ =>
            bindings hev bs hbs hm₂ henv₂

theorem repeatWhile {c c' : Eval Bool} {b b' : Eval Value} {n : Nat}
    (hc : ∀ {m m' : Machine}, m.SameOutline m' → n ≤ m.cellCount → Agree Same c c' m m')
    (hb : ∀ {m m' : Machine}, m.SameOutline m' → n ≤ m.cellCount → Agree Same b b' m m')
    (rounds : Nat) : ∀ {m m' : Machine}, m.SameOutline m' → n ≤ m.cellCount →
      Agree Same (Eval.repeatWhile c b rounds) (Eval.repeatWhile c' b' rounds) m m' := by
  induction rounds with
  | zero => intro m m' hm _; exact of_error rfl rfl hm
  | succ rounds ih =>
      intro m m' hm hn
      refine bind (hc hm hn) ?_
      rintro again _ m₁ m₁' hm₁ hn₁ rfl
      cases again with
      | false => exact ret hm₁ rfl
      | true =>
          exact bind (hb hm₁ (Nat.le_trans hn hn₁)) fun hm₂ hn₂ _ =>
            ih hm₂ (Nat.le_trans hn (Nat.le_trans hn₁ hn₂))

/-! ## Objects and calls -/

theorem fillSlot (hev : Evaluator.Agree ev ev') (place : Nat) {slot slot' : Attribute}
    (hslot : slot.Alpha slot') (hm : m.SameOutline m') :
    Agree Same (Eval.fillSlot ev place slot) (Eval.fillSlot ev' place slot') m m' := by
  have hinit := hslot.init
  unfold Eval.fillSlot
  rw [hslot.name]
  generalize slot.init = init at hinit
  generalize slot'.init = init' at hinit
  cases hinit with
  | none => exact ret hm rfl
  | some he =>
      refine bind (hev he hm (.ofSelf _ (.object place))) ?_
      rintro v _ m₁ m₁' hm₁ - rfl
      exact of_ok rfl rfl (hm₁.withStore (hm₁.store.setField place slot'.name v))
        (Nat.le_refl _) rfl

theorem runInitializers (hev : Evaluator.Agree ev ev') (place : Nat)
    {slots slots' : List Attribute} (hslots : Forall₂ Attribute.Alpha slots slots') :
    ∀ {m m' : Machine}, m.SameOutline m' →
      Agree Same (Eval.runInitializers ev place slots) (Eval.runInitializers ev' place slots')
        m m' := by
  induction hslots with
  | nil => intro m m' hm; exact ret hm rfl
  | cons hslot _ ih =>
      intro m m' hm
      rw [runInitializers_cons, runInitializers_cons]
      exact bind (fillSlot hev place hslot hm) fun hm₁ _ _ => ih hm₁

theorem blueprint (hp : p.Alpha p') (name : String) (position : Position)
    (hm : m.SameOutline m') : Agree (fun b b' _ => b.Alpha b') (Eval.blueprint p name position)
      (Eval.blueprint p' name position) m m' := by
  rcases hp.find? name with ⟨hb, hb'⟩ | ⟨b, b', hb, hb', hbb⟩
  · exact of_error (blueprint_of_none hb position m) (blueprint_of_none hb' position m') hm
  · exact of_ok (blueprint_of_some hb position m) (blueprint_of_some hb' position m') hm
      (Nat.le_refl _) hbb

theorem guardCall (hp : p.Alpha p') (position : Position) (hm : m.SameOutline m') :
    Agree Same (Eval.guardCall p position) (Eval.guardCall p' position) m m' := by
  unfold Agree Eval.guardCall
  rw [hp.maxCallDepth, hm.callDepth]
  split
  · exact .error hm
  · exact .ok hm (Nat.le_refl _) rfl

theorem guardConstruction (hp : p.Alpha p') (className : String) (position : Position)
    (hm : m.SameOutline m') :
    Agree Same (Eval.guardConstruction p className position)
      (Eval.guardConstruction p' className position) m m' := by
  unfold Agree Eval.guardConstruction
  rw [hp.maxConstructionDepth, hm.constructing]
  split
  · exact .error hm
  · split
    · exact .error hm
    · exact .ok hm (Nat.le_refl _) rfl

theorem construct (hp : p.Alpha p') (hev : Evaluator.Agree ev ev') (className : String)
    (position : Position) (hm : m.SameOutline m') :
    Agree Same (Eval.construct p ev className position)
      (Eval.construct p' ev' className position) m m' := by
  refine bind (guardConstruction hp className position hm) fun hm₁ _ _ =>
    bind (blueprint hp className position hm₁) ?_
  intro b b' m₂ m₂' hm₂ _ hb
  have hadd : Agree Same (Eval.addObject (.ofBlueprint b)) (Eval.addObject (.ofBlueprint b'))
      m₂ m₂' :=
    of_ok rfl rfl (hm₂.withStore (hm₂.store.addObject hb.ofBlueprint)) (Nat.le_refl _)
      hm₂.store.size
  refine bind hadd ?_
  rintro place _ m₃ m₃' hm₃ - rfl
  refine bind (withinConstruction className hm₃ fun hm₄ =>
    runInitializers hev place hb.layout hm₄) fun hm₅ _ _ => ?_
  exact ret hm₅ rfl

theorem instantiate (hp : p.Alpha p') (hev : Evaluator.Agree ev ev') (className : String)
    (position : Position) (hm : m.SameOutline m') :
    Agree Same (Eval.instantiate p ev className position)
      (Eval.instantiate p' ev' className position) m m' := by
  unfold Eval.instantiate
  split
  · exact ret hm rfl
  · split
    · exact ret hm rfl
    · split
      · exact ret hm rfl
      · exact construct hp hev className position hm

theorem invoke (hp : p.Alpha p') (hev : Evaluator.Agree ev ev') (receiver : Value)
    {found found' : Method} (hfound : found.Alpha found') (arguments : List Value)
    (position : Position) (hm : m.SameOutline m') :
    Agree Same (Eval.invoke p ev receiver found arguments position)
      (Eval.invoke p' ev' receiver found' arguments position) m m' := by
  unfold Eval.invoke
  rw [← hfound.primitive?]
  cases found.primitive? with
  | some operation => exact perform hm operation receiver arguments position
  | none =>
      dsimp only
      rw [hfound.formals]
      refine bind (guardCall hp position hm) fun hm₁ _ _ => withinCall hm₁ fun hm₂ => ?_
      exact bind (bindFormals found'.formals arguments hm₂ (.ofSelf _ receiver))
        fun hm₃ _ henv => hev hfound.body hm₃ henv

theorem dispatch (hp : p.Alpha p') (hev : Evaluator.Agree ev ev') (receiver : Value)
    (qualifier : Option String) (method : String) (arguments : List Value) (position : Position)
    (hm : m.SameOutline m') :
    Agree Same (Eval.dispatch p ev receiver qualifier method arguments position)
      (Eval.dispatch p' ev' receiver qualifier method arguments position) m m' := by
  have hclass := hm.store.className? receiver
  cases hc : receiver.className? m.store with
  | none => exact of_error (dispatch_void hc) (dispatch_void (hclass.symm.trans hc)) hm
  | some className =>
      have hc' := hclass.symm.trans hc
      rcases hp.find? (qualifier.getD className) with ⟨hb, hb'⟩ | ⟨b, b', hb, hb', hbb⟩
      · exact of_error (dispatch_unknown hc hb) (dispatch_unknown hc' hb') hm
      · rcases hbb.findMethod? method arguments.length with
          ⟨hf, hf'⟩ | ⟨found, found', hf, hf', hff⟩
        · have hrun : Eval.dispatch p ev receiver qualifier method arguments position m =
              .error (.fault ⟨.undefinedMethod b'.name method, position⟩) m := by
            rw [dispatch_undefined hc hb hf, hbb.name]
          exact of_error hrun (dispatch_undefined hc' hb' hf') hm
        · exact of_eq (dispatch_found hc hb hf) (dispatch_found hc' hb' hf')
            (invoke hp hev receiver hff arguments position hm)

theorem name (hp : p.Alpha p') (hev : Evaluator.Agree ev ev') {a b : String}
    (hab : ctx.Matches a b) (position : Position) (hm : m.SameOutline m')
    (henv : env.Paired ctx m.cellCount env') :
    Agree Same (Eval.name p ev a env position) (Eval.name p' ev' b env' position) m m' := by
  have hget := henv.get? hm hab
  cases hx : env.get? m.store a with
  | some v =>
      exact of_ok (name_local hx) (name_local (hget.symm.trans hx)) hm (Nat.le_refl _) rfl
  | none =>
      obtain rfl := henv.eq_of_get? hab hx
      have hx' := hget.symm.trans hx
      have hattribute : (env.self.object? m.store).bind (·.get? a) =
          (env'.self.object? m'.store).bind (·.get? a) := by
        rw [henv.self, hm.store.attribute?]
      cases hv : (env.self.object? m.store).bind (·.get? a) with
      | some v =>
          exact of_ok (name_attribute hx hv) (name_attribute hx' (hattribute.symm.trans hv)) hm
            (Nat.le_refl _) rfl
      | none =>
          refine of_eq (name_method hx hv) (name_method hx' (hattribute.symm.trans hv)) ?_
          rw [henv.self]
          exact dispatch hp hev env'.self none a [] position hm

theorem newClass (T : String) (position : Position) (hm : m.SameOutline m')
    (henv : env.Paired ctx m.cellCount env') :
    Agree Same (Eval.newClass T env position) (Eval.newClass T env' position) m m' := by
  unfold Eval.newClass
  split
  · have hclass : Agree Same (Eval.className? env.self) (Eval.className? env'.self) m m' := by
      refine of_ok rfl rfl hm (Nat.le_refl _) ?_
      rw [Same, henv.self, hm.store.className?]
    refine bind hclass ?_
    rintro name _ m₁ m₁' hm₁ - rfl
    cases name with
    | some className => exact ret hm₁ rfl
    | none => exact fault _ _ hm₁
  · exact ret hm rfl

/-! ## Branches -/

/-- The branches of two `case`s that are chosen for one class go with each other. -/
theorem closestBranch? {b b' : Blueprint} (hb : b.Alpha b') : (bs : List Branch) →
    {bs' : List Branch} → BranchesAlpha ctx bs bs' →
    Both (fun r r' => r.1 = r'.1 ∧ r.2.body.Alpha ((r.2.name, r'.2.name) :: ctx) r'.2.body)
      (Eval.closestBranch? b bs) (Eval.closestBranch? b' bs')
  | [], _, hbs => by
      cases hbs
      exact Or.inl ⟨rfl, rfl⟩
  | ⟨x, T, body, s⟩ :: bs, _, hbs => by
      cases hbs with
      | @cons _ _ y _ body' _ bs' _ _ hbody _ hbs =>
          have hrest := closestBranch? hb bs hbs
          rw [Eval.closestBranch?, Eval.closestBranch?, hb.distance?]
          cases b'.distance? T with
          | none => exact hrest
          | some distance =>
              rcases hrest with ⟨hr, hr'⟩ | ⟨⟨least, best⟩, ⟨least', best'⟩, hr, hr', heq, hbest⟩
              · rw [hr, hr']
                exact Or.inr ⟨_, _, rfl, rfl, rfl, hbody⟩
              · obtain rfl : least = least' := heq
                rw [hr, hr']
                dsimp only
                split
                · exact Or.inr ⟨_, _, rfl, rfl, rfl, hbody⟩
                · exact Or.inr ⟨_, _, rfl, rfl, rfl, hbest⟩

theorem branch (hp : p.Alpha p') (hev : Evaluator.Agree ev ev') (v : Value)
    {bs bs' : List Branch} (hbs : BranchesAlpha ctx bs bs') (position : Position)
    (hm : m.SameOutline m') (henv : env.Paired ctx m.cellCount env') :
    Agree Same (Eval.branch p ev v bs env position) (Eval.branch p' ev' v bs' env' position)
      m m' := by
  have hclass := hm.store.className? v
  cases hc : v.className? m.store with
  | none =>
      exact of_error (branch_void hc bs env) (branch_void (hclass.symm.trans hc) bs' env') hm
  | some className =>
      have hc' := hclass.symm.trans hc
      rcases hp.find? className with ⟨hb, hb'⟩ | ⟨b, b', hb, hb', hbb⟩
      · exact of_error (branch_unknown hc hb bs env) (branch_unknown hc' hb' bs' env') hm
      · rcases closestBranch? hbb bs hbs with
          ⟨hr, hr'⟩ | ⟨⟨distance, chosen⟩, ⟨distance', chosen'⟩, hr, hr', -, hbody⟩
        · exact of_error (branch_unmatched hc hb hr env) (branch_unmatched hc' hb' hr' env') hm
        · refine of_eq (branch_matched hc hb hr env) (branch_matched hc' hb' hr' env') ?_
          exact bind (define hm henv chosen.name chosen'.name v) fun hm₁ _ henv₁ =>
            hev hbody hm₁ henv₁

theorem binary (hev : Evaluator.Agree ev ev') (op : BinaryOp) {l l' r r' : Expr}
    (hl : l.Alpha ctx l') (hr : r.Alpha ctx r') (position : Position) (hm : m.SameOutline m')
    (henv : env.Paired ctx m.cellCount env') :
    Agree Same (Eval.binary ev op l r env position) (Eval.binary ev' op l' r' env' position)
      m m' := by
  unfold Eval.binary
  split
  · refine bind (hev hl hm henv) ?_
    rintro a _ m₁ m₁' hm₁ hn rfl
    refine bind (hev hr hm₁ (henv.later hn)) ?_
    rintro b _ m₂ m₂' hm₂ - rfl
    exact ret hm₂ rfl
  · refine bind (int hev hl hm henv) ?_
    rintro a _ m₁ m₁' hm₁ hn rfl
    refine bind (int hev hr hm₁ (henv.later hn)) ?_
    rintro b _ m₂ m₂' hm₂ - rfl
    unfold arithmetic
    cases op with
    | divide =>
        dsimp only
        split
        · exact fault _ _ hm₂
        · exact ret hm₂ rfl
    | _ => exact ret hm₂ rfl

/-! ## Evaluation -/

theorem step (hp : p.Alpha p') (hev : Evaluator.Agree ev ev') (rounds : Nat) :
    Evaluator.Agree (Eval.step p ev rounds) (Eval.step p' ev' rounds) := by
  intro ctx e e' env env' m m' he hm henv
  cases he with
  | int | str | bool => exact ret hm rfl
  | self => exact ret hm henv.self
  | name hab s => exact name hp hev hab s.start hm henv
  | assign hab _ hv s =>
      refine bind (hev hv hm henv) ?_
      rintro v _ m₁ m₁' hm₁ hn rfl
      exact bind (assign hm₁ (henv.later hn) hab v s.start) fun hm₂ _ _ => ret hm₂ rfl
  | dispatch hr q method hargs s =>
      rw [step_dispatch, step_dispatch]
      refine bind (receiver hev hr hm henv) ?_
      rintro v _ m₁ m₁' hm₁ hn rfl
      refine bind (arguments hev _ hargs hm₁ (henv.later hn)) ?_
      rintro vs _ m₂ m₂' hm₂ - rfl
      exact dispatch hp hev v q method vs s.start hm₂
  | new T s =>
      refine bind (newClass T s.start hm henv) ?_
      rintro className _ m₁ m₁' hm₁ - rfl
      exact instantiate hp hev className s.start hm₁
  | cond hc ht hf s =>
      refine bind (bool hev hc hm henv) ?_
      rintro b _ m₁ m₁' hm₁ hn rfl
      cases b with
      | true => exact hev ht hm₁ (henv.later hn)
      | false => exact hev hf hm₁ (henv.later hn)
  | loop hc hbody s =>
      exact repeatWhile (fun hm₁ hn => bool hev hc hm₁ (henv.later hn))
        (fun hm₁ hn => hev hbody hm₁ (henv.later hn)) rounds hm (Nat.le_refl _)
  | block hes s => exact sequence hev _ .void hes hm henv
  | letIn hbs hbody s =>
      exact bind (bindings hev _ hbs hm henv) fun hm₁ _ henv₁ => hev hbody hm₁ henv₁
  | caseOf he hbs s =>
      refine bind (hev he hm henv) ?_
      rintro v _ m₁ m₁' hm₁ hn rfl
      exact branch hp hev v hbs s.start hm₁ (henv.later hn)
  | isVoid he s =>
      refine bind (hev he hm henv) ?_
      rintro v _ m₁ m₁' hm₁ - rfl
      exact ret hm₁ rfl
  | unary op he s =>
      cases op with
      | negate =>
          refine bind (int hev he hm henv) ?_
          rintro n _ m₁ m₁' hm₁ - rfl
          exact ret hm₁ rfl
      | not =>
          refine bind (bool hev he hm henv) ?_
          rintro b _ m₁ m₁' hm₁ - rfl
          exact ret hm₁ rfl
  | binary op hl hr s => exact binary hev op hl hr s.start hm henv
  | primitive operation s => exact fault _ _ hm

/-- **Bound names are no matter of evaluation.** -/
theorem eval (hp : p.Alpha p') (fuel : Nat) :
    Evaluator.Agree (CoolLang.eval p fuel) (CoolLang.eval p' fuel) := by
  induction fuel with
  | zero => intro ctx e e' env env' m m' _ hm _; exact of_error rfl rfl hm
  | succ fuel ih => exact step hp ih fuel

theorem program (hp : p.Alpha p') (fuel : Nat) (hm : m.SameOutline m') :
    Agree Same (Eval.program p fuel) (Eval.program p' fuel) m m' := by
  refine bind (instantiate hp (eval hp fuel) _ _ hm) ?_
  rintro object _ m₁ m₁' hm₁ - rfl
  exact dispatch hp (eval hp fuel) object none mainMethod [] .nowhere hm₁

end Eval.Agree

/-! ## Runs -/

namespace Hierarchy.Alpha

variable {h h' : Hierarchy}

theorem ofHierarchy (hh : h.Alpha h') (settings : Settings) :
    (Program.ofHierarchy h settings).Alpha (.ofHierarchy h' settings) := by
  refine ⟨fun name => ?_, rfl, rfl⟩
  show Both _ ((ClassTable.ofHierarchy h).find? name) ((ClassTable.ofHierarchy h').find? name)
  rw [ClassTable.find?_ofHierarchy, ClassTable.find?_ofHierarchy, hh.sameOutline.contains]
  split
  · exact Or.inr ⟨_, _, rfl, rfl, Blueprint.alpha_ofClass hh name⟩
  · exact Or.inl ⟨rfl, rfl⟩

theorem initial (hh : h.Alpha h') (input : Input) :
    (Machine.initial h input).SameOutline (.initial h' input) := by
  have hempty : Store.empty.SameOutline Store.empty := ⟨rfl, rfl, fun _ => rfl⟩
  have hobject := (Blueprint.alpha_ofClass hh ClassName.object).ofBlueprint
  have hio := (Blueprint.alpha_ofClass hh ClassName.io).ofBlueprint
  exact ⟨(hempty.addObject hobject).addObject hio, rfl, rfl, rfl, rfl⟩

/-- **Alpha-equivalent programs run alike**: they write the same and read the same, and they return
the same value or stop with the same fault. -/
theorem evaluate (hh : h.Alpha h') (fuel : Nat) (warnings : List Diagnostic)
    (settings : Settings) (input : Input) :
    CoolLang.evaluate fuel h warnings settings input =
      CoolLang.evaluate fuel h' warnings settings input := by
  have hrun := Eval.Agree.program (hh.ofHierarchy settings) fuel (hh.initial input)
  unfold Eval.Agree at hrun
  unfold CoolLang.evaluate
  generalize Eval.program (.ofHierarchy h settings) fuel (.initial h input) = r at hrun ⊢
  generalize Eval.program (.ofHierarchy h' settings) fuel (.initial h' input) = r' at hrun ⊢
  cases hrun with
  | @ok v _ m m' hm _ hv =>
      obtain rfl := hv
      have hvalue : ReturnValue.ofValue m.store v = .ofValue m'.store v := by
        cases v with
        | object place => rw [ReturnValue.ofValue, ReturnValue.ofValue, hm.store.className?]
        | _ => rfl
      simp only [hm.output, hm.input, hvalue]
  | @error halt m m' hm =>
      cases halt with
      | fault d => simp only [hm.output, hm.input]
      | outOfFuel => rfl

end Hierarchy.Alpha

end CoolLang
