import CoolLang.Proofs.Hierarchy.Alpha
import CoolLang.Proofs.Typing.Outline
import CoolLang.Proofs.Typing.Reports

/-!
# Types of alpha-equivalent programs

The checks of two alpha-equivalent expressions, in scopes that give paired names the same types,
find the same type. What they report differs at most in its wording, where that mentions a bound
name: the codes and the positions are the same.
-/

namespace CoolLang

open List (Forall₂)

/-- What a diagnostic says, apart from its wording. -/
def Diagnostic.key (d : Diagnostic) : String × Position :=
  (d.cause.code, d.position)

/-- Paired names have the same type, and names without one are the same. -/
structure Scope.Paired (ctx : Pairing) (Γ Γ' : Scope) : Prop where
  typeOf? : ∀ {a b}, ctx.Matches a b → Γ.typeOf? a = Γ'.typeOf? b
  free : ∀ {a b}, ctx.Matches a b → Γ.typeOf? a = none → a = b

theorem Scope.Paired.declare {ctx : Pairing} {Γ Γ' : Scope} (h : Γ.Paired ctx Γ')
    (x y T : String) : (Γ.declare x T).Paired ((x, y) :: ctx) (Γ'.declare y T) := by
  constructor
  · rintro a b (⟨rfl, rfl⟩ | ⟨ha, hb, hab⟩)
    · rw [typeOf?_declare_self, typeOf?_declare_self]
    · rw [typeOf?_declare_of_ne Γ T ha, typeOf?_declare_of_ne Γ' T hb, h.typeOf? hab]
  · rintro a b (⟨rfl, rfl⟩ | ⟨ha, hb, hab⟩) hnone
    · rw [typeOf?_declare_self] at hnone
      cases hnone
    · rw [typeOf?_declare_of_ne Γ T ha] at hnone
      exact h.free hab hnone

theorem Scope.Paired.push {ctx : Pairing} {Γ Γ' : Scope} (h : Γ.Paired ctx Γ') :
    Γ.push.Paired ctx Γ'.push :=
  ⟨h.typeOf?, h.free⟩

/-- Outside all bindings one scope goes with itself. -/
theorem Scope.paired_refl (Γ : Scope) : Γ.Paired [] Γ :=
  ⟨fun hab => congrArg Γ.typeOf? hab, fun hab _ => hab⟩

structure Checker.Paired (ctx : Pairing) (s s' : Checker) : Prop where
  currentClass : s.currentClass = s'.currentClass
  scope : s.scope.Paired ctx s'.scope
  log : s.log.map (·.key) = s'.log.map (·.key)

namespace Check

variable {α β : Type} {h : Hierarchy} {ctx ctx₁ ctx₂ : Pairing}

/-- From paired states the two checks give one answer and make the same reports, up to their
wording. They may declare names, which are paired afterwards. -/
def Agree (ctx ctx₁ : Pairing) (x x' : Check α) : Prop :=
  ∀ s s' : Checker, s.Paired ctx s' → (x s).1 = (x' s').1 ∧ (x s).2.Paired ctx₁ (x' s').2

namespace Agree

theorem ret (a : α) : Agree ctx ctx (pure a) (pure a) :=
  fun _ _ hs => ⟨rfl, hs⟩

theorem bind {x x' : Check α} {f f' : α → Check β} (hx : Agree ctx ctx₁ x x')
    (hf : ∀ a, Agree ctx₁ ctx₂ (f a) (f' a)) : Agree ctx ctx₂ (x >>= f) (x' >>= f') := by
  intro s s' hs
  obtain ⟨hval, hmid⟩ := hx s s' hs
  have hrest := hf (x s).1 (x s).2 (x' s').2 hmid
  have hrun : (x' >>= f') s' = f' (x s).1 (x' s').2 := by
    rw [hval]
    rfl
  rw [hrun]
  exact hrest

theorem ite {c c' : Prop} [Decidable c] [Decidable c'] (hc : c ↔ c') {x x' y y' : Check α}
    (hx : Agree ctx ctx₁ x x') (hy : Agree ctx ctx₁ y y') :
    Agree ctx ctx₁ (if c then x else y) (if c' then x' else y') := by
  by_cases hcase : c
  · rw [if_pos hcase, if_pos (hc.mp hcase)]
    exact hx
  · rw [if_neg hcase, if_neg fun hcase' => hcase (hc.mpr hcase')]
    exact hy

theorem report {cause cause' : Cause} (hcode : cause.code = cause'.code) (position : Position) :
    Agree ctx ctx (Check.report cause position) (Check.report cause' position) := by
  intro s s' hs
  refine ⟨rfl, hs.currentClass, hs.scope, ?_⟩
  simp only [Check.report, List.map_append, List.map_singleton]
  rw [hs.log, Diagnostic.key, Diagnostic.key, hcode]

theorem declare (x y T : String) :
    Agree ctx ((x, y) :: ctx) (modifyScope (·.declare x T)) (modifyScope (·.declare y T)) :=
  fun _ _ hs => ⟨rfl, hs.currentClass, hs.scope.declare x y T, hs.log⟩

/-- What is declared in a frame of its own is forgotten with it. -/
theorem framed {enter enter' : Scope → Scope} (henter : ∀ Γ, (enter Γ).pop = Γ)
    (henter' : ∀ Γ, (enter' Γ).pop = Γ)
    (hpaired : ∀ Γ Γ' : Scope, Γ.Paired ctx Γ' → (enter Γ).Paired ctx₁ (enter' Γ'))
    {x x' : Check α} (hx : Agree ctx₁ ctx₂ x x') (hframe : ∀ s : Checker, s.Declares (x s).2)
    (hframe' : ∀ s : Checker, s.Declares (x' s).2) :
    Agree ctx ctx (do modifyScope enter; let a ← x; modifyScope .pop; return a)
      (do modifyScope enter'; let a ← x'; modifyScope .pop; return a) := by
  intro s s' hs
  obtain ⟨hval, hend⟩ := hx { s with scope := enter s.scope } { s' with scope := enter' s'.scope }
    ⟨hs.currentClass, hpaired _ _ hs.scope, hs.log⟩
  refine ⟨hval, hend.currentClass, ?_, hend.log⟩
  have hscope := (hframe { s with scope := enter s.scope }).outer.trans (henter s.scope)
  have hscope' := (hframe' { s' with scope := enter' s'.scope }).outer.trans (henter' s'.scope)
  show (x { s with scope := enter s.scope }).2.scope.pop.Paired ctx
    (x' { s' with scope := enter' s'.scope }).2.scope.pop
  rw [hscope, hscope']
  exact hs.scope

theorem forM {f f' : α → Check Unit} {R : α → α → Prop}
    (hf : ∀ a a', R a a' → Agree ctx ctx (f a) (f' a')) {as as' : List α}
    (has : Forall₂ R as as') : Agree ctx ctx (as.forM f) (as'.forM f') := by
  induction has with
  | nil => exact ret _
  | cons ha _ ih => exact (hf _ _ ha).bind fun _ => ih

/-! ## Requirements -/

theorem currentClass : Agree ctx ctx Check.currentClass Check.currentClass :=
  fun _ _ hs => ⟨hs.currentClass, hs⟩

theorem resolve (T : String) : Agree ctx ctx (Check.resolve T) (Check.resolve T) := by
  intro s s' hs
  refine ⟨?_, hs⟩
  show (if T = ClassName.selfType then s.currentClass else T) = _
  rw [hs.currentClass]
  rfl

theorem declaredType (T : String) (position : Position) :
    Agree ctx ctx (Check.declaredType h T position) (Check.declaredType h T position) :=
  ite Iff.rfl (resolve T) ((report (by rfl) _).bind fun _ => ret _)

theorem declaredClass (T context context' : String) (position : Position) :
    Agree ctx ctx (Check.declaredClass h T context position)
      (Check.declaredClass h T context' position) :=
  ite Iff.rfl ((report (by rfl) _).bind fun _ => ret _) (declaredType T position)

theorem requireConforms (received expected context context' : String) (position : Position) :
    Agree ctx ctx (Check.requireConforms h received expected context position)
      (Check.requireConforms h received expected context' position) :=
  ite Iff.rfl (ret _) (report (by rfl) _)

theorem requireExact (received expected context : String) (position : Position) :
    Agree ctx ctx (Check.requireExact received expected context position)
      (Check.requireExact received expected context position) :=
  ite Iff.rfl (ret _) (report (by rfl) _)

theorem requireBindable {a b : String} (hself : SelfAlike a b) (usage : String)
    (position : Position) : Agree ctx ctx (Check.requireBindable a usage position)
      (Check.requireBindable b usage position) :=
  ite hself (report (by rfl) _) (ret _)

/-! ## Names and calls -/

/-- Paired names are variables of the same type. If they are none, then they are the same. -/
theorem variableType? {f f' : Option String → Check α} {a b : String} (hab : ctx.Matches a b)
    (hsome : ∀ T, Agree ctx ctx (f (some T)) (f' (some T)))
    (hnone : a = b → Agree ctx ctx (f none) (f' none)) :
    Agree ctx ctx (Check.variableType? h a >>= f) (Check.variableType? h b >>= f') := by
  intro s s' hs
  show (f (Check.variableType? h a s).1 (Check.variableType? h a s).2).1 =
      (f' (Check.variableType? h b s').1 (Check.variableType? h b s').2).1 ∧
    (f (Check.variableType? h a s).1 (Check.variableType? h a s).2).2.Paired ctx
      (f' (Check.variableType? h b s').1 (Check.variableType? h b s').2).2
  unfold Check.variableType?
  rw [← hs.scope.typeOf? hab, ← hs.currentClass]
  cases hlocal : s.scope.typeOf? a with
  | some T => exact hsome T s s' hs
  | none =>
      obtain rfl := hs.scope.free hab hlocal
      cases h.findAttribute? s.currentClass a with
      | some found => exact hsome _ s s' hs
      | none => exact hnone rfl s s' hs

theorem name {a b : String} (hab : ctx.Matches a b) (position : Position) :
    Agree ctx ctx (Check.name h a position) (Check.name h b position) := by
  refine variableType? hab (fun T => ret T) ?_
  rintro rfl
  refine currentClass.bind fun C => ?_
  split
  · exact resolve _
  · exact (report (by rfl) _).bind fun _ => ret _

theorem assignment {a b : String} (hab : ctx.Matches a b) (hself : SelfAlike a b)
    (received : String) (position valuePosition : Position) :
    Agree ctx ctx (Check.assignment h a received position valuePosition)
      (Check.assignment h b received position valuePosition) :=
  variableType? hab (fun T => requireConforms received T _ _ valuePosition)
    fun _ => ite hself (ret _) (report (by rfl) _)

theorem lookupClass? (R : String) (q : Option String) (position : Position) :
    Agree ctx ctx (Check.lookupClass? h R q position) (Check.lookupClass? h R q position) := by
  cases q with
  | none => exact ret _
  | some T =>
      refine ite Iff.rfl ((report (by rfl) _).bind fun _ => ret _)
        (ite Iff.rfl ((report (by rfl) _).bind fun _ => ret _) ?_)
      exact (requireConforms _ _ _ _ _).bind fun _ => ret _

theorem argumentsConform (method : String) (formals : List Parameter) : ∀ index arguments,
    Agree ctx ctx (Check.argumentsConform h method index formals arguments)
      (Check.argumentsConform h method index formals arguments) := by
  induction formals with
  | nil => intro index arguments; exact ret _
  | cons formal formals ih =>
      intro index arguments
      cases arguments with
      | nil => exact ret _
      | cons argument arguments =>
          exact ite Iff.rfl ((report (by rfl) _).bind fun _ => ih _ _) (ih _ _)

theorem call (R lookupClass method : String) (arguments : List (String × Position))
    (position : Position) :
    Agree ctx ctx (Check.call h R lookupClass method arguments position)
      (Check.call h R lookupClass method arguments position) := by
  unfold Check.call
  split
  · exact (report (by rfl) _).bind fun _ => ret _
  · exact ite Iff.rfl ((argumentsConform _ _ _ _).bind fun _ => ret _)
      ((report (by rfl) _).bind fun _ => ret _)

/-! ## Operators and branches -/

theorem unary (op : UnaryOp) (received : String) (position : Position) :
    Agree ctx ctx (Check.unary op received position) (Check.unary op received position) := by
  cases op <;> exact (requireExact _ _ _ _).bind fun _ => ret _

theorem binary (op : BinaryOp) (left right : String) (leftPosition rightPosition : Position) :
    Agree ctx ctx (Check.binary op left right leftPosition rightPosition)
      (Check.binary op left right leftPosition rightPosition) :=
  ite Iff.rfl (ret _)
    ((requireExact _ _ _ _).bind fun _ => (requireExact _ _ _ _).bind fun _ => ret _)

theorem branchHead {x y : String} (hself : SelfAlike x y) (T : String) (body body' : Expr)
    (span : Span) (seen : List String) :
    Agree ctx ctx (Check.branchHead h ⟨x, T, body, span⟩ seen)
      (Check.branchHead h ⟨y, T, body', span⟩ seen) := by
  refine (requireBindable hself _ _).bind fun _ => (declaredClass _ _ _ _).bind fun D => ?_
  exact ite Iff.rfl ((report (by rfl) _).bind fun _ => ret _) (ret _)

theorem branch {x y : String} (hself : SelfAlike x y) (T : String) {body body' : Expr}
    (hbody : Agree ((x, y) :: ctx) ((x, y) :: ctx) (checkExpr h body) (checkExpr h body'))
    (span : Span) (seen : List String) :
    Agree ctx ctx (checkBranch h seen ⟨x, T, body, span⟩)
      (checkBranch h seen ⟨y, T, body', span⟩) := by
  refine (branchHead hself T body body' span seen).bind fun D => ?_
  exact framed (fun Γ => Γ.push.pop_declare x D) (fun Γ => Γ.push.pop_declare y D)
    (fun Γ Γ' hΓ => hΓ.push.declare x y D) hbody
    (fun s => ((finds_checkExpr h body).binds s).1) fun s => ((finds_checkExpr h body').binds s).1

end Agree

end Check

open Check

/-! ## Expressions -/

mutual

/-- **Bound names are no matter of types.** -/
theorem agree_checkExpr (h : Hierarchy) {ctx : Pairing} : (e : Expr) → {e' : Expr} →
    e.Alpha ctx e' → Agree ctx ctx (checkExpr h e) (checkExpr h e')
  | .int .., _, hα | .str .., _, hα | .bool .., _, hα | .primitive .., _, hα => by
      cases hα
      rw [checkExpr]
      exact .ret _
  | .self _, _, hα => by
      cases hα
      rw [checkExpr]
      exact .currentClass
  | .name a span, _, hα => by
      cases hα with
      | name hab =>
          rw [checkExpr, checkExpr]
          exact .name hab span.start
  | .assign a value span, _, hα => by
      cases hα with
      | assign hab hself hv =>
          rw [checkExpr, checkExpr, ← hv.span_eq]
          exact (Agree.requireBindable hself _ _).bind fun _ =>
            (agree_checkExpr h value hv).bind fun S =>
              (Agree.assignment hab hself S _ _).bind fun _ => .ret S
  | .dispatch r q method args span, _, hα => by
      cases hα with
      | dispatch hr _ _ hargs =>
          rw [checkExpr, checkExpr]
          refine (agree_checkReceiver h r hr).bind fun R =>
            (Agree.lookupClass? R q _).bind fun t =>
              (agree_checkArguments h args hargs).bind fun types => ?_
          cases t with
          | none => exact .ret _
          | some T => exact .call R T method types span.start
  | .new T span, _, hα => by
      cases hα
      rw [checkExpr]
      exact .declaredType T span.start
  | .cond c t f _, _, hα => by
      cases hα with
      | cond hc ht hf =>
          rw [checkExpr, checkExpr, ← hc.span_eq]
          exact (agree_checkExpr h c hc).bind fun B =>
            (Agree.requireExact B _ _ _).bind fun _ => (agree_checkExpr h t ht).bind fun T =>
              (agree_checkExpr h f hf).bind fun F => .ret _
  | .loop c body _, _, hα => by
      cases hα with
      | loop hc hbody =>
          rw [checkExpr, checkExpr, ← hc.span_eq]
          exact (agree_checkExpr h c hc).bind fun B =>
            (Agree.requireExact B _ _ _).bind fun _ =>
              (agree_checkExpr h body hbody).bind fun _ => .ret _
  | .block es _, _, hα => by
      cases hα with
      | block hes =>
          rw [checkExpr, checkExpr]
          exact agree_checkSequence h ClassName.object es hes
  | .letIn bs body _, _, hα => by
      cases hα with
      | @letIn _ ctx₁ _ bs' _ body' hbs hbody =>
          rw [checkExpr, checkExpr]
          have hframe := (binds_checkBindings h bs).bind fun _ => (finds_checkExpr h body).binds
          have hframe' := (binds_checkBindings h bs').bind fun _ =>
            (finds_checkExpr h body').binds
          exact Agree.framed Scope.pop_push Scope.pop_push (fun _ _ hΓ => hΓ.push)
            ((agree_checkBindings h bs hbs).bind fun _ => agree_checkExpr h body hbody)
            (fun s => (hframe s).1) fun s => (hframe' s).1
  | .caseOf scrutinee branches _, _, hα => by
      cases hα with
      | caseOf he hbs =>
          rw [checkExpr, checkExpr]
          exact (agree_checkExpr h scrutinee he).bind fun _ =>
            (agree_checkBranches h [] branches hbs).bind fun types => .ret _
  | .isVoid e _, _, hα => by
      cases hα with
      | isVoid he =>
          rw [checkExpr, checkExpr]
          exact (agree_checkExpr h e he).bind fun _ => .ret _
  | .unary op e _, _, hα => by
      cases hα with
      | unary _ he =>
          rw [checkExpr, checkExpr, ← he.span_eq]
          exact (agree_checkExpr h e he).bind fun T => .unary op T _
  | .binary op l r _, _, hα => by
      cases hα with
      | binary _ hl hr =>
          rw [checkExpr, checkExpr, ← hl.span_eq, ← hr.span_eq]
          exact (agree_checkExpr h l hl).bind fun L => (agree_checkExpr h r hr).bind fun R =>
            .binary op L R _ _
termination_by structural e => e

theorem agree_checkReceiver (h : Hierarchy) {ctx : Pairing} : (r : Option Expr) →
    {r' : Option Expr} → OptionAlpha ctx r r' →
    Agree ctx ctx (checkReceiver h r) (checkReceiver h r')
  | none, _, hα => by
      cases hα
      rw [checkReceiver]
      exact .currentClass
  | some e, _, hα => by
      cases hα with
      | some he =>
          rw [checkReceiver, checkReceiver]
          exact agree_checkExpr h e he
termination_by structural r => r

theorem agree_checkArguments (h : Hierarchy) {ctx : Pairing} : (es : List Expr) →
    {es' : List Expr} → ExprsAlpha ctx es es' →
    Agree ctx ctx (checkArguments h es) (checkArguments h es')
  | [], _, hα => by
      cases hα
      rw [checkArguments]
      exact .ret _
  | e :: es, _, hα => by
      cases hα with
      | cons he hes =>
          rw [checkArguments, checkArguments, ← he.span_eq]
          exact (agree_checkExpr h e he).bind fun T =>
            (agree_checkArguments h es hes).bind fun types => .ret _
termination_by structural es => es

theorem agree_checkSequence (h : Hierarchy) {ctx : Pairing} : (last : String) →
    (es : List Expr) → {es' : List Expr} → ExprsAlpha ctx es es' →
    Agree ctx ctx (checkSequence h last es) (checkSequence h last es')
  | last, [], _, hα => by
      cases hα
      rw [checkSequence]
      exact .ret last
  | _, e :: es, _, hα => by
      cases hα with
      | cons he hes =>
          rw [checkSequence, checkSequence]
          exact (agree_checkExpr h e he).bind fun T => agree_checkSequence h T es hes
termination_by structural _ es => es

/-- Each variable is paired in what comes after it. -/
theorem agree_checkBindings (h : Hierarchy) {ctx ctx₁ : Pairing} : (bs : List Binding) →
    {bs' : List Binding} → BindingsAlpha ctx bs bs' ctx₁ →
    Agree ctx ctx₁ (checkBindings h bs) (checkBindings h bs')
  | [], _, hα => by
      cases hα
      rw [checkBindings]
      exact .ret _
  | ⟨x, T, init, span⟩ :: bs, _, hα => by
      cases hα with
      | @cons _ _ _ y _ init' _ bs' hself _ hinit _ hbs =>
          rw [checkBindings, checkBindings]
          exact (Agree.requireBindable hself _ _).bind fun _ =>
            (Agree.declaredType T _).bind fun D =>
              (agree_checkInitializer h _ _ D init hinit).bind fun _ =>
                (Agree.declare x y D).bind fun _ => agree_checkBindings h bs hbs
termination_by structural bs => bs

theorem agree_checkInitializer (h : Hierarchy) {ctx : Pairing} :
    (context context' declared : String) → (init : Option Expr) → {init' : Option Expr} →
    OptionAlpha ctx init init' → Agree ctx ctx (checkInitializer h context declared init)
      (checkInitializer h context' declared init')
  | _, _, _, none, _, hα => by
      cases hα
      rw [checkInitializer, checkInitializer]
      exact .ret _
  | _, _, _, some e, _, hα => by
      cases hα with
      | some he =>
          rw [checkInitializer, checkInitializer, ← he.span_eq]
          exact (agree_checkExpr h e he).bind fun S => .requireConforms S _ _ _ _
termination_by structural _ _ _ init => init

theorem agree_checkBranches (h : Hierarchy) {ctx : Pairing} : (seen : List String) →
    (bs : List Branch) → {bs' : List Branch} → BranchesAlpha ctx bs bs' →
    Agree ctx ctx (checkBranches h seen bs) (checkBranches h seen bs')
  | _, [], _, hα => by
      cases hα
      rw [checkBranches]
      exact .ret _
  | seen, ⟨x, T, body, span⟩ :: bs, _, hα => by
      cases hα with
      | cons hself _ hbody _ hbs =>
          rw [checkBranches_cons, checkBranches_cons]
          exact (Agree.branch hself T (agree_checkExpr h body hbody) span seen).bind fun B =>
            (agree_checkBranches h (T :: seen) bs hbs).bind fun types => .ret (B :: types)
termination_by structural _ bs => bs

end

/-! ## Features -/

namespace Check.Agree

variable {h : Hierarchy} {ctx : Pairing} {c c' : ClassInfo}

/-- Outside all bindings a name is declared under itself. -/
theorem declareFormal (x T : String) :
    Agree [] [] (modifyScope (·.declare x T)) (modifyScope (·.declare x T)) := by
  intro s s' hs
  have hpaired := hs.scope.declare x x T
  refine ⟨rfl, hs.currentClass, ⟨fun hab => ?_, fun hab => ?_⟩, hs.log⟩
  · exact hpaired.typeOf? (Pairing.matches_singleton hab x)
  · exact hpaired.free (Pairing.matches_singleton hab x)

theorem checkAttribute (hname : c.name = c'.name) {a a' : Attribute} (ha : a.Alpha a') :
    Agree [] [] (CoolLang.checkAttribute h c a) (CoolLang.checkAttribute h c' a') := by
  unfold CoolLang.checkAttribute
  rw [← hname, ← ha.name, ← ha.typeName, ← ha.span]
  refine (requireBindable Iff.rfl _ _).bind fun _ => (declaredType _ _).bind fun D => ?_
  have hinit := agree_checkInitializer h s!"initializer of attribute {a.name}"
    s!"initializer of attribute {a.name}" D a.init ha.init
  cases (h.ancestors c.name).tail.find? fun ancestor => (ancestor.attribute? a.name).isSome with
  | some ancestor => exact (report (by rfl) _).bind fun _ => hinit
  | none => exact hinit

theorem checkFormals (position : Position) (formals : List Parameter) :
    Agree [] [] (formals.forM (checkFormal h position))
      (formals.forM (checkFormal h position)) := by
  refine forM (R := Eq) ?_ (List.forall₂_refl formals)
  rintro f _ rfl
  exact (requireBindable Iff.rfl _ _).bind fun _ => (declaredClass _ _ _ _).bind fun D =>
    declareFormal f.name D

theorem checkFormalsMatch (method ancestor : String) (position : Position)
    (overridden : List Parameter) : ∀ index formals,
      Agree ctx ctx (CoolLang.checkFormalsMatch method ancestor position index overridden formals)
        (CoolLang.checkFormalsMatch method ancestor position index overridden formals) := by
  induction overridden with
  | nil => intro index formals; exact ret _
  | cons expected overridden ih =>
      intro index formals
      cases formals with
      | nil => exact ret _
      | cons received formals =>
          exact ite Iff.rfl ((report (by rfl) _).bind fun _ => ih _ _) (ih _ _)

theorem checkOverride (m : Method) :
    Agree ctx ctx (CoolLang.checkOverride h c m) (CoolLang.checkOverride h c m) := by
  unfold CoolLang.checkOverride
  split
  · exact ret _
  · refine ite Iff.rfl (report (by rfl) _) ((checkFormalsMatch _ _ _ _ _ _).bind fun _ => ?_)
    exact ite Iff.rfl (report (by rfl) _) (ret _)

end Check.Agree

theorem Check.Agree.checkMethod {h : Hierarchy} {c c' : ClassInfo}
    (hparent : c.parent = c'.parent) {m m' : Method} (hm : m.Alpha m') :
    Agree [] [] (CoolLang.checkMethod h c m) (CoolLang.checkMethod h c' m') := by
  have hoverride : CoolLang.checkOverride h c m = CoolLang.checkOverride h c' m' := by
    unfold CoolLang.checkOverride Method.arity
    rw [hparent, hm.name, hm.formals, hm.returnType, hm.span]
  have hinside : Agree [] [] (checkSignatureAndBody h c m) (checkSignatureAndBody h c' m') := by
    unfold checkSignatureAndBody
    rw [hoverride, hm.formals, hm.returnType, hm.span]
    exact (checkFormals m'.span.start m'.formals).bind fun _ =>
      (declaredType m'.returnType m'.span.start).bind fun declared =>
        (checkOverride m').bind fun _ =>
          (agree_checkExpr h m.body hm.body).bind fun received => ret _
  rw [checkMethod_eq, checkMethod_eq, hm.body.span_eq]
  exact (framed Scope.pop_push Scope.pop_push (fun _ _ hΓ => hΓ.push) hinside
    (declares_checkSignatureAndBody h c m) (declares_checkSignatureAndBody h c' m')).bind
      fun types => requireConforms _ _ _ _ _

/-! ## Classes -/

/-- Sorting keeps pairs together whose members are in the same order. -/
theorem forall₂_mergeSort {α : Type} {R : α → α → Prop} {le : α → α → Bool}
    (hle : ∀ a a' b b', R a a' → R b b' → le a b = le a' b') {as as' : List α}
    (h : Forall₂ R as as') : Forall₂ R (as.mergeSort le) (as'.mergeSort le) := by
  obtain ⟨hlength, hzip⟩ := List.forall₂_iff_zip.mp h
  have hfst := List.map_fst_zip (Nat.le_of_eq hlength)
  have hsnd := List.map_snd_zip (Nat.le_of_eq hlength.symm)
  have hsort : ((as.zip as').mergeSort fun p q => le p.1 q.1).map Prod.fst = as.mergeSort le := by
    rw [List.map_mergeSort (s := le) fun _ _ _ _ => rfl, hfst]
  have hsort' : ((as.zip as').mergeSort fun p q => le p.1 q.1).map Prod.snd =
      as'.mergeSort le := by
    rw [List.map_mergeSort (s := le) fun p hp q hq => hle _ _ _ _ (hzip hp) (hzip hq), hsnd]
  rw [← hsort, ← hsort', List.forall₂_map_left_iff, List.forall₂_map_right_iff,
    List.forall₂_same]
  exact fun p hp => hzip (List.mem_mergeSort.mp hp)

theorem ClassInfo.Alpha.methodsInOrder {c c' : ClassInfo} (hc : c.Alpha c') :
    Forall₂ Method.Alpha c.methodsInOrder c'.methodsInOrder := by
  refine forall₂_mergeSort (fun a a' b b' ha hb => ?_) hc.methods
  rw [declaredBefore, declaredBefore, ha.name, ha.span, hb.name, hb.span]

namespace Hierarchy

variable {h h' : Hierarchy} {c c' : ClassInfo}

theorem map_key_reports (h : Hierarchy) (hc : c.Alpha c') :
    (h.reports c).map (·.key) = (h.reports c').map (·.key) := by
  have hfeatures : Check.Agree [] []
      (do
        c.attributes.forM (checkAttribute h c)
        c.methodsInOrder.forM (checkMethod h c))
      (do
        c'.attributes.forM (checkAttribute h c')
        c'.methodsInOrder.forM (checkMethod h c')) :=
    (Check.Agree.forM (fun _ _ ha => Check.Agree.checkAttribute hc.name ha) hc.attributes).bind
      fun _ => Check.Agree.forM (fun _ _ hm => Check.Agree.checkMethod hc.parent hm)
        hc.methodsInOrder
  have hstart : Checker.Paired [] { Checker.initial with currentClass := c.name }
      { Checker.initial with currentClass := c'.name } :=
    ⟨hc.name, Scope.paired_refl _, rfl⟩
  have hend := (hfeatures _ _ hstart).2.log
  rwa [← checkClass_apply, ← checkClass_apply] at hend

theorem map_key_flatMap_reports (h : Hierarchy) {cs cs' : List ClassInfo}
    (hcs : Forall₂ ClassInfo.Alpha cs cs') :
    (cs.flatMap h.reports).map (·.key) = (cs'.flatMap h.reports).map (·.key) := by
  induction hcs with
  | nil => rfl
  | cons hc _ ih =>
      rw [List.flatMap_cons, List.flatMap_cons, List.map_append, List.map_append,
        h.map_key_reports hc, ih]

/-- **Bound names are no matter of the type check**, apart from the wording of what it reports. -/
theorem Alpha.map_key_typeCheck (hh : h.Alpha h') :
    h.typeCheck.map (·.key) = h'.typeCheck.map (·.key) := by
  have hreports : h'.reports = h.reports := by
    funext c
    rw [reports, reports, hh.sameOutline.checkClass]
  have huser : Forall₂ ClassInfo.Alpha h.userClasses h'.userClasses :=
    List.rel_filter (fun _ _ hc => by simp only [hc.name]) hh
  rw [typeCheck_eq, typeCheck_eq, hreports]
  exact h.map_key_flatMap_reports huser

end Hierarchy

end CoolLang
