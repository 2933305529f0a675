import CoolLang.Proofs.Typing.Checker

/-!
# What a check depends on

A check looks at the class that it is in and at the types of the names in scope. How the scope is
divided into frames and what has been reported before make no difference to what it finds and to
what it reports.
-/

namespace CoolLang

/-- The same class, and the same type for every name. -/
structure Checker.Alike (s s' : Checker) : Prop where
  currentClass : s.currentClass = s'.currentClass
  typeOf? : ∀ x, s.scope.typeOf? x = s'.scope.typeOf? x

theorem Checker.Logs.alike {s s' : Checker} (h : s.Logs s') : s.Alike s' :=
  ⟨h.currentClass.symm, fun x => by rw [h.scope]⟩

/-- What a declaration adds to scopes does not depend on their frames. -/
theorem Scope.typeOf?_declare_congr (Γ Γ' : Scope) (hΓ : ∀ x, Γ.typeOf? x = Γ'.typeOf? x)
    (name typeName x : String) :
    (Γ.declare name typeName).typeOf? x = (Γ'.declare name typeName).typeOf? x := by
  by_cases hx : x = name
  · subst hx
    rw [typeOf?_declare_self, typeOf?_declare_self]
  · rw [typeOf?_declare_of_ne Γ typeName hx, typeOf?_declare_of_ne Γ' typeName hx, hΓ x]

/-- The type of the body of a branch, given the types named by the branches before it. -/
def checkBranch (h : Hierarchy) (seen : List String) (b : Branch) : Check String := do
  let declared ← Check.branchHead h b seen
  Check.modifyScope (·.push.declare b.name declared)
  let bodyType ← checkExpr h b.body
  Check.modifyScope .pop
  return bodyType

theorem checkBranches_cons (h : Hierarchy) (seen : List String) (b : Branch) (bs : List Branch) :
    checkBranches h seen (b :: bs) = do
      let bodyType ← checkBranch h seen b
      let rest ← checkBranches h (b.typeName :: seen) bs
      return bodyType :: rest := by
  obtain ⟨x, T, body, span⟩ := b
  rw [checkBranches]
  rfl

namespace Check

variable {α β : Type} {h : Hierarchy}

/-- From states that are alike the check gives one answer and makes the same reports, and it ends in
states that are alike. -/
def Uniform (x : Check α) : Prop :=
  ∀ s s' : Checker, s.Alike s' → (x s).1 = (x s').1 ∧ (x s).2.Alike (x s').2 ∧
    ∃ reports, (x s).2.log = s.log ++ reports ∧ (x s').2.log = s'.log ++ reports

namespace Uniform

/-- A check that leaves the state as it is. -/
theorem of_value {f : Checker → α} (hf : ∀ s s' : Checker, s.Alike s' → f s = f s') :
    Uniform (fun s => (f s, s) : Check α) := by
  intro s s' hs
  exact ⟨hf s s' hs, hs, [], (List.append_nil _).symm, (List.append_nil _).symm⟩

theorem ret (a : α) : Uniform (pure a : Check α) :=
  of_value fun _ _ _ => rfl

theorem bind {x : Check α} {f : α → Check β} (hx : Uniform x) (hf : ∀ a, Uniform (f a)) :
    Uniform (x >>= f) := by
  intro s s' hs
  obtain ⟨hval, hmid, first, hfirst, hfirst'⟩ := hx s s' hs
  obtain ⟨hval', hend, second, hsecond, hsecond'⟩ := hf (x s).1 (x s).2 (x s').2 hmid
  have hrun : (x >>= f) s = f (x s).1 (x s).2 := rfl
  have hrun' : (x >>= f) s' = f (x s).1 (x s').2 := by
    rw [hval]
    rfl
  rw [hrun, hrun']
  refine ⟨hval', hend, first ++ second, ?_, ?_⟩
  · rw [hsecond, hfirst, List.append_assoc]
  · rw [hsecond', hfirst', List.append_assoc]

theorem ite {c : Prop} [Decidable c] {x y : Check α} (hx : Uniform x) (hy : Uniform y) :
    Uniform (if c then x else y) := by
  split
  · exact hx
  · exact hy

theorem report (cause : Cause) (position : Position) : Uniform (Check.report cause position) := by
  intro s s' hs
  exact ⟨rfl, ⟨hs.currentClass, hs.typeOf?⟩, [⟨cause, position⟩], rfl, rfl⟩

theorem declare (name typeName : String) :
    Uniform (modifyScope (·.declare name typeName)) := by
  intro s s' hs
  refine ⟨rfl, ⟨hs.currentClass, ?_⟩, [], (List.append_nil _).symm, (List.append_nil _).symm⟩
  exact Scope.typeOf?_declare_congr _ _ hs.typeOf? name typeName

/-- A frame of its own makes no difference to what is outside it. -/
theorem framed {enter : Scope → Scope} (henter : ∀ Γ, (enter Γ).pop = Γ)
    (hsame : ∀ Γ Γ' : Scope, (∀ x, Γ.typeOf? x = Γ'.typeOf? x) →
      ∀ x, (enter Γ).typeOf? x = (enter Γ').typeOf? x)
    {x : Check α} (hx : Uniform x) (hframe : ∀ s : Checker, s.Declares (x s).2) :
    Uniform (do modifyScope enter; let a ← x; modifyScope .pop; return a) := by
  intro s s' hs
  obtain ⟨hval, hend, reports, hlog, hlog'⟩ := hx { s with scope := enter s.scope }
    { s' with scope := enter s'.scope } ⟨hs.currentClass, hsame _ _ hs.typeOf?⟩
  refine ⟨hval, ⟨hend.currentClass, ?_⟩, reports, hlog, hlog'⟩
  intro y
  have hscope := (hframe { s with scope := enter s.scope }).outer.trans (henter s.scope)
  have hscope' := (hframe { s' with scope := enter s'.scope }).outer.trans (henter s'.scope)
  refine (congrArg (·.typeOf? y) hscope).trans ?_
  exact (hs.typeOf? y).trans (congrArg (·.typeOf? y) hscope').symm

/-! ## Requirements -/

theorem currentClass : Uniform Check.currentClass :=
  of_value fun _ _ hs => hs.currentClass

theorem resolve (typeName : String) : Uniform (Check.resolve typeName) :=
  of_value fun _ _ hs => by rw [hs.currentClass]

theorem declaredType (typeName : String) (position : Position) :
    Uniform (Check.declaredType h typeName position) :=
  ite (resolve typeName) ((report _ _).bind fun _ => ret _)

theorem declaredClass (typeName context : String) (position : Position) :
    Uniform (Check.declaredClass h typeName context position) :=
  ite ((report _ _).bind fun _ => ret _) (declaredType typeName position)

theorem requireConforms (received expected context : String) (position : Position) :
    Uniform (Check.requireConforms h received expected context position) :=
  ite (ret _) (report _ _)

theorem requireExact (received expected context : String) (position : Position) :
    Uniform (Check.requireExact received expected context position) :=
  ite (ret _) (report _ _)

theorem requireBindable (name usage : String) (position : Position) :
    Uniform (Check.requireBindable name usage position) :=
  ite (report _ _) (ret _)

/-! ## Names and calls -/

theorem variableType? (x : String) : Uniform (Check.variableType? h x) := by
  intro s s' hs
  unfold Check.variableType?
  rw [← hs.typeOf? x, ← hs.currentClass]
  cases s.scope.typeOf? x with
  | some T => exact ret (some T) s s' hs
  | none =>
      cases h.findAttribute? s.currentClass x with
      | some found => exact ret _ s s' hs
      | none => exact ret none s s' hs

theorem name (x : String) (position : Position) : Uniform (Check.name h x position) := by
  refine (variableType? x).bind fun t => ?_
  cases t with
  | some T => exact ret T
  | none =>
      refine currentClass.bind fun C => ?_
      split
      · exact resolve _
      · exact (report _ _).bind fun _ => ret _

theorem assignment (x received : String) (position valuePosition : Position) :
    Uniform (Check.assignment h x received position valuePosition) := by
  refine (variableType? x).bind fun t => ?_
  cases t with
  | some T => exact requireConforms _ _ _ _
  | none => exact ite (ret _) (report _ _)

theorem lookupClass? (R : String) (q : Option String) (position : Position) :
    Uniform (Check.lookupClass? h R q position) := by
  cases q with
  | none => exact ret _
  | some T =>
      refine ite ((report _ _).bind fun _ => ret _) (ite ((report _ _).bind fun _ => ret _) ?_)
      exact (requireConforms _ _ _ _).bind fun _ => ret _

theorem argumentsConform (method : String) (formals : List Parameter) :
    ∀ index arguments, Uniform (Check.argumentsConform h method index formals arguments) := by
  induction formals with
  | nil => intro index arguments; exact ret _
  | cons formal formals ih =>
      intro index arguments
      cases arguments with
      | nil => exact ret _
      | cons argument arguments =>
          exact ite ((report _ _).bind fun _ => ih _ _) (ih _ _)

theorem call (R lookupClass method : String) (arguments : List (String × Position))
    (position : Position) :
    Uniform (Check.call h R lookupClass method arguments position) := by
  unfold Check.call
  split
  · exact (report _ _).bind fun _ => ret _
  · exact ite ((argumentsConform _ _ _ _).bind fun _ => ret _) ((report _ _).bind fun _ => ret _)

/-! ## Operators and branches -/

theorem unary (op : UnaryOp) (received : String) (position : Position) :
    Uniform (Check.unary op received position) := by
  cases op <;> exact (requireExact _ _ _ _).bind fun _ => ret _

theorem binary (op : BinaryOp) (left right : String) (leftPosition rightPosition : Position) :
    Uniform (Check.binary op left right leftPosition rightPosition) :=
  ite (ret _) ((requireExact _ _ _ _).bind fun _ => (requireExact _ _ _ _).bind fun _ => ret _)

theorem branchHead (b : Branch) (seen : List String) : Uniform (Check.branchHead h b seen) := by
  refine (requireBindable _ _ _).bind fun _ => (declaredClass _ _ _).bind fun T => ?_
  exact ite ((report _ _).bind fun _ => ret _) (ret _)

theorem branch {b : Branch} (seen : List String) (hbody : Uniform (checkExpr h b.body)) :
    Uniform (checkBranch h seen b) := by
  refine (branchHead b seen).bind fun declared => ?_
  exact framed (fun Γ => Γ.push.pop_declare b.name declared)
    (fun Γ Γ' hΓ => Scope.typeOf?_declare_congr Γ.push Γ'.push hΓ b.name declared)
    hbody fun s => ((finds_checkExpr h b.body).binds s).1

end Uniform

end Check

open Check

/-! ## Expressions -/

mutual

/-- **A check is a query of the class and the names in scope.** -/
theorem uniform_checkExpr (h : Hierarchy) : (e : Expr) → Uniform (checkExpr h e)
  | .int .. | .str .. | .bool .. | .primitive .. => by
      rw [checkExpr]
      exact .ret _
  | .self _ => by
      rw [checkExpr]
      exact .currentClass
  | .name x span => by
      rw [checkExpr]
      exact .name x span.start
  | .assign x value span => by
      rw [checkExpr]
      exact (Uniform.requireBindable _ _ _).bind fun _ => (uniform_checkExpr h value).bind fun S =>
        (Uniform.assignment x S _ _).bind fun _ => .ret S
  | .dispatch r q method args span => by
      rw [checkExpr]
      refine (uniform_checkReceiver h r).bind fun R => (Uniform.lookupClass? R q _).bind fun t =>
        (uniform_checkArguments h args).bind fun types => ?_
      cases t with
      | none => exact .ret _
      | some T => exact .call R T method types span.start
  | .new typeName span => by
      rw [checkExpr]
      exact .declaredType typeName span.start
  | .cond c t f _ => by
      rw [checkExpr]
      exact (uniform_checkExpr h c).bind fun B => (Uniform.requireExact B _ _ _).bind fun _ =>
        (uniform_checkExpr h t).bind fun T => (uniform_checkExpr h f).bind fun F => .ret _
  | .loop c body _ => by
      rw [checkExpr]
      exact (uniform_checkExpr h c).bind fun B => (Uniform.requireExact B _ _ _).bind fun _ =>
        (uniform_checkExpr h body).bind fun _ => .ret _
  | .block body _ => by
      rw [checkExpr]
      exact uniform_checkSequence h ClassName.object body
  | .letIn bs body _ => by
      rw [checkExpr]
      have hframe := (binds_checkBindings h bs).bind fun _ => (finds_checkExpr h body).binds
      exact Uniform.framed Scope.pop_push (fun _ _ hΓ x => hΓ x)
        ((uniform_checkBindings h bs).bind fun _ => uniform_checkExpr h body)
        fun s => (hframe s).1
  | .caseOf scrutinee branches _ => by
      rw [checkExpr]
      exact (uniform_checkExpr h scrutinee).bind fun _ =>
        (uniform_checkBranches h [] branches).bind fun types => .ret _
  | .isVoid e _ => by
      rw [checkExpr]
      exact (uniform_checkExpr h e).bind fun _ => .ret _
  | .unary op e _ => by
      rw [checkExpr]
      exact (uniform_checkExpr h e).bind fun T => .unary op T _
  | .binary op l r _ => by
      rw [checkExpr]
      exact (uniform_checkExpr h l).bind fun L => (uniform_checkExpr h r).bind fun R =>
        .binary op L R _ _

theorem uniform_checkReceiver (h : Hierarchy) : (r : Option Expr) → Uniform (checkReceiver h r)
  | none => by
      rw [checkReceiver]
      exact .currentClass
  | some e => by
      rw [checkReceiver]
      exact uniform_checkExpr h e

theorem uniform_checkArguments (h : Hierarchy) : (es : List Expr) → Uniform (checkArguments h es)
  | [] => by
      rw [checkArguments]
      exact .ret _
  | e :: es => by
      rw [checkArguments]
      exact (uniform_checkExpr h e).bind fun T => (uniform_checkArguments h es).bind fun types =>
        .ret _

theorem uniform_checkSequence (h : Hierarchy) : (last : String) → (es : List Expr) →
    Uniform (checkSequence h last es)
  | last, [] => by
      rw [checkSequence]
      exact .ret last
  | _, e :: es => by
      rw [checkSequence]
      exact (uniform_checkExpr h e).bind fun T => uniform_checkSequence h T es

theorem uniform_checkBindings (h : Hierarchy) : (bs : List Binding) → Uniform (checkBindings h bs)
  | [] => by
      rw [checkBindings]
      exact .ret _
  | ⟨x, T, init, span⟩ :: bs => by
      rw [checkBindings]
      exact (Uniform.requireBindable _ _ _).bind fun _ => (Uniform.declaredType T _).bind fun D =>
        (uniform_checkInitializer h _ D init).bind fun _ => (Uniform.declare x D).bind fun _ =>
          uniform_checkBindings h bs

theorem uniform_checkInitializer (h : Hierarchy) : (context declared : String) →
    (init : Option Expr) → Uniform (checkInitializer h context declared init)
  | _, _, none => by
      rw [checkInitializer]
      exact .ret _
  | _, _, some e => by
      rw [checkInitializer]
      exact (uniform_checkExpr h e).bind fun S => .requireConforms S _ _ _

theorem uniform_checkBranches (h : Hierarchy) : (seen : List String) → (bs : List Branch) →
    Uniform (checkBranches h seen bs)
  | _, [] => by
      rw [checkBranches]
      exact .ret _
  | seen, ⟨x, T, body, span⟩ :: bs => by
      rw [checkBranches_cons]
      exact (Uniform.branch seen (uniform_checkExpr h body)).bind fun B =>
        (uniform_checkBranches h (T :: seen) bs).bind fun types => .ret (B :: types)

end

/-- **A check is a query with a log.** From whatever state an expression is checked, the class and
the frames of the scope are afterwards what they were, and the reports stand behind those made
before. The answer and the reports depend on nothing but the class and the type of each name: states
that agree on these get the same, however many frames they have and whatever has been reported. -/
theorem checkExpr_is_query (h : Hierarchy) (e : Expr) :
    (∀ s : Checker, ∃ reports, (checkExpr h e s).2 = { s with log := s.log ++ reports }) ∧
    ∀ s s' : Checker, s.currentClass = s'.currentClass →
      (∀ x, s.scope.typeOf? x = s'.scope.typeOf? x) →
      (checkExpr h e s).1 = (checkExpr h e s').1 ∧
        ∃ reports, (checkExpr h e s).2 = { s with log := s.log ++ reports } ∧
          (checkExpr h e s').2 = { s' with log := s'.log ++ reports } := by
  have hstate : ∀ (s : Checker) (reports : List Diagnostic),
      (checkExpr h e s).2.log = s.log ++ reports →
        (checkExpr h e s).2 = { s with log := s.log ++ reports } := by
    intro s reports hlog
    obtain ⟨hclass, hscope, -⟩ := (finds_checkExpr h e s).1
    rw [← hclass, ← hscope, ← hlog]
  constructor
  · intro s
    obtain ⟨reports, hlog⟩ := (finds_checkExpr h e s).1.log
    exact ⟨reports, hstate s reports hlog.symm⟩
  · intro s s' hclass hscope
    obtain ⟨hanswer, -, reports, hlog, hlog'⟩ := uniform_checkExpr h e s s' ⟨hclass, hscope⟩
    exact ⟨hanswer, reports, hstate s reports hlog, hstate s' reports hlog'⟩

/-- Variables that hide names of the scope and each other, with something to report about each. -/
def shadowing : Expr :=
  .letIn [⟨"x", "Nothing", some (.name "y" .nowhere), .nowhere⟩,
      ⟨"y", ClassName.int, some (.name "x" .nowhere), .nowhere⟩]
    (.caseOf (.name "z" .nowhere) [⟨"x", ClassName.bool,
      .binary .plus (.name "x" .nowhere) (.name "y" .nowhere) .nowhere, .nowhere⟩] .nowhere)
    .nowhere

/-- A scope of one frame, and one of three in which an outer name is hidden and a frame is empty.
The second check comes after another report. -/
theorem checkExpr_is_query_shadowing :
    ∃ s s' : Checker, s.scope ≠ s'.scope ∧ s.log ≠ s'.log ∧ s.currentClass = s'.currentClass ∧
      (∀ x, s.scope.typeOf? x = s'.scope.typeOf? x) ∧
      (checkExpr .initial shadowing s).1 = ClassName.int ∧
      (checkExpr .initial shadowing s').1 = ClassName.int ∧
      ∃ reports, reports.length = 4 ∧
        (checkExpr .initial shadowing s).2 = { s with log := s.log ++ reports } ∧
        (checkExpr .initial shadowing s').2 = { s' with log := s'.log ++ reports } := by
  let s : Checker := ⟨ClassName.object, ⟨[[("y", "Bool")]]⟩, []⟩
  let s' : Checker := ⟨ClassName.object, ⟨[[], [("y", "Bool")], [("y", "Int")]]⟩,
    [⟨.missingMainClass, .nowhere⟩]⟩
  have hscope : ∀ x, s.scope.typeOf? x = s'.scope.typeOf? x := by
    intro x
    cases hx : x == "y" <;> simp [s, s', Scope.typeOf?, List.findSome?_cons, List.lookup_cons, hx]
  have hanswer : (checkExpr .initial shadowing s).1 = ClassName.int := by decide +kernel
  have hlength : (checkExpr .initial shadowing s).2.log.length = 4 := by decide +kernel
  obtain ⟨hsame, reports, hstate, hstate'⟩ :=
    (checkExpr_is_query .initial shadowing).2 s s' rfl hscope
  refine ⟨s, s', by decide, by decide, rfl, hscope, hanswer, hsame ▸ hanswer, reports, ?_, hstate,
    hstate'⟩
  rw [hstate] at hlength
  exact hlength

end CoolLang
