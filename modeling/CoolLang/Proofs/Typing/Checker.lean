import CoolLang.Proofs.Expr.Traversal
import CoolLang.Proofs.Typing.Judgement
import CoolLang.Typing.Class

/-!
# The checker and the rules of typing

A check of an expression is a query: it leaves the current class and the scope as they were and only
adds to the log. If it adds nothing, then the type that it found is one by the rules.

Both are shown at once, since a sequence of checks adds nothing to the log only if none of them
does.
-/

namespace CoolLang

/-- Nothing but the log has changed, and it has only grown. -/
structure Checker.Logs (s s' : Checker) : Prop where
  currentClass : s'.currentClass = s.currentClass
  scope : s'.scope = s.scope
  log : s.log <+: s'.log

/-- The log has grown, and names may have been declared in the innermost frame. -/
structure Checker.Declares (s s' : Checker) : Prop where
  currentClass : s'.currentClass = s.currentClass
  outer : s'.scope.pop = s.scope.pop
  log : s.log <+: s'.log

namespace Checker

variable {s₁ s₂ s₃ : Checker}

theorem Logs.refl (s : Checker) : s.Logs s := ⟨rfl, rfl, List.prefix_refl _⟩

theorem Logs.trans (h₁ : s₁.Logs s₂) (h₂ : s₂.Logs s₃) : s₁.Logs s₃ :=
  ⟨h₂.currentClass.trans h₁.currentClass, h₂.scope.trans h₁.scope, h₁.log.trans h₂.log⟩

theorem Logs.eq_of_log_eq (h : s₁.Logs s₂) (hlog : s₂.log = s₁.log) : s₂ = s₁ := by
  obtain ⟨c₁, Γ₁, l₁⟩ := s₁
  obtain ⟨c₂, Γ₂, l₂⟩ := s₂
  obtain ⟨rfl, rfl, -⟩ := h
  cases hlog
  rfl

theorem Logs.declares (h : s₁.Logs s₂) : s₁.Declares s₂ :=
  ⟨h.currentClass, by rw [h.scope], h.log⟩

theorem Declares.trans (h₁ : s₁.Declares s₂) (h₂ : s₂.Declares s₃) : s₁.Declares s₃ :=
  ⟨h₂.currentClass.trans h₁.currentClass, h₂.outer.trans h₁.outer, h₁.log.trans h₂.log⟩

end Checker

/-- A log that came back to what it was stood still in between. -/
theorem log_eq_of_prefix {l₁ l₂ l₃ : List Diagnostic} (h₁₂ : l₁ <+: l₂) (h₂₃ : l₂ <+: l₃)
    (h : l₃ = l₁) : l₂ = l₁ := by
  subst h
  exact (h₁₂.eq_of_length (Nat.le_antisymm h₁₂.length_le h₂₃.length_le)).symm

theorem Scope.pop_declare (Γ : Scope) (name typeName : String) :
    (Γ.declare name typeName).pop = Γ.pop := by
  obtain ⟨frames⟩ := Γ
  cases frames <;> rfl

namespace Check

variable {α β : Type}

/-- The check is a query, and if it has nothing to report then what it finds is as described. -/
def Finds (x : Check α) (P : Checker → α → Prop) : Prop :=
  ∀ s : Checker, s.Logs (x s).2 ∧ ((x s).2.log = s.log → P s (x s).1)

/-- The check may declare names in the innermost frame, and if it has nothing to report then its
outcome is as described. -/
def Binds (x : Check α) (P : Checker → α → Checker → Prop) : Prop :=
  ∀ s : Checker, s.Declares (x s).2 ∧ ((x s).2.log = s.log → P s (x s).1 (x s).2)

namespace Finds

theorem ret {a : α} {P : Checker → α → Prop} (h : ∀ s, P s a) : Finds (pure a) P :=
  fun s => ⟨.refl s, fun _ => h s⟩

theorem bind {x : Check α} {f : α → Check β} {P : Checker → α → Prop} {Q : Checker → β → Prop}
    (hx : Finds x P) (hf : ∀ a, Finds (f a) fun s b => P s a → Q s b) : Finds (x >>= f) Q := by
  intro s
  obtain ⟨hlogs, hP⟩ := hx s
  obtain ⟨hlogs', hQ⟩ := hf (x s).1 (x s).2
  refine ⟨hlogs.trans hlogs', fun hlog => ?_⟩
  -- a silent first part leaves the state as it was
  have hstill : (x s).2.log = s.log := log_eq_of_prefix hlogs.log hlogs'.log hlog
  have hstate : (x s).2 = s := hlogs.eq_of_log_eq hstill
  have hfinal := hQ (hlog.trans hstill.symm)
  rw [hstate] at hfinal
  show Q s (f (x s).1 (x s).2).1
  rw [hstate]
  exact hfinal (hP hstill)

theorem mono {x : Check α} {P Q : Checker → α → Prop} (hx : Finds x P)
    (h : ∀ s a, P s a → Q s a) : Finds x Q :=
  fun s => ⟨(hx s).1, fun hlog => h s _ ((hx s).2 hlog)⟩

theorem ite {c : Prop} [Decidable c] {x y : Check α} {P : Checker → α → Prop}
    (hx : c → Finds x P) (hy : ¬c → Finds y P) : Finds (if c then x else y) P := by
  split
  · exact hx ‹c›
  · exact hy ‹¬c›

/-- A report is something to report. -/
theorem report {cause : Cause} {position : Position} {P : Checker → Unit → Prop} :
    Finds (Check.report cause position) P := by
  intro s
  refine ⟨⟨rfl, rfl, List.prefix_append _ _⟩, fun hlog => ?_⟩
  simp [Check.report] at hlog

theorem reported {cause : Cause} {position : Position} {x : Check α} {P : Checker → α → Prop}
    (hx : Finds x fun _ _ => True) : Finds (Check.report cause position >>= fun _ => x) P :=
  bind (P := fun _ _ => False) report fun _ => hx.mono fun _ _ _ hfalse => hfalse.elim

/-! ## Requirements -/

theorem currentClass : Finds Check.currentClass fun s C => C = s.currentClass :=
  fun s => ⟨.refl s, fun _ => rfl⟩

theorem resolve (typeName : String) :
    Finds (Check.resolve typeName) fun s T => T = ClassName.resolve s.currentClass typeName :=
  fun s => ⟨.refl s, fun _ => rfl⟩

theorem declaredType (h : Hierarchy) (typeName : String) (position : Position) :
    Finds (Check.declaredType h typeName position) fun s T =>
      h.Declarable typeName ∧ T = ClassName.resolve s.currentClass typeName := by
  refine ite (fun hT => ?_) fun _ => reported (ret fun _ => trivial)
  have hdeclarable : h.Declarable typeName := by simpa [Hierarchy.Declarable] using hT
  exact (resolve typeName).mono fun s T hresolve => ⟨hdeclarable, hresolve⟩

theorem declaredClass (h : Hierarchy) (typeName context : String) (position : Position) :
    Finds (Check.declaredClass h typeName context position) fun _ T =>
      h.contains typeName = true ∧ T = typeName := by
  refine ite (fun _ => reported (ret fun _ => trivial)) fun hself => ?_
  refine (declaredType h typeName position).mono ?_
  rintro s T ⟨hdeclarable, rfl⟩
  exact ⟨hdeclarable.resolve_left hself, if_neg hself⟩

theorem requireConforms (h : Hierarchy) (received expected context : String)
    (position : Position) :
    Finds (Check.requireConforms h received expected context position) fun _ _ =>
      h.conforms received expected = true :=
  ite (fun hconforms => ret fun _ => hconforms) fun _ => report

theorem requireExact (received expected context : String) (position : Position) :
    Finds (Check.requireExact received expected context position) fun _ _ =>
      received = expected :=
  ite (fun heq => ret fun _ => heq) fun _ => report

theorem requireBindable (name usage : String) (position : Position) :
    Finds (Check.requireBindable name usage position) fun _ _ => name ≠ "self" :=
  ite (fun _ => report) fun hne => ret fun _ => hne

/-! ## Names -/

/-- A name that has a type is a local name or an attribute. -/
theorem variableType? (h : Hierarchy) (x : String) :
    Finds (Check.variableType? h x) fun s t =>
      (∃ T, t = some T ∧ s.scope.typeOf? x = some T) ∨
      (∃ owner a, t = some (ClassName.resolve s.currentClass a.typeName) ∧
        s.scope.typeOf? x = none ∧ h.findAttribute? s.currentClass x = some (owner, a)) ∨
      (t = none ∧ s.scope.typeOf? x = none ∧ h.findAttribute? s.currentClass x = none) := by
  intro s
  unfold Check.variableType?
  cases hlocal : s.scope.typeOf? x with
  | some T => exact ⟨.refl s, fun _ => Or.inl ⟨T, rfl, hlocal⟩⟩
  | none =>
      cases hattr : h.findAttribute? s.currentClass x with
      | some found =>
          obtain ⟨owner, a⟩ := found
          exact ⟨.refl s, fun _ => Or.inr (Or.inl ⟨owner, a, rfl, hlocal, hattr⟩)⟩
      | none => exact ⟨.refl s, fun _ => Or.inr (Or.inr ⟨rfl, hlocal, hattr⟩)⟩

theorem name (h : Hierarchy) (x : String) (span : Span) :
    Finds (Check.name h x span.start) fun s T =>
      HasType h s.currentClass s.scope (.name x span) T := by
  refine bind (variableType? h x) fun t => ?_
  cases t with
  | some T =>
      refine ret fun s hx => ?_
      rcases hx with ⟨_, heq, hx⟩ | ⟨owner, a, heq, hx, ha⟩ | ⟨heq, -⟩
      · cases heq
        exact .localName hx
      · cases heq
        exact .attributeName hx ha
      · cases heq
  | none =>
      refine bind currentClass fun C => ?_
      split
      · rename_i owner x' returnType body span' hm
        refine (resolve returnType).mono ?_
        rintro s T rfl rfl hx
        rcases hx with ⟨_, heq, -⟩ | ⟨_, _, heq, -⟩ | ⟨-, hx, ha⟩
        · cases heq
        · cases heq
        · exact .methodName hx ha hm rfl
      · exact reported (ret fun _ => trivial)

/-- Whatever conforms to the type of a name may be assigned to it. -/
theorem assignment (h : Hierarchy) (x received : String) (position valuePosition : Position) :
    Finds (Check.assignment h x received position valuePosition) fun s _ =>
      x ≠ "self" → ∀ {value span}, HasType h s.currentClass s.scope value received →
        HasType h s.currentClass s.scope (.assign x value span) received := by
  refine bind (variableType? h x) fun t => ?_
  cases t with
  | some T =>
      refine (requireConforms h received T _ valuePosition).mono ?_
      intro s _ hconforms hx _ value span hvalue
      rcases hx with ⟨_, heq, hx⟩ | ⟨owner, a, heq, hx, ha⟩ | ⟨heq, -⟩
      · cases heq
        exact .assignLocal hx hvalue hconforms
      · cases heq
        exact .assignAttribute hx ha hvalue hconforms
      · cases heq
  | none =>
      exact ite (fun hself => ret fun s _ hne => absurd hself hne) fun _ => report

/-! ## Calls -/

theorem lookupClass? (h : Hierarchy) (R : String) (q : Option String) (position : Position) :
    Finds (Check.lookupClass? h R q position) fun _ t => ∃ T, t = some T ∧ h.LooksUpIn R q T := by
  cases q with
  | none => exact ret fun s => ⟨R, rfl, .dynamic⟩
  | some T =>
      refine ite (fun _ => reported (ret fun _ => trivial)) fun hself => ?_
      refine ite (fun _ => reported (ret fun _ => trivial)) fun hknown => ?_
      refine bind (requireConforms h R T _ position) fun _ => ret fun s hconforms => ?_
      exact ⟨T, rfl, .qualified hself (by simpa using hknown) hconforms⟩

theorem argumentsConform (h : Hierarchy) (method : String) (formals : List Parameter) :
    ∀ index arguments, Finds (Check.argumentsConform h method index formals arguments) fun _ _ =>
      formals.length = arguments.length →
        List.Forall₂ (fun S f => h.conforms S f.typeName = true) (arguments.map (·.1)) formals := by
  induction formals with
  | nil =>
      intro index arguments
      refine ret fun s hlength => ?_
      rw [List.length_nil, eq_comm, List.length_eq_zero_iff] at hlength
      rw [hlength]
      exact .nil
  | cons formal formals ih =>
      intro index arguments
      cases arguments with
      | nil => exact ret fun s hlength => absurd hlength (by simp)
      | cons argument arguments =>
          refine ite (fun _ => reported ((ih _ _).mono fun _ _ _ => trivial)) fun hconforms => ?_
          refine (ih (index + 1) arguments).mono fun s _ hrest hlength => ?_
          exact .cons (by simpa using hconforms) (hrest (by simpa using hlength))

/-- A call has the type of its method, and its arguments conform to the formals. -/
theorem call (h : Hierarchy) (R lookupClass method : String)
    (arguments : List (String × Position)) (position : Position) :
    Finds (Check.call h R lookupClass method arguments position) fun _ T =>
      ∃ owner m, h.findMethod? lookupClass method = some (owner, m) ∧
        T = ClassName.resolve R m.returnType ∧
        List.Forall₂ (fun S f => h.conforms S f.typeName = true) (arguments.map (·.1))
          m.formals := by
  unfold Check.call
  split
  · exact reported (ret fun _ => trivial)
  · rename_i owner m hm
    refine ite (fun harity => ?_) fun _ => reported (ret fun _ => trivial)
    refine bind (argumentsConform h method m.formals 1 arguments) fun _ => ret fun s hconf => ?_
    exact ⟨owner, m, hm, rfl, hconf harity⟩

/-! ## Operators and branches -/

theorem unary (h : Hierarchy) (op : UnaryOp) (received : String) (position : Position) :
    Finds (Check.unary op received position) fun s T =>
      ∀ {e span}, HasType h s.currentClass s.scope e received →
        HasType h s.currentClass s.scope (.unary op e span) T := by
  cases op with
  | negate =>
      refine bind (requireExact _ _ _ _) fun _ => ret fun s heq e span he => ?_
      exact .negate (heq ▸ he)
  | not =>
      refine bind (requireExact _ _ _ _) fun _ => ret fun s heq e span he => ?_
      exact .not (heq ▸ he)

theorem binary (h : Hierarchy) (op : BinaryOp) (left right : String)
    (leftPosition rightPosition : Position) :
    Finds (Check.binary op left right leftPosition rightPosition) fun s T =>
      ∀ {l r span}, HasType h s.currentClass s.scope l left →
        HasType h s.currentClass s.scope r right →
        HasType h s.currentClass s.scope (.binary op l r span) T := by
  refine ite (fun hop => ?_) fun hop => ?_
  · subst hop
    exact ret fun s l r span hl hr => .equals hl hr
  · refine bind (requireExact _ _ _ _) fun _ => bind (requireExact _ _ _ _) fun _ => ?_
    refine ret fun s hright hleft l r span hl hr => ?_
    exact .binary hop (hleft ▸ hl) (hright ▸ hr)

theorem branchHead (h : Hierarchy) (b : Branch) (seen : List String) :
    Finds (Check.branchHead h b seen) fun _ T =>
      h.contains b.typeName = true ∧ T = b.typeName := by
  refine bind (requireBindable _ _ _) fun _ => bind (declaredClass h _ _ _) fun T => ?_
  exact ite (fun _ => reported (ret fun _ => trivial)) fun _ => ret fun s hT _ => hT

end Finds

/-! ## Declarations in a frame -/

theorem Finds.binds {x : Check α} {P : Checker → α → Prop} (hx : Finds x P) :
    Binds x fun s a s' => s' = s ∧ P s a :=
  fun s => ⟨(hx s).1.declares, fun hlog => ⟨(hx s).1.eq_of_log_eq hlog, (hx s).2 hlog⟩⟩

theorem Binds.mono {x : Check α} {P Q : Checker → α → Checker → Prop} (hx : Binds x P)
    (h : ∀ s a s', P s a s' → Q s a s') : Binds x Q :=
  fun s => ⟨(hx s).1, fun hlog => h s _ _ ((hx s).2 hlog)⟩

theorem Binds.bind {x : Check α} {f : α → Check β} {P : Checker → α → Checker → Prop}
    {Q : α → Checker → β → Checker → Prop} (hx : Binds x P) (hf : ∀ a, Binds (f a) (Q a)) :
    Binds (x >>= f) fun s b s' => ∃ a s₁, P s a s₁ ∧ Q a s₁ b s' := by
  intro s
  obtain ⟨hdeclares, hP⟩ := hx s
  obtain ⟨hdeclares', hQ⟩ := hf (x s).1 (x s).2
  refine ⟨hdeclares.trans hdeclares', fun hlog => ?_⟩
  have hstill : (x s).2.log = s.log := log_eq_of_prefix hdeclares.log hdeclares'.log hlog
  exact ⟨(x s).1, (x s).2, hP hstill, hQ (hlog.trans hstill.symm)⟩

theorem Binds.declare (name typeName : String) :
    Binds (modifyScope (·.declare name typeName)) fun s _ s' =>
      s' = { s with scope := s.scope.declare name typeName } :=
  fun s => ⟨⟨rfl, s.scope.pop_declare name typeName, List.prefix_refl _⟩, fun _ => rfl⟩

/-- What is declared inside a frame of its own is forgotten when the frame is dropped. -/
theorem Binds.framed {enter : Scope → Scope} (henter : ∀ Γ, (enter Γ).pop = Γ) {x : Check α}
    {P : Checker → α → Checker → Prop} (hx : Binds x P) :
    Finds (do modifyScope enter; let a ← x; modifyScope .pop; return a) fun s a =>
      ∃ s', P { s with scope := enter s.scope } a s' := by
  intro s
  obtain ⟨hdeclares, hP⟩ := hx { s with scope := enter s.scope }
  refine ⟨⟨hdeclares.currentClass, hdeclares.outer.trans (henter s.scope), hdeclares.log⟩, ?_⟩
  exact fun hlog => ⟨_, hP hlog⟩

end Check

open Check

mutual

/-- **The checker follows the rules.** What it finds without complaint is the type of the
expression. -/
theorem finds_checkExpr (h : Hierarchy) : (e : Expr) → Finds (checkExpr h e) fun s T =>
    e.Written → HasType h s.currentClass s.scope e T
  | .int .. => by
      rw [checkExpr]
      exact .ret fun s _ => .int
  | .str .. => by
      rw [checkExpr]
      exact .ret fun s _ => .str
  | .bool .. => by
      rw [checkExpr]
      exact .ret fun s _ => .bool
  | .self _ => by
      rw [checkExpr]
      exact Finds.currentClass.mono fun s T hT _ => hT ▸ .self
  | .name x span => by
      rw [checkExpr]
      exact (Finds.name h x span).mono fun s T hT _ => hT
  | .assign x value span => by
      rw [checkExpr]
      refine (Finds.requireBindable _ _ _).bind fun _ => (finds_checkExpr h value).bind fun S =>
        (Finds.assignment h x S _ _).bind fun _ => .ret fun s hassign hvalue hx hw => ?_
      exact hassign hx (hvalue (hw.of_mem_children List.mem_cons_self))
  | .dispatch r q method args span => by
      rw [checkExpr]
      refine (finds_checkReceiver h r).bind fun R => (Finds.lookupClass? h R q _).bind fun t =>
        (finds_checkArguments h args).bind fun types => ?_
      cases t with
      | none => exact .ret fun s _ hT => absurd hT (by simp)
      | some T =>
          refine (Finds.call h R T method types span.start).mono ?_
          rintro s _ ⟨owner, m, hm, rfl, hconf⟩ hargs ⟨_, ⟨⟩, hT⟩ hr hw
          refine .dispatch (hr ?_) hT (hargs ?_) hm hconf
          · exact fun e he => hw.of_mem_children (List.mem_append_left _ (Option.mem_toList.mpr he))
          · exact fun e he => hw.of_mem_children (List.mem_append_right _ he)
  | .new typeName span => by
      rw [checkExpr]
      refine (Finds.declaredType h typeName span.start).mono ?_
      rintro s T ⟨hT, rfl⟩ _
      exact .new hT
  | .cond c t f _ => by
      rw [checkExpr]
      refine (finds_checkExpr h c).bind fun B => (Finds.requireExact B _ _ _).bind fun _ =>
        (finds_checkExpr h t).bind fun T => (finds_checkExpr h f).bind fun F => .ret ?_
      intro s hf ht hB hc hw
      have hcond := hc (hw.of_mem_children (by simp [Expr.children]))
      rw [hB] at hcond
      exact .cond hcond (ht (hw.of_mem_children (by simp [Expr.children])))
        (hf (hw.of_mem_children (by simp [Expr.children])))
  | .loop c body _ => by
      rw [checkExpr]
      refine (finds_checkExpr h c).bind fun B => (Finds.requireExact B _ _ _).bind fun _ =>
        (finds_checkExpr h body).bind fun T => .ret fun s hbody hB hc hw => ?_
      have hcond := hc (hw.of_mem_children (by simp [Expr.children]))
      rw [hB] at hcond
      exact .loop hcond (hbody (hw.of_mem_children (by simp [Expr.children])))
  | .block body _ => by
      rw [checkExpr]
      refine (finds_checkSequence h ClassName.object body).mono fun s T hbody hw => ?_
      exact .block (hbody fun e he => hw.of_mem_children he)
  | .letIn bs body _ => by
      rw [checkExpr]
      have hbody := (binds_checkBindings h bs).bind fun _ => (finds_checkExpr h body).binds
      refine (hbody.framed Scope.pop_push).mono ?_
      rintro s T ⟨_, _, s₁, ⟨hclass, hbs⟩, -, hbody⟩ hw
      have hbody := hbody (hw.of_mem_children (List.mem_append_right _ List.mem_cons_self))
      rw [hclass] at hbody
      exact .letIn (hbs fun e he => hw.of_mem_children (List.mem_append_left _ he)) hbody
  | .caseOf scrutinee branches _ => by
      rw [checkExpr]
      refine (finds_checkExpr h scrutinee).bind fun T =>
        (finds_checkBranches h [] branches).bind fun types => .ret ?_
      intro s hbranches hscrutinee hw
      have hcase := HasType.caseOf (s := ‹Span›)
        (hscrutinee (hw.of_mem_children List.mem_cons_self))
        (hbranches fun e he => hw.of_mem_children (List.mem_cons_of_mem _ he))
      cases types <;> exact hcase
  | .isVoid e _ => by
      rw [checkExpr]
      refine (finds_checkExpr h e).bind fun T => .ret fun s he hw => ?_
      exact .isVoid (he (hw.of_mem_children List.mem_cons_self))
  | .unary op e _ => by
      rw [checkExpr]
      refine (finds_checkExpr h e).bind fun T => (Finds.unary h op T _).mono ?_
      intro s U hU he hw
      exact hU (he (hw.of_mem_children List.mem_cons_self))
  | .binary op l r _ => by
      rw [checkExpr]
      refine (finds_checkExpr h l).bind fun L => (finds_checkExpr h r).bind fun R =>
        (Finds.binary h op L R _ _).mono ?_
      intro s T hT hr hl hw
      exact hT (hl (hw.of_mem_children (by simp [Expr.children])))
        (hr (hw.of_mem_children (by simp [Expr.children])))
  | .primitive .. => by
      rw [checkExpr]
      exact .ret fun s hw => absurd (Expr.every_self hw) (by simp [Expr.isPrimitive])

theorem finds_checkReceiver (h : Hierarchy) : (r : Option Expr) →
    Finds (checkReceiver h r) fun s T =>
      (∀ e ∈ r, e.Written) → ReceiverHasType h s.currentClass s.scope r T
  | none => by
      rw [checkReceiver]
      exact Finds.currentClass.mono fun s T hT _ => hT ▸ .none
  | some e => by
      rw [checkReceiver]
      exact (finds_checkExpr h e).mono fun s T hT hw => .some (hT (hw e rfl))

theorem finds_checkArguments (h : Hierarchy) : (es : List Expr) →
    Finds (checkArguments h es) fun s types =>
      (∀ e ∈ es, e.Written) → ArgumentsHaveTypes h s.currentClass s.scope es (types.map (·.1))
  | [] => by
      rw [checkArguments]
      exact .ret fun s _ => .nil
  | e :: es => by
      rw [checkArguments]
      refine (finds_checkExpr h e).bind fun T => (finds_checkArguments h es).bind fun types => ?_
      refine .ret fun s hes he hw => ?_
      rw [List.forall_mem_cons] at hw
      exact .cons (he hw.1) (hes hw.2)

theorem finds_checkSequence (h : Hierarchy) : (last : String) → (es : List Expr) →
    Finds (checkSequence h last es) fun s T =>
      (∀ e ∈ es, e.Written) → SequenceHasType h s.currentClass s.scope last es T
  | _, [] => by
      rw [checkSequence]
      exact .ret fun s _ => .nil
  | _, e :: es => by
      rw [checkSequence]
      refine (finds_checkExpr h e).bind fun S => (finds_checkSequence h S es).mono ?_
      intro s T hes he hw
      rw [List.forall_mem_cons] at hw
      exact .cons (he hw.1) (hes hw.2)

theorem binds_checkBindings (h : Hierarchy) : (bs : List Binding) →
    Binds (checkBindings h bs) fun s _ s' => s'.currentClass = s.currentClass ∧
      ((∀ e ∈ bs.filterMap (·.init), e.Written) →
        BindingsHaveTypes h s.currentClass s.scope bs s'.scope)
  | [] => by
      rw [checkBindings]
      exact fun s => ⟨(Checker.Logs.refl s).declares, fun _ => ⟨rfl, fun _ => .nil⟩⟩
  | ⟨x, T, init, span⟩ :: bs => by
      rw [checkBindings]
      have hall := (Finds.requireBindable x "bound in a let" span.start).binds.bind fun _ =>
        (Finds.declaredType h T span.start).binds.bind fun D =>
          (finds_checkInitializer h s!"initializer of {x}" D init).binds.bind fun _ =>
            (Binds.declare x D).bind fun _ => binds_checkBindings h bs
      refine hall.mono ?_
      rintro s _ s' ⟨_, _, ⟨rfl, -⟩, D, _, ⟨rfl, hT, rfl⟩, _, _, ⟨rfl, hinit⟩, _, _, rfl,
        hclass, hbs⟩
      refine ⟨hclass, fun hw => .cons hT (hinit fun e he => hw e ?_) (hbs fun e he => hw e ?_)⟩
      · exact List.mem_filterMap.mpr ⟨_, List.mem_cons_self, he⟩
      · obtain ⟨b, hb, he⟩ := List.mem_filterMap.mp he
        exact List.mem_filterMap.mpr ⟨b, List.mem_cons_of_mem _ hb, he⟩

theorem finds_checkInitializer (h : Hierarchy) : (context declared : String) →
    (init : Option Expr) → Finds (checkInitializer h context declared init) fun s _ =>
      (∀ e ∈ init, e.Written) →
        InitializerHasType h s.currentClass s.scope init declared
  | _, _, none => by
      rw [checkInitializer]
      exact .ret fun s _ => .none
  | _, _, some e => by
      rw [checkInitializer]
      refine (finds_checkExpr h e).bind fun S => (Finds.requireConforms h S _ _ _).mono ?_
      intro s _ hconforms he hw
      exact .some (he (hw e rfl)) hconforms

theorem finds_checkBranches (h : Hierarchy) : (seen : List String) → (bs : List Branch) →
    Finds (checkBranches h seen bs) fun s types =>
      (∀ e ∈ bs.map (·.body), e.Written) →
        BranchesHaveTypes h s.currentClass s.scope bs types
  | _, [] => by
      rw [checkBranches]
      exact .ret fun s _ => .nil
  | seen, ⟨x, T, body, span⟩ :: bs => by
      rw [checkBranches]
      refine (Finds.branchHead h _ seen).bind fun D => ?_
      have hbody := (finds_checkExpr h body).binds.framed fun Γ => Γ.push.pop_declare x D
      have hall := Finds.bind (Q := fun s types => h.contains T = true ∧ D = T →
          (∀ e ∈ body :: bs.map (·.body), e.Written) →
            BranchesHaveTypes h s.currentClass s.scope (⟨x, T, body, span⟩ :: bs) types)
        hbody fun B => (finds_checkBranches h (T :: seen) bs).bind fun types =>
          .ret (a := B :: types) ?_
      · exact hall
      · rintro s hbs ⟨_, -, hB⟩ ⟨hT, rfl⟩ hw
        rw [List.forall_mem_cons] at hw
        exact .cons hT (hB hw.1) (hbs hw.2)

end

end CoolLang
