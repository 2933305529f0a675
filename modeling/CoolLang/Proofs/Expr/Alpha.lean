import CoolLang.Proofs.Expr.Traversal

/-!
# Renaming of bound names

Two expressions are alpha-equivalent if they differ only in the names that `let` and `case` bind in
them. The names bound around a place are kept in pairs; a name in one expression goes with a name in
the other if their innermost bindings are a pair, or if neither is bound and they are the same.

Giving one binding of an expression a new name yields an alpha-equivalent expression.
-/

namespace CoolLang

/-- Names that are bound at the same places of two expressions, the innermost first. -/
abbrev Pairing := List (String × String)

/-- The names stand for the same binding, or both for themselves. -/
def Pairing.Matches : Pairing → String → String → Prop
  | [], a, b => a = b
  | (x, y) :: ctx, a, b => (a = x ∧ b = y) ∨ (a ≠ x ∧ b ≠ y ∧ Pairing.Matches ctx a b)

/-- Both names are `self`, or neither is. -/
def SelfAlike (a b : String) : Prop :=
  a = "self" ↔ b = "self"

mutual

inductive Expr.Alpha : Pairing → Expr → Expr → Prop where
  | int {ctx : Pairing} (n : Int64) (s : Span) : Expr.Alpha ctx (.int n s) (.int n s)
  | str {ctx : Pairing} (text : String) (s : Span) : Expr.Alpha ctx (.str text s) (.str text s)
  | bool {ctx : Pairing} (b : Bool) (s : Span) : Expr.Alpha ctx (.bool b s) (.bool b s)
  | self {ctx : Pairing} (s : Span) : Expr.Alpha ctx (.self s) (.self s)
  | name {ctx : Pairing} {a b : String} (hab : ctx.Matches a b) (s : Span) :
      Expr.Alpha ctx (.name a s) (.name b s)
  | assign {ctx : Pairing} {a b : String} {v v' : Expr} (hab : ctx.Matches a b)
      (hself : SelfAlike a b) (hv : Expr.Alpha ctx v v') (s : Span) :
      Expr.Alpha ctx (.assign a v s) (.assign b v' s)
  | dispatch {ctx : Pairing} {r r' : Option Expr} {args args' : List Expr}
      (hr : OptionAlpha ctx r r') (q : Option String) (method : String)
      (hargs : ExprsAlpha ctx args args') (s : Span) :
      Expr.Alpha ctx (.dispatch r q method args s) (.dispatch r' q method args' s)
  | new {ctx : Pairing} (T : String) (s : Span) : Expr.Alpha ctx (.new T s) (.new T s)
  | cond {ctx : Pairing} {c c' t t' f f' : Expr} (hc : Expr.Alpha ctx c c')
      (ht : Expr.Alpha ctx t t') (hf : Expr.Alpha ctx f f') (s : Span) :
      Expr.Alpha ctx (.cond c t f s) (.cond c' t' f' s)
  | loop {ctx : Pairing} {c c' body body' : Expr} (hc : Expr.Alpha ctx c c')
      (hbody : Expr.Alpha ctx body body') (s : Span) :
      Expr.Alpha ctx (.loop c body s) (.loop c' body' s)
  | block {ctx : Pairing} {es es' : List Expr} (hes : ExprsAlpha ctx es es') (s : Span) :
      Expr.Alpha ctx (.block es s) (.block es' s)
  | letIn {ctx ctx' : Pairing} {bs bs' : List Binding} {body body' : Expr}
      (hbs : BindingsAlpha ctx bs bs' ctx') (hbody : Expr.Alpha ctx' body body') (s : Span) :
      Expr.Alpha ctx (.letIn bs body s) (.letIn bs' body' s)
  | caseOf {ctx : Pairing} {e e' : Expr} {bs bs' : List Branch} (he : Expr.Alpha ctx e e')
      (hbs : BranchesAlpha ctx bs bs') (s : Span) :
      Expr.Alpha ctx (.caseOf e bs s) (.caseOf e' bs' s)
  | isVoid {ctx : Pairing} {e e' : Expr} (he : Expr.Alpha ctx e e') (s : Span) :
      Expr.Alpha ctx (.isVoid e s) (.isVoid e' s)
  | unary {ctx : Pairing} (op : UnaryOp) {e e' : Expr} (he : Expr.Alpha ctx e e') (s : Span) :
      Expr.Alpha ctx (.unary op e s) (.unary op e' s)
  | binary {ctx : Pairing} (op : BinaryOp) {l l' r r' : Expr} (hl : Expr.Alpha ctx l l')
      (hr : Expr.Alpha ctx r r') (s : Span) :
      Expr.Alpha ctx (.binary op l r s) (.binary op l' r' s)
  | primitive {ctx : Pairing} (operation : Primitive) (s : Span) :
      Expr.Alpha ctx (.primitive operation s) (.primitive operation s)

inductive OptionAlpha : Pairing → Option Expr → Option Expr → Prop where
  | none {ctx : Pairing} : OptionAlpha ctx none none
  | some {ctx : Pairing} {e e' : Expr} (he : Expr.Alpha ctx e e') :
      OptionAlpha ctx (some e) (some e')

inductive ExprsAlpha : Pairing → List Expr → List Expr → Prop where
  | nil {ctx : Pairing} : ExprsAlpha ctx [] []
  | cons {ctx : Pairing} {e e' : Expr} {es es' : List Expr} (he : Expr.Alpha ctx e e')
      (hes : ExprsAlpha ctx es es') : ExprsAlpha ctx (e :: es) (e' :: es')

/-- Each variable is in scope in what comes after it; the last pairing holds them all. -/
inductive BindingsAlpha : Pairing → List Binding → List Binding → Pairing → Prop where
  | nil {ctx : Pairing} : BindingsAlpha ctx [] [] ctx
  | cons {ctx ctx' : Pairing} {x y : String} {init init' : Option Expr} {bs bs' : List Binding}
      (hself : SelfAlike x y) (T : String) (hinit : OptionAlpha ctx init init') (s : Span)
      (hbs : BindingsAlpha ((x, y) :: ctx) bs bs' ctx') :
      BindingsAlpha ctx (⟨x, T, init, s⟩ :: bs) (⟨y, T, init', s⟩ :: bs') ctx'

inductive BranchesAlpha : Pairing → List Branch → List Branch → Prop where
  | nil {ctx : Pairing} : BranchesAlpha ctx [] []
  | cons {ctx : Pairing} {x y : String} {body body' : Expr} {bs bs' : List Branch}
      (hself : SelfAlike x y) (T : String) (hbody : Expr.Alpha ((x, y) :: ctx) body body')
      (s : Span) (hbs : BranchesAlpha ctx bs bs') :
      BranchesAlpha ctx (⟨x, T, body, s⟩ :: bs) (⟨y, T, body', s⟩ :: bs')

end

theorem Expr.Alpha.span_eq {ctx : Pairing} {e e' : Expr} (h : e.Alpha ctx e') :
    e.span = e'.span := by
  cases h <;> rfl

/-! ## Renaming -/

mutual

/-- The expression with the name `y` in place of `x` where `x` is not bound in it: in occurrences
of the name and in assignments to it. -/
def Expr.rename (x y : String) : Expr → Expr
  | .name n s => .name (if n = x then y else n) s
  | .assign n value s => .assign (if n = x then y else n) (value.rename x y) s
  | .dispatch r q method args s => .dispatch (renameOption x y r) q method (renameExprs x y args) s
  | .cond c t f s => .cond (c.rename x y) (t.rename x y) (f.rename x y) s
  | .loop c body s => .loop (c.rename x y) (body.rename x y) s
  | .block es s => .block (renameExprs x y es) s
  | .letIn bs body s =>
    .letIn (renameBindings x y bs)
      (if bs.any (·.name == x) then body else body.rename x y) s
  | .caseOf e bs s => .caseOf (e.rename x y) (renameBranches x y bs) s
  | .isVoid e s => .isVoid (e.rename x y) s
  | .unary op e s => .unary op (e.rename x y) s
  | .binary op l r s => .binary op (l.rename x y) (r.rename x y) s
  | e => e

def renameOption (x y : String) : Option Expr → Option Expr
  | none => none
  | some e => some (e.rename x y)

def renameExprs (x y : String) : List Expr → List Expr
  | [] => []
  | e :: es => e.rename x y :: renameExprs x y es

/-- A binding of `x` hides it from the bindings after it. -/
def renameBindings (x y : String) : List Binding → List Binding
  | [] => []
  | ⟨n, T, init, s⟩ :: bs =>
    ⟨n, T, renameOption x y init, s⟩ :: if n = x then bs else renameBindings x y bs

def renameBranches (x y : String) : List Branch → List Branch
  | [] => []
  | ⟨n, T, body, s⟩ :: bs =>
    ⟨n, T, if n = x then body else body.rename x y, s⟩ :: renameBranches x y bs

end

/-- The names that an expression mentions itself: the one it looks up or assigns to, and those it
binds. -/
def Expr.ownNames : Expr → List String
  | .name n _ => [n]
  | .assign n _ _ => [n]
  | .letIn bs _ _ => bs.map (·.name)
  | .caseOf _ bs _ => bs.map (·.name)
  | _ => []

/-- No part of the expression mentions the name. -/
def Expr.Avoids (y : String) (e : Expr) : Prop :=
  e.every (!·.ownNames.contains y) = true

instance (y : String) : DecidablePred (Expr.Avoids y) :=
  fun _ => inferInstanceAs (Decidable (_ = true))

/-- `e'` is `e` with one binding of `x`, by a `let` of its own or by a branch of a `case`, changed
into a binding of `y`, together with all that it binds. -/
inductive Expr.Rebinds (x y : String) : Expr → Expr → Prop where
  | letIn (T : String) (init : Option Expr) (sb : Span) (body : Expr) (s : Span) :
      Rebinds x y (.letIn [⟨x, T, init, sb⟩] body s)
        (.letIn [⟨y, T, init, sb⟩] (body.rename x y) s)
  | branch (e : Expr) (pre : List Branch) (T : String) (body : Expr) (sb : Span)
      (post : List Branch) (s : Span) :
      Rebinds x y (.caseOf e (pre ++ ⟨x, T, body, sb⟩ :: post) s)
        (.caseOf e (pre ++ ⟨y, T, body.rename x y, sb⟩ :: post) s)
  -- further inside
  | value {e e' : Expr} (n : String) (h : Rebinds x y e e') (s : Span) :
      Rebinds x y (.assign n e s) (.assign n e' s)
  | receiver {e e' : Expr} (h : Rebinds x y e e') (q : Option String) (method : String)
      (args : List Expr) (s : Span) :
      Rebinds x y (.dispatch (some e) q method args s) (.dispatch (some e') q method args s)
  | argument {e e' : Expr} (r : Option Expr) (q : Option String) (method : String)
      (pre : List Expr) (h : Rebinds x y e e') (post : List Expr) (s : Span) :
      Rebinds x y (.dispatch r q method (pre ++ e :: post) s)
        (.dispatch r q method (pre ++ e' :: post) s)
  | condition {e e' : Expr} (h : Rebinds x y e e') (t f : Expr) (s : Span) :
      Rebinds x y (.cond e t f s) (.cond e' t f s)
  | thenBranch {e e' : Expr} (c : Expr) (h : Rebinds x y e e') (f : Expr) (s : Span) :
      Rebinds x y (.cond c e f s) (.cond c e' f s)
  | elseBranch {e e' : Expr} (c t : Expr) (h : Rebinds x y e e') (s : Span) :
      Rebinds x y (.cond c t e s) (.cond c t e' s)
  | loopCondition {e e' : Expr} (h : Rebinds x y e e') (body : Expr) (s : Span) :
      Rebinds x y (.loop e body s) (.loop e' body s)
  | loopBody {e e' : Expr} (c : Expr) (h : Rebinds x y e e') (s : Span) :
      Rebinds x y (.loop c e s) (.loop c e' s)
  | statement {e e' : Expr} (pre : List Expr) (h : Rebinds x y e e') (post : List Expr)
      (s : Span) : Rebinds x y (.block (pre ++ e :: post) s) (.block (pre ++ e' :: post) s)
  | initializer {e e' : Expr} (pre : List Binding) (n T : String) (h : Rebinds x y e e')
      (sb : Span) (post : List Binding) (body : Expr) (s : Span) :
      Rebinds x y (.letIn (pre ++ ⟨n, T, some e, sb⟩ :: post) body s)
        (.letIn (pre ++ ⟨n, T, some e', sb⟩ :: post) body s)
  | letBody {e e' : Expr} (bs : List Binding) (h : Rebinds x y e e') (s : Span) :
      Rebinds x y (.letIn bs e s) (.letIn bs e' s)
  | scrutinee {e e' : Expr} (h : Rebinds x y e e') (bs : List Branch) (s : Span) :
      Rebinds x y (.caseOf e bs s) (.caseOf e' bs s)
  | branchBody {e e' : Expr} (c : Expr) (pre : List Branch) (n T : String)
      (h : Rebinds x y e e') (sb : Span) (post : List Branch) (s : Span) :
      Rebinds x y (.caseOf c (pre ++ ⟨n, T, e, sb⟩ :: post) s)
        (.caseOf c (pre ++ ⟨n, T, e', sb⟩ :: post) s)
  | isVoid {e e' : Expr} (h : Rebinds x y e e') (s : Span) :
      Rebinds x y (.isVoid e s) (.isVoid e' s)
  | operand {e e' : Expr} (op : UnaryOp) (h : Rebinds x y e e') (s : Span) :
      Rebinds x y (.unary op e s) (.unary op e' s)
  | left {e e' : Expr} (op : BinaryOp) (h : Rebinds x y e e') (r : Expr) (s : Span) :
      Rebinds x y (.binary op e r s) (.binary op e' r s)
  | right {e e' : Expr} (op : BinaryOp) (l : Expr) (h : Rebinds x y e e') (s : Span) :
      Rebinds x y (.binary op l e s) (.binary op l e' s)

/-! ## Pairings of a renaming -/

namespace Pairing

variable {ctx : Pairing} {x y z : String}

/-- Names other than `y` stand for themselves. -/
def Keeps (ctx : Pairing) (y : String) : Prop :=
  ∀ a, a ≠ y → ctx.Matches a a

/-- Of the names other than `y`, `x` stands for `y` and the others for themselves. -/
def Renames (ctx : Pairing) (x y : String) : Prop :=
  ∀ a, a ≠ y → ctx.Matches a (if a = x then y else a)

theorem keeps_nil (y : String) : Keeps [] y :=
  fun _ _ => rfl

/-- Outside all bindings a name may be paired with itself. -/
theorem matches_singleton {a b : String} (hab : Matches [] a b) (x : String) :
    Matches [(x, x)] a b := by
  obtain rfl : a = b := hab
  by_cases hx : a = x
  · exact Or.inl ⟨hx, hx⟩
  · exact Or.inr ⟨hx, hx, rfl⟩

theorem Keeps.bind (h : ctx.Keeps y) (z : String) : Keeps ((z, z) :: ctx) y := by
  intro a ha
  by_cases hz : a = z
  · exact Or.inl ⟨hz, hz⟩
  · exact Or.inr ⟨hz, hz, h a ha⟩

theorem Keeps.rebind (h : ctx.Keeps y) (x : String) : Renames ((x, y) :: ctx) x y := by
  intro a ha
  by_cases hx : a = x
  · exact Or.inl ⟨hx, if_pos hx⟩
  · rw [if_neg hx]
    exact Or.inr ⟨hx, ha, h a ha⟩

theorem Renames.bind (h : ctx.Renames x y) (hzx : z ≠ x) (hzy : z ≠ y) :
    Renames ((z, z) :: ctx) x y := by
  intro a ha
  by_cases hz : a = z
  · subst hz
    rw [if_neg hzx]
    exact Or.inl ⟨rfl, rfl⟩
  · refine Or.inr ⟨hz, ?_, h a ha⟩
    split
    · exact hzy.symm
    · exact hz

/-- A binding of `x` inside hides the outer one. -/
theorem Renames.hide (h : ctx.Renames x y) : Keeps ((x, x) :: ctx) y := by
  intro a ha
  by_cases hx : a = x
  · exact Or.inl ⟨hx, hx⟩
  · have hmatch := h a ha
    rw [if_neg hx] at hmatch
    exact Or.inr ⟨hx, hx, hmatch⟩

end Pairing

namespace Expr.Avoids

variable {y : String} {e e' : Expr}

theorem not_mem (h : e.Avoids y) : y ∉ e.ownNames := by
  simpa using every_self h

theorem child (h : e.Avoids y) (he' : e' ∈ e.children) : e'.Avoids y :=
  every_of_mem_children h he'

end Expr.Avoids

/-- No binding binds the name, and no initial value mentions it. -/
def BindingsAvoid (y : String) (bs : List Binding) : Prop :=
  ∀ b ∈ bs, b.name ≠ y ∧ ∀ e ∈ b.init, e.Avoids y

def BranchesAvoid (y : String) (bs : List Branch) : Prop :=
  ∀ b ∈ bs, b.name ≠ y ∧ b.body.Avoids y

namespace Expr.Avoids

variable {y : String}

theorem bindings {bs : List Binding} {body : Expr} {s : Span}
    (h : (Expr.letIn bs body s).Avoids y) : BindingsAvoid y bs := by
  intro b hb
  refine ⟨fun hy => h.not_mem (List.mem_map.mpr ⟨b, hb, hy⟩), fun e he => h.child ?_⟩
  exact List.mem_append_left _ (List.mem_filterMap.mpr ⟨b, hb, he⟩)

theorem letBody {bs : List Binding} {body : Expr} {s : Span}
    (h : (Expr.letIn bs body s).Avoids y) : body.Avoids y :=
  h.child (List.mem_append_right _ List.mem_cons_self)

theorem branches {e : Expr} {bs : List Branch} {s : Span}
    (h : (Expr.caseOf e bs s).Avoids y) : BranchesAvoid y bs := by
  intro b hb
  refine ⟨fun hy => h.not_mem (List.mem_map.mpr ⟨b, hb, hy⟩), h.child ?_⟩
  exact List.mem_cons_of_mem _ (List.mem_map.mpr ⟨b, hb, rfl⟩)

theorem receiver {r : Option Expr} {q : Option String} {method : String} {args : List Expr}
    {s : Span} (h : (Expr.dispatch r q method args s).Avoids y) : ∀ e ∈ r, e.Avoids y :=
  fun _ he => h.child (List.mem_append_left _ (Option.mem_toList.mpr he))

theorem arguments {r : Option Expr} {q : Option String} {method : String} {args : List Expr}
    {s : Span} (h : (Expr.dispatch r q method args s).Avoids y) : ∀ e ∈ args, e.Avoids y :=
  fun _ he => h.child (List.mem_append_right _ he)

end Expr.Avoids

theorem selfAlike_refl (a : String) : SelfAlike a a := Iff.rfl

/-! ## What is left as it is -/

mutual

theorem alpha_refl {ctx : Pairing} {y : String} (hctx : ctx.Keeps y) :
    (e : Expr) → e.Avoids y → e.Alpha ctx e
  | .int n s, _ => .int n s
  | .str text s, _ => .str text s
  | .bool b s, _ => .bool b s
  | .self s, _ => .self s
  | .new T s, _ => .new T s
  | .primitive operation s, _ => .primitive operation s
  | .name n s, h => .name (hctx n fun hn => h.not_mem (hn ▸ List.mem_cons_self)) s
  | .assign n value s, h =>
      .assign (hctx n fun hn => h.not_mem (hn ▸ List.mem_cons_self)) (selfAlike_refl n)
        (alpha_refl hctx value (h.child List.mem_cons_self)) s
  | .dispatch r q method args s, h =>
      .dispatch (optionAlpha_refl hctx r h.receiver) q method
        (exprsAlpha_refl hctx args h.arguments) s
  | .cond c t f s, h =>
      .cond (alpha_refl hctx c (h.child (by simp [Expr.children])))
        (alpha_refl hctx t (h.child (by simp [Expr.children])))
        (alpha_refl hctx f (h.child (by simp [Expr.children]))) s
  | .loop c body s, h =>
      .loop (alpha_refl hctx c (h.child (by simp [Expr.children])))
        (alpha_refl hctx body (h.child (by simp [Expr.children]))) s
  | .block es s, h => .block (exprsAlpha_refl hctx es fun e he => h.child he) s
  | .letIn bs body s, h => by
      obtain ⟨ctx', hctx', hbs⟩ := bindingsAlpha_refl hctx bs h.bindings
      exact .letIn hbs (alpha_refl hctx' body h.letBody) s
  | .caseOf e bs s, h =>
      .caseOf (alpha_refl hctx e (h.child List.mem_cons_self))
        (branchesAlpha_refl hctx bs h.branches) s
  | .isVoid e s, h => .isVoid (alpha_refl hctx e (h.child List.mem_cons_self)) s
  | .unary op e s, h => .unary op (alpha_refl hctx e (h.child List.mem_cons_self)) s
  | .binary op l r s, h =>
      .binary op (alpha_refl hctx l (h.child (by simp [Expr.children])))
        (alpha_refl hctx r (h.child (by simp [Expr.children]))) s

theorem optionAlpha_refl {ctx : Pairing} {y : String} (hctx : ctx.Keeps y) :
    (r : Option Expr) → (∀ e ∈ r, e.Avoids y) → OptionAlpha ctx r r
  | none, _ => .none
  | some e, h => .some (alpha_refl hctx e (h e rfl))

theorem exprsAlpha_refl {ctx : Pairing} {y : String} (hctx : ctx.Keeps y) :
    (es : List Expr) → (∀ e ∈ es, e.Avoids y) → ExprsAlpha ctx es es
  | [], _ => .nil
  | e :: es, h =>
      .cons (alpha_refl hctx e (h e List.mem_cons_self))
        (exprsAlpha_refl hctx es fun e' he' => h e' (List.mem_cons_of_mem e he'))

theorem bindingsAlpha_refl {ctx : Pairing} {y : String} (hctx : ctx.Keeps y) :
    (bs : List Binding) → BindingsAvoid y bs →
      ∃ ctx' : Pairing, ctx'.Keeps y ∧ BindingsAlpha ctx bs bs ctx'
  | [], _ => ⟨ctx, hctx, .nil⟩
  | ⟨n, T, init, s⟩ :: bs, h => by
      obtain ⟨ctx', hctx', hbs⟩ := bindingsAlpha_refl (hctx.bind n) bs
        fun b hb => h b (List.mem_cons_of_mem _ hb)
      have hinit := optionAlpha_refl hctx init (h ⟨n, T, init, s⟩ List.mem_cons_self).2
      exact ⟨ctx', hctx', .cons (selfAlike_refl n) T hinit s hbs⟩

theorem branchesAlpha_refl {ctx : Pairing} {y : String} (hctx : ctx.Keeps y) :
    (bs : List Branch) → BranchesAvoid y bs → BranchesAlpha ctx bs bs
  | [], _ => .nil
  | ⟨n, T, body, s⟩ :: bs, h =>
      .cons (selfAlike_refl n) T
        (alpha_refl (hctx.bind n) body (h ⟨n, T, body, s⟩ List.mem_cons_self).2) s
        (branchesAlpha_refl hctx bs fun b hb => h b (List.mem_cons_of_mem _ hb))

end

/-! ## What is renamed -/

mutual

theorem alpha_rename {ctx : Pairing} {x y : String} (hctx : ctx.Renames x y) (hx : x ≠ "self")
    (hy : y ≠ "self") : (e : Expr) → e.Avoids y → e.Alpha ctx (e.rename x y)
  | .int n s, _ => .int n s
  | .str text s, _ => .str text s
  | .bool b s, _ => .bool b s
  | .self s, _ => .self s
  | .new T s, _ => .new T s
  | .primitive operation s, _ => .primitive operation s
  | .name n s, h => .name (hctx n fun hn => h.not_mem (hn ▸ List.mem_cons_self)) s
  | .assign n value s, h => by
      have hself : SelfAlike n (if n = x then y else n) := by
        split
        · exact ⟨fun hn => absurd (‹n = x›.symm.trans hn) hx, fun hn => absurd hn hy⟩
        · exact Iff.rfl
      exact .assign (hctx n fun hn => h.not_mem (hn ▸ List.mem_cons_self)) hself
        (alpha_rename hctx hx hy value (h.child List.mem_cons_self)) s
  | .dispatch r q method args s, h =>
      .dispatch (optionAlpha_rename hctx hx hy r h.receiver) q method
        (exprsAlpha_rename hctx hx hy args h.arguments) s
  | .cond c t f s, h =>
      .cond (alpha_rename hctx hx hy c (h.child (by simp [Expr.children])))
        (alpha_rename hctx hx hy t (h.child (by simp [Expr.children])))
        (alpha_rename hctx hx hy f (h.child (by simp [Expr.children]))) s
  | .loop c body s, h =>
      .loop (alpha_rename hctx hx hy c (h.child (by simp [Expr.children])))
        (alpha_rename hctx hx hy body (h.child (by simp [Expr.children]))) s
  | .block es s, h => .block (exprsAlpha_rename hctx hx hy es fun e he => h.child he) s
  | .letIn bs body s, h => by
      obtain ⟨ctx', hbs, hctx'⟩ := bindingsAlpha_rename hctx hx hy bs h.bindings
      rw [Expr.rename]
      cases hbound : bs.any (·.name == x) with
      | true =>
          rw [hbound, if_pos rfl] at hctx'
          exact .letIn hbs (alpha_refl hctx' body h.letBody) s
      | false =>
          rw [hbound, if_neg Bool.false_ne_true] at hctx'
          exact .letIn hbs (alpha_rename hctx' hx hy body h.letBody) s
  | .caseOf e bs s, h =>
      .caseOf (alpha_rename hctx hx hy e (h.child List.mem_cons_self))
        (branchesAlpha_rename hctx hx hy bs h.branches) s
  | .isVoid e s, h => .isVoid (alpha_rename hctx hx hy e (h.child List.mem_cons_self)) s
  | .unary op e s, h => .unary op (alpha_rename hctx hx hy e (h.child List.mem_cons_self)) s
  | .binary op l r s, h =>
      .binary op (alpha_rename hctx hx hy l (h.child (by simp [Expr.children])))
        (alpha_rename hctx hx hy r (h.child (by simp [Expr.children]))) s

theorem optionAlpha_rename {ctx : Pairing} {x y : String} (hctx : ctx.Renames x y)
    (hx : x ≠ "self") (hy : y ≠ "self") : (r : Option Expr) → (∀ e ∈ r, e.Avoids y) →
    OptionAlpha ctx r (renameOption x y r)
  | none, _ => .none
  | some e, h => .some (alpha_rename hctx hx hy e (h e rfl))

theorem exprsAlpha_rename {ctx : Pairing} {x y : String} (hctx : ctx.Renames x y)
    (hx : x ≠ "self") (hy : y ≠ "self") : (es : List Expr) → (∀ e ∈ es, e.Avoids y) →
    ExprsAlpha ctx es (renameExprs x y es)
  | [], _ => .nil
  | e :: es, h =>
      .cons (alpha_rename hctx hx hy e (h e List.mem_cons_self))
        (exprsAlpha_rename hctx hx hy es fun e' he' => h e' (List.mem_cons_of_mem e he'))

/-- What comes after the bindings is renamed unless one of them hides `x`. -/
theorem bindingsAlpha_rename {ctx : Pairing} {x y : String} (hctx : ctx.Renames x y)
    (hx : x ≠ "self") (hy : y ≠ "self") : (bs : List Binding) → BindingsAvoid y bs →
    ∃ ctx' : Pairing, BindingsAlpha ctx bs (renameBindings x y bs) ctx' ∧
      if bs.any (·.name == x) then ctx'.Keeps y else ctx'.Renames x y
  | [], _ => ⟨ctx, .nil, hctx⟩
  | ⟨n, T, init, s⟩ :: bs, h => by
      have hinit := optionAlpha_rename hctx hx hy init
        (h ⟨n, T, init, s⟩ List.mem_cons_self).2
      have hrest : BindingsAvoid y bs := fun b hb => h b (List.mem_cons_of_mem _ hb)
      rw [renameBindings]
      by_cases hn : n = x
      · subst hn
        obtain ⟨ctx', hctx', hbs⟩ := bindingsAlpha_refl hctx.hide bs hrest
        refine ⟨ctx', ?_, by simpa using hctx'⟩
        rw [if_pos rfl]
        exact .cons (selfAlike_refl n) T hinit s hbs
      · have hny : n ≠ y := (h ⟨n, T, init, s⟩ List.mem_cons_self).1
        obtain ⟨ctx', hbs, hctx'⟩ := bindingsAlpha_rename (hctx.bind hn hny) hx hy bs hrest
        refine ⟨ctx', ?_, by simpa [hn] using hctx'⟩
        rw [if_neg hn]
        exact .cons (selfAlike_refl n) T hinit s hbs

theorem branchesAlpha_rename {ctx : Pairing} {x y : String} (hctx : ctx.Renames x y)
    (hx : x ≠ "self") (hy : y ≠ "self") : (bs : List Branch) → BranchesAvoid y bs →
    BranchesAlpha ctx bs (renameBranches x y bs)
  | [], _ => .nil
  | ⟨n, T, body, s⟩ :: bs, h => by
      obtain ⟨hny, havoids⟩ := h ⟨n, T, body, s⟩ List.mem_cons_self
      have hrest := branchesAlpha_rename hctx hx hy bs
        fun b hb => h b (List.mem_cons_of_mem _ hb)
      rw [renameBranches]
      by_cases hn : n = x
      · subst hn
        rw [if_pos rfl]
        exact .cons (selfAlike_refl n) T (alpha_refl hctx.hide body havoids) s hrest
      · rw [if_neg hn]
        exact .cons (selfAlike_refl n) T
          (alpha_rename (hctx.bind hn hny) hx hy body havoids) s hrest

end

/-! ## One binding renamed -/

section

variable {ctx : Pairing} {x y : String} {e e' : Expr}

theorem exprsAlpha_replace (hctx : ctx.Keeps y) (h : e.Alpha ctx e') (pre post : List Expr)
    (havoids : ∀ e₁ ∈ pre ++ e :: post, e₁.Avoids y) :
    ExprsAlpha ctx (pre ++ e :: post) (pre ++ e' :: post) := by
  induction pre with
  | nil =>
      exact .cons h (exprsAlpha_refl hctx post fun e₁ he₁ =>
        havoids e₁ (List.mem_cons_of_mem e he₁))
  | cons e₀ pre ih =>
      exact .cons (alpha_refl hctx e₀ (havoids e₀ List.mem_cons_self))
        (ih fun e₁ he₁ => havoids e₁ (List.mem_cons_of_mem e₀ he₁))

theorem bindingsAlpha_replace (h : ∀ {ctx : Pairing}, ctx.Keeps y → e.Alpha ctx e')
    (n T : String) (s : Span) (pre post : List Binding) : ∀ {ctx : Pairing}, ctx.Keeps y →
    BindingsAvoid y (pre ++ ⟨n, T, some e, s⟩ :: post) →
    ∃ ctx' : Pairing, ctx'.Keeps y ∧ BindingsAlpha ctx (pre ++ ⟨n, T, some e, s⟩ :: post)
      (pre ++ ⟨n, T, some e', s⟩ :: post) ctx' := by
  induction pre with
  | nil =>
      intro ctx hctx havoids
      obtain ⟨ctx', hctx', hpost⟩ := bindingsAlpha_refl (hctx.bind n) post
        fun b hb => havoids b (List.mem_cons_of_mem _ hb)
      exact ⟨ctx', hctx', .cons (selfAlike_refl n) T (.some (h hctx)) s hpost⟩
  | cons b pre ih =>
      intro ctx hctx havoids
      obtain ⟨n₀, T₀, init, s₀⟩ := b
      obtain ⟨ctx', hctx', hrest⟩ := ih (hctx.bind n₀)
        fun b hb => havoids b (List.mem_cons_of_mem _ hb)
      have hinit := optionAlpha_refl hctx init (havoids ⟨n₀, T₀, init, s₀⟩ List.mem_cons_self).2
      exact ⟨ctx', hctx', .cons (selfAlike_refl n₀) T₀ hinit s₀ hrest⟩

theorem branchesAlpha_replace (hctx : ctx.Keeps y) {n n' : String} (hself : SelfAlike n n')
    (T : String) (h : e.Alpha ((n, n') :: ctx) e') (s : Span) (pre post : List Branch)
    (havoids : BranchesAvoid y (pre ++ ⟨n, T, e, s⟩ :: post)) :
    BranchesAlpha ctx (pre ++ ⟨n, T, e, s⟩ :: post) (pre ++ ⟨n', T, e', s⟩ :: post) := by
  induction pre with
  | nil =>
      exact .cons hself T h s (branchesAlpha_refl hctx post fun b hb =>
        havoids b (List.mem_cons_of_mem _ hb))
  | cons b pre ih =>
      obtain ⟨n₀, T₀, body, s₀⟩ := b
      exact .cons (selfAlike_refl n₀) T₀
        (alpha_refl (hctx.bind n₀) body (havoids ⟨n₀, T₀, body, s₀⟩ List.mem_cons_self).2) s₀
        (ih fun b hb => havoids b (List.mem_cons_of_mem _ hb))

/-- **A binding may get a new name.** -/
theorem Expr.Rebinds.alpha (h : e.Rebinds x y e') (hx : x ≠ "self") (hy : y ≠ "self")
    (havoids : e.Avoids y) (hctx : ctx.Keeps y) : e.Alpha ctx e' := by
  have hself : SelfAlike x y := ⟨fun h => absurd h hx, fun h => absurd h hy⟩
  -- `y` is not used, so bindings passed on the way down pair every name in use with itself
  induction h generalizing ctx with
  | letIn T init sb body s =>
      have hinit := optionAlpha_refl hctx init (havoids.bindings _ List.mem_cons_self).2
      exact .letIn (.cons hself T hinit sb .nil)
        (alpha_rename (hctx.rebind x) hx hy body havoids.letBody) s
  | branch e pre T body sb post s =>
      have hbody := (havoids.branches ⟨x, T, body, sb⟩ (by simp)).2
      exact .caseOf (alpha_refl hctx e (havoids.child List.mem_cons_self))
        (branchesAlpha_replace hctx hself T (alpha_rename (hctx.rebind x) hx hy body hbody) sb
          pre post havoids.branches) s
  | value n _ s ih =>
      exact .assign (hctx n fun hn => havoids.not_mem (hn ▸ List.mem_cons_self))
        (selfAlike_refl n) (ih (havoids.child List.mem_cons_self) hctx) s
  | receiver _ q method args s ih =>
      exact .dispatch (.some (ih (havoids.receiver _ rfl) hctx)) q method
        (exprsAlpha_refl hctx args havoids.arguments) s
  | argument r q method pre _ post s ih =>
      exact .dispatch (optionAlpha_refl hctx r havoids.receiver) q method
        (exprsAlpha_replace hctx (ih (havoids.arguments _ (by simp)) hctx) pre post
          havoids.arguments) s
  | condition _ t f s ih =>
      exact .cond (ih (havoids.child (by simp [Expr.children])) hctx)
        (alpha_refl hctx t (havoids.child (by simp [Expr.children])))
        (alpha_refl hctx f (havoids.child (by simp [Expr.children]))) s
  | thenBranch c _ f s ih =>
      exact .cond (alpha_refl hctx c (havoids.child (by simp [Expr.children])))
        (ih (havoids.child (by simp [Expr.children])) hctx)
        (alpha_refl hctx f (havoids.child (by simp [Expr.children]))) s
  | elseBranch c t _ s ih =>
      exact .cond (alpha_refl hctx c (havoids.child (by simp [Expr.children])))
        (alpha_refl hctx t (havoids.child (by simp [Expr.children])))
        (ih (havoids.child (by simp [Expr.children])) hctx) s
  | loopCondition _ body s ih =>
      exact .loop (ih (havoids.child (by simp [Expr.children])) hctx)
        (alpha_refl hctx body (havoids.child (by simp [Expr.children]))) s
  | loopBody c _ s ih =>
      exact .loop (alpha_refl hctx c (havoids.child (by simp [Expr.children])))
        (ih (havoids.child (by simp [Expr.children])) hctx) s
  | statement pre _ post s ih =>
      have hall : ∀ e₁ ∈ pre ++ _ :: post, e₁.Avoids y := fun _ he₁ => havoids.child he₁
      exact .block (exprsAlpha_replace hctx (ih (hall _ (by simp)) hctx) pre post hall) s
  | @initializer e₁ _ pre n T _ sb post body s ih =>
      have hinit := (havoids.bindings ⟨n, T, some e₁, sb⟩ (by simp)).2 e₁ rfl
      obtain ⟨ctx', hctx', hbs⟩ := bindingsAlpha_replace (ih hinit) n T sb pre post hctx
        havoids.bindings
      exact .letIn hbs (alpha_refl hctx' body havoids.letBody) s
  | letBody bs _ s ih =>
      obtain ⟨ctx', hctx', hbs⟩ := bindingsAlpha_refl hctx bs havoids.bindings
      exact .letIn hbs (ih havoids.letBody hctx') s
  | scrutinee _ bs s ih =>
      exact .caseOf (ih (havoids.child List.mem_cons_self) hctx)
        (branchesAlpha_refl hctx bs havoids.branches) s
  | @branchBody e₁ _ c pre n T _ sb post s ih =>
      have hbody := (havoids.branches ⟨n, T, e₁, sb⟩ (by simp)).2
      exact .caseOf (alpha_refl hctx c (havoids.child List.mem_cons_self))
        (branchesAlpha_replace hctx (selfAlike_refl n) T (ih hbody (hctx.bind n)) sb pre post
          havoids.branches) s
  | isVoid _ s ih =>
      exact .isVoid (ih (havoids.child List.mem_cons_self) hctx) s
  | operand op _ s ih =>
      exact .unary op (ih (havoids.child List.mem_cons_self) hctx) s
  | left op _ r s ih =>
      exact .binary op (ih (havoids.child (by simp [Expr.children])) hctx)
        (alpha_refl hctx r (havoids.child (by simp [Expr.children]))) s
  | right op l _ s ih =>
      exact .binary op (alpha_refl hctx l (havoids.child (by simp [Expr.children])))
        (ih (havoids.child (by simp [Expr.children])) hctx) s

end

end CoolLang
