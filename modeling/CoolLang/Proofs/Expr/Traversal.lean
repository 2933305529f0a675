import CoolLang.Hierarchy.Basic

/-!
# Nodes of expressions

Tests on every node of an expression, and how deep its nodes are nested.
-/

namespace CoolLang

mutual

/-- Whether all nodes of an expression pass the test. -/
def Expr.every (test : Expr → Bool) : Expr → Bool
  | .assign n value s => test (.assign n value s) && value.every test
  | .dispatch r q n args s =>
    test (.dispatch r q n args s) && everyOption test r && everyExprs test args
  | .cond c t f s =>
    test (.cond c t f s) && c.every test && t.every test && f.every test
  | .loop c body s => test (.loop c body s) && c.every test && body.every test
  | .block body s => test (.block body s) && everyExprs test body
  | .letIn bs body s => test (.letIn bs body s) && everyBindings test bs && body.every test
  | .caseOf e branches s =>
    test (.caseOf e branches s) && e.every test && everyBranches test branches
  | .isVoid e s => test (.isVoid e s) && e.every test
  | .unary op e s => test (.unary op e s) && e.every test
  | .binary op l r s => test (.binary op l r s) && l.every test && r.every test
  | e => test e

def everyOption (test : Expr → Bool) : Option Expr → Bool
  | none => true
  | some e => e.every test

def everyExprs (test : Expr → Bool) : List Expr → Bool
  | [] => true
  | e :: es => e.every test && everyExprs test es

def everyBindings (test : Expr → Bool) : List Binding → Bool
  | [] => true
  | ⟨_, _, init, _⟩ :: bs => everyOption test init && everyBindings test bs

def everyBranches (test : Expr → Bool) : List Branch → Bool
  | [] => true
  | ⟨_, _, body, _⟩ :: bs => body.every test && everyBranches test bs

end

mutual

/-- How many nodes lie one inside the other, at most. -/
def Expr.height : Expr → Nat
  | .assign _ value _ => value.height + 1
  | .dispatch r _ _ args _ => max (heightOfOption r) (heightOfExprs args) + 1
  | .cond c t f _ => max c.height (max t.height f.height) + 1
  | .loop c body _ => max c.height body.height + 1
  | .block body _ => heightOfExprs body + 1
  | .letIn bs body _ => max (heightOfBindings bs) body.height + 1
  | .caseOf e branches _ => max e.height (heightOfBranches branches) + 1
  | .isVoid e _ => e.height + 1
  | .unary _ e _ => e.height + 1
  | .binary _ l r _ => max l.height r.height + 1
  | _ => 1

def heightOfOption : Option Expr → Nat
  | none => 0
  | some e => e.height

def heightOfExprs : List Expr → Nat
  | [] => 0
  | e :: es => max e.height (heightOfExprs es)

def heightOfBindings : List Binding → Nat
  | [] => 0
  | ⟨_, _, init, _⟩ :: bs => max (heightOfOption init) (heightOfBindings bs)

def heightOfBranches : List Branch → Nat
  | [] => 0
  | ⟨_, _, body, _⟩ :: bs => max body.height (heightOfBranches bs)

end

/-- The expressions right inside an expression. -/
def Expr.children : Expr → List Expr
  | .assign _ value _ => [value]
  | .dispatch r _ _ args _ => r.toList ++ args
  | .cond c t f _ => [c, t, f]
  | .loop c body _ => [c, body]
  | .block body _ => body
  | .letIn bs body _ => bs.filterMap (·.init) ++ [body]
  | .caseOf e branches _ => e :: branches.map (·.body)
  | .isVoid e _ => [e]
  | .unary _ e _ => [e]
  | .binary _ l r _ => [l, r]
  | _ => []

/-! ## Tests on lists -/

theorem everyOption_iff {test : Expr → Bool} {r : Option Expr} :
    everyOption test r = true ↔ ∀ e ∈ r, e.every test = true := by
  cases r <;> simp [everyOption]

theorem everyExprs_iff {test : Expr → Bool} {es : List Expr} :
    everyExprs test es = true ↔ ∀ e ∈ es, e.every test = true := by
  induction es with
  | nil => simp [everyExprs]
  | cons e es ih => simp [everyExprs, ih]

theorem everyBindings_iff {test : Expr → Bool} {bs : List Binding} :
    everyBindings test bs = true ↔ ∀ e ∈ bs.filterMap (·.init), e.every test = true := by
  induction bs with
  | nil => simp [everyBindings]
  | cons b bs ih =>
      obtain ⟨name, typeName, init, span⟩ := b
      cases init <;> simp [everyBindings, everyOption, ih]

theorem everyBranches_iff {test : Expr → Bool} {bs : List Branch} :
    everyBranches test bs = true ↔ ∀ e ∈ bs.map (·.body), e.every test = true := by
  induction bs with
  | nil => simp [everyBranches]
  | cons b bs ih =>
      obtain ⟨name, typeName, body, span⟩ := b
      simp only [everyBranches, Bool.and_eq_true, ih, List.map_cons, List.forall_mem_cons]

/-! ## Heights of lists -/

theorem heightOfExprs_ge {es : List Expr} {e : Expr} (h : e ∈ es) :
    e.height ≤ heightOfExprs es := by
  induction es with
  | nil => cases h
  | cons e' es ih =>
      rw [heightOfExprs]
      rcases List.mem_cons.mp h with rfl | h
      · exact Nat.le_max_left _ _
      · exact Nat.le_trans (ih h) (Nat.le_max_right _ _)

theorem heightOfBindings_eq (bs : List Binding) :
    heightOfBindings bs = heightOfExprs (bs.filterMap (·.init)) := by
  induction bs with
  | nil => rfl
  | cons b bs ih =>
      obtain ⟨name, typeName, init, span⟩ := b
      cases init <;> simp [heightOfBindings, heightOfOption, heightOfExprs, ih]

theorem heightOfBranches_eq (bs : List Branch) :
    heightOfBranches bs = heightOfExprs (bs.map (·.body)) := by
  induction bs with
  | nil => rfl
  | cons b bs ih =>
      obtain ⟨name, typeName, body, span⟩ := b
      simp only [heightOfBranches, List.map_cons, heightOfExprs, ih]

namespace Expr

/-! ## Children -/

theorem every_iff {test : Expr → Bool} {e : Expr} :
    e.every test = true ↔ test e = true ∧ ∀ e' ∈ e.children, e'.every test = true := by
  cases e with
  | dispatch r q n args s =>
      simp only [every, children, Bool.and_eq_true, everyOption_iff, everyExprs_iff,
        List.forall_mem_append, Option.mem_toList, Option.mem_def, and_assoc]
  | block body s => simp only [every, children, Bool.and_eq_true, everyExprs_iff]
  | letIn bs body s =>
      simp only [every, children, Bool.and_eq_true, everyBindings_iff, List.forall_mem_append,
        List.forall_mem_singleton, and_assoc]
  | caseOf scrutinee branches s =>
      simp only [every, children, Bool.and_eq_true, everyBranches_iff, List.forall_mem_cons,
        and_assoc]
  | _ => simp [every, children, and_assoc]

theorem every_self {test : Expr → Bool} {e : Expr} (h : e.every test = true) :
    test e = true :=
  (every_iff.mp h).1

theorem every_of_mem_children {test : Expr → Bool} {e e' : Expr} (h : e.every test = true)
    (he' : e' ∈ e.children) : e'.every test = true :=
  (every_iff.mp h).2 e' he'

theorem height_lt_of_mem_children {e e' : Expr} (he' : e' ∈ e.children) :
    e'.height < e.height := by
  cases e with
  | int | str | bool | self | name | new | primitive => cases he'
  | dispatch r q n args s =>
      rw [height]
      rcases List.mem_append.mp he' with he' | he'
      · cases r with
        | none => cases he'
        | some r =>
            have hr : e' = r := by simpa using he'
            rw [hr, heightOfOption]
            omega
      · have := heightOfExprs_ge he'
        omega
  | block body s =>
      rw [height]
      have : e'.height ≤ heightOfExprs body := heightOfExprs_ge he'
      omega
  | letIn bs body s =>
      rw [height, heightOfBindings_eq]
      rcases List.mem_append.mp he' with he' | he'
      · have := heightOfExprs_ge he'
        omega
      · rw [List.mem_singleton] at he'
        rw [he']
        omega
  | caseOf scrutinee branches s =>
      rw [height, heightOfBranches_eq]
      rcases List.mem_cons.mp he' with rfl | he'
      · omega
      · have := heightOfExprs_ge he'
        omega
  | _ =>
      simp only [children, List.mem_cons, List.not_mem_nil, or_false] at he'
      simp only [height]
      grind

theorem height_pos (e : Expr) : 0 < e.height := by
  cases e <;> simp [height]

end Expr

/-! ## Expressions of a program -/

def Expr.isPrimitive : Expr → Bool
  | .primitive _ _ => true
  | _ => false

/-- No marker of a built-in operation stands in the expression, as in all that a program can
write. -/
def Expr.Written (e : Expr) : Prop :=
  e.every (!·.isPrimitive) = true

instance : DecidablePred Expr.Written :=
  fun _ => inferInstanceAs (Decidable (_ = true))

/-- No such marker stands in the features of the class. -/
def ClassDecl.Written (d : ClassDecl) : Prop :=
  (∀ a ∈ d.attributes, ∀ e ∈ a.init, e.Written) ∧ ∀ m ∈ d.methods, m.body.Written

instance : DecidablePred ClassDecl.Written :=
  fun _ => inferInstanceAs (Decidable (_ ∧ _))

theorem Expr.Written.of_mem_children {e e' : Expr} (h : e.Written) (he' : e' ∈ e.children) :
    e'.Written :=
  every_of_mem_children h he'

theorem Expr.Written.of_children {e : Expr} (hself : e.isPrimitive = false)
    (hchildren : ∀ e' ∈ e.children, e'.Written) : e.Written :=
  every_iff.mpr ⟨by rw [hself]; rfl, hchildren⟩

/-- The bodies of the methods and the initial values of the attributes of a class. -/
def ClassInfo.expressions (c : ClassInfo) : List Expr :=
  c.methods.map (·.body) ++ c.attributes.filterMap (·.init)

/-- Every expression that the classes of a hierarchy hold. -/
def Hierarchy.expressions (h : Hierarchy) : List Expr :=
  h.classes.flatMap (·.expressions)

end CoolLang
