import CoolLang.Hierarchy.Conformance
import CoolLang.Typing.Scope
import Mathlib.Data.List.Forall2

/-!
# The rules of typing

`HasType h C Γ e T`: in a feature of class `C`, where the local names have the types in `Γ`, the
expression `e` has type `T`. The rules say what a well-typed expression is, without a word on how
that is found out and on what becomes of expressions that are not. There is none for the marker that
stands for a built-in operation, which is no expression of a program.
-/

namespace CoolLang

/-- The class that a declared type means where `SELF_TYPE` stands for `self`. -/
def ClassName.resolve (self typeName : String) : String :=
  if typeName = selfType then self else typeName

namespace Hierarchy

/-- A type that may be declared: a known class or `SELF_TYPE`. -/
def Declarable (h : Hierarchy) (typeName : String) : Prop :=
  typeName = ClassName.selfType ∨ h.contains typeName = true

/-- The type that all of some types conform to: their join, or the root if there are none. -/
def joinAll (h : Hierarchy) : List String → String
  | [] => ClassName.object
  | first :: rest => rest.foldl h.join first

/-- A call on a receiver of type `R` looks up its method in class `T`. -/
inductive LooksUpIn (h : Hierarchy) (R : String) : Option String → String → Prop where
  | dynamic : LooksUpIn h R none R
  | qualified {T : String} (hself : T ≠ ClassName.selfType) (hT : h.contains T = true)
      (hRT : h.conforms R T = true) : LooksUpIn h R (some T) T

end Hierarchy

open ClassName Hierarchy

mutual

inductive HasType (h : Hierarchy) (C : String) : Scope → Expr → String → Prop where
  | int {Γ : Scope} {n : Int64} {s : Span} : HasType h C Γ (.int n s) int
  | str {Γ : Scope} {t : String} {s : Span} : HasType h C Γ (.str t s) string
  | bool {Γ : Scope} {b : Bool} {s : Span} : HasType h C Γ (.bool b s) bool
  | self {Γ : Scope} {s : Span} : HasType h C Γ (.self s) C
  | localName {Γ : Scope} {x T : String} {s : Span} (hx : Γ.typeOf? x = some T) :
      HasType h C Γ (.name x s) T
  | attributeName {Γ : Scope} {x owner : String} {a : Attribute} {s : Span}
      (hx : Γ.typeOf? x = none) (ha : h.findAttribute? C x = some (owner, a)) :
      HasType h C Γ (.name x s) (resolve C a.typeName)
  | methodName {Γ : Scope} {x owner : String} {m : Method} {s : Span}
      (hx : Γ.typeOf? x = none) (ha : h.findAttribute? C x = none)
      (hm : h.findMethod? C x = some (owner, m)) (hformals : m.formals = []) :
      HasType h C Γ (.name x s) (resolve C m.returnType)
  | assignLocal {Γ : Scope} {x S T : String} {value : Expr} {s : Span}
      (hx : Γ.typeOf? x = some T) (hvalue : HasType h C Γ value S)
      (hST : h.conforms S T = true) : HasType h C Γ (.assign x value s) S
  | assignAttribute {Γ : Scope} {x owner S : String} {a : Attribute} {value : Expr} {s : Span}
      (hx : Γ.typeOf? x = none) (ha : h.findAttribute? C x = some (owner, a))
      (hvalue : HasType h C Γ value S) (hST : h.conforms S (resolve C a.typeName) = true) :
      HasType h C Γ (.assign x value s) S
  | dispatch {Γ : Scope} {r : Option Expr} {q : Option String} {x R T owner : String}
      {args : List Expr} {types : List String} {m : Method} {s : Span}
      (hr : ReceiverHasType h C Γ r R) (hT : h.LooksUpIn R q T)
      (hargs : ArgumentsHaveTypes h C Γ args types)
      (hm : h.findMethod? T x = some (owner, m))
      (hconf : List.Forall₂ (fun S f => h.conforms S f.typeName = true) types m.formals) :
      HasType h C Γ (.dispatch r q x args s) (resolve R m.returnType)
  | new {Γ : Scope} {T : String} {s : Span} (hT : h.Declarable T) :
      HasType h C Γ (.new T s) (resolve C T)
  | cond {Γ : Scope} {c t f : Expr} {T F : String} {s : Span} (hc : HasType h C Γ c bool)
      (ht : HasType h C Γ t T) (hf : HasType h C Γ f F) :
      HasType h C Γ (.cond c t f s) (h.join T F)
  | loop {Γ : Scope} {c body : Expr} {T : String} {s : Span} (hc : HasType h C Γ c bool)
      (hbody : HasType h C Γ body T) : HasType h C Γ (.loop c body s) object
  | block {Γ : Scope} {body : List Expr} {T : String} {s : Span}
      (hbody : SequenceHasType h C Γ object body T) : HasType h C Γ (.block body s) T
  | letIn {Γ Γ' : Scope} {bs : List Binding} {body : Expr} {T : String} {s : Span}
      (hbs : BindingsHaveTypes h C Γ.push bs Γ') (hbody : HasType h C Γ' body T) :
      HasType h C Γ (.letIn bs body s) T
  | caseOf {Γ : Scope} {scrutinee : Expr} {branches : List Branch} {T : String}
      {types : List String} {s : Span} (hscrutinee : HasType h C Γ scrutinee T)
      (hbranches : BranchesHaveTypes h C Γ branches types) :
      HasType h C Γ (.caseOf scrutinee branches s) (h.joinAll types)
  | isVoid {Γ : Scope} {e : Expr} {T : String} {s : Span} (he : HasType h C Γ e T) :
      HasType h C Γ (.isVoid e s) bool
  | negate {Γ : Scope} {e : Expr} {s : Span} (he : HasType h C Γ e int) :
      HasType h C Γ (.unary .negate e s) int
  | not {Γ : Scope} {e : Expr} {s : Span} (he : HasType h C Γ e bool) :
      HasType h C Γ (.unary .not e s) bool
  | equals {Γ : Scope} {l r : Expr} {L R : String} {s : Span} (hl : HasType h C Γ l L)
      (hr : HasType h C Γ r R) : HasType h C Γ (.binary .equals l r s) bool
  | binary {Γ : Scope} {op : BinaryOp} {l r : Expr} {s : Span} (hop : op ≠ .equals)
      (hl : HasType h C Γ l int) (hr : HasType h C Γ r int) :
      HasType h C Γ (.binary op l r s) (if op.isArithmetic then int else bool)

inductive ReceiverHasType (h : Hierarchy) (C : String) : Scope → Option Expr → String → Prop where
  | none {Γ : Scope} : ReceiverHasType h C Γ none C
  | some {Γ : Scope} {e : Expr} {T : String} (he : HasType h C Γ e T) :
      ReceiverHasType h C Γ (some e) T

inductive ArgumentsHaveTypes (h : Hierarchy) (C : String) :
    Scope → List Expr → List String → Prop where
  | nil {Γ : Scope} : ArgumentsHaveTypes h C Γ [] []
  | cons {Γ : Scope} {e : Expr} {es : List Expr} {T : String} {types : List String}
      (he : HasType h C Γ e T) (hes : ArgumentsHaveTypes h C Γ es types) :
      ArgumentsHaveTypes h C Γ (e :: es) (T :: types)

/-- The type of the last expression, or the given one if there is none. -/
inductive SequenceHasType (h : Hierarchy) (C : String) :
    Scope → String → List Expr → String → Prop where
  | nil {Γ : Scope} {last : String} : SequenceHasType h C Γ last [] last
  | cons {Γ : Scope} {e : Expr} {es : List Expr} {last S T : String} (he : HasType h C Γ e S)
      (hes : SequenceHasType h C Γ S es T) : SequenceHasType h C Γ last (e :: es) T

/-- The scope behind the bindings. -/
inductive BindingsHaveTypes (h : Hierarchy) (C : String) :
    Scope → List Binding → Scope → Prop where
  | nil {Γ : Scope} : BindingsHaveTypes h C Γ [] Γ
  | cons {Γ Γ' : Scope} {x T : String} {init : Option Expr} {s : Span} {bs : List Binding}
      (hT : h.Declarable T) (hinit : InitializerHasType h C Γ init (resolve C T))
      (hbs : BindingsHaveTypes h C (Γ.declare x (resolve C T)) bs Γ') :
      BindingsHaveTypes h C Γ (⟨x, T, init, s⟩ :: bs) Γ'

/-- An initial value conforms to the declared type, if there is one. -/
inductive InitializerHasType (h : Hierarchy) (C : String) :
    Scope → Option Expr → String → Prop where
  | none {Γ : Scope} {T : String} : InitializerHasType h C Γ none T
  | some {Γ : Scope} {e : Expr} {S T : String} (he : HasType h C Γ e S)
      (hST : h.conforms S T = true) : InitializerHasType h C Γ (some e) T

inductive BranchesHaveTypes (h : Hierarchy) (C : String) :
    Scope → List Branch → List String → Prop where
  | nil {Γ : Scope} : BranchesHaveTypes h C Γ [] []
  | cons {Γ : Scope} {x S T : String} {body : Expr} {s : Span} {bs : List Branch}
      {types : List String} (hS : h.contains S = true)
      (hbody : HasType h C (Γ.push.declare x S) body T)
      (hbs : BranchesHaveTypes h C Γ bs types) :
      BranchesHaveTypes h C Γ (⟨x, S, body, s⟩ :: bs) (T :: types)

end

theorem BranchesHaveTypes.body_of_mem {h : Hierarchy} {C : String} {Γ : Scope} {b : Branch}
    {branches : List Branch} :
    ∀ {types}, BranchesHaveTypes h C Γ branches types → b ∈ branches →
      ∃ T ∈ types, HasType h C (Γ.push.declare b.name b.typeName) b.body T := by
  induction branches with
  | nil => intro types _ hb; cases hb
  | cons first branches ih =>
      intro types hbranches hb
      cases hbranches with
      | @cons _ _ _ T _ _ _ _ _ hbody hrest =>
          rcases List.mem_cons.mp hb with rfl | hb
          · exact ⟨T, List.mem_cons_self, hbody⟩
          · obtain ⟨T', hT', hbody'⟩ := ih hrest hb
            exact ⟨T', List.mem_cons_of_mem _ hT', hbody'⟩

end CoolLang
