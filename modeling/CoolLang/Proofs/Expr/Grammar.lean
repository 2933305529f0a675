import CoolLang.Expr.Parser
import CoolLang.Proofs.Token.Stream

/-!
# The grammar of expressions

`Derives F e ts` says that the tokens `ts` spell the expression `e`, with as many extra parentheses
as one likes. The shape `F` is what the spelling shows outside of its parentheses; it settles
beside which operators the spelling may stand.

  * Comparisons do not associate; the other operators between two operands associate to the left.
  * The left operand of an operator and the receiver of a call bind no looser than it, and do not
    end in an assignment, a `let` or a `not`, which would reach across the operator.
  * If the operand behind an operator shows an operator between two operands itself, that one binds
    tighter. An assignment, a `let` or an operator in front of its operand may always stand there.
-/

namespace CoolLang

namespace BinaryOp

def kind : BinaryOp → TokenKind
  | plus => .plus
  | minus => .dash
  | times => .star
  | divide => .slash
  | less => .less
  | lessEquals => .lessEquals
  | equals => .equals

def precedence : BinaryOp → Precedence
  | plus | minus => .additive
  | times | divide => .multiplicative
  | less | lessEquals | equals => .relational

end BinaryOp

/-- Whether the operators of the precedence stand behind an operand. -/
def Precedence.joins : Precedence → Bool
  | relational | additive | multiplicative | dispatch => true
  | _ => false

/-- What a spelling shows outside of its parentheses. -/
structure Shape where
  /-- How tightly the outermost form binds. -/
  precedence : Precedence
  /-- Whether the spelling ends in an assignment, a `let` or a `not`. -/
  greedy : Bool
deriving DecidableEq

namespace Shape

/-- A single word, or a form that ends in a bracket or a keyword of its own. -/
def closed : Shape := ⟨.primary, false⟩

/-- The shape may stand in front of an operator that binds with precedence `q`. -/
def FitsLeft (F : Shape) (q : Precedence) : Prop :=
  F.greedy = false ∧ F.precedence.looserThan q = false ∧
    ¬(F.precedence = .relational ∧ q = .relational)

/-- The shape may stand behind an operator that binds with precedence `q`. -/
def FitsRight (F : Shape) (q : Precedence) : Prop :=
  F.precedence.joins = true → q.looserThan F.precedence = true

end Shape

mutual

/-- The tokens spell the expression and have the shape. Where an expression was read is not part of
its spelling. -/
inductive Derives : Shape → Expr → List Spelling → Prop
  | int {text n span} (h : Text.int64? text.toList = some n) :
      Derives .closed (.int n span) [⟨.integer, text⟩]
  | str {value span} : Derives .closed (.str value span) [⟨.string, value⟩]
  | bool {b span} : Derives .closed (.bool b span) [.mark (if b then .trueKw else .falseKw)]
  | self {span} : Derives .closed (.self span) [.object "self"]
  | name {x span} (hx : x ≠ "self") : Derives .closed (.name x span) [.object x]
  | new {T span} : Derives .closed (.new T span) [.mark .newKw, .type T]
  | group {e ts} (he : Phrase e ts) :
      Derives .closed e (.mark .openParen :: (ts ++ [.mark .closeParen]))
  | cond {c t f span ts us vs} (hc : Phrase c ts) (ht : Phrase t us) (hf : Phrase f vs) :
      Derives .closed (.cond c t f span) (.mark .ifKw :: (ts ++ .mark .thenKw ::
        (us ++ .mark .elseKw :: (vs ++ [.mark .fiKw]))))
  | loop {c body span ts us} (hc : Phrase c ts) (hbody : Phrase body us) :
      Derives .closed (.loop c body span)
        (.mark .whileKw :: (ts ++ .mark .loopKw :: (us ++ [.mark .poolKw])))
  | block {body span ts} (hbody : Terminated Phrase body ts) :
      Derives .closed (.block body span) (.mark .openCurly :: (ts ++ [.mark .closeCurly]))
  | caseOf {e branches span ts us} (he : Phrase e ts)
      (hbranches : Terminated BranchPhrase branches us) (hne : branches ≠ []) :
      Derives .closed (.caseOf e branches span)
        (.mark .caseKw :: (ts ++ .mark .ofKw :: (us ++ [.mark .esacKw])))
  | call {m args span ts} (hargs : Parenthesized Phrase args ts) :
      Derives .closed (.dispatch none none m args span) (.object m :: ts)
  | assign {x e span ts} (he : Phrase e ts) :
      Derives ⟨.assignment, true⟩ (.assign x e span) (.object x :: .mark .assign :: ts)
  | letIn {bs body span ts us} (hbs : Separated BindingPhrase bs ts) (hbody : Phrase body us) :
      Derives ⟨.assignment, true⟩ (.letIn bs body span)
        (.mark .letKw :: (ts ++ .mark .inKw :: us))
  | not {e span ts} (he : Phrase e ts) :
      Derives ⟨.not, true⟩ (.unary .not e span) (.mark .notKw :: ts)
  | isVoid {F e span ts} (he : Derives F e ts) (hF : F.FitsRight .isVoid) :
      Derives ⟨.isVoid, F.greedy⟩ (.isVoid e span) (.mark .isVoidKw :: ts)
  | negate {F e span ts} (he : Derives F e ts) (hF : F.FitsRight .negate) :
      Derives ⟨.negate, F.greedy⟩ (.unary .negate e span) (.mark .tilde :: ts)
  | binary {F G op l r span ts us} (hl : Derives F l ts) (hF : F.FitsLeft op.precedence)
      (hr : Derives G r us) (hG : G.FitsRight op.precedence) :
      Derives ⟨op.precedence, G.greedy⟩ (.binary op l r span) (ts ++ .mark op.kind :: us)
  | dispatch {F r m args span ts us} (hr : Derives F r ts) (hF : F.FitsLeft .dispatch)
      (hargs : Parenthesized Phrase args us) :
      Derives ⟨.dispatch, false⟩ (.dispatch (some r) none m args span)
        (ts ++ .mark .dot :: .object m :: us)
  | qualified {F r T m args span ts us} (hr : Derives F r ts) (hF : F.FitsLeft .dispatch)
      (hargs : Parenthesized Phrase args us) :
      Derives ⟨.dispatch, false⟩ (.dispatch (some r) (some T) m args span)
        (ts ++ .mark .atSign :: .type T :: .mark .dot :: .object m :: us)

/-- The tokens spell the expression. -/
inductive Phrase : Expr → List Spelling → Prop
  | intro {F e ts} (he : Derives F e ts) : Phrase e ts

inductive Initializer : Option Expr → List Spelling → Prop
  | none : Initializer none []
  | some {e ts} (he : Phrase e ts) : Initializer (some e) (.mark .assign :: ts)

inductive BindingPhrase : Binding → List Spelling → Prop
  | intro {x T init span ts} (hinit : Initializer init ts) :
      BindingPhrase ⟨x, T, init, span⟩ (.object x :: .mark .colon :: .type T :: ts)

inductive BranchPhrase : Branch → List Spelling → Prop
  | intro {x T body span ts} (hbody : Phrase body ts) :
      BranchPhrase ⟨x, T, body, span⟩
        (.object x :: .mark .colon :: .type T :: .mark .darrow :: ts)

end

/-! ## The words that open an expression -/

/-- The kinds of the tokens that announce an opening. -/
def Opening.kinds : Opening → List TokenKind
  | literal => [.integer, .string, .trueKw, .falseKw]
  | identifier => [.objectIdentifier]
  | grouping => [.openParen]
  | operator => [.tilde, .notKw, .isVoidKw]
  | newObject => [.newKw]
  | conditional => [.ifKw]
  | loop => [.whileKw]
  | block => [.openCurly]
  | letIn => [.letKw]
  | caseOf => [.caseKw]

theorem FormTable.opening?_cool {k : TokenKind} {form : Opening} :
    cool.opening? k = some form ↔ k ∈ form.kinds := by
  cases form <;> cases k <;> decide

/-! ## What may follow -/

/-- The shape may stand in front of a token of the kind. -/
def Shape.MayPrecede (F : Shape) (k : TokenKind) : Prop :=
  ∀ form q, FormTable.cool.continuation? k = some (form, q) → F.FitsLeft q

/-- No operator that binds tighter than the precedence begins with a token of the kind. -/
def Precedence.EndsAt (p : Precedence) (k : TokenKind) : Prop :=
  ∀ form q, FormTable.cool.continuation? k = some (form, q) → p.looserThan q = false

/-- The tokens spell the expression, and may stand between an operator of the precedence and a token
of the kind. -/
def Fitting (power : Precedence) (k : TokenKind) (e : Expr) (ts : List Spelling) : Prop :=
  ∃ F : Shape, Derives F e ts ∧ F.FitsRight power ∧ F.MayPrecede k

theorem FormTable.continuation?_cool {k : TokenKind} {form : Continuation} {q : Precedence}
    (h : cool.continuation? k = some (form, q)) :
    (form = .binary ∧ ∃ op : BinaryOp, op.kind = k ∧ op.precedence = q) ∨
      form = .dispatch ∧ k = .dot ∧ q = .dispatch ∨
      form = .qualifiedDispatch ∧ k = .atSign ∧ q = .dispatch := by
  unfold cool at h
  dsimp only at h
  split at h <;> cases h
  · exact .inl ⟨rfl, .less, rfl, rfl⟩
  · exact .inl ⟨rfl, .lessEquals, rfl, rfl⟩
  · exact .inl ⟨rfl, .equals, rfl, rfl⟩
  · exact .inl ⟨rfl, .plus, rfl, rfl⟩
  · exact .inl ⟨rfl, .minus, rfl, rfl⟩
  · exact .inl ⟨rfl, .times, rfl, rfl⟩
  · exact .inl ⟨rfl, .divide, rfl, rfl⟩
  · exact .inr (.inl ⟨rfl, rfl, rfl⟩)
  · exact .inr (.inr ⟨rfl, rfl, rfl⟩)

theorem BinaryOp.joins_precedence (op : BinaryOp) : op.precedence.joins = true := by
  cases op <;> rfl

theorem FormTable.joins_of_continuation? {k : TokenKind} {form : Continuation} {q : Precedence}
    (h : cool.continuation? k = some (form, q)) : q.joins = true := by
  obtain ⟨-, op, -, rfl⟩ | ⟨-, -, rfl⟩ | ⟨-, -, rfl⟩ := continuation?_cool h
  · exact op.joins_precedence
  · rfl
  · rfl

theorem FormTable.continuation?_kind (op : BinaryOp) :
    cool.continuation? op.kind = some (.binary, op.precedence) := by
  cases op <;> rfl

theorem ExprReader.binaryOp?_kind (op : BinaryOp) : binaryOp? op.kind = some op := by
  cases op <;> rfl

theorem ExprReader.isComparison_kind {op : BinaryOp} :
    isComparison op.kind = true ↔ op.precedence = .relational := by
  cases op <;> decide

theorem ExprReader.continuation?_of_isComparison {k : TokenKind} :
    isComparison k = true → FormTable.cool.continuation? k = some (.binary, .relational) := by
  cases k <;> decide

namespace Precedence

variable {p : Precedence} {k : TokenKind}

theorem level_of_joins : p.joins = true → 3 ≤ p.level := by
  cases p <;> decide

theorem level_of_joins_of_lt : p.joins = true → p.level < 8 → p.level ≤ 5 := by
  cases p <;> decide

theorem level_of_not_joins : p.joins = false → 3 ≤ p.level → 6 ≤ p.level := by
  cases p <;> decide

theorem eq_relational_of_level : p.level = 3 → p = .relational := by
  cases p <;> decide

theorem looserThan_iff {q : Precedence} : p.looserThan q = true ↔ p.level < q.level := by
  rw [looserThan, decide_eq_true_eq]

theorem not_looserThan_iff {q : Precedence} : p.looserThan q = false ↔ q.level ≤ p.level := by
  rw [looserThan, decide_eq_false_iff_not, Nat.not_lt]

/-- Below the comparisons every operator goes on. -/
theorem EndsAt.continuation?_eq_none (h : p.EndsAt k) (hp : p.level < 3) :
    FormTable.cool.continuation? k = none := by
  cases hk : FormTable.cool.continuation? k with
  | none => rfl
  | some c =>
      obtain ⟨form, q⟩ := c
      have hloose := not_looserThan_iff.mp (h form q hk)
      have hlevel := level_of_joins (FormTable.joins_of_continuation? hk)
      omega

theorem endsAt_of_eq_none (h : FormTable.cool.continuation? k = none) : p.EndsAt k := by
  intro form q hk
  cases h.symm.trans hk

theorem endsAt_of_eq_some {form : Continuation} {q : Precedence}
    (h : FormTable.cool.continuation? k = some (form, q)) (hq : p.looserThan q = false) :
    p.EndsAt k := by
  intro form' q' hk
  cases h.symm.trans hk
  exact hq

end Precedence

namespace Shape

variable {F : Shape} {k : TokenKind} {p q : Precedence}

theorem mayPrecede_of_eq_none (h : FormTable.cool.continuation? k = none) : F.MayPrecede k := by
  intro form q hk
  cases h.symm.trans hk

theorem mayPrecede_of_eq_some {form : Continuation}
    (h : FormTable.cool.continuation? k = some (form, q)) (hF : F.FitsLeft q) :
    F.MayPrecede k := by
  intro form' q' hk
  cases h.symm.trans hk
  exact hF

/-- A left operand may stand wherever the operator behind it may. -/
theorem FitsLeft.fitsRight (hF : F.FitsLeft q) (hp : p.looserThan q = true) : F.FitsRight p := by
  intro _
  have htight := Precedence.not_looserThan_iff.mp hF.2.1
  have hloose := Precedence.looserThan_iff.mp hp
  exact Precedence.looserThan_iff.mpr (Nat.lt_of_lt_of_le hloose htight)

theorem fitsRight_of_not_joins (h : F.precedence.joins = false) : F.FitsRight q := by
  intro hjoins
  cases h.symm.trans hjoins

/-- Behind an operator as loose as `lowest` or `not` anything may stand. -/
theorem fitsRight_of_level_lt (h : q.level < 3) : F.FitsRight q := by
  intro hjoins
  exact Precedence.looserThan_iff.mpr (Nat.lt_of_lt_of_le h (Precedence.level_of_joins hjoins))

theorem closed_fitsLeft : closed.FitsLeft q := by
  refine ⟨rfl, ?_, nofun⟩
  cases q <;> rfl

theorem closed_mayPrecede : closed.MayPrecede k :=
  fun _ _ _ => closed_fitsLeft

theorem dispatch_mayPrecede : Shape.MayPrecede ⟨.dispatch, false⟩ k := by
  intro form q hk
  have hjoins := FormTable.joins_of_continuation? hk
  refine ⟨rfl, ?_, nofun⟩
  cases q <;> first | rfl | cases hjoins

/-- A form that ends in an operand of shape `F` may precede what `F` may precede, if that does not
bind tighter than the form itself. -/
theorem MayPrecede.outer (hF : F.MayPrecede k) (hp : p.EndsAt k)
    (hchain : p = .relational → ExprReader.isComparison k = false) :
    Shape.MayPrecede ⟨p, F.greedy⟩ k := by
  intro form q hk
  refine ⟨(hF form q hk).1, hp form q hk, ?_⟩
  rintro ⟨rfl, rfl⟩
  obtain ⟨-, op, rfl, hop⟩ | ⟨-, -, h⟩ | ⟨-, -, h⟩ := FormTable.continuation?_cool hk
  · have hcomparison := ExprReader.isComparison_kind.mpr hop
    rw [hchain rfl] at hcomparison
    cases hcomparison
  · cases h
  · cases h

end Shape

namespace Fitting

variable {power : Precedence} {k : TokenKind} {e : Expr} {ts : List Spelling}

theorem of_closed (h : Derives .closed e ts) : Fitting power k e ts :=
  ⟨.closed, h, Shape.fitsRight_of_not_joins rfl, Shape.closed_mayPrecede⟩

/-- A form that begins with its own word fits before a token that continues nothing. -/
theorem of_eq_none {F : Shape} (h : Derives F e ts) (hF : F.precedence.joins = false)
    (hk : FormTable.cool.continuation? k = none) : Fitting power k e ts :=
  ⟨F, h, Shape.fitsRight_of_not_joins hF, Shape.mayPrecede_of_eq_none hk⟩

end Fitting

end CoolLang
