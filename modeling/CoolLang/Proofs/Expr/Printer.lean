import CoolLang.Proofs.Expr.Completeness
import CoolLang.Proofs.Expr.Traversal

/-!
# Printing expressions

An expression is printed with parentheses around those operands that bind too loosely for their
place, and around nothing else. What counts as loose is a parameter of the printer. The rung of the
outermost operator does not do: an operator in front of its operand may stand there without
parentheses, and `not` behind `~` still reaches as far as it can. With the loosest of the operators
that stand in front of each other, reading what is printed gives the expression back.
-/

namespace CoolLang

/-! ## The printer -/

def Precedence.looser (p q : Precedence) : Precedence :=
  if p.looserThan q then p else q

theorem Precedence.level_looser_le (p q : Precedence) : (p.looser q).level ≤ p.level := by
  unfold looser
  split
  · exact Nat.le_refl _
  · rename_i h
    exact not_looserThan_iff.mp (Bool.eq_false_iff.mpr h)

namespace Expr

/-- Whether an operator stands in front of its operand. -/
def isUnary : Expr → Bool
  | .isVoid _ _ | .unary _ _ _ => true
  | _ => false

/-- The rung of the outermost operator: assignments, `let` and `not` share the lowest. -/
def rank : Expr → Precedence
  | .assign _ _ _ | .letIn _ _ _ | .unary .not _ _ => .assignment
  | .binary op _ _ _ => op.precedence
  | .isVoid _ _ => .isVoid
  | .unary .negate _ _ => .negate
  | .dispatch (some _) _ _ _ _ => .dispatch
  | _ => .primary

/-- The lowest rung among the outermost operator and, if that stands in front of its operand, those
that stand in front next to it. -/
def reach : Expr → Precedence
  | .isVoid e _ => if e.isUnary then .looser .isVoid e.reach else .isVoid
  | .unary .negate e _ => if e.isUnary then .looser .negate e.reach else .negate
  | e => e.rank

end Expr

/-- Whether what binds like `p` needs parentheses in front of an operator that binds like `q`. -/
def Precedence.tooLooseLeft (p q : Precedence) : Bool :=
  p.looserThan q || (p = .relational && q = .relational)

/-- Whether what binds like `p` needs parentheses behind an operator that binds like `q`. -/
def Precedence.tooLooseRight (p q : Precedence) : Bool :=
  !q.looserThan p

/-- The tokens, in parentheses if need be. -/
def enclose (needed : Bool) (ts : List Spelling) : List Spelling :=
  if needed then .mark .openParen :: (ts ++ [.mark .closeParen]) else ts

def commaSeparated (tss : List (List Spelling)) : List Spelling :=
  [Spelling.mark .comma].intercalate tss

def semicolonTerminated (tss : List (List Spelling)) : List Spelling :=
  tss.flatMap (· ++ [.mark .semicolon])

/-- What stands between the receiver and the name of a method. -/
def callMarks (hasReceiver : Bool) : Option String → List Spelling
  | none => if hasReceiver then [.mark .dot] else []
  | some T => [.mark .atSign, .type T, .mark .dot]

mutual

def Expr.print (rank : Expr → Precedence) : Expr → List Spelling
  | .int n _ => [⟨.integer, Text.decimal n⟩]
  | .str value _ => [⟨.string, value⟩]
  | .bool b _ => [.mark (if b then .trueKw else .falseKw)]
  | .self _ => [.object "self"]
  | .name x _ => [.object x]
  | .assign x value _ => .object x :: .mark .assign :: value.print rank
  | .dispatch r q m args _ => printReceiver rank r ++ (callMarks r.isSome q ++ .object m ::
      .mark .openParen :: (commaSeparated (printExprs rank args) ++ [.mark .closeParen]))
  | .new T _ => [.mark .newKw, .type T]
  | .cond c t f _ => .mark .ifKw :: (c.print rank ++ .mark .thenKw ::
      (t.print rank ++ .mark .elseKw :: (f.print rank ++ [.mark .fiKw])))
  | .loop c body _ =>
      .mark .whileKw :: (c.print rank ++ .mark .loopKw :: (body.print rank ++ [.mark .poolKw]))
  | .block body _ =>
      .mark .openCurly :: (semicolonTerminated (printExprs rank body) ++ [.mark .closeCurly])
  | .letIn bs body _ => .mark .letKw ::
      (commaSeparated (printBindings rank bs) ++ .mark .inKw :: body.print rank)
  | .caseOf e branches _ => .mark .caseKw :: (e.print rank ++ .mark .ofKw ::
      (semicolonTerminated (printBranches rank branches) ++ [.mark .esacKw]))
  | .isVoid e _ =>
      .mark .isVoidKw :: enclose ((rank e).looserThan .isVoid && !e.isUnary) (e.print rank)
  | .unary .negate e _ =>
      .mark .tilde :: enclose ((rank e).looserThan .negate && !e.isUnary) (e.print rank)
  | .unary .not e _ => .mark .notKw :: e.print rank
  | .binary op l r _ =>
      enclose ((rank l).tooLooseLeft op.precedence) (l.print rank) ++ .mark op.kind ::
        enclose ((rank r).tooLooseRight op.precedence) (r.print rank)
  | .primitive _ _ => []

def printReceiver (rank : Expr → Precedence) : Option Expr → List Spelling
  | none => []
  | some r => enclose ((rank r).tooLooseLeft .dispatch) (r.print rank)

def printInitializer (rank : Expr → Precedence) : Option Expr → List Spelling
  | none => []
  | some e => .mark .assign :: e.print rank

def printExprs (rank : Expr → Precedence) : List Expr → List (List Spelling)
  | [] => []
  | e :: es => e.print rank :: printExprs rank es

def printBindings (rank : Expr → Precedence) : List Binding → List (List Spelling)
  | [] => []
  | ⟨x, T, init, _⟩ :: bs =>
      (.object x :: .mark .colon :: .type T :: printInitializer rank init) ::
        printBindings rank bs

def printBranches (rank : Expr → Precedence) : List Branch → List (List Spelling)
  | [] => []
  | ⟨x, T, body, _⟩ :: bs =>
      (.object x :: .mark .colon :: .type T :: .mark .darrow :: body.print rank) ::
        printBranches rank bs

end

/-- Whether a source can spell the outermost form, the operands apart. -/
def Expr.isPrintable : Expr → Bool
  | .int n _ => 0 ≤ n
  | .name x _ => x ≠ "self"
  | .dispatch none (some _) _ _ _ => false
  | .letIn [] _ _ => false
  | .caseOf _ [] _ => false
  | .primitive _ _ => false
  | _ => true

/-! ## Numerals -/

namespace Text

theorem isDigit_of_mem_toDigits {n : Nat} {c : Char} (h : c ∈ Nat.toDigits 10 n) :
    isDigit c = true := by
  have hdigit := Nat.isDigit_of_mem_toDigits (by decide) (by decide) h
  simpa [isDigit, Char.isDigit, Char.le_def] using hdigit

theorem natural?_toDigits (n : Nat) : natural? (Nat.toDigits 10 n) = some n := by
  have hall : (Nat.toDigits 10 n).all isDigit = true :=
    List.all_eq_true.mpr fun c hc => isDigit_of_mem_toDigits hc
  have hvalue : digitsValue (Nat.toDigits 10 n) = n :=
    Nat.ofDigitChars_toDigits (by decide) (by decide)
  rw [natural?, if_pos ⟨Nat.toDigits_ne_nil, hall⟩, hvalue]

/-- A number that is not negative is written without a sign, and read as itself. -/
theorem int64?_decimal {n : Int64} (hn : 0 ≤ n) : int64? (decimal n).toList = some n := by
  have hnonneg : 0 ≤ n.toInt := by simpa [Int64.le_iff_toInt_le] using hn
  obtain ⟨m, hm⟩ := Int.eq_ofNat_of_zero_le hnonneg
  have hdigits : (decimal n).toList = Nat.toDigits 10 m := by
    rw [decimal, hm]
    exact Nat.toList_repr
  have hlt : m < Nat.pow 2 63 := by
    have hmax := n.toInt_lt
    rw [hm] at hmax
    exact_mod_cast hmax
  have hvalue : Int64.ofNat m = n := by
    rw [← Int64.ofInt_eq_ofNat, ← Int64.ofInt_toInt n, hm]
  have hsign {c : Char} {rest : List Char} (h : Nat.toDigits 10 m = c :: rest) :
      isDigit c = true :=
    isDigit_of_mem_toDigits (h ▸ List.mem_cons_self)
  rw [hdigits]
  unfold int64?
  split
  · exact absurd (hsign (by assumption)) (by decide)
  · exact absurd (hsign (by assumption)) (by decide)
  · rw [int64?.positive?, natural?_toDigits]
    change (if m < Nat.pow 2 63 then some (Int64.ofNat m) else none) = some n
    rw [if_pos hlt, hvalue]

end Text

/-! ## Lists -/

section Lists

variable {α : Type} {Item : α → List Spelling → Prop} {print : α → List Spelling} {as : List α}

theorem separated_commaSeparated (hne : as ≠ []) (has : ∀ a ∈ as, Item a (print a)) :
    Separated Item as (commaSeparated (as.map print)) := by
  induction as with
  | nil => exact absurd rfl hne
  | cons a as ih =>
      have ha := has a List.mem_cons_self
      cases as with
      | nil => simpa [commaSeparated] using Separated.one ha
      | cons b as =>
          have hmore := Separated.more ha (ih nofun fun a ha => has a (List.mem_cons_of_mem _ ha))
          simpa [commaSeparated, List.intercalate] using hmore

theorem parenthesized_commaSeparated (has : ∀ a ∈ as, Item a (print a)) :
    Parenthesized Item as
      (.mark .openParen :: (commaSeparated (as.map print) ++ [.mark .closeParen])) := by
  cases as with
  | nil => exact .none
  | cons a as => exact .some (separated_commaSeparated nofun has)

theorem terminated_semicolonTerminated (has : ∀ a ∈ as, Item a (print a)) :
    Terminated Item as (semicolonTerminated (as.map print)) := by
  induction as with
  | nil => exact .nil
  | cons a as ih =>
      have hmore := Terminated.cons (has a List.mem_cons_self)
        (ih fun a ha => has a (List.mem_cons_of_mem _ ha))
      simpa [semicolonTerminated] using hmore

end Lists

section Print

variable {rank : Expr → Precedence}

theorem printExprs_eq (es : List Expr) :
    printExprs rank es = es.map (·.print rank) := by
  induction es with
  | nil => rfl
  | cons e es ih => rw [printExprs, ih, List.map_cons]

theorem printBindings_eq (bs : List Binding) :
    printBindings rank bs = bs.map fun b =>
      .object b.name :: .mark .colon :: .type b.typeName :: printInitializer rank b.init := by
  induction bs with
  | nil => rfl
  | cons b bs ih =>
      obtain ⟨x, T, init, span⟩ := b
      rw [printBindings, ih, List.map_cons]

theorem printBranches_eq (bs : List Branch) :
    printBranches rank bs = bs.map fun b =>
      .object b.name :: .mark .colon :: .type b.typeName :: .mark .darrow ::
        b.body.print rank := by
  induction bs with
  | nil => rfl
  | cons b bs ih =>
      obtain ⟨x, T, body, span⟩ := b
      rw [printBranches, ih, List.map_cons]

end Print

/-! ## What is printed is a derivation -/

/-- The tokens spell the expression. What they show binds at least as tightly as the lowest operator
in reach, and ends in an assignment, a `let` or a `not` only if such a form is in reach. -/
def Shown (e : Expr) (ts : List Spelling) : Prop :=
  ∃ F : Shape, Derives F e ts ∧ (F.greedy = true → e.reach = .assignment) ∧
    e.reach.level ≤ F.precedence.level

/-- An operator in front of its operand shows no operator between two operands. -/
theorem Derives.not_joins_of_isUnary {F : Shape} {e : Expr} {ts : List Spelling}
    (h : Derives F e ts) (he : e.isUnary = true) : F.precedence.joins = false := by
  cases h <;> first | rfl | cases he

namespace Shown

open Precedence

variable {e : Expr} {ts : List Spelling} {p q : Precedence}

theorem phrase (h : Shown e ts) : Phrase e ts :=
  let ⟨_, he, _⟩ := h
  .intro he

theorem of_closed (h : Derives .closed e ts) : Shown e ts := by
  refine ⟨.closed, h, nofun, ?_⟩
  cases e.reach <;> decide

theorem enclosed (h : Shown e ts) : Derives .closed e (enclose true ts) :=
  .group h.phrase

theorem left (h : Shown e ts) (hq : q.joins = true) :
    ∃ F : Shape, Derives F e (enclose (e.reach.tooLooseLeft q) ts) ∧ F.FitsLeft q := by
  have hlevel := level_of_joins hq
  cases hloose : e.reach.tooLooseLeft q with
  | true => exact ⟨.closed, h.enclosed, Shape.closed_fitsLeft⟩
  | false =>
      obtain ⟨F, he, hgreedy, hreach⟩ := h
      simp only [tooLooseLeft, Bool.or_eq_false_iff, not_looserThan_iff] at hloose
      refine ⟨F, he, ?_, not_looserThan_iff.mpr (Nat.le_trans hloose.1 hreach), ?_⟩
      · rw [Bool.eq_false_iff]
        intro hF
        rw [hgreedy hF] at hloose
        exact absurd (Nat.le_trans hlevel hloose.1) (by decide)
      · rintro ⟨hF, rfl⟩
        rw [hF] at hreach
        have hrel := eq_relational_of_level (Nat.le_antisymm hreach hloose.1)
        simp [hrel] at hloose

theorem right (h : Shown e ts) (hq : q.joins = true) :
    ∃ F : Shape, Derives F e (enclose (e.reach.tooLooseRight q) ts) ∧ F.FitsRight q ∧
      F.greedy = false := by
  cases hloose : e.reach.tooLooseRight q with
  | true => exact ⟨.closed, h.enclosed, Shape.fitsRight_of_not_joins rfl, rfl⟩
  | false =>
      obtain ⟨F, he, hgreedy, hreach⟩ := h
      have htight : q.level < e.reach.level := by
        simpa [tooLooseRight, looserThan] using hloose
      refine ⟨F, he, fun _ => looserThan_iff.mpr (Nat.lt_of_lt_of_le htight hreach), ?_⟩
      rw [Bool.eq_false_iff]
      intro hF
      rw [hgreedy hF] at htight
      exact absurd (Nat.lt_of_le_of_lt (level_of_joins hq) htight) (by decide)

theorem operand (h : Shown e ts) (hp : 6 ≤ p.level) (hp' : p.level < 8) :
    ∃ F : Shape, Derives F e (enclose (e.reach.looserThan p && !e.isUnary) ts) ∧
      F.FitsRight p ∧ (F.greedy = true → e.isUnary = true ∧ e.reach = .assignment) := by
  cases hloose : (e.reach.looserThan p && !e.isUnary) with
  | true => exact ⟨.closed, h.enclosed, Shape.fitsRight_of_not_joins rfl, nofun⟩
  | false =>
      obtain ⟨F, he, hgreedy, hreach⟩ := h
      cases hunary : e.isUnary with
      | true =>
          exact ⟨F, he, Shape.fitsRight_of_not_joins (he.not_joins_of_isUnary hunary),
            fun hF => ⟨rfl, hgreedy hF⟩⟩
      | false =>
          have htight : p.level ≤ e.reach.level := by
            simpa [hunary, looserThan] using hloose
          refine ⟨F, he, fun hjoins => looserThan_iff.mpr ?_, fun hF => ?_⟩
          · -- only the calls bind as tightly as an operator in front
            have hcall := mt (level_of_joins_of_lt hjoins) (by omega)
            omega
          · rw [hgreedy hF] at htight
            exact absurd (Nat.le_trans hp htight) (by decide)

end Shown

/-- An operator in front of its operand reaches what its operand reaches, if that is another one. -/
theorem reach_operator {e e' : Expr} {p : Precedence} {greedy : Bool}
    (he' : e'.reach = if e.isUnary then p.looser e.reach else p) (hp : 1 < p.level)
    (hgreedy : greedy = true → e.isUnary = true ∧ e.reach = .assignment) :
    (greedy = true → e'.reach = .assignment) ∧ e'.reach.level ≤ p.level := by
  constructor
  · intro h
    obtain ⟨hunary, hreach⟩ := hgreedy h
    have hloose : p.looserThan .assignment = false :=
      Precedence.not_looserThan_iff.mpr (Nat.le_of_lt hp)
    simp [he', hunary, hreach, Precedence.looser, hloose]
  · rw [he']
    split
    · exact p.level_looser_le e.reach
    · exact Nat.le_refl _

theorem shown_call {r : Option Expr} {q : Option String} {m : String} {args : List Expr}
    {span : Span} (hr : ∀ e ∈ r, Shown e (e.print Expr.reach))
    (hargs : ∀ e ∈ args, Phrase e (e.print Expr.reach))
    (hself : (Expr.dispatch r q m args span).isPrintable = true) :
    Shown (.dispatch r q m args span) ((Expr.dispatch r q m args span).print Expr.reach) := by
  have hargs' := parenthesized_commaSeparated hargs
  rw [Expr.print, printExprs_eq]
  cases r with
  | none =>
      cases q with
      | none => exact .of_closed (.call hargs')
      | some T => cases hself
  | some r =>
      obtain ⟨F, hleft, hF⟩ := (hr r rfl).left (q := .dispatch) rfl
      rw [printReceiver]
      cases q with
      | none => exact ⟨_, .dispatch hleft hF hargs', nofun, Nat.le_refl _⟩
      | some T => exact ⟨_, .qualified hleft hF hargs', nofun, Nat.le_refl _⟩

theorem bindingPhrase_print {b : Binding} (hb : ∀ e ∈ b.init, Phrase e (e.print Expr.reach)) :
    BindingPhrase b (.object b.name :: .mark .colon :: .type b.typeName ::
      printInitializer Expr.reach b.init) := by
  obtain ⟨x, T, init, span⟩ := b
  cases init with
  | none => exact .intro .none
  | some e => exact .intro (.some (hb e rfl))

/-- What is printed with regard to all operators in reach is a derivation. -/
theorem shown_print (e : Expr) (he : e.every Expr.isPrintable = true) :
    Shown e (e.print Expr.reach) := by
  have ih : ∀ e' ∈ e.children, Shown e' (e'.print Expr.reach) := fun e' he' =>
    shown_print e' (Expr.every_of_mem_children he he')
  have hself := Expr.every_self he
  cases e with
  | int n span =>
      rw [Expr.print]
      exact .of_closed (.int (Text.int64?_decimal (by simpa [Expr.isPrintable] using hself)))
  | str | bool | self | new =>
      rw [Expr.print]
      exact .of_closed (by constructor)
  | name x span =>
      rw [Expr.print]
      exact .of_closed (.name (by simpa [Expr.isPrintable] using hself))
  | assign x value span =>
      rw [Expr.print]
      exact ⟨_, .assign (ih value (by simp [Expr.children])).phrase, fun _ => rfl, Nat.le_refl _⟩
  | dispatch r q m args span =>
      refine shown_call (fun e he => ih e ?_) (fun e he => (ih e ?_).phrase) hself
      · simp [Expr.children, Option.mem_def.mp he]
      · simp [Expr.children, he]
  | cond c t f span =>
      rw [Expr.print]
      exact .of_closed (.cond (ih c (by simp [Expr.children])).phrase
        (ih t (by simp [Expr.children])).phrase (ih f (by simp [Expr.children])).phrase)
  | loop c body span =>
      rw [Expr.print]
      exact .of_closed (.loop (ih c (by simp [Expr.children])).phrase
        (ih body (by simp [Expr.children])).phrase)
  | block body span =>
      rw [Expr.print, printExprs_eq]
      exact .of_closed (.block (terminated_semicolonTerminated fun e he =>
        (ih e (by simpa [Expr.children] using he)).phrase))
  | letIn bs body span =>
      have hne : bs ≠ [] := by
        rintro rfl
        cases hself
      have hbs : ∀ b ∈ bs, ∀ e ∈ b.init, e ∈ (Expr.letIn bs body span).children :=
        fun b hb e he => List.mem_append_left _ (List.mem_filterMap.mpr ⟨b, hb, he⟩)
      rw [Expr.print, printBindings_eq]
      refine ⟨_, .letIn (separated_commaSeparated hne fun b hb => ?_)
        (ih body (by simp [Expr.children])).phrase, fun _ => rfl, Nat.le_refl _⟩
      exact bindingPhrase_print fun e he => (ih e (hbs b hb e he)).phrase
  | caseOf e branches span =>
      have hne : branches ≠ [] := by
        rintro rfl
        cases hself
      rw [Expr.print, printBranches_eq]
      refine .of_closed (.caseOf (ih e (by simp [Expr.children])).phrase
        (terminated_semicolonTerminated fun b hb => ?_) hne)
      have hbody := ih b.body (List.mem_cons_of_mem _ (List.mem_map_of_mem hb))
      obtain ⟨x, T, body, span⟩ := b
      exact .intro hbody.phrase
  | isVoid e span =>
      obtain ⟨F, hoperand, hF, hgreedy⟩ :=
        (ih e (by simp [Expr.children])).operand (p := .isVoid) (by decide) (by decide)
      rw [Expr.print]
      exact ⟨_, .isVoid hoperand hF,
        reach_operator (p := .isVoid) (by rw [Expr.reach]) (by decide) hgreedy⟩
  | unary op e span =>
      cases op with
      | not =>
          rw [Expr.print]
          exact ⟨_, .not (ih e (by simp [Expr.children])).phrase, fun _ => rfl,
            (by decide : 1 ≤ 2)⟩
      | negate =>
          obtain ⟨F, hoperand, hF, hgreedy⟩ :=
            (ih e (by simp [Expr.children])).operand (p := .negate) (by decide) (by decide)
          rw [Expr.print]
          exact ⟨_, .negate hoperand hF,
            reach_operator (p := .negate) (by rw [Expr.reach]) (by decide) hgreedy⟩
  | binary op l r span =>
      obtain ⟨F, hleft, hF⟩ := (ih l (by simp [Expr.children])).left op.joins_precedence
      obtain ⟨G, hright, hG, hgreedy⟩ :=
        (ih r (by simp [Expr.children])).right op.joins_precedence
      rw [Expr.print]
      refine ⟨_, .binary hleft hF hright hG, fun h => ?_, Nat.le_refl _⟩
      cases hgreedy.symm.trans h
  | primitive op span => cases hself
termination_by e.height
decreasing_by exact Expr.height_lt_of_mem_children he'

/-- **Reading what is printed gives the expression back.** -/
theorem parseExpr_print (e : Expr) (he : e.every Expr.isPrintable = true) (tokens : List Token)
    (file : String) (htokens : tokens.map Token.spelling = e.print Expr.reach ++ [.mark .eof]) :
    ∃ e' s', parseExpr .cool .lowest (.ofTokens tokens file) = .ok e' s' ∧
      (∃ eof, s'.rest = [eof] ∧ eof.kind = .eof) ∧ e'.eraseSpans = e.eraseSpans := by
  obtain ⟨ts, last, rfl, hts, hlast⟩ := List.map_eq_append_iff.mp htokens
  obtain ⟨eof, rfl, heof⟩ := List.map_eq_singleton_iff.mp hlast
  have hstart : (TokenStream.ofTokens (ts ++ [eof]) file).rest = ts ++ [eof] := rfl
  obtain ⟨s', hreads, hrest⟩ := TokenStream.exists_reads hstart
  have hkind : eof.kind = .eof := Token.kind_of_spelling heof
  have hend : s'.current.kind = .eof := by rw [TokenStream.current, hrest]; exact hkind
  rw [hts] at hreads
  obtain ⟨e', hok, hsame⟩ := (completes_parseExpr _).phrase (shown_print e he).phrase
    (Nat.le_refl _) hreads (by rw [hend]; decide)
  exact ⟨e', s', hok, ⟨eof, hrest, hkind⟩, hsame⟩

/-- The printed expression as tokens that stand nowhere in particular. -/
def Expr.printTokens (rank : Expr → Precedence) (e : Expr) : List Token :=
  (e.print rank).map Spelling.token ++ [.endOfFile .nowhere]

/-- The sum of `~ not x` and `y`. -/
def negatedSum : Expr :=
  .binary .plus (.unary .negate (.unary .not (.name "x" .nowhere) .nowhere) .nowhere)
    (.name "y" .nowhere) .nowhere

/-- The sum is printed as `(~ not x) + y`, and read as a sum. -/
theorem parseExpr_print_negatedSum :
    negatedSum.print Expr.reach = [.mark .openParen, .mark .tilde, .mark .notKw, .object "x",
      .mark .closeParen, .mark .plus, .object "y"] ∧
    ∃ e' s', parseExpr .cool .lowest (.ofTokens (negatedSum.printTokens Expr.reach) "a.cl") =
        .ok e' s' ∧
      (∃ eof, s'.rest = [eof] ∧ eof.kind = .eof) ∧ e'.eraseSpans = negatedSum.eraseSpans :=
  ⟨by decide +kernel, parseExpr_print negatedSum (by decide +kernel) _ _ (by decide +kernel)⟩

theorem Expr.isUnary_eraseSpans (e : Expr) : e.eraseSpans.isUnary = e.isUnary := by
  cases e <;> rfl

/-- With regard to the outermost operator alone the sum is printed as `~ not x + y`, which is read
as `~ (not (x + y))`. -/
theorem parseExpr_print_rank_fails :
    ¬∀ e : Expr, e.every Expr.isPrintable = true → ∀ tokens file,
      tokens.map Token.spelling = e.print Expr.rank ++ [.mark .eof] →
      ∃ e' s', parseExpr .cool .lowest (.ofTokens tokens file) = .ok e' s' ∧
        (∃ eof, s'.rest = [eof] ∧ eof.kind = .eof) ∧ e'.eraseSpans = e.eraseSpans := by
  intro h
  obtain ⟨e', s', hparse, -, hsame⟩ := h negatedSum (by decide +kernel)
    (negatedSum.printTokens Expr.rank) "a.cl" (by decide +kernel)
  have hunary : ((parseExpr .cool .lowest).run'
      (.ofTokens (negatedSum.printTokens Expr.rank) "a.cl")).map Expr.isUnary = some true := by
    decide +kernel
  have hbinary : e'.isUnary = false := by
    rw [← e'.isUnary_eraseSpans, hsame]
    rfl
  delta EStateM.run' EStateM.run at hunary
  rw [hparse] at hunary
  cases hbinary.symm.trans (Option.some.inj hunary)

end CoolLang
