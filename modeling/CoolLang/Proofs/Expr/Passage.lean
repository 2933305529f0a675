import CoolLang.Expr.Parser
import CoolLang.Proofs.Token.Passage

/-!
# The way of the readers of expressions

Each form is read from a token on and lies in the tokens that were taken for it. Every expression
inside a form is read from fewer tokens than the form, so a reader of expressions may call itself:
`goes_exprRounds` compares readers that do so to different depths.
-/

namespace CoolLang

open Parse

/-- On streams of at most `k` tokens the readers have the same outcome, and an expression lies in
the tokens taken for it. -/
def ExprReader.Goes (k : Nat) (expr expr' : ExprReader) : Prop :=
  ∀ power s, Parse.Goes k (expr power) (expr' power) s fun e s' => s.Item e.extent s'

namespace ExprReader

variable {k : Nat} {expr expr' : ExprReader} {s : TokenStream}

theorem Goes.mono (h : Goes k expr expr') {j : Nat} (hjk : j ≤ k) : Goes j expr expr' :=
  fun power s => (h power s).mono hjk

/-! ## Openings -/

theorem goes_literal (hs : s.current.kind ≠ .eof) :
    Parse.Goes k literal literal s fun e s' => s.Item e.extent s' := by
  refine (Goes.advance hs).bind fun token s' htoken => ?_
  split
  · split
    · exact .ret htoken.leaf
    · exact .raise _
  · exact .ret htoken.leaf
  · exact .ret htoken.leaf
  · exact .ret htoken.leaf
  · exact .raise _

theorem goes_arguments (hexpr : Goes k expr expr') :
    Parse.Goes k (arguments expr) (arguments expr') s fun es s' =>
      s.Holds (extentsExprs es) s' := by
  refine (Goes.parenthesized (hexpr .lowest)).weaken fun es s' hes => ?_
  rwa [extentsExprs_eq_map]

theorem goes_identifier (hexpr : Goes k expr expr') (hs : s.current.kind ≠ .eof) :
    Parse.Goes (k + 1) (identifier expr) (identifier expr') s fun e s' => s.Item e.extent s' := by
  refine Goes.opens hs fun token s₁ htoken => Goes.onKind ?_
  split
  · refine (goes_arguments hexpr).bind fun es s₂ hes => ?_
    exact .spanned (htoken.item hes)
  · rename_i hassign
    refine (Goes.advance (hassign ▸ by decide)).bind fun _ s₂ harrow => ?_
    refine (hexpr .lowest s₂).bind fun e s₃ he => ?_
    exact .spanned (htoken.item (harrow.passes.holds.append he.toHolds))
  · split
    · exact .ret htoken.leaf
    · exact .ret htoken.leaf

theorem goes_operator (hexpr : Goes k expr expr') (hs : s.current.kind ≠ .eof) :
    Parse.Goes (k + 1) (operator expr) (operator expr') s fun e s' => s.Item e.extent s' := by
  refine Goes.opens hs fun token s₁ htoken => ?_
  split
  · exact (hexpr _ s₁).bind fun e s₂ he => .spanned (htoken.item he.toHolds)
  · exact (hexpr _ s₁).bind fun e s₂ he => .spanned (htoken.item he.toHolds)
  · exact (hexpr _ s₁).bind fun e s₂ he => .spanned (htoken.item he.toHolds)
  · exact .raise _

/-- Parentheses leave no node. -/
theorem goes_grouping (hexpr : Goes k expr expr') (hs : s.current.kind ≠ .eof) :
    Parse.Goes (k + 1) (grouping expr) (grouping expr') s fun e s' => s.Item e.extent s' := by
  refine Goes.opens hs fun _ s₁ hopen => (hexpr .lowest s₁).bind fun e s₂ he => ?_
  refine (Goes.mark (by decide)).bind fun _ s₃ hclose => ?_
  exact .ret (hopen.before (he.ended hclose))

theorem goes_newObject (hs : s.current.kind ≠ .eof) :
    Parse.Goes k newObject newObject s fun e s' => s.Item e.extent s' := by
  refine (Goes.advance hs).bind fun token s₁ htoken => ?_
  refine (Goes.mark (by decide)).bind fun typeName s₂ htype => ?_
  exact .spanned (htoken.item htype.holds)

theorem goes_conditional (hexpr : Goes k expr expr') (hs : s.current.kind ≠ .eof) :
    Parse.Goes (k + 1) (conditional expr) (conditional expr') s
      fun e s' => s.Item e.extent s' := by
  refine Goes.opens hs fun token s₁ htoken => (hexpr .lowest s₁).bind fun c s₂ hc => ?_
  refine (Goes.mark (by decide)).bind fun _ s₃ hthen => (hexpr .lowest s₃).bind fun t s₄ ht => ?_
  refine (Goes.mark (by decide)).bind fun _ s₅ helse => (hexpr .lowest s₅).bind fun f s₆ hf => ?_
  refine (Goes.mark (by decide)).bind fun _ s₇ hfi => ?_
  have hbranches := (ht.ended helse).toHolds.append (hf.ended hfi).toHolds
  exact .spanned (htoken.item ((hc.ended hthen).toHolds.append hbranches))

theorem goes_loop (hexpr : Goes k expr expr') (hs : s.current.kind ≠ .eof) :
    Parse.Goes (k + 1) (loop expr) (loop expr') s fun e s' => s.Item e.extent s' := by
  refine Goes.opens hs fun token s₁ htoken => (hexpr .lowest s₁).bind fun c s₂ hc => ?_
  refine (Goes.mark (by decide)).bind fun _ s₃ hloop => (hexpr .lowest s₃).bind fun b s₄ hb => ?_
  refine (Goes.mark (by decide)).bind fun _ s₅ hpool => ?_
  exact .spanned (htoken.item ((hc.ended hloop).toHolds.append (hb.ended hpool).toHolds))

theorem goes_statement (hexpr : Goes k expr expr') :
    Parse.Goes k (statement expr) (statement expr') s fun e s' => s.Item e.extent s' :=
  (hexpr .lowest s).ended

theorem goes_block (hexpr : Goes k expr expr') (hs : s.current.kind ≠ .eof) :
    Parse.Goes (k + 1) (block expr) (block expr') s fun e s' => s.Item e.extent s' := by
  refine Goes.opens hs fun token s₁ htoken => ?_
  refine (Goes.itemsUntil (fun _ => goes_statement hexpr) _).bind fun es s₂ hes => ?_
  refine (Goes.mark (by decide)).bind fun _ s₃ hclose => ?_
  rw [← extentsExprs_eq_map] at hes
  exact .spanned (htoken.item (hes.ended hclose))

theorem goes_initializer (hexpr : Goes k expr expr') :
    Parse.Goes k (initializer expr) (initializer expr') s fun init s' =>
      s.Holds (extentsOption init) s' := by
  refine (Goes.accept (by decide)).bind fun more s₁ harrow => ?_
  split
  · exact (hexpr .lowest s₁).bind fun e s₂ he => .ret (harrow.holds.append he.toHolds)
  · exact .ret harrow.holds

theorem goes_binding (hexpr : Goes k expr expr') :
    Parse.Goes k (binding expr) (binding expr') s fun b s' => s.Item b.extent s' := by
  refine (Goes.expect (by decide)).bind fun name s₁ hname => ?_
  refine (Goes.mark (by decide)).bind fun _ s₂ hcolon => ?_
  refine (Goes.mark (by decide)).bind fun typeName s₃ htype => ?_
  refine (goes_initializer hexpr).bind fun init s₄ hinit => ?_
  exact .spanned (hname.item ((hcolon.trans htype).holds.append hinit))

theorem goes_letIn (hexpr : Goes k expr expr') (hs : s.current.kind ≠ .eof) :
    Parse.Goes (k + 1) (letIn expr) (letIn expr') s fun e s' => s.Item e.extent s' := by
  refine Goes.opens hs fun token s₁ htoken => ?_
  refine (Goes.commaSeparated fun _ => goes_binding hexpr).bind fun bs s₂ hbs => ?_
  refine (Goes.mark (by decide)).bind fun _ s₃ hin => (hexpr .lowest s₃).bind fun e s₄ he => ?_
  rw [← extentsBindings_eq_map] at hbs
  exact .spanned (htoken.item ((hbs.ended hin).append he.toHolds))

theorem goes_branch (hexpr : Goes k expr expr') :
    Parse.Goes k (branch expr) (branch expr') s fun b s' => s.Item b.extent s' := by
  refine (Goes.expect (by decide)).bind fun name s₁ hname => ?_
  refine (Goes.mark (by decide)).bind fun _ s₂ hcolon => ?_
  refine (Goes.mark (by decide)).bind fun typeName s₃ htype => ?_
  refine (Goes.mark (by decide)).bind fun _ s₄ harrow => ?_
  refine (goes_statement hexpr).bind fun body s₅ hbody => ?_
  have hfront := (hcolon.trans htype).trans harrow
  exact .spanned (hname.item (hfront.holds.append hbody.toHolds))

theorem goes_caseOf (hexpr : Goes k expr expr') (hs : s.current.kind ≠ .eof) :
    Parse.Goes (k + 1) (caseOf expr) (caseOf expr') s fun e s' => s.Item e.extent s' := by
  refine Goes.opens hs fun token s₁ htoken => (hexpr .lowest s₁).bind fun e s₂ he => ?_
  refine (Goes.mark (by decide)).bind fun _ s₃ hof => ?_
  refine (Goes.itemsUntil (fun _ => goes_branch hexpr) _).bind fun bs s₄ hbs => ?_
  rw [← extentsBranches_eq_map] at hbs
  dsimp only
  split
  · exact .fails rfl rfl
  · refine (Goes.mark (by decide)).bind fun _ s₅ hesac => ?_
    exact .spanned (htoken.item ((he.ended hof).toHolds.append (hbs.ended hesac)))

theorem goes_opening (hexpr : Goes k expr expr') (hs : s.current.kind ≠ .eof) (form : Opening) :
    Parse.Goes (k + 1) (opening expr form) (opening expr' form) s
      fun e s' => s.Item e.extent s' := by
  cases form with
  | literal => exact goes_literal hs
  | identifier => exact goes_identifier hexpr hs
  | grouping => exact goes_grouping hexpr hs
  | operator => exact goes_operator hexpr hs
  | newObject => exact goes_newObject hs
  | conditional => exact goes_conditional hexpr hs
  | loop => exact goes_loop hexpr hs
  | block => exact goes_block hexpr hs
  | letIn => exact goes_letIn hexpr hs
  | caseOf => exact goes_caseOf hexpr hs

/-! ## Continuations -/

theorem goes_binary (hexpr : Goes k expr expr') (hs : s.current.kind ≠ .eof) (power : Precedence)
    (left : Expr) :
    Parse.Goes k (binary expr power left) (binary expr' power left) s
      fun e s' => s.Extends left.extent e.extent s' ∧ s'.rest.length < s.rest.length := by
  refine (Goes.advance hs).moving fun token s₁ htoken => ?_
  split
  · exact .raise _
  · refine (hexpr power s₁).bind fun right s₂ hright => Goes.onKind ?_
    dsimp only
    split
    · exact .fails rfl rfl
    · refine .ret fun s₀ hleft => ?_
      have hpair := (hleft.ended htoken.passes).pair hright.toHolds
      rwa [Expr.span_extent, Expr.span_extent] at hpair

theorem goes_dispatch (hexpr : Goes k expr expr') (left : Expr) :
    Parse.Goes k (dispatch expr left) (dispatch expr' left) s
      fun e s' => s.Extends left.extent e.extent s' ∧ s'.rest.length < s.rest.length := by
  refine (Goes.expect (by decide)).moving fun _ s₁ hdot => ?_
  refine (Goes.mark (by decide)).bind fun method s₂ hmethod => ?_
  refine (goes_arguments hexpr).bind fun es s₃ hes => .spanned fun s₀ hleft => ?_
  have haround := (hleft.ended (hdot.passes.trans hmethod)).around hes
  rwa [Expr.span_extent] at haround

theorem goes_qualifiedDispatch (hexpr : Goes k expr expr') (left : Expr) :
    Parse.Goes k (qualifiedDispatch expr left) (qualifiedDispatch expr' left) s
      fun e s' => s.Extends left.extent e.extent s' ∧ s'.rest.length < s.rest.length := by
  refine (Goes.expect (by decide)).moving fun _ s₁ hat => ?_
  refine (Goes.mark (by decide)).bind fun qualifier s₂ hqualifier => ?_
  refine (Goes.mark (by decide)).bind fun _ s₃ hdot => ?_
  refine (Goes.mark (by decide)).bind fun method s₄ hmethod => ?_
  refine (goes_arguments hexpr).bind fun es s₅ hes => .spanned fun s₀ hleft => ?_
  have hfront := (hat.passes.trans hqualifier).trans (hdot.trans hmethod)
  have haround := (hleft.ended hfront).around hes
  rwa [Expr.span_extent] at haround

theorem goes_continuation (hexpr : Goes k expr expr') (hs : s.current.kind ≠ .eof)
    (power : Precedence) (left : Expr) (form : Continuation) :
    Parse.Goes k (continuation expr power left form) (continuation expr' power left form) s
      fun e s' => s.Extends left.extent e.extent s' ∧ s'.rest.length < s.rest.length := by
  cases form with
  | binary => exact goes_binary hexpr hs power left
  | dispatch => exact goes_dispatch hexpr left
  | qualifiedDispatch => exact goes_qualifiedDispatch hexpr left

/-- One round of the continuations of `left`; `again` looks for the next. -/
def continuationRound (table : FormTable) (expr : ExprReader) (power : Precedence)
    (again : Expr → Parse Expr) (left : Expr) : Parse Expr := do
  match table.continuation? (← Parse.currentKind) with
  | none => return left
  | some (form, next) =>
    if power.looserThan next then again (← continuation expr next left form) else return left

theorem continuations_go (table : FormTable) (expr : ExprReader) (power : Precedence) (n : Nat) :
    continuations.go table expr power n =
      (continuationRound table expr power)^[n] (continuations.go table expr power 0) :=
  iterate_of_succ _ (continuations.go table expr power)
    (fun _ => funext fun _ => (continuations.go.eq_def ..).trans rfl) n

theorem goes_continuationRounds (hexpr : Goes k expr expr') (power : Precedence)
    (again again' : Expr → Parse Expr) {j n m : Nat} (hjk : j ≤ k) (hn : j ≤ n) (hm : j ≤ m)
    (left : Expr) :
    Parse.Goes j ((continuationRound .cool expr power)^[n] again left)
      ((continuationRound .cool expr' power)^[m] again' left) s
      fun e s' => s.Extends left.extent e.extent s' := by
  refine iterate_rel (fun j x x' => j ≤ k → ∀ left s, Parse.Goes j (x left) (x' left) s
    fun e s' => s.Extends left.extent e.extent s') ?_ ?_ hn hm again again' hjk left s
  · intro x x' _ left s
    exact .zero
  · intro j x x' ih hjk left s
    refine Goes.onKind ?_
    cases hform : FormTable.cool.continuation? s.current.kind with
    | none => exact .ret fun _ hleft => hleft
    | some found =>
        obtain ⟨form, next⟩ := found
        have hs : s.current.kind ≠ .eof := by
          intro heof
          rw [heof] at hform
          cases hform
        dsimp only
        split
        · refine (goes_continuation (hexpr.mono hjk) hs next left form).bindLess
            (fun _ _ he => he.2) fun e s₁ he => ?_
          refine (ih (Nat.le_of_succ_le hjk) e s₁).weaken fun e' s₂ he' s₀ hleft => ?_
          exact he' s₀ (he.1 s₀ hleft)
        · exact .ret fun _ hleft => hleft

theorem goes_continuations (hexpr : Goes k expr expr') (power : Precedence) (left : Expr) :
    Parse.Goes k (continuations .cool expr power left) (continuations .cool expr' power left) s
      fun e s' => s.Extends left.extent e.extent s' := by
  refine Goes.bounded fun n hn => ?_
  rw [continuations_go .cool expr, continuations_go .cool expr']
  exact goes_continuationRounds hexpr power _ _ hn (Nat.le_refl n) (Nat.le_refl n) left

end ExprReader

open ExprReader

/-! ## Expressions -/

/-- One level of an expression; `expr` reads the expressions inside. -/
def exprRound (table : FormTable) (expr : ExprReader) : ExprReader := fun power => do
  match table.opening? (← Parse.currentKind) with
  | none => Parse.unexpected
  | some form =>
    let left ← opening expr form
    continuations table expr power left

theorem parseExprWithin_eq (table : FormTable) (n : Nat) :
    parseExprWithin table n = (exprRound table)^[n] (parseExprWithin table 0) :=
  iterate_of_succ _ (parseExprWithin table) (fun _ => rfl) n

theorem goes_exprRounds (expr expr' : ExprReader) {k n m : Nat} (hn : k ≤ n) (hm : k ≤ m) :
    ExprReader.Goes k ((exprRound .cool)^[n] expr) ((exprRound .cool)^[m] expr') := by
  refine iterate_rel ExprReader.Goes (fun x x' power s => .zero) ?_ hn hm expr expr'
  intro k expr expr' hexpr power s
  -- the opening takes its first token before it reads an expression, so `hexpr` is enough for all
  refine Goes.onKind ?_
  cases hform : FormTable.cool.opening? s.current.kind with
  | none => exact .unexpected
  | some form =>
      have hs : s.current.kind ≠ .eof := by
        intro heof
        rw [heof] at hform
        cases hform
      refine (goes_opening hexpr hs form).bindLess (fun _ _ he => he.moves) fun left s₁ hleft => ?_
      exact (goes_continuations hexpr power left).weaken fun e s₂ he => he s hleft

theorem goes_parseExpr (k : Nat) : ExprReader.Goes k (parseExpr .cool) (parseExpr .cool) := by
  refine fun power s => Goes.bounded fun n _ => ?_
  rw [parseExprWithin_eq]
  exact goes_exprRounds _ _ (Nat.le_refl n) (Nat.le_refl n) power s

end CoolLang
