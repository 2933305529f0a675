import CoolLang.Declaration.Parser
import CoolLang.Proofs.Token.Partition

/-!
# Why a text cannot be read

Whatever is wrong with a text, its readers complain about the text: about a character, about a
number that is too large or about a token that should not stand where it does.
-/

namespace CoolLang

/-- The causes for which a text cannot be read. -/
def Cause.isReading : Cause → Bool
  | .unrecognisedToken _ | .unterminatedString | .invalidStringCharacter _ | .unterminatedComment
  | .unexpectedToken _ | .unexpectedTokenDetailed _ _ | .numberOutOfRange _ => true
  | _ => false

theorem Cause.isFatal_of_isReading {c : Cause} (hc : c.isReading = true) : c.isFatal = true := by
  cases c <;> simp_all [isReading, isFatal, severity]

/-! ## Characters -/

namespace Lexer

theorem isReading_of_quoted {c : Cursor} {text : List Char} {d : Diagnostic}
    (hd : quoted c text = .error d) : d.cause.isReading = true := by
  unfold quoted at hd
  split at hd
  · cases hd
  · cases hd
    rfl
  · cases hd
    rfl

theorem isReading_of_number {c : Cursor} {d : Diagnostic} (hd : number c = .error d) :
    d.cause.isReading = true := by
  unfold number at hd
  dsimp only at hd
  split at hd
  · cases hd
  · cases hd
    rfl

theorem isReading_of_lexeme {c : Cursor} {d : Diagnostic} (hd : lexeme c = .error d) :
    d.cause.isReading = true := by
  unfold lexeme at hd
  split at hd
  · cases hd
  · cases hd
  · split at hd
    · cases hd
    · cases hd
      rfl
  · cases hd
    rfl
  · exact isReading_of_quoted hd
  · split at hd
    · cases hd
    · split at hd
      · exact isReading_of_number hd
      · split at hd
        · cases hd
        · split at hd
          · cases hd
          · cases hd
            rfl

theorem Scans.isReading {c : Cursor} {r : Except Diagnostic (List Token)} (hr : Scans c r) :
    ∀ {d}, r = .error d → d.cause.isReading = true := by
  induction hr with
  | atEnd => intro d hd; cases hd
  | refuse _ hlex =>
      intro d hd
      cases hd
      exact isReading_of_lexeme hlex
  | gap _ _ _ ih => exact ih
  | @token c kind text n r _ _ _ ih =>
      intro d hd
      cases r with
      | ok tokens => cases hd
      | error d' =>
          cases hd
          exact ih rfl

end Lexer

/-! ## Tokens -/

namespace Parse

variable {α β : Type}

/-- Where the reader fails, it complains about the text. -/
def Complains (x : Parse α) : Prop :=
  ∀ s d s', x s = .error d s' → d.cause.isReading = true

namespace Complains

theorem of_ok {x : Parse α} (hx : ∀ s, ∃ a s', x s = .ok a s') : Complains x := by
  intro s d s' hd
  obtain ⟨a, s₁, hok⟩ := hx s
  cases hok.symm.trans hd

theorem ret (a : α) : Complains (pure a : Parse α) := of_ok fun s => ⟨a, s, rfl⟩

theorem raise {d : Diagnostic} (hd : d.cause.isReading = true) :
    Complains (throw d : Parse α) := by
  intro s d' s' hd'
  cases hd'
  exact hd

theorem unexpected : Complains (Parse.unexpected : Parse α) := by
  intro s d s' hd
  cases hd
  rfl

theorem unexpectedBecause (reason : String) :
    Complains (Parse.unexpectedBecause reason : Parse α) := by
  intro s d s' hd
  cases hd
  rfl

theorem expect (kind : TokenKind) : Complains (Parse.expect kind) := by
  intro s d s' hd
  unfold Parse.expect expectOr at hd
  split at hd
  · cases hd
  · cases hd
    rfl

theorem bind {x : Parse α} {f : α → Parse β} (hx : Complains x) (hf : ∀ a, Complains (f a)) :
    Complains (x >>= f) := by
  intro s d s' hd
  change EStateM.bind x f s = _ at hd
  unfold EStateM.bind at hd
  split at hd
  · exact hf _ _ d s' hd
  · rename_i herror
    cases hd
    exact hx s d s' herror

/-- The first part never fails. -/
theorem skip {x : Parse α} {f : α → Parse β} (hx : ∀ s, ∃ a s', x s = .ok a s')
    (hf : ∀ a, Complains (f a)) : Complains (x >>= f) :=
  (of_ok hx).bind hf

theorem advance {f : Token → Parse α} (hf : ∀ t, Complains (f t)) :
    Complains (Parse.advance >>= f) :=
  skip (fun s => ⟨_, s.advance, rfl⟩) hf

theorem currentKind {f : TokenKind → Parse α} (hf : ∀ k, Complains (f k)) :
    Complains (Parse.currentKind >>= f) :=
  skip (fun s => ⟨_, s, rfl⟩) hf

theorem spanFrom {start : Position} {f : Span → Parse α} (hf : ∀ span, Complains (f span)) :
    Complains (Parse.spanFrom start >>= f) :=
  skip (fun s => ⟨_, s, rfl⟩) hf

theorem accept (kind : TokenKind) {f : Bool → Parse α} (hf : ∀ b, Complains (f b)) :
    Complains (Parse.accept kind >>= f) := by
  refine skip (fun s => ?_) hf
  unfold Parse.accept
  split
  · exact ⟨_, _, rfl⟩
  · exact ⟨_, _, rfl⟩

theorem bounded {reader : Nat → Parse α} (hreader : ∀ n, Complains (reader n)) :
    Complains (Parse.bounded reader) :=
  fun s => hreader _ s

/-! ## Lists -/

theorem itemsUntil {item : Parse α} (hitem : Complains item) (close : TokenKind) :
    Complains (Parse.itemsUntil close item) := by
  refine bounded fun bound => ?_
  induction bound with
  | zero =>
      refine currentKind fun kind => ?_
      split
      · exact ret _
      · exact unexpected
  | succ bound ih =>
      refine currentKind fun kind => ?_
      split
      · exact ret _
      · exact hitem.bind fun a => ih.bind fun as => ret _

theorem commaSeparated {item : Parse α} (hitem : Complains item) :
    Complains (Parse.commaSeparated item) := by
  refine bounded fun bound => ?_
  induction bound with
  | zero =>
      refine hitem.bind fun a => accept _ fun more => ?_
      split
      · exact unexpected
      · exact ret _
  | succ bound ih =>
      refine hitem.bind fun a => accept _ fun more => ?_
      split
      · exact ih.bind fun as => ret _
      · exact ret _

theorem parenthesized {item : Parse α} (hitem : Complains item) :
    Complains (Parse.parenthesized item) := by
  refine (expect _).bind fun _ => currentKind fun kind => ?_
  split
  · exact (ret _).bind fun as => (expect _).bind fun _ => ret _
  · exact (commaSeparated hitem).bind fun as => (expect _).bind fun _ => ret _

end Complains

end Parse

/-! ## Expressions -/

def ExprReader.Complains (expr : ExprReader) : Prop :=
  ∀ power, Parse.Complains (expr power)

namespace ExprReader

open Parse.Complains

variable {expr : ExprReader}

theorem complains_literal : Parse.Complains literal := by
  refine advance fun token => ?_
  split
  · split
    · exact ret _
    · exact raise rfl
  · exact ret _
  · exact ret _
  · exact ret _
  · exact raise rfl

theorem complains_arguments (hexpr : expr.Complains) : Parse.Complains (arguments expr) :=
  parenthesized (hexpr .lowest)

theorem complains_identifier (hexpr : expr.Complains) : Parse.Complains (identifier expr) := by
  refine advance fun token => currentKind fun kind => ?_
  split
  · exact (complains_arguments hexpr).bind fun es => spanFrom fun span => ret _
  · exact advance fun _ => (hexpr .lowest).bind fun e => spanFrom fun span => ret _
  · split
    · exact ret _
    · exact ret _

theorem complains_operator (hexpr : expr.Complains) : Parse.Complains (operator expr) := by
  refine advance fun token => ?_
  split
  · exact (hexpr _).bind fun e => spanFrom fun span => ret _
  · exact (hexpr _).bind fun e => spanFrom fun span => ret _
  · exact (hexpr _).bind fun e => spanFrom fun span => ret _
  · exact raise rfl

theorem complains_grouping (hexpr : expr.Complains) : Parse.Complains (grouping expr) :=
  advance fun _ => (hexpr .lowest).bind fun _ => (expect _).bind fun _ => ret _

theorem complains_newObject : Parse.Complains newObject :=
  advance fun _ => (expect _).bind fun _ => spanFrom fun _ => ret _

theorem complains_conditional (hexpr : expr.Complains) : Parse.Complains (conditional expr) := by
  refine advance fun token => (hexpr .lowest).bind fun c => (expect _).bind fun _ => ?_
  refine (hexpr .lowest).bind fun t => (expect _).bind fun _ => ?_
  exact (hexpr .lowest).bind fun f => (expect _).bind fun _ => spanFrom fun span => ret _

theorem complains_loop (hexpr : expr.Complains) : Parse.Complains (loop expr) := by
  refine advance fun token => (hexpr .lowest).bind fun c => (expect _).bind fun _ => ?_
  exact (hexpr .lowest).bind fun body => (expect _).bind fun _ => spanFrom fun span => ret _

theorem complains_statement (hexpr : expr.Complains) : Parse.Complains (statement expr) :=
  (hexpr .lowest).bind fun _ => (expect _).bind fun _ => ret _

theorem complains_block (hexpr : expr.Complains) : Parse.Complains (block expr) :=
  advance fun _ => (itemsUntil (complains_statement hexpr) _).bind fun _ =>
    (expect _).bind fun _ => spanFrom fun _ => ret _

theorem complains_initializer (hexpr : expr.Complains) : Parse.Complains (initializer expr) := by
  refine accept _ fun more => ?_
  split
  · exact (hexpr .lowest).bind fun e => ret _
  · exact ret _

theorem complains_binding (hexpr : expr.Complains) : Parse.Complains (binding expr) :=
  (expect _).bind fun _ => (expect _).bind fun _ => (expect _).bind fun _ =>
    (complains_initializer hexpr).bind fun _ => spanFrom fun _ => ret _

theorem complains_letIn (hexpr : expr.Complains) : Parse.Complains (letIn expr) :=
  advance fun _ => (commaSeparated (complains_binding hexpr)).bind fun _ =>
    (expect _).bind fun _ => (hexpr .lowest).bind fun _ => spanFrom fun _ => ret _

theorem complains_branch (hexpr : expr.Complains) : Parse.Complains (branch expr) :=
  (expect _).bind fun _ => (expect _).bind fun _ => (expect _).bind fun _ =>
    (expect _).bind fun _ => (complains_statement hexpr).bind fun _ => spanFrom fun _ => ret _

theorem complains_caseOf (hexpr : expr.Complains) : Parse.Complains (caseOf expr) := by
  refine advance fun token => (hexpr .lowest).bind fun e => (expect _).bind fun _ => ?_
  refine (itemsUntil (complains_branch hexpr) _).bind fun branches => ?_
  dsimp only
  split
  · exact (unexpectedBecause _).bind fun _ => (expect _).bind fun _ => spanFrom fun _ => ret _
  · exact (expect _).bind fun _ => spanFrom fun _ => ret _

theorem complains_opening (hexpr : expr.Complains) (form : Opening) :
    Parse.Complains (opening expr form) := by
  cases form with
  | literal => exact complains_literal
  | identifier => exact complains_identifier hexpr
  | grouping => exact complains_grouping hexpr
  | operator => exact complains_operator hexpr
  | newObject => exact complains_newObject
  | conditional => exact complains_conditional hexpr
  | loop => exact complains_loop hexpr
  | block => exact complains_block hexpr
  | letIn => exact complains_letIn hexpr
  | caseOf => exact complains_caseOf hexpr

theorem complains_binary (hexpr : expr.Complains) (power : Precedence) (left : Expr) :
    Parse.Complains (binary expr power left) := by
  refine advance fun token => ?_
  split
  · exact raise rfl
  · refine (hexpr power).bind fun right => currentKind fun kind => ?_
    dsimp only
    split
    · exact (unexpectedBecause _).bind fun _ => ret _
    · exact ret _

theorem complains_continuation (hexpr : expr.Complains) (power : Precedence) (left : Expr)
    (form : Continuation) : Parse.Complains (continuation expr power left form) := by
  cases form with
  | binary => exact complains_binary hexpr power left
  | dispatch =>
      exact (expect _).bind fun _ => (expect _).bind fun _ =>
        (complains_arguments hexpr).bind fun _ => spanFrom fun _ => ret _
  | qualifiedDispatch =>
      exact (expect _).bind fun _ => (expect _).bind fun _ => (expect _).bind fun _ =>
        (expect _).bind fun _ => (complains_arguments hexpr).bind fun _ => spanFrom fun _ => ret _

theorem complains_continuations (table : FormTable) (hexpr : expr.Complains) (power : Precedence)
    (left : Expr) : Parse.Complains (continuations table expr power left) := by
  refine bounded fun bound => ?_
  induction bound generalizing left with
  | zero =>
      unfold continuations.go
      refine currentKind fun kind => ?_
      split
      · exact ret _
      · split
        · exact unexpected
        · exact ret _
  | succ bound ih =>
      unfold continuations.go
      refine currentKind fun kind => ?_
      split
      · exact ret _
      · split
        · exact (complains_continuation hexpr _ left _).bind ih
        · exact ret _

end ExprReader

open Parse.Complains

theorem complains_parseExprWithin (table : FormTable) (depth : Nat) :
    (parseExprWithin table depth).Complains := by
  induction depth with
  | zero => exact fun power => unexpected
  | succ depth ih =>
      intro power
      refine currentKind fun kind => ?_
      split
      · exact unexpected
      · rename_i form _
        exact (ExprReader.complains_opening ih form).bind fun left =>
          ExprReader.complains_continuations table ih power left

theorem complains_parseExpr (table : FormTable) : (parseExpr table).Complains :=
  fun power => bounded fun depth => complains_parseExprWithin table depth power

/-! ## Declarations -/

variable {expr : ExprReader}

theorem complains_formal : Parse.Complains Parse.formal :=
  (expect _).bind fun _ => (expect _).bind fun _ => (expect _).bind fun _ => spanFrom fun _ => ret _

theorem complains_methodDecl (hexpr : expr.Complains) : (Parse.methodDecl expr).Complains := by
  refine (expect _).bind fun _ => (parenthesized complains_formal).bind fun _ => ?_
  refine (expect _).bind fun _ => (expect _).bind fun _ => (expect _).bind fun _ => ?_
  exact (hexpr .lowest).bind fun _ => (expect _).bind fun _ => spanFrom fun _ => ret _

theorem complains_attributeDecl (hexpr : expr.Complains) : (Parse.attributeDecl expr).Complains :=
  (expect _).bind fun _ => (expect _).bind fun _ => (expect _).bind fun _ =>
    (ExprReader.complains_initializer hexpr).bind fun _ => spanFrom fun _ => ret _

theorem complains_feature (hexpr : expr.Complains) : (Parse.feature expr).Complains := by
  refine skip (fun s => ⟨s, s, rfl⟩) fun s => ?_
  split
  · exact (complains_methodDecl hexpr).bind fun _ => ret _
  · exact (complains_attributeDecl hexpr).bind fun _ => ret _

theorem complains_classDecl (hexpr : expr.Complains) : (Parse.classDecl expr).Complains := by
  have hparent : Parse.Complains Parse.parentClause := by
    refine accept _ fun more => ?_
    split
    · exact (expect _).bind fun _ => ret _
    · exact ret _
  refine (expect _).bind fun _ => (expect _).bind fun _ => hparent.bind fun _ => ?_
  refine (expect _).bind fun _ => (itemsUntil ?_ _).bind fun _ => ?_
  · exact (complains_feature hexpr).bind fun _ => (expect _).bind fun _ => ret _
  · exact (expect _).bind fun _ => spanFrom fun _ => ret _

theorem complains_program (hexpr : expr.Complains) : (Parse.program expr).Complains :=
  itemsUntil ((complains_classDecl hexpr).bind fun _ => (expect _).bind fun _ => ret _) _

/-- A source that cannot be read is refused for what its text is. -/
theorem isReading_of_readProgram {source file : String} {d : Diagnostic}
    (hd : readProgram source file = .error d) : d.cause.isReading = true := by
  unfold readProgram at hd
  cases htokens : tokenize source file with
  | error d' =>
      rw [htokens] at hd
      cases hd
      exact (Lexer.scans_tokenize source file).isReading htokens
  | ok tokens =>
      rw [htokens] at hd
      change parseProgram tokens file = .error d at hd
      unfold parseProgram at hd
      split at hd
      · cases hd
      · rename_i herror
        cases hd
        exact complains_program (complains_parseExpr .cool) _ _ _ herror

end CoolLang
