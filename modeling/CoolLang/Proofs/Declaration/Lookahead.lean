import CoolLang.Declaration.Parser
import CoolLang.Proofs.Token.Lookahead

/-!
# How far the readers of programs look

The readers of expressions and declarations decide by the token in front. One of them looks at the
token behind that one: whether a feature is a method or an attribute shows behind its name. Both
readers begin with the name, though, so the difference matters only once the name is taken.
-/

namespace CoolLang

open Parse

/-! ## Expressions -/

/-- The readers have the same outcomes on streams that share at most `k` tokens. -/
def ExprReader.Leads (k : Nat) (expr expr' : ExprReader) : Prop :=
  ∀ power, Parse.Leads k (expr power) (expr' power)

namespace ExprReader

variable {k : Nat} {expr expr' : ExprReader}

theorem Leads.mono (h : Leads k expr expr') {j : Nat} (hjk : j ≤ k) : Leads j expr expr' :=
  fun power => (h power).mono hjk

theorem leads_literal : Parse.Leads k literal literal := by
  refine Leads.advance.bind fun token => ?_
  split
  · split
    · exact .ret _
    · exact .raise _
  · exact .ret _
  · exact .ret _
  · exact .ret _
  · exact .raise _

theorem tracks_arguments (hexpr : Leads k expr expr') :
    Tracks k (arguments expr) (arguments expr') :=
  .parenthesized (hexpr .lowest)

theorem leads_identifier (hexpr : Leads (k - 1) expr expr') :
    Parse.Leads k (identifier expr) (identifier expr') := by
  refine Leads.advance.bind fun token => Tracks.currentKind.bind fun kind => ?_
  split
  · exact (tracks_arguments hexpr).bind fun es => .spanned _ _
  · refine Leads.advance.toTracks.bind fun _ => (hexpr .lowest).toTracks.bind fun e => ?_
    exact .spanned _ _
  · split
    · exact .ret _
    · exact .ret _

theorem leads_operator (hexpr : Leads (k - 1) expr expr') :
    Parse.Leads k (operator expr) (operator expr') := by
  refine Leads.advance.bind fun token => ?_
  split
  · exact (hexpr _).toTracks.bind fun e => .spanned _ _
  · exact (hexpr _).toTracks.bind fun e => .spanned _ _
  · exact (hexpr _).toTracks.bind fun e => .spanned _ _
  · exact .raise _

theorem leads_grouping (hexpr : Leads (k - 1) expr expr') :
    Parse.Leads k (grouping expr) (grouping expr') :=
  Leads.advance.bind fun _ => (hexpr .lowest).toTracks.bind fun _ =>
    (Tracks.expect _).bind fun _ => .ret _

theorem leads_newObject : Parse.Leads k newObject newObject :=
  Leads.advance.bind fun _ => (Tracks.expect _).bind fun _ => .spanned _ _

theorem leads_conditional (hexpr : Leads (k - 1) expr expr') :
    Parse.Leads k (conditional expr) (conditional expr') := by
  have hphrase := (hexpr .lowest).toTracks
  refine Leads.advance.bind fun token => hphrase.bind fun c => ?_
  refine (Tracks.expect _).bind fun _ => hphrase.bind fun t => ?_
  refine (Tracks.expect _).bind fun _ => hphrase.bind fun f => ?_
  exact (Tracks.expect _).bind fun _ => .spanned _ _

theorem leads_loop (hexpr : Leads (k - 1) expr expr') :
    Parse.Leads k (loop expr) (loop expr') := by
  have hphrase := (hexpr .lowest).toTracks
  refine Leads.advance.bind fun token => hphrase.bind fun c => ?_
  refine (Tracks.expect _).bind fun _ => hphrase.bind fun body => ?_
  exact (Tracks.expect _).bind fun _ => .spanned _ _

theorem leads_statement (hexpr : Leads k expr expr') :
    Parse.Leads k (statement expr) (statement expr') :=
  (hexpr .lowest).ended

theorem leads_block (hexpr : Leads (k - 1) expr expr') :
    Parse.Leads k (block expr) (block expr') :=
  Leads.advance.bind fun _ => (Tracks.itemsUntil (leads_statement hexpr) _).bind fun _ =>
    (Tracks.expect _).bind fun _ => .spanned _ _

theorem tracks_initializer (hexpr : Leads k expr expr') :
    Tracks k (initializer expr) (initializer expr') := by
  refine (Tracks.accept _).bind fun more => ?_
  split
  · exact (hexpr .lowest).toTracks.bind fun e => .ret _
  · exact .ret _

theorem leads_binding (hexpr : Leads k expr expr') :
    Parse.Leads k (binding expr) (binding expr') := by
  refine (Leads.expect _).andThen fun name => (Tracks.expect _).bind fun _ => ?_
  refine (Tracks.expect _).bind fun typeName => (tracks_initializer hexpr).bind fun e => ?_
  exact .spanned _ _

theorem leads_letIn (hexpr : Leads (k - 1) expr expr') :
    Parse.Leads k (letIn expr) (letIn expr') := by
  refine Leads.advance.bind fun token => (Tracks.commaSeparated (leads_binding hexpr)).bind ?_
  intro bs
  refine (Tracks.expect _).bind fun _ => (hexpr .lowest).toTracks.bind fun body => ?_
  exact .spanned _ _

theorem leads_branch (hexpr : Leads k expr expr') :
    Parse.Leads k (branch expr) (branch expr') := by
  refine (Leads.expect _).andThen fun name => (Tracks.expect _).bind fun _ => ?_
  refine (Tracks.expect _).bind fun typeName => (Tracks.expect _).bind fun _ => ?_
  refine (leads_statement hexpr).toTracks.bind fun body => ?_
  exact .spanned _ _

theorem leads_caseOf (hexpr : Leads (k - 1) expr expr') :
    Parse.Leads k (caseOf expr) (caseOf expr') := by
  refine Leads.advance.bind fun token => (hexpr .lowest).toTracks.bind fun e => ?_
  refine (Tracks.expect _).bind fun _ => ?_
  refine (Tracks.itemsUntil (leads_branch hexpr) _).bind fun branches => ?_
  have hrest := (Tracks.expect (k := k - 1) .esacKw).bind fun _ =>
    .spanned token.span.start (Expr.caseOf e branches)
  dsimp only
  split
  · exact (Tracks.unexpectedBecause _).bind fun _ => hrest
  · exact hrest

theorem leads_opening (hexpr : Leads (k - 1) expr expr') (form : Opening) :
    Parse.Leads k (opening expr form) (opening expr' form) := by
  cases form with
  | literal => exact leads_literal
  | identifier => exact leads_identifier hexpr
  | grouping => exact leads_grouping hexpr
  | operator => exact leads_operator hexpr
  | newObject => exact leads_newObject
  | conditional => exact leads_conditional hexpr
  | loop => exact leads_loop hexpr
  | block => exact leads_block hexpr
  | letIn => exact leads_letIn hexpr
  | caseOf => exact leads_caseOf hexpr

theorem leads_binary (hexpr : Leads (k - 1) expr expr') (power : Precedence) (left : Expr) :
    Parse.Leads k (binary expr power left) (binary expr' power left) := by
  refine Leads.advance.bind fun token => ?_
  split
  · exact .raise _
  · refine (hexpr power).toTracks.bind fun right => Tracks.currentKind.bind fun kind => ?_
    dsimp only
    split
    · exact (Tracks.unexpectedBecause _).bind fun _ => .ret _
    · exact .ret _

theorem leads_dispatch (hexpr : Leads (k - 1) expr expr') (left : Expr) :
    Parse.Leads k (dispatch expr left) (dispatch expr' left) := by
  refine (Leads.expect _).bind fun _ => (Tracks.expect _).bind fun method => ?_
  exact (tracks_arguments hexpr).bind fun es => .spanned _ _

theorem leads_qualifiedDispatch (hexpr : Leads (k - 1) expr expr') (left : Expr) :
    Parse.Leads k (qualifiedDispatch expr left) (qualifiedDispatch expr' left) := by
  refine (Leads.expect _).bind fun _ => (Tracks.expect _).bind fun qualifier => ?_
  refine (Tracks.expect _).bind fun _ => (Tracks.expect _).bind fun method => ?_
  exact (tracks_arguments hexpr).bind fun es => .spanned _ _

theorem leads_continuation (hexpr : Leads (k - 1) expr expr') (power : Precedence) (left : Expr)
    (form : Continuation) :
    Parse.Leads k (continuation expr power left form) (continuation expr' power left form) := by
  cases form with
  | binary => exact leads_binary hexpr power left
  | dispatch => exact leads_dispatch hexpr left
  | qualifiedDispatch => exact leads_qualifiedDispatch hexpr left

theorem tracks_continuations (table : FormTable) (hexpr : Leads k expr expr')
    (power : Precedence) (left : Expr) :
    Tracks k (continuations table expr power left) (continuations table expr' power left) := by
  refine Tracks.bounded fun {n m j} hjk hjn hjm => ?_
  refine compare_bounded (continuations.go table expr power) (continuations.go table expr' power)
    (fun h => .zero h.shrinks) ?_ ?_ hjk hjn hjm left
  · intro left
    unfold continuations.go
    refine Tracks.currentKind.bind fun kind => ?_
    split
    · exact .ret _
    · split
      · exact .unexpected
      · exact .ret _
  · intro n m j hjk ih left
    unfold continuations.go
    refine Tracks.currentKind.bind fun kind => ?_
    split
    · exact .ret _
    · split
      · have hless := hexpr.mono (Nat.le_trans (Nat.sub_le j 1) hjk)
        exact ((leads_continuation hless _ left _).bind ih).toTracks
      · exact .ret _

end ExprReader

open ExprReader

theorem leads_parseExprWithin (table : FormTable) {n m k : Nat} (hn : k ≤ n) (hm : k ≤ m) :
    ExprReader.Leads k (parseExprWithin table n) (parseExprWithin table m) := by
  refine compare_bounded (parseExprWithin table) (parseExprWithin table) Leads.zero ?_ ?_
    (Nat.le_refl k) hn hm
  · exact fun power => .unexpected
  · intro n m j _ ih power
    refine .after .currentKind fun kind => ?_
    split
    · exact .unexpected
    · exact (leads_opening ih _).bind fun left => tracks_continuations table ih power left

theorem leads_parseExpr (table : FormTable) (k : Nat) :
    ExprReader.Leads k (parseExpr table) (parseExpr table) :=
  fun power => .bounded fun _ hjn hjm => leads_parseExprWithin table hjn hjm power

/-! ## Declarations -/

namespace Parse

/-- Both readers begin with a token of the kind and go on alike. -/
def Begins {α : Type} (kind : TokenKind) (k : Nat) (x x' : Parse α) : Prop :=
  ∃ f f', x = expect kind >>= f ∧ x' = expect kind >>= f' ∧ ∀ t, Tracks k (f t) (f' t)

namespace Begins

variable {α β : Type} {kind : TokenKind} {k : Nat} {x x' y y' : Parse α}

theorem leads (h : Begins kind k x x') : Leads k x x' := by
  obtain ⟨f, f', rfl, rfl, hf⟩ := h
  exact (Leads.expect kind).andThen hf

theorem bind (h : Begins kind k x x') {g g' : α → Parse β} (hg : ∀ a, Tracks k (g a) (g' a)) :
    Begins kind k (x >>= g) (x' >>= g') := by
  obtain ⟨f, f', rfl, rfl, hf⟩ := h
  exact ⟨_, _, bind_assoc _ _ _, bind_assoc _ _ _, fun t => (hf t).bind hg⟩

/-- On streams that share one token any two readers that begin alike have the same outcome. -/
theorem tracks_one (hx : Begins kind k x x') (hy : Begins kind k y y') : Tracks 1 x y' := by
  obtain ⟨f, _, rfl, -, hf⟩ := hx
  obtain ⟨_, f', -, rfl, -⟩ := hy
  exact ((Leads.expect kind).bind fun t => .zero (hf t).shrinks).toTracks

end Begins

variable {k : Nat} {expr expr' : ExprReader}

theorem leads_formal : Leads k formal formal :=
  (Leads.expect _).andThen fun _ => (Tracks.expect _).bind fun _ =>
    (Tracks.expect _).bind fun _ => .spanned _ _

theorem begins_methodDecl (hexpr : ExprReader.Leads k expr expr') :
    Begins .objectIdentifier k (methodDecl expr) (methodDecl expr') := by
  refine ⟨_, _, rfl, rfl, fun name => (Tracks.parenthesized leads_formal).bind fun formals => ?_⟩
  refine (Tracks.expect _).bind fun _ => (Tracks.expect _).bind fun type => ?_
  refine (Tracks.expect _).bind fun _ => (hexpr .lowest).toTracks.bind fun body => ?_
  exact (Tracks.expect _).bind fun _ => .spanned _ _

theorem begins_attributeDecl (hexpr : ExprReader.Leads k expr expr') :
    Begins .objectIdentifier k (attributeDecl expr) (attributeDecl expr') := by
  refine ⟨_, _, rfl, rfl, fun name => (Tracks.expect _).bind fun _ => ?_⟩
  refine (Tracks.expect _).bind fun typeName => ?_
  exact (ExprReader.tracks_initializer hexpr).bind fun init => .spanned _ _

/-- The token behind the one in front decides which reader is used. -/
def peeking {α : Type} (kind : TokenKind) (x y : Parse α) : Parse α :=
  fun s => (if s.peekKind 1 = kind then x else y) s

theorem leaves_peeking {α : Type} (kind : TokenKind) (x y : Parse α) (s : TokenStream) :
    leaves (peeking kind x y) s = leaves (if s.peekKind 1 = kind then x else y) s := rfl

theorem leads_peeking {α : Type} {kind kind' : TokenKind} {x x' y y' : Parse α}
    (hx : Begins kind k x x') (hy : Begins kind k y y') :
    Leads k (peeking kind' x y) (peeking kind' x' y') := by
  refine ⟨⟨fun s => ?_, fun {tail tail' s t} habreast hlt => ?_⟩, fun {s a s'} hne hok => ?_⟩
  · rw [leaves_peeking]
    split
    · exact hx.leads.shrinks s
    · exact hy.leads.shrinks s
  · obtain ⟨front, hfront, hlength, hs, ht, hstop⟩ := id habreast
    obtain ⟨token, front, rfl⟩ := List.exists_cons_of_ne_nil hfront
    cases front with
    | nil =>
        -- the streams may differ in the second token, but the first settles the outcome
        have htracks : Tracks 1 (if s.peekKind 1 = kind' then x else y)
            (if t.peekKind 1 = kind' then x' else y') := by
          split <;> split
          · exact hx.tracks_one hx
          · exact hx.tracks_one hy
          · exact hy.tracks_one hx
          · exact hy.tracks_one hy
        exact (htracks.alike ⟨[token], hfront, Nat.le_refl 1, hs, ht, hstop⟩ hlt).mono hlength
    | cons second front =>
        have hpeek : t.peekKind 1 = s.peekKind 1 := by
          simp [TokenStream.peekKind, hs, ht]
        have htracks : Tracks k (if s.peekKind 1 = kind' then x else y)
            (if t.peekKind 1 = kind' then x' else y') := by
          rw [hpeek]
          split
          · exact hx.leads.toTracks
          · exact hy.leads.toTracks
        exact htracks.alike habreast hlt
  · simp only [peeking] at hok
    split at hok
    · exact hx.leads.moves hne hok
    · exact hy.leads.moves hne hok

theorem feature_eq_peeking (expr : ExprReader) :
    feature expr = peeking .openParen (do return .method (← methodDecl expr))
      (do return .attr (← attributeDecl expr)) := rfl

theorem leads_feature (hexpr : ExprReader.Leads k expr expr') :
    Leads k (feature expr) (feature expr') := by
  rw [feature_eq_peeking, feature_eq_peeking]
  apply leads_peeking
  · exact (begins_methodDecl hexpr).bind fun _ => .ret _
  · exact (begins_attributeDecl hexpr).bind fun _ => .ret _

theorem tracks_parentClause : Tracks k parentClause parentClause := by
  refine (Tracks.accept _).bind fun more => ?_
  split
  · exact (Tracks.expect _).bind fun _ => .ret _
  · exact .ret _

theorem leads_classDecl (hexpr : ExprReader.Leads k expr expr') :
    Leads k (classDecl expr) (classDecl expr') := by
  refine (Leads.expect _).andThen fun start => (Tracks.expect _).bind fun name => ?_
  refine tracks_parentClause.bind fun parent => (Tracks.expect _).bind fun _ => ?_
  refine (Tracks.itemsUntil (leads_feature hexpr).ended _).bind fun features => ?_
  exact (Tracks.expect _).bind fun _ => .spanned _ _

theorem tracks_program (hexpr : ExprReader.Leads k expr expr') :
    Tracks k (program expr) (program expr') :=
  .itemsUntil (leads_classDecl hexpr).ended _

end Parse

end CoolLang
