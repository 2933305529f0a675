import CoolLang.Declaration.Parser
import CoolLang.Proofs.Expr.Traversal

/-!
# What a source can write

No source spells the marker that stands for a built-in operation: every class that is read from one
is `Written`. The readers are taken one by one, each on the assumption that the reader it is given
for the expressions inside keeps to this.
-/

namespace CoolLang

namespace Parse

variable {α β : Type} {P : α → Prop} {Q : β → Prop}

/-- Whatever the reader reads is as described. -/
def Returns (x : Parse α) (P : α → Prop) : Prop :=
  ∀ s a s', x s = .ok a s' → P a

namespace Returns

theorem any (x : Parse α) : Returns x fun _ => True := fun _ _ _ _ => trivial

theorem ret {a : α} (ha : P a) : Returns (pure a) P := by
  intro s b s' hb
  cases hb
  exact ha

theorem fails {x : Parse α} (hx : ∀ s, ∃ d s', x s = .error d s') : Returns x P := by
  intro s a s' ha
  obtain ⟨d, s₁, herr⟩ := hx s
  cases herr.symm.trans ha

theorem unexpected : Returns Parse.unexpected P := fails fun s => ⟨_, s, rfl⟩

theorem bind {x : Parse α} {f : α → Parse β} (hx : Returns x P)
    (hf : ∀ a, P a → Returns (f a) Q) : Returns (x >>= f) Q := by
  intro s b s' hb
  change EStateM.bind x f s = _ at hb
  unfold EStateM.bind at hb
  split at hb
  · rename_i a s₁ ha
    exact hf a (hx s a s₁ ha) s₁ b s' hb
  · cases hb

/-- Nothing is asked of the first part. -/
theorem skip {x : Parse α} {f : α → Parse β} (hf : ∀ a, Returns (f a) Q) :
    Returns (x >>= f) Q :=
  bind (any x) fun a _ => hf a

theorem bounded {reader : Nat → Parse α} (hreader : ∀ n, Returns (reader n) P) :
    Returns (Parse.bounded reader) P :=
  fun s => hreader _ s

/-! ## Lists -/

theorem itemsUntil {item : Parse α} (hitem : Returns item P) (close : TokenKind) :
    Returns (Parse.itemsUntil close item) fun as => ∀ a ∈ as, P a := by
  refine bounded fun bound => ?_
  induction bound with
  | zero =>
      refine skip fun kind => ?_
      split
      · exact ret (by simp)
      · exact unexpected
  | succ bound ih =>
      refine skip fun kind => ?_
      split
      · exact ret (by simp)
      · refine hitem.bind fun a ha => ih.bind fun as has => ret ?_
        exact List.forall_mem_cons.mpr ⟨ha, has⟩

theorem commaSeparated {item : Parse α} (hitem : Returns item P) :
    Returns (Parse.commaSeparated item) fun as => ∀ a ∈ as, P a := by
  refine bounded fun bound => ?_
  induction bound with
  | zero =>
      refine hitem.bind fun a ha => skip fun more => ?_
      split
      · exact unexpected
      · exact ret (List.forall_mem_singleton.mpr ha)
  | succ bound ih =>
      refine hitem.bind fun a ha => skip fun more => ?_
      split
      · refine ih.bind fun as has => ret ?_
        exact List.forall_mem_cons.mpr ⟨ha, has⟩
      · exact ret (List.forall_mem_singleton.mpr ha)

theorem parenthesized {item : Parse α} (hitem : Returns item P) :
    Returns (Parse.parenthesized item) fun as => ∀ a ∈ as, P a := by
  refine skip fun _ => skip fun kind => ?_
  split
  · exact bind (ret (P := fun as : List α => ∀ a ∈ as, P a) (by simp)) fun as has =>
      skip fun _ => ret has
  · exact (commaSeparated hitem).bind fun as has => skip fun _ => ret has

end Returns

end Parse

/-! ## Expressions -/

/-- The reader spells written expressions only. -/
def ExprReader.Writes (expr : ExprReader) : Prop :=
  ∀ power, Parse.Returns (expr power) Expr.Written

namespace ExprReader

open Parse Parse.Returns

variable {expr : ExprReader}

theorem written_literal : Returns literal Expr.Written := by
  refine skip fun token => ?_
  split
  · split
    · exact ret rfl
    · exact fails fun s => ⟨_, s, rfl⟩
  · exact ret rfl
  · exact ret rfl
  · exact ret rfl
  · exact fails fun s => ⟨_, s, rfl⟩

theorem written_arguments (hexpr : expr.Writes) :
    Returns (arguments expr) fun es => ∀ e ∈ es, e.Written :=
  parenthesized (hexpr .lowest)

theorem written_identifier (hexpr : expr.Writes) : Returns (identifier expr) Expr.Written := by
  refine skip fun token => skip fun kind => ?_
  split
  · refine (written_arguments hexpr).bind fun es hes => skip fun span => ret ?_
    exact .of_children rfl (by simpa [Expr.children] using hes)
  · refine skip fun _ => (hexpr .lowest).bind fun e he => skip fun span => ret ?_
    exact .of_children rfl (by simpa [Expr.children] using he)
  · split
    · exact ret rfl
    · exact ret rfl

theorem written_operator (hexpr : expr.Writes) : Returns (operator expr) Expr.Written := by
  refine skip fun token => ?_
  split
  · refine (hexpr .negate).bind fun e he => skip fun span => ret ?_
    exact .of_children rfl (by simpa [Expr.children] using he)
  · refine (hexpr .not).bind fun e he => skip fun span => ret ?_
    exact .of_children rfl (by simpa [Expr.children] using he)
  · refine (hexpr .isVoid).bind fun e he => skip fun span => ret ?_
    exact .of_children rfl (by simpa [Expr.children] using he)
  · exact fails fun s => ⟨_, s, rfl⟩

theorem written_grouping (hexpr : expr.Writes) : Returns (grouping expr) Expr.Written :=
  skip fun _ => (hexpr .lowest).bind fun _ he => skip fun _ => ret he

theorem written_newObject : Returns newObject Expr.Written :=
  skip fun _ => skip fun _ => skip fun _ => ret rfl

theorem written_conditional (hexpr : expr.Writes) : Returns (conditional expr) Expr.Written := by
  refine skip fun token => (hexpr .lowest).bind fun c hc => skip fun _ => ?_
  refine (hexpr .lowest).bind fun t ht => skip fun _ => ?_
  refine (hexpr .lowest).bind fun f hf => skip fun _ => skip fun span => ret ?_
  exact .of_children rfl (by simp [Expr.children, hc, ht, hf])

theorem written_loop (hexpr : expr.Writes) : Returns (loop expr) Expr.Written := by
  refine skip fun token => (hexpr .lowest).bind fun c hc => skip fun _ => ?_
  refine (hexpr .lowest).bind fun body hbody => skip fun _ => skip fun span => ret ?_
  exact .of_children rfl (by simp [Expr.children, hc, hbody])

theorem written_statement (hexpr : expr.Writes) : Returns (statement expr) Expr.Written :=
  (hexpr .lowest).bind fun _ he => skip fun _ => ret he

theorem written_block (hexpr : expr.Writes) : Returns (block expr) Expr.Written := by
  refine skip fun token => ((written_statement hexpr).itemsUntil _).bind fun es hes => ?_
  exact skip fun _ => skip fun span => ret (.of_children rfl hes)

theorem written_initializer (hexpr : expr.Writes) :
    Returns (initializer expr) fun init => ∀ e ∈ init, e.Written := by
  refine skip fun more => ?_
  split
  · refine (hexpr .lowest).bind fun e he => ret ?_
    simpa using he
  · exact ret (by simp)

theorem written_binding (hexpr : expr.Writes) :
    Returns (binding expr) fun b => ∀ e ∈ b.init, e.Written :=
  skip fun _ => skip fun _ => skip fun _ => (written_initializer hexpr).bind fun _ hinit =>
    skip fun _ => ret hinit

theorem written_letIn (hexpr : expr.Writes) : Returns (letIn expr) Expr.Written := by
  refine skip fun token => (commaSeparated (written_binding hexpr)).bind fun bs hbs => ?_
  refine skip fun _ => (hexpr .lowest).bind fun body hbody => skip fun span => ret ?_
  refine .of_children rfl (List.forall_mem_append.mpr ⟨fun e he => ?_, by simpa using hbody⟩)
  obtain ⟨b, hb, hinit⟩ := List.mem_filterMap.mp he
  exact hbs b hb e hinit

theorem written_branch (hexpr : expr.Writes) : Returns (branch expr) (·.body.Written) :=
  skip fun _ => skip fun _ => skip fun _ => skip fun _ =>
    (written_statement hexpr).bind fun _ hbody => skip fun _ => ret hbody

theorem written_caseOf (hexpr : expr.Writes) : Returns (caseOf expr) Expr.Written := by
  refine skip fun token => (hexpr .lowest).bind fun e he => skip fun _ => ?_
  refine ((written_branch hexpr).itemsUntil _).bind fun branches hbranches => ?_
  have hwritten : ∀ span, (Expr.caseOf e branches span).Written := fun span =>
    .of_children rfl (List.forall_mem_cons.mpr ⟨he, by simpa using hbranches⟩)
  dsimp only
  split
  · exact skip fun _ => skip fun _ => skip fun span => ret (hwritten span)
  · exact skip fun _ => skip fun span => ret (hwritten span)

theorem written_opening (hexpr : expr.Writes) (form : Opening) :
    Returns (opening expr form) Expr.Written := by
  cases form with
  | literal => exact written_literal
  | identifier => exact written_identifier hexpr
  | grouping => exact written_grouping hexpr
  | operator => exact written_operator hexpr
  | newObject => exact written_newObject
  | conditional => exact written_conditional hexpr
  | loop => exact written_loop hexpr
  | block => exact written_block hexpr
  | letIn => exact written_letIn hexpr
  | caseOf => exact written_caseOf hexpr

theorem written_binary (hexpr : expr.Writes) (power : Precedence) {left : Expr}
    (hleft : left.Written) : Returns (binary expr power left) Expr.Written := by
  refine skip fun token => ?_
  split
  · exact fails fun s => ⟨_, s, rfl⟩
  · rename_i op _
    refine (hexpr power).bind fun right hright => skip fun kind => ?_
    have hwritten : ∀ span, (Expr.binary op left right span).Written := fun span =>
      .of_children rfl (by simp [Expr.children, hleft, hright])
    dsimp only
    split
    · exact skip fun _ => ret (hwritten _)
    · exact ret (hwritten _)

theorem written_dispatch (hexpr : expr.Writes) {left : Expr} (hleft : left.Written) :
    Returns (dispatch expr left) Expr.Written := by
  refine skip fun _ => skip fun method => (written_arguments hexpr).bind fun es hes => ?_
  exact skip fun span => ret (.of_children rfl (List.forall_mem_cons.mpr ⟨hleft, hes⟩))

theorem written_qualifiedDispatch (hexpr : expr.Writes) {left : Expr} (hleft : left.Written) :
    Returns (qualifiedDispatch expr left) Expr.Written := by
  refine skip fun _ => skip fun qualifier => skip fun _ => skip fun method => ?_
  refine (written_arguments hexpr).bind fun es hes => skip fun span => ret ?_
  exact .of_children rfl (List.forall_mem_cons.mpr ⟨hleft, hes⟩)

theorem written_continuation (hexpr : expr.Writes) (power : Precedence) {left : Expr}
    (hleft : left.Written) (form : Continuation) :
    Returns (continuation expr power left form) Expr.Written := by
  cases form with
  | binary => exact written_binary hexpr power hleft
  | dispatch => exact written_dispatch hexpr hleft
  | qualifiedDispatch => exact written_qualifiedDispatch hexpr hleft

theorem written_continuations (table : FormTable) (hexpr : expr.Writes) (power : Precedence)
    {left : Expr} (hleft : left.Written) :
    Returns (continuations table expr power left) Expr.Written := by
  refine bounded fun bound => ?_
  induction bound generalizing left with
  | zero =>
      unfold continuations.go
      refine skip fun kind => ?_
      split
      · exact ret hleft
      · split
        · exact unexpected
        · exact ret hleft
  | succ bound ih =>
      unfold continuations.go
      refine skip fun kind => ?_
      split
      · exact ret hleft
      · split
        · exact (written_continuation hexpr _ hleft _).bind fun e he => ih he
        · exact ret hleft

end ExprReader

open Parse.Returns

theorem writes_parseExprWithin (table : FormTable) (depth : Nat) :
    (parseExprWithin table depth).Writes := by
  induction depth with
  | zero => exact fun power => unexpected
  | succ depth ih =>
      intro power
      refine skip fun kind => ?_
      split
      · exact unexpected
      · rename_i form _
        exact (ExprReader.written_opening ih form).bind fun left hleft =>
          ExprReader.written_continuations table ih power hleft

theorem writes_parseExpr (table : FormTable) : (parseExpr table).Writes :=
  fun power => bounded fun depth => writes_parseExprWithin table depth power

/-! ## Declarations -/

/-- No marker of a built-in operation stands in the feature. -/
def Feature.Written : Feature → Prop
  | .attr a => ∀ e ∈ a.init, e.Written
  | .method m => m.body.Written

theorem ClassDecl.written_of_features {d : ClassDecl} (hd : ∀ f ∈ d.features, f.Written) :
    d.Written := by
  constructor
  · intro a ha
    obtain ⟨f, hf, hfa⟩ := List.mem_filterMap.mp ha
    cases f with
    | attr a' => cases hfa; exact hd _ hf
    | method m => cases hfa
  · intro m hm
    obtain ⟨f, hf, hfm⟩ := List.mem_filterMap.mp hm
    cases f with
    | attr a => cases hfm
    | method m' => cases hfm; exact hd _ hf

namespace Parse

variable {expr : ExprReader}

theorem written_methodDecl (hexpr : expr.Writes) : Returns (methodDecl expr) (·.body.Written) :=
  skip fun _ => skip fun _ => skip fun _ => skip fun _ => skip fun _ =>
    (hexpr .lowest).bind fun _ hbody => skip fun _ => skip fun _ => ret hbody

theorem written_attributeDecl (hexpr : expr.Writes) :
    Returns (attributeDecl expr) fun a => ∀ e ∈ a.init, e.Written :=
  skip fun _ => skip fun _ => skip fun _ =>
    (ExprReader.written_initializer hexpr).bind fun _ hinit => skip fun _ => ret hinit

theorem written_feature (hexpr : expr.Writes) : Returns (feature expr) Feature.Written := by
  refine skip fun s => ?_
  split
  · exact (written_methodDecl hexpr).bind fun _ hm => ret hm
  · exact (written_attributeDecl hexpr).bind fun _ ha => ret ha

theorem written_classDecl (hexpr : expr.Writes) : Returns (classDecl expr) ClassDecl.Written := by
  refine skip fun _ => skip fun _ => skip fun _ => skip fun _ => ?_
  have hitem : Returns (do let f ← feature expr; let _ ← expect .semicolon; return f)
      Feature.Written :=
    (written_feature hexpr).bind fun f hf => skip fun _ => ret hf
  refine (hitem.itemsUntil _).bind fun features hfeatures => skip fun _ => skip fun _ => ret ?_
  exact ClassDecl.written_of_features hfeatures

theorem written_program (hexpr : expr.Writes) :
    Returns (program expr) fun classes => ∀ d ∈ classes, d.Written :=
  ((written_classDecl hexpr).bind fun _ hd => skip fun _ => ret hd).itemsUntil _

end Parse

theorem exists_of_readProgram {source file : String} {classes : List ClassDecl}
    (hread : readProgram source file = .ok classes) :
    ∃ tokens s', tokenize source file = .ok tokens ∧
      Parse.program (parseExpr .cool) (.ofTokens tokens file) = .ok classes s' := by
  unfold readProgram at hread
  cases htokens : tokenize source file with
  | error d =>
      rw [htokens] at hread
      cases hread
  | ok tokens =>
      rw [htokens] at hread
      change parseProgram tokens file = .ok classes at hread
      unfold parseProgram at hread
      split at hread
      · rename_i hok
        cases hread
        exact ⟨tokens, _, rfl, hok⟩
      · cases hread

/-- **A source spells no built-in operation.** -/
theorem written_of_readProgram {source file : String} {classes : List ClassDecl}
    (hread : readProgram source file = .ok classes) : ∀ d ∈ classes, d.Written := by
  obtain ⟨tokens, s', -, hok⟩ := exists_of_readProgram hread
  exact Parse.written_program (writes_parseExpr .cool) _ _ _ hok

end CoolLang
