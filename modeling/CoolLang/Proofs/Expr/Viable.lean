import CoolLang.Proofs.Expr.Acceptance
import CoolLang.Proofs.Token.Viable

/-!
# Where the reader of expressions stops

Whatever the reader of expressions has taken when it stops can be completed to an expression that
fits behind the operator it was called for. What is missing in a form is filled in with a name.
-/

namespace CoolLang

open Parse

/-- The tokens spell an expression that may stand behind an operator of the precedence. -/
def Operand (power : Precedence) (ts : List Spelling) : Prop :=
  ∃ F e, Derives F e ts ∧ F.FitsRight power

/-- The name that is filled in. -/
def Expr.it : Expr := .name "it" .nowhere

theorem derives_it : Derives .closed .it [.object "it"] :=
  .name (by decide)

theorem phrase_it : Phrase .it [.object "it"] :=
  .intro derives_it

section

variable {power : Precedence} {F : Shape} {e : Expr} {ts : List Spelling}

theorem Operand.of_derives (he : Derives F e ts) (hF : F.precedence.joins = false) :
    Operand power ts :=
  ⟨F, e, he, Shape.fitsRight_of_not_joins hF⟩

theorem Operand.phrase (h : Operand power ts) : ∃ e, Phrase e ts := by
  obtain ⟨F, e, he, -⟩ := h
  exact ⟨e, .intro he⟩

theorem viable_operand : Viable (Operand power) [] :=
  ⟨[.object "it"], by decide, .of_derives derives_it rfl⟩

theorem viable_phrase : Viable (fun ts => ∃ e, Phrase e ts) [] :=
  ⟨[.object "it"], by decide, _, phrase_it⟩

end

/-- The reader accepts only the grammar, and stops where what it has taken can be completed. -/
structure ExprReader.Stops (expr : ExprReader) : Prop where
  accepts : expr.Accepts
  stops : ∀ power s, Parse.Stops (expr power) s (Operand power) []

namespace ExprReader

variable {expr : ExprReader} {s : TokenStream} {L : List Spelling → Prop} {done : List Spelling}
variable {power : Precedence} {β : Type}

theorem Stops.toPhrase (hexpr : expr.Stops) (s : TokenStream) :
    Parse.Stops (expr .lowest) s (fun ts => ∃ e, Phrase e ts) [] :=
  (hexpr.stops .lowest s).part fun _ h => .of_mem h.phrase

/-- An expression inside a form. -/
theorem Stops.phrase (hexpr : expr.Stops) {f : Expr → Parse β}
    (hfill : ∀ e ts, Phrase e ts → Viable L (done ++ ts))
    (hf : ∀ e ts s', Phrase e ts → Parse.Stops (f e) s' L (done ++ ts)) :
    Parse.Stops (expr .lowest >>= f) s L done :=
  ((hexpr.toPhrase s).part fun ts ⟨e, he⟩ => hfill e ts he).bind (hexpr.accepts.phrase s)
    fun ts e s' he => hf e ts s' he

/-! ## Openings -/

theorem ne_eof_of_mem_kinds {form : Opening} {k : TokenKind} (hmem : k ∈ form.kinds) :
    k ≠ .eof := by
  rintro rfl
  cases FormTable.opening?_cool.mpr hmem

/-- A literal is a single token, and no number is out of range. -/
theorem stops_literal (hmem : s.current.kind ∈ Opening.literal.kinds) :
    Parse.Stops literal s L done := by
  intro hs
  have hcurrent : s.current ∈ s.rest := by
    rw [TokenStream.rest_eq_cons hs.closed.rest_ne_nil]
    exact List.mem_cons_self
  have hrange := hs.inRange s.current hcurrent
  refine Stops.advance (ne_eof_of_mem_kinds hmem) (fun s₁ => ?_) hs
  split
  · rename_i hkind
    split
    · exact .ret _
    · rename_i hnone
      have hsome := hrange hkind
      rw [hnone] at hsome
      cases hsome
  · exact .ret _
  · exact .ret _
  · exact .ret _
  · simp_all [Opening.kinds]

theorem stops_arguments (hexpr : expr.Stops)
    (hfill : ∀ args ts, Parenthesized Phrase args ts → Viable L (done ++ ts)) :
    Parse.Stops (arguments expr) s L done :=
  .parenthesized hexpr.toPhrase hexpr.accepts.phrase viable_phrase hfill

theorem stops_identifier (hexpr : expr.Stops) (hkind : s.current.kind = .objectIdentifier) :
    Parse.Stops (identifier expr) s (Operand power) [] := by
  refine .advance (by rw [hkind]; nofun) fun s₁ => ?_
  rw [Token.spelling_object hkind]
  refine .currentKind ?_
  split
  · refine (stops_arguments hexpr fun args ts hargs => ?_).last fun _ s => ⟨_, s, rfl⟩
    exact .of_mem (.of_derives (e := .dispatch none none _ args .nowhere) (.call hargs) rfl)
  · rename_i hassign
    refine .advanceMark hassign rfl fun _ s₂ => ?_
    refine hexpr.phrase (fun e ts he => ?_) fun _ _ _ _ => .spanned _ _
    exact .of_mem (.of_derives (e := .assign _ e .nowhere) (.assign he) rfl)
  · split
    · exact .ret _
    · exact .ret _

theorem stops_operator (hexpr : expr.Stops) (hmem : s.current.kind ∈ Opening.operator.kinds) :
    Parse.Stops (operator expr) s (Operand power) [] := by
  refine .advance (ne_eof_of_mem_kinds hmem) fun s₁ => ?_
  split
  · rename_i hk
    rw [Token.spelling_mark hk rfl]
    refine ((hexpr.stops .negate s₁).part ?_).last fun _ s => ⟨_, s, rfl⟩
    rintro ts ⟨F, e, he, hF⟩
    exact .of_mem (.of_derives (e := .unary .negate e .nowhere) (.negate he hF) rfl)
  · rename_i hk
    rw [Token.spelling_mark hk rfl]
    refine ((hexpr.stops .not s₁).part ?_).last fun _ s => ⟨_, s, rfl⟩
    rintro ts ⟨F, e, he, -⟩
    exact .of_mem (.of_derives (e := .unary .not e .nowhere) (.not (.intro he)) rfl)
  · rename_i hk
    rw [Token.spelling_mark hk rfl]
    refine ((hexpr.stops .isVoid s₁).part ?_).last fun _ s => ⟨_, s, rfl⟩
    rintro ts ⟨F, e, he, hF⟩
    exact .of_mem (.of_derives (e := .isVoid e .nowhere) (.isVoid he hF) rfl)
  · simp_all [Opening.kinds]

/-- What is read so far is completed to a form that ends in a bracket or a keyword. -/
theorem viable_closed {e : Expr} {ts : List Spelling} (us : List Spelling) (hus : Spelled us)
    (he : Derives .closed e (ts ++ us)) : Viable (Operand power) ts :=
  ⟨us, hus, .of_derives he rfl⟩

theorem stops_grouping (hexpr : expr.Stops) (hkind : s.current.kind = .openParen) :
    Parse.Stops (grouping expr) s (Operand power) [] := by
  have hinner : ∀ e ts, Phrase e ts → Viable (Operand power) (.mark .openParen :: ts) :=
    fun e ts he => viable_closed [.mark .closeParen] (by decide) (.group he)
  refine .advanceMark hkind rfl fun _ s₁ => hexpr.phrase hinner fun e ts s₂ he => ?_
  exact .mark rfl (hinner e ts he) fun _ _ => .ret _

theorem stops_newObject (hkind : s.current.kind = .newKw) :
    Parse.Stops newObject s (Operand power) [] := by
  refine .advanceMark hkind rfl fun _ s₁ => ?_
  refine .type ?_ fun _ _ => .spanned _ _
  exact viable_closed (e := .new "It" .nowhere) [.type "It"] (by decide) .new

theorem stops_conditional (hexpr : expr.Stops) (hkind : s.current.kind = .ifKw) :
    Parse.Stops (conditional expr) s (Operand power) [] := by
  have hif : ∀ c ts, Phrase c ts → Viable (Operand power) (.mark .ifKw :: ts) := by
    intro c ts hc
    refine viable_closed (e := .cond c .it .it .nowhere) [.mark .thenKw, .object "it",
      .mark .elseKw, .object "it", .mark .fiKw] (by decide) ?_
    exact .cond hc phrase_it phrase_it
  refine .advanceMark hkind rfl fun _ s₁ => hexpr.phrase hif fun c ts s₂ hc => ?_
  refine .mark rfl (hif c ts hc) fun _ s₃ => ?_
  have hthen : ∀ t us, Phrase t us →
      Viable (Operand power) (.mark .ifKw :: ts ++ [.mark .thenKw] ++ us) := by
    intro t us ht
    refine viable_closed (e := .cond c t .it .nowhere) [.mark .elseKw, .object "it",
      .mark .fiKw] (by decide) ?_
    simpa using Derives.cond hc ht phrase_it
  refine hexpr.phrase hthen fun t us s₄ ht => .mark rfl (hthen t us ht) fun _ s₅ => ?_
  have helse : ∀ f vs, Phrase f vs → Viable (Operand power)
      (.mark .ifKw :: ts ++ [.mark .thenKw] ++ us ++ [.mark .elseKw] ++ vs) := by
    intro f vs hf
    refine viable_closed (e := .cond c t f .nowhere) [.mark .fiKw] (by decide) ?_
    simpa using Derives.cond hc ht hf
  refine hexpr.phrase helse fun f vs s₆ hf => .mark rfl (helse f vs hf) fun _ s₇ => ?_
  exact .spanned _ _

theorem stops_loop (hexpr : expr.Stops) (hkind : s.current.kind = .whileKw) :
    Parse.Stops (loop expr) s (Operand power) [] := by
  have hwhile : ∀ c ts, Phrase c ts → Viable (Operand power) (.mark .whileKw :: ts) := by
    intro c ts hc
    refine viable_closed (e := .loop c .it .nowhere) [.mark .loopKw, .object "it",
      .mark .poolKw] (by decide) ?_
    exact .loop hc phrase_it
  refine .advanceMark hkind rfl fun _ s₁ => hexpr.phrase hwhile fun c ts s₂ hc => ?_
  refine .mark rfl (hwhile c ts hc) fun _ s₃ => ?_
  have hloop : ∀ body us, Phrase body us →
      Viable (Operand power) (.mark .whileKw :: ts ++ [.mark .loopKw] ++ us) := by
    intro body us hbody
    refine viable_closed (e := .loop c body .nowhere) [.mark .poolKw] (by decide) ?_
    simpa using Derives.loop hc hbody
  refine hexpr.phrase hloop fun body us s₄ hbody => .mark rfl (hloop body us hbody) fun _ s₅ => ?_
  exact .spanned _ _

theorem stops_statement (hexpr : expr.Stops) (s : TokenStream) :
    Parse.Stops (statement expr) s (fun ts => ∃ e, Ended Phrase e ts) [] :=
  .ended (hexpr.toPhrase s) (hexpr.accepts.phrase s)

theorem stops_block (hexpr : expr.Stops) (hkind : s.current.kind = .openCurly) :
    Parse.Stops (block expr) s (Operand power) [] := by
  have hopen : ∀ body ts, Terminated Phrase body ts →
      Viable (Operand power) (.mark .openCurly :: ts) := by
    intro body ts hbody
    exact viable_closed (e := .block body .nowhere) [.mark .closeCurly] (by decide) (.block hbody)
  refine .advanceMark hkind rfl fun _ s₁ => ?_
  refine Stops.bind (.itemsUntil (stops_statement hexpr) (takes_statement hexpr.accepts) _ hopen)
    (Takes.itemsUntil (takes_statement hexpr.accepts) _) fun ts body s₂ ⟨hbody, _⟩ => ?_
  exact .mark rfl (hopen body ts hbody) fun _ s₃ => .spanned _ _

theorem stops_initializer (hexpr : expr.Stops)
    (hfill : ∀ init ts, Initializer init ts → Viable L (done ++ ts)) :
    Parse.Stops (initializer expr) s L done := by
  refine .accept rfl (fun s₁ => ?_) (.ret _)
  refine hexpr.phrase (fun e ts he => ?_) fun _ _ _ _ => .ret _
  simpa using hfill (some e) _ (.some he)

theorem stops_binding (hexpr : expr.Stops) (s : TokenStream) :
    Parse.Stops (binding expr) s (fun ts => ∃ b, BindingPhrase b ts) [] := by
  have hword (x T : String) {init : Option Expr} {ts : List Spelling}
      (hinit : Initializer init ts) :
      Viable (fun ts => ∃ b, BindingPhrase b ts) (.object x :: .mark .colon :: .type T :: ts) :=
    .of_mem ⟨⟨x, T, init, .nowhere⟩, .intro hinit⟩
  refine .object ?_ fun name s₁ => .mark rfl ?_ fun _ s₂ => .type ?_ fun typeName s₃ => ?_
  · exact (hword "it" "It" .none).of_append [.object "it", .mark .colon, .type "It"] (by decide)
  · exact (hword name.text "It" .none).of_append [.mark .colon, .type "It"] (by decide)
  · exact (hword name.text "It" .none).of_append [.type "It"] (by decide)
  · refine (stops_initializer hexpr fun init ts hinit => ?_).last fun _ s => ⟨_, s, rfl⟩
    exact hword name.text typeName.text hinit

theorem viable_binding : Viable (fun ts => ∃ b, BindingPhrase b ts) [] :=
  ⟨[.object "it", .mark .colon, .type "It"], by decide, ⟨"it", "It", none, .nowhere⟩, .intro .none⟩

theorem stops_letIn (hexpr : expr.Stops) (hkind : s.current.kind = .letKw) :
    Parse.Stops (letIn expr) s (Operand power) [] := by
  have hlet : ∀ bs ts, Separated BindingPhrase bs ts →
      Viable (Operand power) (.mark .letKw :: ts) := by
    intro bs ts hbs
    refine ⟨[.mark .inKw, .object "it"], by decide, ?_⟩
    exact .of_derives (e := .letIn bs .it .nowhere) (.letIn hbs phrase_it) rfl
  refine .advanceMark hkind rfl fun _ s₁ => ?_
  refine Stops.bind (.commaSeparated (stops_binding hexpr) (takes_binding hexpr.accepts)
    viable_binding hlet) (Takes.commaSeparated (takes_binding hexpr.accepts)) ?_
  intro ts bs s₂ hbs
  refine .mark rfl (hlet bs ts hbs) fun _ s₃ => ?_
  refine hexpr.phrase (fun body us hbody => ?_) fun _ _ _ _ => .spanned _ _
  have hderives : Derives ⟨.assignment, true⟩ (.letIn bs body .nowhere)
      (.mark .letKw :: ts ++ [.mark .inKw] ++ us) := by
    simpa using Derives.letIn hbs hbody
  exact .of_mem (.of_derives hderives rfl)

theorem stops_branch (hexpr : expr.Stops) (s : TokenStream) :
    Parse.Stops (branch expr) s (fun ts => ∃ b, Ended BranchPhrase b ts) [] := by
  have hword (x T : String) {body : Expr} {ts : List Spelling} (hbody : Phrase body ts) :
      Viable (fun ts => ∃ b, Ended BranchPhrase b ts) (.object x :: .mark .colon :: .type T ::
        .mark .darrow :: (ts ++ [.mark .semicolon])) :=
    .of_mem ⟨⟨x, T, body, .nowhere⟩, _, .intro hbody, rfl⟩
  refine .object ?_ fun name s₁ => .mark rfl ?_ fun _ s₂ => .type ?_ fun typeName s₃ => ?_
  · exact (hword "it" "It" phrase_it).of_append [.object "it", .mark .colon, .type "It",
      .mark .darrow, .object "it", .mark .semicolon] (by decide)
  · exact (hword name.text "It" phrase_it).of_append [.mark .colon, .type "It", .mark .darrow,
      .object "it", .mark .semicolon] (by decide)
  · exact (hword name.text "It" phrase_it).of_append [.type "It", .mark .darrow, .object "it",
      .mark .semicolon] (by decide)
  · refine .mark rfl ?_ fun _ s₄ => ?_
    · exact (hword name.text typeName.text phrase_it).of_append [.mark .darrow, .object "it",
        .mark .semicolon] (by decide)
    · refine ((stops_statement hexpr s₄).part ?_).last fun _ s => ⟨_, s, rfl⟩
      rintro _ ⟨body, ts, hbody, rfl⟩
      exact hword name.text typeName.text hbody

/-- A `case` without branches lacks one; behind branches it can end. -/
theorem viable_caseOf {e : Expr} {ts : List Spelling} (he : Phrase e ts) (bs : List Branch)
    (us : List Spelling) (hbs : Terminated BranchPhrase bs us) :
    Viable (Operand power) (.mark .caseKw :: (ts ++ .mark .ofKw :: us)) := by
  cases hbs with
  | nil =>
      have hbranch := @BranchPhrase.intro "it" "It" .it .nowhere _ phrase_it
      refine viable_closed (e := .caseOf e [⟨"it", "It", .it, .nowhere⟩] .nowhere) [.object "it",
        .mark .colon, .type "It", .mark .darrow, .object "it", .mark .semicolon, .mark .esacKw]
        (by decide) ?_
      simpa using Derives.caseOf he (.cons hbranch .nil) (by simp)
  | @cons b bs vs ws hb hbs =>
      refine viable_closed (e := .caseOf e (b :: bs) .nowhere) [.mark .esacKw] (by decide) ?_
      simpa using Derives.caseOf he (.cons hb hbs) (by simp)

theorem stops_caseOf (hexpr : expr.Stops) (hkind : s.current.kind = .caseKw) :
    Parse.Stops (caseOf expr) s (Operand power) [] := by
  have hcase : ∀ e ts, Phrase e ts → Viable (Operand power) (.mark .caseKw :: ts) := by
    intro e ts he
    exact (viable_caseOf he [] [] .nil).of_append [.mark .ofKw] (by decide)
  refine .advanceMark hkind rfl fun _ s₁ => ?_
  refine hexpr.phrase hcase fun e ts s₂ he => .mark rfl (hcase e ts he) fun _ s₃ => ?_
  have hof : ∀ bs us, Terminated BranchPhrase bs us →
      Viable (Operand power) (.mark .caseKw :: ts ++ [.mark .ofKw] ++ us) := by
    intro bs us hbs
    simpa using viable_caseOf he bs us hbs
  refine Stops.bind (.itemsUntil (stops_branch hexpr) (takes_branch hexpr.accepts) _ hof)
    (Takes.itemsUntil (takes_branch hexpr.accepts) _) fun us bs s₄ ⟨hbs, _⟩ => ?_
  dsimp only
  split
  · exact (Stops.unexpectedBecause _ (hof bs us hbs)).cut ⟨_, _, rfl⟩
  · exact .mark rfl (hof bs us hbs) fun _ _ => .spanned _ _

/-- Reading a form stops where what is taken can be completed. -/
theorem stops_opening (hexpr : expr.Stops) {form : Opening} (hmem : s.current.kind ∈ form.kinds) :
    Parse.Stops (opening expr form) s (Operand power) [] := by
  cases form with
  | literal => exact stops_literal hmem
  | identifier => exact stops_identifier hexpr (List.mem_singleton.mp hmem)
  | grouping => exact stops_grouping hexpr (List.mem_singleton.mp hmem)
  | operator => exact stops_operator hexpr hmem
  | newObject => exact stops_newObject (List.mem_singleton.mp hmem)
  | conditional => exact stops_conditional hexpr (List.mem_singleton.mp hmem)
  | loop => exact stops_loop hexpr (List.mem_singleton.mp hmem)
  | block => exact stops_block hexpr (List.mem_singleton.mp hmem)
  | letIn => exact stops_letIn hexpr (List.mem_singleton.mp hmem)
  | caseOf => exact stops_caseOf hexpr (List.mem_singleton.mp hmem)

/-! ## Continuations -/

section Continuations

variable {F : Shape} {left : Expr} {ts : List Spelling}

theorem stops_binary (hexpr : expr.Stops) {op : BinaryOp} (hkind : s.current.kind = op.kind)
    (hpower : power.looserThan op.precedence = true) (hleft : Derives F left ts)
    (hF : F.FitsLeft op.precedence) :
    Parse.Stops (binary expr op.precedence left) s (Operand power) ts := by
  have hmark : op.kind.isMark = true := by cases op <;> rfl
  obtain ⟨htext, hne⟩ := TokenKind.isMark_iff.mp hmark
  have hword : ∀ us, Operand op.precedence us →
      Viable (Operand power) (ts ++ [.mark op.kind] ++ us) := by
    rintro us ⟨G, right, hright, hG⟩
    have hderives : Derives ⟨op.precedence, G.greedy⟩ (.binary op left right .nowhere)
        (ts ++ [.mark op.kind] ++ us) := by
      simpa using Derives.binary hleft hF hright hG
    exact .of_mem ⟨_, _, hderives, fun _ => hpower⟩
  refine .advance (hkind ▸ hne) fun s₁ => ?_
  rw [Token.spelling_mark hkind htext, hkind, binaryOp?_kind]
  refine Stops.bind ((hexpr.stops op.precedence s₁).part hword)
    (hexpr.accepts op.precedence s₁) fun us right s₂ ⟨⟨G, hright, hG, _⟩, _⟩ => ?_
  refine .currentKind ?_
  dsimp only
  split
  · exact (Stops.unexpectedBecause _ (hword us ⟨G, right, hright, hG⟩)).cut ⟨_, _, rfl⟩
  · exact .ret _

theorem stops_dispatch (hexpr : expr.Stops) (hpower : power.looserThan .dispatch = true)
    (hleft : Derives F left ts) (hF : F.FitsLeft .dispatch) :
    Parse.Stops (dispatch expr left) s (Operand power) ts := by
  have hword (m : String) {args : List Expr} {us : List Spelling}
      (hargs : Parenthesized Phrase args us) :
      Viable (Operand power) (ts ++ .mark .dot :: .object m :: us) :=
    .of_mem ⟨_, .dispatch (some left) none m args .nowhere, .dispatch hleft hF hargs,
      fun _ => hpower⟩
  refine .mark rfl ?_ fun _ s₁ => .object ?_ fun method s₂ => ?_
  · exact (hword "it" .none).of_append _ (by decide)
  · refine .of_append [.object "it", .mark .openParen, .mark .closeParen] (by decide) ?_
    simpa using hword "it" .none
  · refine (stops_arguments hexpr fun args us hargs => ?_).last fun _ s => ⟨_, s, rfl⟩
    simpa using hword method.text hargs

theorem stops_qualifiedDispatch (hexpr : expr.Stops) (hpower : power.looserThan .dispatch = true)
    (hleft : Derives F left ts) (hF : F.FitsLeft .dispatch) :
    Parse.Stops (qualifiedDispatch expr left) s (Operand power) ts := by
  have hword (T m : String) {args : List Expr} {us : List Spelling}
      (hargs : Parenthesized Phrase args us) : Viable (Operand power)
        (ts ++ .mark .atSign :: .type T :: .mark .dot :: .object m :: us) :=
    .of_mem ⟨_, .dispatch (some left) (some T) m args .nowhere, .qualified hleft hF hargs,
      fun _ => hpower⟩
  refine .mark rfl ?_ fun _ s₁ => .type ?_ fun qualifier s₂ => .mark rfl ?_ fun _ s₃ => ?_
  · exact (hword "It" "it" .none).of_append _ (by decide)
  · refine .of_append [.type "It", .mark .dot, .object "it", .mark .openParen, .mark .closeParen]
      (by decide) ?_
    simpa using hword "It" "it" .none
  · refine .of_append [.mark .dot, .object "it", .mark .openParen, .mark .closeParen]
      (by decide) ?_
    simpa using hword qualifier.text "it" .none
  · refine .object ?_ fun method s₄ => ?_
    · refine .of_append [.object "it", .mark .openParen, .mark .closeParen] (by decide) ?_
      simpa using hword qualifier.text "it" .none
    · refine (stops_arguments hexpr fun args us hargs => ?_).last fun _ s => ⟨_, s, rfl⟩
      simpa using hword qualifier.text method.text hargs

theorem stops_continuation (hexpr : expr.Stops) {form : Continuation} {q : Precedence}
    (hform : FormTable.cool.continuation? s.current.kind = some (form, q))
    (hpower : power.looserThan q = true) (hleft : Derives F left ts) (hF : F.FitsLeft q) :
    Parse.Stops (continuation expr q left form) s (Operand power) ts := by
  obtain ⟨rfl, op, hkind, rfl⟩ | ⟨rfl, -, rfl⟩ | ⟨rfl, -, rfl⟩ :=
    FormTable.continuation?_cool hform
  · exact stops_binary hexpr hkind.symm hpower hleft hF
  · exact stops_dispatch hexpr hpower hleft hF
  · exact stops_qualifiedDispatch hexpr hpower hleft hF

end Continuations

/-- What the loop has read so far is an operand already. -/
theorem stops_go (hexpr : expr.Stops) (bound : Nat) {s : TokenStream} {left : Expr}
    {ts : List Spelling} (hleft : Fitting power s.current.kind left ts) :
    Parse.Stops (continuations.go .cool expr power bound left) s (Operand power) ts := by
  obtain ⟨F, hderives, hright, hbefore⟩ := hleft
  rw [continuations.go.eq_def]
  refine .currentKind ?_
  split
  · exact .ret _
  · rename_i hk
    split
    · rename_i hq
      cases bound with
      | zero => exact .unexpected (.of_mem ⟨F, left, hderives, hright⟩)
      | succ bound =>
          refine (stops_continuation hexpr hk hq hderives (hbefore _ _ hk)).bind
            (takes_continuation hexpr.accepts hk hderives (hbefore _ _ hk)) ?_
          intro us e s₁ ⟨G, hprec, he, hG⟩
          exact stops_go hexpr bound ⟨G, he, fun _ => hprec ▸ hq, hG⟩
    · exact .ret _

end ExprReader

theorem stops_parseExprWithin (depth : Nat) : (parseExprWithin .cool depth).Stops := by
  induction depth with
  | zero => exact ⟨accepts_parseExprWithin 0, fun power s => .unexpected viable_operand⟩
  | succ depth ih =>
      refine ⟨accepts_parseExprWithin (depth + 1), fun power s => .currentKind ?_⟩
      split
      · exact .unexpected viable_operand
      · rename_i form hform
        have hmem := FormTable.opening?_cool.mp hform
        exact (ExprReader.stops_opening ih hmem).bind
          (ExprReader.takes_opening ih.accepts hform power)
          fun ts left s₁ hleft => ExprReader.stops_go ih _ hleft

theorem stops_parseExpr : (parseExpr .cool).Stops :=
  ⟨accepts_parseExpr, fun power s => (stops_parseExprWithin _).stops power s⟩

end CoolLang
