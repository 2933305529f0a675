import CoolLang.Proofs.Expr.Grammar

/-!
# Only the grammar is accepted

What the reader of expressions accepts is a derivation, and nothing of it is dropped. The readers of
the forms are taken one by one, each on the assumption that the reader it is given for the
expressions inside keeps to this; the loop over the operators carries along the shape of what is
read so far.
-/

namespace CoolLang

/-- All that the reader accepts has a derivation that fits in its place. -/
def ExprReader.Accepts (expr : ExprReader) : Prop :=
  ∀ power s, Parse.Takes (expr power) s fun ts e s' =>
    Fitting power s'.current.kind e ts ∧ power.EndsAt s'.current.kind

namespace ExprReader

open Parse

variable {expr : ExprReader} {s : TokenStream}

theorem Accepts.lowest (hexpr : expr.Accepts) (s : TokenStream) :
    Takes (expr .lowest) s fun ts e s' =>
      Phrase e ts ∧ FormTable.cool.continuation? s'.current.kind = none :=
  (hexpr .lowest s).weaken fun _ _ _ ⟨⟨_, he, _⟩, hends⟩ =>
    ⟨.intro he, hends.continuation?_eq_none (by decide)⟩

theorem Accepts.phrase (hexpr : expr.Accepts) (s : TokenStream) :
    Takes (expr .lowest) s fun ts e _ => Phrase e ts :=
  (hexpr.lowest s).weaken fun _ _ _ h => h.1

/-! ## Openings -/

theorem takes_literal (hkind : s.current.kind ≠ .eof) :
    Takes literal s fun ts e _ => Derives .closed e ts := by
  refine (Takes.advance hkind).bind ?_
  rintro _ token s₁ ⟨rfl, -⟩
  split
  · rename_i hk
    split
    · rename_i n hn
      rw [Token.spelling_text hk rfl]
      exact .ret (.int hn)
    · exact .fails ⟨_, _, rfl⟩
  · rename_i hk
    rw [Token.spelling_text hk rfl]
    exact .ret .str
  · rename_i hk
    rw [Token.spelling_mark hk rfl]
    exact .ret (.bool (b := true))
  · rename_i hk
    rw [Token.spelling_mark hk rfl]
    exact .ret (.bool (b := false))
  · exact .fails ⟨_, _, rfl⟩

theorem takes_arguments (hexpr : expr.Accepts) :
    Takes (arguments expr) s fun ts args _ => Parenthesized Phrase args ts :=
  .parenthesized hexpr.phrase

theorem takes_identifier (hexpr : expr.Accepts) (hkind : s.current.kind = .objectIdentifier)
    (power : Precedence) :
    Takes (identifier expr) s fun ts e s' => Fitting power s'.current.kind e ts := by
  refine (Takes.advance (by rw [hkind]; nofun)).bind ?_
  rintro _ token s₁ ⟨rfl, rfl⟩
  rw [Token.spelling_object hkind]
  refine Takes.currentKind.bind ?_
  rintro _ _ _ ⟨rfl, rfl, rfl⟩
  split
  · refine (takes_arguments hexpr).bind fun ts args s₂ hargs => Takes.spanFrom.bind ?_
    rintro _ _ _ ⟨rfl, rfl⟩
    exact .ret (.of_closed (by simpa using Derives.call hargs))
  · rename_i hassign
    refine (Takes.advanceMark hassign rfl).bind ?_
    rintro _ _ s₂ rfl
    refine (hexpr.lowest s₂).bind fun ts e s₃ ⟨he, hk⟩ => Takes.spanFrom.bind ?_
    rintro _ _ _ ⟨rfl, rfl⟩
    exact .ret (.of_eq_none (by simpa using Derives.assign he) rfl hk)
  · split
    · rename_i hself
      rw [hself]
      exact .ret (.of_closed .self)
    · rename_i hself
      exact .ret (.of_closed (.name hself))

theorem takes_operator (hexpr : expr.Accepts) (hkind : s.current.kind ≠ .eof)
    (power : Precedence) :
    Takes (operator expr) s fun ts e s' => Fitting power s'.current.kind e ts := by
  refine (Takes.advance hkind).bind ?_
  rintro _ token s₁ ⟨rfl, -⟩
  split
  · rename_i hk
    rw [Token.spelling_mark hk rfl]
    refine (hexpr .negate s₁).bind fun ts e s₂ ⟨⟨F, he, hright, hleft⟩, hends⟩ => ?_
    refine Takes.spanFrom.bind ?_
    rintro _ _ _ ⟨rfl, rfl⟩
    exact .ret ⟨_, by simpa using Derives.negate he hright, Shape.fitsRight_of_not_joins rfl,
      hleft.outer hends nofun⟩
  · rename_i hk
    rw [Token.spelling_mark hk rfl]
    refine (hexpr .not s₁).bind fun ts e s₂ ⟨⟨F, he, _⟩, hends⟩ => Takes.spanFrom.bind ?_
    rintro _ _ _ ⟨rfl, rfl⟩
    exact .ret (.of_eq_none (by simpa using Derives.not (.intro he)) rfl
      (hends.continuation?_eq_none (by decide)))
  · rename_i hk
    rw [Token.spelling_mark hk rfl]
    refine (hexpr .isVoid s₁).bind fun ts e s₂ ⟨⟨F, he, hright, hleft⟩, hends⟩ => ?_
    refine Takes.spanFrom.bind ?_
    rintro _ _ _ ⟨rfl, rfl⟩
    exact .ret ⟨_, by simpa using Derives.isVoid he hright, Shape.fitsRight_of_not_joins rfl,
      hleft.outer hends nofun⟩
  · exact .fails ⟨_, _, rfl⟩

theorem takes_grouping (hexpr : expr.Accepts) (hkind : s.current.kind = .openParen) :
    Takes (grouping expr) s fun ts e _ => Derives .closed e ts := by
  refine (Takes.advanceMark hkind rfl).bind ?_
  rintro _ _ s₁ rfl
  refine (hexpr.phrase s₁).bind fun ts e s₂ he => (Takes.mark .closeParen rfl).bind ?_
  rintro _ _ s₃ rfl
  exact .ret (.group he)

theorem takes_newObject (hkind : s.current.kind = .newKw) :
    Takes newObject s fun ts e _ => Derives .closed e ts := by
  refine (Takes.advanceMark hkind rfl).bind ?_
  rintro _ _ s₁ rfl
  refine Takes.type.bind ?_
  rintro _ typeName s₂ rfl
  refine Takes.spanFrom.bind ?_
  rintro _ _ _ ⟨rfl, rfl⟩
  exact .ret .new

theorem takes_conditional (hexpr : expr.Accepts) (hkind : s.current.kind = .ifKw) :
    Takes (conditional expr) s fun ts e _ => Derives .closed e ts := by
  refine (Takes.advanceMark hkind rfl).bind ?_
  rintro _ _ s₁ rfl
  refine (hexpr.phrase s₁).bind fun ts c s₂ hc => (Takes.mark .thenKw rfl).bind ?_
  rintro _ _ s₃ rfl
  refine (hexpr.phrase s₃).bind fun us t s₄ ht => (Takes.mark .elseKw rfl).bind ?_
  rintro _ _ s₅ rfl
  refine (hexpr.phrase s₅).bind fun vs f s₆ hf => (Takes.mark .fiKw rfl).bind ?_
  rintro _ _ s₇ rfl
  refine Takes.spanFrom.bind ?_
  rintro _ _ _ ⟨rfl, rfl⟩
  exact .ret (.cond hc ht hf)

theorem takes_loop (hexpr : expr.Accepts) (hkind : s.current.kind = .whileKw) :
    Takes (loop expr) s fun ts e _ => Derives .closed e ts := by
  refine (Takes.advanceMark hkind rfl).bind ?_
  rintro _ _ s₁ rfl
  refine (hexpr.phrase s₁).bind fun ts c s₂ hc => (Takes.mark .loopKw rfl).bind ?_
  rintro _ _ s₃ rfl
  refine (hexpr.phrase s₃).bind fun us body s₄ hbody => (Takes.mark .poolKw rfl).bind ?_
  rintro _ _ s₅ rfl
  refine Takes.spanFrom.bind ?_
  rintro _ _ _ ⟨rfl, rfl⟩
  exact .ret (.loop hc hbody)

theorem takes_statement (hexpr : expr.Accepts) (s : TokenStream) :
    Takes (statement expr) s fun ts e _ => Ended Phrase e ts :=
  .ended (hexpr.phrase s)

theorem takes_block (hexpr : expr.Accepts) (hkind : s.current.kind = .openCurly) :
    Takes (block expr) s fun ts e _ => Derives .closed e ts := by
  refine (Takes.advanceMark hkind rfl).bind ?_
  rintro _ _ s₁ rfl
  refine (Takes.itemsUntil (takes_statement hexpr) .closeCurly).bind
    fun ts body s₂ ⟨hbody, _⟩ => (Takes.mark .closeCurly rfl).bind ?_
  rintro _ _ s₃ rfl
  refine Takes.spanFrom.bind ?_
  rintro _ _ _ ⟨rfl, rfl⟩
  exact .ret (.block hbody)

theorem takes_initializer (hexpr : expr.Accepts) (s : TokenStream) :
    Takes (initializer expr) s fun ts init _ => Initializer init ts := by
  refine (Takes.accept .assign rfl).bind ?_
  rintro _ _ s₁ (⟨rfl, rfl⟩ | ⟨rfl, rfl, rfl, -⟩)
  · exact (hexpr.phrase s₁).bind fun ts e s₂ he => .ret (by simpa using Initializer.some he)
  · exact .ret .none

theorem takes_binding (hexpr : expr.Accepts) (s : TokenStream) :
    Takes (binding expr) s fun ts b _ => BindingPhrase b ts := by
  refine Takes.object.bind ?_
  rintro _ name s₁ rfl
  refine (Takes.mark .colon rfl).bind ?_
  rintro _ _ s₂ rfl
  refine Takes.type.bind ?_
  rintro _ typeName s₃ rfl
  refine (takes_initializer hexpr s₃).bind fun ts init s₄ hinit => Takes.spanFrom.bind ?_
  rintro _ _ _ ⟨rfl, rfl⟩
  exact .ret (by simpa using BindingPhrase.intro hinit)

theorem takes_letIn (hexpr : expr.Accepts) (hkind : s.current.kind = .letKw)
    (power : Precedence) :
    Takes (letIn expr) s fun ts e s' => Fitting power s'.current.kind e ts := by
  refine (Takes.advanceMark hkind rfl).bind ?_
  rintro _ _ s₁ rfl
  refine (Takes.commaSeparated (takes_binding hexpr)).bind
    fun ts bs s₂ hbs => (Takes.mark .inKw rfl).bind ?_
  rintro _ _ s₃ rfl
  refine (hexpr.lowest s₃).bind fun us body s₄ ⟨hbody, hk⟩ => Takes.spanFrom.bind ?_
  rintro _ _ _ ⟨rfl, rfl⟩
  exact .ret (.of_eq_none (by simpa using Derives.letIn hbs hbody) rfl hk)

theorem takes_branch (hexpr : expr.Accepts) (s : TokenStream) :
    Takes (branch expr) s fun ts b _ => Ended BranchPhrase b ts := by
  refine Takes.object.bind ?_
  rintro _ name s₁ rfl
  refine (Takes.mark .colon rfl).bind ?_
  rintro _ _ s₂ rfl
  refine Takes.type.bind ?_
  rintro _ typeName s₃ rfl
  refine (Takes.mark .darrow rfl).bind ?_
  rintro _ _ s₄ rfl
  refine (takes_statement hexpr s₄).bind ?_
  rintro _ body s₅ ⟨ts, hbody, rfl⟩
  refine Takes.spanFrom.bind ?_
  rintro _ _ _ ⟨rfl, rfl⟩
  exact .ret ⟨_, .intro hbody, by simp⟩

theorem takes_caseOf (hexpr : expr.Accepts) (hkind : s.current.kind = .caseKw) :
    Takes (caseOf expr) s fun ts e _ => Derives .closed e ts := by
  refine (Takes.advanceMark hkind rfl).bind ?_
  rintro _ _ s₁ rfl
  refine (hexpr.phrase s₁).bind fun ts e s₂ he => (Takes.mark .ofKw rfl).bind ?_
  rintro _ _ s₃ rfl
  refine (Takes.itemsUntil (takes_branch hexpr) .esacKw).bind
    fun us branches s₄ ⟨hbranches, _⟩ => ?_
  dsimp only
  split
  · exact .fails ⟨_, _, rfl⟩
  · rename_i hne
    refine (Takes.mark .esacKw rfl).bind ?_
    rintro _ _ s₅ rfl
    refine Takes.spanFrom.bind ?_
    rintro _ _ _ ⟨rfl, rfl⟩
    exact .ret (.caseOf he hbranches (by simpa using hne))

theorem takes_opening (hexpr : expr.Accepts) {form : Opening}
    (hform : FormTable.cool.opening? s.current.kind = some form) (power : Precedence) :
    Takes (opening expr form) s fun ts e s' => Fitting power s'.current.kind e ts := by
  have hclosed {x : Parse Expr} (hx : Takes x s fun ts e _ => Derives .closed e ts) :
      Takes x s fun ts e s' => Fitting power s'.current.kind e ts :=
    hx.weaken fun _ _ _ he => .of_closed he
  have hne : s.current.kind ≠ .eof := by
    intro hk
    rw [hk] at hform
    cases hform
  have hmem := FormTable.opening?_cool.mp hform
  cases form with
  | literal => exact hclosed (takes_literal hne)
  | identifier => exact takes_identifier hexpr (List.mem_singleton.mp hmem) power
  | grouping => exact hclosed (takes_grouping hexpr (List.mem_singleton.mp hmem))
  | operator => exact takes_operator hexpr hne power
  | newObject => exact hclosed (takes_newObject (List.mem_singleton.mp hmem))
  | conditional => exact hclosed (takes_conditional hexpr (List.mem_singleton.mp hmem))
  | loop => exact hclosed (takes_loop hexpr (List.mem_singleton.mp hmem))
  | block => exact hclosed (takes_block hexpr (List.mem_singleton.mp hmem))
  | letIn => exact takes_letIn hexpr (List.mem_singleton.mp hmem) power
  | caseOf => exact hclosed (takes_caseOf hexpr (List.mem_singleton.mp hmem))

/-! ## Continuations -/

section Continuations

variable {F : Shape} {left : Expr} {ts : List Spelling}

theorem takes_binary (hexpr : expr.Accepts) {op : BinaryOp} (hkind : s.current.kind = op.kind)
    (hleft : Derives F left ts) (hF : F.FitsLeft op.precedence) :
    Takes (binary expr op.precedence left) s fun us e s' => ∃ G : Shape,
      G.precedence = op.precedence ∧ Derives G e (ts ++ us) ∧ G.MayPrecede s'.current.kind := by
  have hmark : op.kind.isMark = true := by cases op <;> rfl
  obtain ⟨htext, hne⟩ := TokenKind.isMark_iff.mp hmark
  refine (Takes.advance (hkind ▸ hne)).bind ?_
  rintro _ token s₁ ⟨rfl, rfl⟩
  rw [Token.spelling_mark hkind htext, hkind, binaryOp?_kind]
  refine (hexpr op.precedence s₁).bind fun us right s₂ ⟨⟨G, hright, hG, hbefore⟩, hends⟩ => ?_
  refine Takes.currentKind.bind ?_
  rintro _ _ _ ⟨rfl, rfl, rfl⟩
  dsimp only
  split
  · exact .fails ⟨_, _, rfl⟩
  · rename_i hchain
    refine .ret ⟨_, rfl, by simpa using Derives.binary hleft hF hright hG, ?_⟩
    exact hbefore.outer hends fun hrel => by simpa [hrel] using hchain

/-- What a dot or a qualifier begins. -/
theorem takes_dispatch (hexpr : expr.Accepts) (hleft : Derives F left ts)
    (hF : F.FitsLeft .dispatch) :
    Takes (dispatch expr left) s fun us e _ => Derives ⟨.dispatch, false⟩ e (ts ++ us) := by
  refine (Takes.mark .dot rfl).bind ?_
  rintro _ _ s₁ rfl
  refine Takes.object.bind ?_
  rintro _ method s₂ rfl
  refine (takes_arguments hexpr).bind fun us args s₃ hargs => Takes.spanFrom.bind ?_
  rintro _ _ _ ⟨rfl, rfl⟩
  exact .ret (by simpa using Derives.dispatch hleft hF hargs)

theorem takes_qualifiedDispatch (hexpr : expr.Accepts) (hleft : Derives F left ts)
    (hF : F.FitsLeft .dispatch) :
    Takes (qualifiedDispatch expr left) s fun us e _ =>
      Derives ⟨.dispatch, false⟩ e (ts ++ us) := by
  refine (Takes.mark .atSign rfl).bind ?_
  rintro _ _ s₁ rfl
  refine Takes.type.bind ?_
  rintro _ qualifier s₂ rfl
  refine (Takes.mark .dot rfl).bind ?_
  rintro _ _ s₃ rfl
  refine Takes.object.bind ?_
  rintro _ method s₄ rfl
  refine (takes_arguments hexpr).bind fun us args s₅ hargs => Takes.spanFrom.bind ?_
  rintro _ _ _ ⟨rfl, rfl⟩
  exact .ret (by simpa using Derives.qualified hleft hF hargs)

/-- One round of the loop: the shape that results is that of the operator. -/
theorem takes_continuation (hexpr : expr.Accepts) {form : Continuation} {q : Precedence}
    (hform : FormTable.cool.continuation? s.current.kind = some (form, q))
    (hleft : Derives F left ts) (hF : F.FitsLeft q) :
    Takes (continuation expr q left form) s fun us e s' => ∃ G : Shape,
      G.precedence = q ∧ Derives G e (ts ++ us) ∧ G.MayPrecede s'.current.kind := by
  obtain ⟨rfl, op, hkind, rfl⟩ | ⟨rfl, -, rfl⟩ | ⟨rfl, -, rfl⟩ :=
    FormTable.continuation?_cool hform
  · exact takes_binary hexpr hkind.symm hleft hF
  · exact (takes_dispatch hexpr hleft hF).weaken fun _ _ _ h =>
      ⟨_, rfl, h, Shape.dispatch_mayPrecede⟩
  · exact (takes_qualifiedDispatch hexpr hleft hF).weaken fun _ _ _ h =>
      ⟨_, rfl, h, Shape.dispatch_mayPrecede⟩

end Continuations

/-- The loop keeps what it has read fitting in its place. -/
theorem takes_go (hexpr : expr.Accepts) {power : Precedence} (bound : Nat) {s : TokenStream}
    {left : Expr} {ts : List Spelling} (hleft : Fitting power s.current.kind left ts) :
    Takes (continuations.go .cool expr power bound left) s fun us e s' =>
      Fitting power s'.current.kind e (ts ++ us) ∧ power.EndsAt s'.current.kind := by
  have hstop (hends : power.EndsAt s.current.kind) : Takes (pure left) s fun us e s' =>
      Fitting power s'.current.kind e (ts ++ us) ∧ power.EndsAt s'.current.kind :=
    .ret ⟨by simpa using hleft, hends⟩
  rw [continuations.go.eq_def]
  refine Takes.currentKind.bind ?_
  rintro _ _ _ ⟨rfl, rfl, rfl⟩
  split
  · exact hstop (Precedence.endsAt_of_eq_none (by assumption))
  · rename_i hk
    split
    · rename_i hq
      cases bound with
      | zero => exact .unexpected
      | succ bound =>
          obtain ⟨F, hleft, -, hbefore⟩ := hleft
          refine (takes_continuation hexpr hk hleft (hbefore _ _ hk)).bind
            fun us e s₁ ⟨G, hprec, he, hG⟩ => ?_
          -- the operator binds tighter than `power`, so the new shape still fits behind `power`
          have hfits : G.FitsRight power := fun _ => hprec ▸ hq
          refine (takes_go hexpr bound ⟨G, he, hfits, hG⟩).weaken fun vs e' s₂ h => ?_
          simpa using h
    · rename_i hq
      exact hstop (Precedence.endsAt_of_eq_some hk (Bool.eq_false_iff.mpr hq))

end ExprReader

theorem accepts_parseExprWithin (depth : Nat) : (parseExprWithin .cool depth).Accepts := by
  induction depth with
  | zero => exact fun power s => .unexpected
  | succ depth ih =>
      intro power s
      refine Parse.Takes.currentKind.bind ?_
      rintro _ _ _ ⟨rfl, rfl, rfl⟩
      split
      · exact .unexpected
      · rename_i form hform
        exact (ExprReader.takes_opening ih hform power).bind fun ts left s₁ hleft =>
          .bounded fun bound => ExprReader.takes_go ih bound hleft

theorem accepts_parseExpr : (parseExpr .cool).Accepts :=
  fun power s => .bounded fun depth => accepts_parseExprWithin depth power s

end CoolLang
