import CoolLang.Proofs.Declaration.Grammar
import CoolLang.Proofs.Declaration.Lookahead
import CoolLang.Proofs.Expr.Viable
import CoolLang.Proofs.Token.Partition

/-!
# The first offending token

The reader of programs complains about a token that cannot stand where it does: whatever comes
behind that token, the complaint is the same, and without it the tokens so far can be completed to
a program.
-/

namespace CoolLang

namespace Parse

variable {expr : ExprReader} {s : TokenStream} {L : List Spelling → Prop} {done : List Spelling}

theorem stops_formal (s : TokenStream) :
    Stops formal s (fun ts => ∃ f, FormalPhrase f ts) [] := by
  have hword (x T : String) : Viable (fun ts => ∃ f, FormalPhrase f ts)
      [.object x, .mark .colon, .type T] :=
    .of_mem ⟨⟨x, T, .nowhere⟩, .intro⟩
  refine .object ?_ fun name s₁ => .mark rfl ?_ fun _ s₂ => .type ?_ fun typeName s₃ => ?_
  · exact (hword "it" "It").of_append [.object "it", .mark .colon, .type "It"] (by decide)
  · exact (hword name.text "It").of_append [.mark .colon, .type "It"] (by decide)
  · exact (hword name.text "It").of_append [.type "It"] (by decide)
  · exact .spanned _ _

theorem viable_formal : Viable (fun ts => ∃ f, FormalPhrase f ts) [] :=
  ⟨[.object "it", .mark .colon, .type "It"], by decide, ⟨"it", "It", .nowhere⟩, .intro⟩

theorem stops_methodDecl (hexpr : expr.Stops) :
    Stops (methodDecl expr) s (fun ts => ∃ f, FeaturePhrase f ts) [] := by
  have hword (x T : String) {formals : List Formal} {body : Expr} {ts us : List Spelling}
      (hformals : Parenthesized FormalPhrase formals ts) (hbody : Phrase body us) :
      Viable (fun ts => ∃ f, FeaturePhrase f ts) (.object x :: (ts ++ .mark .colon :: .type T ::
        .mark .openCurly :: (us ++ [.mark .closeCurly]))) :=
    .of_mem ⟨.method ⟨x, formals, T, body, .nowhere⟩, .method hformals hbody⟩
  -- what is missing behind the formals
  have hrest : Spelled [.mark .colon, .type "It", .mark .openCurly, .object "it",
      .mark .closeCurly] := by decide
  refine .object ?_ fun name s₁ => ?_
  · exact (hword "it" "It" .none phrase_it).of_append _ (by decide)
  have hformals : ∀ formals ts, Parenthesized FormalPhrase formals ts →
      Viable (fun ts => ∃ f, FeaturePhrase f ts) (.object name.text :: ts) := by
    intro formals ts hformals
    exact (hword name.text "It" hformals phrase_it).of_append _ hrest
  refine Stops.bind (.parenthesized stops_formal takes_formal viable_formal hformals)
    (Takes.parenthesized takes_formal) fun ts formals s₂ hformals' => ?_
  refine .mark rfl (hformals formals ts hformals') fun _ s₃ => .type ?_ fun returnType s₄ => ?_
  · refine .of_append [.type "It", .mark .openCurly, .object "it", .mark .closeCurly]
      (by decide) ?_
    simpa using hword name.text "It" hformals' phrase_it
  refine .mark rfl ?_ fun _ s₅ => ?_
  · refine .of_append [.mark .openCurly, .object "it", .mark .closeCurly] (by decide) ?_
    simpa using hword name.text returnType.text hformals' phrase_it
  have hbody : ∀ body us, Phrase body us → Viable (fun ts => ∃ f, FeaturePhrase f ts)
      (.object name.text :: ts ++ [.mark .colon] ++ [.type returnType.text] ++
        [.mark .openCurly] ++ us) := by
    intro body us hbody
    refine .of_append [.mark .closeCurly] (by decide) ?_
    simpa using hword name.text returnType.text hformals' hbody
  refine hexpr.phrase hbody fun body us s₆ hbody' => ?_
  exact .mark rfl (hbody body us hbody') fun _ _ => .spanned _ _

theorem stops_attributeDecl (hexpr : expr.Stops) :
    Stops (attributeDecl expr) s (fun ts => ∃ f, FeaturePhrase f ts) [] := by
  have hword (x T : String) {init : Option Expr} {ts : List Spelling}
      (hinit : Initializer init ts) : Viable (fun ts => ∃ f, FeaturePhrase f ts)
        (.object x :: .mark .colon :: .type T :: ts) :=
    .of_mem ⟨.attr ⟨x, T, init, .nowhere⟩, .attr hinit⟩
  refine .object ?_ fun name s₁ => .mark rfl ?_ fun _ s₂ => .type ?_ fun typeName s₃ => ?_
  · exact (hword "it" "It" .none).of_append [.object "it", .mark .colon, .type "It"] (by decide)
  · exact (hword name.text "It" .none).of_append [.mark .colon, .type "It"] (by decide)
  · exact (hword name.text "It" .none).of_append [.type "It"] (by decide)
  · refine (ExprReader.stops_initializer hexpr fun init ts hinit => ?_).last fun _ s => ⟨_, s, rfl⟩
    exact hword name.text typeName.text hinit

theorem stops_feature (hexpr : expr.Stops) (s : TokenStream) :
    Stops (feature expr) s (fun ts => ∃ f, FeaturePhrase f ts) [] := by
  have hmethod : Stops (do return Feature.method (← methodDecl expr)) s
      (fun ts => ∃ f, FeaturePhrase f ts) [] :=
    (stops_methodDecl hexpr).last fun _ s => ⟨_, s, rfl⟩
  have hattribute : Stops (do return Feature.attr (← attributeDecl expr)) s
      (fun ts => ∃ f, FeaturePhrase f ts) [] :=
    (stops_attributeDecl hexpr).last fun _ s => ⟨_, s, rfl⟩
  intro hs d s' hd
  rw [feature_eq_peeking, peeking] at hd
  split at hd
  · exact hmethod hs d s' hd
  · exact hattribute hs d s' hd

theorem stops_parentClause (hfill : ∀ parent ts, ParentPhrase parent ts → Viable L (done ++ ts)) :
    Stops parentClause s L done := by
  refine .accept rfl (fun s₁ => .type ?_ fun _ _ => .ret _) (.ret _)
  refine .of_append [.type "It"] (by decide) ?_
  simpa using hfill (some "It") _ .some

theorem stops_classDecl (hexpr : expr.Stops) (s : TokenStream) :
    Stops (classDecl expr) s (fun ts => ∃ c, ClassPhrase c ts) [] := by
  have hword (x : String) {parent : Option String} {features : List Feature}
      {ts us : List Spelling} (hparent : ParentPhrase parent ts)
      (hfeatures : Terminated FeaturePhrase features us) :
      Viable (fun ts => ∃ c, ClassPhrase c ts) (.mark .classKw :: .type x ::
        (ts ++ .mark .openCurly :: (us ++ [.mark .closeCurly]))) :=
    .of_mem ⟨⟨x, parent, features, .nowhere⟩, .intro hparent hfeatures⟩
  refine .mark rfl ?_ fun _ s₁ => .type ?_ fun name s₂ => ?_
  · exact (hword "It" .none .nil).of_append _ (by decide)
  · exact (hword "It" .none .nil).of_append [.type "It", .mark .openCurly, .mark .closeCurly]
      (by decide)
  have hparent : ∀ parent ts, ParentPhrase parent ts →
      Viable (fun ts => ∃ c, ClassPhrase c ts) (.mark .classKw :: .type name.text :: ts) := by
    intro parent ts hparent
    exact (hword name.text hparent .nil).of_append [.mark .openCurly, .mark .closeCurly]
      (by decide)
  refine Stops.bind (stops_parentClause hparent) takes_parentClause fun ts parent s₃ hparent' => ?_
  refine .mark rfl (hparent parent ts hparent') fun _ s₄ => ?_
  have hfeatures : ∀ features us, Terminated FeaturePhrase features us →
      Viable (fun ts => ∃ c, ClassPhrase c ts)
        (.mark .classKw :: .type name.text :: ts ++ [.mark .openCurly] ++ us) := by
    intro features us hfeatures
    refine .of_append [.mark .closeCurly] (by decide) ?_
    simpa using hword name.text hparent' hfeatures
  refine Stops.bind (.itemsUntil
      (fun s => .ended (stops_feature hexpr s) (takes_feature hexpr.accepts s))
      (fun s => (takes_feature hexpr.accepts s).ended) _ hfeatures)
    (Takes.itemsUntil (fun s => (takes_feature hexpr.accepts s).ended) _)
    fun us features s₅ ⟨hfeatures', _⟩ => ?_
  exact .mark rfl (hfeatures features us hfeatures') fun _ _ => .spanned _ _

theorem stops_program (hexpr : expr.Stops) :
    Stops (program expr) s (fun ts => ∃ classes, ProgramPhrase classes ts) [] :=
  .itemsUntil (fun s => .ended (stops_classDecl hexpr s) (takes_classDecl hexpr.accepts s))
    (fun s => (takes_classDecl hexpr.accepts s).ended) .eof
    fun classes _ hclasses => .of_mem ⟨classes, hclasses⟩

end Parse

/-! ## The tokens of a source -/

/-- The tokens end in an end-of-file mark, and there is no other. -/
def EndsInEof (tokens : List Token) : Prop :=
  ∃ body eof, tokens = body ++ [eof] ∧ eof.kind = .eof ∧ ∀ t ∈ body, t.kind ≠ .eof

namespace Lexer

theorem Spells.ne_eof {lexeme : List Char} {kind : TokenKind} {text : String}
    (hspells : Spells lexeme kind text) : kind ≠ .eof := by
  have hkeywords : ∀ k ∈ TokenKind.keywords, k.2 ≠ .eof := by decide
  have hsymbols : ∀ s ∈ symbols, s.2 ≠ .eof := by decide
  cases hspells with
  | integer => decide
  | string => decide
  | mark hsymbol => exact hsymbols _ hsymbol
  | word _ _ hkind =>
      cases hkind with
      | keyword hkind => exact hkeywords _ hkind
      | truth hkind => exact hkeywords _ hkind
      | objectName => decide
      | typeName => decide

/-- The number that a lexeme spells can be read. -/
theorem Spells.inRange {lexeme : List Char} {text : String}
    (hspells : Spells lexeme .integer text) : (Text.int64? text.toList).isSome = true := by
  have hkeywords : ∀ k ∈ TokenKind.keywords, k.2 ≠ .integer := by decide
  have hsymbols : ∀ s ∈ symbols, s.2 ≠ .integer := by decide
  cases hspells with
  | mark hsymbol => exact absurd rfl (hsymbols _ hsymbol)
  | word _ _ hkind =>
      cases hkind with
      | keyword hkind => exact absurd rfl (hkeywords _ hkind)
      | truth hkind => exact absurd rfl (hkeywords _ hkind)
  | integer hne hdigits hrange =>
      obtain ⟨d, digits, rfl⟩ := List.exists_cons_of_ne_nil hne
      have hall : (d :: digits).all Text.isDigit = true := List.all_eq_true.mpr hdigits
      rw [String.toList_ofList, int64?_of_isDigit digits (hdigits d List.mem_cons_self),
        Text.int64?.positive?, Text.natural?, if_pos ⟨hne, hall⟩]
      simp only [Option.bind_eq_bind, Option.bind_some]
      rw [if_pos hrange]
      rfl

theorem Partition.lexed {IsGap : List Char → List Char → Prop} {file : String}
    {before text : List Char} {tokens : List Token}
    (hpartition : Partition IsGap file before text tokens) (name : String) :
    (TokenStream.ofTokens tokens name).Lexed := by
  suffices h : EndsInEof tokens ∧
      ∀ t ∈ tokens, t.kind = .integer → (Text.int64? t.text.toList).isSome = true from
    ⟨h.1, h.2⟩
  induction hpartition with
  | gap => exact ⟨⟨[], _, rfl, rfl, by simp⟩, by simp [Token.endOfFile]⟩
  | token _ hspells _ _ ih =>
      obtain ⟨⟨body, eof, rfl, heof, hbody⟩, hrange⟩ := ih
      refine ⟨⟨_ :: body, eof, rfl, heof, ?_⟩, ?_⟩
      · exact List.forall_mem_cons.mpr ⟨hspells.ne_eof, hbody⟩
      · refine List.forall_mem_cons.mpr ⟨fun hkind => ?_, hrange⟩
        cases hkind
        exact hspells.inRange

end Lexer

/-! ## Programs -/

theorem parseProgram_eq_error {tokens : List Token} {name : String} {d : Diagnostic} :
    parseProgram tokens name = .error d ↔
      ∃ s', Parse.program (parseExpr .cool) (.ofTokens tokens name) = .error d s' := by
  unfold parseProgram
  cases h : Parse.program (parseExpr .cool) (.ofTokens tokens name) with
  | ok classes s' => simp
  | error d' s' => simp

/-- Tokens behind the one in front of which the reader stops do not matter. -/
theorem parseProgram_eq_error_of_take {taken rest rest' : List Token} {t : Token} {name : String}
    {d : Diagnostic} {s' : TokenStream}
    (hd : Parse.program (parseExpr .cool) (.ofTokens (taken ++ t :: rest) name) = .error d s')
    (hrest : s'.rest = t :: rest) : parseProgram (taken ++ t :: rest') name = .error d := by
  have htracks := Parse.tracks_program (leads_parseExpr .cool (taken.length + 1))
  have habreast : TokenStream.Abreast rest rest' (taken.length + 1)
      (.ofTokens (taken ++ t :: rest) name) (.ofTokens (taken ++ t :: rest') name) :=
    ⟨taken ++ [t], by simp, by simp, by simp [TokenStream.ofTokens],
      by simp [TokenStream.ofTokens], rfl⟩
  have halike := htracks.alike habreast (by rw [Parse.leaves_error hd, hrest]; simp)
  rw [hd] at halike
  generalize hd' : Parse.program (parseExpr .cool) (.ofTokens (taken ++ t :: rest') name) = r
    at halike
  cases halike with
  | error => exact parseProgram_eq_error.mpr ⟨_, hd'⟩

/-- Tokens that are viable can be completed to a program that is accepted. -/
theorem exists_parseProgram_eq_ok {taken : List Token}
    (hviable : Viable (fun ts => ∃ classes, ProgramPhrase classes ts) (taken.map Token.spelling))
    (htaken : ∀ t ∈ taken, t.kind ≠ .eof) (name : String) :
    ∃ more classes, EndsInEof (taken ++ more) ∧
      parseProgram (taken ++ more) name = .ok classes := by
  obtain ⟨us, hus, classes, hclasses⟩ := hviable
  let body := taken ++ us.map Spelling.token
  have hbody : body.map Token.spelling = taken.map Token.spelling ++ us := by
    rw [List.map_append, List.map_map]
    congr 1
    exact (List.map_congr_left fun w hw => (hus w hw).1).trans (List.map_id us)
  have hkinds : ∀ t ∈ body, t.kind ≠ .eof := by
    intro t ht
    rcases List.mem_append.mp ht with ht | ht
    · exact htaken t ht
    · obtain ⟨w, hw, rfl⟩ := List.mem_map.mp ht
      exact (hus w hw).2
  have hstart : (TokenStream.ofTokens (body ++ [.endOfFile .nowhere]) name).rest =
      body ++ [.endOfFile .nowhere] := rfl
  obtain ⟨s', hreads, hrest⟩ := TokenStream.exists_reads hstart
  have hend : s'.current.kind = .eof := by
    rw [TokenStream.current, hrest]
    rfl
  rw [hbody] at hreads
  obtain ⟨classes', hok, -⟩ := Parse.recognizes_program (completes_parseExpr _) hclasses
    (Nat.le_refl _) hreads hend
  refine ⟨us.map Spelling.token ++ [.endOfFile .nowhere], classes', ?_, ?_⟩
  · rw [← List.append_assoc]
    exact ⟨body, _, rfl, rfl, hkinds⟩
  · rw [← List.append_assoc]
    exact parseProgram_eq_ok.mpr ⟨s', hok⟩

/-- **The reader reports the first offending token.** Where the tokens of a source are no program,
the complaint is about one of them: it carries its text and the place where it starts. All tokens
that agree up to and with this one meet with the same complaint, whatever comes behind; and some
tokens that agree up to this one are accepted. -/
theorem parseProgram_refuses_first_offender {source file : String} {tokens : List Token}
    (htokens : tokenize source file = .ok tokens) {name : String} {d : Diagnostic}
    (hd : parseProgram tokens name = .error d) :
    ∃ i t, tokens[i]? = some t ∧ d.Refuses t ∧
      (∀ others, others.take (i + 1) = tokens.take (i + 1) →
        parseProgram others name = .error d) ∧
      ∃ others classes, EndsInEof others ∧ others.take i = tokens.take i ∧
        parseProgram others name = .ok classes := by
  have hlexed := (Lexer.partition_tokenize htokens).lexed name
  obtain ⟨s', hs'⟩ := parseProgram_eq_error.mp hd
  obtain ⟨ts, hreads, hclosed, hrefuses, hviable⟩ :=
    Parse.stops_program stops_parseExpr hlexed d s' hs'
  obtain ⟨taken, hrest, rfl⟩ := hreads.taken
  have hcons := TokenStream.rest_eq_cons hclosed.rest_ne_nil
  have hsplit : tokens = taken ++ s'.current :: s'.advance.rest := by
    rw [← hcons]
    exact hrest
  have htaken : ∀ t ∈ taken, t.kind ≠ .eof := by
    obtain ⟨body, eof, hbody, -, -⟩ := hclosed
    obtain ⟨body', eof', hbody', -, hkinds⟩ := hlexed.closed
    rw [hrest, hbody, ← List.append_assoc] at hbody'
    rw [← (List.append_inj' hbody' rfl).1] at hkinds
    exact fun t ht => hkinds t (List.mem_append_left body ht)
  refine ⟨taken.length, s'.current, by simp [hsplit], hrefuses, fun others hothers => ?_, ?_⟩
  · have htake : tokens.take (taken.length + 1) = taken ++ [s'.current] := by
      rw [hsplit, List.take_length_add_append]
      rfl
    have heq : others = taken ++ s'.current :: others.drop (taken.length + 1) := by
      rw [← List.take_append_drop (taken.length + 1) others, hothers, htake]
      simp
    rw [heq]
    rw [hsplit] at hs'
    exact parseProgram_eq_error_of_take hs' hcons
  · obtain ⟨more, classes, hends, hok⟩ := exists_parseProgram_eq_ok hviable htaken name
    refine ⟨taken ++ more, classes, hends, ?_, hok⟩
    rw [hsplit, List.take_left, List.take_left]

/-- The text `class A { x : Int <- 1 < 2 < 3; };`, in which no second comparison may follow. -/
def chained : String := "class A \x7b x : Int <- 1 < 2 < 3; \x7d;"

theorem parseProgram_refuses_first_offender_chained :
    ∃ tokens d i t, tokenize chained "m.cl" = .ok tokens ∧
      parseProgram tokens "m.cl" = .error d ∧
      tokens[i]? = some t ∧ d.Refuses t ∧ t.span.start = ⟨1, 28, "m.cl"⟩ ∧
      (∀ others, others.take (i + 1) = tokens.take (i + 1) →
        parseProgram others "m.cl" = .error d) ∧
      ∃ others classes, EndsInEof others ∧ others.take i = tokens.take i ∧
        parseProgram others "m.cl" = .ok classes := by
  have hview : (tokenize chained "m.cl").toOption.map (fun tokens =>
      ((parseProgram tokens "m.cl").map List.length).mapError Diagnostic.position) =
        some (.error ⟨1, 28, "m.cl"⟩) := by
    decide +kernel
  cases htokens : tokenize chained "m.cl" with
  | error d => rw [htokens] at hview; cases hview
  | ok tokens =>
      rw [htokens] at hview
      have hfound : ((parseProgram tokens "m.cl").map List.length).mapError Diagnostic.position =
          .error ⟨1, 28, "m.cl"⟩ := Option.some.inj hview
      cases hd : parseProgram tokens "m.cl" with
      | ok classes => rw [hd] at hfound; cases hfound
      | error d =>
          rw [hd] at hfound
          obtain ⟨i, t, ht, hrefuses, hsame, haccepted⟩ :=
            parseProgram_refuses_first_offender htokens hd
          refine ⟨tokens, d, i, t, rfl, hd, ht, hrefuses, ?_, hsame, haccepted⟩
          rw [← hrefuses.1]
          exact Except.error.inj hfound

end CoolLang
