import CoolLang.Declaration.Parser
import CoolLang.Proofs.Expr.Acceptance
import CoolLang.Proofs.Expr.Completeness

/-!
# The grammar of programs

How classes and their features are spelled. The reader of programs accepts exactly the derivations
of this grammar, to the last token.
-/

namespace CoolLang

inductive FormalPhrase : Formal → List Spelling → Prop
  | intro {x T span} : FormalPhrase ⟨x, T, span⟩ [.object x, .mark .colon, .type T]

inductive FeaturePhrase : Feature → List Spelling → Prop
  | attr {x T init span ts} (hinit : Initializer init ts) :
      FeaturePhrase (.attr ⟨x, T, init, span⟩) (.object x :: .mark .colon :: .type T :: ts)
  | method {x formals T body span ts us} (hformals : Parenthesized FormalPhrase formals ts)
      (hbody : Phrase body us) :
      FeaturePhrase (.method ⟨x, formals, T, body, span⟩)
        (.object x :: (ts ++ .mark .colon :: .type T :: .mark .openCurly ::
          (us ++ [.mark .closeCurly])))

inductive ParentPhrase : Option String → List Spelling → Prop
  | none : ParentPhrase none []
  | some {T} : ParentPhrase (some T) [.mark .inheritsKw, .type T]

inductive ClassPhrase : ClassDecl → List Spelling → Prop
  | intro {x parent features span ts us} (hparent : ParentPhrase parent ts)
      (hfeatures : Terminated FeaturePhrase features us) :
      ClassPhrase ⟨x, parent, features, span⟩
        (.mark .classKw :: .type x :: (ts ++ .mark .openCurly :: (us ++ [.mark .closeCurly])))

/-- A program is a number of classes with a semicolon behind each. -/
abbrev ProgramPhrase : List ClassDecl → List Spelling → Prop := Terminated ClassPhrase

/-! ## Only the grammar is accepted -/

namespace Parse

variable {expr : ExprReader} {s : TokenStream}

theorem takes_formal (s : TokenStream) : Takes formal s fun ts f _ => FormalPhrase f ts := by
  refine Takes.object.bind ?_
  rintro _ name s₁ rfl
  refine (Takes.mark .colon rfl).bind ?_
  rintro _ _ s₂ rfl
  refine Takes.type.bind ?_
  rintro _ typeName s₃ rfl
  refine Takes.spanFrom.bind ?_
  rintro _ _ _ ⟨rfl, rfl⟩
  exact .ret .intro

theorem takes_methodDecl (hexpr : expr.Accepts) :
    Takes (methodDecl expr) s fun ts m _ => FeaturePhrase (.method m) ts := by
  refine Takes.object.bind ?_
  rintro _ name s₁ rfl
  refine (Takes.parenthesized takes_formal).bind fun ts formals s₂ hformals =>
    (Takes.mark .colon rfl).bind ?_
  rintro _ _ s₃ rfl
  refine Takes.type.bind ?_
  rintro _ returnType s₄ rfl
  refine (Takes.mark .openCurly rfl).bind ?_
  rintro _ _ s₅ rfl
  refine (hexpr.phrase s₅).bind fun us body s₆ hbody => (Takes.mark .closeCurly rfl).bind ?_
  rintro _ _ s₇ rfl
  refine Takes.spanFrom.bind ?_
  rintro _ _ _ ⟨rfl, rfl⟩
  exact .ret (.method hformals hbody)

theorem takes_attributeDecl (hexpr : expr.Accepts) :
    Takes (attributeDecl expr) s fun ts a _ => FeaturePhrase (.attr a) ts := by
  refine Takes.object.bind ?_
  rintro _ name s₁ rfl
  refine (Takes.mark .colon rfl).bind ?_
  rintro _ _ s₂ rfl
  refine Takes.type.bind ?_
  rintro _ typeName s₃ rfl
  refine (ExprReader.takes_initializer hexpr s₃).bind fun ts init s₄ hinit =>
    Takes.spanFrom.bind ?_
  rintro _ _ _ ⟨rfl, rfl⟩
  exact .ret (by simpa using FeaturePhrase.attr hinit)

theorem takes_feature (hexpr : expr.Accepts) (s : TokenStream) :
    Takes (feature expr) s fun ts f _ => FeaturePhrase f ts := by
  refine Takes.get.bind ?_
  rintro _ _ _ ⟨rfl, rfl, rfl⟩
  split
  · exact (takes_methodDecl hexpr).bind fun ts m _ hm => .ret (by simpa using hm)
  · exact (takes_attributeDecl hexpr).bind fun ts a _ ha => .ret (by simpa using ha)

theorem takes_parentClause :
    Takes parentClause s fun ts parent _ => ParentPhrase parent ts := by
  refine (Takes.accept .inheritsKw rfl).bind ?_
  rintro _ _ s₁ (⟨rfl, rfl⟩ | ⟨rfl, rfl, rfl, -⟩)
  · refine Takes.type.bind ?_
    rintro _ typeName s₂ rfl
    exact .ret .some
  · exact .ret .none

theorem takes_classDecl (hexpr : expr.Accepts) (s : TokenStream) :
    Takes (classDecl expr) s fun ts d _ => ClassPhrase d ts := by
  refine (Takes.mark .classKw rfl).bind ?_
  rintro _ _ s₁ rfl
  refine Takes.type.bind ?_
  rintro _ name s₂ rfl
  refine takes_parentClause.bind fun ts parent s₃ hparent => (Takes.mark .openCurly rfl).bind ?_
  rintro _ _ s₄ rfl
  refine (Takes.itemsUntil (fun s => (takes_feature hexpr s).ended) .closeCurly).bind
    fun us features s₅ ⟨hfeatures, _⟩ => (Takes.mark .closeCurly rfl).bind ?_
  rintro _ _ s₆ rfl
  refine Takes.spanFrom.bind ?_
  rintro _ _ _ ⟨rfl, rfl⟩
  exact .ret (.intro hparent hfeatures)

theorem takes_program (hexpr : expr.Accepts) :
    Takes (program expr) s fun ts classes s' =>
      ProgramPhrase classes ts ∧ s'.current.kind = .eof :=
  .itemsUntil (fun s => (takes_classDecl hexpr s).ended) .eof

end Parse

/-! ## All of the grammar is accepted -/

def Formal.eraseSpans (f : Formal) : Formal := { f with span := .nowhere }

def Feature.eraseSpans : Feature → Feature
  | .attr a => .attr ⟨a.name, a.typeName, eraseOption a.init, .nowhere⟩
  | .method m => .method
      ⟨m.name, m.formals.map Formal.eraseSpans, m.returnType, m.body.eraseSpans, .nowhere⟩

def ClassDecl.eraseSpans (d : ClassDecl) : ClassDecl :=
  ⟨d.name, d.parent, d.features.map Feature.eraseSpans, .nowhere⟩

namespace Parse

open Token TokenStream

variable {expr : ExprReader} {n : Nat}

theorem recognizes_formal :
    Recognizes formal n FormalPhrase Formal.eraseSpans fun _ => True := by
  rintro _ _ s s' ⟨⟩ - ⟨-, hx, -, hcolon, -, hT, rfl⟩ -
  refine (Finds.expect (kind_of_spelling hx)).bind fun name hname => ?_
  refine (Finds.expect (kind_of_spelling hcolon)).bind fun _ _ => ?_
  refine (Finds.expect (kind_of_spelling hT)).bind fun typeName htypeName => ?_
  refine Finds.spanFrom.bind fun span _ => .ret ?_
  simp only [Formal.eraseSpans, hname, htypeName, text_of_spelling hx rfl,
    text_of_spelling hT rfl]

theorem avoids_formal : Avoids FormalPhrase .closeParen := by
  rintro _ _ ⟨⟩
  exact ⟨_, _, rfl, nofun⟩

theorem recognizes_formals :
    Recognizes (parenthesized formal) n (Parenthesized FormalPhrase)
      (List.map Formal.eraseSpans) fun _ => True :=
  recognizes_formal.parenthesized trivial trivial avoids_formal

theorem avoids_feature : Avoids FeaturePhrase .closeCurly := by
  intro f ts hf
  cases hf <;> exact ⟨_, _, rfl, nofun⟩

theorem avoids_class : Avoids ClassPhrase .eof := by
  rintro _ _ ⟨⟩
  exact ⟨_, _, rfl, nofun⟩

section Features

variable {s s' : TokenStream} {x T : String} {span : Span} {ts us : List Spelling}

theorem finds_attributeDecl {init : Option Expr} (hexpr : expr.Completes n)
    (hinit : Initializer init ts) (hlen : ts.length ≤ n)
    (hreads : s.Reads (.object x :: .mark .colon :: .type T :: ts) s')
    (hends : s'.current.kind.EndsPhrase) :
    Finds (attributeDecl expr) s s' fun a =>
      (Feature.attr a).eraseSpans = (Feature.attr ⟨x, T, init, span⟩).eraseSpans := by
  obtain ⟨-, hx, -, hcolon, -, hT, hreads⟩ := hreads
  refine (Finds.expect (kind_of_spelling hx)).bind fun name hname => ?_
  refine (Finds.expect (kind_of_spelling hcolon)).bind fun _ _ => ?_
  refine (Finds.expect (kind_of_spelling hT)).bind fun typeName htypeName => ?_
  refine (ExprReader.recognizes_initializer hexpr hinit hlen hreads hends).bind
    fun init' hinit' => ?_
  refine Finds.spanFrom.bind fun span _ => .ret ?_
  simp only [Feature.eraseSpans, hname, htypeName, text_of_spelling hx rfl,
    text_of_spelling hT rfl, hinit']

theorem finds_methodDecl {formals : List Formal} {body : Expr} (hexpr : expr.Completes n)
    (hformals : Parenthesized FormalPhrase formals ts) (hbody : Phrase body us)
    (hlen : us.length ≤ n)
    (hreads : s.Reads (.object x :: (ts ++ .mark .colon :: .type T :: .mark .openCurly ::
      (us ++ [.mark .closeCurly]))) s') :
    Finds (methodDecl expr) s s' fun m => (Feature.method m).eraseSpans =
      (Feature.method ⟨x, formals, T, body, span⟩).eraseSpans := by
  obtain ⟨-, hx, hreads⟩ := hreads
  obtain ⟨s₁, hts, -, hcolon, -, hT, -, hopen, hreads⟩ := reads_append_iff.mp hreads
  obtain ⟨s₂, hus, -, hclose, rfl⟩ := reads_append_iff.mp hreads
  refine (Finds.expect (kind_of_spelling hx)).bind fun name hname => ?_
  refine (recognizes_formals hformals (Nat.le_refl _) hts trivial).bind fun formals' hformals' => ?_
  refine (Finds.expect (kind_of_spelling hcolon)).bind fun _ _ => ?_
  refine (Finds.expect (kind_of_spelling hT)).bind fun returnType hreturnType => ?_
  refine (Finds.expect (kind_of_spelling hopen)).bind fun _ _ => ?_
  refine (hexpr.phrase hbody hlen hus (.of_spelling hclose (by decide))).bind
    fun body' hbody' => ?_
  refine (Finds.expect (kind_of_spelling hclose)).bind fun _ _ => ?_
  refine Finds.spanFrom.bind fun span _ => .ret ?_
  simp only [Feature.eraseSpans, hname, hreturnType, text_of_spelling hx rfl,
    text_of_spelling hT rfl, hformals', hbody']

end Features

theorem recognizes_feature (hexpr : expr.Completes n) :
    Recognizes (feature expr) n FeaturePhrase Feature.eraseSpans TokenKind.EndsPhrase := by
  intro f ts s s' hf hlen hreads hends
  refine Finds.get.bind fun stream hstream => ?_
  subst hstream
  cases hf with
  | attr hinit =>
      rw [hreads.peekKind_one, if_neg (by decide)]
      simp only [List.length_cons] at hlen
      exact (finds_attributeDecl hexpr hinit (by omega) hreads hends).bind fun a ha => .ret ha
  | method hformals hbody =>
      simp only [List.length_cons, List.length_append] at hlen
      have hparen : stream.peekKind 1 = .openParen := by
        obtain ⟨vs, rfl⟩ := hformals.opens
        exact Reads.peekKind_one hreads
      rw [if_pos hparen]
      exact (finds_methodDecl hexpr hformals hbody (by omega) hreads).bind fun m hm => .ret hm

theorem recognizes_parentClause :
    Recognizes parentClause n ParentPhrase id (· = .openCurly) := by
  intro parent ts s s' hparent _ hreads hopen
  cases hparent with
  | none =>
      obtain rfl : s' = s := hreads
      refine (Finds.declined (by rw [hopen]; nofun)).bind fun took htook => ?_
      rw [if_neg (by simp [htook])]
      exact .ret rfl
  | some =>
      obtain ⟨-, hinherits, -, hT, rfl⟩ := hreads
      refine (Finds.accepted (kind_of_spelling hinherits)).bind fun took htook => ?_
      rw [if_pos htook]
      refine (Finds.expect (kind_of_spelling hT)).bind fun typeName htypeName => .ret ?_
      rw [id, htypeName, text_of_spelling hT rfl, id]

theorem recognizes_classDecl (hexpr : expr.Completes n) :
    Recognizes (classDecl expr) n ClassPhrase ClassDecl.eraseSpans fun _ => True := by
  rintro _ _ s s' ⟨hparent, hfeatures⟩ hlen ⟨-, hclass, -, hx, hreads⟩ -
  obtain ⟨s₁, hts, -, hopen, hreads⟩ := reads_append_iff.mp hreads
  obtain ⟨s₂, hus, -, hclose, rfl⟩ := reads_append_iff.mp hreads
  simp only [List.length_cons, List.length_append] at hlen
  refine (Finds.expect (kind_of_spelling hclass)).bind fun _ _ => ?_
  refine (Finds.expect (kind_of_spelling hx)).bind fun name hname => ?_
  refine (recognizes_parentClause hparent (Nat.le_refl _) hts (kind_of_spelling hopen)).bind
    fun parent hparent' => ?_
  refine (Finds.expect (kind_of_spelling hopen)).bind fun _ _ => ?_
  refine (((recognizes_feature hexpr).ended (by decide)).itemsUntil avoids_feature hfeatures
    (by omega) hus (kind_of_spelling hclose)).bind fun features hfeatures' => ?_
  refine (Finds.expect (kind_of_spelling hclose)).bind fun _ _ => ?_
  refine Finds.spanFrom.bind fun span _ => .ret ?_
  simp only [id] at hparent'
  simp only [ClassDecl.eraseSpans, hname, text_of_spelling hx rfl, hparent', hfeatures']

theorem recognizes_program (hexpr : expr.Completes n) :
    Recognizes (program expr) n ProgramPhrase (List.map ClassDecl.eraseSpans) (· = .eof) :=
  ((recognizes_classDecl hexpr).ended trivial).itemsUntil avoids_class

end Parse

/-! ## Programs -/

theorem parseProgram_eq_ok {ts : List Token} {file : String} {classes : List ClassDecl} :
    parseProgram ts file = .ok classes ↔
      ∃ s', Parse.program (parseExpr .cool) (.ofTokens ts file) = .ok classes s' := by
  unfold parseProgram
  cases h : Parse.program (parseExpr .cool) (.ofTokens ts file) with
  | ok classes' s' => simp
  | error d s' => simp

/-- **The reader of programs accepts the grammar and nothing else.** What it reads is spelled by the
tokens, all of them, and of all that they spell it reads one, which differs in spans at most. -/
theorem parseProgram_exact (ts : List Token) (eof : Token) (file : String)
    (heof : eof.kind = .eof) (hts : ∀ t ∈ ts, t.kind ≠ .eof) :
    (∀ classes, parseProgram (ts ++ [eof]) file = .ok classes →
      ProgramPhrase classes (ts.map Token.spelling)) ∧
    ∀ classes, ProgramPhrase classes (ts.map Token.spelling) →
      ∃ classes', parseProgram (ts ++ [eof]) file = .ok classes' ∧
        classes'.map ClassDecl.eraseSpans = classes.map ClassDecl.eraseSpans := by
  constructor
  · intro classes hparse
    obtain ⟨s', hs'⟩ := parseProgram_eq_ok.mp hparse
    have hclosed : (TokenStream.ofTokens (ts ++ [eof]) file).Closed := ⟨ts, eof, rfl, heof, hts⟩
    obtain ⟨us, hreads, hclosed', hclasses, hend⟩ :=
      Parse.takes_program accepts_parseExpr hclosed classes s' hs'
    obtain ⟨taken, hrest, rfl⟩ := hreads.taken
    rw [hclosed'.rest_at_end hend] at hrest
    rw [(List.append_inj' hrest rfl).1]
    exact hclasses
  · intro classes hclasses
    have hstart : (TokenStream.ofTokens (ts ++ [eof]) file).rest = ts ++ [eof] := rfl
    obtain ⟨s', hreads, hrest⟩ := TokenStream.exists_reads hstart
    have hend : s'.current.kind = .eof := by rw [TokenStream.current, hrest]; exact heof
    obtain ⟨classes', hok, hsame⟩ := Parse.recognizes_program (completes_parseExpr _) hclasses
      (Nat.le_refl _) hreads hend
    exact ⟨classes', parseProgram_eq_ok.mpr ⟨s', hok⟩, hsame⟩

/-- `class A { f(x : Int) : Bool { x - 1 - ~ x < 2 * not x + 3 }; };` -/
def differences : List Token :=
  [.mark .classKw, .type "A", .mark .openCurly, .object "f", .mark .openParen, .object "x",
    .mark .colon, .type "Int", .mark .closeParen, .mark .colon, .type "Bool", .mark .openCurly,
    .object "x", .mark .dash, ⟨.integer, "1"⟩, .mark .dash, .mark .tilde, .object "x",
    .mark .less, ⟨.integer, "2"⟩, .mark .star, .mark .notKw, .object "x", .mark .plus,
    ⟨.integer, "3"⟩, .mark .closeCurly, .mark .semicolon, .mark .closeCurly,
    .mark .semicolon].map Spelling.token

theorem parseProgram_exact_differences : ∃ classes,
    parseProgram (differences ++ [.endOfFile .nowhere]) "a.cl" = .ok classes ∧
      ProgramPhrase classes (differences.map Token.spelling) := by
  have hok : (parseProgram (differences ++ [.endOfFile .nowhere]) "a.cl").isOk = true := by
    decide +kernel
  cases hparse : parseProgram (differences ++ [.endOfFile .nowhere]) "a.cl" with
  | error d => cases hparse ▸ hok
  | ok classes =>
      have hexact :=
        parseProgram_exact differences (.endOfFile .nowhere) "a.cl" rfl (by decide)
      exact ⟨classes, rfl, hexact.1 classes hparse⟩

end CoolLang
