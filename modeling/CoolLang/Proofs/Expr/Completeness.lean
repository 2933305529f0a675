import CoolLang.Proofs.Expr.Grammar

/-!
# All of the grammar is accepted

The reader of expressions finds every derivation, up to the spans of its nodes, whatever precedence
it is given and whatever comes behind, as long as the derivation fits in that place. The left
operands of a derivation are nested, and the reader meets them one after the other in its loop: the
statement about a derivation is that the reader gets into the loop with the expression as what is
read so far.
-/

namespace CoolLang

/-! ## Expressions without their spans -/

mutual

def Expr.eraseSpans : Expr → Expr
  | .int n _ => .int n .nowhere
  | .str value _ => .str value .nowhere
  | .bool b _ => .bool b .nowhere
  | .self _ => .self .nowhere
  | .name x _ => .name x .nowhere
  | .assign x value _ => .assign x value.eraseSpans .nowhere
  | .dispatch r q m args _ => .dispatch (eraseOption r) q m (eraseExprs args) .nowhere
  | .new T _ => .new T .nowhere
  | .cond c t f _ => .cond c.eraseSpans t.eraseSpans f.eraseSpans .nowhere
  | .loop c body _ => .loop c.eraseSpans body.eraseSpans .nowhere
  | .block body _ => .block (eraseExprs body) .nowhere
  | .letIn bs body _ => .letIn (eraseBindings bs) body.eraseSpans .nowhere
  | .caseOf e branches _ => .caseOf e.eraseSpans (eraseBranches branches) .nowhere
  | .isVoid e _ => .isVoid e.eraseSpans .nowhere
  | .unary op e _ => .unary op e.eraseSpans .nowhere
  | .binary op l r _ => .binary op l.eraseSpans r.eraseSpans .nowhere
  | .primitive p _ => .primitive p .nowhere

def eraseOption : Option Expr → Option Expr
  | none => none
  | some e => some e.eraseSpans

def eraseExprs : List Expr → List Expr
  | [] => []
  | e :: es => e.eraseSpans :: eraseExprs es

def eraseBindings : List Binding → List Binding
  | [] => []
  | ⟨x, T, init, _⟩ :: bs => ⟨x, T, eraseOption init, .nowhere⟩ :: eraseBindings bs

def eraseBranches : List Branch → List Branch
  | [] => []
  | ⟨x, T, body, _⟩ :: bs => ⟨x, T, body.eraseSpans, .nowhere⟩ :: eraseBranches bs

end

def Binding.eraseSpans (b : Binding) : Binding :=
  ⟨b.name, b.typeName, eraseOption b.init, .nowhere⟩

def Branch.eraseSpans (b : Branch) : Branch :=
  ⟨b.name, b.typeName, b.body.eraseSpans, .nowhere⟩

theorem eraseExprs_eq (es : List Expr) : eraseExprs es = es.map Expr.eraseSpans := by
  induction es with
  | nil => rfl
  | cons e es ih => rw [eraseExprs, ih, List.map_cons]

theorem eraseBindings_eq (bs : List Binding) :
    eraseBindings bs = bs.map Binding.eraseSpans := by
  induction bs with
  | nil => rfl
  | cons b bs ih =>
      obtain ⟨x, T, init, span⟩ := b
      rw [eraseBindings, ih, List.map_cons, Binding.eraseSpans]

theorem eraseBranches_eq (bs : List Branch) : eraseBranches bs = bs.map Branch.eraseSpans := by
  induction bs with
  | nil => rfl
  | cons b bs ih =>
      obtain ⟨x, T, body, span⟩ := b
      rw [eraseBranches, ih, List.map_cons, Branch.eraseSpans]

/-! ## What comes behind an expression -/

/-- A name ends before the token, which makes it neither a call nor an assignment. -/
def TokenKind.EndsName (k : TokenKind) : Prop :=
  k ≠ .openParen ∧ k ≠ .assign

/-- An expression ends before the token, whatever its shape. -/
def TokenKind.EndsPhrase (k : TokenKind) : Prop :=
  FormTable.cool.continuation? k = none ∧ k.EndsName

instance : DecidablePred TokenKind.EndsName := fun _ => inferInstanceAs (Decidable (_ ∧ _))

instance : DecidablePred TokenKind.EndsPhrase := fun _ => inferInstanceAs (Decidable (_ ∧ _))

theorem TokenKind.EndsPhrase.of_spelling {t : Token} {w : Spelling} (h : t.spelling = w)
    (hw : w.kind.EndsPhrase) : t.kind.EndsPhrase :=
  Token.kind_of_spelling h ▸ hw

/-- A shape that does not reach as far as it can binds at least as tightly as a comparison. -/
theorem Derives.level_of_not_greedy {F : Shape} {e : Expr} {ts : List Spelling}
    (h : Derives F e ts) (hF : F.greedy = false) : 3 ≤ F.precedence.level := by
  cases h with
  | assign | letIn | not => cases hF
  | @binary _ _ op => exact Precedence.level_of_joins op.joins_precedence
  | _ => exact Nat.le_of_ble_eq_true rfl

namespace Shape.MayPrecede

variable {F : Shape} {k : TokenKind} {p : Precedence}

theorem endsAt (h : F.MayPrecede k) : F.precedence.EndsAt k :=
  fun form q hk => (h form q hk).2.1

theorem eq_none (h : F.MayPrecede k) (hF : F.greedy = true) :
    FormTable.cool.continuation? k = none := by
  cases hk : FormTable.cool.continuation? k with
  | none => rfl
  | some c => cases hF.symm.trans (h c.1 c.2 hk).1

/-- What a form that ends in an operand may precede, the operand may precede as well. -/
theorem operand {e : Expr} {ts : List Spelling} (he : Derives F e ts) (hF : F.FitsRight p)
    (hp : p.level < 8) (h : Shape.MayPrecede ⟨p, F.greedy⟩ k) : F.MayPrecede k := by
  intro form q hk
  obtain ⟨hgreedy, hloose, -⟩ := h form q hk
  have hlevel := he.level_of_not_greedy hgreedy
  have hq := FormTable.joins_of_continuation? hk
  have hjoins : F.precedence.joins = true → p.level < F.precedence.level :=
    fun h => Precedence.looserThan_iff.mp (hF h)
  have hlower : q.level ≤ p.level := Precedence.not_looserThan_iff.mp hloose
  refine ⟨hgreedy, ?_, ?_⟩
  · rw [Precedence.not_looserThan_iff]
    cases hF' : F.precedence.joins with
    | true => exact Nat.le_of_lt (Nat.lt_of_le_of_lt hlower (hjoins hF'))
    | false =>
        have hhigh := Precedence.level_of_not_joins hF' hlevel
        have hlow := Precedence.level_of_joins_of_lt hq (Nat.lt_of_le_of_lt hlower hp)
        omega
  · rintro ⟨hrel, rfl⟩
    rw [hrel] at hjoins
    exact absurd (hjoins rfl) (Nat.not_lt.mpr hlower)

end Shape.MayPrecede

/-! ## What comes first in an expression -/

/-- The first token of an expression opens a form. -/
theorem Derives.opens {F : Shape} {e : Expr} {ts : List Spelling} (h : Derives F e ts) :
    ∃ w us form, ts = w :: us ∧ FormTable.cool.opening? w.kind = some form := by
  -- the first token of a left operand is the first of the whole
  have hleft {G : Shape} {l : Expr} {us vs : List Spelling} (hlt : us.length < ts.length)
      (hl : Derives G l us) (hts : ts = us ++ vs) :
      ∃ w us form, ts = w :: us ∧ FormTable.cool.opening? w.kind = some form := by
    obtain ⟨w, ws, form, rfl, hw⟩ := hl.opens
    exact ⟨w, ws ++ vs, form, hts, hw⟩
  cases h with
  | binary hl => exact hleft (by simp) hl rfl
  | dispatch hr => exact hleft (by simp) hr rfl
  | qualified hr => exact hleft (by simp) hr rfl
  | @bool b => cases b <;> exact ⟨_, _, _, rfl, rfl⟩
  | _ => exact ⟨_, _, _, rfl, rfl⟩
termination_by ts.length

theorem avoids_phrase {close : TokenKind} (hclose : FormTable.cool.opening? close = none) :
    Avoids Phrase close := by
  rintro e ts ⟨he⟩
  obtain ⟨w, us, form, hts, hform⟩ := he.opens
  refine ⟨w, us, hts, fun hw => ?_⟩
  rw [hw, hclose] at hform
  cases hform

/-! ## Openings -/

/-- The reader finds every derivation of at most `n` tokens that fits in its place. -/
def ExprReader.Completes (expr : ExprReader) (n : Nat) : Prop :=
  ∀ ⦃power e ts s s'⦄, Fitting power s'.current.kind e ts → power.EndsAt s'.current.kind →
    s'.current.kind.EndsName → ts.length ≤ n → s.Reads ts s' →
    Parse.Finds (expr power) s s' (·.eraseSpans = e.eraseSpans)

namespace ExprReader

open Parse Token TokenStream

variable {expr : ExprReader} {n : Nat} {s s' : TokenStream}

theorem Completes.loosest (hexpr : expr.Completes n) (power : Precedence)
    (hpower : power.level < 3) :
    Recognizes (expr power) n Phrase Expr.eraseSpans TokenKind.EndsPhrase := by
  rintro e ts s s' ⟨he⟩ hlen hreads ⟨hk, hname⟩
  exact hexpr ⟨_, he, Shape.fitsRight_of_level_lt hpower, Shape.mayPrecede_of_eq_none hk⟩
    (Precedence.endsAt_of_eq_none hk) hname hlen hreads

theorem Completes.phrase (hexpr : expr.Completes n) :
    Recognizes (expr .lowest) n Phrase Expr.eraseSpans TokenKind.EndsPhrase :=
  hexpr.loosest .lowest (by decide)

theorem recognizes_arguments (hexpr : expr.Completes n) :
    Recognizes (arguments expr) n (Parenthesized Phrase) (List.map Expr.eraseSpans)
      fun _ => True :=
  .parenthesized hexpr.phrase (by decide) (by decide) (avoids_phrase rfl)

theorem recognizes_statement (hexpr : expr.Completes n) :
    Recognizes (statement expr) n (Ended Phrase) Expr.eraseSpans fun _ => True :=
  hexpr.phrase.ended (by decide)

theorem recognizes_initializer (hexpr : expr.Completes n) :
    Recognizes (initializer expr) n Initializer eraseOption TokenKind.EndsPhrase := by
  intro init ts s s' hinit hlen hreads hends
  cases hinit with
  | none =>
      obtain rfl : s' = s := hreads
      refine (Finds.declined hends.2.2).bind fun took htook => ?_
      rw [if_neg (by simp [htook])]
      exact .ret rfl
  | some he =>
      obtain ⟨-, hassign, hreads⟩ := hreads
      rw [List.length_cons] at hlen
      refine (Finds.accepted (kind_of_spelling hassign)).bind fun took htook => ?_
      rw [if_pos htook]
      refine (hexpr.phrase he (by omega) hreads hends).bind fun e' he' => .ret ?_
      rw [eraseOption, eraseOption, he']

theorem recognizes_binding (hexpr : expr.Completes n) :
    Recognizes (binding expr) n BindingPhrase Binding.eraseSpans TokenKind.EndsPhrase := by
  rintro _ _ s s' ⟨hinit⟩ hlen ⟨-, hx, -, hcolon, -, hT, hreads⟩ hends
  simp only [List.length_cons] at hlen
  refine (Finds.expect (kind_of_spelling hx)).bind fun name hname => ?_
  refine (Finds.expect (kind_of_spelling hcolon)).bind fun _ _ => ?_
  refine (Finds.expect (kind_of_spelling hT)).bind fun typeName htypeName => ?_
  refine (recognizes_initializer hexpr hinit (by omega) hreads hends).bind fun init hinit' => ?_
  refine Finds.spanFrom.bind fun span _ => .ret ?_
  simp only [Binding.eraseSpans, hname, htypeName, text_of_spelling hx rfl,
    text_of_spelling hT rfl, hinit']

theorem recognizes_branch (hexpr : expr.Completes n) :
    Recognizes (branch expr) n (Ended BranchPhrase) Branch.eraseSpans fun _ => True := by
  rintro _ _ s s' ⟨_, ⟨hbody⟩, rfl⟩ hlen ⟨-, hx, -, hcolon, -, hT, -, hdarrow, hreads⟩ -
  simp only [List.cons_append, List.length_cons] at hlen
  refine (Finds.expect (kind_of_spelling hx)).bind fun name hname => ?_
  refine (Finds.expect (kind_of_spelling hcolon)).bind fun _ _ => ?_
  refine (Finds.expect (kind_of_spelling hT)).bind fun typeName htypeName => ?_
  refine (Finds.expect (kind_of_spelling hdarrow)).bind fun _ _ => ?_
  refine (recognizes_statement hexpr ⟨_, hbody, rfl⟩ (by omega) hreads trivial).bind
    fun body hbody' => ?_
  refine Finds.spanFrom.bind fun span _ => .ret ?_
  simp only [Branch.eraseSpans, hname, htypeName, text_of_spelling hx rfl,
    text_of_spelling hT rfl, hbody']

section Forms

variable {e c t f body : Expr} {span : Span} {x T : String} {ts us vs : List Spelling}

theorem finds_int {text : String} {i : Int64} (hi : Text.int64? text.toList = some i)
    (hreads : s.Reads [⟨.integer, text⟩] s') :
    Finds literal s s' (·.eraseSpans = (Expr.int i span).eraseSpans) := by
  obtain ⟨-, htext, rfl⟩ := hreads
  refine Finds.advance.bind fun token htoken => ?_
  rw [htoken, kind_of_spelling htext]
  dsimp only
  rw [text_of_spelling htext rfl, hi]
  exact .ret rfl

theorem finds_str {value : String} (hreads : s.Reads [⟨.string, value⟩] s') :
    Finds literal s s' (·.eraseSpans = (Expr.str value span).eraseSpans) := by
  obtain ⟨-, hvalue, rfl⟩ := hreads
  refine Finds.advance.bind fun token htoken => ?_
  rw [htoken, kind_of_spelling hvalue]
  exact .ret (by simp only [Expr.eraseSpans, text_of_spelling hvalue rfl])

theorem finds_bool {b : Bool} (hreads : s.Reads [.mark (if b then .trueKw else .falseKw)] s') :
    Finds literal s s' (·.eraseSpans = (Expr.bool b span).eraseSpans) := by
  obtain ⟨-, hmark, rfl⟩ := hreads
  refine Finds.advance.bind fun token htoken => ?_
  rw [htoken, kind_of_spelling hmark]
  cases b with
  | true => exact .ret rfl
  | false => exact .ret rfl

/-- A name on its own. -/
theorem finds_name (hx : s.current.text = x) (hname : s.advance.current.kind.EndsName) :
    Finds (identifier expr) s s.advance fun e => e.eraseSpans =
      if x = "self" then .self .nowhere else .name x .nowhere := by
  refine Finds.advance.bind fun token htoken => Finds.currentKind.bind fun kind hkind => ?_
  subst hkind
  split
  · exact absurd (by assumption) hname.1
  · exact absurd (by assumption) hname.2
  · rw [htoken, hx]
    split
    · exact .ret rfl
    · exact .ret rfl

theorem finds_call {args : List Expr} (hexpr : expr.Completes n)
    (hargs : Parenthesized Phrase args ts) (hlen : (Spelling.object x :: ts).length ≤ n + 1)
    (hreads : s.Reads (.object x :: ts) s') :
    Finds (identifier expr) s s' (·.eraseSpans = (Expr.dispatch none none x args span).eraseSpans) := by
  obtain ⟨-, hx, hreads⟩ := hreads
  have hopen : s.advance.current.kind = .openParen := by
    obtain ⟨us, rfl⟩ := hargs.opens
    exact kind_of_spelling hreads.2.1
  rw [List.length_cons] at hlen
  refine Finds.advance.bind fun token htoken => Finds.currentKind.bind fun kind hkind => ?_
  rw [hkind, hopen]
  refine (recognizes_arguments hexpr hargs (by omega) hreads trivial).bind fun args' hargs' => ?_
  refine Finds.spanFrom.bind fun span _ => .ret ?_
  simp only [Expr.eraseSpans, eraseOption, eraseExprs_eq, hargs', htoken,
    text_of_spelling hx rfl]

theorem finds_assign (hexpr : expr.Completes n) (he : Phrase e ts)
    (hlen : (Spelling.object x :: .mark .assign :: ts).length ≤ n + 1)
    (hreads : s.Reads (.object x :: .mark .assign :: ts) s')
    (hends : s'.current.kind.EndsPhrase) :
    Finds (identifier expr) s s' (·.eraseSpans = (Expr.assign x e span).eraseSpans) := by
  obtain ⟨-, hx, -, hassign, hreads⟩ := hreads
  simp only [List.length_cons] at hlen
  refine Finds.advance.bind fun token htoken => Finds.currentKind.bind fun kind hkind => ?_
  rw [hkind, kind_of_spelling hassign]
  refine Finds.advance.bind fun _ _ => ?_
  refine (hexpr.phrase he (by omega) hreads hends).bind fun e' he' => ?_
  refine Finds.spanFrom.bind fun span _ => .ret ?_
  simp only [Expr.eraseSpans, he', htoken, text_of_spelling hx rfl]

theorem finds_group (hexpr : expr.Completes n) (he : Phrase e ts)
    (hlen : (Spelling.mark .openParen :: (ts ++ [.mark .closeParen])).length ≤ n + 1)
    (hreads : s.Reads (.mark .openParen :: (ts ++ [.mark .closeParen])) s') :
    Finds (grouping expr) s s' (·.eraseSpans = e.eraseSpans) := by
  obtain ⟨-, -, hreads⟩ := hreads
  obtain ⟨s₁, hts, -, hclose, rfl⟩ := reads_append_iff.mp hreads
  simp only [List.length_cons, List.length_append] at hlen
  refine Finds.advance.bind fun _ _ => ?_
  refine (hexpr.phrase he (by omega) hts (.of_spelling hclose (by decide))).bind fun e' he' => ?_
  exact (Finds.expect (kind_of_spelling hclose)).bind fun _ _ => .ret he'

theorem finds_new (hreads : s.Reads [.mark .newKw, .type T] s') :
    Finds newObject s s' (·.eraseSpans = (Expr.new T span).eraseSpans) := by
  obtain ⟨-, -, -, hT, rfl⟩ := hreads
  refine Finds.advance.bind fun _ _ => ?_
  refine (Finds.expect (kind_of_spelling hT)).bind fun typeName htypeName => ?_
  refine Finds.spanFrom.bind fun span _ => .ret ?_
  simp only [Expr.eraseSpans, htypeName, text_of_spelling hT rfl]

theorem finds_cond (hexpr : expr.Completes n) (hc : Phrase c ts) (ht : Phrase t us)
    (hf : Phrase f vs)
    (hlen : (Spelling.mark .ifKw :: (ts ++ .mark .thenKw ::
      (us ++ .mark .elseKw :: (vs ++ [.mark .fiKw])))).length ≤ n + 1)
    (hreads : s.Reads (.mark .ifKw :: (ts ++ .mark .thenKw ::
      (us ++ .mark .elseKw :: (vs ++ [.mark .fiKw])))) s') :
    Finds (conditional expr) s s' (·.eraseSpans = (Expr.cond c t f span).eraseSpans) := by
  obtain ⟨-, -, hreads⟩ := hreads
  obtain ⟨s₁, hts, -, hthen, hreads⟩ := reads_append_iff.mp hreads
  obtain ⟨s₂, hus, -, helse, hreads⟩ := reads_append_iff.mp hreads
  obtain ⟨s₃, hvs, -, hfi, rfl⟩ := reads_append_iff.mp hreads
  simp only [List.length_cons, List.length_append] at hlen
  refine Finds.advance.bind fun _ _ => ?_
  refine (hexpr.phrase hc (by omega) hts (.of_spelling hthen (by decide))).bind fun c' hc' => ?_
  refine (Finds.expect (kind_of_spelling hthen)).bind fun _ _ => ?_
  refine (hexpr.phrase ht (by omega) hus (.of_spelling helse (by decide))).bind fun t' ht' => ?_
  refine (Finds.expect (kind_of_spelling helse)).bind fun _ _ => ?_
  refine (hexpr.phrase hf (by omega) hvs (.of_spelling hfi (by decide))).bind fun f' hf' => ?_
  refine (Finds.expect (kind_of_spelling hfi)).bind fun _ _ => ?_
  refine Finds.spanFrom.bind fun span _ => .ret ?_
  simp only [Expr.eraseSpans, hc', ht', hf']

theorem finds_loop (hexpr : expr.Completes n) (hc : Phrase c ts) (hbody : Phrase body us)
    (hlen : (Spelling.mark .whileKw ::
      (ts ++ .mark .loopKw :: (us ++ [.mark .poolKw]))).length ≤ n + 1)
    (hreads : s.Reads (.mark .whileKw ::
      (ts ++ .mark .loopKw :: (us ++ [.mark .poolKw]))) s') :
    Finds (loop expr) s s' (·.eraseSpans = (Expr.loop c body span).eraseSpans) := by
  obtain ⟨-, -, hreads⟩ := hreads
  obtain ⟨s₁, hts, -, hloop, hreads⟩ := reads_append_iff.mp hreads
  obtain ⟨s₂, hus, -, hpool, rfl⟩ := reads_append_iff.mp hreads
  simp only [List.length_cons, List.length_append] at hlen
  refine Finds.advance.bind fun _ _ => ?_
  refine (hexpr.phrase hc (by omega) hts (.of_spelling hloop (by decide))).bind fun c' hc' => ?_
  refine (Finds.expect (kind_of_spelling hloop)).bind fun _ _ => ?_
  refine (hexpr.phrase hbody (by omega) hus (.of_spelling hpool (by decide))).bind
    fun body' hbody' => ?_
  refine (Finds.expect (kind_of_spelling hpool)).bind fun _ _ => ?_
  refine Finds.spanFrom.bind fun span _ => .ret ?_
  simp only [Expr.eraseSpans, hc', hbody']

theorem finds_block {es : List Expr} (hexpr : expr.Completes n) (hes : Terminated Phrase es ts)
    (hlen : (Spelling.mark .openCurly :: (ts ++ [.mark .closeCurly])).length ≤ n + 1)
    (hreads : s.Reads (.mark .openCurly :: (ts ++ [.mark .closeCurly])) s') :
    Finds (block expr) s s' (·.eraseSpans = (Expr.block es span).eraseSpans) := by
  obtain ⟨-, -, hreads⟩ := hreads
  obtain ⟨s₁, hts, -, hclose, rfl⟩ := reads_append_iff.mp hreads
  simp only [List.length_cons, List.length_append] at hlen
  refine Finds.advance.bind fun _ _ => ?_
  refine ((recognizes_statement hexpr).itemsUntil (avoids_phrase rfl) hes (by omega) hts
    (kind_of_spelling hclose)).bind fun es' hes' => ?_
  refine (Finds.expect (kind_of_spelling hclose)).bind fun _ _ => ?_
  refine Finds.spanFrom.bind fun span _ => .ret ?_
  simp only [Expr.eraseSpans, eraseExprs_eq, hes']

theorem finds_letIn {bs : List Binding} (hexpr : expr.Completes n)
    (hbs : Separated BindingPhrase bs ts) (hbody : Phrase body us)
    (hlen : (Spelling.mark .letKw :: (ts ++ .mark .inKw :: us)).length ≤ n + 1)
    (hreads : s.Reads (.mark .letKw :: (ts ++ .mark .inKw :: us)) s')
    (hends : s'.current.kind.EndsPhrase) :
    Finds (letIn expr) s s' (·.eraseSpans = (Expr.letIn bs body span).eraseSpans) := by
  obtain ⟨-, -, hreads⟩ := hreads
  obtain ⟨s₁, hts, -, hin, hus⟩ := reads_append_iff.mp hreads
  simp only [List.length_cons, List.length_append] at hlen
  have hkind : s₁.current.kind = .inKw := kind_of_spelling hin
  refine Finds.advance.bind fun _ _ => ?_
  refine ((recognizes_binding hexpr).commaSeparated (by decide) hbs (by omega) hts
    (by rw [hkind]; decide)).bind fun bs' hbs' => ?_
  refine (Finds.expect hkind).bind fun _ _ => ?_
  refine (hexpr.phrase hbody (by omega) hus hends).bind fun body' hbody' => ?_
  refine Finds.spanFrom.bind fun span _ => .ret ?_
  simp only [Expr.eraseSpans, eraseBindings_eq, hbs', hbody']

theorem finds_caseOf {branches : List Branch} (hexpr : expr.Completes n) (he : Phrase e ts)
    (hbranches : Terminated BranchPhrase branches us) (hne : branches ≠ [])
    (hlen : (Spelling.mark .caseKw ::
      (ts ++ .mark .ofKw :: (us ++ [.mark .esacKw]))).length ≤ n + 1)
    (hreads : s.Reads (.mark .caseKw :: (ts ++ .mark .ofKw :: (us ++ [.mark .esacKw]))) s') :
    Finds (caseOf expr) s s' (·.eraseSpans = (Expr.caseOf e branches span).eraseSpans) := by
  have havoids : Avoids BranchPhrase .esacKw := by
    rintro _ _ ⟨_⟩
    exact ⟨_, _, rfl, nofun⟩
  obtain ⟨-, -, hreads⟩ := hreads
  obtain ⟨s₁, hts, -, hof, hreads⟩ := reads_append_iff.mp hreads
  obtain ⟨s₂, hus, -, hesac, rfl⟩ := reads_append_iff.mp hreads
  simp only [List.length_cons, List.length_append] at hlen
  refine Finds.advance.bind fun _ _ => ?_
  refine (hexpr.phrase he (by omega) hts (.of_spelling hof (by decide))).bind fun e' he' => ?_
  refine (Finds.expect (kind_of_spelling hof)).bind fun _ _ => ?_
  refine ((recognizes_branch hexpr).itemsUntil havoids hbranches (by omega) hus
    (kind_of_spelling hesac)).bind fun branches' hbranches' => ?_
  have hne' : branches'.isEmpty = false := by
    rw [List.isEmpty_eq_false_iff]
    rintro rfl
    exact hne (List.map_eq_nil_iff.mp hbranches'.symm)
  dsimp only
  rw [if_neg (by simp [hne'])]
  refine (Finds.expect (kind_of_spelling hesac)).bind fun _ _ => ?_
  refine Finds.spanFrom.bind fun span _ => .ret ?_
  simp only [Expr.eraseSpans, eraseBranches_eq, he', hbranches']

theorem finds_not (hexpr : expr.Completes n) (he : Phrase e ts)
    (hlen : (Spelling.mark .notKw :: ts).length ≤ n + 1)
    (hreads : s.Reads (.mark .notKw :: ts) s') (hends : s'.current.kind.EndsPhrase) :
    Finds (operator expr) s s' (·.eraseSpans = (Expr.unary .not e span).eraseSpans) := by
  obtain ⟨-, hnot, hreads⟩ := hreads
  rw [List.length_cons] at hlen
  refine Finds.advance.bind fun token htoken => ?_
  rw [htoken, kind_of_spelling hnot]
  have hoperand := hexpr.loosest .not (by decide) he (by omega) hreads hends
  refine hoperand.bind fun e' he' => Finds.spanFrom.bind fun span _ => .ret ?_
  simp only [Expr.eraseSpans, he']

end Forms

section Operators

variable {F : Shape} {e : Expr} {ts : List Spelling} {span : Span}

/-- The operand behind an operator that binds as tightly as `p`. -/
theorem Completes.operand {p : Precedence} (hexpr : expr.Completes n) (he : Derives F e ts)
    (hF : F.FitsRight p) (hp : p.level < 8)
    (hbefore : Shape.MayPrecede ⟨p, F.greedy⟩ s'.current.kind)
    (hname : s'.current.kind.EndsName) (hlen : ts.length ≤ n) (hreads : s.Reads ts s') :
    Finds (expr p) s s' (·.eraseSpans = e.eraseSpans) :=
  hexpr ⟨F, he, hF, .operand he hF hp hbefore⟩ hbefore.endsAt hname hlen hreads

theorem finds_negate (hexpr : expr.Completes n) (he : Derives F e ts) (hF : F.FitsRight .negate)
    (hlen : (Spelling.mark .tilde :: ts).length ≤ n + 1)
    (hreads : s.Reads (.mark .tilde :: ts) s')
    (hbefore : Shape.MayPrecede ⟨.negate, F.greedy⟩ s'.current.kind)
    (hname : s'.current.kind.EndsName) :
    Finds (operator expr) s s' (·.eraseSpans = (Expr.unary .negate e span).eraseSpans) := by
  obtain ⟨-, htilde, hreads⟩ := hreads
  rw [List.length_cons] at hlen
  refine Finds.advance.bind fun token htoken => ?_
  rw [htoken, kind_of_spelling htilde]
  refine (hexpr.operand he hF (by decide) hbefore hname (by omega) hreads).bind fun e' he' => ?_
  refine Finds.spanFrom.bind fun span _ => .ret ?_
  simp only [Expr.eraseSpans, he']

theorem finds_isVoid (hexpr : expr.Completes n) (he : Derives F e ts) (hF : F.FitsRight .isVoid)
    (hlen : (Spelling.mark .isVoidKw :: ts).length ≤ n + 1)
    (hreads : s.Reads (.mark .isVoidKw :: ts) s')
    (hbefore : Shape.MayPrecede ⟨.isVoid, F.greedy⟩ s'.current.kind)
    (hname : s'.current.kind.EndsName) :
    Finds (operator expr) s s' (·.eraseSpans = (Expr.isVoid e span).eraseSpans) := by
  obtain ⟨-, hisVoid, hreads⟩ := hreads
  rw [List.length_cons] at hlen
  refine Finds.advance.bind fun token htoken => ?_
  rw [htoken, kind_of_spelling hisVoid]
  refine (hexpr.operand he hF (by decide) hbefore hname (by omega) hreads).bind fun e' he' => ?_
  refine Finds.spanFrom.bind fun span _ => .ret ?_
  simp only [Expr.eraseSpans, he']

/-- A form that begins with a word of its own is found behind that word. -/
theorem finds_opening (hexpr : expr.Completes n) (he : Derives F e ts)
    (hjoins : F.precedence.joins = false) (hbefore : F.MayPrecede s'.current.kind)
    (hname : s'.current.kind.EndsName) (hlen : ts.length ≤ n + 1) (hreads : s.Reads ts s') :
    ∃ form, FormTable.cool.opening? s.current.kind = some form ∧
      Finds (opening expr form) s s' (·.eraseSpans = e.eraseSpans) := by
  have hopens {w us form} (hts : ts = w :: us)
      (hform : FormTable.cool.opening? w.kind = some form) :
      FormTable.cool.opening? s.current.kind = some form := by
    rw [hts] at hreads
    rw [kind_of_spelling hreads.2.1, hform]
  cases he with
  | int hi => exact ⟨.literal, hopens rfl rfl, finds_int hi hreads⟩
  | str => exact ⟨.literal, hopens rfl rfl, finds_str hreads⟩
  | @bool b => exact ⟨.literal, hopens rfl (by cases b <;> rfl), finds_bool hreads⟩
  | self =>
      obtain ⟨-, hx, rfl⟩ := hreads
      exact ⟨.identifier, hopens rfl rfl, finds_name (text_of_spelling hx rfl) hname⟩
  | name hself =>
      obtain ⟨-, hx, rfl⟩ := hreads
      have hfinds : Finds (identifier expr) s s.advance _ :=
        finds_name (text_of_spelling hx rfl) hname
      rw [if_neg hself] at hfinds
      exact ⟨.identifier, hopens rfl rfl, hfinds⟩
  | new => exact ⟨.newObject, hopens rfl rfl, finds_new hreads⟩
  | group he => exact ⟨.grouping, hopens rfl rfl, finds_group hexpr he hlen hreads⟩
  | cond hc ht hf => exact ⟨.conditional, hopens rfl rfl, finds_cond hexpr hc ht hf hlen hreads⟩
  | loop hc hbody => exact ⟨.loop, hopens rfl rfl, finds_loop hexpr hc hbody hlen hreads⟩
  | block hbody => exact ⟨.block, hopens rfl rfl, finds_block hexpr hbody hlen hreads⟩
  | caseOf he hbranches hne =>
      exact ⟨.caseOf, hopens rfl rfl, finds_caseOf hexpr he hbranches hne hlen hreads⟩
  | call hargs => exact ⟨.identifier, hopens rfl rfl, finds_call hexpr hargs hlen hreads⟩
  | assign he =>
      exact ⟨.identifier, hopens rfl rfl,
        finds_assign hexpr he hlen hreads ⟨hbefore.eq_none rfl, hname⟩⟩
  | letIn hbs hbody =>
      exact ⟨.letIn, hopens rfl rfl,
        finds_letIn hexpr hbs hbody hlen hreads ⟨hbefore.eq_none rfl, hname⟩⟩
  | not he =>
      exact ⟨.operator, hopens rfl rfl,
        finds_not hexpr he hlen hreads ⟨hbefore.eq_none rfl, hname⟩⟩
  | isVoid he hF =>
      exact ⟨.operator, hopens rfl rfl, finds_isVoid hexpr he hF hlen hreads hbefore hname⟩
  | negate he hF =>
      exact ⟨.operator, hopens rfl rfl, finds_negate hexpr he hF hlen hreads hbefore hname⟩
  | @binary _ _ op => cases hjoins.symm.trans op.joins_precedence
  | dispatch | qualified => cases hjoins

/-! ## Continuations -/

variable {G : Shape} {left right : Expr} {us : List Spelling} {m : String} {args : List Expr}

theorem finds_binary (hexpr : expr.Completes n) {op : BinaryOp}
    (hleft : e.eraseSpans = left.eraseSpans) (hright : Derives G right us)
    (hG : G.FitsRight op.precedence)
    (hbefore : Shape.MayPrecede ⟨op.precedence, G.greedy⟩ s'.current.kind)
    (hname : s'.current.kind.EndsName) (hlen : us.length ≤ n)
    (hreads : s.Reads (.mark op.kind :: us) s') :
    Finds (binary expr op.precedence e) s s'
      (·.eraseSpans = (Expr.binary op left right span).eraseSpans) := by
  obtain ⟨-, hop, hreads⟩ := hreads
  refine Finds.advance.bind fun token htoken => ?_
  rw [htoken, kind_of_spelling hop, Spelling.mark, binaryOp?_kind]
  dsimp only
  have hlevel : op.precedence.level < 8 := by cases op <;> decide
  refine (hexpr.operand hright hG hlevel hbefore hname hlen hreads).bind fun r hr => ?_
  refine Finds.currentKind.bind fun kind hkind => ?_
  have hchain : ¬(op.precedence = .relational ∧ isComparison kind = true) := by
    rintro ⟨hrel, hcomparison⟩
    rw [hkind] at hcomparison
    exact (hbefore _ _ (continuation?_of_isComparison hcomparison)).2.2 ⟨hrel, rfl⟩
  rw [if_neg hchain]
  exact .ret (by simp only [Expr.eraseSpans, hleft, hr])

theorem finds_dispatch (hexpr : expr.Completes n) (hleft : e.eraseSpans = left.eraseSpans)
    (hargs : Parenthesized Phrase args us) (hlen : us.length ≤ n)
    (hreads : s.Reads (.mark .dot :: .object m :: us) s') :
    Finds (dispatch expr e) s s'
      (·.eraseSpans = (Expr.dispatch (some left) none m args span).eraseSpans) := by
  obtain ⟨-, hdot, -, hm, hreads⟩ := hreads
  refine (Finds.expect (kind_of_spelling hdot)).bind fun _ _ => ?_
  refine (Finds.expect (kind_of_spelling hm)).bind fun method hmethod => ?_
  refine (recognizes_arguments hexpr hargs hlen hreads trivial).bind fun args' hargs' => ?_
  refine Finds.spanFrom.bind fun span _ => .ret ?_
  simp only [Expr.eraseSpans, eraseOption, eraseExprs_eq, hleft, hargs', hmethod,
    text_of_spelling hm rfl]

theorem finds_qualifiedDispatch {T : String} (hexpr : expr.Completes n)
    (hleft : e.eraseSpans = left.eraseSpans) (hargs : Parenthesized Phrase args us)
    (hlen : us.length ≤ n)
    (hreads : s.Reads (.mark .atSign :: .type T :: .mark .dot :: .object m :: us) s') :
    Finds (qualifiedDispatch expr e) s s'
      (·.eraseSpans = (Expr.dispatch (some left) (some T) m args span).eraseSpans) := by
  obtain ⟨-, hat, -, hT, -, hdot, -, hm, hreads⟩ := hreads
  refine (Finds.expect (kind_of_spelling hat)).bind fun _ _ => ?_
  refine (Finds.expect (kind_of_spelling hT)).bind fun qualifier hqualifier => ?_
  refine (Finds.expect (kind_of_spelling hdot)).bind fun _ _ => ?_
  refine (Finds.expect (kind_of_spelling hm)).bind fun method hmethod => ?_
  refine (recognizes_arguments hexpr hargs hlen hreads trivial).bind fun args' hargs' => ?_
  refine Finds.spanFrom.bind fun span _ => .ret ?_
  simp only [Expr.eraseSpans, eraseOption, eraseExprs_eq, hleft, hargs', hmethod, hqualifier,
    text_of_spelling hm rfl, text_of_spelling hT rfl]

end Operators

/-! ## The loop -/

variable {power q : Precedence} {left e : Expr} {bound : Nat}

theorem go_step {form : Continuation}
    (hform : FormTable.cool.continuation? s.current.kind = some (form, q))
    (hq : power.looserThan q = true) (hx : continuation expr q left form s = .ok e s') :
    continuations.go .cool expr power (bound + 1) left s =
      continuations.go .cool expr power bound e s' := by
  rw [continuations.go.eq_def, currentKind_bind, hform]
  dsimp only
  rw [if_pos hq]
  exact bind_ok hx

theorem go_stop (hends : power.EndsAt s.current.kind) :
    continuations.go .cool expr power bound left s = .ok left s := by
  rw [continuations.go.eq_def, currentKind_bind]
  cases hk : FormTable.cool.continuation? s.current.kind with
  | none => rfl
  | some c =>
      obtain ⟨form, q⟩ := c
      dsimp only
      rw [if_neg (by simp [hends form q hk])]
      rfl

end ExprReader

open Parse TokenStream ExprReader

/-- The reader gets into its loop with what a derivation spells as the left operand. -/
theorem enters_loop {n depth : Nat} (hexpr : (parseExprWithin .cool depth).Completes n)
    {F : Shape} {e : Expr} {ts : List Spelling} {s s' : TokenStream} {power : Precedence}
    (he : Derives F e ts) (hF : F.FitsRight power)
    (hbefore : F.MayPrecede s'.current.kind) (hname : s'.current.kind.EndsName)
    (hlen : ts.length ≤ n + 1) (hreads : s.Reads ts s') :
    ∃ e' bound, e'.eraseSpans = e.eraseSpans ∧ s'.rest.length < bound ∧
      parseExprWithin .cool (depth + 1) power s =
        continuations.go .cool (parseExprWithin .cool depth) power bound e' s' := by
  cases hjoins : F.precedence.joins with
  | false =>
      obtain ⟨form, hform, e', hopening, he'⟩ :=
        finds_opening hexpr he hjoins hbefore hname hlen hreads
      refine ⟨e', s'.rest.length + 1, he', Nat.lt_succ_self _, ?_⟩
      rw [parseExprWithin, currentKind_bind, hform]
      exact bind_ok hopening
  | true =>
      have hpower : power.looserThan F.precedence = true := hF hjoins
      -- the loop has the left operand, whose spelling is shorter, and takes one round more
      have hround {G : Shape} {l : Expr} {us vs : List Spelling} {form : Continuation}
          {w : Spelling} (hlt : us.length < ts.length) (hl : Derives G l us)
          (hG : G.FitsLeft F.precedence) (hts : ts = us ++ w :: vs)
          (hw : FormTable.cool.continuation? w.kind = some (form, F.precedence))
          (hwname : w.kind.EndsName)
          (hform : ∀ l' s₁, l'.eraseSpans = l.eraseSpans → s₁.Reads (w :: vs) s' →
            Finds (continuation (parseExprWithin .cool depth) F.precedence l' form) s₁ s'
              (·.eraseSpans = e.eraseSpans)) :
          ∃ e' bound, e'.eraseSpans = e.eraseSpans ∧ s'.rest.length < bound ∧
            parseExprWithin .cool (depth + 1) power s =
              continuations.go .cool (parseExprWithin .cool depth) power bound e' s' := by
        rw [hts] at hreads hlen
        rw [List.length_append, List.length_cons] at hlen
        obtain ⟨s₁, hus, hvs⟩ := reads_append_iff.mp hreads
        have hkind : s₁.current.kind = w.kind := Token.kind_of_spelling hvs.2.1
        rw [← hkind] at hw hwname
        obtain ⟨l', bound, hl', hbound, hloop⟩ := enters_loop hexpr hl (hG.fitsRight hpower)
          (Shape.mayPrecede_of_eq_some hw hG) hwname (by omega) hus
        obtain ⟨bound, rfl⟩ := Nat.exists_eq_add_one_of_ne_zero (Nat.ne_zero_of_lt hbound)
        obtain ⟨e', hx, he'⟩ := hform l' s₁ hl' hvs
        refine ⟨e', bound, he', ?_, hloop.trans (go_step hw hpower hx)⟩
        have hlength := hvs.length_eq
        rw [List.length_cons] at hlength
        omega
      cases he with
      | @binary F₁ G op l r span us vs hl hF₁ hr hG =>
          refine hround (by simp) hl hF₁ rfl (FormTable.continuation?_kind op)
            (by cases op <;> decide) fun l' s₁ hl' hs₁ => ?_
          simp only [List.length_append, List.length_cons] at hlen
          exact finds_binary hexpr hl' hr hG hbefore hname (by omega) hs₁
      | dispatch hr hF₁ hargs =>
          refine hround (by simp) hr hF₁ rfl rfl (by decide) fun l' s₁ hl' hs₁ => ?_
          simp only [List.length_append, List.length_cons] at hlen
          exact finds_dispatch hexpr hl' hargs (by omega) hs₁
      | qualified hr hF₁ hargs =>
          refine hround (by simp) hr hF₁ rfl rfl (by decide) fun l' s₁ hl' hs₁ => ?_
          simp only [List.length_append, List.length_cons] at hlen
          exact finds_qualifiedDispatch hexpr hl' hargs (by omega) hs₁
      | _ => cases hjoins
termination_by ts.length

theorem completes_parseExprWithin (depth : Nat) :
    (parseExprWithin .cool depth).Completes depth := by
  induction depth with
  | zero =>
      rintro power e ts s s' ⟨F, he, -⟩ - - hlen -
      obtain ⟨w, us, form, rfl, -⟩ := he.opens
      cases hlen
  | succ depth ih =>
      rintro power e ts s s' ⟨F, he, hF, hbefore⟩ hends hname hlen hreads
      obtain ⟨e', bound, he', -, hloop⟩ := enters_loop ih he hF hbefore hname hlen hreads
      exact ⟨e', hloop.trans (go_stop hends), he'⟩

theorem completes_parseExpr (n : Nat) : (parseExpr .cool).Completes n := by
  intro power e ts s s' he hends hname _ hreads
  have hlen : ts.length ≤ s.rest.length + 1 := by
    have := hreads.length_eq
    omega
  exact completes_parseExprWithin _ he hends hname hlen hreads

end CoolLang
