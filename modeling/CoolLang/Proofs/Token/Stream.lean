import CoolLang.Token.Stream

/-!
# Readers and the tokens they take

`s.Reads ts s'` says that the tokens spelled `ts` lead from the stream `s` to `s'`. A reader is
judged from two sides: `Takes` describes what it has taken when it succeeds, and `Finds` says that
it succeeds. The readers of lists are proved here against `Terminated`, `Separated` and
`Parenthesized`, which say how a list is spelled.
-/

namespace CoolLang

/-! ## Spellings -/

/-- Whether tokens of the kind differ by their text. -/
def TokenKind.hasText : TokenKind → Bool
  | integer | string | typeIdentifier | objectIdentifier => true
  | _ => false

/-- Whether the kind is a keyword or a symbol. -/
def TokenKind.isMark (k : TokenKind) : Bool := !k.hasText && k ≠ .eof

theorem TokenKind.isMark_iff {k : TokenKind} :
    k.isMark = true ↔ k.hasText = false ∧ k ≠ .eof := by
  simp [isMark]

/-- What a token says wherever it stands. -/
structure Spelling where
  kind : TokenKind
  text : String
deriving DecidableEq

namespace Spelling

/-- A keyword or a symbol. -/
def mark (kind : TokenKind) : Spelling := ⟨kind, ""⟩

def object (name : String) : Spelling := ⟨.objectIdentifier, name⟩

def type (name : String) : Spelling := ⟨.typeIdentifier, name⟩

/-- A token that says so and stands nowhere in particular. -/
def token (w : Spelling) : Token := ⟨w.kind, w.text, .nowhere⟩

end Spelling

namespace Token

def spelling (t : Token) : Spelling :=
  ⟨t.kind, if t.kind.hasText then t.text else ""⟩

variable {t : Token} {k : TokenKind} {x : String}

theorem spelling_mark (hkind : t.kind = k) (hk : k.hasText = false) : t.spelling = .mark k := by
  simp [spelling, Spelling.mark, hkind, hk]

theorem spelling_text (hkind : t.kind = k) (hk : k.hasText = true) :
    t.spelling = ⟨k, t.text⟩ := by
  simp [spelling, hkind, hk]

theorem spelling_object (hkind : t.kind = .objectIdentifier) : t.spelling = .object t.text :=
  spelling_text hkind rfl

theorem spelling_type (hkind : t.kind = .typeIdentifier) : t.spelling = .type t.text :=
  spelling_text hkind rfl

theorem kind_of_spelling {w : Spelling} (h : t.spelling = w) : t.kind = w.kind := by
  rw [← h]
  rfl

theorem text_of_spelling (h : t.spelling = ⟨k, x⟩) (hk : k.hasText = true) : t.text = x := by
  have hkind : t.kind = k := kind_of_spelling h
  rw [spelling_text hkind hk] at h
  exact (Spelling.mk.inj h).2

end Token

/-! ## Streams -/

namespace TokenStream

/-- The tokens spelled `ts` stand in front, and taking them leaves `s'`. -/
def Reads (s : TokenStream) : List Spelling → TokenStream → Prop
  | [], s' => s' = s
  | w :: ts, s' => s.rest ≠ [] ∧ s.current.spelling = w ∧ s.advance.Reads ts s'

/-- The end-of-file mark closes the stream and stands nowhere else. -/
def Closed (s : TokenStream) : Prop :=
  ∃ ts eof, s.rest = ts ++ [eof] ∧ eof.kind = .eof ∧ ∀ t ∈ ts, t.kind ≠ .eof

variable {s s' s'' : TokenStream} {ts us : List Spelling} {w : Spelling}

theorem Reads.append (h : s.Reads ts s') (h' : s'.Reads us s'') : s.Reads (ts ++ us) s'' := by
  induction ts generalizing s with
  | nil => exact h ▸ h'
  | cons w ts ih => exact ⟨h.1, h.2.1, ih h.2.2⟩

theorem reads_append_iff : s.Reads (ts ++ us) s'' ↔ ∃ s', s.Reads ts s' ∧ s'.Reads us s'' := by
  refine ⟨fun h => ?_, fun ⟨_, h, h'⟩ => h.append h'⟩
  induction ts generalizing s with
  | nil => exact ⟨s, rfl, h⟩
  | cons w ts ih =>
      obtain ⟨s', hs', hus⟩ := ih h.2.2
      exact ⟨s', ⟨h.1, h.2.1, hs'⟩, hus⟩

theorem rest_eq_cons (h : s.rest ≠ []) : s.rest = s.current :: s.advance.rest := by
  obtain ⟨rest, last, stop⟩ := s
  cases rest with
  | nil => exact absurd rfl h
  | cons t ts => rfl

theorem Reads.length_eq (h : s.Reads ts s') : s.rest.length = ts.length + s'.rest.length := by
  induction ts generalizing s with
  | nil => rw [h, List.length_nil, Nat.zero_add]
  | cons w ts ih =>
      rw [rest_eq_cons h.1, List.length_cons, ih h.2.2, List.length_cons]
      omega

theorem Reads.taken (h : s.Reads ts s') :
    ∃ taken, s.rest = taken ++ s'.rest ∧ taken.map Token.spelling = ts := by
  induction ts generalizing s with
  | nil => exact ⟨[], by rw [h]; rfl, rfl⟩
  | cons w ts ih =>
      obtain ⟨taken, hrest, hmap⟩ := ih h.2.2
      refine ⟨s.current :: taken, ?_, ?_⟩
      · rw [rest_eq_cons h.1, hrest, List.cons_append]
      · rw [List.map_cons, h.2.1, hmap]

theorem Reads.peekKind_one {v : Spelling} (h : s.Reads (w :: v :: ts) s') :
    s.peekKind 1 = v.kind := by
  rw [peekKind, rest_eq_cons h.1, rest_eq_cons h.2.2.1]
  exact Token.kind_of_spelling h.2.2.2.1

theorem exists_reads {taken rest : List Token} (h : s.rest = taken ++ rest) :
    ∃ s', s.Reads (taken.map Token.spelling) s' ∧ s'.rest = rest := by
  induction taken generalizing s with
  | nil => exact ⟨s, rfl, h⟩
  | cons t taken ih =>
      have hne : s.rest ≠ [] := by simp [h]
      have hcons := (rest_eq_cons hne).symm.trans h
      obtain ⟨s', hreads, hrest⟩ := ih (List.cons.inj hcons).2
      exact ⟨s', ⟨hne, by rw [(List.cons.inj hcons).1], hreads⟩, hrest⟩

theorem Closed.rest_ne_nil (h : s.Closed) : s.rest ≠ [] := by
  obtain ⟨ts, eof, hrest, -, -⟩ := h
  simp [hrest]

/-- Either the end-of-file mark is all that is left, or the first token is another one. -/
theorem Closed.cases (h : s.Closed) : s.current.kind = .eof ∧ s.rest = [s.current] ∨
    s.current.kind ≠ .eof ∧ s.advance.Closed := by
  have hcons := rest_eq_cons h.rest_ne_nil
  obtain ⟨ts, eof, hrest, heof, hts⟩ := h
  rw [hcons] at hrest ⊢
  cases ts with
  | nil =>
      obtain ⟨hcurrent, hnil⟩ := List.cons.inj hrest
      exact .inl ⟨hcurrent ▸ heof, by rw [hnil]⟩
  | cons t ts =>
      obtain ⟨hcurrent, htail⟩ := List.cons.inj hrest
      obtain ⟨ht, hts⟩ := List.forall_mem_cons.mp hts
      exact .inr ⟨hcurrent ▸ ht, ts, eof, htail, heof, hts⟩

theorem Closed.advance (h : s.Closed) (hkind : s.current.kind ≠ .eof) : s.advance.Closed := by
  rcases h.cases with ⟨heof, -⟩ | ⟨-, hclosed⟩
  · exact absurd heof hkind
  · exact hclosed

theorem Closed.rest_at_end (h : s.Closed) (hkind : s.current.kind = .eof) :
    s.rest = [s.current] := by
  rcases h.cases with ⟨-, hrest⟩ | ⟨hne, -⟩
  · exact hrest
  · exact absurd hkind hne

end TokenStream

/-! ## Spellings of lists -/

section Lists

variable {α : Type}

/-- Any number of items with a semicolon behind each. -/
inductive Terminated (Item : α → List Spelling → Prop) : List α → List Spelling → Prop
  | nil : Terminated Item [] []
  | cons {a as ts us} : Item a ts → Terminated Item as us →
      Terminated Item (a :: as) (ts ++ .mark .semicolon :: us)

/-- One or more items with commas between them. -/
inductive Separated (Item : α → List Spelling → Prop) : List α → List Spelling → Prop
  | one {a ts} : Item a ts → Separated Item [a] ts
  | more {a as ts us} : Item a ts → Separated Item as us →
      Separated Item (a :: as) (ts ++ .mark .comma :: us)

/-- An item with a semicolon behind it. -/
def Ended (Item : α → List Spelling → Prop) (a : α) (ts : List Spelling) : Prop :=
  ∃ us, Item a us ∧ ts = us ++ [.mark .semicolon]

/-- An item is spelled by one token or more, the first not of the kind `close`. -/
def Avoids (Item : α → List Spelling → Prop) (close : TokenKind) : Prop :=
  ∀ a ts, Item a ts → ∃ w us, ts = w :: us ∧ w.kind ≠ close

theorem Avoids.separated {Item : α → List Spelling → Prop} {close : TokenKind}
    (h : Avoids Item close) : Avoids (Separated Item) close := by
  intro as ts has
  cases has with
  | one ha => exact h _ _ ha
  | more ha _ =>
      obtain ⟨w, us, rfl, hw⟩ := h _ _ ha
      exact ⟨w, _, rfl, hw⟩

/-- Any number of items in parentheses, with commas between them. -/
inductive Parenthesized (Item : α → List Spelling → Prop) : List α → List Spelling → Prop
  | none : Parenthesized Item [] [.mark .openParen, .mark .closeParen]
  | some {as ts} : Separated Item as ts →
      Parenthesized Item as (.mark .openParen :: ts ++ [.mark .closeParen])

theorem Parenthesized.opens {Item : α → List Spelling → Prop} {as : List α}
    {ts : List Spelling} (h : Parenthesized Item as ts) : ∃ us, ts = .mark .openParen :: us := by
  cases h <;> exact ⟨_, rfl⟩

end Lists

namespace Parse

variable {α β : Type}

theorem bind_ok {x : Parse α} {f : α → Parse β} {s s' : TokenStream} {a : α}
    (h : x s = .ok a s') : (x >>= f) s = f a s' := by
  change EStateM.bind x f s = _
  rw [EStateM.bind, h]

theorem bind_error {x : Parse α} {f : α → Parse β} {s s' : TokenStream} {d : Diagnostic}
    (h : x s = .error d s') : (x >>= f) s = .error d s' := by
  change EStateM.bind x f s = _
  rw [EStateM.bind, h]

theorem currentKind_bind (f : TokenKind → Parse β) (s : TokenStream) :
    (currentKind >>= f) s = f s.current.kind s := rfl

/-! ## What a reader takes -/

/-- On a closed stream a success of the reader has taken tokens, the end-of-file mark not among
them; `P` relates them to what was read and to the stream that is left. -/
def Takes (x : Parse α) (s : TokenStream) (P : List Spelling → α → TokenStream → Prop) : Prop :=
  s.Closed → ∀ a s', x s = .ok a s' → ∃ ts, s.Reads ts s' ∧ s'.Closed ∧ P ts a s'

namespace Takes

variable {s : TokenStream} {x : Parse α} {f : α → Parse β}
variable {P Q : List Spelling → α → TokenStream → Prop} {R : List Spelling → β → TokenStream → Prop}

theorem ret {a : α} (h : P [] a s) : Takes (pure a) s P := by
  intro hs b s' hb
  cases hb
  exact ⟨[], rfl, hs, h⟩

theorem fails (hx : ∃ d s', x s = .error d s') : Takes x s P := by
  intro _ a s' ha
  obtain ⟨d, s₁, herr⟩ := hx
  cases herr.symm.trans ha

theorem unexpected : Takes Parse.unexpected s P := fails ⟨_, s, rfl⟩

theorem weaken (h : Takes x s P) (hPQ : ∀ ts a s', P ts a s' → Q ts a s') : Takes x s Q := by
  intro hs a s' ha
  obtain ⟨ts, hreads, hs', hP⟩ := h hs a s' ha
  exact ⟨ts, hreads, hs', hPQ ts a s' hP⟩

theorem bind (hx : Takes x s P)
    (hf : ∀ ts a s', P ts a s' → Takes (f a) s' fun us => R (ts ++ us)) :
    Takes (x >>= f) s R := by
  intro hs b s'' hb
  change EStateM.bind x f s = _ at hb
  unfold EStateM.bind at hb
  split at hb
  · rename_i a s' ha
    obtain ⟨ts, hreads, hs', hP⟩ := hx hs a s' ha
    obtain ⟨us, hreads', hs'', hR⟩ := hf ts a s' hP hs' b s'' hb
    exact ⟨ts ++ us, hreads.append hreads', hs'', hR⟩
  · cases hb

theorem bounded {reader : Nat → Parse α} (hreader : ∀ n, Takes (reader n) s P) :
    Takes (Parse.bounded reader) s P :=
  hreader _

theorem currentKind : Takes Parse.currentKind s fun ts k s' =>
    ts = [] ∧ k = s.current.kind ∧ s' = s := by
  intro hs k s' hk
  cases hk
  exact ⟨[], rfl, hs, rfl, rfl, rfl⟩

theorem get : Takes MonadState.get s fun ts a s' => ts = [] ∧ a = s ∧ s' = s := by
  intro hs k s' hk
  cases hk
  exact ⟨[], rfl, hs, rfl, rfl, rfl⟩

theorem spanFrom {start : Position} : Takes (Parse.spanFrom start) s fun ts _ s' =>
    ts = [] ∧ s' = s := by
  intro hs k s' hk
  cases hk
  exact ⟨[], rfl, hs, rfl, rfl⟩

theorem advance (hkind : s.current.kind ≠ .eof) : Takes Parse.advance s fun ts t _ =>
    ts = [t.spelling] ∧ t = s.current := by
  intro hs t s' ht
  cases ht
  exact ⟨[s.current.spelling], ⟨hs.rest_ne_nil, rfl, rfl⟩, hs.advance hkind, rfl, rfl⟩

theorem expectOr {k : TokenKind} {complaint : TokenStream → Diagnostic} (hk : k ≠ .eof) :
    Takes (Parse.expectOr k complaint) s fun ts t _ => ts = [t.spelling] ∧ t.kind = k := by
  intro hs t s' ht
  unfold Parse.expectOr at ht
  split at ht
  · rename_i hkind
    cases ht
    exact ⟨[s.current.spelling], ⟨hs.rest_ne_nil, rfl, rfl⟩, hs.advance (hkind ▸ hk), rfl, hkind⟩
  · cases ht

theorem advanceMark {k : TokenKind} (hkind : s.current.kind = k) (hk : k.isMark = true) :
    Takes Parse.advance s fun ts _ _ => ts = [.mark k] := by
  obtain ⟨htext, hne⟩ := TokenKind.isMark_iff.mp hk
  refine (advance (hkind ▸ hne)).weaken fun ts t _ ⟨hts, ht⟩ => ?_
  rw [hts, ht, Token.spelling_mark hkind htext]

/-- A keyword or a symbol. -/
theorem mark (k : TokenKind) (hk : k.isMark = true) :
    Takes (Parse.expect k) s fun ts _ _ => ts = [.mark k] := by
  obtain ⟨htext, hne⟩ := TokenKind.isMark_iff.mp hk
  refine (expectOr hne).weaken fun ts t _ ⟨hts, hkind⟩ => ?_
  rw [hts, Token.spelling_mark hkind htext]

theorem object : Takes (Parse.expect .objectIdentifier) s fun ts t _ => ts = [.object t.text] :=
  (expectOr (by decide)).weaken fun _ _ _ ⟨hts, hkind⟩ => by
    rw [hts, Token.spelling_object hkind]

theorem type : Takes (Parse.expect .typeIdentifier) s fun ts t _ => ts = [.type t.text] :=
  (expectOr (by decide)).weaken fun _ _ _ ⟨hts, hkind⟩ => by
    rw [hts, Token.spelling_type hkind]

theorem accept (k : TokenKind) (hk : k.isMark = true) :
    Takes (Parse.accept k) s fun ts took s' =>
      took = true ∧ ts = [.mark k] ∨ took = false ∧ ts = [] ∧ s' = s ∧ s.current.kind ≠ k := by
  intro hs took s' htook
  obtain ⟨htext, hne⟩ := TokenKind.isMark_iff.mp hk
  unfold Parse.accept at htook
  split at htook
  · rename_i hkind
    cases htook
    exact ⟨[.mark k], ⟨hs.rest_ne_nil, Token.spelling_mark hkind htext, rfl⟩,
      hs.advance (hkind ▸ hne), .inl ⟨rfl, rfl⟩⟩
  · rename_i hkind
    cases htook
    exact ⟨[], rfl, hs, .inr ⟨rfl, rfl, rfl, hkind⟩⟩

/-! ### Lists -/

variable {item : Parse α} {Item : α → List Spelling → Prop}

theorem ended (hitem : Takes item s fun ts a _ => Item a ts) :
    Takes (do let a ← item; let _ ← Parse.expect .semicolon; return a) s fun ts a _ =>
      Ended Item a ts := by
  refine hitem.bind fun ts a _ ha => (mark .semicolon rfl).bind ?_
  rintro _ _ _ rfl
  exact ret ⟨ts, ha, rfl⟩

theorem itemsUntil_go (hitem : ∀ s, Takes item s fun ts a _ => Ended Item a ts)
    (close : TokenKind) (bound : Nat) (s : TokenStream) :
    Takes (Parse.itemsUntil.go close item bound) s fun ts as s' =>
      Terminated Item as ts ∧ s'.current.kind = close := by
  rw [Parse.itemsUntil.go.eq_def]
  refine currentKind.bind ?_
  rintro _ _ _ ⟨rfl, rfl, rfl⟩
  split
  · exact ret ⟨.nil, by assumption⟩
  · cases bound with
    | zero => exact unexpected
    | succ bound =>
        refine (hitem _).bind ?_
        rintro _ a s₁ ⟨ts, ha, rfl⟩
        refine (itemsUntil_go hitem close bound s₁).bind fun us as _ ⟨has, hclose⟩ =>
          ret ⟨?_, hclose⟩
        simpa using Terminated.cons ha has

theorem itemsUntil (hitem : ∀ s, Takes item s fun ts a _ => Ended Item a ts)
    (close : TokenKind) :
    Takes (Parse.itemsUntil close item) s fun ts as s' =>
      Terminated Item as ts ∧ s'.current.kind = close :=
  bounded fun bound => itemsUntil_go hitem close bound s

theorem commaSeparated_go (hitem : ∀ s, Takes item s fun ts a _ => Item a ts) (bound : Nat)
    (s : TokenStream) :
    Takes (Parse.commaSeparated.go item bound) s fun ts as _ => Separated Item as ts := by
  rw [Parse.commaSeparated.go.eq_def]
  refine (hitem s).bind fun ts a _ ha => (accept .comma rfl).bind ?_
  rintro _ _ s₁ (⟨rfl, rfl⟩ | ⟨rfl, rfl, rfl, -⟩)
  · cases bound with
    | zero => exact unexpected
    | succ bound =>
        exact (commaSeparated_go hitem bound s₁).bind fun us as _ has =>
          ret (by simpa using Separated.more ha has)
  · exact ret (by simpa using Separated.one ha)

theorem commaSeparated (hitem : ∀ s, Takes item s fun ts a _ => Item a ts) :
    Takes (Parse.commaSeparated item) s fun ts as _ => Separated Item as ts :=
  bounded fun bound => commaSeparated_go hitem bound s

theorem parenthesized (hitem : ∀ s, Takes item s fun ts a _ => Item a ts) :
    Takes (Parse.parenthesized item) s fun ts as _ => Parenthesized Item as ts := by
  refine (mark .openParen rfl).bind ?_
  rintro _ _ _ rfl
  refine currentKind.bind ?_
  rintro _ _ _ ⟨rfl, rfl, rfl⟩
  split
  · refine (ret (P := fun ts as _ => ts = [] ∧ as = []) ⟨rfl, rfl⟩).bind ?_
    rintro _ _ _ ⟨rfl, rfl⟩
    refine (mark .closeParen rfl).bind ?_
    rintro _ _ _ rfl
    exact ret .none
  · refine (commaSeparated hitem).bind fun ts as _ has => (mark .closeParen rfl).bind ?_
    rintro _ _ _ rfl
    exact ret (.some has)

end Takes

/-! ## What a reader finds -/

/-- The reader succeeds, and the stream that is left is `s'`. -/
def Finds (x : Parse α) (s s' : TokenStream) (P : α → Prop) : Prop :=
  ∃ a, x s = .ok a s' ∧ P a

namespace Finds

variable {s s' s'' : TokenStream} {x : Parse α} {f : α → Parse β} {P Q : α → Prop} {R : β → Prop}

theorem ret {a : α} (ha : P a) : Finds (pure a) s s P := ⟨a, rfl, ha⟩

theorem bind (hx : Finds x s s' P) (hf : ∀ a, P a → Finds (f a) s' s'' R) :
    Finds (x >>= f) s s'' R := by
  obtain ⟨a, ha, hP⟩ := hx
  obtain ⟨b, hb, hR⟩ := hf a hP
  exact ⟨b, (bind_ok ha).trans hb, hR⟩

theorem currentKind : Finds Parse.currentKind s s (· = s.current.kind) := ⟨_, rfl, rfl⟩

theorem get : Finds MonadState.get s s (· = s) := ⟨_, rfl, rfl⟩

theorem spanFrom {start : Position} : Finds (Parse.spanFrom start) s s fun _ => True :=
  ⟨_, rfl, trivial⟩

theorem advance : Finds Parse.advance s s.advance (· = s.current) := ⟨_, rfl, rfl⟩

theorem expect {k : TokenKind} (hkind : s.current.kind = k) :
    Finds (Parse.expect k) s s.advance (· = s.current) :=
  ⟨s.current, by simp [Parse.expect, expectOr, hkind], rfl⟩

theorem accepted {k : TokenKind} (hkind : s.current.kind = k) :
    Finds (Parse.accept k) s s.advance (· = true) :=
  ⟨true, by simp [Parse.accept, hkind], rfl⟩

theorem declined {k : TokenKind} (hkind : s.current.kind ≠ k) :
    Finds (Parse.accept k) s s (· = false) :=
  ⟨false, by simp [Parse.accept, hkind], rfl⟩

end Finds

/-- The reader finds every item that is spelled by at most `n` tokens and has a token behind it that
may follow. It finds it up to what `view` forgets. -/
def Recognizes (item : Parse α) (n : Nat) (Item : α → List Spelling → Prop) (view : α → β)
    (follow : TokenKind → Prop) : Prop :=
  ∀ ⦃a ts s s'⦄, Item a ts → ts.length ≤ n → s.Reads ts s' → follow s'.current.kind →
    Finds item s s' (view · = view a)

namespace Recognizes

variable {item : Parse α} {n : Nat} {Item : α → List Spelling → Prop} {view : α → β}
variable {follow : TokenKind → Prop} {close : TokenKind}

theorem ended (hitem : Recognizes item n Item view follow) (hsemicolon : follow .semicolon) :
    Recognizes (do let a ← item; let _ ← Parse.expect .semicolon; return a) n
      (Ended Item) view fun _ => True := by
  rintro a _ s s' ⟨ts, ha, rfl⟩ hlen hreads -
  obtain ⟨s₁, hts, -, hmark, rfl⟩ := TokenStream.reads_append_iff.mp hreads
  have hkind : s₁.current.kind = .semicolon := Token.kind_of_spelling hmark
  rw [List.length_append] at hlen
  refine (hitem ha (by omega) hts (hkind ▸ hsemicolon)).bind fun a' ha' => ?_
  exact (Finds.expect hkind).bind fun _ _ => .ret ha'

theorem itemsUntil (hitem : Recognizes item n (Ended Item) view fun _ => True)
    (havoids : Avoids Item close) :
    Recognizes (Parse.itemsUntil close item) n (Terminated Item) (List.map view) (· = close) := by
  intro as ts s s' has hlen hreads hclose
  have hgo : ∀ bound, s.rest.length < bound →
      Finds (Parse.itemsUntil.go close item bound) s s' (·.map view = as.map view) := by
    induction has generalizing s with
    | nil =>
        intro bound _
        obtain rfl : s' = s := hreads
        unfold itemsUntil.go
        refine Finds.currentKind.bind fun _ hkind => ?_
        rw [if_pos (hkind.trans hclose)]
        exact .ret rfl
    | @cons a as ts us ha has ih =>
        intro bound hbound
        rw [List.append_cons] at hreads
        obtain ⟨s₁, hts, hus⟩ := TokenStream.reads_append_iff.mp hreads
        have hlength := hts.length_eq
        have hended : (ts ++ [Spelling.mark .semicolon]).length = ts.length + 1 := by simp
        rw [List.length_append, List.length_cons] at hlen
        have hitem' := hitem ⟨ts, ha, rfl⟩ (by omega) hts trivial
        obtain ⟨w, ts, rfl, hw⟩ := havoids a ts ha
        obtain ⟨bound, rfl⟩ := Nat.exists_eq_add_one_of_ne_zero (Nat.ne_zero_of_lt hbound)
        unfold itemsUntil.go
        refine Finds.currentKind.bind fun _ hkind => ?_
        rw [if_neg (by rw [hkind, Token.kind_of_spelling hts.2.1]; exact hw)]
        refine hitem'.bind fun a' ha' => ?_
        refine (ih (by omega) hus bound (by omega)).bind fun as' has' => .ret ?_
        rw [List.map_cons, List.map_cons, ha', has']
  exact hgo _ (Nat.lt_succ_self _)

theorem commaSeparated (hitem : Recognizes item n Item view follow) (hcomma : follow .comma) :
    Recognizes (Parse.commaSeparated item) n (Separated Item) (List.map view)
      (fun k => follow k ∧ k ≠ .comma) := by
  intro as ts s s' has hlen hreads hfollow
  have hgo : ∀ bound, s.rest.length < bound →
      Finds (Parse.commaSeparated.go item bound) s s' (·.map view = as.map view) := by
    induction has generalizing s with
    | @one a ts ha =>
        intro bound _
        unfold commaSeparated.go
        refine (hitem ha hlen hreads hfollow.1).bind fun a' ha' => ?_
        refine (Finds.declined hfollow.2).bind fun took htook => ?_
        rw [if_neg (by simp [htook])]
        exact .ret (by rw [List.map_singleton, List.map_singleton, ha'])
    | @more a as ts us ha has ih =>
        intro bound hbound
        obtain ⟨s₁, hts, hne, hmark, hus⟩ := TokenStream.reads_append_iff.mp hreads
        have hkind : s₁.current.kind = .comma := Token.kind_of_spelling hmark
        rw [List.length_append, List.length_cons] at hlen
        have hlength := hts.length_eq
        rw [TokenStream.rest_eq_cons hne, List.length_cons] at hlength
        obtain ⟨bound, rfl⟩ := Nat.exists_eq_add_one_of_ne_zero (Nat.ne_zero_of_lt hbound)
        unfold commaSeparated.go
        refine (hitem ha (by omega) hts (hkind ▸ hcomma)).bind fun a' ha' => ?_
        refine (Finds.accepted hkind).bind fun took htook => ?_
        rw [if_pos htook]
        refine (ih (by omega) hus bound (by omega)).bind fun as' has' => .ret ?_
        rw [List.map_cons, List.map_cons, ha', has']
  exact hgo _ (Nat.lt_succ_self _)

theorem parenthesized (hitem : Recognizes item n Item view follow) (hcomma : follow .comma)
    (hclose : follow .closeParen) (havoids : Avoids Item .closeParen) :
    Recognizes (Parse.parenthesized item) n (Parenthesized Item) (List.map view)
      fun _ => True := by
  intro as ts s s' has hlen hreads _
  unfold Parse.parenthesized
  cases has with
  | none =>
      obtain ⟨-, hopen, -, hshut, rfl⟩ := hreads
      have hkind : s.advance.current.kind = .closeParen := Token.kind_of_spelling hshut
      refine (Finds.expect (Token.kind_of_spelling hopen)).bind fun _ _ => ?_
      refine Finds.currentKind.bind fun kind hk => ?_
      rw [if_pos (hk.trans hkind)]
      refine (Finds.ret (P := (· = [])) rfl).bind fun as' has' => ?_
      exact (Finds.expect hkind).bind fun _ _ => .ret (by rw [has'])
  | @some _ ts has =>
      obtain ⟨-, hopen, hreads⟩ := hreads
      obtain ⟨s₁, hts, -, hshut, rfl⟩ := TokenStream.reads_append_iff.mp hreads
      have hkind : s₁.current.kind = .closeParen := Token.kind_of_spelling hshut
      simp only [List.cons_append, List.length_cons, List.length_append] at hlen
      refine (Finds.expect (Token.kind_of_spelling hopen)).bind fun _ _ => ?_
      refine Finds.currentKind.bind fun kind hk => ?_
      have hitems := commaSeparated hitem hcomma has (by omega) hts
        (by rw [hkind]; exact ⟨hclose, nofun⟩)
      obtain ⟨w, us, rfl, hw⟩ := havoids.separated _ _ has
      rw [if_neg (by rw [hk, Token.kind_of_spelling hts.2.1]; exact hw)]
      exact hitems.bind fun as' has' => (Finds.expect hkind).bind fun _ _ => .ret has'

end Recognizes

end Parse

end CoolLang
