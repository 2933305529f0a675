import CoolLang.Proofs.Declaration.Spans

/-!
# Progress of the parser

A stream of tokens stands for a place in a token list. From every place the readers of programs come
to an end within the list, and what they read takes a token at least. A reader that repeats itself
or calls itself has a bound; the outcome does not depend on what is done when the bound runs out, so
it never does.
-/

namespace CoolLang

/-! ## Places in a token list -/

namespace TokenStream

/-- The tokens from a place on. Behind the end the last token is seen again. -/
def startingAt (tokens : List Token) (file : String) (place : Nat) : TokenStream where
  rest := tokens.drop place
  last := tokens.getLast?.getD (Token.endOfFile (.first file))
  previousStop :=
    match place with
    | 0 => .first file
    | n + 1 => (tokens[n]?.map (·.span.stop)).getD (.first file)

variable {tokens : List Token} {file : String} {p q : Nat}

theorem startingAt_zero : startingAt tokens file 0 = ofTokens tokens file := rfl

theorem length_startingAt (tokens : List Token) (file : String) (p : Nat) :
    (startingAt tokens file p).rest.length = tokens.length - p :=
  List.length_drop

/-- The current token is found in the list. -/
theorem getElem?_current (htokens : tokens ≠ []) :
    tokens[min p (tokens.length - 1)]? = some (startingAt tokens file p).current := by
  rcases Nat.lt_or_ge p tokens.length with hlt | hge
  · rw [Nat.min_eq_left (Nat.le_sub_one_of_lt hlt)]
    simp [current, startingAt, List.head?_drop, hlt]
  · rw [Nat.min_eq_right (Nat.le_trans (Nat.sub_le _ _) hge), ← List.getLast?_eq_getElem?]
    obtain ⟨last, hlast⟩ := Option.isSome_iff_exists.mp (List.getLast?_isSome.mpr htokens)
    simp [current, startingAt, List.drop_eq_nil_of_le hge, hlast]

theorem getElem?_previous (hp : p < tokens.length) :
    tokens[p]?.map (·.span.stop) = some (startingAt tokens file (p + 1)).previousStop := by
  simp [startingAt, hp]

theorem advance_startingAt (hp : p < tokens.length) :
    (startingAt tokens file p).advance = startingAt tokens file (p + 1) := by
  have hrest : (startingAt tokens file p).rest = tokens[p] :: tokens.drop (p + 1) :=
    List.drop_eq_getElem_cons hp
  unfold advance
  rw [hrest]
  simp [startingAt, hp]

/-- Taking tokens leads to a later place. -/
theorem Passes.exists_place {s : TokenStream} (h : (startingAt tokens file p).Passes s)
    (hp : p ≤ tokens.length) :
    ∃ q, p ≤ q ∧ q ≤ tokens.length ∧ s = startingAt tokens file q := by
  induction h with
  | refl => exact ⟨p, Nat.le_refl p, hp, rfl⟩
  | tail _ ht ih =>
      obtain ⟨q, hpq, hq, rfl⟩ := ih
      obtain ⟨t, ht⟩ := ht
      have hlt : q < tokens.length := by
        have hrest := List.length_pos_iff.mpr ht.rest
        rw [length_startingAt] at hrest
        omega
      exact ⟨q + 1, Nat.le_succ_of_le hpq, hlt, ht.advance.trans (advance_startingAt hlt)⟩

end TokenStream

namespace Parse

open TokenStream

variable {α β : Type} {tokens : List Token} {file : String}

/-- From every place the reader comes to one in the list that is not before it. -/
def StaysIn (tokens : List Token) (file : String) (x : Parse α) : Prop :=
  ∀ p ≤ tokens.length, ∃ q, p ≤ q ∧ q ≤ tokens.length ∧
    leaves x (startingAt tokens file p) = startingAt tokens file q

/-- Moreover, a success has taken a token. -/
def Consumes (tokens : List Token) (file : String) (x : Parse α) : Prop :=
  ∀ p ≤ tokens.length, ∃ q, p ≤ q ∧ q ≤ tokens.length ∧
    leaves x (startingAt tokens file p) = startingAt tokens file q ∧
    ∀ a s, x (startingAt tokens file p) = .ok a s → p < q

/-- `rounds n` is a loop that is written out `n` times, with anything in the place of what follows.
Where fewer than `n` tokens are left that place is never reached: the outcome is that of `x`. -/
def EndsIn (tokens : List Token) (file : String) (rounds : Nat → Parse α) (x : Parse α) : Prop :=
  ∀ n, ∀ p ≤ tokens.length, tokens.length - p < n →
    rounds n (startingAt tokens file p) = x (startingAt tokens file p)

/-- The loop ends, within the list, and each round that succeeds reads an item and takes a token. -/
structure Loops (tokens : List Token) (file : String) (item : Parse α)
    (round : Parse β → Parse β) (loop : Parse β) : Prop where
  consumes : Consumes tokens file item
  ends : ∀ again, EndsIn tokens file (fun n => round^[n] again) loop
  stays : StaysIn tokens file loop

section Goes

variable (hlast : tokens.getLast?.map (·.kind) = some .eof)
include hlast

theorem last_startingAt (p : Nat) : (startingAt tokens file p).last.kind = .eof := by
  obtain ⟨eof, heof, hkind⟩ := Option.map_eq_some_iff.mp hlast
  unfold startingAt
  rw [heof]
  exact hkind

theorem staysIn_of_goes {x : Parse α} {Q : TokenStream → α → TokenStream → Prop}
    (hx : ∀ k s, Goes k x x s (Q s)) : StaysIn tokens file x := by
  intro p hp
  obtain ⟨-, hpasses, -⟩ := hx _ _ (last_startingAt hlast p) (Nat.lt_succ_self _)
  exact hpasses.exists_place hp

theorem consumes_of_goes {x : Parse α} {view : α → Extent}
    (hx : ∀ k s, Goes k x x s fun a s' => s.Item (view a) s') : Consumes tokens file x := by
  intro p hp
  obtain ⟨-, hpasses, hitem⟩ := hx _ _ (last_startingAt hlast p) (Nat.lt_succ_self _)
  obtain ⟨q, hpq, hq, hleaves⟩ := hpasses.exists_place hp
  refine ⟨q, hpq, hq, hleaves, fun a s hok => ?_⟩
  have hmoves := (hitem a s hok).moves
  rw [← leaves_ok hok, hleaves, length_startingAt, length_startingAt] at hmoves
  omega

theorem endsIn_of_goes {rounds r : Nat → Parse α} {Q : TokenStream → α → TokenStream → Prop}
    (h : ∀ j n s, j ≤ n → Goes j (rounds n) (r j) s (Q s)) :
    EndsIn tokens file rounds (bounded r) := by
  intro n p hp hn
  rw [← length_startingAt tokens file] at hn
  exact (h _ n _ hn (last_startingAt hlast p) (Nat.lt_succ_self _)).1

variable {item : Parse α} {view : α → Extent}

theorem loops_itemsUntil (hitem : ∀ k s, Goes k item item s fun a s' => s.Item (view a) s')
    (close : TokenKind) :
    Loops tokens file item (itemsRound close item) (itemsUntil close item) where
  consumes := consumes_of_goes hlast hitem
  ends again := by
    refine endsIn_of_goes hlast (Q := fun s as s' => s.Holds (as.map view) s') fun j n s hjn => ?_
    rw [itemsUntil_go]
    exact Goes.itemsRounds (hitem j) close _ _ (Nat.le_refl j) hjn (Nat.le_refl j) s
  stays := staysIn_of_goes hlast fun k s => .itemsUntil (hitem k) close

theorem loops_commaSeparated (hitem : ∀ k s, Goes k item item s fun a s' => s.Item (view a) s') :
    Loops tokens file item (commaRound item) (commaSeparated item) where
  consumes := consumes_of_goes hlast hitem
  ends again := by
    refine endsIn_of_goes hlast (Q := fun s as s' => s.Holds (as.map view) s') fun j n s hjn => ?_
    rw [commaSeparated_go]
    exact Goes.commaRounds (hitem j) _ _ (Nat.le_refl j) hjn (Nat.le_refl j) s
  stays := staysIn_of_goes hlast fun k s => .commaSeparated (hitem k)

end Goes

end Parse

/-! ## Programs -/

open Parse TokenStream ExprReader

/-- What holds of the readers of programs on a token list: they look at no token outside the list,
come to an end, and take tokens. -/
structure ReadsOn (tokens : List Token) (file : String) (expr : ExprReader) : Prop where
  /-- A program is read from the first place on. -/
  start : ofTokens tokens file = startingAt tokens file 0
  /-- The current token and the one before it are in the list. -/
  inRange : ∀ p ≤ tokens.length,
    tokens[min p (tokens.length - 1)]? = some (startingAt tokens file p).current ∧
    (0 < p → tokens[p - 1]?.map (·.span.stop) = some (startingAt tokens file p).previousStop)
  /-- An expression is read to its end, however deep it nests, and takes a token. -/
  expression : ∀ power, Consumes tokens file (expr power) ∧
    ∀ again, EndsIn tokens file (fun n => (exprRound .cool)^[n] again power) (expr power)
  /-- The operators and calls behind an expression are read to their end. -/
  chain : ∀ power left, StaysIn tokens file (continuations .cool expr power left) ∧
    ∀ again, EndsIn tokens file (fun n => (continuationRound .cool expr power)^[n] again left)
      (continuations .cool expr power left)
  statements : Loops tokens file (statement expr) (itemsRound .closeCurly (statement expr))
    (itemsUntil .closeCurly (statement expr))
  branches : Loops tokens file (branch expr) (itemsRound .esacKw (branch expr))
    (itemsUntil .esacKw (branch expr))
  arguments : Loops tokens file (expr .lowest) (commaRound (expr .lowest))
    (Parse.commaSeparated (expr .lowest))
  bindings : Loops tokens file (binding expr) (commaRound (binding expr))
    (Parse.commaSeparated (binding expr))
  formals : Loops tokens file formal (commaRound formal) (Parse.commaSeparated formal)
  oneFeature : Consumes tokens file (feature expr)
  features : Loops tokens file (ended (feature expr))
    (itemsRound .closeCurly (ended (feature expr))) (itemsUntil .closeCurly (ended (feature expr)))
  oneClass : Consumes tokens file (classDecl expr)
  classes : Loops tokens file (ended (classDecl expr))
    (itemsRound .eof (ended (classDecl expr))) (program expr)

/-- **The parser comes to an end and makes progress** on every token list that ends in an
end-of-file mark, whatever stands before it. -/
theorem readsOn_of_last_eof {tokens : List Token}
    (hlast : tokens.getLast?.map (·.kind) = some .eof) (file : String) :
    ReadsOn tokens file (parseExpr .cool) where
  start := startingAt_zero.symm
  inRange p hp := by
    refine ⟨getElem?_current ?_, fun hpos => ?_⟩
    · rintro rfl
      cases hlast
    · obtain ⟨p, rfl⟩ := Nat.exists_eq_succ_of_ne_zero (Nat.ne_of_gt hpos)
      exact getElem?_previous hp
  expression power := by
    refine ⟨consumes_of_goes hlast fun k s => goes_parseExpr k power s, fun again => ?_⟩
    refine endsIn_of_goes hlast (Q := fun s e s' => s.Item e.extent s') fun j n s hjn => ?_
    rw [parseExprWithin_eq]
    exact goes_exprRounds _ _ hjn (Nat.le_refl j) power s
  chain power left := by
    refine ⟨staysIn_of_goes hlast (Q := fun s e s' => s.Extends left.extent e.extent s')
      fun k s => goes_continuations (goes_parseExpr k) power left, fun again => ?_⟩
    refine endsIn_of_goes hlast (Q := fun s e s' => s.Extends left.extent e.extent s')
      fun j n s hjn => ?_
    rw [continuations_go]
    exact goes_continuationRounds (goes_parseExpr j) power _ _ (Nat.le_refl j) hjn
      (Nat.le_refl j) left
  statements := loops_itemsUntil hlast (fun k _ => goes_statement (goes_parseExpr k)) _
  branches := loops_itemsUntil hlast (fun k _ => goes_branch (goes_parseExpr k)) _
  arguments := loops_commaSeparated hlast fun k s => goes_parseExpr k .lowest s
  bindings := loops_commaSeparated hlast fun k _ => goes_binding (goes_parseExpr k)
  formals := loops_commaSeparated hlast fun _ _ => goes_formal
  oneFeature := consumes_of_goes hlast fun k _ => goes_feature (goes_parseExpr k)
  features := loops_itemsUntil hlast (fun k _ => (goes_feature (goes_parseExpr k)).ended) _
  oneClass := consumes_of_goes hlast fun k _ => goes_classDecl (goes_parseExpr k)
  classes := loops_itemsUntil hlast (fun k _ => (goes_classDecl (goes_parseExpr k)).ended) _

/-- An end-of-file mark stands between tokens that begin a class and tokens that make no sense. -/
def stray : List Token :=
  [Spelling.mark .classKw, .type "A", .mark .eof, .mark .openParen, .mark .dot, .mark .eof].map
    Spelling.token

theorem readsOn_stray : ReadsOn stray "s.cl" (parseExpr .cool) :=
  readsOn_of_last_eof rfl "s.cl"

end CoolLang
