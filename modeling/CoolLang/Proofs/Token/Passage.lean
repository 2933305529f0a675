import CoolLang.Proofs.Source.Extent
import CoolLang.Proofs.Token.Lookahead
import Mathlib.Logic.Function.Iterate
import Mathlib.Logic.Relation

/-!
# The way of a reader through its tokens

A reader moves on by taking the token in front, and never takes the end-of-file mark that a stream
ends in. So the stream it leaves is one that it passes to, whether it succeeds or fails. `Goes`
says this of two readers at once, and that both have the same outcome: they may differ in what they
do with more tokens than there are. A postcondition says what a success has read; here it is
about where the extents of what was read lie.
-/

namespace CoolLang

namespace TokenStream

/-! ## Taking tokens -/

/-- The token in front is taken. It is not an end-of-file mark, nor the last token seen again. -/
structure Taken (s : TokenStream) (t : Token) (s' : TokenStream) : Prop where
  current : t = s.current
  kind : t.kind ≠ .eof
  rest : s.rest ≠ []
  advance : s' = s.advance

/-- Any number of tokens are taken. -/
def Passes : TokenStream → TokenStream → Prop :=
  Relation.ReflTransGen fun s s' => ∃ t, s.Taken t s'

variable {s s' s'' : TokenStream} {t : Token}

theorem Taken.passes (h : s.Taken t s') : s.Passes s' :=
  .single ⟨t, h⟩

theorem Taken.length_lt (h : s.Taken t s') : s'.rest.length < s.rest.length := by
  rw [h.advance]
  exact length_advance_lt h.rest

theorem last_advance (s : TokenStream) : s.advance.last = s.last := by
  unfold advance
  split <;> rfl

theorem Passes.trans (h : s.Passes s') (h' : s'.Passes s'') : s.Passes s'' :=
  Relation.ReflTransGen.trans h h'

theorem Passes.last_eq (h : s.Passes s') : s'.last = s.last := by
  induction h with
  | refl => rfl
  | tail _ ht ih =>
      obtain ⟨t, ht⟩ := ht
      rw [ht.advance, last_advance, ih]

theorem Passes.length_le (h : s.Passes s') : s'.rest.length ≤ s.rest.length := by
  induction h with
  | refl => exact Nat.le_refl _
  | tail _ ht ih =>
      obtain ⟨t, ht⟩ := ht
      exact Nat.le_trans (Nat.le_of_lt ht.length_lt) ih

/-- A token that is not an end-of-file mark can be taken if the stream ends in one. -/
theorem taken_current (hlast : s.last.kind = .eof) (hkind : s.current.kind ≠ .eof) :
    s.Taken s.current s.advance := by
  refine ⟨rfl, hkind, fun hrest => hkind ?_, rfl⟩
  rw [current, hrest]
  exact hlast

/-! ## Where the tokens lie -/

/-- Tokens that stand one behind the other from a position on, none but an end-of-file mark without
characters. -/
def LaidFrom (p : Position) : List Token → Prop
  | [] => True
  | t :: ts =>
      p ≤ t.span.start ∧ (t.kind ≠ .eof → t.span.start < t.span.stop) ∧ LaidFrom t.span.stop ts

/-- The tokens that are left stand one behind the other, after those that were taken. -/
def Laid (s : TokenStream) : Prop :=
  LaidFrom s.previousStop s.rest

theorem Taken.previousStop_eq (h : s.Taken t s') : s'.previousStop = t.span.stop := by
  obtain ⟨rfl, -, hrest, rfl⟩ := h
  obtain ⟨rest, last, stop⟩ := s
  obtain ⟨t, ts, rfl⟩ := List.exists_cons_of_ne_nil hrest
  rfl

theorem Taken.laid (h : s.Taken t s') (hs : s.Laid) :
    s.previousStop ≤ t.span.start ∧ t.span.start < s'.previousStop ∧ s'.Laid := by
  rw [h.previousStop_eq]
  obtain ⟨rfl, hkind, hrest, rfl⟩ := h
  obtain ⟨rest, last, stop⟩ := s
  obtain ⟨t, ts, rfl⟩ := List.exists_cons_of_ne_nil hrest
  obtain ⟨hstart, hproper, hlaid⟩ := hs
  exact ⟨hstart, hproper hkind, hlaid⟩

theorem Passes.laid (h : s.Passes s') (hs : s.Laid) :
    s.previousStop ≤ s'.previousStop ∧ s'.Laid := by
  induction h with
  | refl => exact ⟨le_refl _, hs⟩
  | tail _ ht ih =>
      obtain ⟨t, ht⟩ := ht
      obtain ⟨hstart, hproper, hlaid⟩ := ht.laid ih.2
      exact ⟨ih.1.trans (hstart.trans hproper.le), hlaid⟩

/-! ## What was read on the way -/

/-- The extents `xs` lie one behind the other in the tokens between the streams. -/
structure Holds (s : TokenStream) (xs : List Extent) (s' : TokenStream) : Prop where
  passes : s.Passes s'
  fits : s.Laid → Extent.Fits s.previousStop xs s'.previousStop

/-- The extent `x` lies in the tokens between the streams, and there is one at least. -/
structure Item (s : TokenStream) (x : Extent) (s' : TokenStream) : Prop
    extends s.Holds [x] s' where
  moves : s'.rest.length < s.rest.length

variable {x y : Extent} {xs ys : List Extent}

theorem Passes.holds (h : s.Passes s') : s.Holds [] s' :=
  ⟨h, fun hs => (h.laid hs).1⟩

theorem Holds.refl (s : TokenStream) : s.Holds [] s :=
  Passes.holds .refl

theorem Holds.append (h : s.Holds xs s') (h' : s'.Holds ys s'') : s.Holds (xs ++ ys) s'' :=
  ⟨h.passes.trans h'.passes, fun hs => (h.fits hs).append (h'.fits (h.passes.laid hs).2)⟩

/-- Tokens behind what was read that are no part of it. -/
theorem Holds.ended (h : s.Holds xs s') (hend : s'.Passes s'') : s.Holds xs s'' := by
  have hall := h.append hend.holds
  rwa [List.append_nil] at hall

/-- A node that begins with a token. -/
theorem Taken.item (h : s.Taken t s') (hinner : s'.Holds xs s'') :
    s.Item (.node ⟨t.span.start, s''.previousStop⟩ xs) s'' := by
  refine ⟨⟨h.passes.trans hinner.passes, fun hs => ?_⟩, ?_⟩
  · obtain ⟨hstart, hproper, hlaid⟩ := h.laid hs
    exact (hinner.fits hlaid).behind hproper hstart
  · exact Nat.lt_of_le_of_lt hinner.passes.length_le h.length_lt

/-- A node that is a token. -/
theorem Taken.leaf (h : s.Taken t s') : s.Item (.node t.span []) s' := by
  have hitem := h.item (.refl s')
  rwa [h.previousStop_eq] at hitem

/-- What is read behind a token. -/
theorem Taken.before (h : s.Taken t s') (hx : s'.Item x s'') : s.Item x s'' := by
  refine ⟨h.passes.holds.append hx.toHolds, ?_⟩
  exact Nat.lt_trans hx.moves h.length_lt

theorem Item.ended (hx : s.Item x s') (h : s'.Passes s'') : s.Item x s'' :=
  ⟨hx.toHolds.ended h, Nat.lt_of_le_of_lt h.length_le hx.moves⟩

/-- A node that begins with its first child. -/
theorem Item.around (hx : s.Item x s') (hinner : s'.Holds xs s'') :
    s.Item (.node ⟨x.span.start, s''.previousStop⟩ (x :: xs)) s'' := by
  have hall := hx.toHolds.append hinner
  refine ⟨⟨hall.passes, fun hs => (hall.fits hs).around⟩, ?_⟩
  exact Nat.lt_of_le_of_lt hinner.passes.length_le hx.moves

/-- A node that begins with the first of two children and ends with the second. -/
theorem Item.pair (hx : s.Item x s') (hy : s'.Holds [y] s'') :
    s.Item (.node ⟨x.span.start, y.span.stop⟩ [x, y]) s'' := by
  have hall := hx.toHolds.append hy
  refine ⟨⟨hall.passes, fun hs => (hall.fits hs).pair⟩, ?_⟩
  exact Nat.lt_of_le_of_lt hy.passes.length_le hx.moves

/-- If `x` was read before `s`, then `y` has been read before `s'`. -/
def Extends (s : TokenStream) (x y : Extent) (s' : TokenStream) : Prop :=
  ∀ s₀ : TokenStream, s₀.Item x s → s₀.Item y s'

end TokenStream

namespace Parse

open TokenStream

variable {α β : Type} {k : Nat}

/-! ## Rounds -/

/-- An item with a semicolon behind it. -/
def ended (item : Parse α) : Parse α := do
  let a ← item
  let _ ← expect .semicolon
  return a

/-- One round of a list that ends in front of a token of the kind `close`; `again` reads on. -/
def itemsRound (close : TokenKind) (item : Parse α) (again : Parse (List α)) : Parse (List α) := do
  if (← currentKind) = close then return []
  let head ← item
  let tail ← again
  return head :: tail

/-- One round of a list with commas; `again` reads on behind a comma. -/
def commaRound (item : Parse α) (again : Parse (List α)) : Parse (List α) := do
  let head ← item
  if ← accept .comma then
    let tail ← again
    return head :: tail
  else return [head]

theorem iterate_of_succ {ρ : Type} (round : ρ → ρ) (r : Nat → ρ)
    (hsucc : ∀ n, r (n + 1) = round (r n)) (n : Nat) : r n = round^[n] (r 0) := by
  induction n with
  | zero => rfl
  | succ n ih => rw [hsucc, ih, Function.iterate_succ_apply']

theorem itemsUntil_go (close : TokenKind) (item : Parse α) (n : Nat) :
    itemsUntil.go close item n = (itemsRound close item)^[n] (itemsUntil.go close item 0) :=
  iterate_of_succ _ (itemsUntil.go close item) (fun _ => rfl) n

theorem commaSeparated_go (item : Parse α) (n : Nat) :
    commaSeparated.go item n = (commaRound item)^[n] (commaSeparated.go item 0) :=
  iterate_of_succ _ (commaSeparated.go item) (fun _ => rfl) n

/-- If a round raises the degree to which what follows is related by one, then `j` rounds relate
whatever follows them to the degree `j`. -/
theorem iterate_rel {ρ : Type} {round round' : ρ → ρ} (Rel : Nat → ρ → ρ → Prop)
    (hzero : ∀ x x', Rel 0 x x')
    (hstep : ∀ j x x', Rel j x x' → Rel (j + 1) (round x) (round' x')) {j n m : Nat} (hn : j ≤ n)
    (hm : j ≤ m) (x x' : ρ) : Rel j (round^[n] x) (round'^[m] x') := by
  induction j generalizing n m with
  | zero => exact hzero _ _
  | succ j ih =>
      obtain ⟨n, rfl⟩ := Nat.exists_eq_add_of_lt hn
      obtain ⟨m, rfl⟩ := Nat.exists_eq_add_of_lt hm
      rw [Function.iterate_succ_apply', Function.iterate_succ_apply']
      exact hstep _ _ _ (ih (Nat.le_add_right j n) (Nat.le_add_right j m))

/-! ## Readers -/

/-- On a stream of fewer than `k` tokens that ends in an end-of-file mark the readers have the same
outcome and pass to the stream they leave; a success satisfies `Q`. -/
def Goes (k : Nat) (x x' : Parse α) (s : TokenStream) (Q : α → TokenStream → Prop) : Prop :=
  s.last.kind = .eof → s.rest.length < k →
    x s = x' s ∧ s.Passes (leaves x s) ∧ ∀ a s', x s = .ok a s' → Q a s'

/-- What is said of one item adds up to what is said of a list, and every item takes a token. -/
structure AddsUp (One : TokenStream → α → TokenStream → Prop)
    (Many : TokenStream → List α → TokenStream → Prop) : Prop where
  nil (s : TokenStream) : Many s [] s
  cons {s s' s'' : TokenStream} {a : α} {as : List α} :
    One s a s' → Many s' as s'' → Many s (a :: as) s''
  moves {s s' : TokenStream} {a : α} : One s a s' → s'.rest.length < s.rest.length

theorem addsUp_holds (view : α → Extent) :
    AddsUp (fun s a s' => s.Item (view a) s') fun s as s' => s.Holds (as.map view) s' :=
  ⟨.refl, fun ha has => ha.toHolds.append has, fun ha => ha.moves⟩

namespace Goes

variable {s : TokenStream} {x x' : Parse α} {f f' : α → Parse β}
variable {P Q : α → TokenStream → Prop} {R : β → TokenStream → Prop}

/-- No stream has fewer than no tokens. -/
theorem zero : Goes 0 x x' s Q :=
  fun _ hk => absurd hk (Nat.not_lt_zero _)

theorem ret {a : α} (h : Q a s) : Goes k (pure a) (pure a) s Q := by
  refine fun _ _ => ⟨rfl, .refl, fun b s' hb => ?_⟩
  cases hb
  exact h

theorem fails {d : Diagnostic} (hx : x s = .error d s) (hx' : x' s = .error d s) :
    Goes k x x' s Q := by
  refine fun _ _ => ⟨hx.trans hx'.symm, ?_, fun a s' ha => ?_⟩
  · rw [leaves_error hx]
    exact .refl
  · cases hx.symm.trans ha

theorem raise (d : Diagnostic) : Goes k (throw d) (throw d) s Q := fails rfl rfl

theorem unexpected : Goes k Parse.unexpected Parse.unexpected s Q := fails rfl rfl

theorem weaken (h : Goes k x x' s P) (hPQ : ∀ a s', P a s' → Q a s') : Goes k x x' s Q := by
  intro hlast hk
  obtain ⟨heq, hpasses, hP⟩ := h hlast hk
  exact ⟨heq, hpasses, fun a s' ha => hPQ a s' (hP a s' ha)⟩

/-- What follows a success of the first reader goes on with the tokens that this one has left. -/
theorem bindWithin {j : Nat} (hx : Goes k x x' s P)
    (hj : ∀ a s', P a s' → s'.rest.length ≤ s.rest.length → s'.rest.length < j)
    (hf : ∀ a s', P a s' → Goes j (f a) (f' a) s' R) : Goes k (x >>= f) (x' >>= f') s R := by
  intro hlast hk
  obtain ⟨heq, hpasses, hP⟩ := hx hlast hk
  cases hok : x s with
  | error d s' =>
      rw [leaves_error hok] at hpasses
      have herr : (x >>= f) s = .error d s' := bind_error hok
      refine ⟨herr.trans (bind_error (heq ▸ hok)).symm, ?_, fun b s'' hb => ?_⟩
      · rwa [leaves_error herr]
      · cases herr.symm.trans hb
  | ok a s' =>
      rw [leaves_ok hok] at hpasses
      have hlength := hj a s' (hP a s' hok) hpasses.length_le
      obtain ⟨heq', hpasses', hR⟩ := hf a s' (hP a s' hok) (hpasses.last_eq ▸ hlast) hlength
      refine ⟨?_, ?_, fun b s'' hb => hR b s'' ?_⟩
      · rw [bind_ok hok, bind_ok (heq ▸ hok), heq']
      · rw [leaves_bind_ok hok]
        exact hpasses.trans hpasses'
      · rwa [bind_ok hok] at hb

theorem bind (hx : Goes k x x' s P) (hf : ∀ a s', P a s' → Goes k (f a) (f' a) s' R) :
    Goes k (x >>= f) (x' >>= f') s R := fun hlast hk =>
  hx.bindWithin (fun _ _ _ hle => Nat.lt_of_le_of_lt hle hk) hf hlast hk

/-- What follows a reader that takes a token has one token less. -/
theorem bindLess (hx : Goes (k + 1) x x' s P)
    (hless : ∀ a s', P a s' → s'.rest.length < s.rest.length)
    (hf : ∀ a s', P a s' → Goes k (f a) (f' a) s' R) :
    Goes (k + 1) (x >>= f) (x' >>= f') s R := fun hlast hk =>
  hx.bindWithin (fun a s' ha _ => Nat.lt_of_lt_of_le (hless a s' ha) (Nat.le_of_lt_succ hk)) hf
    hlast hk

theorem mono (h : Goes k x x' s Q) {j : Nat} (hjk : j ≤ k) : Goes j x x' s Q :=
  fun hlast hj => h hlast (Nat.lt_of_lt_of_le hj hjk)

theorem bounded {r r' : Nat → Parse α} (h : ∀ n ≤ k, Goes n (r n) (r' n) s Q) :
    Goes k (Parse.bounded r) (Parse.bounded r') s Q :=
  fun hlast hk => h _ hk hlast (Nat.lt_succ_self _)

theorem get : Goes k MonadState.get MonadState.get s fun a s' => a = s ∧ s' = s := by
  refine fun _ _ => ⟨rfl, .refl, fun a s' h => ?_⟩
  cases h
  exact ⟨rfl, rfl⟩

/-- The token in front decides how to go on. -/
theorem onKind {g g' : TokenKind → Parse β}
    (h : Goes k (g s.current.kind) (g' s.current.kind) s R) :
    Goes k (Parse.currentKind >>= g) (Parse.currentKind >>= g') s R :=
  h

theorem spanned {start : Position} {g : Span → β} (h : R (g ⟨start, s.previousStop⟩) s) :
    Goes k (do return g (← Parse.spanFrom start)) (do return g (← Parse.spanFrom start)) s R :=
  ret h

theorem advance (hkind : s.current.kind ≠ .eof) :
    Goes k Parse.advance Parse.advance s fun t s' => s.Taken t s' := by
  intro hlast _
  have htaken := taken_current hlast hkind
  refine ⟨rfl, htaken.passes, fun t s' h => ?_⟩
  cases h
  exact htaken

/-- A form that the token in front opens. -/
theorem opens {g g' : Token → Parse β} (hkind : s.current.kind ≠ .eof)
    (hg : ∀ t s', s.Taken t s' → Goes k (g t) (g' t) s' R) :
    Goes (k + 1) (Parse.advance >>= g) (Parse.advance >>= g') s R :=
  (advance hkind).bindLess (fun _ _ ht => ht.length_lt) hg

theorem expect {kind : TokenKind} (hkind : kind ≠ .eof) :
    Goes k (Parse.expect kind) (Parse.expect kind) s fun t s' => s.Taken t s' := by
  by_cases h : s.current.kind = kind
  · have hexpect : Parse.expect kind s = Parse.advance s := by
      rw [Parse.expect, Parse.expectOr, if_pos h, Parse.advance]
    have hadvance := advance (k := k) (s := s) (h ▸ hkind)
    intro hlast hk
    rw [leaves, hexpect]
    exact hadvance hlast hk
  · exact fails (if_neg h) (if_neg h)

/-- A token that leaves no trace. -/
theorem mark {kind : TokenKind} (hkind : kind ≠ .eof) :
    Goes k (Parse.expect kind) (Parse.expect kind) s fun _ s' => s.Passes s' :=
  (expect hkind).weaken fun _ _ h => h.passes

theorem accept {kind : TokenKind} (hkind : kind ≠ .eof) :
    Goes k (Parse.accept kind) (Parse.accept kind) s fun _ s' => s.Passes s' := by
  intro hlast _
  rw [leaves, Parse.accept]
  by_cases h : s.current.kind = kind
  · have htaken := taken_current hlast (h ▸ hkind)
    rw [if_pos h]
    refine ⟨rfl, htaken.passes, fun a s' ha => ?_⟩
    cases ha
    exact htaken.passes
  · rw [if_neg h]
    refine ⟨rfl, .refl, fun a s' ha => ?_⟩
    cases ha
    exact .refl

/-- A reader that begins with a token takes one. -/
theorem moving {y y' : Parse Token} {g g' : Token → Parse β}
    (hy : Goes k y y' s fun t s' => s.Taken t s')
    (hg : ∀ t s', s.Taken t s' → Goes k (g t) (g' t) s' R) :
    Goes k (y >>= g) (y' >>= g') s fun b s' => R b s' ∧ s'.rest.length < s.rest.length := by
  refine hy.bind fun t s' ht hlast hk => ?_
  obtain ⟨heq, hpasses, hR⟩ := hg t s' ht hlast hk
  refine ⟨heq, hpasses, fun b s'' hb => ⟨hR b s'' hb, ?_⟩⟩
  rw [leaves_ok hb] at hpasses
  exact Nat.lt_of_le_of_lt hpasses.length_le ht.length_lt

/-! ## Readers of lists -/

variable {item item' : Parse α} {view : α → Extent}
variable {One : TokenStream → α → TokenStream → Prop}
variable {Many : TokenStream → List α → TokenStream → Prop}

theorem ended (hitem : Goes k item item' s fun a s' => s.Item (view a) s') :
    Goes k (Parse.ended item) (Parse.ended item') s fun a s' => s.Item (view a) s' :=
  hitem.bind fun _ _ ha => (mark (by decide)).bind fun _ _ hend => ret (ha.ended hend)

/-- The rounds may be carried on in any way after as many of them as there are tokens. -/
theorem itemsRounds_of (hadds : AddsUp One Many) (hitem : ∀ s, Goes k item item' s (One s))
    (close : TokenKind) (again again' : Parse (List α)) {j n m : Nat} (hjk : j ≤ k) (hn : j ≤ n)
    (hm : j ≤ m) (s : TokenStream) :
    Goes j ((itemsRound close item)^[n] again) ((itemsRound close item')^[m] again') s
      (Many s) := by
  refine iterate_rel (fun j x x' => j ≤ k → ∀ s, Goes j x x' s (Many s)) ?_ ?_ hn hm again again'
    hjk s
  · intro x x' _ s
    exact .zero
  · intro j x x' ih hjk s
    -- the item takes a token, so the next round has fewer and `ih` is enough for it
    refine onKind ?_
    split
    · exact ret (hadds.nil s)
    · refine ((hitem s).mono hjk).bindLess (fun _ _ => hadds.moves) fun a s₁ ha => ?_
      refine (ih (Nat.le_of_succ_le hjk) s₁).bind fun as s₂ has => ?_
      exact ret (hadds.cons ha has)

theorem itemsUntil_of (hadds : AddsUp One Many) (hitem : ∀ s, Goes k item item' s (One s))
    (close : TokenKind) :
    Goes k (Parse.itemsUntil close item) (Parse.itemsUntil close item') s (Many s) := by
  refine bounded fun n hn => ?_
  rw [itemsUntil_go close item, itemsUntil_go close item']
  exact itemsRounds_of hadds hitem close _ _ hn (Nat.le_refl n) (Nat.le_refl n) s

theorem itemsRounds (hitem : ∀ s, Goes k item item' s fun a s' => s.Item (view a) s')
    (close : TokenKind) (again again' : Parse (List α)) {j n m : Nat} (hjk : j ≤ k) (hn : j ≤ n)
    (hm : j ≤ m) (s : TokenStream) :
    Goes j ((itemsRound close item)^[n] again) ((itemsRound close item')^[m] again') s
      fun as s' => s.Holds (as.map view) s' :=
  itemsRounds_of (addsUp_holds view) hitem close again again' hjk hn hm s

theorem itemsUntil (hitem : ∀ s, Goes k item item' s fun a s' => s.Item (view a) s')
    (close : TokenKind) :
    Goes k (Parse.itemsUntil close item) (Parse.itemsUntil close item') s
      fun as s' => s.Holds (as.map view) s' :=
  itemsUntil_of (addsUp_holds view) hitem close

theorem commaRounds (hitem : ∀ s, Goes k item item' s fun a s' => s.Item (view a) s')
    (again again' : Parse (List α)) {j n m : Nat} (hjk : j ≤ k) (hn : j ≤ n) (hm : j ≤ m)
    (s : TokenStream) :
    Goes j ((commaRound item)^[n] again) ((commaRound item')^[m] again') s
      fun as s' => s.Holds (as.map view) s' := by
  refine iterate_rel (fun j x x' => j ≤ k → ∀ s, Goes j x x' s fun as s' =>
    s.Holds (as.map view) s') ?_ ?_ hn hm again again' hjk s
  · intro x x' _ s
    exact .zero
  · intro j x x' ih hjk s
    refine ((hitem s).mono hjk).bindLess (fun _ _ ha => ha.moves) fun a s₁ ha => ?_
    refine (accept (by decide)).bind fun more s₂ hcomma => ?_
    split
    · refine (ih (Nat.le_of_succ_le hjk) s₂).bind fun as s₃ has => ?_
      exact ret ((ha.ended hcomma).toHolds.append has)
    · exact ret (ha.ended hcomma).toHolds

theorem commaSeparated (hitem : ∀ s, Goes k item item' s fun a s' => s.Item (view a) s') :
    Goes k (Parse.commaSeparated item) (Parse.commaSeparated item') s
      fun as s' => s.Holds (as.map view) s' := by
  refine bounded fun n hn => ?_
  rw [commaSeparated_go item, commaSeparated_go item']
  exact commaRounds hitem _ _ hn (Nat.le_refl n) (Nat.le_refl n) s

theorem parenthesized (hitem : ∀ s, Goes k item item' s fun a s' => s.Item (view a) s') :
    Goes k (Parse.parenthesized item) (Parse.parenthesized item') s
      fun as s' => s.Holds (as.map view) s' := by
  refine (mark (by decide)).bind fun _ s₁ hopen => onKind ?_
  have hclose : ∀ (as : List α) s₂, s₁.Holds (as.map view) s₂ →
      Goes k (do let _ ← Parse.expect .closeParen; return as)
        (do let _ ← Parse.expect .closeParen; return as) s₂
        fun as s' => s.Holds (as.map view) s' := fun as s₂ has =>
    (mark (by decide)).bind fun _ _ hend => ret (hopen.holds.append (has.ended hend))
  split
  · exact (ret (.refl s₁)).bind hclose
  · exact (commaSeparated hitem).bind hclose

end Goes

end Parse

end CoolLang
