import CoolLang.Proofs.Token.Stream

/-!
# How far a reader looks

A reader takes tokens one by one and decides by the token in front. So if two streams begin with the
same tokens and a run on the first stops in front of one of these, the run on the second does the
same. `Tracks` says this of two readers, which differ at most in the bounds on their repetitions;
the bounds come from the lengths of the streams, and no bound is reached within the tokens that the
streams share.
-/

namespace CoolLang

/-- The streams begin with the same tokens, one at least and `k` at most, before their tails. -/
def TokenStream.Abreast (tail tail' : List Token) (k : Nat) (s t : TokenStream) : Prop :=
  ∃ front, front ≠ [] ∧ front.length ≤ k ∧ s.rest = front ++ tail ∧ t.rest = front ++ tail' ∧
    s.previousStop = t.previousStop

namespace TokenStream.Abreast

variable {tail tail' : List Token} {k j : Nat} {s t : TokenStream}

theorem mono (h : Abreast tail tail' j s t) (hjk : j ≤ k) : Abreast tail tail' k s t := by
  obtain ⟨front, hne, hlength, hrest⟩ := h
  exact ⟨front, hne, Nat.le_trans hlength hjk, hrest⟩

theorem current_eq (h : Abreast tail tail' k s t) : s.current = t.current := by
  obtain ⟨front, hne, -, hs, ht, -⟩ := h
  obtain ⟨token, front, rfl⟩ := List.exists_cons_of_ne_nil hne
  simp [current, hs, ht]

theorem rest_ne_nil (h : Abreast tail tail' k s t) : s.rest ≠ [] := by
  obtain ⟨front, hne, -, hs, -⟩ := h
  simp [hs, hne]

/-- Streams that share no more than they do behind a taken token share one token less. -/
theorem pred {s₀ t₀ : TokenStream} (h₀ : Abreast tail tail' k s₀ t₀)
    (h : Abreast tail tail' k s t) (hlt : s.rest.length < s₀.rest.length) :
    Abreast tail tail' (k - 1) s t := by
  obtain ⟨front₀, -, hlength₀, hs₀, -⟩ := h₀
  obtain ⟨front, hne, -, hs, hrest⟩ := h
  refine ⟨front, hne, ?_, hs, hrest⟩
  rw [hs, hs₀, List.length_append, List.length_append] at hlt
  omega

/-- Behind the token in front the streams are abreast, unless that was the last token they share. -/
theorem advance (h : Abreast tail tail' k s t) (hlt : tail.length < s.advance.rest.length) :
    Abreast tail tail' k s.advance t.advance := by
  obtain ⟨front, hne, hlength, hs, ht, -⟩ := h
  obtain ⟨token, front, rfl⟩ := List.exists_cons_of_ne_nil hne
  rw [List.length_cons] at hlength
  simp only [TokenStream.advance, hs, ht, List.cons_append] at hlt ⊢
  refine ⟨front, ?_, by omega, rfl, rfl, rfl⟩
  rintro rfl
  exact absurd hlt (Nat.lt_irrefl _)

end TokenStream.Abreast

theorem TokenStream.length_advance_le (s : TokenStream) :
    s.advance.rest.length ≤ s.rest.length := by
  obtain ⟨rest, last, stop⟩ := s
  cases rest <;> simp [advance]

theorem TokenStream.length_advance_lt {s : TokenStream} (h : s.rest ≠ []) :
    s.advance.rest.length < s.rest.length := by
  rw [rest_eq_cons h, List.length_cons]
  exact Nat.lt_succ_self _

namespace Parse

open TokenStream

variable {α β : Type} {k j : Nat}

/-- The stream that a reader leaves, whether it succeeds or fails. -/
def leaves (x : Parse α) (s : TokenStream) : TokenStream :=
  match x s with
  | .ok _ s' => s'
  | .error _ s' => s'

theorem leaves_ok {x : Parse α} {s s' : TokenStream} {a : α} (h : x s = .ok a s') :
    leaves x s = s' := by
  rw [leaves, h]

theorem leaves_error {x : Parse α} {s s' : TokenStream} {d : Diagnostic} (h : x s = .error d s') :
    leaves x s = s' := by
  rw [leaves, h]

theorem leaves_bind_ok {x : Parse α} {f : α → Parse β} {s s' : TokenStream} {a : α}
    (h : x s = .ok a s') : leaves (x >>= f) s = leaves (f a) s' := by
  rw [leaves, leaves, bind_ok h]

/-- The outcomes are the same, and a success leaves streams that are abreast. -/
inductive Alike (tail tail' : List Token) (k : Nat) :
    EStateM.Result Diagnostic TokenStream α → EStateM.Result Diagnostic TokenStream α → Prop
  | ok {a : α} {s t : TokenStream} (h : Abreast tail tail' k s t) :
      Alike tail tail' k (.ok a s) (.ok a t)
  | error {d : Diagnostic} {s t : TokenStream} : Alike tail tail' k (.error d s) (.error d t)

theorem Alike.mono {tail tail' : List Token} {r r' : EStateM.Result Diagnostic TokenStream α}
    (h : Alike tail tail' j r r') (hjk : j ≤ k) : Alike tail tail' k r r' := by
  cases h with
  | ok h => exact .ok (h.mono hjk)
  | error => exact .error

/-- The first reader gives no token back. On streams that share at most `k` tokens both have the
same outcome, unless the first takes all tokens that are shared. -/
structure Tracks (k : Nat) (x x' : Parse α) : Prop where
  shrinks : ∀ s, (leaves x s).rest.length ≤ s.rest.length
  alike : ∀ {tail tail' s t}, Abreast tail tail' k s t →
    tail.length < (leaves x s).rest.length → Alike tail tail' k (x s) (x' t)

/-- Moreover, the first reader takes a token if it succeeds. -/
structure Leads (k : Nat) (x x' : Parse α) : Prop extends Tracks k x x' where
  moves : ∀ {s a s'}, s.rest ≠ [] → x s = .ok a s' → s'.rest.length < s.rest.length

/-! ## Single steps -/

namespace Tracks

variable {x x' : Parse α} {f f' : α → Parse β}

theorem mono (h : Tracks k x x') (hjk : j ≤ k) : Tracks j x x' := by
  refine ⟨h.shrinks, fun {tail tail' s t} habreast hlt => ?_⟩
  have halike := h.alike (habreast.mono hjk) hlt
  generalize hr : x s = r at halike
  generalize x' t = r' at halike
  cases halike with
  | error => exact .error
  | @ok a s₁ t₁ h₁ =>
      -- what is left of the shared tokens is no more than there was
      obtain ⟨front, -, hlength, hs, -⟩ := habreast
      obtain ⟨front₁, hne, -, hs₁, hrest⟩ := h₁
      have hshrinks := h.shrinks s
      rw [leaves_ok hr, hs, hs₁, List.length_append, List.length_append] at hshrinks
      exact .ok ⟨front₁, hne, by omega, hs₁, hrest⟩

/-- Streams that share no token are not compared. -/
theorem zero (h : ∀ s, (leaves x s).rest.length ≤ s.rest.length) : Tracks 0 x x' := by
  refine ⟨h, fun {tail tail' s t} habreast _ => ?_⟩
  obtain ⟨front, hne, hlength, -⟩ := habreast
  exact absurd (List.length_eq_zero_iff.mp (Nat.le_zero.mp hlength)) hne

theorem ret (a : α) : Tracks k (pure a) (pure a) :=
  ⟨fun _ => Nat.le_refl _, fun habreast _ => .ok habreast⟩

theorem raise (d : Diagnostic) : Tracks k (throw d : Parse α) (throw d) :=
  ⟨fun _ => Nat.le_refl _, fun _ _ => .error⟩

theorem unexpected : Tracks k (Parse.unexpected : Parse α) Parse.unexpected := by
  refine ⟨fun _ => Nat.le_refl _, fun {_ _ s t} habreast _ => ?_⟩
  simp only [Parse.unexpected, TokenStream.unexpected, habreast.current_eq]
  exact .error

theorem unexpectedBecause (reason : String) :
    Tracks k (Parse.unexpectedBecause reason : Parse α) (Parse.unexpectedBecause reason) := by
  refine ⟨fun _ => Nat.le_refl _, fun {_ _ s t} habreast _ => ?_⟩
  simp only [Parse.unexpectedBecause, TokenStream.unexpectedBecause, habreast.current_eq]
  exact .error

theorem currentKind : Tracks k Parse.currentKind Parse.currentKind := by
  refine ⟨fun _ => Nat.le_refl _, fun {_ _ s t} habreast _ => ?_⟩
  simp only [Parse.currentKind, habreast.current_eq]
  exact .ok habreast

theorem spanFrom (start : Position) : Tracks k (Parse.spanFrom start) (Parse.spanFrom start) := by
  refine ⟨fun _ => Nat.le_refl _, fun {_ _ s t} habreast _ => ?_⟩
  obtain ⟨_, _, _, _, _, hstop⟩ := id habreast
  simp only [Parse.spanFrom, hstop]
  exact .ok habreast

theorem accept (kind : TokenKind) : Tracks k (Parse.accept kind) (Parse.accept kind) := by
  constructor
  · intro s
    by_cases hkind : s.current.kind = kind
    · simpa [leaves, Parse.accept, hkind] using s.length_advance_le
    · simp [leaves, Parse.accept, hkind]
  · intro tail tail' s t habreast hlt
    by_cases hkind : s.current.kind = kind
    · simp only [leaves, Parse.accept, ← habreast.current_eq, hkind, if_true] at hlt ⊢
      exact .ok (habreast.advance hlt)
    · simp only [Parse.accept, ← habreast.current_eq, hkind, if_false]
      exact .ok habreast

/-- A success of the first part may leave streams that share fewer tokens. -/
theorem bind_of_abreast (hx : Tracks k x x') (hf : ∀ a, Tracks j (f a) (f' a)) (hjk : j ≤ k)
    (hless : ∀ {tail tail' s t a s₁ t₁}, Abreast tail tail' k s t → x s = .ok a s₁ →
      Abreast tail tail' k s₁ t₁ → Abreast tail tail' j s₁ t₁) :
    Tracks k (x >>= f) (x' >>= f') := by
  constructor
  · intro s
    have hshrinks := hx.shrinks s
    cases hs : x s with
    | error d s₁ => rwa [leaves_error (bind_error hs), ← leaves_error hs]
    | ok a s₁ =>
        rw [leaves_ok hs] at hshrinks
        rw [leaves_bind_ok hs]
        exact Nat.le_trans ((hf a).shrinks s₁) hshrinks
  · intro tail tail' s t habreast hlt
    cases hs : x s with
    | error d s₁ =>
        rw [leaves_error (bind_error hs), ← leaves_error hs] at hlt
        have halike := hx.alike habreast hlt
        rw [hs] at halike
        generalize ht : x' t = r at halike
        cases halike with
        | error =>
            rw [bind_error hs, bind_error ht]
            exact .error
    | ok a s₁ =>
        rw [leaves_bind_ok hs] at hlt
        have hfirst : tail.length < (leaves x s).rest.length := by
          rw [leaves_ok hs]
          exact Nat.lt_of_lt_of_le hlt ((hf a).shrinks s₁)
        have halike := hx.alike habreast hfirst
        rw [hs] at halike
        generalize ht : x' t = r at halike
        cases halike with
        | ok habreast₁ =>
            rw [bind_ok hs, bind_ok ht]
            exact ((hf a).alike (hless habreast hs habreast₁) hlt).mono hjk

theorem bind (hx : Tracks k x x') (hf : ∀ a, Tracks k (f a) (f' a)) :
    Tracks k (x >>= f) (x' >>= f') :=
  hx.bind_of_abreast hf (Nat.le_refl k) fun _ _ habreast => habreast

theorem spanned (start : Position) (f : Span → α) :
    Tracks k (do return f (← Parse.spanFrom start)) (do return f (← Parse.spanFrom start)) :=
  (spanFrom start).bind fun _ => ret _

end Tracks

namespace Leads

variable {x x' : Parse α} {f f' : α → Parse β}

theorem mono (h : Leads k x x') (hjk : j ≤ k) : Leads j x x' :=
  ⟨h.toTracks.mono hjk, h.moves⟩

theorem zero {y : Parse α} (h : Leads 0 x x') : Leads 0 x y :=
  ⟨.zero h.shrinks, h.moves⟩

theorem unexpected : Leads k (Parse.unexpected : Parse α) Parse.unexpected :=
  ⟨.unexpected, fun _ hok => by cases hok⟩

theorem advance : Leads k Parse.advance Parse.advance := by
  refine ⟨⟨fun s => s.length_advance_le, fun {tail tail' s t} habreast hlt => ?_⟩, ?_⟩
  · simp only [Parse.advance, habreast.current_eq]
    exact .ok (habreast.advance hlt)
  · intro s a s' hne hok
    cases hok
    exact length_advance_lt hne

theorem expect (kind : TokenKind) : Leads k (Parse.expect kind) (Parse.expect kind) := by
  refine ⟨⟨fun s => ?_, fun {tail tail' s t} habreast hlt => ?_⟩, fun {s a s'} hne hok => ?_⟩
  · by_cases hkind : s.current.kind = kind
    · simpa [leaves, Parse.expect, expectOr, hkind] using s.length_advance_le
    · simp [leaves, Parse.expect, expectOr, hkind]
  · by_cases hkind : s.current.kind = kind
    · simp only [leaves, Parse.expect, expectOr, ← habreast.current_eq, hkind, if_true] at hlt ⊢
      exact .ok (habreast.advance hlt)
    · simp only [Parse.expect, expectOr, TokenStream.unexpectedBecause, ← habreast.current_eq,
        hkind, if_false]
      exact .error
  · unfold Parse.expect expectOr at hok
    split at hok
    · cases hok
      exact length_advance_lt hne
    · cases hok

/-- Behind the token that the first part takes the streams share one token less. -/
theorem bind (hx : Leads k x x') (hf : ∀ a, Tracks (k - 1) (f a) (f' a)) :
    Leads k (x >>= f) (x' >>= f') := by
  refine ⟨hx.bind_of_abreast hf (Nat.sub_le k 1) fun habreast hs habreast₁ => ?_, ?_⟩
  · exact habreast.pred habreast₁ (hx.moves habreast.rest_ne_nil hs)
  · intro s b s' hne hok
    cases hs : x s with
    | error d s₁ => cases (bind_error hs).symm.trans hok
    | ok a s₁ =>
        rw [bind_ok hs] at hok
        have hshrinks := (hf a).shrinks s₁
        rw [leaves_ok hok] at hshrinks
        exact Nat.lt_of_le_of_lt hshrinks (hx.moves hne hs)

theorem andThen (hx : Leads k x x') (hf : ∀ a, Tracks k (f a) (f' a)) :
    Leads k (x >>= f) (x' >>= f') :=
  hx.bind fun a => (hf a).mono (Nat.sub_le k 1)

theorem ended (hx : Leads k x x') :
    Leads k (do let a ← x; let _ ← Parse.expect .semicolon; return a)
      (do let a ← x'; let _ ← Parse.expect .semicolon; return a) :=
  hx.andThen fun a => (expect .semicolon).toTracks.bind fun _ => .ret a

/-- It is enough that the second part takes a token. -/
theorem after (hx : Tracks k x x') (hf : ∀ a, Leads k (f a) (f' a)) :
    Leads k (x >>= f) (x' >>= f') := by
  refine ⟨hx.bind fun a => (hf a).toTracks, fun {s b s'} hne hok => ?_⟩
  cases hs : x s with
  | error d s₁ => cases (bind_error hs).symm.trans hok
  | ok a s₁ =>
      rw [bind_ok hs] at hok
      have hfirst := hx.shrinks s
      have hsecond := (hf a).shrinks s₁
      rw [leaves_ok hs] at hfirst
      rw [leaves_ok hok] at hsecond
      by_cases hnil : s₁.rest = []
      · have hpos := List.length_pos_iff.mpr hne
        rw [hnil, List.length_nil] at hsecond
        omega
      · have hmoves := (hf a).moves hnil hok
        omega

end Leads

theorem Tracks.expect (kind : TokenKind) : Tracks k (Parse.expect kind) (Parse.expect kind) :=
  (Leads.expect kind).toTracks

/-! ## Repetitions -/

/-- Readers with a bound may be compared where the bounds are no less than the number of tokens that
the streams share, if each unit of the bound is paid for by a token. -/
theorem compare_bounded {ι : Type} (r r' : Nat → ι → Parse α)
    {Rel : Nat → Parse α → Parse α → Prop} (hforget : ∀ {x x' y}, Rel 0 x x' → Rel 0 x y)
    (hzero : ∀ i, Rel 0 (r 0 i) (r' 0 i))
    (hstep : ∀ {n m j}, j ≤ k → (∀ i, Rel (j - 1) (r n i) (r' m i)) →
      ∀ i, Rel j (r (n + 1) i) (r' (m + 1) i)) :
    ∀ {n m j}, j ≤ k → j ≤ n → j ≤ m → ∀ i, Rel j (r n i) (r' m i) := by
  intro n
  induction n with
  | zero =>
      intro m j _ hjn _ i
      obtain rfl := Nat.le_zero.mp hjn
      exact hforget (hzero i)
  | succ n ih =>
      intro m j hjk hjn hjm i
      cases m with
      | zero =>
          obtain rfl := Nat.le_zero.mp hjm
          exact hforget (hstep hjk (ih (Nat.zero_le k) (Nat.zero_le n) (Nat.zero_le n)) i)
      | succ m =>
          exact hstep hjk (ih (by omega) (by omega) (by omega)) i

theorem Tracks.bounded {r r' : Nat → Parse α}
    (h : ∀ {n m j}, j ≤ k → j ≤ n → j ≤ m → Tracks j (r n) (r' m)) :
    Tracks k (Parse.bounded r) (Parse.bounded r') := by
  constructor
  · intro s
    exact (h (Nat.zero_le k) (Nat.zero_le (s.rest.length + 1)) (Nat.le_refl 0)).shrinks s
  · intro tail tail' s t habreast hlt
    obtain ⟨front, hne, hlength, hs, ht, hstop⟩ := habreast
    have hn : front.length ≤ s.rest.length + 1 := by
      rw [hs, List.length_append]
      omega
    have hm : front.length ≤ t.rest.length + 1 := by
      rw [ht, List.length_append]
      omega
    exact ((h hlength hn hm).alike ⟨front, hne, Nat.le_refl _, hs, ht, hstop⟩ hlt).mono hlength

theorem Leads.bounded {r r' : Nat → Parse α}
    (h : ∀ {n m j}, j ≤ k → j ≤ n → j ≤ m → Leads j (r n) (r' m)) :
    Leads k (Parse.bounded r) (Parse.bounded r') := by
  refine ⟨.bounded fun hjk hjn hjm => (h hjk hjn hjm).toTracks, fun {s a s'} hne hok => ?_⟩
  exact (h (Nat.zero_le k) (Nat.zero_le (s.rest.length + 1)) (Nat.le_refl 0)).moves hne hok

namespace Tracks

variable {item item' : Parse α}

theorem itemsUntil (hitem : Leads k item item') (close : TokenKind) :
    Tracks k (Parse.itemsUntil close item) (Parse.itemsUntil close item') := by
  refine bounded fun {n m j} hjk hjn hjm => ?_
  refine compare_bounded (fun n (_ : Unit) => Parse.itemsUntil.go close item n)
    (fun n _ => Parse.itemsUntil.go close item' n) (fun h => .zero h.shrinks) ?_ ?_ hjk hjn hjm ()
  · intro _
    refine currentKind.bind fun kind => ?_
    split
    · exact ret _
    · exact unexpected
  · intro n m j hjk ih _
    refine currentKind.bind fun kind => ?_
    split
    · exact ret _
    · exact ((hitem.mono hjk).bind fun a => (ih ()).bind fun as => ret _).toTracks

theorem commaSeparated (hitem : Leads k item item') :
    Tracks k (Parse.commaSeparated item) (Parse.commaSeparated item') := by
  refine bounded fun {n m j} hjk hjn hjm => ?_
  refine compare_bounded (fun n (_ : Unit) => Parse.commaSeparated.go item n)
    (fun n _ => Parse.commaSeparated.go item' n) (fun h => .zero h.shrinks) ?_ ?_ hjk hjn hjm ()
  · intro _
    refine ((hitem.mono (Nat.zero_le k)).bind fun a => (accept _).bind fun more => ?_).toTracks
    split
    · exact unexpected
    · exact ret _
  · intro n m j hjk ih _
    refine ((hitem.mono hjk).bind fun a => (accept _).bind fun more => ?_).toTracks
    split
    · exact (ih ()).bind fun as => ret _
    · exact ret _

theorem parenthesized (hitem : Leads k item item') :
    Tracks k (Parse.parenthesized item) (Parse.parenthesized item') := by
  refine (expect _).bind fun _ => currentKind.bind fun kind => ?_
  split
  · exact (ret _).bind fun as => (expect _).bind fun _ => ret _
  · exact (commaSeparated hitem).bind fun as => (expect _).bind fun _ => ret _

end Tracks

end Parse

end CoolLang
