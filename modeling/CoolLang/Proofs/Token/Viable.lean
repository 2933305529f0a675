import CoolLang.Proofs.Token.Stream

/-!
# Where a reader stops

A list of spellings is viable for a language if it can be completed to one of its words. `Stops`
says of a reader that it complains about the token in front of which it stops, and that what it has
taken up to there is viable. Of a reader made of several parts it is enough to know this of each
part, and how a word of one part is completed to a word of the whole.
-/

namespace CoolLang

/-- Each spelling is that of a token, and none that of the end of a file. -/
def Spelled (ts : List Spelling) : Prop :=
  ∀ w ∈ ts, w.token.spelling = w ∧ w.kind ≠ .eof

instance : DecidablePred Spelled := fun ts =>
  inferInstanceAs (Decidable (∀ w ∈ ts, w.token.spelling = w ∧ w.kind ≠ .eof))

/-- The spellings can be completed to a word of the language. -/
def Viable (L : List Spelling → Prop) (ts : List Spelling) : Prop :=
  ∃ us, Spelled us ∧ L (ts ++ us)

namespace Viable

variable {L : List Spelling → Prop} {ts : List Spelling}

theorem of_mem (h : L ts) : Viable L ts :=
  ⟨[], by simp [Spelled], by simpa using h⟩

theorem of_append (us : List Spelling) (hus : Spelled us) (h : Viable L (ts ++ us)) :
    Viable L ts := by
  obtain ⟨vs, hvs, hword⟩ := h
  refine ⟨us ++ vs, fun w hw => ?_, by simpa using hword⟩
  rcases List.mem_append.mp hw with hw | hw
  · exact hus w hw
  · exact hvs w hw

end Viable

/-- The diagnostic complains about the token: it carries its text and the place where it starts. -/
def Diagnostic.Refuses (d : Diagnostic) (t : Token) : Prop :=
  d.position = t.span.start ∧
    (d.cause = .unexpectedToken t.render ∨
      ∃ reason, d.cause = .unexpectedTokenDetailed t.render reason)

/-- The end-of-file mark closes the stream, and all its numbers are in range. -/
structure TokenStream.Lexed (s : TokenStream) : Prop where
  closed : s.Closed
  inRange : ∀ t ∈ s.rest, t.kind = .integer → (Text.int64? t.text.toList).isSome = true

theorem TokenStream.Lexed.of_reads {s s' : TokenStream} {ts : List Spelling} (h : s.Lexed)
    (hreads : s.Reads ts s') (hclosed : s'.Closed) : s'.Lexed := by
  refine ⟨hclosed, fun t ht => h.inRange t ?_⟩
  obtain ⟨taken, hrest, -⟩ := hreads.taken
  rw [hrest]
  exact List.mem_append_right taken ht

namespace Parse

open TokenStream

variable {α β : Type}

/-- Behind the spellings `done`, the reader fails only in front of a token that it complains about,
and what has been read up to there is viable. -/
def Stops (x : Parse α) (s : TokenStream) (L : List Spelling → Prop)
    (done : List Spelling) : Prop :=
  s.Lexed → ∀ d s', x s = .error d s' →
    ∃ ts, s.Reads ts s' ∧ s'.Closed ∧ d.Refuses s'.current ∧ Viable L (done ++ ts)

namespace Stops

variable {s : TokenStream} {L : List Spelling → Prop} {done : List Spelling}
variable {x : Parse α} {f : α → Parse β}

theorem of_ok (hx : ∀ s, ∃ a s', x s = .ok a s') : Stops x s L done := by
  intro _ d s' hd
  obtain ⟨a, s₁, hok⟩ := hx s
  cases hok.symm.trans hd

theorem ret (a : α) : Stops (pure a) s L done :=
  of_ok fun s => ⟨a, s, rfl⟩

theorem spanned (start : Position) (f : Span → α) :
    Stops (do return f (← spanFrom start)) s L done :=
  of_ok fun s => ⟨_, s, rfl⟩

theorem bind {P : List Spelling → α → TokenStream → Prop} (hx : Stops x s L done)
    (htakes : Takes x s P)
    (hf : ∀ ts a s', P ts a s' → Stops (f a) s' L (done ++ ts)) :
    Stops (x >>= f) s L done := by
  intro hs d s'' hd
  cases hx' : x s with
  | error d' s' =>
      cases (bind_error hx').symm.trans hd
      exact hx hs d s'' hx'
  | ok a s' =>
      rw [bind_ok hx'] at hd
      obtain ⟨ts, hreads, hclosed, hP⟩ := htakes hs.closed a s' hx'
      obtain ⟨us, hreads', hclosed', hrefuses, hviable⟩ :=
        hf ts a s' hP (hs.of_reads hreads hclosed) d s'' hd
      exact ⟨ts ++ us, hreads.append hreads', hclosed', hrefuses, by simpa using hviable⟩

/-- Nothing is read behind the first part. -/
theorem last (hx : Stops x s L done) (hf : ∀ a s, ∃ b s', f a s = .ok b s') :
    Stops (x >>= f) s L done := by
  intro hs d s'' hd
  cases hx' : x s with
  | error d' s' =>
      cases (bind_error hx').symm.trans hd
      exact hx hs d s'' hx'
  | ok a s' =>
      rw [bind_ok hx'] at hd
      obtain ⟨b, s₁, hok⟩ := hf a s'
      cases hok.symm.trans hd

/-- Nothing is read behind a part that fails. -/
theorem cut (hx : Stops x s L done) (hfails : ∃ d s', x s = .error d s') :
    Stops (x >>= f) s L done :=
  hx.bind (Takes.fails (P := fun _ _ _ => False) hfails) fun _ _ _ hfalse => hfalse.elim

/-- A part of the form is read: all its words can stand behind what is done. -/
theorem part {M : List Spelling → Prop} (hx : Stops x s M [])
    (hfill : ∀ ts, M ts → Viable L (done ++ ts)) : Stops x s L done := by
  intro hs d s' hd
  obtain ⟨ts, hreads, hclosed, hrefuses, us, hus, hword⟩ := hx hs d s' hd
  have hviable := hfill _ hword
  rw [List.nil_append, ← List.append_assoc] at hviable
  exact ⟨ts, hreads, hclosed, hrefuses, hviable.of_append us hus⟩

theorem refuse (complaint : TokenStream → Diagnostic) (hx : x s = .error (complaint s) s)
    (hrefuses : (complaint s).Refuses s.current) (h : Viable L done) : Stops x s L done := by
  intro hs d s' hd
  cases hx.symm.trans hd
  exact ⟨[], rfl, hs.closed, hrefuses, by simpa using h⟩

theorem unexpected (h : Viable L done) : Stops (Parse.unexpected : Parse α) s L done :=
  refuse TokenStream.unexpected rfl ⟨rfl, .inl rfl⟩ h

theorem unexpectedBecause (reason : String) (h : Viable L done) :
    Stops (Parse.unexpectedBecause reason : Parse α) s L done :=
  refuse (·.unexpectedBecause reason) rfl ⟨rfl, .inr ⟨reason, rfl⟩⟩ h

theorem expect (kind : TokenKind) (h : Viable L done) :
    Stops (Parse.expect kind) s L done := by
  by_cases hkind : s.current.kind = kind
  · intro _ d s' hd
    simp [Parse.expect, expectOr, hkind] at hd
  · refine refuse (·.unexpectedBecause s!"expected {kind.name}") ?_ ⟨rfl, .inr ⟨_, rfl⟩⟩ h
    simp [Parse.expect, expectOr, hkind]

/-! ## Steps of a form -/

theorem mark {k : TokenKind} {f : Token → Parse β} (hk : k.isMark = true) (h : Viable L done)
    (hf : ∀ t s', Stops (f t) s' L (done ++ [.mark k])) :
    Stops (Parse.expect k >>= f) s L done :=
  (expect k h).bind (Takes.mark k hk) fun _ t s' hts => hts ▸ hf t s'

theorem object {f : Token → Parse β} (h : Viable L done)
    (hf : ∀ t s', Stops (f t) s' L (done ++ [.object t.text])) :
    Stops (Parse.expect .objectIdentifier >>= f) s L done :=
  (expect _ h).bind Takes.object fun _ t s' hts => hts ▸ hf t s'

theorem type {f : Token → Parse β} (h : Viable L done)
    (hf : ∀ t s', Stops (f t) s' L (done ++ [.type t.text])) :
    Stops (Parse.expect .typeIdentifier >>= f) s L done :=
  (expect _ h).bind Takes.type fun _ t s' hts => hts ▸ hf t s'

theorem advance {f : Token → Parse β} (hkind : s.current.kind ≠ .eof)
    (hf : ∀ s', Stops (f s.current) s' L (done ++ [s.current.spelling])) :
    Stops (Parse.advance >>= f) s L done := by
  refine (of_ok fun _ => ⟨_, _, rfl⟩).bind (Takes.advance hkind) ?_
  rintro _ t s' ⟨rfl, rfl⟩
  exact hf s'

theorem advanceMark {k : TokenKind} {f : Token → Parse β} (hkind : s.current.kind = k)
    (hk : k.isMark = true) (hf : ∀ t s', Stops (f t) s' L (done ++ [.mark k])) :
    Stops (Parse.advance >>= f) s L done :=
  (of_ok fun _ => ⟨_, _, rfl⟩).bind (Takes.advanceMark hkind hk) fun _ t s' hts => hts ▸ hf t s'

theorem currentKind {f : TokenKind → Parse β} (hf : Stops (f s.current.kind) s L done) :
    Stops (Parse.currentKind >>= f) s L done :=
  fun hs d s' hd => hf hs d s' hd

theorem accept {k : TokenKind} {f : Bool → Parse β} (hk : k.isMark = true)
    (htook : ∀ s', Stops (f true) s' L (done ++ [.mark k])) (hleft : Stops (f false) s L done) :
    Stops (Parse.accept k >>= f) s L done := by
  refine bind (of_ok fun _ => ?_) (Takes.accept k hk) ?_
  · unfold Parse.accept
    split
    · exact ⟨_, _, rfl⟩
    · exact ⟨_, _, rfl⟩
  · rintro _ _ s' (⟨rfl, rfl⟩ | ⟨rfl, rfl, rfl, -⟩)
    · exact htook s'
    · rw [List.append_nil]
      exact hleft

/-! ## Lists -/

variable {item : Parse α} {Item : α → List Spelling → Prop}

theorem ended (hitem : Stops item s (fun ts => ∃ a, Item a ts) [])
    (htakes : Takes item s fun ts a _ => Item a ts) :
    Stops (do let a ← item; let _ ← Parse.expect .semicolon; return a) s
      (fun ts => ∃ a, Ended Item a ts) [] := by
  have hfill : ∀ ts, (∃ a, Item a ts) → Viable (fun ts => ∃ a, Ended Item a ts) ([] ++ ts) := by
    rintro ts ⟨a, ha⟩
    exact ⟨[.mark .semicolon], by decide, a, ts, ha, rfl⟩
  refine (hitem.part hfill).bind htakes fun ts a s' ha => ?_
  exact .mark rfl (hfill ts ⟨a, ha⟩) fun _ _ => .ret _

theorem itemsUntil (hitem : ∀ s, Stops item s (fun ts => ∃ a, Ended Item a ts) [])
    (htakes : ∀ s, Takes item s fun ts a _ => Ended Item a ts) (close : TokenKind)
    (hfill : ∀ as ts, Terminated Item as ts → Viable L (done ++ ts)) :
    Stops (Parse.itemsUntil close item) s L done := by
  have hgo : ∀ bound s done, (∀ as ts, Terminated Item as ts → Viable L (done ++ ts)) →
      Stops (Parse.itemsUntil.go close item bound) s L done := by
    intro bound
    induction bound with
    | zero =>
        intro s done hfill
        refine .currentKind ?_
        split
        · exact .ret _
        · exact .unexpected (by simpa using hfill [] [] .nil)
    | succ bound ih =>
        intro s done hfill
        refine .currentKind ?_
        split
        · exact .ret _
        · have hmore : ∀ a ts, Ended Item a ts → ∀ as us, Terminated Item as us →
              Viable L (done ++ ts ++ us) := by
            rintro a _ ⟨ts, ha, rfl⟩ as us has
            simpa using hfill (a :: as) _ (.cons ha has)
          refine ((hitem s).part ?_).bind (htakes s) fun ts a s' ha => ?_
          · rintro ts ⟨a, ha⟩
            simpa using hmore a ts ha [] [] .nil
          · exact (ih s' _ (hmore a ts ha)).last fun _ s => ⟨_, s, rfl⟩
  exact hgo _ s done hfill

theorem commaSeparated (hitem : ∀ s, Stops item s (fun ts => ∃ a, Item a ts) [])
    (htakes : ∀ s, Takes item s fun ts a _ => Item a ts)
    (hsome : Viable (fun ts => ∃ a, Item a ts) [])
    (hfill : ∀ as ts, Separated Item as ts → Viable L (done ++ ts)) :
    Stops (Parse.commaSeparated item) s L done := by
  have hgo : ∀ bound s done, (∀ as ts, Separated Item as ts → Viable L (done ++ ts)) →
      Stops (Parse.commaSeparated.go item bound) s L done := by
    intro bound
    induction bound with
    | zero =>
        intro s done hfill
        refine ((hitem s).part ?_).bind (htakes s) fun ts a s' ha => ?_
        · rintro ts ⟨a, ha⟩
          exact hfill [a] ts (.one ha)
        · refine .accept rfl (fun s' => ?_) (.ret _)
          -- the comma is there already, so one more item completes the list
          obtain ⟨us, hus, b, hb⟩ := hsome
          have hviable := hfill [a, b] _ (.more ha (.one hb))
          refine .unexpected (.of_append us hus ?_)
          simpa using hviable
    | succ bound ih =>
        intro s done hfill
        refine ((hitem s).part ?_).bind (htakes s) fun ts a s' ha => ?_
        · rintro ts ⟨a, ha⟩
          exact hfill [a] ts (.one ha)
        · refine .accept rfl (fun s' => ?_) (.ret _)
          refine (ih s' _ fun as us has => ?_).last fun _ s => ⟨_, s, rfl⟩
          simpa using hfill (a :: as) _ (.more ha has)
  exact hgo _ s done hfill

theorem parenthesized (hitem : ∀ s, Stops item s (fun ts => ∃ a, Item a ts) [])
    (htakes : ∀ s, Takes item s fun ts a _ => Item a ts)
    (hsome : Viable (fun ts => ∃ a, Item a ts) [])
    (hfill : ∀ as ts, Parenthesized Item as ts → Viable L (done ++ ts)) :
    Stops (Parse.parenthesized item) s L done := by
  have hopen : Viable L (done ++ [.mark .openParen]) := by
    refine .of_append [.mark .closeParen] (by decide) ?_
    simpa using hfill [] _ .none
  have hitems : ∀ as ts, Separated Item as ts →
      Viable L (done ++ [.mark .openParen] ++ ts) := by
    intro as ts has
    refine .of_append [.mark .closeParen] (by decide) ?_
    simpa using hfill as _ (.some has)
  refine .mark rfl (hopen.of_append _ (by decide)) fun _ s₁ => .currentKind ?_
  split
  · exact Stops.bind (.ret _) (Takes.ret (P := fun ts _ _ => ts = []) rfl) fun ts _ s₂ hts =>
      .mark rfl (by simpa [hts] using hopen) fun _ _ => .ret _
  · refine (commaSeparated hitem htakes hsome hitems).bind (Takes.commaSeparated htakes) ?_
    intro ts as s₂ has
    exact .mark rfl (hitems as ts has) fun _ _ => .ret _

end Stops

end Parse

end CoolLang
