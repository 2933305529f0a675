import CoolLang.Proofs.Token.Partition

/-!
# Comments and strings

What stands between two delimiters. A comment is closed by the mark that its own nesting asks for; a
string is a sequence of items, each a plain character or an escaped one, up to the next quote. Both
are read by exactly that grammar, and a text that it does not allow is refused at one place.
-/

namespace CoolLang

/-- A cursor moved over a text stands at what follows it. -/
theorem Cursor.drop_eq {c : Cursor} {before after : List Char} {n : Nat}
    (hrest : c.rest = before ++ after) (hn : n = before.length) :
    c.drop n = ⟨after, c.position.after before⟩ := by
  rw [drop, hrest, hn, List.drop_left, List.take_left]

namespace Lexer

/-! ## One lexeme at a time -/

/-- How far a source has been read: the tokens so far, the last one first, and the place reached. -/
structure State where
  done : List Token
  cursor : Cursor

namespace State

/-- Reads the lexeme at the head of the text. A gap leaves no token. -/
def step (s : State) : Except Diagnostic State :=
  match lexeme s.cursor with
  | .error d => .error d
  | .ok (.gap n) => .ok ⟨s.done, s.cursor.drop n⟩
  | .ok (.token kind text n) =>
    .ok ⟨⟨kind, text, ⟨s.cursor.position, (s.cursor.drop n).position⟩⟩ :: s.done, s.cursor.drop n⟩

/-- Reads the rest of the source. -/
def read (s : State) : Except Diagnostic (List Token) :=
  lexFrom s.done 0 s.cursor.position s.cursor.rest

/-- A source is read one lexeme after the other. -/
theorem read_eq_step (s : State) (hne : s.cursor.rest ≠ []) : s.read = s.step.bind read := by
  obtain ⟨done, ⟨text, position⟩⟩ := s
  cases text with
  | nil => exact absurd rfl hne
  | cons c text =>
      cases hlex : lexeme ⟨c :: text, position⟩ with
      | error d => simp only [read, step, lexFrom, hlex, Except.bind]
      | ok l =>
          have hbounds := (lexeme_eq_ok hne hlex).bounds
          cases l with
          | gap n =>
              simp only [read, step, lexFrom, hlex, Except.bind]
              exact lexFrom_pred hbounds _
          | token kind value n =>
              simp only [read, step, lexFrom, hlex, Except.bind]
              exact lexFrom_pred hbounds _

end State

/-! ## Comments -/

/-- A comment from the mark that opens it to the mark that closes it. -/
def IsComment (word : List Char) : Prop :=
  ∃ tail, word = '(' :: '*' :: tail ∧ CommentTail tail

theorem startsMark_of_append_eq {c : Char} {tail after text : List Char} (htail : CommentTail tail)
    (hc : startsMark (c :: tail) = false) (heq : c :: (tail ++ after) = text) :
    startsMark text = false := by
  rw [← heq, startsMark_cons_append htail.ne_nil]
  exact hc

/-- No tail of a comment is the beginning of another one. -/
theorem CommentTail.eq_of_append_eq {tail tail' after after' : List Char}
    (htail : CommentTail tail) (htail' : CommentTail tail')
    (heq : tail ++ after = tail' ++ after') : tail = tail' := by
  induction htail generalizing tail' after after' with
  | close =>
      cases htail' with
      | close => rfl
      | char hc htail' => cases startsMark_of_append_eq htail' hc heq.symm
      | comment => cases heq
  | @char c tail hc htail ih =>
      cases htail' with
      | close => cases startsMark_of_append_eq htail hc heq
      | @char c' tail' hc' htail' =>
          rw [List.cons_append, List.cons_append, List.cons.injEq] at heq
          rw [heq.1, ih htail' heq.2]
      | comment => cases startsMark_of_append_eq htail hc heq
  | @comment inner tail hinner htail ihinner ihtail =>
      cases htail' with
      | close => cases heq
      | char hc' htail' => cases startsMark_of_append_eq htail' hc' heq.symm
      | @comment inner' tail' hinner' htail' =>
          have hrest : inner ++ (tail ++ after) = inner' ++ (tail' ++ after') := by
            simpa using heq
          obtain rfl := ihinner hinner' hrest
          rw [ihtail htail' (List.append_cancel_left hrest)]

theorem IsComment.eq_of_append_eq {word word' after after' : List Char} (hword : IsComment word)
    (hword' : IsComment word') (heq : word ++ after = word' ++ after') : word = word' := by
  obtain ⟨tail, rfl, htail⟩ := hword
  obtain ⟨tail', rfl, htail'⟩ := hword'
  rw [htail.eq_of_append_eq htail' (by simpa using heq)]

/-- What a letter behind a backslash stands for. Every other character stands for itself there. -/
def escapes : List (Char × Char) :=
  [('n', '\n'), ('t', '\t'), ('b', '\x08'), ('f', '\x0c')]

/-- What stands between the quotes of a string for one character of its content. -/
inductive StringItem where
  | plain (c : Char) (hc : c ≠ '"' ∧ c ≠ '\\' ∧ c ≠ '\n' ∧ c ≠ '\x00')
  | escaped (c : Char) (hc : c ≠ '\x00')

namespace StringItem

def spelling : StringItem → List Char
  | plain c _ => [c]
  | escaped c _ => ['\\', c]

def content : StringItem → Char
  | plain c _ => c
  | escaped c _ => (escapes.lookup c).getD c

def spellAll (items : List StringItem) : List Char :=
  items.flatMap spelling

/-- The content of an item may be any character but one. -/
theorem exists_content_eq {c : Char} (hc : c ≠ '\x00') : ∃ item : StringItem, item.content = c := by
  by_cases hplain : c ≠ '"' ∧ c ≠ '\\' ∧ c ≠ '\n'
  · exact ⟨.plain c ⟨hplain.1, hplain.2.1, hplain.2.2, hc⟩, rfl⟩
  · refine ⟨.escaped c hc, ?_⟩
    have hcases : c = '"' ∨ c = '\\' ∨ c = '\n' := by
      by_contra hne
      simp only [not_or] at hne
      exact hplain hne
    rcases hcases with rfl | rfl | rfl <;> rfl

theorem exists_contents_eq {cs : List Char} (hcs : '\x00' ∉ cs) :
    ∃ items : List StringItem, items.map content = cs := by
  induction cs with
  | nil => exact ⟨[], rfl⟩
  | cons c cs ih =>
      rw [List.mem_cons, not_or] at hcs
      obtain ⟨item, hitem⟩ := exists_content_eq (Ne.symm hcs.1)
      obtain ⟨items, hitems⟩ := ih hcs.2
      exact ⟨item :: items, by rw [List.map_cons, hitem, hitems]⟩

/-- No spelling of an item is the beginning of another one. -/
theorem eq_of_append_eq {item item' : StringItem} {text text' : List Char}
    (heq : item.spelling ++ text = item'.spelling ++ text') : item = item' ∧ text = text' := by
  cases item with
  | plain c hc =>
      cases item' with
      | plain d hd =>
          cases heq
          exact ⟨rfl, rfl⟩
      | escaped d hd =>
          cases heq
          exact absurd rfl hc.2.1
  | escaped c hc =>
      cases item' with
      | plain d hd =>
          cases heq
          exact absurd rfl hd.2.1
      | escaped d hd =>
          cases heq
          exact ⟨rfl, rfl⟩

theorem spellAll_cons (item : StringItem) (items : List StringItem) :
    spellAll (item :: items) = item.spelling ++ spellAll items :=
  List.flatMap_cons

end StringItem

open StringItem

/-- No item stands at the head of the text. -/
def Stuck (text : List Char) : Prop :=
  ∀ (item : StringItem) (rest : List Char), text ≠ item.spelling ++ rest

/-- The text starts with the items, and with no more of them; `after` comes behind them. -/
structure LongestItems (text : List Char) (items : List StringItem) (after : List Char) :
    Prop where
  split : text = spellAll items ++ after
  longest : ∀ items' after', text = spellAll items' ++ after' → items'.length ≤ items.length

theorem LongestItems.stuck {text after : List Char} {items : List StringItem}
    (h : LongestItems text items after) : Stuck after := by
  rintro item rest rfl
  have hlonger := h.longest (items ++ [item]) rest (by simp [h.split, spellAll])
  rw [List.length_append, List.length_singleton] at hlonger
  omega

/-- Where the items of a text end in a place without a further one, there are no longer ways to
start it. -/
theorem Stuck.longestItems {after : List Char} (hafter : Stuck after) (items : List StringItem) :
    LongestItems (spellAll items ++ after) items after := by
  refine ⟨rfl, fun items' after' heq => ?_⟩
  induction items generalizing items' with
  | nil =>
      cases items' with
      | nil => exact Nat.le_refl _
      | cons item' items' =>
          rw [spellAll_cons, List.append_assoc] at heq
          exact absurd heq (hafter item' _)
  | cons item items ih =>
      cases items' with
      | nil => exact Nat.zero_le _
      | cons item' items' =>
          rw [spellAll_cons, spellAll_cons, List.append_assoc, List.append_assoc] at heq
          exact Nat.succ_le_succ (ih items' (eq_of_append_eq heq).2)

theorem exists_longestItems (text : List Char) : ∃ items after, LongestItems text items after := by
  induction hn : text.length using Nat.strongRecOn generalizing text with
  | ind n ih =>
      by_cases hstuck : Stuck text
      · exact ⟨[], text, hstuck.longestItems []⟩
      · simp only [Stuck, not_forall, not_not] at hstuck
        obtain ⟨item, rest, rfl⟩ := hstuck
        have hlt : rest.length < n := by
          cases item <;> simp only [spelling, List.length_append, List.length_cons] at hn <;> omega
        obtain ⟨items, after, hitems⟩ := ih rest.length hlt rest rfl
        refine ⟨item :: items, after, ?_⟩
        have hlonger := hitems.stuck.longestItems (item :: items)
        rwa [spellAll_cons, List.append_assoc, ← hitems.split] at hlonger

/-! ### Reading a string -/

theorem unescape_eq (c : Char) : unescape c = (escapes.lookup c).getD c := by
  unfold unescape
  split
  · rfl
  · rfl
  · rfl
  · rfl
  · rename_i hn ht hb hf
    have hnone : escapes.lookup c = none := by
      rw [List.lookup_eq_none_iff]
      simpa [escapes] using ⟨hn, ht, hb, hf⟩
    rw [hnone, Option.getD_none]

theorem literal_item_append (item : StringItem) (text : List Char) :
    literal (item.spelling ++ text) =
      (literal text).cons item.content item.spelling.length := by
  cases item with
  | plain c hc =>
      rw [spelling, List.singleton_append, literal]
      · rfl
      all_goals simp [hc]
  | escaped c hc =>
      rw [spelling, List.cons_append, List.singleton_append, literal, unescape_eq]
      · rfl
      · exact hc

/-- The literal with items put in front. -/
def Literal.behind (items : List StringItem) : Literal → Literal
  | closed rest length => closed (items.map content ++ rest) (length + (spellAll items).length)
  | unterminated => unterminated
  | nul offset => nul (offset + (spellAll items).length)

theorem literal_spellAll_append (items : List StringItem) (text : List Char) :
    literal (spellAll items ++ text) = (literal text).behind items := by
  induction items with
  | nil => cases h : literal text <;> simp [Literal.behind, spellAll, h]
  | cons item items ih =>
      rw [spellAll_cons, List.append_assoc, literal_item_append, ih]
      cases literal text with
      | unterminated => rfl
      | closed rest length =>
          simp only [Literal.behind, Literal.cons, spellAll_cons, List.map_cons, List.cons_append,
            List.length_append, Literal.closed.injEq, true_and]
          omega
      | nul offset =>
          simp only [Literal.behind, Literal.cons, spellAll_cons, List.length_append,
            Literal.nul.injEq]
          omega

/-- Why a string cannot be read whose items are followed by something else than a quote. Its
own quote stands at `start`, and its items end before `stop`. -/
def flaw (start stop : Position) : List Char → Diagnostic
  | '\x00' :: _ => ⟨.invalidStringCharacter "\\0", stop⟩
  | '\\' :: '\x00' :: _ => ⟨.invalidStringCharacter "\\0", stop.next '\\'⟩
  | _ => ⟨.unterminatedString, start⟩

theorem Stuck.cases {text : List Char} (hstuck : Stuck text) :
    text = [] ∨ text = ['\\'] ∨ ∃ rest, text = '"' :: rest ∨ text = '\n' :: rest ∨
      text = '\x00' :: rest ∨ text = '\\' :: '\x00' :: rest := by
  cases text with
  | nil => exact Or.inl rfl
  | cons c rest =>
      by_cases hplain : c ≠ '"' ∧ c ≠ '\\' ∧ c ≠ '\n' ∧ c ≠ '\x00'
      · exact absurd rfl (hstuck (.plain c hplain) rest)
      · have hcases : c = '"' ∨ c = '\\' ∨ c = '\n' ∨ c = '\x00' := by
          by_contra hne
          simp only [not_or] at hne
          exact hplain hne
        rcases hcases with rfl | rfl | rfl | rfl
        · exact Or.inr (Or.inr ⟨rest, Or.inl rfl⟩)
        · cases rest with
          | nil => exact Or.inr (Or.inl rfl)
          | cons d rest =>
              by_cases hd : d = '\x00'
              · exact Or.inr (Or.inr ⟨rest, Or.inr (Or.inr (Or.inr (by rw [hd])))⟩)
              · exact absurd rfl (hstuck (.escaped d hd) rest)
        · exact Or.inr (Or.inr ⟨rest, Or.inr (Or.inl rfl)⟩)
        · exact Or.inr (Or.inr ⟨rest, Or.inr (Or.inr (Or.inl rfl))⟩)

namespace State

/-- Items up to a quote make one token, and the text behind the quote is left. -/
theorem step_closed {s : State} {items : List StringItem} {after : List Char}
    (hrest : s.cursor.rest = '"' :: (spellAll items ++ '"' :: after)) :
    s.step = .ok ⟨⟨.string, String.ofList (items.map content),
        ⟨s.cursor.position, s.cursor.position.after ('"' :: (spellAll items ++ ['"']))⟩⟩ :: s.done,
      ⟨after, s.cursor.position.after ('"' :: (spellAll items ++ ['"']))⟩⟩ := by
  have hliteral : literal (spellAll items ++ '"' :: after) =
      .closed (items.map content) (1 + (spellAll items).length) := by
    rw [literal_spellAll_append, literal, Literal.behind, List.append_nil]
  have hsplit : s.cursor.rest = '"' :: (spellAll items ++ ['"']) ++ after := by
    rw [hrest, List.cons_append, List.append_assoc]
    rfl
  have hwidth : 1 + (spellAll items).length + 1 = ('"' :: (spellAll items ++ ['"'])).length := by
    simp [Nat.add_comm]
  simp only [step, lexeme, hrest, quoted, hliteral]
  rw [Cursor.drop_eq hsplit hwidth]

/-- Items that end elsewhere than at a quote are refused. -/
theorem step_flaw {s : State} {items : List StringItem} {after : List Char}
    (hrest : s.cursor.rest = '"' :: (spellAll items ++ after)) (hstuck : Stuck after)
    (hquote : ∀ rest, after ≠ '"' :: rest) :
    s.step = .error (flaw s.cursor.position (s.cursor.position.after ('"' :: spellAll items))
      after) := by
  simp only [step, lexeme, hrest, quoted, literal_spellAll_append]
  rcases hstuck.cases with rfl | rfl | ⟨rest, rfl | rfl | rfl | rfl⟩
  · rfl
  · rfl
  · exact absurd rfl (hquote rest)
  · rfl
  · have hwidth : 0 + (spellAll items).length + 1 = ('"' :: spellAll items).length := by simp
    simp only [literal, Literal.behind, flaw]
    rw [Cursor.drop_eq hrest hwidth]
  · have hsplit : s.cursor.rest = ('"' :: spellAll items) ++ ['\\'] ++ '\x00' :: rest := by
      rw [hrest, List.append_assoc]
      rfl
    have hwidth : 1 + (spellAll items).length + 1 =
        (('"' :: spellAll items) ++ ['\\']).length := by
      simp [Nat.add_comm]
    simp only [literal, Literal.behind, flaw]
    rw [Cursor.drop_eq hsplit hwidth, Position.after_append]
    rfl

end State

/-- A source that is one string has its token and no other. -/
theorem tokenize_string (items : List StringItem) (file : String) : ∃ span,
    tokenize (String.ofList ('"' :: (spellAll items ++ ['"']))) file =
      .ok [⟨.string, String.ofList (items.map content), span⟩, .endOfFile span.stop] := by
  refine ⟨⟨.first file, (Position.first file).after ('"' :: (spellAll items ++ ['"']))⟩, ?_⟩
  have hread : tokenize (String.ofList ('"' :: (spellAll items ++ ['"']))) file =
      State.read ⟨[], ⟨'"' :: (spellAll items ++ ['"']), .first file⟩⟩ := by
    rw [tokenize, String.toList_ofList]
    rfl
  rw [hread, State.read_eq_step _ (by simp), State.step_closed rfl]
  rfl

/-- **Strings are read by their grammar.** A text that starts with a quote is read as a string if
and only if items follow up to another quote; it makes one token, whose text is what the items stand
for, and nothing behind the quote is touched. Otherwise the text is refused for what follows the
longest sequence of items: at a null character, escaped or not, and else at the opening quote. Every
text without a null character can be written as a string. -/
theorem strings_follow_grammar :
    (∀ (s : State) (text : List Char), s.cursor.rest = '"' :: text →
      (∀ s', s.step = .ok s' ↔ ∃ (items : List StringItem) (after : List Char) (stop : Position),
        text = spellAll items ++ '"' :: after ∧
        stop = s.cursor.position.after ('"' :: (spellAll items ++ ['"'])) ∧
        s' = ⟨⟨.string, String.ofList (items.map content), ⟨s.cursor.position, stop⟩⟩ :: s.done,
          ⟨after, stop⟩⟩) ∧
      (∀ d, s.step = .error d ↔ ∃ (items : List StringItem) (after : List Char),
        LongestItems text items after ∧ (∀ rest, after ≠ '"' :: rest) ∧
        d = flaw s.cursor.position (s.cursor.position.after ('"' :: spellAll items)) after)) ∧
    ∀ w : String, '\x00' ∉ w.toList → ∃ source : String, ∀ file, ∃ span,
      tokenize source file = .ok [⟨.string, w, span⟩, .endOfFile span.stop] := by
  constructor
  · intro s text hrest
    -- what follows the longest sequence of items decides about the outcome
    obtain ⟨items, after, hitems⟩ := exists_longestItems text
    obtain rfl := hitems.split
    constructor
    · intro s'
      constructor
      · intro hok
        by_cases hquote : ∃ rest, after = '"' :: rest
        · obtain ⟨rest, rfl⟩ := hquote
          cases (State.step_closed hrest).symm.trans hok
          exact ⟨items, rest, _, rfl, rfl, rfl⟩
        · have hflaw := State.step_flaw hrest hitems.stuck (not_exists.mp hquote)
          cases hflaw.symm.trans hok
      · rintro ⟨items', after', stop, htext, rfl, rfl⟩
        rw [htext] at hrest
        exact State.step_closed hrest
    · intro d
      constructor
      · intro herror
        by_cases hquote : ∃ rest, after = '"' :: rest
        · obtain ⟨rest, rfl⟩ := hquote
          cases (State.step_closed hrest).symm.trans herror
        · have hflaw := State.step_flaw hrest hitems.stuck (not_exists.mp hquote)
          cases hflaw.symm.trans herror
          exact ⟨items, after, hitems, not_exists.mp hquote, rfl⟩
      · rintro ⟨items', after', hitems', hquote', rfl⟩
        rw [hitems'.split] at hrest
        exact State.step_flaw hrest hitems'.stuck hquote'
  · intro w hw
    obtain ⟨items, hcontents⟩ := exists_contents_eq hw
    refine ⟨String.ofList ('"' :: (spellAll items ++ ['"'])), fun file => ?_⟩
    have htokens := tokenize_string items file
    rwa [hcontents, String.ofList_toList] at htokens

/-- A string with an escaped letter, an escaped quote and an escaped line end. -/
def escapedQuote : State := ⟨[], ⟨"\"x\\n\\\"\\\n\" ;".toList, .first "s.cl"⟩⟩

/-- A string that breaks off at an escaped null character. -/
def escapedNul : State := ⟨[], ⟨['"', 'x', '\\', '\x00'], .first "s.cl"⟩⟩

theorem strings_follow_grammar_escaped :
    (∃ items : List StringItem, spellAll items = "x\\n\\\"\\\n".toList ∧
      String.ofList (items.map content) = "x\n\"\n") ∧
    (∃ (items : List StringItem) (after : List Char),
      LongestItems ['x', '\\', '\x00'] items after ∧ (∀ rest, after ≠ '"' :: rest) ∧
      (⟨.invalidStringCharacter "\\0", ⟨1, 4, "s.cl"⟩⟩ : Diagnostic) =
        flaw (.first "s.cl") ((Position.first "s.cl").after ('"' :: spellAll items)) after) ∧
    ∃ source : String, ∀ file, ∃ span,
      tokenize source file = .ok [⟨.string, "\"\\\n", span⟩, .endOfFile span.stop] := by
  obtain ⟨hstrings, hwritten⟩ := strings_follow_grammar
  refine ⟨?_, ?_, hwritten "\"\\\n" (by decide)⟩
  · have hstep : escapedQuote.step = .ok ⟨[⟨.string, "x\n\"\n", ⟨.first "s.cl", ⟨2, 2, "s.cl"⟩⟩⟩],
        ⟨[' ', ';'], ⟨2, 2, "s.cl"⟩⟩⟩ := rfl
    obtain ⟨items, after, stop, htext, -, hstate⟩ := ((hstrings escapedQuote _ rfl).1 _).mp hstep
    simp only [State.mk.injEq, List.cons.injEq, Token.mk.injEq, Cursor.mk.injEq] at hstate
    obtain ⟨⟨⟨-, hcontents, -⟩, -⟩, rfl, -⟩ := hstate
    exact ⟨items, (List.append_cancel_right htext).symm, hcontents.symm⟩
  · have hstep : escapedNul.step = .error ⟨.invalidStringCharacter "\\0", ⟨1, 4, "s.cl"⟩⟩ := rfl
    exact ((hstrings escapedNul _ rfl).2 _).mp hstep

end Lexer

end CoolLang
