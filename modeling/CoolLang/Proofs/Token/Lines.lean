import CoolLang.Proofs.Token.Partition

/-!
# Sources joined at a line end

A source whose text can be read to its end says nothing about the text of the lines below it. A line
end is no part of any token and ends every lexeme that could go on, so reading two sources joined by
it is reading the one and then the other, further down by as many lines as the first one has.
-/

namespace CoolLang

/-! ## Positions further down -/

/-- The same column, so many lines further down. -/
def Position.down (lines : Nat) (p : Position) : Position :=
  { p with line := p.line + UInt32.ofNat lines }

def Span.down (lines : Nat) (s : Span) : Span :=
  ⟨s.start.down lines, s.stop.down lines⟩

def Token.down (lines : Nat) (t : Token) : Token :=
  { t with span := t.span.down lines }

def Diagnostic.down (lines : Nat) (d : Diagnostic) : Diagnostic :=
  { d with position := d.position.down lines }

def Cursor.down (lines : Nat) (c : Cursor) : Cursor :=
  { c with position := c.position.down lines }

namespace Position

theorem next_down (lines : Nat) (p : Position) (c : Char) :
    (p.down lines).next c = (p.next c).down lines := by
  by_cases hc : c = '\n'
  · simp [next, down, hc, UInt32.add_assoc, UInt32.add_comm 1]
  · simp [next, down, hc]

theorem after_down (lines : Nat) (text : List Char) :
    ∀ p : Position, (p.down lines).after text = (p.after text).down lines := by
  induction text with
  | nil => intro p; rfl
  | cons c text ih =>
      intro p
      rw [after_cons, after_cons, next_down, ih]

/-- The line below a text starts in the first column. -/
theorem next_after_first (file : String) (text : List Char) :
    ((first file).after text).next '\n' = (first file).down (1 + text.count '\n') := by
  rw [next, if_pos rfl, line_after, file_after, down, first, UInt32.ofNat_add, UInt32.add_assoc,
    UInt32.add_comm _ 1]
  rfl

/-- Where lines can be counted, the number of a line grows by the lines above. -/
theorem toNat_line_down {file : String} {above text : List Char}
    (h : Countable (above ++ '\n' :: text)) :
    (((first file).after text).down (1 + above.count '\n')).line.toNat =
      ((first file).after text).line.toNat + (1 + above.count '\n') := by
  have htells : (behind file (above ++ '\n' :: text)).Tells (above ++ '\n' :: text) :=
    h.tells (List.prefix_refl _)
  have hline := htells.line
  have hsum : lineBehind (above ++ '\n' :: text) = lineBehind text + (1 + above.count '\n') := by
    simp only [lineBehind, List.count_append, List.count_cons_self]
    omega
  have hlt := (behind file (above ++ '\n' :: text)).line.toNat_lt_size
  have htext : ((first file).after text).line.toNat = lineBehind text := by
    rw [after_first]
    exact UInt32.toNat_ofNat_of_lt' (by omega)
  rw [htext, ← hsum, ← hline, ← after_down, ← next_after_first, ← after_cons, ← after_append,
    after_first]

end Position

theorem Cursor.drop_down (lines n : Nat) (c : Cursor) :
    (c.down lines).drop n = (c.drop n).down lines := by
  simp only [drop, down, Position.after_down]

theorem Cursor.after_drop (n : Nat) (c : Cursor) :
    (c.drop n).position.after (c.drop n).rest = c.position.after c.rest := by
  rw [drop, ← Position.after_append, List.take_append_drop]

theorem Cursor.drop_append {n : Nat} {text : List Char} (hn : n ≤ text.length) (p : Position)
    (after : List Char) : (⟨text ++ after, p⟩ : Cursor).drop n =
      ⟨text.drop n ++ after, p.after (text.take n)⟩ := by
  simp only [drop, List.take_append_of_le_length hn, List.drop_append_of_le_length hn]

/-- The position is one that the cursor comes by on its way to the end. -/
def Cursor.Covers (c : Cursor) (p : Position) : Prop :=
  ∃ text, text <+: c.rest ∧ p = c.position.after text

namespace Cursor.Covers

theorem start (c : Cursor) : c.Covers c.position :=
  ⟨[], List.nil_prefix, rfl⟩

theorem of_drop {c : Cursor} {n : Nat} {p : Position} (h : (c.drop n).Covers p) : c.Covers p := by
  obtain ⟨text, htext, rfl⟩ := h
  refine ⟨c.rest.take n ++ text, ?_, (Position.after_append _ _ _).symm⟩
  have hall := (List.prefix_append_right_inj (c.rest.take n)).mpr htext
  rwa [drop, List.take_append_drop] at hall

theorem drop (c : Cursor) (n : Nat) : c.Covers (c.drop n).position :=
  (start (c.drop n)).of_drop

end Cursor.Covers

namespace Lexer

/-- What was read, with every position so many lines further down. -/
def lowered (lines : Nat) : Except Diagnostic (List Token) → Except Diagnostic (List Token)
  | .ok tokens => .ok (tokens.map (Token.down lines))
  | .error d => .error (d.down lines)

/-! ## What is read does not depend on where it stands -/

theorem number_down (lines : Nat) (c : Cursor) :
    number (c.down lines) = (number c).mapError (Diagnostic.down lines) := by
  cases hsome : (Text.int64? (c.rest.takeWhile Text.isDigit)).isSome <;>
    simp [number, Cursor.down, hsome, Except.mapError, Diagnostic.down]

theorem quoted_down (lines : Nat) (c : Cursor) (text : List Char) :
    quoted (c.down lines) text = (quoted c text).mapError (Diagnostic.down lines) := by
  unfold quoted
  cases literal text with
  | closed content n => rfl
  | unterminated => rfl
  | nul offset =>
      simp only [Cursor.drop_down]
      rfl

/-- The position of a lexeme shows in complaints only. -/
theorem lexeme_down (lines : Nat) (c : Cursor) :
    lexeme (c.down lines) = (lexeme c).mapError (Diagnostic.down lines) := by
  obtain ⟨text, p⟩ := c
  have hnumber := number_down lines ⟨text, p⟩
  have hquoted := quoted_down lines ⟨text, p⟩
  simp only [Cursor.down] at hnumber hquoted ⊢
  unfold lexeme
  dsimp only
  split
  · rfl
  · rfl
  · split <;> rfl
  · rfl
  · exact hquoted _
  · split
    · rfl
    · split
      · exact hnumber
      · split
        · rfl
        · split <;> rfl

theorem Scans.down {c : Cursor} {r : Except Diagnostic (List Token)} (lines : Nat)
    (hr : Scans c r) : Scans (c.down lines) (lowered lines r) := by
  have hlex : ∀ {c : Cursor} {l : Lexeme}, lexeme c = .ok l → lexeme (c.down lines) = .ok l := by
    intro c l hl
    rw [lexeme_down, hl]
    rfl
  induction hr with
  | atEnd position => exact .atEnd (position.down lines)
  | @refuse c d hne herror =>
      refine .refuse hne ?_
      rw [lexeme_down, herror]
      rfl
  | gap hne hl _ ih =>
      rw [← Cursor.drop_down] at ih
      exact .gap hne (hlex hl) ih
  | @token c kind text n r hne hl _ ih =>
      rw [← Cursor.drop_down] at ih
      have htoken := Scans.token (c := c.down lines) hne (hlex hl) ih
      rw [Cursor.drop_down] at htoken
      cases r <;> exact htoken

/-- There is one way to read a text. -/
theorem Scans.unique {c : Cursor} {r r' : Except Diagnostic (List Token)} (hr : Scans c r)
    (hr' : Scans c r') : r = r' := by
  induction hr generalizing r' with
  | atEnd position =>
      cases hr' with
      | atEnd => rfl
      | refuse hne | gap hne | token hne => exact absurd rfl hne
  | refuse hne hlex =>
      cases hr' with
      | atEnd => exact absurd rfl hne
      | refuse _ hlex' => rw [hlex] at hlex'; cases hlex'; rfl
      | gap _ hlex' | token _ hlex' => rw [hlex] at hlex'; cases hlex'
  | gap hne hlex _ ih =>
      cases hr' with
      | atEnd => exact absurd rfl hne
      | refuse _ hlex' | token _ hlex' => rw [hlex] at hlex'; cases hlex'
      | gap _ hlex' hrest => rw [hlex] at hlex'; cases hlex'; exact ih hrest
  | token hne hlex _ ih =>
      cases hr' with
      | atEnd => exact absurd rfl hne
      | refuse _ hlex' | gap _ hlex' => rw [hlex] at hlex'; cases hlex'
      | token _ hlex' hrest => rw [hlex] at hlex'; cases hlex'; rw [ih hrest]

/-! ## Where what is read stands -/

theorem covers_of_lexeme_error {c : Cursor} {d : Diagnostic} (hlex : lexeme c = .error d) :
    c.Covers d.position := by
  have hstart := Cursor.Covers.start c
  unfold lexeme number quoted at hlex
  split at hlex
  · cases hlex
  · cases hlex
  · split at hlex <;> cases hlex
    exact hstart
  · cases hlex
    exact hstart
  · split at hlex <;> cases hlex
    · exact hstart
    · exact .drop c _
  · split at hlex
    · cases hlex
    · split at hlex
      · dsimp only at hlex
        split at hlex <;> cases hlex
        exact hstart
      · split at hlex
        · cases hlex
        · split at hlex <;> cases hlex
          exact hstart

theorem Scans.covers {c : Cursor} {r : Except Diagnostic (List Token)} (hr : Scans c r) :
    (∀ tokens, r = .ok tokens → ∀ t ∈ tokens, c.Covers t.span.start ∧ c.Covers t.span.stop) ∧
    ∀ d, r = .error d → c.Covers d.position := by
  induction hr with
  | atEnd position =>
      refine ⟨fun tokens hok t ht => ?_, fun d herror => by cases herror⟩
      cases hok
      cases List.mem_singleton.mp ht
      exact ⟨.start _, .start _⟩
  | refuse hne hlex =>
      refine ⟨fun tokens hok => (by cases hok), fun d herror => ?_⟩
      cases herror
      exact covers_of_lexeme_error hlex
  | gap hne hlex hr ih =>
      refine ⟨fun tokens hok t ht => ?_, fun d herror => (ih.2 d herror).of_drop⟩
      obtain ⟨hstart, hstop⟩ := ih.1 tokens hok t ht
      exact ⟨hstart.of_drop, hstop.of_drop⟩
  | @token c kind text n r hne hlex hr ih =>
      cases r with
      | error d =>
          refine ⟨fun tokens hok => (by cases hok), fun d' herror => ?_⟩
          cases herror
          exact (ih.2 d rfl).of_drop
      | ok tokens =>
          refine ⟨fun tokens' hok t ht => ?_, fun d herror => by cases herror⟩
          cases hok
          rcases List.mem_cons.mp ht with rfl | ht
          · exact ⟨.start c, .drop c n⟩
          · obtain ⟨hstart, hstop⟩ := ih.1 tokens rfl t ht
            exact ⟨hstart.of_drop, hstop.of_drop⟩

/-! ## Lexemes above a line end -/

section

variable {text more : List Char}

theorem takeWhile_append_line {p : Char → Bool} (hp : p '\n' = false) :
    (text ++ '\n' :: more).takeWhile p = text.takeWhile p := by
  induction text with
  | nil => simp [hp]
  | cons c text ih => simp only [List.cons_append, List.takeWhile_cons, ih]

/-- A character other than the line end belongs to the text above it. -/
theorem eq_cons_of_append_line {c : Char} {rest : List Char} (hc : c ≠ '\n')
    (heq : text ++ '\n' :: more = c :: rest) : ∃ above, text = c :: above := by
  cases text with
  | nil =>
      rw [List.nil_append, List.cons.injEq] at heq
      exact absurd heq.1.symm hc
  | cons d above =>
      rw [List.cons_append, List.cons.injEq] at heq
      exact ⟨above, by rw [heq.1]⟩

theorem startsMark_append_line {c : Char} (hc : startsMark (c :: text) = false) :
    startsMark (c :: (text ++ '\n' :: more)) = false := by
  cases text with
  | nil => simp [startsMark]
  | cons d text => rwa [startsMark_cons_append (by simp)]

theorem commentLength?_go_append_line {depth : Int32} {k n : Nat}
    (hgo : commentLength?.go depth k text = some n) :
    commentLength?.go depth k (text ++ '\n' :: more) = some n := by
  fun_induction commentLength?.go depth k text with
  | case1 => cases hgo
  | case2 depth k hpos rest ih =>
      rw [List.cons_append, List.cons_append, commentLength?_go_open hpos]
      exact ih hgo
  | case3 depth k hpos rest ih =>
      rw [List.cons_append, List.cons_append, commentLength?_go_close hpos]
      exact ih hgo
  | case4 depth k hpos c rest hopen hclose ih =>
      have hmark : startsMark (c :: (rest ++ '\n' :: more)) = false :=
        startsMark_append_line (startsMark_eq_false hopen hclose)
      rw [List.cons_append, commentLength?_go_char hpos hmark]
      exact ih hgo
  | case5 text depth k hdepth =>
      rw [commentLength?_go_closed hdepth]
      exact hgo

theorem commentLength?_append_line {n : Nat} (hlength : commentLength? text = some n) :
    commentLength? (text ++ '\n' :: more) = some n :=
  commentLength?_go_append_line hlength

theorem literal_append_line {content : List Char} {n : Nat}
    (hclosed : literal text = .closed content n) :
    literal (text ++ '\n' :: more) = .closed content n := by
  obtain ⟨tail, after, rfl, rfl, htail⟩ := literal_eq_closed hclosed
  rw [List.append_assoc, htail.literal_append]

theorem quoted_append_line {c c' : Cursor} {l : Lexeme} (hquoted : quoted c text = .ok l) :
    quoted c' (text ++ '\n' :: more) = .ok l := by
  unfold quoted at hquoted ⊢
  cases hliteral : literal text with
  | closed content n =>
      rw [hliteral] at hquoted
      rw [literal_append_line hliteral]
      exact hquoted
  | unterminated | nul =>
      rw [hliteral] at hquoted
      cases hquoted

theorem number_append_line {p : Position} :
    number ⟨text ++ '\n' :: more, p⟩ = number ⟨text, p⟩ := by
  have hdigits : (text ++ '\n' :: more).takeWhile Text.isDigit = text.takeWhile Text.isDigit :=
    takeWhile_append_line (by decide)
  simp only [number, hdigits]

/-- A mark at the end of a line is no longer than it is by itself. -/
theorem symbol?_append_line {kind : TokenKind} {n : Nat}
    (hsymbol : symbol? text = some (kind, n)) :
    symbol? (text ++ '\n' :: more) = some (kind, n) := by
  unfold symbol? at hsymbol
  split at hsymbol
  case h_3 rest hminus hequals =>
    rw [List.cons_append, symbol?]
    · exact hsymbol
    · intro after heq
      obtain ⟨above, rfl⟩ := eq_cons_of_append_line (by decide) heq
      exact hminus above rfl
    · intro after heq
      obtain ⟨above, rfl⟩ := eq_cons_of_append_line (by decide) heq
      exact hequals above rfl
  case h_5 rest hgreater =>
    rw [List.cons_append, symbol?]
    · exact hsymbol
    · intro after heq
      obtain ⟨above, rfl⟩ := eq_cons_of_append_line (by decide) heq
      exact hgreater above rfl
  case h_20 => cases hsymbol
  all_goals exact hsymbol

/-- A text starts with neither a space nor a quote nor a mark of comments. -/
structure Plain (x : Char) (rest : List Char) : Prop where
  space : isSpace x = false
  quote : x ≠ '"'
  mark : (x :: rest).take 2 ∉ [['-', '-'], ['(', '*'], ['*', ')']]

/-- The number, word or symbol at the head of a text that starts with `x`. -/
def plainLexeme (c : Cursor) (x : Char) : Except Diagnostic Lexeme :=
  if Text.isDigit x then number c
  else if isWordStart x then
    let word := c.rest.takeWhile isWordPart
    .ok (.token (wordKind word) (String.ofList word) word.length)
  else
    match symbol? c.rest with
    | some (kind, n) => .ok (.token kind (String.ofList (c.rest.take n)) n)
    | none => .error ⟨.unrecognisedToken (String.singleton x), c.position⟩

variable {x : Char} {rest : List Char} {p : Position}

theorem Plain.lexeme_eq (hplain : Plain x rest) :
    lexeme ⟨x :: rest, p⟩ = plainLexeme ⟨x :: rest, p⟩ x := by
  have hmark := hplain.mark
  unfold lexeme
  dsimp only
  split
  · rename_i heq
    cases heq
  · rename_i heq
    simp [heq] at hmark
  · rename_i heq
    simp [heq] at hmark
  · rename_i heq
    simp [heq] at hmark
  · rename_i heq
    exact absurd (List.cons.inj heq).1 hplain.quote
  · rename_i heq
    cases heq
    rw [if_neg (by simp [hplain.space])]
    rfl

/-- A mark of two characters does not reach over the end of a line. -/
theorem Plain.append_line (hplain : Plain x rest) : Plain x (rest ++ '\n' :: more) := by
  refine ⟨hplain.space, hplain.quote, ?_⟩
  cases rest with
  | nil => simp
  | cons y rest => simpa using hplain.mark

theorem plainLexeme_append_line {l : Lexeme} (hok : plainLexeme ⟨text, p⟩ x = .ok l) :
    plainLexeme ⟨text ++ '\n' :: more, p⟩ x = .ok l := by
  have hword : (text ++ '\n' :: more).takeWhile isWordPart = text.takeWhile isWordPart :=
    takeWhile_append_line (by decide)
  unfold plainLexeme at hok ⊢
  rw [number_append_line]
  dsimp only at hok ⊢
  rw [hword]
  by_cases hdigit : Text.isDigit x = true
  · rwa [if_pos hdigit] at hok ⊢
  · by_cases hstart : isWordStart x = true
    · rwa [if_neg hdigit, if_pos hstart] at hok ⊢
    · rw [if_neg hdigit, if_neg hstart] at hok ⊢
      cases hsymbol : symbol? text with
      | none =>
          rw [hsymbol] at hok
          cases hok
      | some found =>
          obtain ⟨kind, n⟩ := found
          rw [hsymbol] at hok
          rw [symbol?_append_line hsymbol]
          dsimp only
          rw [List.take_append_of_le_length (symbol?_eq_some hsymbol).2.2.1]
          exact hok

/-- A lexeme above a line end is what it is without the lines below, but for a run of spaces, which
may go on there. -/
theorem lexeme_append_line {l : Lexeme} (hne : text ≠ []) (hok : lexeme ⟨text, p⟩ = .ok l) :
    (∃ n, l = .gap n ∧ ∀ c ∈ text.take n, isSpace c = true) ∨
      lexeme ⟨text ++ '\n' :: more, p⟩ = .ok l := by
  have hok' := hok
  unfold lexeme at hok
  dsimp only at hok
  split at hok
  · exact absurd rfl hne
  · rename_i rest
    right
    have hline : (rest ++ '\n' :: more).takeWhile (· != '\n') = rest.takeWhile (· != '\n') :=
      takeWhile_append_line (by decide)
    simp only [lexeme, List.cons_append, hline]
    exact hok
  · rename_i rest
    right
    cases hlength : commentLength? rest with
    | none =>
        rw [hlength] at hok
        cases hok
    | some n =>
        rw [hlength] at hok
        simp only [lexeme, List.cons_append, commentLength?_append_line hlength]
        exact hok
  · cases hok
  · right
    simp only [lexeme, List.cons_append]
    exact quoted_append_line hok
  · rename_i x rest hdash hparen hstar hquote
    cases hspace : isSpace x with
    | true =>
        left
        rw [if_pos hspace] at hok
        cases hok
        refine ⟨_, rfl, fun c hc => ?_⟩
        rw [← List.prefix_iff_eq_take.mp (List.takeWhile_prefix isSpace)] at hc
        exact List.all_eq_true.mp List.all_takeWhile c hc
    | false =>
        right
        have hplain : Plain x rest := by
          refine ⟨hspace, hquote, ?_⟩
          cases rest <;> simp_all
        rw [hplain.lexeme_eq] at hok'
        rw [List.cons_append, hplain.append_line.lexeme_eq]
        exact plainLexeme_append_line hok'

end

/-! ## Runs of lexemes -/

theorem lexeme_space {c : Char} {text : List Char} {p : Position} (hc : isSpace c = true) :
    lexeme ⟨c :: text, p⟩ = .ok (.gap ((c :: text).takeWhile isSpace).length) := by
  unfold lexeme
  dsimp only
  split
  case h_1 heq => cases heq
  case h_6 heq =>
    cases heq
    rw [if_pos hc]
  all_goals
    rename_i heq
    cases heq
    cases hc

/-- A space at the head of a text may be passed over by itself. -/
theorem Scans.space {c : Char} {text : List Char} {p : Position}
    {r : Except Diagnostic (List Token)} (hc : isSpace c = true)
    (hr : Scans ⟨text, p.next c⟩ r) : Scans ⟨c :: text, p⟩ r := by
  refine .gap (by simp) (lexeme_space hc) ?_
  rw [List.takeWhile_cons_of_pos hc, List.length_cons]
  cases text with
  | nil => exact hr
  | cons d text =>
      by_cases hd : isSpace d = true
      · -- the run of spaces that starts behind this one is the rest of the run
        have hlex : lexeme ⟨d :: text, p.next c⟩ = .ok _ := lexeme_space hd
        cases hr with
        | gap _ hlex' hrest =>
            rw [hlex] at hlex'
            cases hlex'
            exact hrest
        | refuse _ hlex' | token _ hlex' =>
            rw [hlex] at hlex'
            cases hlex'
      · rw [List.takeWhile_cons_of_neg hd]
        exact hr

theorem Scans.spaces {spaces text : List Char} {r : Except Diagnostic (List Token)}
    (hspaces : ∀ c ∈ spaces, isSpace c = true) {p : Position}
    (hr : Scans ⟨text, p.after spaces⟩ r) : Scans ⟨spaces ++ text, p⟩ r := by
  induction spaces generalizing p with
  | nil => exact hr
  | cons c spaces ih =>
      rw [List.forall_mem_cons] at hspaces
      exact .space hspaces.1 (ih hspaces.2 hr)

/-- What was read to its end closes with the end-of-file mark. Behind a line end the reading goes
on with the text below it. -/
theorem Scans.append_line {c : Cursor} {r : Except Diagnostic (List Token)} (hr : Scans c r)
    {tokens : List Token} (hok : r = .ok tokens) :
    ∃ above, tokens = above ++ [.endOfFile (c.position.after c.rest)] ∧
      ∀ {more : List Char} {r' : Except Diagnostic (List Token)},
        Scans ⟨more, (c.position.after c.rest).next '\n'⟩ r' →
          Scans ⟨c.rest ++ '\n' :: more, c.position⟩ (r'.map (above ++ ·)) := by
  induction hr generalizing tokens with
  | atEnd position =>
      cases hok
      refine ⟨[], rfl, fun {more r'} hmore => ?_⟩
      have hsame : r'.map ([] ++ ·) = r' := by cases r' <;> rfl
      rw [hsame]
      exact .space (by decide) hmore
  | refuse => cases hok
  | @gap c n r hne hlex _ ih =>
      obtain ⟨above, htokens, hbelow⟩ := ih hok
      rw [Cursor.after_drop] at htokens hbelow
      refine ⟨above, htokens, fun {more r'} hmore => ?_⟩
      have hrest := hbelow hmore
      have hn : n ≤ c.rest.length := (lexeme_eq_ok hne hlex).bounds.2
      rcases lexeme_append_line hne hlex with ⟨m, hm, hspaces⟩ | hlex'
      · cases hm
        have hall := Scans.spaces hspaces hrest
        rwa [Cursor.drop, ← List.append_assoc, List.take_append_drop] at hall
      · refine .gap (by simp) hlex' ?_
        rw [Cursor.drop_append hn]
        exact hrest
  | @token c kind text n r hne hlex _ ih =>
      cases r with
      | error d => cases hok
      | ok tokens' =>
          cases hok
          obtain ⟨above, rfl, hbelow⟩ := ih rfl
          rw [Cursor.after_drop] at hbelow ⊢
          refine ⟨_ :: above, rfl, fun {more r'} hmore => ?_⟩
          have hrest := hbelow hmore
          have hn : n ≤ c.rest.length := (lexeme_eq_ok hne hlex).bounds.2
          rcases lexeme_append_line hne hlex with ⟨m, hm, -⟩ | hlex'
          · cases hm
          · have htoken := Scans.token (by simp) hlex' (by rw [Cursor.drop_append hn]; exact hrest)
            rw [Cursor.drop_append hn] at htoken
            cases r' <;> exact htoken

end Lexer

/-- **Sources can be read line by line.** Where a source can be read, its tokens end with the
end-of-file mark. Joined to a second source at a line end, it can be read if the second one can: the
tokens are those of the first source without the mark, then those of the second in the same columns,
further down by the lines of the first. If the second source cannot be read, neither can the whole,
for the same cause at the same place further down. Further down is meant in the 32 bits of a line
number; where the lines and columns of the whole can be counted so, as those of fewer than
`2 ^ 32 - 1` characters can, every line number grows by the lines of the first source. -/
theorem tokenize_append_line (source below file : String) (tokens : List Token)
    (htokens : tokenize source file = .ok tokens) :
    ∃ above stop, tokens = above ++ [.endOfFile stop] ∧
      (∀ more, tokenize below file = .ok more →
        tokenize (source ++ "\n" ++ below) file =
          .ok (above ++ more.map (Token.down (1 + source.toList.count '\n')))) ∧
      (∀ d, tokenize below file = .error d →
        tokenize (source ++ "\n" ++ below) file =
          .error (d.down (1 + source.toList.count '\n'))) ∧
      (Position.Countable (source ++ "\n" ++ below).toList →
        (∀ more, tokenize below file = .ok more → ∀ t ∈ more,
          (t.down (1 + source.toList.count '\n')).span.start.line.toNat =
            t.span.start.line.toNat + (1 + source.toList.count '\n') ∧
          (t.down (1 + source.toList.count '\n')).span.stop.line.toNat =
            t.span.stop.line.toNat + (1 + source.toList.count '\n')) ∧
        ∀ d, tokenize below file = .error d →
          (d.down (1 + source.toList.count '\n')).position.line.toNat =
            d.position.line.toNat + (1 + source.toList.count '\n')) := by
  obtain ⟨above, habove, hjoin⟩ := (Lexer.scans_tokenize source file).append_line htokens
  have hplace : ((Cursor.ofSource source file).position.after
      (Cursor.ofSource source file).rest).next '\n' =
        (Position.first file).down (1 + source.toList.count '\n') :=
    Position.next_after_first file source.toList
  rw [hplace] at hjoin
  have hbelow := (Lexer.scans_tokenize below file).down (1 + source.toList.count '\n')
  have hcursor : Cursor.ofSource (source ++ "\n" ++ below) file =
      ⟨source.toList ++ '\n' :: below.toList, .first file⟩ := by
    simp [Cursor.ofSource]
  have hwhole := Lexer.scans_tokenize (source ++ "\n" ++ below) file
  rw [hcursor] at hwhole
  have heq := hwhole.unique (hjoin hbelow)
  have hcovers := (Lexer.scans_tokenize below file).covers
  have hexact (hcounts : Position.Countable (source ++ "\n" ++ below).toList)
      (p : Position) (hp : (Cursor.ofSource below file).Covers p) :
      (p.down (1 + source.toList.count '\n')).line.toNat =
        p.line.toNat + (1 + source.toList.count '\n') := by
    obtain ⟨text, htext, rfl⟩ := hp
    refine Position.toNat_line_down (hcounts.of_initial ?_)
    simpa [Cursor.ofSource] using htext
  refine ⟨above, _, habove, fun more hmore => ?_, fun d hd => ?_, fun hcounts => ⟨?_, ?_⟩⟩
  · rw [heq, hmore]
    rfl
  · rw [heq, hd]
    rfl
  · intro more hmore t ht
    obtain ⟨hstart, hstop⟩ := hcovers.1 more hmore t ht
    exact ⟨hexact hcounts _ hstart, hexact hcounts _ hstop⟩
  · exact fun d hd => hexact hcounts _ (hcovers.2 d hd)

/-- A mark and a comment stand at the end of the first source; the second one starts with spaces, or
with a string that is not closed. -/
theorem tokenize_append_line_seam :
    ∃ above stop, tokenize "x\n-(* 1\n*)< --y" "m.cl" = .ok (above ++ [.endOfFile stop]) ∧
      (∃ more, tokenize " - z" "m.cl" = .ok more ∧
        tokenize ("x\n-(* 1\n*)< --y" ++ "\n" ++ " - z") "m.cl" =
          .ok (above ++ more.map (Token.down 3)) ∧
        ∀ t ∈ more, (t.down 3).span.start.line.toNat = t.span.start.line.toNat + 3 ∧
          (t.down 3).span.stop.line.toNat = t.span.stop.line.toNat + 3) ∧
      ∃ d, tokenize "z \"" "m.cl" = .error d ∧
        tokenize ("x\n-(* 1\n*)< --y" ++ "\n" ++ "z \"") "m.cl" = .error (d.down 3) ∧
        (d.down 3).position.line.toNat = d.position.line.toNat + 3 := by
  have hok : (tokenize "x\n-(* 1\n*)< --y" "m.cl").isOk = true := by decide +kernel
  have hbelow : (tokenize " - z" "m.cl").isOk = true := by decide +kernel
  have hbad : (tokenize "z \"" "m.cl").isOk = false := by decide +kernel
  cases hsource : tokenize "x\n-(* 1\n*)< --y" "m.cl" with
  | error d =>
      rw [hsource] at hok
      cases hok
  | ok tokens =>
      obtain ⟨above, stop, rfl, hgood, -, hgrows⟩ :=
        tokenize_append_line _ " - z" "m.cl" _ hsource
      obtain ⟨above', stop', heq, -, herror, hgrows'⟩ :=
        tokenize_append_line _ "z \"" "m.cl" _ hsource
      refine ⟨above, stop, rfl, ?_, ?_⟩
      · cases hmore : tokenize " - z" "m.cl" with
        | error d =>
            rw [hmore] at hbelow
            cases hbelow
        | ok more =>
            have hcounts := (hgrows (Position.countable_of_length_lt (by decide))).1
            exact ⟨more, rfl, hgood more hmore, hcounts more hmore⟩
      · cases hd : tokenize "z \"" "m.cl" with
        | ok more =>
            rw [hd] at hbad
            cases hbad
        | error d =>
            have hcounts := (hgrows' (Position.countable_of_length_lt (by decide))).2
            exact ⟨d, rfl, herror d hd, hcounts d hd⟩

end CoolLang
