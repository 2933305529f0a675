import CoolLang.Token.Lexer
import Mathlib.Data.List.Nodup

/-!
# The lexical grammar

What a gap between tokens is, how tokens are spelled and which spellings are as long as they can be,
said without a word on how a text is read. The function that reads the lexeme at the head of a text
is then compared with this.
-/

namespace CoolLang.Lexer

/-! ## Comments and gaps -/

/-- Whether a mark that opens or closes comments stands at the head of the text. -/
def startsMark (text : List Char) : Bool :=
  text.take 2 == ['(', '*'] || text.take 2 == ['*', ')']

/-- What follows the mark that opens a comment, up to the mark that closes it: whole comments, and
characters at which no mark starts. -/
inductive CommentTail : List Char → Prop where
  | close : CommentTail ['*', ')']
  | char {c : Char} {tail : List Char} (hc : startsMark (c :: tail) = false)
      (htail : CommentTail tail) : CommentTail (c :: tail)
  | comment {inner tail : List Char} (hinner : CommentTail inner) (htail : CommentTail tail) :
      CommentTail ('(' :: '*' :: (inner ++ tail))

/-- A gap is made of white space, of comments up to the end of their line, and of comments between
marks. What comes `after` the gap matters, for the end of the line may be there. -/
inductive Gap (after : List Char) : List Char → Prop where
  | nil : Gap after []
  | space {c : Char} {gap : List Char} (hc : isSpace c = true) (hgap : Gap after gap) :
      Gap after (c :: gap)
  | line {text gap : List Char} (htext : '\n' ∉ text)
      (hend : ∀ c ∈ (gap ++ after).head?, c = '\n') (hgap : Gap after gap) :
      Gap after ('-' :: '-' :: (text ++ gap))
  | comment {tail gap : List Char} (htail : CommentTail tail) (hgap : Gap after gap) :
      Gap after ('(' :: '*' :: (tail ++ gap))

/-! ## Spellings of tokens -/

/-- What a string with some content is spelled like behind its opening quote. -/
inductive LiteralTail : List Char → List Char → Prop where
  | close : LiteralTail [] ['"']
  | plain {c : Char} {content tail : List Char}
      (hc : c ≠ '"' ∧ c ≠ '\\' ∧ c ≠ '\n' ∧ c ≠ '\x00') (htail : LiteralTail content tail) :
      LiteralTail (c :: content) (c :: tail)
  | escaped {c : Char} {content tail : List Char} (hc : c ≠ '\x00')
      (htail : LiteralTail content tail) :
      LiteralTail (unescape c :: content) ('\\' :: c :: tail)

/-- A word names the keyword that it spells in either case. Truth values start with a small letter;
other words are types or objects by their first letter. -/
inductive WordKind (word : List Char) : TokenKind → Prop where
  | keyword {kind : TokenKind}
      (hkind : (String.ofList (word.map Char.toLower), kind) ∈ TokenKind.keywords)
      (hplain : kind ≠ .trueKw ∧ kind ≠ .falseKw) : WordKind word kind
  | truth {kind : TokenKind}
      (hkind : (String.ofList (word.map Char.toLower), kind) ∈ TokenKind.keywords)
      (htruth : kind = .trueKw ∨ kind = .falseKw) (hlower : word.head?.any isLower = true) :
      WordKind word kind
  | objectName
      (hfree : ∀ kind, (String.ofList (word.map Char.toLower), kind) ∉ TokenKind.keywords)
      (hlower : word.head?.any isLower = true) : WordKind word .objectIdentifier
  | typeName
      (hfree : ∀ kind, (String.ofList (word.map Char.toLower), kind) ∈ TokenKind.keywords →
        kind = .trueKw ∨ kind = .falseKw)
      (hupper : word.head?.any isLower = false) : WordKind word .typeIdentifier

/-- Operators and punctuation marks. -/
def symbols : List (List Char × TokenKind) :=
  [(['<', '-'], .assign), (['<', '='], .lessEquals), (['<'], .less), (['=', '>'], .darrow),
   (['='], .equals), (['\x7b'], .openCurly), (['\x7d'], .closeCurly), (['('], .openParen),
   ([')'], .closeParen), (['.'], .dot), (['@'], .atSign), ([';'], .semicolon), ([':'], .colon),
   ([','], .comma), (['+'], .plus), (['-'], .dash), (['*'], .star), (['/'], .slash),
   (['~'], .tilde)]

/-- The token of a kind and with a text that a lexeme spells. -/
inductive Spells : List Char → TokenKind → String → Prop where
  | integer {digits : List Char} (hne : digits ≠ [])
      (hdigits : ∀ c ∈ digits, Text.isDigit c = true)
      (hrange : Text.digitsValue digits < Nat.pow 2 63) :
      Spells digits .integer (String.ofList digits)
  | word {c : Char} {cs : List Char} {kind : TokenKind} (hc : isWordStart c = true)
      (hcs : ∀ d ∈ cs, isWordPart d = true) (hkind : WordKind (c :: cs) kind) :
      Spells (c :: cs) kind (String.ofList (c :: cs))
  | string {content tail : List Char} (htail : LiteralTail content tail) :
      Spells ('"' :: tail) .string (String.ofList content)
  | mark {text : List Char} {kind : TokenKind} (hsymbol : (text, kind) ∈ symbols) :
      Spells text kind (String.ofList text)

/-- The characters that turn an operator or a punctuation mark into something else. -/
def extensions : List (List Char × Char) :=
  [(['<'], '-'), (['<'], '='), (['='], '>'), (['('], '*'), (['-'], '-'), (['*'], ')')]

/-- What comes `after` a lexeme does not make it longer. -/
structure Maximal (lexeme after : List Char) : Prop where
  number : ∀ d ∈ lexeme.head?, Text.isDigit d = true → ∀ c ∈ after.head?, Text.isDigit c = false
  word : ∀ d ∈ lexeme.head?, isWordStart d = true → ∀ c ∈ after.head?, isWordPart c = false
  mark : ∀ c ∈ after.head?, (lexeme, c) ∉ extensions

/-! ## Reading comments -/

theorem CommentTail.ne_nil {tail : List Char} (htail : CommentTail tail) : tail ≠ [] := by
  cases htail <;> simp

/-- One character more than the first shows whether a mark starts. -/
theorem startsMark_cons_append {c : Char} {text : List Char} (htext : text ≠ [])
    (after : List Char) : startsMark (c :: (text ++ after)) = startsMark (c :: text) := by
  cases text with
  | nil => exact absurd rfl htext
  | cons d text => simp [startsMark]

theorem startsMark_eq_false {c : Char} {text : List Char}
    (hopen : ∀ rest, c = '(' → text = '*' :: rest → False)
    (hclose : ∀ rest, c = '*' → text = ')' :: rest → False) : startsMark (c :: text) = false := by
  cases text with
  | nil => simp [startsMark]
  | cons d text =>
      simp only [startsMark, List.take_succ_cons, List.take_zero, Bool.or_eq_false_iff,
        beq_eq_false_iff_ne, ne_eq, List.cons.injEq, and_true]
      refine ⟨fun h => hopen text h.1 (by rw [h.2]), fun h => hclose text h.1 (by rw [h.2])⟩

/-! ### How many comments are open -/

/-- With `depth` comments open at the head of the text, no more of them than can be counted are open
at once until the outermost is closed. -/
def Nests (depth : Int32) (text : List Char) : Prop :=
  if 0 < depth then
    match text with
    | [] => True
    | '(' :: '*' :: rest => depth < Int32.maxValue ∧ Nests (depth + 1) rest
    | '*' :: ')' :: rest => Nests (depth - 1) rest
    | _ :: rest => Nests depth rest
  else True

/-- From every mark in the text that opens a comment on, the comments can be counted. -/
def CommentsNest (text : List Char) : Prop :=
  ∀ rest, '(' :: '*' :: rest <:+ text → Nests 1 rest

theorem CommentsNest.of_suffix {text text' : List Char} (h : CommentsNest text)
    (hsuffix : text' <:+ text) : CommentsNest text' :=
  fun rest hrest => h rest (hrest.trans hsuffix)

section Depth

variable {depth : Int32}

theorem toInt_pos : 0 < depth ↔ 0 < depth.toInt := by
  rw [Int32.lt_iff_toInt_lt, Int32.toInt_zero]

theorem toInt_succ (h : depth < Int32.maxValue) (hpos : 0 < depth) :
    (depth + 1).toInt = depth.toInt + 1 := by
  rw [Int32.lt_iff_toInt_lt, Int32.toInt_maxValue] at h
  rw [toInt_pos] at hpos
  rw [Int32.toInt_add, Int32.toInt_one, Int.bmod_eq_of_le]
  · omega
  · omega

theorem toInt_pred (hpos : 0 < depth) : (depth - 1).toInt = depth.toInt - 1 := by
  have hlt := depth.toInt_lt
  rw [toInt_pos] at hpos
  rw [Int32.toInt_sub, Int32.toInt_one, Int.bmod_eq_of_le]
  · omega
  · omega

theorem nests_open {rest : List Char} (hpos : 0 < depth) :
    Nests depth ('(' :: '*' :: rest) ↔ depth < Int32.maxValue ∧ Nests (depth + 1) rest := by
  rw [Nests, if_pos hpos]

theorem nests_close {rest : List Char} (hpos : 0 < depth) :
    Nests depth ('*' :: ')' :: rest) ↔ Nests (depth - 1) rest := by
  rw [Nests, if_pos hpos]

theorem nests_char {c : Char} {rest : List Char} (hpos : 0 < depth)
    (hc : startsMark (c :: rest) = false) : Nests depth (c :: rest) ↔ Nests depth rest := by
  rw [Nests, if_pos hpos]
  · rintro rest rfl rfl
    simp [startsMark] at hc
  · rintro rest rfl rfl
    simp [startsMark] at hc

/-- Two characters open a comment, so a text without room for enough of them nests. -/
theorem nests_of_length_lt {text : List Char}
    (h : 2 * depth.toInt + text.length < UInt32.size) : Nests depth text := by
  have hsize : (UInt32.size : Int) = 2 * (2 ^ 31) := rfl
  fun_induction Nests depth text with
  | case1 | case5 => trivial
  | case2 depth hpos rest ih =>
      rw [List.length_cons, List.length_cons] at h
      have hlt : depth < Int32.maxValue := by
        rw [Int32.lt_iff_toInt_lt, Int32.toInt_maxValue]
        omega
      exact ⟨hlt, ih (by rw [toInt_succ hlt hpos]; omega)⟩
  | case3 depth hpos rest ih =>
      rw [List.length_cons, List.length_cons] at h
      exact ih (by rw [toInt_pred hpos]; omega)
  | case4 depth hpos c rest _ _ ih =>
      rw [List.length_cons] at h
      exact ih (by omega)

/-- A character at which no mark starts is passed over. -/
theorem commentLength?_go_char {c : Char} {text : List Char} (hpos : 0 < depth)
    (hc : startsMark (c :: text) = false) (n : Nat) :
    commentLength?.go depth n (c :: text) = commentLength?.go depth (n + 1) text := by
  rw [commentLength?.go, if_pos hpos]
  · rintro rest rfl rfl
    simp [startsMark] at hc
  · rintro rest rfl rfl
    simp [startsMark] at hc

theorem commentLength?_go_open (hpos : 0 < depth) (n : Nat) (rest : List Char) :
    commentLength?.go depth n ('(' :: '*' :: rest) =
      commentLength?.go (depth + 1) (n + 2) rest :=
  if_pos hpos

theorem commentLength?_go_close (hpos : 0 < depth) (n : Nat) (rest : List Char) :
    commentLength?.go depth n ('*' :: ')' :: rest) =
      commentLength?.go (depth - 1) (n + 2) rest :=
  if_pos hpos

theorem commentLength?_go_closed (hdepth : ¬ 0 < depth) (n : Nat) (text : List Char) :
    commentLength?.go depth n text = some n := by
  rw [commentLength?.go.eq_def, if_neg hdepth]

end Depth

theorem commentsNest_of_length_lt {text : List Char} (h : text.length < UInt32.size) :
    CommentsNest text := by
  intro rest hrest
  have hle := hrest.length_le
  rw [List.length_cons, List.length_cons] at hle
  refine nests_of_length_lt ?_
  rw [Int32.toInt_one]
  omega

/-! ### The length of a comment -/

/-- A comment takes no more characters than there are. -/
theorem commentLength?_go_le {depth : Int32} {n m : Nat} {text : List Char}
    (hgo : commentLength?.go depth n text = some m) : m ≤ n + text.length := by
  fun_induction commentLength?.go depth n text with
  | case1 => cases hgo
  | case2 depth n _ rest ih | case3 depth n _ rest ih | case4 depth n _ c rest _ _ ih =>
      have hle := ih hgo
      simp only [List.length_cons]
      omega
  | case5 =>
      cases hgo
      exact Nat.le_add_right _ _

/-- What closes comments that stand one around the other is as many tails of comments. -/
theorem commentLength?_go {depth : Int32} {n m : Nat} {text : List Char}
    (hgo : commentLength?.go depth n text = some m) (hnests : Nests depth text) :
    ∃ tails : List (List Char), tails.length = depth.toInt.toNat ∧
      (∀ t ∈ tails, CommentTail t) ∧
      ∃ after, text = tails.flatten ++ after ∧ m = n + tails.flatten.length := by
  fun_induction commentLength?.go depth n text with
  | case1 => cases hgo
  | case2 depth n hpos rest ih =>
      -- the comment that opens here and what is left of the one around it become one tail
      obtain ⟨hlt, hrest⟩ := (nests_open hpos).mp hnests
      obtain ⟨tails, hlength, htails, after, rfl, rfl⟩ := ih hgo hrest
      have hdepth := toInt_pos.mp hpos
      have htwo : tails.length = depth.toInt.toNat - 1 + 1 + 1 := by
        rw [toInt_succ hlt hpos] at hlength
        omega
      obtain ⟨inner, tails, rfl⟩ := List.exists_cons_of_length_eq_add_one htwo
      rw [List.length_cons, Nat.add_right_cancel_iff] at htwo
      obtain ⟨tail, tails, rfl⟩ := List.exists_cons_of_length_eq_add_one htwo
      simp only [List.forall_mem_cons] at htails
      refine ⟨('(' :: '*' :: (inner ++ tail)) :: tails, ?_, ?_, after, by simp, ?_⟩
      · rw [List.length_cons] at htwo ⊢
        omega
      · exact List.forall_mem_cons.mpr ⟨.comment htails.1 htails.2.1, htails.2.2⟩
      · simp only [List.flatten_cons, List.length_append, List.length_cons]
        omega
  | case3 depth n hpos rest ih =>
      obtain ⟨tails, hlength, htails, after, rfl, rfl⟩ := ih hgo ((nests_close hpos).mp hnests)
      rw [toInt_pred hpos] at hlength
      refine ⟨['*', ')'] :: tails, ?_, ?_, after, by simp, ?_⟩
      · have hdepth := toInt_pos.mp hpos
        rw [List.length_cons]
        omega
      · exact List.forall_mem_cons.mpr ⟨.close, htails⟩
      · simp only [List.flatten_cons, List.length_append, List.length_cons, List.length_nil]
        omega
  | case4 depth n hpos c rest hopen hclose ih =>
      have hmark := startsMark_eq_false hopen hclose
      obtain ⟨tails, hlength, htails, after, rfl, rfl⟩ :=
        ih hgo ((nests_char hpos hmark).mp hnests)
      have hne : tails.length = depth.toInt.toNat - 1 + 1 := by
        have hdepth := toInt_pos.mp hpos
        omega
      obtain ⟨tail, tails, rfl⟩ := List.exists_cons_of_length_eq_add_one hne
      simp only [List.forall_mem_cons] at htails
      rw [List.flatten_cons, List.append_assoc, startsMark_cons_append htails.1.ne_nil] at hmark
      refine ⟨(c :: tail) :: tails, hlength, ?_, after, by simp, ?_⟩
      · exact List.forall_mem_cons.mpr ⟨.char hmark htails.1, htails.2⟩
      · simp only [List.flatten_cons, List.length_append, List.length_cons]
        omega
  | case5 text depth n hpos =>
      cases hgo
      refine ⟨[], ?_, by simp, text, rfl, rfl⟩
      rw [toInt_pos] at hpos
      rw [List.length_nil]
      omega

theorem commentLength?_eq_some {n : Nat} {text : List Char}
    (hlength : commentLength? text = some n) (hnests : Nests 1 text) :
    ∃ tail after, text = tail ++ after ∧ tail.length = n ∧ CommentTail tail := by
  obtain ⟨tails, htails, hall, after, rfl, rfl⟩ := commentLength?_go hlength hnests
  obtain ⟨tail, rfl⟩ := List.length_eq_one_iff.mp htails
  exact ⟨tail, after, by simp, by simp, hall tail List.mem_cons_self⟩

theorem Literal.cons_eq_closed {c : Char} {width n : Nat} {content : List Char} {l : Literal}
    (hcons : l.cons c width = .closed content n) :
    ∃ content' n', l = .closed content' n' ∧ content = c :: content' ∧ n = n' + width := by
  cases l with
  | closed content' n' =>
      cases hcons
      exact ⟨content', n', rfl, rfl, rfl⟩
  | unterminated | nul => cases hcons

theorem literal_eq_closed {text content : List Char} {n : Nat}
    (hclosed : literal text = .closed content n) :
    ∃ tail after, text = tail ++ after ∧ tail.length = n ∧ LiteralTail content tail := by
  fun_induction literal text generalizing content n with
  | case1 | case3 | case4 | case5 | case6 => cases hclosed
  | case2 rest =>
      cases hclosed
      exact ⟨['"'], rest, rfl, rfl, .close⟩
  | case7 c rest hc ih =>
      obtain ⟨content, n, hrest, rfl, rfl⟩ := Literal.cons_eq_closed hclosed
      obtain ⟨tail, after, rfl, rfl, htail⟩ := ih hrest
      exact ⟨'\\' :: c :: tail, after, rfl, rfl, .escaped hc htail⟩
  | case8 c rest hquote hline hnul hend _ hescape ih =>
      obtain ⟨content, n, hrest, rfl, rfl⟩ := Literal.cons_eq_closed hclosed
      have hback : c ≠ '\\' := by
        intro hback
        cases rest with
        | nil => exact hend hback rfl
        | cons d rest => exact hescape d rest hback rfl
      obtain ⟨tail, after, rfl, rfl, htail⟩ := ih hrest
      exact ⟨c :: tail, after, rfl, rfl, .plain ⟨hquote, hback, hline, hnul⟩ htail⟩

/-- The spelling of a string is read as its content, whatever follows. -/
theorem LiteralTail.literal_append {content tail : List Char} (htail : LiteralTail content tail)
    (after : List Char) : literal (tail ++ after) = .closed content tail.length := by
  induction htail with
  | close => simp [literal]
  | @plain c content tail hc _ ih =>
      rw [List.cons_append, literal, ih]
      · rfl
      all_goals simp [hc]
  | @escaped c content tail hc _ ih =>
      rw [List.cons_append, List.cons_append, literal, ih]
      · rfl
      · exact hc

/-- No keyword is listed twice. -/
theorem keyword_unique {text : String} {kind kind' : TokenKind}
    (hkind : (text, kind) ∈ TokenKind.keywords) (hkind' : (text, kind') ∈ TokenKind.keywords) :
    kind = kind' := by
  have hnodup : (TokenKind.keywords.map (·.1)).Nodup := by decide
  exact congrArg Prod.snd (List.inj_on_of_nodup_map hnodup hkind hkind' rfl)

theorem wordKind_spec (word : List Char) : WordKind word (wordKind word) := by
  unfold wordKind
  dsimp only
  cases hlookup : TokenKind.keywords.lookup (String.ofList (word.map Char.toLower)) with
  | none =>
      have hfree : ∀ kind, (String.ofList (word.map Char.toLower), kind) ∉ TokenKind.keywords := by
        intro kind hmem
        simpa using List.lookup_eq_none_iff.mp hlookup _ hmem
      dsimp only
      split
      · exact .objectName hfree ‹_›
      · rename_i hupper
        exact .typeName (fun kind hkind => absurd hkind (hfree kind)) (by simpa using hupper)
  | some kind =>
      have hkind : (String.ofList (word.map Char.toLower), kind) ∈ TokenKind.keywords := by
        obtain ⟨before, after, heq, -⟩ := List.lookup_eq_some_iff.mp hlookup
        rw [heq]
        exact List.mem_append_right _ List.mem_cons_self
      by_cases htruth : kind = .trueKw ∨ kind = .falseKw
      · have htype : ¬ word.head?.any isLower = true → WordKind word .typeIdentifier := by
          intro hupper
          refine .typeName (fun kind' hkind' => ?_) (by simpa using hupper)
          exact keyword_unique hkind hkind' ▸ htruth
        rcases htruth with rfl | rfl
        · dsimp only
          split
          · exact .truth hkind (Or.inl rfl) ‹_›
          · exact htype ‹_›
        · dsimp only
          split
          · exact .truth hkind (Or.inr rfl) ‹_›
          · exact htype ‹_›
      · rw [not_or] at htruth
        split
        · exact absurd (Option.some.inj ‹_›) htruth.1
        · exact absurd (Option.some.inj ‹_›) htruth.2
        · cases ‹some kind = some _›
          exact .keyword hkind htruth
        · cases ‹some kind = none›

theorem symbol?_eq_some {text : List Char} {kind : TokenKind} {n : Nat}
    (hsymbol : symbol? text = some (kind, n)) :
    (text.take n, kind) ∈ symbols ∧ 0 < n ∧ n ≤ text.length ∧
      ∀ c ∈ (text.drop n).head?,
        (text.take n, c) ∉ [(['<'], '-'), (['<'], '='), (['='], '>')] := by
  unfold symbol? at hsymbol
  split at hsymbol
  case h_3 rest hminus hequals =>
    cases hsymbol
    refine ⟨by simp [symbols], Nat.one_pos, by simp, fun c hc => ?_⟩
    have hrest : rest = c :: rest.tail := List.eq_cons_of_mem_head? hc
    have hne : c ≠ '-' ∧ c ≠ '=' :=
      ⟨fun heq => hminus _ (heq ▸ hrest), fun heq => hequals _ (heq ▸ hrest)⟩
    simp [hne.1, hne.2]
  case h_5 rest hgreater =>
    cases hsymbol
    refine ⟨by simp [symbols], Nat.one_pos, by simp, fun c hc => ?_⟩
    have hrest : rest = c :: rest.tail := List.eq_cons_of_mem_head? hc
    have hne : c ≠ '>' := fun heq => hgreater _ (heq ▸ hrest)
    simp [hne]
  all_goals cases hsymbol <;> simp [symbols]

/-! ## Maximal lexemes -/

/-- The characters that satisfy a test end before one that does not. -/
theorem not_of_mem_head?_dropWhile {p : Char → Bool} {text : List Char} {c : Char}
    (hc : c ∈ (text.dropWhile p).head?) : p c = false := by
  have hhead := List.head?_dropWhile_not p text
  rw [Option.mem_def.mp hc] at hhead
  exact hhead

theorem isWordStart_of_isDigit {c : Char} (hc : Text.isDigit c = true) :
    isWordStart c = false := by
  rw [Text.isDigit, Bool.and_eq_true, decide_eq_true_eq, decide_eq_true_eq] at hc
  rw [Bool.eq_false_iff]
  intro hstart
  simp only [isWordStart, isLower, isUpper, Bool.or_eq_true, Bool.and_eq_true, decide_eq_true_eq,
    beq_iff_eq] at hstart
  rcases hstart with (⟨hle, -⟩ | rfl) | ⟨hle, -⟩
  · exact absurd (Char.le_trans hle hc.2) (by decide)
  · exact absurd hc.2 (by decide)
  · exact absurd (Char.le_trans hle hc.2) (by decide)

theorem extensions_head : ∀ p ∈ extensions, ∀ d ∈ p.1.head?,
    Text.isDigit d = false ∧ isWordStart d = false ∧ d ≠ '"' := by
  have hall : extensions.all (fun p => p.1.head?.all fun d =>
      !Text.isDigit d && (!isWordStart d && d != '"')) = true := by
    decide
  intro p hp d hd
  have hp := List.all_eq_true.mp hall p hp
  rw [Option.mem_def.mp hd] at hp
  simpa using hp

theorem symbols_head : ∀ p ∈ symbols, ∀ d ∈ p.1.head?,
    Text.isDigit d = false ∧ isWordStart d = false := by
  have hall : symbols.all (fun p => p.1.head?.all fun d =>
      !Text.isDigit d && !isWordStart d) = true := by
    decide
  intro p hp d hd
  have hp := List.all_eq_true.mp hall p hp
  rw [Option.mem_def.mp hd] at hp
  simpa using hp

/-- What a lexeme of the text is, and what follows it. The comments of a gap have to be counted. -/
def Lexeme.Heads (text : List Char) : Lexeme → Prop
  | .gap n => ∃ gap rest, text = gap ++ rest ∧ gap.length = n ∧ gap ≠ [] ∧
      (CommentsNest text → ∀ {more after}, rest = more ++ after → Gap after more →
        Gap after (gap ++ more))
  | .token kind value n => ∃ lexeme rest, text = lexeme ++ rest ∧ lexeme.length = n ∧
      lexeme ≠ [] ∧ Spells lexeme kind value ∧ Maximal lexeme rest

def Lexeme.length : Lexeme → Nat
  | .gap n => n
  | .token _ _ n => n

/-- A lexeme takes a character at least, and no more than there are. -/
theorem Lexeme.Heads.bounds {text : List Char} {l : Lexeme} (hl : l.Heads text) :
    0 < l.length ∧ l.length ≤ text.length := by
  cases l with
  | gap n =>
      obtain ⟨gap, rest, rfl, rfl, hne, -⟩ := hl
      exact ⟨List.length_pos_iff.mpr hne, by simp [length]⟩
  | token kind value n =>
      obtain ⟨lexeme, rest, rfl, rfl, hne, -, -⟩ := hl
      exact ⟨List.length_pos_iff.mpr hne, by simp [length]⟩

theorem Gap.spaces {spaces gap after : List Char} (hspaces : ∀ c ∈ spaces, isSpace c = true)
    (hgap : Gap after gap) : Gap after (spaces ++ gap) := by
  induction spaces with
  | nil => exact hgap
  | cons c spaces ih =>
      rw [List.forall_mem_cons] at hspaces
      exact .space hspaces.1 (ih hspaces.2)

theorem heads_spaces {c : Char} {text : List Char} (hc : isSpace c = true) :
    Lexeme.Heads (c :: text) (.gap ((c :: text).takeWhile isSpace).length) := by
  refine ⟨_, _, List.takeWhile_append_dropWhile.symm, rfl, ?_, ?_⟩
  · simp [List.takeWhile_cons_of_pos hc]
  · intro _ more after _ hmore
    exact .spaces (List.all_eq_true.mp List.all_takeWhile) hmore

theorem heads_line (text : List Char) :
    Lexeme.Heads ('-' :: '-' :: text) (.gap ((text.takeWhile (· != '\n')).length + 2)) := by
  refine ⟨'-' :: '-' :: text.takeWhile (· != '\n'), text.dropWhile (· != '\n'), ?_, rfl,
    by simp, ?_⟩
  · simp
  · intro _ more after hrest hmore
    refine .line (fun hline => ?_) (fun c hc => ?_) hmore
    · simpa using List.all_eq_true.mp List.all_takeWhile _ hline
    · rw [← hrest] at hc
      simpa using not_of_mem_head?_dropWhile hc

theorem heads_comment {text : List Char} {n : Nat} (hlength : commentLength? text = some n) :
    Lexeme.Heads ('(' :: '*' :: text) (.gap (n + 2)) := by
  have hle : n ≤ text.length := by simpa using commentLength?_go_le hlength
  refine ⟨'(' :: '*' :: text.take n, text.drop n, by simp, by simp [hle], by simp, ?_⟩
  intro hnest more after _ hmore
  obtain ⟨tail, rest, rfl, rfl, htail⟩ :=
    commentLength?_eq_some hlength (hnest text (List.suffix_refl _))
  rw [List.take_left]
  exact .comment htail hmore

/-- A run of digits has no sign. -/
theorem int64?_of_isDigit {d : Char} (digits : List Char) (hd : Text.isDigit d = true) :
    Text.int64? (d :: digits) = Text.int64?.positive? (d :: digits) := by
  unfold Text.int64?
  split
  · rename_i heq
    cases heq
    cases hd
  · rename_i heq
    cases heq
    cases hd
  · rfl

/-- A run of digits is in range if it can be read. -/
theorem digitsValue_lt_of_int64? {d : Char} {digits : List Char} (hd : Text.isDigit d = true)
    (hsome : (Text.int64? (d :: digits)).isSome = true) :
    Text.digitsValue (d :: digits) < Nat.pow 2 63 := by
  rw [int64?_of_isDigit digits hd, Text.int64?.positive?, Text.natural?] at hsome
  split at hsome
  · simp only [Option.bind_eq_bind, Option.bind_some] at hsome
    split at hsome
    · assumption
    · cases hsome
  · cases hsome

theorem heads_number {c : Cursor} {d : Char} {text : List Char} {l : Lexeme}
    (hrest : c.rest = d :: text) (hd : Text.isDigit d = true) (hnumber : number c = .ok l) :
    l.Heads c.rest := by
  have hdigits : c.rest.takeWhile Text.isDigit = d :: text.takeWhile Text.isDigit := by
    rw [hrest, List.takeWhile_cons_of_pos hd]
  have hall : ∀ e ∈ d :: text.takeWhile Text.isDigit, Text.isDigit e = true := by
    rw [← hdigits]
    exact List.all_eq_true.mp List.all_takeWhile
  unfold number at hnumber
  rw [hdigits] at hnumber
  dsimp only at hnumber
  split at hnumber
  · rename_i hsome
    cases hnumber
    refine ⟨_, c.rest.dropWhile Text.isDigit, ?_, rfl, by simp, ?_, ?_⟩
    · rw [← hdigits, List.takeWhile_append_dropWhile]
    · exact .integer (by simp) hall (digitsValue_lt_of_int64? hd hsome)
    · refine ⟨fun _ _ _ e he => not_of_mem_head?_dropWhile he, ?_, ?_⟩
      · intro e he hstart
        cases he
        rw [isWordStart_of_isDigit hd] at hstart
        cases hstart
      · intro e _ hmem
        have hhead := (extensions_head _ hmem d rfl).1
        cases hd.symm.trans hhead
  · cases hnumber

theorem heads_word {d : Char} {text : List Char} (hd : isWordStart d = true) :
    Lexeme.Heads (d :: text) (.token (wordKind ((d :: text).takeWhile isWordPart))
      (String.ofList ((d :: text).takeWhile isWordPart))
      ((d :: text).takeWhile isWordPart).length) := by
  have hpart : isWordPart d = true := by rw [isWordPart, hd, Bool.true_or]
  refine ⟨_, (d :: text).dropWhile isWordPart, List.takeWhile_append_dropWhile.symm, rfl, ?_⟩
  rw [List.takeWhile_cons_of_pos hpart]
  refine ⟨by simp, .word hd ?_ (wordKind_spec _), ?_⟩
  · exact List.all_eq_true.mp List.all_takeWhile
  · refine ⟨?_, fun _ _ _ e he => not_of_mem_head?_dropWhile he, ?_⟩
    · intro e he hdigit
      cases he
      rw [isWordStart_of_isDigit hdigit] at hd
      cases hd
    · intro e _ hmem
      have hhead := (extensions_head _ hmem d rfl).2.1
      cases hd.symm.trans hhead

theorem heads_quoted {c : Cursor} {text : List Char} {l : Lexeme} (hrest : c.rest = '"' :: text)
    (hquoted : quoted c text = .ok l) : l.Heads c.rest := by
  unfold quoted at hquoted
  split at hquoted
  · rename_i content n hclosed
    cases hquoted
    obtain ⟨tail, rest, rfl, rfl, htail⟩ := literal_eq_closed hclosed
    refine ⟨'"' :: tail, rest, hrest, rfl, by simp, .string htail, ?_, ?_, ?_⟩
    · intro e he hdigit
      cases he
      cases hdigit
    · intro e he hstart
      cases he
      cases hstart
    · intro e _ hmem
      exact (extensions_head _ hmem '"' rfl).2.2 rfl
  · cases hquoted
  · cases hquoted

theorem heads_symbol {text : List Char} {kind : TokenKind} {n : Nat}
    (hsymbol : symbol? text = some (kind, n))
    (hparen : ∀ rest, text ≠ '(' :: '*' :: rest) (hdash : ∀ rest, text ≠ '-' :: '-' :: rest)
    (hstar : ∀ rest, text ≠ '*' :: ')' :: rest) :
    Lexeme.Heads text (.token kind (String.ofList (text.take n)) n) := by
  obtain ⟨hmem, hpos, hle, hlonger⟩ := symbol?_eq_some hsymbol
  have hlength : (text.take n).length = n := List.length_take_of_le hle
  have hne : text.take n ≠ [] := by
    intro hnil
    rw [hnil, List.length_nil] at hlength
    omega
  refine ⟨_, text.drop n, (List.take_append_drop n text).symm, hlength, hne, .mark hmem, ?_, ?_, ?_⟩
  · intro e he hdigit
    cases hdigit.symm.trans (symbols_head _ hmem e he).1
  · intro e he hstart
    cases hstart.symm.trans (symbols_head _ hmem e he).2
  · intro e he hext
    have hrest : text = text.take n ++ e :: (text.drop n).tail := by
      rw [← List.eq_cons_of_mem_head? he, List.take_append_drop]
    have hnot := hlonger e he
    simp only [extensions, List.mem_cons, Prod.mk.injEq, List.not_mem_nil, or_false] at hext hnot
    rcases hext with hext | hext | hext | ⟨hmark, rfl⟩ | ⟨hmark, rfl⟩ | ⟨hmark, rfl⟩
    · exact hnot (Or.inl hext)
    · exact hnot (Or.inr (Or.inl hext))
    · exact hnot (Or.inr (Or.inr hext))
    · exact hparen _ (hmark ▸ hrest)
    · exact hdash _ (hmark ▸ hrest)
    · exact hstar _ (hmark ▸ hrest)

theorem lexeme_eq_ok {c : Cursor} {l : Lexeme} (hne : c.rest ≠ []) (hok : lexeme c = .ok l) :
    l.Heads c.rest := by
  unfold lexeme at hok
  split at hok
  · exact absurd ‹_› hne
  · rename_i text hrest
    cases hok
    rw [hrest]
    exact heads_line text
  · rename_i text hrest
    split at hok
    · cases hok
      rw [hrest]
      exact heads_comment ‹_›
    · cases hok
  · cases hok
  · rename_i text hrest
    exact heads_quoted hrest hok
  · rename_i x text hdash hparen hstar hquote hrest
    split at hok
    · cases hok
      rw [hrest]
      exact heads_spaces ‹_›
    · split at hok
      · exact heads_number hrest ‹_› hok
      · split at hok
        · cases hok
          rw [hrest]
          exact heads_word ‹_›
        · split at hok
          · rename_i hsymbol
            cases hok
            refine heads_symbol hsymbol (fun rest heq => ?_) (fun rest heq => ?_) fun rest heq => ?_
            all_goals
              rw [hrest, List.cons.injEq] at heq
            · exact hparen rest heq.1 heq.2
            · exact hdash rest heq.1 heq.2
            · exact hstar rest heq.1 heq.2
          · cases hok

end CoolLang.Lexer
