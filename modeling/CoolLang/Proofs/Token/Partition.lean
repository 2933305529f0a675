import CoolLang.Proofs.Source.Counters
import CoolLang.Proofs.Token.Lexis

/-!
# The tokens of a source

A source is cut into gaps and lexemes without a rest, and each token stands where its lexeme does.
The loop that reads one lexeme after the other needs no bound: each takes at least one character.
What it counts is bounded, though: lines, columns and open comments have 32 bits each.
-/

namespace CoolLang

namespace Lexer

/-! ## The loop without a bound -/

/-- Lexemes are read from a place on until the text ends or nothing can be read. -/
inductive Scans : Cursor → Except Diagnostic (List Token) → Prop where
  | atEnd (position : Position) : Scans ⟨[], position⟩ (.ok [.endOfFile position])
  | refuse {c : Cursor} {d : Diagnostic} (hne : c.rest ≠ []) (hlex : lexeme c = .error d) :
      Scans c (.error d)
  | gap {c : Cursor} {n : Nat} {r : Except Diagnostic (List Token)} (hne : c.rest ≠ [])
      (hlex : lexeme c = .ok (.gap n)) (hr : Scans (c.drop n) r) : Scans c r
  | token {c : Cursor} {kind : TokenKind} {text : String} {n : Nat}
      {r : Except Diagnostic (List Token)} (hne : c.rest ≠ [])
      (hlex : lexeme c = .ok (.token kind text n)) (hr : Scans (c.drop n) r) :
      Scans c (r.map (⟨kind, text, ⟨c.position, (c.drop n).position⟩⟩ :: ·))

/-- The characters of the lexeme read last are passed over. -/
theorem lexFrom_pending (done : List Token) {n : Nat} {text : List Char} (hn : n ≤ text.length)
    (position : Position) : lexFrom done n position text =
      lexFrom done 0 (position.after (text.take n)) (text.drop n) := by
  induction n generalizing position text with
  | zero => rfl
  | succ n ih =>
      cases text with
      | nil => simp at hn
      | cons c text =>
          rw [lexFrom, ih (by simpa using hn)]
          rfl

theorem Except.map_append_cons {ε : Type} (r : Except ε (List Token)) (done : List Token)
    (t : Token) : (r.map (t :: ·)).map (done.reverse ++ ·) =
      r.map ((t :: done).reverse ++ ·) := by
  cases r with
  | error e => rfl
  | ok tokens => simp [Except.map]

/-- Behind a lexeme the loop goes on from the cursor moved over it. -/
theorem lexFrom_pred {n : Nat} {c : Char} {text : List Char} {position : Position}
    (hn : 0 < n ∧ n ≤ (c :: text).length) (done : List Token) :
    lexFrom done (n - 1) (position.next c) text =
      lexFrom done 0 ((⟨c :: text, position⟩ : Cursor).drop n).position
        ((⟨c :: text, position⟩ : Cursor).drop n).rest := by
  obtain ⟨n, rfl⟩ := Nat.exists_eq_succ_of_ne_zero (Nat.ne_of_gt hn.1)
  rw [Nat.succ_sub_one, lexFrom_pending done (by simpa using hn.2)]
  rfl

theorem scans_lexFrom (n : Nat) : ∀ (c : Cursor), c.rest.length ≤ n →
    ∀ done, ∃ r, Scans c r ∧ lexFrom done 0 c.position c.rest = r.map (done.reverse ++ ·) := by
  induction n with
  | zero =>
      rintro ⟨text, position⟩ hn done
      obtain rfl : text = [] := List.length_eq_zero_iff.mp (Nat.le_zero.mp hn)
      exact ⟨_, .atEnd position, by simp [lexFrom, Except.map]⟩
  | succ n ih =>
      rintro ⟨text, position⟩ hn done
      cases text with
      | nil => exact ⟨_, .atEnd position, by simp [lexFrom, Except.map]⟩
      | cons x text =>
          have hne : (⟨x :: text, position⟩ : Cursor).rest ≠ [] := by simp
          have hstep : ∀ {l : Lexeme}, lexeme ⟨x :: text, position⟩ = .ok l →
              ((⟨x :: text, position⟩ : Cursor).drop l.length).rest.length ≤ n := by
            intro l hlex
            have hbounds := (lexeme_eq_ok hne hlex).bounds
            simp only [Cursor.drop, List.length_drop] at hbounds hn ⊢
            omega
          cases hlex : lexeme ⟨x :: text, position⟩ with
          | error d =>
              refine ⟨_, .refuse hne hlex, ?_⟩
              simp only [lexFrom, hlex]
              rfl
          | ok l =>
              have hbounds := (lexeme_eq_ok hne hlex).bounds
              cases l with
              | gap m =>
                  obtain ⟨r, hr, heq⟩ := ih _ (hstep hlex) done
                  refine ⟨r, .gap hne hlex hr, ?_⟩
                  simp only [lexFrom, hlex]
                  exact (lexFrom_pred hbounds done).trans heq
              | token kind value m =>
                  obtain ⟨r, hr, heq⟩ := ih _ (hstep hlex) (⟨kind, value, ⟨position, _⟩⟩ :: done)
                  refine ⟨_, .token hne hlex hr, ?_⟩
                  simp only [lexFrom, hlex]
                  rw [Except.map_append_cons]
                  exact (lexFrom_pred hbounds _).trans heq

/-- **Reading a source comes to an end.** -/
theorem scans_tokenize (source file : String) :
    Scans (.ofSource source file) (tokenize source file) := by
  obtain ⟨r, hr, heq⟩ := scans_lexFrom _ (.ofSource source file) (Nat.le_refl _) []
  have htokenize : tokenize source file = r := by
    refine heq.trans ?_
    cases r <;> rfl
  rwa [htokenize]

/-! ## Gaps and lexemes -/

/-- A text is cut into gaps and lexemes. It stands behind the text `before`, and has the tokens that
its lexemes spell, each with the ends of its lexeme. What counts as a gap may depend on what comes
after it. -/
inductive Partition (IsGap : List Char → List Char → Prop) (file : String) :
    List Char → List Char → List Token → Prop where
  | gap {before gap : List Char} (hgap : IsGap [] gap) :
      Partition IsGap file before gap [.endOfFile (.behind file (before ++ gap))]
  | token {before gap lexeme rest : List Char} {kind : TokenKind} {text : String}
      {tokens : List Token} (hgap : IsGap (lexeme ++ rest) gap) (hspells : Spells lexeme kind text)
      (hmaximal : Maximal lexeme rest)
      (hrest : Partition IsGap file (before ++ gap ++ lexeme) rest tokens) :
      Partition IsGap file before (gap ++ lexeme ++ rest)
        (⟨kind, text, ⟨.behind file (before ++ gap), .behind file (before ++ gap ++ lexeme)⟩⟩ ::
          tokens)

/-- A text that is a gap, if its comments can be counted. -/
def CountedGap (after gap : List Char) : Prop :=
  CommentsNest (gap ++ after) → Gap after gap

theorem CountedGap.nil (after : List Char) : CountedGap after [] :=
  fun _ => .nil

theorem Partition.mono {IsGap IsGap' : List Char → List Char → Prop} {file : String}
    {before text : List Char} {tokens : List Token}
    (htext : Partition IsGap file before text tokens)
    (himp : ∀ gap after, gap ++ after <:+ text → IsGap after gap → IsGap' after gap) :
    Partition IsGap' file before text tokens := by
  induction htext with
  | gap hgap => exact .gap (himp _ [] (by simp) hgap)
  | token hgap hspells hmaximal _ ih =>
      refine .token (himp _ _ (by simp) hgap) hspells hmaximal (ih fun gap after hsuffix => ?_)
      exact himp gap after (hsuffix.trans (List.suffix_append _ _))

theorem Partition.prepend {file : String} {before gap text : List Char} {tokens : List Token}
    (htext : Partition CountedGap file (before ++ gap) text tokens)
    (hgap : CommentsNest (gap ++ text) →
      ∀ {more after}, text = more ++ after → Gap after more → Gap after (gap ++ more)) :
    Partition CountedGap file before (gap ++ text) tokens := by
  have hcounted : ∀ {more after}, text = more ++ after → CountedGap after more →
      CountedGap after (gap ++ more) := by
    rintro more after rfl hmore hnest
    rw [List.append_assoc] at hnest
    exact hgap hnest rfl (hmore (hnest.of_suffix (List.suffix_append gap _)))
  cases htext with
  | gap hmore =>
      rw [List.append_assoc]
      exact .gap (hcounted (by simp) hmore)
  | @token _ more lexeme rest kind value tokens hmore hspells hmaximal hrest =>
      have hall := hcounted (by rw [List.append_assoc]) hmore
      have htail : Partition CountedGap file (before ++ (gap ++ more) ++ lexeme) rest tokens := by
        rwa [← List.append_assoc before]
      simpa only [List.append_assoc] using Partition.token hall hspells hmaximal htail

theorem position_drop {c : Cursor} {file : String} {before : List Char} {n : Nat}
    (hposition : c.position = .behind file before) :
    (c.drop n).position = .behind file (before ++ c.rest.take n) := by
  rw [Cursor.drop, hposition, ← Position.after_first, ← Position.after_append,
    Position.after_first]

theorem Scans.partition {c : Cursor} {r : Except Diagnostic (List Token)} (hscans : Scans c r) :
    ∀ {file before tokens}, c.position = .behind file before → r = .ok tokens →
      Partition CountedGap file before c.rest tokens := by
  induction hscans with
  | atEnd position =>
      intro file before tokens hposition hok
      cases hok
      have hlast := @Partition.gap CountedGap file before [] (.nil [])
      rwa [List.append_nil, ← hposition] at hlast
  | refuse => intro file before tokens _ hok; cases hok
  | @gap c n r hne hlex hr ih =>
      intro file before tokens hposition hok
      obtain ⟨gap, rest, hrest, rfl, -, hgap⟩ := lexeme_eq_ok hne hlex
      have hbehind := position_drop (n := gap.length) hposition
      have htail := ih hbehind hok
      rw [hrest] at hgap
      simp only [Cursor.drop, hrest, List.take_left', List.drop_left'] at htail ⊢
      exact htail.prepend hgap
  | @token c kind value n r hne hlex hr ih =>
      intro file before tokens hposition hok
      obtain ⟨lexeme, rest, hrest, rfl, -, hspells, hmaximal⟩ := lexeme_eq_ok hne hlex
      have hbehind := position_drop (n := lexeme.length) hposition
      cases r with
      | error d => cases hok
      | ok tokens' =>
          cases hok
          have htail := ih hbehind rfl
          simp only [Cursor.drop, hrest, List.take_left', List.drop_left'] at htail hbehind ⊢
          rw [hbehind, hposition]
          have hnil : before ++ [] = before := List.append_nil before
          have htoken := @Partition.token CountedGap file before [] lexeme rest kind value tokens'
            (.nil _) hspells hmaximal (hnil.symm ▸ htail)
          rwa [hnil] at htoken

theorem partition_tokenize {source file : String} {tokens : List Token}
    (hok : tokenize source file = .ok tokens) :
    Partition CountedGap file [] source.toList tokens :=
  (scans_tokenize source file).partition rfl hok

/-! ## What is counted -/

/-- Lines, columns and open comments of a text can be counted. -/
structure Countable (text : List Char) : Prop where
  places : Position.Countable text
  comments : CommentsNest text

theorem countable_of_length_lt {text : List Char} (h : text.length + 1 < UInt32.size) :
    Countable text :=
  ⟨Position.countable_of_length_lt h, commentsNest_of_length_lt (Nat.lt_of_succ_lt h)⟩

end Lexer

end CoolLang
