import CoolLang.Proofs.Diagnostic.Excerpt
import CoolLang.Proofs.Evaluation.Outcome
import CoolLang.Proofs.Expr.Printer
import Mathlib.Data.List.Forall2

/-!
# Input by lines

Input is cut into lines as bytes, and each line is decoded by itself. Since no character but the
line end has the byte of a line feed in its encoding, this is the same as cutting the text that the
whole input encodes. A number that was written on a line of its own is read back from it.
-/

namespace CoolLang

/-! ## The ends of a text -/

namespace Text

variable {p : Char → Bool} {before text after : List Char}

theorem mem_of_mem_dropEndWhile {c : Char} (hc : c ∈ dropEndWhile p text) : c ∈ text := by
  obtain ⟨cut, htext, -⟩ := exists_eq_dropEndWhile_append p text
  rw [htext]
  exact List.mem_append_left _ hc

/-- What is left at the end does not satisfy the test. -/
theorem not_of_getLast?_dropEndWhile {c : Char} (hc : (dropEndWhile p text).getLast? = some c) :
    p c = false := by
  rw [dropEndWhile, List.getLast?_reverse] at hc
  have hnot := List.head?_dropWhile_not p text.reverse
  rw [hc] at hnot
  simpa using hnot

theorem dropEndWhile_eq_nil (htext : ∀ c ∈ text, p c = true) : dropEndWhile p text = [] := by
  rw [dropEndWhile, List.reverse_eq_nil_iff, List.dropWhile_eq_nil_iff]
  exact fun c hc => htext c (List.mem_reverse.mp hc)

/-- Nothing is cut before a character that does not satisfy the test. -/
theorem dropEndWhile_append (hne : text ≠ []) (htext : ∀ c ∈ text, p c = false) :
    dropEndWhile p (before ++ text ++ after) = before ++ text ++ dropEndWhile p after := by
  have hkept : (before ++ text).reverse.dropWhile p = (before ++ text).reverse := by
    obtain ⟨front, c, rfl⟩ := (List.eq_nil_or_concat' text).resolve_left hne
    have hc : p c = false := htext c (by simp)
    rw [← List.append_assoc, List.reverse_append, List.reverse_singleton, List.singleton_append,
      List.dropWhile_cons_of_neg (by simp [hc])]
  rw [dropEndWhile, dropEndWhile, List.reverse_append, List.dropWhile_append, hkept]
  split
  · rename_i hempty
    rw [List.isEmpty_iff.mp hempty, List.reverse_reverse, List.reverse_nil, List.append_nil]
  · rw [List.reverse_append, List.reverse_reverse]

/-- Blanks around a text are trimmed. -/
theorem trim_append (hbefore : ∀ c ∈ before, isBlank c = true) (hne : text ≠ [])
    (htext : ∀ c ∈ text, isBlank c = false) (hafter : ∀ c ∈ after, isBlank c = true) :
    trim (before ++ text ++ after) = text := by
  have hstart : trimStart (before ++ text ++ after) = text ++ after := by
    obtain ⟨c, rest, rfl⟩ := List.exists_cons_of_ne_nil hne
    have hc : isBlank c = false := htext c List.mem_cons_self
    rw [trimStart, List.append_assoc, List.dropWhile_append_of_pos hbefore, List.cons_append,
      List.dropWhile_cons_of_neg (by simp [hc])]
  have hend : dropEndWhile isBlank ([] ++ text ++ after) =
      [] ++ text ++ dropEndWhile isBlank after := dropEndWhile_append hne htext
  rw [dropEndWhile_eq_nil hafter, List.append_nil] at hend
  rw [trim, hstart]
  exact hend

/-! ## Numerals with a sign -/

theorem toList_decimal (n : Int64) : ∃ k : Nat,
    n.toInt = k ∧ (decimal n).toList = Nat.toDigits 10 k ∨
    n.toInt = -k ∧ (decimal n).toList = '-' :: Nat.toDigits 10 k := by
  rw [decimal]
  cases n.toInt with
  | ofNat k => exact ⟨k, .inl ⟨rfl, Nat.toList_repr⟩⟩
  | negSucc k =>
      refine ⟨k + 1, .inr ⟨rfl, ?_⟩⟩
      change ("-" ++ Nat.repr (k + 1)).toList = _
      rw [String.toList_append, Nat.toList_repr]
      rfl

/-- Every number is read as itself. -/
theorem int64?_toList_decimal (n : Int64) : int64? (decimal n).toList = some n := by
  by_cases hn : 0 ≤ n
  · exact int64?_decimal hn
  · obtain ⟨k, ⟨hk, -⟩ | ⟨hk, hdigits⟩⟩ := toList_decimal n
    · rw [Int64.le_iff_toInt_le, hk] at hn
      exact absurd (Int.natCast_nonneg k) hn
    · have hle : k ≤ Nat.pow 2 63 := by
        have hmin := n.le_toInt
        rw [hk] at hmin
        exact_mod_cast Int.neg_le_neg_iff.mp hmin
      rw [hdigits, int64?, natural?_toDigits]
      change (if k ≤ Nat.pow 2 63 then some (Int64.ofInt (-k)) else none) = some n
      rw [if_pos hle, ← hk, Int64.ofInt_toInt]

theorem isBlank_of_mem_decimal {n : Int64} {c : Char} (hc : c ∈ (decimal n).toList) :
    isBlank c = false := by
  have hdigit {k : Nat} (hc : c ∈ Nat.toDigits 10 k) : isBlank c = false :=
    Lexer.isBlank_of_isDigit (isDigit_of_mem_toDigits hc)
  obtain ⟨k, ⟨-, hdigits⟩ | ⟨-, hdigits⟩⟩ := toList_decimal n
  · exact hdigit (hdigits ▸ hc)
  · rw [hdigits] at hc
    rcases List.mem_cons.mp hc with rfl | hc
    · rfl
    · exact hdigit hc

theorem toList_decimal_ne_nil (n : Int64) : (decimal n).toList ≠ [] := by
  obtain ⟨k, ⟨-, hdigits⟩ | ⟨-, hdigits⟩⟩ := toList_decimal n
  · exact hdigits ▸ Nat.toDigits_ne_nil
  · exact hdigits ▸ List.cons_ne_nil _ _

end Text

/-! ## Lines in bytes and in characters -/

namespace Input

/-- The bytes of a text. -/
def bytesOf (text : List Char) : Input :=
  text.flatMap String.utf8EncodeChar

variable {line text : List Char}

theorem lineFeed_ne_ofNat {n : Nat} (hlow : 10 < n) (hhigh : n < 256) :
    lineFeed ≠ UInt8.ofNat n := by
  intro h
  have hn : (10 : Nat) = n % 256 := congrArg UInt8.toNat h
  omega

/-- Only the end of a line is encoded with the byte of a line feed. -/
theorem lineFeed_not_mem_utf8EncodeChar {c : Char} (hc : c ≠ '\n') :
    lineFeed ∉ String.utf8EncodeChar c := by
  intro hmem
  have hval : c.val.toNat ≠ 10 := fun h => hc (Char.ext (UInt32.toNat_inj.mp h))
  delta String.utf8EncodeChar at hmem
  dsimp only at hmem
  split at hmem
  · have hlf : (10 : Nat) = c.val.toNat % 256 :=
      congrArg UInt8.toNat (List.mem_singleton.mp hmem)
    omega
  · have hrest : ∀ bytes : List Nat, (∀ n ∈ bytes, 10 < n ∧ n < 256) →
        lineFeed ∉ bytes.map UInt8.ofNat := by
      intro bytes hbytes hmem
      obtain ⟨n, hn, heq⟩ := List.mem_map.mp hmem
      exact lineFeed_ne_ofNat (hbytes n hn).1 (hbytes n hn).2 heq.symm
    split at hmem
    · exact hrest [_, _] (by simp; omega) hmem
    · split at hmem
      · exact hrest [_, _, _] (by simp; omega) hmem
      · exact hrest [_, _, _, _] (by simp; omega) hmem

theorem lineFeed_not_mem_bytesOf (hline : '\n' ∉ line) : lineFeed ∉ bytesOf line := by
  intro hmem
  obtain ⟨c, hc, hmem⟩ := List.mem_flatMap.mp hmem
  exact lineFeed_not_mem_utf8EncodeChar (fun h => hline (h ▸ hc)) hmem

theorem bytesOf_append (text more : List Char) :
    bytesOf (text ++ more) = bytesOf text ++ bytesOf more :=
  List.flatMap_append

theorem toByteArray_eq (s : String) : s.toByteArray = ⟨(bytesOf s.toList).toArray⟩ := by
  rw [← String.utf8Encode_toList]
  refine ByteArray.ext (Array.toList_inj.mp ?_)
  exact List.toList_data_toByteArray

theorem fromUTF8?_bytesOf (s : String) :
    String.fromUTF8? ⟨(bytesOf s.toList).toArray⟩ = some s := by
  rw [← toByteArray_eq]
  exact dif_pos s.isValidUTF8

/-- Bytes that can be decoded are those of the text. -/
theorem eq_bytesOf {bytes : Input} {s : String}
    (hs : String.fromUTF8? ⟨bytes.toArray⟩ = some s) : bytes = bytesOf s.toList := by
  have hbytes : s.toByteArray = ⟨bytes.toArray⟩ := by
    delta String.fromUTF8? at hs
    split at hs
    · cases hs
      rfl
    · cases hs
  rw [toByteArray_eq] at hbytes
  exact (congrArg (·.data.toList) hbytes).symm

/-! ## Lines -/

/-- A text is cut behind each line end. The last part may go without one. -/
inductive Cut : List Char → List (List Char) → Prop where
  | nil : Cut [] []
  | last {line : List Char} (hne : line ≠ []) (hline : '\n' ∉ line) : Cut line [line]
  | cons {line rest : List Char} {segments : List (List Char)} (hline : '\n' ∉ line)
      (hrest : Cut rest segments) :
      Cut (line ++ '\n' :: rest) ((line ++ ['\n']) :: segments)

/-- The line is the segment without the line ends and carriage returns at its end. -/
structure Strips (segment line : List Char) : Prop where
  cut : ∃ ending, segment = line ++ ending ∧ ∀ c ∈ ending, c = '\n' ∨ c = '\r'
  last : ∀ c, line.getLast? = some c → c ≠ '\n' ∧ c ≠ '\r'

/-- What is read from a segment. -/
def content (segment : List Char) : String :=
  String.ofList (Text.dropEndWhile isTerminator segment)

theorem strips_content (segment : List Char) : Strips segment (content segment).toList := by
  rw [content, String.toList_ofList]
  obtain ⟨ending, hsegment, hending⟩ := Text.exists_eq_dropEndWhile_append isTerminator segment
  refine ⟨⟨ending, hsegment, fun c hc => ?_⟩, fun c hc => ?_⟩
  · simpa [isTerminator] using hending c hc
  · simpa [isTerminator] using Text.not_of_getLast?_dropEndWhile hc

theorem exists_cut (text : List Char) : ∃ segments, Cut text segments := by
  induction text with
  | nil => exact ⟨[], .nil⟩
  | cons c text ih =>
      obtain ⟨segments, hsegments⟩ := ih
      by_cases hc : c = '\n'
      · subst hc
        exact ⟨_, @Cut.cons [] text segments List.not_mem_nil hsegments⟩
      -- The character goes to the first of the segments.
      have hfirst {line : List Char} (hline : '\n' ∉ line) : '\n' ∉ c :: line :=
        List.not_mem_cons_of_ne_of_not_mem (Ne.symm hc) hline
      cases hsegments with
      | nil => exact ⟨_, .last (List.cons_ne_nil c []) (hfirst List.not_mem_nil)⟩
      | last _ hline => exact ⟨_, .last (List.cons_ne_nil c _) (hfirst hline)⟩
      | cons hline hrest => exact ⟨_, .cons (hfirst hline) hrest⟩

theorem decode_bytesOf (segment : List Char) :
    decode (bytesOf segment) = .text (content segment) := by
  have hsegment := fromUTF8?_bytesOf (String.ofList segment)
  rw [String.toList_ofList] at hsegment
  rw [decode, hsegment]
  dsimp only
  rw [String.toList_ofList, content]

theorem ne_lineFeed_of_mem_bytesOf (hline : '\n' ∉ line) :
    ∀ b ∈ bytesOf line, (b != lineFeed) = true := by
  intro b hb
  simpa using fun h : b = lineFeed => lineFeed_not_mem_bytesOf hline (h ▸ hb)

/-- A line is read up to its end, whatever follows. -/
theorem readLine_line (hline : '\n' ∉ line) (rest : Input) :
    readLine (bytesOf (line ++ ['\n']) ++ rest) = (.text (content (line ++ ['\n'])), rest) := by
  have hbytes : bytesOf (line ++ ['\n']) = bytesOf line ++ [lineFeed] := bytesOf_append line ['\n']
  have hall := ne_lineFeed_of_mem_bytesOf hline
  have hsplit : splitLine (bytesOf (line ++ ['\n']) ++ rest) =
      (bytesOf (line ++ ['\n']), rest) := by
    rw [hbytes, splitLine, List.append_assoc, List.takeWhile_append_of_pos hall,
      List.dropWhile_append_of_pos hall]
    simp
  rw [readLine, if_neg (by simp [hbytes]), hsplit]
  dsimp only
  rw [decode_bytesOf]

/-- A line without an end is read to the end of the input. -/
theorem readLine_last (hne : line ≠ []) (hline : '\n' ∉ line) :
    readLine (bytesOf line) = (.text (content line), []) := by
  have hall := ne_lineFeed_of_mem_bytesOf hline
  have hsplit : splitLine (bytesOf line) = (bytesOf line, []) := by
    rw [splitLine, List.takeWhile_eq_self_iff.mpr hall, List.dropWhile_eq_nil_iff.mpr hall]
    simp
  have hbytes : bytesOf line ≠ [] := by
    obtain ⟨c, rest, rfl⟩ := List.exists_cons_of_ne_nil hne
    rw [bytesOf, List.flatMap_cons]
    exact List.append_ne_nil_of_left_ne_nil String.utf8EncodeChar_ne_nil _
  rw [readLine, if_neg (by simpa using hbytes), hsplit]
  dsimp only
  rw [decode_bytesOf]

theorem nextLine?_of_readLine (position : Position) {m : Machine} {line : String} {rest : Input}
    (hread : readLine m.input = (.text line, rest)) :
    Primitive.nextLine? position m = .ok (some line) { m with input := rest } := by
  have hstep : Eval.readLine m = .ok (.text line) { m with input := rest } := by
    simp only [Eval.readLine, hread]
  rw [Primitive.nextLine?, Eval.bind_ok hstep]
  rfl

namespace Cut

variable {segments : List (List Char)}

theorem flatten (hcut : Cut text segments) : segments.flatten = text := by
  induction hcut with
  | nil => rfl
  | last => simp
  | cons _ _ ih => simp [ih]

theorem tail (hcut : Cut text segments) : Cut segments.tail.flatten segments.tail := by
  cases hcut with
  | nil => exact .nil
  | last => exact .nil
  | cons _ hrest =>
      rw [List.tail_cons, hrest.flatten]
      exact hrest

/-- Reading takes the first segment, or finds that there is none. -/
theorem nextLine? (hcut : Cut text segments) (position : Position) (m : Machine) :
    Primitive.nextLine? position { m with input := bytesOf text } =
      .ok (segments.head?.map content) { m with input := bytesOf segments.tail.flatten } := by
  cases hcut with
  | nil => rfl
  | last hne hend => exact nextLine?_of_readLine position (readLine_last hne hend)
  | @cons line rest segments hend hrest =>
      have hread := readLine_line hend (bytesOf rest)
      rw [← bytesOf_append, List.append_assoc, List.singleton_append] at hread
      rw [List.tail_cons, hrest.flatten]
      exact nextLine?_of_readLine position hread

/-- Reading on takes one segment after the other, and finds none behind the last. -/
theorem mapM_nextLine? (hcut : Cut text segments) (positions : List Position) (m : Machine) :
    positions.mapM Primitive.nextLine? { m with input := bytesOf text } =
      .ok ((List.range positions.length).map ((segments.map content)[·]?))
        { m with input := bytesOf (segments.drop positions.length).flatten } := by
  induction positions generalizing text segments m with
  | nil =>
      rw [List.length_nil, List.drop_zero, hcut.flatten]
      rfl
  | cons position positions ih =>
      have hlines : (List.range (positions.length + 1)).map ((segments.map content)[·]?) =
          segments.head?.map content ::
            (List.range positions.length).map ((segments.tail.map content)[·]?) := by
        simp [List.range_succ_eq_map, List.head?_eq_getElem?, List.getElem?_tail]
      rw [List.mapM_cons, Eval.bind_ok (hcut.nextLine? position m), Eval.bind_ok (ih hcut.tail m),
        List.length_cons, hlines, List.drop_tail]
      rfl

end Cut

end Input

/-! ## Numbers on lines -/

/-- The number on a line is what was written there, whatever blanks stand around it. -/
theorem Primitive.numberOn_content (n : Int64) {before after : List Char}
    (hbefore : ∀ c ∈ before, Text.isBlank c = true) (hafter : ∀ c ∈ after, Text.isBlank c = true) :
    numberOn (Input.content (before ++ (Text.decimal n).toList ++ after)) = n := by
  have hdigits : ∀ c ∈ (Text.decimal n).toList, Text.isBlank c = false :=
    fun c hc => Text.isBlank_of_mem_decimal hc
  have hkept : ∀ c ∈ (Text.decimal n).toList, Input.isTerminator c = false := by
    intro c hc
    have hnewline : c ≠ '\n' := Text.ne_of_isBlank_eq_false (hdigits c hc) rfl
    have hreturn : c ≠ '\r' := Text.ne_of_isBlank_eq_false (hdigits c hc) rfl
    simp [Input.isTerminator, hnewline, hreturn]
  have hne := Text.toList_decimal_ne_nil n
  rw [numberOn, Input.content, String.toList_ofList, Text.dropEndWhile_append hne hkept,
    Text.trim_append hbefore hne hdigits fun c hc => hafter c (Text.mem_of_mem_dropEndWhile hc),
    Text.int64?_toList_decimal]
  rfl

/-- A number is read from a line that has nothing else but blanks. -/
theorem Primitive.perform_inInt_decimal (n : Int64) {before after : List Char}
    (hbefore : ∀ c ∈ before, Text.isBlank c = true ∧ c ≠ '\n')
    (hafter : ∀ c ∈ after, Text.isBlank c = true ∧ c ≠ '\n') (receiver : Value)
    (position : Position) {m : Machine} {rest : Input}
    (hinput : m.input =
      Input.bytesOf (before ++ (Text.decimal n).toList ++ after ++ ['\n']) ++ rest) :
    inInt.perform receiver [] position m = .ok (.int n) { m with input := rest } := by
  have hline : '\n' ∉ before ++ (Text.decimal n).toList ++ after := by
    simp only [List.mem_append, not_or]
    refine ⟨⟨fun hc => (hbefore _ hc).2 rfl, fun hc => ?_⟩, fun hc => (hafter _ hc).2 rfl⟩
    exact Text.ne_of_isBlank_eq_false (Text.isBlank_of_mem_decimal hc) (d := '\n') rfl rfl
  have hread := Input.readLine_line hline rest
  rw [← hinput, List.append_assoc _ after] at hread
  have hblank : ∀ c ∈ after ++ ['\n'], Text.isBlank c = true :=
    List.forall_mem_append.mpr ⟨fun c hc => (hafter c hc).1, List.forall_mem_singleton.mpr rfl⟩
  have hnumber := numberOn_content n (fun c hc => (hbefore c hc).1) hblank
  change (nextLine? position >>= fun line =>
    pure (Value.int ((line.map numberOn).getD 0))) m = _
  rw [Eval.bind_ok (Input.nextLine?_of_readLine position hread), Option.map_some, hnumber]
  rfl

/-- **Input is read by lines, and numbers are read as they were written.** Whatever text the input
encodes, it is read segment by segment: each read yields the next segment without its line ends, or
nothing behind the last, and leaves the segments behind it. A number that is written is read back
from a line that has nothing else but blanks. -/
theorem input_read_by_lines :
    (∀ (bytes : Input) (s : String), String.fromUTF8? ⟨bytes.toArray⟩ = some s →
      ∃ segments lines, Input.Cut s.toList segments ∧ segments.flatten = s.toList ∧
        List.Forall₂ (fun segment (line : String) => Input.Strips segment line.toList) segments
          lines ∧
        ∀ (positions : List Position) (m : Machine), m.input = bytes →
          positions.mapM Primitive.nextLine? m =
            .ok ((List.range positions.length).map (lines[·]?))
              { m with input := Input.bytesOf (segments.drop positions.length).flatten }) ∧
    ∀ (n : Int64) (receiver : Value) (position : Position) (m : Machine),
      ∃ written : String,
        Primitive.outInt.perform receiver [.int n] position m =
          .ok receiver { m with output := m.output ++ written } ∧
        ∀ before after : List Char, (∀ c ∈ before, Text.isBlank c = true ∧ c ≠ '\n') →
          (∀ c ∈ after, Text.isBlank c = true ∧ c ≠ '\n') →
          ∀ (receiver : Value) (position : Position) (m : Machine) (rest : Input),
            m.input = Input.bytesOf (before ++ written.toList ++ after ++ ['\n']) ++ rest →
            Primitive.inInt.perform receiver [] position m =
              .ok (.int n) { m with input := rest } := by
  refine ⟨fun bytes s hs => ?_, fun n receiver position m => ?_⟩
  · obtain ⟨segments, hcut⟩ := Input.exists_cut s.toList
    refine ⟨segments, segments.map Input.content, hcut, hcut.flatten, ?_, ?_⟩
    · exact List.forall₂_map_right_iff.mpr (List.forall₂_same.mpr fun x _ => Input.strips_content x)
    · rintro positions m rfl
      have hall := hcut.mapM_nextLine? positions m
      rwa [← Input.eq_bytesOf hs] at hall
  · refine ⟨Text.decimal n, rfl, ?_⟩
    intro before after hbefore hafter receiver position m rest hinput
    exact Primitive.perform_inInt_decimal n hbefore hafter receiver position hinput

/-- Carriage returns before a line end, an empty line, and a last line that has no end. -/
def untidy : String := "a\r\r\n\n é"

theorem input_read_by_lines_untidy :
    String.fromUTF8? ⟨(Input.bytesOf untidy.toList).toArray⟩ = some untidy ∧
    (∃ segments lines, Input.Cut untidy.toList segments ∧ segments.flatten = untidy.toList ∧
      List.Forall₂ (fun segment (line : String) => Input.Strips segment line.toList) segments
        lines ∧
      (List.range 4).map (lines[·]?) = [some "a", some "", some " é", none]) ∧
    ∃ written : String,
      Primitive.outInt.perform .void [.int Int64.minValue] (.first "") (.initial .initial []) =
        .ok .void { Machine.initial .initial [] with output := "" ++ written } ∧
      Primitive.inInt.perform .void [] (.first "") (.initial .initial
        (Input.bytesOf ([' ', '\t'] ++ written.toList ++ ['\r'] ++ ['\n']) ++ [0xff])) =
          .ok (.int Int64.minValue) (.initial .initial [0xff]) := by
  have hs := Input.fromUTF8?_bytesOf untidy
  refine ⟨hs, ?_, ?_⟩
  · obtain ⟨segments, lines, hcut, hflatten, hlines, hreads⟩ :=
      input_read_by_lines.1 _ untidy hs
    have hread := hreads [.first "", .first "", .first "", .first ""]
      (.initial .initial (Input.bytesOf untidy.toList)) rfl
    have hvalues : (([.first "", .first "", .first "", .first ""] : List Position).mapM
        Primitive.nextLine?).run' (.initial .initial (Input.bytesOf untidy.toList)) =
          some [some "a", some "", some " é", none] := by
      decide +kernel
    delta EStateM.run' EStateM.run at hvalues
    rw [hread] at hvalues
    exact ⟨segments, lines, hcut, hflatten, hlines, Option.some.inj hvalues⟩
  · have hbefore : ∀ c ∈ [' ', '\t'], Text.isBlank c = true ∧ c ≠ '\n' := by
      simp [Text.isBlank]
    have hafter : ∀ c ∈ ['\r'], Text.isBlank c = true ∧ c ≠ '\n' := by
      simp [Text.isBlank]
    obtain ⟨written, hwrite, hread⟩ :=
      input_read_by_lines.2 Int64.minValue .void (.first "") (.initial .initial [])
    exact ⟨written, hwrite, hread _ _ hbefore hafter .void (.first "") _ [0xff] rfl⟩

end CoolLang
