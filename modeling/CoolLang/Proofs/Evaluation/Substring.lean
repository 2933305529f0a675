import CoolLang.Evaluation.Primitive

/-!
# Parts of a text

The operations of strings count characters, and they count them in 64-bit numbers. A part of a text
can be cut out exactly if it lies within the text; cutting and joining undo each other.
-/

namespace CoolLang

/-! ## Parts -/

/-- The `length` characters of a text from the character `start` on. -/
def Text.part (text : String) (start length : Nat) : String :=
  String.ofList ((text.toList.drop start).take length)

namespace Text

theorem length_part {text : String} {start length : Nat} (h : start + length ≤ text.length) :
    (part text start length).length = length := by
  rw [part, String.length_ofList, List.length_take, List.length_drop, String.length_toList]
  omega

theorem getElem?_part (text : String) (start : Nat) {length i : Nat} (hi : i < length) :
    (part text start length).toList[i]? = text.toList[start + i]? := by
  rw [part, String.toList_ofList, List.getElem?_take, if_pos hi, List.getElem?_drop]

theorem part_append_part (text : String) (i : Nat) :
    part text 0 i ++ part text i (text.length - i) = text := by
  apply String.ext
  have hall : (text.toList.drop i).take (text.length - i) = text.toList.drop i := by
    rw [← String.length_toList, ← List.length_drop, List.take_length]
  rw [part, part, String.toList_append, String.toList_ofList, String.toList_ofList, hall,
    List.drop_zero, List.take_append_drop]

theorem part_append_left (text other : String) :
    part (text ++ other) 0 text.length = text := by
  apply String.ext
  rw [part, String.toList_ofList, String.toList_append, ← String.length_toList, List.drop_zero,
    List.take_left]

theorem part_append_right (text other : String) :
    part (text ++ other) text.length other.length = other := by
  apply String.ext
  rw [part, String.toList_ofList, String.toList_append, ← String.length_toList (s := text),
    List.drop_left, ← String.length_toList, List.take_length]

end Text

open Text

namespace Primitive

/-! ## The test of the range -/

/-- The `length` characters from the character `start` on lie within a text of `size` characters. -/
structure InRange (size : Nat) (start length : Int64) : Prop where
  start_nonneg : 0 ≤ start.toInt
  length_nonneg : 0 ≤ length.toInt
  stop_le : start.toInt + length.toInt ≤ size

/-- A number that is not negative counts something. -/
theorem exists_eq_ofNat {n : Int64} (hn : 0 ≤ n.toInt) :
    ∃ k : Nat, k < Nat.pow 2 63 ∧ n = Int64.ofNat k ∧ n.toInt = k := by
  obtain ⟨k, hk⟩ := Int.eq_ofNat_of_zero_le hn
  have hlt := n.toInt_lt
  refine ⟨k, ?_, ?_, hk⟩
  · show k < 2 ^ 63
    omega
  · rw [← Int64.ofInt_eq_ofNat, ← hk, Int64.ofInt_toInt]

theorem inRange_ofNat {size start length : Nat} (hstart : start < Nat.pow 2 63)
    (hlength : length < Nat.pow 2 63) :
    InRange size (Int64.ofNat start) (Int64.ofNat length) ↔ start + length ≤ size := by
  have hs := Int64.toInt_ofNat_of_lt hstart
  have hl := Int64.toInt_ofNat_of_lt hlength
  constructor
  · rintro ⟨-, -, hstop⟩
    omega
  · intro hstop
    exact ⟨by omega, by omega, by omega⟩

theorem toInt_cappedSum (a b : Int64) : (cappedSum a b).toInt =
    max Int64.minValue.toInt (min (a.toInt + b.toInt) Int64.maxValue.toInt) := by
  have hmin := Int64.toInt_minValue
  have hmax := Int64.toInt_maxValue
  exact Int64.toInt_ofInt_of_le (by omega) (by omega)

/-- The range as it is tested, in 64-bit numbers. -/
def PassesTest (size : Nat) (start length : Int64) : Prop :=
  0 ≤ start ∧ 0 ≤ length ∧ cappedSum start length ≤ Int64.ofNat size

section

variable {size : Nat} {start length : Int64}

theorem passesTest_iff (hsize : size < Nat.pow 2 63) : PassesTest size start length ↔
    0 ≤ start.toInt ∧ 0 ≤ length.toInt ∧
      max Int64.minValue.toInt (min (start.toInt + length.toInt) Int64.maxValue.toInt) ≤ size := by
  rw [PassesTest, Int64.le_iff_toInt_le, Int64.le_iff_toInt_le, Int64.le_iff_toInt_le,
    toInt_cappedSum, Int64.toInt_zero, Int64.toInt_ofNat_of_lt hsize]

theorem InRange.passesTest (hsize : size < Nat.pow 2 63) (h : InRange size start length) :
    PassesTest size start length := by
  have hmin := Int64.toInt_minValue
  obtain ⟨hstart, hlength, hstop⟩ := h
  exact (passesTest_iff hsize).mpr ⟨hstart, hlength, by omega⟩

/-- The test is exact. A sum beyond all numbers is still told from the size, since the size is not
the greatest of them. -/
theorem inRange_iff_passesTest (hsize : size + 1 < Nat.pow 2 63) :
    InRange size start length ↔ PassesTest size start length := by
  have hlt : size + 1 < 2 ^ 63 := hsize
  have hmax := Int64.toInt_maxValue
  refine ⟨InRange.passesTest (Nat.lt_of_succ_lt hsize), fun h => ?_⟩
  obtain ⟨hstart, hlength, hstop⟩ := (passesTest_iff (Nat.lt_of_succ_lt hsize)).mp h
  exact ⟨hstart, hlength, by omega⟩

end

theorem substring?_of_passesTest {text : String} {start length : Int64}
    (h : PassesTest text.length start length) :
    substring? text start length = some (part text start.toInt.toNat length.toInt.toNat) := by
  obtain ⟨hstart, hlength, hstop⟩ := h
  rw [substring?, if_neg, Int64.toNat_toInt, Int64.toNat_toInt]
  · rfl
  · rintro (hlt | hlt | hlt)
    · exact Int64.not_le.mpr hlt hstart
    · exact Int64.not_le.mpr hlt hlength
    · exact Int64.not_le.mpr hlt hstop

theorem substring?_of_not_passesTest {text : String} {start length : Int64}
    (h : ¬ PassesTest text.length start length) : substring? text start length = none := by
  refine if_pos (Decidable.byContradiction fun hnot => h ?_)
  rw [not_or, not_or, Int64.not_lt, Int64.not_lt] at hnot
  exact ⟨hnot.1, hnot.2.1, Int64.not_lt.mp hnot.2.2⟩

/-! ## The operations -/

/-- The operation yields the value on every machine, and leaves the machine as it is. -/
def Gives (operation : Primitive) (receiver : Value) (arguments : List Value) (v : Value) : Prop :=
  ∀ (position : Position) (m : Machine), operation.perform receiver arguments position m = .ok v m

theorem gives_length (text : String) :
    Gives .length (.str text) [] (.int (Int64.ofNat text.length)) :=
  fun _ _ => rfl

theorem gives_concat (text suffix : String) :
    Gives .concat (.str text) [.str suffix] (.str (text ++ suffix)) :=
  fun _ _ => rfl

theorem gives_substr {text : String} {start length : Int64} (htext : text.length < Nat.pow 2 63)
    (h : InRange text.length start length) :
    Gives .substr (.str text) [.int start, .int length]
      (.str (part text start.toInt.toNat length.toInt.toNat)) := by
  intro position m
  unfold perform
  dsimp only
  rw [substring?_of_passesTest (h.passesTest htext)]
  rfl

theorem perform_substr_of_not_inRange {text : String} {start length : Int64}
    (htext : text.length + 1 < Nat.pow 2 63) (h : ¬ InRange text.length start length)
    (position : Position) (m : Machine) :
    Primitive.substr.perform (.str text) [.int start, .int length] position m =
      .error (.fault ⟨.substringOutOfRange start length text.length, position⟩) m := by
  unfold perform
  dsimp only
  rw [inRange_iff_passesTest htext] at h
  rw [substring?_of_not_passesTest h]
  rfl

theorem gives_substr_ofNat {text : String} {start length : Nat}
    (htext : text.length < Nat.pow 2 63) (hstop : start + length ≤ text.length) :
    Gives .substr (.str text) [.int (Int64.ofNat start), .int (Int64.ofNat length)]
      (.str (part text start length)) := by
  have hstart : start < Nat.pow 2 63 := by omega
  have hlength : length < Nat.pow 2 63 := by omega
  have hgives := gives_substr htext ((inRange_ofNat hstart hlength).mpr hstop)
  rwa [Int64.toInt_ofNat_of_lt hstart, Int64.toInt_ofNat_of_lt hlength, Int.toNat_natCast,
    Int.toNat_natCast] at hgives

theorem gives_substr_zero {text : String} {length : Nat} (htext : text.length < Nat.pow 2 63)
    (hle : length ≤ text.length) :
    Gives .substr (.str text) [.int 0, .int (Int64.ofNat length)] (.str (part text 0 length)) :=
  gives_substr_ofNat htext (by rwa [Nat.zero_add])

/-- **A part of a text is cut out exactly where it lies within the text.** Numbers that do not
describe such a part are refused with the numbers and the size of the text; no pair of numbers is
too large to be told, unless the size is the greatest number. What is cut out has the characters of
that part and the length that was asked for. A text is joined again from its two parts at any place,
and what was joined is cut apart again by the lengths of the parts. The test is made in 64-bit
numbers with a sum that stops at the greatest. -/
theorem substr_exact (text : String) (htext : text.length < Nat.pow 2 63) :
    (∀ start length : Int64, InRange text.length start length →
      ∃ part : String, Gives .substr (.str text) [.int start, .int length] (.str part) ∧
        (∀ i : Nat, i < length.toInt.toNat →
          part.toList[i]? = text.toList[start.toInt.toNat + i]?) ∧
        part.length = length.toInt ∧ Gives .length (.str part) [] (.int length)) ∧
    (text.length + 1 < Nat.pow 2 63 →
      ∀ start length : Int64, ¬ InRange text.length start length → ∀ position m,
      Primitive.substr.perform (.str text) [.int start, .int length] position m =
        .error (.fault ⟨.substringOutOfRange start length text.length, position⟩) m) ∧
    (∀ i : Int64, 0 ≤ i.toInt → i.toInt ≤ text.length → ∃ (n : Int64) (left right : String),
      Gives .length (.str text) [] (.int n) ∧ n.toInt = text.length ∧
      Gives .substr (.str text) [.int 0, .int i] (.str left) ∧
      Gives .substr (.str text) [.int i, .int (n - i)] (.str right) ∧
      Gives .concat (.str left) [.str right] (.str text)) ∧
    (∀ other : String, text.length + other.length < Nat.pow 2 63 → ∃ (n k : Int64) (whole : String),
      Gives .length (.str text) [] (.int n) ∧ Gives .length (.str other) [] (.int k) ∧
      Gives .concat (.str text) [.str other] (.str whole) ∧
      Gives .substr (.str whole) [.int 0, .int n] (.str text) ∧
      Gives .substr (.str whole) [.int n, .int k] (.str other)) ∧
    (text.length + 1 < Nat.pow 2 63 → ∀ start length : Int64,
      InRange text.length start length ↔
        0 ≤ start ∧ 0 ≤ length ∧ cappedSum start length ≤ Int64.ofNat text.length) := by
  refine ⟨fun start length h => ?_, fun hsize _ _ => perform_substr_of_not_inRange hsize, ?_, ?_,
    fun hsize _ _ => inRange_iff_passesTest hsize⟩
  · obtain ⟨s, hs, rfl, hstart⟩ := exists_eq_ofNat h.start_nonneg
    obtain ⟨l, hl, rfl, hlength⟩ := exists_eq_ofNat h.length_nonneg
    have hsize := length_part ((inRange_ofNat hs hl).mp h)
    have hgives := gives_length (part text s l)
    rw [hsize] at hgives
    rw [hstart, hlength, Int.toNat_natCast, Int.toNat_natCast]
    refine ⟨part text s l, gives_substr_ofNat htext ((inRange_ofNat hs hl).mp h), ?_, ?_, hgives⟩
    · exact fun i hi => getElem?_part text s hi
    · rw [hsize]
  · intro i hi hle
    obtain ⟨k, hk, rfl, hik⟩ := exists_eq_ofNat hi
    have hle : k ≤ text.length := by omega
    refine ⟨Int64.ofNat text.length, part text 0 k, part text k (text.length - k),
      gives_length text, Int64.toInt_ofNat_of_lt htext, ?_, ?_, ?_⟩
    · exact gives_substr_zero htext hle
    · rw [← Int64.ofNat_sub _ _ hle]
      exact gives_substr_ofNat htext (by omega)
    · have hgives := gives_concat (part text 0 k) (part text k (text.length - k))
      rwa [part_append_part] at hgives
  · intro other hother
    have hsize := String.length_append text other
    rw [← hsize] at hother
    refine ⟨Int64.ofNat text.length, Int64.ofNat other.length, text ++ other, gives_length text,
      gives_length other, gives_concat text other, ?_, ?_⟩
    · have hgives := gives_substr_zero hother (Nat.le.intro hsize.symm)
      rwa [part_append_left] at hgives
    · have hgives := gives_substr_ofNat hother (Nat.le_of_eq hsize.symm)
      rwa [part_append_right] at hgives

/-- Characters of one to four bytes, and numbers whose sum is no 64-bit number. -/
theorem substr_exact_mixed :
    (∃ part : String, Gives .substr (.str "aé€𝄞b") [.int 2, .int 2] (.str part) ∧
      part.length = 2 ∧ Gives .length (.str part) [] (.int 2)) ∧
    (∀ position m,
      Primitive.substr.perform (.str "aé€𝄞b") [.int 5, .int Int64.maxValue] position m =
        .error (.fault ⟨.substringOutOfRange 5 Int64.maxValue 5, position⟩) m) ∧
    (∃ (n : Int64) (left right : String), Gives .length (.str "aé€𝄞b") [] (.int n) ∧ n.toInt = 5 ∧
      Gives .substr (.str "aé€𝄞b") [.int 0, .int 3] (.str left) ∧
      Gives .substr (.str "aé€𝄞b") [.int 3, .int (n - 3)] (.str right) ∧
      Gives .concat (.str left) [.str right] (.str "aé€𝄞b")) ∧
    ∃ (n k : Int64) (whole : String), Gives .length (.str "aé€𝄞b") [] (.int n) ∧
      Gives .length (.str "é") [] (.int k) ∧ Gives .concat (.str "aé€𝄞b") [.str "é"] (.str whole) ∧
      Gives .substr (.str whole) [.int 0, .int n] (.str "aé€𝄞b") ∧
      Gives .substr (.str whole) [.int n, .int k] (.str "é") := by
  obtain ⟨hcut, hrefused, hhalves, hjoined, -⟩ := substr_exact "aé€𝄞b" (by decide)
  refine ⟨?_, ?_, hhalves 3 (by decide) (by decide), hjoined "é" (by decide)⟩
  · obtain ⟨part, hpart, -, hlength, hgives⟩ := hcut 2 2 ⟨by decide, by decide, by decide⟩
    exact ⟨part, hpart, Int.ofNat_inj.mp hlength, hgives⟩
  · refine hrefused (by decide) 5 Int64.maxValue fun h => ?_
    exact absurd h.stop_le (by decide)

end Primitive

end CoolLang
