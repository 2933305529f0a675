import CoolLang.Proofs.Token.Delimited
import Mathlib.Algebra.GroupWithZero.Nat
import Mathlib.Data.List.Infix

/-!
# Moves of a cursor

A cursor is moved by bytes of the encoded source. Where a number of moves leads is told by the bytes
that they pass together: the text behind the cursor gives its line and column and the rest of the
source, and the places at which the moves were divided are forgotten. Only these places have to lie
between two characters.
-/

namespace CoolLang

/-- Of two ways to cut a text in two, the one that leaves fewer bytes in front cuts within the front
part of the other. -/
theorem Text.exists_between {front back front' back' : String}
    (hsame : front ++ back = front' ++ back') (hle : front.utf8ByteSize ≤ front'.utf8ByteSize) :
    ∃ mid, front' = front ++ mid ∧ back = mid ++ back' := by
  have hlist : front.toList ++ back.toList = front'.toList ++ back'.toList := by
    rw [← String.toList_append, ← String.toList_append, hsame]
  rcases List.append_eq_append_iff.mp hlist with ⟨mid, hfront, hback⟩ | ⟨mid, hfront, hback⟩
  · refine ⟨.ofList mid, String.toList_injective ?_, String.toList_injective ?_⟩
    · simpa using hfront
    · simpa using hback
  · -- the other way round there are no bytes left for what lies between
    have hsplit : front = front' ++ .ofList mid := String.toList_injective (by simpa using hfront)
    rw [hsplit, String.utf8ByteSize_append] at hle
    have hempty : String.ofList mid = "" := String.utf8ByteSize_eq_zero_iff.mp (by omega)
    obtain rfl : mid = [] := by simpa using hempty
    refine ⟨"", String.toList_injective ?_, String.toList_injective ?_⟩
    · simpa using hfront.symm
    · simpa using hback.symm

namespace Cursor

/-! ## One move -/

/-- Within the bytes of a text and some more lie its characters and those within the others. -/
theorem charsWithin_append (front back : List Char) (more : Nat) :
    charsWithin ((String.ofList front).utf8ByteSize + more) (front ++ back) =
      front.length + charsWithin more back := by
  induction front with
  | nil => simp
  | cons c front ih =>
      have hsize : (String.ofList (c :: front)).utf8ByteSize =
          c.utf8Size + (String.ofList front).utf8ByteSize := by
        rw [String.ofList_cons, String.utf8ByteSize_append, String.utf8ByteSize_singleton]
      rw [List.cons_append, charsWithin, if_pos (by omega), hsize, Nat.add_assoc,
        Nat.add_sub_cancel_left, ih, List.length_cons]
      omega

theorem charsWithin_zero (text : List Char) : charsWithin 0 text = 0 := by
  cases text with
  | nil => rfl
  | cons c text => rw [charsWithin, if_neg (by have := c.utf8Size_pos; omega)]

/-- A move over the bytes of a text, or over more if there is nothing behind it. -/
theorem dropBytes_eq {c : Cursor} {front back : String} {n : Nat}
    (hrest : c.rest = (front ++ back).toList) (hle : front.utf8ByteSize ≤ n)
    (hn : front.utf8ByteSize = n ∨ back = "") :
    c.dropBytes n = ⟨back.toList, c.position.after front.toList⟩ := by
  rw [String.toList_append] at hrest
  refine drop_eq hrest ?_
  obtain ⟨more, rfl⟩ := Nat.exists_eq_add_of_le hle
  have hchars := charsWithin_append front.toList back.toList more
  rw [String.ofList_toList] at hchars
  rw [hrest, hchars]
  rcases hn with hn | rfl
  · rw [Nat.left_eq_add.mp hn, charsWithin_zero, Nat.add_zero]
  · rfl

/-- The place so many bytes into the source, or its end if it has fewer. -/
def clipped (source : String) (bytes : Nat) : String.Pos.Raw :=
  ⟨min bytes source.utf8ByteSize⟩

/-- The cursor stands in the source behind so many bytes of it, or at its end if it has fewer. -/
def Passed (source file : String) (bytes : Nat) (c : Cursor) : Prop :=
  ∃ passed left : String, source = passed ++ left ∧ passed.rawEndPos = clipped source bytes ∧
    c = ⟨left.toList, .behind file passed.toList⟩

variable {source file : String} {bytes : Nat} {c c' : Cursor}

theorem size_of_rawEndPos {passed : String} (h : passed.rawEndPos = clipped source bytes) :
    passed.utf8ByteSize = min bytes source.utf8ByteSize :=
  congrArg String.Pos.Raw.byteIdx h

theorem Passed.unique (hc : c.Passed source file bytes) (hc' : c'.Passed source file bytes) :
    c = c' := by
  obtain ⟨passed, left, hsource, hpassed, rfl⟩ := hc
  obtain ⟨passed', left', hsource', hpassed', rfl⟩ := hc'
  have hsize := size_of_rawEndPos hpassed
  have hsize' := size_of_rawEndPos hpassed'
  obtain ⟨mid, rfl, rfl⟩ := Text.exists_between (hsource.symm.trans hsource') (by omega)
  rw [String.utf8ByteSize_append] at hsize'
  obtain rfl : mid = "" := String.utf8ByteSize_eq_zero_iff.mp (by omega)
  simp

/-- A move adds its bytes to those that were passed, if it comes to stand between two characters. -/
theorem Passed.dropBytes {n : Nat} (hc : c.Passed source file bytes)
    (hvalid : (clipped source (bytes + n)).IsValid source) :
    (c.dropBytes n).Passed source file (bytes + n) := by
  obtain ⟨passed, left, hsource, hpassed, rfl⟩ := hc
  obtain ⟨passed', left', hsource', hpassed'⟩ := String.Pos.Raw.isValid_iff_exists_append.mp hvalid
  have hsize := size_of_rawEndPos hpassed
  have hsize' := size_of_rawEndPos hpassed'.symm
  have hall := congrArg String.utf8ByteSize hsource'
  rw [String.utf8ByteSize_append] at hall
  obtain ⟨mid, rfl, rfl⟩ := Text.exists_between (hsource.symm.trans hsource') (by omega)
  rw [String.utf8ByteSize_append] at hsize' hall
  refine ⟨passed ++ mid, left', hsource', hpassed'.symm, ?_⟩
  -- a move that is not as long as what it passes has come to the end
  have hend : mid.utf8ByteSize = n ∨ left' = "" := by
    rw [← String.utf8ByteSize_eq_zero_iff]
    omega
  rw [dropBytes_eq rfl (by omega) hend, Position.after_behind, String.toList_append]

theorem Passed.foldl {steps : List Nat} (hc : c.Passed source file bytes)
    (hvalid : ∀ done, done <+: steps → (clipped source (bytes + done.sum)).IsValid source) :
    (steps.foldl Cursor.dropBytes c).Passed source file (bytes + steps.sum) := by
  induction steps generalizing c bytes with
  | nil => exact hc
  | cons n steps ih =>
      rw [List.sum_cons, ← Nat.add_assoc]
      have hfirst := hvalid [n] (List.prefix_append [n] steps)
      rw [List.sum_singleton] at hfirst
      refine ih (hc.dropBytes hfirst) fun done hdone => ?_
      have hnext := hvalid (n :: done) (List.cons_prefix_cons.mpr ⟨rfl, hdone⟩)
      rwa [List.sum_cons, ← Nat.add_assoc] at hnext

end Cursor

end CoolLang
