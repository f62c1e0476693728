import Lox.Evaluation.Console
import Mathlib.Tactic.SplitIfs

/-!
The lines of a text that comes as input. A text is cut after each newline; cutting its bytes instead
gives the same lines, since no other character has the byte of a newline in its encoding.
-/

namespace Lox.InputLine

/-- The pieces of a text that is cut after each newline. -/
def pieces : List Char → List (List Char)
  | [] => []
  | c :: cs =>
    if c = '\n' then [c] :: pieces cs
    else
      match pieces cs with
      | [] => [[c]]
      | line :: lines => (c :: line) :: lines

/-- The lines of a text. -/
def ofText (text : List Char) : List InputLine :=
  (pieces text).map fun line => .text (String.ofList line)

/-- The bytes of a text. -/
def utf8 (text : List Char) : List UInt8 :=
  text.flatMap String.utf8EncodeChar

variable {line rest : List Char}

/-- Nothing of a text is lost when it is cut. -/
lemma pieces_flatten (text : List Char) : (pieces text).flatten = text := by
  induction text with
  | nil => rfl
  | cons c cs ih =>
    rw [pieces]
    split
    · rw [List.flatten_cons, ih, List.singleton_append]
    · cases h : pieces cs with
      | nil => simpa [h] using ih
      | cons line lines => simpa [h] using ih

example : pieces "a\r\n\nb".toList = ["a\r\n".toList, "\n".toList, "b".toList] := by decide

/-- A text ends its first piece with its first newline. -/
lemma pieces_newline (unbroken : '\n' ∉ line) :
    pieces (line ++ '\n' :: rest) = (line ++ ['\n']) :: pieces rest := by
  induction line with
  | nil => simp [pieces]
  | cons c line ih =>
    simp only [List.mem_cons, not_or] at unbroken
    simp [pieces, ih unbroken.2, Ne.symm unbroken.1]

/-- A text without newlines is one piece. -/
lemma pieces_unbroken (unbroken : '\n' ∉ line) (proper : line ≠ []) : pieces line = [line] := by
  induction line with
  | nil => exact absurd rfl proper
  | cons c line ih =>
    simp only [List.mem_cons, not_or] at unbroken
    cases line with
    | nil => simp [pieces, Ne.symm unbroken.1]
    | cons d line =>
      rw [pieces, if_neg (Ne.symm unbroken.1), ih unbroken.2 (by simp)]

section

variable {c : Char} {bytes more : List UInt8}

/-- Only a newline has its byte in its encoding. -/
lemma newline_not_mem_encode (other : c ≠ '\n') : 10 ∉ String.utf8EncodeChar c := by
  have value : c.val.toNat ≠ 10 := fun same => other (Char.ext (UInt32.toNat_inj.mp same))
  have byte {n : Nat} (small : n < 256) (differs : n ≠ 10) : (10 : UInt8) ≠ UInt8.ofNat n := by
    intro same
    have numbers := congrArg UInt8.toNat same
    simp only [UInt8.toNat_ofNat, UInt8.toNat_ofNat'] at numbers
    omega
  rw [String.utf8EncodeChar]
  split_ifs <;> simp only [List.mem_cons, List.not_mem_nil, or_false, not_or]
  · exact byte (by omega) value
  · exact ⟨byte (by omega) (by omega), byte (by omega) (by omega)⟩
  · exact ⟨byte (by omega) (by omega), byte (by omega) (by omega), byte (by omega) (by omega)⟩
  · exact ⟨byte (by omega) (by omega), byte (by omega) (by omega), byte (by omega) (by omega),
      byte (by omega) (by omega)⟩

lemma cutBytes_append (unbroken : 10 ∉ bytes) (line : List UInt8) :
    cutBytes line (bytes ++ more) = cutBytes (bytes.reverse ++ line) more := by
  induction bytes generalizing line with
  | nil => rfl
  | cons b bytes ih =>
    simp only [List.mem_cons, not_or] at unbroken
    rw [List.cons_append, cutBytes, if_neg (Ne.symm unbroken.1), ih unbroken.2]
    simp

end

lemma utf8_append (text more : List Char) : utf8 (text ++ more) = utf8 text ++ utf8 more :=
  List.flatMap_append

/-- The bytes of a text are cut where the text is. -/
lemma cutBytes_utf8 (begun text : List Char) (unbroken : '\n' ∉ begun) :
    cutBytes (utf8 begun).reverse (utf8 text) = (pieces (begun ++ text)).map utf8 := by
  induction text generalizing begun with
  | nil =>
    cases begun with
    | nil => rfl
    | cons c begun =>
      rw [List.append_nil, pieces_unbroken unbroken (by simp)]
      simp [cutBytes, utf8]
  | cons c text ih =>
    by_cases newline : c = '\n'
    · subst newline
      have first : utf8 ('\n' :: text) = 10 :: utf8 text := rfl
      have ended : utf8 (begun ++ ['\n']) = utf8 begun ++ [10] := utf8_append _ _
      rw [pieces_newline unbroken, List.map_cons, first, cutBytes, if_pos rfl, ended,
        List.reverse_cons, List.reverse_reverse]
      exact congrArg _ (ih [] (by simp))
    · have first : utf8 (c :: text) = String.utf8EncodeChar c ++ utf8 text := rfl
      have more : utf8 (begun ++ [c]) = utf8 begun ++ String.utf8EncodeChar c := by
        rw [utf8_append]
        simp [utf8]
      rw [first, cutBytes_append (newline_not_mem_encode newline), ← List.reverse_append, ← more,
        ih (begun ++ [c]) (by simp [unbroken, Ne.symm newline]), List.append_assoc]
      rfl

/-- The bytes of a text are read as the text. -/
lemma ofLine_utf8 (text : List Char) : ofLine (utf8 text) = .text (String.ofList text) := by
  have bytes : ByteArray.mk (utf8 text).toArray = text.utf8Encode :=
    congrArg ByteArray.mk List.data_toByteArray.symm
  have valid : text.utf8Encode.IsValidUTF8 := ⟨text, rfl⟩
  simp only [ofLine, bytes, String.fromUTF8?, dif_pos valid]
  rfl

/-- A stream of the bytes of a text has the lines of the text. -/
theorem ofBytes_utf8 (text : List Char) : ofBytes (utf8 text) = ofText text := by
  have cut : cutBytes [] (utf8 text) = (pieces text).map utf8 := cutBytes_utf8 [] text (by simp)
  rw [ofBytes, cut, List.map_map, ofText]
  exact List.map_congr_left fun line _ => ofLine_utf8 line

end Lox.InputLine
