/-
# Texts as bytes

A text is kept as its UTF-8 bytes, character after character. The byte of a line end
occurs in no other character, so cutting the bytes at line ends cuts the text at line
ends, and each piece is the text of its line again.
-/

import ChronoSat.Proofs.Text.Cutting

namespace ChronoSat.Text

/-! ## Bytes as a list -/

theorem toList_loop_eq (bytes : ByteArray) (place : Nat) (collected : List UInt8) :
    ByteArray.toList.loop bytes place collected =
      collected.reverse ++ bytes.data.toList.drop place := by
  fun_induction ByteArray.toList.loop with
  | case1 place collected inside ih =>
      have bound : place < bytes.data.toList.length := by simpa using inside
      have here : bytes.get! place = bytes.data.toList[place] := by
        simp only [ByteArray.get!, Array.getElem_toList]
        exact getElem!_pos bytes.data place (by simpa using inside)
      rw [ih, List.drop_eq_getElem_cons bound, here]
      simp
  | case2 place collected outside =>
      have bound : bytes.data.toList.length ≤ place := by simpa using outside
      simp [List.drop_eq_nil_of_le bound]

theorem toList_eq_toList_data (bytes : ByteArray) : bytes.toList = bytes.data.toList := by
  rw [ByteArray.toList, toList_loop_eq]
  simp

/-! ## Characters as bytes -/

/-- The bytes of characters, one character after the other. -/
def encoded (characters : List Char) : List UInt8 :=
  characters.flatMap String.utf8EncodeChar

theorem encoded_append (front back : List Char) :
    encoded (front ++ back) = encoded front ++ encoded back :=
  List.flatMap_append

theorem utf8Encode_eq (characters : List Char) :
    characters.utf8Encode = ⟨(encoded characters).toArray⟩ := by
  apply ByteArray.ext
  simp [List.utf8Encode, encoded]

theorem toList_toUTF8 (text : String) : text.toUTF8.toList = encoded text.toList := by
  rw [toList_eq_toList_data, String.toUTF8_eq_toByteArray, ← String.utf8Encode_toList,
    utf8Encode_eq]

/-- Encoded characters are a text, and they are the text of these characters. -/
theorem text?_encoded (characters : List Char) :
    Dimacs.text? (encoded characters) = some (String.ofList characters) := by
  have valid : (ByteArray.mk (encoded characters).toArray).IsValidUTF8 :=
    ⟨characters, (utf8Encode_eq characters).symm⟩
  rw [Dimacs.text?, String.fromUTF8?, dif_pos valid]
  apply congrArg some
  rw [← String.toByteArray_inj, String.toByteArray_ofList, utf8Encode_eq]
  rfl

/-- A row of bytes that is a text is that of its characters. -/
theorem eq_encoded_of_text? {bytes : List UInt8} {text : String}
    (read : Dimacs.text? bytes = some text) : bytes = encoded text.toList := by
  rw [Dimacs.text?, String.fromUTF8?] at read
  split at read
  · next valid =>
      rw [← Option.some.inj read, ← toList_toUTF8, toList_eq_toList_data]
      rfl
  · cases read

/-- A text has no more characters than bytes. -/
theorem length_le_length_encoded (characters : List Char) :
    characters.length ≤ (encoded characters).length := by
  induction characters with
  | nil => exact Nat.le_refl 0
  | cons character rest ih =>
      have size : 0 < (String.utf8EncodeChar character).length := by
        simp [Char.utf8Size_pos]
      rw [encoded, List.flatMap_cons, List.length_append, List.length_cons, ← encoded]
      omega

theorem length_toList_toUTF8 (text : String) : text.toUTF8.toList.length = text.utf8ByteSize := by
  rw [toList_eq_toList_data]
  rfl

theorem length_le_utf8ByteSize (text : String) : text.length ≤ text.utf8ByteSize := by
  rw [← length_toList_toUTF8, toList_toUTF8, ← String.length_toList]
  exact length_le_length_encoded _

/-! ## Line ends -/

/-- A byte below 128 is the only one of its character, and the number of it. -/
theorem toNat_of_mem_utf8EncodeChar {character : Char} {byte : UInt8}
    (member : byte ∈ String.utf8EncodeChar character) :
    byte.toNat = character.toNat ∨ 128 ≤ byte.toNat := by
  have number (value : Nat) : (UInt8.ofNat value).toNat = value % 256 := UInt8.toNat_ofNat'
  simp only [String.utf8EncodeChar] at member
  split at member
  · next ascii =>
      rw [List.mem_singleton.mp member, number]
      exact .inl (Nat.mod_eq_of_lt (by omega))
  · right
    repeat' split at member
    all_goals
      simp only [List.mem_cons, List.not_mem_nil, or_false] at member
      rcases member with rfl | rfl | rfl | rfl <;> rw [number] <;> omega

/-- The byte of a line end is in no character but the line end. -/
theorem eq_newline_of_mem_utf8EncodeChar {character : Char}
    (member : Dimacs.newline ∈ String.utf8EncodeChar character) : character = '\n' := by
  rcases toNat_of_mem_utf8EncodeChar member with same | large
  · have number : character.val.toNat = '\n'.val.toNat := same.symm.trans (by decide)
    exact Char.ext (UInt32.toNat_inj.mp number)
  · exact absurd large (by decide)

theorem newline_not_mem_encoded {line : List Char} (whole : '\n' ∉ line) :
    Dimacs.newline ∉ encoded line := by
  intro member
  obtain ⟨character, inside, found⟩ := List.mem_flatMap.mp member
  exact whole (eq_newline_of_mem_utf8EncodeChar found ▸ inside)

/-- A text of whole lines is cut into them. -/
theorem pieces_encoded {lines : List (List Char)} (whole : ∀ line ∈ lines, '\n' ∉ line) :
    Pieces Dimacs.newline (encoded (lines.flatMap fun line => line ++ ['\n']))
      (lines.map encoded) := by
  induction lines with
  | nil => exact .none
  | cons line rest ih =>
      obtain ⟨here, others⟩ := List.forall_mem_cons.mp whole
      have ends : encoded ['\n'] = [Dimacs.newline] := by decide
      have cut := Pieces.ended (newline_not_mem_encoded here) (ih others)
      rw [List.flatMap_cons, List.append_assoc, encoded_append, encoded_append, ends]
      exact cut

end ChronoSat.Text
