/-
  Mandate.Text.CodePoint

  The texts of a running program. They are made of code points: a line that is read
  may hold halves of surrogate pairs, which stand for no character and which no file
  can hold. A source, and what is stored, is made of characters.
-/

namespace Mandate

/-- A character, or half of a surrogate pair. -/
inductive CodePoint where
  | char (c : Char)
  | half (index : Fin 2048)
  deriving DecidableEq, Repr, Inhabited

/-- The number of a code point. -/
def CodePoint.value : CodePoint → Nat
  | .char c => c.toNat
  | .half index => 0xD800 + index

/-- Whether a file can hold a code point. -/
def CodePoint.isWritable : CodePoint → Bool
  | .char _ => true
  | .half _ => false

/-- A text of a running program. -/
abbrev Text := List CodePoint

namespace Text

/-- Characters as a text. -/
def ofString (s : String) : Text := s.toList.map .char

instance : Coe String Text := ⟨ofString⟩

theorem ofString_append (s t : String) : ofString (s ++ t) = ofString s ++ ofString t := by
  rw [ofString, String.toList_append, List.map_append]
  rfl

/-- Whether a file can hold a text. -/
def isWritable (t : Text) : Bool := t.all CodePoint.isWritable

/-- The characters of a text. A half is replaced, by a character that has no meaning anywhere. -/
def chars (t : Text) : List Char :=
  t.map fun
    | .char c => c
    | .half _ => '�'

@[simp]
theorem chars_ofString (s : String) : (ofString s).chars = s.toList := by
  rw [chars, ofString, List.map_map]
  exact List.map_id _

/-- A text as a file holds it. -/
def written (t : Text) : String := String.ofList t.chars

end Text

end Mandate
