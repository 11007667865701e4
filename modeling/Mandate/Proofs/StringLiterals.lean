/-
  Mandate.Proofs.StringLiterals

  String literals denote what they spell. Three readers go over the text of a literal: the
  layout, which must not take a line end in it for a separator or a `#` for a comment; the
  scanner, which has to stop at the closing quote; and `unescape`. They agree on where an
  escape begins, since each of them takes a backslash together with the next character.

    * `StringItem`: a character of a literal as it is written, plainly or escaped.
    * `parseTree_single`: a text that is one token is read as the tree of that token.
    * `parse_stringLiteral`: a literal is read as the text that its items mean, and every
      text is written by escaping quotes and backslashes.
-/

import Mandate.Proofs.PrintedDatatypes

namespace Mandate

/-! ## Items -/

/-- A character of a string literal as it is written. -/
inductive StringItem where
  /-- A character that stands for itself. -/
  | plain (c : Char) (hquote : c ≠ '"') (hbackslash : c ≠ '\\')
  /-- A backslash and any character that ends no line. -/
  | escaped (c : Char) (hline : c ≠ '\n')

namespace StringItem

/-- How an item is written. -/
def spelled : StringItem → List Char
  | .plain c _ _ => [c]
  | .escaped c _ => ['\\', c]

/-- What an item stands for: `\n`, `\t`, `\r` and `\0` for control characters, any other escape
for the character after the backslash. -/
def meaning : StringItem → Char
  | .plain c _ _ => c
  | .escaped 'n' _ => '\n'
  | .escaped 't' _ => '\t'
  | .escaped 'r' _ => '\r'
  | .escaped '0' _ => '\x00'
  | .escaped c _ => c

/-- The literal with some items between its quotes. -/
def literal (items : List StringItem) : List Char := '"' :: (items.flatMap spelled ++ ['"'])

/-- The item that is written for a character if only quotes and backslashes are escaped. -/
def ofChar (c : Char) : StringItem :=
  if hquote : c = '"' then .escaped '"' (by decide)
  else if hbackslash : c = '\\' then .escaped '\\' (by decide)
  else .plain c hquote hbackslash

theorem meaning_escaped (c : Char) (h : c ≠ '\n') : (escaped c h).meaning = unescapeChar c := by
  unfold meaning unescapeChar
  split
  · contradiction
  all_goals simp_all

theorem meaning_ofChar (c : Char) : (ofChar c).meaning = c := by
  unfold ofChar
  split
  · next h => exact h.symm
  · split
    · next h => exact h.symm
    · rfl

theorem spelled_ofChar (c : Char) :
    (ofChar c).spelled = if c = '"' ∨ c = '\\' then ['\\', c] else [c] := by
  unfold ofChar
  by_cases hquote : c = '"'
  · simp [hquote, spelled]
  · by_cases hbackslash : c = '\\'
    · simp [hbackslash, spelled]
    · simp [hquote, hbackslash, spelled]

/-! ## What the readers make of items -/

/-- The scanner finds the closing quote and nothing before it. -/
theorem isStringTail_items (items : List StringItem) :
    Terminal.isStringTail (items.flatMap spelled ++ ['"']) = true := by
  induction items with
  | nil => rfl
  | cons item items ih =>
    cases item with
    | plain c hquote hbackslash =>
      rw [List.flatMap_cons, spelled, List.append_assoc, List.singleton_append,
        Terminal.isStringTail, if_neg hquote]
      · exact ih
      · exact fun h => absurd h hbackslash
      · exact fun _ _ h => absurd h hbackslash
    | escaped c hline =>
      show Terminal.isStringTail ('\\' :: c :: (items.flatMap spelled ++ ['"'])) = true
      rw [Terminal.isStringTail, ih, Bool.and_true]
      exact bne_iff_ne.2 hline

theorem unescape_items (items : List StringItem) :
    unescape (items.flatMap spelled) = items.map meaning := by
  induction items with
  | nil => rfl
  | cons item items ih =>
    cases item with
    | plain c hquote hbackslash =>
      rw [List.flatMap_cons, spelled, List.singleton_append, unescape, ih]
      · rfl
      · exact fun _ _ h => absurd h hbackslash
    | escaped c hline =>
      show unescape ('\\' :: c :: items.flatMap spelled) = _
      rw [unescape, ih, List.map_cons, meaning_escaped]

theorem stringValue_literal (items : List StringItem) :
    stringValue (literal items) = String.ofList (items.map meaning) := by
  rw [stringValue, literal, List.drop_one, List.tail_cons, List.dropLast_concat, unescape_items]

/-- The token that a literal is. -/
def token (items : List StringItem) : Token := ⟨.string, String.ofList (literal items), 0⟩

theorem token_proper (items : List StringItem) : (token items).Proper := by
  refine ⟨?_, fun h => by cases h⟩
  show Terminal.spells .string (String.ofList (literal items)).toList = true
  rw [String.toList_ofList]
  exact isStringTail_items items

end StringItem

/-! ## Texts of one token -/

/-- A text that is one token is read as the tree of that token. -/
theorem parseTree_single {tree : Tree (.branch .program)} {t : Token} (htree : tree.tokens = [t])
    (hclear : tree.isClear .finish = true) (hstart : t.start = 0) (ht : t.Proper) :
    parseTree (Layout.separate t.text.toList) = .ok tree := by
  have hlaid : Layout.separate t.text.toList = t.text.toList := by
    obtain ⟨s, -, hs⟩ := Layout.separateFrom_spelled (s := {}) rfl ht.spelled []
    rw [List.append_nil] at hs
    exact hs.trans (List.append_nil _)
  have hderives := tree.derives hclear
  rw [htree] at hderives
  rw [hlaid, parseTree]
  cases hderives with
  | read hsettle hrest =>
    have hends : ∀ c ∈ ([] : List Char).head?, Lexeme.goesOn t.text.toList c = false := by simp
    have hscan := ht.scan hends (mem_expected_of_settle hsettle)
    rw [List.append_nil] at hscan
    have hne : t.text.toList ≠ [] := by
      intro hnil
      rw [hnil] at hscan
      exact Lexeme.scan_length_ne_zero hscan rfl
    rw [parseFrom_eq_shift hne hscan hsettle, List.take_length, List.drop_length,
      String.ofList_toList]
    rw [hstart] at hrest
    cases hrest with
    | finish haccept => exact parseFrom_eq_ok haccept

/-- The tree of a string literal. -/
def Tree.stringLiteral (text : String) : Tree (.branch .program) :=
  .program (.node .primaryString (.cons (.leaf .string text 0) .nil))

theorem Tree.meaning_stringLiteral (text : String) :
    (stringLiteral text).meaning
      = .ok (Node.string (stringValue text.toList) ⟨0, text.length⟩) := by
  have hstop : (⟨.string, text, 0⟩ : Token).stop = text.length := Nat.zero_add _
  rw [← hstop]
  exact meaning_program rfl

/-! ## Literals -/

namespace StringItem

/-- A literal is one string, over all of the text. -/
theorem parse_literal (items : List StringItem) :
    parse (literal items) = .ok (Node.string (String.ofList (items.map meaning))
      ⟨0, (literal items).length⟩) := by
  have htree : parseTree (Layout.separate (token items).text.toList)
      = .ok (Tree.stringLiteral (String.ofList (literal items))) :=
    parseTree_single (Tree.tokens_program _) rfl rfl (token_proper items)
  have htext : (token items).text.toList = literal items := String.toList_ofList
  rw [htext] at htree
  have hmeaning := Tree.meaning_stringLiteral (String.ofList (literal items))
  rw [String.toList_ofList, stringValue_literal, String.length_ofList] at hmeaning
  rw [parse, htree]
  exact hmeaning

end StringItem

/-- A string literal is read as one string over all of the text, which is what its items stand
for, whatever line ends, brackets, `#` and runs of backslashes there are among them. So every
string can be written by escaping only quotes and backslashes. -/
theorem parse_stringLiteral :
    (∀ items : List StringItem, parse (StringItem.literal items)
      = .ok (Node.string (String.ofList (items.map StringItem.meaning))
          ⟨0, (StringItem.literal items).length⟩)) ∧
    ∀ s : String,
      let written := '"' :: (s.toList.flatMap fun c =>
        if c = '"' ∨ c = '\\' then ['\\', c] else [c]) ++ ['"']
      parse written = .ok (Node.string s ⟨0, written.length⟩) := by
  refine ⟨StringItem.parse_literal, fun s => ?_⟩
  have hread := StringItem.parse_literal (s.toList.map StringItem.ofChar)
  have hwritten : StringItem.literal (s.toList.map StringItem.ofChar)
      = '"' :: (s.toList.flatMap fun c => if c = '"' ∨ c = '\\' then ['\\', c] else [c])
        ++ ['"'] := by
    rw [StringItem.literal, List.flatMap_map]
    simp only [StringItem.spelled_ofChar]
    rfl
  have hmeaning : (s.toList.map StringItem.ofChar).map StringItem.meaning = s.toList := by
    rw [List.map_map]
    exact (List.map_congr_left fun c _ => StringItem.meaning_ofChar c).trans (List.map_id _)
  rw [hmeaning, String.ofList_toList, hwritten] at hread
  exact hread

end Mandate
