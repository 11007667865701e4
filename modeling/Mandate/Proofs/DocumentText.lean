/-
  Mandate.Proofs.DocumentText

  Documents read back. `Json.Storable` says which values can be stored: the keys of
  an object differ from each other, and whole numbers have no more digits than are
  read. Every other value is stored as it is, whatever its numbers and texts.

    * `Json.read_write`: reading the text of such a value gives the value.
    * `Json.unifyNewlines_write`: its text has no end of line but `\n`, so it is the
      same after the ends of lines are unified.
-/

import Mandate.Proofs.NumberBits
import Mandate.Proofs.Numerals
import Mandate.Text.Lines

namespace Mandate

namespace Json

open Number

/-- A value that can be stored. -/
inductive Storable : Json → Prop where
  | null : Storable .null
  | bool (b : Bool) : Storable (.bool b)
  | int {i : Int} (h : i.natAbs < 10 ^ digitLimit) : Storable (.int i)
  | number (x : Float) : Storable (.number x)
  | text (s : String) : Storable (.text s)
  | list {items : List Json} (h : ∀ j ∈ items, j.Storable) : Storable (.list items)
  | object {members : List (String × Json)} (hkeys : (members.map Prod.fst).Nodup)
      (h : ∀ m ∈ members, m.2.Storable) : Storable (.object members)

/-! ## Space -/

theorem skipSpace_cons {c : Char} (hc : isSpace c = false) (cs : List Char) :
    skipSpace (c :: cs) = c :: cs := by
  rw [skipSpace, List.dropWhile_cons_of_neg (by rw [hc]; decide)]

theorem skipSpace_newline (level : Nat) (cs : List Char) :
    skipSpace (newline level ++ cs) = skipSpace cs := by
  have hspace : ∀ c ∈ newline level, isSpace c = true := by
    intro c hc
    rcases List.mem_cons.1 hc with rfl | hc
    · rfl
    · rw [List.eq_of_mem_replicate hc]
      rfl
  rw [skipSpace, skipSpace, List.dropWhile_append_of_pos hspace]

theorem follows_newline (level : Nat) (rest : List Char) : Follows (newline level ++ rest) :=
  .line _

/-! ## Strings -/

/-- The code of a control character reads back. -/
theorem hexCode?_control {n : Nat} (hn : n < 32) (rest : List Char) :
    hexCode? (Text.hexDigits 4 n ++ rest) = some (n, rest) := by
  have key : ∀ n < 32, ∃ a b c d, Text.hexDigits 4 n = [a, b, c, d] ∧
      Number.valueOf 16 (Number.digitOf 16) 0 [a, b, c, d] = some n := by
    intro n hn
    interval_cases n <;> exact ⟨_, _, _, _, rfl, rfl⟩
  obtain ⟨a, b, c, d, hdigits, hvalue⟩ := key n hn
  rw [hdigits]
  show (Number.valueOf 16 (Number.digitOf 16) 0 [a, b, c, d]).map (·, rest) = some (n, rest)
  rw [hvalue]
  rfl

theorem joinSurrogates_of_lt {code : Nat} (h : code < 0xD800) (rest : List Char) :
    joinSurrogates code rest = (Char.ofNat code, rest) := by
  unfold joinSurrogates
  rw [if_neg (by omega), if_neg (by omega)]

section Strings

variable {fuel : Nat} {rest : List Char}

theorem readString_simple {e d : Char} (he : e ≠ 'u') (hd : simpleEscape? e = some d) :
    readString (fuel + 1) ('\\' :: e :: rest)
      = (readString fuel rest).map fun r => (d :: r.1, r.2) := by
  rw [readString, if_neg (by decide), if_pos rfl]
  dsimp only
  rw [if_neg he, hd]

theorem readString_code {c : Char} (hc : c.toNat < 32) :
    readString (fuel + 1) ('\\' :: 'u' :: (Text.hexDigits 4 c.toNat ++ rest))
      = (readString fuel rest).map fun r => (c :: r.1, r.2) := by
  rw [readString, if_neg (by decide), if_pos rfl]
  dsimp only
  rw [if_pos rfl, hexCode?_control hc]
  dsimp only
  rw [joinSurrogates_of_lt (by omega), Char.ofNat_toNat]

theorem readString_plain {c : Char} (hquote : c ≠ '"') (hescape : c ≠ '\\')
    (hc : ¬c.toNat < 32) :
    readString (fuel + 1) (c :: rest)
      = (readString fuel rest).map fun r => (c :: r.1, r.2) := by
  conv_lhs => unfold readString
  rw [if_neg hquote, if_neg hescape, if_neg hc]

/-- A character reads back, however it is escaped. -/
theorem readString_escapeChar (c : Char) :
    readString (fuel + 1) (escapeChar c ++ rest)
      = (readString fuel rest).map fun r => (c :: r.1, r.2) := by
  unfold escapeChar
  split
  · next h =>
    rw [Bool.or_eq_true, decide_eq_true_eq, decide_eq_true_eq] at h
    rcases h with rfl | rfl
    · exact readString_simple (by decide) rfl
    · exact readString_simple (by decide) rfl
  next hspecial =>
  rw [Bool.or_eq_true, decide_eq_true_eq, decide_eq_true_eq, not_or] at hspecial
  split
  · next h =>
    subst h
    exact readString_simple (by decide) rfl
  split
  · next h =>
    subst h
    exact readString_simple (by decide) rfl
  split
  · next h =>
    subst h
    exact readString_simple (by decide) rfl
  split
  · next h =>
    subst h
    exact readString_simple (by decide) rfl
  split
  · next h =>
    subst h
    exact readString_simple (by decide) rfl
  split
  · next h => exact readString_code h
  · next h => exact readString_plain hspecial.1 hspecial.2 h

theorem readString_escaped {cs : List Char} (hfuel : cs.length < fuel) :
    readString fuel (cs.flatMap escapeChar ++ '"' :: rest) = some (cs, rest) := by
  induction cs generalizing fuel with
  | nil =>
    obtain ⟨fuel, rfl⟩ := Nat.exists_eq_add_one_of_ne_zero (Nat.ne_of_gt hfuel)
    rfl
  | cons c cs ih =>
    rw [List.length_cons] at hfuel
    obtain ⟨fuel, rfl⟩ := Nat.exists_eq_add_one_of_ne_zero (Nat.ne_zero_of_lt hfuel)
    rw [List.flatMap_cons, List.append_assoc, readString_escapeChar, ih (by omega)]
    rfl

end Strings

theorem escapeChar_ne_nil (c : Char) : escapeChar c ≠ [] := by
  unfold escapeChar
  repeat' split
  all_goals exact List.cons_ne_nil _ _

theorem length_le_flatMap_escapeChar (cs : List Char) :
    cs.length ≤ (cs.flatMap escapeChar).length := by
  induction cs with
  | nil => exact Nat.le_refl _
  | cons c cs ih =>
    have hpos := List.length_pos_iff.2 (escapeChar_ne_nil c)
    rw [List.flatMap_cons, List.length_append, List.length_cons]
    omega

/-- What stands after the opening quote of a string. -/
def stringBody (s : String) (rest : List Char) : List Char :=
  s.toList.flatMap escapeChar ++ '"' :: rest

theorem writeString_append (s : String) (rest : List Char) :
    writeString s ++ rest = '"' :: stringBody s rest := by
  rw [writeString, stringBody, List.cons_append, List.cons_append, List.append_assoc,
    List.singleton_append]

theorem readString_stringBody (s : String) (rest : List Char) :
    readString ((stringBody s rest).length + 1) (stringBody s rest) = some (s.toList, rest) := by
  refine readString_escaped ?_
  have hlength := length_le_flatMap_escapeChar s.toList
  rw [stringBody, List.length_append]
  omega

/-! ## Words and numbers -/

/-- The word of a value is read as the value. -/
theorem readValue_word {w : List Char} {j : Json} (h : (w, j) ∈ words) (fuel : Nat)
    (rest : List Char) : readValue (fuel + 1) (w ++ rest) = .ok (j, rest) := by
  simp only [words, List.mem_cons, List.not_mem_nil, or_false, Prod.mk.injEq] at h
  rcases h with ⟨rfl, rfl⟩ | ⟨rfl, rfl⟩ | ⟨rfl, rfl⟩ | ⟨rfl, rfl⟩ | ⟨rfl, rfl⟩ | ⟨rfl, rfl⟩
  all_goals rfl

theorem ne_of_isDigit {c d : Char} (hc : c.isDigit = true) (hd : d.isDigit = false) : c ≠ d := by
  rintro rfl
  rw [hc] at hd
  cases hd

/-- No word has a digit among its first two characters. -/
theorem word_cases {w : List Char × Json} (h : w ∈ words) :
    ∃ d e ds, w.1 = d :: e :: ds ∧ d.isDigit = false ∧ e.isDigit = false := by
  simp only [words, List.mem_cons, List.not_mem_nil, or_false] at h
  rcases h with rfl | rfl | rfl | rfl | rfl | rfl
  all_goals exact ⟨_, _, _, rfl, rfl, rfl⟩

theorem find_words_digit {c : Char} (hc : c.isDigit = true) (rest : List Char) :
    (words.find? fun w => w.1.isPrefixOf (c :: rest)) = none := by
  rw [List.find?_eq_none]
  intro w hw
  obtain ⟨d, e, ds, hword, hd, -⟩ := word_cases hw
  have hne : (d == c) = false := beq_eq_false_iff_ne.2 (ne_of_isDigit hc hd).symm
  rw [hword, List.isPrefixOf_cons_cons, hne, Bool.false_and]
  exact Bool.false_ne_true

theorem find_words_minus {c : Char} (hc : c.isDigit = true) (rest : List Char) :
    (words.find? fun w => w.1.isPrefixOf ('-' :: c :: rest)) = none := by
  rw [List.find?_eq_none]
  intro w hw
  obtain ⟨d, e, ds, hword, -, he⟩ := word_cases hw
  have hne : (e == c) = false := beq_eq_false_iff_ne.2 (ne_of_isDigit hc he).symm
  rw [hword, List.isPrefixOf_cons_cons, List.isPrefixOf_cons_cons, hne, Bool.false_and,
    Bool.and_false]
  exact Bool.false_ne_true

theorem readValue_digit {c : Char} (hc : c.isDigit = true) (fuel : Nat) (rest : List Char) :
    readValue (fuel + 1) (c :: rest) = readNumber false (c :: rest) := by
  unfold readValue
  rw [if_neg (ne_of_isDigit hc rfl), if_neg (ne_of_isDigit hc rfl), if_neg (ne_of_isDigit hc rfl)]
  simp only [find_words_digit hc rest]
  rw [if_neg (ne_of_isDigit hc rfl)]

theorem readValue_minus {c : Char} (hc : c.isDigit = true) (fuel : Nat) (rest : List Char) :
    readValue (fuel + 1) ('-' :: c :: rest) = readNumber true (c :: rest) := by
  unfold readValue
  rw [if_neg (by decide), if_neg (by decide), if_neg (by decide)]
  simp only [find_words_minus hc rest, if_true]

/-- A text that starts with a digit, with a sign before it. -/
theorem readValue_signed {ds : List Char} (hds : Numeral.IsWhole ds) (negative : Bool)
    (fuel : Nat) (rest : List Char) :
    readValue (fuel + 1) ((if negative then ['-'] else []) ++ (ds ++ rest))
      = readNumber negative (ds ++ rest) := by
  obtain ⟨c, cs, rfl⟩ := List.exists_cons_of_ne_nil hds.nonempty
  have hc := hds.digits c List.mem_cons_self
  cases negative with
  | false => exact readValue_digit hc fuel _
  | true => exact readValue_minus hc fuel _

/-- The text of a whole number is its digits with a sign. -/
theorem toList_toString_int (i : Int) :
    (toString i).toList = (if decide (i < 0) then ['-'] else []) ++ digitsText i.natAbs := by
  cases i with
  | ofNat n =>
    have hsign : decide (Int.ofNat n < 0) = false :=
      decide_eq_false (Int.not_lt.2 (Int.natCast_nonneg n))
    have htext : toString (Int.ofNat n) = String.ofList (Nat.toDigits 10 n) :=
      Nat.toString_eq_ofList_toDigits
    rw [hsign, htext, String.toList_ofList]
    rfl
  | negSucc n =>
    have hsign : decide (Int.negSucc n < 0) = true := decide_eq_true (Int.negSucc_lt_zero n)
    have htext : toString (Int.negSucc n) = "-" ++ String.ofList (Nat.toDigits 10 (n + 1)) :=
      congrArg ("-" ++ ·) Nat.toString_eq_ofList_toDigits
    have hminus : "-".toList = ['-'] := rfl
    rw [hsign, htext, String.toList_append, hminus, String.toList_ofList]
    rfl

theorem readValue_int {i : Int} (hi : i.natAbs < 10 ^ digitLimit) (fuel : Nat)
    {rest : List Char} (hrest : Follows rest) :
    readValue (fuel + 1) ((toString i).toList ++ rest) = .ok (.int i, rest) := by
  rw [toList_toString_int, List.append_assoc, readValue_signed (isWhole_digitsText _),
    readNumber_whole hi hrest]
  congr 3
  simp only [decide_eq_true_eq]
  split
  · omega
  · omega

theorem toList_documentLiteral {x : Float} {negative : Bool} {m : Nat} {e : Int}
    (h : parts x = .finite negative m e) :
    (documentLiteral x).toList
      = (if negative then ['-'] else []) ++ decimalText (shortest m e) := by
  rw [documentLiteral, literalWith, h]
  exact String.toList_ofList

/-- What is not finite is written as a word that stands for it. -/
theorem mem_words_documentLiteral {x : Float} (h : ∀ negative m e, parts x ≠ .finite negative m e) :
    ((documentLiteral x).toList, Json.number x) ∈ words := by
  rw [documentLiteral, literalWith]
  cases hx : parts x with
  | nan =>
    rw [eq_nan_of_parts hx]
    simp [words]
  | infinite negative =>
    rw [← ofMagnitude_of_infinite hx]
    cases negative with
    | false => simp [words]
    | true => simp [words]
  | finite negative m e => exact absurd hx (h negative m e)

theorem readValue_number (x : Float) (fuel : Nat) {rest : List Char} (hrest : Follows rest) :
    readValue (fuel + 1) ((documentLiteral x).toList ++ rest) = .ok (.number x, rest) := by
  by_cases hfinite : ∃ negative m e, parts x = .finite negative m e
  · obtain ⟨negative, m, e, hx⟩ := hfinite
    have hwhole := (Numeral.ofDecimal_wellFormed (shortest m e)).whole
    have hread := readNumber_decimalText (shortest m e) hrest negative
    rw [shortest_nearest hx, Numeral.decimalText_eq, Numeral.text, List.append_assoc] at hread
    rw [toList_documentLiteral hx, Numeral.decimalText_eq, Numeral.text, List.append_assoc,
      List.append_assoc, readValue_signed hwhole, hread]
  · exact readValue_word (mem_words_documentLiteral fun negative m e hx =>
      hfinite ⟨negative, m, e, hx⟩) fuel rest

/-! ## Values -/

/-- The text of a value, at any level and before anything that may follow it, is read as the
value. Each character of it is worth two steps. -/
def ReadsBack (j : Json) : Prop :=
  ∀ (level : Nat) {rest : List Char}, Follows rest → ∀ {fuel : Nat},
    2 * (writeAt level j).length < fuel →
      readValue fuel (writeAt level j ++ rest) = .ok (j, rest)

/-- Reading a value takes a step to begin with. -/
theorem ReadsBack.of_succ {j : Json}
    (h : ∀ (level : Nat) {rest : List Char}, Follows rest → ∀ {fuel : Nat},
      2 * (writeAt level j).length ≤ fuel →
        readValue (fuel + 1) (writeAt level j ++ rest) = .ok (j, rest)) : j.ReadsBack := by
  intro level rest hrest fuel hfuel
  obtain ⟨fuel, rfl⟩ := Nat.exists_eq_add_one_of_ne_zero (Nat.ne_zero_of_lt hfuel)
  exact h level hrest (Nat.le_of_lt_succ hfuel)

/-- A text that starts with neither a space nor a closing bracket. -/
def Starts (cs : List Char) : Prop := ∃ c ds, cs = c :: ds ∧ isSpace c = false ∧ c ≠ ']'

theorem Starts.skipSpace_append {cs : List Char} (h : Starts cs) (rest : List Char) :
    skipSpace (cs ++ rest) = cs ++ rest := by
  obtain ⟨c, ds, rfl, hc, -⟩ := h
  exact skipSpace_cons hc _

theorem Starts.append {cs : List Char} (h : Starts cs) (rest : List Char) :
    Starts (cs ++ rest) := by
  obtain ⟨c, ds, rfl, hc, hclose⟩ := h
  exact ⟨c, ds ++ rest, rfl, hc, hclose⟩

theorem starts_signed {ds : List Char} (hds : Numeral.IsWhole ds) (negative : Bool)
    (rest : List Char) : Starts ((if negative then ['-'] else []) ++ (ds ++ rest)) := by
  obtain ⟨c, cs, rfl⟩ := List.exists_cons_of_ne_nil hds.nonempty
  have hc := hds.digits c List.mem_cons_self
  cases negative with
  | true => exact ⟨'-', _, rfl, rfl, by decide⟩
  | false =>
    refine ⟨c, _, rfl, ?_, ne_of_isDigit hc rfl⟩
    rw [isSpace, List.contains_eq_any_beq, List.any_eq_false]
    intro d hd
    rw [beq_iff_eq]
    simp only [List.mem_cons, List.not_mem_nil, or_false] at hd
    rcases hd with rfl | rfl | rfl | rfl
    all_goals exact ne_of_isDigit hc rfl

theorem starts_writeAt (level : Nat) (j : Json) : Starts (writeAt level j) := by
  cases j with
  | null => exact ⟨'n', _, rfl, rfl, by decide⟩
  | bool b =>
    cases b with
    | true => exact ⟨'t', _, rfl, rfl, by decide⟩
    | false => exact ⟨'f', _, rfl, rfl, by decide⟩
  | int i =>
    have hsigned := starts_signed (isWhole_digitsText i.natAbs) (decide (i < 0)) []
    rw [List.append_nil, ← toList_toString_int] at hsigned
    exact hsigned
  | number x =>
    show Starts (documentLiteral x).toList
    by_cases hfinite : ∃ negative m e, parts x = .finite negative m e
    · obtain ⟨negative, m, e, hx⟩ := hfinite
      rw [toList_documentLiteral hx, Numeral.decimalText_eq, Numeral.text]
      exact starts_signed (Numeral.ofDecimal_wellFormed _).whole negative _
    · have hword := mem_words_documentLiteral fun negative m e hx => hfinite ⟨negative, m, e, hx⟩
      generalize (documentLiteral x).toList = w at hword
      simp only [words, List.mem_cons, List.not_mem_nil, or_false, Prod.mk.injEq, reduceCtorEq,
        and_false, false_or] at hword
      rcases hword with ⟨rfl, -⟩ | ⟨rfl, -⟩ | ⟨rfl, -⟩
      all_goals exact ⟨_, _, rfl, rfl, by decide⟩
  | text s => exact ⟨'"', _, rfl, rfl, by decide⟩
  | list items =>
    cases items with
    | nil => exact ⟨'[', _, rfl, rfl, by decide⟩
    | cons k ks => exact ⟨'[', _, rfl, rfl, by decide⟩
  | object members =>
    cases members with
    | nil => exact ⟨'\x7b', _, rfl, rfl, by decide⟩
    | cons m ms => exact ⟨'\x7b', _, rfl, rfl, by decide⟩

section Items

variable {level outer fuel : Nat} {rest : List Char}

/-- What follows an item of a list: the items after it and the closing bracket. -/
def itemsTail (level outer : Nat) (js : List Json) (rest : List Char) : List Char :=
  writeItems level js ++ (newline outer ++ ']' :: rest)

theorem itemsTail_cons (j : Json) (js : List Json) :
    itemsTail level outer (j :: js) rest
      = ',' :: (newline level ++ (writeAt level j ++ itemsTail level outer js rest)) := by
  simp only [itemsTail, writeItems, List.cons_append, List.append_assoc]

theorem follows_itemsTail (js : List Json) : Follows (itemsTail level outer js rest) := by
  cases js with
  | nil => exact follows_newline outer _
  | cons j js =>
    rw [itemsTail_cons]
    exact .comma _

theorem writeAt_list (j : Json) (js : List Json) :
    writeAt level (.list (j :: js)) ++ rest = '[' :: (newline (level + 1)
      ++ (writeAt (level + 1) j ++ itemsTail (level + 1) level js rest)) := by
  simp only [writeAt, itemsTail, List.cons_append, List.append_assoc, List.nil_append]

/-- A list that is not empty is read item by item. -/
theorem readValue_list {cs : List Char} (h : Starts cs) (fuel level : Nat) :
    readValue (fuel + 1) ('[' :: (newline level ++ cs))
      = (readItems fuel cs).map fun r => (.list r.1, r.2) := by
  have hspace := h.skipSpace_append []
  rw [List.append_nil] at hspace
  obtain ⟨c, ds, rfl, -, hc⟩ := h
  rw [readValue, if_neg (by decide), if_pos rfl, skipSpace_newline, hspace]
  split
  · next heq =>
    cases heq
    exact absurd rfl hc
  · rfl

theorem readItems_last {j : Json} (h : j.ReadsBack) (hfuel : 2 * (writeAt level j).length < fuel) :
    readItems (fuel + 1) (writeAt level j ++ itemsTail level outer [] rest)
      = .ok ([j], rest) := by
  have hspace : skipSpace (itemsTail level outer [] rest) = ']' :: rest :=
    (skipSpace_newline outer _).trans (skipSpace_cons rfl rest)
  rw [readItems, h level (follows_itemsTail []) hfuel]
  simp only [hspace]

theorem readItems_more {j k : Json} {js : List Json} (h : j.ReadsBack)
    (hfuel : 2 * (writeAt level j).length < fuel) :
    readItems (fuel + 1) (writeAt level j ++ itemsTail level outer (k :: js) rest)
      = (readItems fuel (writeAt level k ++ itemsTail level outer js rest)).map
          fun r => (j :: r.1, r.2) := by
  have hcomma : skipSpace (itemsTail level outer (k :: js) rest)
      = ',' :: (newline level ++ (writeAt level k ++ itemsTail level outer js rest)) := by
    rw [itemsTail_cons, skipSpace_cons rfl]
  have hnext : skipSpace (newline level ++ (writeAt level k ++ itemsTail level outer js rest))
      = writeAt level k ++ itemsTail level outer js rest := by
    rw [skipSpace_newline, (starts_writeAt level k).skipSpace_append]
  rw [readItems, h level (follows_itemsTail _) hfuel]
  simp only [hcomma, hnext]

/-- The items of a list are read one after the other. -/
theorem readItems_write {j : Json} {js : List Json} (h : ∀ k ∈ j :: js, k.ReadsBack)
    (hfuel : 2 * ((writeAt level j).length + (writeItems level js).length) + 1 < fuel) :
    readItems fuel (writeAt level j ++ itemsTail level outer js rest) = .ok (j :: js, rest) := by
  induction js generalizing j fuel with
  | nil =>
    obtain ⟨fuel, rfl⟩ := Nat.exists_eq_add_one_of_ne_zero (Nat.ne_zero_of_lt hfuel)
    exact readItems_last (h j List.mem_cons_self) (by omega)
  | cons k js ih =>
    obtain ⟨fuel, rfl⟩ := Nat.exists_eq_add_one_of_ne_zero (Nat.ne_zero_of_lt hfuel)
    have hlength : (writeItems level (k :: js)).length
        = 1 + (newline level).length + (writeAt level k).length + (writeItems level js).length := by
      simp only [writeItems, List.length_append, List.length_cons]
      omega
    have hrest : readItems fuel (writeAt level k ++ itemsTail level outer js rest)
        = .ok (k :: js, rest) := ih (fun i hi => h i (List.mem_cons_of_mem j hi)) (by omega)
    rw [readItems_more (h j List.mem_cons_self) (by omega), hrest]
    rfl

end Items

/-- A new key is added at the end. -/
theorem insert_of_not_mem {key : String} {ms : List (String × Json)} (h : key ∉ ms.map Prod.fst)
    (j : Json) : insert key j ms = ms ++ [(key, j)] := by
  induction ms with
  | nil => rfl
  | cons m ms ih =>
    rw [List.map_cons, List.mem_cons, not_or] at h
    rw [insert, if_neg (Ne.symm h.1), ih h.2, List.cons_append]

section Members

variable {level outer fuel : Nat} {rest : List Char}

/-- What follows a member of an object: the members after it and the closing bracket. -/
def membersTail (level outer : Nat) (ms : List (String × Json)) (rest : List Char) : List Char :=
  writeMembers level ms ++ (newline outer ++ '\x7d' :: rest)

theorem membersTail_cons (m : String × Json) (ms : List (String × Json)) :
    membersTail level outer (m :: ms) rest
      = ',' :: (newline level ++ (writeMember level m ++ membersTail level outer ms rest)) := by
  simp only [membersTail, writeMembers, List.cons_append, List.append_assoc]

theorem follows_membersTail (ms : List (String × Json)) :
    Follows (membersTail level outer ms rest) := by
  cases ms with
  | nil => exact follows_newline outer _
  | cons m ms =>
    rw [membersTail_cons]
    exact .comma _

theorem writeMember_append (m : String × Json) (tail : List Char) :
    writeMember level m ++ tail
      = '"' :: stringBody m.1 (':' :: ' ' :: (writeAt level m.2 ++ tail)) := by
  obtain ⟨key, value⟩ := m
  rw [writeMember, List.append_assoc, writeString_append, List.cons_append, List.cons_append]

theorem writeAt_object (m : String × Json) (ms : List (String × Json)) :
    writeAt level (.object (m :: ms)) ++ rest = '\x7b' :: (newline (level + 1)
      ++ (writeMember (level + 1) m ++ membersTail (level + 1) level ms rest)) := by
  simp only [writeAt, membersTail, List.cons_append, List.append_assoc, List.nil_append]

/-- An object that is not empty is read member by member. -/
theorem readValue_object (fuel level inner : Nat) (m : String × Json) (tail : List Char) :
    readValue (fuel + 1) ('\x7b' :: (newline level ++ (writeMember inner m ++ tail)))
      = (readMembers fuel [] (writeMember inner m ++ tail)).map fun r => (.object r.1, r.2) := by
  rw [writeMember_append, readValue, if_neg (by decide), if_neg (by decide), if_pos rfl,
    skipSpace_newline, skipSpace_cons rfl]
  rfl

theorem skipSpace_colon (level : Nat) (value : Json) (tail : List Char) :
    skipSpace (':' :: ' ' :: (writeAt level value ++ tail))
        = ':' :: ' ' :: (writeAt level value ++ tail) ∧
      skipSpace (' ' :: (writeAt level value ++ tail)) = writeAt level value ++ tail :=
  ⟨skipSpace_cons rfl _, (starts_writeAt level value).skipSpace_append tail⟩

variable {before ms : List (String × Json)} {m n : String × Json}

theorem readMembers_last (hkey : m.1 ∉ before.map Prod.fst) (h : m.2.ReadsBack)
    (hfuel : 2 * (writeAt level m.2).length < fuel) :
    readMembers (fuel + 1) before (writeMember level m ++ membersTail level outer [] rest)
      = .ok (before ++ [m], rest) := by
  obtain ⟨hcolon, hvalue⟩ := skipSpace_colon level m.2 (membersTail level outer [] rest)
  have hspace : skipSpace (membersTail level outer [] rest) = '\x7d' :: rest :=
    (skipSpace_newline outer _).trans (skipSpace_cons rfl rest)
  rw [writeMember_append, readMembers, readString_stringBody]
  simp only [hcolon, hvalue, h level (follows_membersTail []) hfuel, hspace, String.ofList_toList,
    insert_of_not_mem hkey, Prod.mk.eta]

theorem readMembers_more (hkey : m.1 ∉ before.map Prod.fst) (h : m.2.ReadsBack)
    (hfuel : 2 * (writeAt level m.2).length < fuel) :
    readMembers (fuel + 1) before (writeMember level m ++ membersTail level outer (n :: ms) rest)
      = readMembers fuel (before ++ [m])
          (writeMember level n ++ membersTail level outer ms rest) := by
  obtain ⟨hcolon, hvalue⟩ := skipSpace_colon level m.2 (membersTail level outer (n :: ms) rest)
  have hcomma : skipSpace (membersTail level outer (n :: ms) rest)
      = ',' :: (newline level ++ (writeMember level n ++ membersTail level outer ms rest)) := by
    rw [membersTail_cons, skipSpace_cons rfl]
  have hnext : skipSpace (newline level ++ (writeMember level n ++ membersTail level outer ms rest))
      = writeMember level n ++ membersTail level outer ms rest := by
    rw [skipSpace_newline, writeMember_append, skipSpace_cons rfl]
  rw [writeMember_append, readMembers, readString_stringBody]
  simp only [hcolon, hvalue, h level (follows_membersTail _) hfuel, hcomma, hnext,
    String.ofList_toList, insert_of_not_mem hkey, Prod.mk.eta]

theorem length_writeAt_le (level : Nat) (m : String × Json) :
    (writeAt level m.2).length ≤ (writeMember level m).length := by
  obtain ⟨key, value⟩ := m
  rw [writeMember, List.length_append, List.length_cons, List.length_cons]
  show (writeAt level value).length ≤ _
  omega

/-- The members of an object are read one after the other. -/
theorem readMembers_write (hkeys : ((before ++ m :: ms).map Prod.fst).Nodup)
    (h : ∀ n ∈ m :: ms, n.2.ReadsBack)
    (hfuel : 2 * ((writeMember level m).length + (writeMembers level ms).length) + 1 < fuel) :
    readMembers fuel before (writeMember level m ++ membersTail level outer ms rest)
      = .ok (before ++ m :: ms, rest) := by
  have hvalue := length_writeAt_le level m
  have hkey : m.1 ∉ before.map Prod.fst := by
    rw [List.map_append, List.map_cons, List.nodup_append] at hkeys
    exact fun hm => hkeys.2.2 m.1 hm m.1 List.mem_cons_self rfl
  -- What was read before stays in front, because a new key goes to the end.
  induction ms generalizing before m fuel with
  | nil =>
    obtain ⟨fuel, rfl⟩ := Nat.exists_eq_add_one_of_ne_zero (Nat.ne_zero_of_lt hfuel)
    exact readMembers_last hkey (h m List.mem_cons_self) (by omega)
  | cons n ms ih =>
    obtain ⟨fuel, rfl⟩ := Nat.exists_eq_add_one_of_ne_zero (Nat.ne_zero_of_lt hfuel)
    have hlength : (writeMembers level (n :: ms)).length = 1 + (newline level).length
        + (writeMember level n).length + (writeMembers level ms).length := by
      simp only [writeMembers, List.length_append, List.length_cons]
      omega
    have hsame : before ++ m :: n :: ms = before ++ [m] ++ n :: ms := by
      rw [List.append_assoc, List.singleton_append]
    rw [hsame] at hkeys
    have hkey' : n.1 ∉ (before ++ [m]).map Prod.fst := by
      rw [List.map_append, List.map_cons, List.nodup_append] at hkeys
      exact fun hn => hkeys.2.2 n.1 hn n.1 List.mem_cons_self rfl
    rw [readMembers_more hkey (h m List.mem_cons_self) (by omega), hsame]
    exact ih hkeys (fun k hk => h k (List.mem_cons_of_mem m hk)) (by omega)
      (length_writeAt_le level n) hkey'

end Members

/-- Every value that can be stored is read back. -/
theorem Storable.readsBack {j : Json} (h : j.Storable) : j.ReadsBack := by
  -- The parts of a list or an object are shorter than its text, so the fuel is enough for them.
  induction h with
  | null =>
    refine .of_succ fun level rest _ fuel _ => ?_
    exact readValue_word (by simp [words, writeAt]) fuel rest
  | bool b =>
    refine .of_succ fun level rest _ fuel _ => ?_
    cases b with
    | true => exact readValue_word (by simp [words, writeAt]) fuel rest
    | false => exact readValue_word (by simp [words, writeAt]) fuel rest
  | int hi => exact .of_succ fun level rest hrest fuel _ => readValue_int hi fuel hrest
  | number x => exact .of_succ fun level rest hrest fuel _ => readValue_number x fuel hrest
  | text s =>
    refine .of_succ fun level rest _ fuel _ => ?_
    show readValue (fuel + 1) (writeString s ++ rest) = .ok (.text s, rest)
    rw [writeString_append, readValue, if_pos rfl, readString_stringBody]
    simp only [String.ofList_toList]
  | @list items h ih =>
    refine .of_succ fun level rest _ fuel hfuel => ?_
    cases items with
    | nil => rfl
    | cons j js =>
      have hlength : (writeAt level (.list (j :: js))).length
          = 2 + (newline (level + 1)).length + (newline level).length
            + (writeAt (level + 1) j).length + (writeItems (level + 1) js).length := by
        simp only [writeAt, List.length_append, List.length_cons, List.length_nil]
        omega
      have hstarts : Starts (writeAt (level + 1) j ++ itemsTail (level + 1) level js rest) :=
        (starts_writeAt (level + 1) j).append _
      rw [writeAt_list, readValue_list hstarts, readItems_write ih (by omega)]
      rfl
  | @object members hkeys h ih =>
    refine .of_succ fun level rest _ fuel hfuel => ?_
    cases members with
    | nil => rfl
    | cons m ms =>
      have hlength : (writeAt level (.object (m :: ms))).length
          = 2 + (newline (level + 1)).length + (newline level).length
            + (writeMember (level + 1) m).length + (writeMembers (level + 1) ms).length := by
        simp only [writeAt, List.length_append, List.length_cons, List.length_nil]
        omega
      rw [writeAt_object, readValue_object, readMembers_write hkeys ih (by omega)]
      rfl

/-- The text of a value that can be stored is read as the value. -/
theorem read_write {j : Json} (h : j.Storable) : read j.write = .ok j := by
  have hspace := (starts_writeAt 0 j).skipSpace_append []
  have hread : readValue (2 * (writeAt 0 j).length + 2) (writeAt 0 j ++ []) = .ok (j, []) :=
    h.readsBack 0 .nil (by omega)
  rw [List.append_nil] at hspace hread
  rw [read, write, hspace, hread]
  rfl

/-! ## Ends of lines -/

theorem not_mem_digits {ds : List Char} (h : ∀ c ∈ ds, c.isDigit = true) : '\r' ∉ ds :=
  fun hc => absurd (h '\r' hc) (by decide)

theorem not_mem_exponentText (e : Int) : '\r' ∉ exponentText e := by
  have hdigits : '\r' ∉ (exponentText e).tail :=
    not_mem_digits fun c hc => isDigit_of_mem_exponent hc
  unfold exponentText at hdigits ⊢
  rw [List.mem_cons, not_or]
  refine ⟨?_, hdigits⟩
  split
  · decide
  · decide

theorem not_mem_numeral {n : Numeral} (h : n.WellFormed) : '\r' ∉ n.text := by
  have hpoint : '\r' ∉ Numeral.pointText n.fraction := by
    unfold Numeral.pointText
    split
    · exact List.not_mem_nil
    · exact List.not_mem_cons_of_ne_of_not_mem (by decide) (not_mem_digits h.fraction)
  have hpower : '\r' ∉ Numeral.powerText n.exponent? := by
    cases n.exponent? with
    | none => exact List.not_mem_nil
    | some e => exact List.not_mem_cons_of_ne_of_not_mem (by decide) (not_mem_exponentText e)
  rw [Numeral.text, List.mem_append, List.mem_append, not_or, not_or]
  exact ⟨not_mem_digits h.whole.digits, hpoint, hpower⟩

theorem not_mem_sign (negative : Bool) : '\r' ∉ (if negative then ['-'] else []) := by
  cases negative with
  | true => decide
  | false => decide

theorem not_mem_documentLiteral (x : Float) : '\r' ∉ (documentLiteral x).toList := by
  by_cases hfinite : ∃ negative m e, parts x = .finite negative m e
  · obtain ⟨negative, m, e, hx⟩ := hfinite
    rw [toList_documentLiteral hx, Numeral.decimalText_eq, List.mem_append, not_or]
    exact ⟨not_mem_sign negative, not_mem_numeral (Numeral.ofDecimal_wellFormed _)⟩
  · have hword := mem_words_documentLiteral fun negative m e hx => hfinite ⟨negative, m, e, hx⟩
    generalize (documentLiteral x).toList = w at hword
    simp only [words, List.mem_cons, List.not_mem_nil, or_false, Prod.mk.injEq, reduceCtorEq,
      and_false, false_or] at hword
    rcases hword with ⟨rfl, -⟩ | ⟨rfl, -⟩ | ⟨rfl, -⟩
    all_goals decide

theorem not_mem_escapeChar (c : Char) : '\r' ∉ escapeChar c := by
  have hcode : c.toNat < 32 → '\r' ∉ Text.hexDigits 4 c.toNat := by
    have key : ∀ n < 32, '\r' ∉ Text.hexDigits 4 n := by decide
    exact key c.toNat
  unfold escapeChar
  split
  · next h =>
    rw [Bool.or_eq_true, decide_eq_true_eq, decide_eq_true_eq] at h
    rcases h with rfl | rfl
    · decide
    · decide
  split
  · decide
  split
  · decide
  next hreturn =>
  split
  · decide
  split
  · decide
  split
  · decide
  split
  · next h =>
    exact List.not_mem_cons_of_ne_of_not_mem (by decide)
      (List.not_mem_cons_of_ne_of_not_mem (by decide) (hcode h))
  · exact fun hc => hreturn (List.mem_singleton.1 hc).symm

theorem not_mem_writeString (s : String) : '\r' ∉ writeString s := by
  have hbody : '\r' ∉ s.toList.flatMap escapeChar := by
    rw [List.mem_flatMap]
    rintro ⟨c, -, hc⟩
    exact not_mem_escapeChar c hc
  rw [writeString, List.cons_append, List.mem_cons, List.mem_append, not_or, not_or]
  exact ⟨by decide, hbody, by decide⟩

theorem not_mem_newline (level : Nat) : '\r' ∉ newline level := by
  rw [newline, List.mem_cons, not_or]
  refine ⟨by decide, fun h => ?_⟩
  exact absurd (List.eq_of_mem_replicate h) (by decide)

theorem not_mem_writeItems {level : Nat} {js : List Json} (h : ∀ j ∈ js, '\r' ∉ writeAt level j) :
    '\r' ∉ writeItems level js := by
  induction js with
  | nil => exact List.not_mem_nil
  | cons j js ih =>
    rw [List.forall_mem_cons] at h
    simp only [writeItems, List.cons_append, List.mem_cons, List.mem_append, not_or]
    exact ⟨by decide, ⟨not_mem_newline level, h.1⟩, ih h.2⟩

theorem not_mem_writeMember {level : Nat} {m : String × Json} (h : '\r' ∉ writeAt level m.2) :
    '\r' ∉ writeMember level m := by
  obtain ⟨key, value⟩ := m
  simp only [writeMember, List.mem_append, List.mem_cons, not_or]
  exact ⟨not_mem_writeString key, by decide, by decide, h⟩

theorem not_mem_writeMembers {level : Nat} {ms : List (String × Json)}
    (h : ∀ m ∈ ms, '\r' ∉ writeAt level m.2) : '\r' ∉ writeMembers level ms := by
  induction ms with
  | nil => exact List.not_mem_nil
  | cons m ms ih =>
    rw [List.forall_mem_cons] at h
    simp only [writeMembers, List.cons_append, List.mem_cons, List.mem_append, not_or]
    exact ⟨by decide, ⟨not_mem_newline level, not_mem_writeMember h.1⟩, ih h.2⟩

/-- The text of a value has no other end of line than `\n`. -/
theorem Storable.not_mem_writeAt {j : Json} (h : j.Storable) (level : Nat) :
    '\r' ∉ writeAt level j := by
  induction h generalizing level with
  | null =>
    rw [writeAt]
    decide
  | bool b =>
    rw [writeAt]
    revert b
    decide
  | @int i hi =>
    show '\r' ∉ (toString i).toList
    rw [toList_toString_int, List.mem_append, not_or]
    exact ⟨not_mem_sign _, not_mem_digits (isWhole_digitsText _).digits⟩
  | number x => exact not_mem_documentLiteral x
  | text s => exact not_mem_writeString s
  | @list items h ih =>
    cases items with
    | nil =>
      rw [writeAt]
      decide
    | cons j js =>
      rw [List.forall_mem_cons] at ih
      simp only [writeAt, List.cons_append, List.mem_cons, List.mem_append, List.not_mem_nil,
        or_false, not_or]
      exact ⟨by decide, ⟨⟨⟨not_mem_newline _, ih.1 _⟩, not_mem_writeItems fun j hj => ih.2 j hj _⟩,
        not_mem_newline _⟩, by decide⟩
  | @object members hkeys h ih =>
    cases members with
    | nil =>
      rw [writeAt]
      decide
    | cons m ms =>
      rw [List.forall_mem_cons] at ih
      simp only [writeAt, List.cons_append, List.mem_cons, List.mem_append, List.not_mem_nil,
        or_false, not_or]
      exact ⟨by decide, ⟨⟨⟨not_mem_newline _, not_mem_writeMember (ih.1 _)⟩,
        not_mem_writeMembers fun m hm => ih.2 m hm _⟩, not_mem_newline _⟩, by decide⟩

theorem unifyNewlines_of_not_mem {cs : List Char} (h : '\r' ∉ cs) : Text.unifyNewlines cs = cs := by
  fun_induction Text.unifyNewlines cs with
  | case1 => rfl
  | case2 rest ih => exact absurd List.mem_cons_self h
  | case3 rest hline ih => exact absurd List.mem_cons_self h
  | case4 c rest _ hc ih => rw [ih fun hr => h (List.mem_cons_of_mem c hr)]

theorem unifyNewlines_write {j : Json} (h : j.Storable) : Text.unifyNewlines j.write = j.write :=
  unifyNewlines_of_not_mem (h.not_mem_writeAt 0)

end Json

end Mandate
