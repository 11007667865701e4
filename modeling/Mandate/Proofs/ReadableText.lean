/-
  Mandate.Proofs.ReadableText

  Which texts can be read at all, whichever terminals compete for their lexemes.

  Where a token ends depends on the terminals allowed: `.5` is one number or a point
  and a number. `Lexeme.readOn` cuts a text as small as any of them would, so every
  lexeme is made of such pieces (`Lexeme.unread_drop`), and what is left where no
  piece can be read (`Lexeme.unread`) does not depend on the cuts before it.

    * `tokensFrom_of_readable`, `tokensFrom_of_unread`: the token stream of a text
      ends where the text cannot be read on.
    * `parseFrom_reads`: so does the parser, unless it stops earlier at a token that
      it does not expect.
-/

import Mandate.Proofs.Parsing
import Mandate.Proofs.Uncomment

namespace Mandate

namespace Lexeme

/-! ## Reading on -/

/-- The characters of marks that are read wherever they stand. -/
def looseMarks : List Char :=
  ['<', '>', '=', '-', ';', '.', '&', '|', '+', '*', '/', '%', '^', '[', ']', '(', ')', ',', ':']

/-- Whether a character is read wherever it stands in code. -/
def isLoose (c : Char) : Bool :=
  isWordPart c || Text.isDigit c || isSpace c || looseMarks.contains c

/-- What comes after the smallest piece at the front of a text: a loose character, a comment, a
string or `!=`. -/
def readOn : List Char → Option (List Char)
  | [] => none
  | c :: cs =>
    if isLoose c then some cs
    else if c = '#' then some (cs.dropWhile (· != '\n'))
    else if stringLength (c :: cs) ≠ 0 then some ((c :: cs).drop (stringLength (c :: cs)))
    else if c = '!' && cs.head? = some '=' then some cs.tail
    else none

theorem length_readOn {cs ds : List Char} (h : readOn cs = some ds) : ds.length < cs.length := by
  cases cs with
  | nil => cases h
  | cons c cs =>
    rw [readOn] at h
    split at h
    · cases h
      exact Nat.lt_succ_self _
    split at h
    · cases h
      exact Nat.lt_succ_of_le (List.dropWhile_sublist (l := cs) _).length_le
    split at h
    · next hstring =>
      cases h
      rw [List.length_drop, List.length_cons]
      omega
    split at h
    · cases h
      rw [List.length_tail, List.length_cons]
      omega
    · cases h

/-- The rest of a text from where it cannot be read on. -/
def unread (cs : List Char) : List Char :=
  match _h : readOn cs with
  | some ds => unread ds
  | none => cs
termination_by cs.length
decreasing_by exact length_readOn _h

/-- A text that can be read to its end. -/
def Readable (cs : List Char) : Prop := unread cs = []

instance (cs : List Char) : Decidable (Readable cs) := inferInstanceAs (Decidable (_ = _))

theorem unread_of_readOn {cs ds : List Char} (h : readOn cs = some ds) :
    unread cs = unread ds := by
  rw [unread]
  split
  · next h' =>
    cases h.symm.trans h'
    rfl
  · next h' => cases h.symm.trans h'

theorem unread_of_stuck {cs : List Char} (h : readOn cs = none) : unread cs = cs := by
  rw [unread]
  split
  · next h' => cases h.symm.trans h'
  · rfl

theorem length_unread_le (cs : List Char) : (unread cs).length ≤ cs.length := by
  fun_induction unread cs with
  | case1 cs ds hds ih =>
    have hlt := length_readOn hds
    omega
  | case2 cs h => exact Nat.le_refl _

/-! ## Lexemes are made of pieces -/

theorem readOn_loose {c : Char} (hc : isLoose c = true) (cs : List Char) :
    readOn (c :: cs) = some cs := if_pos hc

theorem readOn_comment (cs : List Char) :
    readOn ('#' :: cs) = some (cs.dropWhile (· != '\n')) := rfl

theorem readOn_notEqual (cs : List Char) : readOn ('!' :: '=' :: cs) = some cs := rfl

theorem readOn_string {cs : List Char} (h : stringLength cs ≠ 0) :
    readOn cs = some (cs.drop (stringLength cs)) := by
  cases cs with
  | nil => exact absurd rfl h
  | cons c cs =>
    by_cases hc : c = '"'
    · subst hc
      have hloose : isLoose '"' = false := rfl
      have hcomment : '"' ≠ '#' := by decide
      rw [readOn, hloose, if_neg Bool.false_ne_true, if_neg hcomment, if_pos h]
    · exact absurd (stringLength_of_ne hc cs) h

/-- Loose characters at the front can be taken off. -/
theorem unread_drop_loose {n : Nat} {cs : List Char} (h : ∀ c ∈ cs.take n, isLoose c = true) :
    unread (cs.drop n) = unread cs := by
  induction n generalizing cs with
  | zero => rfl
  | succ n ih =>
    cases cs with
    | nil => rfl
    | cons c cs =>
      rw [List.take_succ_cons, List.forall_mem_cons] at h
      rw [List.drop_succ_cons, ih h.2, unread_of_readOn (readOn_loose h.1 cs)]

theorem isLoose_of_isWordPart (c : Char) (h : isWordPart c = true) : isLoose c = true := by
  rw [isLoose, h, Bool.true_or, Bool.true_or, Bool.true_or]

theorem isLoose_of_isDigit (c : Char) (h : Text.isDigit c = true) : isLoose c = true := by
  rw [isLoose, h, Bool.or_true, Bool.true_or, Bool.true_or]

theorem isLoose_of_isSpace (c : Char) (h : isSpace c = true) : isLoose c = true := by
  rw [isLoose, h, Bool.or_true, Bool.true_or]

theorem isLoose_text {t : Terminal} (ht : t ≠ .notEqual) :
    ∀ c ∈ t.text.toList, isLoose c = true := by
  have hall : (t == .notEqual || t.text.toList.all isLoose) = true := by
    cases t <;> decide +kernel
  rw [Bool.or_eq_true, beq_iff_eq, List.all_eq_true] at hall
  exact hall.resolve_left ht

/-- What is left unread does not depend on the cut after a lexeme. -/
theorem unread_drop {allowed : List Terminal} {cs : List Char} {x : Lexeme}
    (h : scan allowed cs = some x) : unread (cs.drop x.length) = unread cs := by
  -- One case for each pattern, in the order they are tried.
  unfold scan at h
  split at h
  · cases h
    apply unread_drop_loose
    intro c hc
    rw [length, take_nameLength] at hc
    exact of_mem_leadingWord isLoose_of_isWordPart hc
  split at h
  · cases h
    exact unread_drop_loose fun c hc => of_mem_number isLoose_of_isDigit (by decide +kernel) hc
  split at h
  · next hstring =>
    cases h
    have hne : stringLength cs ≠ 0 := by simpa using (Bool.and_eq_true_iff.1 hstring).2
    exact (unread_of_readOn (readOn_string hne)).symm
  split at h
  · cases h
    apply unread_drop_loose
    intro c hc
    rw [length, spaceLength, take_takeWhile] at hc
    exact isLoose_of_isSpace c (List.all_eq_true.1 List.all_takeWhile c hc)
  split at h
  · next hcomment =>
    cases h
    cases cs with
    | nil => cases hcomment
    | cons c cs =>
      by_cases hc : c = '#'
      · subst hc
        rw [length, commentLength, Nat.add_comm, List.drop_succ_cons, drop_takeWhile,
          unread_of_readOn (readOn_comment cs)]
      · rw [commentLength_of_ne hc] at hcomment
        cases hcomment
  · obtain ⟨t, ht, htx⟩ := Option.map_eq_some_iff.1 h
    cases htx
    have htake := take_of_longestFixed ht
    by_cases hne : t = .notEqual
    · subst hne
      have htext : Terminal.notEqual.text.toList = ['!', '='] := rfl
      have hcs := List.take_append_drop Terminal.notEqual.text.length cs
      rw [htake, htext] at hcs
      rw [length, ← unread_of_readOn (readOn_notEqual _)]
      exact congrArg unread hcs
    · apply unread_drop_loose
      intro c hc
      rw [length, htake] at hc
      exact isLoose_text hne c hc

/-! ## Pieces are lexemes -/

theorem longestFixed_ne_none {cs : List Char} {ts : List Terminal} {t : Terminal} (ht : t ∈ ts)
    (hlength : fixedLength t cs ≠ 0) : longestFixed cs ts ≠ none := by
  induction ts with
  | nil => cases ht
  | cons u us ih =>
    unfold longestFixed
    split
    · next hnone =>
      rcases List.mem_cons.1 ht with rfl | hus
      · rw [if_neg hlength]
        exact Option.some_ne_none t
      · exact absurd hnone (ih hus)
    · split
      · exact Option.some_ne_none _
      · exact Option.some_ne_none _

/-- What is scanned by none of the ways to scan it. -/
theorem scan_eq_none {allowed : List Terminal} {cs : List Char} (h : scan allowed cs = none) :
    (Terminal.name ∈ allowed → nameLength cs = 0) ∧
    (Terminal.number ∈ allowed → numberLength cs = 0) ∧
    (Terminal.string ∈ allowed → stringLength cs = 0) ∧
    spaceLength cs = 0 ∧ commentLength cs = 0 ∧ longestFixed cs (fixed allowed) = none := by
  unfold scan at h
  split at h
  · cases h
  next hname =>
  split at h
  · cases h
  next hnumber =>
  split at h
  · cases h
  next hstring =>
  split at h
  · cases h
  next hspace =>
  split at h
  · cases h
  next hcomment =>
  simp only [Bool.and_eq_true, List.contains_iff_mem, bne_iff_ne, ne_eq, not_and,
    Decidable.not_not] at hname hnumber hstring hspace hcomment
  exact ⟨hname, hnumber, hstring, hspace, hcomment, Option.map_eq_none_iff.1 h⟩

theorem not_isWordStart_of_nameLength {c : Char} {cs : List Char} (h : nameLength (c :: cs) = 0) :
    isWordStart c = false := by
  rw [Bool.eq_false_iff]
  intro hstart
  have hpart : isWordPart c = true := isWordPart_of_isWordStart hstart
  rw [nameLength, Layout.leadingWord, if_pos hstart, List.takeWhile_cons_of_pos hpart] at h
  cases h

theorem not_isDigit_of_numberLength {c : Char} {cs : List Char}
    (h : numberLength (c :: cs) = 0) : Text.isDigit c = false := by
  rw [Bool.eq_false_iff]
  intro hdigit
  rw [numberLength, digitsLength, List.takeWhile_cons_of_pos hdigit, List.length_cons] at h
  omega

theorem isDigit_of_isWordPart {c : Char} (h : isWordPart c = true) (hc : isWordStart c = false) :
    Text.isDigit c = true := by
  rw [isWordStart, Bool.or_eq_false_iff] at hc
  have hparts : (c.isAlpha || c.isDigit || c = '_') = true := h
  rw [hc.1, hc.2, Bool.false_or, Bool.or_false] at hparts
  have hrange : (decide (48 ≤ c.val) && decide (c.val ≤ 57)) = true := hparts
  rw [Bool.and_eq_true, decide_eq_true_eq, decide_eq_true_eq, UInt32.le_iff_toNat_le,
    UInt32.le_iff_toNat_le] at hrange
  have hsmall : c.toNat < 128 := Nat.lt_of_le_of_lt hrange.2 (by decide)
  have hdigit : '0' ≤ c ∧ c ≤ '9' := by
    rw [Char.le_def, Char.le_def, UInt32.le_iff_toNat_le, UInt32.le_iff_toNat_le]
    exact hrange
  rw [Text.isDigit, Text.digitValue?, if_pos hsmall, if_pos hdigit]
  rfl

/-- Every loose mark is a terminal. -/
theorem exists_mark {c : Char} (h : c ∈ looseMarks) :
    ∃ t ∈ fixed Terminal.all, t.text.toList = [c] := by
  have hall : (looseMarks.all fun c =>
      (fixed Terminal.all).any fun t => t.text.toList == [c]) = true := by
    decide +kernel
  obtain ⟨t, ht, hc⟩ := List.any_eq_true.1 (List.all_eq_true.1 hall c h)
  exact ⟨t, ht, eq_of_beq hc⟩

theorem scan_all_ne_none_of_fixed {cs : List Char} {t : Terminal}
    (ht : t ∈ fixed Terminal.all) (hfront : t.text.toList <+: cs) (hne : t.text ≠ "") :
    longestFixed cs (fixed Terminal.all) ≠ none := by
  apply longestFixed_ne_none ht
  rw [fixedLength, if_pos (List.isPrefixOf_iff_prefix.2 hfront)]
  exact fun h => hne (String.length_eq_zero_iff.1 h)

/-- A text that no terminal matches cannot be read on. -/
theorem readOn_of_scan {cs : List Char} (h : scan Terminal.all cs = none) : readOn cs = none := by
  obtain ⟨hname, hnumber, hstring, hspace, hcomment, hfixed⟩ := scan_eq_none h
  cases cs with
  | nil => rfl
  | cons c cs =>
    -- Every way to read on takes a front that one of the patterns would have matched.
    have hstart := not_isWordStart_of_nameLength (hname (Terminal.mem_all _))
    have hdigit := not_isDigit_of_numberLength (hnumber (Terminal.mem_all _))
    have hword : isWordPart c = false := by
      rw [Bool.eq_false_iff]
      intro hpart
      rw [isDigit_of_isWordPart hpart hstart] at hdigit
      cases hdigit
    have hspaced : isSpace c = false := by
      rw [Bool.eq_false_iff]
      intro hc
      rw [spaceLength, List.takeWhile_cons_of_pos hc] at hspace
      cases hspace
    have hmark : looseMarks.contains c = false := by
      rw [Bool.eq_false_iff]
      intro hc
      obtain ⟨t, ht, htext⟩ := exists_mark (List.contains_iff_mem.1 hc)
      refine scan_all_ne_none_of_fixed ht ?_ ?_ hfixed
      · rw [htext]
        exact ⟨cs, rfl⟩
      · rintro hempty
        rw [hempty] at htext
        cases htext
    have hloose : isLoose c = false := by
      rw [isLoose, hword, hdigit, hspaced, hmark]
      rfl
    have hsharp : c ≠ '#' := by
      rintro rfl
      rw [commentLength] at hcomment
      omega
    have hbang : (c = '!' && cs.head? = some '=') = false := by
      rw [Bool.eq_false_iff]
      intro hc
      simp only [Bool.and_eq_true, decide_eq_true_eq] at hc
      obtain ⟨rfl, hhead⟩ := hc
      obtain ⟨ds, rfl⟩ := List.head?_eq_some_iff.1 hhead
      refine scan_all_ne_none_of_fixed (t := .notEqual) (by decide) ?_ (by decide) hfixed
      exact ⟨ds, rfl⟩
    rw [readOn, hloose, if_neg Bool.false_ne_true, if_neg hsharp,
      if_neg (not_not_intro (hstring (Terminal.mem_all _))), hbang, if_neg Bool.false_ne_true]

/-- A lexeme that is a gap is one whatever is allowed. -/
theorem scan_ne_none_of_gap {allowed allowed' : List Terminal} {cs : List Char} {n : Nat}
    (h : scan allowed cs = some (.gap n)) : scan allowed' cs ≠ none := by
  intro hnone
  obtain ⟨-, -, -, hspace, hcomment, -⟩ := scan_eq_none hnone
  rw [scan, hspace, hcomment] at h
  split at h
  · cases h
  split at h
  · cases h
  split at h
  · cases h
  · obtain ⟨t, -, ht⟩ := Option.map_eq_some_iff.1 h
    cases ht

/-! ## Lexemes are within the text -/

theorem fractionLength_le (cs : List Char) : fractionLength cs ≤ cs.length := by
  unfold fractionLength
  split
  · next rest =>
    have hdigits : digitsLength rest ≤ rest.length := (List.takeWhile_prefix _).length_le
    rw [List.length_cons]
    split
    · omega
    · omega
  · exact Nat.zero_le _

theorem numberLength_le (cs : List Char) : numberLength cs ≤ cs.length := by
  have hdigits : digitsLength cs ≤ cs.length := (List.takeWhile_prefix _).length_le
  have hfraction := fractionLength_le (cs.drop (digitsLength cs))
  rw [List.length_drop] at hfraction
  rw [numberLength]
  omega

theorem stringTail_le (n : Nat) (cs : List Char) : stringTail n cs ≤ n + cs.length := by
  fun_induction stringTail n cs with
  | case1 => exact Nat.zero_le _
  | case2 => exact Nat.zero_le _
  | case3 n rest => exact Nat.zero_le _
  | case4 n c rest hc ih =>
    rw [List.length_cons, List.length_cons]
    omega
  | case5 n rest hlast hescape =>
    rw [List.length_cons]
    omega
  | case6 n c rest hlast hescape hquote ih =>
    rw [List.length_cons]
    omega

theorem stringLength_le (cs : List Char) : stringLength cs ≤ cs.length := by
  unfold stringLength
  split
  · next rest =>
    have htail := stringTail_le 1 rest
    rw [List.length_cons]
    omega
  · exact Nat.zero_le _

theorem commentLength_le (cs : List Char) : commentLength cs ≤ cs.length := by
  unfold commentLength
  split
  · next rest =>
    have hline := (List.takeWhile_prefix (l := rest) (· != '\n')).length_le
    rw [List.length_cons]
    omega
  · exact Nat.zero_le _

theorem nameLength_le (cs : List Char) : nameLength cs ≤ cs.length := by
  have htake := congrArg List.length (take_nameLength cs)
  rw [List.length_take] at htake
  rw [nameLength]
  rw [nameLength] at htake
  omega

theorem scan_length_le {allowed : List Terminal} {cs : List Char} {x : Lexeme}
    (h : scan allowed cs = some x) : x.length ≤ cs.length := by
  unfold scan at h
  split at h
  · cases h
    exact nameLength_le cs
  split at h
  · cases h
    exact numberLength_le cs
  split at h
  · cases h
    exact stringLength_le cs
  split at h
  · cases h
    exact (List.takeWhile_prefix _).length_le
  split at h
  · cases h
    exact commentLength_le cs
  · obtain ⟨t, ht, htx⟩ := Option.map_eq_some_iff.1 h
    cases htx
    have hprefix := List.isPrefixOf_iff_prefix.1 (isPrefixOf_of_longestFixed ht)
    rw [length, ← String.length_toList]
    exact hprefix.length_le

/-! ## Where reading stops -/

/-- How much of a text can be read. -/
def readLength (cs : List Char) : Nat := cs.length - (unread cs).length

/-- What can be read of a text is its first lexeme and what can be read after it. -/
theorem readLength_of_scan {allowed : List Terminal} {cs : List Char} {x : Lexeme}
    (h : scan allowed cs = some x) : readLength cs = x.length + readLength (cs.drop x.length) := by
  have hle := scan_length_le h
  have hrest := length_unread_le (cs.drop x.length)
  have hsame := unread_drop h
  rw [List.length_drop] at hrest
  rw [readLength, readLength, List.length_drop, ← hsame]
  omega

theorem readable_drop_iff {allowed : List Terminal} {cs : List Char} {x : Lexeme}
    (h : scan allowed cs = some x) : Readable (cs.drop x.length) ↔ Readable cs := by
  rw [Readable, Readable, unread_drop h]

theorem readable_nil : Readable [] := unread_of_stuck rfl

/-- Where no terminal matches, nothing more can be read. -/
theorem unread_of_scan {cs : List Char} (hcs : cs ≠ []) (h : scan Terminal.all cs = none) :
    ¬Readable cs ∧ readLength cs = 0 := by
  have hstuck := unread_of_stuck (readOn_of_scan h)
  rw [Readable, readLength, hstuck, Nat.sub_self]
  exact ⟨hcs, rfl⟩

end Lexeme

/-! ## Token streams -/

/-- A readable text has a token stream. -/
theorem tokensFrom_of_readable {offset : Nat} {cs : List Char} (h : Lexeme.Readable cs) :
    ∃ tokens, tokensFrom offset cs = .ok tokens := by
  fun_induction tokensFrom offset cs with
  | case1 => exact ⟨[], rfl⟩
  | case2 offset cs hcs n hscan ih => exact ih ((Lexeme.readable_drop_iff hscan).2 h)
  | case3 offset cs hcs t n hscan ih =>
    obtain ⟨tokens, htokens⟩ := ih ((Lexeme.readable_drop_iff hscan).2 h)
    rw [htokens]
    exact ⟨_, rfl⟩
  | case4 offset cs hcs hscan => exact absurd h (Lexeme.unread_of_scan hcs hscan).1

/-- Any other text has none, because of the first place where it cannot be read on. -/
theorem tokensFrom_of_unread {offset : Nat} {cs : List Char} (h : ¬Lexeme.Readable cs) :
    tokensFrom offset cs = .error (offset + Lexeme.readLength cs) := by
  fun_induction tokensFrom offset cs with
  | case1 => exact absurd Lexeme.readable_nil h
  | case2 offset cs hcs n hscan ih =>
    rw [ih fun hrest => h ((Lexeme.readable_drop_iff hscan).1 hrest),
      Lexeme.readLength_of_scan hscan, Nat.add_assoc]
    rfl
  | case3 offset cs hcs t n hscan ih =>
    rw [ih fun hrest => h ((Lexeme.readable_drop_iff hscan).1 hrest),
      Lexeme.readLength_of_scan hscan, Nat.add_assoc]
    rfl
  | case4 offset cs hcs hscan => rw [(Lexeme.unread_of_scan hcs hscan).2, Nat.add_zero]

/-! ## Parsing -/

/-- What the result of parsing a text from an offset on says about how much of it can be read.
A program is readable, a character that no terminal matches is where reading stops, and an
unexpected token comes before that. -/
def Rejection.Reads (offset : Nat) (cs : List Char) :
    Except Rejection (Tree (.branch .program)) → Prop
  | .ok _ => Lexeme.Readable cs
  | .error (.character p) => ¬Lexeme.Readable cs ∧ p = offset + Lexeme.readLength cs
  | .error (.token _ found) =>
    ¬Lexeme.Readable cs → found.terminal ≠ .finish ∧ found.stop ≤ offset + Lexeme.readLength cs

theorem Rejection.Reads.of_drop {offset : Nat} {allowed : List Terminal} {cs : List Char}
    {x : Lexeme} {result : Except Rejection (Tree (.branch .program))}
    (hscan : Lexeme.scan allowed cs = some x)
    (h : Rejection.Reads (offset + x.length) (cs.drop x.length) result) :
    Rejection.Reads offset cs result := by
  cases result with
  | ok tree => exact (Lexeme.readable_drop_iff hscan).1 h
  | error rejection =>
    cases rejection with
    | character p =>
      refine ⟨fun hcs => h.1 ((Lexeme.readable_drop_iff hscan).2 hcs), ?_⟩
      rw [h.2, Lexeme.readLength_of_scan hscan, Nat.add_assoc]
    | token expected found =>
      intro hcs
      have hfound := h fun hrest => hcs ((Lexeme.readable_drop_iff hscan).1 hrest)
      rw [Lexeme.readLength_of_scan hscan, ← Nat.add_assoc]
      exact hfound

/-- The token at the front of a text is read. -/
theorem Rejection.Reads.of_token {offset : Nat} {allowed : List Terminal} {cs : List Char}
    {t : Terminal} {n : Nat} (hscan : Lexeme.scan allowed cs = some (.token t n))
    (expected : List Terminal) :
    Rejection.Reads offset cs
      (.error (.token expected ⟨t, String.ofList (cs.take n), offset⟩)) := by
  intro _
  have hle : n ≤ cs.length := Lexeme.scan_length_le hscan
  have hread : Lexeme.readLength cs = n + Lexeme.readLength (cs.drop n) :=
    Lexeme.readLength_of_scan hscan
  refine ⟨fun ht => ?_, ?_⟩
  · have hfinish : t = .finish := ht
    rw [hfinish] at hscan
    exact Lexeme.scan_ne_finish hscan
  · rw [Token.stop, String.length_ofList, List.length_take]
    show offset + min n cs.length ≤ offset + Lexeme.readLength cs
    omega

/-- Where none of the expected terminals matches, another token is found or nothing can be
read. -/
theorem parseFrom_reads_unread {offset : Nat} {cs : List Char} {q : ItemSet} (stack : Stack q)
    (hcs : cs ≠ []) (hscan : Lexeme.scan q.expected cs = none) :
    Rejection.Reads offset cs (parseFrom offset cs stack) := by
  rw [parseFrom]
  simp only [hcs, ↓reduceDIte]
  split
  · next h' => cases hscan.symm.trans h'
  · next h' => cases hscan.symm.trans h'
  · split
    · next hall => exact .of_token hall _
    · next hgap => exact absurd hscan (Lexeme.scan_ne_none_of_gap hgap)
    · next hall =>
      have hstop := Lexeme.unread_of_scan hcs hall
      exact ⟨hstop.1, by rw [hstop.2, Nat.add_zero]⟩

/-- The parser reads as much as can be read, up to a token that it does not expect. -/
theorem parseFrom_reads (offset : Nat) (cs : List Char) {q : ItemSet} (stack : Stack q) :
    Rejection.Reads offset cs (parseFrom offset cs stack) := by
  induction offset, cs, q, stack using parseFrom.induct with
  | case1 offset q stack tree hfinish hsettle =>
    rw [parseFrom_eq_ok hsettle]
    exact Lexeme.readable_nil
  | case2 offset q stack r hsettle =>
    rw [parseFrom_eq_unfinished hsettle]
    exact fun h => absurd Lexeme.readable_nil h
  | case3 offset cs q stack hcs n hscan ih =>
    -- Past a lexeme the offset grows by what there is less to read.
    rw [parseFrom_eq_gap hcs hscan]
    exact .of_drop hscan ih
  | case4 offset cs q stack hcs t n hscan text r below hreads hsettle ih =>
    rw [parseFrom_eq_shift hcs hscan hsettle]
    exact .of_drop hscan ih
  | case5 offset cs q stack hcs t n hscan r hsettle =>
    rw [parseFrom_eq_unexpected hcs hscan hsettle]
    exact .of_token hscan _
  | case6 offset cs q stack hcs hscan | case7 offset cs q stack hcs hscan
  | case8 offset cs q stack hcs hscan =>
    exact parseFrom_reads_unread stack hcs hscan

/-! ## Sources -/

/-- The error of a source that cannot be read to its end. -/
def unreadError (source : List Char) : SyntaxError :=
  unreadable source (Layout.separate source) (Lexeme.readLength (Layout.separate source))

theorem start_unreadError (source : List Char) :
    (unreadError source).span.start = Lexeme.readLength (Layout.separate source) := by
  unfold unreadError unreadable
  dsimp only
  split
  · rfl
  · rfl

/-- The token stream of a source is read or stops where its text cannot be read on. -/
theorem tokenize_of_readable {source : List Char}
    (h : Lexeme.Readable (Layout.separate source)) : ∃ tokens, tokenize source = .ok tokens := by
  obtain ⟨tokens, htokens⟩ := tokensFrom_of_readable h
  refine ⟨tokens, ?_⟩
  rw [tokenize, htokens]

theorem tokenize_of_unread {source : List Char}
    (h : ¬Lexeme.Readable (Layout.separate source)) :
    tokenize source = .error (unreadError source) := by
  rw [tokenize, tokensFrom_of_unread h, Nat.zero_add]
  rfl

/-- A program can be read to its end. -/
theorem readable_of_parse {source : List Char} {program : Node} (h : parse source = .ok program) :
    Lexeme.Readable (Layout.separate source) := by
  have hreads := parseFrom_reads 0 (Layout.separate source) .bottom
  obtain ⟨tree, htree, -⟩ := exists_tree_of_parse h
  rw [parseTree] at htree
  rw [htree] at hreads
  exact hreads

/-- A source that cannot be read to its end is rejected for that, or for a token before. -/
theorem parse_of_unread {source : List Char} (h : ¬Lexeme.Readable (Layout.separate source)) :
    parse source = .error (unreadError source) ∨
      ∃ expected found span, parse source = .error ⟨.unexpected expected found, span⟩ ∧
        span.stop ≤ (unreadError source).span.start := by
  have hreads := parseFrom_reads 0 (Layout.separate source) .bottom
  unfold parse parseTree
  dsimp only
  generalize parseFrom 0 (Layout.separate source) .bottom = result at hreads
  cases result with
  | ok tree => exact absurd hreads h
  | error rejection =>
    cases rejection with
    | character p =>
      obtain rfl : p = _ := hreads.2.trans (Nat.zero_add _)
      exact .inl rfl
    | token expected found =>
      obtain ⟨hfinish, hstop⟩ := hreads h
      rw [Nat.zero_add] at hstop
      refine .inr ⟨_, _, _, congrArg Except.error (if_neg hfinish), ?_⟩
      rw [start_unreadError]
      exact Int.ofNat_le.2 hstop

end Mandate
