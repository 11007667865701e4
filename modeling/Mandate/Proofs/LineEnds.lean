/-
  Mandate.Proofs.LineEnds

  Which line ends become separators when a source is laid out.

    * `Layout.nestingAt` is what a place of a source is inside of: a string, a
      comment, brackets. It depends on the characters before the place alone.
    * `Layout.CodeAt` tells the places of code from those of blanks and comments, and
      `Layout.Between` the stretches of the latter that have code on both sides.
    * `Layout.replaced_iff`: of such a stretch the first line end outside brackets is
      replaced, unless the code around it goes on over it (`Layout.joined`).
    * `Layout.separate_replaces`: nothing else is replaced.

  The code before a place is kept with the separators that were written into it. One
  of these keeps every later line end of its stretch from being replaced
  (`Layout.behind_of_replaced`); until then the code ends as the source does
  (`Layout.behind_of_unreplaced`).
-/

import Mathlib.Data.Nat.Find
import Mandate.Proofs.Comments

namespace Mandate

namespace Layout

/-! ## Places of a source -/

/-- What a place of a source is inside of. -/
structure Nesting where
  mode : Mode := .code
  /-- How many brackets are open. A closing bracket too many counts for nothing. -/
  depth : Nat := 0
  deriving DecidableEq, Repr

/-- What the place after a character is inside of. Brackets count in code only. -/
def Nesting.after (n : Nesting) (c : Char) : Nesting :=
  { mode := n.mode.after c
    depth := if n.mode = .code then depthAfter n.depth c else n.depth }

/-- What the place after a text is inside of. -/
def Nesting.over (n : Nesting) (cs : List Char) : Nesting := cs.foldl Nesting.after n

/-- What a place of a source is inside of, given by its offset. -/
def nestingAt (source : List Char) (k : Nat) : Nesting := Nesting.over {} (source.take k)

/-- Whether a place is inside a string. -/
def Mode.inString : Mode → Bool
  | .string | .escape => true
  | .code | .comment => false

/-- Whether a character is code: all of a string is, and what is neither blank nor in a
comment. -/
def Mode.isCode : Mode → Char → Bool
  | .code, c => c != '#' && !Text.isBlank c
  | .comment, _ => false
  | .string, _ | .escape, _ => true

/-- There is a character of code at an offset. -/
def CodeAt (source : List Char) (k : Nat) : Prop :=
  ∃ c, source[k]? = some c ∧ (nestingAt source k).mode.isCode c = true

/-- Two characters of code with nothing but blanks and comments between them. -/
structure Between (source : List Char) (i j : Nat) : Prop where
  lt : i < j
  first : CodeAt source i
  last : CodeAt source j
  gap : ∀ k, i < k → k < j → ¬CodeAt source k

/-- A line end outside strings and brackets. -/
structure FreeLineEnd (source : List Char) (k : Nat) : Prop where
  lineEnd : source[k]? = some '\n'
  outside : (nestingAt source k).mode.inString = false
  depth : (nestingAt source k).depth = 0

/-- What is written at an offset is not what stands there. -/
def Replaced (source : List Char) (k : Nat) : Prop := (separate source)[k]? ≠ source[k]?

/-- Whether an expression goes on from the code that ends at offset `i` to the code that starts
at offset `j`. -/
def joined (source : List Char) (i j : Nat) : Bool :=
  source[i]?.any openEnds.contains
    || openWords.contains (trailingWord (source.take (i + 1)).reverse)
    || source[j]?.any carriers.contains
    || carryWords.contains (leadingWord (source.drop j))

/-! ## Reading a character -/

/-- What a state is inside of. -/
def State.nesting (s : State) : Nesting := { mode := s.mode, depth := s.depth }

/-- A character is replaced if it is a line end outside strings and brackets over which the
expression does not go on. -/
theorem read_fst (s : State) (c : Char) (ahead : List Char) :
    (s.read c ahead).1 =
      if c = '\n' ∧ s.mode.inString = false ∧ s.depth = 0 ∧ continues s.behind ahead = false
      then ';' else c := by
  have hcode : (s.readCode c ahead).1 =
      if c = '\n' ∧ s.depth = 0 ∧ continues s.behind ahead = false then ';' else c := by
    rw [State.readCode]
    by_cases hcomment : c = '#'
    · simp [hcomment]
    by_cases hquote : c = '"'
    · simp [hquote]
    by_cases hline : c = '\n'
    · have hdepth : depthAfter s.depth '\n' = s.depth := rfl
      subst hline
      rw [if_neg hcomment, if_neg hquote, hdepth]
      by_cases hsep : s.depth = 0 ∧ continues s.behind ahead = false
      · simp [hsep]
      · simp [hsep]
    · simp [hcomment, hquote, hline]
  rw [State.read]
  cases hmode : s.mode with
  | code => simpa [Mode.inString] using hcode
  | comment =>
    by_cases hline : c = '\n'
    · simpa [Mode.inString, hline] using hcode
    · simp [hline]
  | string =>
    by_cases hescape : c = '\\'
    · simp [hescape]
    · by_cases hquote : c = '"' <;> simp [Mode.inString, hescape, hquote]
  | escape => simp [Mode.inString]

theorem readCode_snd (s : State) (c : Char) (ahead : List Char) :
    (s.readCode c ahead).2 =
      { mode := Mode.code.after c
        depth := depthAfter s.depth c
        behind := if Mode.code.after c = .code then (s.readCode c ahead).1 :: s.behind
          else s.behind } := by
  rw [State.readCode, Mode.after]
  by_cases hcomment : c = '#'
  · subst hcomment
    rfl
  by_cases hquote : c = '"'
  · subst hquote
    rfl
  rw [if_neg hcomment, if_neg hcomment, if_neg hquote, if_neg hquote]
  dsimp only
  split
  · rfl
  · rfl

/-- What is known after a character. What is written for it is code behind the next one, if that
is not inside of anything. -/
theorem read_snd (s : State) (c : Char) (ahead : List Char) :
    (s.read c ahead).2 =
      { mode := s.mode.after c
        depth := if s.mode = .code then depthAfter s.depth c else s.depth
        behind := if s.mode.after c = .code then (s.read c ahead).1 :: s.behind
          else s.behind } := by
  have hcode := readCode_snd s c ahead
  obtain ⟨mode, depth, behind⟩ := s
  cases mode with
  | code => exact hcode
  | comment =>
    by_cases hline : c = '\n'
    · subst hline
      exact hcode
    · simp [State.read, Mode.after, hline]
  | string =>
    by_cases hescape : c = '\\'
    · simp [State.read, Mode.after, hescape]
    · by_cases hquote : c = '"' <;> simp [State.read, Mode.after, hescape, hquote]
  | escape => rfl

theorem nesting_read (s : State) (c : Char) (ahead : List Char) :
    (s.read c ahead).2.nesting = s.nesting.after c := by
  rw [State.nesting, read_snd]
  rfl

theorem behind_read (s : State) (c : Char) (ahead : List Char) :
    (s.read c ahead).2.behind =
      if s.mode.after c = .code then (s.read c ahead).1 :: s.behind else s.behind := by
  rw [read_snd]

/-! ## Reading a source -/

/-- What is known after `k` characters of a text. -/
def State.over (s : State) : (k : Nat) → List Char → State
  | 0, _ | _, [] => s
  | k + 1, c :: cs => (s.read c cs).2.over k cs

/-- What is known of a source at an offset. -/
def stateAt (source : List Char) (k : Nat) : State := State.over {} k source

theorem State.over_succ (s : State) {cs : List Char} {k : Nat} {c : Char} (h : cs[k]? = some c) :
    s.over (k + 1) cs = ((s.over k cs).read c (cs.drop (k + 1))).2 := by
  induction cs generalizing s k with
  | nil => cases h
  | cons d cs ih =>
    cases k with
    | zero =>
      cases h
      rw [State.over, State.over, State.over, List.drop_succ_cons, List.drop_zero]
    | succ k => exact ih (s.read d cs).2 h

theorem State.nesting_over (s : State) (cs : List Char) (k : Nat) :
    (s.over k cs).nesting = s.nesting.over (cs.take k) := by
  induction cs generalizing s k with
  | nil => cases k <;> rfl
  | cons c cs ih =>
    cases k with
    | zero => rfl
    | succ k =>
      rw [State.over, ih, nesting_read]
      rfl

/-- What is written at an offset. -/
theorem getElem?_separateFrom (s : State) (cs : List Char) (k : Nat) :
    (separateFrom s cs)[k]? =
      cs[k]?.map fun c => ((s.over k cs).read c (cs.drop (k + 1))).1 := by
  induction cs generalizing s k with
  | nil => rfl
  | cons c cs ih =>
    cases k with
    | zero => rfl
    | succ k => exact ih (s.read c cs).2 k

section Source

variable {source : List Char} {i j k : Nat} {c : Char}

theorem nesting_stateAt (source : List Char) (k : Nat) :
    (stateAt source k).nesting = nestingAt source k :=
  State.nesting_over {} source k

theorem mode_stateAt (source : List Char) (k : Nat) :
    (stateAt source k).mode = (nestingAt source k).mode :=
  congrArg Nesting.mode (nesting_stateAt source k)

theorem stateAt_succ (h : source[k]? = some c) :
    stateAt source (k + 1) = ((stateAt source k).read c (source.drop (k + 1))).2 :=
  State.over_succ {} h

theorem nestingAt_succ (h : source[k]? = some c) :
    nestingAt source (k + 1) = (nestingAt source k).after c := by
  rw [← nesting_stateAt, stateAt_succ h, nesting_read, nesting_stateAt]

theorem getElem?_separate (source : List Char) (k : Nat) :
    (separate source)[k]? =
      source[k]?.map fun c => ((stateAt source k).read c (source.drop (k + 1))).1 :=
  getElem?_separateFrom {} source k

/-- A character is replaced if it is a free line end over which the expression does not go on. -/
theorem replaced_iff_continues :
    Replaced source k ↔ FreeLineEnd source k ∧
      continues (stateAt source k).behind (source.drop (k + 1)) = false := by
  have hmode := mode_stateAt source k
  have hdepth : (stateAt source k).depth = (nestingAt source k).depth :=
    congrArg Nesting.depth (nesting_stateAt source k)
  rw [Replaced, getElem?_separate]
  cases hc : source[k]? with
  | none =>
    refine iff_of_false (fun h => h rfl) fun h => ?_
    cases hc.symm.trans h.1.lineEnd
  | some c =>
    rw [Option.map_some, ne_eq, Option.some.injEq, read_fst, hmode, hdepth]
    constructor
    · intro hne
      split at hne
      · next h =>
        obtain ⟨rfl, hstring, hfree, hends⟩ := h
        exact ⟨⟨hc, hstring, hfree⟩, hends⟩
      · exact absurd rfl hne
    · rintro ⟨⟨hline, hstring, hfree⟩, hends⟩
      cases hc.symm.trans hline
      rw [if_pos ⟨rfl, hstring, hfree, hends⟩]
      decide

/-- What is written in place of a line end. -/
theorem getElem?_of_replaced (h : Replaced source k) : (separate source)[k]? = some ';' := by
  obtain ⟨⟨hline, hstring, hdepth⟩, hends⟩ := replaced_iff_continues.1 h
  have hnesting := nesting_stateAt source k
  rw [getElem?_separate, hline, Option.map_some, read_fst, if_pos]
  rw [← hnesting] at hstring hdepth
  exact ⟨rfl, hstring, hdepth, hends⟩

/-- What is written at an offset is what stands there, if it is not replaced. -/
theorem read_of_not_replaced (h : ¬Replaced source k) (hc : source[k]? = some c) :
    ((stateAt source k).read c (source.drop (k + 1))).1 = c := by
  have hwritten := not_not.1 h
  rw [getElem?_separate, hc, Option.map_some, Option.some.injEq] at hwritten
  exact hwritten

/-! ## The code before a place -/

/-- Outside of strings and comments the word before a place is the one in the source. -/
theorem takeWhile_behind (h : (nestingAt source k).mode = .code) (hk : k ≤ source.length) :
    (stateAt source k).behind.takeWhile isWordPart
      = (source.take k).reverse.takeWhile isWordPart := by
  induction k with
  | zero => rfl
  | succ k ih =>
    have hc : source[k]? = some source[k] := List.getElem?_eq_getElem hk
    generalize source[k] = c at hc
    rw [nestingAt_succ hc] at h
    have hafter : (nestingAt source k).mode.after c = .code := h
    rw [stateAt_succ hc, behind_read, mode_stateAt, if_pos hafter, List.take_add_one, hc,
      Option.toList_some, List.reverse_append, List.reverse_singleton, List.singleton_append]
    -- A part of a word is not replaced, and nothing but code can come before it.
    by_cases hpart : isWordPart c = true
    · have hline : c ≠ '\n' := by
        rintro rfl
        cases hpart
      have hcode : (nestingAt source k).mode = .code := by
        generalize (nestingAt source k).mode = m at hafter
        cases m with
        | code => rfl
        | comment => simp [Mode.after, hline] at hafter
        | string =>
          have hquote : c ≠ '"' := by
            rintro rfl
            cases hpart
          have hescape : c ≠ '\\' := by
            rintro rfl
            cases hpart
          simp [Mode.after, hquote, hescape] at hafter
        | escape => cases hafter
      rw [read_fst, if_neg fun h => hline h.1, List.takeWhile_cons_of_pos hpart,
        List.takeWhile_cons_of_pos hpart, ih hcode (by omega)]
    · have hwritten : ¬isWordPart ((stateAt source k).read c (source.drop (k + 1))).1 = true := by
        rw [read_fst]
        split
        · decide
        · exact hpart
      rw [List.takeWhile_cons_of_neg hwritten, List.takeWhile_cons_of_neg hpart]

/-- What is no code is a blank or in a comment, and so is no part of a string. -/
theorem Mode.after_of_not_code {m : Mode} (h : m.isCode c = false) :
    m.inString = false ∧ (m.after c).inString = false ∧
      (m.after c = .code → Text.isBlank c = true) := by
  cases m with
  | code =>
    by_cases hcomment : c = '#'
    · subst hcomment
      decide
    · have hblank : Text.isBlank c = true := by simpa [Mode.isCode, hcomment] using h
      have hquote : c ≠ '"' := by
        rintro rfl
        exact absurd hblank (by decide)
      simp [Mode.after, Mode.inString, hcomment, hquote, hblank]
  | comment =>
    by_cases hline : c = '\n'
    · subst hline
      decide
    · simp [Mode.after, Mode.inString, hline]
  | string | escape => cases h

/-- Code that no string comes after or goes on with is no blank. -/
theorem Mode.after_of_code {m : Mode} (h : m.isCode c = true)
    (hstring : (m.after c).inString = false) : m.after c = .code ∧ Text.isBlank c = false := by
  cases m with
  | code =>
    rw [Mode.isCode, Bool.and_eq_true, bne_iff_ne, Bool.not_eq_true'] at h
    by_cases hquote : c = '"'
    · subst hquote
      cases hstring
    · exact ⟨by simp [Mode.after, h.1, hquote], h.2⟩
  | comment => cases h
  | string =>
    by_cases hquote : c = '"'
    · subst hquote
      decide
    · by_cases hescape : c = '\\' <;> simp [Mode.after, Mode.inString, hquote, hescape] at hstring
  | escape => cases hstring

theorem isCode_of_gap (h : ¬CodeAt source k) (hc : source[k]? = some c) :
    (nestingAt source k).mode.isCode c = false :=
  eq_false_of_ne_true fun hcode => h ⟨c, hc, hcode⟩

/-- A gap leaves only blanks behind. -/
theorem behind_of_gap (hc : source[k]? = some c) (hgap : ¬CodeAt source k)
    (h : ¬Replaced source k) :
    (stateAt source (k + 1)).behind.dropWhile Text.isBlank
      = (stateAt source k).behind.dropWhile Text.isBlank := by
  have hblank := (Mode.after_of_not_code (isCode_of_gap hgap hc)).2.2
  rw [stateAt_succ hc, behind_read, read_of_not_replaced h hc, mode_stateAt]
  split
  · next hafter => rw [List.dropWhile_cons_of_pos (hblank hafter)]
  · rfl

theorem Mode.after_lineEnd {m : Mode} (h : m.inString = false) : m.after '\n' = .code := by
  cases m with
  | code | comment => rfl
  | string | escape => cases h

/-- A line end that is replaced leaves its `;` behind. -/
theorem behind_of_separator (h : Replaced source k) :
    (stateAt source (k + 1)).behind.dropWhile Text.isBlank = ';' :: (stateAt source k).behind := by
  have hfree := (replaced_iff_continues.1 h).1
  have hwritten := getElem?_of_replaced h
  have hafter := Mode.after_lineEnd hfree.outside
  rw [getElem?_separate, hfree.lineEnd, Option.map_some, Option.some.injEq] at hwritten
  rw [stateAt_succ hfree.lineEnd, behind_read, mode_stateAt, if_pos hafter, hwritten]
  rfl

theorem continues_of_blank {behind : List Char} (h : behind.dropWhile Text.isBlank = [])
    (ahead : List Char) : continues behind ahead = true := by
  simp only [continues, h]

theorem continues_of_end {ahead : List Char} (h : nextCode ahead = []) (behind : List Char) :
    continues behind ahead = true := by
  simp only [continues, h]
  cases behind.dropWhile Text.isBlank with
  | nil => rfl
  | cons c cs => rfl

theorem continues_of_separator {behind rest : List Char}
    (h : behind.dropWhile Text.isBlank = ';' :: rest) (ahead : List Char) :
    continues behind ahead = true := by
  simp only [continues, h]
  cases nextCode ahead with
  | nil => rfl
  | cons c cs => rfl

/-- Nothing is behind the first code. -/
theorem behind_of_start (hk : k ≤ source.length) (h : ∀ l < k, ¬CodeAt source l) :
    (stateAt source k).behind.dropWhile Text.isBlank = [] := by
  induction k with
  | zero => rfl
  | succ k ih =>
    have hblank := ih (by omega) fun l hl => h l (by omega)
    have hkept : ¬Replaced source k := by
      intro hreplaced
      have hends := (replaced_iff_continues.1 hreplaced).2
      rw [continues_of_blank hblank] at hends
      cases hends
    rw [behind_of_gap (List.getElem?_eq_getElem hk) (h k (by omega)) hkept, hblank]

/-- Once a line end of a gap is replaced, its `;` is the code behind the rest of the gap. -/
theorem behind_of_replaced (hk : k ≤ source.length)
    (hgap : ∀ l, i < l → l < k → ¬CodeAt source l)
    (h : ∃ l, i < l ∧ l < k ∧ Replaced source l) :
    ∃ rest, (stateAt source k).behind.dropWhile Text.isBlank = ';' :: rest := by
  induction k with
  | zero =>
    obtain ⟨l, -, hl, -⟩ := h
    cases hl
  | succ k ih =>
    by_cases hreplaced : Replaced source k
    · exact ⟨_, behind_of_separator hreplaced⟩
    · obtain ⟨l, hil, hlk, hl⟩ := h
      have hne : l ≠ k := fun heq => hreplaced (heq ▸ hl)
      rw [behind_of_gap (List.getElem?_eq_getElem hk) (hgap k (by omega) (by omega)) hreplaced]
      exact ih (by omega) (fun m him hmk => hgap m him (by omega)) ⟨l, hil, by omega, hl⟩

/-- Until then the code behind a gap is the code before it. -/
theorem behind_of_unreplaced (hi : CodeAt source i) (hik : i < k) (hk : k ≤ source.length)
    (hstring : (nestingAt source k).mode.inString = false)
    (hgap : ∀ l, i < l → l < k → ¬CodeAt source l)
    (h : ∀ l, i < l → l < k → ¬Replaced source l) :
    ∃ c rest, (stateAt source k).behind.dropWhile Text.isBlank = c :: rest ∧
      source[i]? = some c ∧
      (c :: rest).takeWhile isWordPart = (source.take (i + 1)).reverse.takeWhile isWordPart := by
  induction k with
  | zero => cases hik
  | succ k ih =>
    by_cases hlast : i = k
    · -- The code ends right here, so the state is the one after its last character.
      subst hlast
      obtain ⟨c, hc, hcode⟩ := hi
      have hmode : (nestingAt source (i + 1)).mode = (nestingAt source i).mode.after c :=
        congrArg Nesting.mode (nestingAt_succ hc)
      obtain ⟨hafter, hblank⟩ := Mode.after_of_code hcode (hmode ▸ hstring)
      have hline : c ≠ '\n' := by
        rintro rfl
        exact absurd hblank (by decide)
      have hbehind : (stateAt source (i + 1)).behind = c :: (stateAt source i).behind := by
        rw [stateAt_succ hc, behind_read, mode_stateAt, if_pos hafter, read_fst,
          if_neg fun h => hline h.1]
      have hword := takeWhile_behind (hmode.trans hafter) hk
      rw [hbehind] at hword
      rw [hbehind, List.dropWhile_cons_of_neg (by rw [hblank]; decide)]
      exact ⟨c, _, rfl, hc, hword⟩
    · have hc : source[k]? = some source[k] := List.getElem?_eq_getElem hk
      have hnot := hgap k (by omega) (by omega)
      rw [behind_of_gap hc hnot (h k (by omega) (by omega))]
      exact ih (by omega) (by omega) (Mode.after_of_not_code (isCode_of_gap hnot hc)).1
        (fun l hil hlk => hgap l hil (by omega)) fun l hil hlk => h l hil (by omega)

/-! ## The code after a place -/

/-- The text from its next code on, read from some mode on. -/
def Mode.skip : Mode → List Char → List Char
  | .comment, cs => nextCode.skipComment cs
  | _, cs => nextCode cs

theorem Mode.skip_of_not_code {m : Mode} (h : m.isCode c = false) (cs : List Char) :
    m.skip (c :: cs) = (m.after c).skip cs := by
  cases m with
  | code =>
    by_cases hcomment : c = '#'
    · subst hcomment
      rfl
    · have hblank : Text.isBlank c = true := by simpa [Mode.isCode, hcomment] using h
      have hquote : c ≠ '"' := by
        rintro rfl
        exact absurd hblank (by decide)
      have hskip : Mode.code.skip (c :: cs) = nextCode (c :: cs) := rfl
      rw [hskip, nextCode_blank hcomment hblank, Mode.after, if_neg hcomment, if_neg hquote]
      rfl
  | comment =>
    rw [Mode.skip, nextCode.skipComment, Mode.after]
    split
    · rfl
    · rfl
  | string | escape => cases h

/-- From inside a gap, the next code is the code at its end. -/
theorem skip_of_gap (hkj : k ≤ j) (hj : j ≤ source.length)
    (hstring : (nestingAt source k).mode.inString = false)
    (hgap : ∀ l, k ≤ l → l < j → ¬CodeAt source l)
    (hend : j = source.length ∨ CodeAt source j) :
    (nestingAt source k).mode.skip (source.drop k) = source.drop j := by
  induction hd : j - k generalizing k with
  | zero =>
    obtain rfl : k = j := by omega
    rcases hend with rfl | ⟨c, hc, hcode⟩
    · rw [List.drop_length]
      cases (nestingAt source source.length).mode <;> rfl
    · have hk : k < source.length := (List.getElem?_eq_some_iff.1 hc).1
      have hget : source[k] = c := (List.getElem?_eq_some_iff.1 hc).2
      rw [List.drop_eq_getElem_cons hk, hget]
      generalize (nestingAt source k).mode = m at hcode hstring
      cases m with
      | code =>
        rw [Mode.isCode, Bool.and_eq_true, bne_iff_ne, Bool.not_eq_true'] at hcode
        exact nextCode_cons hcode.1 (by rw [hcode.2]; decide) _
      | comment => cases hcode
      | string | escape => cases hstring
  | succ d ih =>
    have hk : k < source.length := by omega
    have hc : source[k]? = some source[k] := List.getElem?_eq_getElem hk
    have hcode := isCode_of_gap (hgap k (by omega) (by omega)) hc
    have hmode : (nestingAt source (k + 1)).mode = (nestingAt source k).mode.after source[k] :=
      congrArg Nesting.mode (nestingAt_succ hc)
    rw [List.drop_eq_getElem_cons hk, Mode.skip_of_not_code hcode, ← hmode]
    refine ih (by omega) ?_ (fun l hkl hlj => hgap l (by omega) hlj) (by omega)
    rw [hmode]
    exact (Mode.after_of_not_code hcode).2.1

/-! ## Between two pieces of code -/

theorem Between.lt_length (h : Between source i j) : j < source.length := by
  obtain ⟨c, hc, -⟩ := h.last
  exact (List.getElem?_eq_some_iff.1 hc).1

theorem FreeLineEnd.mode_succ (h : FreeLineEnd source k) :
    (nestingAt source (k + 1)).mode = .code := by
  rw [nestingAt_succ h.lineEnd]
  exact Mode.after_lineEnd h.outside

/-- The first separator of a gap is decided by the code around it. -/
theorem continues_between (h : Between source i j) (hik : i < k) (hkj : k < j)
    (hfree : FreeLineEnd source k) (hfirst : ∀ l, i < l → l < k → ¬Replaced source l) :
    continues (stateAt source k).behind (source.drop (k + 1)) = joined source i j := by
  have hj := h.lt_length
  obtain ⟨last, rest, hbehind, hlast, hword⟩ := behind_of_unreplaced h.first hik (by omega)
    hfree.outside (fun l hil hlk => h.gap l hil (by omega)) hfirst
  have hskip : (nestingAt source (k + 1)).mode.skip (source.drop (k + 1)) = source.drop j :=
    skip_of_gap (by omega) (by omega) (by rw [hfree.mode_succ]; rfl)
      (fun l hkl hlj => h.gap l (by omega) hlj) (.inr h.last)
  have hahead : nextCode (source.drop (k + 1)) = source.drop j := by
    rw [hfree.mode_succ] at hskip
    exact hskip
  have hnext : source[j]? = some source[j] := List.getElem?_eq_getElem hj
  have htrail : trailingWord (last :: rest) = trailingWord (source.take (i + 1)).reverse := by
    rw [trailingWord, trailingWord, hword]
  simp only [continues, hbehind, hahead]
  rw [joined, hlast, hnext, htrail, List.drop_eq_getElem_cons hj]
  rfl

/-- A line end of a gap is replaced if none before it is and the code around is not joined. -/
theorem replaced_iff_first (h : Between source i j) (hik : i < k) (hkj : k < j) :
    Replaced source k ↔ joined source i j = false ∧ FreeLineEnd source k ∧
      ∀ l, i < l → l < k → ¬Replaced source l := by
  have hj := h.lt_length
  rw [replaced_iff_continues]
  constructor
  · rintro ⟨hfree, hends⟩
    have hfirst : ∀ l, i < l → l < k → ¬Replaced source l := by
      intro l hil hlk hl
      obtain ⟨rest, hbehind⟩ := behind_of_replaced (k := k) (by omega)
        (fun m him hmk => h.gap m him (by omega)) ⟨l, hil, hlk, hl⟩
      rw [continues_of_separator hbehind] at hends
      cases hends
    exact ⟨(continues_between h hik hkj hfree hfirst).symm.trans hends, hfree, hfirst⟩
  · rintro ⟨hjoined, hfree, hfirst⟩
    exact ⟨hfree, (continues_between h hik hkj hfree hfirst).trans hjoined⟩

/-- Of the line ends of a gap the first free one is replaced, if the code around the gap is not
joined over it. -/
theorem replaced_iff (h : Between source i j) (hik : i < k) (hkj : k < j) :
    Replaced source k ↔ joined source i j = false ∧ FreeLineEnd source k ∧
      ∀ l, i < l → l < k → ¬FreeLineEnd source l := by
  rw [replaced_iff_first h hik hkj]
  refine and_congr_right fun hjoined => and_congr_right fun hfree => ⟨?_, ?_⟩
  · -- The free line end before this one is not replaced, so one before that would have to be.
    intro hfirst l hil hlk hl
    refine hfirst l hil hlk ((replaced_iff_first h hil (by omega)).2 ⟨hjoined, hl, ?_⟩)
    exact fun m him hml => hfirst m him (by omega)
  · intro hfirst l hil hlk hl
    exact hfirst l hil hlk (replaced_iff_continues.1 hl).1

/-- A line end that is replaced has code before it and after it. -/
theorem exists_between (h : Replaced source k) : ∃ i j, Between source i j ∧ i < k ∧ k < j := by
  classical
  obtain ⟨hfree, hends⟩ := replaced_iff_continues.1 h
  have hk : k < source.length := (List.getElem?_eq_some_iff.1 hfree.lineEnd).1
  have hgap : ¬CodeAt source k := by
    rintro ⟨c, hc, hcode⟩
    cases hc.symm.trans hfree.lineEnd
    have hstring := hfree.outside
    generalize (nestingAt source k).mode = m at hcode hstring
    cases m with
    | code | comment => exact absurd hcode (by decide)
    | string | escape => cases hstring
  have hbefore : ∃ i < k, CodeAt source i := by
    refine Classical.byContradiction fun hnone => ?_
    rw [continues_of_blank (behind_of_start (Nat.le_of_lt hk) fun l hl hcode => hnone ⟨l, hl, hcode⟩)] at hends
    cases hends
  have hafter : ∃ j, k < j ∧ CodeAt source j := by
    refine Classical.byContradiction fun hnone => ?_
    have hskip : (nestingAt source (k + 1)).mode.skip (source.drop (k + 1)) =
        source.drop source.length :=
      skip_of_gap (by omega) (Nat.le_refl _) (by rw [hfree.mode_succ]; rfl)
        (fun l hkl _ hcode => hnone ⟨l, hkl, hcode⟩) (.inl rfl)
    rw [hfree.mode_succ, List.drop_length] at hskip
    have hnext : nextCode (source.drop (k + 1)) = [] := hskip
    rw [continues_of_end hnext] at hends
    cases hends
  obtain ⟨i, hik, hi⟩ := hbefore
  -- The nearest code on either side.
  have hlast := Nat.findGreatest_spec (Nat.le_of_lt hik) hi
  have hle := Nat.findGreatest_le (P := CodeAt source) k
  have hlt : Nat.findGreatest (CodeAt source) k ≠ k := fun heq => hgap (heq ▸ hlast)
  refine ⟨Nat.findGreatest (CodeAt source) k, Nat.find hafter, ?_, by omega,
    (Nat.find_spec hafter).1⟩
  refine ⟨by have := (Nat.find_spec hafter).1; omega, hlast, (Nat.find_spec hafter).2, ?_⟩
  intro l hil hlj hl
  by_cases hlk : l ≤ k
  · exact Nat.findGreatest_is_greatest hil hlk hl
  · exact Nat.find_min hafter hlj ⟨by omega, hl⟩

end Source

/-! ## Laying out -/

/-- Laying out a source keeps its length and replaces only line ends outside strings and brackets,
by `;`. Each of them stands between two pieces of code. Between two pieces of code that are
joined no line end is replaced, and between two that are not just the first one outside
brackets. -/
theorem separate_replaces (source : List Char) :
    (separate source).length = source.length ∧
    (∀ k, (separate source)[k]? ≠ source[k]? →
      FreeLineEnd source k ∧ (separate source)[k]? = some ';' ∧
        ∃ i j, Between source i j ∧ i < k ∧ k < j) ∧
    ∀ i j, Between source i j →
      (joined source i j = true ∧ ∀ k, i < k → k < j → (separate source)[k]? = source[k]?) ∨
      (joined source i j = false ∧ ∀ k, i < k → k < j →
        ((separate source)[k]? ≠ source[k]? ↔
          FreeLineEnd source k ∧ ∀ l, i < l → l < k → ¬FreeLineEnd source l)) := by
  refine ⟨length_separate source, fun k hk => ?_, fun i j hij => ?_⟩
  · exact ⟨(replaced_iff_continues.1 hk).1, getElem?_of_replaced hk, exists_between hk⟩
  · cases hjoined : joined source i j with
    | true =>
      refine .inl ⟨rfl, fun k hik hkj => not_not.1 fun hk => ?_⟩
      have hends := ((replaced_iff hij hik hkj).1 hk).1
      rw [hjoined] at hends
      cases hends
    | false =>
      refine .inr ⟨rfl, fun k hik hkj => ?_⟩
      exact (replaced_iff hij hik hkj).trans (and_iff_right hjoined)

-- The first line end after `a` is the one that closes the comment.
example : separate "a # b\n\nc(\n)\n".toList = "a # b;\nc(\n)\n".toList := by decide

end Layout

end Mandate
