/-
  Mandate.Proofs.CodeAround

  What decides whether an expression goes on over a line end.

    * `Layout.endsOpen` is said of the code before it, `Layout.carriesOn` of the text
      after it; the expression goes on if one of them holds (`Layout.continues_eq`).
    * `Layout.SameSight`: two codes that a line end cannot tell apart, now or after
      any characters more.
    * `Layout.separateFrom_of_sight`: with them behind, a text is laid out the same.
-/

import Mandate.Proofs.TokenNesting

namespace Mandate

namespace Layout

/-! ## The code on either side -/

/-- Whether the code behind a line end, last character first, asks for more. -/
def endsOpen (behind : List Char) : Bool :=
  let code := behind.dropWhile Text.isBlank
  code.head?.all openEnds.contains || openWords.contains (trailingWord code)

/-- Whether the code ahead of a line end, if any, carries on what is behind it. -/
def carriesOn (ahead : List Char) : Bool :=
  let code := nextCode ahead
  code.head?.all carriers.contains || carryWords.contains (leadingWord code)

theorem continues_eq (behind ahead : List Char) :
    continues behind ahead = (endsOpen behind || carriesOn ahead) := by
  unfold continues endsOpen carriesOn
  dsimp only
  generalize behind.dropWhile Text.isBlank = before
  generalize nextCode ahead = after
  cases before with
  | nil => rfl
  | cons last before =>
    cases after with
    | nil => simp
    | cons first after => simp [Bool.or_assoc]

/-- A blank is no code. -/
theorem carriesOn_blank {c : Char} (hc : Text.isBlank c = true) (ahead : List Char) :
    carriesOn (c :: ahead) = carriesOn ahead := by
  have hcomment : c ≠ '#' := by
    rintro rfl
    exact absurd hc (by decide)
  rw [carriesOn, nextCode_blank hcomment hc, carriesOn]

/-! ## The same sight -/

/-- Two codes, last character first, that end in the same word and both ask for more or both do
not. -/
structure SameSight (behind behind' : List Char) : Prop where
  word : behind.takeWhile isWordPart = behind'.takeWhile isWordPart
  ends : endsOpen behind = endsOpen behind'

namespace SameSight

variable {behind behind' : List Char}

theorem refl (behind : List Char) : SameSight behind behind := ⟨rfl, rfl⟩

theorem takeWhile_cons {c : Char} (h : behind.takeWhile isWordPart = behind'.takeWhile isWordPart) :
    (c :: behind).takeWhile isWordPart = (c :: behind').takeWhile isWordPart := by
  rw [List.takeWhile_cons, List.takeWhile_cons, h]

theorem endsOpen_cons {c : Char} (hc : Text.isBlank c = false) (behind : List Char) :
    endsOpen (c :: behind) =
      (openEnds.contains c || openWords.contains (trailingWord (c :: behind))) := by
  rw [endsOpen, List.dropWhile_cons_of_neg (by rw [hc]; decide)]
  rfl

theorem endsOpen_blank {c : Char} (hc : Text.isBlank c = true) (behind : List Char) :
    endsOpen (c :: behind) = endsOpen behind := by
  rw [endsOpen, List.dropWhile_cons_of_pos hc, endsOpen]

/-- It stays the same over any character. -/
theorem cons (h : SameSight behind behind') (c : Char) : SameSight (c :: behind) (c :: behind') := by
  refine ⟨takeWhile_cons h.word, ?_⟩
  cases hc : Text.isBlank c with
  | true => rw [endsOpen_blank hc, endsOpen_blank hc, h.ends]
  | false =>
    rw [endsOpen_cons hc, endsOpen_cons hc, trailingWord, trailingWord, takeWhile_cons h.word]

/-- A mark hides what is behind it. -/
theorem mark {c : Char} (hblank : Text.isBlank c = false) (hpart : isWordPart c = false)
    (behind behind' : List Char) : SameSight (c :: behind) (c :: behind') := by
  have hnone : ∀ b : List Char, (c :: b).takeWhile isWordPart = [] := fun b =>
    List.takeWhile_cons_of_neg (by rw [hpart]; decide)
  refine ⟨by rw [hnone, hnone], ?_⟩
  rw [endsOpen_cons hblank, endsOpen_cons hblank, trailingWord, trailingWord, hnone, hnone]

end SameSight

/-- What is written for a character, and the code behind the next one, depend on the code behind
only by sight. -/
theorem read_of_sight {s s' : State} (hnesting : s'.nesting = s.nesting)
    (hbehind : SameSight s.behind s'.behind) (c : Char) (ahead ahead' : List Char)
    (hahead : c = '\n' → s.mode.inString = false → s.depth = 0 →
      carriesOn ahead' = carriesOn ahead) :
    (s'.read c ahead').1 = (s.read c ahead).1 ∧
      SameSight (s.read c ahead).2.behind (s'.read c ahead').2.behind := by
  have hmode : s'.mode = s.mode := congrArg Nesting.mode hnesting
  have hdepth : s'.depth = s.depth := congrArg Nesting.depth hnesting
  have hwritten : (s'.read c ahead').1 = (s.read c ahead).1 := by
    rw [read_fst, read_fst, hmode, hdepth]
    by_cases hfree : c = '\n' ∧ s.mode.inString = false ∧ s.depth = 0
    · obtain ⟨hline, hstring, hzero⟩ := hfree
      rw [continues_eq, continues_eq, hbehind.ends, hahead hline hstring hzero]
    · rw [if_neg fun h => hfree ⟨h.1, h.2.1, h.2.2.1⟩, if_neg fun h => hfree ⟨h.1, h.2.1, h.2.2.1⟩]
  refine ⟨hwritten, ?_⟩
  rw [behind_read, behind_read, hwritten, hmode]
  split
  · exact hbehind.cons _
  · exact hbehind

/-- Codes that cannot be told apart let a text be laid out the same after them. -/
theorem separateFrom_of_sight {s s' : State} (hnesting : s'.nesting = s.nesting)
    (hbehind : SameSight s.behind s'.behind) (cs : List Char) :
    separateFrom s' cs = separateFrom s cs := by
  induction cs generalizing s s' with
  | nil => rfl
  | cons c cs ih =>
    obtain ⟨hwritten, hsight⟩ := read_of_sight hnesting hbehind c cs cs fun _ _ _ => rfl
    rw [separateFrom_cons, separateFrom_cons, hwritten]
    congr 1
    refine ih ?_ hsight
    rw [nesting_read, nesting_read, hnesting]

end Layout

end Mandate
