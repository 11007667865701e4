/-
  Mandate.Proofs.Concatenation

  Two programs, one after the other.

    * `Layout.separateFrom_append`: a text that ends with code is laid out the same
      whatever comes after it, unless its last word goes on.
    * `Layout.separate_seam`: so are the two parts of a source that are separated by a
      `;`, or by a line end over which no expression goes on; blanks and semicolons are
      written between them.
    * `parseFrom_front`: the parser reads a program up to its last token alike before
      everything that cannot go on with that token.
    * `parse_concatenate`: the program of both parts runs the expressions of the first
      and then those of the second.
-/

import Mandate.Proofs.FreeLayout
import Mandate.Proofs.ProgramLines
import Mathlib.Data.List.Basic

namespace Mandate

namespace Layout

/-! ## A text that ends with code -/

/-- The blank characters. -/
def blanks : List Char :=
  Text.blankRanges.flatMap fun range =>
    (List.range' range.1 (range.2 + 1 - range.1)).map Char.ofNat

/-- What holds of no blank. -/
theorem eq_false_of_isBlank {p : Char → Bool} (hp : blanks.all (!p ·) = true) {c : Char}
    (h : Text.isBlank c = true) : p c = false := by
  rw [Text.isBlank, List.any_eq_true] at h
  obtain ⟨⟨lo, hi⟩, hrange, h⟩ := h
  simp only [Bool.and_eq_true, decide_eq_true_eq] at h
  have hmem : c ∈ blanks := by
    refine List.mem_flatMap.2 ⟨(lo, hi), hrange, List.mem_map.2 ⟨c.toNat, ?_, Char.ofNat_toNat c⟩⟩
    exact List.mem_range'_1.2 ⟨h.1, by omega⟩
  have hnot := List.all_eq_true.1 hp c hmem
  rwa [Bool.not_eq_true'] at hnot

theorem isWordPart_of_isBlank {c : Char} (h : Text.isBlank c = true) : isWordPart c = false :=
  eq_false_of_isBlank (by decide +kernel) h

/-- What holds of no blank but of a character tells that it is not blank. -/
theorem isBlank_eq_false {p : Char → Bool} (hp : blanks.all (!p ·) = true) {c : Char}
    (hc : p c = true) : Text.isBlank c = false := by
  rw [Bool.eq_false_iff]
  intro hblank
  rw [eq_false_of_isBlank hp hblank] at hc
  cases hc

section Append

variable {e : List Char}

/-- What carries an expression on is seen in the text itself, if there is code in it. -/
theorem carriesOn_append {cs : List Char} (he : ∀ c ∈ e.head?, isWordPart c = false)
    (hcs : commentless cs = true) (hcode : ∃ c ∈ cs, Text.isBlank c = false) :
    carriesOn (cs ++ e) = carriesOn cs := by
  induction cs with
  | nil =>
    obtain ⟨c, hc, -⟩ := hcode
    cases hc
  | cons c cs ih =>
    obtain ⟨hafter, hrest⟩ := Mode.commentless_cons.1 hcs
    cases hblank : Text.isBlank c with
    | true =>
      have hneutral := isNeutral_of (by decide) c hblank
      have hmode : Mode.code.after c = .code :=
        congrArg Nesting.mode (@Nesting.after_neutral 0 c hneutral)
      rw [hmode] at hrest
      rw [List.cons_append, carriesOn_blank hblank, carriesOn_blank hblank]
      refine ih hrest ?_
      obtain ⟨d, hd, hnot⟩ := hcode
      rcases List.mem_cons.1 hd with rfl | hd
      · rw [hblank] at hnot
        cases hnot
      · exact ⟨d, hd, hnot⟩
    | false =>
      have hcomment : c ≠ '#' := by
        rintro rfl
        exact hafter rfl
      have hnot : ¬Text.isBlank c = true := by rw [hblank]; decide
      have hword := Lexeme.leadingWord_append_of_head he (c :: cs)
      rw [List.cons_append] at hword ⊢
      rw [carriesOn, carriesOn, nextCode_cons hcomment hnot, nextCode_cons hcomment hnot, hword]
      rfl

/-- A character before code is read the same whatever comes after the code. -/
theorem read_append {s : State} {c : Char} {cs : List Char} (hs : s.mode ≠ .comment)
    (he : ∀ c ∈ e.head?, isWordPart c = false) (hcs : (s.mode.after c).commentless cs = true)
    (hlast : ∀ d ∈ (c :: cs).getLast?, Text.isBlank d = false) :
    s.read c (cs ++ e) = s.read c cs := by
  have hwritten : (s.read c (cs ++ e)).1 = (s.read c cs).1 := by
    rw [read_fst, read_fst]
    by_cases hfree : c = '\n' ∧ s.mode.inString = false
    · obtain ⟨rfl, hstring⟩ := hfree
      have hmode := Mode.eq_code hstring hs
      rw [hmode] at hcs
      have hcode : ∃ d ∈ cs, Text.isBlank d = false := by
        cases cs with
        | nil => exact absurd (hlast '\n' rfl) (by decide)
        | cons d cs =>
          rw [List.getLast?_cons_cons, List.getLast?_eq_some_getLast (List.cons_ne_nil d cs)] at hlast
          exact ⟨_, List.getLast_mem _, hlast _ rfl⟩
      rw [continues_eq, continues_eq, carriesOn_append he hcs hcode]
    · rw [if_neg fun h => hfree ⟨h.1, h.2.1⟩, if_neg fun h => hfree ⟨h.1, h.2.1⟩]
  refine Prod.ext hwritten ?_
  rw [read_snd, read_snd, hwritten]

/-- A text that ends with code is laid out the same whatever comes after it, unless that goes on
with its last word. -/
theorem separateFrom_append {s : State} {body : List Char} (hs : s.mode ≠ .comment)
    (hbody : s.mode.commentless body = true)
    (hlast : ∀ d ∈ body.getLast?, Text.isBlank d = false)
    (he : ∀ c ∈ e.head?, isWordPart c = false) :
    separateFrom s (body ++ e) =
      separateFrom s body ++ separateFrom (s.over body.length body) e := by
  induction body generalizing s with
  | nil => rfl
  | cons c body ih =>
    obtain ⟨hafter, hrest⟩ := Mode.commentless_cons.1 hbody
    have hmode : (s.read c body).2.mode = s.mode.after c :=
      congrArg Nesting.mode (nesting_read s c body)
    have hlast' : ∀ d ∈ body.getLast?, Text.isBlank d = false := by
      intro d hd
      cases body with
      | nil => cases hd
      | cons b body => exact hlast d (by rwa [List.getLast?_cons_cons])
    rw [List.cons_append, separateFrom_cons, read_append hs he hrest hlast, separateFrom_cons,
      ih (by rwa [hmode]) (by rwa [hmode]) hlast']
    rfl

end Append

/-! ## The gap between two texts -/

theorem nextCode_blanks {cs : List Char} (h : ∀ c ∈ cs, Text.isBlank c = true) :
    nextCode cs = [] := by
  induction cs with
  | nil => rfl
  | cons c cs ih =>
    rw [List.forall_mem_cons] at h
    have hcomment : c ≠ '#' := by
      rintro rfl
      exact absurd h.1 (by decide)
    rw [nextCode_blank hcomment h.1, ih h.2]

/-- Blanks at the end of a text are left alone. -/
theorem separateFrom_blanks (s : State) {cs : List Char} (h : ∀ c ∈ cs, Text.isBlank c = true) :
    separateFrom s cs = cs := by
  induction cs generalizing s with
  | nil => rfl
  | cons c cs ih =>
    rw [List.forall_mem_cons] at h
    have hkept : (s.read c cs).1 = c := by
      rw [read_fst, if_neg]
      rintro ⟨-, -, -, hends⟩
      rw [continues_of_end (nextCode_blanks h.2)] at hends
      cases hends
    rw [separateFrom_cons, hkept, ih _ h.2]

/-- After a semicolon nothing is behind. -/
theorem SameSight.semicolon (behind : List Char) : SameSight [] (';' :: behind) := by
  refine ⟨rfl, ?_⟩
  rw [endsOpen_cons (by decide)]
  rfl

theorem isBlank_of_isSpace {c : Char} (h : Lexeme.isSpace c = true) : Text.isBlank c = true := by
  rcases Lexeme.mem_spaces h with rfl | rfl | rfl | rfl | rfl <;> rfl

theorem carriesOn_spaces {w : List Char} (hw : ∀ c ∈ w, Lexeme.isSpace c = true)
    (rest : List Char) : carriesOn (w ++ rest) = carriesOn rest := by
  induction w with
  | nil => rfl
  | cons c w ih =>
    rw [List.forall_mem_cons] at hw
    rw [List.cons_append, carriesOn_blank (isBlank_of_isSpace hw.1), ih hw.2]

/-- Spaces outside of everything are written as spaces and semicolons. If there is a line end
among them and no expression goes on over it, there is a semicolon, and nothing is behind what
comes after. -/
theorem separateFrom_spaces {s : State} (hs : s.nesting = ⟨.code, 0⟩) {w : List Char}
    (hw : ∀ c ∈ w, Lexeme.isSpace c = true) (rest : List Char) :
    ∃ (gap : List Char) (s' : State), separateFrom s (w ++ rest) = gap ++ separateFrom s' rest ∧
      gap.length = w.length ∧ (∀ c ∈ gap, Lexeme.isSpace c = true ∨ c = ';') ∧
      s'.nesting = ⟨.code, 0⟩ ∧ (SameSight [] s.behind → SameSight [] s'.behind) ∧
      ('\n' ∈ w → endsOpen s.behind = false → carriesOn rest = false →
        ';' ∈ gap ∧ SameSight [] s'.behind) := by
  induction w generalizing s with
  | nil =>
    exact ⟨[], s, rfl, rfl, by simp, hs, id, fun hmem => absurd hmem List.not_mem_nil⟩
  | cons c w ih =>
    rw [List.forall_mem_cons] at hw
    have hblank := isBlank_of_isSpace hw.1
    have hmode : s.mode = .code := congrArg Nesting.mode hs
    have hdepth : s.depth = 0 := congrArg Nesting.depth hs
    have hnesting : (s.read c (w ++ rest)).2.nesting = ⟨.code, 0⟩ := by
      rw [nesting_read, hs, Nesting.after_neutral (isNeutral_of (by decide) c hw.1)]
    have hafter : s.mode.after c = .code := by
      rw [nesting_read, hs] at hnesting
      rw [hmode]
      exact congrArg Nesting.mode hnesting
    have hbehind := behind_read s c (w ++ rest)
    rw [if_pos hafter] at hbehind
    obtain ⟨gap, s', hrest, hlength, hgap, hs', hhidden, hends⟩ := ih hnesting hw.2
    rw [List.cons_append, separateFrom_cons, hrest]
    by_cases hsep : (s.read c (w ++ rest)).1 = ';'
    · rw [hsep] at hbehind ⊢
      have hsight : SameSight [] s'.behind := by
        apply hhidden
        rw [hbehind]
        exact .semicolon _
      exact ⟨';' :: gap, s', rfl, congrArg (· + 1) hlength,
        List.forall_mem_cons.2 ⟨.inr rfl, hgap⟩, hs', fun _ => hsight,
        fun _ _ _ => ⟨List.mem_cons_self, hsight⟩⟩
    · have hkept : (s.read c (w ++ rest)).1 = c := by
        rw [read_fst] at hsep ⊢
        split at hsep
        · exact absurd rfl hsep
        · next hnot => rw [if_neg hnot]
      rw [hkept] at hbehind ⊢
      refine ⟨c :: gap, s', rfl, congrArg (· + 1) hlength,
        List.forall_mem_cons.2 ⟨.inl hw.1, hgap⟩, hs', fun hsight => ?_, fun hmem hopen hcarry => ?_⟩
      · apply hhidden
        rw [hbehind]
        refine ⟨?_, ?_⟩
        · rw [List.takeWhile_cons_of_neg (by rw [isWordPart_of_isBlank hblank]; decide)]
          rfl
        · rw [SameSight.endsOpen_blank hblank, hsight.ends]
      · -- A line end that is kept has code around it that is joined over it.
        have hline : c ≠ '\n' := by
          rintro rfl
          refine hsep ?_
          have hends : continues s.behind (w ++ rest) = false := by
            rw [continues_eq, hopen, carriesOn_spaces hw.2, hcarry]
            rfl
          rw [read_fst, if_pos ⟨rfl, by rw [hmode]; rfl, hdepth, hends⟩]
        have hmem' : '\n' ∈ w := by
          rcases List.mem_cons.1 hmem with heq | hmem'
          · exact absurd heq.symm hline
          · exact hmem'
        obtain ⟨hsemicolon, hsight⟩ := hends hmem' (by rw [hbehind, SameSight.endsOpen_blank hblank, hopen]) hcarry
        exact ⟨List.mem_cons_of_mem c hsemicolon, hsight⟩

/-- A text without the blanks at its end. -/
theorem exists_body (cs : List Char) :
    ∃ body trail, cs = body ++ trail ∧ (∀ c ∈ trail, Text.isBlank c = true) ∧
      ∀ c ∈ body.getLast?, Text.isBlank c = false := by
  refine ⟨(cs.reverse.dropWhile Text.isBlank).reverse, (cs.reverse.takeWhile Text.isBlank).reverse,
    ?_, fun c hc => ?_, fun c hc => ?_⟩
  · rw [← List.reverse_append, List.takeWhile_append_dropWhile, List.reverse_reverse]
  · exact List.all_eq_true.1 List.all_takeWhile c (List.mem_reverse.1 hc)
  · rw [List.getLast?_reverse] at hc
    have hnot := List.head?_dropWhile_not Text.isBlank cs.reverse
    rw [hc] at hnot
    simpa using hnot

theorem dropWhile_reverse_append {a u : List Char} (hu : ∀ c ∈ u, Text.isBlank c = true)
    (ha : ∀ c ∈ a.getLast?, Text.isBlank c = false) :
    (a ++ u).reverse.dropWhile Text.isBlank = a.reverse := by
  have hpos : ∀ c ∈ u.reverse, Text.isBlank c = true := fun c hc => hu c (List.mem_reverse.1 hc)
  rw [List.reverse_append, List.dropWhile_append_of_pos hpos]
  rw [← List.head?_reverse] at ha
  generalize a.reverse = cs at ha
  cases cs with
  | nil => rfl
  | cons c cs => exact List.dropWhile_cons_of_neg (by rw [ha c rfl]; decide)

/-- The blanks at the end of a text can be told from the rest of it. -/
theorem append_inj_of_blanks {a b u v : List Char} (h : a ++ u = b ++ v)
    (hu : ∀ c ∈ u, Text.isBlank c = true) (hv : ∀ c ∈ v, Text.isBlank c = true)
    (ha : ∀ c ∈ a.getLast?, Text.isBlank c = false)
    (hb : ∀ c ∈ b.getLast?, Text.isBlank c = false) : a = b ∧ u = v := by
  have hsame : a.reverse = b.reverse := by
    rw [← dropWhile_reverse_append hu ha, ← dropWhile_reverse_append hv hb, h]
  obtain rfl := List.reverse_inj.1 hsame
  exact ⟨rfl, List.append_cancel_left h⟩

theorem endsOpen_append {a u : List Char} (hu : ∀ c ∈ u, Text.isBlank c = true)
    (ha : ∀ c ∈ a.getLast?, Text.isBlank c = false) :
    endsOpen (a ++ u).reverse = endsOpen a.reverse := by
  have hnone := dropWhile_reverse_append (u := []) (by simp) ha
  rw [List.append_nil] at hnone
  rw [endsOpen, dropWhile_reverse_append hu ha, endsOpen, hnone]

/-- What asks for more is seen at the end of a text in which all that was open is closed. -/
theorem endsOpen_over {body : List Char} (hmode : (nestingAt body body.length).mode = .code)
    (hlast : ∀ c ∈ body.getLast?, Text.isBlank c = false) :
    endsOpen (State.over {} body.length body).behind = endsOpen body.reverse := by
  have hword := takeWhile_behind hmode (Nat.le_refl _)
  rw [List.take_length] at hword
  rcases List.eq_nil_or_concat body with rfl | ⟨b, d, hbody⟩
  · rfl
  · rw [List.concat_eq_append] at hbody
    subst hbody
    have hblank : Text.isBlank d = false := hlast d (by simp)
    have hline : d ≠ '\n' := by
      rintro rfl
      exact absurd hblank (by decide)
    have hd : (b ++ [d])[b.length]? = some d := by simp
    have hlength : (b ++ [d]).length = b.length + 1 := by simp
    rw [hlength] at hmode hword ⊢
    have hafter : (nestingAt (b ++ [d]) b.length).mode.after d = .code := by
      rw [nestingAt_succ hd] at hmode
      exact hmode
    have hbehind : (stateAt (b ++ [d]) (b.length + 1)).behind =
        d :: (stateAt (b ++ [d]) b.length).behind := by
      rw [stateAt_succ hd, behind_read, mode_stateAt, if_pos hafter, read_fst,
        if_neg fun h => hline h.1]
    show endsOpen (stateAt (b ++ [d]) (b.length + 1)).behind = _
    rw [hbehind, List.reverse_append, List.reverse_singleton, List.singleton_append] at hword ⊢
    rw [SameSight.endsOpen_cons hblank, SameSight.endsOpen_cons hblank, trailingWord, hword,
      trailingWord]

/-- After a semicolon a text is laid out as by itself. -/
theorem separateFrom_of_semicolon {s : State} (hs : s.nesting = ⟨.code, 0⟩)
    (hsight : SameSight [] s.behind) (cs : List Char) : separateFrom s cs = separate cs :=
  separateFrom_of_sight (s := {}) hs hsight cs

theorem Mode.commentless_of_append {m : Mode} {a b : List Char}
    (h : m.commentless (a ++ b) = true) : m.commentless a = true := by
  induction a generalizing m with
  | nil => rfl
  | cons c a ih =>
    obtain ⟨hafter, hrest⟩ := Mode.commentless_cons.1 h
    exact Mode.commentless_cons.2 ⟨hafter, ih hrest⟩

/-- Code at the end of a text is left alone. -/
theorem getLast_separateFrom {s : State} {cs : List Char}
    (h : ∀ c ∈ cs.getLast?, Text.isBlank c = false) :
    ∀ c ∈ (separateFrom s cs).getLast?, Text.isBlank c = false := by
  induction cs generalizing s with
  | nil => exact h
  | cons c cs ih =>
    rw [separateFrom_cons]
    cases cs with
    | nil =>
      have hblank := h c rfl
      have hkept : (s.read c []).1 = c := by
        rw [read_fst, if_neg]
        rintro ⟨rfl, -⟩
        exact absurd hblank (by decide)
      rw [hkept]
      exact h
    | cons d cs =>
      rw [List.getLast?_cons_cons] at h
      have hrest := @ih (s.read c (d :: cs)).2 h
      rw [separateFrom_cons] at hrest ⊢
      rwa [List.getLast?_cons_cons]

/-- Two texts one after the other, the first of which ends with code and is closed: what is written
between them is spaces and semicolons, and the texts are laid out as they are by themselves. They
are separated by a semicolon, or by a line end over which no expression goes on. -/
theorem separate_seam {body trail second : List Char} {c : Char}
    (hbody : commentless body = true) (hlast : ∀ d ∈ body.getLast?, Text.isBlank d = false)
    (hclosed : nestingAt body body.length = ⟨.code, 0⟩)
    (htrail : ∀ d ∈ trail, Lexeme.isSpace d = true)
    (hseam : c = ';' ∨
      c = '\n' ∧ endsOpen (body ++ trail).reverse = false ∧ carriesOn second = false) :
    ∃ gap, separate (body ++ trail ++ c :: second) = separate body ++ (gap ++ separate second) ∧
      gap.length = trail.length + 1 ∧ (∀ d ∈ gap, Lexeme.isSpace d = true ∨ d = ';') ∧
      ';' ∈ gap := by
  have hbreak : ∀ d ∈ (trail ++ c :: second).head?, isWordPart d = false := by
    cases trail with
    | nil =>
      rintro d ⟨⟩
      rcases hseam with rfl | ⟨rfl, -, -⟩ <;> rfl
    | cons t trail =>
      rintro d ⟨⟩
      exact isWordPart_of_isBlank (isBlank_of_isSpace (htrail t List.mem_cons_self))
  have hsplit : separate (body ++ trail ++ c :: second) = separate body ++
      separateFrom (State.over {} body.length body) (trail ++ c :: second) := by
    rw [List.append_assoc]
    exact separateFrom_append (s := {}) (by decide) hbody hlast hbreak
  have hnesting : (State.over {} body.length body).nesting = ⟨.code, 0⟩ :=
    (nesting_stateAt body body.length).trans hclosed
  rw [hsplit]
  rcases hseam with rfl | ⟨rfl, hopen, hcarry⟩
  · obtain ⟨gap, s, hgap, hlength, hmem, hs, -, -⟩ :=
      separateFrom_spaces hnesting htrail (';' :: second)
    have hwritten : (s.read ';' second).1 = ';' := by
      rw [read_fst, if_neg]
      exact fun h => absurd h.1 (by decide)
    have hafter : (s.read ';' second).2.nesting = ⟨.code, 0⟩ := by
      rw [nesting_read, hs]
      rfl
    have hmode : s.mode = .code := congrArg Nesting.mode hs
    have hsight : SameSight [] (s.read ';' second).2.behind := by
      rw [behind_read, hmode, if_pos (show Mode.code.after ';' = .code from rfl), hwritten]
      exact .semicolon _
    refine ⟨gap ++ [';'], ?_, by simp [hlength], ?_, by simp⟩
    · rw [hgap, separateFrom_cons, hwritten, separateFrom_of_semicolon hafter hsight,
        List.append_assoc]
      rfl
    · rw [List.forall_mem_append, List.forall_mem_singleton]
      exact ⟨hmem, .inr rfl⟩
  · have hspaces : ∀ d ∈ trail ++ ['\n'], Lexeme.isSpace d = true := by
      rw [List.forall_mem_append, List.forall_mem_singleton]
      exact ⟨htrail, rfl⟩
    obtain ⟨gap, s, hgap, hlength, hmem, hs, -, hends⟩ :=
      separateFrom_spaces hnesting hspaces second
    have hblanks : ∀ d ∈ trail, Text.isBlank d = true := fun d hd => isBlank_of_isSpace (htrail d hd)
    have hopen' : endsOpen (State.over {} body.length body).behind = false := by
      rw [endsOpen_over (by rw [hclosed]) hlast, ← endsOpen_append hblanks hlast, hopen]
    obtain ⟨hsemicolon, hsight⟩ := hends (by simp) hopen' hcarry
    refine ⟨gap, ?_, by simp [hlength], hmem, hsemicolon⟩
    rw [List.append_assoc, List.singleton_append, separateFrom_of_semicolon hs hsight] at hgap
    rw [hgap]

end Layout

/-! ## A program up to its last token -/

theorem Terminal.getLast_of_isStringTail {w : List Char} (h : isStringTail w = true) :
    w.getLast? = some '"' := by
  fun_induction isStringTail w with
  | case1 => cases h
  | case2 => cases h
  | case3 c cs ih =>
    rw [Bool.and_eq_true] at h
    have hcs := ih h.2
    cases cs with
    | nil => cases hcs
    | cons d cs => rwa [List.getLast?_cons_cons, List.getLast?_cons_cons]
  | case4 cs _ _ =>
    rw [List.isEmpty_iff.1 h]
    rfl
  | case5 c cs _ _ _ ih =>
    have hcs := ih h
    cases cs with
    | nil => cases hcs
    | cons d cs => rwa [List.getLast?_cons_cons]

/-- A token does not end with a blank. -/
theorem Terminal.getLast_of_spells {t : Terminal} {w : List Char} (h : t.spells w = true) :
    ∀ c ∈ w.getLast?, Text.isBlank c = false := by
  intro c hc
  have hmem := List.mem_of_getLast? hc
  rcases Lexeme.class_cases t with rfl | rfl | rfl | rfl | htext
  · cases w with
    | nil => cases h
    | cons d w =>
      rw [spells, isWord, Bool.and_eq_true, List.all_eq_true] at h
      refine Layout.isBlank_eq_false (p := isWordPart) (by decide +kernel) ?_
      rcases List.mem_cons.1 hmem with rfl | hmem
      · exact Lexeme.isWordPart_of_isWordStart h.1
      · exact h.2 c hmem
  · have hdigit : Text.isDigit c = true := by
      obtain ⟨whole, hwhole, ⟨rfl, -⟩ | ⟨ds, rfl, hne, hds⟩⟩ := Lexeme.isNumeral_cases h
      · exact hwhole c hmem
      · obtain ⟨d, ds, rfl⟩ := List.exists_cons_of_ne_nil hne
        rw [List.getLast?_append, List.getLast?_cons_cons,
          List.getLast?_eq_some_getLast (List.cons_ne_nil d ds), Option.some_or] at hc
        cases hc
        exact hds _ (List.getLast_mem _)
    exact Layout.isBlank_eq_false (p := Text.isDigit) (by decide +kernel) hdigit
  · obtain ⟨tail, rfl, htail⟩ := Lexeme.spells_string h
    have hlast := getLast_of_isStringTail htail
    cases tail with
    | nil => cases hlast
    | cons d tail =>
      rw [List.getLast?_cons_cons, hlast] at hc
      cases hc
      rfl
  · cases h
  · have hlast : t.text.toList.getLast?.all (!Text.isBlank ·) = true := by
      cases t <;> decide +kernel
    rw [Lexeme.eq_text_of_spells h htext] at hc
    rw [hc, Option.all_some, Bool.not_eq_true'] at hlast
    exact hlast

section Front

variable {offset : Nat} {cs : List Char} {q : ItemSet} {stack : Stack q}
  {tree : Tree (.branch .program)}

theorem settle_of_spaces (h : parseFrom offset cs stack = .ok tree)
    (hcs : ∀ c ∈ cs, Lexeme.isSpace c = true) : settle .finish stack = .accept tree rfl := by
  have hgap : Lexeme.IsGap ([] = ([] : List Char)) cs := Lexeme.isGap_of_spaces hcs
  rw [← List.append_nil cs, hgap.skip (f := (parseFrom · · stack)) (fun _ _ _ => parseFrom_eq_gap)] at h
  exact settle_of_parseFrom h

/-- A text that is read as a program and has a token in it. Up to the end of the last token it is
read the same whatever comes after it, unless that goes on with the token. -/
theorem parseFrom_front_of_token (h : parseFrom offset cs stack = .ok tree)
    (hcs : Layout.commentless cs = true) (htoken : ¬∀ c ∈ cs, Lexeme.isSpace c = true) :
    ∃ (front gap : List Char) (r : ItemSet) (top : Stack r), front ≠ [] ∧ cs = front ++ gap ∧
      (∀ c ∈ gap, Lexeme.isSpace c = true) ∧
      (∀ c ∈ front.getLast?, Text.isBlank c = false) ∧
      settle .finish top = .accept tree rfl ∧
      ∀ rest, Lexeme.Breaks rest →
        parseFrom offset (front ++ rest) stack = parseFrom (offset + front.length) rest top := by
  induction cs using Lexeme.gapInduction generalizing offset q with
  | nil => exact absurd (by simp) htoken
  | gap before cs hgap ih =>
    obtain ⟨hspaces, hrest⟩ := Layout.isSpace_of_commentless hgap hcs
    rw [hgap.skip (f := (parseFrom · · stack)) (fun _ _ _ => parseFrom_eq_gap)] at h
    obtain ⟨front, gap, r, top, hne, rfl, hblank, hlast, hsettle, hparse⟩ := ih h hrest
      fun hall => htoken (List.forall_mem_append.2 ⟨hspaces, hall⟩)
    refine ⟨before ++ front, gap, r, top, ?_, ?_, hblank, ?_, hsettle, fun rest hrest => ?_⟩
    · exact fun hnil => hne (List.append_eq_nil_iff.1 hnil).2
    · rw [List.append_assoc]
    · rwa [List.getLast?_append_of_ne_nil _ hne]
    · have hskip : Lexeme.IsGap (front ++ rest = []) before := Lexeme.isGap_of_spaces hspaces
      rw [List.append_assoc, hskip.skip (f := (parseFrom · · stack))
        (fun _ _ _ => parseFrom_eq_gap), hparse rest hrest, List.length_append, Nat.add_assoc]
  | lexeme c cs hspace hcomment ih =>
    obtain ⟨t, n, r, below, hreads, hscan, hsettle, hrest⟩ := shift_of_parseFrom hspace hcomment h
    have hsplit := List.take_append_drop n (c :: cs)
    have hspelled := Lexeme.spells_of_scan hscan
    have hlength : ((c :: cs).take n).length = n := by
      rw [List.length_take, Nat.min_eq_left]
      exact Lexeme.scan_length_le hscan
    have hlast := Terminal.getLast_of_spells hspelled
    have hafter := Layout.Nesting.commentless_of_spelled hspelled (hsplit.symm ▸ hcs)
    have hne : (c :: cs).take n ≠ [] := by
      intro hnil
      rw [hnil] at hlength
      exact Lexeme.scan_length_ne_zero hscan hlength.symm
    -- The token ends before what is cut off, so it is the same before something else.
    have hread : ∀ front gap rest, (c :: cs).drop n = front ++ gap → Lexeme.Breaks rest →
        parseFrom offset ((c :: cs).take n ++ (front ++ rest)) stack =
          parseFrom (offset + n) (front ++ rest)
            (below.push (.leaf t (String.ofList ((c :: cs).take n)) offset)) := by
      intro front gap rest hdrop hbreaks
      rw [← hsplit, hdrop, ← List.append_assoc] at hscan
      have hcut := Lexeme.scan_of_append hscan (by rw [List.length_append]; omega)
      have hscan' := Lexeme.scan_append hcut hbreaks
      rw [List.append_assoc] at hscan'
      exact parseFrom_token hscan' hlength hsettle
    by_cases hspaces : ∀ d ∈ (c :: cs).drop n, Lexeme.isSpace d = true
    · refine ⟨(c :: cs).take n, (c :: cs).drop n, _, _, hne, hsplit.symm, hspaces, hlast,
        settle_of_spaces hrest hspaces, fun rest hbreaks => ?_⟩
      rw [hlength]
      exact hread [] _ rest rfl hbreaks
    · obtain ⟨front, gap, r, top, hfront, hdrop, hblank, hend, htop, hparse⟩ :=
        ih n (Lexeme.scan_length_ne_zero hscan) hrest hafter hspaces
      refine ⟨(c :: cs).take n ++ front, gap, r, top, ?_, ?_, hblank, ?_, htop,
        fun rest hbreaks => ?_⟩
      · exact fun hnil => hfront (List.append_eq_nil_iff.1 hnil).2
      · rw [List.append_assoc, ← hdrop, hsplit]
      · rwa [List.getLast?_append_of_ne_nil _ hfront]
      · rw [List.append_assoc, hread front gap rest hdrop hbreaks, hparse rest hbreaks,
          List.length_append, hlength, Nat.add_assoc]

/-- A text that is read as a program ends with spaces. Up to there it is read the same whatever
comes after it, unless that goes on with its last token. -/
theorem parseFrom_front (h : parseFrom offset cs stack = .ok tree)
    (hcs : Layout.commentless cs = true) :
    ∃ (front gap : List Char) (r : ItemSet) (top : Stack r), cs = front ++ gap ∧
      (∀ c ∈ gap, Lexeme.isSpace c = true) ∧
      (∀ c ∈ front.getLast?, Text.isBlank c = false) ∧
      settle .finish top = .accept tree rfl ∧
      ∀ rest, Lexeme.Breaks rest →
        parseFrom offset (front ++ rest) stack = parseFrom (offset + front.length) rest top := by
  by_cases hspaces : ∀ c ∈ cs, Lexeme.isSpace c = true
  · exact ⟨[], cs, q, stack, rfl, hspaces, by simp, settle_of_spaces h hspaces, fun _ _ => rfl⟩
  · obtain ⟨front, gap, r, top, -, hfront⟩ := parseFrom_front_of_token h hcs hspaces
    exact ⟨front, gap, r, top, hfront⟩

end Front

/-! ## Two sources -/

section Sources

open Layout

/-- All that is opened in a program is closed in it. -/
theorem nestingAt_of_parseTree {source : List Char} {tree : Tree (.branch .program)}
    (h : parseTree (separate source) = .ok tree) (hc : commentless source = true) :
    nestingAt source source.length = ⟨.code, 0⟩ := by
  obtain ⟨ts, hts, htiles⟩ := parseFrom_tiles h
  obtain rfl : tree.tokens = ts := hts
  have hover : Nesting.over ⟨.code, 0⟩ (separate source) = ⟨.code, 0⟩ := by
    rw [htiles.over_all rfl (commentless_separate hc), tree.depthAfter_tokens]
    rfl
  have hlength : (separate source).length = source.length := length_separate source
  rw [← nestingAt_separate hc, nestingAt, ← hlength, List.take_length]
  exact hover

variable {first second : List Char} {c : Char} {tree later : Tree (.branch .program)}

/-- A source that is read as a program, and another one after a seam: what is read is lines of the
one and the program of the other. -/
theorem parseTree_concatenate (hfirst : parseTree (separate first) = .ok tree)
    (hcomment : commentless first = true)
    (hsecond : parseFrom (first.length + 1) (separate second) Stack.bottom = .ok later)
    (hseam : c = ';' ∨ c = '\n' ∧ endsOpen first.reverse = false ∧ carriesOn second = false) :
    ∃ joined, parseTree (separate (first ++ c :: second)) = .ok joined ∧
      joined.expressions = tree.expressions ++ later.expressions ∧
      ∃ ts, joined.tokens = tree.tokens ++ ts ++ later.tokens := by
  obtain ⟨body, trail, rfl, htrail, hlast⟩ := exists_body first
  have hbody : commentless body = true := Mode.commentless_of_append hcomment
  -- The program without the spaces at its end.
  have hlaid : separate (body ++ trail) = separate body ++ trail := by
    have hbreak : ∀ d ∈ trail.head?, isWordPart d = false := fun d hd =>
      isWordPart_of_isBlank (htrail d (List.mem_of_mem_head? hd))
    have hsplit := separateFrom_append (s := {}) (by decide) hbody hlast hbreak
    rw [separateFrom_blanks _ htrail] at hsplit
    exact hsplit
  obtain ⟨front, gap, r, top, hcut, hgap, hfront, htop, hparse⟩ :=
    parseFrom_front hfirst (commentless_separate hcomment)
  rw [hlaid] at hcut
  obtain ⟨rfl, rfl⟩ := append_inj_of_blanks hcut htrail (fun c hc => isBlank_of_isSpace (hgap c hc))
    (getLast_separateFrom hlast) hfront
  have hwhole : parseTree (separate body) = .ok tree := by
    have hnone := hparse [] .nil
    rwa [List.append_nil, parseFrom_eq_ok htop] at hnone
  obtain ⟨between, hseamed, hlength, hbetween, hsemicolon⟩ :=
    separate_seam hbody hlast (nestingAt_of_parseTree hwhole hbody) hgap hseam
  have hbreaks : Lexeme.Breaks (between ++ separate second) := by
    cases between with
    | nil => cases hsemicolon
    | cons d between =>
      refine .cons ?_ _
      rcases hbetween d List.mem_cons_self with hspace | rfl
      · exact Lexeme.mem_breaks_of_isSpace hspace
      · decide
  obtain ⟨lines, hlines, ⟨ts, hts⟩, hcontinue⟩ :=
    parseFrom_semicolons htop hbetween hsemicolon (0 + (separate body).length)
  have hoffset : (body ++ trail).length + 1 = 0 + (separate body).length + between.length := by
    rw [length_separate, hlength, List.length_append]
    omega
  rw [hoffset] at hsecond
  obtain ⟨joined, hjoined, hjoins⟩ := parseFrom_joins hsecond lines
  refine ⟨joined, ?_, ?_, ts, ?_⟩
  · rw [hseamed, parseTree, hparse _ hbreaks]
    exact hcontinue _ joined hjoined
  · rw [hjoins.expressions, hlines]
  · rw [hjoins.tokens, hts]

/-! ## Expressions without their places -/

mutual

theorem Tree.expressions_bare {s : Symbol} :
    (tree : Tree s) → tree.bare.expressions = tree.expressions.map Tree.bare
  | .leaf .. => rfl
  | .node p children => by
    rw [Tree.bare, Tree.expressions, Tree.expressions]
    split
    · next hp => rw [List.map_singleton, Tree.bare_cast, Tree.bare]
    · exact children.expressions_bare

theorem Forest.expressions_bare {ss : List Symbol} :
    (forest : Forest ss) → forest.bare.expressions = forest.expressions.map Tree.bare
  | .nil => rfl
  | .cons head tail => by
    rw [Forest.bare, Forest.expressions, Forest.expressions, List.map_append,
      head.expressions_bare, tail.expressions_bare]

end

theorem mapM_of_agree {ε α β γ δ : Type} {f : α → Except ε β} {g : β → γ} {k : α → δ}
    (hk : ∀ x y, k x = k y → Agree g (f x) (f y)) {xs ys : List α} {es : List β}
    (h : xs.map k = ys.map k) (hxs : xs.mapM f = .ok es) :
    ∃ ds, ys.mapM f = .ok ds ∧ ds.map g = es.map g := by
  induction xs generalizing ys es with
  | nil =>
    obtain rfl := List.map_eq_nil_iff.1 h.symm
    exact ⟨es, hxs, rfl⟩
  | cons x xs ih =>
    cases ys with
    | nil => cases h
    | cons y ys =>
      obtain ⟨e, es, hx, hrest, rfl⟩ := exists_of_mapM_cons hxs
      obtain ⟨hhead, htail⟩ := List.cons.inj h
      obtain ⟨ds, hys, hds⟩ := ih htail hrest
      have hagree := hk x y hhead
      rw [hx] at hagree
      generalize hy : f y = result at hagree
      cases hagree with
      | @ok _ d hd =>
        refine ⟨d :: ds, ?_, ?_⟩
        · rw [List.mapM_cons, hy, hys]
          rfl
        · rw [List.map_cons, List.map_cons, hd, hds]

theorem Node.bareList_eq_map (es : List Node) : Node.bareList es = es.map Node.bare := by
  induction es with
  | nil => rfl
  | cons e es ih => rw [Node.bareList, ih, List.map_cons]

theorem Layout.insertFrom_nil (offset : Nat) (cs : List Char) :
    insertFrom (fun _ => []) offset cs = cs := by
  induction cs generalizing offset with
  | nil => rfl
  | cons c cs ih => rw [insertFrom, ih, List.nil_append]

/-- A program that starts at another offset has the same expressions, spans aside. -/
theorem exists_moved {tree : Tree (.branch .program)} {es : List Node}
    (h : parseTree (separate second) = .ok tree) (hc : commentless second = true)
    (hes : tree.listed = .ok es) (offset : Nat) :
    ∃ later ds, parseFrom offset (separate second) Stack.bottom = .ok later ∧
      later.listed = .ok ds ∧ Node.bareList ds = Node.bareList es := by
  obtain ⟨later, hlater, hbare⟩ : ∃ later, parseFrom offset
      (insertFrom (fun _ => []) 0 (separate second)) Stack.bottom = .ok later ∧
        tree.bare = later.bare :=
    parseFrom_insertFrom h (commentless_separate hc) (fun _ => .nil) (fun _ _ _ _ _ => rfl) rfl
      offset
  rw [insertFrom_nil] at hlater
  have hexpressions := congrArg Tree.expressions hbare
  rw [Tree.expressions_bare, Tree.expressions_bare] at hexpressions
  obtain ⟨ds, hds, hsame⟩ : ∃ ds : List Node, later.listed = .ok ds ∧
      ds.map Node.bare = es.map Node.bare :=
    mapM_of_agree (fun _ _ => Tree.meaning_agree) hexpressions hes
  exact ⟨later, ds, hlater, hds, by rw [Node.bareList_eq_map, Node.bareList_eq_map, hsame]⟩

/-! ## Spans -/

/-- The span of a tree goes from its first token to its last one. -/
theorem Tree.span_of_ends {s : Symbol} {tree other : Tree s} {front before after back : List Token}
    (htree : tree.tokens = front ++ before ++ back) (hother : other.tokens = front ++ after ++ back)
    (hfront : front ≠ []) (hback : back ≠ []) : tree.span = other.span := by
  obtain ⟨t, front, rfl⟩ := List.exists_cons_of_ne_nil hfront
  have hfirst : tree.tokens.head? = other.tokens.head? := by
    rw [htree, hother]
    rfl
  have hlast : tree.tokens.getLast? = other.tokens.getLast? := by
    rw [htree, hother, List.getLast?_append_of_ne_nil _ hback, List.getLast?_append_of_ne_nil _ hback]
  have hyield : ∀ t : Tree s, (Forest.cons t .nil).tokens = t.tokens := fun t => List.append_nil _
  unfold Tree.span Forest.span
  rw [Forest.first?_eq_head?, Forest.last?_eq_getLast?, Forest.first?_eq_head?,
    Forest.last?_eq_getLast?, hyield, hyield, hfirst, hlast]

theorem isSpace_of_separateFrom {s : State} {cs : List Char}
    (h : ∀ c ∈ separateFrom s cs, Lexeme.isSpace c = true) :
    ∀ c ∈ cs, Lexeme.isSpace c = true := by
  induction cs generalizing s with
  | nil => exact h
  | cons c cs ih =>
    rw [separateFrom_cons, List.forall_mem_cons, read_fst] at h
    rw [List.forall_mem_cons]
    refine ⟨?_, ih h.2⟩
    have hhead := h.1
    split at hhead
    · cases hhead
    · exact hhead

/-- A program without tokens is blank. -/
theorem isBlank_of_tokens {source : List Char} {offset : Nat} (hc : commentless source = true)
    (h : parseFrom offset (separate source) Stack.bottom = .ok tree) (hnone : tree.tokens = []) :
    ∀ c ∈ source, Text.isBlank c = true := by
  obtain ⟨ts, hts, htiles⟩ := parseFrom_tiles h
  obtain rfl : tree.tokens = ts := hts
  rw [hnone] at htiles
  have hspaces : ∀ c ∈ separate source, Lexeme.isSpace c = true := by
    have hlaid := commentless_separate hc
    generalize separate source = text at htiles hlaid
    generalize hrest : ([] : List Char) = rest at htiles
    cases htiles with
    | last hgap =>
      rw [← hrest, List.append_nil]
      exact (isSpace_of_commentless hgap hlaid).1
  exact fun c hc => isBlank_of_isSpace (isSpace_of_separateFrom hspaces c hc)

theorem tokens_ne_nil_of_endsOpen {offset : Nat} (hc : commentless first = true)
    (h : parseFrom offset (separate first) Stack.bottom = .ok tree)
    (hopen : endsOpen first.reverse = false) : tree.tokens ≠ [] := by
  intro hnone
  have hblanks := isBlank_of_tokens hc h hnone
  have hends := endsOpen_append (a := []) hblanks (by simp)
  rw [List.nil_append, hopen] at hends
  cases hends

theorem tokens_ne_nil_of_carriesOn {offset : Nat} (hc : commentless first = true)
    (h : parseFrom offset (separate first) Stack.bottom = .ok tree)
    (hcarry : carriesOn first = false) : tree.tokens ≠ [] := by
  intro hnone
  rw [carriesOn, nextCode_blanks (isBlank_of_tokens hc h hnone)] at hcarry
  cases hcarry

/-! ## Two programs -/

/-- What the outermost expressions of a source stand for, in order, if the source is read. -/
def outermost? (source : List Char) : Option (List Node) :=
  (parseTree (separate source)).toOption.bind fun tree => tree.listed.toOption

/-- A source is read as a program that runs some expressions. -/
structure RunsExpressions (source : List Char) (es : List Node) : Prop where
  listed : outermost? source = some es
  parsed : ∃ span, parse source = .ok (Node.ofExpressions es span)

theorem RunsExpressions.of_tree {source : List Char} {es : List Node}
    (h : parseTree (separate source) = .ok tree) (hes : tree.listed = .ok es) :
    RunsExpressions source es := by
  refine ⟨?_, tree.span, (parse_eq_meaning h).trans (Tree.meaning_of_listed hes)⟩
  rw [outermost?, h, Except.toOption, Option.bind_some, hes]
  rfl

theorem exists_listed_of_parse {source : List Char} {program : Node}
    (h : parse source = .ok program) :
    ∃ (tree : Tree (.branch .program)) (es : List Node),
      parseTree (separate source) = .ok tree ∧ tree.listed = .ok es := by
  obtain ⟨tree, htree, hmeaning⟩ := exists_tree_of_parse h
  obtain ⟨es, hes, -⟩ : ∃ es, tree.listed = .ok es ∧ program = Node.ofExpressions es tree.span :=
    tree.meaning_runs hmeaning
  exact ⟨tree, es, htree, hes⟩

/-- Two programs one after the other, with a semicolon between them, are the program that runs the
expressions of the first and then those of the second. A line end does as well as the semicolon,
if neither the code before it asks for more nor the code after it carries on. -/
theorem parse_concatenate {program later : Node} (hfirst : parse first = .ok program)
    (hsecond : parse second = .ok later) (hcomment : commentless first = true)
    (hcomment' : commentless second = true) :
    ∃ es ds gs, RunsExpressions first es ∧ RunsExpressions second ds ∧
      RunsExpressions (first ++ ';' :: second) gs ∧
      Node.bareList gs = Node.bareList (es ++ ds) ∧
      (endsOpen first.reverse = false → carriesOn second = false →
        parse (first ++ '\n' :: second) = parse (first ++ ';' :: second)) := by
  obtain ⟨tree, es, htree, hes⟩ := exists_listed_of_parse hfirst
  obtain ⟨tree', ds, htree', hds⟩ := exists_listed_of_parse hsecond
  obtain ⟨moved, cs, hmoved, hcs, hbare⟩ := exists_moved htree' hcomment' hds (first.length + 1)
  -- Over either seam the same expressions are read.
  have hjoin : ∀ c, (c = ';' ∨
      c = '\n' ∧ endsOpen first.reverse = false ∧ carriesOn second = false) →
      ∃ joined : Tree (.branch .program), parseTree (separate (first ++ c :: second)) = .ok joined ∧
        joined.listed = .ok (es ++ cs) ∧
        ∃ ts, joined.tokens = tree.tokens ++ ts ++ moved.tokens := by
    intro c hseam
    obtain ⟨joined, hjoined, hexpressions, htokens⟩ :=
      parseTree_concatenate htree hcomment hmoved hseam
    refine ⟨joined, hjoined, ?_, htokens⟩
    rw [Tree.listed, hexpressions]
    exact mapM_append_ok hes hcs
  obtain ⟨joined, hjoined, hlisted, ts, htokens⟩ := hjoin ';' (.inl rfl)
  refine ⟨es, ds, es ++ cs, .of_tree htree hes, .of_tree htree' hds, .of_tree hjoined hlisted, ?_,
    fun hopen hcarry => ?_⟩
  · rw [Node.bareList_append, Node.bareList_append, hbare]
  · obtain ⟨other, hother, hlisted', us, htokens'⟩ := hjoin '\n' (.inr ⟨rfl, hopen, hcarry⟩)
    have hspan : other.span = joined.span :=
      Tree.span_of_ends htokens' htokens (tokens_ne_nil_of_endsOpen hcomment htree hopen)
        (tokens_ne_nil_of_carriesOn hcomment' hmoved hcarry)
    rw [parse_eq_meaning hother, parse_eq_meaning hjoined, Tree.meaning_of_listed hlisted',
      Tree.meaning_of_listed hlisted, hspan]

/-- An assignment over two lines, with blanks and an empty line after it. -/
def assignedLines : List Char := "x <- [1,\n2] \n\n".toList

/-- An empty line, and two expressions. -/
def printedLines : List Char := "\nprint x;; x".toList

theorem parse_concatenate_printedLines :
    commentless assignedLines = true ∧ commentless printedLines = true ∧
      endsOpen assignedLines.reverse = false ∧ carriesOn printedLines = false ∧
      ∃ es ds gs, RunsExpressions assignedLines es ∧ RunsExpressions printedLines ds ∧
        RunsExpressions (assignedLines ++ ';' :: printedLines) gs ∧
        Node.bareList gs = Node.bareList (es ++ ds) ∧
        parse (assignedLines ++ '\n' :: printedLines) =
          parse (assignedLines ++ ';' :: printedLines) := by
  have hopen : endsOpen assignedLines.reverse = false := by decide +kernel
  have hcarry : carriesOn printedLines = false := by decide +kernel
  have hparsed : (parse assignedLines).isOk = true ∧ (parse printedLines).isOk = true := by
    decide +kernel
  obtain ⟨program, hfirst⟩ := exists_of_isOk hparsed.1
  obtain ⟨later, hsecond⟩ := exists_of_isOk hparsed.2
  obtain ⟨es, ds, gs, hes, hds, hgs, hbare, hline⟩ :=
    parse_concatenate hfirst hsecond (by decide) (by decide)
  exact ⟨by decide, by decide, hopen, hcarry, es, ds, gs, hes, hds, hgs, hbare,
    hline hopen hcarry⟩

end Sources

end Mandate
