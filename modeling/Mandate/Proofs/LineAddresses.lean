/-
  Mandate.Proofs.LineAddresses

  Line and column are an exact address. Three searches go over the source for them: line ends
  are counted up to the start of a span, the nearest one is looked for backwards from there, and
  the next one forwards.

    * `Text.lineSpace`: how much of a text some of its lines take up, each with its end.
    * `Text.exists_lines_above`: a text before an offset is some whole lines and the front of one
      more, which is what the search backwards finds.
    * `Span.exists_columns_eq`: the columns of a span in terms of these lines.
    * `Span.columns_address`: line and first column lead to the start of the span and to nowhere
      else, and the last column is cut at the end of the line.
-/

import Mathlib.Data.List.TakeWhile
import Mandate.Span

namespace Mandate

namespace Text

/-! ## Lines -/

/-- The characters that some lines take up, each with its end. -/
def lineSpace : List (List Char) → Nat
  | [] => 0
  | line :: lines => line.length + 1 + lineSpace lines

@[simp] theorem lineSpace_cons (line : List Char) (lines : List (List Char)) :
    lineSpace (line :: lines) = line.length + 1 + lineSpace lines := rfl

theorem bne_of_not_mem {a : Char} {cs : List Char} (h : a ∉ cs) : ∀ c ∈ cs, (c != a) = true :=
  fun _ hc => bne_iff_ne.2 (ne_of_mem_of_not_mem hc h)

/-- A text that holds a character is cut at the last one. -/
theorem exists_last_of_mem {a : Char} {cs : List Char} (h : a ∈ cs) :
    ∃ upper front, cs = upper ++ a :: front ∧ a ∉ front := by
  -- From behind it is the first one.
  obtain ⟨back, upper, hcs, hback⟩ := List.eq_append_cons_of_mem (List.mem_reverse.2 h)
  refine ⟨upper.reverse, back.reverse, ?_, mt List.mem_reverse.1 hback⟩
  rw [← List.reverse_reverse cs, hcs]
  simp

/-- The first line of a text is what comes before its first line end. -/
theorem exists_splitOn_eq_cons (cs : List Char) :
    ∃ below, cs.splitOn '\n' = cs.takeWhile (· != '\n') :: below := by
  induction cs with
  | nil => exact ⟨[], List.splitOn_nil _⟩
  | cons c cs ih =>
    obtain ⟨below, hbelow⟩ := ih
    rw [List.splitOn_cons_eq_if_modifyHead, hbelow]
    by_cases hc : c = '\n'
    · exact ⟨cs.takeWhile (· != '\n') :: below, by simp [hc]⟩
    · exact ⟨below, by simp [hc]⟩

theorem takeWhile_drop_ne_nil {cs : List Char} {i : Nat} {c : Char} (hc : cs[i]? = some c)
    (hne : c ≠ '\n') : (cs.drop i).takeWhile (· != '\n') ≠ [] := by
  obtain ⟨hi, rfl⟩ := List.getElem?_eq_some_iff.1 hc
  rw [List.drop_eq_getElem_cons hi, List.takeWhile_cons, if_pos (bne_iff_ne.2 hne)]
  exact List.cons_ne_nil _ _

theorem length_splitOn (cs : List Char) : (cs.splitOn '\n').length = cs.count '\n' + 1 := by
  induction cs with
  | nil => rfl
  | cons c cs ih =>
    rw [List.splitOn_cons_eq_if_modifyHead]
    by_cases hc : c = '\n'
    · simp [hc, ih]
    · simp [hc, ih]

/-- The last line of a text has no end of its own. -/
theorem lineSpace_splitOn (cs : List Char) : lineSpace (cs.splitOn '\n') = cs.length + 1 := by
  induction cs with
  | nil => rfl
  | cons c cs ih =>
    rw [List.splitOn_cons_eq_if_modifyHead]
    by_cases hc : c = '\n'
    · simp [hc, ih, Nat.add_comm]
    · obtain ⟨below, hbelow⟩ := exists_splitOn_eq_cons cs
      rw [hbelow, lineSpace_cons] at ih
      rw [if_neg (by simpa using hc), hbelow, List.modifyHead_cons, lineSpace_cons,
        List.length_cons, List.length_cons]
      omega

/-- A text is some whole lines and the front of another, which goes on with whatever is put behind
the text. The front is what a search from behind finds before a line end. -/
theorem exists_lines_above (before : List Char) :
    ∃ above front, '\n' ∉ front ∧ above.length = before.count '\n' ∧
      lineSpace above + front.length = before.length ∧
      (before.reverse.takeWhile (· != '\n')).length = front.length ∧
      ∀ behind, (before ++ behind).splitOn '\n' = above ++ (front ++ behind).splitOn '\n' := by
  by_cases hline : '\n' ∈ before
  · obtain ⟨upper, front, rfl, hfront⟩ := exists_last_of_mem hline
    refine ⟨upper.splitOn '\n', front, hfront, ?_, ?_, ?_, fun behind => ?_⟩
    · rw [length_splitOn, List.count_append, List.count_cons_self,
        List.count_eq_zero_of_not_mem hfront, Nat.zero_add]
    · rw [lineSpace_splitOn, List.length_append, List.length_cons]
      omega
    · have hback : '\n' ∉ front.reverse := mt List.mem_reverse.1 hfront
      rw [List.reverse_append, List.reverse_cons, List.append_assoc,
        List.takeWhile_append_of_pos (bne_of_not_mem hback)]
      simp
    · rw [List.append_assoc, List.cons_append, List.splitOn_append_cons_self]
  · refine ⟨[], before, hline, ?_, ?_, ?_, fun behind => rfl⟩
    · exact (List.count_eq_zero_of_not_mem hline).symm
    · exact Nat.zero_add _
    · rw [List.takeWhile_eq_self_iff.2 (bne_of_not_mem (mt List.mem_reverse.1 hline)),
        List.length_reverse]

end Text

/-! ## Columns -/

namespace Span

theorem charactersBefore_of_le {length : Nat} {offset : Int} (hzero : 0 ≤ offset)
    (hlength : offset ≤ length) : charactersBefore length offset = offset.toNat := by
  rw [charactersBefore, if_neg (by omega)]
  omega

/-- Around the start of a span there are whole lines, then the line that it is in, `front` up to
the start and `reach` from there on, then other lines. The columns are counted along this line,
and its end counts unless the span starts there. -/
theorem exists_columns_eq {source : List Char} {s : Span} (hstart : 0 ≤ s.start)
    (hlength : s.start ≤ source.length) :
    ∃ above front reach below,
      source.splitOn '\n' = above ++ (front ++ reach) :: below ∧
      reach = (source.drop s.start.toNat).takeWhile (· != '\n') ∧
      Text.lineSpace above + front.length = s.start ∧
      s.columns source = ⟨above.length + 1, front.length,
        if reach = [] then front.length + (s.stop - s.start)
        else min (front.length + (s.stop - s.start)) (front ++ reach).length⟩ := by
  have hcut := charactersBefore_of_le hstart hlength
  have htake : (source.take s.start.toNat).length = s.start.toNat := by
    rw [List.length_take]
    omega
  obtain ⟨above, front, hfront, hcount, hspace, hback, hlines⟩ :=
    Text.exists_lines_above (source.take s.start.toNat)
  rw [htake] at hspace
  obtain ⟨below, hbelow⟩ := Text.exists_splitOn_eq_cons (front ++ source.drop s.start.toNat)
  rw [List.takeWhile_append_of_pos (Text.bne_of_not_mem hfront)] at hbelow
  have hsplit := hlines (source.drop s.start.toNat)
  rw [List.take_append_drop, hbelow] at hsplit
  refine ⟨above, front, _, below, hsplit, rfl, by omega, ?_⟩
  rw [columns, hcut, hback, ← hcount, List.length_append]
  generalize (source.drop s.start.toNat).takeWhile (· != '\n') = reach
  -- A span that starts at the end of its line is not cut there.
  cases reach with
  | nil =>
    rw [List.length_nil, if_neg (by omega), if_pos rfl]
    congr 1 <;> omega
  | cons c reach =>
    rw [List.length_cons, if_pos (by omega), if_neg (List.cons_ne_nil _ _)]
    congr 1 <;> omega

/-- The lines before that of a span take up what its first column leaves of its start. -/
theorem lineSpace_above {source : List Char} {s : Span} (hstart : 0 ≤ s.start)
    (hlength : s.start ≤ source.length) :
    Text.lineSpace ((source.splitOn '\n').take ((s.columns source).line - 1))
      = s.start - (s.columns source).first := by
  obtain ⟨above, front, reach, below, hlines, -, hspace, hcolumns⟩ :=
    exists_columns_eq hstart hlength
  simp only [hlines, hcolumns, Nat.add_sub_cancel, List.take_left]
  omega

/-- Line and column are an exact address. The lines before the given one, each with its end, and
the first column add up to the start of the span; no other start has the same line and column. The
first column is on the line or right at its end. Where the span starts at a character of the line,
the last column is as far from the first as the span is long, but never past the end of the
line. -/
theorem columns_address (source : List Char) (s : Span) (hstart : 0 ≤ s.start)
    (hstop : s.start ≤ s.stop) (hlength : s.stop ≤ source.length) :
    let lines := source.splitOn '\n'
    let c := s.columns source
    (1 ≤ c.line ∧ c.line ≤ lines.length) ∧
    Text.lineSpace (lines.take (c.line - 1)) = s.start - c.first ∧
    (∃ line, lines[c.line - 1]? = some line ∧
      0 ≤ c.first ∧ c.first ≤ line.length ∧ c.first ≤ c.last ∧
      ∀ character, source[s.start.toNat]? = some character → character ≠ '\n' →
        c.last = min (c.first + (s.stop - s.start)) line.length) ∧
    ∀ t : Span, 0 ≤ t.start → t.start ≤ source.length →
      (t.columns source).line = c.line → (t.columns source).first = c.first →
        t.start = s.start := by
  have hsource : s.start ≤ source.length := Int.le_trans hstop hlength
  dsimp only
  refine ⟨?_, lineSpace_above hstart hsource, ?_, fun t ht htsource hline hfirst => ?_⟩
  · obtain ⟨above, front, reach, below, hlines, -, -, hcolumns⟩ :=
      exists_columns_eq hstart hsource
    simp only [hlines, hcolumns, List.length_append, List.length_cons]
    omega
  · obtain ⟨above, front, reach, below, hlines, hreach, -, hcolumns⟩ :=
      exists_columns_eq hstart hsource
    rw [hlines, hcolumns]
    dsimp only
    refine ⟨front ++ reach, ?_, by omega, ?_, ?_, fun character hcharacter hne => ?_⟩
    · rw [Nat.add_sub_cancel, List.getElem?_append_right (Nat.le_refl _), Nat.sub_self]
      rfl
    · rw [List.length_append]
      omega
    · split
      · omega
      · rw [List.length_append]
        omega
    · rw [if_neg (hreach ▸ Text.takeWhile_drop_ne_nil hcharacter hne)]
  · -- The same lines are before both, and the same column is added.
    have hother := lineSpace_above ht htsource
    rw [hline, hfirst, lineSpace_above hstart hsource] at hother
    omega

/-- A source of three lines. -/
def threeLines : List Char := ['a', 'b', '\n', 'c', 'd', 'e', '\n', 'f']

/-- A span from inside the second line to the end of the third is cut at the end of the second. -/
theorem columns_address_crossing :
    (0 ≤ 4 ∧ 4 ≤ 8 ∧ 8 ≤ threeLines.length) ∧
    columns ⟨4, 8⟩ threeLines = ⟨2, 1, 3⟩ ∧
    Text.lineSpace ((threeLines.splitOn '\n').take 1) = 3 ∧
    (∃ line, (threeLines.splitOn '\n')[1]? = some line ∧ 1 ≤ line.length ∧ 3 = min 5 line.length) ∧
    ∀ t : Span, 0 ≤ t.start → t.start ≤ threeLines.length →
      (t.columns threeLines).line = 2 → (t.columns threeLines).first = 1 → t.start = 4 := by
  have hcolumns : columns ⟨4, 8⟩ threeLines = ⟨2, 1, 3⟩ := by decide
  have haddress := columns_address threeLines ⟨4, 8⟩ (by decide) (by decide) (by decide)
  rw [hcolumns] at haddress
  obtain ⟨-, hspace, ⟨line, hget, -, hfirst, -, hlast⟩, honly⟩ := haddress
  refine ⟨by decide, hcolumns, Int.ofNat_inj.1 hspace, ⟨line, hget, ?_, ?_⟩, honly⟩
  · exact Int.ofNat_le.1 hfirst
  · have hend := hlast 'd' rfl (by decide)
    dsimp only at hend
    omega

end Span

end Mandate
