/-
  Mandate.Proofs.FreeLayout

  Spaces, line ends and comments inside brackets are free.

    * `Layout.insertFrom` puts gaps before characters of a text.
    * `Layout.separateFrom_insertFrom`: inside brackets no line end is replaced, and a
      line end outside of them cannot see into them. So gaps inside brackets are laid
      out as they are, and nothing else is laid out differently.
    * `parseFrom_insertFrom`: a text with gaps between the tokens that the parser
      reads is read as the same tokens.
    * `parse_insertFrom`: both together, for a source without comments.
-/

import Mandate.Proofs.CodeAround
import Mandate.Proofs.TokenBreaks

namespace Mandate

/-! ## Inserting -/

namespace Layout

/-- A text from an offset on, with a filler before each of its characters. -/
def insertFrom (filler : Nat → List Char) (offset : Nat) : List Char → List Char
  | [] => []
  | c :: cs => filler offset ++ c :: insertFrom filler (offset + 1) cs

/-- Fillers that are gaps, before characters that are code inside brackets. The text starts at an
offset, with `n` around it. -/
def Fills (filler : Nat → List Char) (offset : Nat) (n : Nesting) (cs : List Char) : Prop :=
  ∀ k, filler (offset + k) ≠ [] →
    Lexeme.IsGap False (filler (offset + k)) ∧ (n.over (cs.take k)).mode = .code ∧
      (n.over (cs.take k)).depth ≠ 0

variable {filler : Nat → List Char} {offset : Nat} {n : Nesting} {c : Char} {cs : List Char}

theorem Fills.cons (h : Fills filler offset n (c :: cs)) :
    Fills filler (offset + 1) (n.after c) cs := by
  intro k hk
  have hnext := h (k + 1)
  rw [Nat.add_comm k, ← Nat.add_assoc, Nat.add_comm 1 k, List.take_succ_cons] at hnext
  exact hnext hk

/-- Outside of brackets nothing is filled in. -/
theorem Fills.eq_nil (h : Fills filler offset n cs) (hdepth : n.depth = 0) : filler offset = [] :=
  Decidable.byContradiction fun hne => (h 0 hne).2.2 hdepth

/-! ## Outside of brackets -/

/-- A word outside of brackets is not cut. -/
theorem takeWhile_insertFrom {depth : Nat} (hdepth : depth = 0)
    (h : Fills filler offset ⟨.code, depth⟩ cs) :
    (insertFrom filler offset cs).takeWhile isWordPart = cs.takeWhile isWordPart := by
  induction cs generalizing offset with
  | nil => rfl
  | cons c cs ih =>
    rw [insertFrom, h.eq_nil hdepth, List.nil_append]
    cases hc : isWordPart c with
    | true =>
      have hafter := h.cons
      rw [Nesting.after_neutral (isNeutral_of (by decide) c hc)] at hafter
      rw [List.takeWhile_cons_of_pos hc, List.takeWhile_cons_of_pos hc, ih hafter]
    | false =>
      have hnot : ¬isWordPart c = true := by
        rw [hc]
        decide
      rw [List.takeWhile_cons_of_neg hnot, List.takeWhile_cons_of_neg hnot]

/-- Nothing is filled in before the code ahead of a line end outside of brackets. -/
theorem carriesOn_insertFrom {depth : Nat} (hdepth : depth = 0)
    (h : Fills filler offset ⟨.code, depth⟩ cs) (hcs : commentless cs = true) :
    carriesOn (insertFrom filler offset cs) = carriesOn cs := by
  induction cs generalizing offset with
  | nil => rfl
  | cons c cs ih =>
    obtain ⟨hafter, hrest⟩ := Mode.commentless_cons.1 hcs
    have hcomment : c ≠ '#' := by
      rintro rfl
      exact hafter rfl
    have hword := takeWhile_insertFrom hdepth h
    rw [insertFrom, h.eq_nil hdepth, List.nil_append] at hword ⊢
    cases hblank : Text.isBlank c with
    | true =>
      have hneutral := isNeutral_of (by decide) c hblank
      have hnext := h.cons
      have hcode : Mode.code.after c = .code :=
        congrArg Nesting.mode (@Nesting.after_neutral depth c hneutral)
      rw [Nesting.after_neutral hneutral] at hnext
      rw [hcode] at hrest
      rw [carriesOn_blank hblank, carriesOn_blank hblank, ih hnext hrest]
    | false =>
      have hnot : ¬Text.isBlank c = true := by
        rw [hblank]
        decide
      rw [carriesOn, carriesOn, nextCode_cons hcomment hnot, nextCode_cons hcomment hnot,
        leadingWord, leadingWord, hword]
      rfl

/-! ## Inside of brackets -/

/-- A comment is written as it is. -/
theorem separateFrom_line {s : State} {line : List Char} (hs : s.mode = .comment)
    (hline : '\n' ∉ line) (rest : List Char) :
    separateFrom s (line ++ rest) = line ++ separateFrom s rest := by
  induction line with
  | nil => rfl
  | cons c line ih =>
    have hc : c ≠ '\n' := fun h => hline (h ▸ List.mem_cons_self)
    have hread : s.read c (line ++ rest) = (c, s) := by
      rw [State.read, hs]
      exact if_neg hc
    rw [List.cons_append, separateFrom_cons, hread, ih fun h => hline (List.mem_cons_of_mem c h),
      List.cons_append]

theorem read_inside {s : State} {m : Mode} {depth : Nat} (hs : s.nesting = ⟨m, depth + 1⟩) (c : Char)
    (ahead : List Char) :
    (s.read c ahead).1 = c ∧ (s.read c ahead).2.nesting = Nesting.after ⟨m, depth + 1⟩ c := by
  have hdepth : s.depth = depth + 1 := congrArg Nesting.depth hs
  refine ⟨?_, by rw [nesting_read, hs]⟩
  rw [read_fst, if_neg fun h => ?_]
  omega

/-- Inside of brackets a gap is written as it is. -/
theorem separateFrom_gap {s : State} {depth : Nat} {gap : List Char}
    (hgap : Lexeme.IsGap False gap) (hs : s.nesting = ⟨.code, depth + 1⟩) (rest : List Char) :
    ∃ s' : State, s'.nesting = ⟨.code, depth + 1⟩ ∧
      separateFrom s (gap ++ rest) = gap ++ separateFrom s' rest := by
  induction hgap generalizing s with
  | nil => exact ⟨s, hs, rfl⟩
  | @space c gap hc _ ih =>
    obtain ⟨hwritten, hnesting⟩ := read_inside hs c (gap ++ rest)
    rw [Nesting.after_neutral (isNeutral_of (by decide) c hc)] at hnesting
    obtain ⟨s', hs', hrest⟩ := ih hnesting
    refine ⟨s', hs', ?_⟩
    rw [List.cons_append, separateFrom_cons, hwritten, hrest, List.cons_append]
  | @comment line gap hline _ ih =>
    obtain ⟨hsharp, hcomment⟩ := read_inside hs '#' (line ++ '\n' :: (gap ++ rest))
    have hmode := congrArg Nesting.mode hcomment
    obtain ⟨hend, hcode⟩ := read_inside hcomment '\n' (gap ++ rest)
    obtain ⟨s', hs', hrest⟩ := ih hcode
    refine ⟨s', hs', ?_⟩
    rw [List.cons_append, List.append_assoc, List.cons_append, separateFrom_cons, hsharp,
      separateFrom_line hmode hline, separateFrom_cons, hend, hrest, List.cons_append,
      List.append_assoc, List.cons_append]
  | lastComment hend => exact hend.elim

/-! ## Laying out -/

/-- A closing bracket is code, and part of no word. -/
theorem closes_of_depthAfter {depth : Nat} (h : depthAfter (depth + 1) c = 0) :
    c ≠ '\n' ∧ Mode.code.after c = .code ∧ Text.isBlank c = false ∧ isWordPart c = false := by
  have hc : c = ')' ∨ c = ']' ∨ c = '\x7d' := by
    unfold depthAfter at h
    split at h
    · cases h
    split at h
    · next hc => simpa using hc
    · cases h
  rcases hc with rfl | rfl | rfl <;> decide

/-- A closing bracket is the only way out, and hides what is behind it. -/
theorem sameSight_of_closed {s s' : State} (hnesting : s'.nesting = s.nesting)
    (hdepth : s.depth ≠ 0) {ahead : List Char} (hclosed : (s.read c ahead).2.depth = 0)
    (ahead' : List Char) :
    SameSight (s.read c ahead).2.behind (s'.read c ahead').2.behind := by
  have hmode' : s'.mode = s.mode := congrArg Nesting.mode hnesting
  rw [read_snd] at hclosed
  dsimp only at hclosed
  obtain ⟨depth, hsucc⟩ := Nat.exists_eq_succ_of_ne_zero hdepth
  split at hclosed
  · next hmode =>
    rw [hsucc] at hclosed
    obtain ⟨hline, hcode, hblank, hpart⟩ := closes_of_depthAfter hclosed
    rw [behind_read, behind_read, hmode', hmode, if_pos hcode, if_pos hcode, read_fst, read_fst,
      if_neg fun h => hline h.1, if_neg fun h => hline h.1]
    exact .mark hblank hpart _ _
  · exact absurd hclosed hdepth

/-- A filler leaves the place it is put at as deep as it was. -/
theorem separateFrom_filler {s s' : State} (hnesting : s'.nesting = s.nesting)
    (hbehind : s.depth = 0 → SameSight s.behind s'.behind)
    (hfills : Fills filler offset s.nesting cs) (rest : List Char) :
    ∃ s'' : State, s''.nesting = s.nesting ∧ (s.depth = 0 → SameSight s.behind s''.behind) ∧
      separateFrom s' (filler offset ++ rest) = filler offset ++ separateFrom s'' rest := by
  by_cases hnone : filler offset = []
  · rw [hnone]
    exact ⟨s', hnesting, hbehind, rfl⟩
  · obtain ⟨hgap, hmode, hdepth⟩ := hfills 0 hnone
    have hmode : s.mode = .code := hmode
    have hdepth : s.depth ≠ 0 := hdepth
    obtain ⟨depth, hsucc⟩ := Nat.exists_eq_succ_of_ne_zero hdepth
    have hinside : s.nesting = ⟨.code, depth + 1⟩ := by
      rw [State.nesting, hmode, hsucc]
    obtain ⟨s'', hs'', hwritten⟩ := separateFrom_gap hgap (hnesting.trans hinside) rest
    exact ⟨s'', hs''.trans hinside.symm, fun hzero => absurd hzero hdepth, hwritten⟩

/-- A character is laid out the same over fillers that are inside of brackets. -/
theorem read_insertFrom {s s' : State} (hnesting : s'.nesting = s.nesting)
    (hbehind : s.depth = 0 → SameSight s.behind s'.behind) (hmode : s.mode ≠ .comment)
    (hcs : (s.mode.after c).commentless cs = true)
    (hfills : Fills filler (offset + 1) (s.nesting.after c) cs) :
    (s'.read c (insertFrom filler (offset + 1) cs)).1 = (s.read c cs).1 ∧
      ((s.read c cs).2.depth = 0 → SameSight (s.read c cs).2.behind
        (s'.read c (insertFrom filler (offset + 1) cs)).2.behind) := by
  by_cases hdepth : s.depth = 0
  · have hahead : c = '\n' → s.mode.inString = false → s.depth = 0 →
        carriesOn (insertFrom filler (offset + 1) cs) = carriesOn cs := by
      rintro rfl hstring -
      have hcode := Mode.eq_code hstring hmode
      have hafter : s.nesting.after '\n' = ⟨.code, s.depth⟩ := by
        rw [State.nesting, hcode]
        rfl
      rw [hafter] at hfills
      rw [hcode] at hcs
      exact carriesOn_insertFrom hdepth hfills hcs
    obtain ⟨hwritten, hsight⟩ := read_of_sight hnesting (hbehind hdepth) c cs _ hahead
    exact ⟨hwritten, fun _ => hsight⟩
  · have hdepth' : s'.depth ≠ 0 := by
      rw [show s'.depth = s.depth from congrArg Nesting.depth hnesting]
      exact hdepth
    refine ⟨?_, fun hclosed => sameSight_of_closed hnesting hdepth hclosed _⟩
    rw [read_fst, read_fst, if_neg fun h => hdepth' h.2.2.1, if_neg fun h => hdepth h.2.2.1]

/-- Gaps inside of brackets are laid out as they are, and all else as without them. -/
theorem separateFrom_insertFrom {s s' : State} (hnesting : s'.nesting = s.nesting)
    (hbehind : s.depth = 0 → SameSight s.behind s'.behind) (hmode : s.mode ≠ .comment)
    (hcs : s.mode.commentless cs = true) (hfills : Fills filler offset s.nesting cs) :
    separateFrom s' (insertFrom filler offset cs) =
      insertFrom filler offset (separateFrom s cs) := by
  induction cs generalizing offset s s' with
  | nil => rfl
  | cons c cs ih =>
    obtain ⟨hafter, hrest⟩ := Mode.commentless_cons.1 hcs
    have hread : (s.read c cs).2.mode = s.mode.after c := congrArg Nesting.mode (nesting_read s c cs)
    obtain ⟨t, ht, hsight, hfilled⟩ := separateFrom_filler hnesting hbehind hfills
      (c :: insertFrom filler (offset + 1) cs)
    obtain ⟨hwritten, hnext⟩ := read_insertFrom ht hsight hmode hrest hfills.cons
    have hind := @ih (offset + 1) (s.read c cs).2 (t.read c (insertFrom filler (offset + 1) cs)).2
      (by rw [nesting_read, nesting_read, ht]) hnext (by rwa [hread]) (by rwa [hread])
      (by rw [nesting_read]; exact hfills.cons)
    rw [insertFrom, hfilled, separateFrom_cons, hwritten, hind, separateFrom_cons, insertFrom]

end Layout

/-! ## Reading -/

section Reading

open Layout

variable {filler : Nat → List Char} {offset : Nat}

/-- Spaces with gaps between them are a gap. -/
theorem insertFrom_spaces (hfiller : ∀ i, Lexeme.IsGap False (filler i)) {gap : List Char}
    (hgap : ∀ c ∈ gap, Lexeme.isSpace c = true) (offset : Nat) (cs : List Char) :
    ∃ gap', Lexeme.IsGap False gap' ∧ insertFrom filler offset (gap ++ cs) =
      gap' ++ insertFrom filler (offset + gap.length) cs := by
  induction gap generalizing offset with
  | nil => exact ⟨[], .nil, rfl⟩
  | cons c gap ih =>
    obtain ⟨gap', hgap', hrest⟩ := ih (fun d hd => hgap d (List.mem_cons_of_mem c hd)) (offset + 1)
    refine ⟨filler offset ++ c :: gap',
      (hfiller offset).append (.space (hgap c List.mem_cons_self) hgap'), ?_⟩
    rw [List.cons_append, insertFrom, hrest, List.length_cons, List.append_assoc, List.cons_append,
      Nat.add_assoc, Nat.add_comm 1]

/-- Characters with nothing between them have a filler before the first one only. -/
theorem insertFrom_token {w : List Char} (hw : w ≠ [])
    (hinside : ∀ i, offset < i → i < offset + w.length → filler i = []) (cs : List Char) :
    insertFrom filler offset (w ++ cs) =
      filler offset ++ (w ++ insertFrom filler (offset + w.length) cs) := by
  induction w generalizing offset with
  | nil => exact absurd rfl hw
  | cons c w ih =>
    rw [List.length_cons] at hinside
    rw [List.cons_append, insertFrom, List.cons_append, List.length_cons]
    congr 2
    cases w with
    | nil => rfl
    | cons d w =>
      rw [ih (List.cons_ne_nil d w) fun i hi hlt => hinside i (by omega) (by omega),
        hinside (offset + 1) (by omega) (by rw [List.length_cons]; omega), List.nil_append,
        Nat.add_assoc, Nat.add_comm 1]

/-- The front of a text is kept up to the first filler. -/
theorem insertFrom_front (hfiller : ∀ i, Lexeme.IsGap False (filler i)) (offset : Nat)
    (cs : List Char) :
    ∃ front rest after, cs = front ++ rest ∧ insertFrom filler offset cs = front ++ after ∧
      Lexeme.Breaks after := by
  induction cs generalizing offset with
  | nil => exact ⟨[], [], [], rfl, rfl, .nil⟩
  | cons c cs ih =>
    by_cases hnone : filler offset = []
    · obtain ⟨front, rest, after, hcs, hafter, hbreaks⟩ := ih (offset + 1)
      refine ⟨c :: front, rest, after, by rw [hcs, List.cons_append], ?_, hbreaks⟩
      rw [insertFrom, hnone, hafter]
      rfl
    · exact ⟨[], c :: cs, _, rfl, rfl, (hfiller offset).breaks hnone _⟩

variable {q r : ItemSet} {stack stack' : Stack q} {tree : Tree (.branch .program)}

/-- What is read after some trees is read after the same trees with other starts. -/
theorem settle_shift_of_bare {t : Terminal} {below : Stack r} {hreads : r.reads (.leaf t) = true}
    (h : stack.bare = stack'.bare) (hsettle : settle t stack = .shift below hreads) :
    ∃ below' : Stack r, settle t stack' = .shift below' hreads ∧ below.bare = below'.bare := by
  have hbare := settle_bare_eq t h
  rw [hsettle] at hbare
  cases hother : settle t stack' with
  | shift below' hreads' =>
    rw [hother] at hbare
    injection hbare with hstate hbelow
    subst hstate
    exact ⟨below', rfl, eq_of_heq hbelow⟩
  | accept accepted hfinish =>
    rw [hother] at hbare
    cases hbare
  | reject state =>
    rw [hother] at hbare
    cases hbare

theorem settle_accept_of_bare (h : stack.bare = stack'.bare)
    (hsettle : settle .finish stack = .accept tree rfl) :
    ∃ tree', settle .finish stack' = .accept tree' rfl ∧ tree.bare = tree'.bare := by
  have hbare := settle_bare_eq .finish h
  rw [hsettle] at hbare
  cases hother : settle .finish stack' with
  | accept tree' hfinish =>
    rw [hother] at hbare
    injection hbare with htree
    exact ⟨tree', rfl, htree⟩
  | shift below' hreads =>
    rw [hother] at hbare
    cases hbare
  | reject state =>
    rw [hother] at hbare
    cases hbare

/-- A gap after a token, or further on, leaves the token as it is. -/
theorem scan_insertFrom (hfiller : ∀ i, Lexeme.IsGap False (filler i)) {allowed : List Terminal}
    {w cs : List Char} {t : Terminal} {n : Nat}
    (hscan : Lexeme.scan allowed (w ++ cs) = some (.token t n)) (hlength : w.length = n)
    (offset : Nat) :
    Lexeme.scan allowed (w ++ insertFrom filler offset cs) = some (.token t n) := by
  obtain ⟨front, rest, after, hcs, hafter, hbreaks⟩ := insertFrom_front hfiller offset cs
  rw [hcs, ← List.append_assoc] at hscan
  have hfront := Lexeme.scan_of_append hscan (by rw [List.length_append]; omega)
  rw [hafter, ← List.append_assoc]
  exact Lexeme.scan_append hfront hbreaks

/-- With gaps between the tokens that are read, a text is read as the same tokens. -/
theorem parseFrom_insertFrom {cs : List Char} (h : parseFrom offset cs stack = .ok tree)
    (hcs : commentless cs = true) (hfiller : ∀ i, Lexeme.IsGap False (filler i))
    (hinside : ∀ t ∈ tree.tokens, ∀ i, t.start < i → i < t.stop → filler i = [])
    (hbare : stack.bare = stack'.bare) (offset' : Nat) :
    ∃ tree', parseFrom offset' (insertFrom filler offset cs) stack' = .ok tree' ∧
      tree.bare = tree'.bare := by
  induction cs using Lexeme.gapInduction generalizing offset offset' q with
  | nil =>
    obtain ⟨tree', hsettle, htree⟩ := settle_accept_of_bare hbare (settle_of_parseFrom h)
    exact ⟨tree', parseFrom_eq_ok hsettle, htree⟩
  | gap gap cs hgap ih =>
    obtain ⟨hspaces, hrest⟩ := isSpace_of_commentless hgap hcs
    obtain ⟨gap', hgap', hinserted⟩ := insertFrom_spaces hfiller hspaces offset cs
    rw [hgap.skip (f := (parseFrom · · stack)) (fun _ _ _ => parseFrom_eq_gap)] at h
    rw [hinserted, (hgap'.mono False.elim).skip (f := (parseFrom · · stack'))
      (fun _ _ _ => parseFrom_eq_gap)]
    exact ih h hrest hbare _
  | lexeme c cs hspace hcomment ih =>
    obtain ⟨t, n, r, below, hreads, hscan, hsettle, hrest⟩ := shift_of_parseFrom hspace hcomment h
    obtain ⟨below', hsettle', hbelow⟩ := settle_shift_of_bare hbare hsettle
    obtain ⟨ts, htokens, -⟩ := parseFrom_tiles hrest
    have hlength : ((c :: cs).take n).length = n := by
      rw [List.length_take, Nat.min_eq_left]
      exact Lexeme.scan_length_le hscan
    have hne : n ≠ 0 := Lexeme.scan_length_ne_zero hscan
    have hsplit := List.take_append_drop n (c :: cs)
    have hspelled := Lexeme.spells_of_scan hscan
    have hafter := Nesting.commentless_of_spelled hspelled (hsplit.symm ▸ hcs)
    have hnone : ∀ i, offset < i → i < offset + ((c :: cs).take n).length → filler i = [] := by
      have hmem : ⟨t, String.ofList ((c :: cs).take n), offset⟩ ∈ tree.tokens := by
        rw [htokens, Stack.tokens, Tree.tokens]
        simp
      have htoken := hinside _ hmem
      rw [Token.stop, String.length_ofList] at htoken
      exact htoken
    have hw : (c :: cs).take n ≠ [] := by
      intro hnil
      rw [hnil] at hlength
      exact hne hlength.symm
    have hscan' : Lexeme.scan q.expected ((c :: cs).take n ++
        insertFrom filler (offset + n) ((c :: cs).drop n)) = some (.token t n) := by
      rw [← hsplit] at hscan
      exact scan_insertFrom hfiller hscan hlength (offset + n)
    have hfilled : insertFrom filler offset (c :: cs) = filler offset ++ ((c :: cs).take n ++
        insertFrom filler (offset + n) ((c :: cs).drop n)) := by
      have htoken := insertFrom_token hw hnone ((c :: cs).drop n)
      rwa [hsplit, hlength] at htoken
    rw [hfilled, ((hfiller offset).mono False.elim).skip (f := (parseFrom · · stack'))
      (fun _ _ _ => parseFrom_eq_gap), parseFrom_token hscan' hlength hsettle']
    refine ih n hne hrest hafter ?_ _
    rw [Stack.bare, Stack.bare, hbelow, Tree.bare, Tree.bare]

end Reading

/-! ## Sources -/

/-- A place inside of brackets that is between two consecutive tokens. -/
def Token.InnerSeam (ts : List Token) (i : Nat) : Prop :=
  ∃ before t u after, ts = before ++ t :: u :: after ∧ t.stop ≤ i ∧ i ≤ u.start ∧
    Token.depthAfter 0 (before ++ [t]) ≠ 0

/-- Every token ends before a seam or starts after it. -/
theorem Token.Covers.of_seam {text : List Char} {start stop i : Nat} {before after : List Token}
    {t u : Token} (h : Token.Covers text start stop (before ++ t :: u :: after))
    (ht : t.stop ≤ i) (hu : i ≤ u.start) :
    (∀ x ∈ before ++ [t], x.stop ≤ i) ∧ ∀ x ∈ u :: after, i ≤ x.start := by
  obtain ⟨-, hpair, hcross⟩ := List.pairwise_append.1 h.ordered
  have hpos : t.start < t.stop := h.nonempty t (by simp)
  have hlast : u.start < u.stop := h.nonempty u (by simp)
  refine ⟨fun x hx => ?_, fun x hx => ?_⟩
  · rcases List.mem_append.1 hx with hx | hx
    · have hle := hcross x hx t List.mem_cons_self
      omega
    · rw [List.mem_singleton.1 hx]
      exact ht
  · rcases List.mem_cons.1 hx with rfl | hx
    · exact hu
    · have hle := (List.pairwise_cons.1 (List.pairwise_cons.1 hpair).2).1 x hx
      omega

section Source

open Layout

variable {source : List Char} {filler : Nat → List Char} {ts : List Token}

/-- A seam inside of brackets is a place inside of brackets in the source. -/
theorem fills_of_seams (htiles : Token.Tiles 0 (separate source) ts [])
    (hcomment : commentless source = true)
    (hfiller : ∀ i, filler i ≠ [] → Lexeme.IsGap False (filler i) ∧ Token.InnerSeam ts i) :
    Fills filler 0 {} source := by
  intro k hk
  rw [Nat.zero_add] at hk ⊢
  obtain ⟨hgap, before, t, u, after, rfl, ht, hu, hdepth⟩ := hfiller k hk
  have hbefore := ((htiles.covers List.drop_zero (Nat.zero_le _)).of_seam ht hu).1
  rw [← List.singleton_append, ← List.append_assoc] at htiles
  have hplace : nestingAt (separate source) k = ⟨.code, Token.depthAfter 0 (before ++ [t])⟩ :=
    htiles.over_take (commentless_separate hcomment) (Nat.zero_le k) hbefore hu
  rw [nestingAt_separate hcomment] at hplace
  exact ⟨hgap, congrArg Nesting.mode hplace, fun hzero =>
    hdepth ((congrArg Nesting.depth hplace).symm.trans hzero)⟩

/-- No seam is inside of a token. -/
theorem eq_nil_of_inside {text : List Char} {start stop : Nat}
    (hcovers : Token.Covers text start stop ts)
    (hfiller : ∀ i, filler i ≠ [] → Lexeme.IsGap False (filler i) ∧ Token.InnerSeam ts i) :
    ∀ t ∈ ts, ∀ i, t.start < i → i < t.stop → filler i = [] := by
  intro x hx i hstart hstop
  refine Decidable.byContradiction fun hne => ?_
  obtain ⟨-, before, t, u, after, rfl, ht, hu, -⟩ := hfiller i hne
  obtain ⟨hbefore, hafter⟩ := hcovers.of_seam ht hu
  rw [← List.singleton_append, ← List.append_assoc] at hx
  rcases List.mem_append.1 hx with hx | hx
  · have hle := hbefore x hx
    omega
  · have hle := hafter x hx
    omega

theorem parse_eq_meaning {tree : Tree (.branch .program)}
    (h : parseTree (separate source) = .ok tree) : parse source = tree.meaning := by
  unfold parse
  dsimp only
  rw [h]

/-- Gaps between the tokens of a program, inside of brackets, do not change it. They can be spaces,
line ends and comments with their line ends, in any number of places. -/
theorem parse_insertFrom {program : Node} (h : parse source = .ok program)
    (hcomment : commentless source = true)
    (hfiller : ∀ i, filler i ≠ [] → Lexeme.IsGap False (filler i) ∧
      Token.InnerSeam (delivered (separate source)) i) :
    ∃ program', parse (insertFrom filler 0 source) = .ok program' ∧
      program'.bare = program.bare := by
  obtain ⟨tree, htree, hmeaning⟩ := exists_tree_of_parse h
  have htokens : tree.tokens = delivered (separate source) :=
    (parseFrom_sound htree fun _ => trivial).1
  obtain ⟨ts, hts, htiles⟩ := parseFrom_tiles htree
  obtain rfl : tree.tokens = ts := hts
  rw [← htokens] at hfiller
  have hgaps : ∀ i, Lexeme.IsGap False (filler i) := by
    intro i
    by_cases hnone : filler i = []
    · rw [hnone]
      exact .nil
    · exact (hfiller i hnone).1
  have hlaid : separate (insertFrom filler 0 source) = insertFrom filler 0 (separate source) :=
    separateFrom_insertFrom rfl (fun _ => .refl _) (by decide) hcomment
      (fills_of_seams htiles hcomment hfiller)
  have hinside := eq_nil_of_inside (htiles.covers List.drop_zero (Nat.zero_le _)) hfiller
  obtain ⟨tree', htree', hbare⟩ := parseFrom_insertFrom htree (commentless_separate hcomment) hgaps
    hinside rfl 0
  rw [← hlaid] at htree'
  have hagree := Tree.meaning_agree hbare
  rw [hmeaning] at hagree
  rw [parse_eq_meaning htree']
  generalize tree'.meaning = result at hagree
  cases hagree with
  | ok hprogram => exact ⟨_, rfl, hprogram.symm⟩

/-- A pair of brackets over two lines, and another after them. -/
def bracketedLines : List Char := "print (1 +\n2) * 3\nprint [4]".toList

/-- A comment after the first number and a tab before the first closing bracket. -/
def bracketFiller (i : Nat) : List Char :=
  if i = 8 then "# one\n\r\n".toList else if i = 12 then "\t".toList else []

theorem delivered_bracketedLines : (parse bracketedLines).isOk = true ∧
    delivered (separate bracketedLines) =
    [⟨.printKw, "print", 0⟩, ⟨.openRound, "(", 6⟩, ⟨.number, "1", 7⟩, ⟨.plus, "+", 9⟩,
      ⟨.number, "2", 11⟩, ⟨.closeRound, ")", 12⟩, ⟨.star, "*", 14⟩, ⟨.number, "3", 16⟩,
      ⟨.semicolon, ";", 17⟩, ⟨.printKw, "print", 18⟩, ⟨.openSquare, "[", 24⟩,
      ⟨.number, "4", 25⟩, ⟨.closeSquare, "]", 26⟩] := by
  decide +kernel

theorem innerSeam_bracketFiller {i : Nat} (hi : bracketFiller i ≠ []) :
    Lexeme.IsGap False (bracketFiller i) ∧
      Token.InnerSeam (delivered (separate bracketedLines)) i := by
  rw [delivered_bracketedLines.2]
  rw [bracketFiller] at hi ⊢
  split at hi
  · next hplace =>
    subst hplace
    have hcomment : Lexeme.IsGap False ('#' :: (" one".toList ++ '\n' :: ['\r', '\n'])) :=
      .comment (by decide) (.space rfl (.space rfl .nil))
    exact ⟨hcomment, [⟨.printKw, "print", 0⟩, ⟨.openRound, "(", 6⟩], _, _, _, rfl, by decide,
      by decide, by decide⟩
  split at hi
  · next hplace =>
    subst hplace
    exact ⟨.space rfl .nil, [⟨.printKw, "print", 0⟩, ⟨.openRound, "(", 6⟩, ⟨.number, "1", 7⟩,
      ⟨.plus, "+", 9⟩], _, _, _, rfl, by decide, by decide, by decide⟩
  · exact absurd rfl hi

theorem parse_insertFrom_bracketedLines :
    commentless bracketedLines = true ∧ bracketFiller 8 ≠ [] ∧ bracketFiller 12 ≠ [] ∧
      ∃ program program', parse bracketedLines = .ok program ∧
        parse (insertFrom bracketFiller 0 bracketedLines) = .ok program' ∧
        program'.bare = program.bare := by
  obtain ⟨program, hprogram⟩ := exists_of_isOk delivered_bracketedLines.1
  obtain ⟨program', hinserted⟩ := parse_insertFrom hprogram (by decide)
    fun i => innerSeam_bracketFiller
  exact ⟨by decide, by decide, by decide, program, program', hprogram, hinserted⟩

end Source

end Mandate
