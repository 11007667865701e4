/-
  Mandate.Proofs.ProgramLines

  A program after the lines of another one.

    * `settle_semicolon`: where a text could end as a program, a semicolon can be read
      instead, and what has been read becomes a line.
    * `parseFrom_semicolons`: with spaces and semicolons after it, a program is the lines
      that start a longer one.
    * `Grafts lines`: a stack with lines under it that the other one lacks. The
      two are in states that differ only in what is done when a line or the program is
      complete (`ItemSet.Twin`).
    * `parseFrom_joins`: what is a program by itself is read as the rest of a program
      after some lines, and its expressions come after theirs.
-/

import Mandate.Proofs.TokenCoverage

namespace Mandate

open ItemSet (start)

/-! ## What is checked of the states -/

namespace ItemSet

/-- What can be read of a line, one part after the other. -/
def lineParts : List (List Symbol) :=
  [[], [.branch .expression], [.leaf .semicolon], [.branch .expression, .leaf .semicolon]]

/-- Whether a line or the program is complete. -/
def Action.endsLine : Action → Bool
  | .reduce p => p.lhs == .program || p.lhs == .lines
  | .shift => false

/-- The states that are reached by the parts of a line or of a program. They are checked together,
since every check computes the tables of the automaton. -/
theorem lines_checked :
    -- After all of a program, a semicolon can be read.
    (∀ p ∈ Production.all, p.lhs = .program →
      (p.rhs.foldl goto start).action .semicolon = some .shift) ∧
    -- After a line just that can come which can come after several, and the line is reduced.
    (∀ p ∈ Production.all, p.lhs = .lines →
      (p.rhs.foldl goto start).expected = (start.goto (.branch .lines)).expected ∧
      ∀ t ∈ (start.goto (.branch .lines)).expected,
        (p.rhs.foldl goto start).action t = some (.reduce p)) ∧
    -- No symbol that is read leaves lines to be begun.
    (∀ s ∈ Symbol.all, ∀ p ∈ Production.all, p.lhs = .lines → (entered s).has p 0 = false) ∧
    -- A part of a line at the start, and the same part after some lines.
    ∀ ss ∈ lineParts,
      (ss.foldl goto start).expected = (ss.foldl goto (start.goto (.branch .lines))).expected ∧
      (∀ t ∈ Terminal.all, ((ss.foldl goto start).action t).any Action.endsLine = true ∨
        (ss.foldl goto (start.goto (.branch .lines))).action t =
          (ss.foldl goto start).action t) ∧
      ∀ s ∈ Symbol.all, s ≠ .branch .lines → ss ++ [s] ∈ lineParts ∨
        (ss ++ [s]).foldl goto start =
          (ss ++ [s]).foldl goto (start.goto (.branch .lines)) := by
  decide +kernel

end ItemSet

/-! ## A semicolon instead of the end -/

namespace ItemSet

theorem close_zero : close 0 = ⟨0⟩ := by decide +kernel

/-- After what cannot be read in a state, nothing is left of it. -/
theorem reads_of_goto {q : ItemSet} {s : Symbol} (h : (q.goto s).bits ≠ 0) : q.reads s = true := by
  rw [reads, bne_iff_ne]
  intro hzero
  rw [goto, hzero, Nat.zero_shiftLeft, close_zero] at h
  exact h rfl

theorem bits_ne_zero_of_has {q : ItemSet} {p : Production} {d : Nat} (h : q.has p d = true) :
    q.bits ≠ 0 := by
  intro hzero
  rw [has, hzero, Nat.zero_testBit] at h
  cases h

/-- What can be at the end of a text can be at the end of a line, a program apart. -/
theorem follow_semicolon {n : Nonterminal} (hn : n ≠ .program) (h : .finish ∈ n.follow) :
    .semicolon ∈ n.follow := by
  revert h hn
  cases n <;> decide

theorem lookahead_semicolon {q : ItemSet} {p : Production} (hp : p.lhs ≠ .program)
    (h : .finish ∈ q.lookahead p) : .semicolon ∈ q.lookahead p := by
  unfold lookahead at h ⊢
  dsimp only at h ⊢
  split at h
  · next hassign =>
    rw [if_pos hassign]
    exact List.mem_filter.2 ⟨follow_semicolon hp (List.mem_filter.1 h).1, by decide⟩
  · next hassign =>
    rw [if_neg hassign]
    split at h
    · exact absurd (List.mem_filter.1 h).2 (by decide)
    · next hparam =>
      rw [if_neg hparam]
      exact follow_semicolon hp h

theorem mem_lookahead_of_action {q : ItemSet} {p : Production} {t : Terminal}
    (h : q.action t = some (.reduce p)) : t ∈ q.lookahead p := by
  unfold action at h
  split at h
  · cases h
  · obtain ⟨r, hr, heq⟩ := Option.map_eq_some_iff.1 h
    cases heq
    have ht := List.find?_some hr
    exact of_decide_eq_true ht

/-- Before a semicolon the same is reduced as before the end. -/
theorem Reachable.action_semicolon {q : ItemSet} {p : Production} (hq : q.Reachable)
    (h : q.action .finish = some (.reduce p)) (hp : p.lhs ≠ .program) :
    q.action .semicolon = some (.reduce p) := by
  have htakes : p.takes .semicolon = false := by cases p <;> rfl
  exact hq.action_of_lookahead (has_of_action h)
    (lookahead_semicolon hp (mem_lookahead_of_action h)) htakes

end ItemSet

/-- The state a stack leads to is reached by reading what is on it, unless it has no items. -/
theorem Stack.reachable {q : ItemSet} (stack : Stack q) (h : q.bits ≠ 0) : q.Reachable := by
  induction stack with
  | bottom => exact .start
  | push below tree ih =>
    have hreads := ItemSet.reads_of_goto h
    refine .goto (ih fun hzero => ?_) hreads
    rw [ItemSet.reads, hzero, Nat.zero_and] at hreads
    cases hreads

/-- After a program that is complete but for its end, a semicolon can be read. -/
theorem ItemSet.action_foldl_semicolon {p : Production} (hp : p.lhs = .program) :
    (p.rhs.foldl goto start).action .semicolon = some .shift :=
  lines_checked.1 p p.mem_all hp

theorem Tree.expressions_node {p : Production} (hp : p.lhs ≠ .expression)
    (children : Forest p.rhs) : (Tree.node p children).expressions = children.expressions := by
  rw [Tree.expressions, dif_neg hp]

theorem Tree.program_node {p : Production} (hp : p.lhs = .program) (children : Forest p.rhs) :
    (hp ▸ Tree.node p children : Tree (.branch .program)).expressions = children.expressions ∧
      (hp ▸ Tree.node p children : Tree (.branch .program)).tokens = children.tokens := by
  have key : ∀ {n : Nonterminal} (h : p.lhs = n), n ≠ .expression →
      (h ▸ Tree.node p children : Tree (.branch n)).expressions = children.expressions ∧
        (h ▸ Tree.node p children : Tree (.branch n)).tokens = children.tokens := by
    rintro _ rfl hn
    exact ⟨Tree.expressions_node hn children, rfl⟩
  exact key hp (by decide)

/-- A stack of the parts of a program can end as the program. -/
theorem settle_program {p : Production} (hp : p.lhs = .program) (children : Forest p.rhs) :
    settle .finish (Stack.bottom.pushAll children).2 =
      .accept (hp ▸ .node p children) rfl := by
  have hfollow : start.MayFollow p.lhs .finish := hp ▸ ItemSet.mayFollow_program _
  have htakes : p.takes .finish = false := by cases p <;> rfl
  have haction := ItemSet.action_of_mayFollow .start (ItemSet.start_has hp) hfollow htakes
  rw [← Stack.bottom.pushAll_fst children] at haction
  obtain ⟨hw, hpop⟩ := Stack.pop_pushAll (ItemSet.has_of_action haction)
  exact settle_eq_accept haction hpop hp

/-- Where a text could end as a program, a semicolon is read after all of the program. -/
theorem settle_semicolon {q : ItemSet} {stack : Stack q} {tree : Tree (.branch .program)}
    {hfinish : Terminal.finish = .finish} (h : settle .finish stack = .accept tree hfinish) :
    ∃ (p : Production) (_ : p.lhs = .program) (children : Forest p.rhs) (r : ItemSet)
      (below : Stack r) (hreads : r.reads (.leaf .semicolon) = true),
      tree.expressions = children.expressions ∧ tree.tokens = children.tokens ∧
      Stack.bottom.pushAll children = ⟨r, below⟩ ∧
      settle .semicolon stack = .shift below hreads := by
  induction q, stack using settle.induct .finish with
  | case1 q stack haction =>
    rw [settle_eq_reject haction] at h
    cases h
  | case2 q stack haction =>
    rw [settle_eq_shift haction] at h
    cases h
  | case3 q stack p haction state below children hw hpop hp =>
    rw [settle_eq_accept haction hpop hp] at h
    obtain ⟨hstart, hback⟩ := Stack.pop_eq hpop
    cases below with
    | bottom =>
      have hshift := ItemSet.action_foldl_semicolon hp
      rw [← Stack.bottom.pushAll_fst children, hback] at hshift
      cases h
      obtain ⟨hexpressions, htokens⟩ := Tree.program_node hp children
      exact ⟨p, hp, children, q, stack, _, hexpressions, htokens, hback, settle_eq_shift hshift⟩
    | push below tree =>
      rw [ItemSet.not_has_program hp] at hstart
      cases hstart
  | case4 q stack p haction state below children hw hpop hp ih =>
    rw [settle_eq_settle haction hpop hp] at h
    have hq := stack.reachable (ItemSet.bits_ne_zero_of_has (ItemSet.has_of_action haction))
    rw [settle_eq_settle (hq.action_semicolon haction hp) hpop hp]
    exact ih h

/-! ## Lines -/

/-- No other fixed text starts with a semicolon. -/
theorem Lexeme.scan_semicolon {allowed : List Terminal} (h : .semicolon ∈ allowed)
    (cs : List Char) : scan allowed (';' :: cs) = some (.token .semicolon 1) := by
  have hmem : Terminal.semicolon ∈ fixed allowed := by
    refine List.mem_filter.2 ⟨h, ?_⟩
    rw [show Terminal.semicolon.isKeyword = false from rfl, Bool.and_false]
    rfl
  have hother : ∀ u, u ≠ Terminal.semicolon → fixedLength u (';' :: cs) < 1 := by
    intro u hu
    have hhead : u.text.toList.head? ≠ some ';' := by
      revert hu
      cases u <;> decide +kernel
    unfold fixedLength
    split
    · next hfront =>
      obtain ⟨rest, hrest⟩ := List.isPrefixOf_iff_prefix.1 hfront
      cases htext : u.text.toList with
      | nil =>
        rw [← String.length_toList, htext]
        exact Nat.one_pos
      | cons c w =>
        rw [htext] at hrest hhead
        exact absurd (congrArg some (List.cons.inj hrest).1) hhead
    · exact Nat.one_pos
  rw [scan_of_mark rfl rfl (by decide) rfl (by decide), longestFixed_eq hmem rfl (by decide) hother]
  rfl

theorem Lexeme.isGap_of_spaces {atEnd : Prop} {gap : List Char}
    (h : ∀ c ∈ gap, isSpace c = true) : IsGap atEnd gap := by
  induction gap with
  | nil => exact .nil
  | cons c gap ih =>
    rw [List.forall_mem_cons] at h
    exact .space h.1 (ih h.2)

section Lines

variable {offset : Nat} {cs : List Char} {q : ItemSet} {stack : Stack q}
  {tree : Tree (.branch .program)}

/-- Only what becomes of a stack before the terminals expected counts. -/
theorem parseFrom_of_settle {r : ItemSet} {other : Stack r} (hexpected : q.expected = r.expected)
    (hsettle : ∀ t ∈ r.expected, settle t stack = settle t other)
    (h : parseFrom offset cs other = .ok tree) : parseFrom offset cs stack = .ok tree := by
  induction cs using Lexeme.gapInduction generalizing offset with
  | nil =>
    have hother := settle_of_parseFrom h
    have hmem : Terminal.finish ∈ r.expected := by
      refine ItemSet.mem_expected fun hnone => ?_
      rw [settle_eq_reject hnone] at hother
      cases hother
    exact parseFrom_eq_ok ((hsettle _ hmem).trans hother)
  | gap gap cs hgap ih =>
    rw [hgap.skip (f := (parseFrom · · other)) (fun _ _ _ => parseFrom_eq_gap)] at h
    rw [hgap.skip (f := (parseFrom · · stack)) (fun _ _ _ => parseFrom_eq_gap)]
    exact ih h
  | lexeme c cs hspace hcomment ih =>
    obtain ⟨t, n, s, below, hreads, hscan, hother, hrest⟩ := shift_of_parseFrom hspace hcomment h
    have hshift := (hsettle t (mem_expected_of_settle hother)).trans hother
    rw [← hexpected] at hscan
    rw [parseFrom_eq_shift (List.cons_ne_nil c cs) hscan hshift]
    exact hrest

/-- After a line, just that can come which can come after several. -/
theorem ItemSet.foldl_lines {p : Production} (hp : p.lhs = .lines) :
    (p.rhs.foldl goto start).expected = (start.goto (.branch .lines)).expected ∧
      ∀ t ∈ (start.goto (.branch .lines)).expected,
        (p.rhs.foldl goto start).action t = some (.reduce p) :=
  lines_checked.2.1 p p.mem_all hp

/-- Where a right side has been put on a stack and is reduced, its left side can be put there
instead. -/
theorem settle_pushAll (stack : Stack q) {t : Terminal} {p : Production} (children : Forest p.rhs)
    (haction : (p.rhs.foldl ItemSet.goto q).action t = some (.reduce p)) (hp : p.lhs ≠ .program) :
    settle t (stack.pushAll children).2 = settle t (stack.push (.node p children)) := by
  rw [← stack.pushAll_fst children] at haction
  obtain ⟨hw, hpop⟩ := Stack.pop_pushAll (ItemSet.has_of_action haction)
  exact settle_eq_settle haction hpop hp

/-- The parts of some lines can be taken for the lines. -/
theorem settle_lines {t : Terminal} {p : Production} (hp : p.lhs = .lines) (children : Forest p.rhs)
    (ht : t ∈ (start.goto (.branch .lines)).expected) :
    settle t (Stack.bottom.pushAll children).2 =
      settle t (Stack.bottom.push (.node p children)) :=
  settle_pushAll .bottom children ((ItemSet.foldl_lines hp).2 t ht) (by rw [hp]; decide)

theorem parseFrom_lines {p : Production} (hp : p.lhs = .lines) (children : Forest p.rhs)
    (h : parseFrom offset cs (Stack.bottom.push (.node p children)) = .ok tree) :
    parseFrom offset cs (Stack.bottom.pushAll children).2 = .ok tree := by
  have hexpected : (start.goto (.branch p.lhs)).expected = (start.goto (.branch .lines)).expected := by
    rw [hp]
  refine parseFrom_of_settle ?_ (fun t ht => settle_lines hp children (hexpected ▸ ht)) h
  rw [Stack.bottom.pushAll_fst children, (ItemSet.foldl_lines hp).1, hexpected]

/-- Each way to complete a program has its way to complete a line. -/
theorem exists_lines {p : Production} (hp : p.lhs = .program) (children : Forest p.rhs)
    (semicolon : Tree (.leaf .semicolon)) :
    ∃ lines : Tree (.branch .lines), lines.expressions = children.expressions ∧
      lines.tokens = children.tokens ++ semicolon.tokens ∧
      ∀ offset cs program, parseFrom offset cs (Stack.bottom.push lines) = .ok program →
        parseFrom offset cs ((Stack.bottom.pushAll children).2.push semicolon) = .ok program := by
  have hleaf : semicolon.expressions = [] := by
    cases semicolon
    rfl
  cases p with
  | programLinesLast =>
    cases children with | cons lines children
    cases children with | cons e children
    cases children
    refine ⟨.node .linesMoreExpression (.cons lines (.cons e (.cons semicolon .nil))), ?_, ?_,
      fun _ _ _ => parseFrom_lines rfl _⟩
    · refine (Tree.expressions_node (by decide) _).trans ?_
      simp [Forest.expressions, hleaf]
    · simp [Tree.tokens, Forest.tokens]
  | programLines =>
    cases children with | cons lines children
    cases children
    refine ⟨.node .linesMoreBlank (.cons lines (.cons semicolon .nil)), ?_, ?_,
      fun _ _ _ => parseFrom_lines rfl _⟩
    · refine (Tree.expressions_node (by decide) _).trans ?_
      simp [Forest.expressions, hleaf]
    · simp [Tree.tokens, Forest.tokens]
  | programLast =>
    cases children with | cons e children
    cases children
    refine ⟨.node .linesExpression (.cons e (.cons semicolon .nil)), ?_, ?_,
      fun _ _ _ => parseFrom_lines rfl _⟩
    · refine (Tree.expressions_node (by decide) _).trans ?_
      simp [Forest.expressions, hleaf]
    · simp [Tree.tokens, Forest.tokens]
  | programEmpty =>
    cases children
    refine ⟨.node .linesBlank (.cons semicolon .nil), ?_, ?_, fun _ _ _ => parseFrom_lines rfl _⟩
    · refine (Tree.expressions_node (by decide) _).trans ?_
      simp [Forest.expressions, hleaf]
    · simp [Tree.tokens, Forest.tokens]
  | _ => cases hp

/-- With a semicolon after it, a program is lines. -/
theorem parseFrom_semicolon {hfinish : Terminal.finish = .finish}
    (h : settle .finish stack = .accept tree hfinish) (offset : Nat) :
    ∃ lines : Tree (.branch .lines), lines.expressions = tree.expressions ∧
      (∃ ts, lines.tokens = tree.tokens ++ ts) ∧
      ∀ cs program, parseFrom (offset + 1) cs (Stack.bottom.push lines) = .ok program →
        parseFrom offset (';' :: cs) stack = .ok program := by
  obtain ⟨p, hp, children, r, below, hreads, hexpressions, htokens, hbelow, hsettle⟩ :=
    settle_semicolon h
  obtain ⟨lines, hlines, hmore, hparse⟩ := exists_lines hp children (.leaf .semicolon ";" offset)
  rw [hbelow] at hparse
  refine ⟨lines, hlines.trans hexpressions.symm, ⟨_, htokens ▸ hmore⟩, fun cs program hprogram => ?_⟩
  have hscan := Lexeme.scan_semicolon (mem_expected_of_settle hsettle) cs
  rw [parseFrom_eq_shift (List.cons_ne_nil _ cs) hscan hsettle]
  exact hparse _ cs program hprogram

/-- With spaces and at least one semicolon after it, a program is lines. -/
theorem parseFrom_semicolons {hfinish : Terminal.finish = .finish} {gap : List Char}
    (h : settle .finish stack = .accept tree hfinish)
    (hgap : ∀ c ∈ gap, Lexeme.isSpace c = true ∨ c = ';') (hmem : ';' ∈ gap) (offset : Nat) :
    ∃ lines : Tree (.branch .lines), lines.expressions = tree.expressions ∧
      (∃ ts, lines.tokens = tree.tokens ++ ts) ∧
      ∀ cs program,
        parseFrom (offset + gap.length) cs (Stack.bottom.push lines) = .ok program →
        parseFrom offset (gap ++ cs) stack = .ok program := by
  induction gap generalizing offset q tree with
  | nil => cases hmem
  | cons c gap ih =>
    rw [List.forall_mem_cons] at hgap
    have hoffset : offset + (c :: gap).length = offset + 1 + gap.length := by
      rw [List.length_cons]
      omega
    rw [hoffset]
    rcases hgap.1 with hspace | rfl
    · have hrest : ';' ∈ gap := by
        rcases List.mem_cons.1 hmem with rfl | hrest
        · cases hspace
        · exact hrest
      obtain ⟨lines, hexpressions, htokens, hparse⟩ := ih h hgap.2 hrest (offset + 1)
      refine ⟨lines, hexpressions, htokens, fun cs program hprogram => ?_⟩
      rw [List.cons_append, parseFrom_space stack offset (gap ++ cs) hspace]
      exact hparse cs program hprogram
    · obtain ⟨lines, hexpressions, ⟨ts, htokens⟩, hparse⟩ := parseFrom_semicolon h offset
      by_cases hrest : ';' ∈ gap
      · -- What has become lines is a program again, and the rest of the gap comes after it.
        let again : Forest Production.programLines.rhs := .cons lines .nil
        obtain ⟨hprogram, hyield⟩ := Tree.program_node rfl again
        obtain ⟨more, hmore, ⟨us, hus⟩, hagain⟩ :=
          ih (settle_program rfl again) hgap.2 hrest (offset + 1)
        have hlines : again.expressions = lines.expressions := List.append_nil _
        have hsame : again.tokens = lines.tokens := List.append_nil _
        refine ⟨more, ?_, ⟨ts ++ us, ?_⟩, fun cs program h => hparse _ program (hagain cs program h)⟩
        · rw [hmore, hprogram, hlines, hexpressions]
        · rw [hus, hyield, hsame, htokens, List.append_assoc]
      · refine ⟨lines, hexpressions, ⟨ts, htokens⟩, fun cs program hprogram => ?_⟩
        have hspaces : ∀ c ∈ gap, Lexeme.isSpace c = true := fun c hc =>
          (hgap.2 c hc).resolve_right fun heq => hrest (heq ▸ hc)
        refine hparse (gap ++ cs) program ?_
        rw [(Lexeme.isGap_of_spaces hspaces).skip (f := (parseFrom · · (Stack.bottom.push lines)))
          (fun _ _ _ => parseFrom_eq_gap)]
        exact hprogram

end Lines

/-! ## Lines under a stack -/

namespace ItemSet

/-- Lines are begun at the bottom of a stack only. -/
theorem not_has_lines {q : ItemSet} {s : Symbol} {p : Production} (hp : p.lhs = .lines) :
    (q.goto s).has p 0 = false := by
  rw [Bool.eq_false_iff]
  intro h
  have hentered : (entered s).has p 0 = true := testBit_entered h
  rw [lines_checked.2.2.1 s s.mem_all p p.mem_all hp] at hentered
  cases hentered

/-- Two states that are the same, or reached by the same part of a line, in one case at the start
and in the other one after some lines. -/
def Twin (q r : ItemSet) : Prop :=
  q = r ∨ ∃ ss ∈ lineParts,
    q = ss.foldl ItemSet.goto start ∧ r = ss.foldl ItemSet.goto (start.goto (.branch .lines))

namespace Twin

variable {q r : ItemSet}

theorem goto (h : Twin q r) {s : Symbol} (hs : s ≠ .branch .lines) :
    Twin (q.goto s) (r.goto s) := by
  rcases h with rfl | ⟨ss, hss, rfl, rfl⟩
  · exact .inl rfl
  · rcases (lines_checked.2.2.2 ss hss).2.2 s s.mem_all hs with hmem | heq
    · exact .inr ⟨_, hmem, by rw [List.foldl_append]; rfl, by rw [List.foldl_append]; rfl⟩
    · rw [List.foldl_append, List.foldl_append] at heq
      exact .inl heq

theorem expected_eq (h : Twin q r) : q.expected = r.expected := by
  rcases h with rfl | ⟨ss, hss, rfl, rfl⟩
  · rfl
  · exact (lines_checked.2.2.2 ss hss).1

/-- Unless a line or the program is complete, the same is done in both states. -/
theorem action_eq (h : Twin q r) {t : Terminal} {a : Action} (ha : q.action t = some a)
    (hline : a.endsLine = false) : r.action t = some a := by
  rcases h with rfl | ⟨ss, hss, rfl, rfl⟩
  · exact ha
  · rcases (lines_checked.2.2.2 ss hss).2.1 t t.mem_all with hends | heq
    · rw [ha, Option.any_some, hline] at hends
      cases hends
    · rw [heq, ha]

end Twin

end ItemSet

/-- A tree of any symbol. -/
abbrev AnyTree : Type := (s : Symbol) × Tree s

/-- The trees on a stack, the top one first. -/
def Stack.trees {q : ItemSet} : Stack q → List AnyTree
  | .bottom => []
  | .push below tree => ⟨_, tree⟩ :: below.trees

/-- The trees of a forest before some others, the last one of it first. -/
def Forest.onto {ss : List Symbol} : Forest ss → List AnyTree → List AnyTree
  | .nil, below => below
  | .cons head tail, below => tail.onto (⟨_, head⟩ :: below)

theorem Stack.trees_pushAll {q : ItemSet} (stack : Stack q) {ss : List Symbol}
    (forest : Forest ss) : (stack.pushAll forest).2.trees = forest.onto stack.trees := by
  induction ss generalizing q with
  | nil =>
    cases forest
    rfl
  | cons s ss ih =>
    cases forest with
    | cons head tail => exact ih (stack.push head) tail

/-- The stack of some trees. -/
def Stack.ofTrees : List AnyTree → (q : ItemSet) × Stack q
  | [] => ⟨_, .bottom⟩
  | tree :: below => ⟨_, (Stack.ofTrees below).2.push tree.2⟩

theorem Stack.ofTrees_trees {q : ItemSet} (stack : Stack q) :
    Stack.ofTrees stack.trees = ⟨q, stack⟩ := by
  induction stack with
  | bottom => rfl
  | push below tree ih => rw [trees, ofTrees, ih]

theorem Stack.ofTrees_onto {ss : List Symbol} (forest : Forest ss) (below : List AnyTree) :
    Stack.ofTrees (forest.onto below) = (Stack.ofTrees below).2.pushAll forest := by
  induction ss generalizing below with
  | nil =>
    cases forest
    rfl
  | cons s ss ih =>
    cases forest with
    | cons head tail => exact ih tail (⟨s, head⟩ :: below)

/-- A tree that has the expressions and tokens of some lines before those of another tree. -/
structure Tree.Joins (lines : Tree (.branch .lines)) {s : Symbol} (tree joined : Tree s) :
    Prop where
  expressions : joined.expressions = lines.expressions ++ tree.expressions
  tokens : joined.tokens = lines.tokens ++ tree.tokens

/-- The trees on a stack and those on a stack with some lines under them. Lines on the one stack
have become lines joined to these on the other. -/
inductive Grafts (lines : Tree (.branch .lines)) : List AnyTree → List AnyTree → Prop where
  | bottom : Grafts lines [] [⟨_, lines⟩]
  | joined {more joined : Tree (.branch .lines)} (h : Tree.Joins lines more joined) :
      Grafts lines [⟨_, more⟩] [⟨_, joined⟩]
  | push {s : Symbol} (tree : Tree s) (hs : s ≠ .branch .lines) {xs ys : List AnyTree}
      (h : Grafts lines xs ys) : Grafts lines (⟨s, tree⟩ :: xs) (⟨s, tree⟩ :: ys)

namespace Grafts

variable {lines : Tree (.branch .lines)} {xs ys : List AnyTree}

theorem twin_ofTrees (h : Grafts lines xs ys) :
    (Stack.ofTrees xs).1.Twin (Stack.ofTrees ys).1 := by
  induction h with
  | bottom => exact .inr ⟨[], List.mem_cons_self, rfl, rfl⟩
  | joined h => exact .inl rfl
  | push tree hs _ ih => exact ih.goto hs

theorem twin {q r : ItemSet} {stack : Stack q} {other : Stack r}
    (h : Grafts lines stack.trees other.trees) : q.Twin r := by
  have htwin := h.twin_ofTrees
  rw [stack.ofTrees_trees, other.ofTrees_trees] at htwin
  exact htwin

/-- Trees that are no lines are on both stacks. -/
theorem onto {ss : List Symbol} {forest : Forest ss} (h : Grafts lines (forest.onto xs) ys)
    (hss : .branch .lines ∉ ss) : ∃ zs, ys = forest.onto zs ∧ Grafts lines xs zs := by
  induction ss generalizing xs with
  | nil =>
    cases forest
    exact ⟨ys, rfl, h⟩
  | cons s ss ih =>
    rw [List.mem_cons, not_or] at hss
    cases forest with
    | cons head tail =>
      obtain ⟨zs, hys, hzs⟩ := ih h hss.2
      cases hzs with
      | joined hjoined => exact absurd rfl hss.1
      | push _ _ hzs => exact ⟨_, hys, hzs⟩

theorem of_lines {n m : Nonterminal} (hn : n = .lines) (hm : m = .lines) {tree : Tree (.branch n)}
    {joined : Tree (.branch m)}
    (hexpressions : joined.expressions = lines.expressions ++ tree.expressions)
    (htokens : joined.tokens = lines.tokens ++ tree.tokens) :
    Grafts lines [⟨_, tree⟩] [⟨_, joined⟩] := by
  subst hn hm
  exact .joined ⟨hexpressions, htokens⟩

/-- To the parts of a line or a program on the one stack, the lines are joined on the other. -/
theorem parts {p : Production} (hp : p.lhs = .program ∨ p.lhs = .lines) {children : Forest p.rhs}
    (h : Grafts lines (children.onto []) ys) :
    ∃ (r : Production) (joined : Forest r.rhs), r.lhs = p.lhs ∧ ys = joined.onto [] ∧
      joined.expressions = lines.expressions ++ children.expressions ∧
      joined.tokens = lines.tokens ++ children.tokens := by
  cases p with
  | programEmpty =>
    cases children
    cases h
    exact ⟨.programLines, .cons lines .nil, rfl, rfl, rfl, rfl⟩
  | programLast =>
    cases children with | cons e children
    cases children
    cases h with | push _ _ h
    cases h
    exact ⟨.programLinesLast, .cons lines (.cons e .nil), rfl, rfl, rfl, rfl⟩
  | programLines =>
    cases children with | cons more children
    cases children
    cases h with
    | push _ hs _ => exact absurd rfl hs
    | @joined _ joined hjoined =>
      refine ⟨.programLines, .cons joined .nil, rfl, rfl, ?_, ?_⟩
      · simp [Forest.expressions, hjoined.expressions]
      · simp [Forest.tokens, hjoined.tokens]
  | programLinesLast =>
    cases children with | cons more children
    cases children with | cons e children
    cases children
    cases h with | push _ _ h
    cases h with
    | push _ hs _ => exact absurd rfl hs
    | @joined _ joined hjoined =>
      refine ⟨.programLinesLast, .cons joined (.cons e .nil), rfl, rfl, ?_, ?_⟩
      · simp [Forest.expressions, hjoined.expressions]
      · simp [Forest.tokens, hjoined.tokens]
  | linesBlank =>
    cases children with | cons semicolon children
    cases children
    cases h with | push _ _ h
    cases h
    exact ⟨.linesMoreBlank, .cons lines (.cons semicolon .nil), rfl, rfl, rfl, rfl⟩
  | linesExpression =>
    cases children with | cons e children
    cases children with | cons semicolon children
    cases children
    cases h with | push _ _ h
    cases h with | push _ _ h
    cases h
    exact ⟨.linesMoreExpression, .cons lines (.cons e (.cons semicolon .nil)), rfl, rfl, rfl, rfl⟩
  | linesMoreBlank =>
    cases children with | cons more children
    cases children with | cons semicolon children
    cases children
    cases h with | push _ _ h
    cases h with
    | push _ hs _ => exact absurd rfl hs
    | @joined _ joined hjoined =>
      refine ⟨.linesMoreBlank, .cons joined (.cons semicolon .nil), rfl, rfl, ?_, ?_⟩
      · simp [Forest.expressions, hjoined.expressions]
      · simp [Forest.tokens, hjoined.tokens]
  | linesMoreExpression =>
    cases children with | cons more children
    cases children with | cons e children
    cases children with | cons semicolon children
    cases children
    cases h with | push _ _ h
    cases h with | push _ _ h
    cases h with
    | push _ hs _ => exact absurd rfl hs
    | @joined _ joined hjoined =>
      refine ⟨.linesMoreExpression, .cons joined (.cons e (.cons semicolon .nil)), rfl, rfl, ?_, ?_⟩
      · simp [Forest.expressions, hjoined.expressions]
      · simp [Forest.tokens, hjoined.tokens]
  | _ => rcases hp with hp | hp <;> cases hp

end Grafts

/-- The trees on a stack tell what the stack is. -/
theorem Stack.pushAll_of_trees {q r : ItemSet} {stack : Stack q} {other : Stack r}
    {ss : List Symbol} {forest : Forest ss} (h : other.trees = forest.onto stack.trees) :
    stack.pushAll forest = ⟨r, other⟩ := by
  rw [← other.ofTrees_trees, h, Stack.ofTrees_onto, stack.ofTrees_trees]

theorem Stack.trees_ofTrees (xs : List AnyTree) : (Stack.ofTrees xs).2.trees = xs := by
  induction xs with
  | nil => rfl
  | cons tree below ih => rw [ofTrees, trees, ih]

/-- What becomes of a stack and of a stack with some lines under it. -/
inductive Settled.Grafts (lines : Tree (.branch .lines)) {t : Terminal} :
    Settled t → Settled t → Prop where
  | shift {q r : ItemSet} {below : Stack q} {other : Stack r} {hq : q.reads (.leaf t) = true}
      {hr : r.reads (.leaf t) = true} (h : Mandate.Grafts lines below.trees other.trees) :
      Grafts lines (.shift below hq) (.shift other hr)
  | accept {tree joined : Tree (.branch .program)} {hfinish : t = .finish}
      (h : Tree.Joins lines tree joined) : Grafts lines (.accept tree hfinish) (.accept joined hfinish)
  | reject {q : ItemSet} {other : Settled t} : Grafts lines (.reject q) other

theorem Production.lines_not_mem {p : Production} (hprogram : p.lhs ≠ .program)
    (hlines : p.lhs ≠ .lines) : .branch .lines ∉ p.rhs := by
  have key : ∀ p ∈ Production.all, p.lhs ≠ .program → p.lhs ≠ .lines →
      .branch .lines ∉ p.rhs := by decide +kernel
  exact key p p.mem_all hprogram hlines

theorem Tree.Joins.program {lines : Tree (.branch .lines)} {p r : Production}
    {children : Forest p.rhs} {joined : Forest r.rhs} (hp : p.lhs = .program)
    (hr : r.lhs = .program)
    (hexpressions : joined.expressions = lines.expressions ++ children.expressions)
    (htokens : joined.tokens = lines.tokens ++ children.tokens) :
    Tree.Joins lines (hp ▸ Tree.node p children : Tree (.branch .program)) (hr ▸ Tree.node r joined) := by
  obtain ⟨hpe, hpt⟩ := Tree.program_node hp children
  obtain ⟨hre, hrt⟩ := Tree.program_node hr joined
  exact ⟨by rw [hre, hpe, hexpressions], by rw [hrt, hpt, htokens]⟩

section Grafts

variable {lines : Tree (.branch .lines)} {r : ItemSet} {other : Stack r}

theorem settle_grafts_program {p : Production} (hp : p.lhs = .program) {children : Forest p.rhs}
    (h : Grafts lines (children.onto []) other.trees) :
    ∃ joined, settle .finish other = .accept joined rfl ∧
      Tree.Joins lines (hp ▸ Tree.node p children : Tree (.branch .program)) joined := by
  obtain ⟨p', joined, hp', htrees, hexpressions, htokens⟩ := h.parts (.inl hp)
  have hprogram := settle_program (hp'.trans hp) joined
  rw [Stack.pushAll_of_trees htrees] at hprogram
  exact ⟨_, hprogram, .program hp (hp'.trans hp) hexpressions htokens⟩

theorem settle_grafts_lines {t : Terminal} {p : Production} (hp : p.lhs = .lines)
    {children : Forest p.rhs} (h : Grafts lines (children.onto []) other.trees)
    (ht : t ∈ (start.goto (.branch .lines)).expected) :
    ∃ (n : Nonterminal) (joined : Tree (.branch n)),
      settle t other = settle t (Stack.bottom.push joined) ∧
      Grafts lines [⟨_, .node p children⟩] [⟨_, joined⟩] := by
  obtain ⟨p', joined, hp', htrees, hexpressions, htokens⟩ := h.parts (.inr hp)
  have hlines := settle_lines (hp'.trans hp) joined ht
  rw [Stack.pushAll_of_trees htrees] at hlines
  refine ⟨_, .node p' joined, hlines, .of_lines hp (hp'.trans hp) ?_ htokens⟩
  rw [Tree.expressions_node (by rw [hp', hp]; decide), Tree.expressions_node (by rw [hp]; decide),
    hexpressions]

/-- Under the same lookahead, a stack and the one with the lines under it settle alike. -/
theorem settle_grafts (lines : Tree (.branch .lines)) (t : Terminal) {q r : ItemSet}
    (stack : Stack q) {other : Stack r} (h : Grafts lines stack.trees other.trees) :
    (settle t stack).Grafts lines (settle t other) := by
  induction q, stack using settle.induct t generalizing r with
  | case1 q stack haction =>
    rw [settle_eq_reject haction]
    exact .reject
  | case2 q stack haction =>
    rw [settle_eq_shift haction, settle_eq_shift (h.twin.action_eq haction rfl)]
    exact .shift h
  | case3 q stack p haction state below children hw hpop hp =>
    -- A program is complete only on the bottom of the stack, with nothing under it.
    obtain rfl := ItemSet.eq_finish_of_action haction hp
    rw [settle_eq_accept haction hpop hp]
    obtain ⟨hstart, hback⟩ := Stack.pop_eq hpop
    cases below with
    | push below tree =>
      rw [ItemSet.not_has_program hp] at hstart
      cases hstart
    | bottom =>
      have htrees := Stack.bottom.trees_pushAll children
      rw [hback] at htrees
      dsimp only at htrees
      rw [htrees] at h
      obtain ⟨joined, haccept, hjoins⟩ := settle_grafts_program hp h
      rw [haccept]
      exact .accept hjoins
  | case4 q stack p haction state below children hw hpop hp ih =>
    obtain ⟨hstart, hback⟩ := Stack.pop_eq hpop
    have htrees := below.trees_pushAll children
    rw [hback] at htrees
    dsimp only at htrees
    rw [settle_eq_settle haction hpop hp]
    by_cases hlines : p.lhs = .lines
    -- Lines are where the two productions differ: the other stack has lines already.
    · cases below with
      | push below tree =>
        rw [ItemSet.not_has_lines hlines] at hstart
        cases hstart
      | bottom =>
        have hexpected : t ∈ (start.goto (.branch .lines)).expected := by
          have hstate := Stack.bottom.pushAll_fst children
          rw [hback] at hstate
          dsimp only at hstate
          rw [← (ItemSet.foldl_lines hlines).1, ← hstate]
          exact ItemSet.mem_expected (by rw [haction]; exact Option.some_ne_none _)
        rw [htrees] at h
        obtain ⟨n, joined, hsettle, hgrafts⟩ := settle_grafts_lines hlines h hexpected
        rw [hsettle]
        exact ih hgrafts
    -- Any other production is above the graft, and both stacks reduce by it.
    · have haction' := h.twin.action_eq haction (by simp [ItemSet.Action.endsLine, hp, hlines])
      rw [htrees] at h
      obtain ⟨zs, hother, hzs⟩ := h.onto (Production.lines_not_mem hp hlines)
      rw [← Stack.trees_ofTrees zs] at hother hzs
      have hpush := Stack.pushAll_of_trees hother
      have hstate := (Stack.ofTrees zs).2.pushAll_fst children
      rw [hpush] at hstate
      dsimp only at hstate
      rw [hstate] at haction'
      have hreduce := settle_pushAll (Stack.ofTrees zs).2 children haction' hp
      rw [hpush] at hreduce
      rw [hreduce]
      exact ih (.push _ (fun hs => hlines (Symbol.branch.inj hs)) hzs)

/-- What is a program after the trees on a stack is joined to the lines under another one. -/
theorem parseFrom_grafts {offset : Nat} {cs : List Char} {q : ItemSet} {stack : Stack q}
    {tree : Tree (.branch .program)} (h : parseFrom offset cs stack = .ok tree)
    (hgrafts : Grafts lines stack.trees other.trees) :
    ∃ joined, parseFrom offset cs other = .ok joined ∧ Tree.Joins lines tree joined := by
  induction cs using Lexeme.gapInduction generalizing offset q r with
  | nil =>
    have hsettled := settle_grafts lines .finish stack hgrafts
    rw [settle_of_parseFrom h] at hsettled
    generalize hother : settle .finish other = settled at hsettled
    cases hsettled with
    | accept hjoins => exact ⟨_, parseFrom_eq_ok hother, hjoins⟩
  | gap gap cs hgap ih =>
    rw [hgap.skip (f := (parseFrom · · stack)) (fun _ _ _ => parseFrom_eq_gap)] at h
    rw [hgap.skip (f := (parseFrom · · other)) (fun _ _ _ => parseFrom_eq_gap)]
    exact ih h hgrafts
  | lexeme c cs hspace hcomment ih =>
    obtain ⟨t, n, s, below, hreads, hscan, hsettle, hrest⟩ := shift_of_parseFrom hspace hcomment h
    have hsettled := settle_grafts lines t stack hgrafts
    rw [hsettle] at hsettled
    generalize hother : settle t other = settled at hsettled
    cases hsettled with
    | shift hbelow =>
      rw [hgrafts.twin.expected_eq] at hscan
      rw [parseFrom_eq_shift (List.cons_ne_nil c cs) hscan hother]
      exact ih n (Lexeme.scan_length_ne_zero hscan) hrest (.push _ Symbol.noConfusion hbelow)

/-- What is a program by itself can come after lines. -/
theorem parseFrom_joins {offset : Nat} {cs : List Char} {tree : Tree (.branch .program)}
    (h : parseFrom offset cs Stack.bottom = .ok tree) (lines : Tree (.branch .lines)) :
    ∃ joined, parseFrom offset cs (Stack.bottom.push lines) = .ok joined ∧
      Tree.Joins lines tree joined :=
  parseFrom_grafts h .bottom

end Grafts

/-! ## The meaning of a program -/

theorem exists_of_mapM_append {ε α β : Type} {f : α → Except ε β} {xs ys : List α} {zs : List β}
    (h : (xs ++ ys).mapM f = .ok zs) :
    ∃ as bs, xs.mapM f = .ok as ∧ ys.mapM f = .ok bs ∧ zs = as ++ bs := by
  rw [List.mapM_append] at h
  cases hxs : xs.mapM f with
  | error e =>
    rw [hxs] at h
    cases h
  | ok as =>
    cases hys : ys.mapM f with
    | error e =>
      rw [hxs, hys] at h
      cases h
    | ok bs =>
      rw [hxs, hys] at h
      cases h
      exact ⟨as, bs, rfl, rfl, rfl⟩

theorem exists_of_mapM_cons {ε α β : Type} {f : α → Except ε β} {x : α} {xs : List α}
    {zs : List β} (h : (x :: xs).mapM f = .ok zs) :
    ∃ y ys, f x = .ok y ∧ xs.mapM f = .ok ys ∧ zs = y :: ys := by
  rw [List.mapM_cons] at h
  cases hx : f x with
  | error e =>
    rw [hx] at h
    cases h
  | ok y =>
    cases hxs : xs.mapM f with
    | error e =>
      rw [hx, hxs] at h
      cases h
    | ok ys =>
      rw [hx, hxs] at h
      cases h
      exact ⟨y, ys, rfl, rfl, rfl⟩

/-- Whether a symbol has a meaning as soon as the outermost expressions in its tree have one. -/
def Symbol.gathers : Symbol → Bool
  | .leaf _ => true
  | .branch n => [.program, .lines, .expression].contains n

theorem Production.gathers_rhs {p : Production} (hp : Symbol.gathers (.branch p.lhs) = true)
    (hne : p.lhs ≠ .expression) : ∀ s ∈ p.rhs, s.gathers = true := by
  have key : ∀ p ∈ Production.all, Symbol.gathers (.branch p.lhs) = true → p.lhs ≠ .expression →
      ∀ s ∈ p.rhs, s.gathers = true := by decide +kernel
  exact key p p.mem_all hp hne

/-- A line and a program can be made of any expressions. -/
theorem Production.exists_build {p : Production} (hp : Symbol.gathers (.branch p.lhs) = true)
    (hne : p.lhs ≠ .expression) (span : Span) (ms : Meanings p.rhs) :
    ∃ m, p.build span ms = .ok m := by
  cases p with
  | programEmpty =>
    cases ms
    exact ⟨_, rfl⟩
  | programLast | programLines | linesBlank =>
    cases ms with | cons _ ms
    cases ms
    exact ⟨_, rfl⟩
  | programLinesLast | linesExpression | linesMoreBlank =>
    cases ms with | cons _ ms
    cases ms with | cons _ ms
    cases ms
    exact ⟨_, rfl⟩
  | linesMoreExpression =>
    cases ms with | cons _ ms
    cases ms with | cons _ ms
    cases ms with | cons _ ms
    cases ms
    exact ⟨_, rfl⟩
  | expressionInstruction | expressionLogic => exact absurd rfl hne
  | _ => cases hp

theorem Tree.meaning_cast {n m : Nonterminal} (h : n = m) {tree : Tree (.branch n)}
    (hmeaning : ∃ x, (h ▸ tree : Tree (.branch m)).meaning = .ok x) :
    ∃ x, tree.meaning = .ok x := by
  subst h
  exact hmeaning

mutual

theorem Tree.exists_meaning {s : Symbol} : (tree : Tree s) → {es : List Node} →
    s.gathers = true → tree.listed = .ok es → ∃ m, tree.meaning = .ok m
  | .leaf t text start, _, _, _ => ⟨_, rfl⟩
  | .node p children, es, hs, h => by
    rw [Tree.listed, Tree.expressions] at h
    split at h
    · next hp =>
      obtain ⟨m, -, hm, -⟩ := exists_of_mapM_cons h
      exact Tree.meaning_cast hp ⟨m, hm⟩
    · next hp =>
      obtain ⟨ms, hms⟩ := children.exists_meanings (Production.gathers_rhs hs hp) h
      rw [Tree.meaning, hms]
      exact Production.exists_build hs hp children.span ms

theorem Forest.exists_meanings {ss : List Symbol} : (forest : Forest ss) → {es : List Node} →
    (∀ s ∈ ss, s.gathers = true) → forest.listed = .ok es → ∃ ms, forest.meanings = .ok ms
  | .nil, _, _, _ => ⟨_, rfl⟩
  | .cons head tail, es, hss, h => by
    rw [List.forall_mem_cons] at hss
    rw [Forest.listed, Forest.expressions] at h
    obtain ⟨as, bs, hhead, htail, -⟩ := exists_of_mapM_append h
    obtain ⟨m, hm⟩ := head.exists_meaning hss.1 hhead
    obtain ⟨ms, hms⟩ := tail.exists_meanings hss.2 htail
    rw [Forest.meanings, hm, hms]
    exact ⟨_, rfl⟩

end

/-- A program stands for what its outermost expressions stand for. -/
theorem Tree.meaning_of_listed {tree : Tree (.branch .program)} {es : List Node}
    (h : tree.listed = .ok es) : tree.meaning = .ok (Node.ofExpressions es tree.span) := by
  obtain ⟨program, hprogram⟩ := tree.exists_meaning rfl h
  obtain ⟨ds, hds, rfl⟩ : ∃ ds, tree.listed = .ok ds ∧ program = Node.ofExpressions ds tree.span :=
    tree.meaning_runs hprogram
  cases h.symm.trans hds
  exact hprogram

end Mandate
