/-
  Mandate.Proofs.ParserStates

  The states that the parser can be in.

    * `ItemSet.Reachable`: the states that reading symbols leads to. There are
      finitely many; `ItemSet.allPass` walks through them, with those it has met in
      a search tree (`ItemSet.Met`), so what holds of each is found out by evaluating
      a check (`ItemSet.reachable_isSound`).
    * `ItemSet.MayFollow` is what can come after a nonterminal that is begun in a
      state: what follows it in the grammar, without the words that the state
      rules out (`ItemSet.mayFollow_of_after`).
    * `ItemSet.action_of_mayFollow`: a right side that was begun in one state and
      is complete in another is reduced on whatever may follow its left side. The
      exceptions are `Production.takes`: an `else` and a `|` that are read instead.
-/

import Mandate.Proofs.ParserSoundness

namespace Mandate

/-! ## What a symbol starts with -/

/-- The terminals a text of a nonterminal can start with. -/
def Nonterminal.firsts (n : Nonterminal) : List Terminal :=
  Terminal.all.filter fun t => ItemSet.corner n &&& ItemSet.before (.leaf t) != 0

/-- The terminals a text of a symbol can start with. -/
def Symbol.firsts : Symbol → List Terminal
  | .leaf t => [t]
  | .branch n => n.firsts

theorem Symbol.mem_all (s : Symbol) : s ∈ Symbol.all := by
  cases s with
  | leaf t => exact List.mem_append_left _ (List.mem_map_of_mem (Terminal.mem_all t))
  | branch n => exact List.mem_append_right _ (List.mem_map_of_mem (Nonterminal.mem_all n))

namespace Production

/-- The terminals that can come after the symbol at `d` of a right side. -/
def after (p : Production) (d : Nat) : List Terminal :=
  match p.rhs[d + 1]? with
  | some s => s.firsts
  | none => p.lhs.follow

/-- Whether a terminal right after a finished `p` is read as going on with it: an `else` belongs
to the nearest `if`, and a `|` after `input` opens a prompt. -/
def takes : Production → Terminal → Bool
  | .ifThen, .elseKw | .unaryInput, .bar => true
  | _, _ => false

theorem rhs_of_drop {p : Production} {d : Nat} {s : Symbol} {ss : List Symbol}
    (h : p.rhs.drop d = s :: ss) : p.rhs[d]? = some s ∧ p.rhs.drop (d + 1) = ss := by
  rw [← List.head?_drop, ← List.tail_drop, h]
  exact ⟨rfl, rfl⟩

/-- What comes after a nonterminal in a right side follows it in the grammar. -/
theorem after_subset {p : Production} {d : Nat} {n : Nonterminal}
    (h : p.rhs[d]? = some (.branch n)) {t : Terminal} (ht : t ∈ p.after d) : t ∈ n.follow := by
  have key : ∀ p ∈ Production.all, ∀ d < 7, ∀ n ∈ Nonterminal.all,
      p.rhs[d]? = some (.branch n) → ∀ t ∈ p.after d, t ∈ n.follow := by decide +kernel
  have hd := (List.getElem?_eq_some_iff.1 h).1
  have hlength := p.rhs_length_lt
  exact key p p.mem_all d (by omega) n n.mem_all h t ht

/-- What starts the first symbol of a right side starts the left side. -/
theorem firsts_subset {p : Production} {s : Symbol} (h : p.rhs[0]? = some s) {t : Terminal}
    (ht : t ∈ s.firsts) : t ∈ p.lhs.firsts := by
  have key : ∀ p ∈ Production.all, ∀ s ∈ p.rhs[0]?, ∀ t ∈ s.firsts, t ∈ p.lhs.firsts := by
    decide +kernel
  exact key p p.mem_all s h t ht

end Production

namespace ItemSet

/-! ## Checking every state -/

/-- A state that reading symbols leads to. -/
inductive Reachable : ItemSet → Prop where
  | start : Reachable start
  | goto {q : ItemSet} {s : Symbol} (h : Reachable q) (hs : q.reads s = true) :
      Reachable (q.goto s)

/-- States that were met before: a search tree by their bits. -/
inductive Met where
  | none
  | node (less : Met) (q : ItemSet) (others : Met)

namespace Met

/-- The states in a tree. -/
def states : Met → List ItemSet
  | .none => []
  | .node less q others => q :: (less.states ++ others.states)

/-- Whether a state is in a tree. -/
def contains : Met → ItemSet → Bool
  | .none, _ => false
  | .node less r others, q =>
    bif r.bits == q.bits then true
    else bif q.bits.blt r.bits then less.contains q else others.contains q

/-- Adds a state. -/
def insert : Met → ItemSet → Met
  | .none, q => .node .none q .none
  | .node less r others, q =>
    bif q.bits.blt r.bits then .node (less.insert q) r others else .node less r (others.insert q)

theorem mem_of_contains {met : Met} {q : ItemSet} (h : met.contains q = true) : q ∈ met.states := by
  induction met with
  | none => cases h
  | node less r others ihless ihothers =>
    rw [contains] at h
    cases hsame : r.bits == q.bits with
    | true => exact List.mem_cons.2 (.inl (congrArg ItemSet.mk (beq_iff_eq.1 hsame)).symm)
    | false =>
      rw [hsame, cond_false] at h
      refine List.mem_cons_of_mem r (List.mem_append.2 ?_)
      cases hless : q.bits.blt r.bits with
      | true =>
        rw [hless, cond_true] at h
        exact .inl (ihless h)
      | false =>
        rw [hless, cond_false] at h
        exact .inr (ihothers h)

theorem mem_insert {met : Met} {q r : ItemSet} :
    r ∈ (met.insert q).states ↔ r = q ∨ r ∈ met.states := by
  induction met with
  | none => simp [insert, states]
  | node less p others ihless ihothers =>
    rw [insert]
    cases q.bits.blt p.bits with
    | true =>
      simp only [cond_true, states, List.mem_cons, List.mem_append, ihless, or_assoc, or_left_comm]
    | false =>
      simp only [cond_false, states, List.mem_cons, List.mem_append, ihothers, or_left_comm]

end Met

/-- Whether the states that can be reached from those `todo` pass a check, given that those `met`
do. Without an end in `fuel` steps the answer is no. -/
def allPass (check : ItemSet → Bool) : (fuel : Nat) → (todo : List ItemSet) → (met : Met) → Bool
  | 0, _, _ => false
  | _ + 1, [], _ => true
  | fuel + 1, q :: todo, met =>
    bif met.contains q then allPass check fuel todo met
    else check q &&
      allPass check fuel ((Symbol.all.filter q.reads).map q.goto ++ todo) (met.insert q)

/-- The states walked through pass the check, and reading does not lead out of them. -/
theorem exists_of_allPass {check : ItemSet → Bool} {fuel : Nat} {todo : List ItemSet} {met : Met}
    (h : allPass check fuel todo met = true)
    (hmet : ∀ q ∈ met.states, check q = true ∧
      ∀ s, q.reads s = true → q.goto s ∈ met.states ∨ q.goto s ∈ todo) :
    ∃ states : List ItemSet, (∀ q, q ∈ met.states ∨ q ∈ todo → q ∈ states) ∧
      ∀ q ∈ states, check q = true ∧ ∀ s, q.reads s = true → q.goto s ∈ states := by
  induction fuel generalizing todo met with
  | zero => cases h
  | succ fuel ih =>
    cases todo with
    | nil =>
      simp only [List.not_mem_nil, or_false] at hmet ⊢
      exact ⟨met.states, fun _ hq => hq, hmet⟩
    | cons q todo =>
      unfold allPass at h
      cases hcontains : met.contains q with
      | true =>
        rw [hcontains, cond_true] at h
        have hsub : ∀ r, r ∈ met.states ∨ r ∈ q :: todo → r ∈ met.states ∨ r ∈ todo := by
          rintro r (hr | hr)
          · exact .inl hr
          · rcases List.mem_cons.1 hr with rfl | hr
            · exact .inl (Met.mem_of_contains hcontains)
            · exact .inr hr
        obtain ⟨states, hold, hall⟩ := ih h fun r hr =>
          ⟨(hmet r hr).1, fun s hs => hsub _ ((hmet r hr).2 s hs)⟩
        exact ⟨states, fun r hr => hold r (hsub r hr), hall⟩
      | false =>
        rw [hcontains, cond_false, Bool.and_eq_true] at h
        let next := (Symbol.all.filter q.reads).map q.goto
        have hnext : ∀ s, q.reads s = true → q.goto s ∈ next := fun s hs =>
          List.mem_map_of_mem (List.mem_filter.2 ⟨s.mem_all, hs⟩)
        have hsub : ∀ r, r ∈ met.states ∨ r ∈ q :: todo →
            r ∈ (met.insert q).states ∨ r ∈ next ++ todo := by
          intro r hr
          rw [Met.mem_insert, List.mem_append]
          rcases hr with hr | hr
          · exact .inl (.inr hr)
          · exact (List.mem_cons.1 hr).imp .inl .inr
        obtain ⟨states, hold, hall⟩ := ih h.2 fun r hr => by
          rcases Met.mem_insert.1 hr with rfl | hr
          · exact ⟨h.1, fun s hs => .inr (List.mem_append_left _ (hnext s hs))⟩
          · exact ⟨(hmet r hr).1, fun s hs => hsub _ ((hmet r hr).2 s hs)⟩
        exact ⟨states, fun r hr => hold r (hsub r hr), hall⟩

/-- What a walk from the start finds of every state holds of every state that can be reached. -/
theorem passes_of_reachable {check : ItemSet → Bool} {fuel : Nat}
    (h : allPass check fuel [start] .none = true) {q : ItemSet} (hq : q.Reachable) :
    check q = true := by
  obtain ⟨states, hstart, hall⟩ := exists_of_allPass h fun q hq => absurd hq List.not_mem_nil
  have hmem : q ∈ states := by
    induction hq with
    | start => exact hstart start (.inr List.mem_cons_self)
    | goto _ hs ih => exact (hall _ ih).2 _ hs
  exact (hall q hmem).1

/-! ## What is checked -/

/-- The terminals that cannot come after any part of an expression that is begun in a state:
`ItemSet.lookahead` leaves them out. -/
def barred (q : ItemSet) : List Terminal :=
  (if q.has .assign 0 then [.thenKw, .doKw, .dot] else []) ++
  (if q.has .paramTyped 0 then
    [.thenKw, .elseKw, .doKw, .dot, .semicolon, .comma, .closeSquare, .finish] else [])

/-- Whether the left corners of whatever can be read are there. -/
def isClosed (q : ItemSet) : Bool :=
  Nonterminal.all.all fun n => !q.reads (.branch n) || q.bits &&& corner n == corner n

/-- Whether at most one production is complete, and what it is reduced on cannot be read. -/
def isDecided (q : ItemSet) : Bool :=
  match q.complete with
  | [] => true
  | [p] => (q.lookahead p).all fun t => !q.reads (.leaf t) || p.takes t
  | _ :: _ :: _ => false

/-- Whether no item that goes on with part of an expression lets a barred terminal come after
it. If the part is all of the right side, what comes after it comes after the left side. -/
def isGuarded (q : ItemSet) : Bool :=
  q.barred.isEmpty || Production.all.all fun p => (List.range p.rhs.length).all fun d =>
    !q.has p d || match p.rhs[d]? with
      | some (.branch n) =>
        !Nonterminal.expressionCorners.contains n ||
        (p.rhs.length == 1 && Nonterminal.expressionCorners.contains p.lhs) ||
        (p.after d).all fun t => !q.barred.contains t
      | _ => true

/-- All of these. -/
def isSound (q : ItemSet) : Bool := q.isClosed && q.isDecided && q.isGuarded

set_option maxRecDepth 10000 in
/-- The walk meets 175 states, and the end of a transition 1378 times. -/
theorem allPass_isSound : allPass isSound 2000 [start] .none = true := by
  decide +kernel

theorem reachable_isSound {q : ItemSet} (hq : q.Reachable) :
    q.isClosed = true ∧ q.isDecided = true ∧ q.isGuarded = true := by
  have hsound := passes_of_reachable allPass_isSound hq
  rw [isSound, Bool.and_eq_true, Bool.and_eq_true, and_assoc] at hsound
  exact hsound

/-! ## Items -/

theorem corner_has (p : Production) : (corner p.lhs).testBit (p.item 0) = true := by
  have key : ∀ p ∈ Production.all, (corner p.lhs).testBit (p.item 0) = true := by decide +kernel
  exact key p p.mem_all

/-- A program is part of nothing. -/
theorem reads_program (q : ItemSet) : q.reads (.branch .program) = false := by
  rw [reads, before_program, Nat.and_zero]
  rfl

/-- Where a nonterminal can be read, its productions are begun. -/
theorem Reachable.has_zero {q : ItemSet} (hq : q.Reachable) {p : Production}
    (h : q.reads (.branch p.lhs) = true) : q.has p 0 = true := by
  have hcorner := List.all_eq_true.1 (reachable_isSound hq).1 p.lhs p.lhs.mem_all
  rw [h, Bool.not_true, Bool.false_or, beq_iff_eq] at hcorner
  have hbit := corner_has p
  rw [← hcorner, Nat.testBit_and, Bool.and_eq_true] at hbit
  exact hbit.1

/-- A program is begun at the start. -/
theorem start_has {p : Production} (hp : p.lhs = .program) : start.has p 0 = true := by
  have hbit := corner_has p
  rw [hp] at hbit
  exact hbit

/-! ## What may follow -/

/-- Whether a terminal can come after a nonterminal that is begun in a state. -/
structure MayFollow (q : ItemSet) (n : Nonterminal) (t : Terminal) : Prop where
  follow : t ∈ n.follow
  not_barred : n ∈ Nonterminal.expressionCorners → t ∉ q.barred

variable {q : ItemSet} {p : Production} {d : Nat} {n : Nonterminal} {t : Terminal}

theorem Reachable.guarded (hq : q.Reachable) (hp : q.has p d = true)
    (hn : p.rhs[d]? = some (.branch n)) (hcorner : n ∈ Nonterminal.expressionCorners) :
    (p.rhs.length = 1 ∧ p.lhs ∈ Nonterminal.expressionCorners) ∨
      ∀ t ∈ p.after d, t ∉ q.barred := by
  rcases Bool.or_eq_true_iff.1 (reachable_isSound hq).2.2 with hempty | hitems
  · rw [List.isEmpty_iff.1 hempty]
    exact .inr fun _ _ => List.not_mem_nil
  · have hd := (List.getElem?_eq_some_iff.1 hn).1
    have hitem := List.all_eq_true.1 (List.all_eq_true.1 hitems p p.mem_all) d
      (List.mem_range.2 hd)
    simp only [hp, hn, Bool.not_true, Bool.false_or] at hitem
    simpa [hcorner] using hitem

/-- What comes after a nonterminal in a right side may follow it. If the nonterminal is all of
the right side, it must be something that may follow the left side. -/
theorem mayFollow_of_after (hq : q.Reachable) (hp : q.has p d = true)
    (hn : p.rhs[d]? = some (.branch n)) (ht : t ∈ p.after d)
    (hunit : p.rhs.length = 1 → q.MayFollow p.lhs t) : q.MayFollow n t := by
  refine ⟨Production.after_subset hn ht, fun hcorner => ?_⟩
  rcases hq.guarded hp hn hcorner with ⟨hone, hlhs⟩ | hafter
  · exact (hunit hone).not_barred hlhs
  · exact hafter t ht

/-- Reading the rest of a right side. -/
theorem foldl_goto (hq : q.Reachable) (hp : q.has p d = true) :
    ((p.rhs.drop d).foldl goto q).Reachable ∧
      (d ≤ p.rhs.length → ((p.rhs.drop d).foldl goto q).has p p.rhs.length = true) := by
  generalize hss : p.rhs.drop d = ss
  induction ss generalizing q d with
  | nil =>
    refine ⟨hq, fun hd => ?_⟩
    have hlength := List.drop_eq_nil_iff.1 hss
    rw [show d = p.rhs.length by omega] at hp
    exact hp
  | cons s ss ih =>
    obtain ⟨hs, hrest⟩ := Production.rhs_of_drop hss
    have hd := (List.getElem?_eq_some_iff.1 hs).1
    obtain ⟨hreach, hhas⟩ := ih (hq.goto (reads_of_has hp hs)) (has_goto_of hp hs) hrest
    exact ⟨hreach, fun _ => hhas hd⟩

/-- What may follow a left side is in the lookahead of the right side read after it. -/
theorem mem_lookahead (h : q.MayFollow p.lhs t) : t ∈ (p.rhs.foldl goto q).lookahead p := by
  have hbarred := h.not_barred
  unfold lookahead
  dsimp only
  split
  · next hp =>
    obtain ⟨rfl, hassign⟩ := hp
    have hbegun := (has_goto (q := q) (s := .branch .suffixed) (by decide) hassign).1
    have ht := hbarred (by decide)
    rw [barred, if_pos hbegun, List.mem_append, not_or] at ht
    exact List.mem_filter.2 ⟨h.follow, decide_eq_true ht.1⟩
  · split
    · next hp =>
      obtain ⟨rfl, hparam⟩ := hp
      have hbegun := (has_goto (q := q) (s := .leaf .name) (by decide) hparam).1
      have ht := hbarred (by decide)
      rw [barred, if_pos hbegun, List.mem_append, not_or] at ht
      exact List.mem_filter.2 ⟨h.follow, decide_eq_true ht.2⟩
    · exact h.follow

/-- A complete production is reduced on its lookahead, unless what comes next is taken for a
part of it. -/
theorem Reachable.action_of_lookahead (hq : q.Reachable) (hp : q.has p p.rhs.length = true)
    (ht : t ∈ q.lookahead p) (htakes : p.takes t = false) : q.action t = some (.reduce p) := by
  have hdecided := (reachable_isSound hq).2.1
  unfold isDecided at hdecided
  have hmem : p ∈ q.complete := List.mem_filter.2 ⟨p.mem_all, hp⟩
  unfold action
  split at hdecided
  · next hnone =>
    rw [hnone] at hmem
    cases hmem
  · next r hone =>
    rw [hone, List.mem_singleton] at hmem
    subst hmem
    have hreads := List.all_eq_true.1 hdecided t ht
    rw [htakes, Bool.or_false, Bool.not_eq_true'] at hreads
    rw [hreads, hone]
    simp [ht]
  · cases hdecided

/-- A right side that was begun where `t` may follow its left side is reduced on `t`. -/
theorem action_of_mayFollow (hq : q.Reachable) (hp : q.has p 0 = true)
    (ht : q.MayFollow p.lhs t) (htakes : p.takes t = false) :
    (p.rhs.foldl goto q).action t = some (.reduce p) := by
  obtain ⟨hreach, hhas⟩ := foldl_goto hq hp
  exact hreach.action_of_lookahead (hhas (Nat.zero_le _)) (mem_lookahead ht) htakes

/-- Nothing is barred from coming after a program. -/
theorem mayFollow_program (q : ItemSet) : q.MayFollow .program .finish :=
  ⟨by decide, fun h => absurd h (by decide)⟩

end ItemSet

end Mandate
