/-
  Mandate.Proofs.Unrolling

  Bodies share the scope around them, and loops unroll.

  A body runs with a scope that it hands back when it comes to its end. So running an
  instruction as the body of an `if` that holds is running it, and a loop is its first
  round and then the loop again. Only the scope that an error leaves behind tells a body
  from the same instruction outside, so the comparisons are strict up to there.

    * `Semantics.round`: a round of a loop, and what comes after it.
    * `loop_kept_by_round` and `round_kept_by_loop`: a loop is a round and then the loop. The
      two sides take different amounts of fuel, on each level of nesting.
    * `loop_unrolls`: the equivalences, and what a loop does after a test.
-/

import Mandate.Proofs.RunResults
import Mandate.Proofs.StoredCode

namespace Mandate

/-! ## Programs -/

/-- `if true then n` -/
def Node.ifTrue (n : Node) (condition whole : Span) : Node :=
  .branch (.boolean true condition) n .absent whole

/-- `if c then [b, while c do b]` -/
def Node.unrolled (c b : Node) (loop array whole : Span) : Node :=
  .branch c (.array (.proper [b, .loop c b loop]) array) .absent whole

/-- A round of a loop, and what comes after it. -/
def Semantics.round (E : Engine) (self : Option Payload) (c b : Node) (rest : Run (Option Value)) :
    Run (Option Value) := do
  if ← Semantics.condition E self c then (Run.body (E.run self b)).followedBy rest
  else return none

section

variable {self : Option Payload} {c b : Node} {k k' : Nat} {strict : Prop}

theorem round_keptUpToTrace (h : k ≤ k') (c b : Node) {rest rest' : Run (Option Value)}
    (hrest : Run.KeptUpToTrace strict rest rest') :
    Run.KeptUpToTrace strict (Semantics.round (engine k) self c b rest)
      (Semantics.round (engine k') self c b rest') := by
  refine (condition_keptUpToTrace h c).bind fun holds => ?_
  cases holds with
  | false => exact .pure none
  | true => exact (run_keptUpToTrace h b).body.followedBy hrest

/-! ## A loop is a round and then the loop -/

theorem run_loop (k : Nat) (c b : Node) (s : Span) :
    (engine (k + 2)).run self (.loop c b s) = (do
      Run.note 3 ((Node.loop c b s).runLine s)
      Semantics.repeatWhile (engine (k + 1)) self c b k) := rfl

theorem run_loop_keptUpToTrace (h : k ≤ k') {rounds : Nat} (hrounds : k ≤ rounds + 2) (s : Span) :
    Run.KeptUpToTrace strict ((engine k).run self (.loop c b s))
      (Semantics.repeatWhile (engine k') self c b rounds) := by
  refine perform_keptUpToTrace_of_long ?_
  rintro j rfl
  show Run.KeptUpToTrace strict ((engine (j + 2)).run self (.loop c b s)) _
  rw [run_loop]
  exact (repeatWhile_keptUpToTrace (by omega) c b (by omega)).note_left _ _

theorem repeatWhile_kept_by_run (h : k < k') {rounds : Nat} (hrounds : rounds + 2 ≤ k') (s : Span) :
    Run.KeptUpToTrace strict (Semantics.repeatWhile (engine k) self c b rounds)
      ((engine k').run self (.loop c b s)) := by
  obtain ⟨j, rfl⟩ : ∃ j, k' = j + 2 := ⟨k' - 2, by omega⟩
  rw [run_loop]
  exact (repeatWhile_keptUpToTrace (by omega) c b (by omega)).note_right _ _

/-- A round, and then the loop. -/
def roundThenLoop (self : Option Payload) (c b : Node) (s : Span) (k : Nat) :
    Run (Option Value) :=
  Semantics.round (engine k) self c b ((engine k).run self (.loop c b s))

theorem loop_kept_by_round (k : Nat) (s : Span) :
    Run.KeptUpToTrace strict ((engine k).run self (.loop c b s))
      (roundThenLoop self c b s (k + 1)) := by
  cases k with
  | zero => exact perform_short (by omega) _ _ _
  | succ j =>
    -- A loop has fewer rounds than fuel, so it may be given more of them.
    have hfirst : Run.KeptUpToTrace strict ((engine (j + 1)).run self (.loop c b s))
        (Semantics.repeatWhile (engine (j + 1)) self c b (j + 1)) :=
      run_loop_keptUpToTrace (Nat.le_refl _) (by omega) s
    refine hfirst.trans ?_
    show Run.KeptUpToTrace strict (Semantics.round (engine (j + 1)) self c b
      (Semantics.repeatWhile (engine (j + 1)) self c b j)) _
    exact round_keptUpToTrace (by omega) c b (repeatWhile_kept_by_run (by omega) (by omega) s)

theorem round_kept_by_loop (k : Nat) (s : Span) :
    Run.KeptUpToTrace strict (roundThenLoop self c b s k)
      ((engine (k + 3)).run self (.loop c b s)) := by
  have hround : Run.KeptUpToTrace strict (roundThenLoop self c b s k)
      (Semantics.repeatWhile (engine k) self c b (k + 1)) :=
    round_keptUpToTrace (Nat.le_refl k) c b (run_loop_keptUpToTrace (Nat.le_refl k) (by omega) s)
  exact hround.trans (repeatWhile_kept_by_run (by omega) (by omega) s)

/-! ## The loop written out -/

section

variable (hb : b.isData = false) (s array whole : Span)

theorem run_unrolled (k : Nat) (c b : Node) :
    (engine (k + 2)).run self (.unrolled c b s array whole) = (do
      Run.note 3 ((Node.unrolled c b s array whole).runLine whole)
      if ← Semantics.condition (engine (k + 1)) self c then
        Run.body ((engine (k + 1)).run self (.array (.proper [b, .loop c b s]) array))
      else return none) := rfl

/-- The body of the loop written out: what it runs, and then the loop. -/
theorem run_bodyThenLoop (k : Nat) (hb : b.isData = false) :
    (engine (k + 2)).run self (.array (.proper [b, .loop c b s]) array) = (do
      Run.note 3 ((Node.array (.proper [b, .loop c b s]) array).runLine array)
      Run.followedBy ((engine (k + 1)).run self b) ((engine (k + 1)).run self (.loop c b s))) := by
  have hlast : Node.runningAll self array [.loop c b s] (k + 1)
      = (engine (k + 1)).run self (.loop c b s) :=
    (funext fun m => sequence_single _ self array _ m).trans (perform_node_origin self _ _ _ _)
  rw [run_array, runningAll_cons, perform_eq_run self hb, hlast]

include hb

theorem unrolled_kept_by_round (k : Nat) :
    Run.KeptUpToTrace False ((engine k).run self (.unrolled c b s array whole))
      (roundThenLoop self c b s k) := by
  refine perform_keptUpToTrace_of_long ?_
  rintro j rfl
  show Run.KeptUpToTrace False ((engine (j + 2)).run self (.unrolled c b s array whole)) _
  rw [run_unrolled]
  refine Run.KeptUpToTrace.note_left ?_ _ _
  refine (condition_keptUpToTrace (by omega) c).bind fun holds => ?_
  cases holds with
  | false => exact .pure none
  | true =>
    -- The scope that an error leaves is another one outside the body, but it does not count.
    refine Run.KeptUpToTrace.body_left ?_
    cases j with
    | zero => exact perform_short (by omega) _ _ _
    | succ i =>
      rw [run_bodyThenLoop s array i hb]
      refine Run.KeptUpToTrace.note_left ?_ _ _
      exact (run_keptUpToTrace (by omega) b).body_right.followedBy (run_keptUpToTrace (by omega) _)

theorem round_kept_by_unrolled (k : Nat) :
    Run.KeptUpToTrace False (roundThenLoop self c b s k)
      ((engine (k + 3)).run self (.unrolled c b s array whole)) := by
  rw [run_unrolled]
  refine Run.KeptUpToTrace.note_right ?_ _ _
  refine (condition_keptUpToTrace (by omega) c).bind fun holds => ?_
  cases holds with
  | false => exact .pure none
  | true =>
    refine Run.KeptUpToTrace.body_right ?_
    rw [run_bodyThenLoop s array k hb]
    refine Run.KeptUpToTrace.note_right ?_ _ _
    exact (run_keptUpToTrace (by omega) b).body_left.followedBy (run_keptUpToTrace (by omega) _)

end

/-! ## Bodies -/

theorem run_ifTrue (k : Nat) (n : Node) (s whole : Span) :
    (engine (k + 2)).run self (n.ifTrue s whole) = (do
      Run.note 3 ((n.ifTrue s whole).runLine whole)
      Run.body ((engine (k + 1)).run self n)) := rfl

/-- What is run as the body of an `if` that holds is run as if it stood there by itself. -/
theorem ifTrue_sameResults (m : Machine) (n : Node) (s whole : Span) :
    Run.SameResults False ((n.ifTrue s whole).running self) m (n.running self) m := by
  refine .of_keptUpToTrace (fun k => ⟨k, ?_⟩) (fun k => ⟨k + 2, ?_⟩) (.refl m)
  · refine perform_keptUpToTrace_of_long ?_
    rintro j rfl
    show Run.KeptUpToTrace False ((engine (j + 2)).run self (n.ifTrue s whole)) _
    rw [run_ifTrue]
    exact (run_keptUpToTrace (by omega) n).body_left.note_left _ _
  · show Run.KeptUpToTrace False _ ((engine (k + 2)).run self (n.ifTrue s whole))
    rw [run_ifTrue]
    exact (run_keptUpToTrace (by omega) n).body_right.note_right _ _

/-! ## Loops -/

section

variable (m : Machine) (s : Span)

theorem loop_sameResults_round (self : Option Payload) (c b : Node) (m : Machine) (s : Span) :
    Run.SameResults True ((Node.loop c b s).running self) m (roundThenLoop self c b s) m :=
  .of_keptUpToTrace (fun k => ⟨k + 1, loop_kept_by_round k s⟩)
    (fun k => ⟨k + 3, round_kept_by_loop k s⟩) (.refl m)

theorem loop_sameResults_unrolled (hb : b.isData = false) (array whole : Span) :
    Run.SameResults False ((Node.loop c b s).running self) m
      ((Node.unrolled c b s array whole).running self) m := by
  refine .of_keptUpToTrace (fun k => ⟨k + 4, ?_⟩) (fun k => ⟨k + 3, ?_⟩) (.refl m)
  · exact (loop_kept_by_round k s).trans (round_kept_by_unrolled hb s array whole (k + 1))
  · exact (unrolled_kept_by_round hb s array whole k).trans (round_kept_by_loop k s)

/-- Testing a condition, with some fuel. -/
abbrev Node.testing (self : Option Payload) (c : Node) (fuel : Nat) : Run Bool :=
  Semantics.condition (engine fuel) self c

theorem testing_fuelMonotone (self : Option Payload) (c : Node) :
    Run.FuelMonotone (c.testing self) :=
  fun hk => condition_keptBy hk self c

variable {m} {m₁ m₂ : Machine}

/-- What a round comes to after its test. -/
theorem roundThenLoop_iff {holds : Bool} (h : Run.HasResult (c.testing self) m (.ok holds m₁))
    (r : EStateM.Result Halt Machine (Option Value)) :
    Run.HasResult (roundThenLoop self c b s) m r ↔ Run.HasResult (fun k =>
      if holds then (Run.body ((engine k).run self b)).followedBy
        ((engine k).run self (.loop c b s))
      else pure none) m₁ r := by
  refine h.bind_iff (testing_fuelMonotone self c) (fun holds => ?_) r
  cases holds with
  | false => exact fun _ => .refl _
  | true =>
    intro k k' hk
    refine (run_keptBy hk self b).body.bind fun result => ?_
    cases result with
    | some v => exact .refl _
    | none => exact run_keptBy hk self _

/-- After a round without a value, the loop goes on in the state that the body left. -/
theorem loop_goes_on (htest : Run.HasResult (c.testing self) m (.ok true m₁))
    (hbody : Run.HasResult (b.running self) m₁ (.ok none m₂)) :
    Run.SameResults True ((Node.loop c b s).running self) m
      ((Node.loop c b s).running self) m₂ := by
  have hround : ∀ r, Run.HasResult (roundThenLoop self c b s) m r ↔
      Run.HasResult ((Node.loop c b s).running self) m₂ r := fun r =>
    (roundThenLoop_iff s htest r).trans (hbody.body.followedBy_iff
      (fun hk => (run_keptBy hk self b).body) (running_fuelMonotone self _) r)
  obtain ⟨hloop, hback⟩ := loop_sameResults_round self c b m s
  refine ⟨fun r hr => ?_, fun r' hr' => ?_⟩
  · obtain ⟨r', hr', heq⟩ := hloop r hr
    exact ⟨r', (hround r').1 hr', heq⟩
  · exact hback r' ((hround r').2 hr')

/-- A value that the body comes to ends the loop. -/
theorem loop_ends (htest : Run.HasResult (c.testing self) m (.ok true m₁)) {v : Value}
    (hbody : Run.HasResult (b.running self) m₁ (.ok (some v) m₂)) :
    Run.HasResult (roundThenLoop self c b s) m (.ok (some v) m₂) :=
  (roundThenLoop_iff s htest _).2 (hbody.body.followedBy _)

end

end

/-- Bodies share the scope around them, and loops unroll. From every state, running
`if true then n` comes to the same as running `n`, and `while c do b` to the same as
`if c then [b, while c do b]`: both come to an end or none does, with the same value, console,
variables and scope, or with the same error, console and variables.

So after a round without a value the loop goes on, with its next test, where the body left off; a
value that the body comes to ends it; and it is over, in the state of its last test, when that
fails. -/
theorem loop_unrolls (self : Option Payload) (m : Machine) (c : Node) {b : Node}
    (hb : b.isData = false) (s condition array whole : Span) :
    (∀ n : Node, Run.SameResults False ((n.ifTrue condition whole).running self) m
      (n.running self) m) ∧
    Run.SameResults False ((Node.loop c b s).running self) m
      ((Node.unrolled c b s array whole).running self) m ∧
    (∀ m₁, Run.HasResult (c.testing self) m (.ok true m₁) →
      (∀ m₂, Run.HasResult (b.running self) m₁ (.ok none m₂) →
        Run.SameResults True ((Node.loop c b s).running self) m
          ((Node.loop c b s).running self) m₂) ∧
      ∀ v m₂, Run.HasResult (b.running self) m₁ (.ok (some v) m₂) →
        ∃ m₃, Run.HasResult ((Node.loop c b s).running self) m (.ok (some v) m₃) ∧
          m₃.EqUpToTrace True m₂) ∧
    ∀ m₁, Run.HasResult (c.testing self) m (.ok false m₁) →
      ∃ m₂, Run.HasResult ((Node.loop c b s).running self) m (.ok none m₂) ∧
        m₂.EqUpToTrace True m₁ := by
  have hround := (loop_sameResults_round self c b m s).2
  have hsame : ∀ {result : Option Value} {m₂ : Machine},
      Run.HasResult (roundThenLoop self c b s) m (.ok result m₂) →
      ∃ m₃, Run.HasResult ((Node.loop c b s).running self) m (.ok result m₃) ∧
        m₃.EqUpToTrace True m₂ := by
    intro result m₂ hend
    obtain ⟨r, hr, heq⟩ := hround _ hend
    cases heq with
    | ok _ hm => exact ⟨_, hr, hm⟩
  refine ⟨fun n => ifTrue_sameResults m n condition whole,
    loop_sameResults_unrolled m s hb array whole, fun m₁ htest => ⟨fun m₂ hbody => ?_,
    fun v m₂ hbody => ?_⟩, fun m₁ htest => ?_⟩
  · exact loop_goes_on s htest hbody
  · exact hsame (loop_ends s htest hbody)
  · exact hsame ((roundThenLoop_iff s htest _).2 ⟨rfl, 0, rfl⟩)

/-- `[x <- false, y <- true]` -/
def declaringBody : Node :=
  .array (.proper [
    .assign (.nameTarget (.proper "x") Span.none) (.boolean false Span.none) Span.none,
    .assign (.nameTarget (.proper "y") Span.none) (.boolean true Span.none) Span.none]) Span.none

/-- A state with one variable `x`, which is true. -/
def whileTrue : Machine :=
  { scope := [⟨.proper "x", 0⟩]
    store := ⟨#[Value.mk (.bool true) Datatype.boolean Span.none]⟩ }

/-- `while x do [x <- false, y <- true]` goes round once. The variable that the body declares is
there after the loop, and after the loop written out. -/
theorem loop_unrolls_declaringBody :
    let c : Node := .name (.proper "x") Span.none
    ∃ m₁ m₂ : Machine,
      Run.HasResult ((Node.loop c declaringBody Span.none).running none) whileTrue (.ok none m₁) ∧
      Run.HasResult ((Node.unrolled c declaringBody Span.none Span.none Span.none).running none)
        whileTrue (.ok none m₂) ∧
      m₁.scope.binds (.proper "y") = true ∧ m₁.scope = m₂.scope ∧ m₁.store = m₂.store := by
  intro c
  let after := Run.final ((engine 6).run none declaringBody whileTrue)
  have htest : Run.HasResult (c.testing none) whileTrue (.ok true whileTrue) := ⟨rfl, 2, rfl⟩
  have hbody : Run.HasResult (declaringBody.running none) whileTrue (.ok none after) :=
    ⟨rfl, 6, rfl⟩
  have hfails : Run.HasResult (c.testing none) after (.ok false after) := ⟨rfl, 2, rfl⟩
  obtain ⟨-, hunrolled, hround, -⟩ :=
    loop_unrolls none whileTrue c (b := declaringBody) rfl Span.none Span.none Span.none Span.none
  obtain ⟨-, -, -, hover⟩ :=
    loop_unrolls none after c (b := declaringBody) rfl Span.none Span.none Span.none Span.none
  obtain ⟨m₀, hend, hm₀⟩ := hover after hfails
  obtain ⟨r, hloop, heq⟩ := ((hround whileTrue htest).1 after hbody).2 _ hend
  cases heq with
  | @ok _ m₁ _ hm₁ =>
    obtain ⟨r', hwritten, heq'⟩ := hunrolled.1 _ hloop
    cases heq' with
    | @ok _ _ m₂ hm₂ =>
      refine ⟨m₁, m₂, hloop, hwritten, ?_, hm₂.scope trivial, hm₂.store⟩
      rw [(hm₁.trans hm₀).scope trivial]
      decide +kernel

end Mandate
