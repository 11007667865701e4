/-
  Mandate.Proofs.InputReading

  What a run has to do with the lines it can read.

    * `Run.ReadsLines`: from a state, a step reads so many lines. With the same ones in
      front it does the same whatever comes after them, and leaves that. Past the
      last line there are only empty ones.
    * `Run.IgnoresUnread`: a step reads some number of lines in this sense. This is a
      family of steps (`Run.Family.ignoresUnread`), so it holds of every run.
    * `runs_ignore_unread_lines`: a run depends only on the lines it reads.
-/

import Mandate.Execution
import Mandate.Proofs.StepFamilies
import Mathlib.Data.List.GetD

namespace Mandate

/-- A report with other lines left to read. -/
def Report.withPending (r : Report) (lines : List Text) : Report :=
  { r with console := { r.console with pending := lines } }

namespace Run

/-- From a state, a step reads `n` lines and depends on no others. -/
def ReadsLines {α : Type} (x : Run α) (m : Machine) (n : Nat) : Prop :=
  ∀ lines : List Text, (∀ i < n, lines.getD i [] = m.console.pending.getD i []) →
    x (m.withPending lines) = withPending (lines.drop n) (x m)

/-- From a state, a step depends only on the lines it reads. -/
def IgnoresUnread {α : Type} (x : Run α) (m : Machine) : Prop := ∃ n, x.ReadsLines m n

/-- With its own lines a step leaves those that it does not read. -/
theorem ReadsLines.eq_withPending {α : Type} {x : Run α} {m : Machine} {n : Nat}
    (h : x.ReadsLines m n) : x m = withPending (m.console.pending.drop n) (x m) :=
  h m.console.pending fun _ _ => rfl

/-! ## Steps -/

namespace IgnoresUnread

variable {α β : Type} {m : Machine}

/-- A step that does not look at the lines reads none. -/
theorem of_keeps {x : Run α} (h : x.KeepsScopeAndLines) : x.IgnoresUnread m :=
  ⟨0, fun lines _ => h.lines m lines⟩

theorem bind {x : Run α} {f : α → Run β} (hx : x.IgnoresUnread m)
    (hf : ∀ a m', x m = .ok a m' → (f a).IgnoresUnread m') : (x >>= f).IgnoresUnread m := by
  obtain ⟨n, hn⟩ := hx
  cases hxm : x m with
  | error e m' =>
    refine ⟨n, fun lines hlines => ?_⟩
    have hother := hn lines hlines
    rw [hxm] at hother
    rw [bind_of_error hother, bind_of_error hxm]
    rfl
  | ok a m' =>
    -- The second step starts after the lines that the first one reads.
    have hleft : m'.console.pending = m.console.pending.drop n := by
      have hself := hn.eq_withPending
      rw [hxm] at hself
      injection hself with _ hstate
      rw [hstate]
      rfl
    obtain ⟨k, hk⟩ := hf a m' hxm
    refine ⟨n + k, fun lines hlines => ?_⟩
    have hfirst := hn lines fun i hi => hlines i (by omega)
    rw [hxm] at hfirst
    have hsecond := hk (lines.drop n) fun i hi => by
      rw [hleft, List.getD_eq_getElem?_getD, List.getD_eq_getElem?_getD, List.getElem?_drop,
        List.getElem?_drop, ← List.getD_eq_getElem?_getD, ← List.getD_eq_getElem?_getD]
      exact hlines (n + i) (by omega)
    rw [List.drop_drop] at hsecond
    rw [bind_of_ok hfirst, bind_of_ok hxm]
    exact hsecond

/-- Reading takes the first line away. -/
theorem readLine : Run.readLine.IgnoresUnread m := by
  refine ⟨1, fun lines hlines => ?_⟩
  have hfirst : lines.headD [] = m.console.pending.headD [] := by
    rw [List.headD_eq_head?_getD, List.headD_eq_head?_getD, List.head?_eq_getElem?,
      List.head?_eq_getElem?, ← List.getD_eq_getElem?_getD, ← List.getD_eq_getElem?_getD]
    exact hlines 0 Nat.one_pos
  show EStateM.Result.ok (lines.headD []) (m.withPending lines.tail)
    = .ok (m.console.pending.headD []) (m.withPending (lines.drop 1))
  rw [hfirst, List.drop_one]

theorem cellFor (name : Name) (o : Origin) : (Run.cellFor name o).IgnoresUnread m := by
  refine ⟨0, fun lines _ => ?_⟩
  have hscope : (m.withPending lines).scope = m.scope := rfl
  cases hcell : m.scope.cell? name with
  | some cell =>
    rw [cellFor_of_some hcell, cellFor_of_some (hscope ▸ hcell)]
    rfl
  | none =>
    rw [cellFor_of_none hcell, cellFor_of_none (hscope ▸ hcell)]
    rfl

theorem within {x : Run α} {s : Scope} (h : x.IgnoresUnread { m with scope := s }) :
    (Run.within s x).IgnoresUnread m := by
  obtain ⟨n, hn⟩ := h
  refine ⟨n, fun lines hlines => ?_⟩
  have hx : x { m.withPending lines with scope := s }
      = withPending (lines.drop n) (x { m with scope := s }) := hn lines hlines
  unfold Run.within
  rw [hx]
  cases x { m with scope := s } with
  | ok a m' => rfl
  | error e m' => rfl

theorem body {x : Run α} (h : x.IgnoresUnread m) : (Run.body x).IgnoresUnread m := by
  obtain ⟨n, hn⟩ := h
  refine ⟨n, fun lines hlines => ?_⟩
  have hx := hn lines hlines
  unfold Run.body
  rw [hx]
  cases x m with
  | ok a m' => rfl
  | error e m' => rfl

end IgnoresUnread

/-- Steps that depend only on the lines they read are a family. -/
def Family.ignoresUnread : Family where
  holds := IgnoresUnread
  most := .of_keeps
  bind := .bind
  readLine := .readLine
  cellFor := .cellFor _ _
  within := .within
  body := .body

end Run

/-! ## Runs -/

/-- A run reads some number of lines. With the same ones in front of others it comes to the same
report, with the others left. -/
theorem runTree_readsLines (fuel : Nat) (filed : Bool) (pending : List Text)
    (record : Array Message) (trace : Trace) (program : Node) :
    ∃ n, ∀ lines : List Text, (∀ i < n, lines.getD i [] = pending.getD i []) →
      runTree fuel filed ⟨lines, record⟩ trace program
        = (runTree fuel filed ⟨pending, record⟩ trace program).withPending (lines.drop n) := by
  obtain ⟨n, hn⟩ := Run.Family.ignoresUnread.run fuel none
    { console := ⟨pending, record⟩, trace := trace.push ⟨1, "run " ++ program.label⟩ } program
  refine ⟨n, fun lines hlines => ?_⟩
  have hrun := hn lines hlines
  unfold runTree Machine.run
  dsimp only
  rw [Machine.withPending] at hrun
  rw [hrun]
  generalize (engine fuel).run none program _ = r
  cases r with
  | ok result m =>
    dsimp only [Run.withPending]
    cases Value.shownResult result with
    | ok line => rfl
    | error f => rfl
  | error e m =>
    cases e with
    | error e =>
      dsimp only [Run.withPending]
      split <;> rfl
    | fault f => rfl
    | exhausted => rfl

/-- A run depends only on the lines it reads. If it ends before the last one, the lines that are
left can be exchanged for any others: the report is the same but for them. And lines past the last
one read as empty ones: with some of these added, the report is the same but for the lines that
are left. -/
theorem runs_ignore_unread_lines (fuel : Nat) (filed : Bool) (record : Array Message)
    (trace : Trace) (program : Node) :
    (∀ read left other : List Text, left ≠ [] →
      (runTree fuel filed ⟨read ++ left, record⟩ trace program).console.pending = left →
        runTree fuel filed ⟨read ++ other, record⟩ trace program
          = (runTree fuel filed ⟨read ++ left, record⟩ trace program).withPending other) ∧
    ∀ (lines : List Text) (k : Nat), ∃ left,
      runTree fuel filed ⟨lines ++ List.replicate k [], record⟩ trace program
        = (runTree fuel filed ⟨lines, record⟩ trace program).withPending left := by
  constructor
  · intro read left other hleft hend
    obtain ⟨n, hn⟩ := runTree_readsLines fuel filed (read ++ left) record trace program
    have hpending : (read ++ left).drop n = left := by
      have hself := hn (read ++ left) fun _ _ => rfl
      have hlines := congrArg (fun r => r.console.pending) hself
      exact hlines.symm.trans hend
    -- Lines are left, so no empty one was read, and those before `left` are all that was.
    have hcount : n = read.length := by
      have hlength := congrArg List.length hpending
      have hpos := List.length_pos_iff.2 hleft
      rw [List.length_drop, List.length_append] at hlength
      omega
    subst hcount
    have hother := hn (read ++ other) fun i hi => by
      rw [List.getD_append _ _ _ _ hi, List.getD_append _ _ _ _ hi]
    rwa [List.drop_left] at hother
  · intro lines k
    obtain ⟨n, hn⟩ := runTree_readsLines fuel filed lines record trace program
    refine ⟨_, hn (lines ++ List.replicate k []) fun i _ => ?_⟩
    by_cases hi : i < lines.length
    · exact List.getD_append _ _ _ _ hi
    · rw [List.getD_append_right _ _ _ _ (by omega), List.getD_eq_default lines [] (by omega),
        List.getD_eq_getElem?_getD]
      exact List.getElem?_getD_replicate_default_eq _ _ _

/-- Prints a line that it asks for, and gives back the next. -/
def greeting : Node :=
  .array (.proper [.print (.proper [.builtin .input (Node.string "name?" ⟨0, 7⟩) Span.none])
    Span.none, .eval (.builtin .input Node.absent Span.none) Span.none]) Span.none

theorem greeting_ignores_unread_lines :
    (runTree 9 true ⟨["Ada", "", "unread"], #[]⟩ #[] greeting).console.pending = ["unread"] ∧
    runTree 9 true ⟨["Ada", ""], #[]⟩ #[] greeting
      = (runTree 9 true ⟨["Ada", "", "unread"], #[]⟩ #[] greeting).withPending [] ∧
    (runTree 9 true ⟨["Ada"], #[]⟩ #[] greeting).console.output = ["Ada"] ∧
    ∃ left, runTree 9 true ⟨["Ada", ""], #[]⟩ #[] greeting
      = (runTree 9 true ⟨["Ada"], #[]⟩ #[] greeting).withPending left := by
  have hend : (runTree 9 true ⟨["Ada", "", "unread"], #[]⟩ #[] greeting).console.pending
      = ["unread"] := by decide +kernel
  obtain ⟨hread, hadded⟩ := runs_ignore_unread_lines 9 true #[] #[] greeting
  refine ⟨hend, hread ["Ada", ""] ["unread"] [] (List.cons_ne_nil _ _) hend, ?_, hadded ["Ada"] 1⟩
  decide +kernel

end Mandate
