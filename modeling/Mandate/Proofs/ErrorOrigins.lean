/-
  Mandate.Proofs.ErrorOrigins

  Errors of a running program point at its text.

    * `Node.Within`: the trees that a program is made of. With a tree they have its
      parts (`within_hereditary`), so a run computes with such trees only.
    * `Origin.From.span`: the place of such a tree is the span of a node.
    * `Oversight.pointing`: a watch that lets pass only variables and values whose
      origins are among given spans.
    * `errors_point_at_nodes`: that watch never ends the run of a program, and an error
      is at the span of a node, which is in the source.
-/

import Mandate.Proofs.Oversight
import Mandate.Proofs.SpanNesting

namespace Mandate

/-! ## The trees of a program -/

/-- A tree inside a program, or the absent part of one. -/
def Node.Within (program n : Node) : Prop := n = absent ∨ .node n ∈ program.pieces

section Trees

variable {program : Node}

theorem Node.within_self (h : program.Regular true) : program.Within program := by
  have hdata : program.isData = false := by cases h <;> rfl
  exact .inr (mem_pieces_self hdata)

/-- The trees of a regular program have their parts among them. -/
theorem within_hereditary (h : program.Regular true) : Hereditary program.Within where
  part := by
    rintro n k (rfl | hn) hk
    · cases hk
    · cases hdata : k.isData with
      | false => exact .inr (Node.mem_pieces_of_part hn hk hdata)
      | true =>
        rcases (Node.pieces_regular h _ hn).part hk with rfl | hk | hk
        · exact .inl rfl
        · cases hk <;> cases hdata
        · cases hk <;> cases hdata

/-- The place of a tree inside a regular program is the span of a node. -/
theorem Origin.From.span {o : Origin} (h : program.Regular true) (ho : o.From program.Within) :
    ∃ s ∈ program.spans, o = .proper s := by
  obtain ⟨n, rfl | hn, horigin⟩ := ho
  · cases horigin
  · obtain ⟨s, hs⟩ := (Node.pieces_regular h _ hn).span
    have hplace := Piece.origin_of_span hs
    cases horigin.symm.trans hplace
    exact ⟨s, Node.mem_spans.2 ⟨_, hn, hs⟩, rfl⟩

end Trees

/-! ## Watching origins -/

/-- Whether a value comes from one of some spans. -/
def Value.pointsInto (spans : List Span) (v : Value) : Bool :=
  match v.origin with
  | .proper s => decide (s ∈ spans)
  | .stray _ => false

theorem Value.pointsInto_iff {spans : List Span} {v : Value} :
    v.pointsInto spans = true ↔ ∃ s ∈ spans, v.origin = .proper s := by
  unfold Value.pointsInto
  cases v.origin with
  | proper s => simp
  | stray d => simp

/-- Lets pass states in which all variables come from some spans, and values that do. -/
def Oversight.pointing (spans : List Span) : Oversight := fun _ m v? =>
  (List.range m.store.size).all (fun cell => (m.store.get cell).pointsInto spans) &&
    v?.all (Value.pointsInto spans)

theorem Oversight.pointing_admits {program : Node} (h : program.Regular true)
    [Hereditary program.Within] :
    (Oversight.pointing program.spans).Admits (.provenance program.Within) := by
  have hvalue : ∀ {n : Nat} {v : Value}, (DataInvariant.provenance program.Within).Values n v →
      v.pointsInto program.spans = true :=
    fun hv => Value.pointsInto_iff.2 (Origin.From.span h hv.placed)
  intro self m v? hm hv
  unfold Oversight.pointing
  rw [Bool.and_eq_true, List.all_eq_true]
  constructor
  · intro cell hcell
    exact hvalue (hm.store cell (.inl (List.mem_range.1 hcell)))
  · cases v? with
    | none => rfl
    | some v => exact hvalue (hv v rfl)

/-! ## Runs -/

/-- The span of the error that a run stops with. -/
def Run.errorSpan? : EStateM.Result Halt Machine (Option Value) → Option Span
  | .error (.error ⟨_, .proper s⟩) _ => some s
  | _ => none

theorem Run.exists_error_of_span {r : EStateM.Result Halt Machine (Option Value)} {s : Span}
    (h : Run.errorSpan? r = some s) : ∃ e m, r = .error (.error e) m ∧ e.origin = .proper s := by
  unfold Run.errorSpan? at h
  split at h
  · cases h
    exact ⟨_, _, rfl, rfl⟩
  · cases h

/-- However a program is run, an error is at the span of one of its nodes, and so it is in the
source. At any time of the run, variables come from such spans: a watch for that never ends it,
and it holds of what the run leaves. -/
theorem errors_point_at_nodes {source : List Char} {program : Node}
    (h : parse source = .ok program) (fuel : Nat) (console : Console) (trace : Trace) :
    (∀ e m, (Machine.fresh console trace).run fuel program = .error (.error e) m →
      ∃ s ∈ program.spans, e.origin = .proper s ∧
        0 ≤ s.start ∧ s.start ≤ s.stop ∧ s.stop ≤ source.length) ∧
    (∀ stop, (Machine.fresh console trace).overseenRun (Oversight.pointing program.spans) stop
      fuel program = (Machine.fresh console trace).run fuel program) ∧
    ∀ cell < (Run.final ((Machine.fresh console trace).run fuel program)).store.size,
      ∃ s ∈ program.spans, ((Run.final ((Machine.fresh console trace).run fuel
        program)).store.get cell).origin = .proper s := by
  have hregular := parse_regular h
  have := within_hereditary hregular
  have hprogram : program.From program.Within := ⟨Node.within_self hregular, hregular⟩
  refine ⟨fun e m herror => ?_, fun stop => ?_, fun cell hcell => ?_⟩
  · obtain ⟨s, hs, horigin⟩ := Origin.From.span hregular
      (origin_from_of_error hprogram fuel console trace herror)
    exact ⟨s, hs, horigin, spans_within h hs⟩
  · exact overseenRun_eq hprogram fuel console trace (Oversight.pointing_admits hregular) stop
  · have hvalue := (run_provenance hprogram fuel console trace).store cell (.inl hcell)
    exact Origin.From.span hregular hvalue.placed

/-- An array with an unset variable in it, which is run. Its element has no place of its own. -/
def unsetElement : List Char := "z <- z; a <- [z]; eval exec a".toList

theorem errors_point_at_nodes_unsetElement : ∃ program e m, parse unsetElement = .ok program ∧
    (Machine.fresh {} #[]).run 60 program = .error (.error e) m ∧ m.store.size = 2 ∧
    e.origin = .proper ⟨28, 29⟩ ∧ ⟨28, 29⟩ ∈ program.spans ∧
    ∀ cell < m.store.size, ∃ s ∈ program.spans, (m.store.get cell).origin = .proper s := by
  have hparsed : (parse unsetElement).toOption.map (fun program =>
      (Run.errorSpan? ((Machine.fresh {} #[]).run 60 program),
        (Run.final ((Machine.fresh {} #[]).run 60 program)).store.size)) =
      some (some ⟨28, 29⟩, 2) := by
    decide +kernel
  cases hprogram : parse unsetElement with
  | error e =>
    rw [hprogram] at hparsed
    cases hparsed
  | ok program =>
    rw [hprogram] at hparsed
    obtain ⟨hspan, hsize⟩ := Prod.mk.inj (Option.some.inj hparsed)
    obtain ⟨e, m, hrun, horigin⟩ := Run.exists_error_of_span hspan
    obtain ⟨herror, -, hstore⟩ := errors_point_at_nodes hprogram 60 {} #[]
    rw [hrun] at hsize hstore
    obtain ⟨s, hs, hplace, -⟩ := herror e m hrun
    cases horigin.symm.trans hplace
    exact ⟨program, e, m, rfl, hrun, hsize, horigin, hs, hstore⟩

end Mandate
