/-
  Mandate.Proofs.NumberConversion

  Texts turned into numbers by `toNumber` and tested by `isNumber`.

    * `OutOfRange`: the text spells a prefixed number that no number is near to. Such a
      text cannot be read, and no other fails (`read_eq_error_iff`): a prefixed number
      is a whole number first, while a decimal as large reads as infinite.
    * `toNumber_of_number`, `toNumber_of_none`, `isNumber_of_read`: what the words do with
      a text that can be read.
    * `conversion_agrees_with_test`: unless the text is out of range, `toNumber` gives a
      number just if `isNumber` says so, and otherwise reports the text at its operand.
      If it is, both end with a fault.
-/

import Mandate.Proofs.BasicSteps
import Mandate.Proofs.NumberGrammar
import Mandate.Semantics.Run

namespace Mandate

/-! ## Texts that cannot be read -/

namespace Number

/-- A text that spells a prefixed number beyond the range. -/
def OutOfRange (text : List Char) : Prop :=
  ∃ base ds, Prefixed base ds (Text.trim text) ∧ beyondRange ≤ (positional base ds : ℚ)

theorem read_eq_error_iff {text : List Char} {f : Fault} :
    read text = .error f ↔ f = .tooLarge ∧ OutOfRange text := by
  constructor
  · intro h
    by_cases hprefixed : ∃ base ds, Prefixed base ds (Text.trim text)
    · obtain ⟨base, ds, hprefixed⟩ := hprefixed
      rw [read_of_prefixed hprefixed] at h
      split at h
      · cases h
      · next hrange =>
        cases h
        exact ⟨rfl, base, ds, hprefixed, not_lt.1 hrange⟩
    · rw [read_of_not_prefixed fun base ds h => hprefixed ⟨base, ds, h⟩] at h
      cases h
  · rintro ⟨rfl, base, ds, hprefixed, hrange⟩
    rw [read_of_prefixed hprefixed, if_neg (not_lt.2 hrange)]

theorem exists_read {text : List Char} (h : ¬OutOfRange text) : ∃ x?, read text = .ok x? := by
  cases hread : read text with
  | ok x? => exact ⟨x?, rfl⟩
  | error f => exact absurd (read_eq_error_iff.1 hread).2 h

end Number

/-! ## The words -/

section Words

variable {fuel : Nat} {self : Option Payload} {operand : Node} {m m' : Machine} {s : Text}
  {place : Origin}

/-- A text that is read, as a step. -/
theorem spelledNumber_run {x? : Option Float} (h : Number.read s.chars = .ok x?) :
    (Semantics.spelledNumber (.text s) : Run (Option Float)) m = .ok x? m := by
  have hspelled : Semantics.spelledNumber (.text s) = .ok x? := h
  rw [hspelled]
  rfl

theorem spelledNumber_fault {f : Fault} (h : Number.read s.chars = .error f) :
    (Semantics.spelledNumber (.text s) : Run (Option Float)) m = .error (.fault f) m := by
  have hspelled : Semantics.spelledNumber (.text s) = .error f := h
  rw [hspelled]
  rfl

/-- Both words look at the text of their operand. -/
theorem compute_onText {word : Builtin} (hword : word = .isNumber ∨ word = .toNumber)
    (h : (engine fuel).compute self operand m = .ok ⟨.text s, Datatype.string, place⟩ m')
    (o : Origin) :
    (engine (fuel + 1)).compute self (.builtin word operand o) m =
      Semantics.onText word (.text s) operand o m' := by
  have hexpect : Run.expect Datatype.string ⟨.text s, Datatype.string, place⟩ m' =
      .ok ⟨.text s, Datatype.string, place⟩ m' := rfl
  rcases hword with rfl | rfl
  · show Semantics.builtin (engine fuel) self .isNumber operand o m = _
    exact (Run.bind_of_ok h _).trans (Run.bind_of_ok hexpect _)
  · show Semantics.builtin (engine fuel) self .toNumber operand o m = _
    exact (Run.bind_of_ok h _).trans (Run.bind_of_ok hexpect _)

variable (h : (engine fuel).compute self operand m = .ok ⟨.text s, Datatype.string, place⟩ m')
  (o : Origin)

include h

theorem isNumber_of_read {x? : Option Float} (hread : Number.read s.chars = .ok x?) :
    (engine (fuel + 1)).compute self (.builtin .isNumber operand o) m =
      .ok ⟨.bool x?.isSome, Datatype.boolean, o⟩ m' := by
  rw [compute_onText (.inl rfl) h]
  exact Run.bind_of_ok (spelledNumber_run hread) _

theorem toNumber_of_number {x : Float} (hread : Number.read s.chars = .ok (some x)) :
    (engine (fuel + 1)).compute self (.builtin .toNumber operand o) m =
      .ok ⟨.number x, Datatype.number, o⟩ m' := by
  rw [compute_onText (.inr rfl) h]
  exact Run.bind_of_ok (spelledNumber_run hread) _

/-- A text that is no number is reported where it comes from. -/
theorem toNumber_of_none (hread : Number.read s.chars = .ok none) {origin : Origin}
    (horigin : operand.origin? = some origin) :
    (engine (fuel + 1)).compute self (.builtin .toNumber operand o) m =
      .error (Halt.of (.ok (.notNumber s)) origin) m' := by
  have hplace : (Semantics.originOf operand : Run Origin) m' = .ok origin m' := by
    rw [Semantics.originOf, horigin]
    rfl
  rw [compute_onText (.inr rfl) h]
  exact (Run.bind_of_ok (spelledNumber_run hread) _).trans (Run.bind_of_ok hplace _)

/-- A text that is no number ends the conversion, wherever it comes from. -/
theorem toNumber_stops (hread : Number.read s.chars = .ok none) :
    ∃ halt, (engine (fuel + 1)).compute self (.builtin .toNumber operand o) m = .error halt m' := by
  cases horigin : operand.origin? with
  | some origin => exact ⟨_, toNumber_of_none h o hread horigin⟩
  | none =>
    have hplace : (Semantics.originOf operand : Run Origin) m' = .error (.fault .noPart) m' := by
      rw [Semantics.originOf, horigin]
      rfl
    rw [compute_onText (.inr rfl) h]
    exact ⟨_, (Run.bind_of_ok (spelledNumber_run hread) _).trans (Run.bind_of_error hplace _)⟩

/-- A text that cannot be read ends either word. -/
theorem fault_of_read {word : Builtin} (hword : word = .isNumber ∨ word = .toNumber) {f : Fault}
    (hread : Number.read s.chars = .error f) :
    (engine (fuel + 1)).compute self (.builtin word operand o) m = .error (.fault f) m' := by
  rw [compute_onText hword h]
  rcases hword with rfl | rfl
  · exact Run.bind_of_error (spelledNumber_fault hread) _
  · exact Run.bind_of_error (spelledNumber_fault hread) _

end Words

/-- A text is read as a number, as none, or not at all if it is out of range. In the first two
cases `isNumber` tells which, `toNumber` gives the number just if there is one, and otherwise it
reports the text at its operand. Out of range, both words end with a fault. -/
theorem conversion_agrees_with_test (s : Text) :
    (Number.read s.chars = .error .tooLarge ↔ Number.OutOfRange s.chars) ∧
      (¬Number.OutOfRange s.chars → ∃ x?, Number.read s.chars = .ok x?) ∧
      ∀ (fuel : Nat) (self : Option Payload) (operand : Node) (m m' : Machine) (place o : Origin),
        (engine fuel).compute self operand m = .ok ⟨.text s, Datatype.string, place⟩ m' →
        (¬Number.OutOfRange s.chars → ∃ b,
          (engine (fuel + 1)).compute self (.builtin .isNumber operand o) m =
            .ok ⟨.bool b, Datatype.boolean, o⟩ m' ∧
          (b = true ↔ ∃ x, (engine (fuel + 1)).compute self (.builtin .toNumber operand o) m =
            .ok ⟨.number x, Datatype.number, o⟩ m') ∧
          (b = false → ∀ span, operand.origin? = some (.proper span) →
            (engine (fuel + 1)).compute self (.builtin .toNumber operand o) m =
              .error (.error ⟨.notNumber s, .proper span⟩) m')) ∧
        (Number.OutOfRange s.chars → ∀ word, word = .isNumber ∨ word = .toNumber →
          (engine (fuel + 1)).compute self (.builtin word operand o) m =
            .error (.fault .tooLarge) m') := by
  have herror : Number.read s.chars = .error .tooLarge ↔ Number.OutOfRange s.chars := by
    rw [Number.read_eq_error_iff, and_iff_right rfl]
  refine ⟨herror, Number.exists_read, fun fuel self operand m m' place o h => ⟨fun hrange => ?_,
    fun hrange word hword => fault_of_read h o hword (herror.2 hrange)⟩⟩
  obtain ⟨x?, hread⟩ := Number.exists_read hrange
  refine ⟨x?.isSome, isNumber_of_read h o hread, ?_⟩
  cases x? with
  | some x =>
    refine ⟨iff_of_true rfl ⟨x, toNumber_of_number h o hread⟩, fun hnone => ?_⟩
    cases hnone
  | none =>
    refine ⟨iff_of_false Bool.false_ne_true ?_, fun _ span horigin =>
      toNumber_of_none h o hread horigin⟩
    rintro ⟨x, hx⟩
    obtain ⟨halt, hhalt⟩ := toNumber_stops h o hread
    rw [hhalt] at hx
    cases hx

/-- A prefix without digits is no number, which the conversion reports at the text. -/
theorem conversion_of_bare_prefix :
    (engine 2).compute none (.builtin .toNumber (Node.string "0x" ⟨9, 13⟩) (.proper ⟨0, 13⟩)) {} =
      .error (.error ⟨.notNumber "0x", .proper ⟨9, 13⟩⟩) {} := by
  have hread : Number.read (Text.ofString "0x").chars = .ok none := rfl
  obtain ⟨herror, -, hrun⟩ := conversion_agrees_with_test "0x"
  have hrange : ¬Number.OutOfRange (Text.ofString "0x").chars := by
    rw [← herror, hread]
    exact fun h => by cases h
  obtain ⟨hread, -⟩ := hrun 1 none (Node.string "0x" ⟨9, 13⟩) {} {} (.proper ⟨9, 13⟩)
    (.proper ⟨0, 13⟩) rfl
  obtain ⟨b, htest, -, hconversion⟩ := hread hrange
  have hfalse : b = false := by
    have htest' : (engine 2).compute none (.builtin .isNumber (Node.string "0x" ⟨9, 13⟩)
        (.proper ⟨0, 13⟩)) {} = .ok ⟨.bool false, Datatype.boolean, .proper ⟨0, 13⟩⟩ {} := rfl
    rw [htest'] at htest
    cases htest
    rfl
  exact hconversion hfalse ⟨9, 13⟩ rfl

/-- The text of 2^1024, a prefixed number beyond the range. -/
def pastTheRange : List Char := '0' :: 'x' :: '1' :: List.replicate 256 '0'

/-- Even the test ends with a fault. -/
theorem isNumber_faults_pastTheRange :
    (engine 2).compute none (.builtin .isNumber (Node.string (String.ofList pastTheRange) ⟨9, 270⟩)
      (.proper ⟨0, 270⟩)) {} = .error (.fault .tooLarge) {} := by
  have hnone : (Number.read pastTheRange).toOption.isNone = true := by decide +kernel
  refine fault_of_read rfl _ (.inl rfl) ?_
  rw [Text.chars_ofString, String.toList_ofList]
  cases hread : Number.read pastTheRange with
  | ok x? =>
    rw [hread] at hnone
    cases hnone
  | error f => rw [(Number.read_eq_error_iff.1 hread).1]

end Mandate
