/-
  Mandate.Proofs.RunResults

  What a step comes to in the end, whatever fuel that takes, and when two steps come
  to the same. Runs are compared without their traces: constructs that do the same
  are traced differently.

    * `Machine.EqUpToTrace` and `Run.EqUpToTrace`: states and results that are
      equal but for what was traced. Scopes after an error count if the comparison is
      strict.
    * `Run.KeptUpToTrace x y`: what `x` comes to, unless it is short of fuel, `y`
      comes to, traces aside.
    * `Run.HasResult`: what a step comes to with enough fuel. `Run.SameResults`: two
      steps both come to an end, and to the same, or none does.
-/

import Mandate.Proofs.Fuel
import Mandate.Proofs.Pieces

namespace Mandate

/-! ## States and results -/

/-- States that differ in what was traced. The scopes are the same too if the comparison is
strict. -/
structure Machine.EqUpToTrace (strict : Prop) (m m' : Machine) : Prop where
  store : m.store = m'.store
  console : m.console = m'.console
  objects : m.objects = m'.objects
  scope : strict → m.scope = m'.scope

/-- Results that differ in what was traced: the same end in the same state, and after an error
in the same scope if the comparison is strict. -/
inductive Run.EqUpToTrace {α : Type} (strict : Prop) :
    EStateM.Result Halt Machine α → EStateM.Result Halt Machine α → Prop where
  | ok (a : α) {m m' : Machine} (h : m.EqUpToTrace True m') :
      EqUpToTrace strict (.ok a m) (.ok a m')
  | error (e : Halt) {m m' : Machine} (h : m.EqUpToTrace strict m') :
      EqUpToTrace strict (.error e m) (.error e m')

namespace Machine.EqUpToTrace

variable {strict : Prop} {m m' m'' : Machine}

theorem refl (m : Machine) : m.EqUpToTrace strict m := ⟨rfl, rfl, rfl, fun _ => rfl⟩

theorem symm (h : m.EqUpToTrace strict m') : m'.EqUpToTrace strict m :=
  ⟨h.store.symm, h.console.symm, h.objects.symm, fun hs => (h.scope hs).symm⟩

theorem trans (h : m.EqUpToTrace strict m') (h' : m'.EqUpToTrace strict m'') :
    m.EqUpToTrace strict m'' :=
  ⟨h.store.trans h'.store, h.console.trans h'.console, h.objects.trans h'.objects,
    fun hs => (h.scope hs).trans (h'.scope hs)⟩

theorem of_trace (m : Machine) (trace : Trace) : m.EqUpToTrace strict { m with trace := trace } :=
  ⟨rfl, rfl, rfl, fun _ => rfl⟩

theorem eq (h : m.EqUpToTrace True m') : { m with trace := m'.trace } = m' := by
  rw [h.store, h.console, h.objects, h.scope trivial]

end Machine.EqUpToTrace

namespace Run

variable {α β : Type} {strict : Prop}

namespace EqUpToTrace

variable {r r' r'' : EStateM.Result Halt Machine α}

theorem symm (h : EqUpToTrace strict r r') : EqUpToTrace strict r' r := by
  cases h with
  | ok a h => exact .ok a h.symm
  | error e h => exact .error e h.symm

theorem trans (h : EqUpToTrace strict r r') (h' : EqUpToTrace strict r' r'') :
    EqUpToTrace strict r r'' := by
  cases h with
  | ok a h =>
    cases h' with
    | ok _ h' => exact .ok a (h.trans h')
  | error e h =>
    cases h' with
    | error _ h' => exact .error e (h.trans h')

theorem finished_eq (h : EqUpToTrace strict r r') : finished r = finished r' := by
  cases h with
  | ok => rfl
  | error e => cases e <;> rfl

end EqUpToTrace

end Run

/-! ## Steps that come to the same -/

namespace Run

variable {α β : Type} {strict : Prop}

/-- What the first step comes to, unless it is short of fuel, the second one comes to, traces
aside. -/
def KeptUpToTrace (strict : Prop) (x y : Run α) : Prop :=
  ∀ m m', m.EqUpToTrace True m' → finished (x m) = true → EqUpToTrace strict (x m) (y m')

/-- Steps that lead to the same states, traces aside, or the first is short of fuel. -/
theorem KeptUpToTrace.of_paired {self : Option Payload} {Q : α → α → Machine → Prop} {x y : Run α}
    (h : ∀ m, Run.Paired (DataInvariant.all.correspondence True .any).pairing self self m Q x y)
    (hQ : ∀ a b m, Q a b m → b = a) : KeptUpToTrace strict x y := by
  intro m m' hm hfinished
  have hstates : (DataInvariant.all.correspondence True .any).States self self m m' := by
    rw [← hm.eq]
    exact (DataInvariant.all_holds self m).states trivial
  have houtcomes := h m m' hstates
  generalize x m = r at hfinished houtcomes
  generalize y m' = r' at houtcomes
  cases houtcomes with
  | ok hab hm₁ =>
    obtain ⟨-, -, hsame⟩ := DataInvariant.holds_of_states hm₁
    rw [hQ _ _ _ hab, hsame]
    exact .ok _ (.of_trace _ _)
  | error _ hm₁ =>
    obtain ⟨-, -, hsame⟩ := DataInvariant.holds_of_states hm₁
    rw [hsame]
    exact .error _ (.of_trace _ _)
  | short => cases hfinished

namespace KeptUpToTrace

theorem trans {x y z : Run α} (h : KeptUpToTrace strict x y) (h' : KeptUpToTrace strict y z) :
    KeptUpToTrace strict x z := by
  intro m m' hm hx
  have hy := h m m (.refl m) hx
  rw [hy.finished_eq] at hx
  exact hy.trans (h' m m' hm hx)

theorem exhausted (y : Run α) : KeptUpToTrace strict (throw .exhausted) y :=
  fun _ _ _ hx => by cases hx

theorem pure (a : α) : KeptUpToTrace strict (Pure.pure a) (Pure.pure a) := fun _ _ hm _ => .ok a hm

/-- Two steps one after the other. -/
theorem bind {x y : Run α} {f g : α → Run β} (h : KeptUpToTrace strict x y)
    (hf : ∀ a, KeptUpToTrace strict (f a) (g a)) : KeptUpToTrace strict (x >>= f) (y >>= g) := by
  intro m m' hm hend
  cases hx : x m with
  | ok a m₁ =>
    rw [bind_of_ok hx] at hend ⊢
    have hxy := h m m' hm (by rw [hx]; rfl)
    rw [hx] at hxy
    generalize hy : y m' = r at hxy
    cases hxy with
    | ok _ hm₁ =>
      rw [bind_of_ok hy]
      exact hf a _ _ hm₁ hend
  | error e m₁ =>
    rw [bind_of_error hx] at hend ⊢
    have hxy := h m m' hm (by
      rw [hx]
      cases e with
      | exhausted => cases hend
      | error | fault => rfl)
    rw [hx] at hxy
    generalize hy : y m' = r at hxy
    cases hxy with
    | error _ hm₁ =>
      rw [bind_of_error hy]
      exact .error e hm₁

/-- It makes no difference that the first step is traced. -/
theorem note_left {x y : Run α} (h : KeptUpToTrace strict x y) (level : Nat) (line : String) :
    KeptUpToTrace strict (do Run.note level line; x) y := fun m _ hm hx =>
  h { m with trace := m.trace.push ⟨level, line⟩ } _
    ⟨hm.store, hm.console, hm.objects, hm.scope⟩ hx

/-- It makes no difference that the second step is traced. -/
theorem note_right {x y : Run α} (h : KeptUpToTrace strict x y) (level : Nat) (line : String) :
    KeptUpToTrace strict x (do Run.note level line; y) := fun m m' hm hx =>
  h m { m' with trace := m'.trace.push ⟨level, line⟩ }
    ⟨hm.store, hm.console, hm.objects, hm.scope⟩ hx

/-- Bodies of steps that come to the same hand back the same scope, also after an error. -/
theorem body {x y : Run α} (h : KeptUpToTrace strict x y) :
    KeptUpToTrace strict (Run.body x) (Run.body y) := by
  intro m m' hm hx
  rw [finished_body] at hx
  have hxy := h m m' hm hx
  unfold Run.body
  revert hxy
  generalize x m = r, y m' = r'
  rintro (⟨a, hm₁⟩ | ⟨e, hm₁⟩)
  · exact .ok a hm₁
  · exact .error e ⟨hm₁.store, hm₁.console, hm₁.objects, fun _ => hm.scope trivial⟩

/-- A body leaves another scope only after an error. -/
theorem body_left {x y : Run α} (h : KeptUpToTrace False x y) :
    KeptUpToTrace False (Run.body x) y := by
  intro m m' hm hx
  rw [finished_body] at hx
  have hxy := h m m' hm hx
  unfold Run.body
  revert hxy
  generalize x m = r, y m' = r'
  rintro (⟨a, hm₁⟩ | ⟨e, hm₁⟩)
  · exact .ok a hm₁
  · exact .error e ⟨hm₁.store, hm₁.console, hm₁.objects, False.elim⟩

theorem body_right {x y : Run α} (h : KeptUpToTrace False x y) :
    KeptUpToTrace False x (Run.body y) := by
  intro m m' hm hx
  have hxy := h m m' hm hx
  unfold Run.body
  revert hxy
  generalize x m = r, y m' = r'
  rintro (⟨a, hm₁⟩ | ⟨e, hm₁⟩)
  · exact .ok a hm₁
  · exact .error e ⟨hm₁.store, hm₁.console, hm₁.objects, False.elim⟩

end KeptUpToTrace

/-! ## One instruction after another -/

/-- Two instructions in turn: the second one is run if the first comes to no value. -/
def followedBy (x y : Run (Option Value)) : Run (Option Value) := do
  match ← x with
  | some v => return some v
  | none => y

theorem KeptUpToTrace.followedBy {x x' y y' : Run (Option Value)}
    (h : KeptUpToTrace strict x x') (h' : KeptUpToTrace strict y y') :
    KeptUpToTrace strict (x.followedBy y) (x'.followedBy y') := by
  refine h.bind fun result => ?_
  cases result with
  | some v => exact .pure (some v)
  | none => exact h'

/-! ## Ends -/

/-- What a step comes to with enough fuel. -/
def HasResult (x : Nat → Run α) (m : Machine) (r : EStateM.Result Halt Machine α) : Prop :=
  finished r = true ∧ ∃ fuel, x fuel m = r

/-- Two steps that come to the same from two states, traces aside: if one of them comes to an
end, so does the other. -/
def SameResults (strict : Prop) (x : Nat → Run α) (m : Machine) (y : Nat → Run α) (m' : Machine) :
    Prop :=
  (∀ r, HasResult x m r → ∃ r', HasResult y m' r' ∧ EqUpToTrace strict r r') ∧
  ∀ r', HasResult y m' r' → ∃ r, HasResult x m r ∧ EqUpToTrace strict r r'

/-- A step that comes to the same with more fuel. -/
def FuelMonotone (x : Nat → Run α) : Prop := ∀ {k k' : Nat}, k ≤ k' → KeptBy (x k) (x k')

/-- Whatever fuel the one step is given, with enough fuel the other comes to the same. -/
theorem HasResult.of_keptUpToTrace {x y : Nat → Run α} {m m' : Machine}
    {r : EStateM.Result Halt Machine α} (h : HasResult x m r)
    (hxy : ∀ k, ∃ k', KeptUpToTrace strict (x k) (y k')) (hm : m.EqUpToTrace True m') :
    ∃ r', HasResult y m' r' ∧ EqUpToTrace strict r r' := by
  obtain ⟨hr, fuel, rfl⟩ := h
  obtain ⟨fuel', hbelow⟩ := hxy fuel
  have heq := hbelow m m' hm hr
  exact ⟨_, ⟨heq.finished_eq.symm.trans hr, fuel', rfl⟩, heq⟩

theorem SameResults.of_keptUpToTrace {x y : Nat → Run α}
    (hxy : ∀ k, ∃ k', KeptUpToTrace strict (x k) (y k'))
    (hyx : ∀ k, ∃ k', KeptUpToTrace strict (y k) (x k')) {m m' : Machine}
    (hm : m.EqUpToTrace True m') :
    SameResults strict x m y m' := by
  refine ⟨fun r hr => hr.of_keptUpToTrace hxy hm, fun r' hr' => ?_⟩
  obtain ⟨r, hr, heq⟩ := hr'.of_keptUpToTrace hyx hm.symm
  exact ⟨r, hr, heq.symm⟩

theorem FuelMonotone.bind {x : Nat → Run α} {f : Nat → α → Run β} (hx : FuelMonotone x)
    (hf : ∀ a, FuelMonotone fun k => f k a) : FuelMonotone fun k => x k >>= f k :=
  fun hk => (hx hk).bind fun a => hf a hk

/-- After a step that comes to its end, what follows is run from there. -/
theorem HasResult.bind_iff {x : Nat → Run α} {f : Nat → α → Run β} (hx : FuelMonotone x)
    (hf : ∀ a, FuelMonotone fun k => f k a) {m m₁ : Machine} {a : α} (h : HasResult x m (.ok a m₁))
    (r : EStateM.Result Halt Machine β) :
    HasResult (fun k => x k >>= f k) m r ↔ HasResult (fun k => f k a) m₁ r := by
  obtain ⟨-, fuel, hfuel⟩ := h
  -- Each direction takes the larger of two amounts of fuel, where both steps have come to their
  -- ends.
  have hlater : ∀ k, fuel ≤ k → x k m = .ok a m₁ := fun k hk =>
    (hx hk m (by rw [hfuel]; rfl)).trans hfuel
  constructor
  · rintro ⟨hr, k, hk⟩
    refine ⟨hr, max fuel k, ?_⟩
    have hmore := hx.bind hf (Nat.le_max_right fuel k) m (by rwa [hk])
    rw [hk] at hmore
    dsimp only at hmore
    rwa [bind_of_ok (hlater _ (Nat.le_max_left fuel k))] at hmore
  · rintro ⟨hr, k, hk⟩
    refine ⟨hr, max fuel k, ?_⟩
    have hmore := hf a (Nat.le_max_right fuel k) m₁ (by rwa [hk])
    rw [hk] at hmore
    dsimp only at hmore ⊢
    rw [bind_of_ok (hlater _ (Nat.le_max_left fuel k)), hmore]

section

variable {x y : Nat → Run (Option Value)} {m m₁ : Machine}

/-- After an instruction that comes to no value the next one is run from there. -/
theorem HasResult.followedBy_iff (hx : FuelMonotone x) (hy : FuelMonotone y)
    (h : HasResult x m (.ok none m₁))
    (r : EStateM.Result Halt Machine (Option Value)) :
    HasResult (fun k => (x k).followedBy (y k)) m r ↔ HasResult y m₁ r := by
  refine h.bind_iff hx (fun result => ?_) r
  cases result with
  | some v => exact fun _ => .refl _
  | none => exact hy

/-- After an instruction that comes to a value nothing is run. -/
theorem HasResult.followedBy {v : Value} (h : HasResult x m (.ok (some v) m₁))
    (y : Nat → Run (Option Value)) :
    HasResult (fun k => (x k).followedBy (y k)) m (.ok (some v) m₁) := by
  obtain ⟨-, fuel, hfuel⟩ := h
  exact ⟨rfl, fuel, bind_of_ok hfuel _⟩

/-- A body that comes to its end leaves what it is the body of. -/
theorem HasResult.body {a : Option Value} (h : HasResult x m (.ok a m₁)) :
    HasResult (fun k => Run.body (x k)) m (.ok a m₁) := by
  obtain ⟨-, fuel, hfuel⟩ := h
  refine ⟨rfl, fuel, ?_⟩
  show Run.body (x fuel) m = _
  unfold Run.body
  rw [hfuel]

end

end Run

/-! ## What an engine does with more fuel -/

/-- Running a node, with some fuel. -/
abbrev Node.running (self : Option Payload) (n : Node) (fuel : Nat) : Run (Option Value) :=
  (engine fuel).run self n

theorem running_fuelMonotone (self : Option Payload) (n : Node) :
    Run.FuelMonotone (n.running self) :=
  fun hk => run_keptBy hk self n

section

open DataInvariant (all_payloads all_selves eq_of_results)

variable {self : Option Payload} {k k' : Nat} {strict : Prop}

theorem perform_keptUpToTrace (h : k ≤ k') (p : Payload) (o : Origin) :
    Run.KeptUpToTrace strict ((engine k).perform self p o) ((engine k').perform self p o) :=
  .of_paired (fun m => (engine_more .any h).perform (all_selves m self) (all_payloads _ p)
    (.inr trivial)) eq_of_results

theorem run_keptUpToTrace (h : k ≤ k') (n : Node) :
    Run.KeptUpToTrace strict ((engine k).run self n) ((engine k').run self n) :=
  perform_keptUpToTrace h _ _

theorem sequence_keptUpToTrace (h : k ≤ k') (o : Origin) (ps : List Payload) :
    Run.KeptUpToTrace strict (Semantics.sequence (engine k) self o ps)
      (Semantics.sequence (engine k') self o ps) :=
  .of_paired (fun m => (engine_more .any h).sequence (all_selves m self) trivial
    (List.forall₂_same.2 fun p _ => all_payloads _ p)) eq_of_results

theorem condition_keptUpToTrace (h : k ≤ k') (c : Node) :
    Run.KeptUpToTrace strict (Semantics.condition (engine k) self c)
      (Semantics.condition (engine k') self c) :=
  .of_paired (fun m => (engine_more .any h).condition (all_selves m self) trivial)
    fun _ _ _ => Eq.symm

theorem repeatWhile_keptUpToTrace (h : k ≤ k') (c b : Node) {rounds rounds' : Nat}
    (hrounds : rounds ≤ rounds') :
    Run.KeptUpToTrace strict (Semantics.repeatWhile (engine k) self c b rounds)
      (Semantics.repeatWhile (engine k') self c b rounds') :=
  .of_paired (fun m => (engine_more .any h).repeatWhile (all_selves m self) trivial trivial
    (.inr ⟨trivial, hrounds⟩)) eq_of_results

/-- An engine with too little fuel to look at a tree runs nothing. -/
theorem perform_short (hk : k < 2) (n : Node) (o : Origin) (y : Run (Option Value)) :
    Run.KeptUpToTrace strict ((engine k).perform self (.node n) o) y := by
  cases k with
  | zero => exact .exhausted y
  | succ k =>
    obtain rfl : k = 0 := by omega
    exact fun _ _ _ hx => by cases hx

/-- So it is enough to look at engines with more. -/
theorem perform_keptUpToTrace_of_long {n : Node} {o : Origin} {y : Run (Option Value)}
    (h : ∀ j, k = j + 2 → Run.KeptUpToTrace strict ((engine (j + 2)).perform self (.node n) o) y) :
    Run.KeptUpToTrace strict ((engine k).perform self (.node n) o) y := by
  by_cases hk : k < 2
  · exact perform_short hk n o y
  · obtain ⟨j, rfl⟩ : ∃ j, k = j + 2 := ⟨k - 2, by omega⟩
    exact h j rfl

end

/-! ## Sequences -/

/-- The trace line about an instruction. -/
def Node.runLine (n : Node) (s : Span) : String := "run " ++ n.label ++ " at " ++ s.text

/-- Running some nodes in turn, as the elements of an array, with some fuel. -/
abbrev Node.runningAll (self : Option Payload) (o : Origin) (ns : List Node) (fuel : Nat) :
    Run (Option Value) :=
  Semantics.sequence (engine fuel) self o (ns.map Payload.ofNode)

section

variable (self : Option Payload)

theorem sequence_cons (E : Engine) (o : Origin) (p : Payload) (ps : List Payload) :
    Semantics.sequence E self o (p :: ps)
      = (E.perform self p o).followedBy (Semantics.sequence E self o ps) := rfl

/-- A tree is run the same way from any array. -/
theorem perform_node_origin (k : Nat) (n : Node) (o o' : Origin) :
    (engine k).perform self (.node n) o = (engine k).perform self (.node n) o' := by
  cases k <;> rfl

theorem Payload.ofNode_of_isData {n : Node} (h : n.isData = false) : ofNode n = .node n := by
  cases n with
  | data d => cases h
  | _ => rfl

/-- A tree is run from an array as by itself. -/
theorem perform_eq_run {n : Node} (h : n.isData = false) (k : Nat) (o : Origin) :
    (engine k).perform self (Payload.ofNode n) o = (engine k).run self n := by
  rw [Engine.run, Payload.ofNode_of_isData h, perform_node_origin self k n o Origin.none]

theorem runningAll_cons (k : Nat) (o : Origin) (n : Node) (ns : List Node) :
    Node.runningAll self o (n :: ns) k
      = ((engine k).perform self (Payload.ofNode n) o).followedBy (Node.runningAll self o ns k) :=
  sequence_cons self (engine k) o _ _

theorem runningAll_fuelMonotone (o : Origin) (ns : List Node) :
    Run.FuelMonotone (Node.runningAll self o ns) :=
  fun hk => sequence_keptBy hk self o _

/-- An array runs its elements in turn. -/
theorem run_array (k : Nat) (es : List Node) (s : Span) :
    (engine (k + 2)).run self (.array (.proper es) (.proper s)) = (do
      Run.note 3 ((Node.array (.proper es) (.proper s)).runLine s)
      Node.runningAll self (.proper s) es (k + 1)) := rfl

end

end Mandate
