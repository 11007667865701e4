/-
  Mandate.Proofs.Flattening

  Arrays of instructions flatten: an array inside an array may as well be its elements.

  Arrays run as instructions run their elements in turn, and stop at the first value. So
  only the instructions that are no arrays count, from left to right.

    * `Node.flattened`: those instructions.
    * `sequence_append`: instructions of two lists in turn.
    * `nestKept` and `flatKept`: a nest of arrays comes to what its instructions come to
      in turn. The nest takes more fuel, by its depth.
    * `arrays_flatten`: the equivalence, and that nothing is run after a value.
-/

import Mandate.Proofs.RunResults
import Mandate.Proofs.StoredCode

namespace Mandate

/-! ## The instructions of a nest -/

mutual

/-- The instructions of a nest of arrays, from left to right. -/
def Node.flattened : Node → List Node
  | .array (.proper es) (.proper _) => Node.flattenedAll es
  | n => [n]

def Node.flattenedAll : List Node → List Node
  | [] => []
  | n :: ns => n.flattened ++ Node.flattenedAll ns

end

/-- A node is an array of instructions, or an instruction by itself. -/
theorem Node.flattened_cases (n : Node) :
    (∃ (es : List Node) (s : Span), n = .array (.proper es) (.proper s)) ∨ n.flattened = [n] := by
  cases n with
  | array es o =>
    cases es with
    | proper es =>
      cases o with
      | proper s => exact .inl ⟨es, s, rfl⟩
      | stray p => exact .inr rfl
    | stray p => exact .inr rfl
  | _ => exact .inr rfl

theorem Node.mem_flattenedAll {l : Node} {es : List Node} :
    l ∈ Node.flattenedAll es ↔ ∃ e ∈ es, l ∈ e.flattened := by
  induction es with
  | nil => simp [Node.flattenedAll]
  | cons e es ih => simp [Node.flattenedAll, ih]

section

variable {self : Option Payload} {k : Nat}

/-! ## Instructions in turn -/

theorem Run.followedBy_assoc (x y z : Run (Option Value)) :
    (x.followedBy y).followedBy z = x.followedBy (y.followedBy z) := by
  refine funext fun m => ?_
  cases hx : x m with
  | ok result m₁ =>
    have hleft : (x.followedBy y).followedBy z m = _ :=
      congrFun (bind_assoc x _ _) m
    have hright : x.followedBy (y.followedBy z) m = _ := Run.bind_of_ok hx _
    rw [hleft, hright, Run.bind_of_ok hx]
    cases result with
    | some v => rfl
    | none => rfl
  | error e m₁ =>
    have hleft : x.followedBy y m = .error e m₁ := Run.bind_of_error hx _
    have hright : x.followedBy (y.followedBy z) m = .error e m₁ := Run.bind_of_error hx _
    exact (Run.bind_of_error hleft _).trans hright.symm

/-- The instructions of two lists in turn. -/
theorem sequence_append (E : Engine) (self : Option Payload) (o : Origin) (ps qs : List Payload) :
    Semantics.sequence E self o (ps ++ qs)
      = (Semantics.sequence E self o ps).followedBy (Semantics.sequence E self o qs) := by
  induction ps with
  | nil => rfl
  | cons p ps ih =>
    rw [List.cons_append, sequence_cons, sequence_cons, ih, Run.followedBy_assoc]

theorem runningAll_append (o : Origin) (ns ns' : List Node) :
    Node.runningAll self o (ns ++ ns') k
      = (Node.runningAll self o ns k).followedBy (Node.runningAll self o ns' k) := by
  rw [Node.runningAll, List.map_append, sequence_append]

/-! ## Arrays run their elements -/

theorem array_kept_by_runningAll (es : List Node) (s : Span) (k : Nat) :
    Run.KeptUpToTrace True ((engine k).run self (.array (.proper es) (.proper s)))
      (Node.runningAll self (.proper s) es k) := by
  refine perform_keptUpToTrace_of_long ?_
  rintro j rfl
  exact (sequence_keptUpToTrace (by omega) _ _).note_left _ _

theorem runningAll_kept_by_array (es : List Node) (s : Span) (k : Nat) :
    Run.KeptUpToTrace True (Node.runningAll self (.proper s) es k)
      ((engine (k + 2)).run self (.array (.proper es) (.proper s))) := by
  rw [run_array]
  exact (sequence_keptUpToTrace (by omega) _ _).note_right _ _

/-! ## A nest comes to what its instructions come to -/

/-- A node by itself is run the same way as the only one of its instructions. -/
theorem runningAll_flattened_of_eq {n : Node} (hflat : n.flattened = [n]) (h : n.isData = false)
    (k : Nat) (o : Origin) :
    Node.runningAll self o n.flattened k = (engine k).run self n := by
  rw [hflat, ← perform_eq_run self h k o]
  exact funext fun m => sequence_single _ self o _ m

theorem runningAll_flattened_array (es : List Node) (s : Span) (o : Origin) (k : Nat) :
    Node.runningAll self o (Node.array (.proper es) (.proper s)).flattened k
      = Node.runningAll self o (Node.flattenedAll es) k := rfl

/-- As an element of an array, a node comes to what its instructions come to in turn. -/
def Node.NestKept (self : Option Payload) (n : Node) : Prop :=
  ∀ k o o', Run.KeptUpToTrace True ((engine k).perform self (Payload.ofNode n) o)
    (Node.runningAll self o' n.flattened k)

theorem runningAll_nestKept {es : List Node} (h : ∀ n ∈ es, n.NestKept self) (k : Nat)
    (o o' : Origin) :
    Run.KeptUpToTrace True (Node.runningAll self o es k)
      (Node.runningAll self o' (Node.flattenedAll es) k) := by
  induction es with
  | nil => exact .pure none
  | cons n ns ih =>
    rw [runningAll_cons, Node.flattenedAll, runningAll_append]
    exact (h n List.mem_cons_self k o o').followedBy
      (ih fun n' hn' => h n' (List.mem_cons_of_mem n hn'))

theorem nestKept (n : Node) (h : ∀ l ∈ n.flattened, l.isData = false) : n.NestKept self := by
  induction n using Node.inductParts with
  | h n ih =>
    intro k o o'
    -- The elements of an array are parts of it; what is no array is the end of the nest.
    obtain ⟨es, s, rfl⟩ | hflat := n.flattened_cases
    · have helements : ∀ e ∈ es, e.NestKept self := fun e he =>
        ih e he fun l hl => h l (Node.mem_flattenedAll.2 ⟨e, he, hl⟩)
      rw [perform_eq_run self rfl, runningAll_flattened_array]
      exact (array_kept_by_runningAll es s k).trans (runningAll_nestKept helements k s o')
    · have hn : n.isData = false := h n (by rw [hflat]; exact List.mem_singleton_self n)
      rw [runningAll_flattened_of_eq hflat hn, perform_eq_run self hn]
      exact run_keptUpToTrace (Nat.le_refl k) n

/-- With more fuel, by some amount, a node comes to what its instructions come to in turn. -/
def Node.FlatKept (self : Option Payload) (n : Node) : Prop :=
  ∃ more, ∀ k o o', Run.KeptUpToTrace True (Node.runningAll self o' n.flattened k)
    ((engine (k + more)).perform self (Payload.ofNode n) o)

theorem runningAll_flatKept {es : List Node} (h : ∀ n ∈ es, n.FlatKept self) :
    ∃ more, ∀ k o o', Run.KeptUpToTrace True (Node.runningAll self o' (Node.flattenedAll es) k)
      (Node.runningAll self o es (k + more)) := by
  induction es with
  | nil => exact ⟨0, fun _ _ _ => .pure none⟩
  | cons n ns ih =>
    obtain ⟨more, hmore⟩ := h n List.mem_cons_self
    obtain ⟨more', hmore'⟩ := ih fun n' hn' => h n' (List.mem_cons_of_mem n hn')
    refine ⟨more + more', fun k o o' => ?_⟩
    rw [runningAll_cons, Node.flattenedAll, runningAll_append]
    exact ((hmore k o o').trans (perform_keptUpToTrace (by omega) _ _)).followedBy
      ((hmore' k o o').trans (sequence_keptUpToTrace (by omega) _ _))

theorem flatKept (n : Node) (h : ∀ l ∈ n.flattened, l.isData = false) : n.FlatKept self := by
  induction n using Node.inductParts with
  | h n ih =>
    obtain ⟨es, s, rfl⟩ | hflat := n.flattened_cases
    · obtain ⟨more, hmore⟩ := runningAll_flatKept fun e he =>
        ih e he fun l hl => h l (Node.mem_flattenedAll.2 ⟨e, he, hl⟩)
      -- Running an array takes two of fuel before its elements are run.
      refine ⟨more + 2, fun k o o' => ?_⟩
      rw [perform_eq_run self rfl, runningAll_flattened_array]
      exact (hmore k s o').trans (runningAll_kept_by_array es s (k + more))
    · have hn : n.isData = false := h n (by rw [hflat]; exact List.mem_singleton_self n)
      refine ⟨0, fun k o o' => ?_⟩
      rw [runningAll_flattened_of_eq hflat hn, perform_eq_run self hn]
      exact run_keptUpToTrace (Nat.le_refl k) n

/-! ## Arrays -/

section

variable {es : List Node} (hes : ∀ n ∈ Node.flattenedAll es, n.isData = false)

include hes

/-- With enough fuel, an array comes to what the instructions in it come to in turn. -/
theorem flattened_kept_by_array (s : Span) (k : Nat) :
    ∃ k', Run.KeptUpToTrace True (Node.runningAll self (.proper s) (Node.flattenedAll es) k)
      ((engine k').run self (.array (.proper es) (.proper s))) := by
  obtain ⟨more, hmore⟩ := flatKept (.array (.proper es) (.proper s)) hes
  exact ⟨k + more, hmore k Origin.none s⟩

theorem array_sameResults_flattened (m : Machine) (s : Span) :
    Run.SameResults True ((Node.array (.proper es) (.proper s)).running self) m
      ((Node.array (.proper (Node.flattenedAll es)) (.proper s)).running self) m := by
  refine .of_keptUpToTrace (fun k => ⟨k + 2, ?_⟩) (fun k => ?_) (.refl m)
  · have hnest : (Node.array (.proper es) (.proper s)).NestKept self := nestKept _ hes
    exact (hnest k Origin.none s).trans (runningAll_kept_by_array _ s k)
  · obtain ⟨k', hk'⟩ := flattened_kept_by_array hes s k
    exact ⟨k', (array_kept_by_runningAll _ s k).trans hk'⟩

end

/-- The first instruction that comes to a value is the last that is run. -/
theorem runningAll_ends {o : Origin} {before : List Node} {n : Node} (after : List Node)
    (hn : n.isData = false) {m m₁ m₂ : Machine} {v : Value}
    (hbefore : Run.HasResult (Node.runningAll self o before) m (.ok none m₁))
    (h : Run.HasResult (n.running self) m₁ (.ok (some v) m₂)) :
    Run.HasResult (Node.runningAll self o (before ++ n :: after)) m (.ok (some v) m₂) := by
  have hsplit : Node.runningAll self o (before ++ n :: after) = fun k =>
      (Node.runningAll self o before k).followedBy (Node.runningAll self o (n :: after) k) :=
    funext fun _ => runningAll_append o _ _
  have hlast : Node.runningAll self o (n :: after) = fun k =>
      (n.running self k).followedBy (Node.runningAll self o after k) :=
    funext fun k => by rw [runningAll_cons, perform_eq_run self hn]
  rw [hsplit, hbefore.followedBy_iff (runningAll_fuelMonotone self o _)
    (runningAll_fuelMonotone self o _), hlast]
  exact h.followedBy _

end

/-- Arrays of instructions flatten. From every state, running an array comes to the same as running
the array of the instructions that are in it and in the arrays nested in it, from left to right:
both come to an end or none does, with the same value, console, variables and scope, or with the
same error in the same state.

So once one of those instructions comes to a value, after others that did not, the array has come
to its end, with that value and in the state that this instruction left. -/
theorem arrays_flatten (self : Option Payload) (m : Machine) {es : List Node}
    (hes : ∀ n ∈ Node.flattenedAll es, n.isData = false) (s : Span) :
    Run.SameResults True ((Node.array (.proper es) (.proper s)).running self) m
      ((Node.array (.proper (Node.flattenedAll es)) (.proper s)).running self) m ∧
    ∀ before n after v m₁ m₂, Node.flattenedAll es = before ++ n :: after →
      Run.HasResult (Node.runningAll self (.proper s) before) m (.ok none m₁) →
      Run.HasResult (n.running self) m₁ (.ok (some v) m₂) →
      ∃ m₃, Run.HasResult ((Node.array (.proper es) (.proper s)).running self) m (.ok (some v) m₃) ∧
        m₃.EqUpToTrace True m₂ := by
  refine ⟨array_sameResults_flattened hes m s, fun before n after v m₁ m₂ hflat hbefore hn => ?_⟩
  have hdata : n.isData = false := hes n (by simp [hflat])
  have hend := runningAll_ends after hdata hbefore hn
  rw [← hflat] at hend
  obtain ⟨r, hr, heq⟩ := hend.of_keptUpToTrace (flattened_kept_by_array hes s) (.refl m)
  cases heq with
  | ok _ hm => exact ⟨_, hr, hm.symm⟩

/-- `y <- true` -/
def assignY : Node :=
  .assign (.nameTarget (.proper "y") Span.none) (.boolean true Span.none) Span.none

/-- `eval x` -/
def evalName (x : String) : Node := .eval (.name (.proper x) Span.none) Span.none

/-- `[y <- true]`, `[[], [eval y]]` and `eval z` -/
def nestWithValue : List Node :=
  let array (es : List Node) : Node := .array (.proper es) (.proper Span.none)
  [array [assignY], array [array [], array [evalName "y"]], evalName "z"]

/-- `[[y <- true], [[], [eval y]], eval z]` comes to the value of `y`, nested or flat. It does not
get to `z`, which is not declared. -/
theorem arrays_flatten_nestWithValue :
    ∃ (v : Value) (m₁ m₂ : Machine),
      Run.HasResult ((Node.array (.proper nestWithValue) (.proper Span.none)).running none) {}
        (.ok (some v) m₁) ∧
      Run.HasResult ((Node.array (.proper [assignY, evalName "y", evalName "z"])
        (.proper Span.none)).running none) {} (.ok (some v) m₂) ∧
      v.payload = .bool true ∧ m₁.scope.binds (.proper "y") = true ∧ m₁.EqUpToTrace True m₂ := by
  have hnest : ∀ n ∈ Node.flattenedAll nestWithValue, n.isData = false := by decide
  let assigned := Run.final ((engine 6).run none assignY {})
  let v : Value := ⟨.bool true, Datatype.boolean, Span.none⟩
  let after := Run.final ((engine 6).run none (evalName "y") assigned)
  have hassign : Run.HasResult (Node.runningAll none (.proper Span.none) [assignY]) {}
      (.ok none assigned) := ⟨rfl, 6, rfl⟩
  have heval : Run.HasResult ((evalName "y").running none) assigned (.ok (some v) after) :=
    ⟨rfl, 6, rfl⟩
  obtain ⟨hsame, hvalue⟩ := arrays_flatten none {} hnest Span.none
  obtain ⟨m₁, hend, hm₁⟩ := hvalue [assignY] (evalName "y") [evalName "z"] v assigned after rfl
    hassign heval
  obtain ⟨r, hr, heq⟩ := hsame.1 _ hend
  cases heq with
  | @ok _ _ m₂ hm₂ =>
    refine ⟨v, m₁, m₂, hend, hr, rfl, ?_, hm₂⟩
    rw [hm₁.scope trivial]
    decide +kernel

end Mandate
