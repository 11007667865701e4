/-
  Mandate.Proofs.Watch

  Running programs under a watch. A watch looks at the state whenever a node or
  a payload is about to be run and whenever one has been run, however it ended,
  and at every value that comes out. What it does not let pass ends the run with
  a halt of the watcher's choice.

    * `Machine.watchedRun` is the run under a watch, and `Machine.Alarmed` says
      that the watch ends it.
    * `Guard.Keeps` compares a step under a watch with the same step without. Either
      the watch ends the one, or both do the same, and then the step leaves things
      as they should be.
    * `Guard.Keeps.bind` and its likes put steps together.
-/

import Mandate.Proofs.ArrayNesting
import Mandate.Proofs.Fitting
import Mandate.Semantics.Run

namespace Mandate

/-! ## Watches -/

/-- What is let pass, of a state and a value that was just computed in it. -/
abbrev Watch := Machine → Option Value → Bool

/-- A step under a watch. -/
def Run.watched {α : Type} (watch : Watch) (stop : Halt) (value? : α → Option Value)
    (act : Run α) : Run α := fun m =>
  if watch m none then
    match act m with
    | .ok a m' => if watch m' (value? a) then .ok a m' else .error stop m'
    | .error h m' => if watch m' none then .error h m' else .error stop m'
  else .error stop m

/-- The engine under a watch. -/
def watchedEngine (watch : Watch) (stop : Halt) : Nat → Engine
  | 0 => ⟨0, fun _ _ _ => throw .exhausted, fun _ _ _ => throw .exhausted⟩
  | fuel + 1 =>
    ⟨fuel,
      fun self mode n =>
        (Semantics.expression (watchedEngine watch stop fuel) self mode n).watched watch stop some,
      fun self p origin =>
        (Semantics.instruction (watchedEngine watch stop fuel) self p origin).watched watch stop
          id⟩

namespace Machine

/-- The state a run starts from. -/
def fresh (console : Console) (trace : Trace) : Machine :=
  { console := console, trace := trace }

/-- Runs a program tree under a watch. -/
def watchedRun (m : Machine) (watch : Watch) (stop : Halt) (fuel : Nat) (program : Node) :
    EStateM.Result Halt Machine (Option Value) :=
  (watchedEngine watch stop fuel).run none program m

/-- The watch ends the run, with whatever halt it is told to. -/
def Alarmed (m : Machine) (watch : Watch) (fuel : Nat) (program : Node) : Prop :=
  ∀ stop, ∃ m', m.watchedRun watch stop fuel program = .error stop m'

/-- Whether every variable holds what its datatype says. -/
def fits (m : Machine) : Bool := m.store.cells.all Value.fits

end Machine

/-- Whether a text can be looked at for a number: it does not spell a whole number beyond the
range. -/
def Value.readable (v : Value) : Bool :=
  match v.payload with
  | .text s => (Number.read s.chars).isOk
  | _ => true

namespace Watch

/-- Lets pass what fits its datatype. -/
def fitting : Watch := fun m v? => m.fits && v?.all Value.fits

/-- Lets pass texts that can be looked at for a number. -/
def readable : Watch := fun _ v? => v?.all Value.readable

/-- Lets pass what two watches do. -/
def both (a b : Watch) : Watch := fun m v? => a m v? && b m v?

end Watch

/-! ## Sound states -/

namespace Machine

/-- Every variable holds a value of a program that comes from a source. -/
def Regular (elements : Bool) (m : Machine) : Prop :=
  ∀ cell, (m.store.get cell).Regular elements

/-- Every variable holds such a value, and one that is what its datatype says. -/
def Sound (elements : Bool) (m : Machine) : Prop := ∀ cell, (m.store.get cell).Sound elements

/-- Whether all variables fit can be told cell by cell. -/
theorem fits_iff {m : Machine} : m.fits = true ↔ ∀ cell, (m.store.get cell).fits = true := by
  unfold fits
  rw [Array.all_eq_true]
  constructor
  · intro h cell
    unfold Store.get
    rw [Array.getD]
    split
    · next hlt => exact h cell hlt
    · rfl
  · intro h cell hlt
    have := h cell
    rwa [Store.get, Array.getD, dif_pos hlt] at this

theorem Sound.regular {elements : Bool} {m : Machine} (h : m.Sound elements) :
    m.Regular elements := fun cell => (h cell).toRegular

theorem Sound.fits {elements : Bool} {m : Machine} (h : m.Sound elements) : m.fits = true :=
  fits_iff.2 fun cell => (h cell).fits

theorem Regular.sound {elements : Bool} {m : Machine} (h : m.Regular elements)
    (hfits : m.fits = true) : m.Sound elements :=
  fun cell => ⟨h cell, fits_iff.1 hfits cell⟩

end Machine

/-! ## Guards -/

/-- A watch, and what is expected of runs under it. -/
structure Guard where
  /-- Whether programs may assign to elements. -/
  elements : Bool
  watch : Watch
  /-- The halt that the watch ends a run with. -/
  stop : Halt
  /-- Whether the watch may end a run. -/
  alarm : Prop
  /-- Whether a run may end at a text that spells a number beyond the range. -/
  large : Prop
  alarm_of_elements : elements = true → alarm
  watch_of_fits : ¬alarm → ∀ m v?, m.fits = true → v?.all Value.fits = true → watch m v? = true
  fits_of_watch : elements = true → ∀ m v?, watch m v? = true → m.fits = true
  readable_of_watch : ¬large → ∀ m v, watch m (some v) = true → v.readable = true

namespace Guard

variable {G : Guard} {α β : Type} {m : Machine}

/-- How a run may end early. -/
def Allows (G : Guard) : Halt → Prop
  | .error _ | .exhausted => True
  | .fault f => G.large ∧ f = .tooLarge

/-- What is known of the variables right after an assignment. -/
structure Loose (G : Guard) (m : Machine) : Prop where
  regular : m.Regular G.elements
  fits : G.elements = false → m.fits = true

/-- What a step may come to. -/
def Permits (G : Guard) (Q : α → Machine → Prop) : EStateM.Result Halt Machine α → Prop
  | .ok a m => Q a m
  | .error h m => G.Allows h ∧ (G.elements = false → m.fits = true)

/-- A step under the watch and the same step without: the watch ends the one, or both come to
the same. -/
def Meets (G : Guard) (m : Machine) (watched plain : Run α) (Q : α → Machine → Prop) : Prop :=
  (G.alarm ∧ ∃ m', watched m = .error G.stop m') ∨ (watched m = plain m ∧ G.Permits Q (plain m))

/-- The same, and no variable leaves its arrays. -/
def Keeps (G : Guard) (m : Machine) (watched plain : Run α) (Q : α → Machine → Prop) : Prop :=
  G.Meets m watched plain fun a m' => m.Grows m' ∧ Q a m'

theorem Permits.mono {Q R : α → Machine → Prop} {r : EStateM.Result Halt Machine α}
    (h : G.Permits Q r) (hQR : ∀ a m', Q a m' → R a m') : G.Permits R r := by
  cases r with
  | ok a m' => exact hQR a m' h
  | error e m' => exact h

/-- Two steps one after the other. -/
theorem Meets.bind {y x : Run α} {g f : α → Run β} {Q : α → Machine → Prop}
    {R : β → Machine → Prop} (hx : G.Meets m y x Q)
    (hf : ∀ a m', Q a m' → G.Meets m' (g a) (f a) R) : G.Meets m (y >>= g) (x >>= f) R := by
  rcases hx with ⟨halarm, m', hy⟩ | ⟨heq, hQ⟩
  · exact .inl ⟨halarm, m', Run.bind_of_error hy g⟩
  · cases hxm : x m with
    | ok a m' =>
      rw [hxm] at heq hQ
      have hnext := hf a m' hQ
      unfold Meets at hnext ⊢
      rwa [Run.bind_of_ok heq, Run.bind_of_ok hxm]
    | error e m' =>
      rw [hxm] at heq hQ
      refine .inr ⟨?_, ?_⟩
      · rw [Run.bind_of_error heq, Run.bind_of_error hxm]
      · rwa [Run.bind_of_error hxm]

theorem Meets.mono {y x : Run α} {Q R : α → Machine → Prop} (h : G.Meets m y x Q)
    (hQR : ∀ a m', Q a m' → R a m') : G.Meets m y x R :=
  h.imp id fun h => ⟨h.1, h.2.mono hQR⟩

namespace Keeps

variable {y x : Run α} {Q : α → Machine → Prop} {R : β → Machine → Prop}

theorem mono {R : α → Machine → Prop} (h : G.Keeps m y x Q)
    (hQR : ∀ a m', m.Grows m' → Q a m' → R a m') : G.Keeps m y x R :=
  Meets.mono h fun a m' ⟨hgrows, hQ⟩ => ⟨hgrows, hQR a m' hgrows hQ⟩

/-- Two steps one after the other. -/
theorem bind {g f : α → Run β} (hx : G.Keeps m y x Q)
    (hf : ∀ a m', m.Grows m' → Q a m' → G.Keeps m' (g a) (f a) R) :
    G.Keeps m (y >>= g) (x >>= f) R :=
  Meets.bind hx fun a m' ⟨hgrows, hQ⟩ =>
    Meets.mono (hf a m' hgrows hQ) fun _ _ ⟨hgrows', hR⟩ => ⟨hgrows.trans hgrows', hR⟩

/-- A step that runs no part of the program does the same under a watch. -/
theorem of_ok {a : α} {m' : Machine} (h : x m = .ok a m') (hgrows : m.Grows m') (hQ : Q a m') :
    G.Keeps m x x Q := by
  refine .inr ⟨rfl, ?_⟩
  rw [h]
  exact ⟨hgrows, hQ⟩

theorem pure {a : α} (hQ : Q a m) : G.Keeps m (Pure.pure a) (Pure.pure a) Q :=
  of_ok rfl (.refl m) hQ

/-- A step that looks at the state. -/
theorem get_bind {g f : Machine → Run β} (hf : G.Keeps m (g m) (f m) R) :
    G.Keeps m (get >>= g) (get >>= f) R := hf

/-- A step that stops. -/
theorem throw {h : Halt} (hallows : G.Allows h) (hm : m.Sound G.elements) :
    G.Keeps m (MonadExcept.throw h) (MonadExcept.throw h) Q :=
  .inr ⟨rfl, hallows, fun _ => hm.fits⟩

/-- After a step that stops comes nothing. -/
theorem throw_bind {h : Halt} {g f : α → Run β} (hallows : G.Allows h)
    (hm : m.Sound G.elements) :
    G.Keeps m (MonadExcept.throw h >>= g) (MonadExcept.throw h >>= f) R :=
  .inr ⟨rfl, hallows, fun _ => hm.fits⟩

/-- A computation that has a result. -/
theorem lift_bind {e : Except Fault α} {a : α} {g f : α → Run β} (he : e = .ok a)
    (hf : G.Keeps m (g a) (f a) R) : G.Keeps m (liftM e >>= g) (liftM e >>= f) R := by
  subst he
  exact hf

/-- A step in a scope of its own. -/
theorem within {R : α → Machine → Prop} {scope : Scope}
    (h : G.Keeps { m with scope := scope } y x Q)
    (hQR : ∀ a m', Q a m' → R a { m' with scope := m.scope }) :
    G.Keeps m (Run.within scope y) (Run.within scope x) R := by
  unfold Keeps Meets Run.within
  rcases h with ⟨halarm, m', hy⟩ | ⟨heq, hQ⟩
  · refine .inl ⟨halarm, { m' with scope := m.scope }, ?_⟩
    simp only [hy]
  · cases hx : x { m with scope := scope } with
    | ok a m' =>
      rw [hx] at heq hQ
      simp only [heq]
      exact .inr ⟨trivial, hQ.1, hQR a m' hQ.2⟩
    | error e m' =>
      rw [hx] at heq hQ
      simp only [heq]
      exact .inr ⟨trivial, hQ⟩

/-- A step whose scope stays if it comes to its end. -/
theorem body (h : G.Keeps m y x Q) : G.Keeps m (Run.body y) (Run.body x) Q := by
  unfold Keeps Meets Run.body
  rcases h with ⟨halarm, m', hy⟩ | ⟨heq, hQ⟩
  · refine .inl ⟨halarm, { m' with scope := m.scope }, ?_⟩
    simp only [hy]
  · cases hx : x m with
    | ok a m' =>
      rw [hx] at heq hQ
      simp only [heq]
      exact .inr ⟨trivial, hQ⟩
    | error e m' =>
      rw [hx] at heq hQ
      simp only [heq]
      exact .inr ⟨trivial, hQ⟩

end Keeps

/-! ## The watch itself -/

/-- What is known of a value that the watch let pass. -/
structure Passes (G : Guard) (v : Value) : Prop extends v.Sound G.elements where
  readable : ¬G.large → v.readable = true

theorem alarm_of_watch {v? : Option Value} (hfits : G.elements = false → m.fits = true)
    (hv : ∀ v ∈ v?, v.Sound G.elements) (hw : G.watch m v? = false) : G.alarm := by
  refine Classical.byContradiction fun hquiet => ?_
  have helements : G.elements = false := by
    cases h : G.elements with
    | false => rfl
    | true => exact absurd (G.alarm_of_elements h) hquiet
  have hall : v?.all Value.fits = true := by
    cases v? with
    | none => rfl
    | some v => exact (hv v rfl).fits
  rw [G.watch_of_fits hquiet m v? (hfits helements) hall] at hw
  cases hw

theorem sound_of_watch {v? : Option Value} (hm : G.Loose m) (hw : G.watch m v? = true) :
    m.Sound G.elements := by
  refine hm.regular.sound ?_
  cases h : G.elements with
  | false => exact hm.fits h
  | true => exact G.fits_of_watch h m v? hw

/-- After a watched step all variables are sound. -/
theorem Keeps.watched {value? : α → Option Value} {y x : Run α} (hm : m.Sound G.elements)
    (h : G.Keeps m y x fun a m' => G.Loose m' ∧ ∀ v ∈ value? a, v.Sound G.elements) :
    G.Keeps m (y.watched G.watch G.stop value?) x fun a m' =>
      m'.Sound G.elements ∧ ∀ v ∈ value? a, G.Passes v := by
  unfold Keeps Meets Run.watched
  cases hstart : G.watch m none with
  | false =>
    exact .inl ⟨alarm_of_watch (fun _ => hm.fits) (by simp) hstart, m, by simp⟩
  | true =>
    rcases h with ⟨halarm, m', hy⟩ | ⟨heq, hQ⟩
    · -- The watch went off inside, and whatever it finds now it ends the run the same way.
      refine .inl ⟨halarm, m', ?_⟩
      simp [hy]
    · cases hx : x m with
      | ok a m' =>
        rw [hx] at heq hQ
        obtain ⟨hgrows, hloose, hv⟩ := hQ
        cases hend : G.watch m' (value? a) with
        | false => exact .inl ⟨alarm_of_watch hloose.fits hv hend, m', by simp [heq, hend]⟩
        | true =>
          refine .inr ⟨by simp [heq, hend], hgrows, sound_of_watch hloose hend, ?_⟩
          intro v hmem
          refine ⟨hv v hmem, fun hlarge => G.readable_of_watch hlarge m' v ?_⟩
          rw [← hend, Option.mem_def.1 hmem]
      | error e m' =>
        rw [hx] at heq hQ
        cases hend : G.watch m' none with
        | false => exact .inl ⟨alarm_of_watch hQ.2 (by simp) hend, m', by simp [heq, hend]⟩
        | true => exact .inr ⟨by simp [heq, hend], hQ⟩

end Guard

end Mandate
