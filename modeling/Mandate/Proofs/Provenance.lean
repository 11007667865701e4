/-
  Mandate.Proofs.Provenance

  Where the data of a running program comes from.

  A program computes with its own trees and their parts. So let there be a class
  of trees that has the parts of its trees (`Hereditary`), such as all trees, or
  those that one program is made of.

    * `Node.From` and `Origin.From`: a tree of the class of the kind that the parser
      makes, and the place of one.
    * `Scope.Apart`: no name stands twice in the scope of a program or a function.
    * `DataInvariant.provenance`: every tree in the state of a run is of the class,
      every value comes from the place of one, and names are kept apart.
-/

import Mandate.Proofs.Grounding
import Mandate.Proofs.Pieces

namespace Mandate

/-! ## Trees -/

/-- A class of trees that has the parts of its trees. -/
class Hereditary (T : Node → Prop) : Prop where
  part : ∀ {n k : Node}, T n → k ∈ n.parts → T k

/-- A tree of a class, of the kind that the parser makes. -/
structure Node.From (T : Node → Prop) (n : Node) : Prop where
  mem : T n
  regular : n.Regular true

/-- The place of a tree of a class. -/
def Origin.From (T : Node → Prop) (o : Origin) : Prop := ∃ n, T n ∧ n.origin? = some o

theorem Node.Part.mem_parts {n k : Node} (h : n.Part k) (hn : n.Regular true) : k ∈ n.parts := by
  cases h with
  | element hns hk | printed hns hk =>
    cases hn
    cases hns
    exact hk
  | argument f hns hk =>
    cases hn
    cases hns
    exact List.mem_cons_of_mem f hk
  | function f args o => cases args <;> exact List.mem_cons_self
  | _ => simp [Node.parts]

/-- What may be run of a regular tree is regular. -/
theorem Node.Part.regular {n k : Node} (h : n.Part k) (hn : n.Regular true) :
    k.Regular true := by
  cases h with
  | element hns hk =>
    cases hn with
    | array o hes =>
      cases hns
      exact hes k hk
  | printed hns hk =>
    cases hn with
    | print o hes =>
      cases hns
      exact hes k hk
  | argument f hns hk =>
    cases hn with
    | call o hf has =>
      cases hns
      exact has k hk
  | word hword o =>
    cases hn with
    | builtin _ _ he => exact he
    | input o => rcases hword with hword | hword <;> exact absurd rfl hword
  | whenFalse c t he o =>
    cases hn with
    | branch _ _ _ hregular => exact hregular
    | branchThen => exact absurd rfl he
  | _ => cases hn <;> assumption

/-! ## Names -/

/-- No name stands twice in a scope. -/
def Scope.Distinct (s : Scope) : Prop :=
  s.Pairwise fun inner outer => outer.name.same inner.name = false

instance : DecidablePred Scope.Distinct := fun s =>
  inferInstanceAs (Decidable (s.Pairwise fun inner outer => outer.name.same inner.name = false))

/-- Whether a payload is a closure. -/
def Payload.isClosure : Payload → Bool
  | .closure _ => true
  | _ => false

/-- Names are kept apart unless a closure is called, which may have a parameter that goes by a
name of what is around it. -/
def Scope.Apart (self : Option Payload) (s : Scope) : Prop :=
  self.any Payload.isClosure = false → s.Distinct

instance (self : Option Payload) : DecidablePred (Scope.Apart self) := fun s =>
  inferInstanceAs (Decidable (self.any Payload.isClosure = false → s.Distinct))

theorem Scope.not_same_of_cell? {s : Scope} {name : Name} (h : s.cell? name = none) :
    ∀ b ∈ s, b.name.same name = false := by
  induction s with
  | nil =>
    intro b hb
    cases hb
  | cons c s ih =>
    have hc : c.name.same name = false := by
      by_contra hsame
      rw [Bool.not_eq_false] at hsame
      rw [Scope.cell?_cons_of_same hsame] at h
      cases h
    rw [Scope.cell?_cons_of_not_same hc] at h
    intro b hb
    rcases List.mem_cons.1 hb with rfl | hb
    · exact hc
    · exact ih h b hb

/-- A name that leads nowhere keeps names apart. -/
theorem Scope.Apart.cons {self : Option Payload} {s : Scope} (h : s.Apart self) {b : Binding}
    (hfresh : s.cell? b.name = none) : Scope.Apart self (b :: s) :=
  fun hself => .cons (Scope.not_same_of_cell? hfresh) (h hself)

/-- New names that are told from each other and from those before keep names apart. -/
theorem Scope.Distinct.bound {s : Scope} (hs : s.Distinct) {names : List Name}
    (hnames : names.Pairwise fun a b => a.same b = false)
    (hfresh : ∀ name ∈ names, ∀ b ∈ s, b.name.same name = false) (cell : Nat) :
    (s.bound cell names).Distinct := by
  induction hnames generalizing s cell with
  | nil => exact hs
  | @cons name names hname _ ih =>
    refine ih (.cons (hfresh name List.mem_cons_self) hs) (fun other hother b hb => ?_) (cell + 1)
    rcases List.mem_cons.1 hb with rfl | hb
    · exact hname other hother
    · exact hfresh other (List.mem_cons_of_mem name hother) b hb

/-- Parameters of a regular literal have different names. -/
theorem Param.RegularList.names_distinct {ps : List Param} (h : Param.RegularList ps) :
    (ps.map Param.name).Pairwise fun a b => a.same b = false := by
  rw [List.pairwise_map]
  refine h.distinct.imp_of_mem fun {p q} hp hq hne => ?_
  cases h.regular p hp with
  | mk x _ _ =>
    cases h.regular q hq with
    | mk y _ _ =>
      rw [Name.same_proper, decide_eq_false_iff_not]
      rintro rfl
      exact hne rfl

/-! ## States -/

/-- Whether data is one number, one text or the like. -/
def Datum.isPlain : Datum → Bool
  | .list _ | .node .. => false
  | _ => true

section

variable (T : Node → Prop)

/-- Trees of a class, and values that come from their places. -/
def Vocabulary.provenance : Vocabulary where
  points _ := True
  nodes := Node.From T
  data d := d.isPlain = true
  origins := Origin.From T
  chars _ := trivial
  items h := by cases h
  trees h := by cases h
  held h := by cases h.regular

/-- Programs that are made of trees of a class. -/
def Code.provenance [Hereditary T] : Code where
  vocabulary := .provenance T
  nodes := Node.From T
  targets t := T t ∧ t.Target true
  takes c params := Param.series c.params = .ok params
  literal h := by cases h.regular <;> rfl
  held h := h
  placed h ho := ⟨_, h.mem, ho⟩
  part h hk := ⟨Hereditary.part h.mem (hk.mem_parts h.regular), hk.regular h.regular⟩
  runs h := h
  runnable {n} h := .inl ⟨n, by cases h.regular <;> rfl⟩
  target h := by
    refine ⟨Hereditary.part h.mem (by simp [Node.parts]), ?_⟩
    cases h.regular with
    | assign o ht hv => exact ht
  target_base h := by
    refine ⟨Hereditary.part h.1 (by simp [Node.parts]), ?_⟩
    cases h.2 with
    | element o _ ht _ => exact ht
  target_index h := by
    refine ⟨Hereditary.part h.1 (by simp [Node.parts]), ?_⟩
    cases h.2 with
    | element o _ _ hi => exact hi
  target_placed h ho := ⟨_, h.1, ho⟩
  own_params h := h

/-- Data that comes from the trees of a class, in variables that are there, with names kept
apart. -/
def DataInvariant.provenance [Hereditary T] : DataInvariant where
  toCode := .provenance T
  closures n c := c.body.From T ∧ c.scope.Below n
  scopes n self s := s.Below n ∧ s.Apart self
  closures_mono hle h := ⟨h.1, h.2.mono hle⟩
  scopes_mono hle h := ⟨h.1.mono hle, h.2⟩
  body_runs h := h.1
  reaches h hcell := .inl (h.1 _ (Scope.mem_cells_of_cell? hcell))
  declared _ h hcell := ⟨h.1.cons _, h.2.cons hcell⟩
  closure hn h := ⟨(Code.provenance T).part hn (.body ..), h.1⟩
  called := by
    intro n p c params names bound hp hc hparams hnames hbound
    cases hc with
    | closure c => exact ⟨hp.of_closure.2.bound bound, fun hself => by cases hself⟩
    | function style ps r b o =>
      refine ⟨Scope.Below.bound (fun _ h => by cases h) bound, fun _ => ?_⟩
      -- A function sees nothing but its parameters, which have different names.
      cases hp with
      | atom _ hadmits =>
        have hregular : Node.Regular true (.lambda style ps r b o) := hadmits.regular
        cases hregular with
        | lambda _ _ hps =>
          cases hparams
          rw [Param.names_proper] at hnames
          cases hnames
          refine Scope.Distinct.bound .nil ?_ (fun _ _ b hb => by cases hb) n
          exact hps.names_distinct.sublist hbound.sublist

end

/-- The state before any program is run. -/
theorem DataInvariant.provenance_holds {T : Node → Prop} [Hereditary T] (console : Console)
    (trace : Trace) :
    (provenance T).Holds none { console := console, trace := trace } := by
  refine ⟨⟨fun _ hcell => (by cases hcell), fun _ => .nil⟩, fun cell hcell => ?_,
    fun _ _ _ _ => trivial⟩
  rcases hcell with hcell | hplaced
  · exact absurd hcell (Nat.not_lt_zero _)
  · show (provenance T).Values 0 (Store.get {} cell)
    rw [Store.get_of_le _ (Nat.zero_le cell)]
    exact ⟨.atom rfl trivial, rfl, rfl, hplaced⟩

end Mandate
