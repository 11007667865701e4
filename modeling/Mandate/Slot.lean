/-
  Mandate.Slot

  Places in a program tree where one sort of thing belongs: a name, an operator,
  a span. The parser fills them properly, while a stored program can put any data
  there, which is then kept as it is.

    * `Name` is what a variable goes by, and `Origin` is where something comes
      from.
-/

import Mandate.Document.Inspect
import Mandate.Span

namespace Mandate

/-- A place for something of one sort. -/
inductive Slot (α : Type) where
  | proper (a : α)
  /-- Data of another sort. -/
  | stray (d : Datum)
  deriving Repr, Inhabited

instance {α : Type} : Coe α (Slot α) := ⟨.proper⟩

namespace Slot

/-- What is in a slot, as data. -/
def toDatum {α : Type} (store : α → Datum) : Slot α → Datum
  | .proper a => store a
  | .stray d => d

/-- Data in a slot: proper if it stands for something of the sort. -/
def ofDatum {α : Type} (load? : Datum → Option α) (d : Datum) : Slot α :=
  match load? d with
  | some a => .proper a
  | none => .stray d

end Slot

/-! ## Names -/

/-- What a variable goes by. -/
abbrev Name := Slot String

namespace Name

/-- A name as data. -/
def toDatum (n : Name) : Datum := Slot.toDatum .text n

/-- Data as a name. -/
def ofDatum : Datum → Name
  | .text s => .proper s
  | d => .stray d

/-- A name as it is written on its own. -/
def plain : Name → Except Fault String
  | .proper s => .ok s
  | .stray d => d.plain

/-- The text of a name. What cannot be written out has none. -/
def text (n : Name) : String := n.plain.toOption.getD ""

/-- A name as it is written inside data. -/
def shown : Name → Except Fault String
  | .proper s => .ok (Text.quoted s)
  | .stray d => d.shown

/-- Whether two names are the same. -/
def same : Name → Name → Bool
  | .proper s, .proper t => s = t
  | .stray d, .stray e => d.same e
  | _, _ => false

@[simp] theorem same_proper (s t : String) : same (.proper s) (.proper t) = decide (s = t) := rfl

end Name

/-! ## Origins -/

/-- Where something comes from: a span of the source. -/
abbrev Origin := Slot Span

namespace Origin

/-- An origin as data. -/
def toDatum (o : Origin) : Datum :=
  Slot.toDatum (fun s => .span (.int s.start) (.int s.stop)) o

/-- Data as an origin. -/
def ofDatum : Datum → Origin
  | .span (.int start) (.int stop) => .proper ⟨start, stop⟩
  | d => .stray d

/-- The origin of what comes from nowhere. -/
def none : Origin := .proper Span.none

/-- The span of an origin; what has none is taken to come from nowhere. -/
def span : Origin → Span
  | .proper s => s
  | .stray _ => Span.none

/-- An origin written out. -/
def shown : Origin → Except Fault String
  | .proper s => .ok s.text
  | .stray d => d.shown

/-- The text of an origin. What cannot be written out has none. -/
def text : Origin → String
  | .proper s => s.text
  | .stray d => d.shown.toOption.getD ""

/-- The place of an origin for a person. -/
def describe (o : Origin) (source : List Char) : String :=
  match o with
  | .proper s => s.describe source
  | .stray _ => o.text

@[simp] theorem shown_proper (s : Span) : shown (.proper s) = .ok s.text := rfl

end Origin

end Mandate
