/-
  Mandate.Main

  The command line program: reads the file that is named and what is typed in,
  carries out the command, and writes what came of it.
-/

import Mandate.CommandLine

namespace Mandate.CommandLine

/-- The lines of an input to its end. -/
partial def readAll (stream : IO.FS.Stream) (text : String) : IO String := do
  let line ← stream.getLine
  if line.isEmpty then return text else readAll stream (text ++ line)

/-- The file that a command line names. -/
def Options.file? (o : Options) : Option String :=
  (named o.emit?).or ((named o.load?).or (named o.program?))

/-- The files around a command line, as far as it names them. -/
def filesFor (words : List String) : IO Files := do
  match Options.ofWords words with
  | .error _ => return []
  | .ok o =>
    match o.file? with
    | none => return []
    | some file =>
      try return [(normalPath file, ← IO.FS.readFile file)]
      catch _ => return []

/-- What is said about an ending outside the language. -/
def Ending.remark? : Ending → Option String
  | .exit _ => none
  | .fault f => some (f.message?.getD "the program is not well formed")
  | .file .directory => some "a directory has the name of the file"
  | .file .tooLong => some "the name of the file is too long"
  | .file _ => some "the file cannot be opened"
  | .notJson => some "the file is no JSON document"
  | .document (.unknownLabel l) => some ("Unknown AST node type: " ++ l)
  | .document _ => some "the document is no program tree"
  | .exhausted => some "the program takes too long"
  | .untraced => some "an error cannot be written to the trace"

/-- The exit status of an ending. -/
def Ending.status : Ending → UInt32
  | .exit n => n.toUInt32
  | _ => 1

/-- Carries out a command line among real files. -/
def perform (words : List String) : IO UInt32 := do
  let input ← readAll (← IO.getStdin) ""
  let effects := run ampleFuel { files := ← filesFor words, input := input } words
  for (name, text) in effects.files do IO.FS.writeFile name text
  let remark := effects.ending.remark?.toList.map Text.ofString
  IO.print (Text.ofLines effects.output).written
  IO.eprint (Text.ofLines (effects.errors ++ remark)).written
  if effects.ending.status = 2 then IO.eprint (Text.ofLines (usage.take 1)).written
  return effects.ending.status

end Mandate.CommandLine

/-- The program. -/
def main (words : List String) : IO UInt32 := Mandate.CommandLine.perform words
