/-
  Mandate.CommandLine.Files

  The files around a command line, and what a path leads to among them.

    * `Files.content` follows a path part by part, the way a file system does: every
      part but the last has to be a directory, and nothing is above the files but
      directories.
    * `normalPath` is a path without the parts that lead nowhere. It does not follow
      `..`, because what is before it may not be there.
-/

namespace Mandate.CommandLine

/-- Files by name, with their text. -/
abbrev Files := List (String × String)

/-- Why a file is not opened. -/
inductive FileError where
  /-- Nothing has this name. -/
  | missing
  /-- A directory has this name. -/
  | directory
  /-- A file stands where the path needs a directory. -/
  | blocked
  /-- The path, or a part of it, is too long. -/
  | tooLong
  /-- The path has a character that no name has. -/
  | unnameable
  deriving DecidableEq, Repr, Inhabited

/-- Where a path has come to. -/
inductive Spot where
  /-- The directory of the files or one in it: the parts that lead there, the last one first. -/
  | inside (parts : List String)
  /-- A directory around the files. -/
  | outside
  | file (text : String)
  deriving Inhabited

/-- How many bytes a part of a path may have. -/
def partLimit : Nat := 255

/-- How many bytes a path may have. -/
def pathLimit : Nat := 4095

/-- Whether a part of a path leads nowhere. -/
def isTrivial (part : String) : Bool := part == "" || part == "."

/-- What is between the slashes of a path. -/
def segmentsOf (path : String) : List String := (path.toList.splitOn '/').map String.ofList

/-- The parts of a path that lead somewhere. -/
def partsOf (path : String) : List String := (segmentsOf path).filter fun part => !isTrivial part

/-- A path without empty and trivial parts. -/
def normalPath (path : String) : String :=
  let slashes := (path.toList.takeWhile (· = '/')).length
  let start := if slashes = 0 then "" else if slashes = 2 then "//" else "/"
  let name := start ++ "/".intercalate (partsOf path)
  if name = "" then "." else name

/-- What some parts lead to from the directory of the files. -/
def Files.locate (files : Files) (parts : List String) : Except FileError Spot :=
  match files.find? fun f => partsOf f.1 = parts with
  | some f => .ok (.file f.2)
  | none =>
    if files.any fun f => parts.isPrefixOf (partsOf f.1) then .ok (.inside parts.reverse)
    else .error .missing

/-- One part further. -/
def Files.step (files : Files) (spot : Spot) (part : String) : Except FileError Spot :=
  match spot with
  | .file _ => .error .blocked
  | .inside parts =>
    if isTrivial part then .ok spot
    else if part = ".." then .ok (if parts.isEmpty then .outside else .inside parts.tail)
    else if partLimit < part.utf8ByteSize then .error .tooLong
    else files.locate (part :: parts).reverse
  | .outside =>
    if isTrivial part || part == ".." then .ok spot
    else if partLimit < part.utf8ByteSize then .error .tooLong
    else .error .missing

/-- Where a path comes to. -/
def Files.follow (files : Files) (path : String) : Except FileError Spot :=
  if path.toList.contains '\x00' then .error .unnameable
  else if path = "" then .error .missing
  else if pathLimit < path.utf8ByteSize then .error .tooLong
  else
    let start := if path.toList.head? = some '/' then Spot.outside else .inside []
    (segmentsOf path).foldlM files.step start

/-- The text of the file that a path leads to. A file that goes by the path itself is that file,
wherever it is. -/
def Files.content (files : Files) (path : String) : Except FileError String :=
  match files.find? fun f => f.1 = path with
  | some f => .ok f.2
  | none =>
    match files.follow path with
    | .ok (.file text) => .ok text
    | .ok _ => .error .directory
    | .error e => .error e

/-- Why no file can be made at a path whose directory is there, if that is so. -/
def Files.refusal? (files : Files) (path : String) : Option FileError :=
  match files.content path with
  | .ok _ | .error .missing => none
  | .error e => some e

end Mandate.CommandLine
