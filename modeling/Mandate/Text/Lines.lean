/-
  Mandate.Text.Lines

  Lines of text: the ends of lines in a file, and the lines of what is typed in.
-/

import Mandate.Text.CodePoint

namespace Mandate.Text

/-- A text with every end of line, `\r\n`, `\r` or `\n`, as `\n`. -/
def unifyNewlines : List Char → List Char
  | [] => []
  | '\r' :: '\n' :: rest => '\n' :: unifyNewlines rest
  | '\r' :: rest => '\n' :: unifyNewlines rest
  | c :: rest => c :: unifyNewlines rest

/-- The lines of a text, each ended by `\n` or by the end of the text. -/
def linesOf : Text → List Text
  | [] => []
  | .char '\n' :: rest => [] :: linesOf rest
  | point :: rest =>
    match linesOf rest with
    | [] => [[point]]
    | line :: more => (point :: line) :: more

/-- A text of lines, each with its end. -/
def ofLines (lines : List Text) : Text := lines.flatMap (· ++ Text.ofString "\n")

end Mandate.Text
