import ReactiveTemplate.Fault
import ReactiveTemplate.Report.Highlight
import ReactiveTemplate.Text.Position

/-!
# Reports for people

A report names the place of a diagnostic, shows the line where its span starts and puts carets under
the span. It comes in two palettes: plain, and with colors for a terminal.
-/

namespace ReactiveTemplate

/-- The colors of a report: what is written in front of and behind its parts, and how the source
line is shown. -/
structure Palette where
  alarm : String
  dim : String
  hint : String
  reset : String
  showLine : String → String

namespace Palette

/-- No colors. -/
def plain : Palette :=
  ⟨"", "", "", "", id⟩

/-- The colors of a terminal. -/
def colored : Palette :=
  ⟨"\x1b[1;31m", "\x1b[2m", "\x1b[1;38;5;73m", colorReset, highlight⟩

end Palette

namespace Report

/-- A run of `n` times the same character. -/
def run (n : Nat) (c : Char) : String :=
  String.ofList (List.replicate n c)

/-- A text with spaces in front, up to the given number of characters. -/
def alignRight (width : Nat) (text : String) : String :=
  run (width - text.length) ' ' ++ text

/-- The number of carets under a span from `start` to `stop` that starts on `line`. A span over more
than one line is underlined up to the end of the first; every span gets a caret. -/
def caretCount (line : String) (start stop : Position) : Nat :=
  let last := if stop.line = start.line then stop.column else line.length
  max (last - start.column) 1

/-- A row with the given text in the margin. -/
def row (palette : Palette) (margin text : String) : String :=
  palette.dim ++ margin ++ " |" ++ palette.reset ++ text ++ "\n"

/-- The lines of help behind a report, the first of them marked. -/
def helpRows (palette : Palette) (help : String) : String :=
  match lines help with
  | [] => "\n"
  | first :: rest =>
      let rest := rest.map fun line => "       " ++ line ++ "\n"
      "\n " ++ palette.hint ++ "help:" ++ palette.reset ++ " " ++ first ++ "\n" ++ String.join rest

end Report

open Report in
/-- The report on a diagnostic in the given source. -/
def Diagnostic.render (d : Diagnostic) (palette : Palette) (source filename : String) : String :=
  let start := Position.locate source d.span.start
  let stop := Position.locate source d.span.stop
  let line := (lines source)[start.line]?.getD ""
  let number := toString (start.line + 1)
  let width := max number.length 2
  let blank := alignRight width ""
  let place := filename ++ ":" ++ number ++ ":" ++ toString (start.column + 1)
  let carets := run (caretCount line start stop) '^'
  "\n " ++ palette.dim ++ "file:" ++ palette.reset ++ " " ++ place ++ "\n" ++
    palette.alarm ++ "error:" ++ palette.reset ++ " " ++ d.message ++ "\n" ++
    row palette blank "" ++
    row palette (alignRight width number) (" " ++ palette.showLine line) ++
    row palette blank (" " ++ run start.column ' ' ++ palette.alarm ++ carets ++ palette.reset) ++
    (d.help.elim "" (helpRows palette)) ++ "\n"

end ReactiveTemplate
