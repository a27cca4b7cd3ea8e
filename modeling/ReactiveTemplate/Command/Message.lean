import ReactiveTemplate.Command.Arguments
import ReactiveTemplate.Report.Basic

/-!
# Messages of the command line

What a command tells its user beside its result. On a terminal some messages are in color.
-/

namespace ReactiveTemplate

/-- Why a file cannot be read or written. -/
inductive FileError where
  | isDirectory
  | notText
deriving DecidableEq, Inhabited

/-- The reason in words. -/
def FileError.text : FileError → String
  | isDirectory => "Is a directory (os error 21)"
  | notText => "stream did not contain valid UTF-8"

/-- A message to the user. -/
inductive Message where
  | usage (error : UsageError)
  /-- An error in the source that goes by the given name. -/
  | report (error : SyntaxError) (source filename : String)
  | unreadable (name : String) (error : FileError)
  | unwritable (path : String) (error : FileError)
  | missing (path : String)
  /-- Markup has been written to a file. -/
  | generated (path : String)
  /-- The end of a run over files. -/
  | processed (count : Nat)
  | noTemplates (path : String)
deriving DecidableEq, Inhabited

/-- A message as it is shown, on a terminal or not, when the run has taken the time `elapsed`. -/
def Message.text (terminal : Bool) (elapsed : String) : Message → String
  | usage error => "Error: " ++ error.message ++ "\n" ++ Invocation.usage
  | report error source filename =>
      error.diagnostic.render (if terminal then .colored else .plain) source filename
  | unreadable name error => "Error: failed to read " ++ name ++ ": " ++ error.text ++ "\n"
  | unwritable path error => "Error: failed to write " ++ path ++ ": " ++ error.text ++ "\n"
  | missing path => "Error: " ++ path ++ " does not exist\n"
  | generated path =>
      let check := if terminal then "\x1b[32m✓" ++ colorReset else "✓"
      "  " ++ check ++ " " ++ path ++ "\n"
  | processed count =>
      let files := if count = 1 then "file" else "files"
      let line := "Processed " ++ toString count ++ " " ++ files ++ " in " ++ elapsed
      if terminal then "\n\x1b[1m" ++ line ++ colorReset ++ "\n" else "\n" ++ line ++ "\n"
  | noTemplates path => "No .html templates found in " ++ path ++ "\n"

end ReactiveTemplate
