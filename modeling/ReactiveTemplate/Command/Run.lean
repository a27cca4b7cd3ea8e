import ReactiveTemplate.Command.FileTree
import ReactiveTemplate.Command.Message
import ReactiveTemplate.Compiled
import ReactiveTemplate.Json.Encoding

/-!
# Running a command

A run is a function from an invocation and what it reads to an `Outcome`: an exit code, the text on
the standard output, messages, and the files to write. For a directory, every template in it gets
its markup in a file beside it. Errors in templates are reported and do not stop the walk; a file
that cannot be read or written does.
-/

namespace ReactiveTemplate

/-- A file to write. -/
structure FileWrite where
  path : String
  content : String
deriving DecidableEq, Inhabited

/-- What a run amounts to. -/
structure Outcome where
  exitCode : Nat := 0
  output : String := ""
  messages : List Message := []
  writes : List FileWrite := []
deriving DecidableEq, Inhabited

namespace Outcome

/-- The outcome of a run that fails with a message. -/
def failure (message : Message) : Outcome :=
  { exitCode := 1, messages := [message] }

/-- The file tree after the writes of a run. -/
def apply (outcome : Outcome) (tree : FileTree) : FileTree :=
  outcome.writes.foldl (fun tree write => tree.write write.path write.content.toUTF8) tree

end Outcome

/-- The text with the given bytes. -/
def decodeText (content : ByteArray) : Except FileError String :=
  match String.fromUTF8? content with
  | some text => .ok text
  | none => .error .notText

/-- A value of JSON, as it is put out. -/
def jsonOutput (pretty : Bool) (json : Json) : String :=
  (if pretty then json.pretty else json.compact) ++ "\n"

/-- What is put out for one template: its markup, or its compiled form as JSON. -/
def emit (json : Bool) (source : String) : Except SyntaxError String :=
  if json then
    (compileTemplate source).map fun compiled => jsonOutput true (compiled.toJson Json.real)
  else process source

/-- The run for the text of one template that goes by the given name. -/
def runSource (json : Bool) (name : String) (messages : List Message) (source : String) : Outcome :=
  match emit json source with
  | .ok output => { output := output, messages := messages }
  | .error e => .failure (.report e source name)

/-- The run for a template on the standard input. -/
def runInput (json : Bool) (content : ByteArray) : Outcome :=
  match decodeText content with
  | .ok source => runSource json "<stdin>" [] source
  | .error e => .failure (.unreadable "stdin" e)

/-- The run for a template file. -/
def runFile (json : Bool) (path : String) (content : ByteArray) : Outcome :=
  match decodeText content with
  | .ok source => runSource json path [.processed 1] source
  | .error e => .failure (.unreadable path e)

/-! ## Directories -/

/-- Whether the text `name` ends with `ending`. -/
def endsWith (name ending : String) : Bool :=
  ending.toList.isSuffixOf name.toList

/-- Whether a file of this name is a template. Generated markup is none. -/
def isTemplateName (name : String) : Bool :=
  endsWith name ".html" && !endsWith name ".dp.html"

/-- The name of the file for the markup of a template. A name that is all ending stays whole. -/
def markupName (name : String) : String :=
  let stem := name.toList.take (name.length - ".html".length)
  (if stem.isEmpty then name else String.ofList stem) ++ ".dp.html"

/-- How far a walk has come: the files written and whether a template has failed, the messages and
the writes newest first. -/
structure Progress where
  count : Nat := 0
  failed : Bool := false
  messages : List Message := []
  writes : List FileWrite := []

namespace Progress

/-- Reports an error in the template at `path`. -/
def report (progress : Progress) (e : SyntaxError) (source path : String) : Progress :=
  { progress with failed := true, messages := .report e source path :: progress.messages }

/-- Writes the markup of a template. -/
def write (progress : Progress) (path markup : String) : Progress :=
  { progress with
    count := progress.count + 1
    messages := .generated path :: progress.messages
    writes := ⟨path, markup⟩ :: progress.writes }

/-- Handles the text of the template at `path`, whose markup goes to `target`. Markup is written
even when an expression in the template is wrong. -/
def addTemplate (progress : Progress) (folders : List String) (path target source : String) :
    Except Message Progress :=
  match process source with
  | .error e => .ok (progress.report e source path)
  | .ok markup =>
      if folders.contains target then .error (.unwritable target .isDirectory)
      else
        let progress := progress.write target markup
        match compileTemplate source with
        | .ok _ => .ok progress
        | .error e => .ok (progress.report e source path)

/-- Handles one entry of a walk through directories with the paths `folders`. -/
def visit (progress : Progress) (folders : List String) (v : FileTree.Visit) :
    Except Message Progress :=
  if isTemplateName v.name then
    match v.entry with
    | .directory _ => .error (.unreadable v.path .isDirectory)
    | .file content =>
        match decodeText content with
        | .error e => .error (.unreadable v.path e)
        | .ok source =>
            let target := FileTree.join v.parent (markupName v.name)
            progress.addTemplate folders v.path target source
  else .ok progress

/-- The outcome of a walk through the directory at `path` that has come to its end. -/
def finish (progress : Progress) (path : String) : Outcome :=
  let last : Message :=
    if progress.count = 0 && !progress.failed then .noTemplates path else .processed progress.count
  { exitCode := if progress.count = 0 || progress.failed then 1 else 0
    messages := (last :: progress.messages).reverse
    writes := progress.writes.reverse }

/-- The outcome of a walk that a message puts an end to. -/
def stop (progress : Progress) (message : Message) : Outcome :=
  { exitCode := 1
    messages := (message :: progress.messages).reverse
    writes := progress.writes.reverse }

/-- Handles the entries of a walk through the directory at `path`. -/
def visitAll (progress : Progress) (folders : List String) (path : String) :
    List FileTree.Visit → Outcome
  | [] => progress.finish path
  | v :: rest =>
      match progress.visit folders v with
      | .ok progress => progress.visitAll folders path rest
      | .error message => progress.stop message

end Progress

/-- The run for a directory. -/
def runDirectory (path : String) (tree : FileTree) : Outcome :=
  let visits := tree.walk path
  let folders := (visits.filter (·.entry.isDirectory)).map (·.path)
  ({} : Progress).visitAll folders path visits

/-! ## Invocations -/

/-- What a run may read. -/
structure Surroundings where
  input : ByteArray
  /-- What is found at a path. -/
  find? : String → Option FileTree

/-- The run of an invocation. -/
def Invocation.run (surroundings : Surroundings) : Invocation → Outcome
  | help => { output := usage }
  | tokens expression =>
      match tokenize expression with
      | .ok found => { output := jsonOutput true (.array (found.map (Token.toJson Json.real))) }
      | .error e => .failure (.report e expression "<expression>")
  | parse expression pretty =>
      match compileExpression expression with
      | .ok compiled => { output := jsonOutput pretty (compiled.toJson Json.real) }
      | .error e => .failure (.report e expression "<expression>")
  | processInput json => runInput json surroundings.input
  | processPath path json =>
      match surroundings.find? path with
      | some (.file content) => runFile json path content
      | some tree => runDirectory path tree
      | none => .failure (.missing path)

/-- The run of a command line. -/
def runWords (surroundings : Surroundings) (words : List String) : Outcome :=
  match Invocation.ofWords words with
  | .ok invocation => invocation.run surroundings
  | .error e => { exitCode := 2, messages := [.usage e] }

end ReactiveTemplate
