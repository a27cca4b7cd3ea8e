/-!
# Arguments of the command line

The commands `tokens` and `parse` take an expression, `process` takes a path or reads the standard
input, and `help` may take the name of a command. Options may stand anywhere among the arguments of
the first three, `--` ends them, and a single dash is an argument like any other.
-/

namespace ReactiveTemplate

/-- What a command line asks for. -/
inductive Invocation where
  /-- An overview of the commands. -/
  | help
  /-- The tokens of an expression. -/
  | tokens (expression : String)
  /-- The compiled form of an expression. -/
  | parse (expression : String) (pretty : Bool)
  /-- The standard input as a template. -/
  | processInput (json : Bool)
  /-- A template file, or the templates in a directory. -/
  | processPath (path : String) (json : Bool)
deriving DecidableEq, Inhabited

/-- Why a command line asks for nothing. -/
inductive UsageError where
  | missingCommand
  | unknownCommand (name : String)
  | unknownOption (text : String)
  | repeatedOption (name : String)
  | unexpectedArgument (text : String)
  | missingArgument (name : String)
  | emptyArgument (name : String)
deriving DecidableEq, Inhabited

/-- What is wrong with a command line. -/
def UsageError.message : UsageError → String
  | missingCommand => "a command is missing"
  | unknownCommand name => "unknown command '" ++ name ++ "'"
  | unknownOption text => "unknown option '" ++ text ++ "'"
  | repeatedOption name => "option '--" ++ name ++ "' is given more than once"
  | unexpectedArgument text => "unexpected argument '" ++ text ++ "'"
  | missingArgument name => "the argument " ++ name ++ " is missing"
  | emptyArgument name => "the argument " ++ name ++ " is empty"

/-- What a word of a command line is. -/
inductive Word where
  | argument (text : String)
  /-- Two dashes, which end the options. -/
  | terminator
  /-- An option that every command has and that changes no result. -/
  | verbose
  | help
  | flag (name : String)
deriving DecidableEq, Inhabited

namespace Word

/-- Short options, from behind their dash on: any number of `v`, or `h` behind these. -/
def ofLetters : List Char → Word
  | [] => verbose
  | 'v' :: letters => ofLetters letters
  | 'h' :: _ => help
  | letters => flag (String.ofList letters)

/-- What a word is where options are allowed. -/
def ofText (text : String) : Word :=
  match text.toList with
  | ['-', '-'] => terminator
  | '-' :: '-' :: name =>
      if text = "--verbose" then verbose
      else if text = "--help" then help
      else flag (String.ofList ('-' :: '-' :: name))
  | '-' :: letter :: letters =>
      match ofLetters (letter :: letters) with
      | flag letters => flag ("-" ++ letters)
      | word => word
  | _ => argument text

end Word

/-- The words of a command, sorted. -/
structure Sorted where
  argument : Option String := none
  flags : List String := []
deriving DecidableEq, Inhabited

namespace Sorted

/-- Takes an argument, of which there may be one. -/
def takeArgument (sorted : Sorted) (text : String) : Except UsageError Sorted :=
  match sorted.argument with
  | none => .ok { sorted with argument := some text }
  | some _ => .error (.unexpectedArgument text)

/-- Takes an option of the given names, each of which may be given once. -/
def takeFlag (sorted : Sorted) (names : List String) (text : String) : Except UsageError Sorted :=
  if !names.contains text then .error (.unknownOption text)
  else if sorted.flags.contains text then .error (.repeatedOption text)
  else .ok { sorted with flags := text :: sorted.flags }

/-- The arguments behind the end of the options. -/
def literally (sorted : Sorted) : List String → Except UsageError Sorted
  | [] => .ok sorted
  | text :: rest =>
      match sorted.takeArgument text with
      | .ok sorted => sorted.literally rest
      | .error e => .error e

/-- The words of a command with the given options, sorted; none when help is asked for. -/
def ofWords (names : List String) (sorted : Sorted) :
    List String → Except UsageError (Option Sorted)
  | [] => .ok (some sorted)
  | text :: rest =>
      match Word.ofText text with
      | .terminator => (sorted.literally rest).map some
      | .verbose => sorted.ofWords names rest
      | .help => .ok none
      | .flag text =>
          match sorted.takeFlag names text with
          | .ok sorted => sorted.ofWords names rest
          | .error e => .error e
      | .argument text =>
          match sorted.takeArgument text with
          | .ok sorted => sorted.ofWords names rest
          | .error e => .error e

end Sorted

namespace Invocation

/-- The commands and their arguments. -/
def usage : String :=
  "Usage:\n" ++
    "  tokens EXPRESSION                   the tokens of an expression as JSON\n" ++
    "  parse EXPRESSION [--pretty]         the trees and targets of an expression as JSON\n" ++
    "  process PATH|--stdin [--json]       the markup of a template, or of all in a directory\n"

/-- The invocation of a command with its words sorted. -/
def ofSorted (command : String) (sorted : Sorted) : Except UsageError Invocation :=
  let json := sorted.flags.contains "--json"
  match command, sorted.argument with
  | "process", some path =>
      if path = "" then .error (.emptyArgument "PATH")
      else if sorted.flags.contains "--stdin" then .ok (.processInput json)
      else .ok (.processPath path json)
  | "process", none =>
      if sorted.flags.contains "--stdin" then .ok (.processInput json)
      else .error (.missingArgument "PATH")
  | "parse", some expression => .ok (.parse expression (sorted.flags.contains "--pretty"))
  | _, some expression => .ok (.tokens expression)
  | _, none => .error (.missingArgument "EXPRESSION")

/-- The options of a command, or none where there is no such command. -/
def options? (command : String) : Option (List String) :=
  if command = "tokens" then some []
  else if command = "parse" then some ["--pretty"]
  else if command = "process" then some ["--stdin", "--json"]
  else none

/-- The invocation of `help` with the words behind it: none, or the name of one command. Options are
not allowed. -/
def ofTopics : List String → Except UsageError Invocation
  | [] => .ok .help
  | topic :: rest =>
      if topic != "help" && (options? topic).isNone then .error (.unknownCommand topic)
      else
        match rest with
        | [] => .ok .help
        | text :: _ => .error (.unknownCommand text)

/-- The invocation of a command with the words behind its name. -/
def ofCommand (command : String) (words : List String) : Except UsageError Invocation :=
  match options? command with
  | none => if command = "help" then ofTopics words else .error (.unknownCommand command)
  | some options =>
      match Sorted.ofWords options {} words with
      | .error e => .error e
      | .ok none => .ok .help
      | .ok (some sorted) => ofSorted command sorted

/-- What a command line asks for. -/
def ofWords : List String → Except UsageError Invocation
  | [] => .error .missingCommand
  | text :: rest =>
      match Word.ofText text with
      | .argument command => ofCommand command rest
      | .verbose => ofWords rest
      | .help => .ok .help
      | .flag text => .error (.unknownOption text)
      | .terminator =>
          match rest with
          | [] => .error .missingCommand
          | text :: _ => .error (.unexpectedArgument text)

end Invocation

end ReactiveTemplate
