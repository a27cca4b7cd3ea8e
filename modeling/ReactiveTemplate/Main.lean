import ReactiveTemplate.Command.Run

/-!
# The program

Reads the command line and what it names, runs the invocation, and carries out its outcome.
-/

namespace ReactiveTemplate

/-- A tree with the entries of the directory at `path` added at the place `inner` in it. Of the
files only templates are read. A symbolic link to a directory is an entry that a walk meets and does
not go into. -/
partial def loadEntries (path inner : String) (tree : FileTree) : IO FileTree := do
  let mut tree := tree
  for entry in ← (← IO.FS.realPath path).readDir do
    let name := entry.fileName
    let place := FileTree.join inner name
    if ← entry.path.isDir then
      tree := tree.makeDirectory place
      unless (← entry.path.symlinkMetadata).type matches .symlink do
        tree ← loadEntries (FileTree.join path name) place tree
    else if isTemplateName name then
      tree := tree.write place (← IO.FS.readBinFile entry.path)
  return tree

/-- The file tree at a path, or none. A path that is itself a symbolic link is followed. -/
def loadTree (path : String) : IO (Option FileTree) := do
  let .ok place ← (IO.FS.realPath path).toBaseIO | return none
  if ← place.isDir then
    return some (← loadEntries path "." (.directory []))
  else
    return some (.file (← IO.FS.readBinFile path))

/-- What an invocation reads: the standard input, or the file tree at its path. -/
def surroundings : Except UsageError Invocation → IO Surroundings
  | .ok (.processInput _) => do
      return ⟨← (← IO.getStdin).readBinToEnd, fun _ => none⟩
  | .ok (.processPath path _) => do
      let tree ← loadTree path
      return ⟨.empty, fun _ => tree⟩
  | _ => return ⟨.empty, fun _ => none⟩

/-- A span of time in a fitting unit. -/
def elapsedText (microseconds : Nat) : String :=
  if microseconds < 1000 then toString microseconds ++ "μs"
  else if microseconds < 1000000 then
    let tenths := (microseconds + 50) / 100
    toString (tenths / 10) ++ "." ++ toString (tenths % 10) ++ "ms"
  else
    let hundredths := (microseconds + 5000) / 10000
    let rest := hundredths % 100
    toString (hundredths / 100) ++ "." ++ (if rest < 10 then "0" else "") ++ toString rest ++ "s"

end ReactiveTemplate

open ReactiveTemplate in
/-- Runs the command line `words`. -/
def main (words : List String) : IO UInt32 := do
  let start ← IO.monoNanosNow
  let outcome := runWords (← surroundings (Invocation.ofWords words)) words
  for write in outcome.writes do
    IO.FS.writeFile write.path write.content
  let elapsed := elapsedText (((← IO.monoNanosNow) - start) / 1000)
  let errors ← IO.getStderr
  let terminal ← errors.isTty
  IO.print outcome.output
  for message in outcome.messages do
    errors.putStr (message.text terminal elapsed)
  return outcome.exitCode.toUInt32
