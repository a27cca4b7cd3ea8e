/-!
# File trees

What a command sees of a file system: files with their bytes, and directories with their entries in
the order in which a walk meets them. Paths are texts as they are given and shown; a tree is looked
up and changed by the components of a path.
-/

namespace ReactiveTemplate

/-- A file or a directory. -/
inductive FileTree where
  | file (content : ByteArray)
  | directory (entries : List (String × FileTree))

namespace FileTree

/-- Whether an entry is a directory. -/
def isDirectory : FileTree → Bool
  | file _ => false
  | directory _ => true

/-- The entries of a directory; a file has none. -/
def entries : FileTree → List (String × FileTree)
  | file _ => []
  | directory entries => entries

/-! ## Paths -/

/-- What stands between the slashes of a path. -/
def segments (path : String) : List String :=
  (path.toList.splitOn '/').map String.ofList

/-- The components of a path. Empty ones and single points lead nowhere else and are left out. -/
def components (path : String) : List String :=
  (segments path).filter fun name => name != "" && name != "."

/-- The path of an entry in the directory at `path`. -/
def join (path name : String) : String :=
  if path.toList.getLast? = some '/' then path ++ name else path ++ "/" ++ name

/-- The last component of a path, unless that leads back out of a directory. -/
def fileName? (path : String) : Option String :=
  (components path).getLast?.filter (· != "..")

/-- Whether a path says that it leads to a directory. -/
def namesDirectory (path : String) : Bool :=
  match (segments path).getLast? with
  | some last => last == "" || last == "."
  | none => false

/-! ## Looking up and changing -/

/-- What some components lead to, from an entry with the given directories around it. -/
def follow? (outer : List FileTree) (tree : FileTree) : List String → Option FileTree
  | [] => some tree
  | name :: path =>
      match tree with
      | file _ => none
      | directory entries =>
          if name = ".." then
            match outer with
            | [] => none
            | parent :: outer => parent.follow? outer path
          else
            match entries.lookup name with
            | some entry => entry.follow? (directory entries :: outer) path
            | none => none

/-- What a path relative to the directory `tree` leads to. A path that leaves this directory leads
nowhere. -/
def find? (tree : FileTree) (path : String) : Option FileTree :=
  if path.toList.head? = some '/' then none
  else
    match tree.follow? [] (components path) with
    | some (file content) => if namesDirectory path then none else some (file content)
    | found => found

/-- Entries with the one of the given name replaced, or added behind the others. -/
def alter (name : String) (change : Option FileTree → FileTree) :
    List (String × FileTree) → List (String × FileTree)
  | [] => [(name, change none)]
  | (other, entry) :: rest =>
      if other = name then (name, change (some entry)) :: rest
      else (other, entry) :: alter name change rest

/-- An entry with what some names lead to changed; directories on the way are made where they are
missing. -/
def update (change : Option FileTree → FileTree) : List String → Option FileTree → FileTree
  | [], entry => change entry
  | name :: path, entry =>
      directory (alter name (update change path) ((entry.map entries).getD []))

/-- One component further from a place in a tree, whose names are in reverse. Two points lead back
out of the last directory. -/
def descend (place : List String) (name : String) : List String :=
  if name = ".." then place.drop 1 else name :: place

/-- The names that lead straight to the place at the end of a path. -/
def destination (path : String) : List String :=
  ((components path).foldl descend []).reverse

/-- A tree with a file written at a path. -/
def write (tree : FileTree) (path : String) (content : ByteArray) : FileTree :=
  update (fun _ => file content) (destination path) (some tree)

/-- A tree with a directory at a path. -/
def makeDirectory (tree : FileTree) (path : String) : FileTree :=
  update (fun entry => directory ((entry.map entries).getD [])) (destination path) (some tree)

/-! ## Walks -/

/-- An entry met on a walk. -/
structure Visit where
  /-- The path of the directory that it is in. -/
  parent : String
  name : String
  path : String
  entry : FileTree

mutual

/-- The visits `done`, newest first, and those of an entry: a directory comes before what is in
it. -/
def walkFrom (done : List Visit) (parent name path : String) : FileTree → List Visit
  | file content => ⟨parent, name, path, file content⟩ :: done
  | directory entries =>
      walkEntries (⟨parent, name, path, directory entries⟩ :: done) path entries

/-- The visits `done`, newest first, and those of the entries of the directory at `path`. -/
def walkEntries (done : List Visit) (path : String) : List (String × FileTree) → List Visit
  | [] => done
  | (name, entry) :: rest =>
      walkEntries (walkFrom done path name (join path name) entry) path rest

end

/-- The visits of a walk through the entry at `path`. -/
def walk (tree : FileTree) (path : String) : List Visit :=
  (walkFrom [] "" ((fileName? path).getD "") path tree).reverse

mutual

/-- The files `done`, newest first, and those of an entry, each with its path. -/
def filesFrom (done : List (String × ByteArray)) (path : String) :
    FileTree → List (String × ByteArray)
  | file content => (path, content) :: done
  | directory entries => filesInEntries done (if path = "" then "" else path ++ "/") entries

/-- The files `done`, newest first, and those of the entries of the directory with the given path in
front of their names. -/
def filesInEntries (done : List (String × ByteArray)) (path : String) :
    List (String × FileTree) → List (String × ByteArray)
  | [] => done
  | (name, entry) :: rest => filesInEntries (filesFrom done (path ++ name) entry) path rest

end

/-- The files of a tree, each with its path. -/
def files (tree : FileTree) : List (String × ByteArray) :=
  (filesFrom [] "" tree).reverse

end FileTree

end ReactiveTemplate
