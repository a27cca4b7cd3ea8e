import ReactiveTemplate.Command.FileTree

/-!
# Places in a file tree

A place is the list of the names that lead to it. What is seen of a tree are its directories and its
files with their contents, each at its place, whatever the order of the entries. A path leads to a
place, and a file that is written there is all that changes.
-/

namespace ReactiveTemplate

namespace FileTree

/-! ## Looking at places -/

/-- What stands at a place. -/
def at? (tree : FileTree) : List String → Option FileTree
  | [] => some tree
  | name :: place => (tree.entries.lookup name).bind fun entry => entry.at? place

/-- What is seen of an entry from outside. -/
inductive Sight where
  | directory
  | file (content : ByteArray)

/-- The sight of an entry. -/
def sight : FileTree → Sight
  | file content => .file content
  | directory _ => .directory

/-- What is seen at a place. -/
def look (tree : FileTree) (place : List String) : Option Sight :=
  (tree.at? place).map sight

theorem at?_cons (tree : FileTree) (name : String) (place : List String) :
    tree.at? (name :: place) = (tree.entries.lookup name).bind fun entry => entry.at? place :=
  rfl

theorem at?_append (tree : FileTree) (place more : List String) :
    tree.at? (place ++ more) = (tree.at? place).bind fun entry => entry.at? more := by
  induction place generalizing tree with
  | nil => rfl
  | cons name place ih =>
      rw [List.cons_append, at?_cons, at?_cons, Option.bind_assoc]
      exact congrArg _ (funext ih)

theorem at?_concat (tree : FileTree) (place : List String) (name : String) :
    tree.at? (place ++ [name]) =
      (tree.at? place).bind fun entry => entry.entries.lookup name := by
  rw [at?_append]
  refine congrArg _ (funext fun entry => ?_)
  rw [at?_cons]
  exact Option.bind_fun_some _

theorem look_cons (tree : FileTree) (name : String) (place : List String) :
    tree.look (name :: place) = (tree.entries.lookup name).bind fun entry => entry.look place := by
  rw [look, at?_cons, Option.map_bind]
  rfl

theorem sight_eq_directory_iff {tree : FileTree} :
    tree.sight = .directory ↔ ∃ entries, tree = directory entries := by
  cases tree <;> simp [sight]

theorem sight_eq_file_iff {tree : FileTree} {content : ByteArray} :
    tree.sight = .file content ↔ tree = file content := by
  cases tree <;> simp [sight]

theorem look_eq_directory_iff {tree : FileTree} {place : List String} :
    tree.look place = some .directory ↔ ∃ entries, tree.at? place = some (directory entries) := by
  simp only [look, Option.map_eq_some_iff, sight_eq_directory_iff]
  constructor
  · rintro ⟨_, hat, entries, rfl⟩
    exact ⟨entries, hat⟩
  · rintro ⟨entries, hat⟩
    exact ⟨_, hat, entries, rfl⟩

theorem look_eq_file_iff {tree : FileTree} {place : List String} {content : ByteArray} :
    tree.look place = some (.file content) ↔ tree.at? place = some (file content) := by
  simp [look, Option.map_eq_some_iff, sight_eq_file_iff]

/-! ## Looking into directories -/

theorem lookup_cons (name other : String) (first : FileTree) (entries : List (String × FileTree)) :
    ((other, first) :: entries).lookup name =
      if name = other then some first else entries.lookup name := by
  rw [List.lookup_cons]
  split <;> simp_all

theorem mem_of_lookup {entries : List (String × FileTree)} {name : String} {entry : FileTree}
    (h : entries.lookup name = some entry) : (name, entry) ∈ entries := by
  obtain ⟨front, back, rfl, -⟩ := List.lookup_eq_some_iff.mp h
  simp

/-- With different names in a directory, an entry that is in it is the one that is found under its
name. -/
theorem lookup_of_mem {entries : List (String × FileTree)} (h : (entries.map Prod.fst).Nodup)
    {name : String} {entry : FileTree} (hmem : (name, entry) ∈ entries) :
    entries.lookup name = some entry := by
  induction entries with
  | nil => contradiction
  | cons e entries ih =>
      obtain ⟨other, first⟩ := e
      rw [List.map_cons, List.nodup_cons] at h
      rw [lookup_cons]
      rcases List.mem_cons.mp hmem with heq | hrest
      · cases heq
        exact if_pos rfl
      · have hne : name ≠ other := by
          rintro rfl
          exact h.1 (List.mem_map.mpr ⟨_, hrest, rfl⟩)
        rw [if_neg hne, ih h.2 hrest]

/-- Whatever is seen inside of a directory is seen inside of one of its entries. -/
theorem exists_of_look_cons {tree : FileTree} {name : String} {place : List String} {seen : Sight}
    (h : tree.look (name :: place) = some seen) :
    ∃ entries entry, tree = directory entries ∧ entries.lookup name = some entry ∧
      entry.look place = some seen := by
  rw [look_cons, Option.bind_eq_some_iff] at h
  obtain ⟨entry, hlookup, hlook⟩ := h
  cases tree with
  | file => contradiction
  | directory entries => exact ⟨entries, entry, rfl, hlookup, hlook⟩

/-- Nothing is seen below anything but a directory. -/
theorem look_below {tree : FileTree} {place : List String} (h : tree.look place ≠ some .directory)
    {name : String} {more : List String} : tree.look (place ++ name :: more) = none := by
  rw [look, at?_append]
  cases hat : tree.at? place with
  | none => rfl
  | some entry =>
      cases entry with
      | file => rfl
      | directory => exact absurd (congrArg (Option.map sight) hat) h

/-- What is seen in a directory is the directory itself, or is seen in one of its entries. -/
theorem mem_of_look {entries : List (String × FileTree)} {place : List String} {seen : Sight}
    (h : (directory entries).look place = some seen) :
    (place = [] ∧ seen = .directory) ∨ ∃ name entry rest, (name, entry) ∈ entries ∧
      place = name :: rest ∧ entry.look rest = some seen := by
  cases place with
  | nil => exact .inl ⟨rfl, (Option.some.inj h).symm⟩
  | cons name rest =>
      obtain ⟨_, entry, hentries, hlookup, hlook⟩ := exists_of_look_cons h
      cases hentries
      exact .inr ⟨name, entry, rest, mem_of_lookup hlookup, rfl, hlook⟩

theorem look_file {content : ByteArray} {place : List String} {seen : Sight}
    (h : (file content).look place = some seen) : place = [] ∧ seen = .file content := by
  cases place with
  | nil => exact ⟨rfl, (Option.some.inj h).symm⟩
  | cons => contradiction

/-! ## Trees that can be -/

/-- A name that an entry may have. -/
structure IsName (name : String) : Prop where
  ne_empty : name ≠ ""
  ne_point : name ≠ "."
  ne_points : name ≠ ".."
  noSlash : '/' ∉ name.toList

instance (name : String) : Decidable (IsName name) :=
  decidable_of_iff (name ≠ "" ∧ name ≠ "." ∧ name ≠ ".." ∧ '/' ∉ name.toList)
    ⟨fun ⟨hempty, hpoint, hpoints, hslash⟩ => ⟨hempty, hpoint, hpoints, hslash⟩,
      fun h => ⟨h.ne_empty, h.ne_point, h.ne_points, h.noSlash⟩⟩

/-- The entries of every directory have names, and different ones. -/
inductive WellFormed : FileTree → Prop where
  | file (content : ByteArray) : WellFormed (file content)
  | directory {entries : List (String × FileTree)} (hnodup : (entries.map Prod.fst).Nodup)
      (hname : ∀ e ∈ entries, IsName e.1) (hentry : ∀ e ∈ entries, WellFormed e.2) :
      WellFormed (directory entries)

theorem wellFormed_singleton {name : String} {entry : FileTree} (hname : IsName name)
    (hentry : entry.WellFormed) : (directory [(name, entry)]).WellFormed :=
  .directory (by simp) (by simpa using hname) (by simpa using hentry)

namespace WellFormed

variable {tree entry : FileTree}

theorem lookup (h : tree.WellFormed) {name : String}
    (hlookup : tree.entries.lookup name = some entry) : IsName name ∧ entry.WellFormed := by
  cases h with
  | file => contradiction
  | directory _ hname hentry =>
      have hmem := mem_of_lookup hlookup
      exact ⟨hname _ hmem, hentry _ hmem⟩

theorem at? (h : tree.WellFormed) {place : List String} (hat : tree.at? place = some entry) :
    (∀ name ∈ place, IsName name) ∧ entry.WellFormed := by
  induction place generalizing tree with
  | nil =>
      cases hat
      exact ⟨by simp, h⟩
  | cons name place ih =>
      rw [at?_cons, Option.bind_eq_some_iff] at hat
      obtain ⟨inner, hlookup, hat⟩ := hat
      obtain ⟨hname, hinner⟩ := h.lookup hlookup
      obtain ⟨hplace, hentry⟩ := ih hinner hat
      exact ⟨List.forall_mem_cons.mpr ⟨hname, hplace⟩, hentry⟩

theorem isName (h : tree.WellFormed) {place : List String} {sight : Sight}
    (hlook : tree.look place = some sight) : ∀ name ∈ place, IsName name := by
  obtain ⟨entry, hat, -⟩ := Option.map_eq_some_iff.mp hlook
  exact (h.at? hat).1

end WellFormed

/-! ## Paths -/

theorem segments_slash (front back : List Char) :
    segments (String.ofList (front ++ '/' :: back)) =
      segments (String.ofList front) ++ segments (String.ofList back) := by
  simp only [segments, String.toList_ofList, List.splitOn_append_cons_self, List.map_append]

/-- The components of a path are those in front of a slash and those behind it, wherever the slash
stands. -/
theorem components_slash (front back : List Char) :
    components (String.ofList (front ++ '/' :: back)) =
      components (String.ofList front) ++ components (String.ofList back) := by
  simp only [components, segments_slash, List.filter_append]

theorem components_of_isName {name : String} (h : IsName name) : components name = [name] := by
  rw [components, segments, List.splitOn_eq_singleton h.noSlash, List.map_singleton,
    String.ofList_toList]
  simp [h.ne_empty, h.ne_point]

/-- Joining a name to a path adds that name to its components, whether or not the path ends with a
slash. -/
theorem components_join (path : String) {name : String} (h : IsName name) :
    components (join path name) = components path ++ [name] := by
  have hempty : components (String.ofList []) = [] := by decide
  rw [← components_of_isName h, join]
  split
  · next hlast =>
      obtain ⟨front, hfront⟩ := List.getLast?_eq_some_iff.mp hlast
      have hpath : path = String.ofList (front ++ ['/']) := by rw [← hfront, String.ofList_toList]
      have hjoin : path ++ name = String.ofList (front ++ '/' :: name.toList) := by
        rw [← String.toList_inj, String.toList_append, hfront, String.toList_ofList]
        simp
      rw [hjoin, hpath, components_slash, components_slash, hempty, List.append_nil,
        String.ofList_toList]
  · have hjoin : path ++ "/" ++ name = String.ofList (path.toList ++ '/' :: name.toList) := by
      rw [← String.toList_inj]
      simp
    rw [hjoin, components_slash, String.ofList_toList, String.ofList_toList]

/-- A name behind a path leads one step further from where the path leads, since a name is never two
points. -/
theorem destination_join (path : String) {name : String} (h : IsName name) :
    destination (join path name) = destination path ++ [name] := by
  rw [destination, components_join path h, List.foldl_append, List.foldl_cons, List.foldl_nil,
    descend, if_neg h.ne_points, List.reverse_cons, destination]

/-- The path of a place behind a path. -/
def joinAll (path : String) (place : List String) : String :=
  place.foldl join path

theorem destination_joinAll (path : String) {place : List String}
    (h : ∀ name ∈ place, IsName name) :
    destination (joinAll path place) = destination path ++ place := by
  induction place generalizing path with
  | nil => simp [joinAll]
  | cons name place ih =>
      rw [List.forall_mem_cons] at h
      rw [joinAll, List.foldl_cons, ← joinAll, ih _ h.2, destination_join path h.1]
      simp

/-! ## Following paths -/

/-- `Leads tree place outer entry` says that `entry` stands at the place with the names `place`, in
reverse, and that the directories `outer` are around it, the innermost one first. -/
inductive Leads (tree : FileTree) : List String → List FileTree → FileTree → Prop where
  | start : Leads tree [] [] tree
  | enter {place : List String} {outer : List FileTree} {entries : List (String × FileTree)}
      {name : String} {entry : FileTree} (h : Leads tree place outer (directory entries))
      (hlookup : entries.lookup name = some entry) :
      Leads tree (name :: place) (directory entries :: outer) entry

theorem Leads.at? {tree entry : FileTree} {place : List String} {outer : List FileTree}
    (h : Leads tree place outer entry) : tree.at? place.reverse = some entry := by
  induction h with
  | start => rfl
  | enter _ hlookup ih =>
      rw [List.reverse_cons, at?_concat, ih]
      exact hlookup

theorem follow?_directory (outer : List FileTree) (entries : List (String × FileTree))
    (name : String) (names : List String) :
    (directory entries).follow? outer (name :: names) =
      if name = ".." then outer.head?.bind fun parent => parent.follow? outer.tail names
      else (entries.lookup name).bind fun entry =>
        entry.follow? (directory entries :: outer) names := by
  cases outer <;> rw [follow?] <;> cases entries.lookup name <;> rfl

/-- Following a path through the directories around an entry ends at the place that its components
spell out, two points included. -/
theorem at?_of_follow? {tree entry found : FileTree} {place : List String} {outer : List FileTree}
    (h : Leads tree place outer entry) {names : List String}
    (hfollow : entry.follow? outer names = some found) :
    tree.at? (names.foldl descend place).reverse = some found := by
  induction names generalizing place outer entry with
  | nil =>
      cases hfollow
      exact h.at?
  | cons name names ih =>
      cases entry with
      | file => contradiction
      | directory entries =>
          rw [follow?_directory] at hfollow
          rw [List.foldl_cons, descend]
          split at hfollow
          · next hname =>
              rw [if_pos hname]
              cases h with
              | start => contradiction
              | enter h => exact ih h hfollow
          · next hname =>
              rw [if_neg hname]
              obtain ⟨entry, hlookup, hfollow⟩ := Option.bind_eq_some_iff.mp hfollow
              exact ih (h.enter hlookup) hfollow

/-- A path leads to its place. -/
theorem at?_of_find? {tree found : FileTree} {path : String} (h : tree.find? path = some found) :
    tree.at? (destination path) = some found := by
  have hfollow : tree.follow? [] (components path) = some found := by
    unfold find? at h
    split at h
    · contradiction
    · split at h
      · next hfollow =>
          split at h
          · contradiction
          · rwa [h] at hfollow
      · exact h
  exact at?_of_follow? .start hfollow

/-- Whether all directories of a tree are in another one, too. -/
def FoldersIn (tree other : FileTree) : Prop :=
  ∀ place, tree.look place = some .directory → other.look place = some .directory

theorem sight_of_follow? {tree : FileTree} {outer : List FileTree} {names : List String}
    {entries : List (String × FileTree)}
    (h : tree.follow? outer names = some (directory entries)) : tree.sight = .directory := by
  cases tree with
  | directory => rfl
  | file =>
      cases names with
      | nil => cases h
      | cons => contradiction

theorem Leads.sight {tree tree' entry entry' : FileTree} {place : List String}
    {outer outer' : List FileTree} (hin : tree.FoldersIn tree') (h : Leads tree place outer entry)
    (h' : Leads tree' place outer' entry') (hsight : entry.sight = .directory) :
    entry'.sight = .directory := by
  have hlook : tree.look place.reverse = some .directory := by rw [look, h.at?, ← hsight]; rfl
  have hlook' := hin _ hlook
  rw [look, h'.at?] at hlook'
  exact Option.some.inj hlook'

/-- Names that lead to a directory still do so when there are more directories. -/
theorem exists_follow? {tree tree' entry entry' : FileTree} {place : List String}
    {outer outer' : List FileTree} (hin : tree.FoldersIn tree') (h : Leads tree place outer entry)
    (h' : Leads tree' place outer' entry') {names : List String}
    {entries : List (String × FileTree)}
    (hfollow : entry.follow? outer names = some (directory entries)) :
    ∃ entries', entry'.follow? outer' names = some (directory entries') := by
  induction names generalizing place outer outer' entry entry' with
  | nil =>
      obtain ⟨entries', rfl⟩ :=
        sight_eq_directory_iff.mp (h.sight hin h' (sight_of_follow? hfollow))
      exact ⟨entries', rfl⟩
  | cons name names ih =>
      have hsight := sight_of_follow? hfollow
      obtain ⟨inner', rfl⟩ := sight_eq_directory_iff.mp (h.sight hin h' hsight)
      obtain ⟨inner, rfl⟩ := sight_eq_directory_iff.mp hsight
      rw [follow?_directory] at hfollow ⊢
      split
      · next hname =>
          rw [if_pos hname] at hfollow
          cases h with
          | start => contradiction
          | enter h =>
              cases h' with
              | enter h' => exact ih h h' hfollow
      · next hname =>
          rw [if_neg hname] at hfollow
          obtain ⟨next, hlookup, hfollow⟩ := Option.bind_eq_some_iff.mp hfollow
          have hnext := h.enter hlookup
          have hlook : tree.look (name :: place).reverse = some .directory := by
            rw [look, hnext.at?, ← sight_of_follow? hfollow]
            rfl
          obtain ⟨entries'', hat⟩ := look_eq_directory_iff.mp (hin _ hlook)
          rw [List.reverse_cons, at?_concat, h'.at?] at hat
          have hlookup' : inner'.lookup name = some (directory entries'') := hat
          rw [hlookup']
          exact ih hnext (h'.enter hlookup') hfollow

/-- A directory that is found at a path is found there in every tree that has all of the same
directories. Files beside them play no part. -/
theorem exists_find? {tree tree' : FileTree} (hin : tree.FoldersIn tree') {path : String}
    {entries : List (String × FileTree)} (h : tree.find? path = some (directory entries)) :
    ∃ entries', tree'.find? path = some (directory entries') := by
  unfold find? at h ⊢
  split at h
  · contradiction
  · next hrelative =>
      rw [if_neg hrelative]
      have hfollow : tree.follow? [] (components path) = some (directory entries) := by
        split at h
        · split at h <;> cases h
        · exact h
      obtain ⟨entries', hfollow'⟩ := exists_follow? hin .start .start hfollow
      rw [hfollow']
      exact ⟨entries', rfl⟩

end FileTree

end ReactiveTemplate
