import ReactiveTemplate.Proofs.Command.Places

/-!
# What a walk meets

A walk through a directory meets the directory itself and whatever stands at a place in it, each
with the path of its place.
-/

namespace ReactiveTemplate

namespace FileTree

/-- `Inside tree path v` says that `v` is met inside of the directory `tree` at `path`. -/
inductive Inside : FileTree → String → Visit → Prop where
  | entry {entries : List (String × FileTree)} {path name : String} {entry : FileTree}
      (h : (name, entry) ∈ entries) :
      Inside (directory entries) path ⟨path, name, join path name, entry⟩
  | deeper {entries : List (String × FileTree)} {path name : String} {entry : FileTree} {v : Visit}
      (h : (name, entry) ∈ entries) (hinside : Inside entry (join path name) v) :
      Inside (directory entries) path v

theorem inside_cons {path name : String} {entry : FileTree} {entries : List (String × FileTree)}
    {v : Visit} :
    Inside (directory ((name, entry) :: entries)) path v ↔
      v = ⟨path, name, join path name, entry⟩ ∨ Inside entry (join path name) v ∨
        Inside (directory entries) path v := by
  constructor
  · intro h
    cases h with
    | entry h =>
        rcases List.mem_cons.mp h with heq | h
        · cases heq
          exact .inl rfl
        · exact .inr (.inr (.entry h))
    | deeper h hinside =>
        rcases List.mem_cons.mp h with heq | h
        · cases heq
          exact .inr (.inl hinside)
        · exact .inr (.inr (.deeper h hinside))
  · rintro (rfl | hinside | hinside)
    · exact .entry List.mem_cons_self
    · exact .deeper List.mem_cons_self hinside
    · cases hinside with
      | entry h => exact .entry (List.mem_cons_of_mem _ h)
      | deeper h hinside => exact .deeper (List.mem_cons_of_mem _ h) hinside

mutual

/-- A walk visits an entry and everything inside it, behind what has been visited before. The
recursion is that of the tree. -/
theorem mem_walkFrom {done : List Visit} {parent name path : String} {v : Visit} :
    ∀ tree : FileTree, v ∈ walkFrom done parent name path tree ↔
      v ∈ done ∨ v = ⟨parent, name, path, tree⟩ ∨ Inside tree path v
  | file content => by
      have hnone : ¬Inside (file content) path v := by rintro ⟨⟩
      simp [walkFrom, hnone, or_comm]
  | directory entries => by
      rw [walkFrom, mem_walkEntries entries, List.mem_cons, or_assoc, or_left_comm]

theorem mem_walkEntries {done : List Visit} {path : String} {v : Visit} :
    ∀ entries : List (String × FileTree), v ∈ walkEntries done path entries ↔
      v ∈ done ∨ Inside (directory entries) path v
  | [] => by
      have hnone : ¬Inside (directory []) path v := by
        rintro (⟨h⟩ | ⟨h, -⟩) <;> exact absurd h List.not_mem_nil
      simp [walkEntries, hnone]
  | (name, entry) :: entries => by
      rw [walkEntries, mem_walkEntries entries, mem_walkFrom entry, inside_cons, or_assoc, or_assoc]

end

/-! ## Places of visits -/

/-- The visit of an entry of the directory at a place. -/
def visitAt (path : String) (folder : List String) (name : String) (entry : FileTree) : Visit :=
  ⟨joinAll path folder, name, join (joinAll path folder) name, entry⟩

/-- The visit with which a walk starts. -/
def firstVisit (path : String) (tree : FileTree) : Visit :=
  ⟨"", (fileName? path).getD "", path, tree⟩

/-- What is inside a tree stands at a place in it, and its path is the path of the tree with the
names of the place behind it. -/
theorem inside_iff {tree : FileTree} (h : tree.WellFormed) {path : String} {v : Visit} :
    Inside tree path v ↔
      ∃ folder name entry, tree.at? (folder ++ [name]) = some entry ∧
        v = visitAt path folder name entry := by
  constructor
  · intro hinside
    induction hinside with
    | @entry entries path name entry hmem =>
        cases h with
        | directory hnodup =>
            refine ⟨[], name, entry, ?_, rfl⟩
            rw [List.nil_append, at?_cons]
            exact congrArg (Option.bind · _) (lookup_of_mem hnodup hmem)
    | @deeper entries path name entry v hmem _ ih =>
        cases h with
        | directory hnodup _ hentry =>
            obtain ⟨folder, last, found, hat, rfl⟩ := ih (hentry _ hmem)
            refine ⟨name :: folder, last, found, ?_, rfl⟩
            rw [List.cons_append, at?_cons, ← hat]
            exact congrArg (Option.bind · _) (lookup_of_mem hnodup hmem)
  · rintro ⟨folder, name, entry, hat, rfl⟩
    induction folder generalizing tree path with
    | nil =>
        rw [List.nil_append, at?_cons, Option.bind_eq_some_iff] at hat
        obtain ⟨found, hlookup, hat⟩ := hat
        cases hat
        cases h with
        | file => contradiction
        | directory => exact .entry (mem_of_lookup hlookup)
    | cons first folder ih =>
        rw [List.cons_append, at?_cons, Option.bind_eq_some_iff] at hat
        obtain ⟨found, hlookup, hat⟩ := hat
        cases h with
        | file => contradiction
        | directory _ _ hentry =>
            have hmem := mem_of_lookup hlookup
            exact .deeper hmem (ih (hentry _ hmem) hat)

/-- A walk meets the directory that it goes through, and all that stands at a place in it. -/
theorem mem_walk_iff {tree : FileTree} (h : tree.WellFormed) {path : String} {v : Visit} :
    v ∈ tree.walk path ↔
      v = firstVisit path tree ∨
        ∃ folder name entry, tree.at? (folder ++ [name]) = some entry ∧
          v = visitAt path folder name entry := by
  rw [walk, List.mem_reverse, mem_walkFrom, inside_iff h]
  simp [firstVisit]

end FileTree

end ReactiveTemplate
