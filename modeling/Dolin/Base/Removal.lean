import Dolin.Base.FileTree

/-!
# Removing entries of a tree of files

Where no two entries of a directory have the same name, a tree is what each path names: a file, another
entry or a directory, without what is in it (`shape`). To remove an entry that has nothing in it takes
away that path and leaves all others, so after any number of such removals a path names what it named
before, or was itself removed.
-/

namespace FileTree

namespace Node

variable {ν : Type}

mutual

/-- More than the length of any path. -/
def height : Node ν → Nat
  | file _ _ | other _ => 1
  | dir _ _ _ children => heights children + 1

def heights : List (Node ν) → Nat
  | [] => 0
  | node :: nodes => max (height node) (heights nodes)

end

theorem height_pos (node : Node ν) : 0 < node.height := by
  cases node <;> simp [height]

theorem height_le_heights {node : Node ν} {nodes : List (Node ν)} (mem : node ∈ nodes) :
    node.height ≤ heights nodes := by
  induction nodes with
  | nil => cases mem
  | cons first nodes ih =>
    rw [heights]
    rcases List.mem_cons.mp mem with rfl | mem
    · exact Nat.le_max_left _ _
    · exact Nat.le_trans (ih mem) (Nat.le_max_right _ _)

theorem height_lt_of_mem {node child : Node ν} (mem : child ∈ node.children) :
    child.height < node.height := by
  cases node with
  | dir name deletes lists children =>
    rw [height]
    exact Nat.lt_succ_of_le (height_le_heights mem)
  | file => cases mem
  | other => cases mem

/-- The entry without what is in it. -/
def shape (node : Node ν) : Node ν := node.withChildren fun _ => []

@[simp] theorem isDirectory_shape (node : Node ν) : node.shape.isDirectory = node.isDirectory := by
  cases node <;> rfl

@[simp] theorem shape_withChildren (f : List (Node ν) → List (Node ν)) (node : Node ν) :
    (node.withChildren f).shape = node.shape := by
  cases node <;> rfl

variable [DecidableEq ν]

theorem length_lt_height {node d : Node ν} {path : List ν} (found : node.get path = some d) :
    path.length < node.height := by
  induction path generalizing node with
  | nil => exact height_pos node
  | cons name path ih =>
    rw [get, Option.bind_eq_some_iff] at found
    obtain ⟨child, there, found⟩ := found
    have lower := height_lt_of_mem (mem_of_lookup there)
    have := ih found
    rw [List.length_cons]
    omega

/-- No two entries of a directory have the same name. -/
def Distinct (node : Node ν) : Prop := ∀ path, ((node.childrenAt path).map name).Nodup

theorem Distinct.names {node : Node ν} (distinct : node.Distinct) : (node.children.map name).Nodup :=
  distinct []

theorem Distinct.of_lookup {node child : Node ν} {name : ν} (distinct : node.Distinct)
    (there : lookup name node.children = some child) : child.Distinct := by
  intro path
  have inside := distinct (name :: path)
  rw [childrenAt_cons, there] at inside
  exact inside

/-- The first entry of a name removed. -/
def erase (name : ν) (nodes : List (Node ν)) : List (Node ν) := nodes.eraseP (·.name = name)

theorem erase_cons (name : ν) (node : Node ν) (nodes : List (Node ν)) :
    erase name (node :: nodes) = if node.name = name then nodes else node :: erase name nodes := by
  rw [erase, List.eraseP_cons]
  by_cases same : node.name = name
  · rw [if_pos same, decide_eq_true same, cond_true]
  · rw [if_neg same, decide_eq_false same, cond_false, erase]

theorem lookup_erase_other {name other : ν} (ne : other ≠ name) (nodes : List (Node ν)) :
    lookup other (erase name nodes) = lookup other nodes := by
  induction nodes with
  | nil => rfl
  | cons node nodes ih =>
    rw [erase_cons]
    by_cases same : node.name = name
    · have skip : node.name ≠ other := fun eq => ne (eq.symm.trans same)
      rw [if_pos same, lookup_cons, if_neg skip]
    · rw [if_neg same, lookup_cons, lookup_cons, ih]

theorem lookup_eq_none_iff {name : ν} {nodes : List (Node ν)} :
    lookup name nodes = none ↔ name ∉ nodes.map Node.name := by
  rw [lookup, List.find?_eq_none, List.mem_map, not_exists]
  refine forall_congr' fun node => ?_
  rw [decide_eq_true_eq, not_and]

theorem lookup_erase_same {name : ν} {nodes : List (Node ν)} (distinct : (nodes.map Node.name).Nodup) :
    lookup name (erase name nodes) = none := by
  induction nodes with
  | nil => rfl
  | cons node nodes ih =>
    rw [List.map_cons, List.nodup_cons] at distinct
    rw [erase_cons]
    by_cases same : node.name = name
    · rw [if_pos same, lookup_eq_none_iff, ← same]
      exact distinct.1
    · rw [if_neg same, lookup_cons, if_neg same, ih distinct.2]

theorem map_name_change {f : Node ν → Node ν} (keeps : ∀ n, (f n).name = n.name) (name : ν)
    (nodes : List (Node ν)) : (change name f nodes).map Node.name = nodes.map Node.name := by
  induction nodes with
  | nil => rfl
  | cons node nodes ih =>
    rw [change]
    split
    · rw [List.map_cons, keeps, List.map_cons]
    · rw [List.map_cons, ih, List.map_cons]

/-! ## An entry removed -/

/-- What a path names, removed. The root stays. -/
def remove : List ν → Node ν → Node ν
  | [], node => node
  | [name], node => node.withChildren (erase name)
  | name :: next :: path, node => node.withChildren (change name (remove (next :: path)))

@[simp] theorem name_remove (path : List ν) (node : Node ν) : (node.remove path).name = node.name := by
  match path with
  | [] => rfl
  | [_] => exact name_withChildren _ node
  | _ :: _ :: _ => exact name_withChildren _ node

@[simp] theorem shape_remove (path : List ν) (node : Node ν) :
    (node.remove path).shape = node.shape := by
  match path with
  | [] => rfl
  | [_] => exact shape_withChildren _ node
  | _ :: _ :: _ => exact shape_withChildren _ node

/-- The names in a directory are those that were there. -/
theorem sublist_childrenAt_remove {node : Node ν} (distinct : node.Distinct) (path other : List ν) :
    List.Sublist (((node.remove path).childrenAt other).map name)
      ((node.childrenAt other).map name) := by
  match path, other with
  | [], _ => exact List.Sublist.refl _
  | [name], [] =>
    cases node with
    | dir => exact List.eraseP_sublist.map _
    | file => exact List.Sublist.refl _
    | other => exact List.Sublist.refl _
  | name :: next :: path, [] =>
    cases node with
    | dir root deletes lists children =>
      change ((change name (remove (next :: path)) children).map Node.name).Sublist _
      rw [map_name_change (name_remove _)]
      exact List.Sublist.refl _
    | file => exact List.Sublist.refl _
    | other => exact List.Sublist.refl _
  | [name], first :: other =>
    rw [remove, childrenAt_cons, childrenAt_cons]
    by_cases d : node.isDirectory = true
    · rw [children_withChildren d]
      by_cases same : first = name
      · rw [same, lookup_erase_same distinct.names]
        exact List.nil_sublist _
      · rw [lookup_erase_other same]
    · rw [withChildren_of_not_directory d]
  | name :: next :: path, first :: other =>
    rw [remove, childrenAt_cons, childrenAt_cons]
    by_cases d : node.isDirectory = true
    · rw [children_withChildren d]
      by_cases same : first = name
      · rw [same, lookup_change_same (name_remove _)]
        cases there : lookup name node.children with
        | none => exact List.Sublist.refl _
        | some child => exact sublist_childrenAt_remove (distinct.of_lookup there) (next :: path) other
      · rw [lookup_change_other (name_remove _) same]
    · rw [withChildren_of_not_directory d]

theorem Distinct.remove {node : Node ν} (distinct : node.Distinct) (path : List ν) :
    (node.remove path).Distinct :=
  fun other => (distinct other).sublist (sublist_childrenAt_remove distinct path other)

/-- The entry at a path, without what is in it. -/
def shapeAt (node : Node ν) (path : List ν) : Option (Node ν) := (node.get path).map shape

theorem shapeAt_cons (node : Node ν) (name : ν) (path : List ν) :
    node.shapeAt (name :: path) = (lookup name node.children).bind (shapeAt · path) := by
  rw [shapeAt, get, Option.map_bind]
  rfl

theorem shapeAt_eq_none_iff {node : Node ν} {path : List ν} :
    node.shapeAt path = none ↔ node.get path = none := Option.map_eq_none_iff

/-- There is an entry at the path, which is not the root, with nothing in it. -/
def Vacant (node : Node ν) (path : List ν) : Prop :=
  path ≠ [] ∧ ∃ entry, node.get path = some entry ∧ entry.children = []

/-- **To remove an entry with nothing in it** takes away its path and leaves all others. -/
theorem shapeAt_remove {node : Node ν} {path : List ν} (distinct : node.Distinct)
    (vacant : node.Vacant path) (other : List ν) :
    (node.remove path).shapeAt other = if other = path then none else node.shapeAt other := by
  obtain ⟨nonempty, entry, found, nothing⟩ := vacant
  have isDir : node.isDirectory = true := by
    obtain ⟨name, path, rfl⟩ := List.exists_cons_of_ne_nil nonempty
    exact isDirectory_of_get found
  match path, other with
  | [], _ => exact absurd rfl nonempty
  | name :: path, [] =>
    rw [if_neg (List.cons_ne_nil name path).symm]
    exact congrArg some (shape_remove _ node)
  | [name], first :: other =>
    rw [remove, shapeAt_cons, shapeAt_cons, children_withChildren isDir]
    by_cases same : first = name
    · subst same
      rw [lookup_erase_same distinct.names]
      rw [get, Option.bind_eq_some_iff] at found
      obtain ⟨child, there, eq⟩ := found
      cases eq
      cases other with
      | nil => exact (if_pos rfl).symm
      | cons next other =>
        rw [if_neg (by simp), there, Option.bind_some, shapeAt_cons, nothing]
        rfl
    · rw [lookup_erase_other same, if_neg (by simp [same])]
  | name :: next :: path, first :: other =>
    rw [remove, shapeAt_cons, shapeAt_cons, children_withChildren isDir]
    by_cases same : first = name
    · subst same
      rw [get, Option.bind_eq_some_iff] at found
      obtain ⟨child, there, found⟩ := found
      rw [lookup_change_same (name_remove _), there, Option.map_some, Option.bind_some,
        Option.bind_some, shapeAt_remove (distinct.of_lookup there)
          ⟨List.cons_ne_nil next path, entry, found, nothing⟩ other]
      simp only [List.cons.injEq, true_and]
    · rw [lookup_change_other (name_remove _) same, if_neg (by simp [same])]

/-! ## Entries removed one after the other -/

/-- Each of the paths names an entry with nothing in it when its turn comes. -/
def Clears : List (List ν) → Node ν → Prop
  | [], _ => True
  | path :: paths, node => node.Vacant path ∧ Clears paths (node.remove path)

/-- The entries removed in turn. -/
def removeAll (paths : List (List ν)) (node : Node ν) : Node ν :=
  paths.foldl (fun node path => node.remove path) node

@[simp] theorem removeAll_nil (node : Node ν) : node.removeAll [] = node := rfl

@[simp] theorem removeAll_cons (path : List ν) (paths : List (List ν)) (node : Node ν) :
    node.removeAll (path :: paths) = (node.remove path).removeAll paths := rfl

theorem removeAll_append (paths paths' : List (List ν)) (node : Node ν) :
    node.removeAll (paths ++ paths') = (node.removeAll paths).removeAll paths' := List.foldl_append

theorem Clears.append {paths paths' : List (List ν)} {node : Node ν} (clears : Clears paths node)
    (clears' : Clears paths' (node.removeAll paths)) : Clears (paths ++ paths') node := by
  induction paths generalizing node with
  | nil => exact clears'
  | cons path paths ih => exact ⟨clears.1, ih clears.2 clears'⟩

theorem Distinct.removeAll {node : Node ν} (distinct : node.Distinct) (paths : List (List ν)) :
    (node.removeAll paths).Distinct := by
  induction paths generalizing node with
  | nil => exact distinct
  | cons path paths ih => exact ih (distinct.remove path)

/-- **After the removals** a path names what it named before, or was removed. -/
theorem shapeAt_removeAll {node : Node ν} {paths : List (List ν)} (distinct : node.Distinct)
    (clears : Clears paths node) (other : List ν) :
    (node.removeAll paths).shapeAt other = if other ∈ paths then none else node.shapeAt other := by
  induction paths generalizing node with
  | nil => rw [if_neg List.not_mem_nil, removeAll_nil]
  | cons path paths ih =>
    rw [removeAll_cons, ih (distinct.remove path) clears.2, shapeAt_remove distinct clears.1]
    by_cases mem : other ∈ paths
    · rw [if_pos mem, if_pos (List.mem_cons_of_mem path mem)]
    · rw [if_neg mem]
      simp only [List.mem_cons, mem, or_false]

/-! ## Seen from a directory -/

theorem remove_cons {path : List ν} (ne : path ≠ []) (name : ν) (node : Node ν) :
    node.remove (name :: path) = node.withChildren (change name (remove path)) := by
  obtain ⟨next, path, rfl⟩ := List.exists_cons_of_ne_nil ne
  rfl

/-- A removal in a directory. -/
theorem get_remove_append {node folder : Node ν} {path rest : List ν}
    (found : node.get path = some folder) (ne : rest ≠ []) :
    (node.remove (path ++ rest)).get path = some (folder.remove rest) := by
  induction path generalizing node with
  | nil =>
    cases found
    rfl
  | cons name path ih =>
    have isDir := isDirectory_of_get found
    rw [get, Option.bind_eq_some_iff] at found
    obtain ⟨child, there, found⟩ := found
    have ne' : path ++ rest ≠ [] := List.append_ne_nil_of_right_ne_nil path ne
    rw [List.cons_append, remove_cons ne', get, children_withChildren isDir,
      lookup_change_same (name_remove _), there, Option.map_some, Option.bind_some]
    exact ih found

/-- The first entry of a directory. -/
theorem get_first {node child : Node ν} {root : ν} {deletes lists : Bool} {children : List (Node ν)}
    {path : List ν} (found : node.get path = some (dir root deletes lists (child :: children))) :
    node.get (path ++ [child.name]) = some child := by
  rw [get_append, found, Option.bind_some, get, Node.children, lookup_cons, if_pos rfl]
  rfl

/-- Removals at the first entry of a directory, or below it, leave the other entries. -/
theorem get_removeAll_first {node child : Node ν} {root : ν} {deletes lists : Bool}
    {children : List (Node ν)} {path : List ν} {paths : List (List ν)} (distinct : node.Distinct)
    (found : node.get path = some (dir root deletes lists (child :: children)))
    (clears : Clears paths node) (inside : ∀ q ∈ paths, path ++ [child.name] <+: q) :
    (node.removeAll paths).get path = some (dir root deletes lists
      (((node.removeAll paths).get (path ++ [child.name])).toList ++ children)) := by
  induction paths generalizing node child with
  | nil =>
    rw [removeAll_nil, get_first found]
    exact found
  | cons q paths ih =>
    obtain ⟨rest, rfl⟩ := inside q List.mem_cons_self
    have inside' : ∀ q ∈ paths, path ++ [child.name] <+: q :=
      fun q mem => inside q (List.mem_cons_of_mem _ mem)
    obtain ⟨vacant, clears⟩ := clears
    cases rest with
    | nil =>
      rw [List.append_nil] at vacant clears ⊢
      have gone := shapeAt_remove distinct vacant (path ++ [child.name])
      rw [if_pos rfl, shapeAt_eq_none_iff] at gone
      -- nothing else can be removed there
      have last : paths = [] := by
        refine List.eq_nil_iff_forall_not_mem.mpr fun q mem => ?_
        obtain ⟨first, paths, rfl⟩ := List.exists_cons_of_ne_nil (List.ne_nil_of_mem mem)
        obtain ⟨rest, rfl⟩ := inside' first List.mem_cons_self
        obtain ⟨-, entry, there, -⟩ := clears.1
        rw [get_append, gone] at there
        cases there
      subst last
      rw [removeAll_cons, removeAll_nil, gone, get_remove_append found (List.cons_ne_nil _ _), remove,
        withChildren, erase_cons, if_pos rfl]
      rfl
    | cons next rest =>
      rw [List.append_assoc, List.singleton_append] at vacant clears ⊢
      have there := get_remove_append found (List.cons_ne_nil child.name (next :: rest))
      rw [remove, withChildren, change, if_pos rfl] at there
      rw [removeAll_cons]
      have below := ih (distinct.remove _) there clears (by rw [name_remove]; exact inside')
      rw [name_remove] at below
      exact below

end Node

end FileTree
