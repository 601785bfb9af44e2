import Mathlib.Data.List.Basic
import Mathlib.Data.List.Infix

/-!
# Trees of files

A directory has its entries in some order. A path is the list of names from a root, and names an entry
by the first of each name. `update` changes what a path names, `mkdirs` makes the directories of a path
that are not there.

The laws say what a change at one path does to what another names: nothing where neither path leads
to the other, and `mkdirs` nothing to what is there, unless it makes directories in it.
-/

namespace FileTree

/-- An entry. Some entries cannot be deleted, and some directories cannot be listed. `other` is what is
neither a file nor a directory. -/
inductive Node (ν : Type) where
  | file (name : ν) (deletes : Bool)
  | other (name : ν)
  | dir (name : ν) (deletes lists : Bool) (children : List (Node ν))

namespace Node

variable {ν : Type}

def name : Node ν → ν
  | file name _ | other name | dir name _ _ _ => name

def isFile : Node ν → Bool
  | file _ _ => true
  | other _ | dir _ _ _ _ => false

def isDirectory : Node ν → Bool
  | dir _ _ _ _ => true
  | file _ _ | other _ => false

/-- The entries of a directory. -/
def children : Node ν → List (Node ν)
  | dir _ _ _ children => children
  | file _ _ | other _ => []

/-- The directory can be listed. -/
def lists : Node ν → Bool
  | dir _ _ lists _ => lists
  | file _ _ | other _ => false

mutual

/-- The entry can be deleted, with all that is in it. -/
def deletable : Node ν → Bool
  | file _ deletes => deletes
  | other _ => false
  | dir _ deletes lists children =>
    deletes && (lists || children.isEmpty) && allDeletable children

def allDeletable : List (Node ν) → Bool
  | [] => true
  | node :: nodes => deletable node && allDeletable nodes

end

variable [DecidableEq ν]

/-- The first entry of a name. -/
def lookup (name : ν) (nodes : List (Node ν)) : Option (Node ν) := nodes.find? (·.name = name)

/-- The first entry of a name changed. -/
def change (name : ν) (f : Node ν → Node ν) : List (Node ν) → List (Node ν)
  | [] => []
  | node :: nodes => if node.name = name then f node :: nodes else node :: change name f nodes

/-- What a path names. -/
def get (node : Node ν) : List ν → Option (Node ν)
  | [] => some node
  | name :: path => (lookup name node.children).bind (get · path)

/-- A directory with other entries. -/
def withChildren (f : List (Node ν) → List (Node ν)) : Node ν → Node ν
  | dir name deletes lists children => dir name deletes lists (f children)
  | node => node

/-- What a path names, changed. -/
def update (f : Node ν → Node ν) : List ν → Node ν → Node ν
  | [], node => f node
  | name :: path, node => node.withChildren (change name (update f path))

/-- Every directory of a path is made that is not there, as far as no other entry is in the way. -/
def mkdirs : List ν → Node ν → Node ν
  | [], node => node
  | name :: path, node =>
    node.withChildren fun children =>
      if (lookup name children).isSome then change name (mkdirs path) children
      else children ++ [mkdirs path (dir name true true [])]

/-! ## Names -/

omit [DecidableEq ν] in
@[simp] theorem name_dir (name : ν) (deletes lists : Bool) (children : List (Node ν)) :
    (dir name deletes lists children).name = name := rfl

omit [DecidableEq ν] in
@[simp] theorem name_withChildren (f : List (Node ν) → List (Node ν)) (node : Node ν) :
    (node.withChildren f).name = node.name := by
  cases node <;> rfl

omit [DecidableEq ν] in
theorem children_withChildren {f : List (Node ν) → List (Node ν)} {node : Node ν}
    (d : node.isDirectory = true) : (node.withChildren f).children = f node.children := by
  cases node with
  | dir => rfl
  | file => cases d
  | other => cases d

omit [DecidableEq ν] in
theorem withChildren_of_not_directory {node : Node ν} (d : ¬ node.isDirectory = true)
    (f : List (Node ν) → List (Node ν)) : node.withChildren f = node := by
  cases node with
  | dir => exact absurd rfl d
  | file => rfl
  | other => rfl

omit [DecidableEq ν] in
/-- What has an entry is a directory. -/
theorem isDirectory_of_mem {node d : Node ν} (mem : d ∈ node.children) : node.isDirectory = true := by
  cases node with
  | dir => rfl
  | file => cases mem
  | other => cases mem

@[simp] theorem name_update {f : Node ν → Node ν} (keeps : ∀ n, (f n).name = n.name) (path : List ν)
    (node : Node ν) : (node.update f path).name = node.name := by
  cases path with
  | nil => exact keeps node
  | cons => exact name_withChildren _ node

@[simp] theorem name_mkdirs (path : List ν) (node : Node ν) : (node.mkdirs path).name = node.name := by
  cases path with
  | nil => rfl
  | cons => exact name_withChildren _ node

/-! ## Lookups -/

theorem mem_of_lookup {name : ν} {nodes : List (Node ν)} {node : Node ν}
    (found : lookup name nodes = some node) : node ∈ nodes := List.mem_of_find?_eq_some found

theorem lookup_cons (name : ν) (node : Node ν) (nodes : List (Node ν)) :
    lookup name (node :: nodes) = if node.name = name then some node else lookup name nodes := by
  rw [lookup, List.find?_cons]
  by_cases same : node.name = name
  · rw [if_pos same, decide_eq_true same]
  · rw [if_neg same, decide_eq_false same, lookup]

theorem lookup_change_same {f : Node ν → Node ν} (keeps : ∀ n, (f n).name = n.name) (name : ν)
    (nodes : List (Node ν)) : lookup name (change name f nodes) = (lookup name nodes).map f := by
  induction nodes with
  | nil => rfl
  | cons node nodes ih =>
    rw [change, lookup_cons]
    by_cases same : node.name = name
    · rw [if_pos same, if_pos same, lookup_cons, keeps, if_pos same, Option.map_some]
    · rw [if_neg same, if_neg same, lookup_cons, if_neg same, ih]

theorem lookup_change_other {f : Node ν → Node ν} (keeps : ∀ n, (f n).name = n.name) {name other : ν}
    (ne : other ≠ name) (nodes : List (Node ν)) :
    lookup other (change name f nodes) = lookup other nodes := by
  induction nodes with
  | nil => rfl
  | cons node nodes ih =>
    rw [change]
    by_cases same : node.name = name
    · have skip : node.name ≠ other := fun eq => ne (eq.symm.trans same)
      rw [if_pos same, lookup_cons, lookup_cons, keeps, if_neg skip, if_neg skip]
    · rw [if_neg same, lookup_cons, lookup_cons, ih]

theorem lookup_append {name : ν} {nodes : List (Node ν)} {node : Node ν}
    (found : lookup name nodes = some node) (more : List (Node ν)) :
    lookup name (nodes ++ more) = some node := by
  rw [lookup] at found
  rw [lookup, List.find?_append, found, Option.some_or]

/-! ## Paths -/

theorem get_append (node : Node ν) (path rest : List ν) :
    node.get (path ++ rest) = (node.get path).bind (get · rest) := by
  induction path generalizing node with
  | nil => rfl
  | cons name path ih =>
    rw [List.cons_append, get, get, Option.bind_assoc]
    congr 1
    funext child
    exact ih child

/-- A last name is an entry of the directory. -/
theorem mem_children_of_get {node d : Node ν} {path : List ν} {name : ν}
    (found : node.get (path ++ [name]) = some d) :
    ∃ folder, node.get path = some folder ∧ d ∈ folder.children := by
  rw [get_append, Option.bind_eq_some_iff] at found
  obtain ⟨folder, there, last⟩ := found
  rw [get, Option.bind_eq_some_iff] at last
  obtain ⟨child, found, eq⟩ := last
  cases eq
  exact ⟨folder, there, mem_of_lookup found⟩

theorem isDirectory_of_get {node d : Node ν} {name : ν} {path : List ν}
    (found : node.get (name :: path) = some d) : node.isDirectory = true := by
  rw [get, Option.bind_eq_some_iff] at found
  obtain ⟨child, found, -⟩ := found
  exact isDirectory_of_mem (mem_of_lookup found)

/-- **A change at a path** is there. -/
theorem get_update_same {f : Node ν → Node ν} (keeps : ∀ n, (f n).name = n.name) (path : List ν)
    (node : Node ν) : (node.update f path).get path = (node.get path).map f := by
  induction path generalizing node with
  | nil => rfl
  | cons name path ih =>
    rw [update, get, get]
    by_cases d : node.isDirectory = true
    · rw [children_withChildren d, lookup_change_same (name_update keeps path), Option.bind_map,
        Option.map_bind]
      congr 1
      funext child
      exact ih child
    · cases node with
      | dir => exact absurd rfl d
      | file => rfl
      | other => rfl

/-- **A change at another path** is not seen, where neither leads to the other. -/
theorem get_update_other {f : Node ν → Node ν} (keeps : ∀ n, (f n).name = n.name)
    {path other : List ν} (apart : ¬ path <+: other) (apart' : ¬ other <+: path) (node : Node ν) :
    (node.update f path).get other = node.get other := by
  induction path generalizing node other with
  | nil => exact absurd (List.nil_prefix) apart
  | cons name path ih =>
    cases other with
    | nil => exact absurd (List.nil_prefix) apart'
    | cons name' other =>
      rw [update, get, get]
      by_cases d : node.isDirectory = true
      · rw [children_withChildren d]
        by_cases same : name' = name
        · subst same
          rw [lookup_change_same (name_update keeps path), Option.bind_map]
          congr 1
          funext child
          exact ih (fun h => apart ((List.prefix_cons_inj _).mpr h))
            (fun h => apart' ((List.prefix_cons_inj _).mpr h)) child
        · rw [lookup_change_other (name_update keeps path) same]
      · rw [withChildren_of_not_directory d]

/-- **`mkdirs` leaves what is there**, unless it goes through it. -/
theorem get_mkdirs {path other : List ν} {node d : Node ν} (found : node.get other = some d)
    (apart : ¬ other <+: path) : (node.mkdirs path).get other = some d := by
  induction path generalizing node other with
  | nil => exact found
  | cons name path ih =>
    cases other with
    | nil => exact absurd (List.nil_prefix) apart
    | cons name' other =>
      have isDir := isDirectory_of_get found
      rw [get, Option.bind_eq_some_iff] at found
      obtain ⟨child, there, found⟩ := found
      rw [mkdirs, get, children_withChildren isDir]
      split
      · by_cases same : name' = name
        · subst same
          rw [lookup_change_same (name_mkdirs path), there, Option.map_some, Option.bind_some]
          exact ih found fun h => apart ((List.prefix_cons_inj _).mpr h)
        · rw [lookup_change_other (name_mkdirs path) same, there, Option.bind_some, found]
      · rw [lookup_append there, Option.bind_some, found]

/-- The entries at a path. -/
def childrenAt (node : Node ν) (path : List ν) : List (Node ν) := (node.get path).elim [] children

theorem childrenAt_cons (node : Node ν) (name : ν) (path : List ν) :
    node.childrenAt (name :: path) = (lookup name node.children).elim [] (childrenAt · path) := by
  rw [childrenAt, get]
  cases lookup name node.children with
  | none => rfl
  | some child => rfl

theorem change_of_lookup {name : ν} {f : Node ν → Node ν} {nodes : List (Node ν)} {node : Node ν}
    (found : lookup name nodes = some node) (same : f node = node) : change name f nodes = nodes := by
  induction nodes with
  | nil => cases found
  | cons first nodes ih =>
    rw [lookup_cons] at found
    rw [change]
    by_cases eq : first.name = name
    · rw [if_pos eq] at found
      cases found
      rw [if_pos eq, same]
    · rw [if_neg eq] at found
      rw [if_neg eq, ih found]

/-- `mkdirs` of a directory, or of one in it, keeps its entries. -/
theorem subset_childrenAt_mkdirs (node : Node ν) (path last : List ν)
    (short : last.length ≤ 1) :
    node.childrenAt path ⊆ (node.mkdirs (path ++ last)).childrenAt path := by
  induction path generalizing node with
  | nil =>
    match last, short with
    | [], _ => exact List.Subset.refl _
    | [name], _ =>
      intro d mem
      change d ∈ (mkdirs [name] node).children
      rw [mkdirs, children_withChildren (isDirectory_of_mem mem)]
      split
      case isTrue there =>
        obtain ⟨child, found⟩ := Option.isSome_iff_exists.mp there
        rw [change_of_lookup found rfl]
        exact mem
      case isFalse => exact List.mem_append_left _ mem
  | cons name path ih =>
    intro d mem
    rw [childrenAt_cons] at mem
    cases found : lookup name node.children with
    | none =>
      rw [found] at mem
      cases mem
    | some child =>
      rw [found] at mem
      rw [List.cons_append, mkdirs, childrenAt_cons,
        children_withChildren (isDirectory_of_mem (mem_of_lookup found)),
        if_pos (by rw [found]; rfl), lookup_change_same (name_mkdirs _), found]
      exact ih child mem

/-- `mkdirs` of another directory keeps them too, unless it goes through this one. -/
theorem subset_childrenAt_mkdirs_of_apart (node : Node ν) {path other : List ν}
    (apart : ¬ path <+: other) : node.childrenAt path ⊆ (node.mkdirs other).childrenAt path := by
  intro d mem
  rw [childrenAt] at mem
  cases there : node.get path with
  | none =>
    rw [there] at mem
    cases mem
  | some folder =>
    rw [there] at mem
    rw [childrenAt, get_mkdirs there apart]
    exact mem

omit [DecidableEq ν] in
theorem isDirectory_withChildren (f : List (Node ν) → List (Node ν)) (node : Node ν) :
    (node.withChildren f).isDirectory = node.isDirectory := by
  cases node <;> rfl

theorem isDirectory_mkdirs (path : List ν) (node : Node ν) :
    (node.mkdirs path).isDirectory = node.isDirectory := by
  cases path with
  | nil => rfl
  | cons => exact isDirectory_withChildren _ node

omit [DecidableEq ν] in
theorem lists_withChildren (f : List (Node ν) → List (Node ν)) (node : Node ν) :
    (node.withChildren f).lists = node.lists := by
  cases node <;> rfl

/-- The directory at a path, where there is one, can be listed. -/
def CanList (node : Node ν) (path : List ν) : Prop :=
  ∀ folder, node.get path = some folder → folder.isDirectory = true → folder.lists = true

theorem canList_new (name : ν) (path : List ν) : CanList (dir name true true []) path := by
  intro folder found _
  cases path with
  | nil =>
    cases found
    rfl
  | cons => cases found

/-- `mkdirs` makes directories that can be listed. -/
theorem CanList.mkdirs {node : Node ν} {path : List ν} (can : node.CanList path) (last : List ν) :
    (node.mkdirs (path ++ last)).CanList path := by
  induction path generalizing node with
  | nil =>
    intro folder found d
    cases found
    cases last with
    | nil => exact can node rfl d
    | cons name last =>
      rw [List.nil_append, Node.mkdirs, isDirectory_withChildren] at d
      rw [List.nil_append, Node.mkdirs, lists_withChildren]
      exact can node rfl d
  | cons name path ih =>
    intro folder found d
    have isDir := isDirectory_of_get found
    rw [List.cons_append, Node.mkdirs, isDirectory_withChildren] at isDir
    rw [List.cons_append, Node.mkdirs, get, children_withChildren isDir] at found
    cases there : lookup name node.children with
    | some child =>
      rw [there, if_pos (by rfl), lookup_change_same (name_mkdirs _), there] at found
      refine ih (fun folder' found' => can folder' ?_) folder found d
      rw [get, there]
      exact found'
    | none =>
      have made : lookup name (node.children ++ [Node.mkdirs (path ++ last) (dir name true true [])]) =
          some (Node.mkdirs (path ++ last) (dir name true true [])) := by
        rw [lookup] at there
        rw [lookup, List.find?_append, there, Option.none_or, ← lookup, lookup_cons, name_mkdirs,
          name_dir, if_pos rfl]
      rw [there, if_neg (by simp), made] at found
      exact ih (canList_new name path) folder found d

/-- `mkdirs` in an empty directory makes the last directory of the path empty. -/
theorem get_mkdirs_new (root name : ν) (path : List ν) :
    (Node.mkdirs (path ++ [name]) (dir root true true [])).get (path ++ [name]) =
      some (dir name true true []) := by
  induction path generalizing root with
  | nil =>
    change (lookup name [dir name true true []]).bind (get · []) = _
    rw [lookup_cons, name_dir, if_pos rfl]
    rfl
  | cons first path ih =>
    change (lookup first [Node.mkdirs (path ++ [name]) (dir first true true [])]).bind
      (get · (path ++ [name])) = _
    rw [lookup_cons, name_mkdirs, name_dir, if_pos rfl]
    exact ih first

/-- The entries on the way are one at a time. -/
theorem childrenAt_mkdirs_new (root name : ν) (path rest : List ν) :
    (Node.mkdirs (path ++ name :: rest) (dir root true true [])).childrenAt path =
      [Node.mkdirs rest (dir name true true [])] := by
  induction path generalizing root with
  | nil => rfl
  | cons first path ih =>
    rw [childrenAt_cons]
    change (lookup first [Node.mkdirs (path ++ name :: rest) (dir first true true [])]).elim []
      (childrenAt · path) = _
    rw [lookup_cons, name_mkdirs, name_dir, if_pos rfl]
    exact ih first

/-- `mkdirs` of what is there does nothing. -/
theorem mkdirs_of_get {node d : Node ν} {path : List ν} (found : node.get path = some d) :
    node.mkdirs path = node := by
  induction path generalizing node with
  | nil => rfl
  | cons name path ih =>
    rw [get, Option.bind_eq_some_iff] at found
    obtain ⟨child, there, found⟩ := found
    cases node with
    | dir root deletes lists children =>
      change lookup name children = some child at there
      rw [Node.mkdirs, withChildren, there, if_pos (by rfl), change_of_lookup there (ih found)]
    | file => cases there
    | other => cases there

theorem get_append_cons (node : Node ν) (path : List ν) (name : ν) (rest : List ν) :
    node.get (path ++ name :: rest) = (lookup name (node.childrenAt path)).bind (get · rest) := by
  rw [get_append, childrenAt]
  cases node.get path with
  | none => rfl
  | some folder => rfl

/-- A change at the end of a path, seen from its first part. -/
theorem childrenAt_update_append {f : Node ν → Node ν} (keeps : ∀ n, (f n).name = n.name)
    (path : List ν) (name : ν) (rest : List ν) (node : Node ν) :
    (node.update f (path ++ name :: rest)).childrenAt path =
      change name (update f rest) (node.childrenAt path) := by
  induction path generalizing node with
  | nil =>
    cases node with
    | dir => rfl
    | file => rfl
    | other => rfl
  | cons first path ih =>
    rw [List.cons_append, update, childrenAt_cons, childrenAt_cons]
    by_cases d : node.isDirectory = true
    · rw [children_withChildren d, lookup_change_same (name_update keeps _)]
      cases lookup first node.children with
      | none => rfl
      | some child => exact ih child
    · cases node with
      | dir => exact absurd rfl d
      | file => rfl
      | other => rfl

/-- `mkdirs` makes directories that can be deleted. -/
theorem deletable_mkdirs_new (name : ν) (path : List ν) :
    (Node.mkdirs path (dir name true true [])).deletable = true := by
  induction path generalizing name with
  | nil => rfl
  | cons first path ih =>
    change (true && (true || false) &&
      allDeletable [Node.mkdirs path (dir first true true [])]) = true
    rw [allDeletable, ih, allDeletable]
    rfl

end Node

end FileTree
