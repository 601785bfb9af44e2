import Dolin.Laws.Zap.Cleaning
import Dolin.Zap.Deletion

/-!
# What `deleteDirectory` leaves

Every entry that is removed lies at the path or below it, and has nothing in it when it is removed. The
directory at the path is the last of them, and `true` is returned where it was removed. So the answer
says whether the directory is gone, whatever entries refuse and whatever directories cannot be listed.
-/

namespace Dolin.Zap

open FileTree Node

namespace Deletion

variable {fs : FileSystem} {d e : Deletion} {p q : Path → Prop}

/-- The files are those that the removals leave, each of an entry with nothing in it. -/
structure Removes (p : Path → Prop) (fs : FileSystem) (d : Deletion) : Prop where
  files : d.files.root = fs.root.removeAll d.removed
  clears : Clears d.removed fs.root
  inside : ∀ file ∈ d.removed, p file

theorem removes_nothing {flag : Bool} : Removes p fs ⟨flag, fs, []⟩ :=
  ⟨rfl, trivial, fun _ mem => absurd mem List.not_mem_nil⟩

theorem Removes.imp (h : Removes p fs d) (imp : ∀ file, p file → q file) : Removes q fs d :=
  ⟨h.files, h.clears, fun file mem => imp file (h.inside file mem)⟩

theorem Removes.trans (h : Removes p fs d) (h' : Removes p d.files e) :
    Removes p fs { e with removed := d.removed ++ e.removed } where
  files := by rw [h'.files, h.files, removeAll_append]
  clears := h.clears.append (h.files ▸ h'.clears)
  inside := fun file mem => (List.mem_append.mp mem).elim (h.inside file) (h'.inside file)

/-- A path names what it named before, or was removed. -/
theorem Removes.shapeAt (h : Removes p fs d) (file : Path) :
    d.files.root.shapeAt file = if file ∈ d.removed then none else fs.root.shapeAt file := by
  rw [h.files, shapeAt_removeAll fs.distinct h.clears]

end Deletion

namespace ZapFileUtils

open Deletion

variable {fs : FileSystem} {d : Deletion}

/-- What is asked of a deletion at a path. -/
structure Deletes (fs : FileSystem) (path : Path) (d : Deletion) : Prop where
  removes : Removes (path <+: ·) fs d
  gone : d.flag = true → d.files.root.get path = none
  stays : d.flag = false → path ∉ d.removed

theorem deletes_fails (path : Path) : Deletes fs path (.fails fs) :=
  ⟨removes_nothing, fun h => absurd h Bool.false_ne_true, fun _ => List.not_mem_nil⟩

theorem vacant_of_canDelete {file : Path} (can : fs.canDelete file = true) : fs.root.Vacant file := by
  unfold FileSystem.canDelete at can
  split at can
  next _ _ _ _ found => exact ⟨List.cons_ne_nil _ _, _, found, rfl⟩
  next _ _ _ _ _ children found =>
    have nothing := List.isEmpty_iff.mp (Bool.and_eq_true_iff.mp can).2
    exact ⟨List.cons_ne_nil _ _, _, found, nothing⟩
  next => cases can

theorem delete_spec (fs : FileSystem) (file : Path) : Deletes fs file (delete fs file) := by
  unfold delete
  split
  next can =>
    have vacant := vacant_of_canDelete can
    refine ⟨⟨rfl, ⟨vacant, trivial⟩, ?_⟩, fun _ => ?_, fun h => absurd h.symm Bool.false_ne_true⟩
    · intro q mem
      rw [List.mem_singleton.mp mem]
    · have gone := shapeAt_remove fs.distinct vacant file
      rw [if_pos rfl, shapeAt_eq_none_iff] at gone
      exact gone
  next => exact deletes_fails file

theorem deleteFile_spec (fs : FileSystem) (file : Path) : Deletes fs file (deleteFile fs file) := by
  unfold deleteFile
  split
  · exact delete_spec fs file
  · exact deletes_fails file

theorem isDirectory_eq_shapeAt (fs : FileSystem) (path : Path) :
    fs.isDirectory path = (fs.root.shapeAt path).elim false Node.isDirectory := by
  rw [FileSystem.isDirectory, Node.shapeAt]
  cases fs.root.get path with
  | none => rfl
  | some entry => exact (isDirectory_shape entry).symm

/-- No path is longer. -/
def Shallow (height : Nat) (fs : FileSystem) : Prop :=
  ∀ path entry, fs.root.get path = some entry → path.length < height

theorem Shallow.removes {height : Nat} {p : Path → Prop} (shallow : Shallow height fs)
    (h : Removes p fs d) : Shallow height d.files := by
  intro path entry found
  have shape : d.files.root.shapeAt path = some entry.shape := by rw [Node.shapeAt, found]; rfl
  rw [h.shapeAt path] at shape
  split at shape
  · cases shape
  · obtain ⟨before, there, -⟩ := Option.map_eq_some_iff.mp shape
    exact shallow path before there

/-- **The loop** removes entries at the listed paths or below. -/
theorem deleteFiles_spec {height : Nat} {deleteDirectory : FileSystem → Path → Option Deletion}
    {files : List Path} (each : ∀ fs, Shallow height fs → ∀ file ∈ files,
      ∃ d, deleteDirectory fs file = some d ∧ Deletes fs file d)
    (shallow : Shallow height fs) :
    ∃ d, deleteFiles deleteDirectory files fs = some d ∧
      Removes (fun q => ∃ file ∈ files, file <+: q) fs d := by
  induction files generalizing fs with
  | nil => exact ⟨_, rfl, removes_nothing⟩
  | cons file files ih =>
    obtain ⟨first, called, deletes⟩ : ∃ d,
        (if fs.isFile file then some (deleteFile fs file) else deleteDirectory fs file) = some d ∧
          Deletes fs file d := by
      split
      · exact ⟨_, rfl, deleteFile_spec fs file⟩
      · exact each fs shallow file List.mem_cons_self
    have here : Removes (fun q => ∃ f ∈ file :: files, f <+: q) fs first :=
      deletes.removes.imp fun q inside => ⟨file, List.mem_cons_self, inside⟩
    simp only [deleteFiles, called, Option.bind_some, andThen]
    split
    · obtain ⟨rest, called', removes⟩ := ih
        (fun fs shallow f mem => each fs shallow f (List.mem_cons_of_mem file mem))
        (shallow.removes here)
      rw [called']
      refine ⟨_, rfl, here.trans (removes.imp ?_)⟩
      rintro q ⟨f, mem, inside⟩
      exact ⟨f, List.mem_cons_of_mem file mem, inside⟩
    · exact ⟨_, rfl, here⟩

/-- The paths in a list of the entries of a directory. -/
theorem mem_listFiles {path file : Path} (mem : file ∈ (fs.listFiles path).getD []) :
    ∃ name, file = path ++ [name] := by
  unfold FileSystem.listFiles at mem
  split at mem
  next =>
    obtain ⟨child, -, rfl⟩ := List.mem_map.mp mem
    exact ⟨child.name, rfl⟩
  next => cases mem

/-- What is at the entries of a directory or below them is below the directory, and not the directory. -/
theorem below_of_listed {path q : Path}
    (listed : ∃ file ∈ (fs.listFiles path).getD [], file <+: q) : path <+: q ∧ path ≠ q := by
  obtain ⟨file, mem, inside⟩ := listed
  obtain ⟨name, rfl⟩ := mem_listFiles mem
  refine ⟨(List.prefix_append path [name]).trans inside, ?_⟩
  rintro rfl
  have longer := inside.length_le
  rw [List.length_append, List.length_singleton] at longer
  omega

/-- **With enough nested calls** there is an answer, and it is right. The entries in a directory have
longer paths, and none is longer than the tree is high. -/
theorem deleteDirectoryAt_spec {height : Nat} (nested : Nat) (fs : FileSystem) (path : Path)
    (shallow : Shallow height fs) (positive : 0 < nested) (enough : height < nested + path.length) :
    ∃ d, deleteDirectoryAt nested fs path = some d ∧ Deletes fs path d := by
  induction nested generalizing fs path with
  | zero => cases positive
  | succ nested ih =>
    rw [deleteDirectoryAt]
    split
    · exact ⟨_, rfl, deletes_fails path⟩
    next there =>
      obtain ⟨entry, found⟩ : ∃ entry, fs.root.get path = some entry := by
        refine Option.isSome_iff_exists.mp ?_
        rw [Bool.not_eq_true, Bool.or_eq_false_iff, Bool.not_eq_false'] at there
        exact there.1
      have short := shallow path entry found
      have each : ∀ fs', Shallow height fs' → ∀ file ∈ (fs.listFiles path).getD [],
          ∃ d, deleteDirectoryAt nested fs' file = some d ∧ Deletes fs' file d := by
        intro fs' shallow' file mem
        obtain ⟨name, rfl⟩ := mem_listFiles mem
        refine ih fs' (path ++ [name]) shallow' (by omega) ?_
        rw [List.length_append, List.length_singleton]
        omega
      obtain ⟨loop, called, removes⟩ := deleteFiles_spec each shallow
      -- what the loop removes lies below the directory, which is still there
      have below : Removes (fun q => path <+: q ∧ path ≠ q) fs loop :=
        removes.imp fun q listed => below_of_listed listed
      simp only [called, Option.bind_some, andThen]
      split
      next =>
        have last := delete_spec loop.files path
        refine ⟨_, rfl, (below.imp fun q inside => inside.1).trans last.removes, last.gone, ?_⟩
        intro failed mem
        rcases List.mem_append.mp mem with mem | mem
        · exact (below.inside path mem).2 rfl
        · exact last.stays failed mem
      next broken =>
        refine ⟨_, rfl, below.imp fun q inside => inside.1, fun h => absurd h broken, ?_⟩
        exact fun _ mem => (below.inside path mem).2 rfl

/-! ## More nested calls -/

/-- The loop with calls that say more. -/
theorem deleteFiles_mono {call call' : FileSystem → Path → Option Deletion}
    (more : ∀ fs file d, call fs file = some d → call' fs file = some d) {files : List Path}
    (returned : deleteFiles call files fs = some d) : deleteFiles call' files fs = some d := by
  induction files generalizing fs d with
  | nil => exact returned
  | cons file files ih =>
    simp only [deleteFiles, Option.bind_eq_some_iff] at returned ⊢
    obtain ⟨first, called, rest⟩ := returned
    refine ⟨first, ?_, ?_⟩
    · split at called
      next isFile => rw [if_pos isFile, called]
      next notFile => rw [if_neg notFile, more _ _ _ called]
    · unfold andThen at rest ⊢
      split at rest
      next deleted =>
        obtain ⟨last, returned, eq⟩ := Option.map_eq_some_iff.mp rest
        rw [if_pos deleted, ih returned, Option.map_some, eq]
      next broken => rw [if_neg broken, rest]

/-- An answer stays the same with more nested calls. -/
theorem deleteDirectoryAt_mono {nested more : Nat} (le : nested ≤ more) {path : Path}
    (returned : deleteDirectoryAt nested fs path = some d) :
    deleteDirectoryAt more fs path = some d := by
  induction nested generalizing more fs path d with
  | zero => cases returned
  | succ nested ih =>
    obtain ⟨more, rfl⟩ : ∃ m, more = m + 1 := ⟨more - 1, by omega⟩
    rw [deleteDirectoryAt] at returned ⊢
    split at returned
    next missing => rw [if_pos missing, returned]
    next there =>
      obtain ⟨loop, called, last⟩ := Option.bind_eq_some_iff.mp returned
      rw [if_neg there]
      refine Option.bind_eq_some_iff.mpr ⟨loop, ?_, last⟩
      exact deleteFiles_mono (fun fs file d => ih (Nat.le_of_succ_le_succ le)) called

/-! ## The answer -/

/-- The place of a directory with this path. -/
def place (locate : String → Path) (path : String) : Path :=
  locate (if path.endsWith "/" then path else path ++ "/")

/-- **`deleteDirectory` returns**, whatever the files, the entries that refuse and the directories that
cannot be listed, and its answer says what is left. Where it is `true` there is nothing at the path or
below it; where it is `false` a directory at the path is still there. What is not at the path or below
it is as it was. The files are those that were there without the removed ones, and each of them was
removed when it had no entries. -/
theorem deleteDirectory_leaves (locate : String → Path) (fs : FileSystem) (path : String) :
    ∃ d, (∃ bound, ∀ nested, bound ≤ nested → deleteDirectory locate nested fs path = some d) ∧
      (d.flag = true → ∀ rest, d.files.root.get (place locate path ++ rest) = none) ∧
      (d.flag = false → fs.isDirectory (place locate path) = true →
        d.files.isDirectory (place locate path) = true) ∧
      (∀ other, ¬ place locate path <+: other →
        d.files.root.shapeAt other = fs.root.shapeAt other) ∧
      d.files.root = fs.root.removeAll d.removed ∧ Clears d.removed fs.root := by
  obtain ⟨d, returns, deletes⟩ : ∃ d,
      (∃ bound, ∀ nested, bound ≤ nested → deleteDirectory locate nested fs path = some d) ∧
        Deletes fs (place locate path) d := by
    unfold deleteDirectory
    split
    · exact ⟨_, ⟨0, fun nested _ => rfl⟩, deletes_fails _⟩
    · obtain ⟨d, returned, deletes⟩ := deleteDirectoryAt_spec (fs.root.height + 1) fs
        (place locate path) (fun _ _ found => length_lt_height found) (Nat.succ_pos _) (by omega)
      exact ⟨d, ⟨_, fun nested enough => deleteDirectoryAt_mono enough returned⟩, deletes⟩
  refine ⟨d, returns, ?_, ?_, ?_, deletes.removes.files, deletes.removes.clears⟩
  · intro deleted rest
    rw [get_append, deletes.gone deleted, Option.bind_none]
  · intro failed there
    have same := deletes.removes.shapeAt (place locate path)
    rw [if_neg (deletes.stays failed)] at same
    rw [isDirectory_eq_shapeAt, same, ← isDirectory_eq_shapeAt]
    exact there
  · intro other outside
    rw [deletes.removes.shapeAt, if_neg fun mem => outside (deletes.removes.inside other mem)]

/-! ## What comes of it -/

/-- Whatever is returned is right. -/
theorem deletes_of_returned {nested : Nat} {path : Path}
    (returned : deleteDirectoryAt nested fs path = some d) : Deletes fs path d := by
  obtain ⟨d', returned', deletes⟩ := deleteDirectoryAt_spec (max nested (fs.root.height + 1)) fs path
    (fun _ _ found => length_lt_height found) (by omega) (by omega)
  rw [deleteDirectoryAt_mono (Nat.le_max_left _ _) returned] at returned'
  cases returned'
  exact deletes

/-- The answer, and what is left at the path. -/
def Leaves (d : Deletion) (path : Path) (result : Bool × Option (Node String)) : Prop :=
  d.flag = result.1 ∧ d.files.root.get path = result.2

/-- `File.delete` of an entry that is there. -/
theorem leaves_delete {file : Path} {node : Node String} (found : fs.root.get file = some node) :
    Leaves (delete fs file) file
      (if fs.canDelete file then (true, none) else (false, some node)) := by
  have gone := (delete_spec fs file).gone
  by_cases can : fs.canDelete file = true
  · rw [delete, if_pos can] at gone ⊢
    rw [if_pos can]
    exact ⟨rfl, gone rfl⟩
  · rw [delete, if_neg can, if_neg can]
    exact ⟨rfl, found⟩

theorem leaves_deleteFile {file : Path} {name : String} {deletes : Bool} (ne : file ≠ [])
    (found : fs.root.get file = some (.file name deletes)) :
    Leaves (deleteFile fs file) file (Zap.deleteFile (.file name deletes)) := by
  have there : fs.exists file = true := by rw [FileSystem.exists, found]; rfl
  have can : fs.canDelete file = deletes := by
    obtain ⟨first, file, rfl⟩ := List.exists_cons_of_ne_nil ne
    simp only [FileSystem.canDelete, found]
  have leaves := leaves_delete found
  rw [can] at leaves
  rw [deleteFile, if_pos there]
  exact leaves

/-- What is done with an entry of a directory, the first of those that are left. -/
theorem leaves_first {call : FileSystem → Path → Option Deletion} {path : Path} {first : Deletion}
    (each : ∀ fs file d node, call fs file = some d → file ≠ [] → fs.root.get file = some node →
      Deletes fs file d ∧ Leaves d file (Zap.deleteDirectory node))
    {root : String} {deletes lists : Bool} {child : Node String} {children : List (Node String)}
    (found : fs.root.get path = some (.dir root deletes lists (child :: children)))
    (called : (if fs.isFile (path ++ [child.name]) then some (deleteFile fs (path ++ [child.name]))
      else call fs (path ++ [child.name])) = some first) :
    Deletes fs (path ++ [child.name]) first ∧ Leaves first (path ++ [child.name])
      (if child.isFile then Zap.deleteFile child else Zap.deleteDirectory child) := by
  have ne : path ++ [child.name] ≠ [] := List.append_ne_nil_of_right_ne_nil path (List.cons_ne_nil _ _)
  have there := get_first found
  have isFile : fs.isFile (path ++ [child.name]) = child.isFile := by
    rw [FileSystem.isFile, there]
    rfl
  rw [isFile] at called
  cases child with
  | file name deletes =>
    cases called
    exact ⟨deleteFile_spec _ _, leaves_deleteFile ne there⟩
  | other name => exact each _ _ _ _ called ne there
  | dir name deletes lists children => exact each _ _ _ _ called ne there

/-- **The loop** over the entries of a directory does what `deleteAll` says. -/
theorem deleteFiles_leaves {call : FileSystem → Path → Option Deletion} {path : Path}
    (each : ∀ fs file d node, call fs file = some d → file ≠ [] → fs.root.get file = some node →
      Deletes fs file d ∧ Leaves d file (Zap.deleteDirectory node))
    {root : String} {deletes lists : Bool} {children : List (Node String)}
    (found : fs.root.get path = some (.dir root deletes lists children))
    (returned : deleteFiles call (children.map fun child => path ++ [child.name]) fs = some d) :
    Leaves d path ((deleteAll children).1, some (.dir root deletes lists (deleteAll children).2)) := by
  induction children generalizing fs d with
  | nil =>
    cases returned
    exact ⟨rfl, found⟩
  | cons child children ih =>
    rw [List.map_cons, deleteFiles, Option.bind_eq_some_iff] at returned
    obtain ⟨first, called, rest⟩ := returned
    -- what the entry leaves, and that the others are as they were
    obtain ⟨deleted, flag, left⟩ := leaves_first each found called
    have others := get_removeAll_first fs.distinct found deleted.removes.clears deleted.removes.inside
    rw [← deleted.removes.files, left] at others
    rw [deleteAll]
    unfold andThen at rest
    split at rest
    next succeeded =>
      obtain ⟨last, called, rfl⟩ := Option.map_eq_some_iff.mp rest
      rw [if_pos (flag ▸ succeeded)]
      rw [deleted.gone succeeded] at left
      rw [← left] at others
      have after := ih others called
      exact after
    next broken =>
      cases rest
      rw [if_neg (flag ▸ broken)]
      exact ⟨Bool.eq_false_iff.mpr broken, others⟩

/-- Where the directory cannot be listed, the loop has nothing to do. -/
theorem deleteFiles_listFiles_leaves {call : FileSystem → Path → Option Deletion} {path : Path}
    (each : ∀ fs file d node, call fs file = some d → file ≠ [] → fs.root.get file = some node →
      Deletes fs file d ∧ Leaves d file (Zap.deleteDirectory node))
    {root : String} {deletes lists : Bool} {children : List (Node String)}
    (found : fs.root.get path = some (.dir root deletes lists children))
    (returned : deleteFiles call ((fs.listFiles path).getD []) fs = some d) :
    Leaves d path ((if lists then deleteAll children else (true, children)).1,
      some (.dir root deletes lists (if lists then deleteAll children else (true, children)).2)) := by
  cases lists with
  | true =>
    have listed : (fs.listFiles path).getD [] = children.map fun child => path ++ [child.name] := by
      rw [FileSystem.listFiles, found]
      rfl
    rw [listed] at returned
    exact deleteFiles_leaves each found returned
  | false =>
    have listed : (fs.listFiles path).getD [] = [] := by
      rw [FileSystem.listFiles, found]
      rfl
    rw [listed] at returned
    cases returned
    exact ⟨rfl, found⟩

/-- Behind the loop. -/
theorem leaves_last {loop : Deletion} {path : Path} (ne : path ≠ []) {flag : Bool} {root : String}
    {deletes lists : Bool} {children : List (Node String)}
    (looped : Leaves loop path (flag, some (.dir root deletes lists children)))
    (last : (loop.andThen fun fs => some (delete fs path)) = some d) :
    Leaves d path (if flag && deletes && children.isEmpty then (true, none)
      else (false, some (.dir root deletes lists children))) := by
  obtain ⟨rfl, left⟩ := looped
  have can : loop.files.canDelete path = (deletes && children.isEmpty) := by
    obtain ⟨first, path, rfl⟩ := List.exists_cons_of_ne_nil ne
    simp only [FileSystem.canDelete, left]
  unfold andThen at last
  split at last
  next succeeded =>
    cases last
    have leaves := leaves_delete left
    rw [can] at leaves
    rw [succeeded, Bool.true_and]
    exact leaves
  next broken =>
    cases last
    rw [Bool.eq_false_iff.mpr broken, Bool.false_and, Bool.false_and]
    exact ⟨Bool.eq_false_iff.mpr broken, left⟩

/-- **The calls with paths do what `Dolin.Zap.deleteDirectory` says** of the entry at the path, which is
not the root. -/
theorem deleteDirectoryAt_leaves {nested : Nat} {path : Path} {node : Node String} (ne : path ≠ [])
    (found : fs.root.get path = some node)
    (returned : deleteDirectoryAt nested fs path = some d) :
    Leaves d path (Zap.deleteDirectory node) := by
  induction nested generalizing fs path d node with
  | zero => cases returned
  | succ nested ih =>
    have there : fs.exists path = true := by rw [FileSystem.exists, found]; rfl
    have isDirectory : fs.isDirectory path = node.isDirectory := by
      rw [FileSystem.isDirectory, found]
      rfl
    rw [deleteDirectoryAt, there, isDirectory] at returned
    cases node with
    | file =>
      cases returned
      exact ⟨rfl, found⟩
    | other =>
      cases returned
      exact ⟨rfl, found⟩
    | dir root deletes lists children =>
      obtain ⟨loop, called, last⟩ := Option.bind_eq_some_iff.mp returned
      have each : ∀ fs file d node, deleteDirectoryAt nested fs file = some d → file ≠ [] →
          fs.root.get file = some node → Deletes fs file d ∧ Leaves d file (Zap.deleteDirectory node) :=
        fun fs file d node returned ne found => ⟨deletes_of_returned returned, ih ne found returned⟩
      rw [Zap.deleteDirectory]
      exact leaves_last ne (deleteFiles_listFiles_leaves each found called) last

/-- **A directory is deleted** if and only if every entry in it can be. -/
theorem flag_eq_deletable {nested : Nat} {path : Path} {node : Node String} (ne : path ≠ [])
    (found : fs.root.get path = some node) (isDir : node.isDirectory = true)
    (returned : deleteDirectoryAt nested fs path = some d) : d.flag = node.deletable := by
  have flag := (deleteDirectoryAt_leaves ne found returned).1
  obtain ⟨gone, kept⟩ := deleteDirectory_spec node isDir
  cases good : node.deletable with
  | true => rw [flag, gone good]
  | false =>
    obtain ⟨left, eq, -⟩ := kept good
    rw [flag, eq]

end ZapFileUtils

end Dolin.Zap
