import Dolin.Zap.Cleaning
import Mathlib.Algebra.Group.Nat.Defs
import Mathlib.Algebra.Ring.Int.Defs
import Mathlib.Data.Fintype.EquivFin

/-!
# Which folder the cleaning covers

`deleteDirectory` deletes a directory whose entries can all be deleted, and of another it leaves an
entry that cannot. So `cleanOverdueLog` leaves of the overdue directories only such as cannot be
deleted, and all others as they are: in the default folder. `initialize` may have been told another,
and that one is not cleaned. Nor does the test say what it should where the time after which logs are
overdue is more than a `long` holds.
-/

namespace Dolin.Zap

open FileTree Node

/-! ## Deleting -/

mutual

/-- A directory is deleted where all its entries can be, and else what is left of it cannot be. -/
theorem deleteDirectory_spec (node : Node String) (d : node.isDirectory = true) :
    (node.deletable = true → deleteDirectory node = (true, none)) ∧
      (node.deletable = false → ∃ left, deleteDirectory node = (false, some left) ∧
        left.deletable = false ∧ left.name = node.name) := by
  match node, d with
  | .dir name deletes lists children, _ =>
    have loop := deleteAll_spec children
    cases lists with
    | false =>
      -- nothing is deleted in it, so it must be empty
      cases children with
      | nil => cases deletes <;> simp [deleteDirectory, Node.deletable, allDeletable]
      | cons child children => simp [deleteDirectory, Node.deletable]
    | true =>
      cases all : allDeletable children with
      | true =>
        cases deletes <;> simp [deleteDirectory, Node.deletable, loop.1 all, all]
      | false =>
        obtain ⟨left, eq, bad⟩ := loop.2 all
        simp [deleteDirectory, Node.deletable, eq, all, bad]

/-- The loop. -/
theorem deleteAll_spec (nodes : List (Node String)) :
    (allDeletable nodes = true → deleteAll nodes = (true, [])) ∧
      (allDeletable nodes = false → ∃ left, deleteAll nodes = (false, left) ∧
        allDeletable left = false) := by
  match nodes with
  | [] => exact ⟨fun _ => rfl, fun h => by cases h⟩
  | node :: rest =>
    have others := deleteAll_spec rest
    have here : (node.deletable = true →
          (if node.isFile then deleteFile node else deleteDirectory node) = (true, none)) ∧
        (node.deletable = false → ∃ left,
          (if node.isFile then deleteFile node else deleteDirectory node) = (false, some left) ∧
            left.deletable = false) := by
      cases node with
      | file name deletes => cases deletes <;> simp [isFile, deleteFile, Node.deletable]
      | other name => simp [isFile, deleteDirectory, Node.deletable]
      | dir name deletes lists children =>
        obtain ⟨gone, left⟩ := deleteDirectory_spec (.dir name deletes lists children) rfl
        refine ⟨gone, fun bad => ?_⟩
        obtain ⟨rest', eq, bad', -⟩ := left bad
        exact ⟨rest', eq, bad'⟩
    rw [deleteAll, allDeletable]
    cases good : node.deletable with
    | true =>
      rw [here.1 good, Bool.true_and]
      exact others
    | false =>
      obtain ⟨left, eq, bad⟩ := here.2 good
      rw [eq, Bool.false_and]
      refine ⟨?_, fun _ => ⟨left :: rest, rfl, ?_⟩⟩
      · intro h
        cases h
      · rw [allDeletable, bad, Bool.false_and]

end

/-! ## Cleaning a folder -/

section Folder

variable {overdue : String → Bool}

/-- What is left of an overdue directory cannot be deleted. -/
theorem not_deletable_of_mem_cleanFiles {files : List (Node String)} {d : Node String}
    (mem : d ∈ cleanFiles overdue files) (isDir : d.isDirectory = true) (late : overdue d.name = true) :
    d.deletable = false := by
  obtain ⟨f, -, left⟩ := List.mem_flatMap.mp mem
  by_cases cleaned : (f.isDirectory && overdue f.name) = true
  · rw [if_pos cleaned] at left
    obtain ⟨gone, kept⟩ := deleteDirectory_spec f (Bool.and_eq_true_iff.mp cleaned).1
    cases good : f.deletable with
    | true =>
      rw [gone good] at left
      cases left
    | false =>
      obtain ⟨rest, eq, bad, -⟩ := kept good
      rw [eq] at left
      rw [List.mem_singleton.mp left]
      exact bad
  · rw [if_neg cleaned, List.mem_singleton] at left
    subst left
    exact absurd (Bool.and_eq_true_iff.mpr ⟨isDir, late⟩) cleaned

/-- What is not overdue stays. -/
theorem mem_cleanFiles {files : List (Node String)} {f : Node String} (mem : f ∈ files)
    (not : overdue f.name = false) : f ∈ cleanFiles overdue files := by
  refine List.mem_flatMap.mpr ⟨f, mem, ?_⟩
  rw [not, Bool.and_false, if_neg Bool.false_ne_true]
  exact List.mem_singleton_self f

/-- And is found as before. -/
theorem lookup_cleanFiles {name : String} (not : overdue name = false) (files : List (Node String)) :
    lookup name (cleanFiles overdue files) = lookup name files := by
  induction files with
  | nil => rfl
  | cons f files ih =>
    rw [cleanFiles, List.flatMap_cons, ← cleanFiles, lookup_cons]
    by_cases cleaned : (f.isDirectory && overdue f.name) = true
    · obtain ⟨isDir, late⟩ := Bool.and_eq_true_iff.mp cleaned
      have ne : f.name ≠ name := by
        intro eq
        rw [eq, not] at late
        cases late
      rw [if_pos cleaned, if_neg ne]
      obtain ⟨gone, kept⟩ := deleteDirectory_spec f isDir
      cases good : f.deletable with
      | true =>
        rw [gone good]
        exact ih
      | false =>
        obtain ⟨rest, eq, -, same⟩ := kept good
        rw [eq]
        change lookup name (rest :: cleanFiles overdue files) = _
        rw [lookup_cons, same, if_neg ne, ih]
    · rw [if_neg cleaned]
      change lookup name (f :: cleanFiles overdue files) = _
      rw [lookup_cons, ih]

theorem name_cleanFolder (folder : Node String) : (cleanFolder overdue folder).name = folder.name := by
  unfold cleanFolder
  split
  · exact name_withChildren _ folder
  · rfl

theorem lookup_cleanFolder {name : String} (not : overdue name = false) (folder : Node String) :
    lookup name (cleanFolder overdue folder).children = lookup name folder.children := by
  unfold cleanFolder
  split
  · cases folder with
    | dir => exact lookup_cleanFiles not _
    | file => rfl
    | other => rfl
  · rfl

theorem children_cleanFolder {folder : Node String} (lists : folder.lists = true) :
    (cleanFolder overdue folder).children = cleanFiles overdue folder.children := by
  cases folder with
  | dir name deletes l children =>
    rw [cleanFolder, if_pos lists]
    rfl
  | file => cases lists
  | other => cases lists

/-- The entries of a folder after it was cleaned. -/
theorem childrenAt_update_cleanFolder {fs : Node String} {folder : Path} (can : fs.CanList folder) :
    (fs.update (cleanFolder overdue) folder).childrenAt folder =
      cleanFiles overdue (fs.childrenAt folder) := by
  rw [childrenAt, get_update_same name_cleanFolder, childrenAt]
  cases there : fs.get folder with
  | none => rfl
  | some node =>
    cases d : node.isDirectory with
    | true => exact children_cleanFolder (can node there d)
    | false =>
      cases node with
      | dir => cases d
      | file => rfl
      | other => rfl

/-- An overdue directory that can be deleted is. -/
theorem cleanFiles_singleton {d : Node String} (isDir : d.isDirectory = true)
    (deletable : d.deletable = true) (late : overdue d.name = true) : cleanFiles overdue [d] = [] := by
  rw [cleanFiles, List.flatMap_singleton, if_pos (Bool.and_eq_true_iff.mpr ⟨isDir, late⟩),
    (deleteDirectory_spec d isDir).1 deletable]
  rfl

/-- **A path through a cleaned folder** leads where it did, unless it goes through an overdue
directory of it. -/
theorem get_update_cleanFolder {fs d : Node String} {folder path : Path} (found : fs.get path = some d)
    (behind : ¬ path <+: folder)
    (other : ∀ name rest, path = folder ++ name :: rest → overdue name = false) :
    (fs.update (cleanFolder overdue) folder).get path = some d := by
  by_cases inside : folder <+: path
  · obtain ⟨rest, rfl⟩ := inside
    cases rest with
    | nil =>
      rw [List.append_nil] at behind
      exact absurd List.prefix_rfl behind
    | cons name rest =>
      rw [get_append, get_update_same name_cleanFolder]
      rw [get_append] at found
      cases there : fs.get folder with
      | none =>
        rw [there] at found
        cases found
      | some m =>
        rw [there, Option.bind_some, Node.get] at found
        rw [Option.map_some, Option.bind_some, Node.get, lookup_cleanFolder (other name rest rfl), found]
  · rw [get_update_other name_cleanFolder inside behind, found]

end Folder

/-! ## Instants -/

/-- The time after which logs are overdue, in milliseconds. -/
def OverdueBuilder.overdueTime (b : OverdueBuilder) : Int := b.overdueDay.toInt * 86400000

/-- A `long` holds it. -/
def OverdueBuilder.Fits (b : OverdueBuilder) : Prop := b.overdueTime < 2 ^ 63

/-- The name is that of a day that is more than `overdueDay` days ago. -/
def Overdue (parse : String → Option Int64) (now : Int64) (b : OverdueBuilder) (name : String) : Prop :=
  ∃ ts, parse name = some ts ∧ b.overdueTime < now.toInt - ts.toInt

/-- No name is parsed as an instant so far from now that a `long` does not hold the time between. -/
def InRange (parse : String → Option Int64) (now : Int64) : Prop :=
  ∀ name ts, parse name = some ts →
    -2 ^ 63 ≤ now.toInt - ts.toInt ∧ now.toInt - ts.toInt < 2 ^ 63

theorem toInt_overdueDayMs (b : OverdueBuilder) :
    b.overdueDayMs.toInt = b.overdueTime.bmod (2 ^ 64) := by
  have product : b.overdueDayMs = b.overdueDay * 86400000 := by
    rw [OverdueBuilder.overdueDayMs, Int64.mul_assoc, Int64.mul_assoc]
    rfl
  rw [product, Int64.toInt_mul]
  rfl

theorem toInt_overdueDayMs_of_fits {b : OverdueBuilder} (nonneg : 0 ≤ b.overdueDay.toInt)
    (fits : b.Fits) : b.overdueDayMs.toInt = b.overdueTime := by
  have : b.overdueTime < 2 ^ 63 := fits
  have : 0 ≤ b.overdueTime := Int.mul_nonneg nonneg (by omega)
  rw [toInt_overdueDayMs, Int.bmod_eq_of_le (by omega) (by omega)]

theorem toInt_since {parse : String → Option Int64} {now ts : Int64} {name : String}
    (r : InRange parse now) (parsed : parse name = some ts) :
    (now - ts).toInt = now.toInt - ts.toInt := by
  obtain ⟨ge, lt⟩ := r name ts parsed
  rw [Int64.toInt_sub, Int.bmod_eq_of_le (by omega) (by omega)]

/-- In range, the code's test says what it should. -/
theorem isFileOverdue_iff {parse : String → Option Int64} {now : Int64} {b : OverdueBuilder}
    (r : InRange parse now) (nonneg : 0 ≤ b.overdueDay.toInt) (fits : b.Fits) (name : String) :
    isFileOverdue parse now b.overdueDayMs name = true ↔ Overdue parse now b name := by
  rw [isFileOverdue, Overdue]
  cases parsed : parse name with
  | none =>
    constructor
    · intro h
      cases h
    · rintro ⟨ts, eq, -⟩
      cases eq
  | some ts =>
    dsimp only
    rw [decide_eq_true_iff, Int64.lt_iff_toInt_lt, toInt_since r parsed,
      toInt_overdueDayMs_of_fits nonneg fits]
    constructor
    · intro h
      exact ⟨ts, rfl, h⟩
    · rintro ⟨ts', eq, h⟩
      cases eq
      exact h

/-! ## Which folder -/

section Covers

variable (locate : String → Path) (context : Context) (b : OverdueBuilder)

/-- The place of the folder in which the directories of the days are made. -/
def inUse : Path := locate (b.folderInUse context)

/-- The place of the folder that is cleaned. -/
def cleaned : Path := locate context.getLogFolderDir

/-- After `initialize` and its cleaning thread, an overdue directory of the folder in use is one that
cannot be deleted with its entries, and every directory that is not overdue is as it was. -/
structure Covers (parse : String → Option Int64) (now : Int64) (date : String) (fs : Node String) :
    Prop where
  gone : fs.CanList (inUse locate context b) →
    ∀ d ∈ (initializeFiles locate context parse now date b fs).childrenAt (inUse locate context b),
      d.isDirectory = true → Overdue parse now b d.name → d.deletable = false
  untouched : ∀ d ∈ fs.childrenAt (inUse locate context b), d.isDirectory = true →
    ¬ Overdue parse now b d.name →
      d ∈ (initializeFiles locate context parse now date b fs).childrenAt (inUse locate context b)

/-- The files when the folder is cleaned. -/
def prepared (date : String) (fs : Node String) : Node String :=
  Node.mkdirs (cleaned locate context) (Node.mkdirs (inUse locate context b ++ [date])
    (if b.logFolderDir.isEmpty then fs.mkdirs (cleaned locate context) else fs))

theorem initializeFiles_eq (parse : String → Option Int64) (now : Int64) (date : String)
    (fs : Node String) :
    initializeFiles locate context parse now date b fs =
      (prepared locate context b date fs).update
        (cleanFolder (isFileOverdue parse now b.overdueDayMs)) (cleaned locate context) := rfl

variable {locate context b}

/-- What the making of each of the two directories keeps, `initialize` keeps until it cleans. -/
theorem prepared_keeps {p : Node String → Prop} {date : String} {fs : Node String}
    (default : ∀ fs, p fs → p (fs.mkdirs (cleaned locate context)))
    (day : ∀ fs, p fs → p (fs.mkdirs (inUse locate context b ++ [date]))) (start : p fs) :
    p (prepared locate context b date fs) := by
  unfold prepared
  split
  · exact default _ (day _ (default fs start))
  · exact default _ (day fs start)

/-- Where it is the default folder, making it and the directory of the day keeps its entries. -/
theorem subset_prepared (same : inUse locate context b = cleaned locate context) (date : String)
    (fs : Node String) :
    fs.childrenAt (cleaned locate context) ⊆
      (prepared locate context b date fs).childrenAt (cleaned locate context) := by
  intro d mem
  refine prepared_keeps (p := fun fs => d ∈ fs.childrenAt (cleaned locate context)) ?_ ?_ mem
  · intro fs mem
    have kept := subset_childrenAt_mkdirs fs (cleaned locate context) [] (Nat.zero_le 1)
    rw [List.append_nil] at kept
    exact kept mem
  · intro fs mem
    rw [same]
    exact subset_childrenAt_mkdirs fs _ [date] (Nat.le_refl 1) mem

theorem canList_prepared (same : inUse locate context b = cleaned locate context) (date : String)
    {fs : Node String} (can : fs.CanList (cleaned locate context)) :
    (prepared locate context b date fs).CanList (cleaned locate context) := by
  refine prepared_keeps (p := fun fs => fs.CanList (cleaned locate context)) ?_ ?_ can
  · intro fs can
    have made := can.mkdirs []
    rwa [List.append_nil] at made
  · intro fs can
    rw [same]
    exact can.mkdirs [date]

/-- The default folder after it was cleaned. -/
theorem childrenAt_initializeFiles (same : inUse locate context b = cleaned locate context)
    {parse : String → Option Int64} {now : Int64} {date : String} {fs : Node String}
    (can : fs.CanList (cleaned locate context)) :
    (initializeFiles locate context parse now date b fs).childrenAt (cleaned locate context) =
      cleanFiles (isFileOverdue parse now b.overdueDayMs)
        ((prepared locate context b date fs).childrenAt (cleaned locate context)) := by
  rw [initializeFiles_eq, childrenAt_update_cleanFolder (canList_prepared same date can)]

/-- **The default folder is covered.** -/
theorem covers_of_same (same : inUse locate context b = cleaned locate context)
    (nonneg : 0 ≤ b.overdueDay.toInt) (fits : b.Fits) {parse : String → Option Int64} {now : Int64}
    (r : InRange parse now) (date : String) (fs : Node String) :
    Covers locate context b parse now date fs := by
  constructor
  · intro can d mem isDir late
    rw [same] at can mem
    rw [childrenAt_initializeFiles same can] at mem
    exact not_deletable_of_mem_cleanFiles mem isDir ((isFileOverdue_iff r nonneg fits _).mpr late)
  · intro d mem _ not
    have kept : isFileOverdue parse now b.overdueDayMs d.name = false := by
      rw [← Bool.not_eq_true, isFileOverdue_iff r nonneg fits]
      exact not
    rw [same] at mem ⊢
    have mem := subset_prepared same date fs mem
    rw [initializeFiles_eq, childrenAt, get_update_same name_cleanFolder]
    rw [childrenAt] at mem
    cases there : (prepared locate context b date fs).get (cleaned locate context) with
    | none =>
      rw [there] at mem
      cases mem
    | some folder =>
      rw [there] at mem
      change d ∈ (cleanFolder _ folder).children
      unfold cleanFolder
      split
      · rw [children_withChildren (isDirectory_of_mem mem)]
        exact mem_cleanFiles mem kept
      · exact mem

/-- No time is so long that it is overdue, where a `long` does not hold the time after which it is. -/
theorem not_overdue_of_not_fits {parse : String → Option Int64} {now : Int64} (r : InRange parse now)
    (fits : ¬ b.Fits) (name : String) : ¬ Overdue parse now b name := by
  rintro ⟨ts, parsed, late⟩
  exact fits (Int.lt_trans late (r name ts parsed).2)

/-- Nor is another folder touched, where neither of the two is in the other. -/
theorem covers_of_apart (fits : ¬ b.Fits)
    (apart : ¬ inUse locate context b <+: cleaned locate context)
    (apart' : ¬ cleaned locate context <+: inUse locate context b) {parse : String → Option Int64}
    {now : Int64} (r : InRange parse now) (date : String) (fs : Node String) :
    Covers locate context b parse now date fs := by
  refine ⟨fun _ d _ _ late => absurd late (not_overdue_of_not_fits r fits d.name), ?_⟩
  intro d mem _ _
  rw [initializeFiles_eq, childrenAt, get_update_other name_cleanFolder apart' apart, ← childrenAt]
  refine prepared_keeps (p := fun fs => d ∈ fs.childrenAt (inUse locate context b)) ?_ ?_ mem
  · intro fs mem
    exact subset_childrenAt_mkdirs_of_apart fs apart mem
  · intro fs mem
    exact subset_childrenAt_mkdirs fs _ [date] (Nat.le_refl 1) mem

end Covers

/-! ## Where it goes wrong -/

/-- A name that is parsed as an instant just so long before 1970 that the code takes it as overdue. -/
def justOverdue (b : OverdueBuilder) (x name : String) : Option Int64 :=
  if name = x then some (Int64.ofInt (-(b.overdueDayMs.toInt + 1))) else none

section JustOverdue

variable (b : OverdueBuilder) (x : String)

/-- The time is of whole seconds, so it is not the greatest `long`. -/
theorem toInt_overdueDayMs_succ_lt : b.overdueDayMs.toInt + 1 < 2 ^ 63 := by
  have lt := b.overdueDayMs.toInt_lt
  have eq := toInt_overdueDayMs b
  rw [OverdueBuilder.overdueTime, Int.bmod_def] at eq
  split at eq <;> omega

theorem toInt_justOverdue :
    (Int64.ofInt (-(b.overdueDayMs.toInt + 1))).toInt = -(b.overdueDayMs.toInt + 1) := by
  have lt := toInt_overdueDayMs_succ_lt b
  have ge := b.overdueDayMs.le_toInt
  exact Int64.toInt_ofInt_of_le (by omega) (by omega)

theorem inRange_justOverdue : InRange (justOverdue b x) 0 := by
  intro name ts parsed
  rw [justOverdue] at parsed
  split at parsed
  · cases parsed
    have lt := toInt_overdueDayMs_succ_lt b
    have ge := b.overdueDayMs.le_toInt
    rw [toInt_justOverdue, Int64.toInt_zero]
    omega
  · cases parsed

theorem isFileOverdue_justOverdue (name : String) :
    isFileOverdue (justOverdue b x) 0 b.overdueDayMs name = decide (name = x) := by
  by_cases eq : name = x
  · have parsed : justOverdue b x name = some (Int64.ofInt (-(b.overdueDayMs.toInt + 1))) := if_pos eq
    rw [isFileOverdue, parsed, decide_eq_true eq]
    dsimp only
    rw [decide_eq_true_iff, Int64.lt_iff_toInt_lt, toInt_since (inRange_justOverdue b x) parsed,
      toInt_justOverdue, Int64.toInt_zero]
    omega
  · have parsed : justOverdue b x name = none := if_neg eq
    rw [isFileOverdue, parsed, decide_eq_false eq]

theorem isFileOverdue_justOverdue_self :
    isFileOverdue (justOverdue b x) 0 b.overdueDayMs x = true := by
  rw [isFileOverdue_justOverdue, decide_eq_true rfl]

end JustOverdue

section Fails

variable {locate : String → Path} {context : Context} {b : OverdueBuilder}

/-- Only the directories of a path. -/
def onlyPath (path : Path) : Node String := Node.mkdirs path (.dir "" true true [])

theorem canList_onlyPath (path rest : Path) : (onlyPath (path ++ rest)).CanList path :=
  (canList_new "" path).mkdirs rest

/-- A folder in use that is not the default one is not cleaned. -/
theorem not_covers_of_ne (ne : inUse locate context b ≠ cleaned locate context)
    (nonneg : 0 ≤ b.overdueDay.toInt) (fits : b.Fits) :
    ∃ parse now date fs, InRange parse now ∧ ¬ Covers locate context b parse now date fs := by
  obtain ⟨x, fresh⟩ := Infinite.exists_notMem_finset
    (inUse locate context b ++ cleaned locate context).toFinset
  rw [List.mem_toFinset, List.mem_append, not_or] at fresh
  obtain ⟨freshInUse, freshCleaned⟩ := fresh
  refine ⟨justOverdue b x, 0, x, onlyPath (inUse locate context b ++ [x]), inRange_justOverdue b x, ?_⟩
  intro covers
  have new : (onlyPath (inUse locate context b ++ [x])).get (inUse locate context b ++ [x]) =
      some (.dir x true true []) := get_mkdirs_new "" x _
  have apart : ¬ inUse locate context b ++ [x] <+: cleaned locate context := by
    intro h
    exact freshCleaned (h.subset (by simp))
  have there : (prepared locate context b x (onlyPath (inUse locate context b ++ [x]))).get
      (inUse locate context b ++ [x]) = some (.dir x true true []) := by
    refine prepared_keeps (p := fun fs => fs.get (inUse locate context b ++ [x]) = _) ?_ ?_ new
    · intro fs found
      exact get_mkdirs found apart
    · intro fs found
      rw [mkdirs_of_get found, found]
  have stays : (initializeFiles locate context (justOverdue b x) 0 x b
      (onlyPath (inUse locate context b ++ [x]))).get (inUse locate context b ++ [x]) =
        some (.dir x true true []) := by
    rw [initializeFiles_eq]
    refine get_update_cleanFolder there apart ?_
    intro name rest eq
    rw [isFileOverdue_justOverdue, decide_eq_false_iff_not]
    intro same
    subst same
    -- the two folders would be one, or the name not new
    rcases List.eq_nil_or_concat rest with rfl | ⟨rest, last, rfl⟩
    · exact ne (List.append_inj_left' eq rfl)
    · rw [List.concat_eq_append, ← List.cons_append, ← List.append_assoc] at eq
      refine freshInUse ?_
      rw [List.append_inj_left' eq rfl]
      simp
  obtain ⟨folder, at', mem⟩ := mem_children_of_get stays
  have bad := covers.gone (canList_onlyPath _ [x]) (.dir x true true [])
    (by rw [childrenAt, at']; exact mem) rfl
    ((isFileOverdue_iff (inRange_justOverdue b x) nonneg fits x).mp (isFileOverdue_justOverdue_self b x))
  cases bad

/-- Where the directories are there, `initialize` makes none. -/
theorem prepared_of_get {date : String} {fs d d' : Node String}
    (day : fs.get (inUse locate context b ++ [date]) = some d)
    (default : fs.get (cleaned locate context) = some d') : prepared locate context b date fs = fs := by
  rw [prepared]
  split
  · rw [mkdirs_of_get default, mkdirs_of_get day, mkdirs_of_get default]
  · rw [mkdirs_of_get day, mkdirs_of_get default]

/-- The directories on the way to the last one. -/
theorem get_onlyPath (path rest : Path) (last : String) :
    ∃ d, (onlyPath (path ++ rest ++ [last])).get path = some d := by
  have found := get_mkdirs_new "" last (path ++ rest)
  rw [← onlyPath, List.append_assoc path rest [last], get_append, Option.bind_eq_some_iff] at found
  obtain ⟨d, found, -⟩ := found
  rw [List.append_assoc]
  exact ⟨d, found⟩

/-- Of the default folder, directories are deleted that are not overdue. -/
theorem not_covers_of_same (same : inUse locate context b = cleaned locate context) (fits : ¬ b.Fits) :
    ∃ parse now date fs, InRange parse now ∧ ¬ Covers locate context b parse now date fs := by
  have r := inRange_justOverdue b ""
  refine ⟨justOverdue b "", 0, "", onlyPath (cleaned locate context ++ [""]), r, ?_⟩
  intro covers
  have can : (onlyPath (cleaned locate context ++ [""])).CanList (cleaned locate context) :=
    canList_onlyPath _ [""]
  have mem := covers.untouched (.dir "" true true [])
    (by rw [same, onlyPath, childrenAt_mkdirs_new]; exact List.mem_singleton_self _) rfl
    (not_overdue_of_not_fits r fits _)
  rw [same, childrenAt_initializeFiles same can] at mem
  have bad := not_deletable_of_mem_cleanFiles mem rfl (isFileOverdue_justOverdue_self b "")
  cases bad

/-- A folder in use that is in the default one is deleted, with its directories. -/
theorem not_covers_of_inside {name : String} {rest : Path}
    (inside : inUse locate context b = cleaned locate context ++ name :: rest) (fits : ¬ b.Fits) :
    ∃ parse now date fs, InRange parse now ∧ ¬ Covers locate context b parse now date fs := by
  have r := inRange_justOverdue b name
  have path : inUse locate context b ++ [""] = cleaned locate context ++ name :: (rest ++ [""]) := by
    rw [inside, List.append_assoc, List.cons_append]
  refine ⟨justOverdue b name, 0, "", onlyPath (inUse locate context b ++ [""]), r, ?_⟩
  intro covers
  have mem := covers.untouched (.dir "" true true [])
    (by rw [onlyPath, childrenAt_mkdirs_new]; exact List.mem_singleton_self _) rfl
    (not_overdue_of_not_fits r fits _)
  obtain ⟨d, default⟩ : ∃ d, (onlyPath (inUse locate context b ++ [""])).get
      (cleaned locate context) = some d := by
    rw [inside]
    exact get_onlyPath _ _ _
  have day : (onlyPath (inUse locate context b ++ [""])).get (inUse locate context b ++ [""]) =
      some (.dir "" true true []) := get_mkdirs_new "" "" _
  have can : (onlyPath (inUse locate context b ++ [""])).CanList (cleaned locate context) := by
    rw [path]
    exact canList_onlyPath _ _
  have left : (initializeFiles locate context (justOverdue b name) 0 "" b
      (onlyPath (inUse locate context b ++ [""]))).childrenAt (cleaned locate context) = [] := by
    rw [initializeFiles_eq, prepared_of_get day default,
      childrenAt_update_cleanFolder can, path, onlyPath, childrenAt_mkdirs_new]
    refine cleanFiles_singleton ?_ (deletable_mkdirs_new name _) ?_
    · exact isDirectory_mkdirs _ _
    · rw [name_mkdirs]
      exact isFileOverdue_justOverdue_self b name
  rw [childrenAt] at mem
  nth_rewrite 2 [inside] at mem
  rw [get_append_cons, left] at mem
  cases mem

/-- Of a folder in use that has the default one in it, a directory is not left as it is. -/
theorem not_covers_of_around {name : String} {rest : Path}
    (around : cleaned locate context = inUse locate context b ++ name :: rest) (fits : ¬ b.Fits) :
    ∃ parse now date fs, InRange parse now ∧ ¬ Covers locate context b parse now date fs := by
  have r := inRange_justOverdue b ""
  refine ⟨justOverdue b "", 0, name, onlyPath (cleaned locate context ++ [""]), r, ?_⟩
  intro covers
  have before : (onlyPath (cleaned locate context ++ [""])).childrenAt (inUse locate context b) =
      [Node.mkdirs (rest ++ [""]) (.dir name true true [])] := by
    rw [around, onlyPath, List.append_assoc, List.cons_append, childrenAt_mkdirs_new]
  obtain ⟨d, default⟩ : ∃ d, (onlyPath (cleaned locate context ++ [""])).get
      (cleaned locate context) = some d := by
    have := get_onlyPath (cleaned locate context) [] ""
    rwa [List.append_nil] at this
  obtain ⟨d', day⟩ : ∃ d, (onlyPath (cleaned locate context ++ [""])).get
      (inUse locate context b ++ [name]) = some d := by
    rw [around, ← List.singleton_append, ← List.append_assoc]
    exact get_onlyPath _ _ _
  have mem := covers.untouched (Node.mkdirs (rest ++ [""]) (.dir name true true []))
    (by rw [before]; exact List.mem_singleton_self _) (isDirectory_mkdirs _ _)
    (not_overdue_of_not_fits r fits _)
  rw [initializeFiles_eq, prepared_of_get day default, around,
    childrenAt_update_append name_cleanFolder, ← around, before, change, name_mkdirs, name_dir,
    if_pos rfl, List.mem_singleton] at mem
  -- the entries of the default folder would be the same after they were deleted
  have entries := congrArg (·.childrenAt rest) mem
  rw [childrenAt_update_cleanFolder ((canList_new name rest).mkdirs [""]), childrenAt_mkdirs_new,
    cleanFiles_singleton rfl rfl (isFileOverdue_justOverdue_self b "")] at entries
  cases entries

/-- **The folder in use is covered** where it is the default one and a `long` holds the time after
which logs are overdue. Where a `long` does not, nothing is ever overdue, and it is also covered where
the cleaning does not come near it. -/
theorem covers_iff (locate : String → Path) (context : Context) (b : OverdueBuilder)
    (nonneg : 0 ≤ b.overdueDay.toInt) :
    (∀ parse now date fs, InRange parse now → Covers locate context b parse now date fs) ↔
      (inUse locate context b = cleaned locate context ∧ b.Fits) ∨
        (¬ b.Fits ∧ ¬ inUse locate context b <+: cleaned locate context ∧
          ¬ cleaned locate context <+: inUse locate context b) := by
  constructor
  · intro covers
    by_contra not
    have fails : ∃ parse now date fs,
        InRange parse now ∧ ¬ Covers locate context b parse now date fs := by
      by_cases fits : b.Fits
      · exact not_covers_of_ne (fun same => not (.inl ⟨same, fits⟩)) nonneg fits
      by_cases around : inUse locate context b <+: cleaned locate context
      · obtain ⟨rest, eq⟩ := around
        cases rest with
        | nil => exact not_covers_of_same (by rw [← eq, List.append_nil]) fits
        | cons name rest => exact not_covers_of_around eq.symm fits
      by_cases inside : cleaned locate context <+: inUse locate context b
      · obtain ⟨rest, eq⟩ := inside
        cases rest with
        | nil => exact not_covers_of_same (by rw [← eq, List.append_nil]) fits
        | cons name rest => exact not_covers_of_inside eq.symm fits
      exact absurd (.inr ⟨fits, around, inside⟩) not
    obtain ⟨parse, now, date, fs, r, fails⟩ := fails
    exact fails (covers parse now date fs r)
  · intro h parse now date fs r
    rcases h with ⟨same, fits⟩ | ⟨fits, apart, apart'⟩
    · exact covers_of_same same nonneg fits r date fs
    · exact covers_of_apart fits apart apart' r date fs

/-- The places of an application that has been told `/sdcard/logs`. -/
def sdcardPath (folder : String) : Path :=
  if folder = "/sdcard/logs" then ["sdcard", "logs"] else ["sdcard", "app", "dolin", "zap"]

def sdcardContext : Context := ⟨some "/sdcard/app/dolin/zap", "/data/app"⟩

/-- One day, at midnight UTC. -/
def parseNewYear (name : String) : Option Int64 :=
  if name = "2020-01-01" then some 1577836800000 else none

/-- As for the default builder: a directory of 2020 is gone in November 2023. -/
theorem covers_default :
    Covers sdcardPath sdcardContext {} parseNewYear 1700000000000 "2023-11-14"
      (onlyPath ["sdcard", "app", "dolin", "zap", "2020-01-01"]) := by
  have fits : OverdueBuilder.Fits {} := by
    change (3 : Int64).toInt * 86400000 < 2 ^ 63
    decide
  refine (covers_iff sdcardPath sdcardContext {} (by decide)).mpr (.inl ⟨rfl, fits⟩) _ _ _ _ ?_
  intro name ts parsed
  rw [parseNewYear] at parsed
  split at parsed
  · cases parsed
    decide
  · cases parsed

/-- A directory of 2020 in the folder that was set stays for good. -/
theorem set_folder_not_covered :
    ¬ Covers sdcardPath sdcardContext { logFolderDir := "/sdcard/logs" } parseNewYear 1700000000000
      "2023-11-14" (onlyPath ["sdcard", "logs", "2020-01-01"]) := by
  intro covers
  have bad := covers.gone (canList_onlyPath ["sdcard", "logs"] ["2020-01-01"])
    (.dir "2020-01-01" true true []) ?_ rfl ⟨1577836800000, rfl, by decide⟩
  · cases bad
  · exact List.mem_cons_self

end Fails

end Dolin.Zap
