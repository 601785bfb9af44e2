import Dolin.Base.FileTree
import Dolin.Zap.Print

/-!
# Overdue logs

`cleanOverdueLog`, `isFileOverdue`, `getLogFolderDir`, `getLogDir` and `deleteDirectory` of
`ZapFileUtils.java`, and the part of `ZapPrint.initialize` that goes to them. The cleaning thread is
the last thing that `initialize` starts; what the native side writes to the folder is in `Dolin.Zap.Day`
and not here.

How the system finds the place of a path, with links and all, is a parameter (`locate`), and so is
`SimpleDateFormat.parse`, which gives an instant in milliseconds or none.
-/

namespace Dolin.Zap

open FileTree

/-- The names from the root to an entry. -/
abbrev Path := List String

/-- What the application says about its files: `getExternalFilesDir("dolin/zap")`, which may be null,
and `getFilesDir()`. -/
structure Context where
  externalFilesDir : Option String
  filesDir : String

/-- `getLogFolderDir`. -/
def Context.getLogFolderDir (context : Context) : String :=
  match context.externalFilesDir with
  | some folder => folder
  | none => context.filesDir ++ "/dolin/zap"

/-- `Config.Builder`, with the days after which logs are overdue. -/
structure OverdueBuilder extends Config.Builder where
  overdueDay : Int64 := 3

/-- `overdueDayMs` of the `Config`: a product of `long`s. -/
def OverdueBuilder.overdueDayMs (b : OverdueBuilder) : Int64 := b.overdueDay * 24 * 3600 * 1000

/-- `logFolderDir` in `initialize`: the folder in which the directories of the days are made. -/
def OverdueBuilder.folderInUse (b : OverdueBuilder) (context : Context) : String :=
  if b.logFolderDir.isEmpty then context.getLogFolderDir else b.logFolderDir

/-- `isFileOverdue`. The difference is taken as a `long`. -/
def isFileOverdue (parse : String → Option Int64) (now overdueDayMs : Int64) (name : String) : Bool :=
  match parse name with
  | some ts => overdueDayMs < now - ts
  | none => false

/-- `deleteFile` of an entry that is there: whether it was deleted, and what is left of it. -/
def deleteFile : Node String → Bool × Option (Node String)
  | .file name deletes => if deletes then (true, none) else (false, some (.file name deletes))
  | node => (false, some node)

mutual

/-- `deleteDirectory`: whether it was deleted, and what is left of it. -/
def deleteDirectory : Node String → Bool × Option (Node String)
  | .dir name deletes lists children =>
    -- `listFiles` gives null where the directory cannot be listed
    let loop := if lists then deleteAll children else (true, children)
    if loop.1 && deletes && loop.2.isEmpty then (true, none)
    else (false, some (.dir name deletes lists loop.2))
  | node => (false, some node)

/-- The loop of `deleteDirectory`. It stops at the first entry that is not deleted. -/
def deleteAll : List (Node String) → Bool × List (Node String)
  | [] => (true, [])
  | node :: nodes =>
    let deleted := if node.isFile then deleteFile node else deleteDirectory node
    if deleted.1 then deleteAll nodes else (false, deleted.2.toList ++ nodes)

end

/-- The loop of `cleanOverdueLog`, over what the folder has. It goes on whether a directory was deleted
or not. -/
def cleanFiles (overdue : String → Bool) (files : List (Node String)) : List (Node String) :=
  files.flatMap fun f =>
    if f.isDirectory && overdue f.name then (deleteDirectory f).2.toList else [f]

/-- The folder after the loop, where it can be listed. -/
def cleanFolder (overdue : String → Bool) (folder : Node String) : Node String :=
  if folder.lists then folder.withChildren (cleanFiles overdue) else folder

/-- `cleanOverdueLog`. It asks for the default folder. -/
def cleanOverdueLog (locate : String → Path) (context : Context) (parse : String → Option Int64)
    (now overdueDayMs : Int64) (fs : Node String) : Node String :=
  let folder := locate context.getLogFolderDir
  (fs.mkdirs folder).update (cleanFolder (isFileOverdue parse now overdueDayMs)) folder

/-- `ZapPrint.initialize` where it has not run before, with its cleaning thread to the end: what it does
to the files. -/
def initializeFiles (locate : String → Path) (context : Context) (parse : String → Option Int64)
    (now : Int64) (date : String) (b : OverdueBuilder) (fs : Node String) : Node String :=
  let fs := if b.logFolderDir.isEmpty then fs.mkdirs (locate context.getLogFolderDir) else fs
  -- `getLogDir`
  let fs := fs.mkdirs (locate (b.folderInUse context) ++ [date])
  cleanOverdueLog locate context parse now b.overdueDayMs fs

end Dolin.Zap
