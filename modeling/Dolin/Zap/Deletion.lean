import Dolin.Base.Removal
import Dolin.Zap.Cleaning

/-!
# Deleting directories by their paths

`deleteFile` and `deleteDirectory` of `ZapFileUtils.java` as they go about it: with the path of every
entry, asking the file system anew about each. A `File` is the path that it names; the entries of a
directory have its path with their names behind. `Dolin.Zap.deleteDirectory` says what comes of it.

`File.delete` fails where the entry refuses, and on a directory that still has entries. Every call also
says which entries it removed, in their order. The recursion is bounded by a number of nested calls.
-/

namespace Dolin.Zap

open FileTree

/-- The files of a device. -/
structure FileSystem where
  root : Node String
  distinct : root.Distinct

namespace FileSystem

variable (fs : FileSystem) (file : Path)

/-- `exists()`. -/
def «exists» : Bool := (fs.root.get file).isSome

/-- `isFile()`. -/
def isFile : Bool := (fs.root.get file).elim false Node.isFile

/-- `isDirectory()`. -/
def isDirectory : Bool := (fs.root.get file).elim false Node.isDirectory

/-- `listFiles()`, or nothing where it gives null. -/
def listFiles : Option (List Path) :=
  match fs.root.get file with
  | some (.dir _ _ true children) => some (children.map fun child => file ++ [child.name])
  | _ => none

/-- `delete()` can succeed: the entry does not refuse, and has no entries. The root refuses. An entry of
another kind is never asked. -/
def canDelete : Bool :=
  match file, fs.root.get file with
  | _ :: _, some (.file _ deletes) => deletes
  | _ :: _, some (.dir _ deletes _ children) => deletes && children.isEmpty
  | _, _ => false

/-- The files without an entry. -/
def remove : FileSystem := ⟨fs.root.remove file, fs.distinct.remove file⟩

end FileSystem

/-- What a call returns, the files that it leaves, and the paths of the entries that it removed. -/
structure Deletion where
  flag : Bool
  files : FileSystem
  removed : List Path

namespace Deletion

/-- A call that does nothing. -/
def fails (fs : FileSystem) : Deletion := ⟨false, fs, []⟩

/-- Where the call succeeded it is gone on, else this is what is returned. -/
def andThen (d : Deletion) (next : FileSystem → Option Deletion) : Option Deletion :=
  if d.flag then (next d.files).map fun e => { e with removed := d.removed ++ e.removed } else some d

end Deletion

namespace ZapFileUtils

/-- `File.delete`. -/
def delete (fs : FileSystem) (file : Path) : Deletion :=
  if fs.canDelete file then ⟨true, fs.remove file, [file]⟩ else .fails fs

/-- `deleteFile`. -/
def deleteFile (fs : FileSystem) (file : Path) : Deletion :=
  if fs.exists file then delete fs file else .fails fs

/-- The loop of `deleteDirectory`. It breaks where an entry was not deleted. -/
def deleteFiles (deleteDirectory : FileSystem → Path → Option Deletion) :
    List Path → FileSystem → Option Deletion
  | [], fs => some ⟨true, fs, []⟩
  | file :: files, fs =>
    let deleted := if fs.isFile file then some (deleteFile fs file) else deleteDirectory fs file
    deleted.bind (·.andThen (deleteFiles deleteDirectory files))

/-- `deleteDirectory` of a path, with so many nested calls at most. -/
def deleteDirectoryAt : Nat → FileSystem → Path → Option Deletion
  | 0, _, _ => none
  | nested + 1, fs, dirFile =>
    if !fs.exists dirFile || !fs.isDirectory dirFile then some (.fails fs)
    else
      let loop := deleteFiles (deleteDirectoryAt nested) ((fs.listFiles dirFile).getD []) fs
      loop.bind (·.andThen fun fs => some (delete fs dirFile))

/-- `deleteDirectory`. How the system finds the place of a path is a parameter. -/
def deleteDirectory (locate : String → Path) (nested : Nat) (fs : FileSystem) (path : String) :
    Option Deletion :=
  if path.isEmpty then some (.fails fs)
  else
    let path := if path.endsWith "/" then path else path ++ "/"
    deleteDirectoryAt nested fs (locate path)

end ZapFileUtils

end Dolin.Zap
