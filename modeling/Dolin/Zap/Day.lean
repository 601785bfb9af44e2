import Mathlib.Algebra.Group.Nat.Defs
import Dolin.Base.Machine
import Dolin.Zap.Record

/-!
# The directory of a day

`ZapRecord.init` and the rotation of `ZapRecord.asyncFlush` over one directory that holds log parts
only. The number of a part is not stored: a process takes the number of files it finds,
`ZapFileUtils.getLogFileNumByDate`, and counts on from there. `fopen` with `"ab+"` creates a file
that is not there.
-/

namespace Dolin.Zap

/-- `getLogFileNumByDate`. `files` is what `listFiles` gives, `none` where there is no folder or it
cannot be listed. An array has fewer than `2 ^ 31` elements, so a larger folder has no answer. -/
def getLogFileNumByDate (files : Option (List String)) : Option Int32 :=
  match files with
  | none => some 0
  | some files => if files.length < 2 ^ 31 then some (Int32.ofNat files.length) else none

/-- The arguments of `init` that may differ from process to process, and the pointer that `initNative`
answers. -/
structure Start where
  bufferPath : String
  capacity : Int32
  limitSize : Int32
  compress : Bool
  ptr : Int64
  ptr_ne_zero : ptr ≠ 0

/-- The directory and the record of the last process. -/
structure Day where
  files : List String := []
  record : Option ZapRecord := none

/-- What happens to a directory. -/
inductive DayAction where
  /-- A process starts and calls `init`. -/
  | start (args : Start)
  /-- The process calls `asyncFlush` with a part that has reached its limit. -/
  | rotate

namespace Day

/-- `fopen(path, "ab+")`. -/
def opened (files : List String) (path : String) : List String :=
  if path ∈ files then files else path :: files

/-- The record `r`, with its part open. -/
def use (d : Day) (r : ZapRecord) : Day :=
  { files := opened d.files r.logFilePath, record := some r }

/-- One step of the day `logDate` in the directory `logPath`. -/
def step (logPath logDate : String) (d : Day) : DayAction → Option Day
  | .start args => do
    let num ← getLogFileNumByDate (some d.files)
    return d.use (ZapRecord.init {} args.bufferPath logPath logDate args.capacity args.limitSize
      args.compress num (some args.ptr)).1
  | .rotate => do
    let r ← d.record
    return d.use (r.asyncFlush true).1

end Day

end Dolin.Zap
