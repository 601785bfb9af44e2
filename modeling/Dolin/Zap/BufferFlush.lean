import Dolin.Base.Abi
import Dolin.Base.Region

/-!
# One flush on its way to the log file

`zap_buffer_flush.cpp`. A `BufferFlush` owns a heap copy of the bytes it carries, and names the
open log file they go to. Its destructor is here as the pointers it gives to `delete[]`.
-/

namespace Dolin.Zap

open Region

/-- A `FILE *` that `fopen(path, "ab+")` answered: the path, and which of the process's opens it
was. Two opens of one path are two streams. -/
structure FILE where
  path : Bytes
  opened : Nat
  deriving DecidableEq, Repr

/-- `BufferFlush`. `data` is the allocation behind `data_ptr`, `written` is
`write_ptr - data_ptr`. -/
structure BufferFlush where
  logFilePtr : Option FILE
  path : Option Bytes
  capacity : Nat := 128
  data : Option Bytes := none
  written : Nat := 0
  /-- `release_ptr` points at the `Buffer` to free with this flush. -/
  release : Bool := false
  deriving DecidableEq, Repr

namespace BufferFlush

/-- `GetLength`. -/
def getLength (f : BufferFlush) : Nat := if f.data.isSome then f.written else 0

/-- `EmptySize`. -/
def emptySize (abi : Abi) (f : BufferFlush) : Nat := abi.sub f.capacity f.getLength

/-- The allocation `Write` starts from: the first call makes it. It throws where there is no byte to
allocate, which takes an initial size of zero. -/
def allocated (f : BufferFlush) (len : Nat) : Option BufferFlush :=
  match f.data with
  | some _ => some f
  | none => do
    let capacity := max f.capacity len
    let data ← newArray capacity
    return { f with capacity, data := some data, written := 0 }

/-- `Write`. The branch that grows the allocation leaves `capacity` as it was. The new length does not
wrap: the old bytes and the new ones are both in memory. -/
def write (abi : Abi) (f : BufferFlush) (bs : Bytes) : Option BufferFlush := do
  let f ← f.allocated bs.length
  let data ← f.data
  if bs.length < f.emptySize abi then
    let data ← store data f.written bs
    return { f with data := some data, written := f.written + bs.length }
  else
    let nowLen := f.getLength
    let tmp ← newArray (nowLen + bs.length)
    let old ← load data 0 nowLen
    let tmp ← store tmp 0 old
    let tmp ← store tmp nowLen bs
    return { f with data := some tmp, written := nowLen + bs.length }

/-- `Reset`. It clears as many bytes as `capacity` says. -/
def reset (f : BufferFlush) : Option BufferFlush :=
  match f.data with
  | some data => (fill data 0 f.capacity 0).map fun data => { f with data := some data, written := 0 }
  | none => some f

/-- The bytes `Flush` hands to `fwrite`: `GetPtr()[0, GetLength())`. -/
def payload (f : BufferFlush) : Bytes := slice (f.data.getD []) 0 f.getLength

/-- `ReleaseThiz`. -/
def releaseThiz (f : BufferFlush) (buffer : Bool) : BufferFlush := { f with release := buffer }

/-- The constructor. -/
def new (logFile : Option FILE) (path : Option Bytes) (size : Nat) : BufferFlush :=
  { logFilePtr := logFile, path, capacity := size }

/-! ## The destructor -/

/-- A pointer that `~BufferFlush` gives to `delete[]`. -/
inductive Deleted where
  | path
  /-- So many bytes into the allocation behind `data_ptr`. -/
  | data (offset : Nat)
  deriving DecidableEq

/-- `~BufferFlush`: what it gives to `delete[]`, in order, which is `path`, `write_ptr` and `data_ptr`
where they are not null. The `operator delete` for `release_ptr` is in order. -/
def deletes (f : BufferFlush) : List Deleted :=
  (if f.path.isSome then [.path] else []) ++
    if f.data.isSome then [.data f.written, .data 0] else []

/-- What `delete[]` is for: each pointer is the first byte of an allocation, and given once. -/
def Deletable (ps : List Deleted) : Prop := ps.Nodup ∧ ∀ offset, .data offset ∈ ps → offset = 0

end BufferFlush

/-- A call on a flush. -/
inductive FlushCall where
  | write (data : Bytes)
  | reset

/-- The call, made. -/
def FlushCall.perform (abi : Abi) (f : BufferFlush) : FlushCall → Option BufferFlush
  | write data => f.write abi data
  | reset => f.reset

end Dolin.Zap
