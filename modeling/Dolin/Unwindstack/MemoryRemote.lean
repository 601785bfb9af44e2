import Dolin.Unwindstack.Memory

/-!
# Memory of another process

`MemoryRemote::Read` of `Memory.cpp`, with `ProcessVmRead` and `PtraceRead`. The other process is stopped:
its bytes do not change, and a page is one that `process_vm_readv` and `PTRACE_PEEKTEXT` can read, or not.
The first of the two that copies a byte is used from then on.
-/

namespace Dolin.Unwindstack

open Region

/-- The process that is read. Pages have `2 ^ pageShift` bytes. -/
structure Remote where
  abi : Abi
  pageShift : Nat
  content : Nat → UInt8
  mapped : Nat → Bool
  peekable : Nat → Bool
  pageShift_ge : 3 ≤ pageShift

namespace Remote

variable (r : Remote)

/-- `getpagesize()`. -/
def pageSize : Nat := 2 ^ r.pageShift

/-- `sizeof(long)`. -/
def sizeofLong : Nat := r.abi.sizeofSizeT

/-- The bytes of the process from an address on. -/
def bytes (addr size : Nat) : Bytes := (List.range size).map fun i => r.content (addr + i)

/-! ## `ProcessVmRead` -/

/-- `process_vm_readv`: the bytes of the ranges in front of the first that cannot be read; `none` for `-1`,
where there are none. Each range is in one page. -/
def processVmReadv (srcIovs : List (Nat × Nat)) : Option Bytes :=
  let copied := (srcIovs.takeWhile fun iov => r.mapped (iov.1 / r.pageSize)).flatMap
    fun iov => r.bytes iov.1 iov.2
  if copied = [] then none else some copied

/-- `kMaxIovecs`. -/
def kMaxIovecs : Nat := 64

/-- The inner loop of `ProcessVmRead`: the ranges, and the address and the length that are left; `none` for
`EFAULT`. -/
def gather : Nat → Nat → Nat → Option (List (Nat × Nat) × Nat × Nat)
  | 0, cur, len => some ([], cur, len)
  | iovecs + 1, cur, len =>
    if len = 0 then some ([], cur, len)
    else if cur ≥ r.abi.modulus - 1 then none
    else
      let iovLen := min (r.pageSize - cur % r.pageSize) len
      if cur + iovLen ≥ 2 ^ 64 then none
      else (gather iovecs (cur + iovLen) (len - iovLen)).map fun (iovs, cur', len') =>
        ((cur, iovLen) :: iovs, cur', len')

/-- The outer loop of `ProcessVmRead`, which goes on behind the ranges whatever was read of them. Its turns
are enough from the length on. -/
def processVmReadLoop : Nat → Nat → Nat → Bytes
  | 0, _, _ => []
  | turns + 1, cur, len =>
    if len = 0 then []
    else
      match r.gather kMaxIovecs cur len with
      | none => []
      | some (iovs, cur, len) =>
        match r.processVmReadv iovs with
        | none => []
        | some rc => rc ++ processVmReadLoop turns cur len

/-- `ProcessVmRead`: what stands at `dst`, as long as the number that is returned. -/
def processVmRead (remoteSrc len : Nat) : Bytes := r.processVmReadLoop len remoteSrc len

/-! ## `PtraceRead` -/

/-- `PtraceReadLong`, at an address that is a multiple of the size of a `long`. -/
def ptraceReadLong (addr : Nat) : Option Bytes :=
  if r.peekable (addr / r.pageSize) then some (r.bytes addr r.sizeofLong) else none

/-- The words of `PtraceRead`, and the bytes left over. -/
def ptraceReadWords : Nat → Nat → Nat → Bytes
  | 0, addr, leftOver =>
    if leftOver = 0 then []
    else
      match r.ptraceReadLong addr with
      | none => []
      | some data => data.take leftOver
  | words + 1, addr, leftOver =>
    match r.ptraceReadLong addr with
    | none => []
    | some data => data ++ ptraceReadWords words (addr + r.sizeofLong) leftOver

/-- `PtraceRead`. -/
def ptraceRead (addr bytes : Nat) : Bytes :=
  if addr + bytes ≥ 2 ^ 64 then []
  else
    let alignBytes := addr % r.sizeofLong
    if alignBytes ≠ 0 then
      match r.ptraceReadLong (addr - alignBytes) with
      | none => []
      | some data =>
        let copyBytes := min (r.sizeofLong - alignBytes) bytes
        (data.drop alignBytes).take copyBytes ++
          r.ptraceReadWords ((bytes - copyBytes) / r.sizeofLong) (addr + copyBytes)
            ((bytes - copyBytes) % r.sizeofLong)
    else r.ptraceReadWords (bytes / r.sizeofLong) addr (bytes % r.sizeofLong)

/-! ## `MemoryRemote` -/

/-- `read_redirect_func_`. -/
inductive ReadFunc where
  | unset
  | processVm
  | ptrace
  deriving DecidableEq, Repr

/-- `Read`. -/
def read (func : ReadFunc) (addr size : Nat) : Bytes × ReadFunc :=
  if r.abi = .ilp32 ∧ addr ≥ 2 ^ 32 then ([], func)
  else
    match func with
    | .processVm => (r.processVmRead addr size, func)
    | .ptrace => (r.ptraceRead addr size, func)
    | .unset =>
      let bytes := r.processVmRead addr size
      if bytes ≠ [] then (bytes, .processVm)
      else
        let bytes := r.ptraceRead addr size
        (bytes, if bytes ≠ [] then .ptrace else .unset)

/-- `ReadFully`. -/
def readFully (func : ReadFunc) (addr size : Nat) : Option Bytes × ReadFunc :=
  let (bytes, func) := r.read func addr size
  (if bytes.length = size then some bytes else none, func)

/-- A number of reads one after the other. -/
def reads (func : ReadFunc) : List (Nat × Nat) → List (Option Bytes)
  | [] => []
  | (addr, size) :: asked =>
    let (answer, func) := r.readFully func addr size
    answer :: reads func asked

end Remote

end Dolin.Unwindstack
