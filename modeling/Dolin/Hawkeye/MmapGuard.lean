import Mathlib.Logic.Function.Basic
import Dolin.Base.Abi
import Dolin.Base.Cstring

/-!
# The crash report buffer

`guard/mmap_guard.cpp` and the functions that write to it: `RecordNewline` and `RecordLine` of
`hawkeye_private.cpp` and the JNI function `Record2Buffer` of `hawkeye.cpp`.

`Write` does not know the size of the mapping and trusts its caller for the length of the content.
Nothing checks its copies, so the model does not either: what lies inside lands, and every access is
entered in a ledger with the size of the object it is meant for.
-/

namespace Dolin.Hawkeye

open Region

/-- The files by path. -/
abbrev Files := Bytes → Option Bytes

/-- What `buffer_ptr` points to. `MAP_FAILED` is not null, and no byte lies behind it. -/
inductive BufferPtr where
  | null
  | mapFailed
  | mapped (bytes : Bytes)
  deriving DecidableEq

structure MmapGuard where
  bufferPtr : BufferPtr := .null
  deriving DecidableEq

/-- `CAPACITY`. -/
def CAPACITY : Nat := 1024 * 400

namespace MmapGuard

/-- The size of the mapping. -/
def mappingSize (capacity : Nat) : Nat := if capacity ≤ CAPACITY then CAPACITY else capacity

/-- The constructor, with the outcomes of the `open` in `FileGuard` and of `mmap`. -/
def new (filename : Option Bytes) (capacity : Nat) (opens maps : Bool) : MmapGuard :=
  if filename.isNone then {}
  else if !opens then {}
  else if !maps then { bufferPtr := .mapFailed }
  else { bufferPtr := .mapped (List.replicate (mappingSize capacity) 0) }

def isOk (g : MmapGuard) : Bool := g.bufferPtr ≠ .null

/-- The bytes behind `buffer_ptr`. -/
def bytes (g : MmapGuard) : Bytes :=
  match g.bufferPtr with
  | .mapped m => m
  | _ => []

/-- `Write` in append mode on a mapping: the new mapping, and the three copies. `content` is the
memory at the pointer, read up to its first zero byte by `strcpy`. Nothing given to an empty report
throws before the first copy, and leaves the mapping as it was. -/
def append (m content : Bytes) (contentLen : Nat) : Bytes × List Access :=
  let nowLen := strlen m
  let newCapacity := nowLen + contentLen
  match newArray newCapacity with
  | none => (m, [])
  | some dataTmp =>
    let dataTmp := overlay dataTmp 0 (m.take nowLen)
    let copied := cstring content ++ [0]
    let dataTmp := overlay dataTmp nowLen copied
    (overlay m 0 dataTmp,
      [⟨newCapacity, nowLen⟩, ⟨newCapacity, nowLen + copied.length⟩, ⟨m.length, newCapacity⟩])

/-- `Write(content, content_len, appendable)`. -/
def writeWith (g : MmapGuard) (content : Bytes) (contentLen : Nat) (appendable : Bool) :
    MmapGuard × List Access :=
  match g.bufferPtr with
  | .null => (g, [])
  -- the first byte that `strlen` or `memcpy` touches
  | .mapFailed => (g, [⟨0, 1⟩])
  | .mapped m =>
    if appendable then
      ({ bufferPtr := .mapped (append m content contentLen).1 }, (append m content contentLen).2)
    else
      ({ bufferPtr := .mapped (overlay m 0 (content.take contentLen)) }, [⟨m.length, contentLen⟩])

/-- `Write(content, content_len)`. -/
def write (g : MmapGuard) (content : Bytes) (contentLen : Nat) : MmapGuard × List Access :=
  g.writeWith content contentLen true

/-- `Flush`, with the outcome of `fopen`. `none` where a bad pointer is used: `fclose` is given null
where `fopen` fails, and `MAP_FAILED` passes the test for null. -/
def flush (g : MmapGuard) (filename : Bytes) (opens : Bool) (files : Files) : Option Files :=
  if opens then
    match g.bufferPtr with
    | .mapFailed => none
    | .null | .mapped _ =>
      some (Function.update files filename
        (some ((files filename).getD [] ++ cstring g.bytes)))
  else none

end MmapGuard

/-! ## Its calls -/

/-- A `FILE *`, as `fopen` answers it. -/
inductive FilePtr where
  | null
  | file (path : Bytes)
  deriving DecidableEq

/-- A call of the guard's own methods. `content` is `none` where the pointer is null. -/
inductive GuardCall where
  | write (content : Option Bytes) (contentLen : Nat) (appendable : Bool)
  | flush (filename : Bytes) (opens : Bool)

/-- What a call leaves and touches: the guard, the accesses to memory, and the pointers that `fclose`
was given. -/
structure GuardEffect where
  guard : MmapGuard
  accesses : List Access := []
  closed : List FilePtr := []

/-- What `strlen` and `fwrite` read behind `buffer_ptr`, where it is not null. -/
def MmapGuard.reads (g : MmapGuard) : List Access :=
  match g.bufferPtr with
  | .null => []
  | .mapFailed => [⟨0, 1⟩]
  | .mapped m => [⟨m.length, strlen m + 1⟩]

/-- The call, statement by statement. `Flush` has no return before its `fclose`. -/
def GuardCall.perform (g : MmapGuard) : GuardCall → GuardEffect
  | .write none _ _ => { guard := g }
  | .write (some content) contentLen appendable =>
    { guard := (g.writeWith content contentLen appendable).1
      accesses := (g.writeWith content contentLen appendable).2 }
  | .flush filename opens =>
    let filePtr := if opens then FilePtr.file filename else .null
    { guard := g, accesses := if filePtr ≠ .null then g.reads else [], closed := [filePtr] }

/-- The guard after a list of calls. -/
def MmapGuard.after (g : MmapGuard) : List GuardCall → MmapGuard
  | [] => g
  | c :: calls => (c.perform g).guard.after calls

/-! ## Its callers -/

/-- `HAWKEYE_LOG_BUFFER_SIZE`. -/
def HAWKEYE_LOG_BUFFER_SIZE : Nat := 1024

/-- The text that `vsnprintf` left in the buffer, where there is one to record: `none` stands for a
failed call, and a result that is not positive records nothing. -/
def printed : Option Bytes → Option Bytes
  | none => none
  | some [] => none
  | some text => some (text.take (HAWKEYE_LOG_BUFFER_SIZE - 1))

/-- `RecordLine` with the text that its arguments format to. -/
def recordLine (g : MmapGuard) (text : Option Bytes) : MmapGuard × List Access :=
  match printed text with
  | none => (g, [])
  | some cut => g.write (cut ++ [0]) (cut.length + 1)

/-- `RecordNewline`. The newline takes the place of the zero byte, so `strcpy` goes on to what lies
behind it in the buffer that `malloc` gave, and behind that buffer. -/
def recordNewline (g : MmapGuard) (text : Option Bytes) (behind : Bytes) :
    MmapGuard × List Access :=
  match printed text with
  | none => (g, [])
  | some cut => g.write (cut ++ 0x0a :: behind) (cut.length + 1)

/-- `Record2Buffer`. -/
def record2Buffer (g : MmapGuard) (content : JString) : MmapGuard × List Access :=
  g.write (content.utf8 ++ [0]) content.length

/-- A call that writes to a guard. -/
inductive RecordCall where
  | recordLine (text : Option Bytes)
  | recordNewline (text : Option Bytes) (behind : Bytes)
  | record2Buffer (content : JString)

/-- The guard after a call, and the call's accesses. -/
def RecordCall.perform (g : MmapGuard) : RecordCall → MmapGuard × List Access
  | .recordLine text => Hawkeye.recordLine g text
  | .recordNewline text behind => Hawkeye.recordNewline g text behind
  | .record2Buffer content => Hawkeye.record2Buffer g content

/-- The guard after a list of calls, and all their accesses. The list goes on behind a call that
throws only where a caller catches the exception. -/
def performAll (g : MmapGuard) : List RecordCall → MmapGuard × List Access
  | [] => (g, [])
  | c :: calls => ((performAll (c.perform g).1 calls).1,
      (c.perform g).2 ++ (performAll (c.perform g).1 calls).2)

end Dolin.Hawkeye
