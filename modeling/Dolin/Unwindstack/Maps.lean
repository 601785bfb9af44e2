import Dolin.Base.BinarySearch
import Dolin.Base.Numeral
import Dolin.Base.Region
import Dolin.Hawkeye.Sections

/-!
# The maps of a process

`Maps::Parse`, `Maps::Find` and `InternalParseLine` of `Maps.cpp`. The file is read through a buffer of
2048 bytes, whose bytes without a line end are moved to its front before the next read. How much a read
gives is an input, and what the buffer holds at the beginning.
-/

namespace Dolin.Unwindstack

open Region

/-- `MapInfo`, as `Maps::Parse` makes it. -/
structure MapInfo where
  start : BitVec 64
  end_ : BitVec 64
  offset : BitVec 64
  flags : UInt16
  name : Bytes
  deriving DecidableEq, Repr

/-- `PROT_READ`, `PROT_WRITE`, `PROT_EXEC` and `MAPS_FLAGS_DEVICE_MAP`. -/
def protRead : UInt16 := 1
def protWrite : UInt16 := 2
def protExec : UInt16 := 4
def mapsFlagsDeviceMap : UInt16 := 0x8000

/-! ## C strings -/

/-- A text behind a prefix `0x`, where hexadecimal digits follow it. -/
def unprefixed (base : Nat) (text : Bytes) : Bytes :=
  match text with
  | zero :: x :: c :: rest =>
    if base = 16 ∧ zero = 0x30 ∧ (x = 0x78 ∨ x = 0x58) ∧ Numeral.isDigit 16 c then c :: rest else text
  | _ => text

/-- The digits of `strtoull`, with a sign in front. -/
def strtoullDigits (base : Nat) (negative : Bool) (text : Bytes) : Option (BitVec 64 × Bytes) :=
  match Numeral.magnitude base (unprefixed base text) with
  | none => none
  | some (n, rest) =>
    if 2 ^ 64 ≤ n then some (-1, rest)
    else some (if negative then -BitVec.ofNat 64 n else BitVec.ofNat 64 n, rest)

/-- `strtoull`: the number and the text behind it, `none` where `str` stays at the start. -/
def strtoull (base : Nat) (text : Bytes) : Option (BitVec 64 × Bytes) :=
  match text.dropWhile Hawkeye.isspace with
  | 0x2d :: rest => strtoullDigits base true rest
  | 0x2b :: rest => strtoullDigits base false rest
  | rest => strtoullDigits base false rest

namespace Maps

/-- `*str++` where it has to be one of some characters. -/
def expect (p : UInt8 → Bool) : Bytes → Option Bytes
  | [] => none
  | c :: rest => if p c then some rest else none

/-- A permission: its letter, or a dash. -/
def permission (letter : UInt8) (flag : UInt16) : Bytes → Option (UInt16 × Bytes)
  | [] => none
  | c :: rest => if c = letter then some (flag, rest) else if c = 0x2d then some (0, rest) else none

/-- `std::isspace(*str)`. -/
def atSpace (str : Bytes) : Bool := str.head?.any Hawkeye.isspace

/-- `"/dev/"` and `"ashmem/"`. -/
def dev : Bytes := [0x2f, 0x64, 0x65, 0x76, 0x2f]
def ashmem : Bytes := [0x61, 0x73, 0x68, 0x6d, 0x65, 0x6d, 0x2f]

/-- The flags of a map with a name. -/
def deviceFlags (name : Bytes) (flags : UInt16) : UInt16 :=
  if name.take 5 = dev ∧ (name.drop 5).take 7 ≠ ashmem then flags ||| mapsFlagsDeviceMap else flags

/-- The addresses of `InternalParseLine`. -/
def parseAddresses (str : Bytes) : Option ((BitVec 64 × BitVec 64) × Bytes) := do
  let (start, str) ← strtoull 16 str
  let str ← expect (· == 0x2d) str
  let (end_, str) ← strtoull 16 str
  let str ← expect Hawkeye.isspace str
  pure ((start, end_), str)

/-- Its permissions. -/
def parsePermissions (str : Bytes) : Option (UInt16 × Bytes) := do
  let (r, str) ← permission 0x72 protRead str
  let (w, str) ← permission 0x77 protWrite str
  let (x, str) ← permission 0x78 protExec str
  let str ← expect (fun c => c == 0x70 || c == 0x73) str
  let str ← expect Hawkeye.isspace str
  pure (r ||| w ||| x, str)

/-- Its offset, with the space behind it left. -/
def parseOffset (str : Bytes) : Option (BitVec 64 × Bytes) := do
  let (offset, str) ← strtoull 16 str
  if atSpace str then pure (offset, str) else none

/-- The device and the inode, which it passes over. -/
def skipDevice (str : Bytes) : Option Bytes := do
  let (_, str) ← strtoull 16 str
  let str ← expect (· == 0x3a) str
  if atSpace str then none
  else
    let (_, str) ← strtoull 16 str
    let str ← expect Hawkeye.isspace str
    let (_, str) ← strtoull 10 str
    if atSpace str ∨ str = [] then pure str else none

/-- `InternalParseLine`, on a C string. -/
def internalParseLine (line : Bytes) : Option MapInfo := do
  let ((start, end_), str) ← parseAddresses line
  let (flags, str) ← parsePermissions (str.dropWhile Hawkeye.isspace)
  let (offset, str) ← parseOffset str
  let str ← skipDevice str
  let name := str.dropWhile Hawkeye.isspace
  pure ⟨start, end_, offset, deviceFlags name flags, name⟩

/-- The C string that begins with some bytes. -/
def cstring (bs : Bytes) : Bytes := bs.takeWhile (· != 0)

/-! ## The file -/

/-- The size of the buffer. -/
def bufferSize : Nat := 2048

/-- The buffer after a number of lines: how many bytes are left over, and whether every line was one of a
map. -/
structure Scan where
  buffer : Bytes
  leftover : Nat
  ok : Bool
  maps : List MapInfo

/-- `memmove(buffer, line, bytes)`. -/
def moveFront (buffer : Bytes) (line bytes : Nat) : Bytes := (buffer.drop line).take bytes ++ buffer.drop bytes

/-- The inner loop: the lines from `line` on, among `bytes` bytes. Its turns are enough from their number
on. A line that is none of a map leaves the bytes where they are. -/
def scanLines : Nat → Bytes → Nat → Nat → List MapInfo → Scan
  | 0, buffer, _, bytes, maps => ⟨buffer, bytes, true, maps⟩
  | turns + 1, buffer, line, bytes, maps =>
    if bytes = 0 then ⟨buffer, 0, true, maps⟩
    else
      match ((buffer.drop line).take bytes).findIdx? (· == 0x0a) with
      | none => ⟨moveFront buffer line bytes, bytes, true, maps⟩
      | some n =>
        let buffer := buffer.set (line + n) 0
        match internalParseLine (cstring (buffer.drop line)) with
        | none => ⟨buffer, bytes, false, maps⟩
        | some mapInfo => scanLines turns buffer (line + n + 1) (bytes - (n + 1)) (maps ++ [mapInfo])

/-- `read(fd, &buffer[leftover], n)`. -/
def fill (buffer : Bytes) (leftover : Nat) (chunk : Bytes) : Bytes :=
  buffer.take leftover ++ chunk ++ buffer.drop (leftover + chunk.length)

/-- The outer loop over what is left of the file: `reads k` is one less than what the `k`-th read gives at
most, `none` where it fails. -/
def parseLoop (reads : Nat → Option Nat) :
    Nat → Nat → Bytes → Bytes → Nat → Bool → List MapInfo → Bool × List MapInfo
  | 0, _, _, _, _, returnValue, maps => (returnValue, maps)
  | turns + 1, k, content, buffer, leftover, returnValue, maps =>
    match reads k with
    | none => (false, maps)
    | some most =>
      let chunk := content.take (min (most + 1) (bufferSize - leftover))
      if chunk = [] then (returnValue, maps)
      else
        let bytes := leftover + chunk.length
        let out := scanLines bytes (fill buffer leftover chunk) 0 bytes maps
        parseLoop reads turns (k + 1) (content.drop chunk.length) out.buffer out.leftover
          (returnValue && out.ok) out.maps

/-- `Maps::Parse` of a file; `none` where it does not open. Each read gives a byte, or is the last. -/
def parse (reads : Nat → Option Nat) (buffer : Bytes) : Option Bytes → Bool × List MapInfo
  | none => (false, [])
  | some content => parseLoop reads (content.length + 1) 0 content buffer 0 true []

/-! ## A lookup -/

/-- The comparisons of `Find`. -/
def compare (maps : List MapInfo) (pc : BitVec 64) (index : Nat) : Ordering :=
  let cur := maps.getD index ⟨0, 0, 0, 0, []⟩
  if pc ≥ cur.start ∧ pc < cur.end_ then .eq else if pc < cur.start then .lt else .gt

/-- `Find`. -/
def find (maps : List MapInfo) (pc : BitVec 64) : Option MapInfo := BinarySearch.pick (compare maps pc) maps

end Maps

end Dolin.Unwindstack
