import Dolin.Base.BinarySearch
import Dolin.Unwindstack.RegsInfo

/-!
# The symbols of a library

`Symbols::GetName` of `Symbols.cpp`. The table is read entry by entry, as far as a lookup needs it, and
the functions that were met are kept in the order of their addresses. A later lookup searches them first.

The loop over the table is given a number of turns, and there is no result where it is not enough: with
entries of size zero none is.
-/

namespace Dolin.Unwindstack

open Region

/-- `Elf32_Sym` and `Elf64_Sym`. -/
structure Sym where
  stName : BitVec 64
  stInfo : UInt8
  stShndx : BitVec 64
  stValue : BitVec 64
  stSize : BitVec 64
  deriving DecidableEq, Repr

namespace Sym

/-- The size of an entry, by the type of addresses. -/
def size : AddressType → Nat
  | .uint32 => 16
  | .uint64 => 24

/-- A field of an entry. -/
def field (bs : Bytes) (off len : Nat) : BitVec 64 := BitVec.ofNat 64 (decodeLE (slice bs off len))

/-- The fields of an entry. -/
def decode : AddressType → Bytes → Sym
  | .uint32, bs => ⟨field bs 0 4, bs.getD 12 0, field bs 14 2, field bs 4 4, field bs 8 4⟩
  | .uint64, bs => ⟨field bs 0 4, bs.getD 4 0, field bs 6 2, field bs 8 8, field bs 16 8⟩

/-- `ReadFully(cur_offset, &entry, sizeof(entry))`. -/
def read (a : AddressType) (memory : Memory) (curOffset : BitVec 64) : Option Sym :=
  (memory.readFully curOffset (size a)).map (decode a)

/-- `entry.st_shndx != SHN_UNDEF && ELF32_ST_TYPE(entry.st_info) == STT_FUNC`. -/
def isFunc (entry : Sym) : Bool := entry.stShndx ≠ 0 ∧ entry.stInfo &&& 0xf = 2

/-- The address of the symbol; `SHN_ABS` is not moved. -/
def startOffset (entry : Sym) (loadBias : BitVec 64) : BitVec 64 :=
  if entry.stShndx ≠ 0xfff1 then entry.stValue + loadBias else entry.stValue

end Sym

/-- `Symbols::Info`. -/
structure SymInfo where
  startOffset : BitVec 64
  endOffset : BitVec 64
  strOffset : BitVec 64
  deriving DecidableEq, Repr

/-- `Symbols`. -/
@[ext]
structure Symbols where
  curOffset : BitVec 64
  offset : BitVec 64
  end_ : BitVec 64
  entrySize : BitVec 64
  strOffset : BitVec 64
  strEnd : BitVec 64
  symbols : List SymInfo
  deriving DecidableEq, Repr

namespace Symbols

/-- The constructor. -/
def new (offset size entrySize strOffset strSize : BitVec 64) : Symbols :=
  ⟨offset, offset, offset + size, entrySize, strOffset, strOffset + strSize, []⟩

/-- The comparisons of `GetInfoFromCache`. -/
def compare (symbols : List SymInfo) (addr : BitVec 64) (current : Nat) : Ordering :=
  let info := symbols.getD current ⟨0, 0, 0⟩
  if addr < info.startOffset then .lt else if addr < info.endOffset then .eq else .gt

/-- `GetInfoFromCache`. -/
def getInfoFromCache (s : Symbols) (addr : BitVec 64) : Option SymInfo :=
  BinarySearch.pick (compare s.symbols addr) s.symbols

/-- `Info` of an entry. -/
def infoOf (s : Symbols) (loadBias : BitVec 64) (entry : Sym) : SymInfo where
  startOffset := entry.startOffset loadBias
  endOffset := entry.startOffset loadBias + entry.stSize
  strOffset := s.strOffset + entry.stName

/-- `elf_memory->ReadString(info->str_offset, name, str_end_ - info->str_offset)`, with the offset in the
function. -/
def readName (s : Symbols) (memory : Memory) (addr : BitVec 64) (info : SymInfo) : Option (Bytes × BitVec 64) :=
  (memory.readString info.strOffset (s.strEnd - info.strOffset).toNat).map (·, addr - info.startOffset)

/-- `std::sort` of the symbols. -/
def sort (s : Symbols) : Symbols :=
  { s with symbols := s.symbols.mergeSort fun a b => a.startOffset ≤ b.startOffset }

/-- The loop of `GetName`, and the sort behind it. An entry that cannot be read ends the call without it. -/
def scan (a : AddressType) (memory : Memory) (loadBias addr : BitVec 64) :
    Nat → Symbols → Bool → Option (Option (Bytes × BitVec 64) × Symbols)
  | 0, _, _ => none
  | turns + 1, s, symbolAdded =>
    if s.curOffset + s.entrySize ≤ s.end_ then
      match Sym.read a memory s.curOffset with
      | none => some (none, { s with curOffset := -1 })
      | some entry =>
        let s := { s with curOffset := s.curOffset + s.entrySize }
        if entry.isFunc then
          let info := s.infoOf loadBias entry
          let s := { s with symbols := s.symbols ++ [info] }
          if addr ≥ info.startOffset ∧ addr < info.endOffset then
            some (if info.strOffset < s.strEnd then s.readName memory addr info else none, s.sort)
          else scan a memory loadBias addr turns s true
        else scan a memory loadBias addr turns s symbolAdded
    else some (none, if symbolAdded then s.sort else s)

/-- `GetName`: the name, with the offset in the function. -/
def getName (a : AddressType) (memory : Memory) (loadBias : BitVec 64) (turns : Nat) (addr : BitVec 64)
    (s : Symbols) : Option (Option (Bytes × BitVec 64) × Symbols) :=
  match s.getInfoFromCache (addr + loadBias) with
  | some info => some (s.readName memory (addr + loadBias) info, s)
  | none => scan a memory loadBias (addr + loadBias) turns s false

end Symbols

end Dolin.Unwindstack
