import Dolin.Base.Leb128
import Dolin.Unwindstack.Memory

/-!
# Reading DWARF data

`DwarfMemory` of `DwarfMemory.cpp`: a cursor over a memory, with the offsets that relative pointers are
relative to. `-1` stands for an offset that is not set.

A read moves the cursor also where it fails, past the bytes that it had. Besides `false` there are two
ways to fail that C++ does not report: a shift of a 64-bit value by 64 or more, which is undefined, and
a `CHECK`, which ends the process.
-/

namespace Dolin.Unwindstack

open Region

/-- `AddressType`: the width of an address in the file that is read. -/
inductive AddressType where
  | uint32
  | uint64
  deriving DecidableEq, Repr

/-- The bits of an address. -/
def AddressType.bits : AddressType → Nat
  | uint32 => 32
  | uint64 => 64

/-- `sizeof(AddressType)`. -/
def AddressType.size : AddressType → Nat
  | uint32 => 4
  | uint64 => 8

/-- A cursor over a memory. `abi` is that of the code that reads. -/
structure DwarfMemory where
  memory : Memory
  abi : Abi
  curOffset : BitVec 64 := 0
  pcOffset : BitVec 64 := -1
  dataOffset : BitVec 64 := -1
  funcOffset : BitVec 64 := -1
  textOffset : BitVec 64 := -1

/-- How a read ends without a value: `false`, undefined behaviour, or a failed `CHECK`. -/
inductive Fault where
  | failed
  | undefined
  | aborted
  deriving DecidableEq, Repr

/-- A read at the cursor. -/
abbrev Read (α : Type) := DwarfMemory → Except Fault α × DwarfMemory

namespace Read

variable {α β : Type}

/-- A read that gives `a` and moves nothing. -/
def pure (a : α) : Read α := fun d => (.ok a, d)

/-- A read that fails. -/
def fail (fault : Fault) : Read α := fun d => (.error fault, d)

/-- One read after another. -/
def andThen (r : Read α) (f : α → Read β) : Read β := fun d =>
  match r d with
  | (.ok a, d') => f a d'
  | (.error fault, d') => (.error fault, d')

/-- The value of a read, converted. -/
def map (f : α → β) (r : Read α) : Read β := r.andThen fun a => pure (f a)

end Read

namespace DwarfMemory

/-- The cursor `n` bytes on. -/
def skip (d : DwarfMemory) (n : Nat) : DwarfMemory :=
  { d with curOffset := d.curOffset + BitVec.ofNat 64 n }

/-- `set_cur_offset`. -/
def setCurOffset (d : DwarfMemory) (offset : BitVec 64) : DwarfMemory := { d with curOffset := offset }

/-- `ReadBytes`. -/
def readBytes (n : Nat) : Read Bytes := fun d =>
  match d.memory.readFully d.curOffset n with
  | none => (.error .failed, d)
  | some bs => (.ok bs, d.skip n)

/-- An unsigned value of `n` bytes, least significant first. -/
def readUnsigned (n : Nat) : Read (BitVec 64) := (readBytes n).map fun bs => BitVec.ofNat 64 (decodeLE bs)

/-- `ReadSigned`, for a signed type of `n` bytes. -/
def readSigned (n : Nat) : Read (BitVec 64) :=
  (readBytes n).map fun bs => (BitVec.ofNat (8 * n) (decodeLE bs)).signExtend 64

/-- One byte. -/
def readByte : Read UInt8 := (readBytes 1).map fun bs => bs.headD 0

/-- The loop of `ReadULEB128` and `ReadSLEB128`, which leaves the value so far, the shift and the last
byte. `left` is how often the value can still be shifted by less than 64. -/
def readLEB128 : Nat → BitVec 64 → Nat → Read (BitVec 64 × Nat × UInt8)
  | 0, _, _ => readByte.andThen fun _ => Read.fail .undefined
  | left + 1, curValue, shift => readByte.andThen fun byte =>
    let curValue := curValue + BitVec.ofNat 64 (byte &&& 0x7f).toNat <<< shift
    if byte &&& 0x80 ≠ 0 then readLEB128 left curValue (shift + 7)
    else Read.pure (curValue, shift + 7, byte)

/-- `ReadULEB128`. The shifts below 64 are 0, 7, ..., 63. -/
def readULEB128 : Read (BitVec 64) := (readLEB128 10 0 0).map Prod.fst

/-- `ReadSLEB128`. A negative value is extended by a shift of `-1`. -/
def readSLEB128 : Read (BitVec 64) :=
  (readLEB128 10 0 0).andThen fun (curValue, shift, byte) =>
    if byte &&& 0x40 ≠ 0 then
      if shift < 64 then Read.pure (curValue ||| (-1 : BitVec 64) <<< shift) else Read.fail .undefined
    else Read.pure curValue

/-- `DW_EH_PE_absptr` to `DW_EH_PE_sdata1`: the form of an encoded value. -/
inductive Format where
  | absptr
  | uleb128
  | udata1
  | udata2
  | udata4
  | udata8
  | sleb128
  | sdata1
  | sdata2
  | sdata4
  | sdata8
  deriving DecidableEq, Repr

/-- The form that the low four bits of an encoding name. -/
def format (encoding : UInt8) : Option Format :=
  match (encoding &&& 0x0f).toNat with
  | 0x00 => some .absptr
  | 0x01 => some .uleb128
  | 0x02 => some .udata2
  | 0x03 => some .udata4
  | 0x04 => some .udata8
  | 0x09 => some .sleb128
  | 0x0a => some .sdata2
  | 0x0b => some .sdata4
  | 0x0c => some .sdata8
  | 0x0d => some .udata1
  | 0x0e => some .sdata1
  | _ => none

/-- `GetEncodedSize`. -/
def getEncodedSize (address : AddressType) (encoding : UInt8) : Nat :=
  match format encoding with
  | some .absptr => address.size
  | some .udata1 | some .sdata1 => 1
  | some .udata2 | some .sdata2 => 2
  | some .udata4 | some .sdata4 => 4
  | some .udata8 | some .sdata8 => 8
  | some .uleb128 | some .sleb128 | none => 0

/-- A value relative to an offset, which has to be set. -/
def relativeTo (offset value : BitVec 64) : Read (BitVec 64) :=
  if offset = -1 then Read.fail .failed else Read.pure (value + offset)

/-- `AdjustEncodedValue`, for the bits `0x70` of an encoding. -/
def adjustEncodedValue (encoding : UInt8) (value : BitVec 64) : Read (BitVec 64) := fun d =>
  match (encoding &&& 0x70).toNat with
  | 0x00 => Read.pure value d
  | 0x10 => relativeTo d.pcOffset value d
  | 0x20 => relativeTo d.textOffset value d
  | 0x30 => relativeTo d.dataOffset value d
  | 0x40 => relativeTo d.funcOffset value d
  | 0x50 => Read.fail .aborted d
  | _ => Read.fail .failed d

/-- The data of a value of one form. -/
def readFormat (address : AddressType) : Format → Read (BitVec 64)
  | .absptr => readUnsigned address.size
  | .uleb128 => readULEB128
  | .sleb128 => readSLEB128
  | .udata1 => readUnsigned 1
  | .sdata1 => readSigned 1
  | .udata2 => readUnsigned 2
  | .sdata2 => readSigned 2
  | .udata4 => readUnsigned 4
  | .sdata4 => readSigned 4
  | .udata8 => readUnsigned 8
  | .sdata8 => readSigned 8

/-- The cursor moved up to a multiple of the size of an address. The mask is a `size_t`: on a 32-bit
build it clears the upper half too. -/
def align (address : AddressType) : Read Unit := fun d =>
  let sum := d.curOffset + BitVec.ofNat 64 (address.size - 1)
  if d.curOffset.toNat + (address.size - 1) < 2 ^ 64 then
    (.ok (), d.setCurOffset (sum &&& BitVec.ofNat 64 (d.abi.modulus - address.size)))
  else (.error .failed, d.setCurOffset sum)

/-- `ReadEncodedValue`. -/
def readEncodedValue (address : AddressType) (encoding : UInt8) : Read (BitVec 64) :=
  if encoding = 0xff then Read.pure 0
  else if encoding = 0x50 then (align address).andThen fun _ => readUnsigned address.size
  else
    match format encoding with
    | none => Read.fail .failed
    | some form => (readFormat address form).andThen (adjustEncodedValue encoding)

end DwarfMemory

end Dolin.Unwindstack
