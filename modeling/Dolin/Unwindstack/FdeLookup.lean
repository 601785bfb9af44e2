import Dolin.Base.BinarySearch
import Dolin.Unwindstack.DwarfStep

/-!
# The FDE for an address

`GetFdeOffsetFromPc` and `GetFdeFromPc` of `DwarfSection.cpp`, over the sorted list of a section that has
no table of its own, and the lookup of `DwarfEhFrameWithHdr.cpp` in the table of an `.eh_frame_hdr`, whose
entries are read when they are first looked at.
-/

namespace Dolin.Unwindstack

variable {a : AddressType}

/-! ## `DwarfSectionImpl` -/

/-- `DwarfSectionImpl::FdeInfo`. -/
structure FdeInfo (a : AddressType) where
  offset : BitVec 64
  start : BitVec a.bits
  end_ : BitVec a.bits
  deriving DecidableEq

namespace DwarfSectionImpl

/-- `fdes_[current]` of a list that is not shorter. -/
def infoAt (fdes : List (FdeInfo a)) (current : Nat) : FdeInfo a := fdes.getD current ⟨0, 0, 0⟩

/-- The comparisons of `GetFdeOffsetFromPc`. The end of a range belongs to it. -/
def compare (fdes : List (FdeInfo a)) (pc : BitVec 64) (current : Nat) : Ordering :=
  let info := infoAt fdes current
  if pc ≥ info.start.setWidth 64 ∧ pc ≤ info.end_.setWidth 64 then .eq
  else if pc < info.start.setWidth 64 then .lt
  else .gt

/-- `GetFdeOffsetFromPc`. -/
def getFdeOffsetFromPc (fdes : List (FdeInfo a)) (pc : BitVec 64) : Option (BitVec 64) :=
  match BinarySearch.search (compare fdes pc) fdes.length 0 fdes.length with
  | .found current => some (infoAt fdes current).offset
  | .before _ => none

end DwarfSectionImpl

/-- `DwarfSection::GetFdeFromPc`, given what the section's `GetFdeOffsetFromPc` and `GetFdeFromOffset`
answer. `Step` has cleared the error code. -/
def DwarfSection.getFdeFromPcOf (fdeOffset : Option (BitVec 64))
    (getFdeFromOffset : BitVec 64 → Except Halt DwarfFde) (pc : BitVec 64) : Except Halt DwarfFde :=
  match fdeOffset with
  | none => DwarfSection.fail .none
  | some offset =>
    match getFdeFromOffset offset with
    | .error halt => .error halt
    | .ok fde => if pc < fde.pcEnd then .ok fde else DwarfSection.fail .illegalState

/-! ## `DwarfEhFrameWithHdr` -/

/-- `DwarfEhFrameWithHdr::FdeInfo`. -/
structure HdrInfo (a : AddressType) where
  pc : BitVec a.bits
  offset : BitVec 64
  deriving DecidableEq

/-- `DwarfEhFrameWithHdr`. -/
structure DwarfEhFrameWithHdr (a : AddressType) where
  memory : DwarfMemory
  version : UInt8
  ptrEncoding : UInt8
  tableEncoding : UInt8
  tableEntrySize : Nat
  ptrOffset : BitVec 64
  fdeCount : BitVec 64
  entriesOffset : BitVec 64
  entriesEnd : BitVec 64
  entriesDataOffset : BitVec 64
  curEntriesOffset : BitVec 64
  fdeInfo : List (Nat × HdrInfo a) := []

namespace DwarfEhFrameWithHdr

/-- A read, with what its failure is for the section. -/
def checked {α : Type} (r : Read α) (memory : DwarfMemory) : Except Halt (α × DwarfMemory) :=
  match r memory with
  | (.error fault, memory) => .error (DwarfOp.ofFault memory.curOffset fault)
  | (.ok v, memory) => .ok (v, memory)

/-- `set_pc_offset(cur_offset())`. -/
def markPc (memory : DwarfMemory) : DwarfMemory := { memory with pcOffset := memory.curOffset }

/-- `Init`. -/
def init (a : AddressType) (memory : DwarfMemory) (offset size : BitVec 64) :
    Except Halt (DwarfEhFrameWithHdr a) := do
  let memory := { memory with funcOffset := -1, textOffset := -1, dataOffset := offset, curOffset := offset }
  let (data, memory) ← checked (DwarfMemory.readBytes 4) memory
  let version := data.getD 0 0
  if version ≠ 1 then DwarfSection.fail .unsupportedVersion
  else
    let ptrEncoding := data.getD 1 0
    let fdeCountEncoding := data.getD 2 0
    let tableEncoding := data.getD 3 0
    let (ptrOffset, memory) ← checked (DwarfMemory.readEncodedValue a ptrEncoding) (markPc memory)
    let (fdeCount, memory) ← checked (DwarfMemory.readEncodedValue a fdeCountEncoding) (markPc memory)
    if fdeCount = 0 then DwarfSection.fail .noFdes
    else
      .ok
        { memory, version, ptrEncoding, tableEncoding
          tableEntrySize := DwarfMemory.getEncodedSize a tableEncoding
          ptrOffset, fdeCount
          entriesOffset := memory.curOffset
          entriesEnd := offset + size
          entriesDataOffset := offset
          curEntriesOffset := memory.curOffset }

/-- The memory with its cursor at an entry of the table. The place of the entry is a `size_t`. -/
def entryMemory (h : DwarfEhFrameWithHdr a) (index : Nat) : DwarfMemory :=
  markPc
    { h.memory with
      dataOffset := h.entriesDataOffset
      curOffset := h.entriesOffset +
        BitVec.ofNat 64 (2 * index * h.tableEntrySize % h.memory.abi.modulus) }

/-- An entry of the table: an address and the offset of an FDE. -/
def readEntry (a : AddressType) (tableEncoding : UInt8) : Read (HdrInfo a) :=
  (DwarfMemory.readEncodedValue a tableEncoding).andThen fun value =>
    (DwarfMemory.readEncodedValue a tableEncoding).map fun offset => ⟨value.setWidth a.bits, offset⟩

/-- `GetFdeInfoFromIndex`. -/
def getFdeInfoFromIndex (index : Nat) (h : DwarfEhFrameWithHdr a) :
    Except Halt (HdrInfo a) × DwarfEhFrameWithHdr a :=
  match h.fdeInfo.lookup index with
  | some info => (.ok info, h)
  | none =>
    match readEntry a h.tableEncoding (h.entryMemory index) with
    | (.error fault, memory) => (.error (DwarfOp.ofFault memory.curOffset fault), { h with memory := memory })
    | (.ok info, memory) => (.ok info, { h with memory := memory, fdeInfo := (index, info) :: h.fdeInfo })

/-- The comparisons of `GetFdeOffsetBinary`. -/
def compare (pc : BitVec 64) (current : Nat) (h : DwarfEhFrameWithHdr a) :
    Except Halt Ordering × DwarfEhFrameWithHdr a :=
  match getFdeInfoFromIndex current h with
  | (.error halt, h) => (.error halt, h)
  | (.ok info, h) =>
    (.ok (if pc = info.pc.setWidth 64 then .eq else if pc < info.pc.setWidth 64 then .lt else .gt), h)

end DwarfEhFrameWithHdr

end Dolin.Unwindstack
