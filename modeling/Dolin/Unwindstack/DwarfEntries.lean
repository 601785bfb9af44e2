import Dolin.Unwindstack.FdeLookup

/-!
# The entries of an `.eh_frame`

`FillInCie`, `FillInFde` and `CreateSortedFdeList` of `DwarfSection.cpp`, with the offsets of
`DwarfEhFrame.h`. A section is a row of entries, each with its length: CIEs, and FDEs that point back to
one. The list of its FDEs is made by a scan that reads only what it needs (`GetCieInfo`, `AddFdeInfo`); an
FDE is read in full, with its CIE, when it is asked for.

The loops end at a byte that they look for. They are given a number of turns, and there is no result where
it is not enough. What `cie_entries_` and `fde_entries_` keep is what is read at their offsets.
-/

namespace Dolin.Unwindstack

open Region

/-- A computation at the cursor of a section. `none` stands for turns that are not enough. -/
abbrev Parse (α : Type) := StateT DwarfMemory (ExceptT Halt Option) α

namespace Parse

variable {α : Type}

/-- A read that has to succeed. -/
def read (r : Read α) : Parse α := fun d =>
  match r d with
  | (.error fault, d) => some (.error (DwarfOp.ofFault d.curOffset fault))
  | (.ok v, d) => some (.ok (v, d))

/-- The failure with a code. -/
def fail (code : DwarfErrorCode) : Parse α := fun _ => some (.error (.error ⟨code, 0⟩))

/-- Undefined behaviour. -/
def undefined : Parse α := fun _ => some (.error .undefined)

/-- The turns are not enough. -/
def stuck : Parse α := fun _ => none

/-- `cur_offset`. -/
def curOffset : Parse (BitVec 64) := fun d => some (.ok (d.curOffset, d))

/-- `set_cur_offset`. -/
def setCurOffset (offset : BitVec 64) : Parse Unit := fun d => some (.ok ((), d.setCurOffset offset))

/-- `set_cur_offset(cur_offset() + n)`. -/
def skip (n : Nat) : Parse Unit := fun d => some (.ok ((), d.skip n))

end Parse

namespace DwarfEhFrame

open DwarfMemory Parse

variable (a : AddressType)

/-- The beginning of an entry: whether it is a 64-bit one, where it ends, and what it is: zero for a CIE,
and the way back to its CIE for an FDE. -/
structure Head where
  wide : Bool
  end_ : BitVec 64
  id : BitVec 64
  deriving DecidableEq

/-- The reads with which `FillInCie`, `FillInFde` and the loop of `CreateSortedFdeList` begin. -/
def readHead : Parse Head := do
  let length32 ← read (readUnsigned 4)
  if length32 = 0xffffffff then
    let length64 ← read (readUnsigned 8)
    let offset ← curOffset
    let id ← read (readUnsigned 8)
    pure ⟨true, offset + length64, id⟩
  else
    let offset ← curOffset
    let id ← read (readUnsigned 4)
    pure ⟨false, offset + length32, id⟩

/-- `DW_EH_PE_sdata8` or `DW_EH_PE_sdata4`. -/
def Head.addressEncoding (head : Head) : UInt8 := if head.wide then 0x0c else 0x0b

/-- `GetCieOffsetFromFde64` or `GetCieOffsetFromFde32`. -/
def Head.cieOffset (head : Head) (curOffset : BitVec 64) : BitVec 64 :=
  curOffset - head.id - if head.wide then 8 else 4

/-- `AdjustPcFromFde`. -/
def adjustPcFromFde (pc : BitVec 64) : Parse (BitVec 64) := do
  let offset ← curOffset
  pure (pc + offset - 4)

/-- The augmentation string, with the zero at its end. -/
def readAugmentation : Nat → Parse Bytes
  | 0 => stuck
  | turns + 1 => do
    let value ← read readByte
    if value = 0 then pure [value]
    else
      let rest ← readAugmentation turns
      pure (value :: rest)

/-- `'z'`, `'L'`, `'P'` and `'R'`. -/
def chZ : UInt8 := 0x7a
def chL : UInt8 := 0x4c
def chP : UInt8 := 0x50
def chR : UInt8 := 0x52

/-- The loop of `FillInCie` over the augmentation string. -/
def readAugmentationData (cie : DwarfCie) : Bytes → Parse DwarfCie
  | [] => pure cie
  | c :: cs => do
    if c = chL then
      let lsdaEncoding ← read readByte
      readAugmentationData { cie with lsdaEncoding := lsdaEncoding } cs
    else if c = chP then
      let encoding ← read readByte
      let personalityHandler ← read (readEncodedValue a encoding)
      readAugmentationData { cie with personalityHandler := personalityHandler } cs
    else if c = chR then
      let fdeAddressEncoding ← read readByte
      readAugmentationData { cie with fdeAddressEncoding := fdeAddressEncoding } cs
    else readAugmentationData cie cs

/-- The size of a segment selector, behind the size of an address; only version 4 has them. -/
def readSegmentSize (version : UInt8) : Parse UInt8 :=
  if version = 4 then do
    skip 1
    read readByte
  else pure 0

/-- The number of the return address register: a byte in version 1. -/
def readReturnAddressRegister (version : UInt8) : Parse (BitVec 64) :=
  if version = 1 then read (readByte.map fun register => BitVec.ofNat 64 register.toNat)
  else read readULEB128

/-- `FillInCie` behind the head of the entry. -/
def fillInCieBody (turns : Nat) (cie : DwarfCie) : Parse DwarfCie := do
  let version ← read readByte
  if version ≠ 1 ∧ version ≠ 3 ∧ version ≠ 4 then fail .unsupportedVersion
  else
    let augmentationString ← readAugmentation turns
    let segmentSize ← readSegmentSize version
    let codeAlignmentFactor ← read readULEB128
    let dataAlignmentFactor ← read readSLEB128
    let returnAddressRegister ← readReturnAddressRegister version
    let cie :=
      { cie with
        version, augmentationString, segmentSize, codeAlignmentFactor, dataAlignmentFactor,
        returnAddressRegister }
    if augmentationString.headD 0 ≠ chZ then
      let offset ← curOffset
      pure { cie with cfaInstructionsOffset := offset }
    else
      let augLength ← read readULEB128
      let offset ← curOffset
      readAugmentationData a { cie with cfaInstructionsOffset := offset + augLength } augmentationString.tail

/-- `FillInCie`. -/
def fillInCie (turns : Nat) : Parse DwarfCie := do
  let head ← readHead
  if head.id ≠ 0 then fail .illegalValue
  else
    fillInCieBody a turns
      { lsdaEncoding := 0xff, cfaInstructionsEnd := head.end_, fdeAddressEncoding := head.addressEncoding }

/-- The addresses of an FDE, where they stand: its start, adjusted, and its length. -/
def readRange (encoding : UInt8) : Parse (BitVec 64 × BitVec 64) := do
  let start ← read (readEncodedValue a (encoding &&& 0xf))
  let start ← adjustPcFromFde start
  let length ← read (readEncodedValue a (encoding &&& 0xf))
  pure (start, length)

/-- The augmentation of an FDE: the address of its language-specific data, where its CIE has a `z`. -/
def readLsda (cie : DwarfCie) : Parse (BitVec 64) :=
  if cie.augmentationString.headD 0 = chZ then do
    let augLength ← read readULEB128
    let offset ← curOffset
    let lsdaAddress ← read (readEncodedValue a cie.lsdaEncoding)
    setCurOffset (offset + augLength)
    pure lsdaAddress
  else pure 0

/-- `FillInFde`. -/
def fillInFde (turns : Nat) : Parse DwarfFde := do
  let head ← readHead
  if head.id = 0 then fail .illegalValue
  else
    let offset ← curOffset
    let cieOffset := head.cieOffset offset
    setCurOffset cieOffset
    let cie ← fillInCie a turns
    setCurOffset (offset + BitVec.ofNat 64 cie.segmentSize.toNat)
    let (pcStart, length) ← readRange a cie.fdeAddressEncoding
    let lsdaAddress ← readLsda a cie
    let cfaInstructionsOffset ← curOffset
    pure
      { cieOffset, cfaInstructionsOffset, cfaInstructionsEnd := head.end_, pcStart, pcEnd := length + pcStart,
        lsdaAddress, cie }

/-- `GetFdeFromOffset`. -/
def getFdeFromOffset (turns : Nat) (offset : BitVec 64) : Parse DwarfFde := do
  setCurOffset offset
  fillInFde a turns

/-! ## The scan -/

/-- A loop that passes over a LEB128 number. -/
def skipLEB128 : Nat → Parse Unit
  | 0 => stuck
  | turns + 1 => do
    let value ← read readByte
    if value &&& 0x80 ≠ 0 then skipLEB128 turns else pure ()

/-- The loop of `GetCieInfo` over the augmentation string, up to the encoding. -/
def findEncoding : Bytes → Parse UInt8
  | [] => fun _ => some (.error .aborted)
  | c :: cs => do
    if c = chR then read readByte
    else if c = chL then
      skip 1
      findEncoding cs
    else if c = chP then
      let encoding ← read readByte
      let _ ← read (readEncodedValue a encoding)
      findEncoding cs
    else findEncoding cs

/-- The number of the return address register passed over. -/
def skipReturnAddressRegister (turns : Nat) (version : UInt8) : Parse Unit :=
  if version = 1 then skip 1 else skipLEB128 turns

/-- `GetCieInfo`: the size of a segment, and the encoding of the addresses, which is `encoding` where the
CIE names none. -/
def getCieInfo (turns : Nat) (encoding : UInt8) : Parse (UInt8 × UInt8) := do
  let version ← read readByte
  let augString ← readAugmentation turns
  let segmentSize ← readSegmentSize version
  if augString.headD 0 ≠ chZ ∨ chR ∉ augString then pure (segmentSize, encoding)
  else
    skipLEB128 turns
    skipLEB128 turns
    skipReturnAddressRegister turns version
    skipLEB128 turns
    let encoding ← findEncoding a augString.tail
    pure (segmentSize, encoding)

/-- `AddFdeInfo`. -/
def addFdeInfo (entryOffset : BitVec 64) (segmentSize encoding : UInt8) : Parse (List (FdeInfo a)) := do
  skip (if segmentSize ≠ 0 then 1 else 0)
  let (start, length) ← readRange a encoding
  if length ≠ 0 then pure [⟨entryOffset, start.setWidth a.bits, (start + length).setWidth a.bits⟩]
  else pure []

/-- What the scan knows of the CIE that it met last; nothing before the first. -/
structure LastCie where
  offset : BitVec 64
  segmentSize : UInt8
  encoding : UInt8
  deriving DecidableEq

/-- An entry of the scan: the last CIE, and the FDE that it adds. -/
def scanEntry (turns : Nat) (last : Option LastCie) : Parse (Head × Option LastCie × List (FdeInfo a)) := do
  let entryOffset ← curOffset
  let head ← readHead
  if head.id = 0 then
    let (segmentSize, encoding) ← getCieInfo a turns head.addressEncoding
    pure (head, some ⟨entryOffset, segmentSize, encoding⟩, [])
  else
    let offset ← curOffset
    -- Before the first CIE its offset is taken for zero, and the rest is not initialized.
    if head.cieOffset offset ≠ (last.map LastCie.offset).getD 0 then fail .illegalValue
    else
      match last with
      | none => undefined
      | some cie =>
        let infos ← addFdeInfo a entryOffset cie.segmentSize cie.encoding
        pure (head, some cie, infos)

/-- The loop of `CreateSortedFdeList`. -/
def scan (turns : Nat) (entriesEnd : BitVec 64) :
    Nat → Option LastCie → List (FdeInfo a) → Parse (List (FdeInfo a))
  | 0, _, _ => stuck
  | left + 1, last, fdes => do
    let offset ← curOffset
    if offset < entriesEnd then
      let (head, last, infos) ← scanEntry a turns last
      let offset ← curOffset
      if head.end_ < offset then pure (fdes ++ infos)
      else
        setCurOffset head.end_
        scan turns entriesEnd left last (fdes ++ infos)
    else pure fdes

/-- The order in which the list is sorted. -/
def precedes (x y : FdeInfo a) : Bool :=
  if x.start = y.start then decide (x.end_ ≤ y.end_) else decide (x.start < y.start)

/-- `Init`, with `CreateSortedFdeList`: the sorted list of the FDEs. -/
def init (memory : DwarfMemory) (turns : Nat) (offset size : BitVec 64) :
    Option (Except Halt (List (FdeInfo a) × DwarfMemory)) :=
  (do
    let fdes ← scan a turns (offset + size) turns none []
    pure (fdes.mergeSort (precedes a)))
    { memory with
      funcOffset := -1, textOffset := -1, dataOffset := offset, curOffset := offset, pcOffset := offset }

/-- `GetFdeFromPc` over the list of the section. -/
def getFdeFromPc (turns : Nat) (fdes : List (FdeInfo a)) (pc : BitVec 64) : Parse DwarfFde :=
  match DwarfSectionImpl.getFdeOffsetFromPc fdes pc with
  | none => fail .none
  | some offset => do
    let fde ← getFdeFromOffset a turns offset
    if pc < fde.pcEnd then pure fde else fail .illegalState

end DwarfEhFrame

end Dolin.Unwindstack
