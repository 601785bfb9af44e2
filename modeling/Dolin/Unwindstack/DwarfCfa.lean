import Dolin.Unwindstack.DwarfOp

/-!
# Call frame instructions

`DwarfCfa` of `DwarfCfa.cpp`. The instructions of an FDE describe, from the first address of a function
on, where the caller's registers are: some change a rule, some move on to a later address, and two keep
and bring back the rules on a stack. `GetLocationInfo` carries them out up to the address it is asked for,
and tells the range of addresses for which the rules hold.

The loop reads at least a byte in each turn, but the length of a block comes from the file and can take
the cursor back, so the loop need not end. It is given a number of turns and answers `none` where they
are not enough.
-/

namespace Dolin.Unwindstack

open Region

/-- `DwarfLocationEnum`. -/
inductive LocationType where
  | invalid
  | undefined
  | offset
  | valOffset
  | register
  | expression
  | valExpression
  deriving DecidableEq, Repr

/-- `DwarfLocation`: a rule. -/
structure DwarfLocation where
  type : LocationType
  value0 : BitVec 64 := 0
  value1 : BitVec 64 := 0
  deriving DecidableEq, Repr

/-- `CFA_REG`, the key of the rule for the frame's own address. -/
def cfaReg : Nat := 65535

/-- The rules by register: an `unordered_map<uint32_t, DwarfLocation>`. -/
abbrev Rules := Nat → Option DwarfLocation

/-- `(*loc_regs)[reg] = rule`, or `erase(reg)` for `none`. -/
def Rules.set (rules : Rules) (reg : Nat) (rule : Option DwarfLocation) : Rules :=
  fun r => if r = reg then rule else rules r

/-- `DwarfLocations`: rules, and the range of addresses for which they hold. -/
@[ext]
structure LocRegs where
  rules : Rules := fun _ => none
  pcStart : BitVec 64 := 0
  pcEnd : BitVec 64 := 0

/-- `DwarfCie`. -/
structure DwarfCie where
  version : UInt8 := 0
  fdeAddressEncoding : UInt8 := 0
  lsdaEncoding : UInt8 := 0
  segmentSize : UInt8 := 0
  augmentationString : Bytes := []
  personalityHandler : BitVec 64 := 0
  cfaInstructionsOffset : BitVec 64 := 0
  cfaInstructionsEnd : BitVec 64 := 0
  codeAlignmentFactor : BitVec 64 := 0
  dataAlignmentFactor : BitVec 64 := 0
  returnAddressRegister : BitVec 64 := 0
  deriving DecidableEq, Repr

/-- `DwarfFde`. -/
structure DwarfFde where
  cieOffset : BitVec 64 := 0
  cfaInstructionsOffset : BitVec 64 := 0
  cfaInstructionsEnd : BitVec 64 := 0
  pcStart : BitVec 64 := 0
  pcEnd : BitVec 64 := 0
  lsdaAddress : BitVec 64 := 0
  cie : DwarfCie := {}
  deriving DecidableEq, Repr

/-- The state of `GetLocationInfo`, with the rules that it is to fill in. -/
structure DwarfCfa (a : AddressType) where
  memory : DwarfMemory
  fde : DwarfFde
  curPc : BitVec a.bits := 0
  /-- The rules of the CIE, once they are known. -/
  cieLocRegs : Option LocRegs := none
  operands : List (BitVec a.bits) := []
  locRegState : List LocRegs := []
  locRegs : LocRegs := {}

/-- The handlers of the instructions that have a code of their own. -/
inductive CfaHandler where
  | nop | setLoc | advanceLoc | offset | restore | undefined | sameValue | register
  | rememberState | restoreState | defCfa | defCfaRegister | defCfaOffset | defCfaExpression
  | expression | offsetExtendedSf | defCfaSf | defCfaOffsetSf | valOffset | valOffsetSf | valExpression
  | gnuNegativeOffsetExtended
  deriving DecidableEq, Repr

/-- `kCallbackTable` with the operands of `DwarfCfaInfo::kTable`; `0x0f` is `DW_EH_PE_block`. -/
def cfaTable (low : Nat) : Option (CfaHandler × List UInt8) :=
  match low with
  | 0x00 => some (.nop, [])
  | 0x01 => some (.setLoc, [0x00])
  | 0x02 => some (.advanceLoc, [0x0d])
  | 0x03 => some (.advanceLoc, [0x02])
  | 0x04 => some (.advanceLoc, [0x03])
  | 0x05 => some (.offset, [0x01, 0x01])
  | 0x06 => some (.restore, [0x01])
  | 0x07 => some (.undefined, [0x01])
  | 0x08 => some (.sameValue, [0x01])
  | 0x09 => some (.register, [0x01, 0x01])
  | 0x0a => some (.rememberState, [])
  | 0x0b => some (.restoreState, [])
  | 0x0c => some (.defCfa, [0x01, 0x01])
  | 0x0d => some (.defCfaRegister, [0x01])
  | 0x0e => some (.defCfaOffset, [0x01])
  | 0x0f => some (.defCfaExpression, [0x0f])
  | 0x10 => some (.expression, [0x01, 0x0f])
  | 0x11 => some (.offsetExtendedSf, [0x01, 0x09])
  | 0x12 => some (.defCfaSf, [0x01, 0x09])
  | 0x13 => some (.defCfaOffsetSf, [0x09])
  | 0x14 => some (.valOffset, [0x01, 0x01])
  | 0x15 => some (.valOffsetSf, [0x01, 0x09])
  | 0x16 => some (.valExpression, [0x01, 0x0f])
  | 0x2e => some (.nop, [0x01])
  | 0x2f => some (.gnuNegativeOffsetExtended, [0x01, 0x01])
  | _ => none

namespace DwarfCfa

variable {a : AddressType}

/-- What an instruction leaves. -/
abbrev Outcome (a : AddressType) := Except Halt (DwarfCfa a)

/-- The failure with a code; `GetLocationInfo` has set the address to zero. -/
def fail (code : DwarfErrorCode) : Outcome a := .error (.error ⟨code, 0⟩)

/-- An operand. -/
def operandAt (s : DwarfCfa a) (i : Nat) : BitVec a.bits := s.operands.getD i 0

/-- An operand as a `uint64_t`. -/
def value (s : DwarfCfa a) (i : Nat) : BitVec 64 := (s.operandAt i).setWidth 64

/-- An operand as a key of the map. -/
def key (s : DwarfCfa a) (i : Nat) : Nat := (s.operandAt i).toNat % 2 ^ 32

/-- The rule of a register set, or erased. -/
def setRule (s : DwarfCfa a) (reg : Nat) (rule : Option DwarfLocation) : DwarfCfa a :=
  { s with locRegs := { s.locRegs with rules := s.locRegs.rules.set reg rule } }

/-- `cur_pc_ += delta * code_alignment_factor`. -/
def advance (s : DwarfCfa a) (delta : BitVec 64) : DwarfCfa a :=
  { s with curPc := s.curPc + (delta * s.fde.cie.codeAlignmentFactor).setWidth a.bits }

/-- `static_cast<SignedType>(n) * data_alignment_factor`, kept as a `SignedType` and then taken as a
`uint64_t`. The product is an `int64_t`. -/
def factored (s : DwarfCfa a) (n : BitVec a.bits) : Except Halt (BitVec 64) :=
  let product := n.toInt * s.fde.cie.dataAlignmentFactor.toInt
  if -2 ^ 63 ≤ product ∧ product < 2 ^ 63 then .ok ((BitVec.ofInt a.bits product).signExtend 64)
  else .error .undefined

/-- The rule of the CIE brought back for a register. -/
def restoreRule (s : DwarfCfa a) (reg : Nat) : Outcome a :=
  match s.cieLocRegs with
  | none => fail .illegalState
  | some cie => .ok (s.setRule reg (cie.rules reg))

/-- A rule for the frame's address that is a register, changed. -/
def changeCfa (s : DwarfCfa a) (f : DwarfLocation → DwarfLocation) : Outcome a :=
  match s.locRegs.rules cfaReg with
  | some rule =>
    if rule.type = .register then .ok (s.setRule cfaReg (some (f rule))) else fail .illegalState
  | none => fail .illegalState

/-- The handlers, in the order of `DwarfCfa.cpp`. -/
def handle (s : DwarfCfa a) : CfaHandler → Outcome a
  | .nop => .ok s
  | .setLoc => .ok { s with curPc := s.operandAt 0 }
  | .advanceLoc => .ok (s.advance (s.value 0))
  | .offset => .ok (s.setRule (s.key 0) (some { type := .offset, value0 := s.value 1 }))
  | .restore => s.restoreRule (s.key 0)
  | .undefined => .ok (s.setRule (s.key 0) (some { type := .undefined }))
  | .sameValue => .ok (s.setRule (s.key 0) none)
  | .register => .ok (s.setRule (s.key 0) (some { type := .register, value0 := s.value 1 }))
  | .rememberState => .ok { s with locRegState := s.locRegs :: s.locRegState }
  | .restoreState =>
    match s.locRegState with
    | [] => .ok s
    | top :: rest => .ok { s with locRegs := top, locRegState := rest }
  | .defCfa => .ok (s.setRule cfaReg (some ⟨.register, s.value 0, s.value 1⟩))
  | .defCfaRegister => s.changeCfa fun rule => { rule with value0 := s.value 0 }
  | .defCfaOffset => s.changeCfa fun rule => { rule with value1 := s.value 0 }
  | .defCfaExpression =>
    .ok (s.setRule cfaReg (some ⟨.valExpression, s.value 0, s.memory.curOffset⟩))
  | .expression => .ok (s.setRule (s.key 0) (some ⟨.expression, s.value 1, s.memory.curOffset⟩))
  | .offsetExtendedSf => (s.factored (s.operandAt 1)).map fun v =>
    s.setRule (s.key 0) (some { type := .offset, value0 := v })
  | .defCfaSf => (s.factored (s.operandAt 1)).map fun v =>
    s.setRule cfaReg (some ⟨.register, s.value 0, v⟩)
  | .defCfaOffsetSf =>
    match s.locRegs.rules cfaReg with
    | some rule =>
      if rule.type = .register then
        (s.factored (s.operandAt 0)).map fun v => s.setRule cfaReg (some { rule with value1 := v })
      else fail .illegalState
    | none => fail .illegalState
  | .valOffset | .valOffsetSf => (s.factored (s.operandAt 1)).map fun v =>
    s.setRule (s.key 0) (some { type := .valOffset, value0 := v })
  | .valExpression => .ok (s.setRule (s.key 0) (some ⟨.valExpression, s.value 1, s.memory.curOffset⟩))
  | .gnuNegativeOffsetExtended =>
    (DwarfOp.negate (s.operandAt 1)).map fun v =>
      s.setRule (s.key 0) (some { type := .offset, value0 := v.signExtend 64 })

/-- The operands of an instruction. A block is passed over; its operand is its length. -/
def readOperands (a : AddressType) : List UInt8 → Read (List (BitVec a.bits))
  | [] => Read.pure []
  | 0x0f :: rest => DwarfMemory.readULEB128.andThen fun length d =>
    (readOperands a rest).map (length.setWidth a.bits :: ·) (d.setCurOffset (d.curOffset + length))
  | encoding :: rest => (DwarfMemory.readEncodedValue a encoding).andThen fun value =>
    (readOperands a rest).map (value.setWidth a.bits :: ·)

/-- A read from the section, with what follows it. -/
def reading {α : Type} (s : DwarfCfa a) (r : Read α) (f : α → DwarfCfa a → Outcome a) : Outcome a :=
  match r s.memory with
  | (.error fault, memory) => .error (DwarfOp.ofFault memory.curOffset fault)
  | (.ok v, memory) => f v { s with memory := memory }

/-- One turn of the loop: an instruction is read and carried out. -/
def process (s : DwarfCfa a) : Outcome a :=
  let s := { s with locRegs := { s.locRegs with pcStart := s.curPc.setWidth 64 }, operands := [] }
  s.reading DwarfMemory.readByte fun cfaValue s =>
    let cfaLow := cfaValue.toNat % 0x40
    match cfaValue.toNat / 0x40 with
    | 1 => .ok (s.advance (BitVec.ofNat 64 cfaLow))
    | 2 => s.reading DwarfMemory.readULEB128 fun offset s =>
      (s.factored (offset.setWidth a.bits)).map fun v =>
        s.setRule cfaLow (some { type := .offset, value0 := v })
    | 3 => s.restoreRule cfaLow
    | _ =>
      match cfaTable cfaLow with
      | none => fail .illegalValue
      | some (handler, encodings) => s.reading (readOperands a encodings) fun operands s =>
        { s with operands := operands }.handle handler

/-- The loop of `GetLocationInfo`. -/
def loop (pc endOffset : BitVec 64) : Nat → DwarfCfa a → Option (Outcome a)
  | 0, _ => none
  | turns + 1, s =>
    if pc < s.curPc.setWidth 64 then
      some (.ok { s with locRegs := { s.locRegs with pcEnd := s.curPc.setWidth 64 } })
    else if endOffset ≤ s.memory.curOffset then
      some (.ok { s with locRegs := { s.locRegs with pcEnd := s.fde.pcEnd } })
    else
      match s.process with
      | .error halt => some (.error halt)
      | .ok s => loop pc endOffset turns s

/-- The state in which the loop starts: the rules of the CIE laid over those that are there. -/
def start (s : DwarfCfa a) (startOffset : BitVec 64) : DwarfCfa a :=
  let rules := match s.cieLocRegs with
    | none => s.locRegs.rules
    | some cie => fun reg => (cie.rules reg).or (s.locRegs.rules reg)
  let pcStart := s.fde.pcStart.setWidth a.bits
  { s with
    memory := s.memory.setCurOffset startOffset
    curPc := pcStart
    locRegs := { s.locRegs with rules := rules, pcStart := pcStart.setWidth 64 } }

/-- `GetLocationInfo`. -/
def getLocationInfo (s : DwarfCfa a) (turns : Nat) (pc startOffset endOffset : BitVec 64) :
    Option (Outcome a) :=
  loop pc endOffset turns (s.start startOffset)

end DwarfCfa

end Dolin.Unwindstack
