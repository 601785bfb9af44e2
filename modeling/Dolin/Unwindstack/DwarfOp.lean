import Dolin.Unwindstack.RegsInfo

/-!
# DWARF expressions

`DwarfOp` of `DwarfOp.cpp`: the stack machine for the expressions of a frame's rules. Each operation has a
row in `kCallbackTable`: its handler, the number of values it needs on the stack and the encodings of its
operands. The front of `stack` is its top.

Where a handler would read the stack outside, shift by the width of an address or more, or leave the
range of the signed type, C++ says nothing; the handlers answer `undefined` there.
-/

namespace Dolin.Unwindstack

open Region

/-- The state of an evaluation. -/
structure DwarfOp (a : AddressType) where
  memory : DwarfMemory
  regularMemory : Memory
  regsInfo : RegsView a
  dexPcSet : Bool := false
  isRegister : Bool := false
  lastError : DwarfErrorData := {}
  curOp : UInt8 := 0
  operands : List (BitVec a.bits) := []
  stack : List (BitVec a.bits) := []

/-- The handlers of the operations. -/
inductive Handler where
  | deref | derefSize | push | dup | drop | over_ | pick | swap | rot
  | abs | and | div | minus | mod | mul | neg | not | or | plus | plusUconst | shl | shr | shra | xor
  | bra | eq | ge | gt | le | lt | ne | skip
  | lit | reg | regx | breg | bregx | nop | notImplemented
  deriving DecidableEq, Repr

/-- A row of `kCallbackTable`. -/
structure OpCallback where
  handleFunc : Handler
  numRequiredStackValues : Nat
  operands : List UInt8
  deriving DecidableEq, Repr

/-- `kCallbackTable`; `none` where there is no handler. -/
def kCallbackTable (op : UInt8) : Option OpCallback :=
  match op.toNat with
  | 0x03 => some ⟨.push, 0, [0x00]⟩
  | 0x06 => some ⟨.deref, 1, []⟩
  | 0x08 => some ⟨.push, 0, [0x0d]⟩
  | 0x09 => some ⟨.push, 0, [0x0e]⟩
  | 0x0a => some ⟨.push, 0, [0x02]⟩
  | 0x0b => some ⟨.push, 0, [0x0a]⟩
  | 0x0c => some ⟨.push, 0, [0x03]⟩
  | 0x0d => some ⟨.push, 0, [0x0b]⟩
  | 0x0e => some ⟨.push, 0, [0x04]⟩
  | 0x0f => some ⟨.push, 0, [0x0c]⟩
  | 0x10 => some ⟨.push, 0, [0x01]⟩
  | 0x11 => some ⟨.push, 0, [0x09]⟩
  | 0x12 => some ⟨.dup, 1, []⟩
  | 0x13 => some ⟨.drop, 1, []⟩
  | 0x14 => some ⟨.over_, 2, []⟩
  | 0x15 => some ⟨.pick, 0, [0x0d]⟩
  | 0x16 => some ⟨.swap, 2, []⟩
  | 0x17 => some ⟨.rot, 3, []⟩
  | 0x18 => some ⟨.notImplemented, 2, []⟩
  | 0x19 => some ⟨.abs, 1, []⟩
  | 0x1a => some ⟨.and, 2, []⟩
  | 0x1b => some ⟨.div, 2, []⟩
  | 0x1c => some ⟨.minus, 2, []⟩
  | 0x1d => some ⟨.mod, 2, []⟩
  | 0x1e => some ⟨.mul, 2, []⟩
  | 0x1f => some ⟨.neg, 1, []⟩
  | 0x20 => some ⟨.not, 1, []⟩
  | 0x21 => some ⟨.or, 2, []⟩
  | 0x22 => some ⟨.plus, 2, []⟩
  | 0x23 => some ⟨.plusUconst, 1, [0x01]⟩
  | 0x24 => some ⟨.shl, 2, []⟩
  | 0x25 => some ⟨.shr, 2, []⟩
  | 0x26 => some ⟨.shra, 2, []⟩
  | 0x27 => some ⟨.xor, 2, []⟩
  | 0x28 => some ⟨.bra, 1, [0x0a]⟩
  | 0x29 => some ⟨.eq, 2, []⟩
  | 0x2a => some ⟨.ge, 2, []⟩
  | 0x2b => some ⟨.gt, 2, []⟩
  | 0x2c => some ⟨.le, 2, []⟩
  | 0x2d => some ⟨.lt, 2, []⟩
  | 0x2e => some ⟨.ne, 2, []⟩
  | 0x2f => some ⟨.skip, 0, [0x0a]⟩
  | 0x90 => some ⟨.regx, 0, [0x01]⟩
  | 0x91 => some ⟨.notImplemented, 0, [0x09]⟩
  | 0x92 => some ⟨.bregx, 0, [0x01, 0x09]⟩
  | 0x93 => some ⟨.notImplemented, 0, [0x01]⟩
  | 0x94 => some ⟨.derefSize, 1, [0x0d]⟩
  | 0x95 => some ⟨.notImplemented, 0, [0x0d]⟩
  | 0x96 => some ⟨.nop, 0, []⟩
  | 0x97 => some ⟨.notImplemented, 0, []⟩
  | 0x98 => some ⟨.notImplemented, 0, [0x02]⟩
  | 0x99 => some ⟨.notImplemented, 0, [0x03]⟩
  | 0x9a => some ⟨.notImplemented, 0, []⟩
  | 0x9b => some ⟨.notImplemented, 0, []⟩
  | 0x9c => some ⟨.notImplemented, 0, []⟩
  | 0x9d => some ⟨.notImplemented, 0, [0x01, 0x01]⟩
  | 0x9e => some ⟨.notImplemented, 0, [0x01]⟩
  | 0x9f => some ⟨.notImplemented, 1, []⟩
  | op =>
    if 0x30 ≤ op ∧ op ≤ 0x4f then some ⟨.lit, 0, []⟩
    else if 0x50 ≤ op ∧ op ≤ 0x6f then some ⟨.reg, 0, []⟩
    else if 0x70 ≤ op ∧ op ≤ 0x8f then some ⟨.breg, 0, [0x09]⟩
    else none

namespace DwarfOp

variable {a : AddressType}

/-- What an operation leaves: the next state, or how it ended. -/
abbrev Outcome (a : AddressType) := Except Halt (DwarfOp a)

/-- The failure with a code. The address of the error stays as it was. -/
def fail (s : DwarfOp a) (code : DwarfErrorCode) : Outcome a :=
  .error (.error { s.lastError with code := code })

/-- The failure of a read at `address`. -/
def failAt (_s : DwarfOp a) (address : BitVec 64) : Outcome a :=
  .error (.error ⟨.memoryInvalid, address⟩)

/-- `OperandAt`. -/
def operandAt (s : DwarfOp a) (i : Nat) : BitVec a.bits := s.operands.getD i 0

/-- `stack_.push_front`. -/
def pushFront (s : DwarfOp a) (value : BitVec a.bits) : DwarfOp a := { s with stack := value :: s.stack }

/-- The top replaced by a value computed from it. -/
def unary (s : DwarfOp a) (f : BitVec a.bits → Except Halt (BitVec a.bits)) : Outcome a :=
  match s.stack with
  | x :: rest => (f x).map fun v => { s with stack := v :: rest }
  | _ => .error .undefined

/-- `StackPop`, then the new top replaced by a value computed from it and the one popped. -/
def binary (s : DwarfOp a) (f : BitVec a.bits → BitVec a.bits → Except Halt (BitVec a.bits)) : Outcome a :=
  match s.stack with
  | top :: x :: rest => (f x top).map fun v => { s with stack := v :: rest }
  | _ => .error .undefined

/-- `bool_to_dwarf_bool`. -/
def boolToDwarfBool (b : Bool) : BitVec a.bits := if b then 1 else 0

/-- A value of the signed type negated: the least one has no negative. -/
def negate (x : BitVec a.bits) : Except Halt (BitVec a.bits) :=
  if x = BitVec.intMin a.bits then .error .undefined else .ok (-x)

/-- A shift, by less than the width of the type. -/
def shift (f : BitVec a.bits → Nat → BitVec a.bits) (x top : BitVec a.bits) : Except Halt (BitVec a.bits) :=
  if top.toNat < a.bits then .ok (f x top.toNat) else .error .undefined

/-- `regs_info_->Get(reg) + offset`, pushed. -/
def pushRegister (s : DwarfOp a) (reg : Nat) (offset : BitVec a.bits) : Outcome a :=
  if reg ≥ s.regsInfo.total then s.fail .illegalValue
  else (s.regsInfo.get reg).map fun v => s.pushFront (v + offset)

/-- `op_deref` reads `size` bytes at the address on top. -/
def dereference (s : DwarfOp a) (size : Nat) : Outcome a :=
  match s.stack with
  | [] => .error .undefined
  | addr :: rest =>
    match s.regularMemory.readFully (addr.setWidth 64) size with
    | none => s.failAt (addr.setWidth 64)
    | some bs => .ok { s with stack := BitVec.ofNat a.bits (decodeLE bs) :: rest }

/-- The cursor moved by a 16-bit offset, forwards or backwards. -/
def jump (s : DwarfOp a) (f : BitVec 64 → BitVec 64 → BitVec 64) : DwarfOp a :=
  let offset := ((s.operandAt 0).setWidth 16).signExtend 64
  { s with memory := s.memory.setCurOffset (f s.memory.curOffset offset) }

/-- The handlers, in the order of `DwarfOp.cpp`. -/
def handle (s : DwarfOp a) : Handler → Outcome a
  | .deref => s.dereference a.size
  | .derefSize =>
    if (s.operandAt 0).toNat > a.size ∨ s.operandAt 0 = 0 then s.fail .illegalValue
    else s.dereference (s.operandAt 0).toNat
  | .push => .ok { s with stack := s.operands.reverse ++ s.stack }
  | .dup =>
    match s.stack with
    | x :: _ => .ok (s.pushFront x)
    | _ => .error .undefined
  | .drop =>
    match s.stack with
    | _ :: rest => .ok { s with stack := rest }
    | _ => .error .undefined
  | .over_ =>
    match s.stack with
    | _ :: x :: _ => .ok (s.pushFront x)
    | _ => .error .undefined
  | .pick =>
    -- The index that is one too large passes the check.
    if (s.operandAt 0).toNat > s.stack.length then s.fail .stackIndexNotValid
    else
      match s.stack[(s.operandAt 0).toNat]? with
      | some x => .ok (s.pushFront x)
      | none => .error .undefined
  | .swap =>
    match s.stack with
    | x :: y :: rest => .ok { s with stack := y :: x :: rest }
    | _ => .error .undefined
  | .rot =>
    match s.stack with
    | top :: y :: z :: rest => .ok { s with stack := y :: z :: top :: rest }
    | _ => .error .undefined
  | .abs => s.unary fun x => if x.toInt < 0 then negate x else .ok x
  | .and => s.binary fun x top => .ok (x &&& top)
  | .div => s.binary fun x top =>
    if top = 0 then .error (.error { s.lastError with code := .illegalValue })
    else if x = BitVec.intMin a.bits ∧ top = -1 then .error .undefined
    else .ok (x.sdiv top)
  | .minus => s.binary fun x top => .ok (x - top)
  | .mod => s.binary fun x top =>
    if top = 0 then .error (.error { s.lastError with code := .illegalValue }) else .ok (x % top)
  | .mul => s.binary fun x top => .ok (x * top)
  | .neg => s.unary negate
  | .not => s.unary fun x => .ok (~~~x)
  | .or => s.binary fun x top => .ok (x ||| top)
  | .plus => s.binary fun x top => .ok (x + top)
  | .plusUconst => s.unary fun x => .ok (x + s.operandAt 0)
  | .shl => s.binary (shift fun x n => x <<< n)
  | .shr => s.binary (shift fun x n => x >>> n)
  | .shra => s.binary (shift BitVec.sshiftRight)
  | .xor => s.binary fun x top => .ok (x ^^^ top)
  | .bra =>
    match s.stack with
    | top :: rest =>
      let s := { s with stack := rest }
      .ok (if top ≠ 0 then s.jump (· + ·) else s.jump (· - ·))
    | _ => .error .undefined
  | .eq => s.binary fun x top => .ok (boolToDwarfBool (x = top))
  | .ge => s.binary fun x top => .ok (boolToDwarfBool (x ≥ top))
  | .gt => s.binary fun x top => .ok (boolToDwarfBool (x > top))
  | .le => s.binary fun x top => .ok (boolToDwarfBool (x ≤ top))
  | .lt => s.binary fun x top => .ok (boolToDwarfBool (x < top))
  | .ne => s.binary fun x top => .ok (boolToDwarfBool (x ≠ top))
  | .skip => .ok (s.jump (· + ·))
  | .lit => .ok (s.pushFront (BitVec.ofNat a.bits (s.curOp.toNat - 0x30)))
  | .reg => .ok ({ s with isRegister := true }.pushFront (BitVec.ofNat a.bits (s.curOp.toNat - 0x50)))
  | .regx => .ok ({ s with isRegister := true }.pushFront (s.operandAt 0))
  | .breg => s.pushRegister (s.curOp.toNat - 0x70) (s.operandAt 0)
  | .bregx => s.pushRegister (s.operandAt 0).toNat (s.operandAt 1)
  | .nop => .ok s
  | .notImplemented => s.fail .notImplemented

/-- The operands of an operation, each read as it is encoded. -/
def readOperands (a : AddressType) : List UInt8 → Read (List (BitVec a.bits))
  | [] => Read.pure []
  | encoding :: rest => (DwarfMemory.readEncodedValue a encoding).andThen fun value =>
    (readOperands a rest).map fun values => value.setWidth a.bits :: values

/-- What a read from the section says about the evaluation. -/
def ofFault (address : BitVec 64) : Fault → Halt
  | .failed => .error ⟨.memoryInvalid, address⟩
  | .undefined => .undefined
  | .aborted => .aborted

/-- `Decode`. -/
def decode (s : DwarfOp a) : Outcome a :=
  let s := { s with lastError := { s.lastError with code := .none } }
  match DwarfMemory.readByte s.memory with
  | (.error fault, memory) => .error (ofFault memory.curOffset fault)
  | (.ok op, memory) =>
    let s := { s with memory := memory, curOp := op }
    match kCallbackTable op with
    | none => s.fail .illegalValue
    | some callback =>
      if s.stack.length < callback.numRequiredStackValues then s.fail .stackIndexNotValid
      else
        match readOperands a callback.operands s.memory with
        | (.error fault, memory) => .error (ofFault memory.curOffset fault)
        | (.ok operands, memory) => { s with memory := memory, operands := operands }.handle callback.handleFunc

/-- The loop of `Eval`, with the number of turns until the counter is at 1000. -/
def evalLoop (stop : BitVec 64) : Nat → DwarfOp a → Outcome a
  | left, s =>
    if s.memory.curOffset < stop then
      match s.decode with
      | .error halt => .error halt
      | .ok s =>
        match left with
        | 0 => s.fail .tooManyIterations
        | left + 1 => evalLoop stop left s
    else .ok s

/-- `Eval`. The first two operations are decoded outside the loop, to see the pair of operations that
marks a dex pc. -/
def eval (s : DwarfOp a) (start stop : BitVec 64) : Outcome a :=
  let s := { s with
    isRegister := false, stack := [], memory := s.memory.setCurOffset start, dexPcSet := false }
  if s.memory.curOffset < stop then
    match s.decode with
    | .error halt => .error halt
    | .ok s =>
      let checkForDrop := s.curOp = 0x0c ∧ s.operands.getLast? = some 0x31584544
      if s.memory.curOffset < stop then
        match s.decode with
        | .error halt => .error halt
        | .ok s =>
          let s := if checkForDrop ∧ s.curOp = 0x13 then { s with dexPcSet := true } else s
          evalLoop stop 998 s
      else .ok s
  else .ok s

end DwarfOp

end Dolin.Unwindstack
