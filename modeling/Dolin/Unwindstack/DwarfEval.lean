import Dolin.Unwindstack.DwarfCfa

/-!
# The registers of the calling frame

`Eval`, `EvalRegister` and `EvalExpression` of `DwarfSection.cpp`. The rules of a frame are carried out one
after the other on the registers themselves, in the order in which the `unordered_map` is walked; each
register is saved before it is assigned.

Every use of the section's memory sets its cursor first, so that the cursor an expression leaves is not
kept here.
-/

namespace Dolin.Unwindstack

open Region

namespace Regs

variable {a : AddressType}

/-- `set_pc`. -/
def setPc (r : Regs a) (value : BitVec a.bits) : Regs a := r.set r.pcReg value

/-- `pc()`. -/
def pc (r : Regs a) : BitVec a.bits := r.get r.pcReg

/-- `set_sp`. -/
def setSp (r : Regs a) (value : BitVec a.bits) : Regs a := r.set r.spReg value

end Regs

/-- `EvalInfo`, with the registers that its `regs_info` points to. -/
structure EvalInfo (a : AddressType) where
  cie : DwarfCie
  regularMemory : Memory
  cfa : BitVec a.bits
  returnAddressUndefined : Bool := false
  regsInfo : RegsInfo a := { savedRegs := fun _ => 0 }
  regs : Regs a

namespace DwarfSection

variable {a : AddressType}

/-- The failure with a code. -/
def fail {α : Type} (code : DwarfErrorCode) : Except Halt α := .error (.error ⟨code, 0⟩)

/-- `EvalExpression`: the value, and whether it is a dex pc. -/
def evalExpression (memory : DwarfMemory) (loc : DwarfLocation) (regularMemory : Memory)
    (regsInfo : RegsView a) : Except Halt (BitVec a.bits × Bool) :=
  let op : DwarfOp a := { memory, regularMemory, regsInfo }
  match op.eval (loc.value1 - loc.value0) loc.value1 with
  | .error halt => .error halt
  | .ok op =>
    match op.stack with
    | [] => fail .illegalState
    | top :: _ => if op.isRegister then fail .notImplemented else .ok (top, op.dexPcSet)

/-- A word of the process, as an address. -/
def readAddress (a : AddressType) (memory : Memory) (addr : BitVec 64) : Except Halt (BitVec a.bits) :=
  match memory.readFully addr a.size with
  | none => .error (.error ⟨.memoryInvalid, addr⟩)
  | some bs => .ok (BitVec.ofNat a.bits (decodeLE bs))

/-- `*reg_ptr = value`. -/
def assign (info : EvalInfo a) (reg : Nat) (value : BitVec a.bits) : EvalInfo a :=
  { info with regs := info.regs.set reg value }

/-- `EvalRegister`. -/
def evalRegister (memory : DwarfMemory) (loc : DwarfLocation) (reg : Nat) (info : EvalInfo a) :
    Except Halt (EvalInfo a) :=
  match loc.type with
  | .offset =>
    (readAddress a info.regularMemory (info.cfa.setWidth 64 + loc.value0)).map (assign info reg)
  | .valOffset => .ok (assign info reg ((info.cfa.setWidth 64 + loc.value0).setWidth a.bits))
  | .register =>
    let curReg := loc.value0.toNat % 2 ^ 32
    if curReg ≥ info.regs.total then fail .illegalValue
    else (info.regsInfo.get info.regs curReg).map fun value =>
      assign info reg ((value.setWidth 64 + loc.value1).setWidth a.bits)
  | .expression =>
    (evalExpression memory loc info.regularMemory (info.regsInfo.view info.regs)).bind fun (value, _) =>
      (readAddress a info.regularMemory (value.setWidth 64)).map (assign info reg)
  | .valExpression =>
    (evalExpression memory loc info.regularMemory (info.regsInfo.view info.regs)).map
      fun (value, isDexPc) =>
        let info := assign info reg value
        if isDexPc then { info with regs := { info.regs with dexPc := value.setWidth 64 } } else info
  | .undefined =>
    .ok (if reg = info.cie.returnAddressRegister.toNat then { info with returnAddressUndefined := true }
      else info)
  | .invalid => .ok info

/-- The switch over the rule for the frame's address. -/
def evalCfa (memory : DwarfMemory) (regularMemory : Memory) (locRegs : LocRegs) (regs : Regs a) :
    Except Halt (BitVec a.bits) :=
  match locRegs.rules cfaReg with
  | none => fail .cfaNotDefined
  | some loc =>
    match loc.type with
    | .register =>
      if loc.value0.toNat ≥ regs.total then fail .illegalValue
      else .ok (((regs.get loc.value0.toNat).setWidth 64 + loc.value1).setWidth a.bits)
    | .valExpression =>
      let regsInfo : RegsInfo a := { savedRegs := fun _ => 0 }
      (evalExpression memory loc regularMemory (regsInfo.view regs)).map Prod.fst
    | _ => fail .illegalValue

/-- The loop over the rules, given the keys in the order in which the map is walked. -/
def evalEntries (memory : DwarfMemory) (rules : Rules) : List Nat → EvalInfo a → Except Halt (EvalInfo a)
  | [], info => .ok info
  | reg :: order, info =>
    match rules reg with
    | none => evalEntries memory rules order info
    | some loc =>
      if reg = cfaReg then evalEntries memory rules order info
      else if reg ≥ info.regs.total then evalEntries memory rules order info
      else
        match info.regsInfo.save info.regs reg with
        | .error halt => .error halt
        | .ok saved =>
          match evalRegister memory loc reg { info with regsInfo := saved } with
          | .error halt => .error halt
          | .ok info => evalEntries memory rules order info

/-- `Eval`: the registers of the caller, and `*finished`. -/
def eval (memory : DwarfMemory) (cie : DwarfCie) (regularMemory : Memory) (locRegs : LocRegs)
    (order : List Nat) (regs : Regs a) : Except Halt (Regs a × Bool) :=
  if cie.returnAddressRegister.toNat ≥ regs.total then fail .illegalValue
  else
    match locRegs.rules cfaReg with
    | none => fail .cfaNotDefined
    | some _ =>
      let regs := { regs with dexPc := 0 }
      match evalCfa memory regularMemory locRegs regs with
      | .error halt => .error halt
      | .ok cfa =>
        match evalEntries memory locRegs.rules order { cie, regularMemory, cfa, regs } with
        | .error halt => .error halt
        | .ok info =>
          let pc := if info.returnAddressUndefined then 0
            else info.regs.get cie.returnAddressRegister.toNat
          let regs := info.regs.setPc pc
          .ok (regs.setSp cfa, decide (regs.pc = 0))

end DwarfSection

end Dolin.Unwindstack
