import Dolin.Laws.Unwindstack.Elf

/-!
# Steps along a call stack

A function that is called keeps the registers of its caller: some stay in place, the others it saves at
offsets from the address of its frame. Where its unwind information says how, a step gives back the
registers of the caller.
-/

namespace Dolin.Unwindstack

open Region DwarfSection

/-- How a function keeps the registers of its caller: its frame is at an offset from a register, and
registers are saved at offsets from the frame. -/
structure Layout where
  base : Nat
  offset : BitVec 64
  saved : List (Nat × BitVec 64)

namespace Layout

/-- Where a register is saved. -/
def slot (l : Layout) (reg : Nat) : Option (BitVec 64) := l.saved.lookup reg

/-- The rules that say so. -/
def rules (l : Layout) : Rules := fun reg =>
  if reg = cfaReg then some { type := .register, value0 := BitVec.ofNat 64 l.base, value1 := l.offset }
  else (l.slot reg).map fun off => { type := .offset, value0 := off }

/-- The address of the frame. -/
def cfa (l : Layout) (regs : Regs .uint64) : BitVec 64 := (regs.get l.base).setWidth 64 + l.offset

/-- The function has kept the registers `caller` of its caller: what it has saved stands in its slot, what
it has not saved is as it was, and the call left the stack pointer at the frame. It returns to the address
in the register `ra`. -/
structure Keeps (l : Layout) (ra : Nat) (memory : Memory) (regs caller : Regs .uint64) : Prop where
  total : caller.total = regs.total
  pcReg : caller.pcReg = regs.pcReg
  spReg : caller.spReg = regs.spReg
  dexPc : caller.dexPc = 0
  base : l.base < regs.total
  few : regs.total ≤ cfaReg
  inside : ra < regs.total
  saved : ∀ reg off, l.slot reg = some off → reg < regs.total →
    reg < 32 ∧ reg ≠ regs.spReg ∧
      memory.readFully (l.cfa regs + off) 8 = some (encodeLE 8 (caller.get reg).toNat)
  kept : ∀ reg < regs.total, l.slot reg = none → reg ≠ regs.spReg → (reg = ra ∨ reg ≠ regs.pcReg) →
    caller.get reg = regs.get reg
  sp : caller.get regs.spReg = l.cfa regs
  pc : caller.pc = caller.get ra
  raOther : ra ≠ regs.spReg
  spOther : regs.spReg ≠ regs.pcReg

end Layout

variable {l : Layout} {ra reg : Nat} {regs caller : Regs .uint64} {regularMemory : Memory}
  {memory : DwarfMemory} {cie : DwarfCie} {order : List Nat} {info info' : EvalInfo .uint64}

/-- The frame in which the rules of a layout are read. -/
abbrev Layout.frame (l : Layout) (memory : DwarfMemory) (cie : DwarfCie) (regularMemory : Memory)
    (regs : Regs .uint64) : Frame .uint64 := ⟨memory, cie, regularMemory, l.cfa regs, l.rules, regs⟩

variable {s : DwarfSection .uint64} {p : Programs .uint64} {turns : Nat} {pc : BitVec 64} {fde : DwarfFde}
  {locRegs : LocRegs} {walkOrder : Rules → List Nat}

namespace Elf

variable {elf : Elf} {c : Contents} {arch : Arch} {relPc adjustedRelPc elfOffset : BitVec 64}

end Elf

end Dolin.Unwindstack
