import Dolin.Unwindstack.DwarfMemory

/-!
# Registers during an evaluation

`RegsInfo` of `RegsInfo.h`. While a frame's rules are evaluated one after the other, the registers change
under them. `Save` keeps the value that a register had, and `Get` answers it, so that every rule sees the
registers of the frame that is left.

The set of saved registers is a word of 64 bits. Its bits are made by `1 << reg`, a shift of an `int`: it
is undefined from register 32 on, and for register 31 it is a negative number, so that all upper bits
come with it.
-/

namespace Dolin.Unwindstack

/-- `DwarfErrorCode`. -/
inductive DwarfErrorCode where
  | none
  | memoryInvalid
  | illegalValue
  | illegalState
  | stackIndexNotValid
  | notImplemented
  | tooManyIterations
  | cfaNotDefined
  | unsupportedVersion
  | noFdes
  deriving DecidableEq, Repr

/-- `DwarfErrorData`. -/
structure DwarfErrorData where
  code : DwarfErrorCode := .none
  address : BitVec 64 := 0
  deriving DecidableEq, Repr

/-- How an evaluation ends without a result: with `false` and an error, with undefined behaviour, or with
the end of the process. -/
inductive Halt where
  | error (data : DwarfErrorData)
  | undefined
  | aborted
  deriving DecidableEq, Repr

/-- The registers of a frame. -/
structure Regs (a : AddressType) where
  values : List (BitVec a.bits)
  /-- The number of the program counter among them. -/
  pcReg : Nat
  /-- The number of the stack pointer. -/
  spReg : Nat
  dexPc : BitVec 64 := 0
  pcReg_lt : pcReg < values.length
  spReg_lt : spReg < values.length
  deriving DecidableEq

namespace Regs

variable {a : AddressType}

/-- `total_regs()`. -/
def total (r : Regs a) : Nat := r.values.length

/-- `(*regs)[reg]`. -/
def get (r : Regs a) (reg : Nat) : BitVec a.bits := r.values.getD reg 0

/-- `(*regs)[reg] = value`. -/
def set (r : Regs a) (reg : Nat) (value : BitVec a.bits) : Regs a :=
  { r with
    values := r.values.set reg value
    pcReg_lt := by rw [List.length_set]; exact r.pcReg_lt
    spReg_lt := by rw [List.length_set]; exact r.spReg_lt }

end Regs

/-- `RegsInfo`, without the registers that it points to. -/
structure RegsInfo (a : AddressType) where
  savedRegMap : BitVec 64 := 0
  savedRegs : Nat → BitVec a.bits

namespace RegsInfo

variable {a : AddressType}

/-- `1 << reg` as it is joined to a word of 64 bits. -/
def bit (reg : Nat) : Except Halt (BitVec 64) :=
  if 64 < reg then .error .aborted
  else if 32 ≤ reg then .error .undefined
  else .ok ((1#32 <<< reg).signExtend 64)

/-- `IsSaved`. -/
def isSaved (info : RegsInfo a) (reg : Nat) : Except Halt Bool :=
  (bit reg).map fun mask => decide (info.savedRegMap &&& mask ≠ 0)

/-- `Get`. -/
def get (info : RegsInfo a) (regs : Regs a) (reg : Nat) : Except Halt (BitVec a.bits) :=
  (info.isSaved reg).map fun saved => if saved then info.savedRegs reg else regs.get reg

/-- `Save`. The pointer it returns is to the register itself. -/
def save (info : RegsInfo a) (regs : Regs a) (reg : Nat) : Except Halt (RegsInfo a) :=
  (bit reg).map fun mask =>
    { savedRegMap := info.savedRegMap ||| mask
      savedRegs := fun r => if r = reg then regs.get reg else info.savedRegs r }

end RegsInfo

/-- What an expression sees of the registers: `Total` and `Get`. -/
structure RegsView (a : AddressType) where
  total : Nat
  get : Nat → Except Halt (BitVec a.bits)

/-- The registers as `RegsInfo` shows them. -/
def RegsInfo.view {a : AddressType} (info : RegsInfo a) (regs : Regs a) : RegsView a :=
  ⟨regs.total, info.get regs⟩

end Dolin.Unwindstack
