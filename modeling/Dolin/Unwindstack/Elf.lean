import Dolin.Unwindstack.DwarfStep
import Dolin.Unwindstack.Maps
import Dolin.Unwindstack.Symbols

/-!
# A frame with a library

`Elf::Step`, `GetFunctionName` and `GetRelPc` of `Elf.cpp`, `Step` and `GetFunctionName` of
`ElfInterface.cpp`, and what `RegsArm64.cpp` and `RegsX86_64.cpp` say of a frame that the kernel made for a
signal handler. A library is one of 64 bits without a `.debug_frame`.
-/

namespace Dolin.Unwindstack

open Region

/-- The architectures of 64 bits. -/
inductive Arch where
  | arm64
  | x86_64
  deriving DecidableEq, Repr

namespace Arch

/-- `GetPcAdjustment`. -/
def getPcAdjustment (arch : Arch) (relPc : BitVec 64) : BitVec 64 :=
  match arch with
  | arm64 => if relPc < 4 then 0 else 4
  | x86_64 => if relPc = 0 then 0 else 1

end Arch

/-- A word of a number of bytes. -/
def wordAt (bs : Bytes) (i : Nat) : BitVec AddressType.uint64.bits :=
  BitVec.ofNat _ (decodeLE (slice bs (8 * i) 8))

namespace Regs

/-- The registers as they stand in memory. -/
def rawData (r : Regs .uint64) : Bytes := r.values.flatMap fun value => encodeLE 8 value.toNat

/-- Bytes copied over the first registers. -/
def copyRaw (r : Regs .uint64) (bs : Bytes) : Regs .uint64 :=
  let raw := bs ++ r.rawData.drop bs.length
  { r with
    values := (List.range r.values.length).map (wordAt raw)
    pcReg_lt := by simpa using r.pcReg_lt
    spReg_lt := by simpa using r.spReg_lt }

/-- `sp()`. -/
def sp (r : Regs .uint64) : BitVec 64 := r.get r.spReg

end Regs

/-! ## Frames of the kernel -/

namespace RegsArm64

/-- `ARM64_REG_LAST`. -/
def last : Nat := 33

/-- `StepIfSignalHandler`. A read that ends early has changed the first registers. -/
def stepIfSignalHandler (relPc : BitVec 64) (elfMemory processMemory : Memory) (regs : Regs .uint64) :
    Bool × Regs .uint64 :=
  match elfMemory.readFully relPc 8 with
  | none => (false, regs)
  | some data =>
    if decodeLE data ≠ 0xd4000001d2801168 then (false, regs)
    else
      let bs := processMemory.read (regs.sp + 0x80 + 0xb0 + 0x08) (8 * last)
      (bs.length = 8 * last, regs.copyRaw bs)

end RegsArm64

namespace RegsX86_64

/-- The places of the registers in `x86_64_mcontext_t`, from `X86_64_REG_RAX` to `X86_64_REG_RIP`. -/
def places : List Nat := [13, 12, 14, 11, 9, 8, 10, 15, 0, 1, 2, 3, 4, 5, 6, 7, 16]

/-- `sizeof(x86_64_mcontext_t)`. -/
def sizeofMcontext : Nat := 184

/-- `SetFromUcontext`. -/
def setFromUcontext (regs : Regs .uint64) (mcontext : Bytes) : Regs .uint64 :=
  (List.range places.length).foldl (fun regs reg => regs.set reg (wordAt mcontext (places.getD reg 0))) regs

/-- `StepIfSignalHandler`. -/
def stepIfSignalHandler (relPc : BitVec 64) (elfMemory processMemory : Memory) (regs : Regs .uint64) :
    Bool × Regs .uint64 :=
  match elfMemory.readFully relPc 8, elfMemory.readFully (relPc + 8) 2 with
  | some data, some data2 =>
    if decodeLE data ≠ 0x0f0000000fc0c748 ∨ decodeLE data2 ≠ 0x0f05 then (false, regs)
    else
      match processMemory.readFully (regs.sp + 0x28) sizeofMcontext with
      | none => (false, regs)
      | some mcontext => (true, setFromUcontext regs mcontext)
  | _, _ => (false, regs)

end RegsX86_64

/-- `StepIfSignalHandler` of the architecture. -/
def Arch.stepIfSignalHandler (arch : Arch) (relPc : BitVec 64) (elfMemory processMemory : Memory)
    (regs : Regs .uint64) : Bool × Regs .uint64 :=
  match arch with
  | .arm64 => RegsArm64.stepIfSignalHandler relPc elfMemory processMemory regs
  | .x86_64 => RegsX86_64.stepIfSignalHandler relPc elfMemory processMemory regs

/-! ## `Elf` -/

/-- `Elf`, with its interface. -/
structure Elf where
  valid : Bool
  loadBias : BitVec 64
  memory : Memory
  symbols : List Symbols := []
  ehFrame : Option (DwarfSection .uint64) := none

namespace Elf

/-- `GetRelPc`. -/
def getRelPc (elf : Elf) (pc : BitVec 64) (start elfOffset : BitVec 64) : BitVec 64 :=
  pc - start + elf.loadBias + elfOffset

/-- The loop of `ElfInterface::GetFunctionName` over the symbol tables. -/
def getNameIn (memory : Memory) (loadBias : BitVec 64) (turns : Nat) (addr : BitVec 64) :
    List Symbols → Option (Option (Bytes × BitVec 64) × List Symbols)
  | [] => some (none, [])
  | symbol :: symbols =>
    match symbol.getName .uint64 memory loadBias turns addr with
    | none => none
    | some (some name, symbol) => some (some name, symbol :: symbols)
    | some (none, symbol) =>
      (getNameIn memory loadBias turns addr symbols).map fun (name, symbols) => (name, symbol :: symbols)

/-- `GetFunctionName`: the name of the function, with the offset in it. -/
def getFunctionName (elf : Elf) (turns : Nat) (addr : BitVec 64) :
    Option (Option (Bytes × BitVec 64) × Elf) :=
  if elf.valid then
    (getNameIn elf.memory elf.loadBias turns addr elf.symbols).map fun (name, symbols) =>
      (name, { elf with symbols := symbols })
  else some (none, elf)

/-- `ElfInterface::Step`: the registers of the caller, where there are some. -/
def stepInterface (elf : Elf) (turns : Nat) (pc : BitVec 64) (regs : Regs .uint64) (processMemory : Memory)
    (order : Rules → List Nat) : Option (Except Halt (Option (Regs .uint64))) × Elf :=
  if pc < elf.loadBias then (some (.ok none), elf)
  else
    match elf.ehFrame with
    | none => (some (.ok none), elf)
    | some ehFrame =>
      let (out, ehFrame) := ehFrame.step turns (pc - elf.loadBias) regs processMemory order
      let elf := { elf with ehFrame := some ehFrame }
      match out with
      | none => (none, elf)
      | some (.ok (regs, _)) => (some (.ok (some regs)), elf)
      | some (.error (.error _)) => (some (.ok none), elf)
      | some (.error halt) => (some (.error halt), elf)

/-- `Step`. -/
def step (elf : Elf) (arch : Arch) (turns : Nat) (relPc adjustedRelPc elfOffset : BitVec 64)
    (regs : Regs .uint64) (processMemory : Memory) (order : Rules → List Nat) :
    Option (Except Halt (Option (Regs .uint64))) × Elf :=
  if elf.valid then
    let (signal, regs) := arch.stepIfSignalHandler (relPc + elfOffset) elf.memory processMemory regs
    if signal then (some (.ok (some regs)), elf)
    else elf.stepInterface turns adjustedRelPc regs processMemory order
  else (some (.ok none), elf)

end Elf

end Dolin.Unwindstack
