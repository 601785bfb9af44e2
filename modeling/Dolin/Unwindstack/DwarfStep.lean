import Dolin.Base.RangeCache
import Dolin.Unwindstack.DwarfEval

/-!
# A step with a section

`Step` and `GetCfaLocationInfo` of `DwarfSection.cpp`. The rules of a CIE are kept for all of its FDEs, and
the rules of a range of addresses are kept by the end of the range. `GetFdeFromPc` differs with the kind of
section.
-/

namespace Dolin.Unwindstack

/-- What `Step` uses of a `DwarfSection`. -/
structure DwarfSection (a : AddressType) where
  memory : DwarfMemory
  /-- `GetFdeFromPc`. -/
  getFdeFromPc : BitVec 64 → Except Halt DwarfFde
  /-- `cie_loc_regs_`, by the offset of the CIE. -/
  cieLocRegs : List (BitVec 64 × LocRegs) := []
  /-- `loc_regs_`: the rules and the CIE, by the end of the range. -/
  locRegs : RangeCache.Cache (Rules × DwarfCie) := []

namespace DwarfSection

variable {a : AddressType}

/-- The kept rules of a CIE. -/
def findCie (kept : List (BitVec 64 × LocRegs)) (cieOffset : BitVec 64) : Option LocRegs :=
  (kept.find? fun entry => decide (entry.1 = cieOffset)).map Prod.snd

/-- The second half of `GetCfaLocationInfo`: the instructions of the FDE, over the rules of its CIE. -/
def fdeLocationInfo (turns : Nat) (pc : BitVec 64) (fde : DwarfFde) (cie : LocRegs) (cfa : DwarfCfa a) :
    Option (Except Halt LocRegs) :=
  ({ cfa with cieLocRegs := some cie }.getLocationInfo turns pc fde.cfaInstructionsOffset
    fde.cfaInstructionsEnd).map (Except.map DwarfCfa.locRegs)

/-- `GetCfaLocationInfo`. One `DwarfCfa` carries out both programs. -/
def getCfaLocationInfo (s : DwarfSection a) (turns : Nat) (pc : BitVec 64) (fde : DwarfFde) :
    Option (Except Halt LocRegs) × DwarfSection a :=
  let cfa : DwarfCfa a := { memory := s.memory, fde }
  match findCie s.cieLocRegs fde.cieOffset with
  | some cie => (fdeLocationInfo turns pc fde cie cfa, s)
  | none =>
    match cfa.getLocationInfo turns pc fde.cie.cfaInstructionsOffset fde.cie.cfaInstructionsEnd with
    | none => (none, s)
    | some (.error halt) => (some (.error halt), s)
    | some (.ok cfa) =>
      (fdeLocationInfo turns pc fde cfa.locRegs cfa,
        { s with cieLocRegs := (fde.cieOffset, cfa.locRegs) :: s.cieLocRegs })

/-- The first half of `Step` where the cache has no row for the address. -/
def fillLocRegs (s : DwarfSection a) (turns : Nat) (pc : BitVec 64) :
    Option (Except Halt (Rules × DwarfCie)) × DwarfSection a :=
  match s.getFdeFromPc pc with
  | .error (.error _) => (some (fail .illegalState), s)
  | .error halt => (some (.error halt), s)
  | .ok fde =>
    match s.getCfaLocationInfo turns pc fde with
    | (none, s) => (none, s)
    | (some (.error halt), s) => (some (.error halt), s)
    | (some (.ok locRegs), s) =>
      let row : RangeCache.Row (Rules × DwarfCie) :=
        ⟨locRegs.pcStart.toNat, locRegs.pcEnd.toNat, (locRegs.rules, fde.cie)⟩
      let (cache, row) := RangeCache.emplace row s.locRegs
      (some (.ok row.answer), { s with locRegs := cache })

/-- The first half of `Step`: the rules and the CIE for an address. -/
def getLocRegs (s : DwarfSection a) (turns : Nat) (pc : BitVec 64) :
    Option (Except Halt (Rules × DwarfCie)) × DwarfSection a :=
  match RangeCache.upperBound s.locRegs pc.toNat with
  | none => s.fillLocRegs turns pc
  | some row => if pc.toNat < row.start then s.fillLocRegs turns pc else (some (.ok row.answer), s)

/-- `Step`. The order in which the map of the rules is walked is given. -/
def step (s : DwarfSection a) (turns : Nat) (pc : BitVec 64) (regs : Regs a) (processMemory : Memory)
    (order : Rules → List Nat) : Option (Except Halt (Regs a × Bool)) × DwarfSection a :=
  match s.getLocRegs turns pc with
  | (none, s) => (none, s)
  | (some (.error halt), s) => (some (.error halt), s)
  | (some (.ok (rules, cie)), s) =>
    (some (eval s.memory cie processMemory { rules := rules } (order rules) regs), s)

/-- `Step` again and again, each time with its own address, registers and memory. -/
def steps (turns : Nat) (order : Rules → List Nat) :
    DwarfSection a → List (BitVec 64 × Regs a × Memory) → List (Option (Except Halt (Regs a × Bool)))
  | _, [] => []
  | s, (pc, regs, processMemory) :: asked =>
    (s.step turns pc regs processMemory order).1 ::
      steps turns order (s.step turns pc regs processMemory order).2 asked

end DwarfSection

end Dolin.Unwindstack
