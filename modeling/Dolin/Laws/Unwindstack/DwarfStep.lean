import Dolin.Laws.Unwindstack.DwarfCfa
import Dolin.Laws.Unwindstack.DwarfEval
import Dolin.Unwindstack.DwarfStep

/-!
# The caches of a section

`Step` answers from two caches: rules by the end of the range for which they hold, and the rules of a CIE
that were found for the first of its FDEs. A run of steps gives for each address what a section without
anything in its caches would give, `steps_eq`, as long as the programs are such that what is kept holds
for what it is looked up for.
-/

namespace Dolin.Unwindstack

open Region DwarfMemory

variable {a : AddressType}

namespace CfaInstr

/-- The address to which an instruction moves. -/
def moves (cie : DwarfCie) (pc : BitVec a.bits) : CfaInstr a → BitVec a.bits
  | advance low => pc + (BitVec.ofNat 64 low.val * cie.codeAlignmentFactor).setWidth a.bits
  | extended _ .advanceLoc _ _ _ operands _ =>
    pc + ((operands.getD 0 0).setWidth 64 * cie.codeAlignmentFactor).setWidth a.bits
  | extended _ .setLoc _ _ _ operands _ => operands.getD 0 0
  | _ => pc

/-- The instruction neither moves nor keeps or brings back rules. -/
def Static : CfaInstr a → Prop
  | advance _ => False
  | extended _ handler _ _ _ _ _ =>
    handler ≠ .advanceLoc ∧ handler ≠ .setLoc ∧ handler ≠ .rememberState ∧ handler ≠ .restoreState
  | _ => True

end CfaInstr

namespace DwarfCfa

open CfaInstr

variable {s s' t t' r : DwarfCfa a} {i : CfaInstr a} {is : List (CfaInstr a)} {pc pc' stop : BitVec 64}

/-! ## Two runs that differ in what the rules do not depend on -/

/-- Two states with the same rules; where `moving`, at the same address too. -/
structure Alike (moving : Prop) (s t : DwarfCfa a) : Prop where
  memory : s.memory = t.memory
  cie : s.fde.cie = t.fde.cie
  cieRules : s.cieLocRegs.map LocRegs.rules = t.cieLocRegs.map LocRegs.rules
  rules : s.locRegs.rules = t.locRegs.rules
  saved : s.locRegState.map LocRegs.rules = t.locRegState.map LocRegs.rules
  together : moving → s.curPc = t.curPc ∧ s.locRegs.pcStart = t.locRegs.pcStart ∧
    s.locRegState.map LocRegs.pcStart = t.locRegState.map LocRegs.pcStart

/-- Two outcomes: the same failure, or alike. -/
def AlikeOutcomes (moving : Prop) (o p : Outcome a) : Prop :=
  match o, p with
  | .ok s, .ok t => Alike moving s t
  | .error h, .error h' => h = h'
  | _, _ => False

variable {moving : Prop}

theorem Alike.setRule (alike : Alike moving s t) (reg : Nat) (rule : Option DwarfLocation) :
    Alike moving (s.setRule reg rule) (t.setRule reg rule) where
  memory := alike.memory
  cie := alike.cie
  cieRules := alike.cieRules
  rules := congrArg (Rules.set · reg rule) alike.rules
  saved := alike.saved
  together := alike.together

theorem Alike.advance (alike : Alike moving s t) (delta : BitVec 64) :
    Alike moving (s.advance delta) (t.advance delta) where
  memory := alike.memory
  cie := alike.cie
  cieRules := alike.cieRules
  rules := alike.rules
  saved := alike.saved
  together m := ⟨by
    change s.curPc + (delta * s.fde.cie.codeAlignmentFactor).setWidth a.bits = _
    rw [(alike.together m).1, alike.cie]
    rfl, (alike.together m).2⟩

theorem Alike.factored (alike : Alike moving s t) (n : BitVec a.bits) : s.factored n = t.factored n := by
  rw [DwarfCfa.factored, DwarfCfa.factored, alike.cie]

theorem AlikeOutcomes.map {α : Type} {v : Except Halt α} {f g : α → DwarfCfa a}
    (alike : ∀ x, Alike moving (f x) (g x)) : AlikeOutcomes moving (v.map f) (v.map g) := by
  cases v with
  | error halt => exact rfl
  | ok x => exact alike x

theorem Alike.restoreRule (alike : Alike moving s t) (reg : Nat) :
    AlikeOutcomes moving (s.restoreRule reg) (t.restoreRule reg) := by
  have same := alike.cieRules
  unfold DwarfCfa.restoreRule
  cases hs : s.cieLocRegs with
  | none =>
    rw [hs, Option.map_none, eq_comm, Option.map_eq_none_iff] at same
    rw [same]
    exact rfl
  | some c =>
    rw [hs, Option.map_some, eq_comm, Option.map_eq_some_iff] at same
    obtain ⟨c', ht, same⟩ := same
    rw [ht]
    change Alike moving (s.setRule reg (c.rules reg)) (t.setRule reg (c'.rules reg))
    rw [same]
    exact alike.setRule reg _

theorem Alike.changeCfa (alike : Alike moving s t) (f : DwarfLocation → DwarfLocation) :
    AlikeOutcomes moving (s.changeCfa f) (t.changeCfa f) := by
  unfold DwarfCfa.changeCfa
  rw [alike.rules]
  cases t.locRegs.rules cfaReg with
  | none => exact rfl
  | some rule =>
    dsimp only
    split
    · exact alike.setRule _ _
    · exact rfl

/-- **The handlers** do alike to states that are alike. -/
theorem Alike.handle (alike : Alike moving s t) (operands : s.operands = t.operands) (h : CfaHandler) :
    AlikeOutcomes moving (s.handle h) (t.handle h) := by
  have value (n : Nat) : s.value n = t.value n := by rw [DwarfCfa.value, operandAt, operands]; rfl
  have key (n : Nat) : s.key n = t.key n := by rw [DwarfCfa.key, operandAt, operands]; rfl
  have operand (n : Nat) : s.operandAt n = t.operandAt n := by rw [operandAt, operands]; rfl
  cases h with
  | nop => exact alike
  | setLoc =>
    exact ⟨alike.memory, alike.cie, alike.cieRules, alike.rules, alike.saved,
      fun m => ⟨operand 0, (alike.together m).2⟩⟩
  | advanceLoc =>
    rw [DwarfCfa.handle, DwarfCfa.handle, value]
    exact alike.advance _
  | restore =>
    rw [DwarfCfa.handle, DwarfCfa.handle, key]
    exact alike.restoreRule _
  | offset | undefined | sameValue | register | defCfa | defCfaExpression | expression | valExpression =>
    simp only [DwarfCfa.handle, value, key, alike.memory]
    exact alike.setRule _ _
  | rememberState =>
    refine ⟨alike.memory, alike.cie, alike.cieRules, alike.rules, ?_,
      fun m => ⟨(alike.together m).1, (alike.together m).2.1, ?_⟩⟩
    · exact List.cons_eq_cons.mpr ⟨alike.rules, alike.saved⟩
    · exact List.cons_eq_cons.mpr ⟨(alike.together m).2.1, (alike.together m).2.2⟩
  | restoreState =>
    rw [DwarfCfa.handle, DwarfCfa.handle]
    have saved := alike.saved
    cases hs : s.locRegState with
    | nil =>
      rw [hs, List.map_nil, eq_comm, List.map_eq_nil_iff] at saved
      rw [saved]
      exact alike
    | cons top rest =>
      rw [hs, List.map_cons, eq_comm, List.map_eq_cons_iff] at saved
      obtain ⟨top', rest', ht, tops, rests⟩ := saved
      rw [ht]
      refine ⟨alike.memory, alike.cie, alike.cieRules, tops.symm, rests.symm, fun m => ?_⟩
      obtain ⟨pcs, -, starts⟩ := alike.together m
      rw [hs, ht, List.map_cons, List.map_cons] at starts
      obtain ⟨first, others⟩ := List.cons_eq_cons.mp starts
      exact ⟨pcs, first, others⟩
  | defCfaRegister | defCfaOffset =>
    simp only [DwarfCfa.handle, value]
    exact alike.changeCfa _
  | offsetExtendedSf | defCfaSf | valOffset | valOffsetSf =>
    simp only [DwarfCfa.handle, value, key, operand, alike.factored]
    exact AlikeOutcomes.map fun _ => alike.setRule _ _
  | defCfaOffsetSf =>
    simp only [DwarfCfa.handle, operand, alike.factored, alike.rules]
    cases t.locRegs.rules cfaReg with
    | none => exact rfl
    | some rule =>
      dsimp only
      split
      · exact AlikeOutcomes.map fun _ => alike.setRule _ _
      · exact rfl
  | gnuNegativeOffsetExtended =>
    simp only [DwarfCfa.handle, key, operand]
    exact AlikeOutcomes.map fun _ => alike.setRule _ _

theorem Alike.enter (alike : Alike moving s t) (i : CfaInstr a) :
    Alike moving (i.enter s) (i.enter t) where
  memory := congrArg (·.skip i.encode.length) alike.memory
  cie := alike.cie
  cieRules := alike.cieRules
  rules := alike.rules
  saved := alike.saved
  together m := ⟨(alike.together m).1, congrArg (·.setWidth 64) (alike.together m).1, (alike.together m).2.2⟩

theorem Alike.withOperands (alike : Alike moving s t) (operands : List (BitVec a.bits)) :
    Alike moving { s with operands := operands } { t with operands := operands } :=
  ⟨alike.memory, alike.cie, alike.cieRules, alike.rules, alike.saved, alike.together⟩

/-- An instruction does alike to states that are alike. -/
theorem Alike.exec (alike : Alike moving s t) (i : CfaInstr a) :
    AlikeOutcomes moving (i.exec s) (i.exec t) := by
  have inside := alike.enter i
  cases i with
  | advance low => exact inside.advance _
  | offset reg n operandBytes reads =>
    rw [CfaInstr.exec, CfaInstr.exec, inside.factored]
    exact AlikeOutcomes.map fun _ => inside.setRule _ _
  | restore reg => exact inside.restoreRule _
  | extended low handler encodings known operandBytes operands reads =>
    exact (inside.withOperands operands).handle rfl handler

/-- **Instructions in a row** do alike to states that are alike and at the same address. -/
theorem Alike.runTo (alike : Alike True s t) (fde : s.fde = t.fde) (is : List (CfaInstr a)) :
    AlikeOutcomes True (runTo pc is s) (runTo pc is t) ∧
      ∀ r r', DwarfCfa.runTo pc is s = .ok r → DwarfCfa.runTo pc is t = .ok r' →
        r.locRegs.pcEnd = r'.locRegs.pcEnd := by
  induction is generalizing s t with
  | nil =>
    have same := (alike.together trivial).1
    refine ⟨⟨alike.memory, alike.cie, alike.cieRules, alike.rules, alike.saved, alike.together⟩, ?_⟩
    intro r r' run run'
    cases run
    cases run'
    change (if _ then s.curPc.setWidth 64 else s.fde.pcEnd) = if _ then t.curPc.setWidth 64 else t.fde.pcEnd
    by_cases beyond : Beyond pc s
    · have beyond' : Beyond pc t := by rwa [Beyond, ← same]
      rw [if_pos beyond, if_pos beyond', same]
    · have within : ¬ Beyond pc t := by rwa [Beyond, ← same]
      rw [if_neg beyond, if_neg within, fde]
  | cons i is ih =>
    have same := (alike.together trivial).1
    rw [DwarfCfa.runTo, DwarfCfa.runTo]
    by_cases beyond : Beyond pc s
    · have beyond' : Beyond pc t := by rwa [Beyond, ← same]
      rw [if_pos beyond, if_pos beyond']
      refine ⟨⟨alike.memory, alike.cie, alike.cieRules, alike.rules, alike.saved, alike.together⟩, ?_⟩
      intro r r' run run'
      cases run
      cases run'
      exact congrArg (·.setWidth 64) same
    · have within : ¬ Beyond pc t := by rwa [Beyond, ← same]
      rw [if_neg beyond, if_neg within]
      have both := alike.exec i
      cases first : i.exec s with
      | error halt =>
        cases second : i.exec t with
        | error halt' =>
          rw [first, second] at both
          refine ⟨both, ?_⟩
          intro r r' run
          cases run
        | ok t' =>
          rw [first, second] at both
          exact both.elim
      | ok s' =>
        cases second : i.exec t with
        | error halt' =>
          rw [first, second] at both
          exact both.elim
        | ok t' =>
          rw [first, second] at both
          exact ih both (((exec_frame first).1.trans fde).trans (exec_frame second).1.symm)

/-! ## Where the instructions go -/

theorem keeps_map {α : Type} {v : Except Halt α} {reg : Nat} {f : α → DwarfLocation}
    (step : v.map (fun x => s.setRule reg (some (f x))) = .ok s') :
    s'.curPc = s.curPc ∧ s'.locRegState = s.locRegState := by
  cases v with
  | error halt => cases step
  | ok x =>
    cases step
    exact ⟨rfl, rfl⟩

theorem keeps_restoreRule {reg : Nat} (step : s.restoreRule reg = .ok s') :
    s'.curPc = s.curPc ∧ s'.locRegState = s.locRegState := by
  unfold restoreRule at step
  split at step
  · cases step
  · cases step
    exact ⟨rfl, rfl⟩

theorem keeps_changeCfa {f : DwarfLocation → DwarfLocation} (step : s.changeCfa f = .ok s') :
    s'.curPc = s.curPc ∧ s'.locRegState = s.locRegState := by
  unfold changeCfa at step
  split at step
  · split at step
    · cases step
      exact ⟨rfl, rfl⟩
    · cases step
  · cases step

/-- A handler that has nothing to do with addresses and kept rules leaves them. -/
theorem keeps_handle {h : CfaHandler}
    (other : h ≠ .advanceLoc ∧ h ≠ .setLoc ∧ h ≠ .rememberState ∧ h ≠ .restoreState)
    (step : s.handle h = .ok s') : s'.curPc = s.curPc ∧ s'.locRegState = s.locRegState := by
  cases h with
  | advanceLoc => exact absurd rfl other.1
  | setLoc => exact absurd rfl other.2.1
  | rememberState => exact absurd rfl other.2.2.1
  | restoreState => exact absurd rfl other.2.2.2
  | nop | offset | undefined | sameValue | register | defCfa | defCfaExpression | expression
  | valExpression =>
    cases step
    exact ⟨rfl, rfl⟩
  | restore => exact keeps_restoreRule step
  | defCfaRegister | defCfaOffset => exact keeps_changeCfa step
  | offsetExtendedSf | defCfaSf | valOffset | valOffsetSf | gnuNegativeOffsetExtended =>
    exact keeps_map step
  | defCfaOffsetSf =>
    rw [handle] at step
    split at step
    · split at step
      · exact keeps_map step
      · cases step
    · cases step

/-- The address behind a handler. -/
theorem curPc_handle {h : CfaHandler} (step : s.handle h = .ok s') :
    s'.curPc = match h with
      | .advanceLoc => (s.advance (s.value 0)).curPc
      | .setLoc => s.operandAt 0
      | _ => s.curPc := by
  cases h with
  | advanceLoc | setLoc | rememberState =>
    cases step
    rfl
  | restoreState =>
    rw [handle] at step
    split at step <;> cases step <;> rfl
  | nop | offset | restore | undefined | sameValue | register | defCfa | defCfaRegister | defCfaOffset
  | defCfaExpression | expression | offsetExtendedSf | defCfaSf | defCfaOffsetSf | valOffset
  | valOffsetSf | valExpression | gnuNegativeOffsetExtended =>
    exact (keeps_handle (by decide) step).1

/-- Where an instruction goes does not depend on the rules. -/
theorem exec_curPc (step : i.exec s = .ok s') : s'.curPc = i.moves s.fde.cie s.curPc := by
  cases i with
  | advance low =>
    cases step
    rfl
  | offset reg n operandBytes reads =>
    exact (keeps_map (s := (offset reg n operandBytes reads).enter s) step).1
  | restore reg => exact (keeps_restoreRule step).1
  | extended low handler encodings known operandBytes operands reads =>
    have behind := curPc_handle
      (s := { (extended low handler encodings known operandBytes operands reads).enter s with
        operands := operands }) step
    cases handler <;> exact behind

/-- An instruction that is static leaves the address and the kept rules. -/
theorem exec_static (static : i.Static) (step : i.exec s = .ok s') :
    s'.curPc = s.curPc ∧ s'.locRegState = s.locRegState := by
  cases i with
  | advance low => exact static.elim
  | offset reg n operandBytes reads =>
    exact keeps_map (s := (offset reg n operandBytes reads).enter s) step
  | restore reg => exact keeps_restoreRule (s := (restore reg).enter s) step
  | extended low handler encodings known operandBytes operands reads =>
    exact keeps_handle (s := { (extended low handler encodings known operandBytes operands reads).enter s with
      operands := operands }) static step

/-- Instructions that are static leave the address and the kept rules, and everything but the rules. -/
theorem runTo_static (static : ∀ i ∈ is, i.Static) (within : ¬ Beyond pc s) (run : runTo pc is s = .ok r) :
    r.locRegState = s.locRegState ∧ r.fde = s.fde ∧ r.cieLocRegs = s.cieLocRegs ∧
      ∃ n, r.memory = s.memory.skip n := by
  induction is generalizing s with
  | nil =>
    cases run
    exact ⟨rfl, rfl, rfl, 0, by rw [skip_zero]; rfl⟩
  | cons i is ih =>
    obtain ⟨static, rest⟩ := List.forall_mem_cons.mp static
    rcases runTo_cons run with ⟨beyond, -⟩ | ⟨-, s', step, run'⟩
    · exact absurd beyond within
    · obtain ⟨same, kept⟩ := exec_static static step
      obtain ⟨fde, cie, memory⟩ := exec_frame step
      have within' : ¬ Beyond pc s' := by rwa [Beyond, same]
      obtain ⟨kept', fde', cie', n, memory'⟩ := ih rest within' run'
      refine ⟨kept'.trans kept, fde'.trans fde, cie'.trans cie, i.encode.length + n, ?_⟩
      rw [memory', memory, skip_skip]

/-- Where nothing moves, the rules do not depend on the address. -/
theorem Alike.runTo_static (alike : Alike False s t) (static : ∀ i ∈ is, i.Static)
    (within : ¬ Beyond pc s) (within' : ¬ Beyond pc' t) :
    AlikeOutcomes False (DwarfCfa.runTo pc is s) (DwarfCfa.runTo pc' is t) := by
  induction is generalizing s t with
  | nil => exact ⟨alike.memory, alike.cie, alike.cieRules, alike.rules, alike.saved, nofun⟩
  | cons i is ih =>
    obtain ⟨static, rest⟩ := List.forall_mem_cons.mp static
    rw [DwarfCfa.runTo, DwarfCfa.runTo, if_neg within, if_neg within']
    have both := alike.exec i
    cases first : i.exec s with
    | error halt =>
      cases second : i.exec t with
      | error halt' =>
        rw [first, second] at both
        exact both
      | ok t' =>
        rw [first, second] at both
        exact both.elim
    | ok s' =>
      cases second : i.exec t with
      | error halt' =>
        rw [first, second] at both
        exact both.elim
      | ok t' =>
        rw [first, second] at both
        refine ih both rest ?_ ?_
        · rwa [Beyond, (exec_static static first).1]
        · rwa [Beyond, (exec_static static second).1]

/-- The instructions lead forward, and not beyond `bound`. -/
def Rising (cie : DwarfCie) (bound : BitVec 64) : BitVec a.bits → List (CfaInstr a) → Prop
  | _, [] => True
  | pc, i :: is => pc ≤ i.moves cie pc ∧ (i.moves cie pc).setWidth 64 ≤ bound ∧
    Rising cie bound (i.moves cie pc) is

theorem Rising.forward {bound : BitVec 64} (rising : Rising s.fde.cie bound s.curPc is) :
    Forward bound is s := by
  induction is generalizing s with
  | nil => trivial
  | cons i is ih =>
    obtain ⟨ahead, inside, rest⟩ := rising
    intro s' step
    have there := exec_curPc step
    rw [there]
    refine ⟨ahead, inside, ih ?_⟩
    rw [(exec_frame step).1, there]
    exact rest

/-! ## The row of an address -/

theorem runTo_beyond (beyond : Beyond pc s) : runTo pc is s = .ok (s.endingAt (s.curPc.setWidth 64)) := by
  cases is with
  | nil => rw [runTo, if_pos beyond]
  | cons i is => rw [runTo, if_pos beyond]

theorem EndsFresh.rest (fresh : EndsFresh (i :: is)) : EndsFresh is := by
  cases is with
  | nil => exact nofun
  | cons j is => exact fresh.tail

/-- The address is in the range that is told for it, and the range is within that of the program. The
range of a program without instructions has begun before. -/
theorem runTo_range {bound : BitVec 64} {low : Nat} (forward : Forward bound is s) (fresh : EndsFresh is)
    (within : ¬ Beyond pc s) (lower : low ≤ s.curPc.toNat)
    (begun : is = [] → low ≤ s.locRegs.pcStart.toNat ∧ s.locRegs.pcStart ≤ pc)
    (ends : s.fde.pcEnd = bound) (inside : pc < bound) (run : runTo pc is s = .ok r) :
    low ≤ r.locRegs.pcStart.toNat ∧ r.locRegs.pcStart ≤ pc ∧ pc < r.locRegs.pcEnd ∧
      r.locRegs.pcEnd ≤ bound := by
  induction is generalizing s with
  | nil =>
    rw [runTo, if_neg within, ends] at run
    cases run
    exact ⟨(begun rfl).1, (begun rfl).2, inside, BitVec.le_refl _⟩
  | cons i is ih =>
    rcases runTo_cons run with ⟨beyond, -⟩ | ⟨-, s', step, run'⟩
    · exact absurd beyond within
    have here : s.curPc.setWidth 64 ≤ pc := BitVec.not_lt.mp within
    have lower' : low ≤ (s.curPc.setWidth 64).toNat := by rwa [toNat_widen]
    obtain ⟨ahead, below, forward'⟩ := forward s' step
    by_cases beyond : Beyond pc s'
    · have moves : s'.curPc ≠ s.curPc := by
        intro same
        rw [Beyond, same] at beyond
        exact within beyond
      rw [runTo_beyond beyond] at run'
      cases run'
      refine ⟨?_, ?_, beyond, below⟩
      · change low ≤ s'.locRegs.pcStart.toNat
        rwa [exec_pcStart step (.inl moves)]
      · change s'.locRegs.pcStart ≤ pc
        rwa [exec_pcStart step (.inl moves)]
    · refine ih forward' fresh.rest beyond ?_ ?_ ?_ run'
      · exact Nat.le_trans lower (BitVec.le_def.mp ahead)
      · rintro rfl
        rw [exec_pcStart step (.inr fresh.last)]
        exact ⟨lower', here⟩
      · rw [(exec_frame step).1, ends]

/-- Instructions stand from `first` to `stop`. -/
structure Placed (memory : Memory) (first stop : BitVec 64) (is : List (CfaInstr a)) : Prop where
  holds : memory.Holds first (encodeAll is)
  room : first.toNat + (encodeAll is).length = stop.toNat

theorem Placed.getLocationInfo {first : BitVec 64} {turns : Nat} (placed : Placed s.memory.memory first stop is)
    (enough : is.length < turns) :
    s.getLocationInfo turns pc first stop = some (DwarfCfa.runTo pc is (s.start first)) :=
  loop_ready ⟨placed.holds, placed.room⟩ enough

end DwarfCfa

/-! ## The caches -/

/-- Runs that are alike and at the same addresses find the same rules for the same range. -/
theorem DwarfCfa.Alike.locRegs_runTo {s t : DwarfCfa a} {is : List (CfaInstr a)} {pc : BitVec 64}
    (alike : DwarfCfa.Alike True s t) (fde : s.fde = t.fde) :
    (DwarfCfa.runTo pc is s).map DwarfCfa.locRegs = (DwarfCfa.runTo pc is t).map DwarfCfa.locRegs := by
  obtain ⟨both, ends⟩ := @DwarfCfa.Alike.runTo _ s t pc alike fde is
  cases first : DwarfCfa.runTo pc is s with
  | error halt =>
    cases second : DwarfCfa.runTo pc is t with
    | error halt' =>
      rw [first, second] at both
      exact congrArg Except.error both
    | ok r' =>
      rw [first, second] at both
      exact both.elim
  | ok r =>
    cases second : DwarfCfa.runTo pc is t with
    | error halt' =>
      rw [first, second] at both
      exact both.elim
    | ok r' =>
      rw [first, second] at both
      have stop := ends r r' first second
      change Except.ok r.locRegs = Except.ok r'.locRegs
      obtain ⟨-, -, -, rules, -, together⟩ := both
      exact congrArg Except.ok (LocRegs.ext rules (together trivial).2.1 stop)

namespace DwarfSection

open DwarfCfa RangeCache

/-- The programs of a section, by the offset of a CIE and by FDE. -/
structure Programs (a : AddressType) where
  cieInstrs : BitVec 64 → List (CfaInstr a)
  fdeInstrs : DwarfFde → List (CfaInstr a)

variable {s s' : DwarfSection a} {p : Programs a} {turns : Nat} {pc pc' : BitVec 64} {fde fde' : DwarfFde}

/-- The programs of an FDE are as compilers write them: that of the CIE gives rules and nothing else, that
of the FDE leads forward through its range and does not end by bringing rules back. -/
structure Regular (memory : Memory) (p : Programs a) (turns : Nat) (fde : DwarfFde) : Prop where
  narrow : (fde.pcStart.setWidth a.bits).setWidth 64 = fde.pcStart
  cieProgram :
    Placed memory fde.cie.cfaInstructionsOffset fde.cie.cfaInstructionsEnd (p.cieInstrs fde.cieOffset)
  fdeProgram : Placed memory fde.cfaInstructionsOffset fde.cfaInstructionsEnd (p.fdeInstrs fde)
  cieEnough : (p.cieInstrs fde.cieOffset).length < turns
  fdeEnough : (p.fdeInstrs fde).length < turns
  static : ∀ i ∈ p.cieInstrs fde.cieOffset, i.Static
  rising : Rising fde.cie fde.pcEnd (fde.pcStart.setWidth a.bits) (p.fdeInstrs fde)
  fresh : EndsFresh (p.fdeInstrs fde)

/-- The section finds FDEs by ranges that do not overlap, each with the CIE at its offset. -/
structure Regulars (s : DwarfSection a) (p : Programs a) (turns : Nat) : Prop where
  inside : ∀ pc fde, s.getFdeFromPc pc = .ok fde → fde.pcStart ≤ pc ∧ pc < fde.pcEnd
  uniform : ∀ pc fde, s.getFdeFromPc pc = .ok fde →
    ∀ pc', fde.pcStart ≤ pc' → pc' < fde.pcEnd → s.getFdeFromPc pc' = .ok fde
  oneCie : ∀ pc pc' fde fde', s.getFdeFromPc pc = .ok fde → s.getFdeFromPc pc' = .ok fde' →
    fde.cieOffset = fde'.cieOffset → fde.cie = fde'.cie
  regular : ∀ pc fde, s.getFdeFromPc pc = .ok fde → Regular s.memory.memory p turns fde

/-- The program of the CIE carried out for an address of an FDE. -/
def cieRun (memory : DwarfMemory) (p : Programs a) (pc : BitVec 64) (fde : DwarfFde) : Outcome a :=
  runTo pc (p.cieInstrs fde.cieOffset)
    (({ memory, fde } : DwarfCfa a).start fde.cie.cfaInstructionsOffset)

/-- The program of the FDE, over the rules of the CIE. -/
def fdeRun (p : Programs a) (pc : BitVec 64) (fde : DwarfFde) (cie : LocRegs) (cfa : DwarfCfa a) :
    Except Halt LocRegs :=
  (runTo pc (p.fdeInstrs fde)
    ({ cfa with cieLocRegs := some cie }.start fde.cfaInstructionsOffset)).map DwarfCfa.locRegs

/-- The rules for an address without any cache. -/
def locRegsAt (memory : DwarfMemory) (p : Programs a) (pc : BitVec 64) (fde : DwarfFde) :
    Except Halt LocRegs :=
  (cieRun memory p pc fde).bind fun cfa => fdeRun p pc fde cfa.locRegs cfa

/-- What is kept for a CIE was found for one of its FDEs. -/
def KeptRight (s : DwarfSection a) (p : Programs a) : Prop :=
  ∀ cieOffset cie, findCie s.cieLocRegs cieOffset = some cie →
    ∃ pc fde cfa, s.getFdeFromPc pc = .ok fde ∧ fde.cieOffset = cieOffset ∧
      cieRun s.memory p pc fde = .ok cfa ∧ cie = cfa.locRegs

theorem Regular.within {memory : Memory} (regular : Regular memory p turns fde) (inside : fde.pcStart ≤ pc)
    {t : DwarfCfa a} (there : t.curPc = fde.pcStart.setWidth a.bits) : ¬ Beyond pc t := by
  rw [Beyond, there, regular.narrow]
  exact BitVec.not_lt.mpr inside

/-- The program of a CIE gives the same rules to all of its FDEs. -/
theorem cieRun_alike {memory : DwarfMemory} (regular : Regular memory.memory p turns fde)
    (regular' : Regular memory.memory p turns fde') (inside : fde.pcStart ≤ pc) (inside' : fde'.pcStart ≤ pc')
    (cie : fde.cie = fde'.cie) (offset : fde.cieOffset = fde'.cieOffset) :
    AlikeOutcomes False (cieRun memory p pc fde) (cieRun memory p pc' fde') := by
  unfold cieRun
  rw [← offset, ← cie]
  refine Alike.runTo_static ⟨rfl, cie, rfl, rfl, rfl, nofun⟩ regular.static ?_ ?_
  · exact regular.within inside rfl
  · exact regular'.within inside' rfl

/-- The program of an FDE starts alike from kept rules and from rules just found. -/
theorem fdeRun_eq {memory : DwarfMemory} (regular : Regular memory.memory p turns fde)
    (inside : fde.pcStart ≤ pc') {cfa : DwarfCfa a} (run : cieRun memory p pc' fde = .ok cfa) {cie : LocRegs}
    (rules : cie.rules = cfa.locRegs.rules) :
    fdeRun p pc fde cie { memory, fde } = fdeRun p pc fde cfa.locRegs cfa := by
  obtain ⟨saved, same, -, n, skipped⟩ := runTo_static regular.static (regular.within inside rfl) run
  refine Alike.locRegs_runTo ⟨?_, ?_, ?_, ?_, ?_, fun _ => ⟨?_, ?_, ?_⟩⟩ same.symm
  · change memory.setCurOffset _ = cfa.memory.setCurOffset _
    rw [skipped]
    rfl
  · exact congrArg DwarfFde.cie same.symm
  · exact congrArg some rules
  · funext reg
    change (cie.rules reg).or none = (cfa.locRegs.rules reg).or (cfa.locRegs.rules reg)
    rw [rules, Option.or_none, Option.or_self]
  · exact congrArg (List.map LocRegs.rules) saved.symm
  · exact congrArg (fun f : DwarfFde => f.pcStart.setWidth a.bits) same.symm
  · exact congrArg (fun f : DwarfFde => (f.pcStart.setWidth a.bits).setWidth 64) same.symm
  · exact congrArg (List.map LocRegs.pcStart) saved.symm

theorem findCie_cons (entry : BitVec 64 × LocRegs) (kept : List (BitVec 64 × LocRegs)) (cieOffset : BitVec 64) :
    findCie (entry :: kept) cieOffset =
      if entry.1 = cieOffset then some entry.2 else findCie kept cieOffset := by
  unfold findCie
  rw [List.find?_cons]
  by_cases same : entry.1 = cieOffset
  · rw [decide_eq_true same, if_pos same]
    rfl
  · rw [decide_eq_false same, if_neg same]

/-- **`GetCfaLocationInfo`** finds what it finds without a cache, and keeps what it may. -/
theorem getCfaLocationInfo_eq (regulars : Regulars s p turns) (kept : KeptRight s p)
    (found : s.getFdeFromPc pc = .ok fde) :
    (s.getCfaLocationInfo turns pc fde).1 = some (locRegsAt s.memory p pc fde) ∧
      (s.getCfaLocationInfo turns pc fde).2.memory = s.memory ∧
      (s.getCfaLocationInfo turns pc fde).2.getFdeFromPc = s.getFdeFromPc ∧
      (s.getCfaLocationInfo turns pc fde).2.locRegs = s.locRegs ∧
      KeptRight (s.getCfaLocationInfo turns pc fde).2 p := by
  have regular := regulars.regular pc fde found
  obtain ⟨inside, -⟩ := regulars.inside pc fde found
  unfold getCfaLocationInfo
  cases known : findCie s.cieLocRegs fde.cieOffset with
  | some cie =>
    refine ⟨?_, rfl, rfl, rfl, kept⟩
    obtain ⟨pc', fde', cfa', found', offset, run', rfl⟩ := kept _ _ known
    have both := cieRun_alike regular (regulars.regular pc' fde' found') inside
      (regulars.inside pc' fde' found').1 (regulars.oneCie _ _ _ _ found found' offset.symm) offset.symm
    rw [run'] at both
    cases run : cieRun s.memory p pc fde with
    | error halt =>
      rw [run] at both
      exact both.elim
    | ok cfa =>
      rw [run] at both
      rw [locRegsAt, run]
      change fdeLocationInfo turns pc fde cfa'.locRegs { memory := s.memory, fde } = _
      rw [fdeLocationInfo, regular.fdeProgram.getLocationInfo regular.fdeEnough]
      exact congrArg some (fdeRun_eq regular inside run both.rules.symm)
  | none =>
    have first := @Placed.getLocationInfo _ { memory := s.memory, fde } _ pc _ _ _
      regular.cieProgram regular.cieEnough
    change DwarfCfa.getLocationInfo _ turns pc _ _ = some (cieRun s.memory p pc fde) at first
    dsimp only
    rw [first]
    cases run : cieRun s.memory p pc fde with
    | error halt =>
      rw [locRegsAt, run]
      exact ⟨rfl, rfl, rfl, rfl, kept⟩
    | ok cfa =>
      refine ⟨?_, rfl, rfl, rfl, ?_⟩
      · obtain ⟨-, -, -, n, skipped⟩ := runTo_static regular.static (regular.within inside rfl) run
        have placed : Placed cfa.memory.memory fde.cfaInstructionsOffset fde.cfaInstructionsEnd
            (p.fdeInstrs fde) := by
          rw [skipped]
          exact regular.fdeProgram
        rw [locRegsAt, run]
        change fdeLocationInfo turns pc fde cfa.locRegs cfa = _
        rw [fdeLocationInfo, Placed.getLocationInfo (s := { cfa with cieLocRegs := some cfa.locRegs }) placed
          regular.fdeEnough]
        rfl
      · intro cieOffset cie known'
        change findCie ((fde.cieOffset, cfa.locRegs) :: s.cieLocRegs) cieOffset = some cie at known'
        rw [findCie_cons] at known'
        split at known'
        · next same =>
          cases known'
          exact ⟨pc, fde, cfa, found, same, run, rfl⟩
        · exact kept cieOffset cie known'

/-! ## A run of steps -/

/-- The row of an address, without any cache. -/
def rowAt (s : DwarfSection a) (p : Programs a) (q : Nat) : Except Halt (Row (Rules × DwarfCie)) :=
  if q < 2 ^ 64 then
    match s.getFdeFromPc (BitVec.ofNat 64 q) with
    | .error (.error _) => fail .illegalState
    | .error halt => .error halt
    | .ok fde => (locRegsAt s.memory p (BitVec.ofNat 64 q) fde).map fun locRegs =>
      ⟨locRegs.pcStart.toNat, locRegs.pcEnd.toNat, (locRegs.rules, fde.cie)⟩
  else fail .illegalState

theorem rowAt_toNat (s : DwarfSection a) (p : Programs a) (pc : BitVec 64) :
    rowAt s p pc.toNat =
      match s.getFdeFromPc pc with
      | .error (.error _) => fail .illegalState
      | .error halt => .error halt
      | .ok fde => (locRegsAt s.memory p pc fde).map fun locRegs =>
        ⟨locRegs.pcStart.toNat, locRegs.pcEnd.toNat, (locRegs.rules, fde.cie)⟩ := by
  rw [rowAt, if_pos pc.isLt, BitVec.ofNat_toNat, BitVec.setWidth_eq]

/-- The rules that are found for an address hold for a range around it, within the range of the FDE. -/
theorem locRegsAt_row (regular : Regular s.memory.memory p turns fde) (inside : fde.pcStart ≤ pc)
    (inside' : pc < fde.pcEnd) {locRegs : LocRegs} (found : locRegsAt s.memory p pc fde = .ok locRegs) :
    fde.pcStart ≤ locRegs.pcStart ∧ locRegs.pcStart ≤ pc ∧ pc < locRegs.pcEnd ∧
      locRegs.pcEnd ≤ fde.pcEnd ∧
      ∀ pc', locRegs.pcStart ≤ pc' → pc' < locRegs.pcEnd →
        ∃ locRegs', locRegsAt s.memory p pc' fde = .ok locRegs' ∧ locRegs'.rules = locRegs.rules := by
  rw [locRegsAt] at found
  cases run : cieRun s.memory p pc fde with
  | error halt =>
    rw [run] at found
    cases found
  | ok cfa =>
    rw [run] at found
    change fdeRun p pc fde cfa.locRegs cfa = .ok locRegs at found
    obtain ⟨-, same, -⟩ := runTo_static regular.static (regular.within inside rfl) run
    let first : DwarfCfa a := { cfa with cieLocRegs := some cfa.locRegs }.start fde.cfaInstructionsOffset
    have fde' : first.fde = fde := same
    have there : first.curPc = fde.pcStart.setWidth a.bits :=
      congrArg (fun f : DwarfFde => f.pcStart.setWidth a.bits) same
    have start : first.curPc.toNat = fde.pcStart.toNat := by
      rw [there, ← toNat_widen, regular.narrow]
    have begun : first.locRegs.pcStart = fde.pcStart := by
      change (cfa.fde.pcStart.setWidth a.bits).setWidth 64 = _
      rw [same]
      exact regular.narrow
    have forward : Forward fde.pcEnd (p.fdeInstrs fde) first := by
      refine Rising.forward ?_
      rw [fde', there]
      exact regular.rising
    rw [fdeRun] at found
    cases run' : runTo pc (p.fdeInstrs fde) first with
    | error halt =>
      rw [run'] at found
      cases found
    | ok r =>
      rw [run'] at found
      cases found
      obtain ⟨lower, before, behind, upper⟩ := runTo_range forward regular.fresh (regular.within inside there)
        (Nat.le_of_eq start.symm) (fun _ => ⟨Nat.le_of_eq (congrArg BitVec.toNat begun).symm, begun ▸ inside⟩)
        (congrArg DwarfFde.pcEnd fde') inside' run'
      refine ⟨BitVec.le_def.mpr lower, before, behind, upper, fun pc' low high => ?_⟩
      obtain ⟨r', run'', rules⟩ := runTo_row forward regular.fresh run' low high
      refine ⟨r'.locRegs, ?_, rules⟩
      have lower' : fde.pcStart ≤ pc' := BitVec.le_trans (BitVec.le_def.mpr lower) low
      have both := cieRun_alike regular regular inside lower' rfl rfl
      rw [run] at both
      cases again : cieRun s.memory p pc' fde with
      | error halt =>
        rw [again] at both
        exact both.elim
      | ok cfa' =>
        rw [again] at both
        rw [locRegsAt, again]
        change fdeRun p pc' fde cfa'.locRegs cfa' = _
        rw [← fdeRun_eq regular lower' again both.rules, fdeRun_eq regular inside run rfl, fdeRun]
        change (runTo pc' (p.fdeInstrs fde) first).map _ = _
        rw [run'']
        rfl

/-- The row of an address answers for all of its range. -/
theorem uniform_rowAt (regulars : Regulars s p turns) : Uniform (rowAt s p) := by
  have row {pc : BitVec 64} {row : Row (Rules × DwarfCie)} (asked : rowAt s p pc.toNat = .ok row) :
      row.start ≤ pc.toNat ∧ pc.toNat < row.stop ∧ row.stop ≤ 2 ^ 64 ∧ row.Right (rowAt s p) := by
    rw [rowAt_toNat] at asked
    cases found : s.getFdeFromPc pc with
    | error halt =>
      rw [found] at asked
      cases halt <;> cases asked
    | ok fde =>
      rw [found] at asked
      dsimp only at asked
      cases locs : locRegsAt s.memory p pc fde with
      | error halt =>
        rw [locs] at asked
        cases asked
      | ok locRegs =>
        rw [locs] at asked
        cases asked
        obtain ⟨inside, inside'⟩ := regulars.inside pc fde found
        obtain ⟨lower, before, behind, upper, same⟩ :=
          locRegsAt_row (regulars.regular pc fde found) inside inside' locs
        refine ⟨before, behind, Nat.le_of_lt locRegs.pcEnd.isLt, Nat.lt_of_le_of_lt before behind,
          fun q low high => ?_⟩
        obtain ⟨pc', rfl⟩ : ∃ pc' : BitVec 64, pc'.toNat = q :=
          ⟨BitVec.ofNat 64 q, by
            rw [BitVec.toNat_ofNat, Nat.mod_eq_of_lt]
            exact Nat.lt_trans high locRegs.pcEnd.isLt⟩
        obtain ⟨locRegs', locs', rules⟩ := same pc' (BitVec.le_def.mpr low) (BitVec.lt_def.mpr high)
        have found' := regulars.uniform pc fde found pc' (BitVec.le_trans lower (BitVec.le_def.mpr low))
          (BitVec.lt_def.mpr (Nat.lt_of_lt_of_le high (BitVec.le_def.mp upper)))
        rw [fresh, rowAt_toNat, found']
        dsimp only
        rw [locs']
        change Except.ok (locRegs'.rules, fde.cie) = _
        rw [rules]
  intro q found asked
  have small : q < 2 ^ 64 := by
    by_contra large
    rw [rowAt, if_neg large] at asked
    cases asked
  obtain ⟨pc, rfl⟩ : ∃ pc : BitVec 64, pc.toNat = q :=
    ⟨BitVec.ofNat 64 q, by rw [BitVec.toNat_ofNat, Nat.mod_eq_of_lt small]⟩
  obtain ⟨before, behind, -, right⟩ := row asked
  exact ⟨before, behind, right⟩

/-- Where the cache has no row, the row is found and kept. -/
theorem fillLocRegs_eq (regulars : Regulars s p turns) (kept : KeptRight s p) :
    (s.fillLocRegs turns pc).1 = some (miss (rowAt s p) s.locRegs pc.toNat).1 ∧
      (s.fillLocRegs turns pc).2.locRegs = (miss (rowAt s p) s.locRegs pc.toNat).2 ∧
      (s.fillLocRegs turns pc).2.memory = s.memory ∧
      (s.fillLocRegs turns pc).2.getFdeFromPc = s.getFdeFromPc ∧
      KeptRight (s.fillLocRegs turns pc).2 p := by
  unfold fillLocRegs miss
  rw [rowAt_toNat]
  cases found : s.getFdeFromPc pc with
  | error halt =>
    cases halt <;> exact ⟨rfl, rfl, rfl, rfl, kept⟩
  | ok fde =>
    obtain ⟨answer, memory, lookup, cache, kept'⟩ := getCfaLocationInfo_eq regulars kept found
    dsimp only
    generalize s.getCfaLocationInfo turns pc fde = out at answer memory lookup cache kept'
    obtain ⟨answer', after⟩ := out
    dsimp only at answer memory lookup cache kept'
    subst answer
    cases locs : locRegsAt s.memory p pc fde with
    | error halt => exact ⟨rfl, cache, memory, lookup, kept'⟩
    | ok locRegs =>
      dsimp only [Except.map]
      rw [cache]
      exact ⟨rfl, rfl, memory, lookup, kept'⟩

/-- The first half of `Step` is a query of the cache. -/
theorem getLocRegs_eq (regulars : Regulars s p turns) (kept : KeptRight s p) :
    (s.getLocRegs turns pc).1 = some (query (rowAt s p) s.locRegs pc.toNat).1 ∧
      (s.getLocRegs turns pc).2.locRegs = (query (rowAt s p) s.locRegs pc.toNat).2 ∧
      (s.getLocRegs turns pc).2.memory = s.memory ∧
      (s.getLocRegs turns pc).2.getFdeFromPc = s.getFdeFromPc ∧
      KeptRight (s.getLocRegs turns pc).2 p := by
  unfold getLocRegs query
  cases upperBound s.locRegs pc.toNat with
  | none => exact fillLocRegs_eq regulars kept
  | some row =>
    dsimp only
    split
    · exact fillLocRegs_eq regulars kept
    · exact ⟨rfl, rfl, rfl, rfl, kept⟩

/-- The section with nothing in its caches. -/
def emptied (s : DwarfSection a) : DwarfSection a := { s with cieLocRegs := [], locRegs := [] }

/-- What `Step` keeps is right. -/
structure Coherent (s : DwarfSection a) (p : Programs a) : Prop where
  cies : KeptRight s p
  rows : ∀ row ∈ s.locRegs, row.Right (rowAt s p)

theorem coherent_emptied (s : DwarfSection a) (p : Programs a) : Coherent s.emptied p := ⟨nofun, nofun⟩

variable {regs : Regs a} {processMemory : Memory} {order : Rules → List Nat}

theorem step_getLocRegs (known : (s.getLocRegs turns pc).1 = (s'.getLocRegs turns pc).1)
    (memory : (s.getLocRegs turns pc).2.memory = (s'.getLocRegs turns pc).2.memory) :
    (s.step turns pc regs processMemory order).1 = (s'.step turns pc regs processMemory order).1 := by
  unfold step
  generalize s.getLocRegs turns pc = out at known memory
  generalize s'.getLocRegs turns pc = out' at known memory
  obtain ⟨o, t⟩ := out
  obtain ⟨o', t'⟩ := out'
  dsimp only at known memory
  subst known
  cases o with
  | none => rfl
  | some o =>
    cases o with
    | error halt => rfl
    | ok answer =>
      dsimp only
      rw [memory]

theorem step_section : (s.step turns pc regs processMemory order).2 = (s.getLocRegs turns pc).2 := by
  unfold step
  generalize s.getLocRegs turns pc = out
  obtain ⟨o, t⟩ := out
  cases o with
  | none => rfl
  | some o => cases o <;> rfl

/-- **A step** gives what it gives without caches, and leaves them right. -/
theorem step_eq (regulars : Regulars s p turns) (coherent : Coherent s p) :
    (s.step turns pc regs processMemory order).1 = (s.emptied.step turns pc regs processMemory order).1 ∧
      Regulars (s.step turns pc regs processMemory order).2 p turns ∧
      Coherent (s.step turns pc regs processMemory order).2 p ∧
      (s.step turns pc regs processMemory order).2.emptied = s.emptied := by
  have regulars' : Regulars s.emptied p turns :=
    ⟨regulars.inside, regulars.uniform, regulars.oneCie, regulars.regular⟩
  obtain ⟨known, cache, memory, lookup, kept⟩ := @getLocRegs_eq _ s p turns pc regulars coherent.cies
  obtain ⟨known', -, memory', -, -⟩ := @getLocRegs_eq _ s.emptied p turns pc regulars'
    (coherent_emptied s p).cies
  obtain ⟨answer, rows⟩ := query_right (uniform_rowAt regulars) coherent.rows pc.toNat
  obtain ⟨answer', -⟩ := query_right (uniform_rowAt regulars') (coherent_emptied s p).rows pc.toNat
  refine ⟨step_getLocRegs ?_ (memory.trans memory'.symm), ?_⟩
  · rw [known, known', answer, answer']
    rfl
  rw [step_section]
  generalize (s.getLocRegs turns pc).2 = after at cache memory lookup kept
  obtain ⟨memory₂, lookup₂, cies₂, cache₂⟩ := after
  dsimp only at cache memory lookup
  subst cache memory lookup
  exact ⟨⟨regulars.inside, regulars.uniform, regulars.oneCie, regulars.regular⟩, ⟨kept, rows⟩, rfl⟩

/-- **A run of steps.** Where the tables are regular, whatever was asked before, each step gives what a section
with nothing in its caches gives. -/
theorem steps_eq (regulars : Regulars s p turns) (asked : List (BitVec 64 × Regs a × Memory)) :
    steps turns order s.emptied asked =
      asked.map fun (pc, regs, processMemory) =>
        (s.emptied.step turns pc regs processMemory order).1 := by
  have run {t : DwarfSection a} (regulars : Regulars t p turns) (coherent : Coherent t p) :
      steps turns order t asked = asked.map fun (pc, regs, processMemory) =>
        (t.emptied.step turns pc regs processMemory order).1 := by
    induction asked generalizing t with
    | nil => rfl
    | cons first rest ih =>
      obtain ⟨pc, regs, processMemory⟩ := first
      obtain ⟨answer, regulars', coherent', same⟩ :=
        @step_eq _ t p turns pc regs processMemory order regulars coherent
      rw [steps, ih regulars' coherent', answer, same, List.map_cons]
  have regulars' : Regulars s.emptied p turns :=
    ⟨regulars.inside, regulars.uniform, regulars.oneCie, regulars.regular⟩
  exact run regulars' (coherent_emptied s p)

/-- The frame is 16 bytes above register 3. -/
def framing : List (CfaInstr .uint64) := [.defCfaShort 3 16]

/-- A function of 16 bytes that saves a register, its return address, at 4. -/
def savingFde : DwarfFde where
  cfaInstructionsOffset := 3
  cfaInstructionsEnd := 6
  pcEnd := 16
  cie :=
    { codeAlignmentFactor := 1, dataAlignmentFactor := -8, returnAddressRegister := 1
      cfaInstructionsEnd := 3 }

/-- A section with this function. -/
def oneFde : DwarfSection .uint64 where
  memory :=
    { memory := memoryBuffer ([] ++ (CfaInstr.encodeAll framing ++ CfaInstr.encodeAll saving) ++ [])
      abi := .lp64 }
  getFdeFromPc pc := if pc < 16 then .ok savingFde else fail .illegalState

theorem regulars_oneFde : Regulars oneFde ⟨fun _ => framing, fun _ => saving⟩ 3 := by
  have holds : oneFde.memory.memory.Holds 0
      (CfaInstr.encodeAll framing ++ CfaInstr.encodeAll saving) :=
    Memory.holds_memoryBuffer (by decide) rfl
  have inside {pc : BitVec 64} {fde : DwarfFde} (found : oneFde.getFdeFromPc pc = .ok fde) :
      pc < 16 ∧ fde = savingFde := by
    unfold oneFde at found
    dsimp only at found
    split at found
    · next below => exact ⟨below, (Except.ok.inj found).symm⟩
    · cases found
  constructor
  · intro pc fde found
    obtain ⟨below, rfl⟩ := inside found
    exact ⟨BitVec.le_def.mpr (Nat.zero_le _), below⟩
  · intro pc fde found pc' _ below'
    obtain ⟨-, rfl⟩ := inside found
    exact if_pos below'
  · intro pc pc' fde fde' found found' _
    obtain ⟨-, rfl⟩ := inside found
    obtain ⟨-, rfl⟩ := inside found'
    rfl
  · intro pc fde found
    obtain ⟨-, rfl⟩ := inside found
    exact
      { narrow := rfl
        cieProgram := ⟨holds.left, by decide⟩
        fdeProgram := ⟨holds.right, by decide⟩
        cieEnough := by decide
        fdeEnough := by decide
        static := fun i mem => by
          cases List.mem_singleton.mp mem
          exact ⟨nofun, nofun, nofun, nofun⟩
        rising := ⟨by decide, by decide, by decide, by decide, trivial⟩
        fresh := fun i mem => by cases mem; exact id }

/-- The address to which a step returns, and the stack pointer there. -/
def returned : Option (Except Halt (Regs .uint64 × Bool)) → Option (BitVec 64 × BitVec 64)
  | some (.ok (caller, _)) => some (caller.get caller.pcReg, caller.get caller.spReg)
  | _ => none

/-- The frame's address, and the register where it is saved. -/
def framed (rules : Rules) : List Nat := [65535, 1].filter fun reg => (rules reg).isSome

/-- A stack with a return address at 48. -/
def returnStack : Memory := memoryBuffer (List.replicate 48 0 ++ encodeLE 8 99)

/-- Asked for 2, for 6 and for 2 again: the register is not saved yet, it is saved, and the rules for 2 are
the first ones though both are kept. -/
theorem steps_eq_oneFde :
    steps 3 framed oneFde.emptied
        [(2, fourRegs, returnStack), (6, fourRegs, returnStack), (2, fourRegs, returnStack)] =
      [(2, fourRegs, returnStack), (6, fourRegs, returnStack), (2, fourRegs, returnStack)].map
        (fun (pc, regs, processMemory) => (oneFde.emptied.step 3 pc regs processMemory framed).1) ∧
    (steps 3 framed oneFde.emptied
        [(2, fourRegs, returnStack), (6, fourRegs, returnStack), (2, fourRegs, returnStack)]).map
      returned = [some (20, 56), some (99, 56), some (20, 56)] := by
  refine ⟨steps_eq regulars_oneFde _, ?_⟩
  rw [steps_eq regulars_oneFde]
  decide +kernel

end DwarfSection

end Dolin.Unwindstack
