import Dolin.Laws.Unwindstack.DwarfMemory
import Dolin.Unwindstack.DwarfCfa

/-!
# Call frame instructions

Where instructions stand one behind the other, `GetLocationInfo` carries them out in order, up to the
first that goes beyond the address it is asked for. The rules it finds hold for all addresses in the range
it tells, as long as the instructions only move forward and the last of them does not bring back rules:
then the range that is told starts where those rules were kept.
-/

namespace Dolin.Unwindstack

open Region Leb128 DwarfMemory

variable {a : AddressType}

/-- An instruction as it stands in a section. -/
inductive CfaInstr (a : AddressType) where
  | advance (low : Fin 64)
  | offset (reg : Fin 64) (n : BitVec 64) (operandBytes : Bytes)
      (reads : Reads readULEB128 operandBytes n)
  | restore (reg : Fin 64)
  | extended (low : Fin 64) (handler : CfaHandler) (encodings : List UInt8)
      (known : cfaTable low.val = some (handler, encodings)) (operandBytes : Bytes)
      (operands : List (BitVec a.bits))
      (reads : Reads (DwarfCfa.readOperands a encodings) operandBytes operands)

namespace CfaInstr

/-- The bytes of an instruction. -/
def encode : CfaInstr a → Bytes
  | advance low => [UInt8.ofNat (0x40 + low.val)]
  | offset reg _ operandBytes _ => UInt8.ofNat (0x80 + reg.val) :: operandBytes
  | restore reg => [UInt8.ofNat (0xc0 + reg.val)]
  | extended low _ _ _ operandBytes _ _ => UInt8.ofNat low.val :: operandBytes

/-- `DW_CFA_offset` with its number in the shortest form. -/
def offsetShort (reg : Fin 64) (n : BitVec 64) : CfaInstr a := offset reg n _ (reads_readULEB128 n)

/-- `DW_CFA_def_cfa` with its numbers in the shortest form. -/
def defCfaShort (reg n : BitVec 64) : CfaInstr a :=
  extended ⟨0x0c, by decide⟩ .defCfa [0x01, 0x01] rfl _ [reg.setWidth a.bits, n.setWidth a.bits]
    ((Reads.readEncodedValue .uleb128 rfl rfl (reads_readULEB128 reg)).andThen
      (((Reads.readEncodedValue .uleb128 rfl rfl (reads_readULEB128 n)).andThen
        ((reads_pure []).map _)).map _))

/-- The bytes of instructions one behind the other. -/
def encodeAll (is : List (CfaInstr a)) : Bytes := is.flatMap encode

/-- The state in which an instruction is carried out: behind it, with the range of the rules begun. -/
def enter (i : CfaInstr a) (s : DwarfCfa a) : DwarfCfa a :=
  { s with
    memory := s.memory.skip i.encode.length
    locRegs := { s.locRegs with pcStart := s.curPc.setWidth 64 }
    operands := [] }

/-- What an instruction does. -/
def exec (s : DwarfCfa a) (i : CfaInstr a) : DwarfCfa.Outcome a :=
  match i with
  | advance low => .ok ((i.enter s).advance (BitVec.ofNat 64 low.val))
  | offset reg n _ _ => ((i.enter s).factored (n.setWidth a.bits)).map fun v =>
    (i.enter s).setRule reg.val (some { type := .offset, value0 := v })
  | restore reg => (i.enter s).restoreRule reg.val
  | extended _ handler _ _ _ operands _ => { i.enter s with operands := operands }.handle handler

/-- The instruction brings back the rules that were kept. -/
def restoresState : CfaInstr a → Prop
  | extended _ .restoreState _ _ _ _ _ => True
  | _ => False

theorem encode_ne_nil (i : CfaInstr a) : i.encode ≠ [] := by
  cases i <;> exact List.cons_ne_nil _ _

end CfaInstr

namespace DwarfCfa

open CfaInstr

variable {s s' r : DwarfCfa a} {i : CfaInstr a} {is : List (CfaInstr a)} {pc pc' stop : BitVec 64}

private theorem high_low (n : Fin 64) (high : Fin 4) :
    (UInt8.ofNat (0x40 * high.val + n.val)).toNat / 0x40 = high.val ∧
      (UInt8.ofNat (0x40 * high.val + n.val)).toNat % 0x40 = n.val := by
  rw [UInt8.toNat_ofNat']
  omega

/-- **A turn of the loop** carries out the instruction under the cursor. -/
theorem process_instr (i : CfaInstr a) (holds : s.memory.memory.Holds s.memory.curOffset i.encode) :
    s.process = i.exec s := by
  cases i with
  | advance low =>
    obtain ⟨high, low'⟩ := high_low low 1
    have first := reads_readByte _ s.memory holds
    simp only [process, reading, first]
    rw [show (0x40 + low.val) = 0x40 * (1 : Fin 4).val + low.val from rfl, high, low']
    rfl
  | offset reg n operandBytes reads =>
    obtain ⟨high, low'⟩ := high_low reg 2
    have parts : s.memory.memory.Holds s.memory.curOffset
      ([UInt8.ofNat (0x80 + reg.val)] ++ operandBytes) := holds
    have first := reads_readByte _ s.memory parts.left
    have rest := reads (s.memory.skip [UInt8.ofNat (0x80 + reg.val)].length) parts.right
    rw [skip_skip, ← List.length_append] at rest
    simp only [process, reading, first, rest]
    rw [show (0x80 + reg.val) = 0x40 * (2 : Fin 4).val + reg.val from rfl, high, low']
    rfl
  | restore reg =>
    obtain ⟨high, low'⟩ := high_low reg 3
    have first := reads_readByte _ s.memory holds
    simp only [process, reading, first]
    rw [show (0xc0 + reg.val) = 0x40 * (3 : Fin 4).val + reg.val from rfl, high, low']
    rfl
  | extended low handler encodings known operandBytes operands reads =>
    obtain ⟨high, low'⟩ := high_low low 0
    rw [Fin.val_zero, Nat.mul_zero, Nat.zero_add] at high low'
    have parts : s.memory.memory.Holds s.memory.curOffset ([UInt8.ofNat low.val] ++ operandBytes) := holds
    have first := reads_readByte _ s.memory parts.left
    have rest := reads (s.memory.skip [UInt8.ofNat low.val].length) parts.right
    rw [skip_skip, ← List.length_append] at rest
    simp only [process, reading, first, high, low', known, rest]
    rfl

/-! ## What an instruction can do -/

/-- What an instruction can do, but for bringing rules back: it goes to another address, it changes
rules, or it keeps them. -/
inductive Effect (s : DwarfCfa a) : DwarfCfa a → Prop where
  | moved (pc : BitVec a.bits) : Effect s { s with curPc := pc }
  | ruled (rules : Rules) : Effect s { s with locRegs := { s.locRegs with rules := rules } }
  | kept : Effect s { s with locRegState := s.locRegs :: s.locRegState }

/-- The rules that were kept last are brought back, with the range that they had then. -/
def BroughtBack (s s' : DwarfCfa a) : Prop :=
  ∃ top rest, s.locRegState = top :: rest ∧ s' = { s with locRegs := top, locRegState := rest }

theorem effect_setRule (s : DwarfCfa a) (reg : Nat) (rule : Option DwarfLocation) :
    Effect s (s.setRule reg rule) := .ruled _

theorem effect_restoreRule {reg : Nat} (step : s.restoreRule reg = .ok s') : Effect s s' := by
  unfold restoreRule at step
  split at step
  · cases step
  · cases step
    exact effect_setRule s _ _

theorem effect_changeCfa {f : DwarfLocation → DwarfLocation} (step : s.changeCfa f = .ok s') :
    Effect s s' := by
  unfold changeCfa at step
  split at step
  · split at step
    · cases step
      exact effect_setRule s _ _
    · cases step
  · cases step

theorem effect_map {v : Except Halt (BitVec 64)} {reg : Nat} {f : BitVec 64 → DwarfLocation}
    (step : v.map (fun x => s.setRule reg (some (f x))) = .ok s') : Effect s s' := by
  cases v with
  | error halt => cases step
  | ok x =>
    cases step
    exact effect_setRule s _ _

/-- **The handlers**, by what they can do. -/
theorem handle_cases {h : CfaHandler} (step : s.handle h = .ok s') :
    Effect s s' ∨ h = .restoreState ∧ BroughtBack s s' := by
  cases h with
  | restoreState =>
    rw [handle] at step
    split at step
    · cases step
      exact .inl (.ruled s.locRegs.rules)
    · next top rest kept =>
      cases step
      exact .inr ⟨rfl, top, rest, kept, rfl⟩
  | nop =>
    cases step
    exact .inl (.ruled s.locRegs.rules)
  | setLoc | advanceLoc =>
    cases step
    exact .inl (.moved _)
  | rememberState =>
    cases step
    exact .inl .kept
  | offset | undefined | sameValue | register | defCfa | defCfaExpression | expression | valExpression =>
    cases step
    exact .inl (effect_setRule s _ _)
  | restore => exact .inl (effect_restoreRule step)
  | defCfaRegister | defCfaOffset => exact .inl (effect_changeCfa step)
  | offsetExtendedSf | defCfaSf | valOffset | valOffsetSf => exact .inl (effect_map step)
  | defCfaOffsetSf =>
    rw [handle] at step
    split at step
    · split at step
      · exact .inl (effect_map step)
      · cases step
    · cases step
  | gnuNegativeOffsetExtended =>
    rw [handle] at step
    cases negated : DwarfOp.negate (s.operandAt 1) with
    | error halt =>
      rw [negated] at step
      cases step
    | ok v =>
      rw [negated] at step
      cases step
      exact .inl (effect_setRule s _ _)

/-- **An instruction**, by what it can do. -/
theorem exec_cases (step : i.exec s = .ok s') :
    ∃ operands, Effect { i.enter s with operands := operands } s' ∨
      i.restoresState ∧ BroughtBack { i.enter s with operands := operands } s' := by
  cases i with
  | advance low =>
    cases step
    exact ⟨[], .inl (.moved _)⟩
  | offset reg n operandBytes reads => exact ⟨[], .inl (effect_map step)⟩
  | restore reg => exact ⟨[], .inl (effect_restoreRule step)⟩
  | extended low handler encodings known operandBytes operands reads =>
    refine ⟨operands, ?_⟩
    rcases handle_cases step with effect | ⟨rfl, back⟩
    · exact .inl effect
    · exact .inr ⟨trivial, back⟩

/-- What no instruction changes, and where it leaves the cursor. -/
theorem exec_frame (step : i.exec s = .ok s') :
    s'.fde = s.fde ∧ s'.cieLocRegs = s.cieLocRegs ∧ s'.memory = s.memory.skip i.encode.length := by
  obtain ⟨operands, effect | ⟨-, top, rest, -, rfl⟩⟩ := exec_cases step
  · cases effect <;> exact ⟨rfl, rfl, rfl⟩
  · exact ⟨rfl, rfl, rfl⟩

/-- The range of the rules begins where the instruction was met, unless rules were brought back. -/
theorem exec_pcStart (step : i.exec s = .ok s') (fresh : s'.curPc ≠ s.curPc ∨ ¬ i.restoresState) :
    s'.locRegs.pcStart = s.curPc.setWidth 64 := by
  obtain ⟨operands, effect | ⟨restores, top, rest, -, rfl⟩⟩ := exec_cases step
  · cases effect <;> rfl
  · rcases fresh with moves | other
    · exact absurd rfl moves
    · exact absurd restores other

/-! ## Instructions in a row -/

/-- The rules end at an address. -/
def endingAt (s : DwarfCfa a) (pcEnd : BitVec 64) : DwarfCfa a :=
  { s with locRegs := { s.locRegs with pcEnd := pcEnd } }

/-- The address of the state is beyond `pc`. -/
abbrev Beyond (pc : BitVec 64) (s : DwarfCfa a) : Prop := pc < s.curPc.setWidth 64

/-- The instructions carried out in order, up to the first that goes beyond `pc`. -/
def runTo (pc : BitVec 64) : List (CfaInstr a) → DwarfCfa a → Outcome a
  | [], s => .ok (s.endingAt (if Beyond pc s then s.curPc.setWidth 64 else s.fde.pcEnd))
  | i :: is, s =>
    if Beyond pc s then .ok (s.endingAt (s.curPc.setWidth 64)) else (i.exec s).bind (runTo pc is)

/-- The instructions stand where the loop is to read them. -/
structure Ready (s : DwarfCfa a) (stop : BitVec 64) (is : List (CfaInstr a)) : Prop where
  holds : s.memory.memory.Holds s.memory.curOffset (encodeAll is)
  ends : s.memory.curOffset.toNat + (encodeAll is).length = stop.toNat

theorem Ready.lt (ready : Ready s stop (i :: is)) : ¬ stop ≤ s.memory.curOffset := by
  have ends := ready.ends
  have positive := List.length_pos_of_ne_nil i.encode_ne_nil
  rw [encodeAll, List.flatMap_cons, List.length_append] at ends
  rw [BitVec.le_def]
  omega

theorem Ready.process (ready : Ready s stop (i :: is)) : s.process = i.exec s := by
  have holds := ready.holds
  rw [encodeAll, List.flatMap_cons] at holds
  exact process_instr i holds.left

theorem Ready.next (ready : Ready s stop (i :: is)) (step : i.exec s = .ok s') : Ready s' stop is := by
  have memory := (exec_frame step).2.2
  have ends := ready.ends
  have holds := ready.holds
  rw [encodeAll, List.flatMap_cons] at ends holds
  constructor
  · rw [memory]
    exact holds.right
  · have bound := stop.isLt
    rw [List.length_append] at ends
    rw [memory, skip_curOffset, BitVec.toNat_add, BitVec.toNat_ofNat, encodeAll]
    omega

/-- **The loop of `GetLocationInfo`** over instructions in a row ends, and carries them out in order. -/
theorem loop_ready (ready : Ready s stop is) {turns : Nat} (enough : is.length < turns) :
    loop pc stop turns s = some (runTo pc is s) := by
  induction is generalizing s turns with
  | nil =>
    obtain ⟨turns, rfl⟩ := Nat.exists_eq_succ_of_ne_zero (Nat.ne_of_gt enough)
    have done : stop ≤ s.memory.curOffset := by
      rw [BitVec.le_def]
      exact Nat.le_of_eq ready.ends.symm
    rw [loop, runTo]
    by_cases beyond : Beyond pc s
    · rw [if_pos beyond, if_pos beyond]
      rfl
    · rw [if_neg beyond, if_neg beyond, if_pos done]
      rfl
  | cons i is ih =>
    obtain ⟨turns, rfl⟩ := Nat.exists_eq_succ_of_ne_zero (Nat.ne_of_gt (Nat.lt_of_le_of_lt
      (Nat.zero_le _) enough))
    rw [loop, runTo]
    by_cases beyond : Beyond pc s
    · rw [if_pos beyond, if_pos beyond]
      rfl
    · rw [if_neg beyond, if_neg beyond, if_neg ready.lt, ready.process]
      cases step : i.exec s with
      | error halt => rfl
      | ok s' => exact ih (ready.next step) (Nat.lt_of_succ_lt_succ enough)

/-! ## The rows of the table -/

/-- The instructions only move forward, and not beyond `bound`. -/
def Forward (bound : BitVec 64) : List (CfaInstr a) → DwarfCfa a → Prop
  | [], _ => True
  | i :: is, s => ∀ s', i.exec s = .ok s' →
    s.curPc ≤ s'.curPc ∧ s'.curPc.setWidth 64 ≤ bound ∧ Forward bound is s'

/-- The last instruction does not bring back rules. -/
def EndsFresh (is : List (CfaInstr a)) : Prop := ∀ i ∈ is.getLast?, ¬ i.restoresState

theorem bits_le (a : AddressType) : a.bits ≤ 64 := by cases a <;> decide

theorem toNat_widen (x : BitVec a.bits) : (x.setWidth 64).toNat = x.toNat := by
  rw [BitVec.toNat_setWidth, Nat.mod_eq_of_lt]
  exact Nat.lt_of_lt_of_le x.isLt (Nat.pow_le_pow_right (by decide) (bits_le a))

theorem beyond_iff : Beyond pc s ↔ pc.toNat < s.curPc.toNat := by
  rw [Beyond, BitVec.lt_def, toNat_widen]

theorem EndsFresh.tail {j : CfaInstr a} (fresh : EndsFresh (i :: j :: is)) : EndsFresh (j :: is) := by
  intro k mem
  exact fresh k (by rw [List.getLast?_cons_cons]; exact mem)

theorem EndsFresh.last (fresh : EndsFresh [i]) : ¬ i.restoresState := fresh i rfl

/-- The inversion of a run: it stops at once, at the end, or behind an instruction. -/
theorem runTo_cons (run : runTo pc (i :: is) s = .ok r) :
    (Beyond pc s ∧ r = s.endingAt (s.curPc.setWidth 64)) ∨
      (¬ Beyond pc s ∧ ∃ s', i.exec s = .ok s' ∧ runTo pc is s' = .ok r) := by
  rw [runTo] at run
  split at run
  · next beyond =>
    cases run
    exact .inl ⟨beyond, rfl⟩
  · next within =>
    cases step : i.exec s with
    | error halt =>
      rw [step] at run
      cases run
    | ok s' =>
      rw [step] at run
      exact .inr ⟨within, s', rfl, run⟩

/-- The range of the rules begins at an address that the instructions come to, after the first of
them. -/
theorem le_pcStart {bound : BitVec 64} (forward : Forward bound (i :: is) s) (fresh : EndsFresh (i :: is))
    (within : ¬ Beyond pc s) (step : i.exec s = .ok s') (run : runTo pc is s' = .ok r) :
    s.curPc.toNat ≤ r.locRegs.pcStart.toNat := by
  induction is generalizing s s' i with
  | nil =>
    cases run
    change _ ≤ s'.locRegs.pcStart.toNat
    rw [exec_pcStart step (.inr fresh.last), toNat_widen]
  | cons j is ih =>
    obtain ⟨ahead, -, forward'⟩ := forward s' step
    rcases runTo_cons run with ⟨beyond, rfl⟩ | ⟨within', s'', step', run'⟩
    · -- The instruction moved, so it is not the one that brings rules back.
      have moves : s'.curPc ≠ s.curPc := by
        intro same
        rw [beyond_iff] at beyond within
        rw [same] at beyond
        exact within beyond
      change _ ≤ s'.locRegs.pcStart.toNat
      rw [exec_pcStart step (.inl moves), toNat_widen]
    · have later := ih forward' fresh.tail within' step' run'
      rw [BitVec.le_def] at ahead
      omega

/-- **The rules hold in all of their range**: asked for another address in it, the instructions give the
same rules. -/
theorem runTo_row {bound : BitVec 64} (forward : Forward bound is s) (fresh : EndsFresh is)
    (run : runTo pc is s = .ok r) (first : r.locRegs.pcStart ≤ pc') (last : pc' < r.locRegs.pcEnd) :
    ∃ r', runTo pc' is s = .ok r' ∧ r'.locRegs.rules = r.locRegs.rules := by
  induction is generalizing s with
  | nil =>
    cases run
    exact ⟨_, rfl, rfl⟩
  | cons i is ih =>
    rcases runTo_cons run with ⟨beyond, rfl⟩ | ⟨within, s', step, run'⟩
    · exact ⟨_, if_pos last, rfl⟩
    · have start := le_pcStart forward fresh within step run'
      have within' : ¬ Beyond pc' s := by
        rw [beyond_iff]
        rw [BitVec.le_def] at first
        omega
      have fresh' : EndsFresh is := by
        cases is with
        | nil => exact nofun
        | cons j is => exact fresh.tail
      obtain ⟨r', run'', same⟩ := ih (forward s' step).2.2 fresh' run'
      refine ⟨r', ?_, same⟩
      rw [runTo, if_neg within', step]
      exact run''

/-- Instructions from the first byte of a section on, for a function from 0 to 16. -/
def sixteen (is : List (CfaInstr .uint64)) : DwarfCfa .uint64 where
  memory := { memory := memoryBuffer ([] ++ encodeAll is ++ []), abi := .lp64 }
  fde := { pcEnd := 16, cie := { codeAlignmentFactor := 1, dataAlignmentFactor := -8 } }

theorem ready_sixteen (is : List (CfaInstr .uint64)) {stop : BitVec 64}
    (ends : (encodeAll is).length = stop.toNat) : Ready ((sixteen is).start 0) stop is := by
  refine ⟨Memory.holds_memoryBuffer ?_ rfl, (Nat.zero_add _).trans ends⟩
  rw [List.nil_append, List.append_nil, ends]
  exact Nat.le_of_lt stop.isLt

/-- Instructions that bring their rules back at the end: kept at 0, changed at 4, brought back at 8. -/
def broughtBackLast : List (CfaInstr .uint64) :=
  [.extended ⟨0x0a, by decide⟩ .rememberState [] rfl [] [] (reads_pure _), .advance ⟨4, by decide⟩,
    .offsetShort ⟨3, by decide⟩ 1, .advance ⟨4, by decide⟩,
    .extended ⟨0x0b, by decide⟩ .restoreState [] rfl [] [] (reads_pure _)]

/-- **The range that `GetLocationInfo` tells.** Over instructions in a row it ends, and where they only
move forward and do not end by bringing rules back, it gives the same rules for every address in the range
that it tells. Where they do, the range can take in addresses with other rules. -/
theorem getLocationInfo_range :
    (∀ (s : DwarfCfa a) (is : List (CfaInstr a)) (startOffset bound : BitVec 64),
      s.memory.memory.Holds startOffset (encodeAll is) →
      startOffset.toNat + (encodeAll is).length < 2 ^ 64 →
      Forward bound is (s.start startOffset) → EndsFresh is →
      ∀ turns, is.length < turns → ∀ pc,
        ∃ o, s.getLocationInfo turns pc startOffset
            (startOffset + BitVec.ofNat 64 (encodeAll is).length) = some o ∧
          ∀ r, o = .ok r → ∀ pc', r.locRegs.pcStart ≤ pc' → pc' < r.locRegs.pcEnd →
            ∃ r', s.getLocationInfo turns pc' startOffset
                (startOffset + BitVec.ofNat 64 (encodeAll is).length) = some (.ok r') ∧
              r'.locRegs.rules = r.locRegs.rules) ∧
    ∃ r r', (sixteen broughtBackLast).getLocationInfo 6 8 0 6 = some (.ok r) ∧
      r.locRegs.pcStart ≤ 4 ∧ 4 < r.locRegs.pcEnd ∧
      (sixteen broughtBackLast).getLocationInfo 6 4 0 6 = some (.ok r') ∧
      r'.locRegs.rules 3 ≠ r.locRegs.rules 3 := by
  constructor
  · intro s is startOffset bound holds room forward fresh turns enough pc
    have ready : Ready (s.start startOffset)
        (startOffset + BitVec.ofNat 64 (encodeAll is).length) is := by
      refine ⟨holds, ?_⟩
      change startOffset.toNat + _ = _
      rw [BitVec.toNat_add, BitVec.toNat_ofNat]
      omega
    refine ⟨_, loop_ready ready enough, fun r run pc' first last => ?_⟩
    obtain ⟨r', run', same⟩ := runTo_row forward fresh run first last
    exact ⟨r', by rw [getLocationInfo, loop_ready ready enough, run'], same⟩
  · have ready : Ready ((sixteen broughtBackLast).start 0) 6 broughtBackLast :=
      ready_sixteen broughtBackLast (by decide)
    exact ⟨_, _, loop_ready ready (by decide), by decide, by decide, loop_ready ready (by decide),
      by decide⟩

/-- Instructions that save a register at 4. -/
def saving : List (CfaInstr .uint64) := [.advance ⟨4, by decide⟩, .offsetShort ⟨1, by decide⟩ 1]

/-- Asked for 6, they tell of a range that 10 is in as well. -/
theorem getLocationInfo_range_saving :
    ∃ r r', (sixteen saving).getLocationInfo 3 6 0 3 = some (.ok r) ∧
      r.locRegs.pcStart ≤ 10 ∧ 10 < r.locRegs.pcEnd ∧
      (sixteen saving).getLocationInfo 3 10 0 3 = some (.ok r') ∧
      r'.locRegs.rules = r.locRegs.rules := by
  have forward : Forward 16 saving ((sixteen saving).start 0) := by
    intro s step
    cases step
    refine ⟨by decide, by decide, ?_⟩
    intro s' step'
    cases step'
    exact ⟨by decide, by decide, trivial⟩
  have ready : Ready ((sixteen saving).start 0) 3 saving := ready_sixteen saving (by decide)
  obtain ⟨o, run, same⟩ := (getLocationInfo_range (a := .uint64)).1 (sixteen saving) saving 0 16
    ready.holds (by decide) forward (fun i mem => by cases mem; exact id) 3 (by decide) 6
  cases Option.some.inj (run.symm.trans (loop_ready ready (by decide)))
  obtain ⟨r', run', rules⟩ := same _ rfl 10 (by decide) (by decide)
  exact ⟨_, r', run, by decide, by decide, run', rules⟩

end DwarfCfa

end Dolin.Unwindstack
