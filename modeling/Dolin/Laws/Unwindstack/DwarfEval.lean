import Dolin.Unwindstack.DwarfEval
import Mathlib.Data.List.Nodup

/-!
# The rules of a frame, all at once

The rules of a frame speak of the registers of the frame that is left, but they are carried out one after
the other, in the order of a hash map, on the registers themselves. `RegsInfo` is there to make up for it:
`eval_at_once` says that it does. The registers that `Eval` leaves are those that the rules give when each
is read in the old registers, whatever the order is.
-/

namespace Dolin.Unwindstack

open Region

variable {a : AddressType}

namespace Regs

variable {r : Regs a} {reg reg' : Nat} {value : BitVec a.bits}

@[simp] theorem total_set : (r.set reg value).total = r.total := List.length_set

theorem get_set (h : reg < r.total) :
    (r.set reg value).get reg' = if reg' = reg then value else r.get reg' := by
  simp only [get, set, List.getD_eq_getElem?_getD, List.getElem?_set]
  by_cases same : reg = reg'
  · subst same
    rw [if_pos rfl, if_pos rfl, if_pos (show reg < r.values.length from h), Option.getD_some]
  · rw [if_neg same, if_neg (Ne.symm same)]

end Regs

/-! ## Saved registers -/

namespace RegsInfo

/-- The bits of a register. -/
def mask (reg : Nat) : BitVec 64 := (1#32 <<< reg).signExtend 64

theorem bit_of_lt {reg : Nat} (h : reg < 32) : bit reg = .ok (mask reg) := by
  rw [bit, if_neg (by omega), if_neg (by omega)]
  rfl

theorem mask_ne_zero : ∀ reg : Fin 32, mask reg ≠ 0 := by decide

/-- Two registers share no bits, also where one of them is register 31 with all the upper bits. -/
theorem mask_and_mask : ∀ reg reg' : Fin 32, reg ≠ reg' → mask reg &&& mask reg' = 0 := by
  decide +kernel

/-- A register is saved. -/
def Saved (info : RegsInfo a) (reg : Nat) : Prop := info.savedRegMap &&& mask reg ≠ 0

instance (info : RegsInfo a) (reg : Nat) : Decidable (info.Saved reg) :=
  inferInstanceAs (Decidable (info.savedRegMap &&& mask reg ≠ 0))

variable {info info' : RegsInfo a} {regs regs' : Regs a} {reg reg' : Nat}

theorem isSaved_of_lt (h : reg < 32) : info.isSaved reg = .ok (decide (info.Saved reg)) := by
  rw [isSaved, bit_of_lt h]
  rfl

theorem get_of_lt (h : reg < 32) :
    info.get regs reg = .ok (if info.Saved reg then info.savedRegs reg else regs.get reg) := by
  rw [get, isSaved_of_lt h]
  by_cases saved : info.Saved reg
  · rw [decide_eq_true saved, if_pos saved]
    rfl
  · rw [decide_eq_false saved, if_neg saved]
    rfl

/-- From register 32 on, `Get` says the same of all registers: nothing. -/
theorem get_of_ge (h : 32 ≤ reg) : info.get regs reg = info'.get regs' reg := by
  rw [get, get, isSaved, isSaved, bit]
  split
  · rfl
  · rfl

theorem save_of_lt (h : reg < 32) :
    info.save regs reg = .ok
      { savedRegMap := info.savedRegMap ||| mask reg
        savedRegs := fun r => if r = reg then regs.get reg else info.savedRegs r } := by
  rw [save, bit_of_lt h]
  rfl

theorem save_of_ge (h : 32 ≤ reg) : ∃ halt, info.save regs reg = .error halt := by
  rw [save, bit]
  split
  · exact ⟨_, rfl⟩
  · exact ⟨_, rfl⟩

/-- What `Save` adds to the set of saved registers. -/
theorem saved_save (h : reg < 32) (h' : reg' < 32) (step : info.save regs reg = .ok info') :
    info'.Saved reg' ↔ reg' = reg ∨ info.Saved reg' := by
  rw [save_of_lt h] at step
  cases step
  unfold Saved
  rw [BitVec.and_or_distrib_right, ne_eq, BitVec.ofNat_eq_ofNat, BitVec.or_eq_zero_iff, not_and_or]
  by_cases same : reg' = reg
  · subst same
    refine iff_of_true (.inr ?_) (.inl rfl)
    rw [BitVec.and_self]
    exact mask_ne_zero ⟨reg', h'⟩
  · have apart := mask_and_mask ⟨reg, h⟩ ⟨reg', h'⟩ fun eq => same (Fin.mk.inj eq).symm
    rw [apart]
    constructor
    · rintro (saved | none')
      · exact .inr saved
      · exact absurd rfl none'
    · rintro (eq | saved)
      · exact absurd eq same
      · exact .inl saved

/-- What is saved is an old register, and what is not saved is still one. -/
def Shadows (info : RegsInfo a) (regs old : Regs a) : Prop :=
  ∀ reg < 32, (info.Saved reg → info.savedRegs reg = old.get reg) ∧
    (¬ info.Saved reg → regs.get reg = old.get reg)

theorem savedRegs_save (h : reg < 32) (step : info.save regs reg = .ok info') :
    info'.savedRegs = fun r => if r = reg then regs.get reg else info.savedRegs r := by
  rw [save_of_lt h] at step
  cases step
  rfl

/-- A register saved while it is as it was. -/
theorem Shadows.save {old : Regs a} (shadows : info.Shadows regs old) (h : reg < 32)
    (same : regs.get reg = old.get reg) (step : info.save regs reg = .ok info') :
    info'.Shadows regs old := by
  intro reg' h'
  rw [saved_save h h' step, savedRegs_save h step]
  dsimp only
  split
  · next eq =>
    rw [eq]
    exact ⟨fun _ => same, fun _ => same⟩
  · next other =>
    simp only [other, false_or]
    exact shadows reg' h'

/-- A saved register may be assigned. -/
theorem Shadows.assigned {old regs' : Regs a} (shadows : info.Shadows regs old) (saved : info.Saved reg)
    (others : ∀ reg', reg' ≠ reg → regs'.get reg' = regs.get reg') : info.Shadows regs' old := by
  intro reg' h'
  refine ⟨(shadows reg' h').1, fun unsaved => ?_⟩
  rw [others reg' fun same => unsaved (same ▸ saved)]
  exact (shadows reg' h').2 unsaved

/-- No register is saved. -/
def unsaved : RegsInfo a := { savedRegs := fun _ => 0 }

theorem not_saved_unsaved (reg : Nat) : ¬ (unsaved : RegsInfo a).Saved reg :=
  fun saved => saved BitVec.zero_and

theorem shadows_unsaved (regs : Regs a) : unsaved.Shadows regs regs :=
  fun reg _ => ⟨fun saved => absurd saved (not_saved_unsaved reg), fun _ => rfl⟩

/-- **The old registers are seen through `Get`.** -/
theorem Shadows.view {old : Regs a} (shadows : info.Shadows regs old) (total : regs.total = old.total) :
    info.view regs = unsaved.view old := by
  have same : info.get regs = unsaved.get old := by
    funext reg
    by_cases small : reg < 32
    · rw [get_of_lt small, get_of_lt small, if_neg (not_saved_unsaved reg)]
      by_cases saved : info.Saved reg
      · rw [if_pos saved, (shadows reg small).1 saved]
      · rw [if_neg saved, (shadows reg small).2 saved]
    · exact get_of_ge (Nat.not_lt.mp small)
  rw [RegsInfo.view, RegsInfo.view, total, same]

end RegsInfo

/-! ## One rule -/

namespace DwarfSection

open RegsInfo (unsaved)

/-- What a rule does to its register. -/
inductive Change (a : AddressType) where
  | kept
  | assigned (value : BitVec a.bits) (isDexPc : Bool)
  | noReturn
  deriving DecidableEq

/-- The value that a register has after a change. -/
def Change.value (old : BitVec a.bits) : Change a → BitVec a.bits
  | .assigned value _ => value
  | _ => old

/-- A change carried out. -/
def Change.on (reg : Nat) (info : EvalInfo a) : Change a → EvalInfo a
  | .kept => info
  | .assigned value isDexPc =>
    let info := assign info reg value
    if isDexPc then { info with regs := { info.regs with dexPc := value.setWidth 64 } } else info
  | .noReturn => { info with returnAddressUndefined := true }

/-- The change that a rule asks for, by what it sees of the registers. -/
def change (memory : DwarfMemory) (cie : DwarfCie) (regularMemory : Memory) (cfa : BitVec a.bits)
    (view : RegsView a) (reg : Nat) (loc : DwarfLocation) : Except Halt (Change a) :=
  match loc.type with
  | .offset =>
    (readAddress a regularMemory (cfa.setWidth 64 + loc.value0)).map (.assigned · false)
  | .valOffset => .ok (.assigned ((cfa.setWidth 64 + loc.value0).setWidth a.bits) false)
  | .register =>
    if loc.value0.toNat % 2 ^ 32 ≥ view.total then fail .illegalValue
    else (view.get (loc.value0.toNat % 2 ^ 32)).map fun value =>
      .assigned ((value.setWidth 64 + loc.value1).setWidth a.bits) false
  | .expression =>
    (evalExpression memory loc regularMemory view).bind fun (value, _) =>
      (readAddress a regularMemory (value.setWidth 64)).map (.assigned · false)
  | .valExpression =>
    (evalExpression memory loc regularMemory view).map fun (value, isDexPc) => .assigned value isDexPc
  | .undefined => .ok (if reg = cie.returnAddressRegister.toNat then .noReturn else .kept)
  | .invalid => .ok .kept

variable {memory : DwarfMemory} {loc : DwarfLocation} {reg reg' : Nat} {info info' : EvalInfo a}
  {c : Change a}

theorem map_map {α β γ : Type} (x : Except Halt α) (f : α → β) (g : β → γ) :
    (x.map f).map g = x.map (g ∘ f) := by
  cases x <;> rfl

theorem map_ne_ok {α β : Type} {x : Except Halt α} {f : α → β} {y : β} (h : ∀ v, f v ≠ y) :
    x.map f ≠ .ok y := by
  cases x with
  | error halt => exact nofun
  | ok v => exact fun eq => h v (Except.ok.inj eq)

/-- `EvalRegister` sees the registers only through `Total` and `Get`. -/
theorem evalRegister_eq :
    evalRegister memory loc reg info =
      (change memory info.cie info.regularMemory info.cfa (info.regsInfo.view info.regs) reg loc).map
        (·.on reg info) := by
  unfold evalRegister change
  cases loc.type with
  | invalid => rfl
  | undefined =>
    dsimp only
    split <;> rfl
  | offset =>
    dsimp only
    rw [map_map]
    rfl
  | valOffset => rfl
  | register =>
    dsimp only
    change (if _ ≥ info.regs.total then _ else _) = Except.map _ (if _ ≥ info.regs.total then _ else _)
    split
    · rfl
    · rw [map_map]
      rfl
  | expression =>
    dsimp only
    cases evalExpression memory loc info.regularMemory (info.regsInfo.view info.regs) with
    | error halt => rfl
    | ok out =>
      change Except.map _ _ = Except.map _ (Except.map _ _)
      rw [map_map]
      rfl
  | valExpression =>
    dsimp only
    rw [map_map]
    rfl

/-- A change leaves everything but its register, the dex pc and the mark of a last frame. -/
theorem Change.on_frame (c : Change a) (reg : Nat) (info : EvalInfo a) :
    (c.on reg info).cie = info.cie ∧ (c.on reg info).regularMemory = info.regularMemory ∧
      (c.on reg info).cfa = info.cfa ∧ (c.on reg info).regsInfo = info.regsInfo ∧
      (c.on reg info).regs.total = info.regs.total ∧ (c.on reg info).regs.pcReg = info.regs.pcReg ∧
      (c.on reg info).regs.spReg = info.regs.spReg := by
  cases c with
  | kept => exact ⟨rfl, rfl, rfl, rfl, rfl, rfl, rfl⟩
  | noReturn => exact ⟨rfl, rfl, rfl, rfl, rfl, rfl, rfl⟩
  | assigned value isDexPc =>
    cases isDexPc <;> exact ⟨rfl, rfl, rfl, rfl, Regs.total_set, rfl, rfl⟩

theorem Change.get_on (h : reg < info.regs.total) :
    (c.on reg info).regs.get reg' =
      if reg' = reg then c.value (info.regs.get reg) else info.regs.get reg' := by
  cases c with
  | assigned value isDexPc => cases isDexPc <;> exact Regs.get_set h
  | kept | noReturn =>
    change info.regs.get reg' = _
    split
    · next same => rw [same]; rfl
    · rfl

theorem Change.returnAddressUndefined_on :
    (c.on reg info).returnAddressUndefined = (info.returnAddressUndefined || decide (c = .noReturn)) := by
  cases c with
  | kept => exact (Bool.or_false _).symm
  | noReturn => exact (Bool.or_true _).symm
  | assigned value isDexPc => cases isDexPc <;> exact (Bool.or_false _).symm

/-- Only the rule of the return address can say that there is no caller. -/
theorem noReturn_reg {cie : DwarfCie} {regularMemory : Memory} {cfa : BitVec a.bits} {view : RegsView a}
    (h : change memory cie regularMemory cfa view reg loc = .ok .noReturn) :
    reg = cie.returnAddressRegister.toNat := by
  unfold change at h
  cases type : loc.type with
  | undefined =>
    rw [type] at h
    dsimp only at h
    split at h
    · next same => exact same
    · cases h
  | invalid | valOffset =>
    rw [type] at h
    cases h
  | offset =>
    rw [type] at h
    exact absurd h (map_ne_ok nofun)
  | register =>
    rw [type] at h
    dsimp only at h
    split at h
    · cases h
    · exact absurd h (map_ne_ok nofun)
  | expression =>
    rw [type] at h
    dsimp only at h
    cases value : evalExpression memory loc regularMemory view with
    | error halt =>
      rw [value] at h
      cases h
    | ok out =>
      rw [value] at h
      exact absurd h (map_ne_ok nofun)
  | valExpression =>
    rw [type] at h
    exact absurd h (map_ne_ok nofun)

/-! ## All rules -/

/-- What the rules of a frame are read in. -/
structure Frame (a : AddressType) where
  memory : DwarfMemory
  cie : DwarfCie
  regularMemory : Memory
  cfa : BitVec a.bits
  rules : Rules
  /-- The registers of the frame that is left. -/
  regs : Regs a

namespace Frame

/-- The rule of a register. The frame's own address is not a register. -/
def rule (f : Frame a) (reg : Nat) : Option DwarfLocation := if reg = cfaReg then none else f.rules reg

/-- The change that the rule of a register asks for in the old registers. -/
def asked (f : Frame a) (reg : Nat) : Except Halt (Change a) :=
  match f.rule reg with
  | none => .ok .kept
  | some loc => change f.memory f.cie f.regularMemory f.cfa (unsaved.view f.regs) reg loc

/-- The value that the rules give to a register. -/
def left (f : Frame a) (reg : Nat) : BitVec a.bits :=
  match f.asked reg with
  | .ok c => c.value (f.regs.get reg)
  | .error _ => f.regs.get reg

/-- There is a rule to carry out for a register of the machine. -/
abbrev Todo (f : Frame a) (reg : Nat) : Prop := reg < f.regs.total ∧ (f.rule reg).isSome

/-- The rule of a register has a meaning, and the register can be saved. -/
def Carried (f : Frame a) (reg : Nat) : Prop := reg < 32 ∧ ∃ c, f.asked reg = .ok c

/-- The registers of `done` are assigned, the others are as they were. -/
structure Along (f : Frame a) (done : List Nat) (info : EvalInfo a) : Prop where
  cie : info.cie = f.cie
  regularMemory : info.regularMemory = f.regularMemory
  cfa : info.cfa = f.cfa
  total : info.regs.total = f.regs.total
  pcReg : info.regs.pcReg = f.regs.pcReg
  spReg : info.regs.spReg = f.regs.spReg
  shadows : info.regsInfo.Shadows info.regs f.regs
  get : ∀ reg, info.regs.get reg = if reg ∈ done then f.left reg else f.regs.get reg
  noReturn : info.returnAddressUndefined = true ↔ ∃ reg ∈ done, f.asked reg = .ok .noReturn

variable {f : Frame a} {done order : List Nat}

/-- A rule carried out. -/
theorem Along.step (along : f.Along done info) (fresh : reg ∉ done) (small : reg < 32)
    (inside : reg < f.regs.total) {saved : RegsInfo a} (save : info.regsInfo.save info.regs reg = .ok saved)
    (asked : f.asked reg = .ok c) :
    f.Along (reg :: done) (c.on reg { info with regsInfo := saved }) := by
  let before : EvalInfo a := { info with regsInfo := saved }
  obtain ⟨cie, regularMemory, cfa, regsInfo, total, pcReg, spReg⟩ := c.on_frame reg before
  have inside' : reg < before.regs.total := along.total.symm ▸ inside
  have old : info.regs.get reg = f.regs.get reg := by rw [along.get, if_neg fresh]
  have get (reg' : Nat) : (c.on reg before).regs.get reg' =
      if reg' = reg then c.value (f.regs.get reg) else info.regs.get reg' := by
    rw [Change.get_on inside', ← old]
  refine ⟨cie.trans along.cie, regularMemory.trans along.regularMemory, cfa.trans along.cfa,
    total.trans along.total, pcReg.trans along.pcReg, spReg.trans along.spReg, ?_, ?_, ?_⟩
  · rw [regsInfo]
    refine (along.shadows.save small old save).assigned ((RegsInfo.saved_save small small save).mpr (.inl rfl))
      fun reg' other => ?_
    rw [get, if_neg other]
  · intro reg'
    rw [get]
    by_cases same : reg' = reg
    · rw [same, if_pos rfl, if_pos List.mem_cons_self, left, asked]
    · rw [if_neg same, along.get]
      simp only [List.mem_cons, same, false_or]
  · rw [Change.returnAddressUndefined_on, Bool.or_eq_true, decide_eq_true_iff]
    simp only [List.exists_mem_cons_iff, asked, Except.ok.injEq]
    rw [or_comm]
    exact or_congr_right along.noReturn

/-- There is nothing to do for a key. -/
theorem evalEntries_skip (along : f.Along done info) (nothing : ¬ f.Todo reg) :
    evalEntries f.memory f.rules (reg :: order) info = evalEntries f.memory f.rules order info := by
  rw [evalEntries]
  cases found : f.rules reg with
  | none => rfl
  | some loc =>
    dsimp only
    split
    · rfl
    split
    · rfl
    · next other inside =>
      refine absurd ⟨?_, ?_⟩ nothing
      · rw [along.total] at inside
        exact Nat.not_le.mp inside
      · rw [rule, if_neg other, found]
        rfl

/-- A rule is carried out, or it ends the evaluation. -/
theorem evalEntries_todo (along : f.Along done info) (fresh : reg ∉ done) (todo : f.Todo reg) :
    (f.Carried reg ∧ ∃ info', f.Along (reg :: done) info' ∧
        evalEntries f.memory f.rules (reg :: order) info = evalEntries f.memory f.rules order info') ∨
      ¬ f.Carried reg ∧ ∃ halt, evalEntries f.memory f.rules (reg :: order) info = .error halt := by
  obtain ⟨inside, ruled⟩ := todo
  obtain ⟨loc, found⟩ := Option.isSome_iff_exists.mp ruled
  have other : reg ≠ cfaReg := by
    intro same
    rw [rule, if_pos same] at found
    cases found
  have found' : f.rules reg = some loc := by rwa [rule, if_neg other] at found
  have entry : evalEntries f.memory f.rules (reg :: order) info =
      (info.regsInfo.save info.regs reg).bind fun saved =>
        (evalRegister f.memory loc reg { info with regsInfo := saved }).bind fun info =>
          evalEntries f.memory f.rules order info := by
    have within : ¬ reg ≥ info.regs.total := by
      rw [along.total]
      exact Nat.not_le.mpr inside
    rw [evalEntries, found']
    refine (if_neg other).trans ((if_neg within).trans ?_)
    cases info.regsInfo.save info.regs reg with
    | error halt => rfl
    | ok saved =>
      dsimp only [Except.bind]
      cases evalRegister f.memory loc reg { info with regsInfo := saved } <;> rfl
  by_cases small : reg < 32
  · obtain ⟨saved, save⟩ : ∃ saved, info.regsInfo.save info.regs reg = .ok saved :=
      ⟨_, RegsInfo.save_of_lt small⟩
    have seen : evalRegister f.memory loc reg { info with regsInfo := saved } =
        (f.asked reg).map (·.on reg { info with regsInfo := saved }) := by
      have same : info.regs.get reg = f.regs.get reg := by rw [along.get, if_neg fresh]
      have view := (along.shadows.save small same save).view along.total
      rw [evalRegister_eq, asked, found, ← view, ← along.cie, ← along.regularMemory, ← along.cfa]
    rw [save] at entry
    dsimp only [Except.bind] at entry
    rw [seen] at entry
    cases change' : f.asked reg with
    | error halt =>
      rw [change'] at entry
      refine .inr ⟨?_, halt, entry⟩
      rintro ⟨-, c, ok⟩
      rw [change'] at ok
      cases ok
    | ok c =>
      rw [change'] at entry
      exact .inl ⟨⟨small, c, change'⟩, _, along.step fresh small inside save change', entry⟩
  · obtain ⟨halt, save⟩ : ∃ halt, info.regsInfo.save info.regs reg = .error halt :=
      RegsInfo.save_of_ge (Nat.not_lt.mp small)
    rw [save] at entry
    exact .inr ⟨fun carried => small carried.1, halt, entry⟩

/-- **The loop over the rules**: it carries out all of them, or one has no meaning and it fails. -/
theorem evalEntries_cases (along : f.Along done info) (nodup : order.Nodup)
    (apart : ∀ reg ∈ order, reg ∉ done) :
    ((∀ reg ∈ order, f.Todo reg → f.Carried reg) ∧
      ∃ info' done', evalEntries f.memory f.rules order info = .ok info' ∧ f.Along done' info' ∧
        ∀ reg, reg ∈ done' ↔ reg ∈ done ∨ reg ∈ order ∧ f.Todo reg) ∨
      (∃ reg ∈ order, f.Todo reg ∧ ¬ f.Carried reg) ∧
        ∃ halt, evalEntries f.memory f.rules order info = .error halt := by
  induction order generalizing info done with
  | nil => exact .inl ⟨nofun, info, done, rfl, along, by simp⟩
  | cons reg order ih =>
    obtain ⟨notIn, nodup⟩ := List.nodup_cons.mp nodup
    by_cases todo : f.Todo reg
    · rcases evalEntries_todo along (apart reg List.mem_cons_self) todo with
        ⟨carried, next, along', same⟩ | ⟨stuck, halt, stops⟩
      · have apart' : ∀ r ∈ order, r ∉ reg :: done := by
          intro r mem mem'
          rcases List.mem_cons.mp mem' with rfl | mem'
          · exact notIn mem
          · exact apart r (List.mem_cons_of_mem _ mem) mem'
        rcases ih along' nodup apart' with
          ⟨all, info', done', run, along'', mem⟩ | ⟨⟨r, mem, stuck⟩, halt, stops⟩
        · refine .inl ⟨List.forall_mem_cons.mpr ⟨fun _ => carried, all⟩, info', done', same.trans run,
            along'', fun r => ?_⟩
          rw [mem, List.mem_cons, List.mem_cons]
          constructor
          · rintro ((rfl | old) | later)
            · exact .inr ⟨.inl rfl, todo⟩
            · exact .inl old
            · exact .inr ⟨.inr later.1, later.2⟩
          · rintro (old | ⟨rfl | later, todo⟩)
            · exact .inl (.inr old)
            · exact .inl (.inl rfl)
            · exact .inr ⟨later, todo⟩
        · exact .inr ⟨⟨r, List.mem_cons_of_mem _ mem, stuck⟩, halt, same.trans stops⟩
      · exact .inr ⟨⟨reg, List.mem_cons_self, todo, stuck⟩, halt, stops⟩
    · rw [evalEntries_skip along todo]
      rcases ih along nodup fun r mem => apart r (List.mem_cons_of_mem _ mem) with
        ⟨all, info', done', run, along'', mem⟩ | ⟨⟨r, mem, stuck⟩, stops⟩
      · refine .inl ⟨List.forall_mem_cons.mpr ⟨fun t => absurd t todo, all⟩, info', done', run, along'',
          fun r => ?_⟩
        rw [mem, List.mem_cons]
        constructor
        · exact Or.imp_right fun later => ⟨.inr later.1, later.2⟩
        · rintro (old | ⟨rfl | later, todo'⟩)
          · exact .inl old
          · exact absurd todo' todo
          · exact .inr ⟨later, todo'⟩
      · exact .inr ⟨⟨r, List.mem_cons_of_mem _ mem, stuck⟩, stops⟩

/-- The address to which the frame returns; zero where there is no caller. -/
def returnPc (f : Frame a) : BitVec a.bits :=
  if f.asked f.cie.returnAddressRegister.toNat = .ok .noReturn then 0
  else f.left f.cie.returnAddressRegister.toNat

/-- The caller's registers. -/
def caller (f : Frame a) (reg : Nat) : BitVec a.bits :=
  if reg = f.regs.spReg then f.cfa else if reg = f.regs.pcReg then f.returnPc else f.left reg

/-- The evaluation starts with the dex pc at zero and no register assigned. -/
def startInfo (f : Frame a) : EvalInfo a :=
  { cie := f.cie, regularMemory := f.regularMemory, cfa := f.cfa, regs := { f.regs with dexPc := 0 } }

theorem along_startInfo (f : Frame a) : f.Along [] f.startInfo where
  cie := rfl
  regularMemory := rfl
  cfa := rfl
  total := rfl
  pcReg := rfl
  spReg := rfl
  shadows := RegsInfo.shadows_unsaved f.regs
  get reg := (if_neg List.not_mem_nil).symm
  noReturn := by simp [startInfo]

theorem asked_of_none (nothing : f.rule reg = none) : f.asked reg = .ok .kept := by
  rw [asked, nothing]

/-- What the rules leave in a register of the machine. -/
theorem Along.get_all (along : f.Along done info) (all : ∀ reg, reg ∈ done ↔ f.Todo reg)
    (inside : reg < f.regs.total) : info.regs.get reg = f.left reg := by
  rw [along.get]
  split
  · rfl
  · next idle =>
    rw [all, not_and, Bool.not_eq_true, Option.isSome_eq_false_iff, Option.isNone_iff_eq_none] at idle
    rw [left, asked_of_none (idle inside)]
    rfl

/-- Only the rule of the return address marks a last frame. -/
theorem Along.noReturn_all (along : f.Along done info) (all : ∀ reg, reg ∈ done ↔ f.Todo reg)
    (inside : f.cie.returnAddressRegister.toNat < f.regs.total) :
    info.returnAddressUndefined = true ↔ f.asked f.cie.returnAddressRegister.toNat = .ok .noReturn := by
  rw [along.noReturn]
  constructor
  · rintro ⟨reg, mem, marks⟩
    obtain ⟨loc, found⟩ := Option.isSome_iff_exists.mp ((all reg).mp mem).2
    have marks' := marks
    rw [asked, found] at marks'
    rwa [noReturn_reg marks'] at marks
  · intro marks
    refine ⟨_, (all _).mpr ⟨inside, ?_⟩, marks⟩
    cases found : f.rule f.cie.returnAddressRegister.toNat with
    | none =>
      rw [asked_of_none found] at marks
      cases marks
    | some loc => rfl

/-- The end of `Eval`. -/
def finish (f : Frame a) (info : EvalInfo a) : Regs a × Bool :=
  let pc := if info.returnAddressUndefined then 0 else info.regs.get f.cie.returnAddressRegister.toNat
  let regs := info.regs.setPc pc
  (regs.setSp f.cfa, decide (regs.pc = 0))

theorem finish_all (along : f.Along done info) (all : ∀ reg, reg ∈ done ↔ f.Todo reg)
    (inside : f.cie.returnAddressRegister.toNat < f.regs.total) :
    (f.finish info).1.total = f.regs.total ∧
      (∀ reg < f.regs.total, (f.finish info).1.get reg = f.caller reg) ∧
      (f.finish info).2 = decide (f.returnPc = 0) := by
  have pc : (if info.returnAddressUndefined then 0
      else info.regs.get f.cie.returnAddressRegister.toNat) = f.returnPc := by
    rw [returnPc, along.get_all all inside]
    by_cases marks : f.asked f.cie.returnAddressRegister.toNat = .ok .noReturn
    · rw [if_pos marks, if_pos ((along.noReturn_all all inside).mpr marks)]
    · rw [if_neg marks, if_neg (mt (along.noReturn_all all inside).mp marks)]
  have getPc (reg : Nat) : (info.regs.setPc f.returnPc).get reg =
      if reg = info.regs.pcReg then f.returnPc else info.regs.get reg :=
    Regs.get_set info.regs.pcReg_lt
  unfold finish
  rw [pc]
  refine ⟨?_, fun reg below => ?_, ?_⟩
  · exact Regs.total_set.trans (Regs.total_set.trans along.total)
  · have getSp : ((info.regs.setPc f.returnPc).setSp f.cfa).get reg =
        if reg = info.regs.spReg then f.cfa else (info.regs.setPc f.returnPc).get reg :=
      Regs.get_set (info.regs.setPc f.returnPc).spReg_lt
    dsimp only
    rw [getSp, getPc, caller, along.get_all all below, along.spReg, along.pcReg]
  · have pcIs : (info.regs.setPc f.returnPc).pc = f.returnPc := (getPc _).trans (if_pos rfl)
    dsimp only
    rw [pcIs]

end Frame

/-- The map is walked in this order. -/
structure Keys (order : List Nat) (rules : Rules) : Prop where
  nodup : order.Nodup
  mem_iff : ∀ reg, reg ∈ order ↔ (rules reg).isSome

variable {cie : DwarfCie} {regularMemory : Memory} {locRegs : LocRegs} {order : List Nat} {regs : Regs a}

/-- `Eval` is the loop over the rules in a frame. -/
theorem eval_eq {cfa : BitVec a.bits} (inside : cie.returnAddressRegister.toNat < regs.total)
    (frame : evalCfa memory regularMemory locRegs regs = .ok cfa) :
    eval memory cie regularMemory locRegs order regs =
      (evalEntries memory locRegs.rules order
          (Frame.startInfo ⟨memory, cie, regularMemory, cfa, locRegs.rules, regs⟩)).map
        (Frame.finish ⟨memory, cie, regularMemory, cfa, locRegs.rules, regs⟩) := by
  rw [eval, if_neg (Nat.not_le.mpr inside)]
  cases found : locRegs.rules cfaReg with
  | none =>
    rw [evalCfa, found] at frame
    cases frame
  | some loc =>
    have frame' : evalCfa memory regularMemory locRegs { regs with dexPc := 0 } = .ok cfa := frame
    dsimp only
    rw [frame']
    dsimp only [Frame.startInfo]
    cases evalEntries memory locRegs.rules order _ <;> rfl

/-- Without an address for the frame there is no result. -/
theorem cfa_of_eval {out : Regs a × Bool} (run : eval memory cie regularMemory locRegs order regs = .ok out) :
    cie.returnAddressRegister.toNat < regs.total ∧
      ∃ cfa, evalCfa memory regularMemory locRegs regs = .ok cfa := by
  rw [eval] at run
  split at run
  · cases run
  · next inside =>
    refine ⟨Nat.not_le.mp inside, ?_⟩
    split at run
    · cases run
    · dsimp only at run
      split at run
      · cases run
      · next cfa frame => exact ⟨cfa, frame⟩

theorem Keys.mem_of_todo {f : Frame a} (keys : Keys order f.rules) {reg : Nat} (todo : f.Todo reg) :
    reg ∈ order := by
  obtain ⟨-, ruled⟩ := todo
  rw [Frame.rule] at ruled
  split at ruled
  · cases ruled
  · exact (keys.mem_iff reg).mpr ruled

/-- Where all rules have a meaning there is a result, and it is what they say. -/
theorem eval_carried {cfa : BitVec a.bits} (keys : Keys order locRegs.rules)
    (inside : cie.returnAddressRegister.toNat < regs.total)
    (frame : evalCfa memory regularMemory locRegs regs = .ok cfa)
    (carried : ∀ reg, Frame.Todo ⟨memory, cie, regularMemory, cfa, locRegs.rules, regs⟩ reg →
      Frame.Carried ⟨memory, cie, regularMemory, cfa, locRegs.rules, regs⟩ reg) :
    ∃ info, evalEntries memory locRegs.rules order
          (Frame.startInfo ⟨memory, cie, regularMemory, cfa, locRegs.rules, regs⟩) = .ok info ∧
      info.regs.pcReg = regs.pcReg ∧ info.regs.spReg = regs.spReg ∧
      ∃ caller finished, Frame.finish ⟨memory, cie, regularMemory, cfa, locRegs.rules, regs⟩ info =
          (caller, finished) ∧
        eval memory cie regularMemory locRegs order regs = .ok (caller, finished) ∧
        caller.total = regs.total ∧
        (∀ reg < regs.total,
          caller.get reg = Frame.caller ⟨memory, cie, regularMemory, cfa, locRegs.rules, regs⟩ reg) ∧
        finished = decide
          (Frame.returnPc ⟨memory, cie, regularMemory, cfa, locRegs.rules, regs⟩ = 0) := by
  have outcome := Frame.evalEntries_cases
    (Frame.along_startInfo ⟨memory, cie, regularMemory, cfa, locRegs.rules, regs⟩) keys.nodup
    fun _ _ => List.not_mem_nil
  rcases outcome with ⟨-, info, done, entries, along, mem⟩ | ⟨⟨reg, -, todo, stuck⟩, -⟩
  · have all : ∀ reg, reg ∈ done ↔
        Frame.Todo ⟨memory, cie, regularMemory, cfa, locRegs.rules, regs⟩ reg := by
      intro reg
      rw [mem]
      exact ⟨fun h => (h.resolve_left List.not_mem_nil).2, fun todo => .inr ⟨keys.mem_of_todo todo, todo⟩⟩
    refine ⟨info, entries, along.pcReg, along.spReg, _, _, rfl, ?_, Frame.finish_all along all inside⟩
    rw [eval_eq inside frame, entries]
    rfl
  · exact absurd (carried reg todo) stuck

/-- **The registers of the caller.** Whatever the order in which the map is walked: `Eval` has a result if
and only if the return address register is one of the machine, the CFA has a value, and each rule for a
register of the machine has a value in the registers of the frame that is left, where none of these
registers has a number from 32 on; and the result is what the rules say, each read in those registers. -/
theorem eval_at_once (keys : Keys order locRegs.rules) :
    ((∃ out, eval memory cie regularMemory locRegs order regs = .ok out) ↔
      cie.returnAddressRegister.toNat < regs.total ∧
        ∃ cfa, evalCfa memory regularMemory locRegs regs = .ok cfa ∧
          ∀ reg, Frame.Todo ⟨memory, cie, regularMemory, cfa, locRegs.rules, regs⟩ reg →
            Frame.Carried ⟨memory, cie, regularMemory, cfa, locRegs.rules, regs⟩ reg) ∧
      ∀ caller finished, eval memory cie regularMemory locRegs order regs = .ok (caller, finished) →
        ∃ cfa, evalCfa memory regularMemory locRegs regs = .ok cfa ∧ caller.total = regs.total ∧
          (∀ reg < regs.total,
            caller.get reg = Frame.caller ⟨memory, cie, regularMemory, cfa, locRegs.rules, regs⟩ reg) ∧
          finished = decide
            (Frame.returnPc ⟨memory, cie, regularMemory, cfa, locRegs.rules, regs⟩ = 0) := by
  have meaning {out : Regs a × Bool} (run : eval memory cie regularMemory locRegs order regs = .ok out) :
      cie.returnAddressRegister.toNat < regs.total ∧
        ∃ cfa, evalCfa memory regularMemory locRegs regs = .ok cfa ∧
          ∀ reg, Frame.Todo ⟨memory, cie, regularMemory, cfa, locRegs.rules, regs⟩ reg →
            Frame.Carried ⟨memory, cie, regularMemory, cfa, locRegs.rules, regs⟩ reg := by
    obtain ⟨inside, cfa, frame⟩ := cfa_of_eval run
    refine ⟨inside, cfa, frame, fun reg todo => ?_⟩
    rw [eval_eq inside frame] at run
    rcases Frame.evalEntries_cases
      (Frame.along_startInfo ⟨memory, cie, regularMemory, cfa, locRegs.rules, regs⟩) keys.nodup
      fun _ _ => List.not_mem_nil with ⟨all, -⟩ | ⟨-, halt, stops⟩
    · exact all reg (keys.mem_of_todo todo) todo
    · rw [stops] at run
      cases run
  constructor
  · constructor
    · rintro ⟨out, run⟩
      exact meaning run
    · rintro ⟨inside, cfa, frame, carried⟩
      obtain ⟨-, -, -, -, caller, finished, -, run, -⟩ := eval_carried keys inside frame carried
      exact ⟨_, run⟩
  · intro caller finished run
    obtain ⟨inside, cfa, frame, carried⟩ := meaning run
    obtain ⟨-, -, -, -, caller', finished', -, run', values⟩ := eval_carried keys inside frame carried
    rw [run] at run'
    cases run'
    exact ⟨cfa, frame, values⟩

/-- Two registers that are each other's rule. -/
def swapped : LocRegs where
  rules reg := match reg with
    | 0 => some { type := .register, value0 := 1 }
    | 1 => some { type := .register, value0 := 0 }
    | 65535 => some { type := .register, value0 := 3, value1 := 16 }
    | _ => none

/-- Four registers: two of them, the program counter and the stack pointer. -/
def fourRegs : Regs .uint64 where
  values := [10, 20, 30, 40]
  pcReg := 2
  spReg := 3
  pcReg_lt := by decide
  spReg_lt := by decide

theorem keys_swapped : Keys [0, 65535, 1] swapped.rules where
  nodup := by decide
  mem_iff reg := by
    simp only [List.mem_cons, List.not_mem_nil, or_false, swapped]
    split <;> simp_all

/-- The registers are swapped, though the second is evaluated when the first is already assigned. -/
theorem eval_at_once_swapped :
    ∃ caller : Regs .uint64, ∃ finished,
      eval { memory := memoryBuffer [], abi := .lp64 } {} (memoryBuffer []) swapped [0, 65535, 1] fourRegs
        = .ok (caller, finished) ∧
      caller.get 0 = 20 ∧ caller.get 1 = 10 ∧ caller.get 3 = 56 := by
  have spec := @eval_at_once .uint64 { memory := memoryBuffer [], abi := .lp64 } {} (memoryBuffer [])
    swapped [0, 65535, 1] fourRegs keys_swapped
  obtain ⟨⟨caller, finished⟩, run⟩ := spec.1.mpr ⟨by decide, 56, rfl, fun reg todo => by
    obtain ⟨small, -⟩ := todo
    refine ⟨Nat.lt_of_lt_of_le small (by decide), ?_⟩
    match reg, small with
    | 0, _ => exact ⟨_, rfl⟩
    | 1, _ => exact ⟨_, rfl⟩
    | 2, _ => exact ⟨_, rfl⟩
    | 3, _ => exact ⟨_, rfl⟩⟩
  obtain ⟨cfa, frame, -, values, -⟩ := spec.2 caller finished run
  cases frame
  exact ⟨caller, finished, run, values 0 (by decide), values 1 (by decide), values 3 (by decide)⟩

end DwarfSection

end Dolin.Unwindstack
