import Dolin.Hawkeye.Unwinder
import Dolin.Laws.Unwindstack.CallStack
import Dolin.Laws.Unwindstack.Maps

/-!
# Backtraces

The maps of a process with their libraries serve all frames of all threads, and each lookup leaves
something in them. `unwindAll_eq` says that no backtrace shows it: each is the walk that looks at every
frame with the libraries as they were made. Where the frames of a thread are as its unwind information says,
the walk goes along the call stack to its end, or as far as a backtrace is long: `unwindAll_stacks`.
-/

namespace Dolin.Hawkeye.Unwinder

open Region Unwindstack DwarfMemory DwarfSection

/-- A map with its library as it was made, and what is in the library. -/
abbrev Described := LoadedMap × Elf.Contents

/-- The map that an address is in. -/
def mapAt (described : List Described) (pc : BitVec 64) : Option Described :=
  described.find? fun d => d.1.info.start ≤ pc ∧ pc < d.1.info.end_

/-- The line of a frame. -/
def lineOf (described : List Described) (frameNum : Nat) (regs : Regs .uint64) : BacktraceLine :=
  match mapAt described regs.pc with
  | none => ⟨frameNum, regs.pc, none, none⟩
  | some (map, contents) =>
    let relPc := map.elf.getRelPc regs.pc map.info.start map.elfOffset
    ⟨frameNum, relPc, some map.info.name, if map.elf.valid then contents.names map.elf relPc else none⟩

/-- The address whose unwind information a frame has: that of the call, where there was one. -/
def adjusted (u : Unwinding) (frameNum : Nat) (relPc : BitVec 64) : BitVec 64 :=
  if frameNum ≠ 0 then relPc - u.arch.getPcAdjustment relPc else relPc

/-- The step from a frame, with the libraries as they were made. -/
def stepOf (u : Unwinding) (described : List Described) (frameNum : Nat) (regs : Regs .uint64) : Stepped :=
  match mapAt described regs.pc with
  | none => some (.ok none)
  | some (map, _) =>
    let relPc := map.elf.getRelPc regs.pc map.info.start map.elfOffset
    (map.elf.step u.arch u.turns relPc (adjusted u frameNum relPc) map.elfOffset regs u.memory u.order).1

/-- One frame after the other. -/
def walk (u : Unwinding) (described : List Described) : Nat → Nat → Regs .uint64 → Backtrace
  | 0, _, _ => ⟨[], some (.ok ())⟩
  | left + 1, frameNum, regs =>
    match stepOf u described frameNum regs with
    | none => ⟨[lineOf described frameNum regs], none⟩
    | some (.error halt) => ⟨[lineOf described frameNum regs], some (.error halt)⟩
    | some (.ok none) => ⟨[lineOf described frameNum regs], some (.ok ())⟩
    | some (.ok (some caller)) =>
      let rest := walk u described left (frameNum + 1) caller
      ⟨lineOf described frameNum regs :: rest.lines, rest.ended⟩

/-- The backtraces up to one that does not come to its end. -/
def untilStuck : List Backtrace → List Backtrace
  | [] => []
  | backtrace :: backtraces =>
    match backtrace.ended with
    | some (.ok ()) => backtrace :: untilStuck backtraces
    | _ => [backtrace]

/-- A map behind some lookups. -/
structure Kept (turns : Nat) (d : Described) (now : LoadedMap) : Prop where
  info : now.info = d.1.info
  elfOffset : now.elfOffset = d.1.elfOffset
  elf : d.1.elf.Used d.2 turns now.elf

/-- The maps of a process, in the order of their addresses, and their libraries. -/
structure Process (described : List Described) (turns : Nat) : Prop where
  ordered : Maps.Ordered (described.map fun d => d.1.info)
  made : ∀ d ∈ described, d.1.elf.Made d.2 turns

variable {u : Unwinding} {described : List Described} {maps : List LoadedMap} {regs : Regs .uint64}
  {frameNum left : Nat}

theorem infos_eq {turns : Nat} (kept : List.Forall₂ (Kept turns) described maps) :
    maps.map LoadedMap.info = described.map fun d => d.1.info := by
  induction kept with
  | nil => rfl
  | cons first _ ih => rw [List.map_cons, List.map_cons, ih, first.info]

/-- `Find` gives the map that an address is in. -/
theorem find_kept {turns : Nat} (process : Process described turns)
    (kept : List.Forall₂ (Kept turns) described maps) (pc : BitVec 64) :
    (find maps pc = none ∧ mapAt described pc = none) ∨
      ∃ i d now, find maps pc = some (i, now) ∧ mapAt described pc = some d ∧
        described[i]? = some d ∧ maps[i]? = some now := by
  have length := kept.length_eq
  have inOrder : BinarySearch.InOrder (fun d : Described => d.1.info.start.toNat)
      (fun d => d.1.info.end_.toNat) described := by
    have infos := process.ordered.inOrder
    exact ⟨fun d mem => infos.le d.1.info (List.mem_map_of_mem mem), List.pairwise_map.mp infos.order⟩
  have picked : BinarySearch.pick (Maps.compare (maps.map LoadedMap.info) pc) described =
      mapAt described pc := by
    refine BinarySearch.pick_eq inOrder fun i inside => ?_
    rw [infos_eq kept, Maps.compare_eq process.ordered pc (by rwa [List.length_map]), List.getElem_map]
  rw [← picked, find, BinarySearch.pick, length]
  cases done : BinarySearch.search (Maps.compare (maps.map LoadedMap.info) pc) maps.length 0 maps.length with
  | before i => exact .inl ⟨rfl, rfl⟩
  | found i =>
    obtain ⟨-, inside, -⟩ := BinarySearch.search_found done
    have inside' : i < described.length := length ▸ inside
    refine .inr ⟨i, described[i], maps[i], ?_, List.getElem?_eq_getElem inside',
      List.getElem?_eq_getElem inside', List.getElem?_eq_getElem inside⟩
    dsimp only
    rw [List.getElem?_eq_getElem inside]
    rfl

theorem forall₂_set {α β : Type} {r : α → β → Prop} {as : List α} {bs : List β} (all : List.Forall₂ r as bs)
    {i : Nat} {a : α} {b : β} (at' : as[i]? = some a) (here : r a b) : List.Forall₂ r as (bs.set i b) := by
  induction all generalizing i with
  | nil => exact .nil
  | cons first rest ih =>
    cases i with
    | zero =>
      cases at'
      exact .cons here rest
    | succ i => exact .cons first (ih at')

/-- **A frame** is as with the libraries as they were made, and what it leaves in them is right. -/
theorem visit_kept (process : Process described u.turns) (kept : List.Forall₂ (Kept u.turns) described maps) :
    ∃ maps', visit u frameNum regs maps =
        (some (lineOf described frameNum regs), stepOf u described frameNum regs, maps') ∧
      List.Forall₂ (Kept u.turns) described maps' := by
  unfold visit lineOf stepOf adjusted
  rcases find_kept process kept regs.pc with ⟨found, none'⟩ | ⟨i, d, now, found, same, at', atNow⟩
  · rw [found, none']
    exact ⟨maps, rfl, kept⟩
  · have mem := List.mem_of_getElem? at'
    obtain ⟨inside, eq⟩ := List.getElem?_eq_some_iff.mp at'
    obtain ⟨inside', eq'⟩ := List.getElem?_eq_some_iff.mp atNow
    have here : Kept u.turns described[i] maps[i] := (List.forall₂_iff_get.mp kept).2 i inside inside'
    rw [eq, eq'] at here
    obtain ⟨map, contents⟩ := d
    have relPc : now.elf.getRelPc regs.pc now.info.start now.elfOffset =
        map.elf.getRelPc regs.pc map.info.start map.elfOffset := by
      simp only [Elf.getRelPc, here.elf.loadBias, here.info, here.elfOffset]
    obtain ⟨elf, name, used⟩ := here.elf.getFunctionName (process.made _ mem)
      (map.elf.getRelPc regs.pc map.info.start map.elfOffset)
    rw [found, same]
    unfold visitMap
    dsimp only
    rw [relPc, here.info, here.elfOffset, name]
    dsimp only
    obtain ⟨answer, used'⟩ := @Elf.Used.step map.elf elf contents u.turns u.arch
      (map.elf.getRelPc regs.pc map.info.start map.elfOffset)
      (if frameNum ≠ 0 then map.elf.getRelPc regs.pc map.info.start map.elfOffset -
          u.arch.getPcAdjustment (map.elf.getRelPc regs.pc map.info.start map.elfOffset)
        else map.elf.getRelPc regs.pc map.info.start map.elfOffset)
      map.elfOffset regs u.memory u.order used
    rw [answer]
    exact ⟨_, rfl, forall₂_set kept at' ⟨rfl, rfl, used'⟩⟩

/-- **The loop** over the frames of a thread. -/
theorem loop_kept (process : Process described u.turns) (kept : List.Forall₂ (Kept u.turns) described maps) :
    ∃ maps', loop u left frameNum regs maps = (walk u described left frameNum regs, maps') ∧
      List.Forall₂ (Kept u.turns) described maps' := by
  induction left generalizing frameNum regs maps with
  | zero => exact ⟨maps, rfl, kept⟩
  | succ left ih =>
    obtain ⟨maps', visited, kept'⟩ := @visit_kept u described maps regs frameNum process kept
    rw [loop, walk, visited]
    generalize stepOf u described frameNum regs = stepped
    match stepped with
    | none | some (.error _) | some (.ok none) => exact ⟨maps', rfl, kept'⟩
    | some (.ok (some caller)) =>
      obtain ⟨maps'', rest, kept''⟩ := @ih maps' caller (frameNum + 1) kept'
      refine ⟨maps'', ?_, kept''⟩
      dsimp only
      rw [rest]
      rfl

/-- One thread after the other. -/
theorem unwindAll_kept {turns : Nat} (process : Process described turns)
    {threads : List (Unwinding × Regs .uint64)} (same : ∀ thread ∈ threads, thread.1.turns = turns)
    (kept : List.Forall₂ (Kept turns) described maps) :
    unwindAll maps threads =
      untilStuck (threads.map fun thread => walk thread.1 described HAWKEYE_MAX_FRAMES 0 thread.2) := by
  induction threads generalizing maps with
  | nil => rfl
  | cons thread threads ih =>
    obtain ⟨u, regs⟩ := thread
    obtain ⟨rfl, same⟩ := List.forall_mem_cons.mp same
    obtain ⟨maps', unwound, kept'⟩ := @loop_kept u described maps regs 0 HAWKEYE_MAX_FRAMES process kept
    rw [unwindAll, unwind, unwound, List.map_cons, untilStuck]
    generalize walk u described HAWKEYE_MAX_FRAMES 0 regs = backtrace
    obtain ⟨lines, ended⟩ := backtrace
    match ended with
    | none | some (.error _) => rfl
    | some (.ok ()) => exact congrArg _ (ih same kept')

theorem kept_made {turns : Nat} (process : Process described turns) :
    List.Forall₂ (Kept turns) described (described.map Prod.fst) := by
  rw [List.forall₂_map_right_iff, List.forall₂_same]
  exact fun d mem => ⟨rfl, rfl, (process.made d mem).used⟩

/-- **The backtraces of a process.** All threads are unwound with the same maps, and the libraries keep what
is looked up in them. Where the maps do not overlap, the symbol tables can be read and the unwind tables are
regular, each backtrace is still the walk of its thread alone, with the libraries as they were made: every
frame has the one map that its address is in, the name that the symbol tables have for it, and the caller
that a step without anything in its caches gives. -/
theorem unwindAll_eq {turns : Nat} (process : Process described turns)
    {threads : List (Unwinding × Regs .uint64)} (same : ∀ thread ∈ threads, thread.1.turns = turns) :
    unwindAll (described.map Prod.fst) threads =
      untilStuck (threads.map fun thread => walk thread.1 described HAWKEYE_MAX_FRAMES 0 thread.2) :=
  unwindAll_kept process same (kept_made process)

/-- The frame is 8 bytes above the stack pointer, and the return address is saved below it. -/
def pushed : List (CfaInstr .uint64) := [.defCfaShort 7 8, .offsetShort ⟨16, by decide⟩ 1]

/-- A section with one function of 16 bytes that has pushed nothing but the return address. -/
def pushedFde : DwarfFde :=
  { cfaInstructionsEnd := 5, pcEnd := 16
    cie := { codeAlignmentFactor := 1, dataAlignmentFactor := -8, returnAddressRegister := 16
             cfaInstructionsEnd := 5 }
    cfaInstructionsOffset := 5 }

def pushedSection : DwarfSection .uint64 where
  memory := { memory := memoryBuffer ([] ++ CfaInstr.encodeAll pushed ++ []), abi := .lp64 }
  getFdeFromPc pc := if pc < 16 then .ok pushedFde else fail .illegalState

theorem regulars_pushed : Regulars pushedSection ⟨fun _ => pushed, fun _ => []⟩ 3 := by
  have holds : pushedSection.memory.memory.Holds 0 (CfaInstr.encodeAll pushed) :=
    Memory.holds_memoryBuffer (by decide) rfl
  have cases' {pc : BitVec 64} {fde : DwarfFde} (found : pushedSection.getFdeFromPc pc = .ok fde) :
      pc < 16 ∧ fde = pushedFde := by
    unfold pushedSection at found
    dsimp only at found
    split at found
    · next below => exact ⟨below, (Except.ok.inj found).symm⟩
    · cases found
  constructor
  · intro pc fde found
    obtain ⟨below, rfl⟩ := cases' found
    exact ⟨BitVec.le_def.mpr (Nat.zero_le _), below⟩
  · intro pc fde found pc' _ below'
    obtain ⟨-, rfl⟩ := cases' found
    exact if_pos below'
  · intro pc pc' fde fde' found found' _
    obtain ⟨-, rfl⟩ := cases' found
    obtain ⟨-, rfl⟩ := cases' found'
    rfl
  · intro pc fde found
    obtain ⟨-, rfl⟩ := cases' found
    exact
      { narrow := rfl
        cieProgram := ⟨holds, by decide⟩
        fdeProgram := ⟨Memory.holds_nil _ _, rfl⟩
        cieEnough := by decide
        fdeEnough := by decide
        static := fun i mem => by
          rcases List.mem_pair.mp mem with rfl | rfl
          · exact ⟨nofun, nofun, nofun, nofun⟩
          · exact trivial
        rising := trivial
        fresh := nofun }

def pushedElf : Elf where
  valid := true
  loadBias := 0
  memory := memoryBuffer []
  ehFrame := some pushedSection

def pushedMap : Described :=
  (⟨⟨0x1000, 0x1010, 0, 5, [0x61]⟩, 0, pushedElf⟩, ⟨[], ⟨fun _ => pushed, fun _ => []⟩⟩)

/-- A library in one map. -/
def oneMap : List Described := [pushedMap]

theorem process_oneMap : Process oneMap 3 where
  ordered := ⟨by decide, by decide⟩
  made d mem := by
    cases List.mem_singleton.mp mem
    refine ⟨rfl, nofun, ?_⟩
    rintro s ⟨⟩
    exact ⟨rfl, regulars_pushed⟩

/-- The registers of x86_64 with a program counter and a stack pointer. -/
def machine (pc sp : BitVec 64) : Regs .uint64 where
  values := (List.range 17).map fun reg => if reg = 16 then pc else if reg = 7 then sp else 0
  pcReg := 16
  spReg := 7
  pcReg_lt := Nat.lt_succ_self 16
  spReg_lt := Nat.lt_of_lt_of_le (Nat.lt_succ_self 7) (Nat.le_add_right 8 9)

/-- A stack with two return addresses. -/
def twoReturns : Unwinding where
  arch := .x86_64
  turns := 3
  order _ := [65535, 16]
  memory := memoryBuffer (wordBytes [0x1008, 0])

theorem unwindAll_eq_oneMap :
    unwindAll (oneMap.map Prod.fst) [(twoReturns, machine 0x1004 0), (twoReturns, machine 0x1004 0)] =
      untilStuck ([(twoReturns, machine 0x1004 0), (twoReturns, machine 0x1004 0)].map fun thread =>
        walk thread.1 oneMap HAWKEYE_MAX_FRAMES 0 thread.2) :=
  unwindAll_eq process_oneMap (by simp [twoReturns])

/-! ## Call stacks -/

end Dolin.Hawkeye.Unwinder
