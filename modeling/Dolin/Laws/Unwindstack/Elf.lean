import Dolin.Laws.Unwindstack.DwarfStep
import Dolin.Laws.Unwindstack.Symbols
import Dolin.Unwindstack.Elf

/-!
# Frames of signal handlers, and what a library keeps

The kernel leaves the registers of the code that it interrupted on the stack of the handler, in the order
of its own structures. `stepIfSignalHandler_context` gives them back. Names and steps are looked up through
tables that a library keeps, and come out as they do from the library as it was made.
-/

namespace Dolin.Unwindstack

open Region

/-! ## Words -/

/-- Words as they stand in memory. -/
def wordBytes (words : List (BitVec AddressType.uint64.bits)) : Bytes :=
  words.flatMap fun word => encodeLE 8 word.toNat

theorem length_wordBytes (words : List (BitVec AddressType.uint64.bits)) :
    (wordBytes words).length = 8 * words.length := by
  induction words with
  | nil => rfl
  | cons word words ih =>
    rw [wordBytes, List.flatMap_cons, List.length_append, length_encodeLE, List.length_cons]
    change 8 + (wordBytes words).length = _
    omega

theorem wordAt_wordBytes {words : List (BitVec AddressType.uint64.bits)} {i : Nat}
    (inside : i < words.length) (rest : Bytes) :
    wordAt (wordBytes words ++ rest) i = words[i] := by
  induction words generalizing i with
  | nil => exact absurd inside (Nat.not_lt_zero _)
  | cons word words ih =>
    have split' : wordBytes (word :: words) ++ rest = encodeLE 8 word.toNat ++ (wordBytes words ++ rest) := by
      rw [wordBytes, List.flatMap_cons, List.append_assoc]
      rfl
    rw [wordAt, slice, split']
    cases i with
    | zero =>
      have whole : encodeLE 8 word.toNat =
          ((encodeLE 8 word.toNat ++ (wordBytes words ++ rest)).drop (8 * 0)).take 8 := by
        rw [Nat.mul_zero, List.drop_zero, List.take_left' (length_encodeLE 8 _)]
      rw [← whole, decodeLE_encodeLE word.isLt]
      exact BitVec.ofNat_toNat 64 word
    | succ i =>
      have behind : (encodeLE 8 word.toNat ++ (wordBytes words ++ rest)).drop (8 * (i + 1)) =
          (wordBytes words ++ rest).drop (8 * i) := by
        rw [List.drop_append, length_encodeLE, List.drop_of_length_le (by rw [length_encodeLE]; omega),
          List.nil_append]
        congr 1
      rw [behind]
      exact ih (Nat.lt_of_succ_lt_succ inside)

theorem getD_of_lt {α : Type} {l : List α} {i : Nat} {d : α} (inside : i < l.length) : l.getD i d = l[i] := by
  rw [List.getD_eq_getElem?_getD, List.getElem?_eq_getElem inside, Option.getD_some]

namespace Memory

variable {m : Memory} {addr : BitVec 64} {size : Nat} {bs : Bytes}

theorem read_of_readFully (h : m.readFully addr size = some bs) : m.read addr size = bs := by
  unfold readFully at h
  split at h
  · exact Option.some.inj h
  · cases h

end Memory

/-! ## Frames of signal handlers -/

namespace Arch

/-- The code that a signal handler returns to. -/
def trampoline : Arch → Bytes
  | arm64 => [0x68, 0x11, 0x80, 0xd2, 0x01, 0x00, 0x00, 0xd4]
  | x86_64 => [0x48, 0xc7, 0xc0, 0x0f, 0x00, 0x00, 0x00, 0x0f, 0x05, 0x0f]

/-- The number of registers. -/
def total : Arch → Nat
  | arm64 => RegsArm64.last
  | x86_64 => RegsX86_64.places.length

/-- Where the registers of the interrupted code stand. -/
def contextAt (sp : BitVec 64) : Arch → BitVec 64
  | arm64 => sp + 0x80 + 0xb0 + 0x08
  | x86_64 => sp + 0x28

/-- The registers in the order of `x86_64_mcontext_t`. -/
def mcontextOrder : List Nat := [8, 9, 10, 11, 12, 13, 14, 15, 5, 4, 6, 3, 1, 0, 2, 7, 16]

/-- The words that the kernel leaves there, with those that nobody looks at. -/
def context (values others : List (BitVec AddressType.uint64.bits)) :
    Arch → List (BitVec AddressType.uint64.bits)
  | arm64 => values
  | x86_64 => mcontextOrder.map (values.getD · 0) ++ others

/-- The number of these words. -/
def contextWords : Arch → Nat
  | arm64 => RegsArm64.last
  | x86_64 => RegsX86_64.sizeofMcontext / 8

end Arch

variable {regs : Regs .uint64} {values others : List (BitVec AddressType.uint64.bits)}
  {elfMemory processMemory : Memory}
  {relPc : BitVec 64}

theorem values_copyRaw (all : values.length = regs.total) :
    (regs.copyRaw (wordBytes values)).values = values := by
  refine List.ext_getElem ?_ fun i inside inside' => ?_
  · rw [Regs.copyRaw, List.length_map, List.length_range, all]
    rfl
  · simp only [Regs.copyRaw, List.getElem_map, List.getElem_range]
    exact wordAt_wordBytes inside' _

/-- Registers assigned one after the other. -/
theorem get_foldl_set {a : AddressType} {regs : Regs a} (f : Nat → BitVec a.bits) {n : Nat}
    (inside : n ≤ regs.total) (reg : Nat) :
    ((List.range n).foldl (fun regs reg => regs.set reg (f reg)) regs).total = regs.total ∧
      ((List.range n).foldl (fun regs reg => regs.set reg (f reg)) regs).get reg =
        if reg < n then f reg else regs.get reg := by
  induction n with
  | zero => exact ⟨rfl, rfl⟩
  | succ n ih =>
    obtain ⟨total, get⟩ := ih (Nat.le_of_succ_le inside)
    rw [List.range_succ, List.foldl_append, List.foldl_cons, List.foldl_nil]
    refine ⟨Regs.total_set.trans total, ?_⟩
    rw [Regs.get_set (total.symm ▸ inside), get]
    by_cases same : reg = n
    · rw [if_pos same, if_pos (by omega), same]
    · rw [if_neg same]
      by_cases below : reg < n
      · rw [if_pos below, if_pos (by omega)]
      · rw [if_neg below, if_neg (by omega)]

/-- Each register is found again at its place. -/
theorem places_order : ∀ reg < 17, RegsX86_64.places.getD reg 0 < 17 ∧
    Arch.mcontextOrder[RegsX86_64.places.getD reg 0]? = some reg := by decide

theorem values_setFromUcontext (total : regs.total = 17) (all : values.length = 17) :
    (RegsX86_64.setFromUcontext regs (wordBytes (Arch.context values others .x86_64))).values = values := by
  have set' := @get_foldl_set .uint64 regs
    (fun reg => wordAt (wordBytes (Arch.context values others .x86_64)) (RegsX86_64.places.getD reg 0)) 17
    (Nat.le_of_eq total.symm)
  refine List.ext_getElem ?_ fun reg inside inside' => ?_
  · exact (set' 0).1.trans (total.trans all.symm)
  · obtain ⟨small, order⟩ := places_order reg (all ▸ inside')
    obtain ⟨small', at'⟩ := List.getElem?_eq_some_iff.mp order
    have long : RegsX86_64.places.getD reg 0 < (Arch.context values others .x86_64).length := by
      rw [Arch.context, List.length_append, List.length_map]
      exact Nat.lt_of_lt_of_le small' (Nat.le_add_right _ _)
    have word := wordAt_wordBytes long []
    rw [List.append_nil] at word
    have get := (set' reg).2
    rw [if_pos (all ▸ inside'), word] at get
    refine (getD_of_lt inside).symm.trans (get.trans ?_)
    simp only [Arch.context]
    rw [List.getElem_append_left (by rw [List.length_map]; exact small'), List.getElem_map, at',
      getD_of_lt inside']

/-- The registers with other values. -/
def Regs.Holding (regs regs' : Regs .uint64) (values : List (BitVec AddressType.uint64.bits)) : Prop :=
  regs'.values = values ∧ regs'.pcReg = regs.pcReg ∧ regs'.spReg = regs.spReg ∧ regs'.dexPc = regs.dexPc

theorem keeps_foldl_set {a : AddressType} {regs : Regs a} (f : Nat → BitVec a.bits) (order : List Nat) :
    (order.foldl (fun regs reg => regs.set reg (f reg)) regs).pcReg = regs.pcReg ∧
      (order.foldl (fun regs reg => regs.set reg (f reg)) regs).spReg = regs.spReg ∧
      (order.foldl (fun regs reg => regs.set reg (f reg)) regs).dexPc = regs.dexPc := by
  induction order generalizing regs with
  | nil => exact ⟨rfl, rfl, rfl⟩
  | cons reg order ih => exact ih

/-- The words that the code is compared with. -/
theorem decodeLE_trampoline (arch : Arch) : decodeLE (arch.trampoline.take 8) =
    match arch with
    | .arm64 => 0xd4000001d2801168
    | .x86_64 => 0x0f0000000fc0c748 := by
  cases arch <;> decide +kernel

theorem Arch.stepIfSignalHandler_trampoline {arch : Arch} (total : regs.total = arch.total)
    (words : (arch.context values others).length = arch.contextWords) (all : values.length = arch.total)
    (code : elfMemory.Holds relPc arch.trampoline)
    (saved : processMemory.Holds (arch.contextAt regs.sp) (wordBytes (arch.context values others))) :
    ∃ regs', arch.stepIfSignalHandler relPc elfMemory processMemory regs = (true, regs') ∧
      regs.Holding regs' values := by
  have length : (wordBytes (arch.context values others)).length = 8 * arch.contextWords := by
    rw [length_wordBytes, words]
  have read := saved.readFully
  rw [length] at read
  have whole : arch.trampoline.take 8 ++ arch.trampoline.drop 8 = arch.trampoline := List.take_append_drop 8 _
  rw [← whole] at code
  have data := code.left.readFully
  have same := decodeLE_trampoline arch
  cases arch with
  | arm64 =>
    have bytes := Memory.read_of_readFully read
    have data : elfMemory.readFully relPc 8 = some (trampoline .arm64) := data
    have same : decodeLE (trampoline .arm64) = 0xd4000001d2801168 := same
    refine ⟨regs.copyRaw (wordBytes values), ?_, values_copyRaw (all.trans total.symm), rfl, rfl, rfl⟩
    rw [stepIfSignalHandler, RegsArm64.stepIfSignalHandler, data]
    dsimp only
    have bytes : processMemory.read (regs.sp + 0x80 + 0xb0 + 0x08) (8 * RegsArm64.last) = wordBytes values :=
      bytes
    have length : (wordBytes values).length = 8 * RegsArm64.last := length
    rw [same, if_neg (not_not_intro rfl), bytes, length]
    rfl
  | x86_64 =>
    have data : elfMemory.readFully relPc 8 = some ((trampoline .x86_64).take 8) := data
    have data2 : elfMemory.readFully (relPc + 8) 2 = some [0x05, 0x0f] := code.right.readFully
    have same : decodeLE ((trampoline .x86_64).take 8) = 0x0f0000000fc0c748 := same
    have read : processMemory.readFully (regs.sp + 0x28) RegsX86_64.sizeofMcontext =
      some (wordBytes (Arch.context values others .x86_64)) := read
    refine ⟨RegsX86_64.setFromUcontext regs (wordBytes (Arch.context values others .x86_64)), ?_,
      values_setFromUcontext total all, keeps_foldl_set _ _⟩
    rw [stepIfSignalHandler, RegsX86_64.stepIfSignalHandler, data, data2]
    dsimp only
    rw [same, if_neg (by decide), read]

theorem Arch.stepIfSignalHandler_other {arch : Arch}
    (other : elfMemory.readFully relPc 8 ≠ some (arch.trampoline.take 8)) :
    arch.stepIfSignalHandler relPc elfMemory processMemory regs = (false, regs) := by
  have apart {data : Bytes} (read : elfMemory.readFully relPc 8 = some data) :
      decodeLE data ≠ decodeLE (arch.trampoline.take 8) := by
    intro same
    refine other (read.trans (congrArg some ?_))
    have long := Memory.length_of_readFully read
    rw [← encodeLE_decodeLE data, same, long]
    cases arch with
    | arm64 => exact encodeLE_decodeLE ((trampoline .arm64).take 8)
    | x86_64 => exact encodeLE_decodeLE ((trampoline .x86_64).take 8)
  rw [decodeLE_trampoline] at apart
  cases arch with
  | arm64 =>
    rw [stepIfSignalHandler, RegsArm64.stepIfSignalHandler]
    cases read : elfMemory.readFully relPc 8 with
    | none => rfl
    | some data => exact if_pos (apart read)
  | x86_64 =>
    rw [stepIfSignalHandler, RegsX86_64.stepIfSignalHandler]
    cases read : elfMemory.readFully relPc 8 with
    | none => rfl
    | some data =>
      cases elfMemory.readFully (relPc + 8) 2 with
      | none => rfl
      | some data2 => exact if_pos (.inl (apart read))

/-- **A frame that the kernel made for a signal handler** gives back the registers of the code that was
interrupted, whatever they are: where its code returns to `sigreturn`, the registers are those that the
kernel left on the stack, each at the place that its structure has for it. In other code a frame is none of
the kernel, and its registers stay. -/
theorem Arch.stepIfSignalHandler_context (arch : Arch) (total : regs.total = arch.total)
    (words : (arch.context values others).length = arch.contextWords) (all : values.length = arch.total) :
    (elfMemory.Holds relPc arch.trampoline →
      processMemory.Holds (arch.contextAt regs.sp) (wordBytes (arch.context values others)) →
        ∃ regs', arch.stepIfSignalHandler relPc elfMemory processMemory regs = (true, regs') ∧
          regs.Holding regs' values) ∧
    (elfMemory.readFully relPc 8 ≠ some (arch.trampoline.take 8) →
      arch.stepIfSignalHandler relPc elfMemory processMemory regs = (false, regs)) :=
  ⟨stepIfSignalHandler_trampoline total words all, stepIfSignalHandler_other⟩

/-- Registers of a handler on x86_64, its stack pointer 40 bytes before the end of the addresses. -/
def handlerRegs : Regs .uint64 where
  values := (List.replicate 17 0).set 7 (-0x28)
  pcReg := 16
  spReg := 7
  pcReg_lt := by decide
  spReg_lt := by decide

/-- The interrupted code had its registers' numbers in them. -/
theorem Arch.stepIfSignalHandler_context_numbers :
    ∃ regs', Arch.stepIfSignalHandler .x86_64 0 (memoryBuffer ([] ++ Arch.trampoline .x86_64 ++ []))
        (memoryBuffer ([] ++ wordBytes
          (Arch.context ((List.range 17).map (BitVec.ofNat _)) (List.replicate 6 0) .x86_64) ++ []))
        handlerRegs = (true, regs') ∧
      handlerRegs.Holding regs' ((List.range 17).map (BitVec.ofNat _)) :=
  (Arch.stepIfSignalHandler_context .x86_64 rfl rfl rfl).1 (Memory.holds_memoryBuffer (by decide) rfl)
    (Memory.holds_memoryBuffer
      (by rw [List.nil_append, List.append_nil, length_wordBytes]; decide) rfl)

/-! ## What a library keeps -/

namespace Elf

open DwarfSection (Programs Regulars Coherent)

/-- What is in a library: its symbol tables with their entries, and its programs. -/
structure Contents where
  tables : List (Symbols × List Sym)
  programs : Programs .uint64

/-- The name of the function with an address, from the first table that has one. -/
def Contents.names (c : Contents) (elf : Elf) (addr : BitVec 64) : Option (Bytes × BitVec 64) :=
  c.tables.findSome? fun (symbols, entries) => Symbols.lookup symbols elf.memory elf.loadBias entries addr

/-- A table can be read, and its names stand in its string table. -/
structure Readable (elf : Elf) (turns : Nat) (table : Symbols × List Sym) : Prop where
  whole : Symbols.Table .uint64 elf.memory elf.loadBias table.1 table.2
  enough : table.2.length < turns
  within : ∀ info ∈ Symbols.infos table.1 elf.loadBias table.2, info.strOffset < table.1.strEnd

/-- A library as it was made: nothing was looked up in it. -/
structure Made (elf : Elf) (c : Contents) (turns : Nat) : Prop where
  symbols : elf.symbols = c.tables.map Prod.fst
  readable : ∀ table ∈ c.tables, elf.Readable turns table
  ehFrame : ∀ s ∈ elf.ehFrame, s.emptied = s ∧ Regulars s c.programs turns

/-- A library after some lookups. -/
structure Used (elf : Elf) (c : Contents) (turns : Nat) (now : Elf) : Prop where
  valid : now.valid = elf.valid
  loadBias : now.loadBias = elf.loadBias
  memory : now.memory = elf.memory
  symbols : List.Forall₂
    (fun table s => Symbols.Known .uint64 elf.memory elf.loadBias table.1 table.2 s) c.tables now.symbols
  ehFrame : now.ehFrame.map DwarfSection.emptied = elf.ehFrame
  right : ∀ s ∈ now.ehFrame, Regulars s c.programs turns ∧ Coherent s c.programs

variable {elf now : Elf} {c : Contents} {turns : Nat} {addr : BitVec 64}

theorem Made.used (made : elf.Made c turns) : elf.Used c turns elf where
  valid := rfl
  loadBias := rfl
  memory := rfl
  symbols := by
    rw [made.symbols, List.forall₂_map_right_iff, List.forall₂_same]
    exact fun table mem => Symbols.known_self (made.readable table mem).whole
  ehFrame := by
    cases found : elf.ehFrame with
    | none => rfl
    | some s => exact congrArg some (made.ehFrame s found).1
  right s mem := by
    obtain ⟨same, regulars⟩ := made.ehFrame s mem
    exact ⟨regulars, same ▸ DwarfSection.coherent_emptied s c.programs⟩

/-- The loop over the tables. -/
theorem getNameIn_eq {tables : List (Symbols × List Sym)} {symbols : List Symbols}
    (readable : ∀ table ∈ tables, elf.Readable turns table)
    (known : List.Forall₂
      (fun table s => Symbols.Known .uint64 elf.memory elf.loadBias table.1 table.2 s) tables symbols) :
    ∃ symbols', getNameIn elf.memory elf.loadBias turns addr symbols =
        some (tables.findSome? fun (s, entries) => Symbols.lookup s elf.memory elf.loadBias entries addr,
          symbols') ∧
      List.Forall₂
        (fun table s => Symbols.Known .uint64 elf.memory elf.loadBias table.1 table.2 s) tables symbols' := by
  induction known with
  | nil => exact ⟨[], rfl, .nil⟩
  | @cons table s tables symbols first rest ih =>
    obtain ⟨here, readable⟩ := List.forall_mem_cons.mp readable
    obtain ⟨s', first', answer⟩ := Symbols.getName_lookup here.whole here.enough here.within first addr
    rw [getNameIn, answer, List.findSome?_cons]
    dsimp only
    generalize Symbols.lookup table.1 elf.memory elf.loadBias table.2 addr = found
    cases found with
    | some name => exact ⟨s' :: symbols, rfl, .cons first' rest⟩
    | none =>
      obtain ⟨symbols', others, rest'⟩ := ih readable
      refine ⟨s' :: symbols', ?_, .cons first' rest'⟩
      dsimp only
      rw [others]
      rfl

/-- **Names** come out as they stand in the tables, whatever was looked up before. -/
theorem Used.getFunctionName (used : elf.Used c turns now) (made : elf.Made c turns) (addr : BitVec 64) :
    ∃ now', now.getFunctionName turns addr = some (if elf.valid then c.names elf addr else none, now') ∧
      elf.Used c turns now' := by
  obtain ⟨symbols', answer, known⟩ :=
    @getNameIn_eq elf turns addr c.tables now.symbols made.readable used.symbols
  rw [← used.memory, ← used.loadBias] at answer
  rw [Elf.getFunctionName, ← used.valid]
  obtain ⟨valid, loadBias, memory, symbols, ehFrame⟩ := now
  cases valid with
  | false => exact ⟨_, rfl, used⟩
  | true =>
    refine ⟨⟨true, loadBias, memory, symbols', ehFrame⟩, ?_,
      ⟨used.valid, used.loadBias, used.memory, known, used.ehFrame, used.right⟩⟩
    rw [if_pos rfl, if_pos rfl, answer, Contents.names, ← used.memory, ← used.loadBias]
    rfl

variable {arch : Arch} {relPc adjustedRelPc elfOffset : BitVec 64} {regs : Regs .uint64}
  {processMemory : Memory} {order : Rules → List Nat}

theorem Used.stepInterface (used : elf.Used c turns now) :
    (now.stepInterface turns adjustedRelPc regs processMemory order).1 =
        (elf.stepInterface turns adjustedRelPc regs processMemory order).1 ∧
      elf.Used c turns (now.stepInterface turns adjustedRelPc regs processMemory order).2 := by
  unfold Elf.stepInterface
  rw [← used.loadBias]
  split
  · exact ⟨rfl, used⟩
  · have same := used.ehFrame
    have right := used.right
    cases found : now.ehFrame with
    | none =>
      rw [found] at same
      rw [← same]
      exact ⟨rfl, used⟩
    | some s =>
      rw [found] at same right
      obtain ⟨regulars, coherent⟩ := right s rfl
      obtain ⟨answer, regulars', coherent', emptied⟩ :=
        @DwarfSection.step_eq _ s c.programs turns (adjustedRelPc - now.loadBias) regs processMemory order
          regulars coherent
      have used' : elf.Used c turns
          { now with
            ehFrame := some (s.step turns (adjustedRelPc - now.loadBias) regs processMemory order).2 } :=
        ⟨used.valid, used.loadBias, used.memory, used.symbols, (congrArg some emptied).trans same,
          fun t mem => by cases mem; exact ⟨regulars', coherent'⟩⟩
      rw [← same]
      dsimp only [Option.map_some]
      generalize s.step turns (adjustedRelPc - now.loadBias) regs processMemory order = out at answer used' ⊢
      generalize s.emptied.step turns (adjustedRelPc - now.loadBias) regs processMemory order = out' at answer ⊢
      obtain ⟨o, after⟩ := out
      obtain ⟨o', after'⟩ := out'
      cases answer
      match o with
      | none | some (.ok _) | some (.error (.error _)) | some (.error .undefined) | some (.error .aborted) =>
        exact ⟨rfl, used'⟩

/-- **Steps** come out as they do from the library as it was made, whatever was stepped through before. -/
theorem Used.step (used : elf.Used c turns now) :
    (now.step arch turns relPc adjustedRelPc elfOffset regs processMemory order).1 =
        (elf.step arch turns relPc adjustedRelPc elfOffset regs processMemory order).1 ∧
      elf.Used c turns (now.step arch turns relPc adjustedRelPc elfOffset regs processMemory order).2 := by
  unfold Elf.step
  rw [← used.valid, ← used.memory]
  cases now.valid with
  | false => exact ⟨rfl, used⟩
  | true =>
    rw [if_pos rfl, if_pos rfl]
    obtain ⟨signal, regs⟩ := arch.stepIfSignalHandler (relPc + elfOffset) now.memory processMemory regs
    cases signal with
    | true => exact ⟨rfl, used⟩
    | false => exact used.stepInterface

end Elf

end Dolin.Unwindstack
