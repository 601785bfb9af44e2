import Dolin.Laws.Unwindstack.DwarfMemory
import Dolin.Unwindstack.DwarfOp

/-!
# DWARF expressions

An instruction is an operation with the bytes of its operands. Where instructions stand one behind the
other and none of them jumps, `Eval` carries them out in order, up to the limit of a thousand.
-/

namespace Dolin.Unwindstack

open Region DwarfMemory

variable {a : AddressType}

/-- The state in which a handler finds the machine. -/
def DwarfOp.entered (s : DwarfOp a) (op : UInt8) (operands : List (BitVec a.bits))
    (memory : DwarfMemory) : DwarfOp a :=
  { s with
    lastError := { s.lastError with code := .none }
    memory := memory
    curOp := op
    operands := operands }

/-- The handlers that move the cursor. -/
def Handler.jumps : Handler → Bool
  | .bra | .skip => true
  | _ => false

/-- An operation that `Decode` knows, with its operands as they stand in the section. -/
structure Instr (a : AddressType) where
  op : UInt8
  callback : OpCallback
  known : kCallbackTable op = some callback
  operandBytes : Bytes
  operands : List (BitVec a.bits)
  reads : Reads (DwarfOp.readOperands a callback.operands) operandBytes operands

/-- No operands take no bytes. -/
theorem reads_readOperands_nil : Reads (DwarfOp.readOperands a []) [] [] := reads_pure _

/-- Operands stand one behind the other. -/
theorem reads_readOperands_cons {encoding : UInt8} {encodings : List UInt8} {bs cs : Bytes}
    {v : BitVec 64} {values : List (BitVec a.bits)} (first : Reads (readEncodedValue a encoding) bs v)
    (rest : Reads (DwarfOp.readOperands a encodings) cs values) :
    Reads (DwarfOp.readOperands a (encoding :: encodings)) (bs ++ cs) (v.setWidth a.bits :: values) :=
  first.andThen (rest.map _)

namespace Instr

/-- The bytes of an instruction. -/
def encode (i : Instr a) : Bytes := i.op :: i.operandBytes

/-- The bytes of instructions one behind the other. -/
def encodeAll (is : List (Instr a)) : Bytes := is.flatMap encode

/-- The state in which the handler of an instruction finds the machine. -/
def enter (i : Instr a) (s : DwarfOp a) : DwarfOp a :=
  s.entered i.op i.operands (s.memory.skip i.encode.length)

/-- What an instruction does. -/
def exec (i : Instr a) (s : DwarfOp a) : DwarfOp.Outcome a :=
  if s.stack.length < i.callback.numRequiredStackValues then
    .error (.error { s.lastError with code := .stackIndexNotValid })
  else (i.enter s).handle i.callback.handleFunc

/-- What instructions do in order, up to the first that ends the evaluation. -/
def execAll : List (Instr a) → DwarfOp a → DwarfOp.Outcome a
  | [], s => .ok s
  | i :: is, s => (i.exec s).bind (execAll is)

theorem encode_ne_nil (i : Instr a) : i.encode ≠ [] := List.cons_ne_nil _ _

end Instr

namespace DwarfOp

variable {s s' : DwarfOp a}

/-- **Decode carries out the instruction under the cursor.** -/
theorem decode_instr (i : Instr a) (holds : s.memory.memory.Holds s.memory.curOffset i.encode) :
    s.decode = i.exec s := by
  have parts : s.memory.memory.Holds s.memory.curOffset ([i.op] ++ i.operandBytes) := holds
  have first := reads_readByte i.op s.memory parts.left
  have rest := i.reads (s.memory.skip [i.op].length) parts.right
  have behind : (s.memory.skip [i.op].length).skip i.operandBytes.length
      = s.memory.skip i.encode.length := by
    rw [skip_skip, Nat.add_comm]
    rfl
  unfold decode Instr.exec
  simp only [first, i.known]
  split
  · rfl
  · simp only [rest, behind]
    rfl

/-- Nothing but the stack, and whether it holds a register, differs from `s`. -/
def OnlyStack (s : DwarfOp a) (o : Outcome a) : Prop :=
  ∀ s', o = .ok s' → s' = { s with stack := s'.stack, isRegister := s'.isRegister }

theorem onlyStack_error (s : DwarfOp a) (halt : Halt) : OnlyStack s (.error halt) := nofun

theorem onlyStack_stack (s : DwarfOp a) (stack : List (BitVec a.bits)) (isRegister : Bool) :
    OnlyStack s (.ok { s with stack := stack, isRegister := isRegister }) := by
  intro s' eq
  cases eq
  rfl

theorem onlyStack_map {v : Except Halt (BitVec a.bits)} (s : DwarfOp a)
    (f : BitVec a.bits → List (BitVec a.bits)) :
    OnlyStack s (v.map fun x => { s with stack := f x }) := by
  cases v with
  | error halt => exact onlyStack_error s halt
  | ok x => exact onlyStack_stack s _ s.isRegister

theorem onlyStack_unary (s : DwarfOp a) (f : BitVec a.bits → Except Halt (BitVec a.bits)) :
    OnlyStack s (s.unary f) := by
  unfold unary
  split
  · exact onlyStack_map s _
  · exact onlyStack_error s _

theorem onlyStack_binary (s : DwarfOp a)
    (f : BitVec a.bits → BitVec a.bits → Except Halt (BitVec a.bits)) : OnlyStack s (s.binary f) := by
  unfold binary
  split
  · exact onlyStack_map s _
  · exact onlyStack_error s _

theorem onlyStack_dereference (s : DwarfOp a) (size : Nat) : OnlyStack s (s.dereference size) := by
  unfold dereference
  split
  · exact onlyStack_error s _
  split
  · exact onlyStack_error s _
  · exact onlyStack_stack s _ s.isRegister

theorem onlyStack_pushRegister (s : DwarfOp a) (reg : Nat) (offset : BitVec a.bits) :
    OnlyStack s (s.pushRegister reg offset) := by
  unfold pushRegister
  split
  · exact onlyStack_error s _
  · exact onlyStack_map s _

/-- **The handlers that do not jump work on the stack alone.** -/
theorem onlyStack_handle (s : DwarfOp a) {h : Handler} (straight : h.jumps = false) :
    OnlyStack s (s.handle h) := by
  cases h with
  | bra | skip => cases straight
  | deref => exact onlyStack_dereference s _
  | derefSize =>
    rw [handle]
    split
    · exact onlyStack_error s _
    · exact onlyStack_dereference s _
  | abs | neg | not | plusUconst => exact onlyStack_unary s _
  | and | div | minus | mod | mul | or | plus | shl | shr | shra | xor | eq | ge | gt | le | lt | ne =>
    exact onlyStack_binary s _
  | push | lit | reg | regx | nop => exact onlyStack_stack s _ _
  | breg | bregx => exact onlyStack_pushRegister s _ _
  | notImplemented => exact onlyStack_error s _
  | dup | drop | over_ | swap | rot =>
    rw [handle]
    split
    · exact onlyStack_stack s _ s.isRegister
    · exact onlyStack_error s _
  | pick =>
    rw [handle]
    split
    · exact onlyStack_error s _
    split
    · exact onlyStack_stack s _ s.isRegister
    · exact onlyStack_error s _

/-- An instruction that does not jump leaves the cursor behind it. -/
theorem Instr.exec_memory {i : Instr a} (straight : i.callback.handleFunc.jumps = false)
    (step : i.exec s = .ok s') : s'.memory = s.memory.skip i.encode.length := by
  unfold Instr.exec at step
  split at step
  · cases step
  · rw [onlyStack_handle (i.enter s) straight s' step]
    rfl

/-! ## Instructions in a row -/

/-- The instructions are in order where the evaluation is to read them. -/
structure Ready (s : DwarfOp a) (stop : BitVec 64) (is : List (Instr a)) : Prop where
  straight : ∀ i ∈ is, i.callback.handleFunc.jumps = false
  holds : s.memory.memory.Holds s.memory.curOffset (Instr.encodeAll is)
  ends : s.memory.curOffset.toNat + (Instr.encodeAll is).length = stop.toNat

variable {stop : BitVec 64} {i : Instr a} {is : List (Instr a)}

/-- Before an instruction the cursor is not at the end. -/
theorem Ready.lt (ready : Ready s stop (i :: is)) : s.memory.curOffset < stop := by
  have ends := ready.ends
  have positive := List.length_pos_of_ne_nil i.encode_ne_nil
  rw [Instr.encodeAll, List.flatMap_cons, List.length_append] at ends
  rw [BitVec.lt_def]
  omega

/-- Behind the last instruction it is. -/
theorem Ready.not_lt (ready : Ready s stop []) : ¬ s.memory.curOffset < stop := by
  have ends := ready.ends
  rw [BitVec.lt_def]
  exact Nat.not_lt.mpr (Nat.le_of_eq ends.symm)

theorem Ready.decode (ready : Ready s stop (i :: is)) : s.decode = i.exec s := by
  have holds := ready.holds
  rw [Instr.encodeAll, List.flatMap_cons] at holds
  exact decode_instr i holds.left

/-- The rest of the instructions is in order behind the first. -/
theorem Ready.next (ready : Ready s stop (i :: is)) (step : i.exec s = .ok s') : Ready s' stop is := by
  have memory := Instr.exec_memory (ready.straight i List.mem_cons_self) step
  have ends := ready.ends
  have holds := ready.holds
  rw [Instr.encodeAll, List.flatMap_cons] at ends holds
  refine ⟨fun j mem => ready.straight j (List.mem_cons_of_mem _ mem), ?_, ?_⟩
  · rw [memory]
    exact holds.right
  · have bound := stop.isLt
    rw [List.length_append] at ends
    rw [memory, skip_curOffset, BitVec.toNat_add, BitVec.toNat_ofNat, Instr.encodeAll]
    omega

/-- The evaluation with the limit: the instructions in order, and an error behind the one over it. -/
def limited (limit : Nat) (is : List (Instr a)) (s : DwarfOp a) : Outcome a :=
  if is.length ≤ limit then Instr.execAll is s
  else (Instr.execAll (is.take (limit + 1)) s).bind fun s => s.fail .tooManyIterations

theorem limited_cons (limit : Nat) (i : Instr a) (is : List (Instr a)) (s : DwarfOp a) :
    limited (limit + 1) (i :: is) s = (i.exec s).bind (limited limit is) := by
  unfold limited
  simp only [List.length_cons, Nat.add_le_add_iff_right, List.take_succ_cons, Instr.execAll]
  split
  · rfl
  · cases i.exec s with
    | error halt => rfl
    | ok s' => rfl

/-- **The loop of `Eval`** carries out the instructions in order. -/
theorem evalLoop_ready (ready : Ready s stop is) (left : Nat) :
    evalLoop stop left s = limited left is s := by
  induction is generalizing s left with
  | nil =>
    rw [evalLoop, if_neg ready.not_lt]
    rfl
  | cons i is ih =>
    rw [evalLoop, if_pos ready.lt, ready.decode]
    cases left with
    | zero =>
      rw [limited, if_neg (by simp)]
      simp only [List.take_succ_cons, List.take_zero, Instr.execAll]
      cases step : i.exec s with
      | error halt => rfl
      | ok s' => rfl
    | succ left =>
      rw [limited_cons]
      cases step : i.exec s with
      | error halt => rfl
      | ok s' => exact ih (ready.next step) left

/-! ## The mark of a dex pc -/

/-- The state with the mark set or not. -/
def marked (b : Bool) (s : DwarfOp a) : DwarfOp a := { s with dexPcSet := b }

theorem unary_marked (b : Bool) (s : DwarfOp a) (f : BitVec a.bits → Except Halt (BitVec a.bits)) :
    (s.marked b).unary f = (s.unary f).map (marked b) := by
  simp only [unary, marked]
  cases s.stack with
  | nil => rfl
  | cons x rest =>
    dsimp only
    cases f x <;> rfl

theorem binary_marked (b : Bool) (s : DwarfOp a)
    (f : BitVec a.bits → BitVec a.bits → Except Halt (BitVec a.bits)) :
    (s.marked b).binary f = (s.binary f).map (marked b) := by
  simp only [binary, marked]
  match s.stack with
  | [] => rfl
  | [_] => rfl
  | top :: x :: rest =>
    dsimp only
    cases f x top <;> rfl

theorem dereference_marked (b : Bool) (s : DwarfOp a) (size : Nat) :
    (s.marked b).dereference size = (s.dereference size).map (marked b) := by
  simp only [dereference, marked]
  cases s.stack with
  | nil => rfl
  | cons addr rest =>
    dsimp only
    cases s.regularMemory.readFully (addr.setWidth 64) size <;> rfl

theorem pushRegister_marked (b : Bool) (s : DwarfOp a) (reg : Nat) (offset : BitVec a.bits) :
    (s.marked b).pushRegister reg offset = (s.pushRegister reg offset).map (marked b) := by
  unfold pushRegister
  by_cases out : reg ≥ s.regsInfo.total
  · rw [if_pos out]
    exact if_pos out
  · rw [if_neg out]
    refine (if_neg out).trans ?_
    simp only [marked]
    cases s.regsInfo.get reg <;> rfl

/-- No handler reads the mark. -/
theorem handle_marked (b : Bool) (s : DwarfOp a) (h : Handler) :
    (s.marked b).handle h = (s.handle h).map (marked b) := by
  cases h with
  | abs | neg | not | plusUconst => exact unary_marked b s _
  | and | div | minus | mod | mul | or | plus | shl | shr | shra | xor | eq | ge | gt | le | lt | ne =>
    exact binary_marked b s _
  | deref => exact dereference_marked b s _
  | derefSize =>
    simp only [handle]
    by_cases bad : (s.operandAt 0).toNat > a.size ∨ s.operandAt 0 = 0
    · rw [if_pos bad]
      exact if_pos bad
    · rw [if_neg bad]
      exact (if_neg bad).trans (dereference_marked b s _)
  | breg | bregx => exact pushRegister_marked b s _ _
  | push | lit | reg | regx | nop | skip | notImplemented => rfl
  | dup | drop | over_ | swap | rot =>
    simp only [handle, marked]
    split <;> rfl
  | bra =>
    simp only [handle, marked]
    cases s.stack with
    | nil => rfl
    | cons top rest =>
      by_cases zero : top = 0
      · simp only [zero, ne_eq, not_true, if_false]
        rfl
      · simp only [zero, ne_eq, not_false_iff, if_true]
        rfl
  | pick =>
    unfold handle
    dsimp only
    by_cases far : (s.operandAt 0).toNat > s.stack.length
    · rw [if_pos far]
      exact if_pos far
    · rw [if_neg far]
      refine (if_neg far).trans ?_
      simp only [marked, operandAt]
      cases s.stack[(s.operands.getD 0 0).toNat]? <;> rfl

theorem decode_marked (b : Bool) (s : DwarfOp a) : (s.marked b).decode = s.decode.map (marked b) := by
  unfold decode
  dsimp only [marked]
  cases DwarfMemory.readByte s.memory with
  | mk result memory =>
    cases result with
    | error fault => rfl
    | ok op =>
      dsimp only
      cases kCallbackTable op with
      | none => rfl
      | some callback =>
        dsimp only
        by_cases few : s.stack.length < callback.numRequiredStackValues
        · rw [if_pos few, if_pos few]
          rfl
        · rw [if_neg few, if_neg few]
          cases readOperands a callback.operands memory with
          | mk result memory =>
            cases result with
            | error fault => rfl
            | ok operands => exact handle_marked b (s.entered op operands memory) callback.handleFunc

theorem evalLoop_marked (b : Bool) (stop : BitVec 64) (left : Nat) (s : DwarfOp a) :
    evalLoop stop left (s.marked b) = (evalLoop stop left s).map (marked b) := by
  induction left generalizing s with
  | zero =>
    rw [evalLoop, evalLoop, decode_marked]
    by_cases more : s.memory.curOffset < stop
    · rw [if_pos more]
      refine (if_pos more).trans ?_
      cases s.decode <;> rfl
    · rw [if_neg more]
      exact if_neg more
  | succ left ih =>
    rw [evalLoop, evalLoop, decode_marked]
    by_cases more : s.memory.curOffset < stop
    · rw [if_pos more]
      refine (if_pos more).trans ?_
      cases s.decode with
      | error halt => rfl
      | ok s' => exact ih s'
    · rw [if_neg more]
      exact if_neg more

/-- The state in which `Eval` starts. -/
def fresh (s : DwarfOp a) (start : BitVec 64) : DwarfOp a :=
  { s with
    isRegister := false, stack := [], memory := s.memory.setCurOffset start, dexPcSet := false }

/-- **The two operations in front of the loop** are turns of it: up to the mark, `Eval` is a loop with a
limit of a thousand. -/
theorem eval_eq_evalLoop (s : DwarfOp a) (start stop : BitVec 64) :
    ∃ b, s.eval start stop = (evalLoop stop 1000 (s.fresh start)).map (marked b) := by
  have unmarked (t : DwarfOp a) : (Except.ok t : Outcome a) = .ok (t.marked t.dexPcSet) := rfl
  unfold eval
  extract_lets opened
  have same : opened = s.fresh start := rfl
  clear_value opened
  subst same
  rw [evalLoop]
  by_cases more : (s.fresh start).memory.curOffset < stop
  · rw [if_pos more, if_pos more]
    cases (s.fresh start).decode with
    | error halt => exact ⟨false, rfl⟩
    | ok s₁ =>
      dsimp only
      rw [evalLoop]
      by_cases more₁ : s₁.memory.curOffset < stop
      · rw [if_pos more₁, if_pos more₁]
        cases s₁.decode with
        | error halt => exact ⟨false, rfl⟩
        | ok s₂ =>
          dsimp only
          split
          · exact ⟨true, evalLoop_marked true stop 998 s₂⟩
          · exact ⟨s₂.dexPcSet, evalLoop_marked s₂.dexPcSet stop 998 s₂⟩
      · rw [if_neg more₁, if_neg more₁]
        exact ⟨_, unmarked s₁⟩
  · rw [if_neg more, if_neg more]
    exact ⟨_, unmarked _⟩

/-- **`Eval` over instructions in a row** carries them out in order, up to the limit. -/
theorem eval_ready {start : BitVec 64} (ready : Ready (s.fresh start) stop is) :
    ∃ b, s.eval start stop = (limited 1000 is (s.fresh start)).map (marked b) := by
  obtain ⟨b, eq⟩ := eval_eq_evalLoop s start stop
  exact ⟨b, by rw [eq, evalLoop_ready ready]⟩

end DwarfOp

end Dolin.Unwindstack
