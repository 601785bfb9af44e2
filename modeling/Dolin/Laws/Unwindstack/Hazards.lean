import Dolin.Laws.Unwindstack.DwarfOp

/-!
# What an expression can do wrong

An expression comes from a file, and may hold anything. `Decode` asks for the values that an operation
needs, so none of them reads the stack outside, but for `DW_OP_pick`: its check lets the index pass that
is one too large. What else C++ leaves undefined are the shifts by the width of an address or more, the
negative of the least number, its quotient by -1, registers that cannot be read, and operands of too many
bytes.
-/

namespace Dolin.Unwindstack

open DwarfMemory

variable {a : AddressType}

/-- How many values a handler takes from the stack. -/
def Handler.arity : Handler → Nat
  | .deref | .derefSize | .dup | .drop | .abs | .neg | .not | .plusUconst | .bra => 1
  | .over_ | .swap | .and | .div | .minus | .mod | .mul | .or | .plus | .shl | .shr | .shra | .xor
  | .eq | .ge | .gt | .le | .lt | .ne => 2
  | .rot => 3
  | .push | .pick | .skip | .lit | .reg | .regx | .breg | .bregx | .nop | .notImplemented => 0

namespace DwarfOp

variable {s : DwarfOp a}

/-- What a handler may find that C++ leaves undefined. -/
def Bad (s : DwarfOp a) : Handler → Prop
  | .pick => (s.operandAt 0).toNat = s.stack.length
  | .abs | .neg => s.stack.head? = some (BitVec.intMin a.bits)
  | .div => s.stack.take 2 = [-1, BitVec.intMin a.bits]
  | .shl | .shr | .shra => ∃ top ∈ s.stack.head?, a.bits ≤ top.toNat
  | .bregx => (s.operandAt 0).toNat < s.regsInfo.total ∧
    s.regsInfo.get (s.operandAt 0).toNat = .error .undefined
  | .breg => s.curOp.toNat - 0x70 < s.regsInfo.total ∧
    s.regsInfo.get (s.curOp.toNat - 0x70) = .error .undefined
  | _ => False

/-- The operation under the cursor does something that C++ leaves undefined. -/
def Hazard (s : DwarfOp a) : Prop :=
  ∃ op memory callback, readByte s.memory = (.ok op, memory) ∧ kCallbackTable op = some callback ∧
    callback.numRequiredStackValues ≤ s.stack.length ∧
    ((∃ memory', readOperands a callback.operands memory = (.error .undefined, memory')) ∨
      ∃ operands memory', readOperands a callback.operands memory = (.ok operands, memory') ∧
        (s.entered op operands memory').Bad callback.handleFunc)

/-- The table asks for as many values as the handlers take. -/
theorem arity_le_required : ∀ op : UInt8, ∀ callback, kCallbackTable op = some callback →
    callback.handleFunc.arity ≤ callback.numRequiredStackValues := by
  have all : ∀ n : Fin 256, ∀ callback, kCallbackTable (UInt8.ofNat n.val) = some callback →
      callback.handleFunc.arity ≤ callback.numRequiredStackValues := by
    decide +kernel
  intro op
  have := all ⟨op.toNat, op.toNat_lt⟩
  rwa [UInt8.ofNat_toNat] at this

theorem ok_defined {α : Type} {v : α} : Except.ok v ≠ .error Halt.undefined := by
  intro bad
  cases bad

theorem failed_defined {α : Type} {data : DwarfErrorData} :
    (.error (.error data) : Except Halt α) ≠ .error .undefined := by
  intro bad
  cases bad

theorem map_undefined_iff {α β : Type} {f : α → β} {v : Except Halt α} :
    v.map f = .error .undefined ↔ v = .error .undefined := by
  cases v with
  | error halt => exact ⟨fun h => by cases h; rfl, fun h => by cases h; rfl⟩
  | ok v => exact iff_of_false ok_defined ok_defined

theorem negate_undefined_iff {x : BitVec a.bits} :
    negate x = .error .undefined ↔ x = BitVec.intMin a.bits := by
  unfold negate
  split
  · next least => exact ⟨fun _ => least, fun _ => rfl⟩
  · next other => exact iff_of_false ok_defined other

theorem shift_undefined_iff {f : BitVec a.bits → Nat → BitVec a.bits} {x top : BitVec a.bits} :
    shift f x top = .error .undefined ↔ a.bits ≤ top.toNat := by
  unfold shift
  split
  · next small => exact iff_of_false ok_defined (Nat.not_le.mpr small)
  · next large => exact ⟨fun _ => Nat.not_lt.mp large, fun _ => rfl⟩

/-- The values that an operation takes, in front of the others. -/
theorem exists_two {values : List (BitVec a.bits)} (two : 2 ≤ values.length) :
    ∃ x y rest, values = x :: y :: rest := by
  obtain ⟨x, rest, rfl⟩ := List.exists_cons_of_length_pos (Nat.le_of_succ_le two)
  obtain ⟨y, rest, rfl⟩ := List.exists_cons_of_length_pos (Nat.le_of_succ_le_succ two)
  exact ⟨x, y, rest, rfl⟩

theorem exists_three {values : List (BitVec a.bits)} (three : 3 ≤ values.length) :
    ∃ x y z rest, values = x :: y :: z :: rest := by
  obtain ⟨x, rest, rfl⟩ := List.exists_cons_of_length_pos (Nat.lt_of_lt_of_le (Nat.zero_lt_succ 2) three)
  obtain ⟨y, z, rest, rfl⟩ := exists_two (Nat.le_of_succ_le_succ three)
  exact ⟨x, y, z, rest, rfl⟩

/-- With a value on the stack, an operation on it is as undefined as its value. -/
theorem unary_undefined_iff {f : BitVec a.bits → Except Halt (BitVec a.bits)}
    (positive : 1 ≤ s.stack.length) :
    s.unary f = .error .undefined ↔ ∃ x ∈ s.stack.head?, f x = .error .undefined := by
  obtain ⟨x, rest, stack⟩ := List.exists_cons_of_length_pos positive
  rw [unary, stack]
  dsimp only
  rw [map_undefined_iff]
  simp

/-- With two values on the stack, an operation on them is as undefined as its value. -/
theorem binary_undefined_iff {f : BitVec a.bits → BitVec a.bits → Except Halt (BitVec a.bits)}
    (two : 2 ≤ s.stack.length) :
    s.binary f = .error .undefined ↔
      ∃ top x rest, s.stack = top :: x :: rest ∧ f x top = .error .undefined := by
  obtain ⟨top, x, rest, stack⟩ := exists_two two
  rw [binary, stack]
  dsimp only
  rw [map_undefined_iff]
  constructor
  · intro bad
    exact ⟨top, x, rest, rfl, bad⟩
  · rintro ⟨_, _, _, same, bad⟩
    cases same
    exact bad

theorem dereference_defined {size : Nat} (positive : 1 ≤ s.stack.length) :
    s.dereference size ≠ .error .undefined := by
  obtain ⟨addr, rest, stack⟩ := List.exists_cons_of_length_pos positive
  rw [dereference, stack]
  dsimp only
  cases s.regularMemory.readFully (addr.setWidth 64) size with
  | none => exact failed_defined
  | some bytes => exact ok_defined

theorem pushRegister_undefined_iff {reg : Nat} {offset : BitVec a.bits} :
    s.pushRegister reg offset = .error .undefined ↔
      reg < s.regsInfo.total ∧ s.regsInfo.get reg = .error .undefined := by
  unfold pushRegister
  split
  · next out => exact iff_of_false failed_defined fun bad => absurd bad.1 (Nat.not_lt.mpr out)
  · next inside =>
    rw [map_undefined_iff]
    exact ⟨fun bad => ⟨Nat.not_le.mp inside, bad⟩, And.right⟩

/-! ### The handlers, family by family -/

/-- The operations on one value that are always defined. -/
theorem unary_defined {f : BitVec a.bits → Except Halt (BitVec a.bits)} (positive : 1 ≤ s.stack.length)
    (never : ∀ x, f x ≠ .error .undefined) : s.unary f ≠ .error .undefined := by
  rw [Ne, unary_undefined_iff positive]
  rintro ⟨x, -, bad⟩
  exact never x bad

/-- The operations on two values that are always defined. -/
theorem binary_defined {f : BitVec a.bits → BitVec a.bits → Except Halt (BitVec a.bits)}
    (two : 2 ≤ s.stack.length) (never : ∀ x top, f x top ≠ .error .undefined) :
    s.binary f ≠ .error .undefined := by
  rw [Ne, binary_undefined_iff two]
  rintro ⟨top, x, rest, -, bad⟩
  exact never x top bad

/-- The shifts, by the value on top. -/
theorem shifts_undefined_iff {f : BitVec a.bits → Nat → BitVec a.bits} (two : 2 ≤ s.stack.length) :
    s.binary (shift f) = .error .undefined ↔ ∃ top ∈ s.stack.head?, a.bits ≤ top.toNat := by
  rw [binary_undefined_iff two]
  constructor
  · rintro ⟨top, x, rest, stack, bad⟩
    exact ⟨top, by rw [stack]; rfl, shift_undefined_iff.mp bad⟩
  · rintro ⟨top, mem, large⟩
    obtain ⟨top', x, rest, stack⟩ := exists_two two
    rw [stack] at mem
    cases mem
    exact ⟨_, _, _, stack, shift_undefined_iff.mpr large⟩

theorem neg_undefined_iff (positive : 1 ≤ s.stack.length) :
    s.handle .neg = .error .undefined ↔ s.Bad .neg := by
  rw [handle, unary_undefined_iff positive]
  simp only [negate_undefined_iff, Bad, Option.mem_def, exists_eq_right]

/-- The absolute value takes the negative of what is below zero. -/
theorem abs_undefined_iff (positive : 1 ≤ s.stack.length) :
    s.handle .abs = .error .undefined ↔ s.Bad .abs := by
  rw [handle, unary_undefined_iff positive, Bad]
  constructor
  · rintro ⟨x, top, bad⟩
    split at bad
    · rw [Option.mem_def.mp top, negate_undefined_iff.mp bad]
    · cases bad
  · intro least
    refine ⟨_, least, ?_⟩
    rw [if_pos (by cases a <;> decide), negate_undefined_iff]

/-- The signed quotient; a divisor of zero is an error of the expression. -/
theorem div_undefined_iff (two : 2 ≤ s.stack.length) :
    s.handle .div = .error .undefined ↔ s.Bad .div := by
  rw [handle, binary_undefined_iff two, Bad]
  constructor
  · rintro ⟨top, x, rest, stack, bad⟩
    split at bad
    · cases bad
    split at bad
    · next both => rw [stack, both.1, both.2]; rfl
    · cases bad
  · intro both
    obtain ⟨top, x, rest, stack⟩ := exists_two two
    rw [stack] at both
    obtain ⟨rfl, rfl⟩ : top = -1 ∧ x = BitVec.intMin a.bits := by simpa using both
    refine ⟨_, _, _, stack, ?_⟩
    rw [if_neg (by cases a <;> decide), if_pos ⟨rfl, rfl⟩]

/-- `DW_OP_pick` asks for no value of the stack, and checks its index itself. -/
theorem pick_undefined_iff : s.handle .pick = .error .undefined ↔ s.Bad .pick := by
  rw [handle, Bad]
  split
  · next far => exact iff_of_false failed_defined (Nat.ne_of_gt far)
  · next near =>
    split
    · next x there =>
      have inside := (List.getElem?_eq_some_iff.mp there).1
      exact iff_of_false ok_defined (Nat.ne_of_lt inside)
    · next outside =>
      have beyond := List.getElem?_eq_none_iff.mp outside
      exact ⟨fun _ => Nat.le_antisymm (Nat.not_lt.mp near) beyond, fun _ => rfl⟩

/-- **A handler that has its values** is undefined in the cases of `Bad` only. -/
theorem handle_undefined_iff {h : Handler} (enough : h.arity ≤ s.stack.length) :
    s.handle h = .error .undefined ↔ s.Bad h := by
  cases h with
  | push | lit | reg | regx | nop | skip => exact iff_of_false ok_defined id
  | notImplemented => exact iff_of_false failed_defined id
  | deref => exact iff_of_false (dereference_defined enough) id
  | derefSize =>
    rw [handle]
    split
    · exact iff_of_false failed_defined id
    · exact iff_of_false (dereference_defined enough) id
  | dup | drop | bra =>
    obtain ⟨x, rest, stack⟩ := List.exists_cons_of_length_pos enough
    rw [handle, stack]
    exact iff_of_false ok_defined id
  | over_ | swap =>
    obtain ⟨x, y, rest, stack⟩ := exists_two enough
    rw [handle, stack]
    exact iff_of_false ok_defined id
  | rot =>
    obtain ⟨x, y, z, rest, stack⟩ := exists_three enough
    rw [handle, stack]
    exact iff_of_false ok_defined id
  | breg | bregx => exact pushRegister_undefined_iff
  | not | plusUconst => exact iff_of_false (unary_defined enough fun _ => ok_defined) id
  | and | minus | mul | or | plus | xor | eq | ge | gt | le | lt | ne =>
    exact iff_of_false (binary_defined enough fun _ _ => ok_defined) id
  | mod =>
    refine iff_of_false (binary_defined enough fun x top => ?_) id
    split
    · exact failed_defined
    · exact ok_defined
  | neg => exact neg_undefined_iff enough
  | abs => exact abs_undefined_iff enough
  | div => exact div_undefined_iff enough
  | shl | shr | shra => exact shifts_undefined_iff enough
  | pick => exact pick_undefined_iff

/-- A hazard, where the operation and its row of the table are known. -/
theorem hazard_iff {op : UInt8} {memory : DwarfMemory} {callback : OpCallback}
    (first : readByte s.memory = (.ok op, memory)) (known : kCallbackTable op = some callback) :
    s.Hazard ↔ callback.numRequiredStackValues ≤ s.stack.length ∧
      ((∃ memory', readOperands a callback.operands memory = (.error .undefined, memory')) ∨
        ∃ operands memory', readOperands a callback.operands memory = (.ok operands, memory') ∧
          (s.entered op operands memory').Bad callback.handleFunc) := by
  constructor
  · rintro ⟨_, _, _, read, row, enough, bad⟩
    cases first.symm.trans read
    cases known.symm.trans row
    exact ⟨enough, bad⟩
  · rintro ⟨enough, bad⟩
    exact ⟨op, memory, callback, first, known, enough, bad⟩

/-- **`Decode` is undefined** where the operation under the cursor is a hazard. -/
theorem decode_undefined_iff : s.decode = .error .undefined ↔ s.Hazard := by
  unfold decode
  dsimp only
  cases first : readByte s.memory with
  | mk result memory =>
    cases result with
    | error fault =>
      obtain rfl := readByte_fault first
      refine iff_of_false failed_defined ?_
      rintro ⟨_, _, _, read, -⟩
      cases first.symm.trans read
    | ok op =>
      dsimp only
      cases known : kCallbackTable op with
      | none =>
        refine iff_of_false failed_defined ?_
        rintro ⟨_, _, _, read, row, -⟩
        cases first.symm.trans read
        cases known.symm.trans row
      | some callback =>
        rw [hazard_iff first known]
        dsimp only
        split
        · next few => exact iff_of_false failed_defined fun bad => absurd few (Nat.not_lt.mpr bad.1)
        · next enough =>
          have arity := Nat.le_trans (arity_le_required op callback known) (Nat.not_lt.mp enough)
          rw [and_iff_right (Nat.not_lt.mp enough)]
          cases rest : readOperands a callback.operands memory with
          | mk result memory' =>
            cases result with
            | error fault =>
              constructor
              · intro bad
                obtain rfl : fault = .undefined := by
                  cases fault with
                  | failed => cases bad
                  | undefined => rfl
                  | aborted => cases bad
                exact .inl ⟨memory', rfl⟩
              · rintro (⟨_, bad⟩ | ⟨_, _, good, -⟩)
                · cases bad
                  rfl
                · cases good
            | ok operands =>
              have entered := handle_undefined_iff (s := s.entered op operands memory') arity
              constructor
              · intro bad
                exact .inr ⟨operands, memory', rfl, entered.mp bad⟩
              · rintro (⟨_, bad⟩ | ⟨_, _, good, bad⟩)
                · cases bad
                · cases good
                  exact entered.mpr bad

/-- The loop from `s`, with `left` turns until the limit, decodes an operation in `t`. -/
inductive Visits (stop : BitVec 64) : Nat → DwarfOp a → DwarfOp a → Prop where
  | here {left : Nat} {s : DwarfOp a} (more : s.memory.curOffset < stop) : Visits stop left s s
  | next {left : Nat} {s s' t : DwarfOp a} (more : s.memory.curOffset < stop) (step : s.decode = .ok s')
      (later : Visits stop left s' t) : Visits stop (left + 1) s t

theorem evalLoop_undefined_iff {stop : BitVec 64} {left : Nat} :
    evalLoop stop left s = .error .undefined ↔ ∃ t, Visits stop left s t ∧ t.Hazard := by
  induction left generalizing s with
  | zero =>
    rw [evalLoop]
    split
    · next more =>
      cases step : s.decode with
      | error halt =>
        constructor
        · intro bad
          cases bad
          exact ⟨s, .here more, decode_undefined_iff.mp step⟩
        · rintro ⟨t, visit, bad⟩
          cases visit
          exact step.symm.trans (decode_undefined_iff.mpr bad)
      | ok s' =>
        refine iff_of_false failed_defined ?_
        rintro ⟨t, visit, bad⟩
        cases visit
        cases step.symm.trans (decode_undefined_iff.mpr bad)
    · next done =>
      refine iff_of_false ok_defined ?_
      rintro ⟨t, ⟨more⟩, -⟩
      exact absurd more done
  | succ left ih =>
    rw [evalLoop]
    split
    · next more =>
      cases step : s.decode with
      | error halt =>
        constructor
        · intro bad
          cases bad
          exact ⟨s, .here more, decode_undefined_iff.mp step⟩
        · rintro ⟨t, visit, bad⟩
          cases visit with
          | here => exact step.symm.trans (decode_undefined_iff.mpr bad)
          | next _ step' _ => cases step.symm.trans step'
      | ok s' =>
        refine (ih (s := s')).trans ?_
        constructor
        · rintro ⟨t, visit, bad⟩
          exact ⟨t, .next more step visit, bad⟩
        · rintro ⟨t, visit, bad⟩
          cases visit with
          | here => cases step.symm.trans (decode_undefined_iff.mpr bad)
          | next _ step' later =>
            cases step.symm.trans step'
            exact ⟨t, later, bad⟩
    · next done =>
      refine iff_of_false ok_defined ?_
      rintro ⟨t, visit, -⟩
      cases visit with
      | here more => exact absurd more done
      | next more _ _ => exact absurd more done

/-- **`Eval` is undefined** exactly where one of the operations that it comes to is a hazard, whatever
the memory that the expression stands in. No operation but `DW_OP_pick` reads the stack outside. -/
theorem eval_undefined_iff (s : DwarfOp a) (start stop : BitVec 64) :
    s.eval start stop = .error .undefined ↔
      ∃ t, Visits stop 1000 (s.fresh start) t ∧ t.Hazard := by
  obtain ⟨b, eq⟩ := eval_eq_evalLoop s start stop
  rw [eq, map_undefined_iff, evalLoop_undefined_iff]

end DwarfOp

end Dolin.Unwindstack
