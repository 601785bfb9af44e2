import Dolin.Laws.Unwindstack.DwarfOp

/-!
# Expressions as trees

What a DWARF expression is for: the value of a tree of constants, registers, memory and arithmetic. The
tree is written down as instructions in postfix order; `Eval` over their bytes gives the value of the
tree, or ends as the tree does, at the first operand that has none.
-/

namespace Dolin.Unwindstack

open Region Leb128 DwarfMemory

/-- A number that `ReadSLEB128` reads back. -/
def SLEB : Type := { v : Int // -2 ^ 62 ≤ v ∧ v < 2 ^ 63 }

/-- The operations on one value. -/
inductive UnaryOp where
  | abs | neg | not
  deriving DecidableEq, Repr

/-- The operations on two values. -/
inductive BinaryOp where
  | and | div | minus | mod | mul | or | plus | shl | shr | shra | xor | eq | ge | gt | le | lt | ne
  deriving DecidableEq, Repr

/-- A tree. -/
inductive Expr where
  | lit (n : Fin 32)
  | constu (n : BitVec 64)
  | consts (v : SLEB)
  | breg (reg : Fin 32) (offset : SLEB)
  | deref (e : Expr)
  | plusUconst (e : Expr) (n : BitVec 64)
  | unary (op : UnaryOp) (e : Expr)
  | binary (op : BinaryOp) (x y : Expr)

namespace UnaryOp

/-- The code of the operation. -/
def code : UnaryOp → UInt8
  | abs => 0x19
  | neg => 0x1f
  | not => 0x20

/-- Its handler. -/
def handler : UnaryOp → Handler
  | abs => .abs
  | neg => .neg
  | not => .not

/-- The value of the operation. -/
def apply {a : AddressType} : UnaryOp → BitVec a.bits → Except Halt (BitVec a.bits)
  | abs, x => if x.toInt < 0 then DwarfOp.negate x else .ok x
  | neg, x => DwarfOp.negate x
  | not, x => .ok (~~~x)

end UnaryOp

namespace BinaryOp

/-- The code of the operation. -/
def code : BinaryOp → UInt8
  | and => 0x1a
  | div => 0x1b
  | minus => 0x1c
  | mod => 0x1d
  | mul => 0x1e
  | or => 0x21
  | plus => 0x22
  | shl => 0x24
  | shr => 0x25
  | shra => 0x26
  | xor => 0x27
  | eq => 0x29
  | ge => 0x2a
  | gt => 0x2b
  | le => 0x2c
  | lt => 0x2d
  | ne => 0x2e

/-- Its handler. -/
def handler : BinaryOp → Handler
  | and => .and
  | div => .div
  | minus => .minus
  | mod => .mod
  | mul => .mul
  | or => .or
  | plus => .plus
  | shl => .shl
  | shr => .shr
  | shra => .shra
  | xor => .xor
  | eq => .eq
  | ge => .ge
  | gt => .gt
  | le => .le
  | lt => .lt
  | ne => .ne

/-- The value of the operation; `address` is what an error says. -/
def apply {a : AddressType} (address : BitVec 64) :
    BinaryOp → BitVec a.bits → BitVec a.bits → Except Halt (BitVec a.bits)
  | and, x, y => .ok (x &&& y)
  | div, x, y =>
    if y = 0 then .error (.error ⟨.illegalValue, address⟩)
    else if x = BitVec.intMin a.bits ∧ y = -1 then .error .undefined
    else .ok (x.sdiv y)
  | minus, x, y => .ok (x - y)
  | mod, x, y => if y = 0 then .error (.error ⟨.illegalValue, address⟩) else .ok (x % y)
  | mul, x, y => .ok (x * y)
  | or, x, y => .ok (x ||| y)
  | plus, x, y => .ok (x + y)
  | shl, x, y => DwarfOp.shift (fun x n => x <<< n) x y
  | shr, x, y => DwarfOp.shift (fun x n => x >>> n) x y
  | shra, x, y => DwarfOp.shift BitVec.sshiftRight x y
  | xor, x, y => .ok (x ^^^ y)
  | eq, x, y => .ok (DwarfOp.boolToDwarfBool (x = y))
  | ge, x, y => .ok (DwarfOp.boolToDwarfBool (x ≥ y))
  | gt, x, y => .ok (DwarfOp.boolToDwarfBool (x > y))
  | le, x, y => .ok (DwarfOp.boolToDwarfBool (x ≤ y))
  | lt, x, y => .ok (DwarfOp.boolToDwarfBool (x < y))
  | ne, x, y => .ok (DwarfOp.boolToDwarfBool (x ≠ y))

end BinaryOp

/-- What the value of a tree depends on. -/
structure World (a : AddressType) where
  memory : Memory
  regsInfo : RegsView a
  /-- What stands in the error data where an error says no address. -/
  address : BitVec 64

namespace Expr

variable {a : AddressType}

/-- The value of a register. -/
def register (w : World a) (reg : Nat) : Except Halt (BitVec a.bits) :=
  if reg ≥ w.regsInfo.total then .error (.error ⟨.illegalValue, w.address⟩) else w.regsInfo.get reg

/-- The value that memory holds at an address. -/
def load (w : World a) (addr : BitVec a.bits) : Except Halt (BitVec a.bits) :=
  match w.memory.readFully (addr.setWidth 64) a.size with
  | none => .error (.error ⟨.memoryInvalid, addr.setWidth 64⟩)
  | some bs => .ok (BitVec.ofNat a.bits (decodeLE bs))

/-- The value of a tree. -/
def denote (w : World a) : Expr → Except Halt (BitVec a.bits)
  | lit n => .ok (BitVec.ofNat a.bits n.val)
  | constu n => .ok (n.setWidth a.bits)
  | consts v => .ok ((BitVec.ofInt 64 v.val).setWidth a.bits)
  | breg reg offset => (register w reg.val).map (· + (BitVec.ofInt 64 offset.val).setWidth a.bits)
  | deref e => (denote w e).bind (load w)
  | plusUconst e n => (denote w e).map (· + n.setWidth a.bits)
  | unary op e => (denote w e).bind op.apply
  | binary op x y => (denote w x).bind fun v => (denote w y).bind (op.apply w.address v)

end Expr

/-! ## Writing a tree down -/

namespace Instr

variable {a : AddressType}

/-- An operation without operands. -/
def plain (op : UInt8) (handler : Handler) (required : Nat)
    (known : kCallbackTable op = some ⟨handler, required, []⟩) : Instr a :=
  ⟨op, ⟨handler, required, []⟩, known, [], [], reads_readOperands_nil⟩

/-- An operation with one unsigned operand. -/
def uleb (op : UInt8) (handler : Handler) (required : Nat)
    (known : kCallbackTable op = some ⟨handler, required, [0x01]⟩) (n : BitVec 64) : Instr a where
  op := op
  callback := ⟨handler, required, [0x01]⟩
  known := known
  operandBytes := bytes (unsigned 9 n.toNat) ++ []
  operands := [n.setWidth a.bits]
  reads := reads_readOperands_cons (Reads.readEncodedValue .uleb128 rfl rfl (reads_readULEB128 n))
    reads_readOperands_nil

/-- An operation with one signed operand. -/
def sleb (op : UInt8) (handler : Handler) (required : Nat)
    (known : kCallbackTable op = some ⟨handler, required, [0x09]⟩) (v : SLEB) : Instr a where
  op := op
  callback := ⟨handler, required, [0x09]⟩
  known := known
  operandBytes := bytes (signed 9 v.val) ++ []
  operands := [(BitVec.ofInt 64 v.val).setWidth a.bits]
  reads := reads_readOperands_cons
    (Reads.readEncodedValue .sleb128 rfl rfl (reads_readSLEB128 v.property.1 v.property.2))
    reads_readOperands_nil

end Instr

theorem kCallbackTable_lit :
    ∀ n : Fin 32, kCallbackTable (UInt8.ofNat (0x30 + n.val)) = some ⟨.lit, 0, []⟩ := by
  decide +kernel

theorem kCallbackTable_breg :
    ∀ n : Fin 32, kCallbackTable (UInt8.ofNat (0x70 + n.val)) = some ⟨.breg, 0, [0x09]⟩ := by
  decide +kernel

theorem UnaryOp.kCallbackTable_code (op : UnaryOp) :
    kCallbackTable op.code = some ⟨op.handler, 1, []⟩ := by
  cases op <;> rfl

theorem BinaryOp.kCallbackTable_code (op : BinaryOp) :
    kCallbackTable op.code = some ⟨op.handler, 2, []⟩ := by
  cases op <;> rfl

namespace Expr

variable {a : AddressType}

/-- The instructions of a tree, in postfix order. -/
def compile : Expr → List (Instr a)
  | lit n => [.plain _ .lit 0 (kCallbackTable_lit n)]
  | constu n => [.uleb 0x10 .push 0 rfl n]
  | consts v => [.sleb 0x11 .push 0 rfl v]
  | breg reg offset => [.sleb _ .breg 0 (kCallbackTable_breg reg) offset]
  | deref e => compile e ++ [.plain 0x06 .deref 1 rfl]
  | plusUconst e n => compile e ++ [.uleb 0x23 .plusUconst 1 rfl n]
  | unary op e => compile e ++ [.plain _ op.handler 1 op.kCallbackTable_code]
  | binary op x y => compile x ++ (compile y ++ [.plain _ op.handler 2 op.kCallbackTable_code])

end Expr

/-! ## The instructions compute the tree -/

variable {a : AddressType}

/-- What the value of a tree depends on, in a state of the machine. -/
def DwarfOp.world (s : DwarfOp a) : World a := ⟨s.regularMemory, s.regsInfo, s.lastError.address⟩

/-- `s'` is `s` with `v` on the stack, as far as values depend on it. -/
structure Pushed (s s' : DwarfOp a) (v : BitVec a.bits) : Prop where
  stack : s'.stack = v :: s.stack
  isRegister : s'.isRegister = s.isRegister
  world : s'.world = s.world

/-- An evaluation that puts a value on the stack of `s`, or ends as the value does. -/
def Leaves (s : DwarfOp a) (o : DwarfOp.Outcome a) : Except Halt (BitVec a.bits) → Prop
  | .error halt => o = .error halt
  | .ok v => ∃ s', o = .ok s' ∧ Pushed s s' v

namespace Instr

theorem execAll_append (is js : List (Instr a)) (s : DwarfOp a) :
    execAll (is ++ js) s = (execAll is s).bind (execAll js) := by
  induction is generalizing s with
  | nil => rfl
  | cons i is ih =>
    rw [List.cons_append, execAll, execAll]
    cases i.exec s with
    | error halt => rfl
    | ok s' => exact ih s'

theorem execAll_singleton (i : Instr a) (s : DwarfOp a) : execAll [i] s = i.exec s := by
  rw [execAll]
  cases i.exec s with
  | error halt => rfl
  | ok s' => rfl

theorem exec_of_le {i : Instr a} {s : DwarfOp a}
    (enough : i.callback.numRequiredStackValues ≤ s.stack.length) :
    i.exec s = (i.enter s).handle i.callback.handleFunc := if_neg (Nat.not_lt.mpr enough)

end Instr

open Instr

/-- Instructions behind those that leave a value: they start with the value on the stack, or not at
all. -/
theorem Leaves.append {s : DwarfOp a} {is js : List (Instr a)} {first : Except Halt (BitVec a.bits)}
    {value : BitVec a.bits → Except Halt (BitVec a.bits)} (left : Leaves s (execAll is s) first)
    (then' : ∀ v s', Pushed s s' v → Leaves s (execAll js s') (value v)) :
    Leaves s (execAll (is ++ js) s) (first.bind value) := by
  rw [execAll_append]
  cases first with
  | error halt =>
    rw [show execAll is s = .error halt from left]
    rfl
  | ok v =>
    obtain ⟨s', run, pushed⟩ := left
    rw [run]
    exact then' v s' pushed

theorem UnaryOp.handle_handler (op : UnaryOp) (s : DwarfOp a) :
    s.handle op.handler = s.unary op.apply := by
  cases op <;> rfl

theorem BinaryOp.handle_handler (op : BinaryOp) (s : DwarfOp a) :
    s.handle op.handler = s.binary (op.apply s.world.address) := by
  cases op <;> rfl

/-- Nothing that a value depends on changes where a handler is entered. -/
theorem Pushed.enter {s s' : DwarfOp a} {v : BitVec a.bits} (pushed : Pushed s s' v) (i : Instr a) :
    Pushed s (i.enter s') v :=
  ⟨pushed.stack, pushed.isRegister, pushed.world⟩

theorem Pushed.length_pos {s s' : DwarfOp a} {v : BitVec a.bits} (pushed : Pushed s s' v) :
    1 ≤ s'.stack.length := by
  rw [pushed.stack]
  exact Nat.succ_le_succ (Nat.zero_le _)

/-- The top replaced by a value computed from it. -/
theorem Pushed.unary {s s' : DwarfOp a} {v : BitVec a.bits} (pushed : Pushed s s' v)
    (f : BitVec a.bits → Except Halt (BitVec a.bits)) : Leaves s (s'.unary f) (f v) := by
  rw [DwarfOp.unary, pushed.stack]
  dsimp only
  cases f v with
  | error halt => rfl
  | ok x => exact ⟨_, rfl, rfl, pushed.isRegister, pushed.world⟩

/-- The two on top replaced by a value computed from them. -/
theorem Pushed.binary {s s' s'' : DwarfOp a} {x y : BitVec a.bits} (first : Pushed s s' x)
    (second : Pushed s' s'' y) (f : BitVec a.bits → BitVec a.bits → Except Halt (BitVec a.bits)) :
    Leaves s (s''.binary f) (f x y) := by
  rw [DwarfOp.binary, second.stack, first.stack]
  dsimp only
  cases f x y with
  | error halt => rfl
  | ok v =>
    exact ⟨_, rfl, rfl, second.isRegister.trans first.isRegister, second.world.trans first.world⟩

/-- The top replaced by what memory holds there. -/
theorem Pushed.dereference {s s' : DwarfOp a} {v : BitVec a.bits} (pushed : Pushed s s' v) :
    Leaves s (s'.dereference a.size) (Expr.load s.world v) := by
  rw [DwarfOp.dereference, pushed.stack, Expr.load, ← pushed.world]
  dsimp only [DwarfOp.world]
  cases s'.regularMemory.readFully (v.setWidth 64) a.size with
  | none => rfl
  | some bs => exact ⟨_, rfl, rfl, pushed.isRegister, pushed.world⟩

/-- **The instructions of a tree** put its value on the stack, or end as the tree does. -/
theorem leaves_compile (e : Expr) (s : DwarfOp a) :
    Leaves s (execAll e.compile s) (e.denote s.world) := by
  induction e generalizing s with
  | lit n =>
    have code : (UInt8.ofNat (0x30 + n.val)).toNat - 0x30 = n.val := by
      rw [UInt8.toNat_ofNat']
      omega
    rw [Expr.compile, execAll_singleton, exec_of_le (Nat.zero_le _)]
    refine ⟨_, rfl, ?_, rfl, rfl⟩
    change BitVec.ofNat a.bits _ :: s.stack = _
    rw [show (Instr.enter (Instr.plain _ .lit 0 (kCallbackTable_lit n)) s).curOp
      = UInt8.ofNat (0x30 + n.val) from rfl, code]
  | constu n =>
    rw [Expr.compile, execAll_singleton, exec_of_le (Nat.zero_le _)]
    exact ⟨_, rfl, rfl, rfl, rfl⟩
  | consts v =>
    rw [Expr.compile, execAll_singleton, exec_of_le (Nat.zero_le _)]
    exact ⟨_, rfl, rfl, rfl, rfl⟩
  | breg reg offset =>
    have code : (UInt8.ofNat (0x70 + reg.val)).toNat - 0x70 = reg.val := by
      rw [UInt8.toNat_ofNat']
      omega
    rw [Expr.compile, execAll_singleton, exec_of_le (Nat.zero_le _), Expr.denote, Expr.register]
    change Leaves s (DwarfOp.pushRegister (Instr.enter _ s)
      ((UInt8.ofNat (0x70 + reg.val)).toNat - 0x70) _) _
    rw [code, DwarfOp.pushRegister]
    by_cases out : reg.val ≥ s.regsInfo.total
    · rw [if_pos (show reg.val ≥ s.world.regsInfo.total from out)]
      exact if_pos out
    · rw [if_neg (show ¬ reg.val ≥ s.world.regsInfo.total from out)]
      refine (if_neg out : _ = _) ▸ ?_
      change Leaves s (Except.map _ (s.regsInfo.get reg.val))
        (Except.map _ (s.regsInfo.get reg.val))
      cases s.regsInfo.get reg.val with
      | error halt => rfl
      | ok v => exact ⟨_, rfl, rfl, rfl, rfl⟩
  | deref e ih =>
    refine (ih s).append fun v s' pushed => ?_
    rw [execAll_singleton, exec_of_le pushed.length_pos]
    exact (pushed.enter _).dereference
  | plusUconst e n ih =>
    have asBind : Expr.denote s.world (.plusUconst e n)
        = (e.denote s.world).bind fun v => .ok (v + n.setWidth a.bits) := by
      rw [Expr.denote]
      cases e.denote s.world <;> rfl
    rw [asBind]
    refine (ih s).append fun v s' pushed => ?_
    rw [execAll_singleton, exec_of_le pushed.length_pos]
    exact (pushed.enter _).unary fun x => .ok (x + n.setWidth a.bits)
  | unary op e ih =>
    refine (ih s).append fun v s' pushed => ?_
    rw [execAll_singleton, exec_of_le pushed.length_pos]
    change Leaves s (DwarfOp.handle _ op.handler) _
    rw [op.handle_handler]
    exact (pushed.enter _).unary op.apply
  | binary op x y ihx ihy =>
    refine (ihx s).append fun v s' pushed => ?_
    have second := ihy s'
    rw [pushed.world] at second
    rw [execAll_append]
    cases value : y.denote s.world with
    | error halt =>
      rw [value] at second
      rw [show execAll y.compile s' = .error halt from second]
      rfl
    | ok u =>
      rw [value] at second
      obtain ⟨s'', run, pushed'⟩ := second
      have enough : 2 ≤ s''.stack.length := by
        rw [pushed'.stack, pushed.stack]
        exact Nat.succ_le_succ (Nat.succ_le_succ (Nat.zero_le _))
      rw [run]
      change Leaves s (execAll _ s'') _
      rw [execAll_singleton, exec_of_le enough]
      change Leaves s (DwarfOp.handle _ op.handler) _
      rw [op.handle_handler, (pushed'.enter _).world, pushed.world]
      exact pushed.binary (pushed'.enter _) (op.apply s.world.address)

/-- Nothing of a tree jumps. -/
theorem compile_straight (e : Expr) :
    ∀ i ∈ (e.compile : List (Instr a)), i.callback.handleFunc.jumps = false := by
  induction e with
  | lit | constu | consts | breg =>
    intro i mem
    cases List.mem_singleton.mp mem
    rfl
  | deref e ih | plusUconst e n ih =>
    intro i mem
    rcases List.mem_append.mp mem with mem | mem
    · exact ih i mem
    · cases List.mem_singleton.mp mem
      rfl
  | unary op e ih =>
    intro i mem
    rcases List.mem_append.mp mem with mem | mem
    · exact ih i mem
    · cases List.mem_singleton.mp mem
      cases op <;> rfl
  | binary op x y ihx ihy =>
    intro i mem
    rcases List.mem_append.mp mem with mem | mem
    · exact ihx i mem
    rcases List.mem_append.mp mem with mem | mem
    · exact ihy i mem
    · cases List.mem_singleton.mp mem
      cases op <;> rfl

/-- **`Eval` computes trees.** Where the instructions of a tree stand in a section, `Eval` over them
leaves the value of the tree alone on the stack, or ends with the error of the tree, provided that they
are at most a thousand. With more it ends with an error whatever the tree. -/
theorem eval_compile (e : Expr) (s : DwarfOp a) (start : BitVec 64)
    (room : start.toNat + (encodeAll (e.compile : List (Instr a))).length < 2 ^ 64)
    (holds : s.memory.memory.Holds start (encodeAll (e.compile : List (Instr a)))) :
    let stop := start + BitVec.ofNat 64 (encodeAll (e.compile : List (Instr a))).length
    ((e.compile : List (Instr a)).length ≤ 1000 →
      match e.denote s.world with
      | .error halt => s.eval start stop = .error halt
      | .ok v => ∃ s', s.eval start stop = .ok s' ∧ s'.stack = [v] ∧ s'.isRegister = false) ∧
    (1000 < (e.compile : List (Instr a)).length → ∃ halt, s.eval start stop = .error halt) := by
  intro stop
  have ready : DwarfOp.Ready (s.fresh start) stop e.compile := by
    refine ⟨compile_straight e, holds, ?_⟩
    change start.toNat + _ = (start + BitVec.ofNat 64 _).toNat
    rw [BitVec.toNat_add, BitVec.toNat_ofNat]
    omega
  obtain ⟨b, eq⟩ := DwarfOp.eval_ready ready
  rw [eq]
  constructor
  · intro few
    have run := leaves_compile e (s.fresh start)
    rw [DwarfOp.limited, if_pos few]
    change Leaves _ _ (e.denote s.world) at run
    cases value : e.denote s.world with
    | error halt =>
      rw [value] at run
      rw [show execAll e.compile (s.fresh start) = .error halt from run]
      rfl
    | ok v =>
      rw [value] at run
      obtain ⟨s', ran, pushed⟩ := run
      rw [ran]
      exact ⟨_, rfl, pushed.stack, pushed.isRegister⟩
  · intro many
    rw [DwarfOp.limited, if_neg (Nat.not_le.mpr many)]
    cases execAll ((e.compile : List (Instr a)).take (1000 + 1)) (s.fresh start) with
    | error halt => exact ⟨halt, rfl⟩
    | ok s' => exact ⟨_, rfl⟩

/-- `DW_OP_lit3`, `DW_OP_constu 300`, `DW_OP_plus`, over registers that are all zero. -/
def litPlus : DwarfOp .uint64 where
  memory := { memory := memoryBuffer ([] ++ [0x33, 0x10, 0xac, 0x02, 0x22] ++ []), abi := .lp64 }
  regularMemory := memoryBuffer []
  regsInfo := { total := 4, get := fun _ => .ok 0 }

theorem eval_compile_litPlus : ∃ s', litPlus.eval 0 5 = .ok s' ∧ s'.stack = [303] ∧ s'.isRegister = false :=
  (eval_compile (.binary .plus (.lit 3) (.constu 300)) litPlus 0 (by decide)
    (Memory.holds_memoryBuffer (by decide) rfl)).1 (by decide)

end Dolin.Unwindstack
