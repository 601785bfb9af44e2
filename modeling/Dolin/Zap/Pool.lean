import Dolin.Base.JavaString
import Dolin.Base.Machine
import Dolin.Zap.Print
import Mathlib.Logic.Function.Basic

/-!
# The pool of log data

`ZapData.java`: `obtain` takes an object out of a pool of objects linked by their `next`, or makes a new
one, and `recycle` puts it back. Any number of threads call them. What is `synchronized` is one step, and
so is every write to a field outside of it and every `new ZapData()`.

A thread recycles only what it obtained and has not recycled yet, as `ZapPrint.print` does.
-/

namespace Dolin.Zap

/-- `ZapData`. `next` is the number of another object. A string may be null. -/
structure ZapData where
  level : Level := .none
  tag : Option Utf16 := some []
  msg : Option Utf16 := some []
  next : Option Nat := none

/-- An assignment to a field. -/
inductive FieldWrite where
  | level (value : Level)
  | tag (value : Option Utf16)
  | msg (value : Option Utf16)

/-- The object after the assignment. -/
def FieldWrite.apply : FieldWrite → ZapData → ZapData
  | .level value, data => { data with level := value }
  | .tag value, data => { data with tag := value }
  | .msg value, data => { data with msg := value }

/-- `MAX_POOL_SIZE`. -/
def MAX_POOL_SIZE : Int32 := 50

/-- The objects, of which those below `created` have been made, and the static fields. -/
structure DataPool where
  objects : Nat → ZapData := fun _ => {}
  created : Nat := 0
  sPool : Option Nat := none
  sPoolSize : Int32 := 0

namespace DataPool

/-- An object is changed. -/
def write (p : DataPool) (data : Nat) (f : ZapData → ZapData) : DataPool :=
  { p with objects := Function.update p.objects data (f (p.objects data)) }

/-- `new ZapData()`. -/
def create (p : DataPool) : Nat × DataPool :=
  (p.created,
    { p with objects := Function.update p.objects p.created {}, created := p.created + 1 })

/-- What is synchronized in `obtain`: the object that it returns, if the pool has one. -/
def obtainSync (p : DataPool) : Option (Nat × DataPool) :=
  match p.sPool with
  | some data =>
    let p := { p with sPool := (p.objects data).next }
    let p := p.write data fun d => { d with next := none }
    some (data, { p with sPoolSize := p.sPoolSize - 1 })
  | none => none

/-- What is synchronized in `recycle`. -/
def recycleSync (p : DataPool) (this : Nat) : DataPool :=
  if p.sPoolSize < MAX_POOL_SIZE then
    let p := p.write this fun d => { d with next := p.sPool }
    let p := { p with sPool := some this }
    { p with sPoolSize := p.sPoolSize + 1 }
  else p

end DataPool

/-- Where a thread is. -/
inductive PoolCall where
  | idle
  /-- `obtain` found no object in the pool, and is to make one. -/
  | create (writes : List FieldWrite)
  /-- `obtain` has an object, and these assignments to make. -/
  | obtain (data : Nat) (writes : List FieldWrite)
  /-- `recycle` has these assignments to make before what is synchronized. -/
  | recycle (data : Nat) (writes : List FieldWrite)

/-- A thread, with the objects that it obtained and did not recycle. -/
structure PoolThread where
  held : List Nat := []
  call : PoolCall := .idle

/-- What a thread does next. -/
inductive PoolAction where
  | obtain
  | obtainWith (level : Level) (tag msg : Option Utf16)
  | recycle (data : Nat)
  /-- The call goes on. -/
  | proceed

/-- The pool and the threads. -/
structure PoolSystem (τ : Type) where
  pool : DataPool := {}
  threads : τ → PoolThread := fun _ => {}

namespace PoolSystem

variable {τ : Type} [DecidableEq τ]

/-- A thread is elsewhere. -/
def goto (s : PoolSystem τ) (t : τ) (thread : PoolThread) : PoolSystem τ :=
  { s with threads := Function.update s.threads t thread }

/-- `obtain` begins, with the assignments that follow in `obtain(level, tag, msg)`. -/
def obtain (s : PoolSystem τ) (t : τ) (writes : List FieldWrite) : PoolSystem τ :=
  match s.pool.obtainSync with
  | some (data, pool) =>
    { s with pool }.goto t ⟨data :: (s.threads t).held, .obtain data writes⟩
  | none => s.goto t ⟨(s.threads t).held, .create writes⟩

/-- The assignments of `recycle`. -/
def clearing : List FieldWrite := [.level .none, .tag (some []), .msg (some [])]

/-- The call of a thread goes on by a step. -/
def proceed (s : PoolSystem τ) (t : τ) : Option (PoolSystem τ) :=
  let held := (s.threads t).held
  match (s.threads t).call with
  | .idle => none
  | .create writes =>
    let (data, pool) := s.pool.create
    some ({ s with pool }.goto t ⟨data :: held, .obtain data writes⟩)
  | .obtain data (w :: writes) =>
    some ({ s with pool := s.pool.write data w.apply }.goto t ⟨held, .obtain data writes⟩)
  | .obtain _ [] => some (s.goto t ⟨held, .idle⟩)
  | .recycle data (w :: writes) =>
    some ({ s with pool := s.pool.write data w.apply }.goto t ⟨held, .recycle data writes⟩)
  | .recycle data [] =>
    some ({ s with pool := s.pool.recycleSync data }.goto t ⟨held.erase data, .idle⟩)

/-- A step of a thread. Only an idle thread begins a call. -/
def step (s : PoolSystem τ) : τ × PoolAction → Option (PoolSystem τ)
  | (t, .proceed) => s.proceed t
  | (t, action) =>
    match (s.threads t).call, action with
    | .idle, .obtain => some (s.obtain t [])
    | .idle, .obtainWith level tag msg => some (s.obtain t [.level level, .tag tag, .msg msg])
    | .idle, .recycle data =>
      if data ∈ (s.threads t).held then
        some (s.goto t ⟨(s.threads t).held, .recycle data clearing⟩)
      else none
    | _, _ => none

end PoolSystem

end Dolin.Zap
