import Dolin.Base.Abi
import Dolin.Base.Region

/-!
# Memory of the process that is unwound

`Memory` of `Memory.cpp`. A read copies as many bytes as it can, from none to the number asked for. The
kinds of memory differ in what stands behind `Read`; the unwinder sees `ReadFully`, which is all or
nothing.
-/

namespace Dolin.Unwindstack

open Region

/-- A `Memory`: what `Read(addr, dst, size)` copies to `dst`. Its length is what the call returns. -/
structure Memory where
  read : BitVec 64 → Nat → Bytes
  length_read_le : ∀ addr size, (read addr size).length ≤ size

namespace Memory

/-- `ReadFully`. -/
def readFully (m : Memory) (addr : BitVec 64) (size : Nat) : Option Bytes :=
  if (m.read addr size).length = size then some (m.read addr size) else none

/-- The loop of `ReadString`, with the number of bytes that may still be read. -/
def readString (m : Memory) (addr : BitVec 64) : Nat → Option Bytes
  | 0 => none
  | left + 1 =>
    match m.readFully addr 1 with
    | some [value] => if value = 0 then some [] else (m.readString (addr + 1) left).map (value :: ·)
    | _ => none

/-- The bytes `bs` stand at `addr`: each part of them can be read at its place. -/
def Holds (m : Memory) (addr : BitVec 64) (bs : Bytes) : Prop :=
  ∀ before part after, bs = before ++ part ++ after →
    m.readFully (addr + BitVec.ofNat 64 before.length) part.length = some part

end Memory

/-- `MemoryBuffer::Read`; `MemoryFileAtOffset::Read` is the same over the mapped bytes. -/
def memoryBuffer (raw : Bytes) : Memory where
  read addr size := if raw.length ≤ addr.toNat then [] else (raw.drop addr.toNat).take size
  length_read_le addr size := by
    split
    · exact Nat.zero_le _
    · exact List.length_take_le _ _

namespace Memory

variable {m : Memory} {addr : BitVec 64}

/-- A full read has the length that was asked for. -/
theorem length_of_readFully {size : Nat} {bs : Bytes} (h : m.readFully addr size = some bs) :
    bs.length = size := by
  unfold readFully at h
  split at h
  · next full =>
    cases h
    exact full
  · cases h

theorem readFully_zero (m : Memory) (addr : BitVec 64) : m.readFully addr 0 = some [] := by
  have nothing : m.read addr 0 = [] := List.length_eq_zero_iff.mp (Nat.le_zero.mp (m.length_read_le _ _))
  rw [Memory.readFully, nothing, List.length_nil, if_pos rfl]

theorem holds_nil (m : Memory) (addr : BitVec 64) : m.Holds addr [] := by
  intro before part after eq
  obtain ⟨eq, -⟩ := List.append_eq_nil_iff.mp eq.symm
  obtain ⟨-, rfl⟩ := List.append_eq_nil_iff.mp eq
  exact m.readFully_zero _

theorem Holds.readFully {bs : Bytes} (h : m.Holds addr bs) :
    m.readFully addr bs.length = some bs := by
  have whole := h [] bs [] (by rw [List.nil_append, List.append_nil])
  rw [List.length_nil, BitVec.add_zero] at whole
  exact whole

theorem Holds.left {as bs : Bytes} (h : m.Holds addr (as ++ bs)) : m.Holds addr as := by
  intro before part after eq
  refine h before part (after ++ bs) ?_
  rw [eq, List.append_assoc]

theorem Holds.right {as bs : Bytes} (h : m.Holds addr (as ++ bs)) :
    m.Holds (addr + BitVec.ofNat 64 as.length) bs := by
  intro before part after eq
  have there := h (as ++ before) part after (by rw [eq]; simp only [List.append_assoc])
  rw [List.length_append, BitVec.ofNat_add, ← BitVec.add_assoc] at there
  exact there

/-- A buffer holds what stands in it. -/
theorem holds_memoryBuffer {first bs rest : Bytes}
    (room : (first ++ bs ++ rest).length ≤ 2 ^ 64) (here : addr.toNat = first.length) :
    (memoryBuffer (first ++ bs ++ rest)).Holds addr bs := by
  intro before part after eq
  subst eq
  by_cases nothing : part = []
  · subst nothing
    exact Memory.readFully_zero _ _
  · have positive := List.length_pos_of_ne_nil nothing
    simp only [List.length_append] at room
    have place : (addr + BitVec.ofNat 64 before.length).toNat = (first ++ before).length := by
      rw [BitVec.toNat_add, BitVec.toNat_ofNat, here, List.length_append]
      omega
    have read : (memoryBuffer (first ++ (before ++ part ++ after) ++ rest)).read
        (addr + BitVec.ofNat 64 before.length) part.length = part := by
      have assoc : first ++ (before ++ part ++ after) ++ rest
          = (first ++ before) ++ (part ++ (after ++ rest)) := by
        simp only [List.append_assoc]
      simp only [memoryBuffer, place]
      rw [if_neg (by simp only [List.length_append]; omega), assoc, List.drop_left, List.take_left]
    rw [Memory.readFully, read, if_pos rfl]

end Memory

end Dolin.Unwindstack
