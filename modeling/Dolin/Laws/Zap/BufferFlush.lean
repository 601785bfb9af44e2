import Dolin.Zap.BufferFlush

/-!
# The writes of a flush

`CallFileFlush` writes to each `BufferFlush` once. Both copy branches of `Write` then leave the
bytes it was given, whether they fit the allocation with room to spare or fill it.

More writes add up as long as each finds no more bytes than `capacity`, which is settled by the first
one: a write that makes a larger allocation does not say so in `capacity`, and for the next write
`EmptySize` goes below zero. A first write that settles on no byte at all throws.
-/

namespace Dolin.Zap.BufferFlush

open Region

variable {abi : Abi}

/-- `Write` leaves the file that a flush is bound to, and what else it does not write. -/
theorem write_keeps {f f' : BufferFlush} {bs : Bytes} (h : write abi f bs = some f') :
    f'.logFilePtr = f.logFilePtr ∧ f'.path = f.path ∧ f'.release = f.release := by
  obtain ⟨g, made, h⟩ := Option.bind_eq_some_iff.mp h
  have kept : g.logFilePtr = f.logFilePtr ∧ g.path = f.path ∧ g.release = f.release := by
    unfold allocated at made
    split at made
    · cases made
      exact ⟨rfl, rfl, rfl⟩
    · obtain ⟨data, -, made⟩ := Option.bind_eq_some_iff.mp made
      cases made
      exact ⟨rfl, rfl, rfl⟩
  obtain ⟨data, -, h⟩ := Option.bind_eq_some_iff.mp h
  split at h
  · obtain ⟨stored, -, h⟩ := Option.bind_eq_some_iff.mp h
    cases h
    exact kept
  · obtain ⟨fresh, -, h⟩ := Option.bind_eq_some_iff.mp h
    obtain ⟨old, -, h⟩ := Option.bind_eq_some_iff.mp h
    obtain ⟨tmp, -, h⟩ := Option.bind_eq_some_iff.mp h
    obtain ⟨tmp', -, h⟩ := Option.bind_eq_some_iff.mp h
    cases h
    exact kept

/-! ## The destructor -/

/-- **The destructor of a flush that was written to is undefined**: it gives `delete[]` a pointer
behind the first byte of the allocation, or the first byte twice. -/
theorem deletable_iff (f : BufferFlush) : Deletable f.deletes ↔ f.data = none := by
  have path : ∀ offset, Deleted.data offset ∉ (if f.path.isSome then [Deleted.path] else []) := by
    intro offset
    split <;> simp
  cases there : f.data with
  | none =>
    simp only [deletes, there, Option.isSome_none, Bool.false_eq_true, if_false, List.append_nil]
    refine iff_of_true ⟨?_, fun offset mem => absurd mem (path offset)⟩ trivial
    split
    · exact List.pairwise_singleton _ _
    · exact List.nodup_nil
  | some data =>
    simp only [deletes, there, Option.isSome_some, if_true]
    refine iff_of_false ?_ nofun
    rintro ⟨once, first⟩
    have zero := first f.written (List.mem_append_right _ List.mem_cons_self)
    rw [zero] at once
    have twice := (List.nodup_append.mp once).2.1
    exact (List.nodup_cons.mp twice).1 List.mem_cons_self

/-! ## Any number of writes -/

/-- The flush has its allocation, and carries these bytes. -/
structure Filled (f : BufferFlush) (data carried : Bytes) : Prop where
  positive : 0 < f.capacity
  allocation : f.data = some data
  length : f.written = carried.length
  bytes : slice data 0 carried.length = carried
  inside : carried.length ≤ data.length
  cleared : f.capacity ≤ data.length

variable {f : BufferFlush} {data carried : Bytes}

theorem Filled.getLength (h : f.Filled data carried) : f.getLength = carried.length := by
  rw [BufferFlush.getLength, h.allocation, if_pos (by rfl), h.length]

theorem Filled.payload (h : f.Filled data carried) : f.payload = carried := by
  rw [BufferFlush.payload, h.getLength, h.allocation, Option.getD_some, h.bytes]

theorem allocated_of_some (there : f.data = some data) (len : Nat) : f.allocated len = some f := by
  rw [BufferFlush.allocated, there]

/-- The first write makes the allocation, where there is a byte to allocate. -/
theorem filled_allocated (fresh : f.data = none) (len : Nat) (pos : 0 < max f.capacity len) :
    ∃ g, f.allocated len = some g ∧ g.Filled (List.replicate (max f.capacity len) 0) [] ∧
      g.capacity = max f.capacity len := by
  rw [BufferFlush.allocated, fresh]
  dsimp only
  rw [newArray_pos pos]
  exact ⟨_, rfl,
    ⟨pos, rfl, rfl, slice_zero _ 0, Nat.zero_le _, by rw [List.length_replicate]⟩, rfl⟩

/-- Where there is none, it throws. -/
theorem allocated_zero (fresh : f.data = none) (len : Nat) (zero : max f.capacity len = 0) :
    f.allocated len = none := by
  rw [BufferFlush.allocated, fresh]
  dsimp only
  rw [newArray, if_pos zero]
  rfl

/-- An allocation that was made is empty. -/
theorem filled_of_allocated (fresh : f.data = none) {g : BufferFlush} {len : Nat}
    (made : f.allocated len = some g) : ∃ data, g.Filled data [] := by
  have pos : 0 < max f.capacity len := by
    refine Nat.pos_of_ne_zero fun zero => ?_
    rw [allocated_zero fresh len zero] at made
    cases made
  obtain ⟨g', made', filled, -⟩ := filled_allocated fresh len pos
  cases made.symm.trans made'
  exact ⟨_, filled⟩

/-- A write into an allocation goes on from it. -/
theorem write_allocated (abi : Abi) {g : BufferFlush} {bs : Bytes}
    (made : f.allocated bs.length = some g) : write abi g bs = write abi f bs := by
  have again : g.allocated bs.length = some g := by
    cases there : f.data with
    | none =>
      obtain ⟨data, filled⟩ := filled_of_allocated there made
      exact allocated_of_some filled.allocation _
    | some data =>
      rw [allocated_of_some there] at made
      cases made
      exact allocated_of_some there _
  rw [write, again, write, made]

/-- A fresh flush that was written to has its allocation, and the length of what was written. -/
theorem getLength_of_write (fresh : f.data = none) {f' : BufferFlush} {bs : Bytes}
    (h : write abi f bs = some f') : f'.data ≠ none ∧ f'.getLength = bs.length := by
  obtain ⟨g, made, h⟩ := Option.bind_eq_some_iff.mp h
  obtain ⟨_, filled⟩ := filled_of_allocated fresh made
  obtain ⟨data, -, h⟩ := Option.bind_eq_some_iff.mp h
  split at h
  · obtain ⟨stored, -, h⟩ := Option.bind_eq_some_iff.mp h
    cases h
    exact ⟨nofun, (congrArg (· + bs.length) filled.length).trans (Nat.zero_add _)⟩
  · obtain ⟨array, -, h⟩ := Option.bind_eq_some_iff.mp h
    obtain ⟨old, -, h⟩ := Option.bind_eq_some_iff.mp h
    obtain ⟨tmp, -, h⟩ := Option.bind_eq_some_iff.mp h
    obtain ⟨tmp', -, h⟩ := Option.bind_eq_some_iff.mp h
    cases h
    exact ⟨nofun, (congrArg (· + bs.length) filled.getLength).trans (Nat.zero_add _)⟩

/-- **A write that finds no more than `capacity` bytes** adds to them. -/
theorem Filled.write (h : f.Filled data carried) (room : carried.length ≤ f.capacity)
    (sized : f.capacity < abi.modulus) (bs : Bytes) :
    ∃ f' data', BufferFlush.write abi f bs = some f' ∧ f'.Filled data' (carried ++ bs) ∧
      f'.capacity = f.capacity := by
  have empty : f.emptySize abi = f.capacity - carried.length := by
    rw [emptySize, h.getLength, Abi.sub_of_le sized room]
  have positive := h.positive
  have inside := h.inside
  have cleared := h.cleared
  simp only [BufferFlush.write, allocated_of_some h.allocation, h.allocation, empty, h.getLength, h.length,
    Option.bind_eq_bind, Option.bind_some]
  by_cases fits : bs.length < f.capacity - carried.length
  · obtain ⟨data', stored⟩ := store_ok data carried.length bs (by omega)
    have before := slice_store_other stored (o := 0) (n := carried.length) (.inl (by omega))
    have same := slice_store_same stored
    have len := length_store stored
    rw [if_pos fits, stored, Option.bind_some]
    refine ⟨_, data', rfl, ⟨positive, rfl, by rw [List.length_append], ?_, ?_, ?_⟩, rfl⟩
    · rw [List.length_append, slice_add, before, h.bytes, Nat.zero_add, same]
    · rw [List.length_append]
      omega
    · dsimp only
      omega
  · have read : load data 0 carried.length = some carried := by
      rw [load_eq (by omega), h.bytes]
    obtain ⟨tmp, first⟩ := store_ok (List.replicate (carried.length + bs.length) 0) 0 carried
      (by rw [List.length_replicate]; omega)
    have len := length_store first
    rw [List.length_replicate] at len
    obtain ⟨data', second⟩ := store_ok tmp carried.length bs (by omega)
    have before := slice_store_other second (o := 0) (n := carried.length) (.inl (by omega))
    have len' := length_store second
    rw [if_neg fits, newArray_pos (by omega), Option.bind_some, read, Option.bind_some, first,
      Option.bind_some, second, Option.bind_some]
    refine ⟨_, data', rfl, ⟨positive, rfl, by rw [List.length_append], ?_, ?_, ?_⟩, rfl⟩
    · rw [List.length_append, slice_add, before, slice_store_same first, Nat.zero_add,
        slice_store_same second]
    · rw [List.length_append]
      omega
    · dsimp only
      omega

/-- A fresh flush carries what is written to it first. -/
theorem write_fresh (abi : Abi) (file : Option FILE) (path : Option Bytes) (bs : Bytes)
    (h : bs.length < abi.modulus) :
    ∃ f, write abi { logFilePtr := file, path } bs = some f ∧ f.payload = bs ∧
      f.getLength = bs.length ∧ f.logFilePtr = file ∧ f.path = path ∧ f.release = false := by
  have big := abi.two_pow_32_le_modulus
  obtain ⟨g, made, empty, capacity⟩ := filled_allocated (f := { logFilePtr := file, path }) rfl
    bs.length (by change 0 < max 128 bs.length; omega)
  have sized : g.capacity < abi.modulus := by
    rw [capacity]
    change max 128 bs.length < abi.modulus
    omega
  obtain ⟨f, data, written, filled, -⟩ := empty.write (Nat.zero_le _) sized bs
  rw [write_allocated abi made] at written
  rw [List.nil_append] at filled
  exact ⟨f, written, filled.payload, filled.getLength, write_keeps written⟩

/-- `Reset` leaves nothing to carry. -/
theorem Filled.reset (h : f.Filled data carried) :
    ∃ f' data', f.reset = some f' ∧ f'.Filled data' [] ∧ f'.capacity = f.capacity := by
  obtain ⟨data', filled⟩ := store_ok data 0 (List.replicate f.capacity 0)
    (by rw [List.length_replicate, Nat.zero_add]; exact h.cleared)
  rw [BufferFlush.reset, h.allocation]
  dsimp only
  rw [fill, filled]
  refine ⟨_, data', rfl, ⟨h.positive, rfl, rfl, slice_zero _ 0, Nat.zero_le _, ?_⟩, rfl⟩
  rw [length_store filled]
  exact h.cleared

end Dolin.Zap.BufferFlush

namespace Dolin.Zap

open Region BufferFlush

/-- The bytes that were written since the last `Reset`. -/
def FlushCall.carry (carried : Bytes) : FlushCall → Bytes
  | write data => carried ++ data
  | reset => []

/-- The subtraction of `EmptySize` in this call does not go below zero. -/
def FlushCall.Subtracts (f : BufferFlush) : FlushCall → Prop
  | write data => ∀ g, f.allocated data.length = some g → g.getLength ≤ g.capacity
  | reset => True

/-- From here on: at every point `GetLength` and `GetPtr` tell what was written since the last
`Reset`, no subtraction goes below zero, and every call completes, with its copies inside the
allocation. -/
def Accumulates (abi : Abi) : BufferFlush → Bytes → List FlushCall → Prop
  | f, carried, [] => f.getLength = carried.length ∧ f.payload = carried
  | f, carried, call :: calls => (f.getLength = carried.length ∧ f.payload = carried) ∧
      call.Subtracts f ∧
      ∃ f', call.perform abi f = some f' ∧ Accumulates abi f' (call.carry carried) calls

/-- Every `Write` finds at most `room` bytes that were written since the last `Reset`. -/
def InRoom (room : Nat) : Nat → List FlushCall → Prop
  | _, [] => True
  | n, .write data :: calls => n ≤ room ∧ InRoom room (n + data.length) calls
  | _, .reset :: calls => InRoom room 0 calls

/-- The initial size, or the length of the first `Write` where that is more. -/
def firstCapacity (size : Nat) : List FlushCall → Nat
  | [] => size
  | .write data :: _ => max size data.length
  | .reset :: calls => firstCapacity size calls

/-- With an allocation. -/
theorem accumulates_iff_of_filled {abi : Abi} {f : BufferFlush} {data carried : Bytes}
    (h : f.Filled data carried) (sized : f.capacity < abi.modulus) (calls : List FlushCall) :
    Accumulates abi f carried calls ↔ InRoom f.capacity carried.length calls := by
  induction calls generalizing f data carried with
  | nil => exact iff_of_true ⟨h.getLength, h.payload⟩ trivial
  | cons call calls ih =>
    rw [Accumulates, and_iff_right ⟨h.getLength, h.payload⟩]
    cases call with
    | write bs =>
      have subtracts : FlushCall.Subtracts f (.write bs) ↔ carried.length ≤ f.capacity := by
        simp only [FlushCall.Subtracts, allocated_of_some h.allocation, Option.some.injEq,
          forall_eq', h.getLength]
      rw [InRoom, subtracts]
      refine and_congr_right fun room => ?_
      obtain ⟨f', data', eq, filled, same⟩ := h.write room sized bs
      have rest := ih filled (same ▸ sized)
      rw [same, List.length_append] at rest
      rw [← rest, FlushCall.perform, eq]
      simp only [Option.some.injEq, exists_eq_left', FlushCall.carry]
    | reset =>
      obtain ⟨f', data', eq, filled, same⟩ := h.reset
      have rest := ih filled (same ▸ sized)
      rw [same] at rest
      rw [InRoom, FlushCall.Subtracts, true_and, ← List.length_nil, ← rest, FlushCall.perform, eq]
      simp only [Option.some.injEq, exists_eq_left', FlushCall.carry]

/-- The first write may as well find its allocation. -/
theorem accumulates_write_iff (abi : Abi) {f g : BufferFlush} (fresh : f.data = none) {bs : Bytes}
    (made : f.allocated bs.length = some g) (empty : ∃ data, g.Filled data [])
    (calls : List FlushCall) :
    Accumulates abi f [] (.write bs :: calls) ↔ Accumulates abi g [] (.write bs :: calls) := by
  obtain ⟨data, filled⟩ := empty
  have start : f.getLength = 0 ∧ f.payload = [] := by
    rw [payload, getLength, fresh]
    exact ⟨rfl, slice_zero _ 0⟩
  have start' : g.getLength = 0 ∧ g.payload = [] := ⟨filled.getLength, filled.payload⟩
  rw [Accumulates, Accumulates, List.length_nil, and_iff_right start, and_iff_right start',
    FlushCall.Subtracts, FlushCall.Subtracts, made, allocated_of_some filled.allocation,
    FlushCall.perform, FlushCall.perform, write_allocated abi made]

/-- **A flush accumulates its writes** where every `Write` finds at most as many bytes since the last
`Reset` as the initial size, or the first `Write` where that was longer, and the larger of the two
is not zero. For every initial size, every list of calls and any lengths that a `size_t` holds. -/
theorem writes_accumulate_iff (abi : Abi) (logFile : Option FILE) (path : Option Bytes) {size : Nat}
    (sized : size < abi.modulus) {calls : List FlushCall}
    (sizes : ∀ data, .write data ∈ calls → data.length < abi.modulus) :
    Accumulates abi (new logFile path size) [] calls ↔
      InRoom (firstCapacity size calls) 0 calls ∧
        ((∃ data, .write data ∈ calls) → 0 < firstCapacity size calls) := by
  have start : (new logFile path size).getLength = 0 ∧ (new logFile path size).payload = [] :=
    ⟨rfl, slice_zero _ 0⟩
  induction calls with
  | nil =>
    refine iff_of_true start ⟨trivial, ?_⟩
    rintro ⟨_, mem⟩
    cases mem
  | cons call calls ih =>
    cases call with
    | write bs =>
      have written : ∃ data, FlushCall.write data ∈ FlushCall.write bs :: calls :=
        ⟨bs, List.mem_cons_self⟩
      rw [forall_prop_of_true written]
      by_cases pos : 0 < max size bs.length
      · have first := sizes bs List.mem_cons_self
        obtain ⟨g, made, filled, capacity⟩ :=
          filled_allocated (f := new logFile path size) rfl bs.length pos
        have small : g.capacity < abi.modulus := by
          rw [capacity]
          exact Nat.max_lt.mpr ⟨sized, first⟩
        rw [accumulates_write_iff abi rfl made ⟨_, filled⟩, accumulates_iff_of_filled filled small,
          capacity]
        exact (and_iff_left pos).symm
      · -- the first write throws
        have throws := allocated_zero (f := new logFile path size) rfl bs.length
          (Nat.eq_zero_of_not_pos pos)
        refine iff_of_false ?_ fun both => pos both.2
        rintro ⟨-, -, f', eq, -⟩
        rw [FlushCall.perform, write, throws] at eq
        cases eq
    | reset =>
      have rest := ih fun data mem => sizes data (List.mem_cons_of_mem _ mem)
      have same : (∃ data, FlushCall.write data ∈ FlushCall.reset :: calls) ↔
          ∃ data, FlushCall.write data ∈ calls := by
        simp only [List.mem_cons, reduceCtorEq, false_or]
      rw [same]
      refine Iff.trans ?_ rest
      rw [Accumulates, List.length_nil, and_iff_right start, FlushCall.Subtracts, true_and,
        FlushCall.perform]
      constructor
      · rintro ⟨f, eq, after⟩
        cases eq
        exact after
      · intro after
        exact ⟨_, rfl, after⟩

/-- As for two writes in a row, a `Reset` and one more, on a flush of the default size. -/
theorem writes_accumulate_iff_128 :
    Accumulates .lp64 (new none none 128) [] [.write [1], .write [2, 3], .reset, .write [4]] := by
  refine (writes_accumulate_iff .lp64 none none (by decide) ?_).mpr ⟨?_, ?_⟩
  · simp [Abi.modulus, Abi.sizeofSizeT]
  · simp [InRoom, firstCapacity]
  · simp [firstCapacity]

/-- The second write goes beyond the capacity, and the third one subtracts three from two. -/
theorem third_write_underflows :
    ¬ Accumulates .lp64 (new none none 1) [] [.write [1, 2], .write [3], .write [4]] := by
  rintro ⟨-, -, f, eq, -, -, f', eq', -, subtracts, -⟩
  have first : some f = some ({ new none none 1 with
      capacity := 2, data := some [1, 2], written := 2 } : BufferFlush) := by
    rw [← eq]
    decide
  cases first
  have second : some f' = some ({ new none none 1 with
      capacity := 2, data := some [1, 2, 3], written := 3 } : BufferFlush) := by
    rw [← eq']
    decide
  cases second
  have impossible : 3 ≤ 2 := subtracts _ rfl
  omega

end Dolin.Zap
