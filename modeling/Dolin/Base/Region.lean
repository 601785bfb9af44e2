import Mathlib.Data.List.Basic
import Mathlib.Data.List.TakeDrop
import Mathlib.Tactic.Ring

/-!
# Byte regions

A region of memory is the list of its bytes, addressed by offset from its first byte. Every
access is checked: a load or a store that leaves the region answers `none`, so a program that
stays in bounds does so by theorem. `slice` is the unchecked reading the laws are stated with.

The laws are the two halves of a memory: what a store puts in place (`slice_store_same`) and what
it leaves alone (`slice_store_other`). Machine words are little-endian, of any width in bytes.
-/

namespace Region

abbrev Bytes := List UInt8

/-- The `len` bytes from `off`, cut short where the region ends. -/
def slice (m : Bytes) (off len : Nat) : Bytes := (m.drop off).take len

/-- A checked read of `len` bytes at `off`. -/
def load (m : Bytes) (off len : Nat) : Option Bytes :=
  if off + len ≤ m.length then some (slice m off len) else none

/-- A checked write of `bs` at `off` (`memcpy`). -/
def store (m : Bytes) (off : Nat) (bs : Bytes) : Option Bytes :=
  if off + bs.length ≤ m.length then some (m.take off ++ bs ++ m.drop (off + bs.length)) else none

/-- A checked write of `len` copies of `b` at `off` (`memset`). -/
def fill (m : Bytes) (off len : Nat) (b : UInt8) : Option Bytes :=
  store m off (List.replicate len b)

/-- The region cut or zero-extended to `n` bytes (`ftruncate`). -/
def resize (m : Bytes) (n : Nat) : Bytes := m.take n ++ List.replicate (n - m.length) 0

/-- `new char[n]{0}`. An array of no elements has no room for the initialiser: the expression throws
`std::bad_array_new_length`. -/
def newArray (n : Nat) : Option Bytes := if n = 0 then none else some (List.replicate n 0)

theorem newArray_pos {n : Nat} (pos : 0 < n) : newArray n = some (List.replicate n 0) :=
  if_neg (Nat.ne_of_gt pos)

theorem length_resize (m : Bytes) (n : Nat) : (resize m n).length = n := by
  simp only [resize, List.length_append, List.length_take, List.length_replicate]
  omega

/-! ## Slices -/

theorem length_slice {m : Bytes} {off len : Nat} (h : off + len ≤ m.length) :
    (slice m off len).length = len := by
  simp only [slice, List.length_take, List.length_drop]
  omega

theorem slice_zero (m : Bytes) (off : Nat) : slice m off 0 = [] := List.take_zero

/-- A slice splits at any point inside it. -/
theorem slice_add (m : Bytes) (off a b : Nat) :
    slice m off (a + b) = slice m off a ++ slice m (off + a) b := by
  simp only [slice, List.take_add, List.drop_drop]

/-- The rest of a region is a slice of it. -/
theorem drop_eq_slice (m : Bytes) (off : Nat) : m.drop off = slice m off (m.length - off) := by
  rw [slice, List.take_of_length_le (by rw [List.length_drop])]

/-- A range of zeros reads as zeros. -/
theorem slice_zeros {n off len : Nat} (inside : off + len ≤ n) :
    slice (List.replicate n 0) off len = List.replicate len 0 := by
  rw [slice, List.drop_replicate, List.take_replicate, Nat.min_eq_left (by omega)]

theorem load_eq {m : Bytes} {off len : Nat} (h : off + len ≤ m.length) :
    load m off len = some (slice m off len) := if_pos h

theorem length_load {m bs : Bytes} {off len : Nat} (h : load m off len = some bs) :
    bs.length = len := by
  unfold load at h
  split at h
  next inside =>
    cases h
    exact length_slice inside
  next => cases h

/-! ## Stores -/

/-- A store inside the region succeeds. -/
theorem store_ok (m : Bytes) (off : Nat) (bs : Bytes) (h : off + bs.length ≤ m.length) :
    ∃ m', store m off bs = some m' := ⟨_, if_pos h⟩

/-- A store that succeeded stayed inside the region. -/
theorem store_bound {m m' : Bytes} {off : Nat} {bs : Bytes} (h : store m off bs = some m') :
    off + bs.length ≤ m.length := by
  unfold store at h
  split at h
  · assumption
  · cases h

theorem store_eq {m m' : Bytes} {off : Nat} {bs : Bytes} (h : store m off bs = some m') :
    m' = m.take off ++ bs ++ m.drop (off + bs.length) := by
  unfold store at h
  split at h
  · cases h; rfl
  · cases h

theorem length_store {m m' : Bytes} {off : Nat} {bs : Bytes} (h : store m off bs = some m') :
    m'.length = m.length := by
  have bound := store_bound h
  rw [store_eq h]
  simp only [List.length_append, List.length_take, List.length_drop]
  omega

/-- What was stored is what is read back. -/
theorem slice_store_same {m m' : Bytes} {off : Nat} {bs : Bytes} (h : store m off bs = some m') :
    slice m' off bs.length = bs := by
  have bound := store_bound h
  have pre : (m.take off).length = off := by
    rw [List.length_take]; omega
  rw [store_eq h, slice, List.append_assoc, List.drop_append_of_le_length (by omega),
    List.drop_of_length_le (by omega), List.nil_append, List.take_left]

/-- A store leaves every range it does not meet. -/
theorem slice_store_other {m m' : Bytes} {off : Nat} {bs : Bytes} (h : store m off bs = some m')
    {o n : Nat} (apart : o + n ≤ off ∨ off + bs.length ≤ o) : slice m' o n = slice m o n := by
  have bound := store_bound h
  have pre : (m.take off).length = off := by
    rw [List.length_take]; omega
  rw [store_eq h]
  unfold slice
  rcases apart with before | after
  · rw [List.append_assoc, List.drop_append_of_le_length (by omega),
      List.take_append_of_le_length (by rw [List.length_drop]; omega), List.drop_take, List.take_take,
      Nat.min_eq_left (by omega)]
  · rw [List.drop_append, List.drop_of_length_le (by rw [List.length_append]; omega),
      List.nil_append, List.length_append, List.drop_drop, pre,
      show off + bs.length + (o - (off + bs.length)) = o by omega]

/-- A store of what is there already changes nothing. -/
theorem store_there {m m' : Bytes} {off : Nat} {bs : Bytes} (h : store m off bs = some m')
    (there : slice m off bs.length = bs) : m' = m := by
  have rest : m.drop (off + bs.length) = (m.drop off).drop bs.length := by rw [List.drop_drop]
  unfold slice at there
  rw [store_eq h, rest, List.append_assoc]
  nth_rewrite 1 [← there]
  rw [List.take_append_drop, List.take_append_drop]

/-- A region filled from end to end. -/
theorem fill_all {m m' : Bytes} {b : UInt8} (h : fill m 0 m.length b = some m') :
    m' = List.replicate m.length b := by
  rw [store_eq h, List.take_zero, List.nil_append, List.length_replicate, Nat.zero_add,
    List.drop_length, List.append_nil]

/-! ## Words -/

/-- The little-endian bytes of the low `8 * w` bits of `n`. -/
def encodeLE : Nat → Nat → Bytes
  | 0, _ => []
  | w + 1, n => UInt8.ofNat n :: encodeLE w (n / 256)

/-- The number little-endian bytes stand for. -/
def decodeLE : Bytes → Nat
  | [] => 0
  | b :: bs => b.toNat + 256 * decodeLE bs

/-- A checked read of a `w`-byte word. -/
def loadWord (w : Nat) (m : Bytes) (off : Nat) : Option Nat := (load m off w).map decodeLE

/-- A checked write of a `w`-byte word. -/
def storeWord (w : Nat) (m : Bytes) (off n : Nat) : Option Bytes := store m off (encodeLE w n)

@[simp] theorem length_encodeLE (w n : Nat) : (encodeLE w n).length = w := by
  induction w generalizing n with
  | zero => rfl
  | succ w ih => simp only [encodeLE, List.length_cons, ih]

/-- A word that fits its width reads back. -/
theorem decodeLE_encodeLE {w n : Nat} (h : n < 256 ^ w) : decodeLE (encodeLE w n) = n := by
  induction w generalizing n with
  | zero =>
    rw [Nat.pow_zero] at h
    simp only [encodeLE, decodeLE]
    omega
  | succ w ih =>
    have small : n / 256 < 256 ^ w := by
      rw [Nat.pow_succ] at h
      exact Nat.div_lt_of_lt_mul (by omega)
    simp only [encodeLE, decodeLE, ih small, UInt8.toNat_ofNat']
    omega

/-- Bytes are those of their number. -/
theorem encodeLE_decodeLE (bs : Bytes) : encodeLE bs.length (decodeLE bs) = bs := by
  induction bs with
  | nil => rfl
  | cons b bs ih =>
    have low : (b.toNat + 256 * decodeLE bs) / 256 = decodeLE bs := by
      have := b.toNat_lt
      omega
    have first : UInt8.ofNat (b.toNat + 256 * decodeLE bs) = b := by
      rw [← UInt8.toNat_inj, UInt8.toNat_ofNat']
      have := b.toNat_lt
      omega
    rw [List.length_cons, decodeLE, encodeLE, low, ih, first]

theorem decodeLE_zeros (w : Nat) : decodeLE (List.replicate w 0) = 0 := by
  induction w with
  | zero => rfl
  | succ w ih => simp only [List.replicate_succ, decodeLE, ih, UInt8.toNat_zero, Nat.mul_zero]

theorem loadWord_eq {w : Nat} {m : Bytes} {off : Nat} (h : off + w ≤ m.length) :
    loadWord w m off = some (decodeLE (slice m off w)) := by
  rw [loadWord, load_eq h, Option.map_some]

/-- The word just stored is the word read. -/
theorem word_store_same {w : Nat} {m m' : Bytes} {off n : Nat} (h : storeWord w m off n = some m')
    (fits : n < 256 ^ w) : decodeLE (slice m' off w) = n := by
  have same := slice_store_same h
  rw [length_encodeLE] at same
  rw [same, decodeLE_encodeLE fits]

end Region
