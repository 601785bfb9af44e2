import Dolin.Base.Region

/-!
# C strings in a region

A C string is what stands in front of the first zero byte. `overlay` is a write that nothing checks:
the bytes that lie inside the region land, the others are lost. A program that uses it keeps a ledger
of its accesses (`Access`), and staying inside is a law about the ledger.
-/

namespace Region

/-- The C string at the start of a region. -/
def cstring (m : Bytes) : Bytes := m.takeWhile (· ≠ 0)

/-- `strlen`. Where the region has no zero byte it is the region's length, and the real one reads
on. -/
def strlen (m : Bytes) : Nat := (cstring m).length

/-- An unchecked write of `bs` at `off`: what lies outside the region is lost. -/
def overlay (m : Bytes) (off : Nat) (bs : Bytes) : Bytes :=
  (m.take off ++ bs ++ m.drop (off + bs.length)).take m.length

/-- An access to memory: the size of the object, and the offset at which the access ends. -/
structure Access where
  size : Nat
  stop : Nat
  deriving DecidableEq

/-- The access stays inside its object. -/
def Access.Inside (a : Access) : Prop := a.stop ≤ a.size

instance (a : Access) : Decidable a.Inside := inferInstanceAs (Decidable (_ ≤ _))

/-- The region holds a zero byte. -/
def Terminated (m : Bytes) : Prop := 0 ∈ m

instance (m : Bytes) : Decidable (Terminated m) := inferInstanceAs (Decidable (0 ∈ m))

theorem nul_not_mem_cstring (m : Bytes) : 0 ∉ cstring m := by
  intro mem
  have := List.all_eq_true.mp List.all_takeWhile 0 mem
  simp at this

theorem cstring_prefix_self (m : Bytes) : cstring m <+: m := List.takeWhile_prefix _

theorem strlen_le (m : Bytes) : strlen m ≤ m.length := (cstring_prefix_self m).length_le

/-- The string of a text with no zero byte and whatever follows a zero byte is the text. -/
theorem cstring_append_nul {text : Bytes} (free : 0 ∉ text) (rest : Bytes) :
    cstring (text ++ 0 :: rest) = text := by
  have all : ∀ b ∈ text, decide (b ≠ 0) = true := by
    intro b mem
    have ne : b ≠ 0 := fun eq => free (eq ▸ mem)
    simp only [ne, ne_eq, not_false_eq_true, decide_true]
  rw [cstring, List.takeWhile_append_of_pos all, List.takeWhile_cons_of_neg (by simp), List.append_nil]

/-- A text with no zero byte is read on. -/
theorem cstring_append {text : Bytes} (free : 0 ∉ text) (rest : Bytes) :
    cstring (text ++ rest) = text ++ cstring rest := by
  have all : ∀ b ∈ text, decide (b ≠ 0) = true := by
    intro b mem
    have ne : b ≠ 0 := fun eq => free (eq ▸ mem)
    simp only [ne, ne_eq, not_false_eq_true, decide_true]
  exact List.takeWhile_append_of_pos all

/-- A region with a zero byte is its string, a zero byte and the rest. -/
theorem terminated_iff (m : Bytes) : Terminated m ↔ ∃ rest, m = cstring m ++ 0 :: rest := by
  constructor
  · intro mem
    obtain ⟨text, rest, eq, free⟩ := List.eq_append_cons_of_mem mem
    refine ⟨rest, ?_⟩
    rw [eq, cstring_append_nul free]
  · rintro ⟨rest, eq⟩
    rw [Terminated, eq]
    exact List.mem_append_right _ List.mem_cons_self

/-- What follows a zero byte is not read. -/
theorem cstring_append_of_terminated {m : Bytes} (h : Terminated m) (rest : Bytes) :
    cstring (m ++ rest) = cstring m := by
  obtain ⟨tail, eq⟩ := (terminated_iff m).mp h
  conv_lhs => rw [eq, List.append_assoc, List.cons_append]
  exact cstring_append_nul (nul_not_mem_cstring m) _

/-- A text is a C string, or holds one. -/
theorem cstring_of_nul_free {text : Bytes} (free : 0 ∉ text) : cstring text = text := by
  have := cstring_append free []
  rwa [List.append_nil, show cstring [] = [] from rfl, List.append_nil] at this

/-- The zero byte that ends a buffer adds nothing to its string. -/
theorem cstring_append_zero (m : Bytes) : cstring (m ++ [0]) = cstring m := by
  by_cases mem : 0 ∈ m
  · exact cstring_append_of_terminated mem _
  · rw [cstring_append_nul mem, cstring_of_nul_free mem]

theorem strlen_lt {m : Bytes} (h : Terminated m) : strlen m < m.length := by
  obtain ⟨rest, eq⟩ := (terminated_iff m).mp h
  have := congrArg List.length eq
  rw [List.length_append, List.length_cons] at this
  rw [strlen]
  omega

theorem length_cstring (m : Bytes) : (cstring m).length = strlen m := rfl

theorem take_strlen (m : Bytes) : m.take (strlen m) = cstring m :=
  (List.prefix_iff_eq_take.mp (cstring_prefix_self m)).symm

@[simp] theorem length_overlay (m : Bytes) (off : Nat) (bs : Bytes) :
    (overlay m off bs).length = m.length := by
  simp only [overlay, List.length_take, List.length_append, List.length_drop]
  omega

/-- An overlay behind a first part of the region. -/
theorem overlay_append (first rest bs : Bytes) :
    overlay (first ++ rest) first.length bs = first ++ overlay rest 0 bs := by
  simp only [overlay, List.take_left, List.take_zero, List.nil_append, Nat.zero_add,
    List.drop_append, List.length_append, List.append_assoc]
  rw [List.drop_of_length_le (by omega), List.nil_append, Nat.add_sub_cancel_left, List.take_append,
    List.take_of_length_le (by omega), Nat.add_sub_cancel_left]

/-- An overlay on zero bytes is the text cut or extended to the region. -/
theorem overlay_zeros (n : Nat) (bs : Bytes) :
    overlay (List.replicate n 0) 0 bs = resize bs n := by
  rw [overlay, resize, List.take_zero, List.nil_append, Nat.zero_add, List.drop_replicate,
    List.length_replicate, List.take_append, List.take_replicate, Nat.min_self]

/-- An overlay that fits, from the start of the region. -/
theorem overlay_zero {m bs : Bytes} (fits : bs.length ≤ m.length) :
    overlay m 0 bs = bs ++ m.drop bs.length := by
  simp only [overlay, List.take_zero, List.nil_append, Nat.zero_add]
  rw [List.take_of_length_le]
  rw [List.length_append, List.length_drop]
  omega

/-- An overlay from the start of the region begins with what lies inside. -/
theorem overlay_starts {m first : Bytes} (fits : first.length ≤ m.length) (rest : Bytes) :
    ∃ behind, overlay m 0 (first ++ rest) = first ++ behind := by
  refine ⟨(rest ++ m.drop (first ++ rest).length).take (m.length - first.length), ?_⟩
  rw [overlay, List.take_zero, List.nil_append, Nat.zero_add, List.append_assoc, List.take_append,
    List.take_of_length_le fits]

/-- A C string with its zero byte, extended with zero bytes. -/
theorem resize_cstring {m : Bytes} {n : Nat} (room : strlen m < n) :
    resize (cstring m ++ [0]) n = cstring m ++ 0 :: List.replicate (n - (strlen m + 1)) 0 := by
  have length : (cstring m ++ [0]).length = strlen m + 1 := by
    rw [List.length_append, List.length_singleton, length_cstring]
  rw [resize, List.take_of_length_le (by omega), length, List.append_assoc, List.singleton_append]

end Region
