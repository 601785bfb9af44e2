import Dolin.Unwindstack.DwarfMemory

/-!
# Reading DWARF data

What stands in memory is read back. `Reads` says it for one reader: wherever the bytes stand under the
cursor, the reader gives the value and leaves the cursor behind them. Readers in sequence read the bytes
of each in turn.

A LEB128 number is read back from every encoding of at most ten bytes, padded or not, with one exception:
a negative number of ten bytes shifts `-1` by 70. From the eleventh byte on every number does such a
shift.
-/

namespace Dolin.Unwindstack

open Region Leb128

namespace Read

variable {α β : Type} {d d' : DwarfMemory}

theorem andThen_ok {r : Read α} {a : α} (f : α → Read β) (h : r d = (.ok a, d')) :
    r.andThen f d = f a d' := by
  rw [andThen, h]

theorem andThen_error {r : Read α} {fault : Fault} (f : α → Read β) (h : r d = (.error fault, d')) :
    r.andThen f d = (.error fault, d') := by
  rw [andThen, h]

/-- The two ways a sequence of reads can end. -/
theorem andThen_cases {r : Read α} {f : α → Read β} {b : β} (h : r.andThen f d = (.ok b, d')) :
    ∃ a e, r d = (.ok a, e) ∧ f a e = (.ok b, d') := by
  unfold andThen at h
  split at h
  · next a e read => exact ⟨a, e, read, h⟩
  · cases h

theorem map_cases {r : Read α} {f : α → β} {b : β} (h : r.map f d = (.ok b, d')) :
    ∃ a, r d = (.ok a, d') ∧ b = f a := by
  obtain ⟨a, e, read, rest⟩ := andThen_cases h
  cases rest
  exact ⟨a, read, rfl⟩

end Read

namespace DwarfMemory

variable {α β : Type} {d : DwarfMemory}

@[simp] theorem skip_curOffset (d : DwarfMemory) (n : Nat) :
    (d.skip n).curOffset = d.curOffset + BitVec.ofNat 64 n := rfl

@[simp] theorem skip_memory (d : DwarfMemory) (n : Nat) : (d.skip n).memory = d.memory := rfl

theorem skip_skip (d : DwarfMemory) (m n : Nat) : (d.skip m).skip n = d.skip (m + n) := by
  rw [skip, skip, skip, BitVec.ofNat_add, BitVec.add_assoc]

theorem skip_zero (d : DwarfMemory) : d.skip 0 = d := by
  rw [skip]
  simp only [BitVec.add_zero]

/-- The reader gives `a` where `bs` stand under the cursor, and goes behind them. -/
def Reads (r : Read α) (bs : Bytes) (a : α) : Prop :=
  ∀ d : DwarfMemory, d.memory.Holds d.curOffset bs → r d = (.ok a, d.skip bs.length)

theorem reads_pure (a : α) : Reads (Read.pure a) [] a := fun d _ => by
  rw [Read.pure, List.length_nil, skip_zero]

/-- **Readers in sequence** read the bytes of each in turn. -/
theorem Reads.andThen {r : Read α} {f : α → Read β} {as bs : Bytes} {a : α} {b : β}
    (first : Reads r as a) (next : Reads (f a) bs b) : Reads (r.andThen f) (as ++ bs) b := by
  intro d holds
  rw [Read.andThen_ok f (first d holds.left), next (d.skip as.length) holds.right, skip_skip,
    List.length_append]

theorem Reads.map {r : Read α} {bs : Bytes} {a : α} (h : Reads r bs a) (f : α → β) :
    Reads (r.map f) bs (f a) := by
  intro d holds
  exact Read.andThen_ok _ (h d holds)

theorem reads_readBytes (bs : Bytes) : Reads (readBytes bs.length) bs bs := by
  intro d holds
  rw [readBytes, holds.readFully]

theorem reads_readByte (b : UInt8) : Reads readByte [b] b := (reads_readBytes [b]).map _

/-- What a read of bytes leaves. -/
theorem readBytes_cases {n : Nat} {bs : Bytes} {d' : DwarfMemory} (h : readBytes n d = (.ok bs, d')) :
    d' = d.skip n ∧ bs.length = n := by
  unfold readBytes at h
  split at h
  · cases h
  · next read =>
    cases h
    exact ⟨rfl, d.memory.length_of_readFully read⟩

/-- A byte that cannot be read fails, and nothing else. -/
theorem readByte_fault {fault : Fault} {d' : DwarfMemory} (h : readByte d = (.error fault, d')) :
    fault = .failed := by
  unfold readByte Read.map Read.andThen readBytes at h
  cases read : d.memory.readFully d.curOffset 1 with
  | none =>
    rw [read] at h
    cases h
    rfl
  | some bs =>
    rw [read] at h
    cases h

/-! ## LEB128 -/

private theorem and_80 : ∀ n : Fin 256, (UInt8.ofNat n.val &&& 0x80 ≠ 0) ↔ 128 ≤ n.val := by
  decide +kernel

private theorem and_40 : ∀ n : Fin 128, (UInt8.ofNat n.val &&& 0x40 ≠ 0) ↔ 64 ≤ n.val := by
  decide +kernel

private theorem and_7f : ∀ n : Fin 256, (UInt8.ofNat n.val &&& 0x7f).toNat = n.val % 128 := by
  decide +kernel

/-- A group more in the value. -/
theorem add_shift (v g shift : Nat) :
    BitVec.ofNat 64 v + BitVec.ofNat 64 g <<< shift = BitVec.ofNat 64 (v + g * 2 ^ shift) := by
  apply BitVec.eq_of_toNat_eq
  simp only [BitVec.toNat_add, BitVec.toNat_ofNat, BitVec.toNat_shiftLeft, Nat.shiftLeft_eq]
  rw [Nat.mod_mul_mod, ← Nat.add_mod]

/-- The loop over the bytes of `gs`, which fit the shifts that are left. -/
theorem reads_readLEB128 {gs : List Nat} (ok : Groups gs) {left : Nat} (fits : gs.length ≤ left)
    (v shift : Nat) :
    Reads (readLEB128 left (BitVec.ofNat 64 v) shift) (bytes gs)
      (BitVec.ofNat 64 (v + value gs * 2 ^ shift), shift + 7 * gs.length,
        UInt8.ofNat (gs.getLastD 0)) := by
  induction gs generalizing left v shift with
  | nil => exact absurd rfl ok.nonempty
  | cons g gs ih =>
    obtain ⟨left, rfl⟩ := Nat.exists_eq_succ_of_ne_zero (Nat.ne_of_gt (Nat.lt_of_lt_of_le
      (Nat.succ_pos _) fits))
    have small := ok.small g List.mem_cons_self
    cases gs with
    | nil =>
      have last := mt (and_80 ⟨g, by omega⟩).mp (by simp only; omega)
      have group := and_7f ⟨g, by omega⟩
      change Reads _ ([UInt8.ofNat g] ++ []) _
      refine (reads_readByte (UInt8.ofNat g)).andThen ?_
      simp only [if_neg last, group, Nat.mod_eq_of_lt small, add_shift]
      exact reads_pure _
    | cons h gs =>
      have more := (and_80 ⟨g + 128, by omega⟩).mpr (by simp only; omega)
      have group := and_7f ⟨g + 128, by omega⟩
      have rest := ih ok.tail (Nat.le_of_succ_le_succ fits) (v + g * 2 ^ shift) (shift + 7)
      have sum : v + g * 2 ^ shift + value (h :: gs) * 2 ^ (shift + 7)
          = v + value (g :: h :: gs) * 2 ^ shift := by
        have front : value (g :: h :: gs) = g + 128 * value (h :: gs) := rfl
        rw [front, Nat.pow_add]
        ring
      have shifts : shift + 7 + 7 * (h :: gs).length = shift + 7 * (g :: h :: gs).length := by
        simp only [List.length_cons]
        omega
      rw [sum, shifts] at rest
      have mod : (g + 128) % 128 = g := by omega
      refine (reads_readByte (UInt8.ofNat (g + 128))).andThen ?_
      simp only [if_pos more, group, mod, add_shift]
      exact rest

/-- With more bytes than shifts the loop comes to a shift that is undefined. -/
theorem readLEB128_overlong {gs : List Nat} (ok : Groups gs) {left : Nat} (long : left < gs.length)
    (v : BitVec 64) (shift : Nat) {d : DwarfMemory} (holds : d.memory.Holds d.curOffset (bytes gs)) :
    readLEB128 left v shift d = (.error .undefined, d.skip (left + 1)) := by
  induction left generalizing gs v shift d with
  | zero =>
    cases gs with
    | nil => cases long
    | cons g gs =>
      obtain ⟨b, rest, eq⟩ : ∃ b rest, bytes (g :: gs) = [b] ++ rest := by
        cases gs with
        | nil => exact ⟨_, [], rfl⟩
        | cons h gs => exact ⟨_, _, rfl⟩
      rw [eq] at holds
      exact Read.andThen_ok _ (reads_readByte b d holds.left)
  | succ left ih =>
    match gs, ok with
    | g :: [], _ => exact absurd long (by simp)
    | g :: h :: gs, ok =>
      have small := ok.small g List.mem_cons_self
      have more := (and_80 ⟨g + 128, by omega⟩).mpr (by simp only; omega)
      have holds' : d.memory.Holds d.curOffset ([UInt8.ofNat (g + 128)] ++ bytes (h :: gs)) := holds
      refine (Read.andThen_ok _ (reads_readByte _ d holds'.left)).trans ?_
      simp only [if_pos more]
      rw [ih ok.tail (Nat.lt_of_succ_lt_succ long) _ _ holds'.right, skip_skip, List.length_singleton,
        Nat.add_comm 1]

/-- `-1` shifted by `s` extends the sign of a value of `s` bits. -/
theorem or_shift {v s : Nat} (fits : v < 2 ^ s) (short : s < 64) :
    BitVec.ofNat 64 v ||| (-1 : BitVec 64) <<< s = BitVec.ofInt 64 ((v : Int) - 2 ^ s) := by
  have split : 2 ^ 64 = 2 ^ s * 2 ^ (64 - s) := by
    rw [← Nat.pow_add, Nat.add_sub_cancel' (Nat.le_of_lt short)]
  have pos : 0 < 2 ^ s := Nat.two_pow_pos s
  have le : 2 ^ s ≤ 2 ^ 64 := Nat.pow_le_pow_right (by decide) (Nat.le_of_lt short)
  have cast : ((2 ^ s : Nat) : Int) = 2 ^ s := by push_cast; rfl
  have ones : (-1 : BitVec 64).toNat <<< s % 2 ^ 64 = 2 ^ s * (2 ^ (64 - s) - 1) := by
    have all : (-1 : BitVec 64).toNat = 2 ^ 64 - 1 := by decide
    have room : 2 ^ s * (2 ^ (64 - s) - 1) = 2 ^ 64 - 2 ^ s := by rw [Nat.mul_sub_one, ← split]
    have shifted : (2 ^ 64 - 1) * 2 ^ s = (2 ^ 64 - 2 ^ s) + 2 ^ 64 * (2 ^ s - 1) := by
      generalize 2 ^ s = p at pos le
      omega
    rw [all, Nat.shiftLeft_eq, shifted, Nat.add_mul_mod_self_left, room, Nat.mod_eq_of_lt]
    omega
  apply BitVec.eq_of_toNat_eq
  rw [BitVec.toNat_or, BitVec.toNat_ofNat, BitVec.toNat_shiftLeft, ones,
    Nat.mod_eq_of_lt (Nat.lt_of_lt_of_le fits le), Nat.or_comm, ← Nat.two_pow_add_eq_or_of_lt fits,
    Nat.mul_sub_one, ← split, BitVec.toNat_ofInt]
  omega

/-- The last byte has the sign bit of a negative number. -/
theorem and_40_iff_negative {gs : List Nat} (ok : Groups gs) :
    UInt8.ofNat (gs.getLastD 0) &&& 0x40 ≠ 0 ↔ negative gs := by
  have small : gs.getLastD 0 < 128 := by
    rw [List.getLastD_eq_getLast?, List.getLast?_eq_some_getLast ok.nonempty]
    exact ok.small _ (List.getLast_mem ok.nonempty)
  exact and_40 ⟨gs.getLastD 0, small⟩

/-- `ReadULEB128` over the bytes of `gs`. -/
theorem readULEB128_bytes {gs : List Nat} (ok : Groups gs)
    (holds : d.memory.Holds d.curOffset (bytes gs)) :
    readULEB128 d =
      if gs.length ≤ 10 then (.ok (BitVec.ofNat 64 (value gs)), d.skip gs.length)
      else (.error .undefined, d.skip 11) := by
  split
  · next short =>
    have read := (reads_readLEB128 ok short 0 0).map Prod.fst d holds
    rw [length_bytes, Nat.zero_add, Nat.pow_zero, Nat.mul_one] at read
    exact read
  · next long => exact Read.andThen_error _ (readLEB128_overlong ok (Nat.not_le.mp long) 0 0 holds)

/-- `ReadSLEB128` over the bytes of `gs`. -/
theorem readSLEB128_bytes {gs : List Nat} (ok : Groups gs)
    (holds : d.memory.Holds d.curOffset (bytes gs)) :
    readSLEB128 d =
      if 10 < gs.length then (.error .undefined, d.skip 11)
      else if gs.length = 10 ∧ negative gs then (.error .undefined, d.skip 10)
      else (.ok (BitVec.ofInt 64 (signedValue gs)), d.skip gs.length) := by
  split
  · next long => exact Read.andThen_error _ (readLEB128_overlong ok long 0 0 holds)
  · next short =>
    have read := reads_readLEB128 ok (Nat.not_lt.mp short) 0 0 d holds
    rw [length_bytes, Nat.zero_add, Nat.zero_add, Nat.pow_zero, Nat.mul_one] at read
    refine (Read.andThen_ok _ read).trans ?_
    have sign := and_40_iff_negative ok
    by_cases neg : negative gs
    · simp only [if_pos (sign.mpr neg), neg, and_true, signedValue, if_pos]
      by_cases ten : gs.length = 10
      · rw [if_neg (by omega), if_pos ten, ten]
        rfl
      · have pow : (128 : Nat) ^ gs.length = 2 ^ (7 * gs.length) := by rw [Nat.pow_mul]
        have fits : value gs < 2 ^ (7 * gs.length) := pow ▸ value_lt ok.small
        have cast : (128 : Int) ^ gs.length = 2 ^ (7 * gs.length) := by rw [Int.pow_mul]; rfl
        rw [if_pos (by omega), if_neg ten, cast, or_shift fits (by omega)]
        rfl
    · simp only [if_neg (mt sign.mp neg), neg, and_false, signedValue, if_neg, not_false_iff,
        BitVec.ofInt_natCast]
      rfl

/-- The numbers of 64 bits whose shortest encoding has ten bytes and a sign. -/
theorem ten_negative_iff {v : Int} (low : -2 ^ 63 ≤ v) (high : v < 2 ^ 63) :
    (signed 9 v).length = 10 ∧ negative (signed 9 v) ↔ v < -2 ^ 62 := by
  have same : signedValue (signed 9 v) = v := signedValue_signed (by omega) (by omega)
  constructor
  · intro ⟨ten, neg⟩
    have sign := (signedValue_range (groups_signed 9 v) ten).2.2.mp neg
    apply Int.not_le.mp
    intro fits
    have nine := length_signed_of_fits (k := 8) (j := 9) (v := v) (by omega) (by omega) (by decide)
    omega
  · intro big
    obtain ⟨k, length⟩ := Nat.exists_eq_succ_of_ne_zero
      (mt List.length_eq_zero_iff.mp (signed_ne_nil 9 v))
    have le := length_signed_le 9 v
    obtain ⟨from', -, sign⟩ := signedValue_range (groups_signed 9 v) length
    rw [same] at from' sign
    refine ⟨?_, sign.mpr (by omega)⟩
    have few : ¬ k ≤ 8 := by
      intro few
      have pow : 128 ^ k ≤ 128 ^ 8 := Nat.pow_le_pow_right (by decide) few
      have cast : ((128 ^ k : Nat) : Int) = 128 ^ k := by push_cast; rfl
      omega
    omega

/-! ## Encoded values -/

/-- A value that is relative to nothing is read as its form says. -/
theorem Reads.readEncodedValue {address : AddressType} {encoding : UInt8} (form : Format) {bs : Bytes}
    {v : BitVec 64} (named : format encoding = some form) (plain : encoding &&& 0x70 = 0)
    (read : Reads (readFormat address form) bs v) : Reads (readEncodedValue address encoding) bs v := by
  have omitted : encoding ≠ 0xff := by
    rintro rfl
    cases plain
  have aligned : encoding ≠ 0x50 := by
    rintro rfl
    cases plain
  unfold DwarfMemory.readEncodedValue
  rw [if_neg omitted, if_neg aligned, named]
  intro d holds
  refine (Read.andThen_ok _ (read d holds)).trans ?_
  unfold adjustEncodedValue
  rw [plain]
  rfl

/-- `ReadULEB128` reads back a value in its shortest encoding. -/
theorem reads_readULEB128 (n : BitVec 64) : Reads readULEB128 (bytes (unsigned 9 n.toNat)) n := by
  intro d holds
  have fits := n.isLt
  rw [readULEB128_bytes (groups_unsigned (by omega)) holds, if_pos (length_unsigned_le 9 _),
    value_unsigned, length_bytes, BitVec.ofNat_toNat, BitVec.setWidth_eq]

/-- `ReadSLEB128` reads back a value from `-2 ^ 62` on in its shortest encoding. -/
theorem reads_readSLEB128 {v : Int} (low : -2 ^ 62 ≤ v) (high : v < 2 ^ 63) :
    Reads readSLEB128 (bytes (signed 9 v)) (BitVec.ofInt 64 v) := by
  intro d holds
  have ten := mt (ten_negative_iff (v := v) (by omega) high).mp (Int.not_lt.mpr low)
  rw [readSLEB128_bytes (groups_signed 9 v) holds, if_neg (Nat.not_lt.mpr (length_signed_le 9 v)),
    if_neg ten, signedValue_signed (by omega) (by omega), length_bytes]

/-- **LEB128 reads back.** Every encoding of a number, padded or not, is read wherever it stands, and
the cursor goes behind it. The exceptions are the shifts that C++ leaves undefined: from the eleventh
byte on, and for the sign of a number of ten bytes. Of the 64-bit numbers in their shortest encoding
these are the ones below `-2 ^ 62`. -/
theorem leb128_reads_back (d : DwarfMemory) :
    (∀ gs, Groups gs → d.memory.Holds d.curOffset (bytes gs) →
      readULEB128 d =
        (if gs.length ≤ 10 then (.ok (BitVec.ofNat 64 (value gs)), d.skip gs.length)
        else (.error .undefined, d.skip 11)) ∧
      readSLEB128 d =
        (if 10 < gs.length then (.error .undefined, d.skip 11)
        else if gs.length = 10 ∧ negative gs then (.error .undefined, d.skip 10)
        else (.ok (BitVec.ofInt 64 (signedValue gs)), d.skip gs.length))) ∧
    (∀ n, n < 2 ^ 64 → d.memory.Holds d.curOffset (bytes (unsigned 9 n)) →
      readULEB128 d = (.ok (BitVec.ofNat 64 n), d.skip (unsigned 9 n).length)) ∧
    (∀ v : Int, -2 ^ 63 ≤ v → v < 2 ^ 63 → d.memory.Holds d.curOffset (bytes (signed 9 v)) →
      (readSLEB128 d = (.ok (BitVec.ofInt 64 v), d.skip (signed 9 v).length) ↔ -2 ^ 62 ≤ v)) := by
  refine ⟨fun gs ok holds => ⟨readULEB128_bytes ok holds, readSLEB128_bytes ok holds⟩, ?_, ?_⟩
  · intro n fits holds
    rw [readULEB128_bytes (groups_unsigned (by omega)) holds, if_pos (length_unsigned_le 9 n),
      value_unsigned]
  · intro v low high holds
    rw [readSLEB128_bytes (groups_signed 9 v) holds,
      if_neg (Nat.not_lt.mpr (length_signed_le 9 v)), signedValue_signed (by omega) (by omega)]
    have ten := ten_negative_iff low high
    constructor
    · intro read
      apply Int.not_lt.mp
      intro big
      rw [if_pos (ten.mpr big)] at read
      cases read
    · intro fits
      rw [if_neg (mt ten.mp (Int.not_lt.mpr fits))]

/-- A number in two bytes. -/
theorem leb128_reads_back_two :
    let d : DwarfMemory := { memory := memoryBuffer ([] ++ bytes (unsigned 9 300) ++ []), abi := .lp64 }
    readULEB128 d = (.ok 300, d.skip 2) :=
  (leb128_reads_back _).2.1 300 (by decide) (Memory.holds_memoryBuffer (by decide) rfl)

end DwarfMemory

end Dolin.Unwindstack
