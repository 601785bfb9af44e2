import Dolin.Zap.BufferHeader

/-!
# The header reads back

`Placed` says what a header in place is: the fields at their offsets, in a mapping with room for
them and for the compress byte that `InitHeader` puts past them. `InitHeader` establishes it, the
readers answer its fields, `SetLogLen` moves one of them, and a store behind the header leaves it.
`HeaderAt` is the same for the path of a Java string.
-/

namespace Dolin.Zap.BufferHeader

open Region

variable {abi : Abi}

/-- For the path of a Java string the header length does not wrap. -/
theorem calculateHeaderLen_eq (abi : Abi) {n : Nat} (h : n < 2 ^ 31) :
    calculateHeaderLen abi n =
      1 + abi.sizeofSizeT + abi.sizeofSizeT + n + abi.sizeofSizeT + 1 := by
  have := abi.sizeofSizeT_le
  have := abi.two_pow_32_le_modulus
  exact Abi.wrap_of_lt (by omega)

/-- Where the sum fits `size_t`, the header length is the sum. -/
theorem calculateHeaderLen_of_lt {n : Nat}
    (h : 1 + abi.sizeofSizeT + abi.sizeofSizeT + n + abi.sizeofSizeT + 1 < abi.modulus) :
    calculateHeaderLen abi n =
      1 + abi.sizeofSizeT + abi.sizeofSizeT + n + abi.sizeofSizeT + 1 := Abi.wrap_of_lt h

/-- A header for the bytes `path` and for `limit` is in place, its log length field is `len`, and the
mapping goes on for at least one `size_t` after it. -/
structure Placed (abi : Abi) (m : Bytes) (dataSize : Nat) (path : Bytes) (limit len : Nat) :
    Prop where
  length : m.length = dataSize
  size_lt : dataSize < abi.modulus
  extent : 1 + abi.sizeofSizeT + abi.sizeofSizeT + path.length + abi.sizeofSizeT + 1 +
    abi.sizeofSizeT ≤ m.length
  magic : slice m 0 1 = [kMagicHeader]
  logLen : decodeLE (slice m 1 abi.sizeofSizeT) = len
  pathLen : decodeLE (slice m (1 + abi.sizeofSizeT) abi.sizeofSizeT) = path.length
  pathBytes : slice m (1 + abi.sizeofSizeT + abi.sizeofSizeT) path.length = path
  limitSize : decodeLE (slice m (1 + abi.sizeofSizeT + abi.sizeofSizeT + path.length)
    abi.sizeofSizeT) = limit

/-- `InitHeader` on a mapping with room puts the header in place. Behind the limit it writes one byte,
one `size_t` further on. -/
theorem initHeader_placed (abi : Abi) (m : Bytes) (dataSize : Nat) (header : Header)
    (hm : m.length = dataSize) (size_lt : dataSize < abi.modulus)
    (room : 1 + abi.sizeofSizeT + abi.sizeofSizeT + header.logPath.length + abi.sizeofSizeT + 1 +
      abi.sizeofSizeT ≤ dataSize)
    (hmagic : header.magic = kMagicHeader) (hlen : header.logPathLen = header.logPath.length)
    (hlog : header.logLen < abi.modulus) (hlimit : header.limitSize < abi.modulus) :
    ∃ m₅ m', initHeader abi m dataSize header = some m' ∧
      Placed abi m' dataSize header.logPath header.limitSize header.logLen ∧
      store m₅ (1 + abi.sizeofSizeT + abi.sizeofSizeT + header.logPath.length + abi.sizeofSizeT
        + abi.sizeofSizeT) [if header.compress then 1 else 0] = some m' ∧
      ∀ o n, 1 + abi.sizeofSizeT + abi.sizeofSizeT + header.logPath.length + abi.sizeofSizeT ≤ o →
        slice m₅ o n = slice m o n := by
  have taken : header.logPath.take header.logPathLen = header.logPath := by
    rw [hlen, List.take_length]
  obtain ⟨m₁, h₁⟩ := store_ok m 0 [header.magic] (by simp; omega)
  have l₁ := length_store h₁
  obtain ⟨m₂, h₂⟩ := store_ok m₁ 1
    (encodeLE abi.sizeofSizeT header.logLen) (by rw [length_encodeLE]; omega)
  have l₂ := length_store h₂
  obtain ⟨m₃, h₃⟩ := store_ok m₂ (1 + abi.sizeofSizeT)
    (encodeLE abi.sizeofSizeT header.logPathLen) (by rw [length_encodeLE]; omega)
  have l₃ := length_store h₃
  obtain ⟨m₄, h₄⟩ := store_ok m₃ (1 + abi.sizeofSizeT + abi.sizeofSizeT)
    (header.logPath.take header.logPathLen) (by rw [taken]; omega)
  have l₄ := length_store h₄
  obtain ⟨m₅, h₅⟩ := store_ok m₄
    (1 + abi.sizeofSizeT + abi.sizeofSizeT + header.logPathLen)
    (encodeLE abi.sizeofSizeT header.limitSize) (by rw [length_encodeLE]; omega)
  have l₅ := length_store h₅
  obtain ⟨m₆, h₆⟩ := store_ok m₅
    (1 + abi.sizeofSizeT + abi.sizeofSizeT + header.logPathLen + abi.sizeofSizeT
      + abi.sizeofSizeT)
    [if header.compress then 1 else 0] (by simp; omega)
  have l₆ := length_store h₆
  have fits : ¬ abi.wrap (1 + abi.sizeofSizeT + abi.sizeofSizeT + header.logPathLen) > dataSize := by
    rw [Abi.wrap_of_lt (by omega)]
    omega
  refine ⟨m₅, m₆, ?_, ⟨by omega, size_lt, by omega, ?_, ?_, ?_, ?_, ?_⟩, hlen ▸ h₆, ?_⟩
  · rw [initHeader, if_neg fits]
    simp only [storeWord, h₁, h₂, h₃, h₄, h₅, h₆, Option.bind_eq_bind, Option.bind_some]
  -- each field is read through the later stores, none of which meets it
  · rw [slice_store_other h₆ (by omega), slice_store_other h₅ (by omega),
      slice_store_other h₄ (by omega), slice_store_other h₃ (by omega),
      slice_store_other h₂ (by omega), ← hmagic]
    exact slice_store_same h₁
  · rw [slice_store_other h₆ (by omega), slice_store_other h₅ (by omega),
      slice_store_other h₄ (by omega), slice_store_other h₃ (by omega)]
    exact word_store_same h₂ hlog
  · rw [slice_store_other h₆ (by omega), slice_store_other h₅ (by omega),
      slice_store_other h₄ (by omega), ← hlen]
    exact word_store_same h₃ (by change header.logPathLen < abi.modulus; omega)
  · rw [slice_store_other h₆ (by omega), slice_store_other h₅ (by omega)]
    have same := slice_store_same h₄
    rwa [taken] at same
  · rw [slice_store_other h₆ (by omega), ← hlen]
    exact word_store_same h₅ hlimit
  · intro o n behind
    have one : [header.magic].length = 1 := rfl
    rw [slice_store_other h₅ (by rw [length_encodeLE]; omega),
      slice_store_other h₄ (by rw [taken]; omega),
      slice_store_other h₃ (by rw [length_encodeLE]; omega),
      slice_store_other h₂ (by rw [length_encodeLE]; omega), slice_store_other h₁ (by omega)]

/-- What an `InitHeader` that returned did: nothing, or its six stores. -/
theorem initHeader_cases {m m' : Bytes} {dataSize : Nat} {header : Header}
    (h : initHeader abi m dataSize header = some m') :
    (abi.wrap (1 + abi.sizeofSizeT + abi.sizeofSizeT + header.logPathLen) > dataSize ∧ m' = m) ∨
    ∃ m₁ m₂ m₃ m₄ m₅, store m 0 [header.magic] = some m₁ ∧
      storeWord abi.sizeofSizeT m₁ 1 header.logLen = some m₂ ∧
      storeWord abi.sizeofSizeT m₂ (1 + abi.sizeofSizeT) header.logPathLen = some m₃ ∧
      store m₃ (1 + abi.sizeofSizeT + abi.sizeofSizeT) (header.logPath.take header.logPathLen) =
        some m₄ ∧
      storeWord abi.sizeofSizeT m₄ (1 + abi.sizeofSizeT + abi.sizeofSizeT + header.logPathLen)
        header.limitSize = some m₅ ∧
      store m₅ (1 + abi.sizeofSizeT + abi.sizeofSizeT + header.logPathLen + abi.sizeofSizeT
        + abi.sizeofSizeT) [if header.compress then 1 else 0] = some m' := by
  simp only [initHeader] at h
  split at h
  next long => exact .inl ⟨long, (Option.some.inj h).symm⟩
  next fits =>
    obtain ⟨m₁, h₁, h⟩ := Option.bind_eq_some_iff.mp h
    obtain ⟨m₂, h₂, h⟩ := Option.bind_eq_some_iff.mp h
    obtain ⟨m₃, h₃, h⟩ := Option.bind_eq_some_iff.mp h
    obtain ⟨m₄, h₄, h⟩ := Option.bind_eq_some_iff.mp h
    obtain ⟨m₅, h₅, h₆⟩ := Option.bind_eq_some_iff.mp h
    exact .inr ⟨m₁, m₂, m₃, m₄, m₅, h₁, h₂, h₃, h₄, h₅, h₆⟩

/-- `InitHeader` keeps the length of the mapping. -/
theorem length_initHeader {m m' : Bytes} {dataSize : Nat} {header : Header}
    (h : initHeader abi m dataSize header = some m') : m'.length = m.length := by
  rcases initHeader_cases h with ⟨-, rfl⟩ | ⟨m₁, m₂, m₃, m₄, m₅, h₁, h₂, h₃, h₄, h₅, h₆⟩
  · rfl
  · rw [length_store h₆, length_store h₅, length_store h₄, length_store h₃, length_store h₂,
      length_store h₁]

/-- Whether or not the header fits: on a mapping of zeros, `InitHeader` with an empty log leaves
zero where the log length is read. -/
theorem initHeader_logLen_zero {n : Nat} {m' : Bytes} {dataSize : Nat} {header : Header}
    (h : initHeader abi (List.replicate n 0) dataSize header = some m') (empty : header.logLen = 0) :
    decodeLE (slice m' 1 abi.sizeofSizeT) = 0 := by
  rcases initHeader_cases h with ⟨-, rfl⟩ | ⟨m₁, m₂, m₃, m₄, m₅, h₁, h₂, h₃, h₄, h₅, h₆⟩
  · rw [slice, List.drop_replicate, List.take_replicate]
    exact decodeLE_zeros _
  · rw [slice_store_other h₆ (by omega), slice_store_other h₅ (by omega),
      slice_store_other h₄ (by omega), slice_store_other h₃ (by omega)]
    rw [empty] at h₂
    exact word_store_same h₂ (Nat.pow_pos (by decide))

/-- A zero log length puts the write pointer on the data pointer. -/
theorem getWritePtr_of_zero {m : Bytes} {dataSize d w : Nat}
    (zero : decodeLE (slice m 1 abi.sizeofSizeT) = 0)
    (hd : getDataPtr abi m dataSize = some d) (hw : getWritePtr abi m dataSize = some w) : w = d := by
  obtain ⟨headerLen, hh, hw⟩ := Option.bind_eq_some_iff.mp hw
  obtain ⟨logLen, hl, hw⟩ := Option.bind_eq_some_iff.mp hw
  cases hw
  rw [getDataPtr, hh] at hd
  cases hd
  suffices logLen = 0 by omega
  obtain ⟨available, -, hl⟩ := Option.bind_eq_some_iff.mp hl
  split at hl
  · obtain ⟨len, hlen, hl⟩ := Option.bind_eq_some_iff.mp hl
    obtain ⟨_, -, hl⟩ := Option.bind_eq_some_iff.mp hl
    cases hl
    obtain ⟨bs, hbs, rfl⟩ := Option.map_eq_some_iff.mp hlen
    unfold load at hbs
    split at hbs
    · cases hbs
      rw [zero]
      rfl
    · cases hbs
  · cases hl
    rfl

namespace Placed

variable {m : Bytes} {dataSize : Nat} {path : Bytes} {limit len : Nat}

/-- The header length of a header in place does not wrap. -/
theorem headerLen_eq (h : Placed abi m dataSize path limit len) :
    calculateHeaderLen abi path.length =
      1 + abi.sizeofSizeT + abi.sizeofSizeT + path.length + abi.sizeofSizeT + 1 := by
  have := h.extent
  have := h.length
  have := h.size_lt
  exact calculateHeaderLen_of_lt (by omega)

theorem isAvailable (h : Placed abi m dataSize path limit len) : isAvailable m = some true := by
  have := h.extent
  rw [BufferHeader.isAvailable, load_eq (by omega), h.magic]
  rfl

theorem getLogPathLen (h : Placed abi m dataSize path limit len) :
    getLogPathLen abi m dataSize = some path.length := by
  have ext := h.extent
  have size := h.length
  have pos := abi.sizeofSizeT_pos
  have bound : path.length < abi.sub dataSize (calculateHeaderLen abi 0) := by
    rw [calculateHeaderLen_eq abi (by decide), Abi.sub_of_le h.size_lt (by omega)]
    omega
  simp only [BufferHeader.getLogPathLen, h.isAvailable, Option.bind_eq_bind, Option.bind_some,
    if_true, loadWord_eq (show 1 + abi.sizeofSizeT + abi.sizeofSizeT ≤ m.length by omega),
    h.pathLen, bound, and_true]
  -- an empty path fails the `len > 0` test and is answered as zero all the same
  split
  · rfl
  · exact congrArg some (by omega)

theorem getHeaderLen (h : Placed abi m dataSize path limit len) :
    getHeaderLen abi m dataSize = some (calculateHeaderLen abi path.length) := by
  simp only [BufferHeader.getHeaderLen, h.isAvailable, h.getLogPathLen, Option.bind_eq_bind,
    Option.bind_some, if_true]
  rfl

/-- `GetLogPath` answers the path, and null where it is empty. -/
theorem getLogPath (h : Placed abi m dataSize path limit len) :
    getLogPath abi m dataSize = some (if path = [] then none else some path) := by
  have ext := h.extent
  simp only [BufferHeader.getLogPath, h.isAvailable, h.getLogPathLen, Option.bind_eq_bind,
    Option.bind_some, if_true, load_eq
      (show 1 + abi.sizeofSizeT + abi.sizeofSizeT + path.length ≤ m.length by omega), h.pathBytes]
  by_cases hp : path = []
  · have : ¬ path.length > 0 := by simp [hp]
    rw [if_neg this, if_pos hp]
    rfl
  · have : path.length > 0 := List.length_pos_iff.mpr hp
    rw [if_pos this, if_neg hp]
    rfl

theorem getLimitSize (h : Placed abi m dataSize path limit len) :
    getLimitSize abi m dataSize = some limit := by
  have ext := h.extent
  simp only [BufferHeader.getLimitSize, h.isAvailable, h.getLogPathLen, Option.bind_eq_bind,
    Option.bind_some, if_true]
  rw [loadWord_eq (by omega), h.limitSize]

/-- `IsCompress` looks at the byte behind the limit. -/
theorem isCompress (h : Placed abi m dataSize path limit len) :
    isCompress abi m dataSize = some (slice m
      (1 + abi.sizeofSizeT + abi.sizeofSizeT + path.length + abi.sizeofSizeT) 1 == [1]) := by
  have ext := h.extent
  simp only [BufferHeader.isCompress, h.isAvailable, h.getLogPathLen, Option.bind_eq_bind,
    Option.bind_some, if_true]
  rw [load_eq (by omega)]
  rfl

/-- `GetHeader` answers the fields, and the same byte for the compress flag. -/
theorem getHeader (h : Placed abi m dataSize path limit len) :
    getHeader abi m = some {
      magic := kMagicHeader, logLen := len, logPathLen := path.length, logPath := path,
      compress := slice m
        (1 + abi.sizeofSizeT + abi.sizeofSizeT + path.length + abi.sizeofSizeT) 1 == [1],
      limitSize := limit } := by
  have ext := h.extent
  simp only [BufferHeader.getHeader, h.isAvailable, Option.bind_eq_bind, Option.bind_some, if_true,
    loadWord_eq (show 1 + abi.sizeofSizeT ≤ m.length by omega), h.logLen,
    loadWord_eq (show 1 + abi.sizeofSizeT + abi.sizeofSizeT ≤ m.length by omega), h.pathLen,
    load_eq (show 1 + abi.sizeofSizeT + abi.sizeofSizeT + path.length ≤ m.length by omega),
    h.pathBytes, loadWord_eq
      (show 1 + abi.sizeofSizeT + abi.sizeofSizeT + path.length + abi.sizeofSizeT ≤ m.length by omega),
    h.limitSize, load_eq (show
      1 + abi.sizeofSizeT + abi.sizeofSizeT + path.length + abi.sizeofSizeT + 1 ≤ m.length by omega)]
  rfl

/-- `GetLogLen` answers the log length field where it passes the strict test, and zero otherwise. -/
theorem getLogLen (h : Placed abi m dataSize path limit len) :
    getLogLen abi m dataSize =
      some (if len < dataSize - calculateHeaderLen abi path.length then len else 0) := by
  have ext := h.extent
  have size := h.length
  have room : calculateHeaderLen abi path.length ≤ dataSize := by
    rw [h.headerLen_eq]
    omega
  simp only [BufferHeader.getLogLen, h.isAvailable, h.getHeaderLen, Option.bind_eq_bind,
    Option.bind_some, if_true, loadWord_eq (show 1 + abi.sizeofSizeT ≤ m.length by omega), h.logLen,
    Abi.sub_of_le h.size_lt room]
  apply congrArg some
  split
  next both => rw [if_pos both.2]
  next fails =>
    split
    next short => omega
    next => rfl

/-- `GetDataPtr` and `GetWritePtr` are the two lengths apart. -/
theorem getDataPtr (h : Placed abi m dataSize path limit len) :
    getDataPtr abi m dataSize = some (calculateHeaderLen abi path.length) := h.getHeaderLen

theorem getWritePtr (h : Placed abi m dataSize path limit len) :
    getWritePtr abi m dataSize = some (calculateHeaderLen abi path.length +
      if len < dataSize - calculateHeaderLen abi path.length then len else 0) := by
  simp only [BufferHeader.getWritePtr, h.getHeaderLen, h.getLogLen, Option.bind_eq_bind,
    Option.bind_some]
  rfl

/-- A store behind the header leaves it in place. -/
theorem store_behind (h : Placed abi m dataSize path limit len) {m' : Bytes} {off : Nat}
    {bs : Bytes} (hs : store m off bs = some m')
    (behind : calculateHeaderLen abi path.length ≤ off) :
    Placed abi m' dataSize path limit len := by
  rw [h.headerLen_eq] at behind
  have same := length_store hs
  refine ⟨same.trans h.length, h.size_lt, same ▸ h.extent, ?_, ?_, ?_, ?_, ?_⟩
  · rw [slice_store_other hs (by omega)]; exact h.magic
  · rw [slice_store_other hs (by omega)]; exact h.logLen
  · rw [slice_store_other hs (by omega)]; exact h.pathLen
  · rw [slice_store_other hs (by omega)]; exact h.pathBytes
  · rw [slice_store_other hs (by omega)]; exact h.limitSize

/-- `SetLogLen` moves the log length field and nothing else. -/
theorem setLogLen (h : Placed abi m dataSize path limit len) {n : Nat} (hn : n < abi.modulus) :
    ∃ m', setLogLen abi m n = some m' ∧ Placed abi m' dataSize path limit n ∧
      ∀ off k, 1 + abi.sizeofSizeT ≤ off → slice m' off k = slice m off k := by
  have ext := h.extent
  obtain ⟨m', hs⟩ := store_ok m 1 (encodeLE abi.sizeofSizeT n)
    (by rw [length_encodeLE]; omega)
  have same := length_store hs
  have after : ∀ off k, 1 + abi.sizeofSizeT ≤ off → slice m' off k = slice m off k := by
    intro off k behind
    exact slice_store_other hs (by rw [length_encodeLE]; omega)
  refine ⟨m', ?_, ⟨same.trans h.length, h.size_lt, same ▸ ext, ?_, word_store_same hs hn, ?_, ?_, ?_⟩,
    after⟩
  · simp only [BufferHeader.setLogLen, h.isAvailable, Option.bind_eq_bind, Option.bind_some,
      if_true, storeWord, hs]
  · rw [slice_store_other hs (by omega)]; exact h.magic
  · rw [after _ _ (by omega)]; exact h.pathLen
  · rw [after _ _ (by omega)]; exact h.pathBytes
  · rw [after _ _ (by omega)]; exact h.limitSize

end Placed

/-- A header for `path` and `limit` is in place, its log length field is `len`, and the mapping
goes on for at least one `size_t` after it. -/
structure HeaderAt (abi : Abi) (m : Bytes) (dataSize : Nat) (path : JString) (limit len : Nat) :
    Prop where
  length : m.length = dataSize
  size_lt : dataSize < abi.modulus
  room : calculateHeaderLen abi path.length + abi.sizeofSizeT ≤ dataSize
  magic : slice m 0 1 = [kMagicHeader]
  logLen : decodeLE (slice m 1 abi.sizeofSizeT) = len
  pathLen : decodeLE (slice m (1 + abi.sizeofSizeT) abi.sizeofSizeT) = path.length
  pathBytes : slice m (1 + abi.sizeofSizeT + abi.sizeofSizeT) path.length = path.utf8
  limitSize : decodeLE (slice m (1 + abi.sizeofSizeT + abi.sizeofSizeT + path.length)
    abi.sizeofSizeT) = limit

/-- A Java string in place is its bytes in place. -/
theorem headerAt_iff_placed {m : Bytes} {dataSize : Nat} {path : JString} {limit len : Nat} :
    HeaderAt abi m dataSize path limit len ↔ Placed abi m dataSize path.utf8 limit len := by
  have eq := calculateHeaderLen_eq abi path.strlen_lt
  constructor
  · rintro ⟨length, size_lt, room, magic, logLen, pathLen, pathBytes, limitSize⟩
    rw [eq, ← length] at room
    exact ⟨length, size_lt, room, magic, logLen, pathLen, pathBytes, limitSize⟩
  · rintro ⟨length, size_lt, room, magic, logLen, pathLen, pathBytes, limitSize⟩
    refine ⟨length, size_lt, ?_, magic, logLen, pathLen, pathBytes, limitSize⟩
    rwa [eq, ← length]

/-- `InitHeader` on a mapping with room puts the header in place. -/
theorem initHeader_at (abi : Abi) (m : Bytes) (dataSize : Nat) (path : JString) (header : Header)
    (hm : m.length = dataSize) (size_lt : dataSize < abi.modulus)
    (room : calculateHeaderLen abi path.length + abi.sizeofSizeT ≤ dataSize)
    (hmagic : header.magic = kMagicHeader) (hpath : header.logPath = path.utf8)
    (hlen : header.logPathLen = path.length) (hlog : header.logLen < abi.modulus)
    (hlimit : header.limitSize < abi.modulus) :
    ∃ m', initHeader abi m dataSize header = some m' ∧
      HeaderAt abi m' dataSize path header.limitSize header.logLen := by
  have extent := room
  rw [calculateHeaderLen_eq abi path.strlen_lt] at extent
  have bytes : header.logPath.length = path.length := congrArg List.length hpath
  obtain ⟨m₅, m', done, placed, -, -⟩ := initHeader_placed abi m dataSize header hm size_lt
    (by rw [bytes]; exact extent) hmagic (hlen.trans bytes.symm) hlog hlimit
  rw [hpath] at placed
  exact ⟨m', done, headerAt_iff_placed.mpr placed⟩

namespace HeaderAt

variable {m : Bytes} {dataSize : Nat} {path : JString} {limit len : Nat}

theorem placed (h : HeaderAt abi m dataSize path limit len) :
    Placed abi m dataSize path.utf8 limit len := headerAt_iff_placed.mp h

/-- The room a header needs, with the header length written out. -/
theorem extent (h : HeaderAt abi m dataSize path limit len) :
    1 + abi.sizeofSizeT + abi.sizeofSizeT + path.length + abi.sizeofSizeT + 1 + abi.sizeofSizeT ≤ m.length :=
  h.placed.extent

theorem isAvailable (h : HeaderAt abi m dataSize path limit len) :
    isAvailable m = some true := h.placed.isAvailable

theorem getLogPathLen (h : HeaderAt abi m dataSize path limit len) :
    getLogPathLen abi m dataSize = some path.length := h.placed.getLogPathLen

theorem getHeaderLen (h : HeaderAt abi m dataSize path limit len) :
    getHeaderLen abi m dataSize = some (calculateHeaderLen abi path.length) :=
  h.placed.getHeaderLen

/-- `GetLogPath` answers the path, and null where it is empty. -/
theorem getLogPath (h : HeaderAt abi m dataSize path limit len) :
    getLogPath abi m dataSize = some (if path.utf8 = [] then none else some path.utf8) :=
  h.placed.getLogPath

theorem getLimitSize (h : HeaderAt abi m dataSize path limit len) :
    getLimitSize abi m dataSize = some limit := h.placed.getLimitSize

/-- `GetDataPtr` and `GetWritePtr` of a header whose log length field is zero. -/
theorem pointers (h : HeaderAt abi m dataSize path limit 0) :
    getDataPtr abi m dataSize = some (calculateHeaderLen abi path.length) ∧
      getWritePtr abi m dataSize = some (calculateHeaderLen abi path.length) := by
  refine ⟨h.placed.getDataPtr, ?_⟩
  rw [h.placed.getWritePtr, ite_self]
  rfl

/-- A store behind the header leaves it in place. -/
theorem store_behind (h : HeaderAt abi m dataSize path limit len) {m' : Bytes} {off : Nat}
    {bs : Bytes} (hs : store m off bs = some m')
    (behind : calculateHeaderLen abi path.length ≤ off) :
    HeaderAt abi m' dataSize path limit len :=
  headerAt_iff_placed.mpr (h.placed.store_behind hs behind)

/-- `SetLogLen` moves the log length field and nothing else. -/
theorem setLogLen (h : HeaderAt abi m dataSize path limit len) {n : Nat} (hn : n < abi.modulus) :
    ∃ m', setLogLen abi m n = some m' ∧ HeaderAt abi m' dataSize path limit n ∧
      ∀ off k, calculateHeaderLen abi path.length ≤ off → slice m' off k = slice m off k := by
  obtain ⟨m', set, placed, after⟩ := h.placed.setLogLen hn
  refine ⟨m', set, headerAt_iff_placed.mpr placed, fun off k behind => after off k ?_⟩
  rw [calculateHeaderLen_eq abi path.strlen_lt] at behind
  omega

end HeaderAt

end Dolin.Zap.BufferHeader
