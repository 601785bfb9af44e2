import Dolin.Laws.Zap.BufferHeader

/-!
# What the header's readers make of its bytes

Three questions about the one writer and the readers of the header. Does a header read back? It does
where it is not compressed: the compress byte is written one `size_t` past the place where it is
read, into the data. Does a log length read back? It does up to the last byte of the data, which
`Append` can reach and `GetLogLen` does not believe. And what do the readers do with bytes that no
writer put there? They stay inside the mapping.
-/

namespace Dolin.Zap.BufferHeader

open Region

variable {abi : Abi}

/-! ## The header -/

/-- A header as C++ holds it: fields of type `size_t`, and a path that is an object in memory. No
object is larger than `PTRDIFF_MAX`. -/
structure Held (abi : Abi) (header : Header) : Prop where
  magic : header.magic = kMagicHeader
  logLen : header.logLen < abi.modulus
  logPathLen : header.logPathLen = header.logPath.length
  logPath : header.logPath.length < abi.modulus / 2
  limitSize : header.limitSize < abi.modulus

/-- The readers answer `header` from the mapping `m'`, which is `m` from the header's length on. -/
structure ReadsBack (abi : Abi) (m m' : Bytes) (dataSize : Nat) (header : Header) : Prop where
  available : isAvailable m' = some true
  logPathLen : getLogPathLen abi m' dataSize = some header.logPath.length
  logPath : getLogPath abi m' dataSize = some (some header.logPath)
  limitSize : getLimitSize abi m' dataSize = some header.limitSize
  compress : isCompress abi m' dataSize = some header.compress
  whole : getHeader abi m' = some header
  data : m'.drop (calculateHeaderLen abi header.logPath.length) =
    m.drop (calculateHeaderLen abi header.logPath.length)

/-- A header that is not compressed, put together from its fields. -/
theorem Held.eta {header : Header} (held : Held abi header) (plain : header.compress = false) :
    { magic := kMagicHeader, logLen := header.logLen, logPathLen := header.logPath.length,
      logPath := header.logPath, compress := false, limitSize := header.limitSize } = header := by
  rw [← held.magic, ← held.logPathLen, ← plain]

/-- **The header reads back.** On both ABIs, for every header with a path and every mapping of zeros
with room for it: after `InitHeader` the readers answer the header and the data is untouched, if and
only if the header is not compressed. -/
theorem header_reads_back_iff (abi : Abi) (header : Header) (held : Held abi header)
    (path : header.logPath ≠ []) (dataSize : Nat) (size_lt : dataSize < abi.modulus)
    (room : calculateHeaderLen abi header.logPath.length + 8 ≤ dataSize) :
    (∃ m', initHeader abi (List.replicate dataSize 0) dataSize header = some m' ∧
      ReadsBack abi (List.replicate dataSize 0) m' dataSize header) ↔ header.compress = false := by
  have pos := abi.sizeofSizeT_pos
  have le := abi.sizeofSizeT_le
  have big := abi.two_pow_32_le_modulus
  have short := held.logPath
  have eq := @calculateHeaderLen_of_lt abi header.logPath.length (by omega)
  obtain ⟨m₅, m', done, placed, last, before⟩ := initHeader_placed abi (List.replicate dataSize 0)
    dataSize header List.length_replicate size_lt (by omega) held.magic held.logPathLen held.logLen
    held.limitSize
  have zeros : (List.replicate dataSize (0 : UInt8)).length = dataSize := List.length_replicate
  have same := length_store last
  have length := placed.length
  -- the byte that is read is not the one that was written
  have unwritten : slice m' (1 + abi.sizeofSizeT + abi.sizeofSizeT + header.logPath.length +
      abi.sizeofSizeT) 1 = [0] := by
    rw [slice_store_other last (by omega), before _ _ (Nat.le_refl _), slice_zeros (by omega)]
    rfl
  have flag := placed.isCompress
  rw [unwritten] at flag
  constructor
  · rintro ⟨m'', done', back⟩
    cases done.symm.trans done'
    exact (Option.some.inj (flag.symm.trans back.compress)).symm
  · intro plain
    refine ⟨m', done, placed.isAvailable, placed.getLogPathLen, ?_, placed.getLimitSize, ?_, ?_, ?_⟩
    · rw [placed.getLogPath, if_neg path]
    · rw [flag, plain]
      rfl
    · rw [placed.getHeader, unwritten]
      exact congrArg some (held.eta plain)
    · -- a zero is written on a zero
      rw [plain] at last
      have kept : m' = m₅ := by
        refine store_there last ?_
        rw [before _ _ (by omega), slice_zeros (by simp; omega)]
        rfl
      rw [kept, drop_eq_slice, drop_eq_slice, before _ _ (by omega), zeros]
      rw [← same, length]

/-- The header of a log at `/a` with a limit of one byte. -/
def headerOfA (compress : Bool) : Header :=
  { magic := kMagicHeader, logLen := 0, logPathLen := 2, logPath := [0x2f, 0x61], compress,
    limitSize := 1 }

theorem held_headerOfA (compress : Bool) : Held .lp64 (headerOfA compress) :=
  ⟨rfl, show 0 < Abi.lp64.modulus by decide, rfl, show 2 < Abi.lp64.modulus / 2 by decide,
    show 1 < Abi.lp64.modulus by decide⟩

/-- The uncompressed one reads back from 64 bytes. -/
theorem header_reads_back_iff_plain :
    ∃ m', initHeader .lp64 (List.replicate 64 0) 64 (headerOfA false) = some m' ∧
      ReadsBack .lp64 (List.replicate 64 0) m' 64 (headerOfA false) :=
  (header_reads_back_iff .lp64 (headerOfA false) (held_headerOfA false) (List.cons_ne_nil _ _) 64
    (by decide) (by decide)).mpr rfl

/-- The compressed one does not: `IsCompress` answers false, and byte 35 of the mapping, which is
byte 7 of the data, is a one. -/
theorem compressed_header_lost :
    Held .lp64 (headerOfA true) ∧ calculateHeaderLen .lp64 2 + 8 ≤ 64 ∧
      ¬ ∃ m', initHeader .lp64 (List.replicate 64 0) 64 (headerOfA true) = some m' ∧
        ReadsBack .lp64 (List.replicate 64 0) m' 64 (headerOfA true) := by
  refine ⟨held_headerOfA true, by decide, ?_⟩
  rintro ⟨m', done, back⟩
  have read : (initHeader .lp64 (List.replicate 64 0) 64 (headerOfA true)).bind
      (isCompress .lp64 · 64) = some false := by decide +kernel
  rw [done, Option.bind_some, back.compress] at read
  cases read

/-! ## The log length -/

/-- After `SetLogLen(n)` turned `m` into `m'`, the length is read back and the rest reads as before. -/
structure LogLenKept (abi : Abi) (m m' : Bytes) (dataSize n : Nat) : Prop where
  logLen : getLogLen abi m' dataSize = some n
  pointers : ∃ dataPtr, getDataPtr abi m' dataSize = some dataPtr ∧
    getWritePtr abi m' dataSize = some (dataPtr + n)
  logPath : getLogPath abi m' dataSize = getLogPath abi m dataSize
  limitSize : getLimitSize abi m' dataSize = getLimitSize abi m dataSize
  compress : isCompress abi m' dataSize = isCompress abi m dataSize

/-- **The log length reads back.** For every header in place and every length that fits the data: what
`SetLogLen` stores, `GetLogLen` and the pointers answer, and the other fields stay, if and only if
the data is not full to its last byte. -/
theorem log_length_reads_back_iff (abi : Abi) (m : Bytes) (dataSize : Nat) (path : Bytes)
    (limit len n : Nat) (placed : Placed abi m dataSize path limit len)
    (fits : n ≤ dataSize - calculateHeaderLen abi path.length) :
    (∃ m', setLogLen abi m n = some m' ∧ LogLenKept abi m m' dataSize n) ↔
      n ≠ dataSize - calculateHeaderLen abi path.length := by
  have ext := placed.extent
  have size := placed.length
  have small := placed.size_lt
  have eq := placed.headerLen_eq
  have pos := abi.sizeofSizeT_pos
  obtain ⟨m', set, placed', after⟩ := placed.setLogLen (show n < abi.modulus by omega)
  constructor
  · rintro ⟨m'', set', kept⟩ full
    cases set.symm.trans set'
    -- the strict test turns the full length into zero
    have zero := placed'.getLogLen
    rw [if_neg (by omega), kept.logLen] at zero
    have := Option.some.inj zero
    omega
  · intro notFull
    have short : n < dataSize - calculateHeaderLen abi path.length := by omega
    refine ⟨m', set, ?_, ⟨_, placed'.getDataPtr, ?_⟩, ?_, ?_, ?_⟩
    · rw [placed'.getLogLen, if_pos short]
    · rw [placed'.getWritePtr, if_pos short]
    · rw [placed'.getLogPath, placed.getLogPath]
    · rw [placed'.getLimitSize, placed.getLimitSize]
    · rw [placed'.isCompress, placed.isCompress, after _ _ (by omega)]

/-- `InitHeader` of the log at `/a`, on 64 bytes. -/
theorem placed_headerOfA :
    ∃ m, initHeader .lp64 (List.replicate 64 0) 64 (headerOfA false) = some m ∧
      Placed .lp64 m 64 [0x2f, 0x61] 1 0 := by
  obtain ⟨m₅, m, done, placed, -, -⟩ := initHeader_placed .lp64 (List.replicate 64 0) 64
    (headerOfA false) List.length_replicate (by decide) (by decide) rfl rfl (by decide) (by decide)
  exact ⟨m, done, placed⟩

/-- Of the 36 bytes of data, 35 read back. -/
theorem log_length_reads_back_iff_35 :
    ∃ m m', initHeader .lp64 (List.replicate 64 0) 64 (headerOfA false) = some m ∧
      setLogLen .lp64 m 35 = some m' ∧ LogLenKept .lp64 m m' 64 35 := by
  obtain ⟨m, done, placed⟩ := placed_headerOfA
  obtain ⟨m', set, kept⟩ := (log_length_reads_back_iff .lp64 m 64 [0x2f, 0x61] 1 0 35 placed
    (by decide)).mpr (by decide)
  exact ⟨m, m', done, set, kept⟩

/-- All 36 do not: a full buffer reads as an empty one. -/
theorem full_length_lost :
    ∃ m m', initHeader .lp64 (List.replicate 64 0) 64 (headerOfA false) = some m ∧
      36 ≤ 64 - calculateHeaderLen .lp64 2 ∧ setLogLen .lp64 m 36 = some m' ∧
      getLogLen .lp64 m' 64 = some 0 ∧ ¬ LogLenKept .lp64 m m' 64 36 := by
  obtain ⟨m, done, placed⟩ := placed_headerOfA
  obtain ⟨m', set, placed', -⟩ := placed.setLogLen (show 36 < Abi.lp64.modulus by decide)
  have zero : getLogLen .lp64 m' 64 = some 0 := placed'.getLogLen
  refine ⟨m, m', done, by decide, set, zero, fun kept => ?_⟩
  have := zero.symm.trans kept.logLen
  cases this

/-! ## Any bytes -/

section AnyBytes

variable {m : Bytes} {dataSize : Nat}

/-- The size that `WriteDirty2File` asks of a file before it looks for a header. -/
structure Sized (abi : Abi) (m : Bytes) (dataSize : Nat) : Prop where
  length : m.length = dataSize
  size_lt : dataSize < abi.modulus
  room : calculateHeaderLen abi 0 < dataSize

/-- The smallest header fits. -/
theorem Sized.extent (h : Sized abi m dataSize) :
    1 + abi.sizeofSizeT + abi.sizeofSizeT + abi.sizeofSizeT + 1 < m.length := by
  have := h.room
  rw [calculateHeaderLen_eq abi (by simp)] at this
  rw [h.length]
  omega

theorem Sized.isAvailable (h : Sized abi m dataSize) :
    isAvailable m = some (slice m 0 1 == [kMagicHeader]) := by
  have ext := h.extent
  rw [BufferHeader.isAvailable, load_eq (by omega)]
  rfl

/-- The path length that is answered is one for which the header fits. -/
theorem Sized.getLogPathLen (h : Sized abi m dataSize) :
    ∃ n, getLogPathLen abi m dataSize = some n ∧
      1 + abi.sizeofSizeT + abi.sizeofSizeT + n + abi.sizeofSizeT + 1 < dataSize := by
  have ext := h.extent
  have size := h.length
  have zero := calculateHeaderLen_eq abi (show 0 < 2 ^ 31 by simp)
  have sub := Abi.sub_of_le h.size_lt (Nat.le_of_lt h.room)
  simp only [BufferHeader.getLogPathLen, h.isAvailable, Option.bind_eq_bind, Option.bind_some, sub,
    loadWord_eq (show 1 + abi.sizeofSizeT + abi.sizeofSizeT ≤ m.length by omega)]
  split
  · refine ⟨_, rfl, ?_⟩
    split
    next valid => omega
    next => omega
  · exact ⟨0, rfl, by omega⟩

/-- The header length is inside the mapping. -/
theorem Sized.getHeaderLen (h : Sized abi m dataSize) :
    ∃ n, getHeaderLen abi m dataSize = some n ∧ n ≤ dataSize := by
  have small := h.size_lt
  obtain ⟨n, path, fits⟩ := h.getLogPathLen
  simp only [BufferHeader.getHeaderLen, h.isAvailable, path, Option.bind_eq_bind, Option.bind_some]
  split
  · exact ⟨_, rfl, by rw [calculateHeaderLen_of_lt (by omega)]; omega⟩
  · exact ⟨0, rfl, Nat.zero_le _⟩

/-- The log that is answered ends inside the mapping. -/
theorem Sized.getLogLen (h : Sized abi m dataSize) {headerLen : Nat}
    (header : BufferHeader.getHeaderLen abi m dataSize = some headerLen)
    (fits : headerLen ≤ dataSize) :
    ∃ n, getLogLen abi m dataSize = some n ∧ headerLen + n ≤ dataSize := by
  have ext := h.extent
  simp only [BufferHeader.getLogLen, h.isAvailable, header, Option.bind_eq_bind, Option.bind_some,
    loadWord_eq (show 1 + abi.sizeofSizeT ≤ m.length by omega), Abi.sub_of_le h.size_lt fits]
  split
  · refine ⟨_, rfl, ?_⟩
    split
    next valid => omega
    next => omega
  · exact ⟨0, rfl, fits⟩

/-- The path is read inside the mapping. -/
theorem Sized.getLogPath (h : Sized abi m dataSize) :
    ∃ path, getLogPath abi m dataSize = some path := by
  have size := h.length
  obtain ⟨n, path, fits⟩ := h.getLogPathLen
  simp only [BufferHeader.getLogPath, h.isAvailable, path, Option.bind_eq_bind, Option.bind_some,
    load_eq (show 1 + abi.sizeofSizeT + abi.sizeofSizeT + n ≤ m.length by omega)]
  split
  · split
    · exact ⟨_, rfl⟩
    · exact ⟨none, rfl⟩
  · exact ⟨none, rfl⟩

/-- So is the limit. -/
theorem Sized.getLimitSize (h : Sized abi m dataSize) :
    ∃ limit, getLimitSize abi m dataSize = some limit := by
  have size := h.length
  obtain ⟨n, path, fits⟩ := h.getLogPathLen
  simp only [BufferHeader.getLimitSize, h.isAvailable, path, Option.bind_eq_bind, Option.bind_some,
    loadWord_eq (show
      1 + abi.sizeofSizeT + abi.sizeofSizeT + n + abi.sizeofSizeT ≤ m.length by omega)]
  split
  · exact ⟨_, rfl⟩
  · exact ⟨0, rfl⟩

/-- So is the byte behind it. -/
theorem Sized.isCompress (h : Sized abi m dataSize) :
    ∃ compress, isCompress abi m dataSize = some compress := by
  have size := h.length
  obtain ⟨n, path, fits⟩ := h.getLogPathLen
  simp only [BufferHeader.isCompress, h.isAvailable, path, Option.bind_eq_bind, Option.bind_some,
    load_eq (show
      1 + abi.sizeofSizeT + abi.sizeofSizeT + n + abi.sizeofSizeT + 1 ≤ m.length by omega)]
  split
  · exact ⟨_, rfl⟩
  · exact ⟨false, rfl⟩

end AnyBytes

/-- **The readers are safe.** On both ABIs and for every content of a mapping larger than the smallest
header: each reader answers, so it read inside the mapping; what is subtracted from the size is at
most the size; and the data pointer, the write pointer and the end of the mapping are in this order. -/
theorem readers_safe (abi : Abi) (m : Bytes) (dataSize : Nat) (length : m.length = dataSize)
    (size_lt : dataSize < abi.modulus) (room : calculateHeaderLen abi 0 < dataSize) :
    ∃ headerLen pathLen logLen path limit compress dataPtr writePtr,
      getHeaderLen abi m dataSize = some headerLen ∧
      getLogPathLen abi m dataSize = some pathLen ∧
      getLogLen abi m dataSize = some logLen ∧
      getLogPath abi m dataSize = some path ∧
      getLimitSize abi m dataSize = some limit ∧
      isCompress abi m dataSize = some compress ∧
      calculateHeaderLen abi 0 ≤ dataSize ∧ headerLen ≤ dataSize ∧
      getDataPtr abi m dataSize = some dataPtr ∧ getWritePtr abi m dataSize = some writePtr ∧
      0 ≤ dataPtr ∧ dataPtr ≤ writePtr ∧ writePtr ≤ dataSize := by
  have sized : Sized abi m dataSize := ⟨length, size_lt, room⟩
  obtain ⟨pathLen, pathLenRead, -⟩ := sized.getLogPathLen
  obtain ⟨headerLen, header, headerFits⟩ := sized.getHeaderLen
  obtain ⟨logLen, log, logFits⟩ := sized.getLogLen header headerFits
  obtain ⟨path, pathRead⟩ := sized.getLogPath
  obtain ⟨limit, limitRead⟩ := sized.getLimitSize
  obtain ⟨compress, flagRead⟩ := sized.isCompress
  have write : getWritePtr abi m dataSize = some (headerLen + logLen) := by
    simp only [getWritePtr, header, log, Option.bind_eq_bind, Option.bind_some]
    rfl
  exact ⟨headerLen, pathLen, logLen, path, limit, compress, headerLen, headerLen + logLen, header,
    pathLenRead, log, pathRead, limitRead, flagRead, Nat.le_of_lt room, headerFits, header, write,
    Nat.zero_le _, Nat.le_add_right _ _, logFits⟩

/-- A file of 40 bytes `0x11` has a header whose lengths are all absurd. -/
theorem readers_safe_foreign :
    ∃ writePtr, getWritePtr .ilp32 (List.replicate 40 kMagicHeader) 40 = some writePtr ∧
      writePtr ≤ 40 := by
  obtain ⟨_, _, _, _, _, _, _, writePtr, -, -, -, -, -, -, -, -, -, write, -, -, inside⟩ :=
    readers_safe .ilp32 (List.replicate 40 kMagicHeader) 40 List.length_replicate (by decide)
      (by decide)
  exact ⟨writePtr, write, inside⟩

end Dolin.Zap.BufferHeader
