import Dolin.Laws.Zap.BufferFlush
import Dolin.Laws.Zap.BufferHeader
import Dolin.Zap.Buffer

/-!
# The representation of the log buffer

`Buffer.WF` is the representation invariant: the header is in place, `data_ptr` stands right
behind it, and the length of the live region is at once `write_ptr - data_ptr` and the log length
field of the mapping. Each function has one law that says what it makes of such a buffer; the laws
about runs cite these and never unfold a function.
-/

namespace Dolin.Zap.Buffer

open Region BufferHeader

variable {Z : Zlib} {abi : Abi}

/-! ## What every function leaves alone -/

/-- Two buffers with mappings of one length and kind, and the same size, file, flush pointer and
mode. -/
structure Frame (b b' : Buffer Z) : Prop where
  mem : b'.mem.length = b.mem.length
  bufferSize : b'.bufferSize = b.bufferSize
  logFilePtr : b'.logFilePtr = b.logFilePtr
  fileFlushPtr : b'.fileFlushPtr = b.fileFlushPtr
  compress : b'.compress = b.compress
  mapBuffer : b'.mapBuffer = b.mapBuffer

theorem Frame.refl (b : Buffer Z) : Frame b b := ⟨rfl, rfl, rfl, rfl, rfl, rfl⟩

theorem Frame.trans {b b' b'' : Buffer Z} (h : Frame b b') (h' : Frame b' b'') : Frame b b'' :=
  ⟨h'.mem.trans h.mem, h'.bufferSize.trans h.bufferSize, h'.logFilePtr.trans h.logFilePtr,
    h'.fileFlushPtr.trans h.fileFlushPtr, h'.compress.trans h.compress,
    h'.mapBuffer.trans h.mapBuffer⟩

theorem setLength_frame {b b' : Buffer Z} {n : Nat} (h : b.setLength abi n = some b') :
    Frame b b' := by
  obtain ⟨mem, hm, hb⟩ := Option.bind_eq_some_iff.mp h
  cases hb
  refine ⟨?_, rfl, rfl, rfl, rfl, rfl⟩
  obtain ⟨available, -, hs⟩ := Option.bind_eq_some_iff.mp hm
  split at hs
  · exact length_store hs
  · cases hs
    rfl

theorem publish_frame {b b' : Buffer Z} (h : b.publish abi = some b') : Frame b b' := by
  obtain ⟨len, -, h⟩ := Option.bind_eq_some_iff.mp h
  exact setLength_frame h

theorem initCompress_frame (b : Buffer Z) : Frame b (b.initCompress b.compress) := by
  unfold initCompress
  split
  next on => exact ⟨rfl, rfl, rfl, rfl, rfl, rfl⟩
  next off => exact ⟨rfl, rfl, rfl, rfl, rfl, rfl⟩

theorem restart_frame (b : Buffer Z) (len : Nat) : Frame b (b.restart len) := by
  unfold restart
  split
  · exact initCompress_frame b
  · exact Frame.refl b

theorem copyLog_frame {b : Buffer Z} {log : Bytes} {r : Buffer Z × Option Nat}
    (h : b.copyLog abi log = some r) : Frame b r.1 := by
  obtain ⟨free, -, h⟩ := Option.bind_eq_some_iff.mp h
  obtain ⟨w, -, h⟩ := Option.bind_eq_some_iff.mp h
  obtain ⟨mem, hm, h⟩ := Option.bind_eq_some_iff.mp h
  cases h
  exact ⟨length_store hm, rfl, rfl, rfl, rfl, rfl⟩

theorem deflateLog_frame {b : Buffer Z} {log : Bytes} {r : Buffer Z × Option Nat}
    (h : b.deflateLog abi log = some r) : Frame b r.1 := by
  obtain ⟨free, -, h⟩ := Option.bind_eq_some_iff.mp h
  obtain ⟨w, -, h⟩ := Option.bind_eq_some_iff.mp h
  split at h
  · cases h
    exact Frame.refl _
  · obtain ⟨mem, hm, h⟩ := Option.bind_eq_some_iff.mp h
    cases h
    exact ⟨length_store hm, rfl, rfl, rfl, rfl, rfl⟩

theorem putLog_frame {b : Buffer Z} {log : Bytes} {r : Buffer Z × Option Nat}
    (h : b.putLog abi log = some r) : Frame b r.1 := by
  obtain ⟨len, -, h⟩ := Option.bind_eq_some_iff.mp h
  dsimp only at h
  split at h
  · exact (restart_frame b len).trans (deflateLog_frame h)
  · exact (restart_frame b len).trans (copyLog_frame h)

theorem moveWritePtr_frame {b b' : Buffer Z} {n : Nat} (h : b.moveWritePtr n = some b') :
    Frame b b' := by
  obtain ⟨w, -, h⟩ := Option.bind_eq_some_iff.mp h
  cases h
  exact ⟨rfl, rfl, rfl, rfl, rfl, rfl⟩

theorem append_frame {b b' : Buffer Z} {log : Bytes} {n : Nat}
    (h : b.append abi log = some (b', n)) : Frame b b' := by
  obtain ⟨⟨b₁, size⟩, hp, h⟩ := Option.bind_eq_some_iff.mp h
  have first := putLog_frame hp
  cases size with
  | none =>
    cases h
    exact first
  | some size =>
    obtain ⟨b₂, hm, h⟩ := Option.bind_eq_some_iff.mp h
    obtain ⟨b₃, hs, h⟩ := Option.bind_eq_some_iff.mp h
    cases h
    exact first.trans ((moveWritePtr_frame hm).trans (publish_frame hs))

theorem rewind_frame (b : Buffer Z) : Frame b b.rewind := ⟨rfl, rfl, rfl, rfl, rfl, rfl⟩

theorem wipe_frame {b b' : Buffer Z} (h : b.wipe abi = some b') : Frame b b' := by
  obtain ⟨w, -, h⟩ := Option.bind_eq_some_iff.mp h
  obtain ⟨empty, -, h⟩ := Option.bind_eq_some_iff.mp h
  obtain ⟨mem, hm, h⟩ := Option.bind_eq_some_iff.mp h
  cases h
  exact ⟨length_store hm, rfl, rfl, rfl, rfl, rfl⟩

theorem clear_frame {b b' : Buffer Z} (h : b.clear abi = some b') : Frame b b' := by
  obtain ⟨b₁, hw, h⟩ := Option.bind_eq_some_iff.mp h
  exact (rewind_frame b).trans ((wipe_frame hw).trans (publish_frame h))

theorem endCompress_frame (b : Buffer Z) : Frame b b.endCompress := by
  unfold endCompress
  split
  · exact ⟨rfl, rfl, rfl, rfl, rfl, rfl⟩
  · exact Frame.refl b

theorem callFileFlush_frame {b b' : Buffer Z} {flush : Option FlushId} {release : Bool}
    {handed : Option BufferFlush}
    (h : b.callFileFlush abi flush release = some { buffer := some b', handed }) : Frame b b' := by
  have kept : ∀ {c : Called Z}, some { buffer := if release then none else some b } = some c →
      c.buffer = some b' → Frame b b' := by
    intro c hc hb
    cases hc
    cases release with
    | true => cases hb
    | false => cases hb; exact Frame.refl b
  simp only [callFileFlush] at h
  split at h
  · exact kept h rfl
  · obtain ⟨len, -, h⟩ := Option.bind_eq_some_iff.mp h
    split at h
    · obtain ⟨f, -, h⟩ := Option.bind_eq_some_iff.mp h
      obtain ⟨b₁, hc, h⟩ := Option.bind_eq_some_iff.mp h
      cases h
      exact (endCompress_frame b).trans (clear_frame hc)
    · exact kept h rfl

/-! ## The invariant -/

/-- The header is in place for `path` and `limit` and says that `len` bytes are live, and
`write_ptr` is `w` bytes behind `data_ptr`. -/
structure Parts (abi : Abi) (b : Buffer Z) (path : JString) (limit len w : Nat) : Prop where
  header : HeaderAt abi b.mem b.bufferSize path limit len
  dataPtr : b.dataPtr = some (calculateHeaderLen abi path.length)
  writePtr : b.writePtr = some (calculateHeaderLen abi path.length + w)
  bound : calculateHeaderLen abi path.length + w ≤ b.bufferSize

/-- **The representation invariant**: the buffer was last initialised with `path` and `limit`, and
its live region is `len` bytes long, by its pointers and by its header. -/
abbrev WF (abi : Abi) (b : Buffer Z) (path : JString) (limit len : Nat) : Prop :=
  Parts abi b path limit len len

/-- The bytes a buffer has for its live region. -/
def cap (abi : Abi) (b : Buffer Z) (path : JString) : Nat :=
  b.bufferSize - calculateHeaderLen abi path.length

namespace Parts

variable {b : Buffer Z} {path : JString} {limit len w : Nat}

theorem getLength (h : Parts abi b path limit len w) : b.getLength abi = some w := by
  have := h.bound
  have := h.header.size_lt
  rw [Buffer.getLength, h.writePtr, h.dataPtr, ptrDiff, Abi.sub_of_le (by omega) (by omega)]
  exact congrArg some (by omega)

theorem emptySize (h : Parts abi b path limit len w) :
    b.emptySize abi = some (b.bufferSize - (calculateHeaderLen abi path.length + w)) := by
  have := h.bound
  have := h.header.size_lt
  simp only [Buffer.emptySize, h.writePtr, ptrDiff, Option.bind_eq_bind, Option.bind_some]
  rw [Abi.sub_of_le (show _ < abi.modulus by omega) (Nat.zero_le _),
    Abi.sub_of_le h.header.size_lt (by omega)]
  rfl

theorem live_eq (h : Parts abi b path limit len w) :
    b.live = slice b.mem (calculateHeaderLen abi path.length) w := by
  simp only [live, h.dataPtr, h.writePtr, Nat.add_sub_cancel_left]

theorem length_live (h : Parts abi b path limit len w) : b.live.length = w := by
  rw [h.live_eq, length_slice]
  rw [h.header.length]
  exact h.bound

theorem getLogPath (h : Parts abi b path limit len w) :
    b.getLogPath abi = some (if path.utf8 = [] then none else some path.utf8) :=
  h.header.getLogPath

/-- `SetLength(GetLength())` brings the header in line with the pointers and touches nothing
behind it. -/
theorem publish (h : Parts abi b path limit len w) :
    ∃ b', b.publish abi = some b' ∧ WF abi b' path limit w ∧
      ∀ off k, calculateHeaderLen abi path.length ≤ off → slice b'.mem off k = slice b.mem off k := by
  have lt := h.header.size_lt
  have bound := h.bound
  obtain ⟨mem, hm, at', same⟩ := h.header.setLogLen (n := w) (by omega)
  exact ⟨{ b with mem }, Option.bind_eq_some_iff.mpr ⟨_, h.getLength,
    Option.bind_eq_some_iff.mpr ⟨_, hm, rfl⟩⟩, ⟨at', h.dataPtr, h.writePtr, bound⟩, same⟩

/-- `write_ptr += n` inside the mapping. -/
theorem moveWritePtr (h : Parts abi b path limit len w) {n : Nat}
    (fits : calculateHeaderLen abi path.length + w + n ≤ b.bufferSize) :
    ∃ b', b.moveWritePtr n = some b' ∧ Parts abi b' path limit len (w + n) ∧ b'.mem = b.mem ∧
      b'.zStream = b.zStream :=
  ⟨_, Option.bind_eq_some_iff.mpr ⟨_, h.writePtr, rfl⟩,
    ⟨h.header, h.dataPtr, congrArg some (Nat.add_assoc ..), by rw [← Nat.add_assoc]; exact fits⟩, rfl,
    rfl⟩

/-- A store behind the header at `write_ptr` keeps both lengths and what lies before it. -/
theorem store (h : Parts abi b path limit len w) (bs : Bytes)
    (fits : calculateHeaderLen abi path.length + w + bs.length ≤ b.bufferSize) :
    ∃ mem, Region.store b.mem (calculateHeaderLen abi path.length + w) bs = some mem ∧
      (∀ zStream : Option Z.Stream, Parts abi { b with mem, zStream } path limit len w) ∧
      slice mem (calculateHeaderLen abi path.length) w = b.live ∧
      slice mem (calculateHeaderLen abi path.length + w) bs.length = bs := by
  obtain ⟨mem, hm⟩ := store_ok b.mem (calculateHeaderLen abi path.length + w) bs
    (by rw [h.header.length]; exact fits)
  refine ⟨mem, hm, fun _ => ⟨h.header.store_behind hm (by omega), h.dataPtr, h.writePtr, h.bound⟩,
    ?_, slice_store_same hm⟩
  rw [h.live_eq]
  exact slice_store_other hm (by omega)

end Parts

namespace WF

variable {b : Buffer Z} {path : JString} {limit len : Nat}

/-- The end of `Append`: the write pointer and the log length field move together, over bytes that
are in place. -/
theorem advance (h : WF abi b path limit len) {n : Nat}
    (fits : calculateHeaderLen abi path.length + len + n ≤ b.bufferSize) :
    ∃ b₁ b', b.moveWritePtr n = some b₁ ∧ b₁.publish abi = some b' ∧ WF abi b' path limit (len + n) ∧
      b'.live = slice b.mem (calculateHeaderLen abi path.length) (len + n) ∧
      b'.zStream = b.zStream := by
  obtain ⟨b₁, hm, parts, mem, stream⟩ := h.moveWritePtr fits
  obtain ⟨b', hp, wf, kept⟩ := parts.publish
  refine ⟨b₁, b', hm, hp, wf, ?_, ?_⟩
  · rw [wf.live_eq, kept _ _ (Nat.le_refl _), mem]
  · obtain ⟨_, -, hp⟩ := Option.bind_eq_some_iff.mp hp
    obtain ⟨_, -, hp⟩ := Option.bind_eq_some_iff.mp hp
    cases hp
    exact stream

/-- Where it does not compress, `Append` first copies what fits of the message behind the live
region. -/
theorem putLog_plain (h : WF abi b path limit len) (plain : b.compress = false) (log : Bytes) :
    ∃ b' n, b.putLog abi log = some (b', some n) ∧ n = min log.length (b.cap abi path - len) ∧
      WF abi b' path limit len ∧
      slice b'.mem (calculateHeaderLen abi path.length) (len + n) = b.live ++ log.take n := by
  have bound := h.bound
  have same : b.restart len = b := by
    unfold restart initCompress
    cases b
    simp only at plain
    subst plain
    split
    · rfl
    · rfl
  let free := b.bufferSize - (calculateHeaderLen abi path.length + len)
  let n := if log.length ≤ free then log.length else free
  have hn : n = min log.length (b.cap abi path - len) := by
    simp only [n, free, cap]
    split <;> omega
  have taken : (log.take n).length = n := by
    rw [List.length_take]
    omega
  obtain ⟨mem, hm, parts, before, copied⟩ := h.store (log.take n)
    (by simp only [cap] at hn; omega)
  refine ⟨{ b with mem }, n, ?_, hn, parts b.zStream, ?_⟩
  · refine Option.bind_eq_some_iff.mpr ⟨_, h.getLength, ?_⟩
    rw [same, if_neg (by rw [plain]; exact Bool.false_ne_true)]
    exact Option.bind_eq_some_iff.mpr ⟨_, h.emptySize, Option.bind_eq_some_iff.mpr ⟨_, h.writePtr,
      Option.bind_eq_some_iff.mpr ⟨_, hm, rfl⟩⟩⟩
  · rw [slice_add, before]
    rw [taken] at copied
    rw [copied]

/-- `Append` without compression copies what fits of the message behind the live region. -/
theorem append_plain (h : WF abi b path limit len) (plain : b.compress = false) (log : Bytes) :
    ∃ b' n, b.append abi log = some (b', n) ∧ n = min log.length (b.cap abi path - len) ∧
      WF abi b' path limit (len + n) ∧ b'.live = b.live ++ log.take n := by
  obtain ⟨b₁, n, hput, hn, wf₁, stored⟩ := h.putLog_plain plain log
  have size := (putLog_frame hput).bufferSize
  dsimp only at size
  have bound := h.bound
  obtain ⟨b₂, b', hmove, hpub, wf, live, -⟩ := wf₁.advance (n := n)
    (by rw [size]; simp only [cap] at hn; omega)
  refine ⟨b', n, ?_, hn, wf, live.trans stored⟩
  exact Option.bind_eq_some_iff.mpr ⟨_, hput, Option.bind_eq_some_iff.mpr ⟨_, hmove,
    Option.bind_eq_some_iff.mpr ⟨_, hpub, rfl⟩⟩⟩

/-- `write_ptr = data_ptr` leaves the header behind. -/
theorem rewind (h : WF abi b path limit len) : Parts abi b.rewind path limit len 0 := by
  have bound := h.bound
  exact ⟨h.header, h.dataPtr, h.dataPtr, by show _ ≤ b.bufferSize; omega⟩

end WF

/-- The `memset` of `Clear`, once `write_ptr` is back at `data_ptr`. -/
theorem Parts.wipe {b : Buffer Z} {path : JString} {limit len : Nat}
    (h : Parts abi b path limit len 0) :
    ∃ b', b.wipe abi = some b' ∧ Parts abi b' path limit len 0 := by
  have bound := h.bound
  obtain ⟨mem, hm, parts, -, -⟩ := h.store
    (List.replicate (b.bufferSize - (calculateHeaderLen abi path.length + 0)) 0)
    (by rw [List.length_replicate]; omega)
  exact ⟨{ b with mem }, Option.bind_eq_some_iff.mpr ⟨_, h.writePtr, Option.bind_eq_some_iff.mpr
    ⟨_, h.emptySize, Option.bind_eq_some_iff.mpr ⟨_, hm, rfl⟩⟩⟩, parts b.zStream⟩

namespace WF

variable {b : Buffer Z} {path : JString} {limit len : Nat}

/-- `Clear` empties the live region. -/
theorem clear (h : WF abi b path limit len) :
    ∃ b', b.clear abi = some b' ∧ WF abi b' path limit 0 := by
  obtain ⟨b₁, hw, parts⟩ := h.rewind.wipe
  obtain ⟨b', hp, wf, -⟩ := parts.publish
  exact ⟨b', Option.bind_eq_some_iff.mpr ⟨_, hw, hp⟩, wf⟩

/-- A new stream is no part of the representation. -/
theorem restart (h : WF abi b path limit len) (n : Nat) :
    WF abi (b.restart n) path limit len ∧ (b.restart n).live = b.live := by
  unfold Buffer.restart initCompress
  split
  · split
    · exact ⟨⟨h.header, h.dataPtr, h.writePtr, h.bound⟩, rfl⟩
    · exact ⟨⟨h.header, h.dataPtr, h.writePtr, h.bound⟩, rfl⟩
  · exact ⟨h, rfl⟩

/-- Where it compresses, `Append` first calls `deflate`, on the stream it restarted or found. -/
theorem putLog_compress (h : WF abi b path limit len) (mode : b.compress = true) (log : Bytes) :
    b.putLog abi log = (b.restart len).deflateLog abi log := by
  rw [Buffer.putLog, h.getLength]
  exact if_pos ((restart_frame b len).compress.trans mode)

/-- `deflate` on an open stream puts what it delivers behind the live region. Where it answers
`Z_OK`, `write_size` is `free_size - avail_out`. -/
theorem deflateLog (h : WF abi b path limit len) (log : Bytes) {stream : Z.Stream}
    (open_ : b.zStream = some stream) :
    let free := b.bufferSize - (calculateHeaderLen abi path.length + len)
    let r := Z.deflate stream (log.take (log.length % 2 ^ 32)) (free % 2 ^ 32)
    ∃ b', b.deflateLog abi log =
        some (b', if r.ok then some (free - (free % 2 ^ 32 - r.out.length)) else none) ∧
      WF abi b' path limit len ∧ b'.zStream = some r.next ∧
      slice b'.mem (calculateHeaderLen abi path.length) (len + r.out.length) = b.live ++ r.out := by
  intro free r
  have bound := h.bound
  have lt := h.header.size_lt
  have delivered : r.out.length ≤ free % 2 ^ 32 := Z.out_le ..
  have mod_le : free % 2 ^ 32 ≤ free := Nat.mod_le ..
  have size : abi.sub free (free % 2 ^ 32 - r.out.length) =
      free - (free % 2 ^ 32 - r.out.length) := Abi.sub_of_le (by omega) (by omega)
  obtain ⟨mem, hm, parts, before, put⟩ := h.store r.out (by omega)
  refine ⟨{ b with mem, zStream := some r.next }, ?_, parts (some r.next), rfl, ?_⟩
  · refine Option.bind_eq_some_iff.mpr ⟨_, h.emptySize, Option.bind_eq_some_iff.mpr ⟨_, h.writePtr, ?_⟩⟩
    rw [open_, ← size]
    exact Option.bind_eq_some_iff.mpr ⟨_, hm, rfl⟩
  · rw [slice_add, before, put]

/-- `Append` keeps the representation in either mode, whatever zlib answers. -/
theorem append (h : WF abi b path limit len) (log : Bytes) :
    ∃ b' n, b.append abi log = some (b', n) ∧ WF abi b' path limit (len + n) := by
  by_cases plain : b.compress = false
  · obtain ⟨b', n, he, -, wf, -⟩ := h.append_plain plain log
    exact ⟨b', n, he, wf⟩
  · obtain ⟨wf, -⟩ := h.restart len
    have hput := h.putLog_compress (Bool.eq_true_of_not_eq_false plain) log
    cases hs : (b.restart len).zStream with
    | none =>
      refine ⟨_, 0, ?_, wf⟩
      have closed : (b.restart len).deflateLog abi log = some (b.restart len, none) := by
        refine Option.bind_eq_some_iff.mpr ⟨_, wf.emptySize, Option.bind_eq_some_iff.mpr
          ⟨_, wf.writePtr, ?_⟩⟩
        rw [hs]
        rfl
      exact Option.bind_eq_some_iff.mpr ⟨_, hput.trans closed, rfl⟩
    | some stream =>
      obtain ⟨b₁, hd, wf₁, -, -⟩ := wf.deflateLog log hs
      have size := (deflateLog_frame hd).bufferSize
      dsimp only at size
      split at hd
      next =>
        have bound := wf.bound
        let free := (b.restart len).bufferSize - (calculateHeaderLen abi path.length + len)
        let r := Z.deflate stream (log.take (log.length % 2 ^ 32)) (free % 2 ^ 32)
        obtain ⟨b₂, b', hmove, hpub, wf', -, -⟩ := wf₁.advance
          (n := free - (free % 2 ^ 32 - r.out.length)) (by rw [size]; omega)
        exact ⟨b', _, Option.bind_eq_some_iff.mpr ⟨_, hput.trans hd, Option.bind_eq_some_iff.mpr
          ⟨_, hmove, Option.bind_eq_some_iff.mpr ⟨_, hpub, rfl⟩⟩⟩, wf'⟩
      next => exact ⟨b₁, 0, Option.bind_eq_some_iff.mpr ⟨_, hput.trans hd, rfl⟩, wf₁⟩

/-- The flush taken from a live region carries it to the open log file. -/
theorem takeFlush (h : WF abi b path limit len) (release : Bool) :
    ∃ f, b.takeFlush abi len release = some f ∧ f.payload = b.live ∧ f.getLength = len ∧
      f.logFilePtr = b.logFilePtr ∧ f.release = release := by
  have size := h.header.size_lt
  have bound := h.bound
  have loaded : load b.mem (calculateHeaderLen abi path.length) len = some b.live := by
    rw [h.live_eq]
    exact load_eq (by rw [h.header.length]; exact bound)
  obtain ⟨f, hf, hpay, hlen, hfile, -, -⟩ := BufferFlush.write_fresh abi b.logFilePtr
    (if path.utf8 = [] then none else some path.utf8) b.live
    (by rw [h.length_live]; omega)
  refine ⟨f.releaseThiz release, ?_, hpay, hlen.trans h.length_live, hfile, rfl⟩
  exact Option.bind_eq_some_iff.mpr ⟨_, h.getLogPath, Option.bind_eq_some_iff.mpr ⟨_, h.dataPtr,
    Option.bind_eq_some_iff.mpr ⟨_, loaded, Option.bind_eq_some_iff.mpr ⟨_, hf, rfl⟩⟩⟩⟩

/-- With nothing live `CallFileFlush` hands nothing over, and deletes the buffer it was given. -/
theorem callFileFlush_empty (h : WF abi b path limit 0) (flush : FlushId) (release : Bool) :
    b.callFileFlush abi (some flush) release =
      some { buffer := if release then none else some b } :=
  Option.bind_eq_some_iff.mpr ⟨_, h.getLength, rfl⟩

/-- With a live region `CallFileFlush` hands it over as one flush and clears it. -/
theorem callFileFlush_live (h : WF abi b path limit len) (pos : 0 < len) (flush : FlushId)
    (release : Bool) :
    ∃ b' f, b.callFileFlush abi (some flush) release =
        some { buffer := some b', handed := some f } ∧
      WF abi b' path limit 0 ∧ f.payload = b.live ∧ f.getLength = len ∧
      f.logFilePtr = b.logFilePtr ∧ f.release = release := by
  have ended : WF abi b.endCompress path limit len ∧ b.endCompress.live = b.live := by
    unfold endCompress
    split
    · exact ⟨⟨h.header, h.dataPtr, h.writePtr, h.bound⟩, rfl⟩
    · exact ⟨h, rfl⟩
  obtain ⟨wf, live⟩ := ended
  obtain ⟨f, hf, hpay, hlen, hfile, hrel⟩ := wf.takeFlush release
  obtain ⟨b', hc, wf'⟩ := wf.clear
  refine ⟨b', f, ?_, wf', hpay.trans live, hlen, hfile.trans (endCompress_frame b).logFilePtr, hrel⟩
  refine Option.bind_eq_some_iff.mpr ⟨_, h.getLength, (if_pos pos).trans ?_⟩
  exact Option.bind_eq_some_iff.mpr ⟨_, hf, Option.bind_eq_some_iff.mpr ⟨_, hc, rfl⟩⟩

/-- Whatever the flush pointer, `CallFileFlush` without a release keeps the representation. -/
theorem callFileFlush (h : WF abi b path limit len) (flush : Option FlushId) :
    ∃ b' handed len', b.callFileFlush abi flush false = some { buffer := some b', handed } ∧
      WF abi b' path limit len' := by
  cases flush with
  | none => exact ⟨b, none, len, rfl, h⟩
  | some flush =>
    by_cases pos : 0 < len
    · obtain ⟨b', f, hc, wf, -, -, -, -⟩ := h.callFileFlush_live pos flush false
      exact ⟨b', some f, 0, hc, wf⟩
    · have zero : len = 0 := by omega
      subst zero
      exact ⟨b, none, 0, h.callFileFlush_empty flush false, h⟩

end WF

/-! ## `InitData` -/

/-- What `InitData` leaves alone, and the mode and the file it sets. -/
structure Reset (b b' : Buffer Z) (compress : Bool) (file : Option FILE) : Prop where
  mem : b'.mem.length = b.mem.length
  bufferSize : b'.bufferSize = b.bufferSize
  fileFlushPtr : b'.fileFlushPtr = b.fileFlushPtr
  mapBuffer : b'.mapBuffer = b.mapBuffer
  compress : b'.compress = compress
  logFilePtr : b'.logFilePtr = file.or b.logFilePtr

theorem pointed_reset (b : Buffer Z) (compress : Bool) (d w : Nat) (file : Option FILE) :
    Reset b (b.pointed compress d w file) compress file := by
  cases compress <;> cases file <;> exact ⟨rfl, rfl, rfl, rfl, rfl, rfl⟩

theorem pointed_eq (b : Buffer Z) (compress : Bool) (d w : Nat) (file : Option FILE) :
    (b.pointed compress d w file).mem = b.mem ∧
      (b.pointed compress d w file).dataPtr = some d ∧
      (b.pointed compress d w file).writePtr = some w := by
  cases compress <;> cases file <;> exact ⟨rfl, rfl, rfl⟩

/-- `InitData` step by step: the mapping is zeroed, the header is written, and the pointers are taken
from it. -/
theorem initData_inv {b b' : Buffer Z} {path : JString} {limit : Nat} {compress : Bool}
    {file : Option FILE} (h : b.initData abi path limit compress file = some b') :
    ∃ m mem d w, fill b.mem 0 b.bufferSize 0 = some m ∧
      initHeader abi m b.bufferSize
        ⟨kMagicHeader, 0, path.length, path.utf8, compress, limit⟩ = some mem ∧
      getDataPtr abi mem b.bufferSize = some d ∧ getWritePtr abi mem b.bufferSize = some w ∧
      b' = { b with mem }.pointed compress d w file := by
  obtain ⟨m, hfill, h⟩ := Option.bind_eq_some_iff.mp h
  obtain ⟨mem, hh, h⟩ := Option.bind_eq_some_iff.mp h
  obtain ⟨d, hd, h⟩ := Option.bind_eq_some_iff.mp h
  obtain ⟨w, hw, h⟩ := Option.bind_eq_some_iff.mp h
  cases h
  exact ⟨m, mem, d, w, hfill, hh, hd, hw, rfl⟩

theorem initData_reset {b b' : Buffer Z} {path : JString} {limit : Nat} {compress : Bool}
    {file : Option FILE} (h : b.initData abi path limit compress file = some b') :
    Reset b b' compress file := by
  obtain ⟨m, mem, d, w, hfill, hh, -, -, rfl⟩ := initData_inv h
  have reset := pointed_reset { b with mem } compress d w file
  exact ⟨reset.mem.trans ((length_initHeader hh).trans (length_store hfill)), reset.bufferSize,
    reset.fileFlushPtr, reset.mapBuffer, reset.compress, reset.logFilePtr⟩

/-- `InitData` empties the live region, whatever the path. -/
theorem initData_empties {b b' : Buffer Z} {path : JString} {limit : Nat} {compress : Bool}
    {file : Option FILE} (h : b.initData abi path limit compress file = some b')
    (hm : b.mem.length = b.bufferSize) : b'.live = [] := by
  obtain ⟨m, mem, d, w, hfill, hh, hd, hw, rfl⟩ := initData_inv h
  rw [← hm] at hfill
  have zeros := fill_all hfill
  subst zeros
  have same := getWritePtr_of_zero (initHeader_logLen_zero hh rfl) hd hw
  subst same
  obtain ⟨-, data, write⟩ := pointed_eq { b with mem } compress w w file
  simp only [live, data, write, Nat.sub_self, slice_zero]

/-- `InitData` on a mapping with room for the path's header establishes the representation, with
an empty live region. -/
theorem initData_wf (b : Buffer Z) (path : JString) {limit : Nat} (compress : Bool)
    (file : Option FILE) (hm : b.mem.length = b.bufferSize) (size_lt : b.bufferSize < abi.modulus)
    (room : calculateHeaderLen abi path.length + abi.sizeofSizeT ≤ b.bufferSize)
    (hlimit : limit < abi.modulus) :
    ∃ b', b.initData abi path limit compress file = some b' ∧ WF abi b' path limit 0 := by
  have big := abi.two_pow_32_le_modulus
  obtain ⟨m, hfill⟩ := store_ok b.mem 0 (List.replicate b.bufferSize 0)
    (by rw [List.length_replicate]; omega)
  obtain ⟨mem, hh, at'⟩ := initHeader_at abi m b.bufferSize path
    ⟨kMagicHeader, 0, path.length, path.utf8, compress, limit⟩
    ((length_store hfill).trans hm) size_lt room rfl rfl rfl (by show 0 < _; omega) hlimit
  obtain ⟨hdata, hwrite⟩ := at'.pointers
  have size := (pointed_reset { b with mem } compress (calculateHeaderLen abi path.length)
    (calculateHeaderLen abi path.length) file).bufferSize
  obtain ⟨kept, data, write⟩ := pointed_eq { b with mem } compress
    (calculateHeaderLen abi path.length) (calculateHeaderLen abi path.length) file
  refine ⟨_, Option.bind_eq_some_iff.mpr ⟨_, hfill, Option.bind_eq_some_iff.mpr ⟨_, hh,
    Option.bind_eq_some_iff.mpr ⟨_, hdata, Option.bind_eq_some_iff.mpr ⟨_, hwrite, rfl⟩⟩⟩⟩, ?_, data,
    write, ?_⟩
  · rw [kept, size]
    exact at'
  · rw [size]
    show _ ≤ b.bufferSize
    omega

/-- A rotation without `file_flush_ptr` hands nothing over: it is `InitData` alone. -/
theorem expLogPath_eq {b : Buffer Z} (unset : b.fileFlushPtr = none) (path : JString) (limit : Nat)
    (file : Option FILE) :
    b.expLogPath abi path limit file =
      (b.initData abi path limit b.compress file).map fun b' => { buffer := some b' } := by
  have stored : b.flushStored abi = some { buffer := some b } := by
    unfold flushStored
    split
    · rw [unset]
      rfl
    · rfl
  simp only [expLogPath, stored, Option.bind_eq_bind, Option.bind_some]
  cases b.initData abi path limit b.compress file with
  | none => rfl
  | some b' => rfl

theorem expLogPath_unset {b : Buffer Z} {path : JString} {limit : Nat} {file : Option FILE}
    {called : Called Z} (unset : b.fileFlushPtr = none)
    (h : b.expLogPath abi path limit file = some called) :
    ∃ b', b.initData abi path limit b.compress file = some b' ∧
      called = { buffer := some b', handed := none } := by
  rw [expLogPath_eq unset] at h
  obtain ⟨b', hi, rfl⟩ := Option.map_eq_some_iff.mp h
  exact ⟨b', hi, rfl⟩

/-- A flush is bound to the file that the buffer has open, and has an allocation of its own with as
many bytes as were taken. -/
theorem takeFlush_inv {b : Buffer Z} {len : Nat} {release : Bool} {f : BufferFlush}
    (h : b.takeFlush abi len release = some f) :
    f.logFilePtr = b.logFilePtr ∧ f.data ≠ none ∧ f.getLength = len := by
  obtain ⟨path, -, h⟩ := Option.bind_eq_some_iff.mp h
  obtain ⟨d, -, h⟩ := Option.bind_eq_some_iff.mp h
  obtain ⟨live, loaded, h⟩ := Option.bind_eq_some_iff.mp h
  obtain ⟨f', written, h⟩ := Option.bind_eq_some_iff.mp h
  cases h
  obtain ⟨made, length⟩ := BufferFlush.getLength_of_write rfl written
  exact ⟨(BufferFlush.write_keeps written).1, made, length.trans (length_load loaded)⟩

end Dolin.Zap.Buffer
