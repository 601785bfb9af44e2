import Dolin.Laws.Zap.Native

/-!
# Compressed logs

In compress mode the only test for space, in `WriteNative`, compares the free space with the plain
message. `Append` consumes the space of its chunk, and a chunk may be longer than its message. Where
every chunk fits, each payload is the complete chunks of the messages since the last flush, and the
log inflates to the messages. A chunk that does not fit is cut at the end of the mapping: the next
flush hands over the cut chunk and ends the stream that holds the rest of it.
-/

namespace Dolin.Zap

open Region BufferHeader Machine

variable {Z : Zlib} {abi : Abi}

/-- `Append` of a message whose chunk fits puts the chunk behind the live region. -/
theorem Buffer.WF.append_chunk {b : Buffer Z} {path : JString} {limit len : Nat} (S : SyncFlush Z)
    (h : b.WF abi path limit len) (mode : b.compress = true) (msg : JString) {s : Z.Stream}
    (stream : (b.restart len).zStream = some s) (flushed : S.Flushed s)
    (small : b.bufferSize - (calculateHeaderLen abi path.length + len) < 2 ^ 32) {chunk : Bytes}
    (made : S.chunk s msg.utf8 = some chunk)
    (fits : chunk.length ≤ b.bufferSize - (calculateHeaderLen abi path.length + len)) :
    ∃ b' n, b.append abi msg.utf8 = some (b', n) ∧
      b'.WF abi path limit (len + chunk.length) ∧ b'.live = b.live ++ chunk ∧
      b'.zStream = some (Z.deflate s msg.utf8
        (b.bufferSize - (calculateHeaderLen abi path.length + len))).next := by
  obtain ⟨wf, live⟩ := h.restart len
  have size := (Buffer.restart_frame b len).bufferSize
  have whole : msg.utf8.take (msg.utf8.length % 2 ^ 32) = msg.utf8 := by
    have := msg.length_lt
    rw [Nat.mod_eq_of_lt (by omega), List.take_length]
  obtain ⟨b₁, hd, wf₁, next, put⟩ := wf.deflateLog msg.utf8 stream
  have size₁ : b₁.bufferSize = b.bufferSize := (Buffer.deflateLog_frame hd).bufferSize.trans size
  rw [size, whole, Nat.mod_eq_of_lt small] at hd next put
  obtain ⟨ok, out, -⟩ := S.deflate _ _ _ _ flushed made fits
  have moved : b.bufferSize - (calculateHeaderLen abi path.length + len) -
      (b.bufferSize - (calculateHeaderLen abi path.length + len) - chunk.length) =
      chunk.length := by omega
  -- with `Z_OK` and the whole chunk delivered, `free_size - avail_out` is the chunk's length
  rw [if_pos ok, out, moved] at hd
  rw [out] at put
  have bound := h.bound
  obtain ⟨b₂, b', hmove, hpub, wf', live', stream'⟩ := wf₁.advance (n := chunk.length) (by omega)
  refine ⟨b', chunk.length, ?_, wf', ?_, stream'.trans next⟩
  · exact Option.bind_eq_some_iff.mpr ⟨_, (h.putLog_compress mode _).trans hd,
      Option.bind_eq_some_iff.mpr ⟨_, hmove, Option.bind_eq_some_iff.mpr ⟨_, hpub, rfl⟩⟩⟩
  · rw [live', put, live]

/-- Deflate makes a chunk of a message, and it fits the space that `Append` will find: all of it where
the buffer is empty or `WriteNative` flushes first, and then the stream is fresh; else the free
space. -/
def ChunkFits (abi : Abi) (S : SyncFlush Z) (p : Process Z) : LogCall → Prop
  | .write msg => ∀ free, p.buffer.emptySize abi = some free →
      if free ≤ msg.length ∨ p.buffer.live = [] then
        S.Fits S.fresh msg.utf8 (free + p.buffer.live.length)
      else ∀ s, p.buffer.zStream = some s → S.Fits s msg.utf8 free
  | .asyncFlush => True

/-- The messages so far, after one more call. -/
def LogCall.logged (msgs : List Bytes) : LogCall → List Bytes
  | .write msg => msgs ++ [msg.utf8]
  | .asyncFlush => msgs

theorem LogCall.foldl_logged (calls : List LogCall) (msgs : List Bytes) :
    calls.foldl LogCall.logged msgs = msgs ++ LogCall.messages calls := by
  induction calls generalizing msgs with
  | nil => exact (List.append_nil _).symm
  | cons call calls ih =>
    cases call with
    | write msg => rw [List.foldl_cons, ih, logged, messages, List.append_assoc]; rfl
    | asyncFlush => exact ih msgs

/-- A process in compress mode has logged `msgs`: one group of them for each payload, which is their
complete chunks, and one for the live region, on whose stream the next `Append` goes on. -/
structure Compresses (abi : Abi) (S : SyncFlush Z) (path : JString) (limit cap : Nat)
    (p : Process Z) (msgs : List Bytes) : Prop where
  wf : p.buffer.WF abi path limit p.buffer.live.length
  mode : p.buffer.compress = true
  flush : ∃ flush, p.pFileFlush = some flush
  size : p.buffer.bufferSize = cap + calculateHeaderLen abi path.length
  encoded : ∃ (groups : List (List Bytes)) (rest : List Bytes) (s : Z.Stream),
    msgs = groups.flatten ++ rest ∧
    S.Payloads (p.enqueued.map BufferFlush.payload) groups ∧
    S.Encoded rest p.buffer.live s ∧ (rest ≠ [] → p.buffer.zStream = some s)

namespace Compresses

variable {S : SyncFlush Z} {path : JString} {limit cap : Nat} {p : Process Z} {msgs : List Bytes}

/-- The free space `WriteNative` compares the message with. -/
theorem emptySize (h : Compresses abi S path limit cap p msgs) :
    p.buffer.emptySize abi = some (cap - p.buffer.live.length) := by
  rw [h.wf.emptySize, h.size]
  exact congrArg some (by omega)

/-- A flush closes the group of the live region. -/
theorem callFileFlush (h : Compresses abi S path limit cap p msgs) :
    ∃ p', p.callFileFlush abi = some p' ∧ Compresses abi S path limit cap p' msgs ∧
      p'.buffer.live = [] := by
  obtain ⟨flush, hf⟩ := h.flush
  obtain ⟨p', hp, wf, sent, frame, kept⟩ := Process.callFileFlush_wf h.wf hf
  obtain ⟨groups, rest, s, split, payloads, live, -⟩ := h.encoded
  have empty : p'.buffer.live = [] := List.length_eq_zero_iff.mp wf.length_live
  refine ⟨p', hp, ⟨?_, frame.compress.trans h.mode, ⟨flush, kept.trans hf⟩,
    frame.bufferSize.trans h.size, ?_⟩, empty⟩
  · rw [empty]
    exact wf
  · by_cases nil : rest = []
    · refine ⟨groups, [], S.fresh, by rw [split, nil], ?_, ?_, fun ne => absurd rfl ne⟩
      · rw [sent, Process.flushed, if_pos (live.nil_iff.mp nil), List.append_nil]
        exact payloads
      · rw [empty]
        exact .fresh
    · refine ⟨groups ++ [rest], [], S.fresh, by simp [split], ?_, ?_, fun ne => absurd rfl ne⟩
      · rw [sent, Process.flushed, if_neg (fun e => nil (live.nil_iff.mpr e))]
        exact List.rel_append payloads (.cons ⟨s, live⟩ .nil)
      · rw [empty]
        exact .fresh

/-- `Append` of a message whose chunk fits adds the message to the group of the live region. -/
theorem append (h : Compresses abi S path limit cap p msgs) (small : cap < 2 ^ 32) (msg : JString)
    (fits : if p.buffer.live = [] then S.Fits S.fresh msg.utf8 cap
      else ∀ s, p.buffer.zStream = some s → S.Fits s msg.utf8 (cap - p.buffer.live.length)) :
    ∃ b' n, p.buffer.append abi msg.utf8 = some (b', n) ∧
      Compresses abi S path limit cap { p with buffer := b' } (msgs ++ [msg.utf8]) := by
  obtain ⟨groups, rest, s, split, payloads, live, stream⟩ := h.encoded
  have free : p.buffer.bufferSize - (calculateHeaderLen abi path.length + p.buffer.live.length) =
      cap - p.buffer.live.length := by
    rw [h.size]
    omega
  -- an empty region restarts the stream, which is then fresh as the group's is
  have next : (p.buffer.restart p.buffer.live.length).zStream = some s ∧
      S.Fits s msg.utf8 (cap - p.buffer.live.length) := by
    unfold Buffer.restart
    by_cases nil : p.buffer.live = []
    · rw [if_pos nil] at fits
      have none_yet := live.nil_iff.mpr nil
      subst none_yet
      rw [if_pos (by rw [nil]; rfl), Buffer.initCompress, if_pos h.mode, live.eq_fresh rfl, nil]
      exact ⟨S.deflateInit2, fits⟩
    · rw [if_neg nil] at fits
      have open_ := stream (fun e => nil (live.nil_iff.mp e))
      rw [if_neg (fun e => nil (List.length_eq_zero_iff.mp e))]
      exact ⟨open_, fits s open_⟩
  obtain ⟨restarted, chunk, made, room⟩ := next
  obtain ⟨b', n, ha, wf, live', stream'⟩ := h.wf.append_chunk S h.mode msg restarted live.flushed
    (by omega) made (by rw [free]; exact room)
  have frame := Buffer.append_frame ha
  refine ⟨b', n, ha, ⟨?_, frame.compress.trans h.mode, h.flush, frame.bufferSize.trans h.size,
    groups, rest ++ [msg.utf8], _, ?_, payloads, ?_, fun _ => stream'⟩⟩
  · show b'.WF abi path limit b'.live.length
    rw [live', List.length_append]
    exact wf
  · rw [split, List.append_assoc]
  · show S.Encoded (rest ++ [msg.utf8]) b'.live _
    rw [live', free]
    exact live.deflate msg.utf8 _ made room

/-- **The step**: every call whose chunk fits completes and logs its message. -/
theorem logStep (h : Compresses abi S path limit cap p msgs) (small : cap < 2 ^ 32) (call : LogCall)
    (fits : ChunkFits abi S p call) :
    ∃ p', logStep abi p call = some p' ∧
      Compresses abi S path limit cap p' (call.logged msgs) := by
  have hf : p.pFileFlush.isSome = true := by
    obtain ⟨flush, hf⟩ := h.flush
    rw [hf]
    rfl
  cases call with
  | write msg =>
    have bound : p.buffer.live.length ≤ cap := by
      have := h.wf.bound
      rw [h.size] at this
      omega
    have room := fits _ h.emptySize
    rw [show cap - p.buffer.live.length + p.buffer.live.length = cap by omega] at room
    by_cases full : cap - p.buffer.live.length ≤ msg.length
    · obtain ⟨p₁, hp₁, h₁, empty⟩ := h.callFileFlush
      rw [if_pos (Or.inl full)] at room
      obtain ⟨b', n, ha, h₂⟩ := h₁.append small msg (by rw [if_pos empty]; exact room)
      have made : p.makeRoom abi msg = some p₁ :=
        Option.bind_eq_some_iff.mpr ⟨_, h.emptySize, (if_pos ⟨full, hf⟩).trans hp₁⟩
      exact ⟨_, Option.bind_eq_some_iff.mpr ⟨_, made, Option.bind_eq_some_iff.mpr ⟨_, ha, rfl⟩⟩, h₂⟩
    · simp only [full, false_or] at room
      obtain ⟨b', n, ha, h₂⟩ := h.append small msg room
      have made : p.makeRoom abi msg = some p :=
        Option.bind_eq_some_iff.mpr ⟨_, h.emptySize, if_neg (fun t => full t.1)⟩
      exact ⟨_, Option.bind_eq_some_iff.mpr ⟨_, made, Option.bind_eq_some_iff.mpr ⟨_, ha, rfl⟩⟩, h₂⟩
  | asyncFlush =>
    obtain ⟨p', hp, h', -⟩ := h.callFileFlush
    exact ⟨p', (if_pos hf).trans hp, h'⟩

end Compresses

/-- What a compressed log promises for the messages so far. They fall into consecutive groups, one
for each payload and one that is still live. A payload is the complete chunks of its group, one for
each message and in order. Inflating the payloads in order gives their messages. -/
def Process.Decodes (S : SyncFlush Z) (inflate : Bytes → Bytes) (p : Process Z)
    (msgs : List Bytes) : Prop :=
  ∃ (groups : List (List Bytes)) (rest : List Bytes),
    msgs = groups.flatten ++ rest ∧
    S.Payloads (p.enqueued.map BufferFlush.payload) groups ∧
    (∃ s, S.Encoded rest p.buffer.live s) ∧
    inflate (p.enqueued.map BufferFlush.payload).flatten = groups.flatten.flatten

/-- **Compressed logs decode where every chunk fits.** Of every list of `WriteNative` and
`AsyncFlushNative` calls on a buffer of `cap` bytes behind the header, each of whose chunks fits the
space left after `WriteNative`'s test, the calls complete and the log decodes. -/
theorem compressed_decodes (abi : Abi) (Z : Zlib) (S : SyncFlush Z) (inflate : Bytes → Bytes)
    (inflates : S.Inflates inflate) (sys : SysCalls) (file : Bytes) (args : InitArgs)
    (p₀ : Process Z) (cap : Nat) (init : initNative abi Z sys file args = some p₀)
    (mode : args.compress = true) (capacity : args.capacity.toInt = cap)
    (size : args.bufferSize abi = cap + calculateHeaderLen abi args.logPath.length)
    (calls : List LogCall) (fits : Meets (logStep abi) (ChunkFits abi S) p₀ calls) :
    ∃ p, run (logStep abi) p₀ calls = some p ∧
      p.Decodes S inflate (LogCall.messages calls) := by
  have small : cap < 2 ^ 32 := by
    have := args.capacity.toInt_lt
    omega
  have started := initNative_started init (initNative_room init size)
  have empty : p₀.buffer.live = [] := List.length_eq_zero_iff.mp started.wf.length_live
  have start : Compresses abi S args.logPath (abi.ofInt args.limitSize.toInt) cap p₀ [] := by
    refine ⟨by rw [empty]; exact started.wf, started.compress.trans mode, ⟨_, started.flush⟩,
      started.size.trans size, [], [], S.fresh, rfl, ?_, ?_, fun ne => absurd rfl ne⟩
    · rw [started.enqueued]
      exact .nil
    · rw [empty]
      exact .fresh
  obtain ⟨p, hp, h⟩ := run_refines_of_meets (fun p msgs call fits h => h.logStep small call fits)
    start fits
  rw [LogCall.foldl_logged, List.nil_append] at h
  obtain ⟨groups, rest, s, split, payloads, live, -⟩ := h.encoded
  exact ⟨p, hp, groups, rest, split, payloads, ⟨s, live⟩, inflates _ _ payloads⟩

/-- A capacity of nine bytes holds the seven bytes that zlib makes of `a`. -/
theorem compressed_decodes_once :
    ∃ p₀ : Process blocks, initNative .lp64 blocks {} [] (sampleArgs 9 true) = some p₀ ∧
      ∃ p, run (logStep .lp64) p₀ [.write sampleA, .asyncFlush] = some p ∧
        p.Decodes blocksSync inflateBlocks [sampleA.utf8] := by
  obtain ⟨p₀, init, empty⟩ := Option.bind_eq_some_iff.mp (show
    (initNative .lp64 blocks {} [] (sampleArgs 9 true)).bind (fun p => p.buffer.emptySize .lp64) =
      some 9 by decide +kernel)
  refine ⟨p₀, init, compressed_decodes .lp64 blocks blocksSync inflateBlocks blocksSync_inflates {} []
    (sampleArgs 9 true) p₀ 9 init rfl (by decide) (by decide) [.write sampleA, .asyncFlush]
    ⟨?_, fun _ _ => ⟨trivial, fun _ _ => trivial⟩⟩⟩
  intro free hfree
  rw [empty] at hfree
  cases hfree
  have fits : ∀ s space, 7 ≤ space → blocksSync.Fits s sampleA.utf8 space := fun _ _ room =>
    ⟨_, rfl, room⟩
  split
  · exact fits _ _ (by omega)
  · intro s _
    exact fits s 9 (by omega)

/-- A second `a` finds two bytes free. Its length is one, so `WriteNative` does not flush, and two
of its seven bytes are delivered. The payload ends inside the second chunk, behind the literal and
before the end of its block. -/
theorem second_chunk_cut :
    ∃ p₀ p : Process blocks, initNative .lp64 blocks {} [] (sampleArgs 9 true) = some p₀ ∧
      run (logStep .lp64) p₀ [.write sampleA, .write sampleA, .asyncFlush] = some p ∧
      p.enqueued.map BufferFlush.payload =
        [[0x4a, 0x04, 0x00, 0x00, 0x00, 0xff, 0xff, 0x4a, 0x04]] ∧
      ¬ p.Decodes blocksSync inflateBlocks
        (LogCall.messages [.write sampleA, .write sampleA, .asyncFlush]) := by
  obtain ⟨p₀, init, h⟩ := Option.bind_eq_some_iff.mp (show
    (initNative .lp64 blocks {} [] (sampleArgs 9 true)).bind (fun p₀ =>
      (run (logStep .lp64) p₀ [.write sampleA, .write sampleA, .asyncFlush]).map fun p =>
        p.enqueued.map BufferFlush.payload) =
      some [[0x4a, 0x04, 0x00, 0x00, 0x00, 0xff, 0xff, 0x4a, 0x04]] by decide +kernel)
  obtain ⟨p, ran, sent⟩ := Option.map_eq_some_iff.mp h
  refine ⟨p₀, p, init, ran, sent, ?_⟩
  rintro ⟨groups, rest, -, payloads, -⟩
  rw [sent] at payloads
  cases payloads with
  | cons first _ =>
    obtain ⟨s, encoded⟩ := first
    rcases blocksSync_last encoded with nil | last
    · cases nil
    · cases last

end Dolin.Zap
