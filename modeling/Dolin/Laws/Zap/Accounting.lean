import Dolin.Base.Batch
import Dolin.Laws.Zap.Native

/-!
# No byte is lost without a rotation

In uncompressed mode the buffer refines `Batch`: the free space `WriteNative` tests, the copy and
clear of `CallFileFlush` and the truncation of `Append` are one step of the batching machine, and
every call completes. The accounting of payloads, live region and messages is then the library's.
-/

namespace Dolin.Zap

open Region BufferHeader Machine

variable {Z : Zlib} {abi : Abi}

/-- One call on the batching machine. -/
def LogCall.batch (cap : Nat) (c : Batch.State UInt8) : LogCall → Batch.State UInt8
  | .write msg => c.write cap msg.utf8
  | .asyncFlush => c.flush

/-- A process in uncompressed mode stands for a state of the batching machine. -/
structure Batches (abi : Abi) (path : JString) (limit cap : Nat) (p : Process Z)
    (c : Batch.State UInt8) : Prop where
  wf : p.buffer.WF abi path limit c.live.length
  live : p.buffer.live = c.live
  sent : p.enqueued.map BufferFlush.payload = c.sent
  plain : p.buffer.compress = false
  flush : ∃ flush, p.pFileFlush = some flush
  size : p.buffer.bufferSize = cap + calculateHeaderLen abi path.length

namespace Batches

variable {path : JString} {limit cap : Nat} {p : Process Z} {c : Batch.State UInt8}

theorem callFileFlush (h : Batches abi path limit cap p c) :
    ∃ p', p.callFileFlush abi = some p' ∧ Batches abi path limit cap p' c.flush := by
  obtain ⟨flush, hf⟩ := h.flush
  obtain ⟨p', hp, wf, sent, frame, kept⟩ := Process.callFileFlush_wf h.wf hf
  refine ⟨p', hp, ⟨?_, ?_, ?_, frame.compress.trans h.plain, ⟨flush, kept.trans hf⟩,
    frame.bufferSize.trans h.size⟩⟩
  · rw [c.flush_live]
    exact wf
  · rw [c.flush_live]
    exact List.length_eq_zero_iff.mp wf.length_live
  · rw [sent, h.sent, h.live, c.flush_sent]
    rfl

/-- `Append` copies what the free space takes. -/
theorem append (h : Batches abi path limit cap p c) (m : Bytes) :
    ∃ b' n, p.buffer.append abi m = some (b', n) ∧ n = min m.length (cap - c.live.length) ∧
      Batches abi path limit cap { p with buffer := b' }
        ⟨c.sent, c.live ++ m.take (cap - c.live.length)⟩ := by
  obtain ⟨b', n, ha, hn, wf, live⟩ := h.wf.append_plain h.plain m
  have frame := Buffer.append_frame ha
  have hcap : p.buffer.cap abi path = cap := by
    rw [Buffer.cap, h.size]
    omega
  rw [hcap] at hn
  have taken : m.take n = m.take (cap - c.live.length) := by
    rw [hn, List.take_eq_take_iff]
    omega
  refine ⟨b', n, ha, hn, ⟨?_, ?_, h.sent, frame.compress.trans h.plain, h.flush,
    frame.bufferSize.trans h.size⟩⟩
  · have : (c.live ++ m.take (cap - c.live.length)).length = c.live.length + n := by
      rw [List.length_append, List.length_take, hn]
      omega
    rw [this]
    exact wf
  · show b'.live = c.live ++ m.take (cap - c.live.length)
    rw [live, h.live, taken]

/-- The free space `WriteNative` compares the message with. -/
theorem emptySize (h : Batches abi path limit cap p c) :
    p.buffer.emptySize abi = some (cap - c.live.length) := by
  rw [h.wf.emptySize, h.size]
  exact congrArg some (by omega)

theorem writeNative (h : Batches abi path limit cap p c) (msg : JString) :
    ∃ p', p.writeNative abi msg = some p' ∧ Batches abi path limit cap p' (c.write cap msg.utf8) := by
  have hf : p.pFileFlush.isSome = true := by
    obtain ⟨flush, hf⟩ := h.flush
    rw [hf]
    rfl
  unfold Batch.State.write
  by_cases full : cap - c.live.length ≤ msg.utf8.length
  · obtain ⟨p₁, hp₁, h₁⟩ := h.callFileFlush
    obtain ⟨b', n, ha, -, h₂⟩ := h₁.append msg.utf8
    simp only [if_pos full]
    have room : p.makeRoom abi msg = some p₁ :=
      Option.bind_eq_some_iff.mpr ⟨_, h.emptySize, (if_pos ⟨full, hf⟩).trans hp₁⟩
    exact ⟨_, Option.bind_eq_some_iff.mpr ⟨_, room, Option.bind_eq_some_iff.mpr ⟨_, ha, rfl⟩⟩, h₂⟩
  · obtain ⟨b', n, ha, -, h₂⟩ := h.append msg.utf8
    simp only [if_neg full]
    have room : p.makeRoom abi msg = some p :=
      Option.bind_eq_some_iff.mpr ⟨_, h.emptySize, if_neg (fun t => full t.1)⟩
    exact ⟨_, Option.bind_eq_some_iff.mpr ⟨_, room, Option.bind_eq_some_iff.mpr ⟨_, ha, rfl⟩⟩, h₂⟩

/-- **The step**: every call completes and follows the batching machine. -/
theorem logStep (h : Batches abi path limit cap p c) (call : LogCall) :
    ∃ p', logStep abi p call = some p' ∧ Batches abi path limit cap p' (call.batch cap c) := by
  cases call with
  | write msg => exact h.writeNative msg
  | asyncFlush =>
    obtain ⟨flush, hf⟩ := h.flush
    obtain ⟨p', hp, h'⟩ := h.callFileFlush
    refine ⟨p', ?_, h'⟩
    show p.asyncFlushNative abi = some p'
    rw [Process.asyncFlushNative, hf]
    exact hp

end Batches

/-- The batching machine groups the messages of every list of calls. -/
theorem batch_grouped (cap : Nat) (calls : List LogCall) {c : Batch.State UInt8}
    {msgs : List Bytes} {groups : List (List Bytes)} {rest : List Bytes}
    (h : Batch.Grouped cap c msgs groups rest) :
    ∃ groups' rest', Batch.Grouped cap (calls.foldl (LogCall.batch cap) c)
      (msgs ++ LogCall.messages calls) groups' rest' := by
  induction calls generalizing c msgs groups rest with
  | nil => exact ⟨groups, rest, by rw [LogCall.messages, List.append_nil]; exact h⟩
  | cons call calls ih =>
    cases call with
    | write msg =>
      obtain ⟨groups', rest', h'⟩ := h.write msg.utf8
      obtain ⟨groups'', rest'', h''⟩ := ih h'
      refine ⟨groups'', rest'', ?_⟩
      rw [List.append_assoc] at h''
      exact h''
    | asyncFlush =>
      obtain ⟨groups', rest', h'⟩ := h.flush
      exact ih h'

/-- `InitNative` in uncompressed mode starts the batching machine empty. -/
theorem initNative_batches {sys : SysCalls} {file : Bytes} {args : InitArgs} {p : Process Z}
    {cap : Nat} (init : initNative abi Z sys file args = some p) (plain : args.compress = false)
    (size : args.bufferSize abi = cap + calculateHeaderLen abi args.logPath.length) :
    Batches abi args.logPath (abi.ofInt args.limitSize.toInt) cap p Batch.State.empty := by
  have started := initNative_started init (initNative_room init size)
  exact ⟨started.wf, List.length_eq_zero_iff.mp started.wf.length_live,
    by rw [started.enqueued]; rfl, started.compress.trans plain, ⟨_, started.flush⟩,
    started.size.trans size⟩

/-- **Accounting of uncompressed writes.** After `InitNative` with `cap` bytes behind the header,
every list of `WriteNative` and `AsyncFlushNative` calls completes. The payloads enqueued so far
followed by the live region are the messages, each cut to its first `cap` bytes. No payload is
empty or longer than `cap`. The messages fall into consecutive groups, one for each payload and one
that is still live, and a payload is its whole group: no message is split between two. With a capacity
below `sizeof(size_t)`, `InitHeader` writes behind the buffer, and `initNative` has no result. -/
theorem accounting (abi : Abi) (Z : Zlib) (sys : SysCalls) (file : Bytes) (args : InitArgs)
    (p₀ : Process Z) (cap : Nat) (init : initNative abi Z sys file args = some p₀)
    (plain : args.compress = false)
    (size : args.bufferSize abi = cap + calculateHeaderLen abi args.logPath.length)
    (calls : List LogCall) :
    ∃ p, run (logStep abi) p₀ calls = some p ∧
      (p.enqueued.map BufferFlush.payload).flatten ++ p.buffer.live =
        ((LogCall.messages calls).map (List.take cap)).flatten ∧
      (∀ f ∈ p.enqueued, f.payload ≠ [] ∧ f.payload.length ≤ cap) ∧
      ∃ (groups : List (List Bytes)) (rest : List Bytes),
        LogCall.messages calls = groups.flatten ++ rest ∧
        p.enqueued.map BufferFlush.payload =
          groups.map (fun group => (group.map (List.take cap)).flatten) ∧
        p.buffer.live = (rest.map (List.take cap)).flatten := by
  obtain ⟨p, hp, h⟩ := run_refines (P := fun _ => True) (fun p c call _ h => h.logStep call)
    (initNative_batches init plain size) (fun call (_ : call ∈ calls) => trivial)
  obtain ⟨groups, rest, grouped⟩ := batch_grouped cap calls (Batch.Grouped.empty cap)
  rw [List.nil_append] at grouped
  refine ⟨p, hp, ?_, ?_, groups, rest, grouped.messages, h.sent.trans grouped.sent,
    h.live.trans grouped.live⟩
  · rw [h.sent, h.live]
    exact grouped.stream
  · intro f mem
    have sent : f.payload ∈ (calls.foldl (LogCall.batch cap) Batch.State.empty).sent := by
      rw [← h.sent]
      exact List.mem_map_of_mem mem
    exact ⟨grouped.nonempty _ sent, grouped.bounded _ sent⟩

/-- Eight bytes behind the header, two messages of five and a flush. -/
theorem accounting_hello :
    ∃ p₀ : Process blocks, initNative .lp64 blocks {} [] (sampleArgs 8 false) = some p₀ ∧
      ∃ p, run (logStep .lp64) p₀ [.write sampleHello, .write sampleHello, .asyncFlush] = some p ∧
        (p.enqueued.map BufferFlush.payload).flatten ++ p.buffer.live =
          ((LogCall.messages [.write sampleHello, .write sampleHello, .asyncFlush]).map
            (List.take 8)).flatten := by
  obtain ⟨p₀, init⟩ := Option.isSome_iff_exists.mp (show
    (initNative .lp64 blocks {} [] (sampleArgs 8 false)).isSome = true by decide +kernel)
  obtain ⟨p, ran, stream, -⟩ := accounting .lp64 blocks {} [] (sampleArgs 8 false) p₀ 8 init rfl
    (by decide) [.write sampleHello, .write sampleHello, .asyncFlush]
  exact ⟨p₀, init, p, ran, stream⟩

end Dolin.Zap
