import Mathlib.Data.List.Perm.Subperm
import Dolin.Laws.Zap.Release

/-!
# What a kill of the process leaves

In uncompressed mode, with the application thread in `WriteNative` and `AsyncFlushNative`, every byte
that a completed `Append` copied is in the live region that the header counts, or in a flush. A flush
is on the heap from the copy in `CallFileFlush` until the worker's `fwrite`: `Clear` empties the
mapping first. That is the design of the asynchronous flush, and what a kill in that window costs is
what the heap holds.

The invariant follows the bytes through the lines of `Append` and `Clear`, because a kill can come
between any two of them. From the copy until `SetLength`, the header counts bytes that the flush
already carries or that are wiped, so they are taken from the flush alone.
-/

namespace Dolin.Zap

open Region BufferHeader Machine

variable {Z : Zlib} {abi : Abi}

/-- What the header counts is what it says, from `data_ptr` on. -/
theorem Buffer.Parts.counted_eq {b : Buffer Z} {path : JString} {limit len w : Nat}
    (h : b.Parts abi path limit len w) :
    b.counted abi = slice b.mem (calculateHeaderLen abi path.length) len := by
  have room := h.header.room
  rw [calculateHeaderLen_eq abi path.strlen_lt, ← h.header.length] at room
  have word : loadWord abi.sizeofSizeT b.mem 1 = some len := by
    rw [loadWord_eq (by omega), h.header.logLen]
  simp only [Buffer.counted, h.dataPtr, word]

namespace Session

variable {s s' : Session Z} {a : SessionAction} {path : JString} {limit : Nat}

/-! ## The lines of `Append` and `Clear` -/

/-- What the buffer looks like where the application thread stands. -/
def Phase (abi : Abi) (path : JString) (limit : Nat) (b : Buffer Z) : AppPc → Prop
  | .idle | .check _ | .append _ => ∃ len, b.WF abi path limit len
  | .callFileFlush after | .rewind _ after => after ≠ .stop ∧ ∃ len, b.WF abi path limit len
  | .wipe _ after | .publish _ after => after ≠ .stop ∧ ∃ len, b.Parts abi path limit len 0
  | .asyncFlush _ after | .enqueue after => after ≠ .stop ∧ b.WF abi path limit 0
  -- the copy is in place, behind what the header counts
  | .move n copied => ∃ len, b.WF abi path limit len ∧
      calculateHeaderLen abi path.length + len + n ≤ b.bufferSize ∧
      slice b.mem (calculateHeaderLen abi path.length) (len + n) = b.counted abi ++ copied
  | .finish copied => ∃ len w, b.Parts abi path limit len w ∧
      slice b.mem (calculateHeaderLen abi path.length) w = b.counted abi ++ copied
  | .stopFlush | .released => False

/-- The thread is in `Clear`, with the flush in hand. -/
def clearing : AppPc → Bool
  | .rewind _ _ | .wipe _ _ | .publish _ _ => true
  | _ => false

/-- What is in the mapping and in no flush. -/
def unflushed (abi : Abi) (b : Buffer Z) (pc : AppPc) : Bytes :=
  if clearing pc then [] else b.counted abi

theorem clearing_next (after : After) : clearing after.next = false := by
  cases after <;> rfl

/-- A thread that does not stop goes on with a buffer in order. -/
theorem Phase.next {b : Buffer Z} {len : Nat} {after : After} (going : after ≠ .stop)
    (wf : b.WF abi path limit len) : Phase abi path limit b after.next := by
  cases after with
  | done => exact ⟨len, wf⟩
  | append msg => exact ⟨len, wf⟩
  | stop => exact absurd rfl going

/-- The flushes that were made, in the order they were made. -/
def made (s : Session Z) : List BufferFlush :=
  s.fileFlush.pushed ++ (s.app.holding ++ (s.fileFlush.producers 0).carries)

/-- The invariant: the buffer fits the line that the thread is at, and the flushes made so far and
what is in no flush are what was acknowledged. -/
structure Kept (abi : Abi) (path : JString) (limit : Nat) (b : Buffer Z) (s : Session Z) : Prop where
  buffer : s.buffer = some b
  plain : b.compress = false
  phase : Phase abi path limit b s.app
  stream : s.acked.flatten = (s.made.map BufferFlush.payload).flatten ++ unflushed abi b s.app

/-- The calls that the law is about. -/
def Logs : SessionAction → Prop
  | .call (.write _) | .call .asyncFlush => True
  | .call _ => False
  | _ => True

instance (a : SessionAction) : Decidable (Logs a) := by
  unfold Logs
  split <;> infer_instance

namespace Kept

variable {b b' : Buffer Z}

/-- A step that makes no flush and acknowledges nothing. -/
theorem moved (k : Kept abi path limit b s) (buffer : s'.buffer = some b') (frame : b.Frame b')
    (made : s'.made = s.made) (acked : s'.acked = s.acked)
    (same : unflushed abi b' s'.app = unflushed abi b s.app)
    (phase : Phase abi path limit b' s'.app) : Kept abi path limit b' s' :=
  ⟨buffer, frame.compress.trans k.plain, phase, by rw [acked, made, same]; exact k.stream⟩

/-- Such a step outside the queue: the thread goes from one line to another with what it holds. -/
theorem walked {pc pc' : AppPc} (k : Kept abi path limit b s) (at_ : s.app = pc) (at' : s'.app = pc')
    (buffer : s'.buffer = some b') (frame : b.Frame b') (queue : s'.fileFlush = s.fileFlush)
    (acked : s'.acked = s.acked) (held : pc'.holding = pc.holding)
    (same : unflushed abi b' pc' = unflushed abi b pc) (phase : Phase abi path limit b' pc') :
    Kept abi path limit b' s' := by
  subst at_ at'
  apply k.moved buffer frame ?_ acked same phase
  rw [made, made, queue, held]

/-- `CallFileFlush` takes the live region, which is what the header counts. -/
theorem take (k : Kept abi path limit b s) (o : Orderly s) {after : After} {len : Nat} {f : BufferFlush}
    (pc : s.app = .callFileFlush after) (length : b.getLength abi = some len)
    (taken : b.takeFlush abi len after.release = some f) :
    Kept abi path limit b { s with buffer := some b, app := .rewind f after } := by
  obtain ⟨buffer, plain, phase, stream⟩ := k
  rw [pc] at phase stream
  obtain ⟨going, len', wf⟩ := phase
  cases wf.getLength.symm.trans length
  obtain ⟨f', hf, payload, -, -, -⟩ := wf.takeFlush after.release
  cases hf.symm.trans taken
  refine ⟨rfl, plain, ⟨going, len, wf⟩, ?_⟩
  have idle := o.inside (by rw [pc]; rfl)
  have counted : f.payload = b.counted abi := by rw [payload, wf.live_eq, wf.counted_eq]
  have old : s.made = s.fileFlush.pushed := by
    simp only [made, pc, idle, AppPc.holding, FileFlush.ProducerPc.carries, List.append_nil]
  have new : made { s with buffer := some b, app := .rewind f after } =
      s.fileFlush.pushed ++ [f] := by
    simp only [made, idle, AppPc.holding, FileFlush.ProducerPc.carries, List.append_nil]
  rw [new, List.map_append, List.flatten_append]
  rw [old] at stream
  simpa [unflushed, clearing, counted] using stream

/-- `Append` copies what fits behind what the header counts. -/
theorem append (k : Kept abi path limit b s) {msg : JString} {n : Option Nat}
    (pc : s.app = .append msg) (put : b.putLog abi msg.utf8 = some (b', n)) :
    Kept abi path limit b' { s with buffer := some b', app := .appending msg.utf8 n } := by
  have phase := k.phase
  rw [pc] at phase
  obtain ⟨len, wf⟩ := phase
  obtain ⟨b₁, m, hput, hm, wf', stored⟩ := wf.putLog_plain k.plain msg.utf8
  cases hput.symm.trans put
  have frame := Buffer.putLog_frame put
  have bound := wf.bound
  have size := frame.bufferSize
  -- the copy leaves what the header counts
  have counted : b'.counted abi = b.counted abi := by
    rw [wf'.counted_eq, wf.counted_eq, ← wf.live_eq]
    rw [slice_add] at stored
    refine (List.append_inj stored ?_).1
    rw [← wf'.live_eq, wf'.length_live, wf.length_live]
  refine k.walked pc rfl rfl frame rfl rfl rfl counted ⟨len, wf', ?_, ?_⟩
  · dsimp only at size
    rw [size]
    simp only [Buffer.cap] at hm
    omega
  · rw [stored, counted, wf.counted_eq, wf.live_eq]

/-- `SetLength` at the end of `Append` counts the copy, and the caller is acknowledged. -/
theorem finish (k : Kept abi path limit b s) {copied : Bytes} (pc : s.app = .finish copied)
    (published : b.publish abi = some b') :
    Kept abi path limit b'
      { s with buffer := some b', app := .idle, acked := s.acked ++ [copied] } := by
  obtain ⟨buffer, plain, phase, stream⟩ := k
  rw [pc] at phase
  obtain ⟨len, w, parts, stored⟩ := phase
  obtain ⟨b₁, hp, wf, kept⟩ := parts.publish
  cases hp.symm.trans published
  refine ⟨rfl, (Buffer.publish_frame published).compress.trans plain, ⟨w, wf⟩, ?_⟩
  have counted : b'.counted abi = b.counted abi ++ copied := by
    rw [wf.counted_eq, kept _ _ (Nat.le_refl _), stored]
  have same : made { s with buffer := some b', app := .idle, acked := s.acked ++ [copied] } =
      s.made := by
    simp only [made, pc, AppPc.holding]
  rw [same, List.flatten_append, stream, pc]
  simp only [unflushed, clearing, Bool.false_eq_true, if_false, counted, List.flatten_singleton,
    List.append_assoc]

/-- The three lines of `Clear`. -/
theorem rewind (k : Kept abi path limit b s) {f : BufferFlush} {after : After}
    (pc : s.app = .rewind f after) :
    Kept abi path limit b.rewind { s with buffer := some b.rewind, app := .wipe f after } := by
  have phase := k.phase
  rw [pc] at phase
  obtain ⟨going, len, wf⟩ := phase
  exact k.walked pc rfl rfl (Buffer.rewind_frame b) rfl rfl rfl rfl ⟨going, len, wf.rewind⟩

theorem wipe (k : Kept abi path limit b s) {f : BufferFlush} {after : After}
    (pc : s.app = .wipe f after) (wiped : b.wipe abi = some b') :
    Kept abi path limit b' { s with buffer := some b', app := .publish f after } := by
  have phase := k.phase
  rw [pc] at phase
  obtain ⟨going, len, parts⟩ := phase
  obtain ⟨b₁, hw, parts'⟩ := parts.wipe
  cases hw.symm.trans wiped
  exact k.walked pc rfl rfl (Buffer.wipe_frame wiped) rfl rfl rfl rfl ⟨going, len, parts'⟩

theorem publish (k : Kept abi path limit b s) {f : BufferFlush} {after : After}
    (pc : s.app = .publish f after) (published : b.publish abi = some b') :
    Kept abi path limit b' { s with buffer := some b', app := .asyncFlush f after } := by
  have phase := k.phase
  rw [pc] at phase
  obtain ⟨going, len, parts⟩ := phase
  obtain ⟨b₁, hp, wf, -⟩ := parts.publish
  cases hp.symm.trans published
  have counted : b'.counted abi = [] := wf.counted_eq.trans (slice_zero ..)
  exact k.walked pc rfl rfl (Buffer.publish_frame published) rfl rfl rfl counted ⟨going, wf⟩

/-- `write_ptr += write_size` leaves what the header counts. -/
theorem move (k : Kept abi path limit b s) {n : Nat} {copied : Bytes} (pc : s.app = .move n copied)
    (moved : b.moveWritePtr n = some b') :
    Kept abi path limit b' { s with buffer := some b', app := .finish copied } := by
  have phase := k.phase
  rw [pc] at phase
  obtain ⟨len, wf, fits, stored⟩ := phase
  obtain ⟨b₁, hm, parts, mem, -⟩ := wf.moveWritePtr fits
  cases hm.symm.trans moved
  have counted : b'.counted abi = b.counted abi := by rw [parts.counted_eq, wf.counted_eq, mem]
  refine k.walked pc rfl rfl (Buffer.moveWritePtr_frame moved) rfl rfl rfl counted
    ⟨len, len + n, parts, ?_⟩
  rw [mem, stored, counted]

/-- The flush goes from the thread's hands into `AsyncFlush`. -/
theorem asyncFlush (k : Kept abi path limit b s) (o : Orderly s) {f : BufferFlush} {after : After}
    {q : FileFlush.State BufferFlush} (pc : s.app = .asyncFlush f after)
    (queue : FileFlush.Step s.fileFlush (.call 0 f) q) :
    Kept abi path limit b { s with fileFlush := q, app := .enqueue after } := by
  have phase := k.phase
  rw [pc] at phase
  refine k.moved k.buffer (.refl b) ?_ rfl ?_ phase
  · have idle := o.inside (by rw [pc]; rfl)
    cases queue
    simp only [made, pc, idle, AppPc.holding, FileFlush.ProducerPc.carries,
      FileFlush.State.setProducer_producers, if_true]
    rfl
  · rw [pc]
    rfl

theorem enqueue (k : Kept abi path limit b s) (o : Orderly s) {after : After}
    {q : FileFlush.State BufferFlush} (pc : s.app = .enqueue after)
    (queue : FileFlush.Step s.fileFlush (.producer 0) q) :
    Kept abi path limit b { s with
      fileFlush := q, app := if (q.producers 0).isIdle then after.next else .enqueue after } := by
  have phase := k.phase
  rw [pc] at phase
  obtain ⟨going, wf⟩ := phase
  have carried := queue.carried (o.running (by rw [pc]; rfl))
  have old : s.made = s.fileFlush.pushed ++ (s.fileFlush.producers 0).carries := by
    simp only [made, pc, AppPc.holding, List.nil_append]
  cases (q.producers 0).isIdle with
  | true =>
    refine k.moved k.buffer (.refl b) ?_ rfl ?_ (Phase.next going wf)
    · simp only [made, if_true, holding_next, List.nil_append]
      exact carried.trans old.symm
    · simp only [if_true, pc, unflushed, clearing_next]
      rfl
  | false =>
    refine k.moved k.buffer (.refl b) ?_ rfl ?_ ⟨going, wf⟩
    · simp only [made, Bool.false_eq_true, if_false, AppPc.holding, List.nil_append]
      exact carried.trans old.symm
    · rw [pc]
      rfl

/-- A step of the queue that moves neither the thread nor what was pushed. -/
theorem worked (k : Kept abi path limit b s) {q : FileFlush.State BufferFlush}
    (frame : q.producers = s.fileFlush.producers ∧ q.exit = s.fileFlush.exit ∧
      q.answered = s.fileFlush.answered ∧ q.pushed = s.fileFlush.pushed) :
    Kept abi path limit b { s with fileFlush := q } := by
  refine k.moved k.buffer (.refl b) ?_ rfl rfl k.phase
  obtain ⟨producers, -, -, pushed⟩ := frame
  simp only [made, producers, pushed]

/-- **The step**: every step of a thread in `WriteNative` or `AsyncFlushNative`, and of the worker,
keeps the bytes. -/
theorem step (k : Kept abi path limit b s) (o : Orderly s) (logs : Logs a) (h : Step abi s a s') :
    ∃ b', Kept abi path limit b' s' ∧ b.Frame b' := by
  have same : ∀ {b₁ : Buffer Z}, s.buffer = some b₁ → b₁ = b := fun at_ =>
    Option.some.inj (at_.symm.trans k.buffer)
  have phase := k.phase
  cases h with
  | write msg pc =>
    rw [pc] at phase
    exact ⟨b, k.walked pc rfl k.buffer (.refl b) rfl rfl rfl rfl phase, .refl b⟩
  | flush pc =>
    rw [pc] at phase
    exact ⟨b, k.walked pc rfl k.buffer (.refl b) rfl rfl rfl rfl ⟨nofun, phase⟩, .refl b⟩
  | release pc => cases logs
  | expLogFile path limitSize logOpened b₁ b' handed pc buffer rotated => cases logs
  | check msg b₁ empty pc buffer free =>
    rw [pc] at phase
    refine ⟨b, ?_, .refl b⟩
    split
    · exact k.walked pc rfl k.buffer (.refl b) rfl rfl rfl rfl ⟨nofun, phase⟩
    · exact k.walked pc rfl k.buffer (.refl b) rfl rfl rfl rfl phase
  | take after b₁ len f pc buffer length pos taken =>
    cases same buffer
    have open_ : b.endCompress = b := by
      rw [Buffer.endCompress, k.plain]
      rfl
    rw [open_] at taken ⊢
    exact ⟨b, k.take o pc length taken, .refl b⟩
  | delete after b₁ pc buffer length given =>
    rw [pc] at phase
    cases after with
    | stop => exact absurd rfl phase.1
    | _ => cases given
  | leave after b₁ pc buffer length given =>
    rw [pc] at phase
    obtain ⟨going, len, wf⟩ := phase
    refine ⟨b, k.walked pc rfl k.buffer (.refl b) rfl rfl (holding_next after) ?_
      (Phase.next going wf), .refl b⟩
    rw [unflushed, clearing_next]
    rfl
  | rewind f after b₁ pc buffer =>
    cases same buffer
    exact ⟨_, k.rewind pc, Buffer.rewind_frame b⟩
  | wipe f after b₁ b' pc buffer wiped =>
    cases same buffer
    exact ⟨b', k.wipe pc wiped, Buffer.wipe_frame wiped⟩
  | publish f after b₁ b' pc buffer published =>
    cases same buffer
    exact ⟨b', k.publish pc published, Buffer.publish_frame published⟩
  | asyncFlush f after q pc queue => exact ⟨b, k.asyncFlush o pc queue, .refl b⟩
  | enqueue after q pc queue => exact ⟨b, k.enqueue o pc queue, .refl b⟩
  | append msg b₁ b' writeSize pc buffer put =>
    cases same buffer
    exact ⟨b', k.append pc put, Buffer.putLog_frame put⟩
  | move n copied b₁ b' pc buffer moved =>
    cases same buffer
    exact ⟨b', k.move pc moved, Buffer.moveWritePtr_frame moved⟩
  | finish copied b₁ b' pc buffer published =>
    cases same buffer
    exact ⟨b', k.finish pc published, Buffer.publish_frame published⟩
  | stopFlush q pc queue =>
    rw [pc] at phase
    exact phase.elim
  | worker q queue => exact ⟨b, k.worked queue.worker_frame, .refl b⟩
  | spurious q queue => exact ⟨b, k.worked queue.spurious_frame, .refl b⟩

end Kept

/-! ## Every acknowledged byte is somewhere -/

/-- The bytes are a concatenation of some of the places, each used once. -/
def Covered (bytes : Bytes) (places : List Bytes) : Prop :=
  ∃ segments : List Bytes, bytes = segments.flatten ∧ segments.Subperm places

/-- The places that hold what was acknowledged: what went through `Flush`, the flushes on the heap,
and what the header of the buffer counts. -/
def places (abi : Abi) (s : Session Z) (b : Buffer Z) : List Bytes :=
  s.fileFlush.flushed.map BufferFlush.payload ++ s.onHeap.map BufferFlush.payload ++ [b.counted abi]

theorem Kept.covered {b : Buffer Z} (k : Kept abi path limit b s) (o : Orderly s) :
    Covered s.acked.flatten (places abi s b) := by
  have perm : s.made.Perm (s.fileFlush.flushed ++ s.onHeap) := by
    rw [made, onHeap, ← List.append_assoc s.fileFlush.flushed]
    exact o.queue.accounted.append_right _
  have perm := perm.map BufferFlush.payload
  rw [List.map_append] at perm
  have stream := k.stream
  unfold unflushed at stream
  split at stream
  · rw [List.append_nil] at stream
    exact ⟨_, stream, perm.subperm.trans (List.sublist_append_left _ _).subperm⟩
  · refine ⟨s.made.map BufferFlush.payload ++ [b.counted abi], ?_, (perm.append_right _).subperm⟩
    rw [stream, List.flatten_append, List.flatten_singleton]

/-- What every step of a logging session keeps: the bytes, and the file that the flushes go to. -/
structure Durable (abi : Abi) (path : JString) (limit : Nat) (file : Option FILE) (mapped : Bool)
    (s : Session Z) : Prop where
  orderly : Orderly s
  kept : ∃ b, Kept abi path limit b s ∧ b.logFilePtr = file ∧ b.mapBuffer = mapped
  bound : ∀ e, e ∈ s.fileFlush.flushed ∨ e ∈ s.onHeap → e.logFilePtr = file

theorem Durable.step {file : Option FILE} {mapped : Bool} (d : Durable abi path limit file mapped s)
    (logs : Logs a) (h : Step abi s a s') : Durable abi path limit file mapped s' := by
  obtain ⟨o, ⟨b, k, ptr, map⟩, bound⟩ := d
  obtain ⟨b', k', frame⟩ := k.step o logs h
  refine ⟨o.step h, ⟨b', k', frame.logFilePtr.trans ptr, frame.mapBuffer.trans map⟩, ?_⟩
  rintro e (flushed | heap)
  · exact bound e (h.flushed flushed)
  · rcases h.onHeap o heap with old | ⟨-, b₁, _, _, ⟨-, buffer, -, -⟩, taken⟩
    · exact bound e (.inr old)
    · cases k.buffer.symm.trans buffer
      exact ((Buffer.takeFlush_inv taken).1.trans (Buffer.endCompress_frame b).logFilePtr).trans ptr

/-- **What a kill of the process leaves.** After `InitNative` in uncompressed mode with `cap` bytes
behind the header, in every state that `WriteNative`, `AsyncFlushNative` and the worker reach: every
byte that a completed `Append` copied is in the part of the buffer that the header's `log_len`
counts, in a flush on the heap, or went through `Flush`, each used once; and what went through
`Flush` is in the log file, where it could be opened. The buffer is in the cache file where the
mapping succeeded. -/
theorem acknowledged_bytes_kept (abi : Abi) (Z : Zlib) (sys : SysCalls) (file : Bytes)
    (args : InitArgs) (p₀ : Process Z) (cap : Nat) (init : initNative abi Z sys file args = some p₀)
    (plain : args.compress = false)
    (size : args.bufferSize abi = cap + calculateHeaderLen abi args.logPath.length)
    (actions : List SessionAction) (logs : ∀ a ∈ actions, Logs a) (s : Session Z)
    (ran : run (step abi) (start p₀) actions = some s) :
    ∃ b, s.buffer = some b ∧ b.mapBuffer = (sys.opened && sys.mapped) ∧
      Covered s.acked.flatten (places abi s b) ∧
      ∀ log, fopen args.logPath 0 sys.logOpened = some log →
        appendedTo log s.fileFlush.flushed = (s.fileFlush.flushed.map BufferFlush.payload).flatten := by
  have started := initNative_started init (initNative_room init size)
  obtain ⟨mem, -, hi, -, -⟩ := initNative_inv init
  have begun : Durable abi args.logPath (abi.ofInt args.limitSize.toInt)
      (fopen args.logPath 0 sys.logOpened) (sys.opened && sys.mapped) (start p₀) := by
    refine ⟨orderly_start init, ⟨p₀.buffer, ⟨rfl, started.compress.trans plain, ⟨0, started.wf⟩, ?_⟩,
      started.file, (Buffer.initData_reset hi).mapBuffer⟩, ?_⟩
    · exact (started.wf.counted_eq.trans (slice_zero ..)).symm
    · rintro e (flushed | heap)
      · cases flushed
      · cases heap
  obtain ⟨o, ⟨b, k, -, map⟩, bound⟩ := run_keeps_of_meets _ (P := fun _ a => Logs a)
    (fun _ _ _ d logs h => Durable.step d logs (step_cases h)) begun (meets_of_forall _ logs) ran
  refine ⟨b, k.buffer, map, k.covered o, ?_⟩
  intro log opened
  rw [appendedTo]
  congr 1
  apply List.map_congr_left
  intro e mem
  exact if_pos ((bound e (.inl mem)).trans opened)

/-- `a` is written and flushed, and the worker has it in hand. -/
theorem acknowledged_bytes_kept_in_hand :
    ∃ p₀ : Process blocks, initNative .lp64 blocks {} [] (sampleArgs 8 false) = some p₀ ∧
      ∃ s, run (step .lp64) (start p₀) (writing sampleA ++ flushing ++ List.replicate 2 .worker) =
          some s ∧ s.acked = [[0x61]] ∧
        ∃ b, s.buffer = some b ∧ Covered s.acked.flatten (places .lp64 s b) := by
  obtain ⟨p₀, init, facts⟩ := Option.bind_eq_some_iff.mp (show
    (initNative .lp64 blocks {} [] (sampleArgs 8 false)).bind (fun p₀ =>
      (run (step .lp64) (start p₀) (writing sampleA ++ flushing ++ List.replicate 2 .worker)).map
        acked) = some [[0x61]] by
    decide +kernel)
  obtain ⟨s, ran, acked⟩ := Option.map_eq_some_iff.mp facts
  obtain ⟨b, buffer, -, covered, -⟩ := acknowledged_bytes_kept .lp64 blocks {} [] (sampleArgs 8 false)
    p₀ 8 init rfl (by decide) _ (by decide) s ran
  exact ⟨p₀, init, s, ran, acked, b, buffer, covered⟩

/-- In that state `a` is in neither the live region nor the log file. -/
theorem acknowledged_byte_on_heap_only :
    ∃ p₀ : Process blocks, initNative .lp64 blocks {} [] (sampleArgs 8 false) = some p₀ ∧
      ∃ s, run (step .lp64) (start p₀) (writing sampleA ++ flushing ++ List.replicate 2 .worker) =
          some s ∧ s.acked = [[0x61]] ∧
        ∃ b, s.buffer = some b ∧ ¬ Covered s.acked.flatten
          (s.fileFlush.flushed.map BufferFlush.payload ++ [b.counted .lp64]) := by
  obtain ⟨p₀, init, facts⟩ := Option.bind_eq_some_iff.mp (show
    (initNative .lp64 blocks {} [] (sampleArgs 8 false)).bind (fun p₀ =>
      (run (step .lp64) (start p₀) (writing sampleA ++ flushing ++ List.replicate 2 .worker)).bind
        fun s => s.buffer.map fun b => (s.acked, s.fileFlush.flushed, b.counted .lp64)) =
      some ([[0x61]], [], []) by
    decide +kernel)
  obtain ⟨s, ran, facts⟩ := Option.bind_eq_some_iff.mp facts
  obtain ⟨b, buffer, facts⟩ := Option.map_eq_some_iff.mp facts
  simp only [Prod.mk.injEq] at facts
  obtain ⟨acked, flushed, counted⟩ := facts
  refine ⟨p₀, init, s, ran, acked, b, buffer, ?_⟩
  rw [acked, flushed, counted]
  rintro ⟨segments, bytes, sub⟩
  have empty : ∀ segment ∈ segments, segment = [] := fun segment mem =>
    List.mem_singleton.mp (sub.subset mem)
  rw [List.flatten_eq_nil_iff.mpr empty] at bytes
  cases bytes

end Session

end Dolin.Zap
