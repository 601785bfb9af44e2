import Dolin.Laws.Zap.Native

/-!
# What crash recovery and rotation do with live bytes

Two paths of the library exist to save bytes that are still in the mapping: `WriteDirty2File`, for
the bytes a killed process left, and the flush at the start of `ExpLogPath`, for the bytes that
belong to the file before a rotation. Neither saves any. The first measures a `Buffer` whose
pointers were never rebuilt from the header. The second goes through `file_flush_ptr`, which
nothing sets. Each does what it is for exactly where there is nothing to save.
-/

namespace Dolin.Zap

open Region BufferHeader Machine

variable {Z : Zlib} {abi : Abi}

/-- What no native call changes: the mapping keeps its size and stays a mapping of the cache file
or of the heap, and `file_flush_ptr` stays null. -/
structure Process.Unset (p : Process Z) (mapBuffer : Bool) : Prop where
  mem : p.buffer.mem.length = p.buffer.bufferSize
  fileFlushPtr : p.buffer.fileFlushPtr = none
  mapBuffer : p.buffer.mapBuffer = mapBuffer

namespace Process.Unset

variable {p p' : Process Z} {mapBuffer : Bool}

/-- Buffers of one frame agree on it. -/
theorem of_frame (h : p.Unset mapBuffer) (frame : p.buffer.Frame p'.buffer) : p'.Unset mapBuffer :=
  ⟨frame.mem.trans (h.mem.trans frame.bufferSize.symm), frame.fileFlushPtr.trans h.fileFlushPtr,
    frame.mapBuffer.trans h.mapBuffer⟩

/-- A rotation is `InitData` on the buffer. -/
theorem expLogFileNative_eq (h : p.Unset mapBuffer) (path : JString) (limitSize : Int32) (logOpened : Bool) :
    p.expLogFileNative abi path limitSize logOpened =
      (p.buffer.initData abi path (abi.ofInt limitSize.toInt) p.buffer.compress
        (fopen path p.opens logOpened)).map fun buffer =>
          { p with buffer, opens := p.opens + 1 } := by
  rw [Process.expLogFileNative, Buffer.expLogPath_eq h.fileFlushPtr]
  cases p.buffer.initData abi path (abi.ofInt limitSize.toInt) p.buffer.compress
      (fopen path p.opens logOpened) with
  | none => rfl
  | some b' =>
    simp only [Option.map_some, Option.bind_eq_bind, Option.bind_some, Option.toList_none,
      List.append_nil]
    rfl

/-- A rotation hands nothing over, and empties the live region all the same. -/
theorem expLogFileNative {path : JString} {limitSize : Int32} {logOpened : Bool} (h : p.Unset mapBuffer)
    (hc : p.expLogFileNative abi path limitSize logOpened = some p') :
    p'.Unset mapBuffer ∧ p'.enqueued = p.enqueued ∧ p'.buffer.live = [] := by
  obtain ⟨b', hi, rfl⟩ := Option.map_eq_some_iff.mp ((h.expLogFileNative_eq ..).symm.trans hc)
  have reset := Buffer.initData_reset hi
  exact ⟨⟨reset.mem.trans (h.mem.trans reset.bufferSize.symm),
    reset.fileFlushPtr.trans h.fileFlushPtr, reset.mapBuffer.trans h.mapBuffer⟩, rfl,
    Buffer.initData_empties hi h.mem⟩

theorem nativeStep {call : NativeCall} (h : p.Unset mapBuffer) (hc : nativeStep abi p call = some p') :
    p'.Unset mapBuffer := by
  cases call with
  | log call => exact h.of_frame (Process.logStep_frame hc)
  | expLogFile path limitSize logOpened => exact (h.expLogFileNative hc).1

end Process.Unset

/-- Every process that went through `InitNative` and native calls. -/
theorem unset_of_run {sys : SysCalls} {file : Bytes} {args : InitArgs} {p₀ p : Process Z}
    {calls : List NativeCall} (init : initNative abi Z sys file args = some p₀)
    (ran : run (nativeStep abi) p₀ calls = some p) : p.Unset (sys.opened && sys.mapped) := by
  obtain ⟨mem, len, hi, -, -⟩ := initNative_inv init
  have reset := Buffer.initData_reset hi
  have start : p₀.Unset (sys.opened && sys.mapped) :=
    ⟨(reset.mem.trans len).trans reset.bufferSize.symm, reset.fileFlushPtr, reset.mapBuffer⟩
  exact run_keeps (fun p => p.Unset (sys.opened && sys.mapped))
    (fun p call p' h hc => h.nativeStep hc) start ran

/-! ## Crash recovery -/

/-- What a process leaves of its mapping when it is killed: the content of the cache file, or
nothing where the buffer was on the heap. -/
def Process.cacheFile (p : Process Z) : Option Bytes :=
  if p.buffer.mapBuffer then some p.buffer.mem else none

/-- What the next `InitNative` owes a process that was killed: its live region, as one flush to the
file its header names, and nothing where nothing was live. -/
def Recovers (abi : Abi) (killed : Process Z) (handed : List BufferFlush) : Prop :=
  (killed.buffer.live ≠ [] → ∃ f file, handed = [f] ∧ f.payload = killed.buffer.live ∧
    f.logFilePtr = some file ∧ killed.buffer.getLogPath abi = some (some file.path)) ∧
  (killed.buffer.live = [] → handed = [])

/-- **Crash recovery.** A process is killed between two native calls, and the next one runs
`InitNative` on the file the mapping left. What that hands to `FileFlush` before it clears the
mapping is what recovery owes exactly where nothing was live. -/
theorem recovers_iff_nothing_live (abi : Abi) (Z : Zlib) (file : Bytes) (args : InitArgs)
    (p₀ p : Process Z) (calls : List NativeCall)
    (init : initNative abi Z {} file args = some p₀)
    (ran : run (nativeStep abi) p₀ calls = some p) (args' : InitArgs) :
    ∃ left buffer handed, p.cacheFile = some left ∧
      openBuffer abi Z {} left args' = some (buffer, handed) ∧
      (Recovers abi p handed ↔ p.buffer.live = []) := by
  obtain ⟨mem, ho, -⟩ := openBuffer_eq abi Z {} p.buffer.mem args'
  refine ⟨p.buffer.mem, _, [], if_pos (unset_of_run init ran).mapBuffer, ho, ?_, ?_⟩
  · intro owed
    by_contra live
    obtain ⟨f, file, hf, -⟩ := owed.1 live
    cases hf
  · intro nil
    exact ⟨fun live => absurd nil live, fun _ => rfl⟩

/-- `a` is written to a buffer of eight bytes. -/
theorem sample_written :
    ∃ p₀ p p' : Process blocks, initNative .lp64 blocks {} [] (sampleArgs 8 false) = some p₀ ∧
      run (nativeStep .lp64) p₀ [.log (.write sampleA)] = some p ∧
      p.expLogFileNative .lp64 sampleLog 64 true = some p' ∧
      p.buffer.live = [0x61] ∧ p.enqueued = [] ∧ p'.buffer.live = [] ∧ p'.enqueued = [] := by
  obtain ⟨p₀, init, h⟩ := Option.bind_eq_some_iff.mp (show
    (initNative .lp64 blocks {} [] (sampleArgs 8 false)).bind (fun p₀ =>
      (run (nativeStep .lp64) p₀ [.log (.write sampleA)]).bind fun p =>
        (p.expLogFileNative .lp64 sampleLog 64 true).map fun p' =>
          (p.buffer.live, p.enqueued, p'.buffer.live, p'.enqueued)) = some ([0x61], [], [], []) by
    decide +kernel)
  obtain ⟨p, ran, h⟩ := Option.bind_eq_some_iff.mp h
  obtain ⟨p', rotated, h⟩ := Option.map_eq_some_iff.mp h
  simp only [Prod.mk.injEq] at h
  exact ⟨p₀, p, p', init, ran, rotated, h⟩

/-- The calls of a process that hands over what it has written. -/
def flushedCalls : List NativeCall := [.log (.write sampleA), .log .asyncFlush]

/-- `a` is written and handed over, and then the log is rotated. -/
theorem sample_flushed :
    ∃ p₀ p p' : Process blocks, initNative .lp64 blocks {} [] (sampleArgs 8 false) = some p₀ ∧
      run (nativeStep .lp64) p₀ flushedCalls = some p ∧
      p.expLogFileNative .lp64 sampleLog 64 true = some p' ∧
      p.buffer.live = [] ∧ p.enqueued.map BufferFlush.payload = [[0x61]] := by
  obtain ⟨p₀, init, h⟩ := Option.bind_eq_some_iff.mp (show
    (initNative .lp64 blocks {} [] (sampleArgs 8 false)).bind (fun p₀ =>
      (run (nativeStep .lp64) p₀ flushedCalls).bind fun p =>
        (p.expLogFileNative .lp64 sampleLog 64 true).map fun _ =>
          (p.buffer.live, p.enqueued.map BufferFlush.payload)) = some ([], [[0x61]]) by
    decide +kernel)
  obtain ⟨p, ran, h⟩ := Option.bind_eq_some_iff.mp h
  obtain ⟨p', rotated, h⟩ := Option.map_eq_some_iff.mp h
  simp only [Prod.mk.injEq] at h
  exact ⟨p₀, p, p', init, ran, rotated, h⟩

/-- Killed with `a` in the mapping, the process gets nothing from the next `InitNative`; killed after it was
handed over, it is owed nothing more. -/
theorem recovers_iff_nothing_live_written :
    ∃ p₀ p q : Process blocks, initNative .lp64 blocks {} [] (sampleArgs 8 false) = some p₀ ∧
      run (nativeStep .lp64) p₀ [.log (.write sampleA)] = some p ∧
      run (nativeStep .lp64) p₀ flushedCalls = some q ∧ q.enqueued.map BufferFlush.payload = [[0x61]] ∧
      (∃ left buffer handed, p.cacheFile = some left ∧
        openBuffer .lp64 blocks {} left (sampleArgs 8 false) = some (buffer, handed) ∧
        ¬ Recovers .lp64 p handed) ∧
      ∃ left buffer handed, q.cacheFile = some left ∧
        openBuffer .lp64 blocks {} left (sampleArgs 8 false) = some (buffer, handed) ∧
        Recovers .lp64 q handed := by
  obtain ⟨p₀, p, -, init, ran, -, live, -⟩ := sample_written
  obtain ⟨q₀, q, -, init', ran', -, empty, sent⟩ := sample_flushed
  cases init.symm.trans init'
  obtain ⟨left, buffer, handed, cached, opened, iff⟩ := recovers_iff_nothing_live .lp64 blocks []
    (sampleArgs 8 false) p₀ p _ init ran (sampleArgs 8 false)
  obtain ⟨left', buffer', handed', cached', opened', iff'⟩ := recovers_iff_nothing_live .lp64 blocks []
    (sampleArgs 8 false) p₀ q _ init ran' (sampleArgs 8 false)
  have lost : ¬ Recovers .lp64 p handed := by
    rw [iff, live]
    decide
  exact ⟨p₀, p, q, init, ran, ran', sent, ⟨left, buffer, handed, cached, opened, lost⟩,
    left', buffer', handed', cached', opened', iff'.mpr empty⟩

/-- The byte is live in the cache file it leaves, and recovery hands nothing over. -/
theorem written_byte_not_recovered :
    ∃ (p₀ p : Process blocks) (left : Bytes) (buffer : Buffer blocks) (handed : List BufferFlush),
      initNative .lp64 blocks {} [] (sampleArgs 8 false) = some p₀ ∧
      run (nativeStep .lp64) p₀ [.log (.write sampleA)] = some p ∧
      p.cacheFile = some left ∧ p.buffer.live = [0x61] ∧
      openBuffer .lp64 blocks {} left (sampleArgs 8 false) = some (buffer, handed) ∧
      ¬ Recovers .lp64 p handed := by
  obtain ⟨p₀, p, -, init, ran, -, live, -⟩ := sample_written
  obtain ⟨mem, opened, -⟩ := openBuffer_eq .lp64 blocks {} p.buffer.mem (sampleArgs 8 false)
  refine ⟨p₀, p, p.buffer.mem, _, [], init, ran, if_pos (unset_of_run init ran).mapBuffer, live,
    opened, ?_⟩
  intro owed
  obtain ⟨f, file, hf, -⟩ := owed.1 (by rw [live]; decide)
  cases hf

/-! ## Rotation -/

/-- Everything written so far: the payloads in the order of their enqueue, then the live region. -/
def Process.stream (p : Process Z) : Bytes :=
  (p.enqueued.map BufferFlush.payload).flatten ++ p.buffer.live

/-- What a rotation owes: the live region is enqueued, bound to the old log file, and nothing is
lost of the stream. -/
def RotationKeeps (p p' : Process Z) : Prop :=
  (p.buffer.live ≠ [] → ∃ f, p'.enqueued = p.enqueued ++ [f] ∧ f.payload = p.buffer.live ∧
    f.logFilePtr = p.buffer.logFilePtr) ∧
  p'.buffer.live = [] ∧ p'.stream = p.stream

/-- **Rotation.** In every run of native calls, a rotation keeps the stream exactly where nothing
is live when `ExpLogFileNative` is called. -/
theorem rotation_keeps_iff_nothing_live (abi : Abi) (Z : Zlib) (sys : SysCalls) (file : Bytes)
    (args : InitArgs) (p₀ p p' : Process Z) (calls : List NativeCall) (path : JString)
    (limitSize : Int32) (logOpened : Bool)
    (init : initNative abi Z sys file args = some p₀)
    (ran : run (nativeStep abi) p₀ calls = some p)
    (rotated : p.expLogFileNative abi path limitSize logOpened = some p') :
    RotationKeeps p p' ↔ p.buffer.live = [] := by
  obtain ⟨-, same, empty⟩ := (unset_of_run init ran).expLogFileNative rotated
  constructor
  · intro keeps
    by_contra live
    obtain ⟨f, hf, -⟩ := keeps.1 live
    rw [same] at hf
    exact absurd hf (by simp)
  · intro nil
    refine ⟨fun live => absurd nil live, empty, ?_⟩
    rw [Process.stream, Process.stream, same, empty, nil]

/-- A rotation after `a` was handed over keeps it; one before loses it. -/
theorem rotation_keeps_iff_nothing_live_written :
    ∃ p₀ p p' q q' : Process blocks, initNative .lp64 blocks {} [] (sampleArgs 8 false) = some p₀ ∧
      run (nativeStep .lp64) p₀ [.log (.write sampleA)] = some p ∧
      p.expLogFileNative .lp64 sampleLog 64 true = some p' ∧ ¬ RotationKeeps p p' ∧
      run (nativeStep .lp64) p₀ flushedCalls = some q ∧
      q.expLogFileNative .lp64 sampleLog 64 true = some q' ∧ RotationKeeps q q' ∧
      q'.stream = [0x61] := by
  obtain ⟨p₀, p, p', init, ran, rotated, live, -⟩ := sample_written
  obtain ⟨q₀, q, q', init', ran', rotated', empty, sent⟩ := sample_flushed
  cases init.symm.trans init'
  have iff := rotation_keeps_iff_nothing_live .lp64 blocks {} [] (sampleArgs 8 false) p₀ p p' _ sampleLog 64
    true init ran rotated
  have lost : ¬ RotationKeeps p p' := by
    rw [iff, live]
    decide
  have keeps := (rotation_keeps_iff_nothing_live .lp64 blocks {} [] (sampleArgs 8 false) p₀ q q' _ sampleLog 64
    true init ran' rotated').mpr empty
  have same : q'.stream = [0x61] := by
    rw [keeps.2.2, Process.stream, empty, sent]
    rfl
  exact ⟨p₀, p, p', q, q', init, ran, rotated, lost, ran', rotated', keeps, same⟩

/-- The byte was live before the rotation, and is nowhere after it. -/
theorem written_byte_not_rotated :
    ∃ p₀ p p' : Process blocks, initNative .lp64 blocks {} [] (sampleArgs 8 false) = some p₀ ∧
      run (nativeStep .lp64) p₀ [.log (.write sampleA)] = some p ∧
      p.expLogFileNative .lp64 sampleLog 64 true = some p' ∧
      p.stream = [0x61] ∧ p'.stream = [] ∧ ¬ RotationKeeps p p' := by
  obtain ⟨p₀, p, p', init, ran, rotated, live, sent, live', sent'⟩ := sample_written
  have before : p.stream = [0x61] := by
    rw [Process.stream, live, sent]
    rfl
  have after : p'.stream = [] := by
    rw [Process.stream, live', sent']
    rfl
  refine ⟨p₀, p, p', init, ran, rotated, before, after, ?_⟩
  intro keeps
  have same := keeps.2.2
  rw [before, after] at same
  cases same

end Dolin.Zap
