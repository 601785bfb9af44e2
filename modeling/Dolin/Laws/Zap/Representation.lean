import Dolin.Laws.Zap.Native

/-!
# The representation invariant over whole runs

Every native method, and `Clear` by itself, keeps `Buffer.WF`, in compressed and in uncompressed
mode and whatever `fopen` and zlib answer. A rotation moves the invariant to its own path and
limit, as long as the new header has room.
-/

namespace Dolin.Zap

open Region BufferHeader Machine

variable {Z : Zlib} {abi : Abi}

/-- A native call, or `Clear` alone. -/
inductive BufferCall where
  | native (call : NativeCall)
  | clear

/-- One such call, as a step of the process. -/
def bufferStep (abi : Abi) (p : Process Z) : BufferCall → Option (Process Z)
  | .native call => nativeStep abi p call
  | .clear => do
    let buffer ← p.buffer.clear abi
    return { p with buffer }

/-- The path and limit of the last `InitData`, after one more call. -/
def lastInit (abi : Abi) : JString × Nat → BufferCall → JString × Nat
  | _, .native (.expLogFile path limitSize _) => (path, abi.ofInt limitSize.toInt)
  | last, _ => last

/-- A rotation asks for a path whose header leaves eight bytes of the mapping. -/
def BufferCall.RoomIn (abi : Abi) (size : Nat) : BufferCall → Prop
  | .native (.expLogFile path _ _) => calculateHeaderLen abi path.length + 8 ≤ size
  | _ => True

/-- What the buffer promises about its representation, in the words of its readers: the magic byte
is in place; `data_ptr` is behind the header of the current path; the write pointer lies between it
and the end of the mapping, so that `EmptySize` is a true difference; the stored log length is
`write_ptr - data_ptr`; path and limit read back (an empty path as null). -/
def Represents (abi : Abi) (b : Buffer Z) (path : JString) (limit : Nat) : Prop :=
  load b.mem 0 1 = some [kMagicHeader] ∧
  b.dataPtr = some (calculateHeaderLen abi path.length) ∧
  (∃ w, b.writePtr = some w ∧ calculateHeaderLen abi path.length ≤ w ∧ w ≤ b.bufferSize ∧
    b.emptySize abi = some (b.bufferSize - w) ∧
    loadWord abi.sizeofSizeT b.mem 1 = some (w - calculateHeaderLen abi path.length)) ∧
  b.getLogPath abi = some (if path.utf8 = [] then none else some path.utf8) ∧
  getLimitSize abi b.mem b.bufferSize = some limit

/-- The invariant gives the promise. -/
theorem Buffer.WF.represents {b : Buffer Z} {path : JString} {limit len : Nat}
    (h : b.WF abi path limit len) : Represents abi b path limit := by
  have ext := h.header.extent
  refine ⟨?_, h.dataPtr, ⟨_, h.writePtr, Nat.le_add_right .., h.bound, h.emptySize, ?_⟩,
    h.getLogPath, h.header.getLimitSize⟩
  · rw [load_eq (by omega), h.header.magic]
  · rw [loadWord_eq (by omega), h.header.logLen, Nat.add_sub_cancel_left]

/-- The invariant of a process: its buffer is well formed for the last `InitData`, in a mapping of
`size` bytes. -/
def Process.Keeps (abi : Abi) (size : Nat) (p : Process Z) (last : JString × Nat) : Prop :=
  ∃ len, p.buffer.WF abi last.1 last.2 len ∧ p.buffer.bufferSize = size

namespace Process.Keeps

variable {size : Nat} {p : Process Z} {last : JString × Nat}

theorem callFileFlush (h : p.Keeps abi size last) :
    ∃ p', p.callFileFlush abi = some p' ∧ p'.Keeps abi size last := by
  obtain ⟨len, wf, hs⟩ := h
  obtain ⟨b', handed, len', hc, wf'⟩ := wf.callFileFlush p.pFileFlush
  exact ⟨_, Option.bind_eq_some_iff.mpr ⟨_, hc, Option.bind_eq_some_iff.mpr ⟨_, rfl, rfl⟩⟩, len', wf',
    (Buffer.callFileFlush_frame hc).bufferSize.trans hs⟩

theorem makeRoom (h : p.Keeps abi size last) (msg : JString) :
    ∃ p', p.makeRoom abi msg = some p' ∧ p'.Keeps abi size last := by
  obtain ⟨len, wf, hs⟩ := h
  by_cases full : msg.length ≥ p.buffer.bufferSize - (calculateHeaderLen abi last.1.length + len) ∧
      p.pFileFlush.isSome
  · obtain ⟨p', hp, h'⟩ := callFileFlush ⟨len, wf, hs⟩
    exact ⟨p', Option.bind_eq_some_iff.mpr ⟨_, wf.emptySize, (if_pos full).trans hp⟩, h'⟩
  · exact ⟨p, Option.bind_eq_some_iff.mpr ⟨_, wf.emptySize, if_neg full⟩, len, wf, hs⟩

theorem writeNative (h : p.Keeps abi size last) (msg : JString) :
    ∃ p', p.writeNative abi msg = some p' ∧ p'.Keeps abi size last := by
  obtain ⟨p₁, hp₁, len, wf, hs⟩ := h.makeRoom msg
  obtain ⟨b', n, ha, wf'⟩ := wf.append msg.utf8
  exact ⟨_, Option.bind_eq_some_iff.mpr ⟨_, hp₁, Option.bind_eq_some_iff.mpr ⟨_, ha, rfl⟩⟩, len + n,
    wf', (Buffer.append_frame ha).bufferSize.trans hs⟩

theorem asyncFlushNative (h : p.Keeps abi size last) :
    ∃ p', p.asyncFlushNative abi = some p' ∧ p'.Keeps abi size last := by
  unfold Process.asyncFlushNative
  split
  · exact h.callFileFlush
  · exact ⟨p, rfl, h⟩

theorem expLogFileNative (h : p.Keeps abi size last) (path : JString) (limitSize : Int32)
    (logOpened : Bool) (room : calculateHeaderLen abi path.length + 8 ≤ size) :
    ∃ p', p.expLogFileNative abi path limitSize logOpened = some p' ∧
      p'.Keeps abi size (path, abi.ofInt limitSize.toInt) := by
  obtain ⟨len, wf, hs⟩ := h
  have flushed : ∃ b' handed len', p.buffer.flushStored abi = some { buffer := some b', handed } ∧
      b'.WF abi last.1 last.2 len' ∧ p.buffer.Frame b' := by
    unfold Buffer.flushStored
    split
    · obtain ⟨b', handed, len', hc, wf'⟩ := wf.callFileFlush p.buffer.fileFlushPtr
      exact ⟨b', handed, len', hc, wf', Buffer.callFileFlush_frame hc⟩
    · exact ⟨p.buffer, none, len, rfl, wf, Buffer.Frame.refl _⟩
  obtain ⟨b₁, handed, len', hc, wf', frame⟩ := flushed
  have hw := abi.sizeofSizeT_le
  have hs' := frame.bufferSize.trans hs
  obtain ⟨b₂, hi, wf₂⟩ := Buffer.initData_wf b₁ path b₁.compress
    (fopen path p.opens logOpened) wf'.header.length wf'.header.size_lt
    (by rw [hs']; omega) (Abi.ofInt_lt abi limitSize.toInt)
  exact ⟨_, Option.bind_eq_some_iff.mpr ⟨_, Option.bind_eq_some_iff.mpr ⟨_, hc,
    Option.bind_eq_some_iff.mpr ⟨_, rfl, Option.bind_eq_some_iff.mpr ⟨_, hi, rfl⟩⟩⟩,
    Option.bind_eq_some_iff.mpr ⟨_, rfl, rfl⟩⟩, 0, wf₂,
    (Buffer.initData_reset hi).bufferSize.trans hs'⟩

/-- **The step**: every call completes and keeps the invariant. -/
theorem bufferStep (h : p.Keeps abi size last) (call : BufferCall) (room : call.RoomIn abi size) :
    ∃ p', bufferStep abi p call = some p' ∧ p'.Keeps abi size (lastInit abi last call) := by
  cases call with
  | native call =>
    cases call with
    | log call =>
      cases call with
      | write msg => exact h.writeNative msg
      | asyncFlush => exact h.asyncFlushNative
    | expLogFile path limitSize logOpened => exact h.expLogFileNative path limitSize logOpened room
  | clear =>
    obtain ⟨len, wf, hs⟩ := h
    obtain ⟨b', hc, wf'⟩ := wf.clear
    exact ⟨_, Option.bind_eq_some_iff.mpr ⟨_, hc, rfl⟩, 0, wf',
      (Buffer.clear_frame hc).bufferSize.trans hs⟩

end Process.Keeps

/-- **The representation invariant.** After `InitNative` with a capacity of at least eight bytes
behind the header, every list of `WriteNative`, `AsyncFlushNative`, `Clear` and `ExpLogPath` calls
whose paths leave that room completes, and the buffer represents the path and limit of the last
`InitData`. -/
theorem representation_invariant (abi : Abi) (Z : Zlib) (sys : SysCalls) (file : Bytes)
    (args : InitArgs) (p₀ : Process Z) (init : initNative abi Z sys file args = some p₀)
    (size : (args.bufferSize abi : Int) =
      args.capacity.toInt + calculateHeaderLen abi args.logPath.length)
    (capacity : 8 ≤ args.capacity.toInt) (calls : List BufferCall)
    (paths : ∀ call ∈ calls, call.RoomIn abi (args.bufferSize abi)) :
    ∃ p, run (bufferStep abi) p₀ calls = some p ∧
      Represents abi p.buffer
        (calls.foldl (lastInit abi) (args.logPath, abi.ofInt args.limitSize.toInt)).1
        (calls.foldl (lastInit abi) (args.logPath, abi.ofInt args.limitSize.toInt)).2 := by
  have hw := abi.sizeofSizeT_le
  have started := initNative_started init (by omega)
  have start : p₀.Keeps abi (args.bufferSize abi) (args.logPath, abi.ofInt args.limitSize.toInt) :=
    ⟨0, started.wf, started.size⟩
  obtain ⟨p, hp, len, wf, -⟩ := run_refines (fun p last call room h => h.bufferStep call room)
    start paths
  exact ⟨p, hp, wf.represents⟩

/-- A write, a flush, a rotation to the same path and a `Clear`, in compress mode. -/
theorem representation_invariant_rotated :
    ∃ p₀ : Process blocks, initNative .lp64 blocks {} [] (sampleArgs 8 true) = some p₀ ∧
      ∃ p, run (bufferStep .lp64) p₀ [.native (.log (.write sampleA)), .native (.log .asyncFlush),
          .native (.expLogFile sampleLog 32 true), .clear] = some p ∧
        Represents .lp64 p.buffer sampleLog 32 := by
  obtain ⟨p₀, init⟩ := Option.isSome_iff_exists.mp (show
    (initNative .lp64 blocks {} [] (sampleArgs 8 true)).isSome = true by decide +kernel)
  refine ⟨p₀, init, representation_invariant .lp64 blocks {} [] (sampleArgs 8 true) p₀ init
    (by decide) (by decide) _ ?_⟩
  simp only [List.forall_mem_cons, BufferCall.RoomIn, List.not_mem_nil, false_implies, implies_true,
    and_true, true_and]
  decide

end Dolin.Zap
