import Dolin.Laws.Zap.Recovery
import Dolin.Laws.Zap.Representation
import Dolin.Zap.Parts

/-!
# The size of the parts

What a flush appends is at most what the buffer holds, so a part that was below its limit before an
append is below the limit and the buffer's size after it. `asyncFlush` makes sure of the first: it
either found the part below the limit, or it has gone on to a new part and has nothing left to flush.
`write` makes sure of nothing.
-/

namespace Dolin.Zap

open Region BufferHeader Machine

variable {Z : Zlib} {abi : Abi}

/-! ## Room for the header of every part -/

namespace PartNames

theorem length_partPath_le (names : PartNames) (num : Int32) :
    (names.partPath num).length ≤ names.stem.length + 17 := by
  have := length_decimal_le num
  simp only [JString.length, partPath, named, List.length_append, List.length_cons, List.length_nil]
  omega

theorem length_firstPath (names : PartNames) (num : Int32) :
    names.stem.length + 4 ≤ (names.firstPath num).length ∧
      (names.firstPath num).length ≤ names.stem.length + 17 := by
  unfold firstPath
  split
  · refine ⟨?_, names.length_partPath_le num⟩
    simp only [JString.length, partPath, named, List.length_append, List.length_cons, List.length_nil]
    omega
  · simp only [JString.length, named, List.length_append, List.length_cons, List.length_nil]
    omega

end PartNames

/-- The arguments that `ZapRecord.init` gives to `InitNative`. -/
def recordArgs (names : PartNames) (num capacity limitSize : Int32) : InitArgs :=
  { logPath := names.firstPath num, capacity, limitSize, compress := false }

/-- The size of the mapping does not wrap. -/
theorem bufferSize_recordArgs (abi : Abi) (names : PartNames) (num limitSize : Int32)
    {capacity : Int32} (nonneg : 0 ≤ capacity.toInt) :
    (recordArgs names num capacity limitSize).bufferSize abi =
      capacity.toInt.toNat + calculateHeaderLen abi (names.firstPath num).length := by
  have small := capacity.toInt_lt
  have short := names.short
  have first := names.length_firstPath num
  have := abi.two_pow_32_le_modulus
  have := abi.sizeofSizeT_le
  have header := calculateHeaderLen_eq abi (names.firstPath num).strlen_lt
  rw [InitArgs.bufferSize, recordArgs, Abi.ofInt_of_nonneg nonneg (by omega)]
  dsimp only
  exact Abi.wrap_of_lt (by omega)

/-- With 21 bytes behind the header of the first part there is room for the header of every part. -/
theorem room_partPath (abi : Abi) (names : PartNames) (num limitSize : Int32) {capacity : Int32}
    (enough : 21 ≤ capacity.toInt) (next : Int32) :
    calculateHeaderLen abi (names.partPath next).length + 8 ≤
      (recordArgs names num capacity limitSize).bufferSize abi := by
  have first := names.length_firstPath num
  have part := names.length_partPath_le next
  rw [bufferSize_recordArgs abi names num limitSize (by omega),
    calculateHeaderLen_eq abi (names.firstPath num).strlen_lt,
    calculateHeaderLen_eq abi (names.partPath next).strlen_lt]
  omega

/-! ## What a flush appends -/

namespace Disk

/-- The disk once the live region of a buffer is written to its file. -/
def flushLive (d : Disk) (b : Buffer Z) : Disk :=
  match b.logFilePtr with
  | none => d
  | some file => if b.live = [] then d else Ledger.State.append d file.path b.live

/-- A flush of the buffer would land in a file below the limit, or nowhere. -/
def LandsBelow (limit : Nat) (d : Disk) (b : Buffer Z) : Prop :=
  b.live ≠ [] → ∀ file ∈ b.logFilePtr, d.sizeOf file < limit

instance (limit : Nat) (d : Disk) (b : Buffer Z) : Decidable (LandsBelow limit d b) :=
  inferInstanceAs (Decidable (_ → ∀ file ∈ b.logFilePtr, _))

/-- The worker writes what is handed over. -/
theorem foldl_flush {b : Buffer Z} {handed : List BufferFlush} (h : Process.Carries b handed)
    (d : Disk) : handed.foldl flush d = d.flushLive b := by
  rcases h with ⟨nil, rfl⟩ | ⟨f, ne, rfl, payload, length, file⟩
  · unfold flushLive
    split
    · rfl
    · rw [if_pos nil]
      rfl
  · have pos : f.getLength > 0 := by
      rw [length]
      exact List.length_pos_iff.mpr ne
    rw [List.foldl_cons, List.foldl_nil, flush, flushLive, file]
    cases b.logFilePtr with
    | none => rfl
    | some file =>
      dsimp only
      rw [if_pos pos, if_neg ne, payload]

/-- The appends of a flush, and when they land below the limit. -/
theorem flushLive_entries (d : Disk) (b : Buffer Z) (limit : Nat) :
    ∃ new, (d.flushLive b).entries = d.entries ++ new ∧
      (∀ e ∈ new, e.bytes = b.live) ∧
      ((∀ e ∈ new, e.before < limit) ↔ LandsBelow limit d b) := by
  unfold flushLive LandsBelow
  cases b.logFilePtr with
  | none => exact ⟨[], (List.append_nil _).symm, nofun, fun _ _ => nofun, fun _ => nofun⟩
  | some file =>
    dsimp only
    by_cases nil : b.live = []
    · rw [if_pos nil]
      exact ⟨[], (List.append_nil _).symm, nofun, fun _ ne => absurd nil ne, fun _ => nofun⟩
    · rw [if_neg nil]
      refine ⟨_, rfl, List.forall_mem_singleton.mpr rfl, ?_⟩
      rw [List.forall_mem_singleton]
      constructor
      · rintro below - file' mem
        cases mem
        exact below
      · intro below
        exact below nil file rfl

theorem flushLive_traced {start : Bytes → Bytes} {d : Disk} (h : Ledger.Traced start d)
    (b : Buffer Z) : Ledger.Traced start (d.flushLive b) := by
  unfold flushLive
  split
  · exact h
  · split
    · exact h
    · exact h.append _ _

end Disk

/-! ## One call -/

/-- What holds of a recorder between two calls: the header gives the limit, the worker is the one of
`InitNative` and `file_flush_ptr` is not set, there is room for the header of every part, every file
is as the appends have left it, and no append is as long as the buffer. -/
structure Recorder.Sound (abi : Abi) (limit : Int32) (size : Nat) (start : Bytes → Bytes)
    (r : Recorder Z) : Prop where
  wf : ∃ path len, r.process.buffer.WF abi path (abi.ofInt limit.toInt) len
  size_eq : r.process.buffer.bufferSize = size
  flush : r.process.pFileFlush = some newFileFlush
  unset : r.process.buffer.fileFlushPtr = none
  limit_eq : r.limitSize = limit
  room : ∀ num, calculateHeaderLen abi (r.names.partPath num).length + 8 ≤ size
  traced : Ledger.Traced start r.disk
  carried : ∀ e ∈ r.disk.entries, e.bytes.length < size

/-- What a call adds to the appends lands below the limit exactly where a condition holds. -/
def Adds (limit : Int32) (r r' : Recorder Z) (condition : Prop) : Prop :=
  ∃ new, r'.disk.entries = r.disk.entries ++ new ∧
    ((∀ e ∈ new, e.before < limit.toInt.toNat) ↔ condition)

theorem Adds.nothing {limit : Int32} {r r' : Recorder Z} {condition : Prop}
    (same : r'.disk.entries = r.disk.entries) (always : condition) : Adds limit r r' condition :=
  ⟨[], same.trans (List.append_nil _).symm, fun _ => always, fun _ => nofun⟩

/-- A flush lands below the limit. -/
def Recorder.LandsBelow (r : Recorder Z) : Prop :=
  r.disk.LandsBelow r.limitSize.toInt.toNat r.process.buffer

instance (r : Recorder Z) : Decidable r.LandsBelow :=
  inferInstanceAs (Decidable (Disk.LandsBelow _ _ _))

/-- Where the call is a `write` whose message fills the buffer, the flush that it makes lands below
the limit. -/
def FlushesBelow (abi : Abi) (r : Recorder Z) : PartCall → Prop
  | .write msg => (∃ empty ∈ r.process.buffer.emptySize abi, empty ≤ msg.length) → r.LandsBelow
  | .asyncFlush _ => True

instance (r : Recorder Z) : (call : PartCall) → Decidable (FlushesBelow abi r call)
  | .write _ => inferInstanceAs (Decidable ((∃ empty ∈ r.process.buffer.emptySize abi, _) → _))
  | .asyncFlush _ => isTrue trivial

namespace Recorder.Sound

variable {limit : Int32} {size : Nat} {start : Bytes → Bytes} {r : Recorder Z}

/-- The live region is shorter than the mapping. -/
theorem live_lt (h : r.Sound abi limit size start) : r.process.buffer.live.length < size := by
  obtain ⟨path, len, wf⟩ := h.wf
  have bound := wf.bound
  have header := calculateHeaderLen_eq abi path.strlen_lt
  rw [wf.length_live, ← h.size_eq]
  omega

/-- After a native call that hands the live region over, or nothing. -/
theorem settle (h : r.Sound abi limit size start) (p' : Process Z) {handed : List BufferFlush}
    (wf : ∃ path len, p'.buffer.WF abi path (abi.ofInt limit.toInt) len)
    (frame : r.process.buffer.Frame p'.buffer) (flush : p'.pFileFlush = r.process.pFileFlush)
    (enqueued : p'.enqueued = r.process.enqueued ++ handed)
    (carries : Process.Carries r.process.buffer handed) :
    (r.settle p').Sound abi limit size start ∧ Adds limit r (r.settle p') r.LandsBelow := by
  have disk : (r.settle p').disk = r.disk.flushLive r.process.buffer := by
    rw [Recorder.settle, enqueued, List.drop_left]
    exact Disk.foldl_flush carries r.disk
  obtain ⟨new, entries, bytes, below⟩ := r.disk.flushLive_entries r.process.buffer
    limit.toInt.toNat
  constructor
  · refine ⟨wf, frame.bufferSize.trans h.size_eq, flush.trans h.flush,
      frame.fileFlushPtr.trans h.unset, h.limit_eq, h.room, ?_, ?_⟩
    · rw [disk]
      exact Disk.flushLive_traced h.traced _
    · rw [disk, entries]
      intro e mem
      rcases List.mem_append.mp mem with old | mem
      · exact h.carried e old
      · rw [bytes e mem]
        exact h.live_lt
  · refine ⟨new, by rw [disk, entries], ?_⟩
    rw [Recorder.LandsBelow, h.limit_eq]
    exact below

/-- A native call that enqueues nothing. -/
theorem settle_nothing (h : r.Sound abi limit size start) (p' : Process Z)
    (wf : ∃ path len, p'.buffer.WF abi path (abi.ofInt limit.toInt) len)
    (bufferSize : p'.buffer.bufferSize = r.process.buffer.bufferSize)
    (unset : p'.buffer.fileFlushPtr = none) (flush : p'.pFileFlush = r.process.pFileFlush)
    (enqueued : p'.enqueued = r.process.enqueued) :
    (r.settle p').Sound abi limit size start ∧ (r.settle p').disk = r.disk := by
  have disk : (r.settle p').disk = r.disk := by
    rw [Recorder.settle, enqueued, List.drop_length]
    rfl
  refine ⟨⟨wf, bufferSize.trans h.size_eq, flush.trans h.flush, unset, h.limit_eq, h.room, ?_, ?_⟩,
    disk⟩
  · rw [disk]
    exact h.traced
  · rw [disk]
    exact h.carried

theorem write (h : r.Sound abi limit size start) (msg : JString) :
    ∃ r', r.write abi msg = some r' ∧ r'.Sound abi limit size start ∧
      Adds limit r r' (FlushesBelow abi r (.write msg)) := by
  obtain ⟨path, len, wf⟩ := h.wf
  by_cases full : r.process.buffer.bufferSize - (calculateHeaderLen abi path.length + len) ≤ msg.length
  · obtain ⟨p₁, handed, hp, wf₁, enqueued, carries, frame, kept⟩ := Process.callFileFlush_carries wf h.flush
    obtain ⟨b', n, ha, wf₂⟩ := wf₁.append msg.utf8
    have room : r.process.makeRoom abi msg = some p₁ := by
      refine Option.bind_eq_some_iff.mpr ⟨_, wf.emptySize, (if_pos ⟨full, ?_⟩).trans hp⟩
      rw [h.flush]
      rfl
    have wrote : r.process.writeNative abi msg = some { p₁ with buffer := b' } :=
      Option.bind_eq_some_iff.mpr ⟨_, room, Option.bind_eq_some_iff.mpr ⟨_, ha, rfl⟩⟩
    obtain ⟨sound, adds⟩ := h.settle { p₁ with buffer := b' } ⟨path, _, wf₂⟩
      (frame.trans (Buffer.append_frame ha)) kept enqueued carries
    refine ⟨_, Option.bind_eq_some_iff.mpr ⟨_, wrote, rfl⟩, sound, ?_⟩
    have same : FlushesBelow abi r (.write msg) ↔ r.LandsBelow :=
      ⟨fun below => below ⟨_, wf.emptySize, full⟩, fun below _ => below⟩
    rwa [same]
  · obtain ⟨b', n, ha, wf'⟩ := wf.append msg.utf8
    have room : r.process.makeRoom abi msg = some r.process :=
      Option.bind_eq_some_iff.mpr ⟨_, wf.emptySize, if_neg fun both => full both.1⟩
    have wrote : r.process.writeNative abi msg = some { r.process with buffer := b' } :=
      Option.bind_eq_some_iff.mpr ⟨_, room, Option.bind_eq_some_iff.mpr ⟨_, ha, rfl⟩⟩
    have frame := Buffer.append_frame ha
    obtain ⟨sound, disk⟩ := h.settle_nothing { r.process with buffer := b' } ⟨path, _, wf'⟩
      frame.bufferSize (frame.fileFlushPtr.trans h.unset) rfl rfl
    refine ⟨_, Option.bind_eq_some_iff.mpr ⟨_, wrote, rfl⟩, sound, .nothing (by rw [disk]) ?_⟩
    rintro ⟨empty, found, fills⟩
    rw [wf.emptySize] at found
    cases found
    exact absurd fills full

/-- The flush at the end of `asyncFlush`. -/
theorem flushes (h : r.Sound abi limit size start) :
    ∃ p', r.process.asyncFlushNative abi = some p' ∧ (r.settle p').Sound abi limit size start ∧
      Adds limit r (r.settle p') r.LandsBelow := by
  obtain ⟨path, len, wf⟩ := h.wf
  obtain ⟨p', handed, hp, wf', enqueued, carries, frame, kept⟩ := Process.callFileFlush_carries wf h.flush
  refine ⟨p', ?_, h.settle p' ⟨path, _, wf'⟩ frame kept enqueued carries⟩
  rw [Process.asyncFlushNative, h.flush]
  exact hp

/-- The next part: nothing is handed over, and nothing is left to flush. -/
theorem expand (h : r.Sound abi limit size start) (logOpened : Bool) :
    ∃ r', r.expand abi logOpened = some r' ∧ r'.Sound abi limit size start ∧ r'.disk = r.disk ∧
      r'.process.buffer.live = [] := by
  obtain ⟨path, len, wf⟩ := h.wf
  have keeps : r.process.Keeps abi size (path, abi.ofInt limit.toInt) := ⟨len, wf, h.size_eq⟩
  obtain ⟨p', hp, len', wf', size'⟩ := keeps.expLogFileNative (r.names.partPath (r.num + 1))
    r.limitSize logOpened (h.room _)
  have unset : r.process.Unset r.process.buffer.mapBuffer := ⟨wf.header.length, h.unset, rfl⟩
  obtain ⟨unset', enqueued, live⟩ := unset.expLogFileNative hp
  have flush : p'.pFileFlush = r.process.pFileFlush := by
    obtain ⟨called, -, hp⟩ := Option.bind_eq_some_iff.mp hp
    obtain ⟨b', -, hp⟩ := Option.bind_eq_some_iff.mp hp
    cases hp
    rfl
  have renamed : { r with num := r.num + 1 }.Sound abi limit size start :=
    ⟨h.wf, h.size_eq, h.flush, h.unset, h.limit_eq, h.room, h.traced, h.carried⟩
  rw [h.limit_eq] at wf'
  obtain ⟨sound, disk⟩ := renamed.settle_nothing p' ⟨_, _, wf'⟩ (size'.trans h.size_eq.symm)
    unset'.fileFlushPtr flush enqueued
  exact ⟨_, Option.bind_eq_some_iff.mpr ⟨_, hp, rfl⟩, sound, disk, live⟩

/-- The answer of `isLogFileOverSizeNative`: without a file it is no. -/
theorem overSize (h : r.Sound abi limit size start) (positive : 0 < limit.toInt) :
    ∃ answer, r.process.isLogFileOverSizeNative abi r.disk.sizeOf = some answer ∧
      (answer = false → r.LandsBelow) := by
  obtain ⟨path, len, wf⟩ := h.wf
  refine ⟨_, Option.bind_eq_some_iff.mpr ⟨_, wf.header.getLimitSize, rfl⟩, ?_⟩
  intro below live file found
  have small := limit.toInt_lt
  rw [decide_eq_false_iff_not, Buffer.getCurrentLogFileSize, Option.mem_def.mp found,
    Abi.ofInt_of_nonneg (by omega) (by omega)] at below
  dsimp only at below
  rw [abi.le_ftell_iff _ (by omega), Nat.not_le] at below
  rw [h.limit_eq]
  exact below

theorem asyncFlush (h : r.Sound abi limit size start) (positive : 0 < limit.toInt) (logOpened : Bool) :
    ∃ r', r.asyncFlush abi logOpened = some r' ∧ r'.Sound abi limit size start ∧
      Adds limit r r' (FlushesBelow abi r (.asyncFlush logOpened)) := by
  obtain ⟨answer, asked, below⟩ := h.overSize positive
  cases answer with
  | true =>
    obtain ⟨r₁, expanded, sound₁, disk, live⟩ := h.expand logOpened
    obtain ⟨p', hp, sound, new, entries, iff⟩ := sound₁.flushes
    refine ⟨_, Option.bind_eq_some_iff.mpr ⟨_, asked, Option.bind_eq_some_iff.mpr ⟨_, expanded,
      Option.bind_eq_some_iff.mpr ⟨_, hp, rfl⟩⟩⟩, sound, new, by rw [entries, disk], ?_⟩
    exact iff.trans ⟨fun _ => trivial, fun _ ne => absurd live ne⟩
  | false =>
    obtain ⟨p', hp, sound, new, entries, iff⟩ := h.flushes
    refine ⟨_, Option.bind_eq_some_iff.mpr ⟨_, asked, Option.bind_eq_some_iff.mpr ⟨_, hp, rfl⟩⟩, sound,
      new, entries, ?_⟩
    exact iff.trans ⟨fun _ => trivial, fun _ => below rfl⟩

/-- **The step**: every call completes, and its appends land below the limit exactly where it
flushes below the limit. -/
theorem partStep (h : r.Sound abi limit size start) (positive : 0 < limit.toInt) (call : PartCall) :
    ∃ r', partStep abi r call = some r' ∧ r'.Sound abi limit size start ∧
      Adds limit r r' (FlushesBelow abi r call) := by
  cases call with
  | write msg => exact h.write msg
  | asyncFlush logOpened => exact h.asyncFlush positive logOpened

end Recorder.Sound

/-! ## Every run -/

/-- **The run**: the appends of a list of calls land below the limit exactly where every call
flushes below it. -/
theorem run_adds {limit : Int32} {size : Nat} {start : Bytes → Bytes} (positive : 0 < limit.toInt)
    {r : Recorder Z} (h : r.Sound abi limit size start) (calls : List PartCall) :
    ∃ r', run (partStep abi) r calls = some r' ∧ r'.Sound abi limit size start ∧
      Adds limit r r' (Meets (partStep abi) (FlushesBelow abi) r calls) := by
  induction calls generalizing r with
  | nil => exact ⟨r, rfl, h, .nothing rfl trivial⟩
  | cons call calls ih =>
    obtain ⟨r₁, step, sound, new, entries, iff⟩ := h.partStep positive call
    obtain ⟨r', ran, sound', new', entries', iff'⟩ := ih sound
    refine ⟨r', ?_, sound', new ++ new', ?_, ?_⟩
    · rw [run, step, Option.bind_some, ran]
    · rw [entries', entries, List.append_assoc]
    · rw [List.forall_mem_append, iff, iff', Meets, step]
      simp only [Option.some.injEq, forall_eq']

/-- `init` starts a sound recorder, with no append. -/
theorem init_sound {sys : SysCalls} {cache : Bytes} {files : Bytes → Bytes} {names : PartNames}
    {num capacity limitSize : Int32} {r₀ : Recorder Z}
    (init : Recorder.init abi Z sys cache files names num capacity limitSize = some r₀)
    (enough : 21 ≤ capacity.toInt) :
    r₀.Sound abi limitSize ((recordArgs names num capacity limitSize).bufferSize abi) files ∧
      r₀.disk.entries = [] := by
  obtain ⟨p, hp, hr⟩ := Option.bind_eq_some_iff.mp init
  cases hr
  have nonneg : 0 ≤ capacity.toInt := by omega
  have size := bufferSize_recordArgs abi names num limitSize nonneg
  have started := initNative_started hp (initNative_room hp size)
  obtain ⟨mem, -, hi, -, -⟩ := initNative_inv hp
  have disk : p.enqueued.foldl Disk.flush ({ content := files } : Disk) = { content := files } := by
    rw [started.enqueued]
    rfl
  refine ⟨⟨⟨_, _, started.wf⟩, started.size, started.flush, (Buffer.initData_reset hi).fileFlushPtr,
    rfl, room_partPath abi names num limitSize enough, ?_, ?_⟩, ?_⟩
  · rw [disk]
    exact Ledger.traced_start files
  · rw [disk]
    exact List.forall_mem_nil _
  · rw [disk]

/-- **The size of the parts.** Let `init` be called in uncompressed mode with a positive limit and a
capacity of at least 21 bytes. For every list of calls of `write` and `asyncFlush`, with a worker
that writes at once: every payload is appended to a file that was below the limit, and so no file
that starts below the limit and the buffer's size reaches that, if and only if every `write` that
fills the buffer finds nothing live or the part in use below the limit. -/
theorem parts_bounded_iff (abi : Abi) (Z : Zlib) (sys : SysCalls) (cache : Bytes)
    (files : Bytes → Bytes) (names : PartNames) (num capacity limitSize : Int32) (r₀ : Recorder Z)
    (init : Recorder.init abi Z sys cache files names num capacity limitSize = some r₀)
    (positive : 0 < limitSize.toInt) (enough : 21 ≤ capacity.toInt) (calls : List PartCall) :
    ∃ r, run (partStep abi) r₀ calls = some r ∧
      (((∀ e ∈ r.disk.entries, e.before < limitSize.toInt.toNat) ∧
        ∀ path, (files path).length < limitSize.toInt.toNat + r₀.process.buffer.bufferSize →
          (r.disk.content path).length < limitSize.toInt.toNat + r₀.process.buffer.bufferSize) ↔
        Meets (partStep abi) (FlushesBelow abi) r₀ calls) := by
  obtain ⟨sound₀, none⟩ := init_sound init enough
  obtain ⟨r, ran, sound, new, entries, iff⟩ := run_adds positive sound₀ calls
  rw [none, List.nil_append] at entries
  refine ⟨r, ran, ?_⟩
  rw [← iff, ← entries, sound₀.size_eq]
  refine ⟨And.left, fun below => ⟨below, fun path low => ?_⟩⟩
  exact sound.traced.length_lt below sound.carried low

/-- The parts `/d.zap`, `/d-p1.zap` and so on. -/
def sampleNames : PartNames := ⟨[0x2f, 0x64], by decide, by decide⟩

/-- A recorder with 24 bytes behind the header and a limit of 8 bytes. -/
def sampleRecorder : Option (Recorder blocks) :=
  Recorder.init .lp64 blocks {} [] (fun _ => []) sampleNames 0 24 8

/-- Two messages, a flush that takes the first part over the limit, and a flush that goes on to the
next part. -/
theorem parts_bounded_expanded :
    ∃ r₀, sampleRecorder = some r₀ ∧
      ∃ r, run (partStep .lp64) r₀ [.write sampleHello, .write sampleHello, .asyncFlush true,
          .write sampleHello, .asyncFlush true] = some r ∧
        (∀ e ∈ r.disk.entries, e.before < 8) ∧
        ∀ path, (r.disk.content path).length < 8 + r₀.process.buffer.bufferSize := by
  obtain ⟨r₀, init, meets⟩ := Option.map_eq_some_iff.mp (show
    sampleRecorder.map (fun r₀ => decide (Meets (partStep .lp64) (FlushesBelow .lp64) r₀
      [.write sampleHello, .write sampleHello, .asyncFlush true, .write sampleHello,
        .asyncFlush true])) = some true by decide +kernel)
  obtain ⟨r, ran, iff⟩ := parts_bounded_iff .lp64 blocks {} [] (fun _ => []) sampleNames 0 24 8 r₀ init
    (by simp) (by simp) [.write sampleHello, .write sampleHello, .asyncFlush true,
      .write sampleHello, .asyncFlush true]
  obtain ⟨below, capped⟩ := iff.mpr (of_decide_eq_true meets)
  exact ⟨r₀, init, r, ran, below, fun path => capped path (Nat.lt_add_right _ (by simp))⟩

/-- Seventeen messages with no `asyncFlush`: four times the buffer is full and is flushed to the
first part, which was over the limit of 8 bytes three times. It ends with 80 bytes, above the limit
and the 56 bytes of the buffer. -/
theorem full_buffer_ignores_limit :
    ∃ r₀ r, sampleRecorder = some r₀ ∧
      run (partStep .lp64) r₀ (List.replicate 17 (.write sampleHello)) = some r ∧
      r.disk.entries.map (·.before) = [0, 20, 40, 60] ∧
      (r.disk.content (sampleNames.firstPath 0).utf8).length = 80 ∧
      8 + r₀.process.buffer.bufferSize = 64 ∧
      ¬ (∀ e ∈ r.disk.entries, e.before < 8) := by
  obtain ⟨r₀, init, facts⟩ := Option.map_eq_some_iff.mp (show
    sampleRecorder.map (fun r₀ => (r₀.process.buffer.bufferSize,
        (run (partStep .lp64) r₀ (List.replicate 17 (.write sampleHello))).map fun r =>
          (r.disk.entries.map (·.before), (r.disk.content (sampleNames.firstPath 0).utf8).length))) =
      some (56, some ([0, 20, 40, 60], 80)) by decide +kernel)
  obtain ⟨size, ran⟩ := Prod.mk.inj facts
  obtain ⟨r, ran, found⟩ := Option.map_eq_some_iff.mp ran
  obtain ⟨befores, length⟩ := Prod.mk.inj found
  refine ⟨r₀, r, init, ran, befores, length, by rw [size], fun below => ?_⟩
  have large : 20 ∈ r.disk.entries.map (·.before) := by
    rw [befores]
    decide
  obtain ⟨e, mem, eq⟩ := List.mem_map.mp large
  have := below e mem
  omega

end Dolin.Zap
