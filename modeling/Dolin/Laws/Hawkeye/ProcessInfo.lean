import Dolin.Hawkeye.ProcessInfo

/-!
# The line about a process and a thread, and what it depends on

`ReadFile` leaves its buffer in one of three ways: as it was, where the file cannot be opened; with the
first bytes of the file and a zero byte; or, where a read fails, with the bytes it had and no zero byte
of its own. The caller prepares the buffer of the process name for the first and the third, as long as
no byte was read, and the buffer of the thread name for neither.
-/

namespace Dolin.Hawkeye

open Region Daemon

/-! ## `ReadFile` -/

/-- A read of the file fails before the buffer is full. -/
def ProcFile.Fails (f : ProcFile) (bufferSize : Nat) : Prop :=
  f.ends = .error ∧ f.chunks.flatten.length < bufferSize - 1

instance (f : ProcFile) (bufferSize : Nat) : Decidable (f.Fails bufferSize) :=
  inferInstanceAs (Decidable (_ ∧ _))

/-- The buffer with some bytes at its start. -/
def overwritten (initial bytes : Bytes) : Bytes := bytes ++ initial.drop bytes.length

theorem length_overwritten {initial bytes : Bytes} (fits : bytes.length ≤ initial.length) :
    (overwritten initial bytes).length = initial.length := by
  rw [overwritten, List.length_append, List.length_drop]
  omega

/-- A store behind the bytes at the start. -/
theorem overlay_overwritten {initial bytes more : Bytes}
    (fits : bytes.length + more.length ≤ initial.length) :
    overlay (overwritten initial bytes) bytes.length more = overwritten initial (bytes ++ more) := by
  rw [overwritten, overlay_append, overlay_zero, List.drop_drop, overwritten, List.length_append,
    List.append_assoc]
  rw [List.length_drop]
  omega

/-- What `ReadFile` leaves, where `bytes` are in the buffer and the reads to come give `more`. -/
structure Leaves (initial bytes more : Bytes) (ends : ReadEnd) (bufferSize : Nat) (r : ReadResult) :
    Prop where
  fails : ends = .error → (bytes ++ more).length < bufferSize - 1 →
    r.buffer = overwritten initial (bytes ++ more) ∧ r.ret = none
  succeeds : ¬ (ends = .error ∧ (bytes ++ more).length < bufferSize - 1) →
    r.buffer = overwritten initial ((bytes ++ more).take (bufferSize - 1) ++ [0]) ∧
      r.ret = some ((bytes ++ more).take (bufferSize - 1)).length
  inside : ∀ a ∈ r.stores, a.Inside

theorem Leaves.store {initial bytes more : Bytes} {ends : ReadEnd} {bufferSize : Nat}
    {r : ReadResult} (l : Leaves initial bytes more ends bufferSize r) {a : Access}
    (inside : a.Inside) :
    Leaves initial bytes more ends bufferSize { r with stores := a :: r.stores } := by
  refine ⟨l.fails, l.succeeds, fun b mem => ?_⟩
  rcases List.mem_cons.mp mem with rfl | mem
  · exact inside
  · exact l.inside b mem

/-- The end, with all the bytes that there are or that fit. -/
theorem leaves_terminate {initial bytes more all : Bytes} {ends : ReadEnd} {bufferSize : Nat}
    (size : initial.length = bufferSize) (room : all.length < bufferSize)
    (stored : (bytes ++ more).take (bufferSize - 1) = all)
    (ok : ¬ (ends = .error ∧ (bytes ++ more).length < bufferSize - 1)) :
    Leaves initial bytes more ends bufferSize (terminate (overwritten initial all) all.length) := by
  have fits : all.length + [(0 : UInt8)].length ≤ initial.length := by
    rw [List.length_singleton]
    omega
  refine ⟨fun error short => absurd ⟨error, short⟩ ok, fun _ => ⟨?_, ?_⟩, fun a mem => ?_⟩
  · rw [stored, terminate, overlay_overwritten fits]
  · rw [stored, terminate]
  · rw [terminate, List.mem_singleton] at mem
    rw [mem, Access.Inside, length_overwritten (by omega)]
    dsimp only
    omega

/-- **The loop**: it goes on until the buffer is full, the file ends or a read fails. -/
theorem leaves_readLoop {initial : Bytes} {ends : ReadEnd} {bufferSize : Nat}
    (size : initial.length = bufferSize) {chunks : List Bytes} (nonempty : ∀ c ∈ chunks, c ≠ [])
    {bytes : Bytes} (room : bytes.length < bufferSize - 1) :
    Leaves initial bytes chunks.flatten ends bufferSize
      (readLoop bufferSize ends chunks (overwritten initial bytes) bytes.length) := by
  induction chunks generalizing bytes with
  | nil =>
    cases ends with
    | eof =>
      refine leaves_terminate size (by omega) ?_ fun h => ?_
      · rw [List.flatten_nil, List.append_nil, List.take_of_length_le (Nat.le_of_lt room)]
      · cases h.1
    | error =>
      rw [List.flatten_nil]
      refine ⟨fun _ _ => ⟨by rw [List.append_nil]; rfl, rfl⟩, fun ok => ?_, fun a mem => ?_⟩
      · rw [List.append_nil] at ok
        exact absurd ⟨rfl, room⟩ ok
      · cases mem
  | cons chunk chunks ih =>
    have filled := nonempty chunk List.mem_cons_self
    have asked : bufferSize - bytes.length - 1 ≠ 0 := by omega
    have got : chunk.take (bufferSize - bytes.length - 1) ≠ [] := by
      rw [ne_eq, List.take_eq_nil_iff, not_or]
      exact ⟨asked, filled⟩
    have fits : bytes.length + (chunk.take (bufferSize - bytes.length - 1)).length ≤
        initial.length := by
      rw [List.length_take]
      omega
    have inside : Access.Inside ⟨(overwritten initial bytes).length,
        (bytes ++ chunk.take (bufferSize - bytes.length - 1)).length⟩ := by
      rw [Access.Inside, length_overwritten (by omega), List.length_append]
      exact fits
    simp only [readLoop, if_neg got, overlay_overwritten fits, ← List.length_append]
    by_cases full : bufferSize - 1 ≤ (bytes ++ chunk.take (bufferSize - bytes.length - 1)).length
    · -- the buffer is full, and what the reads to come would give does not matter
      rw [if_pos full]
      rw [List.length_append, List.length_take] at full
      refine Leaves.store ?_ inside
      refine leaves_terminate size ?_ ?_ ?_
      · rw [List.length_append, List.length_take]
        omega
      · rw [List.flatten_cons, List.take_append, List.take_of_length_le (Nat.le_of_lt room),
          List.take_append_of_le_length (by omega), Nat.sub_right_comm]
      · rw [List.flatten_cons, List.length_append, List.length_append]
        omega
    · rw [if_neg full]
      rw [List.length_append, List.length_take] at full
      have whole : chunk.take (bufferSize - bytes.length - 1) = chunk :=
        List.take_of_length_le (by omega)
      rw [whole] at inside ⊢
      refine Leaves.store ?_ inside
      have rest := ih (fun c mem => nonempty c (List.mem_cons_of_mem _ mem))
        (show (bytes ++ chunk).length < bufferSize - 1 by rw [List.length_append]; omega)
      rw [List.flatten_cons]
      exact ⟨by simpa only [List.append_assoc] using rest.fails,
        by simpa only [List.append_assoc] using rest.succeeds, rest.inside⟩

/-- **`ReadFile`** on a file that was opened. -/
theorem leaves_readFile (f : ProcFile) {initial : Bytes} {bufferSize : Nat}
    (size : initial.length = bufferSize) (two : 2 ≤ bufferSize) :
    Leaves initial [] f.chunks.flatten f.ends bufferSize (readFile (some f) initial bufferSize) :=
  leaves_readLoop size f.nonempty (show ([] : Bytes).length < bufferSize - 1 by
    rw [List.length_nil]
    omega)

/-- What it leaves begins with bytes of the file. -/
theorem readFile_of_fails {f : ProcFile} {initial : Bytes} {bufferSize : Nat}
    (size : initial.length = bufferSize) (two : 2 ≤ bufferSize) (fails : f.Fails bufferSize) :
    (readFile (some f) initial bufferSize).buffer = overwritten initial f.chunks.flatten ∧
      (readFile (some f) initial bufferSize).ret = none :=
  (leaves_readFile f size two).fails fails.1 fails.2

/-- On success, they are the first bytes of the file, with a zero byte behind them. -/
theorem readFile_of_not_fails {f : ProcFile} {initial : Bytes} {bufferSize : Nat}
    (size : initial.length = bufferSize) (two : 2 ≤ bufferSize) (ok : ¬ f.Fails bufferSize) :
    (readFile (some f) initial bufferSize).buffer =
        overwritten initial (f.contents.take (bufferSize - 1) ++ [0]) ∧
      (readFile (some f) initial bufferSize).ret =
        some (f.contents.take (bufferSize - 1)).length := by
  have same : f.chunks.flatten.take (bufferSize - 1) = f.contents.take (bufferSize - 1) := by
    cases ends : f.ends with
    | eof => rw [f.whole ends]
    | error =>
      obtain ⟨rest, eq⟩ := f.starts
      have full : bufferSize - 1 ≤ f.chunks.flatten.length := by
        by_contra short
        exact ok ⟨ends, Nat.lt_of_not_le short⟩
      rw [← eq, List.take_append_of_le_length full]
  rw [← same]
  exact (leaves_readFile f size two).succeeds ok

theorem inside_readFile (file : Option ProcFile) {initial : Bytes} {bufferSize : Nat}
    (size : initial.length = bufferSize) (two : 2 ≤ bufferSize) :
    ∀ a ∈ (readFile file initial bufferSize).stores, a.Inside := by
  cases file with
  | none =>
    intro a mem
    cases mem
  | some f => exact (leaves_readFile f size two).inside

/-! ## The buffers that are printed -/

/-- Whatever a buffer of `size` bytes had, it begins with a string that ends there and that does not
depend on it. -/
def Settled (size : Nat) (final : Bytes → Bytes) : Prop :=
  ∃ front, Terminated front ∧ ∀ initial : Bytes, initial.length = size → front <+: final initial

namespace Settled

variable {size : Nat} {final : Bytes → Bytes}

theorem terminated (s : Settled size final) {initial : Bytes} (h : initial.length = size) :
    Terminated (final initial) := by
  obtain ⟨front, ends, starts⟩ := s
  exact (starts initial h).subset ends

theorem cstring_eq (s : Settled size final) {initial initial' : Bytes} (h : initial.length = size)
    (h' : initial'.length = size) : cstring (final initial) = cstring (final initial') := by
  obtain ⟨front, ends, starts⟩ := s
  obtain ⟨rest, eq⟩ := starts initial h
  obtain ⟨rest', eq'⟩ := starts initial' h'
  rw [← eq, ← eq', cstring_append_of_terminated ends, cstring_append_of_terminated ends]

end Settled

/-- Both calls of `ReadFile` leave a string that depends on the files only: the thread name is read, or
fails behind a zero byte; the process name does not fail between a first byte and a zero byte. -/
structure BothRead (cmdline comm : Option ProcFile) (processNameBufferSize : Nat) : Prop where
  comm : ∃ f, comm = some f ∧ (f.Fails 16 → 0 ∈ f.chunks.flatten)
  cmdline : ∀ f, cmdline = some f → f.Fails processNameBufferSize → f.chunks.flatten ≠ [] →
    0 ∈ f.chunks.flatten

theorem overlay_first {initial : Bytes} (pos : 0 < initial.length) :
    overlay initial 0 [0] = 0 :: initial.drop 1 :=
  overlay_zero (Nat.succ_le_of_lt pos)

theorem length_overlay_first (initial : Bytes) : (overlay initial 0 [0]).length = initial.length :=
  length_overlay initial 0 [0]

/-- The process name. -/
theorem settled_cmdline {cmdline : Option ProcFile} {size : Nat} (two : 2 ≤ size)
    (ok : ∀ f, cmdline = some f → f.Fails size → f.chunks.flatten ≠ [] → 0 ∈ f.chunks.flatten) :
    Settled size fun initial => (readFile cmdline (overlay initial 0 [0]) size).buffer := by
  -- with no byte read, the zero that was stored first is still there
  have prepared : ∀ initial : Bytes, initial.length = size → [0] <+: overlay initial 0 [0] := by
    intro initial h
    rw [overlay_first (by omega)]
    exact List.prefix_append [0] _
  cases cmdline with
  | none => exact ⟨[0], List.mem_singleton_self 0, prepared⟩
  | some f =>
    by_cases fails : f.Fails size
    · by_cases empty : f.chunks.flatten = []
      · refine ⟨[0], List.mem_singleton_self 0, fun initial h => ?_⟩
        have sized : (overlay initial 0 [0]).length = size := (length_overlay_first initial).trans h
        dsimp only
        rw [(readFile_of_fails sized two fails).1, empty]
        exact prepared initial h
      · refine ⟨f.chunks.flatten, ok f rfl fails empty, fun initial h => ?_⟩
        have sized : (overlay initial 0 [0]).length = size := (length_overlay_first initial).trans h
        dsimp only
        rw [(readFile_of_fails sized two fails).1]
        exact List.prefix_append _ _
    · refine ⟨f.contents.take (size - 1) ++ [0], List.mem_append_right _ (List.mem_singleton_self 0),
        fun initial h => ?_⟩
      have sized : (overlay initial 0 [0]).length = size := (length_overlay_first initial).trans h
      dsimp only
      rw [(readFile_of_not_fails sized two fails).1]
      exact List.prefix_append _ _

/-- A text with a zero byte behind it, or at the place of the newline at its end. -/
def stripped (text : Bytes) : Bytes :=
  if text.getLast? = some 0x0a then text.dropLast ++ [0] else text ++ [0]

theorem terminated_stripped (text : Bytes) : Terminated (stripped text) := by
  unfold stripped
  split
  · exact List.mem_append_right _ (List.mem_singleton_self 0)
  · exact List.mem_append_right _ (List.mem_singleton_self 0)

theorem stripped_starts (text rest : Bytes) (stores : List Access) :
    stripped text <+: (stripNewline ⟨text ++ [0] ++ rest, some text.length, stores⟩).1 := by
  unfold stripped
  cases eq : text.getLast? with
  | none =>
    rw [List.getLast?_eq_none_iff] at eq
    subst eq
    exact List.prefix_append [0] rest
  | some last =>
    obtain ⟨first, rfl⟩ := List.getLast?_eq_some_iff.mp eq
    have length : (first ++ [last]).length = first.length + 1 := List.length_append
    have there : (first ++ [last] ++ [0] ++ rest)[first.length]? = some last := by
      rw [List.append_assoc, List.append_assoc, List.getElem?_append_right (Nat.le_refl _),
        Nat.sub_self]
      rfl
    simp only [stripNewline, length, there]
    by_cases newline : some last = some 0x0a
    · rw [if_pos newline, if_pos newline, List.dropLast_concat, List.append_assoc, List.append_assoc,
        overlay_append, overlay_zero (by rw [List.length_singleton, List.length_append]; simp)]
      rw [← List.append_assoc]
      exact List.prefix_append _ _
    · rw [if_neg newline, if_neg newline]
      exact List.prefix_append _ _

/-- The thread name. -/
theorem settled_comm {f : ProcFile} (ok : f.Fails 16 → 0 ∈ f.chunks.flatten) :
    Settled 16 fun initial => (stripNewline (readFile (some f) initial 16)).1 := by
  by_cases fails : f.Fails 16
  · refine ⟨f.chunks.flatten, ok fails, fun initial h => ?_⟩
    obtain ⟨buffer, ret⟩ := readFile_of_fails h (by omega) fails
    simp only [stripNewline, ret, buffer]
    exact List.prefix_append _ _
  · refine ⟨stripped (f.contents.take 15), terminated_stripped _, fun initial h => ?_⟩
    obtain ⟨buffer, ret⟩ := readFile_of_not_fails h (by omega) fails
    dsimp only
    generalize readFile (some f) initial 16 = r at buffer ret
    obtain ⟨b, k, stores⟩ := r
    cases buffer
    cases ret
    exact stripped_starts _ _ _

/-! ## The line -/

/-- The file that is opened for a path in `/proc`. -/
def opened (proc : Bytes → Option ProcFile) (id : Int32) (name : String) : Option ProcFile :=
  proc (cstring ((procPath id name).take 24))

/-- The path in the buffer is the path that was printed. -/
theorem cstring_printPath {procFilePath : Bytes} (h : procFilePath.length = 25) (path : Bytes) :
    cstring (printPath procFilePath path) = cstring (path.take 24) := by
  have fits : (path.take 24 ++ [0]).length ≤ procFilePath.length := by
    rw [List.length_append, List.length_take, List.length_singleton]
    omega
  rw [printPath, overlay_zero fits,
    cstring_append_of_terminated (List.mem_append_right _ (List.mem_singleton_self 0)),
    cstring_append_zero]

theorem length_printPath (procFilePath path : Bytes) :
    (printPath procFilePath path).length = procFilePath.length := length_overlay _ _ _

section Info

variable (proc : Bytes → Option ProcFile) (pid tid : Int32) {b : InfoBuffers} {size : Nat}

theorem processNameBuffer_eq (sized : b.Sized size) :
    (writeProcessAndThreadInfo proc pid tid b size).processNameBuffer =
      (readFile (opened proc pid "cmdline") (overlay b.processNameBuffer 0 [0]) size).buffer := by
  have path : (overlay b.procFilePath 0 [0]).length = 25 :=
    (length_overlay_first _).trans sized.filePath
  simp only [writeProcessAndThreadInfo, cstring_printPath path, opened]

theorem procCommContent_eq (sized : b.Sized size) :
    (writeProcessAndThreadInfo proc pid tid b size).procCommContent =
      (stripNewline (readFile (opened proc tid "comm") b.procCommContent 16)).1 := by
  have path : (printPath (overlay b.procFilePath 0 [0]) (procPath pid "cmdline")).length = 25 :=
    ((length_printPath _ _).trans (length_overlay_first _)).trans sized.filePath
  simp only [writeProcessAndThreadInfo, cstring_printPath path, opened]

theorem inside_stripNewline {r : ReadResult} (short : ∀ n ∈ r.ret, n ≤ r.buffer.length) :
    ∀ a ∈ (stripNewline r).2, a.Inside := by
  intro a mem
  unfold stripNewline at mem
  split at mem
  · rename_i last eq
    split at mem
    · rw [List.mem_singleton] at mem
      rw [mem]
      exact short _ eq
    · cases mem
  · cases mem

theorem ret_le_readFile (file : Option ProcFile) {initial : Bytes} {bufferSize : Nat}
    (h : initial.length = bufferSize) (two : 2 ≤ bufferSize) :
    ∀ n ∈ (readFile file initial bufferSize).ret,
      n ≤ (readFile file initial bufferSize).buffer.length := by
  intro n eq
  cases file with
  | none => cases eq
  | some f =>
    by_cases fails : f.Fails bufferSize
    · rw [(readFile_of_fails h two fails).2] at eq
      cases eq
    · obtain ⟨buffer, ret⟩ := readFile_of_not_fails h two fails
      rw [ret] at eq
      cases eq
      rw [buffer, overwritten, List.append_assoc, List.length_append]
      exact Nat.le_add_right _ _

theorem inside_stores (sized : b.Sized size) (two : 2 ≤ size) :
    ∀ a ∈ (writeProcessAndThreadInfo proc pid tid b size).stores, a.Inside := by
  have first : (overlay b.processNameBuffer 0 [0]).length = size :=
    (length_overlay_first _).trans sized.processName
  have name := sized.processName
  have path := sized.filePath
  intro a mem
  simp only [writeProcessAndThreadInfo, List.mem_append, List.mem_cons, List.not_mem_nil, or_false]
    at mem
  rcases mem with ((((rfl | rfl) | mem) | mem) | mem)
  · exact Nat.le_of_succ_le (name ▸ two)
  · rw [Access.Inside, path]
    exact Nat.succ_le_succ (Nat.zero_le 24)
  · exact inside_readFile _ first two a mem
  · exact inside_readFile _ sized.comm (Nat.le_add_left 2 14) a mem
  · exact inside_stripNewline (ret_le_readFile _ sized.comm (Nat.le_add_left 2 14)) a mem

/-- The line is the same whatever the buffers had, both strings end inside their buffers, nothing is
stored outside, and `ReadFile` returns and terminates the first bytes of a file that it reads. -/
structure DependsOnProc (proc : Bytes → Option ProcFile) (pid tid : Int32) (size : Nat) : Prop where
  same : ∀ b b' : InfoBuffers, b.Sized size → b'.Sized size →
    infoLine pid tid (writeProcessAndThreadInfo proc pid tid b size) =
      infoLine pid tid (writeProcessAndThreadInfo proc pid tid b' size)
  terminated : ∀ b : InfoBuffers, b.Sized size →
    Terminated (writeProcessAndThreadInfo proc pid tid b size).procCommContent ∧
      Terminated (writeProcessAndThreadInfo proc pid tid b size).processNameBuffer
  inside : ∀ b : InfoBuffers, b.Sized size →
    ∀ a ∈ (writeProcessAndThreadInfo proc pid tid b size).stores, a.Inside
  reads : ∀ (f : ProcFile) (outBuffer : Bytes) (k : Nat), 2 ≤ outBuffer.length →
    (readFile (some f) outBuffer outBuffer.length).ret = some k →
      k = min f.contents.length (outBuffer.length - 1) ∧
        f.contents.take (outBuffer.length - 1) ++ [0] <+:
          (readFile (some f) outBuffer outBuffer.length).buffer

theorem reads_of_ret {f : ProcFile} {outBuffer : Bytes} {k : Nat} (two : 2 ≤ outBuffer.length)
    (eq : (readFile (some f) outBuffer outBuffer.length).ret = some k) :
    k = min f.contents.length (outBuffer.length - 1) ∧
      f.contents.take (outBuffer.length - 1) ++ [0] <+:
        (readFile (some f) outBuffer outBuffer.length).buffer := by
  by_cases fails : f.Fails outBuffer.length
  · rw [(readFile_of_fails rfl two fails).2] at eq
    cases eq
  · obtain ⟨buffer, ret⟩ := readFile_of_not_fails rfl two fails
    rw [ret] at eq
    cases eq
    rw [buffer, List.length_take, Nat.min_comm]
    exact ⟨rfl, List.prefix_append _ _⟩

theorem dependsOnProc_of_bothRead (two : 2 ≤ size)
    (ok : BothRead (opened proc pid "cmdline") (opened proc tid "comm") size) :
    DependsOnProc proc pid tid size := by
  obtain ⟨f, there, commOk⟩ := ok.comm
  have name := settled_cmdline two ok.cmdline
  have comm := settled_comm commOk
  refine ⟨fun b b' sized sized' => ?_, fun b sized => ⟨?_, ?_⟩,
    fun b sized => inside_stores proc pid tid sized two, fun f out k two eq => reads_of_ret two eq⟩
  · rw [infoLine, infoLine, processNameBuffer_eq proc pid tid sized,
      processNameBuffer_eq proc pid tid sized', procCommContent_eq proc pid tid sized,
      procCommContent_eq proc pid tid sized', there, name.cstring_eq sized.processName
      sized'.processName, comm.cstring_eq sized.comm sized'.comm]
  · rw [procCommContent_eq proc pid tid sized, there]
    exact comm.terminated sized.comm
  · rw [processNameBuffer_eq proc pid tid sized]
    exact name.terminated sized.processName

/-- Buffers full of letters. -/
def letters (size : Nat) : InfoBuffers :=
  ⟨List.replicate size 0x61, List.replicate 25 0x61, List.replicate 16 0x61⟩

theorem sized_letters (size : Nat) : (letters size).Sized size :=
  ⟨List.length_replicate, List.length_replicate, List.length_replicate⟩

/-- Letters behind bytes that are not zero have no zero. -/
theorem not_terminated_letters {bytes : Bytes} (free : 0 ∉ bytes) (n : Nat) :
    ¬ Terminated (bytes ++ List.replicate n 0x61) := by
  intro mem
  rcases List.mem_append.mp mem with mem | mem
  · exact free mem
  · exact absurd (List.eq_of_mem_replicate mem) (by decide)

theorem bothRead_of_terminated (two : 2 ≤ size)
    (comm : Terminated (writeProcessAndThreadInfo proc pid tid (letters size) size).procCommContent)
    (name : Terminated
      (writeProcessAndThreadInfo proc pid tid (letters size) size).processNameBuffer) :
    BothRead (opened proc pid "cmdline") (opened proc tid "comm") size := by
  rw [procCommContent_eq proc pid tid (sized_letters size)] at comm
  rw [processNameBuffer_eq proc pid tid (sized_letters size)] at name
  constructor
  · cases there : opened proc tid "comm" with
    | none =>
      rw [there] at comm
      exact absurd comm (not_terminated_letters List.not_mem_nil 16)
    | some f =>
      refine ⟨f, rfl, fun fails => ?_⟩
      by_contra free
      obtain ⟨buffer, ret⟩ := readFile_of_fails (sized_letters size).comm (Nat.le_add_left 2 14) fails
      rw [there] at comm
      simp only [stripNewline, ret, buffer] at comm
      simp only [overwritten, letters, List.drop_replicate] at comm
      exact not_terminated_letters free _ comm
  · intro f there fails nonempty
    by_contra free
    have first : (overlay (letters size).processNameBuffer 0 [0]).length = size :=
      (length_overlay_first _).trans (sized_letters size).processName
    have behind : (overlay (letters size).processNameBuffer 0 [0]).drop f.chunks.flatten.length =
        List.replicate (size - f.chunks.flatten.length) 0x61 := by
      obtain ⟨n, eq⟩ := Nat.exists_eq_succ_of_ne_zero
        (Nat.ne_of_gt (List.length_pos_of_ne_nil nonempty))
      rw [overlay_first (by rw [(sized_letters size).processName]; omega), eq, List.drop_succ_cons,
        letters, List.drop_drop, List.drop_replicate, Nat.add_comm]
    rw [there, (readFile_of_fails first two fails).1, overwritten, behind] at name
    exact not_terminated_letters free _ name

/-- **When the line depends on `/proc` only.** For every outcome of opening and reading the two files and
every size of the buffer of at least 2: the line is the same whatever the buffers had, both strings end
inside their buffers, nothing is stored outside and `ReadFile` reads what it should, if and only if
`comm` is read or fails behind a zero byte, and `cmdline` does not fail between a first byte and a zero
byte. -/
theorem line_depends_on_proc_iff (two : 2 ≤ size) :
    DependsOnProc proc pid tid size ↔
      BothRead (opened proc pid "cmdline") (opened proc tid "comm") size := by
  constructor
  · intro depends
    obtain ⟨comm, name⟩ := depends.terminated (letters size) (sized_letters size)
    exact bothRead_of_terminated proc pid tid two comm name
  · exact dependsOnProc_of_bothRead proc pid tid two

end Info

/-- A file with a text, read at once. -/
def readAtOnce (text : Bytes) (nonempty : text ≠ []) : ProcFile where
  contents := text
  chunks := [text]
  ends := .eof
  nonempty := by
    intro chunk mem
    rw [List.mem_singleton.mp mem]
    exact nonempty
  starts := by simp
  whole := by simp

/-- Every file reads `a` and a newline. -/
theorem line_depends_on_proc_read :
    DependsOnProc (fun _ => some (readAtOnce [0x61, 0x0a] (List.cons_ne_nil _ _))) 7 8 64 := by
  refine (line_depends_on_proc_iff _ 7 8 (by omega)).mpr ⟨⟨_, rfl, fun fails => ?_⟩, ?_⟩
  · cases fails.1
  · intro f eq fails
    cases eq
    cases fails.1

/-- A thread that has ended: `/proc/<tid>/comm` cannot be opened, and the line has what the buffer
had. -/
theorem line_depends_on_garbage : ¬ DependsOnProc (fun _ => none) 7 8 64 := by
  intro depends
  obtain ⟨comm, name⟩ := depends.terminated (letters 64) (sized_letters 64)
  obtain ⟨f, there, -⟩ := (bothRead_of_terminated _ 7 8 (by omega) comm name).comm
  cases there

end Dolin.Hawkeye
