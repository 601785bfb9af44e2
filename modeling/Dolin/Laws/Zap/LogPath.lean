import Dolin.Laws.Zap.Recovery

/-!
# The path in the header and the file that is open

`InitData` writes the new path and limit into the header, and calls `fopen` last, without a look at
its answer. Where it fails, the header names a file that is not open, and `log_file_ptr` is still the
file before: live flushes go to the one, the next start's recovery would go to the other, and the
size of the one is held against the limit of the other.
-/

namespace Dolin.Zap

open Region BufferHeader Machine

variable {Z : Zlib} {abi : Abi}

/-- `GetLimitSize` of the buffer's header. -/
def Buffer.headerLimit (abi : Abi) (b : Buffer Z) : Option Nat :=
  getLimitSize abi b.mem b.bufferSize

/-- What `ExpLogPath(path, limit)` owes: the header names the file that is open. It is the new file,
with the new limit, where `fopen` succeeds; path, limit and file are the old ones where it fails. -/
structure PathFollows (abi : Abi) (p p' : Process Z) (path : JString) (limit : Nat)
    (logOpened : Bool) : Prop where
  agree : ∃ file, p'.buffer.logFilePtr = some file ∧
    p'.buffer.getLogPath abi = some (some file.path)
  opened : logOpened = true → p'.buffer.logFilePtr = fopen path p.opens true ∧
    p'.buffer.getLogPath abi = some (some path.utf8) ∧
    p'.buffer.headerLimit abi = some limit
  failed : logOpened = false → p'.buffer.logFilePtr = p.buffer.logFilePtr ∧
    p'.buffer.getLogPath abi = p.buffer.getLogPath abi ∧
    p'.buffer.headerLimit abi = p.buffer.headerLimit abi

/-- The path, the limit and a file of that name are what the process has already. -/
structure InPlace (abi : Abi) (p : Process Z) (path : JString) (limit : Nat) : Prop where
  shownPath : p.buffer.getLogPath abi = some (some path.utf8)
  shownLimit : p.buffer.headerLimit abi = some limit
  file : ∃ file, p.buffer.logFilePtr = some file ∧ file.path = path.utf8

/-! ## The reachable processes -/

/-- No native call changes the size of the mapping. -/
theorem bufferSize_of_run {sys : SysCalls} {file : Bytes} {args : InitArgs} {p₀ p : Process Z}
    {calls : List NativeCall} (init : initNative abi Z sys file args = some p₀)
    (ran : run (nativeStep abi) p₀ calls = some p) : p.buffer.bufferSize = args.bufferSize abi := by
  obtain ⟨mem, -, hi, -, -⟩ := initNative_inv init
  have unset : p₀.Unset (sys.opened && sys.mapped) ∧ p₀.buffer.bufferSize = args.bufferSize abi :=
    ⟨unset_of_run init (show run (nativeStep abi) p₀ [] = some p₀ from rfl),
      (Buffer.initData_reset hi).bufferSize⟩
  refine (run_keeps (fun p : Process Z => p.Unset (sys.opened && sys.mapped) ∧
    p.buffer.bufferSize = args.bufferSize abi) ?_ unset ran).2
  rintro p call p' ⟨h, size⟩ step
  refine ⟨h.nativeStep step, ?_⟩
  cases call with
  | log call => exact (Process.logStep_frame step).bufferSize.trans size
  | expLogFile path limitSize logOpened =>
    obtain ⟨b', hi, rfl⟩ := Option.map_eq_some_iff.mp ((h.expLogFileNative_eq ..).symm.trans step)
    exact (Buffer.initData_reset hi).bufferSize.trans size

/-! ## A path that is too long -/

/-- A header that has a path to show had room for itself and for the byte past it. -/
theorem initHeader_room {n : Nat} {m' : Bytes} {header : Header} {x : Bytes}
    (done : initHeader abi (List.replicate n 0) n header = some m')
    (shown : getLogPath abi m' n = some (some x)) :
    1 + abi.sizeofSizeT + abi.sizeofSizeT + header.logPathLen + abi.sizeofSizeT + 1 +
      abi.sizeofSizeT ≤ n := by
  rcases initHeader_cases done with ⟨-, rfl⟩ | ⟨m₁, m₂, m₃, m₄, m₅, h₁, h₂, h₃, h₄, h₅, h₆⟩
  · -- `InitHeader` wrote nothing, and zeros are no header
    obtain ⟨available, magic, shown⟩ := Option.bind_eq_some_iff.mp shown
    have off : available = false := by
      obtain ⟨b, hb, magic⟩ := Option.bind_eq_some_iff.mp magic
      cases magic
      unfold load at hb
      split at hb
      next inside =>
        cases hb
        rw [List.length_replicate] at inside
        rw [slice_zeros inside]
        rfl
      next => cases hb
    rw [off] at shown
    cases shown
  · have bound := store_bound h₆
    rw [length_store h₅, length_store h₄, length_store h₃, length_store h₂, length_store h₁,
      List.length_replicate, List.length_singleton] at bound
    omega

/-- `InitData` of a path that the header has to show afterwards. -/
theorem Buffer.initData_room {b b' : Buffer Z} {path : JString} {limit : Nat} {compress : Bool}
    {file : Option FILE} {x : Bytes} (h : b.initData abi path limit compress file = some b')
    (hm : b.mem.length = b.bufferSize) (shown : b'.getLogPath abi = some (some x)) :
    calculateHeaderLen abi path.length + abi.sizeofSizeT ≤ b.bufferSize := by
  have reset := Buffer.initData_reset h
  obtain ⟨m, mem, d, w, hfill, hh, -, -, rfl⟩ := Buffer.initData_inv h
  rw [← hm] at hfill
  obtain rfl := fill_all hfill
  rw [Buffer.getLogPath, (pointed_eq { b with mem } compress d w file).1, reset.bufferSize] at shown
  rw [hm] at hh
  rw [calculateHeaderLen_eq abi path.strlen_lt]
  exact initHeader_room hh shown

/-! ## The rotation -/

/-- **The path and the file.** In every process that went through `InitNative` and native calls, for
every `ExpLogPath` and every answer of `fopen`: the call completes with the header naming the open
file, the new one or all of the old, if and only if the path is not empty, its header has room in
the mapping, and `fopen` succeeds or the path, the limit and the file are in place already. -/
theorem log_path_follows_iff (abi : Abi) (Z : Zlib) (sys : SysCalls) (file : Bytes)
    (args : InitArgs) (p₀ p : Process Z) (calls : List NativeCall)
    (init : initNative abi Z sys file args = some p₀)
    (ran : run (nativeStep abi) p₀ calls = some p)
    (path : JString) (limitSize : Int32) (logOpened : Bool) :
    (∃ p', p.expLogFileNative abi path limitSize logOpened = some p' ∧
      PathFollows abi p p' path (abi.ofInt limitSize.toInt) logOpened) ↔
    path.utf8 ≠ [] ∧
      calculateHeaderLen abi path.length + abi.sizeofSizeT ≤ p.buffer.bufferSize ∧
      (logOpened = true ∨ InPlace abi p path (abi.ofInt limitSize.toInt)) := by
  have unset := unset_of_run init ran
  have small : p.buffer.bufferSize < abi.modulus := by
    rw [bufferSize_of_run init ran]
    exact bufferSize_lt abi args
  rw [unset.expLogFileNative_eq]
  constructor
  · rintro ⟨p', rotated, follows⟩
    obtain ⟨b', hi, rfl⟩ := Option.map_eq_some_iff.mp rotated
    obtain ⟨f, open', shown⟩ := follows.agree
    have room := Buffer.initData_room hi unset.mem shown
    obtain ⟨b'', hi', wf⟩ := Buffer.initData_wf p.buffer path p.buffer.compress
      (fopen path p.opens logOpened) unset.mem small room (Abi.ofInt_lt abi limitSize.toInt)
    cases hi.symm.trans hi'
    have named := shown.symm.trans wf.getLogPath
    split at named
    · cases named
    next nonempty =>
      refine ⟨nonempty, room, ?_⟩
      cases logOpened with
      | true => exact .inl rfl
      | false =>
        obtain ⟨oldFile, oldPath, oldLimit⟩ := follows.failed rfl
        refine .inr ⟨?_, ?_, f, ?_, ?_⟩
        · rw [← oldPath, wf.getLogPath, if_neg nonempty]
        · rw [← oldLimit]
          exact wf.header.getLimitSize
        · rw [← oldFile]
          exact open'
        · exact Option.some.inj (Option.some.inj named)
  · rintro ⟨nonempty, room, answer⟩
    obtain ⟨b', hi, wf⟩ := Buffer.initData_wf p.buffer path p.buffer.compress
      (fopen path p.opens logOpened) unset.mem small room (Abi.ofInt_lt abi limitSize.toInt)
    have shown : b'.getLogPath abi = some (some path.utf8) := by
      rw [wf.getLogPath, if_neg nonempty]
    have limit : b'.headerLimit abi = some (abi.ofInt limitSize.toInt) := wf.header.getLimitSize
    have held := (Buffer.initData_reset hi).logFilePtr
    refine ⟨_, Option.map_eq_some_iff.mpr ⟨b', hi, rfl⟩, ?_⟩
    cases logOpened with
    | true => exact ⟨⟨_, held, shown⟩, fun _ => ⟨held, shown, limit⟩, nofun⟩
    | false =>
      obtain ⟨oldPath, oldLimit, f, old, name⟩ := answer.resolve_left Bool.false_ne_true
      refine ⟨⟨f, held.trans old, by rw [name]; exact shown⟩, nofun, fun _ => ⟨held, ?_, ?_⟩⟩
      · exact shown.trans oldPath.symm
      · exact limit.trans oldLimit.symm

/-- `/b`. -/
def sampleLogB : JString := ⟨[0x2f, 0x62], by decide, by decide⟩

/-- `fopen` succeeds, and the header names the file that it opened. -/
theorem log_path_follows_iff_opened :
    ∃ p₀ p' : Process blocks, initNative .lp64 blocks {} [] (sampleArgs 8 false) = some p₀ ∧
      p₀.expLogFileNative .lp64 sampleLogB 64 true = some p' ∧
      PathFollows .lp64 p₀ p' sampleLogB (Abi.ofInt .lp64 (Int32.toInt 64)) true := by
  obtain ⟨p₀, init, size⟩ := Option.map_eq_some_iff.mp (show
    (initNative .lp64 blocks {} [] (sampleArgs 8 false)).map (·.buffer.bufferSize) = some 36 by
    decide +kernel)
  have room : calculateHeaderLen .lp64 sampleLogB.length + Abi.sizeofSizeT .lp64 ≤
      p₀.buffer.bufferSize := by
    rw [size]
    decide
  obtain ⟨p', rotated, follows⟩ := (log_path_follows_iff .lp64 blocks {} [] (sampleArgs 8 false)
    p₀ p₀ [] init rfl sampleLogB 64 true).mpr ⟨List.cons_ne_nil _ _, room, .inl rfl⟩
  exact ⟨p₀, p', init, rotated, follows⟩

/-- `fopen` fails: `/a` is still open, and the header names `/b`. -/
theorem failed_rotation_splits :
    ∃ p₀ p' : Process blocks, initNative .lp64 blocks {} [] (sampleArgs 8 false) = some p₀ ∧
      p₀.expLogFileNative .lp64 sampleLogB 64 false = some p' ∧
      p'.buffer.logFilePtr = some ⟨[0x2f, 0x61], 0⟩ ∧
      p'.buffer.getLogPath .lp64 = some (some [0x2f, 0x62]) ∧
      ¬ PathFollows .lp64 p₀ p' sampleLogB (Abi.ofInt .lp64 (Int32.toInt 64)) false := by
  obtain ⟨p₀, init, rotated⟩ := Option.bind_eq_some_iff.mp (show
    (initNative .lp64 blocks {} [] (sampleArgs 8 false)).bind (fun p₀ =>
      (p₀.expLogFileNative .lp64 sampleLogB 64 false).map fun p' =>
        (p'.buffer.logFilePtr, p'.buffer.getLogPath .lp64)) =
      some (some ⟨[0x2f, 0x61], 0⟩, some (some [0x2f, 0x62])) by decide +kernel)
  obtain ⟨p', rotated, shown⟩ := Option.map_eq_some_iff.mp rotated
  obtain ⟨file, path⟩ := Prod.mk.inj shown
  refine ⟨p₀, p', init, rotated, file, path, fun follows => ?_⟩
  obtain ⟨f, held, named⟩ := follows.agree
  cases file.symm.trans held
  have := path.symm.trans named
  cases this

end Dolin.Zap
