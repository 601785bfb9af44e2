import Dolin.Laws.Zap.Buffer
import Dolin.Zap.Deflate
import Dolin.Zap.Native

/-!
# What the native methods do to the buffer

`InitNative` first: whatever the cache file holds, the part that runs before the mapping is
cleared hands nothing to the new `FileFlush`, because both `Buffer` objects it asks for a length
are fresh from their constructor and have null pointers. Then one law per native method over the
representation invariant, and the invariant over every run.
-/

namespace Dolin.Zap

open Region BufferHeader Machine

variable {Z : Zlib} {abi : Abi}

/-! ## `InitNative` -/

/-- `WriteDirty2File` never finds anything to write. -/
theorem writeDirty2File_eq (sys : SysCalls) (file : Bytes) :
    writeDirty2File abi Z sys file = some ([], file) := by
  simp only [writeDirty2File]
  split
  · rfl
  · rfl

/-- `ftruncate` of a size that fits an `int`. -/
theorem length_ftruncate (file : Bytes) {size : Nat} (fits : size < 2 ^ 31) :
    (ftruncate file size).length = size := by
  have same := Int32.toInt_ofNat_of_lt fits
  simp only [ftruncate, same]
  rw [if_neg (by omega), length_resize]
  rfl

/-- `InitNative` up to `InitData` hands nothing over, whatever the cache file holds. The new
mapping has at most `buffer_size` bytes, and all of them where that is an `int`. -/
theorem openBuffer_eq (abi : Abi) (Z : Zlib) (sys : SysCalls) (file : Bytes) (args : InitArgs) :
    ∃ mem, openBuffer abi Z sys file args =
        some ({ mem, bufferSize := args.bufferSize abi, mapBuffer := sys.opened && sys.mapped }, []) ∧
      mem.length ≤ args.bufferSize abi ∧
      (args.bufferSize abi < 2 ^ 31 → mem.length = args.bufferSize abi) := by
  have mapped : ∃ map, openMMap abi Z sys file (args.bufferSize abi) = some ([], map) ∧
      map.isSome = (sys.opened && sys.mapped) ∧
      ∀ m, map = some m → m = (ftruncate file (args.bufferSize abi)).take (args.bufferSize abi) := by
    unfold openMMap
    split
    next opened =>
      refine ⟨_, Option.bind_eq_some_iff.mpr ⟨_, writeDirty2File_eq sys file, rfl⟩, ?_, ?_⟩
      · rw [opened]
        cases sys.mapped with
        | true => rfl
        | false => rfl
      · intro m hm
        split at hm
        · exact (Option.some.inj hm).symm
        · cases hm
    next closed =>
      refine ⟨none, rfl, ?_, by intro m hm; cases hm⟩
      rw [Bool.eq_false_of_not_eq_true closed]
      rfl
  obtain ⟨map, hmap, hsome, hmem⟩ := mapped
  refine ⟨map.getD (resize sys.heap (args.bufferSize abi)), ?_, ?_⟩
  · rw [← hsome]
    exact Option.bind_eq_some_iff.mpr ⟨_, hmap, rfl⟩
  · cases map with
    | none =>
      have full : (resize sys.heap (args.bufferSize abi)).length = args.bufferSize abi :=
        length_resize ..
      exact ⟨Nat.le_of_eq full, fun _ => full⟩
    | some m =>
      obtain rfl := hmem m rfl
      rw [Option.getD_some, List.length_take]
      refine ⟨Nat.min_le_left .., fun fits => ?_⟩
      rw [length_ftruncate file fits, Nat.min_self]

/-- What an `InitNative` that returned did: `InitData` on a mapping of `buffer_size` bytes, with
nothing enqueued. -/
theorem initNative_inv {sys : SysCalls} {file : Bytes} {args : InitArgs} {p : Process Z}
    (h : initNative abi Z sys file args = some p) :
    ∃ mem, mem.length = args.bufferSize abi ∧
      Buffer.initData abi
        { mem, bufferSize := args.bufferSize abi, mapBuffer := sys.opened && sys.mapped }
        args.logPath (abi.ofInt args.limitSize.toInt) args.compress
        (fopen args.logPath 0 sys.logOpened) = some p.buffer ∧
      p.pFileFlush = some newFileFlush ∧ p.enqueued = [] := by
  obtain ⟨mem, ho, le, -⟩ := openBuffer_eq abi Z sys file args
  obtain ⟨q, hq, rest⟩ := Option.bind_eq_some_iff.mp h
  rw [ho] at hq
  cases hq
  obtain ⟨buffer, hi, hp⟩ := Option.bind_eq_some_iff.mp rest
  cases hp
  obtain ⟨m, hfill, -⟩ := Option.bind_eq_some_iff.mp hi
  -- the `memset` of `InitData` succeeded, so the mapping is no shorter than `buffer_size`
  have ge := store_bound hfill
  rw [List.length_replicate] at ge
  exact ⟨mem, Nat.le_antisymm le (by simpa only [Nat.zero_add] using ge), hi, rfl, rfl⟩

/-- The size `InitNative` computes is a `size_t`. -/
theorem bufferSize_lt (abi : Abi) (args : InitArgs) : args.bufferSize abi < abi.modulus := Abi.wrap_lt ..

/-- What `InitNative` leaves: a well formed, empty buffer on the log file, and nothing enqueued. -/
structure Process.Started (abi : Abi) (p : Process Z) (args : InitArgs) (sys : SysCalls) : Prop where
  wf : p.buffer.WF abi args.logPath (abi.ofInt args.limitSize.toInt) 0
  size : p.buffer.bufferSize = args.bufferSize abi
  compress : p.buffer.compress = args.compress
  file : p.buffer.logFilePtr = fopen args.logPath 0 sys.logOpened
  flush : p.pFileFlush = some newFileFlush
  enqueued : p.enqueued = []

/-- `InitNative` with room for the header starts the process. -/
theorem initNative_started {sys : SysCalls} {file : Bytes} {args : InitArgs} {p : Process Z}
    (h : initNative abi Z sys file args = some p)
    (room : calculateHeaderLen abi args.logPath.length + abi.sizeofSizeT ≤ args.bufferSize abi) :
    p.Started abi args sys := by
  obtain ⟨mem, len, hi, flush, enq⟩ := initNative_inv h
  obtain ⟨b', hb, wf⟩ := Buffer.initData_wf (Z := Z)
    { mem, bufferSize := args.bufferSize abi, mapBuffer := sys.opened && sys.mapped } args.logPath args.compress
    (fopen args.logPath 0 sys.logOpened) len (bufferSize_lt abi args) room (Abi.ofInt_lt ..)
  have reset := Buffer.initData_reset hi
  rw [hb] at hi
  cases hi
  exact ⟨wf, reset.bufferSize, reset.compress, reset.logFilePtr.trans (Option.or_none ..), flush, enq⟩

/-- `InitNative` completes where the header has room and `buffer_size` is an `int`. -/
theorem initNative_completes (abi : Abi) (Z : Zlib) (sys : SysCalls) (file : Bytes) (args : InitArgs)
    (room : calculateHeaderLen abi args.logPath.length + abi.sizeofSizeT ≤ args.bufferSize abi)
    (fits : args.bufferSize abi < 2 ^ 31) : ∃ p, initNative abi Z sys file args = some p := by
  obtain ⟨mem, opened, -, full⟩ := openBuffer_eq abi Z sys file args
  obtain ⟨buffer, hi, -⟩ := Buffer.initData_wf (Z := Z)
    { mem, bufferSize := args.bufferSize abi, mapBuffer := sys.opened && sys.mapped } args.logPath
    args.compress (fopen args.logPath 0 sys.logOpened) (full fits) (bufferSize_lt abi args) room
    (Abi.ofInt_lt abi args.limitSize.toInt)
  exact ⟨_, Option.bind_eq_some_iff.mpr ⟨_, opened, Option.bind_eq_some_iff.mpr ⟨_, hi, rfl⟩⟩⟩

/-- An `InitNative` that returned had room for the header, where `buffer_size` is a capacity on top
of the header: the byte that `InitHeader` stores past the header is inside the mapping. -/
theorem initNative_room {sys : SysCalls} {file : Bytes} {args : InitArgs} {p : Process Z} {cap : Nat}
    (h : initNative abi Z sys file args = some p)
    (size : args.bufferSize abi = cap + calculateHeaderLen abi args.logPath.length) :
    calculateHeaderLen abi args.logPath.length + abi.sizeofSizeT ≤ args.bufferSize abi := by
  obtain ⟨mem, len, hi, -, -⟩ := initNative_inv h
  obtain ⟨m, hfill, rest⟩ := Option.bind_eq_some_iff.mp hi
  obtain ⟨m', hh, -⟩ := Option.bind_eq_some_iff.mp rest
  have small := args.logPath.strlen_lt
  have lt := bufferSize_lt abi args
  have := abi.two_pow_32_le_modulus
  have := abi.sizeofSizeT_le
  have hlen : m.length = args.bufferSize abi := (length_store hfill).trans len
  rw [calculateHeaderLen_eq abi small] at size ⊢
  have fits : ¬ abi.wrap (1 + abi.sizeofSizeT + abi.sizeofSizeT + args.logPath.length) >
      args.bufferSize abi := by
    rw [Abi.wrap_of_lt (by omega)]
    omega
  rcases initHeader_cases hh with ⟨long, -⟩ | ⟨m₁, m₂, m₃, m₄, m₅, h₁, h₂, h₃, h₄, h₅, h₆⟩
  · exact absurd long fits
  have bound := store_bound h₆
  rw [length_store h₅, length_store h₄, length_store h₃, length_store h₂, length_store h₁,
    hlen, List.length_singleton] at bound
  dsimp only at bound
  omega

/-! ## The other methods -/

namespace Process

variable {p : Process Z} {path : JString} {limit len : Nat}

/-- The live region goes to the queue as one payload, if it is not empty. -/
def flushed (live : Bytes) : List Bytes := if live = [] then [] else [live]

/-- What is handed over carries the live region of the buffer to its open file, if there is
anything to carry. -/
def Carries (b : Buffer Z) (handed : List BufferFlush) : Prop :=
  (b.live = [] ∧ handed = []) ∨
    ∃ f, b.live ≠ [] ∧ handed = [f] ∧ f.payload = b.live ∧ f.getLength = b.live.length ∧
      f.logFilePtr = b.logFilePtr

theorem Carries.payloads {b : Buffer Z} {handed : List BufferFlush} (h : Carries b handed) :
    handed.map BufferFlush.payload = flushed b.live := by
  rcases h with ⟨nil, rfl⟩ | ⟨f, ne, rfl, payload, -, -⟩
  · rw [flushed, if_pos nil]
    rfl
  · rw [flushed, if_neg ne, List.map_singleton, payload]

/-- `CallFileFlush(pFileFlush)` hands the live region over and clears it. -/
theorem callFileFlush_carries (h : p.buffer.WF abi path limit len) {flush : FlushId}
    (hf : p.pFileFlush = some flush) :
    ∃ p' handed, p.callFileFlush abi = some p' ∧ p'.buffer.WF abi path limit 0 ∧
      p'.enqueued = p.enqueued ++ handed ∧ Carries p.buffer handed ∧
      p.buffer.Frame p'.buffer ∧ p'.pFileFlush = p.pFileFlush := by
  have hlive := h.length_live
  by_cases pos : 0 < len
  · obtain ⟨b', f, hc, wf, payload, length, file, -⟩ := h.callFileFlush_live pos flush false
    rw [← hf] at hc
    have ne : p.buffer.live ≠ [] := List.length_pos_iff.mp (by omega)
    exact ⟨_, [f], Option.bind_eq_some_iff.mpr ⟨_, hc, Option.bind_eq_some_iff.mpr ⟨_, rfl, rfl⟩⟩, wf,
      rfl, .inr ⟨f, ne, rfl, payload, length.trans hlive.symm, file⟩,
      Buffer.callFileFlush_frame hc, rfl⟩
  · have zero : len = 0 := by omega
    subst zero
    have hc := h.callFileFlush_empty flush false
    rw [← hf] at hc
    exact ⟨_, [], Option.bind_eq_some_iff.mpr ⟨_, hc, Option.bind_eq_some_iff.mpr ⟨_, rfl, rfl⟩⟩, h,
      rfl, .inl ⟨List.length_eq_zero_iff.mp hlive, rfl⟩, Buffer.Frame.refl _, rfl⟩

/-- `CallFileFlush(pFileFlush)` moves the live region to the end of the queue. -/
theorem callFileFlush_wf (h : p.buffer.WF abi path limit len) {flush : FlushId}
    (hf : p.pFileFlush = some flush) :
    ∃ p', p.callFileFlush abi = some p' ∧ p'.buffer.WF abi path limit 0 ∧
      p'.enqueued.map BufferFlush.payload =
        p.enqueued.map BufferFlush.payload ++ flushed p.buffer.live ∧
      p.buffer.Frame p'.buffer ∧ p'.pFileFlush = p.pFileFlush := by
  obtain ⟨p', handed, hp, wf, enqueued, carries, frame, kept⟩ := callFileFlush_carries h hf
  refine ⟨p', hp, wf, ?_, frame, kept⟩
  rw [enqueued, List.map_append, carries.payloads]

/-- What a flush leaves alone. -/
theorem callFileFlush_frame {p' : Process Z} (h : p.callFileFlush abi = some p') :
    p.buffer.Frame p'.buffer := by
  obtain ⟨⟨buffer, handed⟩, hb, h⟩ := Option.bind_eq_some_iff.mp h
  obtain ⟨b', rfl, h⟩ := Option.bind_eq_some_iff.mp h
  cases h
  exact Buffer.callFileFlush_frame hb

/-- What a write or a flush leaves alone. -/
theorem logStep_frame {p' : Process Z} {call : LogCall} (h : logStep abi p call = some p') :
    p.buffer.Frame p'.buffer := by
  cases call with
  | write msg =>
    obtain ⟨p₁, hr, h⟩ := Option.bind_eq_some_iff.mp h
    obtain ⟨⟨b', n⟩, ha, h⟩ := Option.bind_eq_some_iff.mp h
    cases h
    have room : p.buffer.Frame p₁.buffer := by
      obtain ⟨empty, -, hr⟩ := Option.bind_eq_some_iff.mp hr
      split at hr
      · exact callFileFlush_frame hr
      · cases hr
        exact Buffer.Frame.refl _
    exact room.trans (Buffer.append_frame ha)
  | asyncFlush =>
    change p.asyncFlushNative abi = some p' at h
    unfold Process.asyncFlushNative at h
    split at h
    · exact callFileFlush_frame h
    · cases h
      exact Buffer.Frame.refl _

end Process

/-! ## A small process

The log file `/a`, and messages for it. The runs that the laws are tried on start here. -/

/-- `/a`. -/
def sampleLog : JString := ⟨[0x2f, 0x61], by decide, by decide⟩

/-- The message `a`. -/
def sampleA : JString := ⟨[0x61], by decide, by decide⟩

/-- The message `hello`. -/
def sampleHello : JString := ⟨[0x68, 0x65, 0x6c, 0x6c, 0x6f], by decide, by decide⟩

/-- `InitNative` on `/a` with a capacity and a mode. -/
def sampleArgs (capacity : Int32) (compress : Bool) : InitArgs :=
  { logPath := sampleLog, capacity, limitSize := 64, compress }

end Dolin.Zap
