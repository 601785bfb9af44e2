import Dolin.Base.Ledger
import Dolin.Zap.Native

/-!
# The parts of a log

`ZapRecord.write` and `ZapRecord.asyncFlush` down to the files. `asyncFlush` asks for the size of the
part in use and goes on to the next part where it has reached the limit; `write` does not ask, though
it flushes too. The worker writes every payload as soon as it is enqueued, so a size that is asked
for counts all that was handed over.
-/

namespace Dolin.Zap

open Region

/-- An `int` in a Java string. -/
def decimal (n : Int32) : Bytes :=
  let digits := (Nat.toDigits 10 n.toInt.natAbs).map fun c => UInt8.ofNat c.toNat
  if n < 0 then 0x2d :: digits else digits

/-- What the names of the parts have in common: `logPath + File.separator + logDate`. A path is far
shorter than a string can be. -/
structure PartNames where
  stem : Bytes
  nul_free : 0 ∉ stem
  short : stem.length + 64 < 2 ^ 31

/-- The bytes of a digit are not zero. -/
theorem digit_ne_nul {c : Char} (h : c.isDigit = true) : UInt8.ofNat c.toNat ≠ 0 := by
  simp only [Char.isDigit, Bool.and_eq_true, decide_eq_true_eq] at h
  have low : 48 ≤ c.toNat := h.1
  have high : c.toNat ≤ 57 := h.2
  intro eq
  have := congrArg UInt8.toNat eq
  rw [UInt8.toNat_ofNat', UInt8.toNat_zero] at this
  omega

theorem nul_not_mem_decimal (n : Int32) : 0 ∉ decimal n := by
  have digits : (0 : UInt8) ∉ (Nat.toDigits 10 n.toInt.natAbs).map fun c => UInt8.ofNat c.toNat := by
    intro mem
    obtain ⟨c, mem', eq⟩ := List.mem_map.mp mem
    exact digit_ne_nul (Nat.isDigit_of_mem_toDigits (by decide) (by decide) mem') eq
  unfold decimal
  dsimp only
  split
  · exact List.not_mem_cons_of_ne_of_not_mem (by decide) digits
  · exact digits

theorem length_decimal_le (n : Int32) : (decimal n).length ≤ 11 := by
  have bound : n.toInt.natAbs < 10 ^ 10 := by
    have := n.toInt_lt
    have := n.le_toInt
    omega
  have digits := (Nat.length_toDigits_le_iff (b := 10) (by decide) (k := 10) (by decide)).mpr bound
  unfold decimal
  dsimp only
  split
  · rw [List.length_cons, List.length_map]
    omega
  · rw [List.length_map]
    omega

namespace PartNames

/-- A name: the stem, `rest` and `.zap`. -/
def named (names : PartNames) (rest : Bytes) (nul_free : 0 ∉ rest) (short : rest.length ≤ 13) :
    JString where
  utf8 := names.stem ++ rest ++ [0x2e, 0x7a, 0x61, 0x70]
  nul_free := by
    simp only [List.mem_append, not_or]
    exact ⟨⟨names.nul_free, nul_free⟩, by decide⟩
  length_lt := by
    have := names.short
    simp only [List.length_append, List.length_cons, List.length_nil]
    omega

/-- The path of a part after the first: `-p` and its number. -/
def partPath (names : PartNames) (num : Int32) : JString :=
  names.named ([0x2d, 0x70] ++ decimal num)
    (by
      rw [List.mem_append, not_or]
      exact ⟨by decide, nul_not_mem_decimal num⟩)
    (by
      have := length_decimal_le num
      rw [List.length_append]
      exact Nat.add_le_add_left this 2)

/-- The path that `init` starts with. -/
def firstPath (names : PartNames) (num : Int32) : JString :=
  if num > 1 then names.partPath num else names.named [] nofun (Nat.zero_le _)

end PartNames

/-- The files by path, and the appends of the worker. -/
abbrev Disk := Ledger.State Bytes

/-- `Flush`: without a file or without bytes nothing is written. -/
def Disk.flush (d : Disk) (f : BufferFlush) : Disk :=
  match f.logFilePtr with
  | none => d
  | some file => if f.getLength > 0 then Ledger.State.append d file.path f.payload else d

/-- The size of the file behind a stream. -/
def Disk.sizeOf (d : Disk) (file : FILE) : Nat := (d.content file.path).length

/-- `ZapRecord` with the native side it talks to, and the disk. -/
structure Recorder (Z : Zlib) where
  names : PartNames
  num : Int32
  limitSize : Int32
  process : Process Z
  disk : Disk

namespace Recorder

variable {Z : Zlib} (abi : Abi)

/-- The worker writes what a native call enqueued. -/
def settle (r : Recorder Z) (process : Process Z) : Recorder Z :=
  { r with
    process
    disk := (process.enqueued.drop r.process.enqueued.length).foldl Disk.flush r.disk }

/-- `init` in uncompressed mode. `num` is the answer of `getLogFileNumByDate`, `cache` what the cache
file holds, `files` what the other files hold. -/
def init (Z : Zlib) (sys : SysCalls) (cache : Bytes) (files : Bytes → Bytes) (names : PartNames)
    (num capacity limitSize : Int32) : Option (Recorder Z) := do
  let process ← initNative abi Z sys cache
    { logPath := names.firstPath num, capacity, limitSize, compress := false }
  return { names, num, limitSize, process
           disk := process.enqueued.foldl Disk.flush { content := files } }

/-- `write`. -/
def write (r : Recorder Z) (msg : JString) : Option (Recorder Z) := do
  let process ← r.process.writeNative abi msg
  return r.settle process

/-- The next part, where the one in use has reached its limit. -/
def expand (r : Recorder Z) (logOpened : Bool) : Option (Recorder Z) := do
  let process ← r.process.expLogFileNative abi (r.names.partPath (r.num + 1)) r.limitSize logOpened
  return { r with num := r.num + 1 }.settle process

/-- `asyncFlush`, with the outcome of the `fopen` of a new part. -/
def asyncFlush (r : Recorder Z) (logOpened : Bool) : Option (Recorder Z) := do
  let overSize ← r.process.isLogFileOverSizeNative abi r.disk.sizeOf
  let r ← if overSize then r.expand abi logOpened else some r
  let process ← r.process.asyncFlushNative abi
  return r.settle process

end Recorder

/-- A call of `ZapRecord`. -/
inductive PartCall where
  | write (msg : JString)
  | asyncFlush (logOpened : Bool)

/-- One call, as a step of the recorder. -/
def partStep {Z : Zlib} (abi : Abi) (r : Recorder Z) : PartCall → Option (Recorder Z)
  | .write msg => r.write abi msg
  | .asyncFlush logOpened => r.asyncFlush abi logOpened

end Dolin.Zap
