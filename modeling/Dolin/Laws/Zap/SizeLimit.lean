import Dolin.Laws.Zap.Native
import Dolin.Zap.Print

/-!
# The limit on the size of a log

The limit is given in megabytes. `Config` multiplies it out as an `int`, `InitNative` takes the
product as a `size_t`, and the header holds it as one. From 2048 megabytes on the product does not
fit: it comes out negative, and the `size_t` is larger than any file; or it comes out small, zero
included, and the log is over its limit too soon.
-/

namespace Dolin.Zap

open Region BufferHeader

variable {Z : Zlib} {abi : Abi}

/-- The arguments are those of a call of `initNative`, the path in whatever bytes JNI gives it. -/
def InitArgs.PassedBy (args : InitArgs) (calls : List JniCall) : Prop :=
  ∃ bufferPath logFilePath, .initNative bufferPath logFilePath args.capacity args.limitSize
    args.compress ∈ calls

/-- `isLogFileOverSizeNative` of a started process, with a log file of a given size. -/
theorem Process.Started.isLogFileOverSizeNative {p : Process Z} {args : InitArgs} {sys : SysCalls}
    (h : p.Started abi args sys) (opened : sys.logOpened = true) (size : Nat) :
    p.isLogFileOverSizeNative abi (fun _ => size) =
      some (decide (abi.ofInt args.limitSize.toInt ≤ abi.ftell size)) := by
  have limit := h.wf.header.getLimitSize
  have file : p.buffer.logFilePtr = some { path := args.logPath.utf8, opened := 0 } := by
    rw [h.file, opened]
    rfl
  rw [Process.isLogFileOverSizeNative, Buffer.isCurrentLogFileOversize, limit,
    Buffer.getCurrentLogFileSize, file]
  rfl

/-- The size of the mapping for the capacity that `ZapPrint` asks for. -/
theorem bufferSize_of_capacity (abi : Abi) {args : InitArgs} (capacity : args.capacity = 1024 * 400) :
    args.bufferSize abi = 409600 + calculateHeaderLen abi args.logPath.length := by
  have short := args.logPath.strlen_lt
  have big := abi.two_pow_32_le_modulus
  have := abi.sizeofSizeT_le
  have taken : abi.ofInt args.capacity.toInt = 409600 := by
    rw [capacity]
    exact Abi.ofInt_of_nonneg (by simp) (by simp)
  rw [InitArgs.bufferSize, taken]
  apply Abi.wrap_of_lt
  rw [calculateHeaderLen_eq abi short]
  omega

/-- The limit in bytes, as `Config` computes it. -/
theorem toInt_fileSizeLimitDayByte (builder : Config.Builder) :
    builder.create.fileSizeLimitDayByte.toInt =
      (builder.fileSizeLimitDay.toInt * 2 ^ 20).bmod (2 ^ 32) := by
  change (builder.fileSizeLimitDay * 1024 * 1024).toInt = _
  rw [Int32.toInt_mul, Int32.toInt_mul, Int.bmod_mul_bmod, Int.mul_assoc]
  rfl

/-- On a 64-bit ABI the limit is the product where that fits an `int`; where it does not, the limit
is another. -/
theorem ofInt_limit_eq_iff {n : Nat} (small : n < 2 ^ 31) :
    Abi.ofInt .lp64 ((n * 2 ^ 20 : Int).bmod (2 ^ 32)) = n * 2 ^ 20 ↔ n < 2048 := by
  have modulus : ((Abi.modulus .lp64 : Nat) : Int) = 2 ^ 64 := rfl
  rw [Abi.ofInt, modulus]
  simp only [Int.bmod]
  omega

/-- Two limits agree on every file exactly where they are the same. -/
theorem limits_agree_iff {l n : Nat} (small : n < 2 ^ 63) :
    (∀ size, size < 2 ^ 63 → (l ≤ size ↔ n ≤ size)) ↔ l = n := by
  constructor
  · intro agree
    rcases Nat.lt_trichotomy l n with less | same | more
    · have := (agree l (by omega)).mp (Nat.le_refl l)
      omega
    · exact same
    · have := (agree n small).mpr (Nat.le_refl n)
      omega
  · rintro rfl size -
    exact Iff.rfl

/-- **The limit on the size.** On a 64-bit ABI, for every number of megabytes that is not negative and
every way `create`, `ZapRecord.init` and `InitNative` go through with it to an open log file: the log
is over its limit exactly when its size has reached that many megabytes, for every size, if and only
if there are fewer than 2048 of them. -/
theorem size_limit_effective_iff (builder : Config.Builder) (n : Int32) (nonneg : 0 ≤ n.toInt)
    (record : ZapRecord) (bufferPath logPath logDate : String) (num : Int32) (native : Option Int64)
    (args : InitArgs)
    (passed : args.PassedBy (record.init bufferPath logPath logDate (1024 * 400)
      (builder.setFileSizeLimitDay n).create.fileSizeLimitDayByte
      (builder.setFileSizeLimitDay n).create.compressEnable num native).2)
    (Z : Zlib) (sys : SysCalls) (cache : Bytes) (p : Process Z) (opened : sys.logOpened = true)
    (init : initNative .lp64 Z sys cache args = some p) :
    (∀ size, size < 2 ^ 63 →
      p.isLogFileOverSizeNative .lp64 (fun _ => size) =
        some (decide (n.toInt.toNat * 2 ^ 20 ≤ size))) ↔ n.toInt < 2048 := by
  obtain ⟨_, _, call⟩ := passed
  simp only [ZapRecord.init, List.mem_singleton, JniCall.initNative.injEq] at call
  obtain ⟨-, -, capacity, limitSize, -⟩ := call
  have size := bufferSize_of_capacity .lp64 capacity
  have started := initNative_started init (initNative_room init size)
  have small : n.toInt.toNat < 2 ^ 31 := by
    have := n.toInt_lt
    omega
  -- the limit that the header holds
  have limit : Abi.ofInt .lp64 args.limitSize.toInt =
      Abi.ofInt .lp64 (((n.toInt.toNat : Nat) * 2 ^ 20 : Int).bmod (2 ^ 32)) := by
    rw [limitSize, toInt_fileSizeLimitDayByte, Int.toNat_of_nonneg nonneg]
    rfl
  have answer : ∀ size, size < 2 ^ 63 → (p.isLogFileOverSizeNative .lp64 (fun _ => size) =
      some (decide (n.toInt.toNat * 2 ^ 20 ≤ size)) ↔
        (Abi.ofInt .lp64 args.limitSize.toInt ≤ size ↔ n.toInt.toNat * 2 ^ 20 ≤ size)) := by
    intro size fits
    have told : Abi.ftell .lp64 size = size := if_pos fits
    rw [started.isLogFileOverSizeNative opened, told, Option.some_inj, decide_eq_decide]
  rw [forall₂_congr answer, limits_agree_iff (by omega), limit, ofInt_limit_eq_iff small]
  omega

/-- What `init` passes for `/a` and a limit of `n` megabytes. -/
def limitArgs (n : Int32) : InitArgs :=
  { logPath := sampleLog, capacity := 1024 * 400, limitSize := n * 1024 * 1024, compress := true }

/-- `InitNative` completes with it. -/
theorem limitArgs_started (n : Int32) :
    ∃ p, initNative .lp64 blocks {} [] (limitArgs n) = some p ∧
      p.Started .lp64 (limitArgs n) {} := by
  have size := bufferSize_of_capacity .lp64 (show (limitArgs n).capacity = 1024 * 400 from rfl)
  have header : calculateHeaderLen .lp64 (limitArgs n).logPath.length = 28 := rfl
  have width : Abi.sizeofSizeT .lp64 = 8 := rfl
  have room : calculateHeaderLen .lp64 (limitArgs n).logPath.length + Abi.sizeofSizeT .lp64 ≤
      (limitArgs n).bufferSize .lp64 := by omega
  obtain ⟨p, init⟩ := initNative_completes .lp64 blocks {} [] (limitArgs n) room (by omega)
  exact ⟨p, init, initNative_started init room⟩

/-- With the builder's 15 megabytes. -/
theorem size_limit_effective_iff_15 :
    ∃ p : Process blocks, initNative .lp64 blocks {} [] (limitArgs 15) = some p ∧
      ∀ size, size < 2 ^ 63 → p.isLogFileOverSizeNative .lp64 (fun _ => size) =
        some (decide (Int.toNat (Int32.toInt 15) * 2 ^ 20 ≤ size)) := by
  obtain ⟨p, init, -⟩ := limitArgs_started 15
  refine ⟨p, init, (size_limit_effective_iff {} 15 (by simp) {} "" "" "" 0 none (limitArgs 15)
    ⟨_, _, List.mem_singleton_self _⟩ blocks {} [] p rfl init).mpr (by simp)⟩

/-- With 2048 megabytes, a log of that size is not over its limit. -/
theorem limit_of_2048_lost :
    ∃ p : Process blocks, initNative .lp64 blocks {} [] (limitArgs 2048) = some p ∧
      (limitArgs 2048).PassedBy (ZapRecord.init {} "" "" "" (1024 * 400)
        (({} : Config.Builder).setFileSizeLimitDay 2048).create.fileSizeLimitDayByte true 0 none).2 ∧
      2048 * 2 ^ 20 ≤ 2 ^ 31 ∧
      p.isLogFileOverSizeNative .lp64 (fun _ => 2 ^ 31) = some false := by
  obtain ⟨p, init, started⟩ := limitArgs_started 2048
  refine ⟨p, init, ⟨_, _, List.mem_singleton_self _⟩, by simp, ?_⟩
  rw [started.isLogFileOverSizeNative rfl]
  decide

end Dolin.Zap
