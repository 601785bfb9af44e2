import Dolin.Unwindstack.MemoryRemote

/-!
# Memory of another process

Both ways to read give the bytes of the process or fail, though the one goes by pages and batches and the
other by words: a run of reads is told by the pages alone, `reads_eq`. Which way is taken is decided by the
first read that copies a byte.
-/

namespace Dolin.Unwindstack.Remote

open Region

variable {r : Remote} {addr size cur cur' len n m : Nat} {readable : Nat → Bool} {iovs : List (Nat × Nat)}

/-! ## Pages -/

/-- All pages of a range can be read. -/
def Covered (r : Remote) (readable : Nat → Bool) (addr size : Nat) : Prop :=
  ∀ i < size, readable ((addr + i) / r.pageSize) = true

instance : Decidable (Covered r readable addr size) := inferInstanceAs (Decidable (∀ i < size, _))

theorem pageSize_pos (r : Remote) : 0 < r.pageSize := Nat.two_pow_pos _

theorem sizeofLong_pos (r : Remote) : 0 < r.sizeofLong := r.abi.sizeofSizeT_pos

/-- A word is in one page. -/
theorem sizeofLong_dvd (r : Remote) : r.sizeofLong ∣ r.pageSize := by
  have eight : (8 : Nat) ∣ r.pageSize := Nat.pow_dvd_pow 2 r.pageShift_ge
  have word : r.sizeofLong ∣ 8 := by
    unfold sizeofLong
    cases r.abi <;> decide
  exact Nat.dvd_trans word eight

theorem length_bytes (r : Remote) (addr size : Nat) : (r.bytes addr size).length = size := by
  rw [bytes, List.length_map, List.length_range]

theorem bytes_add (r : Remote) (addr n m : Nat) :
    r.bytes addr (n + m) = r.bytes addr n ++ r.bytes (addr + n) m := by
  unfold bytes
  rw [List.range_add, List.map_append, List.map_map]
  refine congrArg _ (List.map_congr_left fun i _ => ?_)
  rw [Function.comp_apply, Nat.add_assoc]

theorem covered_add : Covered r readable addr (n + m) ↔
    Covered r readable addr n ∧ Covered r readable (addr + n) m := by
  constructor
  · refine fun all => ⟨fun i lt => all i (by omega), fun i lt => ?_⟩
    rw [Nat.add_assoc]
    exact all (n + i) (by omega)
  · rintro ⟨front, back⟩ i lt
    rcases Nat.lt_or_ge i n with behind | from'
    · exact front i behind
    · have there := back (i - n) (by omega)
      rwa [show addr + n + (i - n) = addr + i by omega] at there

theorem same_page {i : Nat} (one : addr % r.pageSize + i < r.pageSize) :
    (addr + i) / r.pageSize = addr / r.pageSize := by
  have parts := Nat.div_add_mod addr r.pageSize
  rw [Nat.mul_comm] at parts
  refine Nat.div_eq_of_lt_le (by omega) ?_
  rw [Nat.add_mul, Nat.one_mul]
  omega

/-- A range in one page. -/
theorem covered_page (positive : 0 < size) (one : addr % r.pageSize + size ≤ r.pageSize) :
    Covered r readable addr size ↔ readable (addr / r.pageSize) = true := by
  constructor
  · intro all
    have first := all 0 positive
    rwa [Nat.add_zero] at first
  · intro readable' i lt
    rw [same_page (by omega)]
    exact readable'

/-- What a read has copied: all of the range where its pages can be read, less where not, and nothing where
its first page cannot be read. -/
structure Exact (r : Remote) (readable : Nat → Bool) (addr size : Nat) (bs : Bytes) : Prop where
  whole : Covered r readable addr size → bs = r.bytes addr size
  bound : bs.length ≤ size
  full : bs.length = size → Covered r readable addr size
  begins : bs ≠ [] ↔ 0 < size ∧ readable (addr / r.pageSize) = true

/-! ## `ProcessVmRead` -/

/-- Ranges in a row, each in one page. -/
inductive Row (r : Remote) : List (Nat × Nat) → Nat → Nat → Prop where
  | nil (cur : Nat) : Row r [] cur cur
  | cons {cur n cur' : Nat} {iovs : List (Nat × Nat)} (positive : 0 < n)
      (one : cur % r.pageSize + n ≤ r.pageSize) (rest : Row r iovs (cur + n) cur') :
      Row r ((cur, n) :: iovs) cur cur'

theorem Row.le (row : Row r iovs cur cur') : cur ≤ cur' := by
  induction row with
  | nil cur => exact Nat.le_refl cur
  | cons positive one rest ih => omega

/-- What the system copies of ranges in a row. -/
def copied (r : Remote) (iovs : List (Nat × Nat)) : Bytes :=
  (iovs.takeWhile fun iov => r.mapped (iov.1 / r.pageSize)).flatMap fun iov => r.bytes iov.1 iov.2

/-- A batch: it is copied whole if and only if all its pages are mapped. -/
theorem copied_row (row : Row r iovs cur cur') :
    (Covered r r.mapped cur (cur' - cur) → r.copied iovs = r.bytes cur (cur' - cur)) ∧
    (r.copied iovs).length ≤ cur' - cur ∧
    ((r.copied iovs).length = cur' - cur → Covered r r.mapped cur (cur' - cur)) := by
  induction row with
  | nil cur =>
    rw [Nat.sub_self]
    exact ⟨fun _ => rfl, Nat.le_refl 0, fun _ _ lt => absurd lt (Nat.not_lt_zero _)⟩
  | @cons cur n cur' iovs positive one rest ih =>
    have le := rest.le
    obtain ⟨whole, bound, full⟩ := ih
    rw [show cur' - cur = n + (cur' - (cur + n)) by omega, covered_add, covered_page positive one, bytes_add]
    unfold copied at *
    rw [List.takeWhile_cons]
    cases mapped : r.mapped (cur / r.pageSize) with
    | false =>
      refine ⟨fun all => absurd all.1 Bool.false_ne_true, Nat.zero_le _, fun none' => ?_⟩
      rw [if_neg Bool.false_ne_true, List.flatMap_nil, List.length_nil] at none'
      omega
    | true =>
      rw [if_pos rfl, List.flatMap_cons, List.length_append, length_bytes]
      refine ⟨fun all => by rw [whole all.2], by omega, fun all => ⟨rfl, full (by omega)⟩⟩

/-- The ranges of a batch. -/
theorem gather_row {iovecs : Nat} (room : cur + len < r.abi.modulus) :
    ∃ iovs cur' len', r.gather iovecs cur len = some (iovs, cur', len') ∧ Row r iovs cur cur' ∧
      cur' + len' = cur + len ∧ (0 < iovecs → 0 < len → cur < cur') := by
  have pos := r.pageSize_pos
  have small : r.abi.modulus ≤ 2 ^ 64 := by cases r.abi <;> decide
  induction iovecs generalizing cur len with
  | zero => exact ⟨[], cur, len, rfl, .nil cur, rfl, fun none' => absurd none' (Nat.lt_irrefl 0)⟩
  | succ iovecs ih =>
    rw [gather]
    by_cases none' : len = 0
    · rw [if_pos none']
      exact ⟨[], cur, len, rfl, .nil cur, rfl, fun _ positive => absurd none' (Nat.ne_of_gt positive)⟩
    · have inPage := Nat.mod_lt cur pos
      rw [if_neg none', if_neg (by omega)]
      dsimp only
      rw [if_neg (by omega)]
      obtain ⟨iovs, cur', len', rest, row, total, -⟩ :=
        @ih (cur + min (r.pageSize - cur % r.pageSize) len) (len - min (r.pageSize - cur % r.pageSize) len)
          (by omega)
      rw [rest]
      refine ⟨_, cur', len', rfl, .cons (by omega) (by omega) row, by omega, fun _ _ => ?_⟩
      have le := row.le
      omega

theorem processVmReadv_eq (r : Remote) (iovs : List (Nat × Nat)) :
    r.processVmReadv iovs = if r.copied iovs = [] then none else some (r.copied iovs) := rfl

/-- The loop over the batches. -/
theorem processVmReadLoop_spec {turns : Nat} (room : cur + len < r.abi.modulus) (enough : len ≤ turns) :
    (Covered r r.mapped cur len → r.processVmReadLoop turns cur len = r.bytes cur len) ∧
    (r.processVmReadLoop turns cur len).length ≤ len ∧
    ((r.processVmReadLoop turns cur len).length = len → Covered r r.mapped cur len) := by
  induction turns generalizing cur len with
  | zero =>
    obtain rfl : len = 0 := Nat.le_zero.mp enough
    exact ⟨fun _ => rfl, Nat.le_refl 0, fun _ _ lt => absurd lt (Nat.not_lt_zero _)⟩
  | succ turns ih =>
    rw [processVmReadLoop]
    by_cases none' : len = 0
    · subst none'
      rw [if_pos rfl]
      exact ⟨fun _ => rfl, Nat.le_refl 0, fun _ _ lt => absurd lt (Nat.not_lt_zero _)⟩
    · obtain ⟨iovs, cur', len', gathered, row, total, moves⟩ := @gather_row r cur len kMaxIovecs room
      have progress := moves (by decide) (Nat.pos_of_ne_zero none')
      obtain ⟨n, rfl⟩ := Nat.exists_eq_add_of_le row.le
      obtain rfl : len = n + len' := by omega
      have batch := copied_row row
      rw [Nat.add_sub_cancel_left] at batch
      obtain ⟨whole, bound, full⟩ := batch
      obtain ⟨whole', bound', full'⟩ := @ih (cur + n) len' (by omega) (by omega)
      rw [if_neg none', gathered]
      dsimp only
      rw [processVmReadv_eq, covered_add]
      by_cases failed : r.copied iovs = []
      · rw [if_pos failed]
        rw [failed, List.length_nil] at full
        refine ⟨fun all => ?_, Nat.zero_le _, fun short => ?_⟩
        · have length := congrArg List.length (whole all.1)
          rw [failed, length_bytes, List.length_nil] at length
          omega
        · rw [List.length_nil] at short
          omega
      · rw [if_neg failed]
        dsimp only
        rw [List.length_append]
        refine ⟨fun all => ?_, by omega, fun all => ⟨full (by omega), full' (by omega)⟩⟩
        rw [whole all.1, whole' all.2, bytes_add]

/-- **`ProcessVmRead`** copies the range where its pages are mapped, in as many batches as it takes. -/
theorem exact_processVmRead (room : addr + size < r.abi.modulus) :
    Exact r r.mapped addr size (r.processVmRead addr size) := by
  obtain ⟨whole, bound, full⟩ := @processVmReadLoop_spec r addr size size room (Nat.le_refl _)
  refine ⟨whole, bound, full, ?_⟩
  unfold processVmRead
  cases size with
  | zero => exact iff_of_false (fun positive => positive rfl) fun ⟨positive, _⟩ => Nat.lt_irrefl 0 positive
  | succ size =>
    obtain ⟨iovs, cur', len', gathered, row, total, moves⟩ := @gather_row r addr (size + 1) kMaxIovecs room
    have progress := moves (by decide) (Nat.succ_pos size)
    rw [processVmReadLoop, if_neg (Nat.succ_ne_zero size), gathered]
    dsimp only
    rw [processVmReadv_eq]
    cases row with
    | nil => exact absurd progress (Nat.lt_irrefl _)
    | @cons _ n _ iovs positive one rest =>
      unfold copied
      rw [List.takeWhile_cons]
      cases mapped : r.mapped (addr / r.pageSize) with
      | false => exact iff_of_false (fun positive => positive rfl) nofun
      | true =>
        refine iff_of_true ?_ ⟨Nat.succ_pos size, rfl⟩
        have first : r.bytes addr n ≠ [] := by
          rw [ne_eq, ← List.length_eq_zero_iff, length_bytes]
          omega
        rw [if_pos rfl, List.flatMap_cons, if_neg fun nil => first (List.append_eq_nil_iff.mp nil).1]
        exact fun nil => first (List.append_eq_nil_iff.mp (List.append_eq_nil_iff.mp nil).1).1

/-! ## `PtraceRead` -/

/-- An aligned word is in one page. -/
theorem word_page (aligned : addr % r.sizeofLong = 0) : addr % r.pageSize + r.sizeofLong ≤ r.pageSize := by
  obtain ⟨q, words⟩ := r.sizeofLong_dvd
  have inPage : addr % r.pageSize < r.pageSize := Nat.mod_lt _ r.pageSize_pos
  have multiple : addr % r.pageSize % r.sizeofLong = 0 := by
    rw [Nat.mod_mod_of_dvd _ r.sizeofLong_dvd, aligned]
  obtain ⟨k, at'⟩ := Nat.dvd_of_mod_eq_zero multiple
  rw [at', words] at inPage
  rw [at', words, ← Nat.mul_succ]
  exact Nat.mul_le_mul_left _ (Nat.succ_le_of_lt (Nat.lt_of_mul_lt_mul_left inPage))

theorem bytes_slice (r : Remote) (addr : Nat) {n m k : Nat} (inside : m + k ≤ n) :
    ((r.bytes addr n).drop m).take k = r.bytes (addr + m) k := by
  obtain ⟨rest, rfl⟩ := Nat.exists_eq_add_of_le inside
  rw [bytes_add, bytes_add, List.append_assoc, List.drop_left' (r.length_bytes addr m),
    List.take_left' (r.length_bytes (addr + m) k)]

theorem exact_zero (r : Remote) (readable : Nat → Bool) (addr : Nat) : Exact r readable addr 0 [] :=
  ⟨fun _ => rfl, Nat.le_refl 0, fun _ _ lt => absurd lt (Nat.not_lt_zero _),
    iff_of_false (fun positive => positive rfl) fun ⟨positive, _⟩ => Nat.lt_irrefl 0 positive⟩

/-- The first bytes cannot be read. -/
theorem exact_nil (positive : 0 < size) (one : readable (addr / r.pageSize) = false) :
    Exact r readable addr size [] := by
  refine ⟨fun all => ?_, Nat.zero_le _, fun none' => absurd none' (Nat.ne_of_lt positive), ?_⟩
  · have first := all 0 positive
    rw [Nat.add_zero, one] at first
    cases first
  · rw [one]
    exact iff_of_false (fun positive => positive rfl) nofun

/-- A read goes on behind what it has copied. -/
theorem Exact.append {bs bs' : Bytes} (front : Exact r readable addr n bs) (same : bs.length = n)
    (back : Exact r readable (addr + n) m bs') : Exact r readable addr (n + m) (bs ++ bs') := by
  have bound := back.bound
  refine ⟨fun all => ?_, by rw [List.length_append]; omega, fun full => ?_, ?_⟩
  · rw [front.whole (covered_add.mp all).1, back.whole (covered_add.mp all).2, bytes_add]
  · rw [List.length_append] at full
    exact covered_add.mpr ⟨front.full same, back.full (by omega)⟩
  · cases n with
    | zero =>
      rw [List.eq_nil_of_length_eq_zero same, List.nil_append, Nat.zero_add]
      exact back.begins
    | succ n =>
      have first := front.full same 0 (Nat.succ_pos n)
      have positive : bs ++ bs' ≠ [] := by
        intro nil
        rw [(List.append_eq_nil_iff.mp nil).1] at same
        cases same
      exact iff_of_true positive ⟨by omega, first⟩

/-- A part of an aligned word. -/
theorem exact_word {skip : Nat} (aligned : addr % r.sizeofLong = 0)
    (inside : skip + n ≤ r.sizeofLong) (here : r.peekable (addr / r.pageSize) = true) :
    Exact r r.peekable (addr + skip) n (((r.bytes addr r.sizeofLong).drop skip).take n) := by
  have page := word_page aligned
  have word : Covered r r.peekable addr r.sizeofLong := (covered_page r.sizeofLong_pos page).mpr here
  have covered : Covered r r.peekable (addr + skip) n := by
    intro i lt
    rw [Nat.add_assoc]
    exact word (skip + i) (by omega)
  rw [bytes_slice r addr inside]
  refine ⟨fun _ => rfl, Nat.le_of_eq (r.length_bytes _ _), fun _ => covered, ?_⟩
  rw [ne_eq, ← List.length_eq_zero_iff, length_bytes]
  exact ⟨fun positive => ⟨Nat.pos_of_ne_zero positive, covered 0 (Nat.pos_of_ne_zero positive)⟩,
    fun ⟨positive, _⟩ => Nat.ne_of_gt positive⟩

/-- The words, and the bytes left over. -/
theorem exact_words {words leftOver : Nat} (aligned : addr % r.sizeofLong = 0)
    (less : leftOver < r.sizeofLong) :
    Exact r r.peekable addr (words * r.sizeofLong + leftOver) (r.ptraceReadWords words addr leftOver) := by
  have pos := r.sizeofLong_pos
  induction words generalizing addr with
  | zero =>
    rw [Nat.zero_mul, Nat.zero_add, ptraceReadWords, ptraceReadLong]
    by_cases none' : leftOver = 0
    · rw [if_pos none', none']
      exact exact_zero r r.peekable addr
    · rw [if_neg none']
      cases here : r.peekable (addr / r.pageSize) with
      | false => exact exact_nil (Nat.pos_of_ne_zero none') here
      | true => exact @exact_word r addr leftOver 0 aligned (by omega) here
  | succ words ih =>
    rw [ptraceReadWords, ptraceReadLong, show (words + 1) * r.sizeofLong + leftOver =
      r.sizeofLong + (words * r.sizeofLong + leftOver) by rw [Nat.succ_mul]; omega]
    cases here : r.peekable (addr / r.pageSize) with
    | false => exact exact_nil (by omega) here
    | true =>
      have first := @exact_word r addr r.sizeofLong 0 aligned (Nat.le_of_eq (Nat.zero_add _)) here
      rw [List.drop_zero, List.take_of_length_le (Nat.le_of_eq (r.length_bytes _ _))] at first
      exact first.append (r.length_bytes _ _) (ih (by rw [Nat.add_mod_right]; exact aligned))

/-- **`PtraceRead`** copies the range where its pages can be read word by word. -/
theorem exact_ptraceRead (room : addr + size < 2 ^ 64) :
    Exact r r.peekable addr size (r.ptraceRead addr size) := by
  have pos := r.sizeofLong_pos
  rw [ptraceRead, if_neg (Nat.not_le.mpr room)]
  dsimp only
  by_cases aligned : addr % r.sizeofLong = 0
  · rw [if_neg (not_not_intro aligned)]
    have words := @exact_words r addr (size / r.sizeofLong) (size % r.sizeofLong) aligned (Nat.mod_lt _ pos)
    rwa [Nat.mul_comm, Nat.div_add_mod] at words
  · rw [if_pos aligned, ptraceReadLong]
    -- The range begins in the middle of a word.
    have less := Nat.mod_lt addr pos
    obtain ⟨base, word, base'⟩ : ∃ base, addr = base + addr % r.sizeofLong ∧ base % r.sizeofLong = 0 :=
      ⟨r.sizeofLong * (addr / r.sizeofLong), (Nat.div_add_mod _ _).symm, Nat.mul_mod_right _ _⟩
    generalize addr % r.sizeofLong = skip at word less
    subst word
    have page := word_page base'
    have same : (base + skip) / r.pageSize = base / r.pageSize := same_page (by omega)
    rw [Nat.add_sub_cancel]
    cases here : r.peekable (base / r.pageSize) with
    | false =>
      cases size with
      | zero => exact exact_zero r r.peekable _
      | succ size => exact exact_nil (Nat.succ_pos size) (same ▸ here)
    | true =>
      change Exact r r.peekable (base + skip) size (_ ++ _)
      obtain ⟨rest, total⟩ := Nat.exists_eq_add_of_le (Nat.min_le_right (r.sizeofLong - skip) size)
      have inside : skip + min (r.sizeofLong - skip) size ≤ r.sizeofLong := by omega
      have front := exact_word base' inside here
      have length : (((r.bytes base r.sizeofLong).drop skip).take (min (r.sizeofLong - skip) size)).length =
          min (r.sizeofLong - skip) size := by
        rw [bytes_slice r base inside, length_bytes]
      have left : size - min (r.sizeofLong - skip) size = rest := by omega
      have back : Exact r r.peekable (base + skip + min (r.sizeofLong - skip) size) rest
          (r.ptraceReadWords (rest / r.sizeofLong) (base + skip + min (r.sizeofLong - skip) size)
            (rest % r.sizeofLong)) := by
        cases rest with
        | zero =>
          rw [Nat.zero_div, Nat.zero_mod]
          exact exact_zero r r.peekable _
        | succ rest =>
          have next : base + skip + min (r.sizeofLong - skip) size = base + r.sizeofLong := by omega
          rw [next]
          have words :=
            @exact_words r (base + r.sizeofLong) ((rest + 1) / r.sizeofLong) ((rest + 1) % r.sizeofLong)
            (by rw [Nat.add_mod_right]; exact base') (Nat.mod_lt _ pos)
          rwa [Nat.mul_comm, Nat.div_add_mod] at words
      have all := front.append length back
      rw [left]
      rwa [← total] at all

/-! ## A run of reads -/

/-- The way that a read takes: the one that was taken before, else by the first page. -/
def way (r : Remote) (func : ReadFunc) (addr size : Nat) : ReadFunc :=
  match func with
  | .unset =>
    if 0 < size ∧ r.mapped (addr / r.pageSize) then .processVm
    else if 0 < size ∧ r.peekable (addr / r.pageSize) then .ptrace
    else .unset
  | func => func

/-- What a way answers: the bytes of the process, where it can read their pages. -/
def answer (r : Remote) (func : ReadFunc) (addr size : Nat) : Option Bytes :=
  match func with
  | .unset => if size = 0 then some [] else none
  | .processVm => if Covered r r.mapped addr size then some (r.bytes addr size) else none
  | .ptrace => if Covered r r.peekable addr size then some (r.bytes addr size) else none

/-- The answers to a number of reads. -/
def answers (r : Remote) (func : ReadFunc) : List (Nat × Nat) → List (Option Bytes)
  | [] => []
  | (addr, size) :: asked => r.answer (r.way func addr size) addr size :: r.answers (r.way func addr size) asked

theorem Exact.fully {bs : Bytes} (exact' : Exact r readable addr size bs) :
    (if bs.length = size then some bs else none) =
      if Covered r readable addr size then some (r.bytes addr size) else none := by
  by_cases all : Covered r readable addr size
  · rw [if_pos all, exact'.whole all, if_pos (r.length_bytes _ _)]
  · rw [if_neg all, if_neg (mt exact'.full all)]

/-- A read that has to be full. -/
theorem readFully_eq (func : ReadFunc) (room : addr + size < r.abi.modulus) :
    r.readFully func addr size = (r.answer (r.way func addr size) addr size, r.way func addr size) := by
  have small : r.abi.modulus ≤ 2 ^ 64 := by cases r.abi <;> decide
  have vm := @exact_processVmRead r addr size room
  have ptrace := @exact_ptraceRead r addr size (by omega)
  have low : ¬ (r.abi = .ilp32 ∧ addr ≥ 2 ^ 32) := by
    rintro ⟨ilp32, high⟩
    rw [ilp32] at room
    exact absurd room (by change ¬ addr + size < 2 ^ 32; omega)
  unfold readFully read
  rw [if_neg low]
  cases func with
  | processVm =>
    dsimp only
    rw [vm.fully]
    rfl
  | ptrace =>
    dsimp only
    rw [ptrace.fully]
    rfl
  | unset =>
    dsimp only
    unfold way
    by_cases first : 0 < size ∧ r.mapped (addr / r.pageSize) = true
    · rw [if_pos first, if_pos (vm.begins.mpr first)]
      dsimp only
      rw [vm.fully]
      rfl
    · rw [if_neg first, if_neg (mt vm.begins.mp first)]
      dsimp only
      by_cases second : 0 < size ∧ r.peekable (addr / r.pageSize) = true
      · rw [if_pos second, if_pos (ptrace.begins.mpr second), ptrace.fully]
        rfl
      · rw [if_neg second, if_neg (mt ptrace.begins.mp second), not_not.mp (mt ptrace.begins.mp second),
          List.length_nil]
        unfold answer
        dsimp only
        congr 1
        exact if_congr eq_comm rfl rfl

/-- **A run of reads** that end in the address space is told by the pages: each is answered with the bytes of the process or fails, and the
first that begins on a page that can be read decides by which pages. -/
theorem reads_eq (func : ReadFunc) (asked : List (Nat × Nat))
    (room : ∀ range ∈ asked, range.1 + range.2 < r.abi.modulus) :
    r.reads func asked = r.answers func asked := by
  induction asked generalizing func with
  | nil => rfl
  | cons range asked ih =>
    obtain ⟨addr, size⟩ := range
    rw [reads, readFully_eq func (room _ List.mem_cons_self)]
    dsimp only
    rw [ih _ fun range mem => room range (List.mem_cons_of_mem _ mem)]
    rfl

/-- A process with a page that only a debugger can read, at 4096. -/
def twoPages : Remote where
  abi := .lp64
  pageShift := 12
  content i := UInt8.ofNat i
  mapped page := page = 0
  peekable page := page ≤ 1
  pageShift_ge := by decide

/-- The page is read if it is asked for first, and not after another. -/
theorem reads_eq_twoPages :
    twoPages.reads .unset [(4097, 2), (1, 2)] = [some [1, 2], some [1, 2]] ∧
      twoPages.reads .unset [(1, 2), (4097, 2)] = [some [1, 2], none] :=
  ⟨(reads_eq .unset _ (by decide)).trans (by decide), (reads_eq .unset _ (by decide)).trans (by decide)⟩

end Dolin.Unwindstack.Remote
