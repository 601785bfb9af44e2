import Dolin.Base.Lines
import Dolin.Hawkeye.OtherThreads
import Mathlib.Data.List.Nodup

/-!
# Which threads are in a Java crash report

The loop counts the threads whose name is on the white list and not that of the crashed thread, and
writes about the first ten of them. So the report is of all other threads on the white list where none
of them has the name of the crashed thread.
-/

namespace Dolin.Hawkeye

/-- The report that is due where these are the threads to be reported. -/
def threadReport (info : HandlerInfo) (size : Nat) (threads : List StackTrace) : Utf16 :=
  (threads.take 10).flatMap (threadSection info) ++
    if 1 < size then
      threadTotals size threads.length (threads.length - min 10 threads.length) (min 10 threads.length)
    else []

/-- The threads other than the crashed one whose name is on the white list. -/
def otherThreads (info : HandlerInfo) (map : AllStackTraces) (crashedThread : JavaThread) :
    List StackTrace :=
  map.entries.filter fun entry => entry.thread.object ≠ crashedThread.object ∧
    matchThreadName info.dumpAllThreadsWhiteList entry.thread.name

variable {info : HandlerInfo} {crashedThread : JavaThread}

/-- The threads that the loop does not skip. -/
def visited (info : HandlerInfo) (entries : List StackTrace) (crashedThread : JavaThread) :
    List StackTrace :=
  entries.filter fun entry => entry.thread.name ≠ crashedThread.name ∧
    matchThreadName info.dumpAllThreadsWhiteList entry.thread.name

/-- The variables after the loop came to these threads and did not skip them. -/
def counts (info : HandlerInfo) (threads : List StackTrace) : ThreadCounts :=
  ⟨threads.length, threads.length - min 10 threads.length, min 10 threads.length,
    (threads.take 10).flatMap (threadSection info)⟩

/-- One turn of the loop. -/
theorem visitThread_counts (threads : List StackTrace) (entry : StackTrace) :
    visitThread info crashedThread (counts info threads) entry =
      counts info (threads ++ visited info [entry] crashedThread) := by
  unfold visitThread
  by_cases crashed : entry.thread.name = crashedThread.name
  · have skipped : visited info [entry] crashedThread = [] := by simp [visited, crashed]
    rw [if_pos crashed, skipped, List.append_nil]
  rw [if_neg crashed]
  by_cases listed : matchThreadName info.dumpAllThreadsWhiteList entry.thread.name
  · have there : visited info [entry] crashedThread = [entry] := by simp [visited, crashed, listed]
    rw [if_neg (not_not.mpr listed), there]
    have length : (threads ++ [entry]).length = threads.length + 1 := List.length_append
    by_cases full : 10 ≤ threads.length
    · have dumped : min 10 threads.length = 10 := Nat.min_eq_left full
      have dumped' : min 10 (threads.length + 1) = 10 := Nat.min_eq_left (by omega)
      have same : (threads ++ [entry]).take 10 = threads.take 10 := List.take_append_of_le_length full
      simp only [counts, length, dumped, dumped', same, Nat.le_refl, if_true]
      rw [Nat.sub_add_comm full]
    · have dumped : min 10 threads.length = threads.length := Nat.min_eq_right (by omega)
      have dumped' : min 10 (threads.length + 1) = threads.length + 1 := Nat.min_eq_right (by omega)
      have all : threads.take 10 = threads := List.take_of_length_le (by omega)
      have all' : (threads ++ [entry]).take 10 = threads ++ [entry] :=
        List.take_of_length_le (by rw [length]; omega)
      simp only [counts, length, dumped, dumped', all, all', if_neg full, Nat.sub_self,
        List.flatMap_append, List.flatMap_singleton]
  · have skipped : visited info [entry] crashedThread = [] := by simp [visited, listed]
    rw [if_pos listed, skipped, List.append_nil]

/-- **The loop** counts the threads that it does not skip, and writes about the first ten. -/
theorem foldl_visitThread (entries : List StackTrace) :
    entries.foldl (visitThread info crashedThread) {} =
      counts info (visited info entries crashedThread) := by
  induction entries using List.reverseRecOn with
  | nil => rfl
  | append_singleton entries entry ih =>
    rw [List.foldl_append, ih, List.foldl_cons, List.foldl_nil, visitThread_counts, visited, visited,
      ← List.filter_append, ← visited]

/-- The report is of the threads that the loop does not skip. -/
theorem getOtherThreadsInfo_eq (map : AllStackTraces) :
    getOtherThreadsInfo info map crashedThread =
      threadReport info map.entries.length (visited info map.entries crashedThread) := by
  rw [getOtherThreadsInfo, foldl_visitThread, threadReport]
  split
  · rfl
  · exact (List.append_nil _).symm

/-! ## The numbers of a report -/

/-- The units of the decimal digits. -/
def isDigit16 (unit : UInt16) : Bool := 0x30 ≤ unit && unit ≤ 0x39

theorem toNat_unit_of_isDigit {c : Char} (digit : c.isDigit = true) :
    (UInt16.ofNat c.toNat).toNat = c.toNat ∧ 48 ≤ c.toNat ∧ c.toNat ≤ 57 := by
  simp only [Char.isDigit, Bool.and_eq_true, decide_eq_true_eq] at digit
  have low : 48 ≤ c.toNat := digit.1
  have high : c.toNat ≤ 57 := digit.2
  exact ⟨by rw [UInt16.toNat_ofNat', Nat.mod_eq_of_lt (by omega)], low, high⟩

theorem isDigit16_of_mem {n : Nat} {unit : UInt16} (mem : unit ∈ decimal16 n) : isDigit16 unit := by
  obtain ⟨c, digit, rfl⟩ := List.mem_map.mp mem
  obtain ⟨same, low, high⟩ := toNat_unit_of_isDigit (Nat.isDigit_of_mem_toDigits (by simp) (by simp) digit)
  simp only [isDigit16, Bool.and_eq_true, decide_eq_true_eq, UInt16.le_iff_toNat_le, same]
  exact ⟨low, high⟩

theorem decimal16_inj {m n : Nat} (eq : decimal16 m = decimal16 n) : m = n := by
  have back : ∀ k, (decimal16 k).map (fun unit => Char.ofNat unit.toNat) = Nat.toDigits 10 k := by
    intro k
    rw [decimal16, utf16, List.map_map]
    refine (List.map_congr_left fun c mem => ?_).trans (List.map_id _)
    have same := (toNat_unit_of_isDigit (Nat.isDigit_of_mem_toDigits (by simp) (by simp) mem)).1
    rw [Function.comp_apply, same, Char.ofNat_toNat, id]
  have digits := congrArg (List.map fun unit => Char.ofNat unit.toNat) eq
  rw [back, back] at digits
  rw [← Nat.ofDigitChars_ten_toDigits (n := m), digits, Nat.ofDigitChars_ten_toDigits]

/-- The last two numbers of a report, each behind a space. -/
theorem threadTotals_eq (size matched ignored dumped : Nat) :
    ∃ front, threadTotals size matched ignored dumped =
      front ++ [0x20] ++ decimal16 ignored ++ utf16 "\ndumped JVM threads:".toList ++ [0x20] ++
        decimal16 dumped ++ (utf16 ['\n'] ++ SEP_OTHER_INFO ++ utf16 ['\n']) := by
  have ignoredText : utf16 "\nJVM threads ignored by max count limit: ".toList =
      utf16 "\nJVM threads ignored by max count limit:".toList ++ [0x20] := by decide
  have dumpedText : utf16 "\ndumped JVM threads: ".toList =
      utf16 "\ndumped JVM threads:".toList ++ [0x20] := by decide
  rw [threadTotals, ignoredText, dumpedText]
  simp only [← List.append_assoc]
  exact ⟨_, rfl⟩

/-- Reports with the same text have the same last two numbers. -/
theorem threadTotals_inj {a b : Utf16} {size matched matched' ignored ignored' dumped dumped' : Nat}
    (eq : a ++ threadTotals size matched ignored dumped =
      b ++ threadTotals size matched' ignored' dumped') : ignored = ignored' ∧ dumped = dumped' := by
  have digits : ∀ n, ∀ unit ∈ decimal16 n, isDigit16 unit := fun n unit mem => isDigit16_of_mem mem
  obtain ⟨front, text⟩ := threadTotals_eq size matched ignored dumped
  obtain ⟨front', text'⟩ := threadTotals_eq size matched' ignored' dumped'
  rw [text, text'] at eq
  generalize utf16 ['\n'] ++ SEP_OTHER_INFO ++ utf16 ['\n'] = rest at eq
  generalize utf16 "\ndumped JVM threads:".toList = label at eq
  simp only [← List.append_assoc, List.append_left_inj] at eq
  obtain ⟨before, last⟩ := Lines.append_run_inj (digits dumped) (digits dumped') rfl rfl eq
  simp only [List.append_left_inj] at before
  obtain ⟨-, last'⟩ := Lines.append_run_inj (digits ignored) (digits ignored') rfl rfl before
  exact ⟨decimal16_inj last', decimal16_inj last⟩

/-- Reports with the same text are of as many threads. -/
theorem threadReport_inj {size : Nat} {threads threads' : List StackTrace} (several : 1 < size)
    (eq : threadReport info size threads = threadReport info size threads') :
    threads.length = threads'.length := by
  rw [threadReport, threadReport, if_pos several, if_pos several] at eq
  obtain ⟨ignored, dumped⟩ := threadTotals_inj eq
  omega

/-! ## The threads that are reported -/

/-- None of the other threads on the white list has the name of the crashed thread. -/
def NoNamesake (info : HandlerInfo) (map : AllStackTraces) (crashedThread : JavaThread) : Prop :=
  ∀ entry ∈ map.entries, entry.thread.object ≠ crashedThread.object →
    matchThreadName info.dumpAllThreadsWhiteList entry.thread.name →
      entry.thread.name ≠ crashedThread.name

theorem mem_otherThreads_iff {map : AllStackTraces} {entry : StackTrace} :
    entry ∈ otherThreads info map crashedThread ↔ entry ∈ map.entries ∧
      entry.thread.object ≠ crashedThread.object ∧
        matchThreadName info.dumpAllThreadsWhiteList entry.thread.name := by
  rw [otherThreads, List.mem_filter, decide_eq_true_eq]

/-- The loop does not skip the other threads on the white list, where their name is another. -/
theorem visited_eq {map : AllStackTraces} (mem : ∃ entry ∈ map.entries, entry.thread = crashedThread) :
    visited info map.entries crashedThread =
      (otherThreads info map crashedThread).filter
        fun entry => entry.thread.name ≠ crashedThread.name := by
  rw [visited, otherThreads, List.filter_filter]
  refine List.filter_congr fun entry member => ?_
  by_cases named : entry.thread.name = crashedThread.name
  · simp [named]
  · have other : entry.thread.object ≠ crashedThread.object := by
      intro same
      obtain ⟨crashed, member', rfl⟩ := mem
      have eq := List.inj_on_of_nodup_map map.distinct member member' same
      exact named (congrArg (fun entry => entry.thread.name) eq)
    simp [named, other]

/-- **The report is of the other threads on the white list** where none of them has the name of the
crashed thread, and only there. -/
theorem other_threads_reported_iff (info : HandlerInfo) (map : AllStackTraces)
    (crashedThread : JavaThread) (mem : ∃ entry ∈ map.entries, entry.thread = crashedThread) :
    getOtherThreadsInfo info map crashedThread =
        threadReport info map.entries.length (otherThreads info map crashedThread) ↔
      NoNamesake info map crashedThread := by
  rw [getOtherThreadsInfo_eq, visited_eq mem]
  constructor
  · intro same entry inside other listed named
    -- The namesake and the crashed thread are two entries of the map.
    have several : 1 < map.entries.length := by
      obtain ⟨crashed, member', rfl⟩ := mem
      by_contra few
      obtain ⟨only, single⟩ := List.length_eq_one_iff.mp
        (Nat.le_antisymm (Nat.not_lt.mp few) (List.length_pos_of_mem inside))
      rw [single, List.mem_singleton] at inside member'
      exact other (by rw [inside, member'])
    have all := List.filter_eq_self.mp
      (List.filter_sublist.eq_of_length (threadReport_inj several same)) entry
        (mem_otherThreads_iff.mpr ⟨inside, other, listed⟩)
    exact of_decide_eq_true all named
  · intro none
    have all : (otherThreads info map crashedThread).filter
        (fun entry => entry.thread.name ≠ crashedThread.name) = otherThreads info map crashedThread :=
      List.filter_eq_self.mpr fun entry member => by
        obtain ⟨inside, other, listed⟩ := mem_otherThreads_iff.mp member
        exact decide_eq_true (none entry inside other listed)
    rw [all]

/-- Two threads of one name, on a white list of all names: the first crashed. -/
def namesakes : AllStackTraces where
  entries := [⟨⟨1, utf16 ['a'], 1⟩, []⟩, ⟨⟨2, utf16 ['a'], 2⟩, []⟩]
  distinct := by decide

/-- A report on all threads. -/
def allNames : HandlerInfo := ⟨1, utf16 ['p'], [fun _ => true]⟩

/-- Three threads, of which the first crashed: the second has a name of its own, and the third too. -/
def ownNames : AllStackTraces where
  entries := [⟨⟨1, utf16 ['a'], 1⟩, []⟩, ⟨⟨2, utf16 ['b'], 2⟩, []⟩, ⟨⟨3, utf16 ['c'], 3⟩, []⟩]
  distinct := by decide

/-- The other two are in the report; of two threads of one name the other is not. -/
theorem other_threads_reported_two :
    (otherThreads allNames ownNames ⟨1, utf16 ['a'], 1⟩).length = 2 ∧
      getOtherThreadsInfo allNames ownNames ⟨1, utf16 ['a'], 1⟩ =
        threadReport allNames 3 (otherThreads allNames ownNames ⟨1, utf16 ['a'], 1⟩) ∧
      getOtherThreadsInfo allNames namesakes ⟨1, utf16 ['a'], 1⟩ ≠
        threadReport allNames 2 (otherThreads allNames namesakes ⟨1, utf16 ['a'], 1⟩) := by
  refine ⟨by decide, ?_, ?_⟩
  · refine (other_threads_reported_iff allNames ownNames _ ⟨_, List.mem_cons_self, rfl⟩).mpr ?_
    intro entry inside other
    simp only [ownNames, List.mem_cons, List.not_mem_nil, or_false] at inside
    rcases inside with rfl | rfl | rfl
    · exact absurd rfl other
    · exact fun _ => by decide
    · exact fun _ => by decide
  · refine (other_threads_reported_iff allNames namesakes _ ⟨_, List.mem_cons_self, rfl⟩).not.mpr fun none => ?_
    exact none _ (List.mem_cons_of_mem _ List.mem_cons_self) (by decide) (by decide) rfl

/-- The thread of the same name is not reported. -/
theorem namesake_not_reported :
    ¬ ∀ (info : HandlerInfo) (map : AllStackTraces) (crashedThread : JavaThread),
      (∃ entry ∈ map.entries, entry.thread = crashedThread) →
        getOtherThreadsInfo info map crashedThread =
          threadReport info map.entries.length (otherThreads info map crashedThread) := by
  intro all
  have same := all allNames namesakes ⟨1, utf16 ['a'], 1⟩ ⟨_, List.mem_cons_self, rfl⟩
  rw [getOtherThreadsInfo_eq] at same
  have lengths := threadReport_inj (by decide) same
  revert lengths
  decide

end Dolin.Hawkeye
