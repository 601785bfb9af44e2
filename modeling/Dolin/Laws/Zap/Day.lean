import Std.Data.String.ToInt
import Mathlib.Data.List.Count
import Dolin.Zap.Day

/-!
# The numbers of the parts

`init` starts to count at the number of files, a rotation counts on. The first process of a day finds
none and opens the part without a number; its first rotation opens `-p1`. Every later process finds
that part counted already, so that its own first rotation opens `-p2`. The two do not go together: after
a first process that has rotated, the number of files is one more than the number of its last part,
and the next process opens a part of its own.

A rotation by itself always goes on to a part that is not there, until the `int` has been once around.
-/

namespace Dolin.Zap

open Machine

/-! ## The names -/

namespace ZapRecord

variable {logPath logDate : String}

theorem partPath_inj {m n : Int32} :
    partPath logPath logDate m = partPath logPath logDate n ↔ m = n := by
  refine ⟨fun h => ?_, congrArg _⟩
  unfold partPath at h
  rw [String.append_left_inj, String.append_right_inj] at h
  exact Int32.toInt_inj.mp (Int.repr_injective h)

/-- The part without a number. -/
def plainPath (logPath logDate : String) : String := logPath ++ "/" ++ logDate ++ ".zap"

theorem partPath_ne_plainPath (n : Int32) :
    partPath logPath logDate n ≠ plainPath logPath logDate := by
  intro h
  unfold partPath plainPath at h
  rw [String.append_assoc, String.append_assoc, String.append_right_inj] at h
  have chars := congrArg String.toList h
  simp at chars

end ZapRecord

/-- Two numbers are the same `int` where they differ by a multiple of `2 ^ 32`. -/
theorem int32_ofNat_eq_iff {m n : Nat} : Int32.ofNat m = Int32.ofNat n ↔ m % 2 ^ 32 = n % 2 ^ 32 := by
  rw [← Int32.toInt_inj, Int32.toInt_ofNat', Int32.toInt_ofNat']
  simp only [Int.bmod, Int32.size]
  omega

/-! ## The parts of a day -/

namespace Day

open ZapRecord

variable {logPath logDate : String}

/-- The part that the last process has open. -/
def path (d : Day) : Option String := d.record.map logFilePath

/-- What the numbers are for: a process after the first goes on with the part that was open, and a
rotation goes on to a part that is not there. -/
def Numbered (logPath logDate : String) (d : Day) (a : DayAction) : Prop :=
  ∀ d', step logPath logDate d a = some d' →
    match a with
    | .start _ => d.record.isSome → d'.path = d.path
    | .rotate => ∀ path, d'.path = some path → path ∉ d.files

/-- The parts after `r` rotations that counted on from `s`, the last one first. -/
def parts (logPath logDate : String) (s : Int32) : Nat → List String
  | 0 => [plainPath logPath logDate]
  | r + 1 => partPath logPath logDate (s + Int32.ofNat (r + 1)) :: parts logPath logDate s r

theorem length_parts (s : Int32) (r : Nat) : (parts logPath logDate s r).length = r + 1 := by
  induction r with
  | zero => rfl
  | succ r ih => rw [parts, List.length_cons, ih]

theorem partPath_mem_parts {s n : Int32} {r : Nat} :
    partPath logPath logDate n ∈ parts logPath logDate s r ↔
      ∃ i, i < r ∧ n = s + Int32.ofNat (i + 1) := by
  induction r with
  | zero =>
    rw [parts, List.mem_singleton]
    exact ⟨fun h => absurd h (partPath_ne_plainPath n), fun ⟨_, lt, _⟩ => absurd lt (Nat.not_lt_zero _)⟩
  | succ r ih =>
    rw [parts, List.mem_cons, partPath_inj, ih]
    constructor
    · rintro (rfl | ⟨i, lt, eq⟩)
      · exact ⟨r, Nat.lt_succ_self r, rfl⟩
      · exact ⟨i, Nat.lt_succ_of_lt lt, eq⟩
    · rintro ⟨i, lt, eq⟩
      rcases Nat.lt_succ_iff_lt_or_eq.mp lt with lt | rfl
      · exact .inr ⟨i, lt, eq⟩
      · exact .inl eq

/-- The next part is there already exactly where the number has been once around. -/
theorem next_mem_parts {s : Int32} {r : Nat} :
    partPath logPath logDate (s + Int32.ofNat (r + 1)) ∈ parts logPath logDate s r ↔ 2 ^ 32 ≤ r := by
  rw [partPath_mem_parts]
  simp only [Int32.add_right_inj, int32_ofNat_eq_iff]
  constructor
  · rintro ⟨i, lt, same⟩
    omega
  · intro around
    exact ⟨r - 2 ^ 32, by omega, by omega⟩

/-- The directory holds the parts of `r` rotations from `s`, and the record has the last one open. -/
structure Counted (logPath logDate : String) (s : Int32) (r : Nat) (d : Day) : Prop where
  files : d.files = parts logPath logDate s r
  record : ∃ record : ZapRecord, d.record = some record ∧ record.ptr ≠ 0 ∧
    record.logPath = logPath ∧ record.logDate = logDate ∧ record.num = s + Int32.ofNat r ∧
    (parts logPath logDate s r).head? = some record.logFilePath

variable {s : Int32} {r : Nat} {d d' : Day}

theorem Counted.path_eq (c : Counted logPath logDate s r d) :
    d.path = (parts logPath logDate s r).head? := by
  obtain ⟨record, held, -, -, -, -, head⟩ := c.record
  rw [head, path, held]
  rfl

/-- A rotation opens the next number. -/
theorem Counted.rotate (c : Counted logPath logDate s r d) :
    ∃ d', step logPath logDate d .rotate = some d' ∧
      d'.path = some (partPath logPath logDate (s + Int32.ofNat (r + 1))) ∧
      (r < 2 ^ 32 → Counted logPath logDate s (r + 1) d') := by
  obtain ⟨record, held, ptr, rfl, rfl, num, -⟩ := c.record
  have next : record.num + 1 = s + Int32.ofNat (r + 1) := by
    rw [num, Int32.ofNat_add, Int32.add_assoc]
    rfl
  have rotated : (record.asyncFlush true).1 = record.expanded := by
    rw [asyncFlush, if_pos ptr]
    rfl
  have name : record.expanded.logFilePath =
      partPath record.logPath record.logDate (s + Int32.ofNat (r + 1)) := by
    rw [← next]
    rfl
  refine ⟨d.use record.expanded, ?_, congrArg some name, ?_⟩
  · rw [step, held, ← rotated]
    rfl
  · intro fresh
    refine ⟨?_, record.expanded, rfl, ptr, rfl, rfl, next, congrArg some name.symm⟩
    change opened d.files record.expanded.logFilePath = _
    rw [opened, if_neg]
    · rw [name, c.files]
      rfl
    · rw [name, c.files, next_mem_parts]
      omega

theorem Counted.numbered_rotate (c : Counted logPath logDate s r d) :
    Numbered logPath logDate d .rotate ↔ r < 2 ^ 32 := by
  obtain ⟨d', rotated, path, -⟩ := c.rotate
  have absent : partPath logPath logDate (s + Int32.ofNat (r + 1)) ∉ d.files ↔ r < 2 ^ 32 := by
    rw [c.files, next_mem_parts, Nat.not_le]
  rw [← absent]
  constructor
  · exact fun numbered => numbered d' rotated _ path
  · intro fresh d'' rotated' name shown
    cases rotated.symm.trans rotated'
    cases path.symm.trans shown
    exact fresh

/-- What `init` opens where it finds the parts of `r` rotations. -/
theorem start_eq {args : Start} (files : d.files.length = r)
    (started : step logPath logDate d (.start args) = some d') :
    r < 2 ^ 31 ∧ ∃ record : ZapRecord, d' = d.use record ∧ record.ptr ≠ 0 ∧
      record.logPath = logPath ∧ record.logDate = logDate ∧ record.num = Int32.ofNat r ∧
      record.logFilePath = if r ≤ 1 then plainPath logPath logDate
        else partPath logPath logDate (Int32.ofNat r) := by
  obtain ⟨num, counted, started⟩ := Option.bind_eq_some_iff.mp started
  cases started
  rw [getLogFileNumByDate, files] at counted
  split at counted
  next few =>
    cases counted
    refine ⟨few, _, rfl, args.ptr_ne_zero, rfl, rfl, rfl, ?_⟩
    change firstPath logPath logDate (Int32.ofNat r) = _
    have more : Int32.ofNat r > 1 ↔ ¬ r ≤ 1 := by
      rw [gt_iff_lt, Int32.lt_iff_toInt_lt, Int32.toInt_ofNat_of_lt few]
      change (1 : Int) < r ↔ _
      omega
    unfold firstPath
    split
    next gt => rw [if_neg (more.mp gt)]
    next le =>
      rw [if_pos (by_contra fun gt => le (more.mpr gt))]
      rfl
  next => cases counted

/-- The first process of the day opens the part without a number, and counts from zero. -/
theorem counted_first {args : Start} (started : step logPath logDate {} (.start args) = some d') :
    Counted logPath logDate 0 0 d' := by
  obtain ⟨-, record, rfl, ptr, path, date, num, name⟩ := start_eq (r := 0) rfl started
  refine ⟨?_, record, rfl, ptr, path, date, num, ?_⟩
  · change opened [] record.logFilePath = _
    rw [name]
    rfl
  · rw [name]
    rfl

/-- The numbers have one count: they go on from one, or nothing was rotated yet. -/
theorem Counted.start (c : Counted logPath logDate s r d) (one : s = 1 ∨ r = 0) {args : Start}
    (started : step logPath logDate d (.start args) = some d') :
    Counted logPath logDate 1 r d' ∧ d'.path = d.path := by
  have same : parts logPath logDate s r = parts logPath logDate 1 r := by
    rcases one with rfl | rfl <;> rfl
  have count : d.files.length = r + 1 := by rw [c.files, length_parts]
  obtain ⟨-, record, rfl, ptr, path, date, num, name⟩ := start_eq count started
  have head : (parts logPath logDate 1 r).head? = some record.logFilePath := by
    rw [name]
    cases r with
    | zero => rfl
    | succ r =>
      rw [if_neg (by omega), parts, List.head?_cons, Int32.ofNat_add (r + 1), Int32.add_comm]
      rfl
  have there : record.logFilePath ∈ d.files := by
    rw [c.files, same]
    exact List.mem_of_mem_head? head
  refine ⟨⟨?_, record, rfl, ptr, path, date, ?_, head⟩, ?_⟩
  · change opened d.files record.logFilePath = _
    rw [opened, if_pos there, c.files, same]
  · rw [num, Int32.ofNat_add, Int32.add_comm]
    rfl
  · rw [c.path_eq, same, head]
    rfl

/-- After rotations that counted from zero, the next process opens another part. -/
theorem Counted.start_astray (c : Counted logPath logDate 0 r d) (rotated : 1 ≤ r) {args : Start}
    (started : step logPath logDate d (.start args) = some d') : d'.path ≠ d.path := by
  have count : d.files.length = r + 1 := by rw [c.files, length_parts]
  obtain ⟨-, record, rfl, -, -, -, -, name⟩ := start_eq count started
  rw [c.path_eq]
  obtain ⟨r, rfl⟩ := Nat.exists_eq_add_of_le' rotated
  rw [if_neg (by omega)] at name
  intro same
  have same := Option.some.inj same
  rw [name, partPath_inj, Int32.zero_add, int32_ofNat_eq_iff] at same
  omega

end Day

/-! ## Whole days -/

namespace DayAction

/-- The action is a rotation. -/
def isRotate : DayAction → Bool
  | .rotate => true
  | .start _ => false

/-- The action is the start of a process. -/
def isStart : DayAction → Bool
  | .start _ => true
  | .rotate => false

/-- The first process rotates, and another one starts. -/
def EarlyRotation (actions : List DayAction) : Prop :=
  ∃ args more, actions = .start args :: .rotate :: more ∧ more.any isStart = true

end DayAction

namespace Day

open DayAction

variable {logPath logDate : String} {s : Int32} {r : Nat} {d e : Day}

/-- From the parts of `r` rotations on, where a start is in order only if the count began at one. -/
theorem Counted.numbered_iff (c : Counted logPath logDate s r d) (range : r ≤ 2 ^ 32)
    (base : s = 1 ∨ s = 0 ∧ 1 ≤ r) {actions : List DayAction}
    (ran : run (step logPath logDate) d actions = some e) :
    Meets (step logPath logDate) (Numbered logPath logDate) d actions ↔
      (s = 1 ∨ actions.any isStart = false) ∧ r + actions.countP isRotate ≤ 2 ^ 32 := by
  induction actions generalizing r d with
  | nil => simpa [Meets] using range
  | cons a actions ih =>
    obtain ⟨d', stepped, rest⟩ := run_cons_some ran
    rw [meets_cons_iff stepped]
    cases a with
    | start args =>
      rw [List.countP_cons_of_neg (by rintro ⟨⟩)]
      rcases base with rfl | ⟨rfl, rotated⟩
      · obtain ⟨c', same⟩ := c.start (.inl rfl) stepped
        rw [ih c' range (.inl rfl) rest]
        simp only [true_or, true_and]
        refine and_iff_right fun d'' stepped' _ => ?_
        cases stepped.symm.trans stepped'
        exact same
      · obtain ⟨record, held, -⟩ := c.record
        constructor
        · rintro ⟨here, -⟩
          exact absurd (here d' stepped (by rw [held]; rfl)) (c.start_astray rotated stepped)
        · rintro ⟨one | none, -⟩
          · exact absurd one (by simp)
          · cases none
    | rotate =>
      obtain ⟨d'', stepped', -, count⟩ := c.rotate
      cases stepped.symm.trans stepped'
      rw [c.numbered_rotate, List.countP_cons_of_pos rfl, List.any_cons, isStart, Bool.false_or]
      by_cases fresh : r < 2 ^ 32
      · rw [ih (count fresh) fresh (base.imp_right (And.imp_right Nat.le_succ_of_le)) rest,
          and_iff_right fresh, Nat.add_right_comm, Nat.add_assoc]
      · constructor
        · rintro ⟨lt, -⟩
          exact absurd lt fresh
        · rintro ⟨-, few⟩
          omega

/-- **The numbers of the parts.** For every sequence of process starts and rotations in a directory
that starts empty: each process after the first goes on with the part that was open, and each rotation
goes on to a part that is not there, if and only if no process starts after a first one that has
rotated, and there are no more than `2 ^ 32` rotations. -/
theorem parts_numbered_iff (logPath logDate : String) (actions : List DayAction) (e : Day)
    (ran : run (step logPath logDate) {} actions = some e) :
    Meets (step logPath logDate) (Numbered logPath logDate) {} actions ↔
      ¬ EarlyRotation actions ∧ actions.countP isRotate ≤ 2 ^ 32 := by
  cases actions with
  | nil => exact ⟨fun _ => ⟨fun ⟨_, _, h, _⟩ => (nomatch h), Nat.zero_le _⟩, fun _ => trivial⟩
  | cons a actions =>
    obtain ⟨d, started, later⟩ := run_cons_some ran
    cases a with
    | rotate => cases started
    | start args =>
      have first := counted_first started
      have here : Numbered logPath logDate {} (.start args) := fun _ _ before => nomatch before
      rw [meets_cons_iff started, and_iff_right here, List.countP_cons_of_neg (by rintro ⟨⟩)]
      cases actions with
      | nil => exact ⟨fun _ => ⟨fun ⟨_, _, h, _⟩ => (nomatch h), Nat.zero_le _⟩, fun _ => trivial⟩
      | cons b actions =>
        obtain ⟨d', next, rest⟩ := run_cons_some later
        rw [meets_cons_iff next]
        cases b with
        | start args' =>
          -- nothing was rotated, and from here on the count begins at one
          obtain ⟨second, same⟩ := first.start (.inr rfl) next
          have early : ¬ EarlyRotation (.start args :: .start args' :: actions) :=
            fun ⟨_, _, h, _⟩ => nomatch h
          rw [second.numbered_iff (Nat.zero_le _) (.inl rfl) rest, and_iff_right early,
            List.countP_cons_of_neg (by rintro ⟨⟩)]
          simp only [true_or, true_and, Nat.zero_add]
          refine and_iff_right fun d'' next' _ => ?_
          cases next.symm.trans next'
          exact same
        | rotate =>
          obtain ⟨d'', next', -, count⟩ := first.rotate
          cases next.symm.trans next'
          have early : ¬ EarlyRotation (.start args :: .rotate :: actions) ↔
              actions.any isStart = false := by
            rw [← Bool.not_eq_true]
            refine not_congr ⟨?_, fun started => ⟨args, actions, rfl, started⟩⟩
            rintro ⟨_, _, h, started⟩
            cases h
            exact started
          rw [(count (by simp)).numbered_iff (by simp) (.inr ⟨rfl, Nat.le_refl 1⟩) rest, early,
            first.numbered_rotate, List.countP_cons_of_pos rfl,
            or_iff_right (by simp : ¬ (0 : Int32) = 1), and_iff_right (by simp : 0 < 2 ^ 32),
            Nat.add_right_comm, Nat.zero_add]

/-- A process on the directory of the samples. -/
def sampleStart : Start :=
  { bufferPath := "/c", capacity := 409600, limitSize := 1048576, compress := false, ptr := 1,
    ptr_ne_zero := by decide }

/-- The first process does not rotate, the second does, and the third finds its part again. -/
theorem parts_numbered_iff_late :
    Meets (step "/l" "d") (Numbered "/l" "d") {}
      [.start sampleStart, .start sampleStart, .rotate, .start sampleStart] := by
  obtain ⟨e, ran⟩ := Option.isSome_iff_exists.mp (show (run (step "/l" "d") {}
    [.start sampleStart, .start sampleStart, .rotate, .start sampleStart]).isSome by decide +kernel)
  exact (parts_numbered_iff "/l" "d" _ e ran).mpr ⟨fun ⟨_, _, h, _⟩ => (nomatch h), by decide⟩

/-- The first process rotates to `-p1`, and the second one starts `-p2`. -/
theorem restart_after_rotation_astray :
    ∃ d e : Day, run (step "/l" "d") {} [.start sampleStart, .rotate] = some d ∧
      step "/l" "d" d (.start sampleStart) = some e ∧ d.path = some "/l/d-p1.zap" ∧
      e.path = some "/l/d-p2.zap" ∧
      ¬ Meets (step "/l" "d") (Numbered "/l" "d") {}
        [.start sampleStart, .rotate, .start sampleStart] := by
  obtain ⟨d, ran, rest⟩ := Option.bind_eq_some_iff.mp (show
    (run (step "/l" "d") {} [.start sampleStart, .rotate]).bind (fun d =>
      (step "/l" "d" d (.start sampleStart)).map fun e => (d.path, e.path)) =
        some (some "/l/d-p1.zap", some "/l/d-p2.zap") by decide +kernel)
  obtain ⟨e, started, paths⟩ := Option.map_eq_some_iff.mp rest
  obtain ⟨before, after⟩ := Prod.mk.inj paths
  refine ⟨d, e, ran, started, before, after, ?_⟩
  obtain ⟨d₁, first, later⟩ := run_cons_some ran
  obtain ⟨d₂, second, later⟩ := run_cons_some later
  cases later
  rw [meets_cons_iff first, meets_cons_iff second]
  rintro ⟨-, -, third, -⟩
  have same := third e started (by
    cases held : d.record with
    | none => rw [path, held] at before; cases before
    | some record => rfl)
  rw [before, after] at same
  exact absurd same (by simp)

end Day

end Dolin.Zap
