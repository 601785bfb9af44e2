import Dolin.Hawkeye.Logcat
import Dolin.Laws.Hawkeye.Text

/-!
# The logcat in a report, byte for byte

A piece of the log that has no percent sign prints as itself. One that has prints shorter, or as C
does not say: a `%%` loses a byte, and any other conversion reads an argument that nobody passed. So
the report has the log as it was where the log has no percent sign and the buffer has room.
-/

namespace Dolin.Hawkeye

open Region MmapGuard

/-! ## A format with no arguments -/

theorem expand_cons {b : UInt8} (other : b ≠ 0x25) (rest : Bytes) :
    expand (b :: rest) = (expand rest).map (b :: ·) := by
  cases rest <;> simp [expand, other]

theorem expand_of_free {format : Bytes} (free : 0x25 ∉ format) : expand format = some format := by
  induction format with
  | nil => rfl
  | cons b rest ih =>
    obtain ⟨ne, free⟩ := List.ne_and_not_mem_of_not_mem_cons free
    rw [expand_cons ne.symm, ih free, Option.map_some]

/-- A format that C gives a meaning prints no other bytes and is no longer than it is; with a percent
sign it is shorter. -/
theorem expand_shorter {format text : Bytes} (eq : expand format = some text) :
    text ⊆ format ∧ text.length ≤ format.length ∧
      (0x25 ∈ format → text.length < format.length) := by
  fun_induction expand format generalizing text with
  | case1 =>
    cases eq
    exact ⟨List.Subset.refl _, Nat.le_refl _, fun mem => absurd mem List.not_mem_nil⟩
  | case2 rest ih =>
    obtain ⟨text', eq', rfl⟩ := Option.map_eq_some_iff.mp eq
    obtain ⟨sub, le, _⟩ := ih eq'
    simp only [List.length_cons]
    refine ⟨List.cons_subset_cons _ (List.subset_cons_of_subset _ sub), by omega, fun _ => by omega⟩
  | case3 rest nodouble => cases eq
  | case4 b rest nodouble other ih =>
    obtain ⟨text', eq', rfl⟩ := Option.map_eq_some_iff.mp eq
    obtain ⟨sub, le, less⟩ := ih eq'
    simp only [List.length_cons]
    refine ⟨List.cons_subset_cons _ sub, by omega, fun mem => ?_⟩
    have := less ((List.mem_cons.mp mem).resolve_left fun eq => other eq.symm)
    omega

theorem documented_expand : Documented expand := fun _ _ eq => eq

/-! ## The pieces -/

/-- What the report should have of the output: all of it, or the pieces with the label. -/
def logcatText (apiLevel : Int) (pid : Int32) (output : Bytes) : Bytes :=
  if 24 ≤ apiLevel then output
  else ((fgets 1024 output).filter fun buf => pidLabel apiLevel pid <:+: buf).flatten

theorem flatten_fgets (size : Nat) (text : Bytes) : (fgets size text).flatten = text := by
  rw [fgets, Lines.flatten_pieces, List.nil_append]

theorem nul_free_piece {output buf : Bytes} (free : 0 ∉ output) (mem : buf ∈ fgets 1024 output) :
    0 ∉ buf := by
  intro nul
  have := List.mem_flatten.mpr ⟨buf, mem, nul⟩
  rw [flatten_fgets] at this
  exact free this

/-- The pieces that are recorded make up the text. -/
theorem flatten_recordedPieces {output : Bytes} (free : 0 ∉ output) (apiLevel : Int) (pid : Int32) :
    (recordedPieces apiLevel pid output).flatten = logcatText apiLevel pid output := by
  unfold recordedPieces logcatText
  split
  · rename_i new
    simp only [new, true_or, decide_true, List.filter_true, flatten_fgets]
  · rename_i old
    congr 1
    refine List.filter_congr fun buf mem => ?_
    simp only [old, false_or, cstring_of_nul_free (nul_free_piece free mem)]

/-- The calls that record the pieces. -/
def pieceCalls (vsnprintf : Bytes → Option Bytes) (bufs : List Bytes) : List RecordCall :=
  bufs.map fun buf => .recordLine (vsnprintf (cstring buf))

/-- Pieces with no percent sign are recorded as they are. -/
theorem contribution_pieceCalls {vsnprintf : Bytes → Option Bytes} (doc : Documented vsnprintf)
    {bufs : List Bytes} (free : ∀ buf ∈ bufs, 0 ∉ buf) (short : ∀ buf ∈ bufs, buf.length ≤ 1023)
    (plain : ∀ buf ∈ bufs, 0x25 ∉ buf) :
    (pieceCalls vsnprintf bufs).flatMap RecordCall.contribution = bufs.flatten := by
  rw [pieceCalls, List.flatMap_map, ← List.flatMap_id]
  refine List.flatMap_congr fun buf mem => ?_
  rw [cstring_of_nul_free (free buf mem), doc buf buf (expand_of_free (plain buf mem))]
  cases buf with
  | nil => rfl
  | cons b buf => exact List.take_of_length_le (short _ mem)

/-- Printed as C says, and not at all where it does not say, a piece is no longer, and shorter with a
percent sign. -/
theorem length_contribution_expand {buf : Bytes} (free : 0 ∉ buf) :
    (RecordCall.recordLine (expand (cstring buf))).contribution.length ≤ buf.length ∧
      (0x25 ∈ buf →
        (RecordCall.recordLine (expand (cstring buf))).contribution.length < buf.length) := by
  rw [cstring_of_nul_free free]
  cases eq : expand buf with
  | none => exact ⟨Nat.zero_le _, fun mem => List.length_pos_of_mem mem⟩
  | some text =>
    obtain ⟨-, le, less⟩ := expand_shorter eq
    have cut : (RecordCall.recordLine (some text)).contribution.length ≤ text.length := by
      cases text with
      | nil => exact Nat.le_refl 0
      | cons b text => exact List.length_take_le' _ _
    exact ⟨cut.trans le, fun mem => cut.trans_lt (less mem)⟩

theorem length_pieceCalls_expand {bufs : List Bytes} (free : ∀ buf ∈ bufs, 0 ∉ buf) :
    ((pieceCalls expand bufs).flatMap RecordCall.contribution).length ≤ bufs.flatten.length ∧
      (0x25 ∈ bufs.flatten →
        ((pieceCalls expand bufs).flatMap RecordCall.contribution).length < bufs.flatten.length) := by
  induction bufs with
  | nil => exact ⟨Nat.le_refl _, fun mem => absurd mem List.not_mem_nil⟩
  | cons buf bufs ih =>
    obtain ⟨le, less⟩ := ih fun b mem => free b (List.mem_cons_of_mem _ mem)
    obtain ⟨le', less'⟩ := length_contribution_expand (free buf List.mem_cons_self)
    rw [pieceCalls] at le less
    simp only [pieceCalls, List.map_cons, List.flatMap_cons, List.flatten_cons, List.length_append,
      List.mem_append]
    refine ⟨Nat.add_le_add le' le, fun mem => ?_⟩
    rcases mem with mem | mem
    · exact Nat.add_lt_add_of_lt_of_le (less' mem) le
    · exact Nat.add_lt_add_of_le_of_lt le' (less mem)

theorem plain_pieceCalls_expand {bufs : List Bytes} (free : ∀ buf ∈ bufs, 0 ∉ buf) :
    ∀ c ∈ pieceCalls expand bufs, c.Plain := by
  intro c mem
  obtain ⟨buf, mem', rfl⟩ := List.mem_map.mp mem
  intro text eq nul
  rw [cstring_of_nul_free (free buf mem')] at eq
  exact free buf mem' ((expand_shorter eq).1 nul)

/-! ## The report -/

/-- The line that the heading makes. -/
def headingLine (apiLevel : Int) (pid : Int32) (stackName : Bytes) (lines : Nat)
    (priority : UInt8) : Bytes :=
  (logcatHeading apiLevel pid stackName lines priority).take 1023 ++ [0x0a]

section Report

variable {size : Nat} {r : Bytes} {g : MmapGuard} (reads : Reads size r g) (apiLevel : Int)
  (pid : Int32) (stackName : Bytes) (lines : Nat) (priority : UInt8) (behind : Bytes)

theorem nul_free_heading : 0 ∉ logcatHeading apiLevel pid stackName lines priority := by
  have first : (0 : UInt8) ∉ Daemon.ascii "--------- tail end of log ".toList := by decide
  have middle : (0 : UInt8) ∉ Daemon.ascii " (".toList := by decide
  have last : (0 : UInt8) ∉ Daemon.ascii [')'] := by decide
  simp only [logcatHeading, logcatCmd, List.mem_append, first, middle, last, nul_not_mem_cstring,
    or_self, not_false_eq_true]

include reads in
/-- What the calls contribute stands behind the heading, where there is room. -/
theorem reads_getLogcatInfo {vsnprintf : Bytes → Option Bytes} {output text : Bytes}
    (plain : ∀ c ∈ pieceCalls vsnprintf (recordedPieces apiLevel pid output), c.Plain)
    (eq : (pieceCalls vsnprintf (recordedPieces apiLevel pid output)).flatMap
      RecordCall.contribution = text)
    (room : (r ++ headingLine apiLevel pid stackName lines priority ++ text).length < size) :
    Reads size (r ++ headingLine apiLevel pid stackName lines priority ++ text)
      (performAll g (getLogcatInfo vsnprintf apiLevel pid stackName lines priority (some output)
        behind)).1 := by
  have heading : (RecordCall.recordNewline
      (some (logcatHeading apiLevel pid stackName lines priority)) behind).contribution =
        headingLine apiLevel pid stackName lines priority := rfl
  rw [List.append_assoc, ← eq, ← heading, ← List.flatMap_cons] at room ⊢
  refine reads.performAll (fun c mem => ?_) room
  rcases List.mem_cons.mp mem with rfl | mem
  · intro t eq'
    cases eq'
    exact nul_free_heading apiLevel pid stackName lines priority
  · exact plain c mem

include reads in
/-- **The log is in the report as it was** where it has no percent sign and there is room. For every
report and every output of the command without zero bytes: whatever `vsnprintf` does where C does not
say, the report reads what it read, the heading, and the output (before API level 24 the pieces with
the label), if and only if none of these bytes is a percent sign and they fit the buffer. -/
theorem logcat_verbatim_iff {output : Bytes} (free : 0 ∉ output) :
    (∀ vsnprintf, Documented vsnprintf →
        Reads size (r ++ headingLine apiLevel pid stackName lines priority ++
            logcatText apiLevel pid output)
          (performAll g (getLogcatInfo vsnprintf apiLevel pid stackName lines priority (some output)
            behind)).1) ↔
      0x25 ∉ logcatText apiLevel pid output ∧
        (r ++ headingLine apiLevel pid stackName lines priority ++
          logcatText apiLevel pid output).length < size := by
  have nul : ∀ buf ∈ recordedPieces apiLevel pid output, 0 ∉ buf := fun buf mem =>
    nul_free_piece free (List.mem_filter.mp mem).1
  rw [← flatten_recordedPieces free]
  constructor
  · intro verbatim
    have asSaid := verbatim expand documented_expand
    refine ⟨fun percent => ?_, asSaid.room⟩
    -- with this `vsnprintf` the report is shorter than it should be
    have less := (length_pieceCalls_expand nul).2 percent
    have room := asSaid.room
    rw [List.length_append] at room
    have shorter := reads_getLogcatInfo reads apiLevel pid stackName lines priority behind
      (plain_pieceCalls_expand nul) rfl (by rw [List.length_append]; omega)
    have same := congrArg List.length (asSaid.cstring_eq.symm.trans shorter.cstring_eq)
    simp only [List.length_append] at same
    omega
  · rintro ⟨plain, room⟩ vsnprintf doc
    have noPercent : ∀ buf ∈ recordedPieces apiLevel pid output, 0x25 ∉ buf := fun buf mem percent =>
      plain (List.mem_flatten.mpr ⟨buf, mem, percent⟩)
    have short : ∀ buf ∈ recordedPieces apiLevel pid output, buf.length ≤ 1023 := fun buf mem =>
      Lines.length_piece_le (Nat.le_of_eq (Nat.zero_add 1022)) buf (List.mem_filter.mp mem).1
    refine reads_getLogcatInfo reads apiLevel pid stackName lines priority behind (fun c mem => ?_)
      (contribution_pieceCalls doc nul short noPercent) room
    obtain ⟨buf, mem', rfl⟩ := List.mem_map.mp mem
    intro text eq
    rw [cstring_of_nul_free (nul buf mem'), doc buf buf (expand_of_free (noPercent buf mem'))] at eq
    cases eq
    exact nul buf mem'

end Report

/-- A fresh report after the logcat of process 7 on API level 30, where the command prints
`output`. -/
def afterLogcat (output : Bytes) : MmapGuard :=
  (performAll (new (some []) 0 true true)
    (getLogcatInfo expand 30 7 (Daemon.ascii "main".toList) 200 0x44 (some output) [])).1

/-- What it should read. -/
def logcatReport (output : Bytes) : Bytes :=
  [] ++ headingLine 30 7 (Daemon.ascii "main".toList) 200 0x44 ++ logcatText 30 7 output

/-- A line without percent signs. -/
theorem logcat_verbatim_hello :
    logcatReport (Daemon.ascii "hello\n".toList) =
        Daemon.ascii ("--------- tail end of log main (/system/bin/logcat -b main -d " ++
          "-v threadtime -t 200 --pid 7 *:D)\nhello\n").toList ∧
      Reads (mappingSize 0) (logcatReport (Daemon.ascii "hello\n".toList))
        (afterLogcat (Daemon.ascii "hello\n".toList)) := by
  refine ⟨by decide, ?_⟩
  refine (logcat_verbatim_iff (reads_new [] 0) 30 7 _ 200 0x44 [] (by decide)).mpr ⟨?_, ?_⟩ expand
    documented_expand
  · decide
  · decide

/-- The line `100%%` loses a percent sign. -/
theorem logcat_loses_percent :
    Documented expand ∧
      ¬ Reads (mappingSize 0) (logcatReport (Daemon.ascii "100%%\n".toList))
        (afterLogcat (Daemon.ascii "100%%\n".toList)) := by
  refine ⟨documented_expand, fun verbatim => ?_⟩
  have shorter : Reads (mappingSize 0) (logcatReport (Daemon.ascii "100%\n".toList))
      (afterLogcat (Daemon.ascii "100%%\n".toList)) := by
    refine reads_getLogcatInfo (reads_new [] 0) 30 7 _ 200 0x44 [] (plain_pieceCalls_expand ?_) ?_ ?_
    · decide
    · decide
    · decide
  have same := congrArg List.length (verbatim.cstring_eq.symm.trans shorter.cstring_eq)
  revert same
  decide

end Dolin.Hawkeye
