import Dolin.Laws.Hawkeye.MmapGuard

/-!
# The text of a report

A report is read back with `strlen`, so its text ends at the first zero byte of the mapping.
`RecordLine` writes a zero byte behind its text, `RecordNewline` writes none. Both leave a mapping
that is the text so far and zeros behind it, and that is what the next call goes by: the zero byte of
the one is overwritten, and the other finds its zero byte in place.
-/

namespace Dolin.Hawkeye

open Region MmapGuard

/-- What a call contributes to the text: nothing where there is nothing to record, else the first 1023
bytes of what it formats, with a newline where it is `RecordNewline`. -/
def RecordCall.contribution : RecordCall → Bytes
  | .recordLine none | .recordLine (some []) => []
  | .recordLine (some text) => text.take 1023
  | .recordNewline none _ | .recordNewline (some []) _ => []
  | .recordNewline (some text) _ => text.take 1023 ++ [0x0a]
  | .record2Buffer content => content.utf8

/-- The call is `RecordLine` or `RecordNewline`, with a text that has no zero byte. -/
def RecordCall.Plain : RecordCall → Prop
  | .recordLine text => ∀ t ∈ text, 0 ∉ t
  | .recordNewline text _ => ∀ t ∈ text, 0 ∉ t
  | .record2Buffer _ => False

theorem contribution_recordLine (text : Option Bytes) :
    (RecordCall.recordLine text).contribution = (printed text).getD [] := by
  match text with
  | none | some [] | some (b :: bs) => rfl

theorem contribution_recordNewline (text : Option Bytes) (behind : Bytes) :
    (RecordCall.recordNewline text behind).contribution = (printed text).elim [] (· ++ [0x0a]) := by
  match text with
  | none | some [] | some (b :: bs) => rfl

theorem nul_free_printed {text : Option Bytes} {cut : Bytes} (plain : ∀ t ∈ text, 0 ∉ t)
    (eq : printed text = some cut) : 0 ∉ cut := by
  match text with
  | none | some [] => cases eq
  | some (b :: bs) =>
    cases eq
    exact fun mem => plain _ rfl (List.mem_of_mem_take mem)

/-- The mapping of `size` bytes is `text` and zeros, at least one. -/
structure Reads (size : Nat) (text : Bytes) (g : MmapGuard) : Prop where
  ptr : g.bufferPtr = .mapped (text ++ List.replicate (size - text.length) 0)
  free : 0 ∉ text
  room : text.length < size

theorem reads_new (filename : Bytes) (capacity : Nat) :
    Reads (mappingSize capacity) [] (new (some filename) capacity true true) := by
  refine ⟨rfl, List.not_mem_nil, ?_⟩
  rw [mappingSize_eq_max, List.length_nil]
  omega

namespace Reads

variable {size : Nat} {text : Bytes} {g : MmapGuard}

theorem cstring_eq (r : Reads size text g) : cstring g.bytes = text := by
  obtain ⟨n, eq⟩ := Nat.exists_eq_succ_of_ne_zero (Nat.sub_ne_zero_of_lt r.room)
  rw [MmapGuard.bytes, r.ptr]
  simp only [eq, List.replicate_succ]
  exact cstring_append_nul r.free _

/-- `Flush` appends the text. -/
theorem flush (r : Reads size text g) (filename : Bytes) (files : Files) :
    g.flush filename true files =
      some (Function.update files filename (some ((files filename).getD [] ++ text))) := by
  simp only [MmapGuard.flush, r.ptr, if_true, r.cstring_eq]

/-- A write of some text, with or without zeros behind it. -/
theorem write (r : Reads size text g) {content added : Bytes} {contentLen zeros : Nat}
    (copied : resize (cstring content ++ [0]) contentLen = added ++ List.replicate zeros 0)
    (free : 0 ∉ added) (length : contentLen = added.length + zeros)
    (fits : text.length + contentLen ≤ size) (room : (text ++ added).length < size) :
    Reads size (text ++ added) (g.write content contentLen).1 := by
  have same : cstring (text ++ List.replicate (size - text.length) (0 : UInt8)) = text := by
    have := r.cstring_eq
    rwa [MmapGuard.bytes, r.ptr] at this
  have occupied : strlen (text ++ List.replicate (size - text.length) (0 : UInt8)) = text.length := by
    rw [strlen, same]
  have all : (text ++ List.replicate (size - text.length) (0 : UInt8)).length = size := by
    have := r.room
    rw [List.length_append, List.length_replicate]
    omega
  have bytes := append_bytes content (show strlen _ + contentLen ≤ _ by rw [occupied, all]; exact fits)
  refine ⟨?_, ?_, room⟩
  · simp only [MmapGuard.write, writeWith, r.ptr, if_true]
    rw [bytes, same, occupied, copied, List.drop_append, List.drop_of_length_le (by omega),
      List.nil_append, List.drop_replicate, List.append_assoc, List.append_assoc, List.append_assoc,
      List.replicate_append_replicate]
    rw [List.length_append] at room ⊢
    congr 4
    omega
  · rw [List.mem_append]
    rintro (mem | mem)
    · exact r.free mem
    · exact free mem

/-- `RecordLine` copies its text and the zero byte behind it. -/
theorem recordLine (r : Reads size text g) {t : Option Bytes} (plain : ∀ b ∈ t, 0 ∉ b)
    (room : (text ++ (printed t).getD []).length < size) :
    Reads size (text ++ (printed t).getD []) (recordLine g t).1 := by
  unfold Hawkeye.recordLine
  cases cut : printed t with
  | none =>
    rw [Option.getD_none, List.append_nil]
    exact r
  | some cut' =>
    have free := nul_free_printed plain cut
    rw [cut, Option.getD_some] at room
    rw [Option.getD_some]
    refine r.write ?_ free (show cut'.length + 1 = cut'.length + 1 from rfl) ?_ room
    · rw [cstring_append_nul free, resize, List.length_append, List.length_singleton, Nat.sub_self,
        List.replicate_zero, List.append_nil]
      exact List.take_of_length_le (Nat.le_of_eq List.length_append)
    · rw [List.length_append] at room
      exact room

/-- `RecordNewline` copies its text and the newline, and finds a zero byte behind them. -/
theorem recordNewline (r : Reads size text g) {t : Option Bytes} (plain : ∀ b ∈ t, 0 ∉ b)
    (behind : Bytes) (room : (text ++ (printed t).elim [] (· ++ [0x0a])).length < size) :
    Reads size (text ++ (printed t).elim [] (· ++ [0x0a])) (recordNewline g t behind).1 := by
  unfold Hawkeye.recordNewline
  cases cut : printed t with
  | none =>
    rw [Option.elim_none, List.append_nil]
    exact r
  | some cut' =>
    have free := nul_free_printed plain cut
    have length : (cut' ++ [(0x0a : UInt8)]).length = cut'.length + 1 := List.length_append
    rw [cut, Option.elim_some] at room
    rw [Option.elim_some]
    refine r.write ?_ ?_ (show cut'.length + 1 = (cut' ++ [(0x0a : UInt8)]).length + 0 from length.symm)
      ?_ room
    · rw [resize_newline free, List.replicate_zero, List.append_nil]
    · rw [List.mem_append, List.mem_singleton]
      rintro (mem | mem)
      · exact free mem
      · cases mem
    · rw [List.length_append, length] at room
      exact Nat.le_of_lt room

/-- **One call** adds what it contributes, and leaves zeros behind it. -/
theorem perform (r : Reads size text g) {c : RecordCall} (plain : c.Plain)
    (room : (text ++ c.contribution).length < size) :
    Reads size (text ++ c.contribution) (c.perform g).1 := by
  cases c with
  | recordLine t =>
    rw [contribution_recordLine] at room ⊢
    exact r.recordLine plain room
  | recordNewline t behind =>
    rw [contribution_recordNewline] at room ⊢
    exact r.recordNewline plain behind room
  | record2Buffer content => exact plain.elim

/-- **All calls** add what they contribute, in their order. -/
theorem performAll (r : Reads size text g) {calls : List RecordCall} (plain : ∀ c ∈ calls, c.Plain)
    (room : (text ++ calls.flatMap RecordCall.contribution).length < size) :
    Reads size (text ++ calls.flatMap RecordCall.contribution) (performAll g calls).1 := by
  induction calls generalizing text g with
  | nil =>
    rw [List.flatMap_nil, List.append_nil]
    exact r
  | cons c calls ih =>
    rw [List.flatMap_cons, ← List.append_assoc] at room ⊢
    have first : (text ++ c.contribution).length < size := by
      rw [List.length_append] at room
      omega
    exact ih (r.perform (plain c List.mem_cons_self) first)
      (fun d mem => plain d (List.mem_cons_of_mem _ mem)) room

end Reads

/-- **The text of a report is the concatenation of its lines.** For a fresh buffer of any capacity and
every list of calls of `RecordLine` and `RecordNewline` whose texts have no zero byte and whose
contributions stay below the size of the mapping: the C string in the mapping is the contributions
in their order, and `Flush` appends it to the file. The zero byte that `Write` copies behind its heap block
`data_tmp` is taken to do no harm there. -/
theorem report_text_concat (filename : Bytes) (capacity : Nat) (calls : List RecordCall)
    (plain : ∀ c ∈ calls, c.Plain)
    (room : (calls.flatMap RecordCall.contribution).length < max capacity (400 * 1024)) :
    cstring (performAll (new (some filename) capacity true true) calls).1.bytes =
        calls.flatMap RecordCall.contribution ∧
      ∀ path files,
        (performAll (new (some filename) capacity true true) calls).1.flush path true files =
          some (Function.update files path
            (some ((files path).getD [] ++ calls.flatMap RecordCall.contribution))) := by
  rw [← mappingSize_eq_max] at room
  have reads := (reads_new filename capacity).performAll plain room
  exact ⟨reads.cstring_eq, reads.flush⟩

/-- A line `a`, a line `b` with a `c` behind it in the buffer, and an empty line. -/
def abLines : List RecordCall :=
  [.recordLine (some [0x61]), .recordNewline (some [0x62]) [0x63], .recordNewline (some []) []]

/-- They read `ab` and a newline. -/
theorem report_text_concat_ab :
    abLines.flatMap RecordCall.contribution = [0x61, 0x62, 0x0a] ∧
      cstring (performAll (new (some []) 0 true true) abLines).1.bytes =
        abLines.flatMap RecordCall.contribution := by
  refine ⟨rfl, (report_text_concat [] 0 abLines ?_ ?_).1⟩
  · simp [abLines, RecordCall.Plain]
  · simp [abLines, RecordCall.contribution]

end Dolin.Hawkeye
