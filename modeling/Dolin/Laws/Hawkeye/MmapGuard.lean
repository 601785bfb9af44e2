import Dolin.Hawkeye.MmapGuard

/-!
# The laws of the crash report buffer

`append_bytes` says what a write leaves in the mapping. From it follows, call by call, when every
copy stays inside and a zero byte remains, and so for a whole list of calls.

The three callers count differently. `RecordLine` hands over its text with the zero byte and counts
it. `Record2Buffer` does not count it, so the copy is one byte too long for every string, the empty
one on an empty report apart, which throws instead.
`RecordNewline` has written its newline over it, so the copy is too long unless the text itself
holds a zero byte.
-/

namespace Dolin.Hawkeye

open Region

namespace MmapGuard

/-- A write copies the report so far and the content, cut or extended with zero bytes to the length
the caller gave, over the mapping. -/
theorem append_pos {m : Bytes} (content : Bytes) {contentLen : Nat}
    (pos : 0 < strlen m + contentLen) :
    append m content contentLen =
      (overlay m 0 (cstring m ++ resize (cstring content ++ [0]) contentLen),
        [⟨strlen m + contentLen, strlen m⟩, ⟨strlen m + contentLen, strlen m + (strlen content + 1)⟩,
          ⟨m.length, strlen m + contentLen⟩]) := by
  have first : overlay (List.replicate (strlen m + contentLen) 0) 0 (m.take (strlen m)) =
      cstring m ++ List.replicate contentLen 0 := by
    rw [overlay_zeros, take_strlen, resize, length_cstring, Nat.add_sub_cancel_left,
      List.take_of_length_le]
    exact Nat.le_add_right _ _
  have data : overlay (cstring m ++ List.replicate contentLen 0) (strlen m)
      (cstring content ++ [0]) = cstring m ++ resize (cstring content ++ [0]) contentLen := by
    rw [← length_cstring, overlay_append, overlay_zeros]
  simp only [append, newArray_pos pos]
  rw [first, data, List.length_append, length_cstring, List.length_singleton]

/-- Nothing on an empty report: `Write` throws. -/
theorem append_throws {m : Bytes} (content : Bytes) {contentLen : Nat}
    (zero : strlen m + contentLen = 0) : append m content contentLen = (m, []) := by
  simp only [append, newArray, if_pos zero]

theorem append_eq (m content : Bytes) (contentLen : Nat) :
    (append m content contentLen).1 =
      overlay m 0 (cstring m ++ resize (cstring content ++ [0]) contentLen) := by
  rcases Nat.eq_zero_or_pos (strlen m + contentLen) with zero | pos
  · have empty : cstring m = [] := List.length_eq_zero_iff.mp (Nat.eq_zero_of_add_eq_zero_right zero)
    have nothing : resize (cstring content ++ [0]) contentLen = [] := by
      rw [Nat.eq_zero_of_add_eq_zero_left zero, resize, List.take_zero, Nat.zero_sub,
        List.replicate_zero, List.append_nil]
    rw [append_throws content zero, empty, nothing, List.append_nil, overlay_zero (Nat.zero_le _),
      List.nil_append, List.length_nil, List.drop_zero]
  · rw [append_pos content pos]

/-- **What a write leaves**: the report so far, the content at the length the caller gave, and behind
that what was there. -/
theorem append_bytes {m : Bytes} (content : Bytes) {contentLen : Nat}
    (fits : strlen m + contentLen ≤ m.length) :
    (append m content contentLen).1 =
      cstring m ++ resize (cstring content ++ [0]) contentLen ++ m.drop (strlen m + contentLen) := by
  have length : (cstring m ++ resize (cstring content ++ [0]) contentLen).length =
      strlen m + contentLen := by
    rw [List.length_append, length_resize, length_cstring]
  rw [append_eq, overlay_zero (by omega), length]

/-- A write does not touch the report so far, whether or not it fits. -/
theorem cstring_prefix_append (m content : Bytes) (contentLen : Nat) :
    cstring m <+: cstring (append m content contentLen).1 := by
  obtain ⟨rest, eq⟩ := overlay_starts (strlen_le m) (resize (cstring content ++ [0]) contentLen)
  rw [append_eq, eq, cstring_append (nul_not_mem_cstring m)]
  exact List.prefix_append _ _

theorem cstring_prefix_write (g : MmapGuard) (content : Bytes) (contentLen : Nat) :
    cstring g.bytes <+: cstring (g.write content contentLen).1.bytes := by
  obtain ⟨ptr⟩ := g
  cases ptr with
  | null => exact List.prefix_refl _
  | mapFailed => exact List.prefix_refl _
  | mapped m => exact cstring_prefix_append m content contentLen

theorem mappingSize_eq_max (capacity : Nat) : mappingSize capacity = max capacity (400 * 1024) := by
  unfold mappingSize CAPACITY
  split <;> omega

/-- The guard's mapping has `size` bytes and holds a report of `now` bytes. -/
structure Holds (size now : Nat) (g : MmapGuard) (m : Bytes) : Prop where
  ptr : g.bufferPtr = .mapped m
  size_eq : m.length = size
  terminated : Terminated m
  occupied : strlen m = now

theorem Holds.bytes {size now : Nat} {g : MmapGuard} {m : Bytes} (h : Holds size now g m) :
    g.bytes = m := by
  rw [MmapGuard.bytes, h.ptr]

theorem Holds.lt {size now : Nat} {g : MmapGuard} {m : Bytes} (h : Holds size now g m) :
    now < size := by
  rw [← h.occupied, ← h.size_eq]
  exact strlen_lt h.terminated

/-- A fresh guard holds an empty report. -/
theorem holds_new (filename : Bytes) (capacity : Nat) :
    Holds (mappingSize capacity) 0 (new (some filename) capacity true true)
      (List.replicate (mappingSize capacity) 0) := by
  have pos : 0 < mappingSize capacity := by
    rw [mappingSize_eq_max]
    omega
  obtain ⟨n, eq⟩ := Nat.exists_eq_succ_of_ne_zero (Nat.pos_iff_ne_zero.mp pos)
  refine ⟨rfl, List.length_replicate, ?_, ?_⟩
  · rw [eq]
    exact List.mem_cons_self
  · rw [eq]
    rfl

theorem Holds.write_eq {size now : Nat} {g : MmapGuard} {m : Bytes} (h : Holds size now g m)
    (content : Bytes) (contentLen : Nat) :
    g.write content contentLen = ({ bufferPtr := .mapped (append m content contentLen).1 },
      (append m content contentLen).2) := by
  simp only [MmapGuard.write, writeWith, h.ptr, if_true]

/-- The copies of a write that makes them stay inside exactly where the caller's length leaves room for
the zero byte and the mapping has room for that length. -/
theorem Holds.write_inside_iff {size now : Nat} {g : MmapGuard} {m : Bytes}
    (h : Holds size now g m) (content : Bytes) {contentLen : Nat} (pos : 0 < now + contentLen) :
    (∀ a ∈ (g.write content contentLen).2, a.Inside) ↔
      strlen content < contentLen ∧ now + contentLen ≤ size := by
  rw [h.write_eq, append_pos content (by rwa [h.occupied]), h.occupied, h.size_eq]
  simp only [List.mem_cons, List.not_mem_nil, or_false, forall_eq_or_imp, forall_eq, Access.Inside]
  omega

/-- A write that throws does nothing. -/
theorem Holds.write_throws {size now : Nat} {g : MmapGuard} {m : Bytes} (h : Holds size now g m)
    (content : Bytes) {contentLen : Nat} (zero : now + contentLen = 0) :
    g.write content contentLen = (g, []) := by
  rw [h.write_eq, append_throws content (by rwa [h.occupied]), ← h.ptr]

/-- What a write of the C string of `content` does, where its caller's length leaves room for the
zero byte. -/
theorem Holds.write {size now : Nat} {g : MmapGuard} {m : Bytes} (h : Holds size now g m)
    (content : Bytes) {contentLen : Nat} (room : strlen content < contentLen)
    (fits : now + contentLen ≤ size) :
    ∃ m', Holds size (now + strlen content) (g.write content contentLen).1 m' := by
  have written := h.write_eq content contentLen
  obtain ⟨ptr, rfl, terminated, rfl⟩ := h
  have bytes := append_bytes content fits
  rw [resize_cstring room, ← List.append_assoc, List.append_assoc, List.cons_append] at bytes
  have free : 0 ∉ cstring m ++ cstring content := by
    rw [List.mem_append]
    rintro (mem | mem)
    · exact nul_not_mem_cstring _ mem
    · exact nul_not_mem_cstring _ mem
  refine ⟨(append m content contentLen).1, by rw [written], by rw [append_eq, length_overlay], ?_, ?_⟩
  · rw [bytes]
    exact List.mem_append_right _ List.mem_cons_self
  · rw [bytes, strlen, cstring_append_nul free, List.length_append, length_cstring, length_cstring]

end MmapGuard

/-! ## The callers -/

open MmapGuard

namespace RecordCall

/-- What a call adds to the report's `strlen`. -/
def visible : RecordCall → Nat
  | .recordLine text => (printed text).elim 0 strlen
  | .recordNewline text _ => (printed text).elim 0 fun cut => strlen (cut ++ [0x0a])
  | .record2Buffer content => content.length

/-- The call can be made on a mapping of `size` bytes whose report has `now` bytes: if it is
`Record2Buffer`, the report and its string are empty, so that it throws; if it is `RecordNewline` with a
text to record, there is a zero byte in the text; and the text and a zero byte have room behind the
report. -/
def Fits (size now : Nat) : RecordCall → Prop
  | .recordLine text => ∀ cut ∈ printed text, now + cut.length < size
  | .recordNewline text _ => ∀ cut ∈ printed text, 0 ∈ cut ∧ now + cut.length < size
  | .record2Buffer content => now = 0 ∧ content.length = 0

/-- The call's accesses stay inside, and it leaves a zero byte in the mapping. -/
def Clean (g : MmapGuard) (c : RecordCall) : Prop :=
  (∀ a ∈ (c.perform g).2, a.Inside) ∧ Terminated (c.perform g).1.bytes

variable {size now : Nat} {g : MmapGuard} {m : Bytes}

/-- The call leaves the report longer by what it adds. -/
def Leaves (size now : Nat) (g : MmapGuard) (c : RecordCall) : Prop :=
  ∃ m', Holds size (now + c.visible) (c.perform g).1 m'

/-- A write that a call makes, seen from the call. -/
theorem clean_iff_of_write {c : RecordCall} (content : Bytes) (contentLen : Nat)
    (h : Holds size now g m) (pos : 0 < now + contentLen) (perform : c.perform g = g.write content contentLen)
    (visible : c.visible = strlen content ∨ contentLen ≤ strlen content) :
    (Clean g c ↔ strlen content < contentLen ∧ now + contentLen ≤ size) ∧
      (Clean g c → Leaves size now g c) := by
  unfold Clean Leaves
  rw [perform, h.write_inside_iff content pos]
  refine ⟨⟨And.left, fun fits => ⟨fits, ?_⟩⟩, ?_⟩
  · obtain ⟨m', holds⟩ := h.write content fits.1 fits.2
    rw [holds.bytes]
    exact holds.terminated
  · rintro ⟨⟨room, fits⟩, -⟩
    rcases visible with same | long
    · rw [same]
      exact h.write content room fits
    · omega

/-- A call that records nothing. -/
theorem clean_of_none {c : RecordCall} (h : Holds size now g m) (perform : c.perform g = (g, []))
    (visible : c.visible = 0) (fits : c.Fits size now) :
    (Clean g c ↔ c.Fits size now) ∧ (Clean g c → Leaves size now g c) := by
  have clean : Clean g c := by
    unfold Clean
    rw [perform]
    refine ⟨nofun, ?_⟩
    rw [h.bytes]
    exact h.terminated
  refine ⟨iff_of_true clean fits, fun _ => ?_⟩
  unfold Leaves
  rw [perform, visible]
  exact ⟨m, h⟩

/-- `RecordLine` copies its text with a zero byte behind it. -/
theorem recordLine_clean_iff (h : Holds size now g m) (text : Option Bytes) :
    (Clean g (.recordLine text) ↔ (recordLine text).Fits size now) ∧
      (Clean g (.recordLine text) → Leaves size now g (.recordLine text)) := by
  cases cut : printed text with
  | none =>
    apply clean_of_none h
    · simp only [perform, Hawkeye.recordLine, cut]
    · simp only [visible, cut, Option.elim_none]
    · simp only [Fits, cut, Option.mem_def, reduceCtorEq, false_imp_iff, implies_true]
  | some cut' =>
    have write := clean_iff_of_write (c := .recordLine text) (cut' ++ [0]) (cut'.length + 1) h
      (Nat.succ_pos _)
      (by simp only [perform, Hawkeye.recordLine, cut])
      (.inl (by simp only [visible, cut, Option.elim_some, strlen, cstring_append_zero]))
    refine ⟨write.1.trans ?_, write.2⟩
    have room := strlen_le cut'
    simp only [Fits, cut, Option.mem_def, Option.some.injEq, forall_eq', strlen,
      cstring_append_zero]
    rw [strlen] at room
    omega

/-- `RecordNewline` puts its newline over the zero byte: without another one the copy goes on behind
the length that was given. -/
theorem recordNewline_clean_iff (h : Holds size now g m) (text : Option Bytes) (behind : Bytes) :
    (Clean g (.recordNewline text behind) ↔ (recordNewline text behind).Fits size now) ∧
      (Clean g (.recordNewline text behind) → Leaves size now g (.recordNewline text behind)) := by
  cases cut : printed text with
  | none =>
    apply clean_of_none h
    · simp only [perform, Hawkeye.recordNewline, cut]
    · simp only [visible, cut, Option.elim_none]
    · simp only [Fits, cut, Option.mem_def, reduceCtorEq, false_imp_iff, implies_true]
  | some cut' =>
    have perform : (RecordCall.recordNewline text behind).perform g =
        g.write (cut' ++ 0x0a :: behind) (cut'.length + 1) := by
      simp only [RecordCall.perform, Hawkeye.recordNewline, cut]
    have fits : Fits size now (.recordNewline text behind) ↔
        0 ∈ cut' ∧ now + cut'.length < size := by
      simp only [Fits, cut, Option.mem_def, Option.some.injEq, forall_eq']
    rw [fits]
    by_cases nul : 0 ∈ cut'
    · have same : cstring (cut' ++ 0x0a :: behind) = cstring cut' :=
        cstring_append_of_terminated nul _
      have write := clean_iff_of_write _ _ h (Nat.succ_pos _) perform (.inl (by
        simp only [visible, cut, Option.elim_some, strlen, same,
          cstring_append_of_terminated nul]))
      refine ⟨write.1.trans ?_, write.2⟩
      have room := strlen_lt nul
      rw [strlen, same, length_cstring]
      constructor
      · intro fits
        exact ⟨nul, by omega⟩
      · intro fits
        omega
    · have long : cut'.length + 1 ≤ strlen (cut' ++ 0x0a :: behind) := by
        rw [strlen, cstring_append nul, List.length_append, cstring,
          List.takeWhile_cons_of_pos (by decide), List.length_cons]
        omega
      have write := clean_iff_of_write _ _ h (Nat.succ_pos _) perform (.inr long)
      refine ⟨write.1.trans ?_, write.2⟩
      constructor
      · intro fits
        omega
      · intro fits
        exact absurd fits.1 nul

/-- `Record2Buffer` leaves no byte for the zero that ends its content, so it never fits where it copies
anything. -/
theorem record2Buffer_clean_iff (h : Holds size now g m) (content : JString) :
    (Clean g (.record2Buffer content) ↔ (record2Buffer content).Fits size now) ∧
      (Clean g (.record2Buffer content) → Leaves size now g (.record2Buffer content)) := by
  rcases Nat.eq_zero_or_pos (now + content.length) with zero | pos
  · exact clean_of_none h (h.write_throws _ zero) (Nat.eq_zero_of_add_eq_zero_left zero)
      ⟨Nat.eq_zero_of_add_eq_zero_right zero, Nat.eq_zero_of_add_eq_zero_left zero⟩
  · have same : strlen (content.utf8 ++ [0]) = content.length := by
      rw [strlen, cstring_append_nul content.nul_free]
      rfl
    have write := clean_iff_of_write (c := .record2Buffer content) (content.utf8 ++ [0]) content.length
      h pos rfl (.inl same.symm)
    refine ⟨write.1.trans ?_, write.2⟩
    rw [same, Fits]
    omega

/-- **One call**: it is clean exactly where it fits, and then the report is longer by what the call
adds. -/
theorem clean_iff_fits (h : Holds size now g m) (c : RecordCall) :
    (Clean g c ↔ c.Fits size now) ∧ (Clean g c → Leaves size now g c) := by
  cases c with
  | recordLine text => exact recordLine_clean_iff h text
  | recordNewline text behind => exact recordNewline_clean_iff h text behind
  | record2Buffer content => exact record2Buffer_clean_iff h content

/-- A call does nothing, or it is one write. -/
theorem perform_cases (g : MmapGuard) (c : RecordCall) :
    c.perform g = (g, []) ∨ ∃ content contentLen, c.perform g = g.write content contentLen := by
  cases c with
  | recordLine text =>
    rw [perform, Hawkeye.recordLine]
    split
    · exact .inl rfl
    · exact .inr ⟨_, _, rfl⟩
  | recordNewline text behind =>
    rw [perform, Hawkeye.recordNewline]
    split
    · exact .inl rfl
    · exact .inr ⟨_, _, rfl⟩
  | record2Buffer content => exact .inr ⟨_, _, rfl⟩

theorem cstring_prefix_perform (g : MmapGuard) (c : RecordCall) :
    cstring g.bytes <+: cstring (c.perform g).1.bytes := by
  rcases c.perform_cases g with nothing | ⟨content, contentLen, write⟩
  · rewrite [nothing]
    exact List.prefix_refl _
  · rewrite [write]
    exact cstring_prefix_write g content contentLen

end RecordCall

/-! ## A list of calls -/

/-- What is recorded stays: later calls only add to the report. -/
theorem cstring_prefix_performAll (g : MmapGuard) (calls : List RecordCall) :
    cstring g.bytes <+: cstring (performAll g calls).1.bytes := by
  induction calls generalizing g with
  | nil => exact List.prefix_refl _
  | cons c calls ih => exact (RecordCall.cstring_prefix_perform g c).trans (ih (c.perform g).1)

/-- A buffer that is mapped stays mapped. -/
theorem performAll_mapped {g : MmapGuard} {m : Bytes} (mapped : g.bufferPtr = .mapped m)
    (calls : List RecordCall) : ∃ m', (performAll g calls).1.bufferPtr = .mapped m' := by
  induction calls generalizing g m with
  | nil => exact ⟨m, mapped⟩
  | cons c calls ih =>
    rcases c.perform_cases g with nothing | ⟨content, contentLen, write⟩
    · rw [performAll, nothing]
      exact ih mapped
    · have written : (c.perform g).1.bufferPtr = .mapped (append m content contentLen).1 := by
        rw [write]
        simp only [MmapGuard.write, writeWith, mapped, if_true]
      exact ih written

/-- Of a text with a newline and what lies behind it, the text and the newline are copied. -/
theorem resize_newline {text : Bytes} (free : 0 ∉ text) (behind : Bytes) :
    resize (cstring (text ++ 0x0a :: behind) ++ [0]) (text.length + 1) = text ++ [0x0a] := by
  have line : 0 ∉ text ++ [0x0a] := by
    rw [List.mem_append, List.mem_singleton]
    rintro (mem | mem)
    · exact free mem
    · cases mem
  have length : (text ++ [(0x0a : UInt8)]).length = text.length + 1 := List.length_append
  rw [List.append_cons text, cstring_append line, List.append_assoc, resize, List.take_left' length,
    List.length_append, length, Nat.sub_eq_zero_of_le (Nat.le_add_right _ _), List.replicate_zero,
    List.append_nil]

/-- The first line that is recorded with `RecordNewline` stands whole at the start of the report, if
the mapping has room for it. -/
theorem line_prefix_recordNewline {size : Nat} {g : MmapGuard} {m text : Bytes}
    (h : Holds size 0 g m) (ne : text ≠ []) (free : 0 ∉ text)
    (short : text.length < HAWKEYE_LOG_BUFFER_SIZE) (room : text.length < size) (behind : Bytes) :
    text ++ [0x0a] <+: cstring (recordNewline g (some text) behind).1.bytes := by
  have whole : printed (some text) = some text := by
    rw [printed, List.take_of_length_le (Nat.le_sub_one_of_lt short)]
    exact ne
  have line : 0 ∉ text ++ [0x0a] := by
    rw [List.mem_append, List.mem_singleton]
    rintro (mem | mem)
    · exact free mem
    · cases mem
  have empty : cstring m = [] := List.length_eq_zero_iff.mp h.occupied
  have fits : strlen m + (text.length + 1) ≤ m.length := by
    rw [h.occupied, h.size_eq]
    omega
  simp only [recordNewline, whole]
  rw [h.write_eq, MmapGuard.bytes, append_bytes _ fits, resize_newline free, empty, List.nil_append,
    cstring_append line]
  exact List.prefix_append _ _

open RecordCall

/-- After every call the accesses so far have stayed inside, and a zero byte is in the mapping. -/
def Contained (g : MmapGuard) (calls : List RecordCall) : Prop :=
  ∀ before, before <+: calls →
    (∀ a ∈ (performAll g before).2, a.Inside) ∧ Terminated (performAll g before).1.bytes

theorem contained_cons {size now : Nat} {g : MmapGuard} {m : Bytes} (h : Holds size now g m)
    (c : RecordCall) (calls : List RecordCall) :
    Contained g (c :: calls) ↔ Clean g c ∧ Contained (c.perform g).1 calls := by
  constructor
  · intro all
    constructor
    · have first := all [c] (by simp)
      rw [performAll, performAll, List.append_nil] at first
      exact first
    · intro before pre
      have := all (c :: before) (List.prefix_cons_inj c |>.mpr pre)
      refine ⟨fun a mem => this.1 a ?_, this.2⟩
      exact List.mem_append_right _ mem
  · rintro ⟨first, rest⟩ before pre
    cases before with
    | nil =>
      refine ⟨nofun, ?_⟩
      rw [performAll, h.bytes]
      exact h.terminated
    | cons c' before =>
      obtain ⟨rfl, pre'⟩ := List.cons_prefix_cons.mp pre
      refine ⟨fun a mem => ?_, (rest before pre').2⟩
      rcases List.mem_append.mp mem with mem | mem
      · exact first.1 a mem
      · exact (rest before pre').1 a mem

/-- Every call fits where the calls before it have left the report. -/
def AllFit (size now : Nat) (calls : List RecordCall) : Prop :=
  ∀ before c after, calls = before ++ c :: after → c.Fits size (now + (before.map visible).sum)

theorem allFit_cons {size now : Nat} (c : RecordCall) (calls : List RecordCall) :
    AllFit size now (c :: calls) ↔ c.Fits size now ∧ AllFit size (now + c.visible) calls := by
  constructor
  · intro all
    refine ⟨all [] c calls rfl, fun before d after eq => ?_⟩
    have := all (c :: before) d after (by rw [eq, List.cons_append])
    rwa [List.map_cons, List.sum_cons, ← Nat.add_assoc] at this
  · rintro ⟨first, rest⟩ before d after eq
    cases before with
    | nil =>
      obtain ⟨rfl, rfl⟩ := List.cons.inj eq
      exact first
    | cons c' before =>
      obtain ⟨rfl, eq'⟩ := List.cons.inj eq
      rw [List.map_cons, List.sum_cons, ← Nat.add_assoc]
      exact rest before d after eq'

theorem contained_iff_allFit {size now : Nat} {g : MmapGuard} {m : Bytes}
    (h : Holds size now g m) (calls : List RecordCall) :
    Contained g calls ↔ AllFit size now calls := by
  induction calls generalizing now g m with
  | nil =>
    refine ⟨fun _ before c after eq => by simp at eq, fun _ before pre => ?_⟩
    rw [List.prefix_nil.mp pre]
    refine ⟨nofun, ?_⟩
    rw [performAll, h.bytes]
    exact h.terminated
  | cons c calls ih =>
    obtain ⟨iff, leaves⟩ := clean_iff_fits h c
    rw [contained_cons h, allFit_cons, ← iff]
    apply and_congr_right
    intro clean
    obtain ⟨m', holds⟩ := leaves clean
    exact ih holds

/-- **The report buffer is not overrun exactly where every call fits.** For a guard of any capacity
and every list of calls of `RecordLine`, `RecordNewline` and `Record2Buffer`: after every call all
copies have stayed inside their destination and a zero byte is left in the mapping, if and only if
`Record2Buffer` is called only with the empty string on an empty report, every text that
`RecordNewline` records holds a zero byte, and every recorded text and its zero byte have room behind
the calls before it. -/
theorem contained_iff_fits (filename : Bytes) (capacity : Nat) (calls : List RecordCall) :
    Contained (new (some filename) capacity true true) calls ↔
      ∀ before c after, calls = before ++ c :: after →
        c.Fits (max capacity (400 * 1024)) (before.map visible).sum := by
  rw [contained_iff_allFit (holds_new filename capacity), mappingSize_eq_max]
  simp only [AllFit, Nat.zero_add]

/-- The last line of every native report is recorded over the end of `data_tmp`: two bytes are given
for a space, a newline and the zero byte. -/
theorem last_line_overruns :
    ∃ a ∈ (performAll (new (some []) (400 * 1024) true true) [.recordNewline (some [0x20]) []]).2,
      a = ⟨2, 3⟩ ∧ ¬ a.Inside ∧
      ¬ Contained (new (some []) (400 * 1024) true true) [.recordNewline (some [0x20]) []] := by
  have h := holds_new [] (400 * 1024)
  have mem : (⟨2, 3⟩ : Access) ∈ (performAll (new (some []) (400 * 1024) true true)
      [.recordNewline (some [0x20]) []]).2 := by
    have perform (g : MmapGuard) : RecordCall.perform g (.recordNewline (some [0x20]) []) =
        g.write [0x20, 0x0a] 2 := rfl
    rw [performAll, perform, h.write_eq, append_pos _ (by rw [h.occupied]; decide), h.occupied]
    exact List.mem_append_left _ (List.mem_cons_of_mem _ List.mem_cons_self)
  refine ⟨_, mem, rfl, by decide, fun contained => ?_⟩
  have inside := (contained _ (List.prefix_refl _)).1 _ mem
  exact absurd inside (by decide)

end Dolin.Hawkeye
