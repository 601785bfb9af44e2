import Dolin.Zap.Format
import Mathlib.Algebra.Group.Nat.Defs
import Mathlib.Algebra.Ring.Int.Defs

/-!
# What a log line says

The front of the buffer is the date that was formatted last, so every line is that date, the level, the
tag and the message, with nothing of the lines before. The date is at most a second old, as long as the
clock does not go back: the test asks only whether it has gone on.
-/

namespace Dolin.Zap

/-- What the line of a call has behind the date. -/
def FormatCall.rest (call : FormatCall) : Utf16 :=
  utf16 [' ', '['] ++ getShortLevelName call.level ++ utf16 [']'] ++ appended call.tag ++
    utf16 [':', ' '] ++ appended call.msg ++ utf16 ['\n']

namespace DateFileFormatter

variable {simpleDateFormat : Int64 → Utf16} {f : DateFileFormatter}

/-- The date was formatted from `date`, and stands in front of the buffer with a space behind it. -/
structure Prefixed (simpleDateFormat : Int64 → Utf16) (f : DateFileFormatter) : Prop where
  formatted : f.lastDateFormatted = simpleDateFormat f.date
  front : f.stringBuffer.take f.timeLength = f.lastDateFormatted ++ utf16 [' ']
  length : f.timeLength = f.lastDateFormatted.length + 1

/-- There is no date yet, or it stands in front. -/
def Sound (simpleDateFormat : Int64 → Utf16) (f : DateFileFormatter) : Prop :=
  f.lastDateFormatted = [] ∨ f.Prefixed simpleDateFormat

theorem sound_new (now : Int64) : (new now).Sound simpleDateFormat := .inl rfl

theorem resetTimePrefix_eq (f : DateFileFormatter) :
    f.resetTimePrefix =
      { f with
        stringBuffer := f.lastDateFormatted ++ utf16 [' ']
        timeLength := f.lastDateFormatted.length + 1 } := by
  rw [resetTimePrefix, delete_tail, List.take_zero, List.nil_append]
  simp [utf16]

theorem prefixed_refresh (f : DateFileFormatter) (again : Int64) :
    (f.refresh simpleDateFormat again).Prefixed simpleDateFormat := by
  rw [refresh, resetTimePrefix_eq]
  exact ⟨rfl, List.take_of_length_le (by simp [utf16]), rfl⟩

/-- The formatter that a call formats the line with. -/
def current (simpleDateFormat : Int64 → Utf16) (f : DateFileFormatter) (call : FormatCall) :
    DateFileFormatter :=
  if f.stale call.now then f.refresh simpleDateFormat call.again else f

theorem prefixed_current (sound : f.Sound simpleDateFormat) (call : FormatCall) :
    (f.current simpleDateFormat call).Prefixed simpleDateFormat := by
  unfold current
  split
  next => exact prefixed_refresh f call.again
  next fresh =>
    refine sound.resolve_left fun empty => fresh ?_
    rw [stale, empty, List.isEmpty_nil, Bool.or_true]

theorem formatString_eq {date : Utf16} (front : f.stringBuffer.take f.timeLength = date ++ utf16 [' '])
    (call : FormatCall) : f.formatString call.level call.tag call.msg =
      ({ f with stringBuffer := date ++ call.rest }, date ++ call.rest) := by
  have line : date ++ call.rest = date ++ utf16 [' '] ++ utf16 ['['] ++ getShortLevelName call.level ++
      utf16 [']'] ++ appended call.tag ++ utf16 [':', ' '] ++ appended call.msg ++ utf16 ['\n'] := by
    simp only [FormatCall.rest, utf16, List.map_cons, List.map_nil, List.append_assoc,
      List.cons_append, List.nil_append]
  rw [formatString, delete_tail, front, line]

/-- **The line of a call** is the date, the level, the tag and the message, and the next call finds the
date where it was. -/
theorem format_eq (sound : f.Sound simpleDateFormat) (call : FormatCall) :
    (f.format simpleDateFormat call).2 =
        simpleDateFormat (f.current simpleDateFormat call).date ++ call.rest ∧
      (f.format simpleDateFormat call).1.Prefixed simpleDateFormat ∧
      (f.format simpleDateFormat call).1.date = (f.current simpleDateFormat call).date := by
  have h := prefixed_current sound call
  have formatted : f.format simpleDateFormat call = _ := formatString_eq h.front call
  rw [formatted]
  refine ⟨by rw [h.formatted], ⟨h.formatted, ?_, h.length⟩, rfl⟩
  dsimp only
  have split' : call.rest = utf16 [' '] ++ call.rest.tail := rfl
  rw [split', ← List.append_assoc]
  exact List.take_left' (by rw [h.length, List.length_append]; rfl)

/-! ## How old the date is -/

/-- What the clock said in a call. -/
def readings (f : DateFileFormatter) (call : FormatCall) : List Int64 :=
  if f.stale call.now then [call.now, call.again] else [call.now]

/-- The line is as it should be, with the date of a known reading that differs from a reading of this
call by at most a second. -/
def FreshLine (simpleDateFormat : Int64 → Utf16) (known now : List Int64) (call : FormatCall)
    (line : Utf16) : Prop :=
  ∃ r ∈ known, ∃ c ∈ now, (-1000 ≤ c.toInt - r.toInt ∧ c.toInt - r.toInt ≤ 1000) ∧
    line = simpleDateFormat r ++ call.rest

/-- All lines are, of calls one after the other. -/
def AllFresh (simpleDateFormat : Int64 → Utf16) :
    DateFileFormatter → List Int64 → List FormatCall → Prop
  | _, _, [] => True
  | f, known, call :: calls =>
    FreshLine simpleDateFormat (f.readings call ++ known) (f.readings call) call
        (f.format simpleDateFormat call).2 ∧
      AllFresh simpleDateFormat (f.format simpleDateFormat call).1 (f.readings call ++ known) calls

/-- Where the date is kept, the clock has not gone back behind it by more than a second, nor on by more
than a `long` holds. -/
def Timely (f : DateFileFormatter) (call : FormatCall) : Prop :=
  f.stale call.now = false →
    -1000 ≤ call.now.toInt - f.date.toInt ∧ call.now.toInt - f.date.toInt < 2 ^ 63

/-- In all calls. -/
def AllTimely (simpleDateFormat : Int64 → Utf16) : DateFileFormatter → List FormatCall → Prop
  | _, [] => True
  | f, call :: calls => f.Timely call ∧ AllTimely simpleDateFormat (f.format simpleDateFormat call).1 calls

theorem current_of_fresh {call : FormatCall} (fresh : f.stale call.now = false) :
    f.current simpleDateFormat call = f := by
  rw [current, fresh]
  rfl

theorem last_ne_nil_of_fresh {now : Int64} (fresh : f.stale now = false) : f.lastDateFormatted ≠ [] := by
  intro empty
  rw [stale, empty, List.isEmpty_nil, Bool.or_true] at fresh
  cases fresh

/-- In a call that is timely the date is at most a second old. -/
theorem Timely.near {call : FormatCall} (timely : f.Timely call) (fresh : f.stale call.now = false) :
    -1000 ≤ call.now.toInt - f.date.toInt ∧ call.now.toInt - f.date.toInt ≤ 1000 := by
  obtain ⟨low, fits⟩ := timely fresh
  rw [stale, Bool.or_eq_false_iff] at fresh
  have short := of_decide_eq_false fresh.1
  rw [Int64.lt_iff_toInt_lt, Int64.toInt_sub, Int.bmod_eq_of_le (by omega) (by omega)] at short
  change ¬ (1000 : Int) < _ at short
  omega

/-- **Timely calls give fresh lines.** -/
theorem allFresh_of_allTimely {calls : List FormatCall} {known : List Int64}
    (sound : f.Sound simpleDateFormat) (asked : f.lastDateFormatted ≠ [] → f.date ∈ known)
    (timely : AllTimely simpleDateFormat f calls) : AllFresh simpleDateFormat f known calls := by
  induction calls generalizing f known with
  | nil => trivial
  | cons call calls ih =>
    obtain ⟨line, prefixed, date⟩ := format_eq sound call
    have near : (f.current simpleDateFormat call).date ∈ f.readings call ++ known ∧
        ∃ c ∈ f.readings call, -1000 ≤ c.toInt - (f.current simpleDateFormat call).date.toInt ∧
          c.toInt - (f.current simpleDateFormat call).date.toInt ≤ 1000 := by
      cases fresh : f.stale call.now with
      | true =>
        have date : (f.current simpleDateFormat call).date = call.again := by
          rw [current, fresh]
          rfl
        rw [date, readings, if_pos fresh]
        exact ⟨by simp, call.again, by simp, by omega, by omega⟩
      | false =>
        rw [current_of_fresh fresh, readings, fresh]
        exact ⟨List.mem_append_right _ (asked (last_ne_nil_of_fresh fresh)), call.now, by simp,
          timely.1.near fresh⟩
    obtain ⟨known', c, mem, near⟩ := near
    have asked' : (f.format simpleDateFormat call).1.date ∈ f.readings call ++ known := by
      rw [date]
      exact known'
    refine ⟨?_, ih (.inr prefixed) (fun _ => asked') timely.2⟩
    exact ⟨(f.current simpleDateFormat call).date, known', c, mem, near, line⟩

/-- Dates that tell the instants apart, empty where the given ones are. -/
def telling (simpleDateFormat : Int64 → Utf16) (t : Int64) : Utf16 :=
  if simpleDateFormat t = [] then [] else List.replicate ((t.toInt + 2 ^ 63).toNat + 1) 0

theorem telling_eq_nil_iff {t : Int64} : telling simpleDateFormat t = [] ↔ simpleDateFormat t = [] := by
  unfold telling
  split
  next empty => exact iff_of_true rfl empty
  next told => exact iff_of_false (by simp) told

theorem telling_inj {r t : Int64} (same : telling simpleDateFormat r = telling simpleDateFormat t)
    (nonempty : simpleDateFormat t ≠ []) : r = t := by
  have nonemptyRead : simpleDateFormat r ≠ [] := fun empty =>
    nonempty (telling_eq_nil_iff.mp (same ▸ telling_eq_nil_iff.mpr empty))
  have lengths := congrArg List.length same
  rw [telling, telling, if_neg nonempty, if_neg nonemptyRead, List.length_replicate,
    List.length_replicate] at lengths
  have low := r.le_toInt
  have low' := t.le_toInt
  exact Int64.toInt_inj.mp (by omega)

/-- Lines that are fresh with dates that tell the instants apart come of timely calls, whatever the
dates. -/
theorem allTimely_of_allFresh {calls : List FormatCall} {known : List Int64} {g : DateFileFormatter}
    (sound : f.Sound simpleDateFormat) (sound' : g.Sound (telling simpleDateFormat))
    (date : f.date = g.date) (empty : f.lastDateFormatted = [] ↔ g.lastDateFormatted = [])
    (fresh : AllFresh (telling simpleDateFormat) g known calls) :
    AllTimely simpleDateFormat f calls := by
  induction calls generalizing f g known with
  | nil => trivial
  | cons call calls ih =>
    obtain ⟨-, prefixed, after⟩ := format_eq sound call
    obtain ⟨line, prefixed', after'⟩ := format_eq sound' call
    have stales : f.stale call.now = g.stale call.now := by
      rw [stale, stale, date, Bool.eq_iff_iff, Bool.or_eq_true, Bool.or_eq_true, List.isEmpty_iff,
        List.isEmpty_iff, empty]
    have dates : (f.current simpleDateFormat call).date =
        (g.current (telling simpleDateFormat) call).date := by
      rw [current, current, stales]
      split
      · rfl
      · exact date
    refine ⟨fun kept => ?_, ih (.inr prefixed) (.inr prefixed') ?_ ?_ fresh.2⟩
    · rw [stales] at kept
      obtain ⟨r, -, c, now, near, same⟩ := fresh.1
      rw [line, current_of_fresh kept] at same
      rw [readings, kept] at now
      have same := telling_inj (List.append_cancel_right same).symm ?_
      · subst same
        cases List.mem_singleton.mp now
        rw [date]
        omega
      · intro none'
        refine last_ne_nil_of_fresh kept ?_
        rw [(sound'.resolve_left (last_ne_nil_of_fresh kept)).formatted]
        exact telling_eq_nil_iff.mpr none'
    · rw [after, after', dates]
    · rw [prefixed.formatted, prefixed'.formatted, after, after', dates, telling_eq_nil_iff]

/-- **Every line is fresh** where the calls are timely. For every instant of the constructor, every list
of calls with any levels, tags, messages and readings of the clock, and whatever the formatted dates:
each line is the date, the level, the tag and the message, the date being that of a reading of the
clock that differs from the clock at that call by at most a second. And it is so for all formats of the
date only where the calls are timely. -/
theorem lines_fresh_iff_timely (start : Int64) (calls : List FormatCall) :
    (∀ simpleDateFormat, AllTimely simpleDateFormat (new start) calls →
        AllFresh simpleDateFormat (new start) [] calls) ∧
      ((∀ simpleDateFormat, AllFresh simpleDateFormat (new start) [] calls) →
        ∀ simpleDateFormat, AllTimely simpleDateFormat (new start) calls) := by
  refine ⟨fun dates timely => ?_, fun fresh dates => ?_⟩
  · exact allFresh_of_allTimely (sound_new start) (fun nonempty => absurd rfl nonempty) timely
  · exact allTimely_of_allFresh (sound_new start) (sound_new start) rfl Iff.rfl (fresh _)

/-- The seconds of an instant after 1970. -/
def seconds (t : Int64) : Utf16 := utf16 (Nat.toDigits 10 (t.toInt.toNat / 1000))

/-- A call with an empty message. -/
def callAt (now : Int64) : FormatCall := ⟨.info, some [], some [], now, now⟩

/-- A line of a clock that was set back by an hour still has the date of before. -/
theorem line_of_clock_set_back :
    ¬ AllFresh seconds (new 0) [] [callAt 3605000, callAt 5000] := by
  rintro ⟨-, ⟨r, known, c, now, near, line⟩, -⟩
  have readings : r ∈ [5000, 3605000, 3605000] := known
  have clock : c = 5000 := List.mem_singleton.mp now
  have date : seconds 3605000 = seconds r := List.append_cancel_right line
  subst clock
  rcases List.mem_cons.mp readings with rfl | before
  · exact absurd date (by decide)
  · have old : r = 3605000 := by simpa using before
    subst old
    exact absurd near (by decide)

end DateFileFormatter

end Dolin.Zap
