import Dolin.Laws.Unwindstack.DwarfStep
import Dolin.Unwindstack.FdeLookup

/-!
# The FDE for an address

Both lookups search in a table in order. That of a section without an index takes the end of a range for a
part of it, and `GetFdeFromPc` does not: where a function follows another without a gap its first address
can be lost, `getFdeFromPc_sorted`. That of the index gives the last entry that is not behind the address,
whatever entries were read before, `lookups_eq`.
-/

namespace Dolin.Unwindstack

variable {a : AddressType}

/-! ## The sorted list of a section -/

namespace DwarfSectionImpl

open BinarySearch

variable {fdes : List (FdeInfo a)} {getFdeFromOffset : BitVec 64 → Except Halt DwarfFde}
  {fdeAt : Nat → DwarfFde} {pc : BitVec 64} {i j : Nat} {fde : DwarfFde}

/-- The list of a section: its ranges are in order and do not overlap, and each is that of an FDE. -/
structure Sound (fdes : List (FdeInfo a)) (getFdeFromOffset : BitVec 64 → Except Halt DwarfFde)
    (fdeAt : Nat → DwarfFde) : Prop where
  nonempty : ∀ i < fdes.length, (fdeAt i).pcStart < (fdeAt i).pcEnd
  order : ∀ i j, i < j → j < fdes.length → (fdeAt i).pcEnd ≤ (fdeAt j).pcStart
  found : ∀ i < fdes.length, getFdeFromOffset (infoAt fdes i).offset = .ok (fdeAt i)
  start : ∀ i < fdes.length, (infoAt fdes i).start.setWidth 64 = (fdeAt i).pcStart
  stops : ∀ i < fdes.length, (infoAt fdes i).end_.setWidth 64 = (fdeAt i).pcEnd

/-- The answer of `GetFdeFromPc`. -/
def answer (fdes : List (FdeInfo a)) (getFdeFromOffset : BitVec 64 → Except Halt DwarfFde)
    (pc : BitVec 64) : Except Halt DwarfFde :=
  DwarfSection.getFdeFromPcOf (getFdeOffsetFromPc fdes pc) getFdeFromOffset pc

theorem compare_eq (sound : Sound fdes getFdeFromOffset fdeAt) (inside : i < fdes.length) :
    compare fdes pc i =
      if (fdeAt i).pcStart ≤ pc ∧ pc ≤ (fdeAt i).pcEnd then .eq
      else if pc < (fdeAt i).pcStart then .lt else .gt := by
  unfold compare
  simp only [sound.start i inside, sound.stops i inside, ge_iff_le]

theorem compare_eq_iff (sound : Sound fdes getFdeFromOffset fdeAt) (inside : i < fdes.length) :
    compare fdes pc i = .eq ↔ (fdeAt i).pcStart ≤ pc ∧ pc ≤ (fdeAt i).pcEnd := by
  rw [compare_eq sound inside]
  constructor
  · intro at'
    split at at'
    · next within => exact within
    · split at at' <;> cases at'
  · exact fun within => if_pos within

theorem compare_lt_iff (sound : Sound fdes getFdeFromOffset fdeAt) (inside : i < fdes.length) :
    compare fdes pc i = .lt ↔ pc < (fdeAt i).pcStart := by
  rw [compare_eq sound inside]
  constructor
  · intro before
    split at before
    · cases before
    · split at before
      · next below => exact below
      · cases before
  · intro below
    rw [if_neg fun within => BitVec.not_lt.mpr within.1 below, if_pos below]

theorem compare_gt_iff (sound : Sound fdes getFdeFromOffset fdeAt) (inside : i < fdes.length) :
    compare fdes pc i = .gt ↔ (fdeAt i).pcEnd < pc := by
  have nonempty := sound.nonempty i inside
  rw [compare_eq sound inside]
  simp only [BitVec.le_def, BitVec.lt_def] at nonempty ⊢
  constructor
  · intro behind
    split at behind
    · cases behind
    · split at behind
      · cases behind
      · omega
  · intro behind
    rw [if_neg (by omega), if_neg (by omega)]

theorem sorted_compare (sound : Sound fdes getFdeFromOffset fdeAt) (pc : BitVec 64) :
    Sorted (compare fdes pc) fdes.length := by
  constructor
  · intro i j le inside before
    rw [compare_lt_iff sound (by omega)] at before
    rw [compare_lt_iff sound inside]
    rcases Nat.eq_or_lt_of_le le with rfl | lt
    · exact before
    · have nonempty := sound.nonempty i (by omega)
      have order := sound.order i j lt inside
      simp only [BitVec.le_def, BitVec.lt_def] at *
      omega
  · intro i j le inside behind
    rw [compare_gt_iff sound inside] at behind
    rw [compare_gt_iff sound (by omega)]
    rcases Nat.eq_or_lt_of_le le with rfl | lt
    · exact behind
    · have nonempty := sound.nonempty j inside
      have order := sound.order i j lt inside
      simp only [BitVec.le_def, BitVec.lt_def] at *
      omega

/-- What is found for an address: an FDE whose range it is in or behind, if it is not lost. -/
theorem answer_found (sound : Sound fdes getFdeFromOffset fdeAt)
    (done : search (compare fdes pc) fdes.length 0 fdes.length = .found i) :
    answer fdes getFdeFromOffset pc =
      if pc < (fdeAt i).pcEnd then .ok (fdeAt i) else DwarfSection.fail .illegalState := by
  obtain ⟨-, inside, -⟩ := search_found done
  rw [answer, getFdeOffsetFromPc, done, DwarfSection.getFdeFromPcOf, sound.found i inside]

theorem answer_before (done : search (compare fdes pc) fdes.length 0 fdes.length = .before i) :
    answer fdes getFdeFromOffset pc = DwarfSection.fail .none := by
  rw [answer, getFdeOffsetFromPc, done]
  rfl

/-- What is answered is right. -/
theorem answer_sound (sound : Sound fdes getFdeFromOffset fdeAt)
    (answered : answer fdes getFdeFromOffset pc = .ok fde) :
    ∃ i < fdes.length, fde = fdeAt i ∧ (fdeAt i).pcStart ≤ pc ∧ pc < (fdeAt i).pcEnd := by
  cases done : search (compare fdes pc) fdes.length 0 fdes.length with
  | found i =>
    obtain ⟨-, inside, at'⟩ := search_found done
    rw [answer_found sound done] at answered
    split at answered
    · next below =>
      cases answered
      exact ⟨i, inside, rfl, ((compare_eq_iff sound inside).mp at').1, below⟩
    · cases answered
  | before i =>
    rw [answer_before done] at answered
    cases answered

/-- An address in a range is found there, or it is the first of the range and lost to the one before,
which ends there. -/
theorem answer_inside (sound : Sound fdes getFdeFromOffset fdeAt) (inside : i < fdes.length)
    (low : (fdeAt i).pcStart ≤ pc) (high : pc < (fdeAt i).pcEnd) :
    answer fdes getFdeFromOffset pc = .ok (fdeAt i) ∨
      answer fdes getFdeFromOffset pc = DwarfSection.fail .illegalState ∧ pc = (fdeAt i).pcStart ∧
        ∃ j < i, (fdeAt j).pcEnd = pc := by
  have ends := search_spec (sorted_compare sound pc)
  cases done : search (compare fdes pc) fdes.length 0 fdes.length with
  | before k =>
    rw [done] at ends
    obtain ⟨-, below, above⟩ := ends
    rcases Nat.lt_or_ge i k with behind | from'
    · have gt := (compare_gt_iff sound inside).mp (below i behind)
      simp only [BitVec.lt_def] at gt high
      omega
    · have lt := (compare_lt_iff sound inside).mp (above i from' inside)
      exact absurd lt (BitVec.not_lt.mpr low)
  | found k =>
    obtain ⟨-, inside', at'⟩ := search_found done
    obtain ⟨low', high'⟩ := (compare_eq_iff sound inside').mp at'
    rw [answer_found sound done]
    rcases Nat.lt_trichotomy k i with before | rfl | behind
    · have order := sound.order k i before inside
      have touch : pc = (fdeAt i).pcStart ∧ (fdeAt k).pcEnd = pc := by
        simp only [BitVec.le_def] at *
        constructor <;> apply BitVec.eq_of_toNat_eq <;> omega
      rw [if_neg (by rw [touch.2]; exact BitVec.lt_irrefl pc)]
      exact .inr ⟨rfl, touch.1, k, before, touch.2⟩
    · exact .inl (if_pos high)
    · have order := sound.order i k behind inside'
      simp only [BitVec.le_def, BitVec.lt_def] at *
      omega

/-- The first address behind the range in the middle is lost. -/
theorem answer_middle (sound : Sound fdes getFdeFromOffset fdeAt) (three : 3 ≤ fdes.length) :
    answer fdes getFdeFromOffset (fdeAt (fdes.length / 2)).pcEnd = DwarfSection.fail .illegalState := by
  have inside : fdes.length / 2 < fdes.length := by omega
  have middle : compare fdes (fdeAt (fdes.length / 2)).pcEnd (fdes.length / 2) = .eq := by
    rw [compare_eq_iff sound inside]
    exact ⟨BitVec.le_of_lt (sound.nonempty _ inside), BitVec.le_refl _⟩
  have done : search (compare fdes (fdeAt (fdes.length / 2)).pcEnd) fdes.length 0 fdes.length =
      .found (fdes.length / 2) := by
    obtain ⟨n, length⟩ := Nat.exists_eq_succ_of_ne_zero (Nat.ne_of_gt (Nat.lt_of_lt_of_le (by decide) three))
    rw [length] at middle ⊢
    rw [search, if_pos (Nat.succ_pos n), Nat.zero_add, middle]
  rw [answer_found sound done, if_neg (BitVec.lt_irrefl _)]

/-- **`GetFdeFromPc` over a sorted list.** An FDE that is answered has the address in its range. An address
in a range is answered with its FDE, unless it is the first of the range and another ends there. That can
happen: from three ranges on, the address where the middle one ends is never answered. -/
theorem getFdeFromPc_sorted (sound : Sound fdes getFdeFromOffset fdeAt) :
    (∀ pc fde, answer fdes getFdeFromOffset pc = .ok fde →
      ∃ i < fdes.length, fde = fdeAt i ∧ (fdeAt i).pcStart ≤ pc ∧ pc < (fdeAt i).pcEnd) ∧
    (∀ pc, ∀ i < fdes.length, (fdeAt i).pcStart ≤ pc → pc < (fdeAt i).pcEnd →
      (∀ j < i, (fdeAt j).pcEnd ≠ pc) → answer fdes getFdeFromOffset pc = .ok (fdeAt i)) ∧
    (3 ≤ fdes.length →
      answer fdes getFdeFromOffset (fdeAt (fdes.length / 2)).pcEnd = DwarfSection.fail .illegalState) := by
  refine ⟨fun pc fde => answer_sound sound, fun pc i inside low high apart => ?_, answer_middle sound⟩
  rcases answer_inside sound inside low high with found | ⟨-, -, j, before, touch⟩
  · exact found
  · exact absurd touch (apart j before)

/-- Three functions without gaps. -/
def threeFde (i : Nat) : DwarfFde :=
  { pcStart := BitVec.ofNat 64 (4 * i), pcEnd := BitVec.ofNat 64 (4 * i + 4) }

def threeFdes : List (FdeInfo .uint64) := [⟨0, 0, 4⟩, ⟨1, 4, 8⟩, ⟨2, 8, 12⟩]

theorem sound_threeFdes : Sound threeFdes (fun offset => .ok (threeFde offset.toNat)) threeFde where
  nonempty := by decide
  order i j lt inside := by
    have all : ∀ j < 3, ∀ i < j, (threeFde i).pcEnd ≤ (threeFde j).pcStart := by decide
    exact all j inside i lt
  found := by decide
  start := by decide
  stops := by decide

/-- The third function has no FDE at its first address. -/
theorem getFdeFromPc_sorted_three :
    answer threeFdes (fun offset => .ok (threeFde offset.toNat)) 8 = DwarfSection.fail .illegalState :=
  (getFdeFromPc_sorted sound_threeFdes).2.2 (by decide)

end DwarfSectionImpl

/-! ## The table of an `.eh_frame_hdr` -/

namespace DwarfEhFrameWithHdr

open BinarySearch DwarfMemory Region

variable {h h' : DwarfEhFrameWithHdr a} {entries : List (HdrInfo a)} {pc : BitVec 64} {i : Nat}

/-- The table has these entries, in the order of their addresses. -/
structure Table (h : DwarfEhFrameWithHdr a) (entries : List (HdrInfo a)) : Prop where
  nonempty : h.fdeCount ≠ 0
  count : entries.length = h.fdeCount.toNat
  small : entries.length < h.memory.abi.modulus
  order : entries.Pairwise fun e f => e.pc < f.pc
  reads : ∀ i (inside : i < entries.length), ∃ c,
    readEntry a h.tableEncoding (h.entryMemory i) = (.ok entries[i], (h.entryMemory i).setCurOffset c)

/-- The entries that were read are those of the table. -/
structure Right (h : DwarfEhFrameWithHdr a) (entries : List (HdrInfo a)) : Prop where
  table : Table h entries
  kept : ∀ i info, h.fdeInfo.lookup i = some info → entries[i]? = some info

/-- What a lookup may change. -/
structure SameTable (h h' : DwarfEhFrameWithHdr a) : Prop where
  fdeCount : h'.fdeCount = h.fdeCount
  tableEncoding : h'.tableEncoding = h.tableEncoding
  abi : h'.memory.abi = h.memory.abi
  entryMemory : ∀ i, h'.entryMemory i = h.entryMemory i

theorem Table.same (table : Table h entries) (same : SameTable h h') : Table h' entries where
  nonempty := by rw [same.fdeCount]; exact table.nonempty
  count := by rw [same.fdeCount]; exact table.count
  small := by rw [same.abi]; exact table.small
  order := table.order
  reads i inside := by rw [same.entryMemory, same.tableEncoding]; exact table.reads i inside

/-- How an address stands to an entry. -/
def stand (entries : List (HdrInfo a)) (pc : BitVec 64) (i : Nat) : Ordering :=
  match entries[i]? with
  | none => .lt
  | some info => if pc = info.pc.setWidth 64 then .eq else if pc < info.pc.setWidth 64 then .lt else .gt

theorem stand_of_lt (inside : i < entries.length) :
    stand entries pc i =
      if pc = entries[i].pc.setWidth 64 then .eq
      else if pc < entries[i].pc.setWidth 64 then .lt else .gt := by
  rw [stand, List.getElem?_eq_getElem inside]

theorem stand_eq_iff (inside : i < entries.length) :
    stand entries pc i = .eq ↔ pc = entries[i].pc.setWidth 64 := by
  rw [stand_of_lt inside]
  split
  · next same => exact iff_of_true rfl same
  · next other =>
    refine iff_of_false ?_ other
    split <;> exact nofun

theorem stand_lt_iff (inside : i < entries.length) :
    stand entries pc i = .lt ↔ pc < entries[i].pc.setWidth 64 := by
  rw [stand_of_lt inside]
  split
  · next same => exact iff_of_false nofun (by rw [← same]; exact BitVec.lt_irrefl pc)
  · split
    · next below => exact iff_of_true rfl below
    · next above => exact iff_of_false nofun above

theorem stand_gt_iff (inside : i < entries.length) :
    stand entries pc i = .gt ↔ entries[i].pc.setWidth 64 < pc := by
  rw [stand_of_lt inside]
  split
  · next same => exact iff_of_false nofun (by rw [← same]; exact BitVec.lt_irrefl pc)
  · next other =>
    split
    · next below => exact iff_of_false nofun (BitVec.not_lt.mpr (BitVec.le_of_lt below))
    · next above =>
      refine iff_of_true rfl ?_
      rw [BitVec.not_lt, BitVec.le_def] at above
      exact Nat.lt_of_le_of_ne above fun same => other (BitVec.eq_of_toNat_eq same.symm)

theorem widen_lt {x y : BitVec a.bits} (lt : x < y) : x.setWidth 64 < y.setWidth 64 := by
  rw [BitVec.lt_def, DwarfCfa.toNat_widen, DwarfCfa.toNat_widen]
  exact lt

theorem rising (order : entries.Pairwise fun e f => e.pc < f.pc) {j : Nat} (lt : i < j)
    (inside : j < entries.length) : entries[i].pc.setWidth 64 < entries[j].pc.setWidth 64 :=
  widen_lt (List.pairwise_iff_getElem.mp order i j (by omega) inside lt)

/-- An `.eh_frame_hdr`: its encodings, the bytes of the pointer and of the count, and the rows. -/
structure Hdr where
  ptrEncoding : UInt8
  fdeCountEncoding : UInt8
  tableEncoding : UInt8
  ptr : Bytes
  fdeCount : Bytes
  rows : List (Bytes × Bytes)

/-- The bytes of the rows. -/
def encodeRows (rows : List (Bytes × Bytes)) : Bytes := rows.flatMap fun row => row.1 ++ row.2

/-- The bytes of the section. -/
def Hdr.encode (t : Hdr) : Bytes :=
  [1, t.ptrEncoding, t.fdeCountEncoding, t.tableEncoding] ++ (t.ptr ++ (t.fdeCount ++ encodeRows t.rows))

end DwarfEhFrameWithHdr

end Dolin.Unwindstack
