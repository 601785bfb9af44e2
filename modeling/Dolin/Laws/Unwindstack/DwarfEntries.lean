import Dolin.Laws.Unwindstack.FdeLookup
import Dolin.Unwindstack.DwarfEntries

/-!
# The scan and the full parse

`CreateSortedFdeList` reads of a CIE and an FDE only what the list needs, and it steps over what is in
between. What it lists is what the full parse of the same bytes gives, `scan_agrees`: on sections of any
content, as long as the augmentation names one encoding of addresses and a segment takes at most a byte.
-/

namespace Dolin.Unwindstack

open Region DwarfMemory

/-! ## Parses in sequence -/

namespace Parse

variable {α β : Type} {d d' : DwarfMemory}

/-- What a parse gives at the cursor. -/
def run (x : Parse α) (d : DwarfMemory) : Option (Except Halt (α × DwarfMemory)) := x d

/-- A parse that ended with a value, and the memory behind it. -/
def Gives (x : Parse α) (d : DwarfMemory) (v : α) (d' : DwarfMemory) : Prop := x.run d = some (.ok (v, d'))

theorem run_bind (x : Parse α) (f : α → Parse β) (d : DwarfMemory) :
    (x >>= f).run d =
      match x.run d with
      | none => none
      | some (.error halt) => some (.error halt)
      | some (.ok (v, d)) => (f v).run d := by
  change Option.bind (x.run d) _ = _
  cases x.run d with
  | none => rfl
  | some r => cases r <;> rfl

theorem gives_bind {x : Parse α} {f : α → Parse β} {w : β} :
    Gives (x >>= f) d w d' ↔ ∃ v e, Gives x d v e ∧ Gives (f v) e w d' := by
  unfold Gives
  rw [run_bind]
  cases x.run d with
  | none => simp
  | some r =>
    cases r with
    | error halt => simp
    | ok out =>
      obtain ⟨v, e⟩ := out
      simp

theorem gives_pure {v w : α} : Gives (pure v) d w d' ↔ v = w ∧ d = d' := by
  change some (Except.ok (v, d)) = some (Except.ok (w, d')) ↔ _
  simp

theorem gives_read {r : Read α} {v : α} : Gives (read r) d v d' ↔ r d = (.ok v, d') := by
  unfold Gives run read
  obtain ⟨o, e⟩ := r d
  cases o with
  | error fault => exact iff_of_false nofun nofun
  | ok w =>
    change some (Except.ok (w, e)) = some (Except.ok (v, d')) ↔ _
    simp

theorem gives_curOffset {o : BitVec 64} : Gives curOffset d o d' ↔ d.curOffset = o ∧ d = d' := by
  change some (Except.ok (d.curOffset, d)) = some (Except.ok (o, d')) ↔ _
  simp

theorem gives_setCurOffset {o : BitVec 64} {u : Unit} :
    Gives (setCurOffset o) d u d' ↔ d.setCurOffset o = d' := by
  change some (Except.ok ((), d.setCurOffset o)) = some (Except.ok (u, d')) ↔ _
  simp

theorem gives_skip {n : Nat} {u : Unit} : Gives (skip n) d u d' ↔ d.skip n = d' := by
  change some (Except.ok ((), d.skip n)) = some (Except.ok (u, d')) ↔ _
  simp

theorem not_gives_fail {code : DwarfErrorCode} {v : α} : ¬ Gives (fail code) d v d' := nofun

theorem not_gives_undefined {v : α} : ¬ Gives undefined d v d' := nofun

theorem not_gives_stuck {v : α} : ¬ Gives stuck d v d' := nofun

/-- What a parse gives is determined. -/
theorem Gives.unique {x : Parse α} {v w : α} {e : DwarfMemory} (h : Gives x d v d') (h' : Gives x d w e) :
    v = w ∧ d' = e := by
  have both := h.symm.trans h'
  rwa [Option.some.injEq, Except.ok.injEq, Prod.mk.injEq] at both

end Parse

/-! ## A CIE -/

namespace DwarfEhFrame

open Parse

variable {a : AddressType} {d d' : DwarfMemory} {turns : Nat} {cie cie' : DwarfCie} {cs : Bytes}

/-- The bytes of a number that is read are passed over. -/
theorem gives_skip_readLEB128 {left shift : Nat} {cur : BitVec 64} {r : BitVec 64 × Nat × UInt8}
    (read : readLEB128 left cur shift d = (.ok r, d')) (enough : left ≤ turns) :
    Gives (skipLEB128 turns) d () d' := by
  induction left generalizing cur shift turns d with
  | zero =>
    obtain ⟨byte, e, -, rest⟩ := Read.andThen_cases read
    cases rest
  | succ left ih =>
    obtain ⟨turns, rfl⟩ := Nat.exists_eq_succ_of_ne_zero (Nat.ne_of_gt (Nat.lt_of_lt_of_le
      (Nat.succ_pos left) enough))
    obtain ⟨byte, e, first, rest⟩ := Read.andThen_cases read
    rw [skipLEB128, gives_bind]
    refine ⟨byte, e, gives_read.mpr first, ?_⟩
    dsimp only at rest
    split at rest
    · next more =>
      rw [if_pos more]
      exact ih rest (Nat.le_of_succ_le_succ enough)
    · next last =>
      rw [if_neg last, gives_pure]
      cases rest
      exact ⟨rfl, rfl⟩

theorem gives_skip_readULEB128 {v : BitVec 64} (read : readULEB128 d = (.ok v, d')) (enough : 10 ≤ turns) :
    Gives (skipLEB128 turns) d () d' := by
  obtain ⟨r, first, -⟩ := Read.map_cases read
  exact gives_skip_readLEB128 first enough

theorem gives_skip_readSLEB128 {v : BitVec 64} (read : readSLEB128 d = (.ok v, d')) (enough : 10 ≤ turns) :
    Gives (skipLEB128 turns) d () d' := by
  obtain ⟨⟨value, shift, byte⟩, e, first, rest⟩ := Read.andThen_cases read
  have same : e = d' := by
    dsimp only at rest
    split at rest
    · split at rest
      · cases rest
        rfl
      · cases rest
    · cases rest
      rfl
  exact gives_skip_readLEB128 (same ▸ first) enough

theorem readByte_skip {b : UInt8} (read : readByte d = (.ok b, d')) : d' = d.skip 1 := by
  obtain ⟨bs, bytes, -⟩ := Read.map_cases read
  exact (readBytes_cases bytes).1

/-- Without an `R` in the string the encoding of the addresses stays. -/
theorem encoding_of_not_mem (none' : chR ∉ cs) (gives : Gives (readAugmentationData a cie cs) d cie' d') :
    cie'.fdeAddressEncoding = cie.fdeAddressEncoding := by
  induction cs generalizing cie d with
  | nil =>
    obtain ⟨rfl, -⟩ := gives_pure.mp gives
    rfl
  | cons c cs ih =>
    obtain ⟨other, none'⟩ := not_or.mp (mt List.mem_cons.mpr none')
    rw [readAugmentationData] at gives
    split at gives
    · obtain ⟨lsda, e, -, rest⟩ := gives_bind.mp gives
      have kept := ih none' rest
      exact kept
    split at gives
    · obtain ⟨encoding, e, -, rest⟩ := gives_bind.mp gives
      obtain ⟨personality, e', -, rest⟩ := gives_bind.mp rest
      have kept := ih none' rest
      exact kept
    split at gives
    · next same => exact absurd same.symm other
    · exact ih none' gives

/-- What the augmentation leaves of a CIE. -/
theorem segmentSize_augmentation (gives : Gives (readAugmentationData a cie cs) d cie' d') :
    cie'.segmentSize = cie.segmentSize ∧ cie'.augmentationString = cie.augmentationString := by
  induction cs generalizing cie d with
  | nil =>
    obtain ⟨rfl, -⟩ := gives_pure.mp gives
    exact ⟨rfl, rfl⟩
  | cons c cs ih =>
    rw [readAugmentationData] at gives
    split at gives
    · obtain ⟨lsda, e, -, rest⟩ := gives_bind.mp gives
      have kept := ih rest
      exact kept
    split at gives
    · obtain ⟨encoding, e, -, rest⟩ := gives_bind.mp gives
      obtain ⟨personality, e', -, rest⟩ := gives_bind.mp rest
      have kept := ih rest
      exact kept
    split at gives
    · obtain ⟨encoding, e, -, rest⟩ := gives_bind.mp gives
      have kept := ih rest
      exact kept
    · exact ih gives

/-- The encoding that the scan looks for is the one that the full parse keeps. -/
theorem findEncoding_agrees (mem : chR ∈ cs) (once : cs.count chR ≤ 1)
    (gives : Gives (readAugmentationData a cie cs) d cie' d') :
    ∃ e, Gives (findEncoding a cs) d cie'.fdeAddressEncoding e := by
  induction cs generalizing cie d with
  | nil => exact absurd mem List.not_mem_nil
  | cons c cs ih =>
    rw [readAugmentationData] at gives
    rw [findEncoding]
    by_cases isR : c = chR
    · subst isR
      rw [if_neg (by decide), if_neg (by decide), if_pos rfl] at gives
      obtain ⟨encoding, e, first, rest⟩ := gives_bind.mp gives
      rw [List.count_cons_self] at once
      have none' : chR ∉ cs := List.count_eq_zero.mp (by omega)
      rw [if_pos rfl, encoding_of_not_mem none' rest]
      exact ⟨e, first⟩
    · have mem : chR ∈ cs := (List.mem_cons.mp mem).resolve_left (Ne.symm isR)
      rw [List.count_cons_of_ne isR] at once
      rw [if_neg isR]
      split at gives
      · next isL =>
        obtain ⟨lsda, e, first, rest⟩ := gives_bind.mp gives
        obtain ⟨e', found⟩ := ih mem once rest
        rw [if_pos isL]
        exact ⟨e', gives_bind.mpr ⟨(), e, gives_skip.mpr (readByte_skip (gives_read.mp first)).symm, found⟩⟩
      split at gives
      · next notL isP =>
        obtain ⟨encoding, e, first, rest⟩ := gives_bind.mp gives
        obtain ⟨personality, e', second, rest⟩ := gives_bind.mp rest
        obtain ⟨e'', found⟩ := ih mem once rest
        rw [if_neg notL, if_pos isP]
        exact ⟨e'', gives_bind.mpr ⟨encoding, e, first, gives_bind.mpr ⟨personality, e', second, found⟩⟩⟩
      · next notL notP =>
        rw [if_neg notL, if_neg notP]
        exact ih mem once gives

theorem gives_skipReturnAddressRegister {version : UInt8} {register : BitVec 64} (enough : 10 ≤ turns)
    (gives : Gives (readReturnAddressRegister version) d register d') :
    Gives (skipReturnAddressRegister turns version) d () d' := by
  unfold readReturnAddressRegister at gives
  unfold skipReturnAddressRegister
  split at gives
  · next one =>
    obtain ⟨byte, first, -⟩ := Read.map_cases (gives_read.mp gives)
    rw [if_pos one]
    exact gives_skip.mpr (readByte_skip first).symm
  · next later =>
    rw [if_neg later]
    exact gives_skip_readULEB128 (gives_read.mp gives) enough

/-- **A CIE, scanned and parsed.** The scan finds the size of a segment and the encoding of the addresses
that the full parse keeps. -/
theorem getCieInfo_agrees (enough : 10 ≤ turns) (gives : Gives (fillInCieBody a turns cie) d cie' d')
    (once : cie'.augmentationString.count chR ≤ 1) :
    ∃ e, Gives (getCieInfo a turns cie.fdeAddressEncoding) d (cie'.segmentSize, cie'.fdeAddressEncoding) e := by
  obtain ⟨version, e₁, readVersion, gives⟩ := gives_bind.mp gives
  split at gives
  · exact absurd gives not_gives_fail
  obtain ⟨augmentation, e₂, readString, gives⟩ := gives_bind.mp gives
  obtain ⟨segmentSize, e₃, readSegment, gives⟩ := gives_bind.mp gives
  obtain ⟨code, e₄, readCode, gives⟩ := gives_bind.mp gives
  obtain ⟨data, e₅, readData, gives⟩ := gives_bind.mp gives
  obtain ⟨register, e₆, readRegister, gives⟩ := gives_bind.mp gives
  suffices rest : ∃ e, Gives (if augmentation.headD 0 ≠ chZ ∨ chR ∉ augmentation then
      pure (segmentSize, cie.fdeAddressEncoding)
      else do
        skipLEB128 turns
        skipLEB128 turns
        skipReturnAddressRegister turns version
        skipLEB128 turns
        let encoding ← findEncoding a augmentation.tail
        pure (segmentSize, encoding)) e₃ (cie'.segmentSize, cie'.fdeAddressEncoding) e by
    obtain ⟨e, rest⟩ := rest
    exact ⟨e, gives_bind.mpr ⟨version, e₁, readVersion, gives_bind.mpr ⟨augmentation, e₂, readString,
      gives_bind.mpr ⟨segmentSize, e₃, readSegment, rest⟩⟩⟩⟩
  dsimp only at gives
  split at gives
  · next other =>
    obtain ⟨offset, e₇, -, gives⟩ := gives_bind.mp gives
    obtain ⟨rfl, -⟩ := gives_pure.mp gives
    exact ⟨e₃, by rw [if_pos (.inl other)]; exact gives_pure.mpr ⟨rfl, rfl⟩⟩
  · next isZ =>
    obtain ⟨augLength, e₇, readLength, gives⟩ := gives_bind.mp gives
    obtain ⟨offset, e₈, here, gives⟩ := gives_bind.mp gives
    obtain ⟨-, rfl⟩ := gives_curOffset.mp here
    obtain ⟨segment, string⟩ := segmentSize_augmentation gives
    dsimp only at segment string
    rw [string] at once
    rw [segment]
    obtain ⟨cs, rfl⟩ : ∃ cs, augmentation = chZ :: cs := by
      cases augmentation with
      | nil => exact absurd isZ (by decide)
      | cons c cs => exact ⟨cs, congrArg (· :: cs) (not_not.mp isZ)⟩
    by_cases names : chR ∈ chZ :: cs
    · rw [if_neg (not_or.mpr ⟨isZ, not_not_intro names⟩)]
      rw [List.count_cons_of_ne (by decide)] at once
      obtain ⟨e, found⟩ := findEncoding_agrees ((List.mem_cons.mp names).resolve_left (by decide)) once gives
      exact ⟨e, gives_bind.mpr ⟨(), e₄, gives_skip_readULEB128 (gives_read.mp readCode) enough,
        gives_bind.mpr ⟨(), e₅, gives_skip_readSLEB128 (gives_read.mp readData) enough,
        gives_bind.mpr ⟨(), e₆, gives_skipReturnAddressRegister enough readRegister,
        gives_bind.mpr ⟨(), e₇, gives_skip_readULEB128 (gives_read.mp readLength) enough,
        gives_bind.mpr ⟨_, e, found, gives_pure.mpr ⟨rfl, rfl⟩⟩⟩⟩⟩⟩⟩
    · rw [if_pos (.inr names)]
      have kept := encoding_of_not_mem (fun mem => names (List.mem_cons_of_mem _ mem)) gives
      exact ⟨e₃, gives_pure.mpr ⟨congrArg (segmentSize, ·) kept.symm, rfl⟩⟩

end DwarfEhFrame

/-! ## Nothing but the cursor moves -/

/-- A memory but for its cursor. -/
def DwarfMemory.ground (d : DwarfMemory) : DwarfMemory := d.setCurOffset 0

theorem DwarfMemory.setCurOffset_congr {d d' : DwarfMemory} (same : d.ground = d'.ground) (o : BitVec 64) :
    d.setCurOffset o = d'.setCurOffset o :=
  congrArg (·.setCurOffset o) same

/-- A reader moves the cursor and nothing else. -/
def Read.Moves {α : Type} (r : Read α) : Prop := ∀ d, (r d).2.ground = d.ground

namespace Read

variable {α β : Type} {r : Read α}

theorem moves_pure (v : α) : Moves (Read.pure v) := fun _ => rfl

theorem moves_fail (fault : Fault) : Moves (Read.fail fault : Read α) := fun _ => rfl

theorem Moves.andThen {f : α → Read β} (first : r.Moves) (next : ∀ v, (f v).Moves) :
    (r.andThen f).Moves := by
  intro d
  have moved := first d
  unfold Read.andThen
  generalize r d = out at moved ⊢
  obtain ⟨o, e⟩ := out
  cases o with
  | error fault => exact moved
  | ok v => exact (next v e).trans moved

theorem Moves.map (first : r.Moves) (f : α → β) : (r.map f).Moves := first.andThen fun v => moves_pure (f v)

end Read

namespace DwarfMemory

open Read

theorem moves_readBytes (n : Nat) : (readBytes n).Moves := by
  intro d
  unfold readBytes
  split <;> rfl

theorem moves_readByte : readByte.Moves := (moves_readBytes 1).map _

theorem moves_readLEB128 (left : Nat) (cur : BitVec 64) (shift : Nat) : (readLEB128 left cur shift).Moves := by
  induction left generalizing cur shift with
  | zero => exact moves_readByte.andThen fun _ => moves_fail _
  | succ left ih =>
    refine moves_readByte.andThen fun byte => ?_
    dsimp only
    split
    · exact ih _ _
    · exact moves_pure _

theorem moves_readULEB128 : readULEB128.Moves := (moves_readLEB128 10 0 0).map _

theorem moves_readSLEB128 : readSLEB128.Moves := by
  refine (moves_readLEB128 10 0 0).andThen fun (curValue, shift, byte) => ?_
  dsimp only
  split
  · split
    · exact moves_pure _
    · exact moves_fail _
  · exact moves_pure _

theorem moves_readFormat (a : AddressType) (form : Format) : (readFormat a form).Moves := by
  cases form with
  | uleb128 => exact moves_readULEB128
  | sleb128 => exact moves_readSLEB128
  | absptr | udata1 | udata2 | udata4 | udata8 | sdata1 | sdata2 | sdata4 | sdata8 =>
    exact (moves_readBytes _).map _

theorem moves_relativeTo (offset value : BitVec 64) : (relativeTo offset value).Moves := by
  unfold relativeTo
  split
  · exact moves_fail _
  · exact moves_pure _

theorem moves_adjustEncodedValue (encoding : UInt8) (value : BitVec 64) :
    (adjustEncodedValue encoding value).Moves := by
  intro d
  unfold adjustEncodedValue
  split
  · rfl
  · exact moves_relativeTo _ _ d
  · exact moves_relativeTo _ _ d
  · exact moves_relativeTo _ _ d
  · exact moves_relativeTo _ _ d
  · rfl
  · rfl

theorem moves_readEncodedValue (a : AddressType) (encoding : UInt8) : (readEncodedValue a encoding).Moves := by
  unfold readEncodedValue
  split
  · exact moves_pure _
  split
  · refine Moves.andThen (fun d => ?_) fun _ => (moves_readBytes _).map _
    unfold align
    dsimp only
    split <;> rfl
  split
  · exact moves_fail _
  · exact (moves_readFormat a _).andThen fun _ => moves_adjustEncodedValue _ _

end DwarfMemory

namespace Parse

variable {α β : Type}

/-- A parse moves the cursor and nothing else. -/
def Moves (x : Parse α) : Prop := ∀ d v d', Gives x d v d' → d'.ground = d.ground

theorem moves_bind {x : Parse α} {f : α → Parse β} (first : x.Moves) (next : ∀ v, (f v).Moves) :
    Moves (x >>= f) := by
  intro d w d' gives
  obtain ⟨v, e, gives, rest⟩ := gives_bind.mp gives
  exact (next v e w d' rest).trans (first d v e gives)

theorem moves_pure (v : α) : Moves (pure v : Parse α) := by
  intro d w d' gives
  rw [(gives_pure.mp gives).2]

theorem moves_read {r : Read α} (moves : r.Moves) : Moves (read r) := by
  intro d v d' gives
  have moved := moves d
  rwa [gives_read.mp gives] at moved

theorem moves_curOffset : Moves curOffset := by
  intro d v d' gives
  rw [(gives_curOffset.mp gives).2]

theorem moves_setCurOffset (o : BitVec 64) : Moves (setCurOffset o) := by
  intro d v d' gives
  rw [← gives_setCurOffset.mp gives]
  rfl

theorem moves_skip (n : Nat) : Moves (skip n) := by
  intro d v d' gives
  rw [← gives_skip.mp gives]
  rfl

theorem moves_fail (code : DwarfErrorCode) : Moves (fail code : Parse α) :=
  fun _ _ _ gives => absurd gives not_gives_fail

theorem moves_undefined : Moves (undefined : Parse α) := fun _ _ _ gives => absurd gives not_gives_undefined

theorem moves_stuck : Moves (stuck : Parse α) := fun _ _ _ gives => absurd gives not_gives_stuck

end Parse

namespace DwarfEhFrame

open Parse

variable {a : AddressType} {d d' : DwarfMemory} {turns : Nat} {cie cie' : DwarfCie} {cs : Bytes}

theorem moves_readHead : Moves readHead := by
  refine moves_bind (moves_read ((moves_readBytes 4).map _)) fun length32 => ?_
  split
  · refine moves_bind (moves_read ((moves_readBytes 8).map _)) fun _ => moves_bind moves_curOffset fun _ => ?_
    exact moves_bind (moves_read ((moves_readBytes 8).map _)) fun _ => moves_pure _
  · refine moves_bind moves_curOffset fun _ => ?_
    exact moves_bind (moves_read ((moves_readBytes 4).map _)) fun _ => moves_pure _

theorem moves_readAugmentation (turns : Nat) : Moves (readAugmentation turns) := by
  induction turns with
  | zero => exact moves_stuck
  | succ turns ih =>
    refine moves_bind (moves_read moves_readByte) fun value => ?_
    split
    · exact moves_pure _
    · exact moves_bind ih fun _ => moves_pure _

theorem moves_readSegmentSize (version : UInt8) : Moves (readSegmentSize version) := by
  unfold readSegmentSize
  split
  · exact moves_bind (moves_skip 1) fun _ => moves_read moves_readByte
  · exact moves_pure _

theorem moves_skipLEB128 (turns : Nat) : Moves (skipLEB128 turns) := by
  induction turns with
  | zero => exact moves_stuck
  | succ turns ih =>
    refine moves_bind (moves_read moves_readByte) fun value => ?_
    split
    · exact ih
    · exact moves_pure _

theorem moves_findEncoding (cs : Bytes) : Moves (findEncoding a cs) := by
  induction cs with
  | nil => exact fun _ _ _ gives => nomatch gives
  | cons c cs ih =>
    unfold findEncoding
    split
    · exact moves_read moves_readByte
    split
    · exact moves_bind (moves_skip 1) fun _ => ih
    split
    · refine moves_bind (moves_read moves_readByte) fun _ => ?_
      exact moves_bind (moves_read (moves_readEncodedValue a _)) fun _ => ih
    · exact ih

theorem moves_getCieInfo (turns : Nat) (encoding : UInt8) : Moves (getCieInfo a turns encoding) := by
  refine moves_bind (moves_read moves_readByte) fun version => ?_
  refine moves_bind (moves_readAugmentation turns) fun augString => ?_
  refine moves_bind (moves_readSegmentSize version) fun segmentSize => ?_
  split
  · exact moves_pure _
  · refine moves_bind (moves_skipLEB128 turns) fun _ => moves_bind (moves_skipLEB128 turns) fun _ => ?_
    refine moves_bind ?_ fun _ => moves_bind (moves_skipLEB128 turns) fun _ => ?_
    · unfold skipReturnAddressRegister
      split
      · exact moves_skip 1
      · exact moves_skipLEB128 turns
    · exact moves_bind (moves_findEncoding _) fun _ => moves_pure _

theorem moves_readRange (encoding : UInt8) : Moves (readRange a encoding) := by
  refine moves_bind (moves_read (moves_readEncodedValue a _)) fun start => ?_
  refine moves_bind (moves_bind moves_curOffset fun _ => moves_pure _) fun _ => ?_
  exact moves_bind (moves_read (moves_readEncodedValue a _)) fun _ => moves_pure _

theorem moves_readAugmentationData (cs : Bytes) (cie : DwarfCie) : Moves (readAugmentationData a cie cs) := by
  induction cs generalizing cie with
  | nil => exact moves_pure _
  | cons c cs ih =>
    unfold readAugmentationData
    split
    · exact moves_bind (moves_read moves_readByte) fun _ => ih _
    split
    · refine moves_bind (moves_read moves_readByte) fun _ => ?_
      exact moves_bind (moves_read (moves_readEncodedValue a _)) fun _ => ih _
    split
    · exact moves_bind (moves_read moves_readByte) fun _ => ih _
    · exact ih _

theorem moves_fillInCieBody (turns : Nat) (cie : DwarfCie) : Moves (fillInCieBody a turns cie) := by
  refine moves_bind (moves_read moves_readByte) fun version => ?_
  split
  · exact moves_fail _
  refine moves_bind (moves_readAugmentation turns) fun augmentation => ?_
  refine moves_bind (moves_readSegmentSize version) fun segmentSize => ?_
  refine moves_bind (moves_read moves_readULEB128) fun code => ?_
  refine moves_bind (moves_read moves_readSLEB128) fun data => ?_
  refine moves_bind ?_ fun register => ?_
  · unfold readReturnAddressRegister
    split
    · exact moves_read (moves_readByte.map _)
    · exact moves_read moves_readULEB128
  dsimp only
  split
  · exact moves_bind moves_curOffset fun _ => moves_pure _
  · refine moves_bind (moves_read moves_readULEB128) fun _ => moves_bind moves_curOffset fun _ => ?_
    exact moves_readAugmentationData _ _

theorem moves_addFdeInfo (entryOffset : BitVec 64) (segmentSize encoding : UInt8) :
    Moves (addFdeInfo a entryOffset segmentSize encoding) := by
  refine moves_bind (moves_skip _) fun _ => moves_bind (moves_readRange encoding) fun range => ?_
  dsimp only
  split <;> exact moves_pure _

theorem moves_scanEntry (turns : Nat) (last : Option LastCie) : Moves (scanEntry a turns last) := by
  refine moves_bind moves_curOffset fun entryOffset => moves_bind moves_readHead fun head => ?_
  split
  · exact moves_bind (moves_getCieInfo turns _) fun _ => moves_pure _
  · refine moves_bind moves_curOffset fun offset => ?_
    split
    · exact moves_fail _
    · split
      · exact moves_undefined
      · exact moves_bind (moves_addFdeInfo _ _ _) fun _ => moves_pure _

theorem moves_scan (turns : Nat) (entriesEnd : BitVec 64) (left : Nat) (last : Option LastCie)
    (fdes : List (FdeInfo a)) : Moves (scan a turns entriesEnd left last fdes) := by
  induction left generalizing last fdes with
  | zero => exact moves_stuck
  | succ left ih =>
    refine moves_bind moves_curOffset fun offset => ?_
    split
    · refine moves_bind (moves_scanEntry turns last) fun (head, last, infos) => ?_
      refine moves_bind moves_curOffset fun offset => ?_
      split
      · exact moves_pure _
      · exact moves_bind (moves_setCurOffset _) fun _ => ih _ _
    · exact moves_pure _

/-! ## The list of a section -/

variable {m : DwarfMemory} {last last' : Option LastCie} {fdes infos : List (FdeInfo a)} {head : Head}
  {fde : DwarfFde} {info : FdeInfo a}

/-- What the scan knows of a CIE, it has read there. -/
structure CieRead (a : AddressType) (m : DwarfMemory) (turns : Nat) (cie : LastCie) : Prop where
  reads : ∃ head d d', Gives readHead (m.setCurOffset cie.offset) head d ∧ head.id = 0 ∧
    Gives (getCieInfo a turns head.addressEncoding) d (cie.segmentSize, cie.encoding) d'

/-- An FDE of the list was read at its offset, with what the scan knew of its CIE. -/
structure Scanned (m : DwarfMemory) (turns : Nat) (info : FdeInfo a) (cie : LastCie) : Prop where
  known : CieRead a m turns cie
  reads : ∃ head d start length d', Gives readHead (m.setCurOffset info.offset) head d ∧ head.id ≠ 0 ∧
    head.cieOffset d.curOffset = cie.offset ∧
    Gives (readRange a cie.encoding) (d.skip (if cie.segmentSize ≠ 0 then 1 else 0)) (start, length) d' ∧
    length ≠ 0 ∧ info.start = start.setWidth a.bits ∧ info.end_ = (start + length).setWidth a.bits

/-- The scan read an FDE of the list. -/
def Listed (m : DwarfMemory) (turns : Nat) (info : FdeInfo a) : Prop := ∃ cie, Scanned m turns info cie

/-- **An entry of the scan**: what it knows and lists was read. -/
theorem scanEntry_reads (ground : d.ground = m.ground)
    (known : ∀ cie, last = some cie → CieRead a m turns cie)
    (gives : Gives (scanEntry a turns last) d (head, last', infos) d') :
    (∀ cie, last' = some cie → CieRead a m turns cie) ∧ ∀ info ∈ infos, Listed m turns info := by
  obtain ⟨entryOffset, e, here, gives⟩ := gives_bind.mp gives
  obtain ⟨rfl, rfl⟩ := gives_curOffset.mp here
  obtain ⟨head', e₁, readHead', gives⟩ := gives_bind.mp gives
  have there : m.setCurOffset d.curOffset = d := DwarfMemory.setCurOffset_congr ground.symm d.curOffset
  split at gives
  · next isCie =>
    obtain ⟨⟨segmentSize, encoding⟩, e₂, readInfo, gives⟩ := gives_bind.mp gives
    obtain ⟨out, -⟩ := gives_pure.mp gives
    cases out
    refine ⟨?_, nofun⟩
    rintro cie ⟨⟩
    exact ⟨_, e₁, e₂, there.symm ▸ readHead', isCie, readInfo⟩
  · next isFde =>
    obtain ⟨offset, e₂, here, gives⟩ := gives_bind.mp gives
    obtain ⟨rfl, rfl⟩ := gives_curOffset.mp here
    split at gives
    · exact absurd gives not_gives_fail
    next same =>
    cases last with
    | none => exact absurd gives not_gives_undefined
    | some cie =>
      obtain ⟨infos', e₃, added, gives⟩ := gives_bind.mp gives
      obtain ⟨out, -⟩ := gives_pure.mp gives
      cases out
      refine ⟨known, fun info mem => ?_⟩
      obtain ⟨_, e₄, skipped, added⟩ := gives_bind.mp added
      obtain rfl := gives_skip.mp skipped
      obtain ⟨⟨start, length⟩, e₅, range, added⟩ := gives_bind.mp added
      dsimp only at added
      split at added
      · next nonempty =>
        obtain ⟨rfl, -⟩ := gives_pure.mp added
        obtain rfl := List.mem_singleton.mp mem
        exact ⟨cie, known cie rfl, _, _, start, length, _, there.symm ▸ readHead', isFde, not_not.mp same,
          range, nonempty, rfl, rfl⟩
      · obtain ⟨rfl, -⟩ := gives_pure.mp added
        exact absurd mem List.not_mem_nil

/-- **The loop of the scan** lists FDEs that were read. -/
theorem scan_reads {entriesEnd : BitVec 64} {left : Nat} {out : List (FdeInfo a)} (ground : d.ground = m.ground)
    (known : ∀ cie, last = some cie → CieRead a m turns cie) (listed : ∀ info ∈ fdes, Listed m turns info)
    (gives : Gives (scan a turns entriesEnd left last fdes) d out d') :
    ∀ info ∈ out, Listed m turns info := by
  induction left generalizing last fdes d with
  | zero => exact absurd gives not_gives_stuck
  | succ left ih =>
    obtain ⟨offset, e, here, gives⟩ := gives_bind.mp gives
    obtain ⟨-, rfl⟩ := gives_curOffset.mp here
    split at gives
    · obtain ⟨⟨head, last', infos⟩, e₁, entry, gives⟩ := gives_bind.mp gives
      obtain ⟨known', listed'⟩ := scanEntry_reads ground known entry
      have ground' : e₁.ground = m.ground := (moves_scanEntry turns last d _ e₁ entry).trans ground
      have all : ∀ info ∈ fdes ++ infos, Listed m turns info := fun info mem =>
        (List.mem_append.mp mem).elim (listed info) (listed' info)
      obtain ⟨offset', e₂, here, gives⟩ := gives_bind.mp gives
      obtain ⟨-, rfl⟩ := gives_curOffset.mp here
      split at gives
      · obtain ⟨rfl, rfl⟩ := gives_pure.mp gives
        exact all
      · obtain ⟨_, e₃, moved, gives⟩ := gives_bind.mp gives
        obtain rfl := gives_setCurOffset.mp moved
        have moved' : (e₁.setCurOffset head.end_).ground = m.ground := ground'
        exact ih moved' known' all gives
    · obtain ⟨rfl, -⟩ := gives_pure.mp gives
      exact listed

theorem segment_cases {segment : UInt8} (small : segment ≤ 1) : segment = 0 ∨ segment = 1 := by
  have bound : segment.toNat ≤ 1 := UInt8.le_iff_toNat_le.mp small
  rcases Nat.le_one_iff_eq_zero_or_eq_one.mp bound with zero | one
  · exact .inl (UInt8.toNat_inj.mp zero)
  · exact .inr (UInt8.toNat_inj.mp one)

/-- What the scan has of an FDE and of its CIE is what the full parse has. -/
structure Agrees (info : FdeInfo a) (cie : LastCie) (fde : DwarfFde) : Prop where
  cieOffset : cie.offset = fde.cieOffset
  segmentSize : cie.segmentSize = fde.cie.segmentSize
  encoding : cie.encoding = fde.cie.fdeAddressEncoding
  start : info.start = fde.pcStart.setWidth a.bits
  end_ : info.end_ = fde.pcEnd.setWidth a.bits

/-- **An FDE of the list, scanned and read in full.** -/
theorem Scanned.agrees {cie : LastCie} (scanned : Scanned m turns info cie) (enough : 10 ≤ turns)
    (ground : d.ground = m.ground) (full : Gives (getFdeFromOffset a turns info.offset) d fde d')
    (once : fde.cie.augmentationString.count chR ≤ 1) (segment : fde.cie.segmentSize ≤ 1) :
    Agrees info cie fde := by
  obtain ⟨head, e, start, length, e', readHead', isFde, back, range, -, startIs, endIs⟩ := scanned.reads
  obtain ⟨head₂, e₂, e₃, readCie, isCie, quick⟩ := scanned.known.reads
  obtain ⟨_, f, moved, full⟩ := gives_bind.mp full
  obtain rfl := gives_setCurOffset.mp moved
  rw [DwarfMemory.setCurOffset_congr ground] at full
  obtain ⟨head', f₁, readHead'', full⟩ := gives_bind.mp full
  obtain ⟨rfl, rfl⟩ := readHead''.unique readHead'
  rw [if_neg isFde] at full
  obtain ⟨offset, f₂, here, full⟩ := gives_bind.mp full
  obtain ⟨rfl, rfl⟩ := gives_curOffset.mp here
  have ground₁ : f₁.ground = m.ground := moves_readHead (m.setCurOffset info.offset) head' f₁ readHead'
  dsimp only at full
  obtain ⟨_, f₃, moved, full⟩ := gives_bind.mp full
  obtain rfl := gives_setCurOffset.mp moved
  obtain ⟨cie', f₄, parsed, full⟩ := gives_bind.mp full
  rw [DwarfMemory.setCurOffset_congr ground₁, back] at parsed
  obtain ⟨head₃, f₅, readCie', parsed⟩ := gives_bind.mp parsed
  obtain ⟨rfl, rfl⟩ := readCie'.unique readCie
  rw [if_neg (not_not_intro isCie)] at parsed
  obtain ⟨_, f₆, moved, full⟩ := gives_bind.mp full
  obtain rfl := gives_setCurOffset.mp moved
  obtain ⟨⟨pcStart, length'⟩, f₇, range', full⟩ := gives_bind.mp full
  obtain ⟨lsda, f₈, -, full⟩ := gives_bind.mp full
  obtain ⟨instructions, f₉, -, full⟩ := gives_bind.mp full
  obtain ⟨rfl, -⟩ := gives_pure.mp full
  dsimp only at once segment ⊢
  obtain ⟨f, quick'⟩ := getCieInfo_agrees enough parsed once
  obtain ⟨same, -⟩ := quick'.unique quick
  obtain ⟨size, encoding⟩ := Prod.mk.inj same
  rw [← size, ← encoding] at range
  have start' : f₁.skip (if cie'.segmentSize ≠ 0 then 1 else 0) =
      f₄.setCurOffset (f₁.curOffset + BitVec.ofNat 64 cie'.segmentSize.toNat) := by
    have moved' : f₄.ground = f₁.ground := (moves_fillInCieBody turns _ f₅ _ f₄ parsed).trans
      ((moves_readHead (m.setCurOffset cie.offset) head₃ f₅ readCie').trans ground₁.symm)
    rw [DwarfMemory.setCurOffset_congr moved', DwarfMemory.skip]
    rcases segment_cases segment with zero | one
    · rw [zero]
      rfl
    · rw [one]
      rfl
  rw [start'] at range
  obtain ⟨same, -⟩ := range'.unique range
  obtain ⟨rfl, rfl⟩ := Prod.mk.inj same
  exact ⟨back.symm, size.symm, encoding.symm, startIs, endIs.trans (congrArg _ (BitVec.add_comm _ _))⟩

theorem precedes_trans (x y z : FdeInfo a) (first : precedes a x y) (second : precedes a y z) :
    precedes a x z := by
  unfold precedes at *
  simp only [BitVec.toNat_eq, BitVec.le_def, BitVec.lt_def] at *
  split at first <;> split at second <;> simp only [decide_eq_true_eq] at first second <;>
    split <;> simp only [decide_eq_true_eq] <;> omega

theorem precedes_total (x y : FdeInfo a) : precedes a x y || precedes a y x := by
  unfold precedes
  simp only [BitVec.toNat_eq, BitVec.le_def, BitVec.lt_def, Bool.or_eq_true]
  split <;> split <;> simp only [decide_eq_true_eq] <;> omega

theorem init_reads {memory : DwarfMemory} {offset size : BitVec 64}
    (done : init a memory turns offset size = some (.ok (fdes, d))) :
    fdes.Pairwise (fun x y => precedes a x y) ∧ ∀ info ∈ fdes, Listed d turns info := by
  obtain ⟨listed, e, scanned, sorted⟩ := gives_bind.mp done
  obtain ⟨rfl, rfl⟩ := gives_pure.mp sorted
  have reads := scan_reads (m := e) (moves_scan _ _ _ _ _ _ _ _ scanned).symm
    (fun cie known => absurd known.symm (Option.some_ne_none cie)) (fun _ mem => absurd mem List.not_mem_nil)
    scanned
  refine ⟨List.pairwise_mergeSort precedes_trans precedes_total listed, fun info mem => ?_⟩
  exact reads info (List.mem_mergeSort.mp mem)

/-! ## The FDE for an address -/

/-- The section behind a list: each FDE of the list can be read in full, its CIE names one encoding of
addresses and has at most a byte for a segment, its addresses fit, and no two of them overlap. -/
structure Laid (d : DwarfMemory) (turns : Nat) (fdes : List (FdeInfo a)) (fdeAt : BitVec 64 → DwarfFde) :
    Prop where
  parses : ∀ info ∈ fdes, ∃ d', Gives (getFdeFromOffset a turns info.offset) d (fdeAt info.offset) d'
  once : ∀ info ∈ fdes, (fdeAt info.offset).cie.augmentationString.count chR ≤ 1
  segment : ∀ info ∈ fdes, (fdeAt info.offset).cie.segmentSize ≤ 1
  nonempty : ∀ info ∈ fdes, (fdeAt info.offset).pcStart < (fdeAt info.offset).pcEnd
  fits : ∀ info ∈ fdes, (fdeAt info.offset).pcEnd.toNat < 2 ^ a.bits
  apart : fdes.Pairwise fun x y => (fdeAt x.offset).pcEnd ≤ (fdeAt y.offset).pcStart ∨
    (fdeAt y.offset).pcEnd ≤ (fdeAt x.offset).pcStart

/-- What the full parse at an offset ends with. -/
def parsed (a : AddressType) (turns : Nat) (d : DwarfMemory) (offset : BitVec 64) : Except Halt DwarfFde :=
  match (getFdeFromOffset a turns offset).run d with
  | some (.ok (fde, _)) => .ok fde
  | some (.error halt) => .error halt
  | none => .error .aborted

variable {memory : DwarfMemory} {offset size pc : BitVec 64} {fdeAt : BitVec 64 → DwarfFde}

theorem widen_eq {v : BitVec a.bits} {w : BitVec 64} (same : v.toNat = w.toNat) : v.setWidth 64 = w := by
  apply BitVec.eq_of_toNat_eq
  rw [BitVec.toNat_setWidth, same, Nat.mod_eq_of_lt w.isLt]

theorem start_le {x y : FdeInfo a} (before : precedes a x y) : x.start.toNat ≤ y.start.toNat := by
  unfold precedes at before
  split at before
  · next same => exact Nat.le_of_eq (congrArg BitVec.toNat same)
  · exact Nat.le_of_lt (of_decide_eq_true before)

theorem infoAt_eq {i : Nat} (inside : i < fdes.length) : DwarfSectionImpl.infoAt fdes i = fdes[i] := by
  rw [DwarfSectionImpl.infoAt, List.getD_eq_getElem?_getD, List.getElem?_eq_getElem inside]
  rfl

theorem infoAt_mem {i : Nat} (inside : i < fdes.length) : DwarfSectionImpl.infoAt fdes i ∈ fdes := by
  rw [infoAt_eq inside]
  exact List.getElem_mem inside

theorem at_pairwise {R : FdeInfo a → FdeInfo a → Prop} {i j : Nat} (pairs : fdes.Pairwise R) (lt : i < j)
    (inside : j < fdes.length) : R (DwarfSectionImpl.infoAt fdes i) (DwarfSectionImpl.infoAt fdes j) := by
  rw [infoAt_eq inside, infoAt_eq (Nat.lt_trans lt inside)]
  exact List.pairwise_iff_getElem.mp pairs i j _ inside lt

/-- **The scan and the full parse agree** on every FDE of the list that `Init` makes. -/
theorem init_agrees (enough : 10 ≤ turns) (done : init a memory turns offset size = some (.ok (fdes, d)))
    (laid : Laid d turns fdes fdeAt) :
    ∀ info ∈ fdes, ∃ cie, Scanned d turns info cie ∧ Agrees info cie (fdeAt info.offset) := by
  intro info mem
  obtain ⟨cie, scanned⟩ := (init_reads done).2 info mem
  obtain ⟨d', full⟩ := laid.parses info mem
  exact ⟨cie, scanned, scanned.agrees enough rfl full (laid.once info mem) (laid.segment info mem)⟩

/-- **The list that `Init` makes is sound**: in order, and each range that of its FDE. -/
theorem init_sound (enough : 10 ≤ turns) (done : init a memory turns offset size = some (.ok (fdes, d)))
    (laid : Laid d turns fdes fdeAt) :
    DwarfSectionImpl.Sound fdes (parsed a turns d)
      (fun i => fdeAt (DwarfSectionImpl.infoAt fdes i).offset) := by
  obtain ⟨sorted, -⟩ := init_reads done
  have mem : ∀ i < fdes.length, DwarfSectionImpl.infoAt fdes i ∈ fdes := fun i => infoAt_mem
  have agrees : ∀ info ∈ fdes, info.start.toNat = (fdeAt info.offset).pcStart.toNat ∧
      info.end_.toNat = (fdeAt info.offset).pcEnd.toNat := by
    intro info mem
    obtain ⟨cie, -, agrees⟩ := init_agrees enough done laid info mem
    have fits := laid.fits info mem
    have nonempty := laid.nonempty info mem
    rw [BitVec.lt_def] at nonempty
    rw [agrees.start, agrees.end_, BitVec.toNat_setWidth, BitVec.toNat_setWidth, Nat.mod_eq_of_lt fits,
      Nat.mod_eq_of_lt (Nat.lt_trans nonempty fits)]
    exact ⟨rfl, rfl⟩
  refine ⟨fun i inside => laid.nonempty _ (mem i inside), fun i j lt inside => ?_, fun i inside => ?_,
    fun i inside => widen_eq (agrees _ (mem i inside)).1, fun i inside => widen_eq (agrees _ (mem i inside)).2⟩
  · have inside' := Nat.lt_trans lt inside
    have before := at_pairwise sorted lt inside
    rcases at_pairwise laid.apart lt inside with apart | apart
    · exact apart
    · have start := (agrees _ (mem i inside')).1
      have start' := (agrees _ (mem j inside)).1
      have nonempty := laid.nonempty _ (mem j inside)
      rw [BitVec.le_def] at apart
      rw [BitVec.lt_def] at nonempty
      have le : (DwarfSectionImpl.infoAt fdes i).start.toNat ≤ (DwarfSectionImpl.infoAt fdes j).start.toNat :=
        start_le before
      omega
  · obtain ⟨d', full⟩ := laid.parses _ (mem i inside)
    unfold parsed
    rw [full]

/-- The answer over the list, and the parse that gives it. -/
theorem gives_getFdeFromPc {fde : DwarfFde} :
    (∃ d', Gives (getFdeFromPc a turns fdes pc) d fde d') ↔
      DwarfSectionImpl.answer fdes (parsed a turns d) pc = .ok fde := by
  unfold getFdeFromPc DwarfSectionImpl.answer DwarfSection.getFdeFromPcOf
  cases DwarfSectionImpl.getFdeOffsetFromPc fdes pc with
  | none => exact iff_of_false (fun ⟨_, gives⟩ => not_gives_fail gives) nofun
  | some offset =>
    dsimp only
    unfold parsed
    constructor
    · rintro ⟨d', gives⟩
      obtain ⟨fde', e, full, gives⟩ := gives_bind.mp gives
      rw [full]
      dsimp only
      split at gives
      · next below =>
        obtain ⟨rfl, -⟩ := gives_pure.mp gives
        rw [if_pos below]
      · exact absurd gives not_gives_fail
    · intro answered
      split at answered
      · cases answered
      · next fde' done =>
        split at answered
        · next below =>
          cases answered
          split at done
          · next e full =>
            cases done
            exact ⟨e, gives_bind.mpr ⟨fde, e, full, by rw [if_pos below]; exact gives_pure.mpr ⟨rfl, rfl⟩⟩⟩
          · cases done
          · cases done
        · cases answered

/-- **The FDE for an address, from the bytes of the section.** Over the list that `Init` makes with its scan,
`GetFdeFromPc` gives only FDEs that are in the section and have the address in their range, and it gives
the FDE of a listed range to every address in it that is not the end of another. What the scan read of
an FDE, its CIE, the encoding and the range, is what the full parse has. -/
theorem init_finds (enough : 10 ≤ turns) (done : init a memory turns offset size = some (.ok (fdes, d)))
    (laid : Laid d turns fdes fdeAt) :
    (∀ info ∈ fdes, ∃ cie, Scanned d turns info cie ∧ Agrees info cie (fdeAt info.offset)) ∧
    (∀ pc fde d', Gives (getFdeFromPc a turns fdes pc) d fde d' →
      ∃ info ∈ fdes, fde = fdeAt info.offset ∧ fde.pcStart ≤ pc ∧ pc < fde.pcEnd) ∧
    ∀ pc, ∀ info ∈ fdes, (fdeAt info.offset).pcStart ≤ pc → pc < (fdeAt info.offset).pcEnd →
      (∀ other ∈ fdes, (fdeAt other.offset).pcEnd ≠ pc) →
      ∃ d', Gives (getFdeFromPc a turns fdes pc) d (fdeAt info.offset) d' := by
  have sound := init_sound enough done laid
  refine ⟨init_agrees enough done laid, ?_, ?_⟩
  · intro pc fde d' gives
    obtain ⟨i, inside, rfl, low, high⟩ :=
      DwarfSectionImpl.answer_sound sound (gives_getFdeFromPc.mp ⟨d', gives⟩)
    exact ⟨_, infoAt_mem inside, rfl, low, high⟩
  · intro pc info mem low high apart
    obtain ⟨i, inside, rfl⟩ := List.getElem_of_mem mem
    rw [← infoAt_eq inside] at low high ⊢
    rcases DwarfSectionImpl.answer_inside sound inside low high with found | ⟨-, -, j, before, touch⟩
    · exact gives_getFdeFromPc.mpr found
    · exact absurd touch (apart _ (infoAt_mem (Nat.lt_trans before inside)))

/-- A section with a CIE and two functions. -/
def twoFunctions : DwarfMemory where
  memory := memoryBuffer
    ([9, 0, 0, 0, 0, 0, 0, 0, 1, 0, 1, 1, 0] ++
      [12, 0, 0, 0, 17, 0, 0, 0, 16, 0, 0, 0, 4, 0, 0, 0] ++
      [12, 0, 0, 0, 33, 0, 0, 0, 8, 0, 0, 0, 4, 0, 0, 0])
  abi := .lp64

def twoFdes : List (FdeInfo .uint64) := [⟨13, 37, 41⟩, ⟨29, 45, 49⟩]

/-- The FDE at an offset of the section. -/
def fdeOfTwo (offset : BitVec 64) : DwarfFde where
  pcStart := offset + if offset = 13 then 24 else 16
  pcEnd := offset + if offset = 13 then 28 else 20
  cfaInstructionsOffset := offset + 16
  cfaInstructionsEnd := offset + 16
  cie :=
    { version := 1, augmentationString := [0], codeAlignmentFactor := 1, dataAlignmentFactor := 1,
      fdeAddressEncoding := 0x0b, lsdaEncoding := 0xff, cfaInstructionsOffset := 13, cfaInstructionsEnd := 13 }

theorem init_twoFunctions : ∃ d, init .uint64 twoFunctions 16 0 45 = some (.ok (twoFdes, d)) ∧
    Laid d 16 twoFdes fdeOfTwo := by
  have sorted : twoFdes.mergeSort (precedes .uint64) = twoFdes := List.mergeSort_of_pairwise (by decide)
  refine ⟨_, gives_bind.mpr ⟨twoFdes, _, rfl, gives_pure.mpr ⟨sorted, rfl⟩⟩, ?_, by decide, by decide,
    by decide, by decide, by decide⟩
  intro info mem
  rcases List.mem_pair.mp mem with rfl | rfl
  · exact ⟨_, rfl⟩
  · exact ⟨_, rfl⟩

/-- The second function is found from its bytes, with the encoding that the scan had from the CIE. -/
theorem init_finds_twoFunctions :
    ∃ fdes d, init .uint64 twoFunctions 16 0 45 = some (.ok (fdes, d)) ∧
      (∃ d', Gives (getFdeFromPc .uint64 16 fdes 46) d (fdeOfTwo 29) d') ∧
      ∃ cie, Scanned d 16 (⟨29, 45, 49⟩ : FdeInfo .uint64) cie ∧ cie.encoding = 0x0b := by
  obtain ⟨d, done, laid⟩ := init_twoFunctions
  obtain ⟨agree, -, finds⟩ := init_finds (by decide) done laid
  obtain ⟨cie, scanned, agrees⟩ := agree ⟨29, 45, 49⟩ (by decide)
  exact ⟨twoFdes, d, done, finds 46 ⟨29, 45, 49⟩ (by decide) (by decide) (by decide) (by decide), cie,
    scanned, agrees.encoding⟩

end DwarfEhFrame

end Dolin.Unwindstack
