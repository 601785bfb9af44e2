import Dolin.Unwindstack.Symbols

/-!
# Names of functions

A lookup reads the table only as far as it has to, and searches what it has met before. Over a table that
can be read, of functions that do not overlap, every lookup gives what a look through the whole table
gives, whatever was asked before, as long as the names stand in the string table: `getNames_eq`. Of a name
behind it the answer changes when it is asked again.
-/

namespace Dolin.Unwindstack.Symbols

open Region

variable {a : AddressType} {memory : Memory} {loadBias addr : BitVec 64} {s t : Symbols} {entries : List Sym}
  {cache : List SymInfo} {info : SymInfo} {turns k : Nat}

/-- The functions of a part of the table. -/
def infos (s : Symbols) (loadBias : BitVec 64) (entries : List Sym) : List SymInfo :=
  (entries.filter Sym.isFunc).map (s.infoOf loadBias)

/-- An address is in a function. -/
def Inside (addr : BitVec 64) (info : SymInfo) : Bool := info.startOffset ≤ addr ∧ addr < info.endOffset

/-- Functions that do not overlap. -/
structure Apart (l : List SymInfo) : Prop where
  le : ∀ info ∈ l, info.startOffset ≤ info.endOffset
  apart : l.Pairwise fun x y => x.startOffset ≠ y.startOffset ∧
    (x.endOffset ≤ y.startOffset ∨ y.endOffset ≤ x.startOffset)

/-- A table that can be read from its beginning, where nothing was read yet. -/
structure Table (a : AddressType) (memory : Memory) (loadBias : BitVec 64) (s : Symbols) (entries : List Sym) :
    Prop where
  fresh : s.curOffset = s.offset ∧ s.symbols = []
  positive : 0 < s.entrySize.toNat
  room : s.end_.toNat + s.entrySize.toNat < 2 ^ 64
  fits : s.offset.toNat + entries.length * s.entrySize.toNat ≤ s.end_.toNat
  full : s.end_.toNat < s.offset.toNat + (entries.length + 1) * s.entrySize.toNat
  reads : ∀ (i : Nat) (inside : i < entries.length),
    Sym.read a memory (s.offset + BitVec.ofNat 64 (i * s.entrySize.toNat)) = some entries[i]
  apart : Apart (infos s loadBias entries)

/-! ## The cache -/

theorem Apart.perm {l l' : List SymInfo} (apart : Apart l) (perm : l.Perm l') : Apart l' := by
  refine ⟨fun info mem => apart.le info (perm.mem_iff.mpr mem), ?_⟩
  exact (perm.pairwise_iff fun ⟨ne, away⟩ => ⟨ne.symm, away.symm⟩).mp apart.apart

theorem Apart.sublist {l l' : List SymInfo} (apart : Apart l) (sub : l'.Sublist l) : Apart l' :=
  ⟨fun info mem => apart.le info (sub.subset mem), apart.apart.sublist sub⟩

/-- At most one function has an address in it. -/
theorem Apart.find_iff {l : List SymInfo} (apart : Apart l) :
    l.find? (Inside addr) = some info ↔ info ∈ l ∧ Inside addr info = true := by
  constructor
  · intro found
    exact ⟨List.mem_of_find?_eq_some found, List.find?_some found⟩
  · rintro ⟨mem, inside⟩
    induction l with
    | nil => exact absurd mem List.not_mem_nil
    | cons first l ih =>
      rw [List.find?_cons]
      rcases List.mem_cons.mp mem with rfl | mem
      · rw [inside]
      · have other : Inside addr first = false := by
          obtain ⟨-, away⟩ := (List.pairwise_cons.mp apart.apart).1 info mem
          rw [Inside, decide_eq_true_eq] at inside
          rw [Inside, decide_eq_false_iff_not]
          simp only [BitVec.le_def, BitVec.lt_def] at inside away ⊢
          omega
        rw [other]
        exact ih (apart.sublist (List.sublist_cons_self first l)) mem

/-- The functions in the order of their addresses. -/
def Rising (cache : List SymInfo) : Prop := cache.Pairwise fun x y => x.startOffset ≤ y.startOffset

theorem rising_mergeSort (l : List SymInfo) :
    Rising (l.mergeSort fun x y => x.startOffset ≤ y.startOffset) := by
  have trans : ∀ x y z : SymInfo, decide (x.startOffset ≤ y.startOffset) = true →
      decide (y.startOffset ≤ z.startOffset) = true → decide (x.startOffset ≤ z.startOffset) = true :=
    fun x y z first second =>
      decide_eq_true (BitVec.le_trans (of_decide_eq_true first) (of_decide_eq_true second))
  have total : ∀ x y : SymInfo,
      (decide (x.startOffset ≤ y.startOffset) || decide (y.startOffset ≤ x.startOffset)) =
      true := by
    intro x y
    rw [Bool.or_eq_true, decide_eq_true_eq, decide_eq_true_eq]
    exact BitVec.le_total _ _
  exact (List.pairwise_mergeSort trans total l).imp of_decide_eq_true

/-- The search in the cache. -/
theorem getInfoFromCache_eq (apart : Apart s.symbols) (rising : Rising s.symbols) (addr : BitVec 64) :
    s.getInfoFromCache addr = s.symbols.find? (Inside addr) := by
  have inOrder : BinarySearch.InOrder (fun info : SymInfo => info.startOffset.toNat)
      (fun info => info.endOffset.toNat) s.symbols := by
    refine ⟨fun info mem => BitVec.le_def.mp (apart.le info mem), ?_⟩
    refine (apart.apart.and rising).imp_of_mem fun {x y} memx memy ⟨⟨ne, away⟩, le⟩ => ?_
    have ley := apart.le y memy
    simp only [BitVec.le_def, ne_eq, BitVec.toNat_eq] at ne away le ley
    omega
  refine BinarySearch.pick_eq inOrder fun i inside => ?_
  unfold compare BinarySearch.stand
  rw [List.getD_eq_getElem?_getD, List.getElem?_eq_getElem inside, Option.getD_some]
  simp only [BitVec.lt_def]

/-! ## The table -/

/-- The state in which `k` entries were read. -/
def place (s : Symbols) (k : Nat) (cache : List SymInfo) : Symbols :=
  { s with curOffset := s.offset + BitVec.ofNat 64 (k * s.entrySize.toNat), symbols := cache }

/-- The name that a lookup gives when it meets a function in the table. -/
def named (s : Symbols) (memory : Memory) (addr : BitVec 64) (info : SymInfo) : Option (Bytes × BitVec 64) :=
  if info.strOffset < s.strEnd then s.readName memory addr info else none

theorem toNat_place (table : Table a memory loadBias s entries) (le : k ≤ entries.length) :
    (place s k cache).curOffset.toNat = s.offset.toNat + k * s.entrySize.toNat := by
  have fits := table.fits
  have room := table.room
  have mono := Nat.mul_le_mul_right s.entrySize.toNat le
  rw [place, BitVec.toNat_add, BitVec.toNat_ofNat]
  omega

/-- Whether an entry is left. -/
theorem more_iff (table : Table a memory loadBias s entries) (le : k ≤ entries.length) :
    (place s k cache).curOffset + s.entrySize ≤ s.end_ ↔ k < entries.length := by
  have fits := table.fits
  have room := table.room
  have full := table.full
  have mono := Nat.mul_le_mul_right s.entrySize.toNat le
  have last : (entries.length + 1) * s.entrySize.toNat =
      entries.length * s.entrySize.toNat + s.entrySize.toNat :=
    Nat.succ_mul _ _
  have next : (k + 1) * s.entrySize.toNat = k * s.entrySize.toNat + s.entrySize.toNat := Nat.succ_mul _ _
  have here := @toNat_place a memory loadBias s entries cache k table le
  rw [BitVec.le_def, BitVec.toNat_add, here]
  constructor
  · intro more
    rcases Nat.eq_or_lt_of_le le with rfl | lt
    · omega
    · exact lt
  · intro lt
    have mono' : (k + 1) * s.entrySize.toNat ≤ entries.length * s.entrySize.toNat :=
      Nat.mul_le_mul_right _ (Nat.succ_le_of_lt lt)
    omega

theorem place_next (k : Nat) (cache : List SymInfo) :
    { place s k cache with curOffset := (place s k cache).curOffset + s.entrySize } =
      place s (k + 1) cache := by
  unfold place
  dsimp only
  rw [Nat.succ_mul, BitVec.ofNat_add, BitVec.ofNat_toNat, BitVec.setWidth_eq, BitVec.add_assoc]

theorem infos_append (front back : List Sym) :
    infos s loadBias (front ++ back) = infos s loadBias front ++ infos s loadBias back := by
  rw [infos, List.filter_append, List.map_append]
  rfl

theorem infos_cons (entry : Sym) (rest : List Sym) :
    infos s loadBias (entry :: rest) =
      if entry.isFunc then s.infoOf loadBias entry :: infos s loadBias rest else infos s loadBias rest := by
  rw [infos, List.filter_cons]
  split <;> rfl

theorem rising_sort (k : Nat) (cache : List SymInfo) :
    ∃ cache', (place s k cache).sort = place s k cache' ∧ cache'.Perm cache ∧ Rising cache' :=
  ⟨_, rfl, List.mergeSort_perm _ _, rising_mergeSort cache⟩

/-- A turn of the loop. -/
theorem scan_more (table : Table a memory loadBias s entries) (inside : k < entries.length) (added : Bool) :
    scan a memory loadBias addr (turns + 1) (place s k cache) added =
      if entries[k].isFunc then
        if Inside addr (s.infoOf loadBias entries[k]) then
          some (s.named memory addr (s.infoOf loadBias entries[k]),
            (place s (k + 1) (cache ++ [s.infoOf loadBias entries[k]])).sort)
        else scan a memory loadBias addr turns (place s (k + 1) (cache ++ [s.infoOf loadBias entries[k]])) true
      else scan a memory loadBias addr turns (place s (k + 1) cache) added := by
  have more := (@more_iff a memory loadBias s entries cache k table (Nat.le_of_lt inside)).mpr inside
  have read : Sym.read a memory (place s k cache).curOffset = some entries[k] := table.reads k inside
  rw [scan]
  change (if (place s k cache).curOffset + s.entrySize ≤ s.end_ then _ else _) = _
  rw [if_pos more, read, ← place_next k cache, ← place_next k (cache ++ [s.infoOf loadBias entries[k]])]
  dsimp only
  split
  · next func =>
    by_cases here : Inside addr (s.infoOf loadBias entries[k]) = true
    · rw [if_pos here]
      exact if_pos (of_decide_eq_true here)
    · rw [if_neg here]
      exact if_neg fun here' => here (decide_eq_true here')
  · rfl

/-- **The loop over the table**: what it answers, and how far it has read then. -/
theorem scan_spec (table : Table a memory loadBias s entries) (le : k ≤ entries.length) {added : Bool}
    (enough : entries.length - k < turns) (perm : cache.Perm (infos s loadBias (entries.take k)))
    (rising : added = false → Rising cache) :
    ∃ k' cache', k' ≤ entries.length ∧ cache'.Perm (infos s loadBias (entries.take k')) ∧ Rising cache' ∧
      scan a memory loadBias addr turns (place s k cache) added =
        some (((infos s loadBias (entries.drop k)).find? (Inside addr)).bind (s.named memory addr),
          place s k' cache') ∧
      ∀ info, (infos s loadBias (entries.drop k)).find? (Inside addr) = some info → info ∈ cache' := by
  induction turns generalizing k cache added with
  | zero => exact absurd enough (Nat.not_lt_zero _)
  | succ turns ih =>
    rcases Nat.eq_or_lt_of_le le with rfl | inside
    · have more := @more_iff a memory loadBias s entries cache entries.length table le
      rw [scan]
      change ∃ k' cache', _ ∧ _ ∧ _ ∧
        (if (place s entries.length cache).curOffset + s.entrySize ≤ s.end_ then _ else _) = _ ∧ _
      rw [if_neg (mt more.mp (Nat.lt_irrefl _)), List.drop_length]
      cases added with
      | false => exact ⟨entries.length, cache, le, perm, rising rfl, rfl, nofun⟩
      | true =>
        obtain ⟨cache', sorted, same, rising'⟩ := @rising_sort s entries.length cache
        refine ⟨entries.length, cache', le, same.trans perm, rising', ?_, nofun⟩
        rw [if_pos rfl, sorted]
        rfl
    · have front : infos s loadBias (entries.take (k + 1)) = infos s loadBias (entries.take k) ++
          infos s loadBias [entries[k]] := by
        rw [← infos_append, List.take_append_getElem]
      rw [infos_cons] at front
      have rest : entries.drop k = entries[k] :: entries.drop (k + 1) := List.drop_eq_getElem_cons inside
      rw [scan_more table inside, rest, infos_cons]
      cases func : entries[k].isFunc with
      | false =>
        rw [func] at front
        rw [if_neg Bool.false_ne_true, if_neg Bool.false_ne_true]
        refine ih inside (by omega) ?_ rising
        rw [front]
        exact perm.trans (List.append_nil _ ▸ .refl _)
      | true =>
        rw [func] at front
        have perm' : (cache ++ [s.infoOf loadBias entries[k]]).Perm
            (infos s loadBias (entries.take (k + 1))) := by
          rw [front]
          exact perm.append_right _
        rw [if_pos rfl, if_pos rfl, List.find?_cons]
        cases here : Inside addr (s.infoOf loadBias entries[k]) with
        | false =>
          rw [if_neg Bool.false_ne_true]
          exact ih inside (by omega) perm' nofun
        | true =>
          rw [if_pos rfl]
          obtain ⟨cache', sorted, same, rising'⟩ :=
            @rising_sort s (k + 1) (cache ++ [s.infoOf loadBias entries[k]])
          refine ⟨k + 1, cache', inside, same.trans perm', rising', by rw [sorted]; rfl, ?_⟩
          rintro info ⟨⟩
          exact same.mem_iff.mpr (List.mem_append_right _ (List.mem_singleton_self _))

/-! ## Lookups -/

/-- A state between two lookups. -/
structure Known (a : AddressType) (memory : Memory) (loadBias : BitVec 64) (s : Symbols) (entries : List Sym)
    (t : Symbols) : Prop where
  reached : ∃ k cache, k ≤ entries.length ∧ t = place s k cache ∧
    cache.Perm (infos s loadBias (entries.take k)) ∧ Rising cache

theorem known_self (table : Table a memory loadBias s entries) : Known a memory loadBias s entries s := by
  obtain ⟨curOffset, symbols⟩ := table.fresh
  refine ⟨0, [], Nat.zero_le _, Symbols.ext ?_ rfl rfl rfl rfl rfl symbols, .refl _, List.Pairwise.nil⟩
  rw [place, Nat.zero_mul, BitVec.add_zero, curOffset]

theorem infos_take_sublist (s : Symbols) (loadBias : BitVec 64) (entries : List Sym) (k : Nat) :
    (infos s loadBias (entries.take k)).Sublist (infos s loadBias entries) :=
  ((List.take_sublist k entries).filter _).map _

/-- **A lookup**: the function with the address is the one of the whole table. It is named without a look at
the end of the string table where it was met before. -/
theorem getName_spec (table : Table a memory loadBias s entries) (enough : entries.length < turns)
    (known : Known a memory loadBias s entries t) :
    ∃ t', Known a memory loadBias s entries t' ∧
      t.getName a memory loadBias turns addr =
        some (((infos s loadBias entries).find? (Inside (addr + loadBias))).bind fun info =>
          if info ∈ t.symbols then s.readName memory (addr + loadBias) info
          else s.named memory (addr + loadBias) info, t') ∧
      ∀ info, (infos s loadBias entries).find? (Inside (addr + loadBias)) = some info → info ∈ t'.symbols := by
  obtain ⟨k, cache, le, rfl, perm, rising⟩ := known.reached
  have apart : Apart cache := (table.apart.sublist (infos_take_sublist s loadBias entries k)).perm perm.symm
  have sub : ∀ info ∈ cache, info ∈ infos s loadBias entries := fun info mem =>
    (infos_take_sublist s loadBias entries k).subset (perm.mem_iff.mp mem)
  have cached := @getInfoFromCache_eq (place s k cache) apart rising (addr + loadBias)
  rw [getName, cached]
  cases found : cache.find? (Inside (addr + loadBias)) with
  | some info =>
    obtain ⟨mem, inside⟩ := apart.find_iff.mp found
    have whole := table.apart.find_iff.mpr ⟨sub info mem, inside⟩
    refine ⟨place s k cache, known, ?_, fun info' found' => ?_⟩
    · rw [show (place s k cache).symbols = cache from rfl, found, whole]
      dsimp only [Option.bind_some]
      rw [if_pos mem]
      rfl
    · rw [whole] at found'
      cases found'
      exact mem
  | none =>
    obtain ⟨k', cache', le', perm', rising', scanned, met⟩ :=
      @scan_spec a memory loadBias (addr + loadBias) s entries cache turns k table le false
        (by omega) perm fun _ => rising
    have none' : (infos s loadBias (entries.take k)).find? (Inside (addr + loadBias)) = none := by
      rw [List.find?_eq_none] at found ⊢
      exact fun info mem => found info (perm.mem_iff.mpr mem)
    have whole : (infos s loadBias entries).find? (Inside (addr + loadBias)) =
        (infos s loadBias (entries.drop k)).find? (Inside (addr + loadBias)) := by
      conv_lhs => rw [← List.take_append_drop k entries, infos_append, List.find?_append, none']
      rfl
    refine ⟨place s k' cache', ⟨k', cache', le', rfl, perm', rising'⟩, ?_, whole ▸ met⟩
    rw [show (place s k cache).symbols = cache from rfl, found]
    dsimp only
    rw [scanned, whole]
    cases met' : (infos s loadBias (entries.drop k)).find? (Inside (addr + loadBias)) with
    | none => rfl
    | some info =>
      have new : info ∉ cache := fun mem =>
        List.find?_eq_none.mp found info mem (List.find?_some met')
      rw [Option.bind_some, Option.bind_some, if_neg new]

/-- The whole table is looked through, by the addresses of the functions. -/
def lookup (s : Symbols) (memory : Memory) (loadBias : BitVec 64) (entries : List Sym) (addr : BitVec 64) :
    Option (Bytes × BitVec 64) :=
  ((infos s loadBias entries).find? (Inside (addr + loadBias))).bind (s.readName memory (addr + loadBias))

/-- A lookup, where the names stand in the string table. -/
theorem getName_lookup (table : Table a memory loadBias s entries) (enough : entries.length < turns)
    (within : ∀ info ∈ infos s loadBias entries, info.strOffset < s.strEnd)
    (known : Known a memory loadBias s entries t) (addr : BitVec 64) :
    ∃ t', Known a memory loadBias s entries t' ∧
      t.getName a memory loadBias turns addr = some (lookup s memory loadBias entries addr, t') := by
  obtain ⟨t', known', answer, -⟩ := @getName_spec a memory loadBias addr s t entries turns table enough known
  refine ⟨t', known', answer.trans ?_⟩
  rw [lookup]
  cases found : (infos s loadBias entries).find? (Inside (addr + loadBias)) with
  | none => rfl
  | some info =>
    have inside := within info (List.mem_of_find?_eq_some found)
    rw [Option.bind_some, Option.bind_some, named, if_pos inside, ite_self]

end Dolin.Unwindstack.Symbols
