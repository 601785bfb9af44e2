import Dolin.Base.FreeList
import Dolin.Zap.Pool

/-!
# What is in the pool

The pool is a list of objects without repetition, `sPoolSize` counts them, and all have their fields as
a new object has them. No object in the pool is with a thread, nor one object with two. A thread clears
the fields of an object while it still holds it: so what is in the pool is cleared, though the
assignments are not synchronized.
-/

namespace Dolin.Zap

open FreeList

/-- The fields are those of a new object, the link apart. -/
def ZapData.Cleared (data : ZapData) : Prop :=
  data.level = .none ∧ data.tag = some [] ∧ data.msg = some []

/-! ## The pool -/

namespace DataPool

variable {p p' : DataPool} {l : List Nat} {data : Nat}

/-- These are the objects in the pool. -/
structure Holds (p : DataPool) (l : List Nat) : Prop where
  linked : Linked (fun i => (p.objects i).next) p.sPool l
  size : p.sPoolSize = Int32.ofNat l.length
  bound : l.length ≤ 50
  cleared : ∀ i ∈ l, (p.objects i).Cleared
  created : ∀ i ∈ l, i < p.created

theorem holds_nothing : Holds {} [] :=
  ⟨trivial, rfl, Nat.zero_le _, fun _ mem => absurd mem List.not_mem_nil,
    fun _ mem => absurd mem List.not_mem_nil⟩

theorem objects_write_of_ne {f : ZapData → ZapData} {i : Nat} (ne : i ≠ data) :
    (p.write data f).objects i = p.objects i := Function.update_of_ne ne _ _

/-- The pool does not depend on the other objects. -/
theorem Holds.congr (h : p.Holds l) (same : ∀ i ∈ l, p'.objects i = p.objects i)
    (head : p'.sPool = p.sPool) (size : p'.sPoolSize = p.sPoolSize) (created : p.created ≤ p'.created) :
    p'.Holds l where
  linked := by
    rw [head]
    exact h.linked.congr fun i mem => congrArg ZapData.next (same i mem)
  size := size.trans h.size
  bound := h.bound
  cleared := fun i mem => same i mem ▸ h.cleared i mem
  created := fun i mem => Nat.lt_of_lt_of_le (h.created i mem) created

theorem Holds.write (h : p.Holds l) (outside : data ∉ l) (f : ZapData → ZapData) :
    (p.write data f).Holds l :=
  h.congr (fun _ mem => objects_write_of_ne (ne_of_mem_of_not_mem mem outside)) rfl rfl (Nat.le_refl _)

theorem Holds.create (h : p.Holds l) : p.create.2.Holds l :=
  h.congr (fun i mem => Function.update_of_ne (Nat.ne_of_lt (h.created i mem)) _ _) rfl rfl
    (Nat.le_succ _)

/-- **What is synchronized in `obtain`** takes the first object out of the pool. -/
theorem Holds.obtainSync (h : p.Holds l) (once : l.Nodup) (taken : p.obtainSync = some (data, p')) :
    ∃ rest, l = data :: rest ∧ p'.Holds rest ∧ p'.created = p.created ∧
      ∀ i, i ≠ data → p'.objects i = p.objects i := by
  cases head : p.sPool with
  | none =>
    rw [DataPool.obtainSync, head] at taken
    cases taken
  | some first =>
    rw [DataPool.obtainSync, head] at taken
    cases taken
    obtain ⟨rest, rfl, linked⟩ := (head ▸ h.linked).front
    obtain ⟨outside, -⟩ := List.nodup_cons.mp once
    have behind : Holds { p with sPool := (p.objects data).next, sPoolSize := p.sPoolSize - 1 } rest :=
      { linked
        size := by
          change p.sPoolSize - 1 = _
          rw [h.size, List.length_cons, Int32.ofNat_add]
          exact Int32.add_sub_cancel _ _
        bound := Nat.le_of_succ_le h.bound
        cleared := fun i mem => h.cleared i (List.mem_cons_of_mem _ mem)
        created := fun i mem => h.created i (List.mem_cons_of_mem _ mem) }
    have others : ∀ i, i ≠ data → Function.update p.objects data
        { p.objects data with next := none } i = p.objects i := fun i ne => Function.update_of_ne ne _ _
    exact ⟨rest, rfl, behind.congr (fun i mem => others i (ne_of_mem_of_not_mem mem outside)) rfl rfl
      (Nat.le_refl _), rfl, others⟩

theorem sPoolSize_lt_iff (h : p.Holds l) : p.sPoolSize < MAX_POOL_SIZE ↔ l.length < 50 := by
  have bound := h.bound
  rw [h.size, Int32.lt_iff_toInt_lt, Int32.toInt_ofNat_of_lt (by omega)]
  change (l.length : Int) < 50 ↔ _
  omega

/-- **What is synchronized in `recycle`** puts an object in front, where there is room. -/
theorem Holds.recycleSync (h : p.Holds l) (outside : data ∉ l) (created : data < p.created)
    (cleared : (p.objects data).Cleared) :
    ((p.recycleSync data).Holds (data :: l) ∨ (p.recycleSync data).Holds l) ∧
      (p.recycleSync data).created = p.created ∧
      ∀ i, i ≠ data → (p.recycleSync data).objects i = p.objects i := by
  unfold DataPool.recycleSync
  split
  next room =>
    have kept := h.write outside fun d => { d with next := p.sPool }
    refine ⟨.inl ?_, rfl, fun i ne => Function.update_of_ne ne _ _⟩
    have self : Function.update p.objects data { p.objects data with next := p.sPool } data =
        { p.objects data with next := p.sPool } := Function.update_self _ _ _
    refine ⟨kept.linked.push (congrArg ZapData.next self) fun _ _ => rfl, ?_,
      (sPoolSize_lt_iff h).mp room, ?_, ?_⟩
    · change p.sPoolSize + 1 = _
      rw [h.size, List.length_cons, Int32.ofNat_add]
      rfl
    · intro i mem
      rcases List.mem_cons.mp mem with rfl | mem
      · exact (congrArg ZapData.Cleared self).mpr cleared
      · exact kept.cleared i mem
    · intro i mem
      rcases List.mem_cons.mp mem with rfl | mem
      · exact created
      · exact kept.created i mem
  next => exact ⟨.inr h, rfl, fun _ _ => rfl⟩

end DataPool

/-! ## The threads -/

/-- What is left of a call is to do with an object of the thread, and `recycle` clears it. -/
def PoolThread.Fits (objects : Nat → ZapData) (thread : PoolThread) : Prop :=
  match thread.call with
  | .idle | .create _ => True
  | .obtain data _ => data ∈ thread.held
  | .recycle data writes => data ∈ thread.held ∧
    (writes.foldl (fun d w => w.apply d) (objects data)).Cleared

theorem PoolThread.Fits.congr {objects objects' : Nat → ZapData} {thread : PoolThread}
    (fits : thread.Fits objects) (same : ∀ i ∈ thread.held, objects' i = objects i) :
    thread.Fits objects' := by
  unfold PoolThread.Fits at fits ⊢
  split
  · trivial
  · trivial
  next call =>
    rw [call] at fits
    exact fits
  next call =>
    rw [call] at fits
    rw [same _ fits.1]
    exact fits

/-- Whatever an object was, `recycle` clears it. -/
theorem cleared_clearing (data : ZapData) :
    (PoolSystem.clearing.foldl (fun d w => w.apply d) data).Cleared := ⟨rfl, rfl, rfl⟩

namespace PoolSystem

variable {τ : Type} [DecidableEq τ] {s s' : PoolSystem τ} {l l' : List Nat} {t : τ}

/-- The objects in the pool and with the threads. -/
structure Sound (s : PoolSystem τ) (l : List Nat) : Prop where
  pool : s.pool.Holds l
  custody : Custody (fun t => (s.threads t).held) l
  created : ∀ t, ∀ i ∈ (s.threads t).held, i < s.pool.created
  fits : ∀ t, (s.threads t).Fits s.pool.objects

omit [DecidableEq τ] in
theorem sound_start : Sound ({} : PoolSystem τ) [] :=
  ⟨DataPool.holds_nothing, Custody.nobody, fun _ _ mem => absurd mem List.not_mem_nil, fun _ => trivial⟩

/-- A step of a thread that leaves the objects of the others alone. -/
theorem Sound.goto (h : s.Sound l) {pool : DataPool} {thread : PoolThread} (holds : pool.Holds l')
    (custody : Custody (Function.update (fun t => (s.threads t).held) t thread.held) l')
    (created : s.pool.created ≤ pool.created) (mine : ∀ i ∈ thread.held, i < pool.created)
    (others : ∀ u, u ≠ t → ∀ i ∈ (s.threads u).held, pool.objects i = s.pool.objects i)
    (fits : thread.Fits pool.objects) : ({ s with pool }.goto t thread).Sound l' where
  pool := holds
  custody := by
    have held : (fun u => (Function.update s.threads t thread u).held) =
        Function.update (fun u => (s.threads u).held) t thread.held :=
      Function.comp_update PoolThread.held s.threads t thread
    exact held.symm ▸ custody
  created := by
    intro u
    change ∀ i ∈ (Function.update s.threads t thread u).held, i < pool.created
    by_cases same : u = t
    · rw [same, Function.update_self]
      exact mine
    · rw [Function.update_of_ne same]
      exact fun i mem => Nat.lt_of_lt_of_le (h.created u i mem) created
  fits := by
    intro u
    change (Function.update s.threads t thread u).Fits pool.objects
    by_cases same : u = t
    · rw [same, Function.update_self]
      exact fits
    · rw [Function.update_of_ne same]
      exact (h.fits u).congr (others u same)

/-- A step that only the thread sees. -/
theorem Sound.goto_call (h : s.Sound l) {call : PoolCall}
    (fits : PoolThread.Fits s.pool.objects ⟨(s.threads t).held, call⟩) :
    (s.goto t ⟨(s.threads t).held, call⟩).Sound l :=
  h.goto h.pool (by rw [Function.update_eq_self]; exact h.custody) (Nat.le_refl _) (h.created t)
    (fun _ _ _ _ => rfl) fits

/-- An assignment to a field of an object of the thread. -/
theorem Sound.goto_write (h : s.Sound l) {data : Nat} {w : FieldWrite} {call : PoolCall}
    (mem : data ∈ (s.threads t).held)
    (fits : PoolThread.Fits (s.pool.write data w.apply).objects ⟨(s.threads t).held, call⟩) :
    ({ s with pool := s.pool.write data w.apply }.goto t ⟨(s.threads t).held, call⟩).Sound l := by
  refine h.goto (h.pool.write (h.custody.apart t data mem) _) ?_ (Nat.le_refl _) (h.created t) ?_ fits
  · rw [Function.update_eq_self]
    exact h.custody
  · intro u other i mem'
    refine DataPool.objects_write_of_ne ?_
    rintro rfl
    exact other (h.custody.alone u t i mem' mem)

/-- The beginning of `obtain`. -/
theorem Sound.obtain (h : s.Sound l) (t : τ) (writes : List FieldWrite) :
    ∃ l', (s.obtain t writes).Sound l' := by
  unfold PoolSystem.obtain
  split
  next data pool taken =>
    obtain ⟨rest, rfl, holds, created, same⟩ := h.pool.obtainSync h.custody.nodup taken
    refine ⟨rest, h.goto holds (h.custody.take t) (Nat.le_of_eq created.symm) ?_ ?_ List.mem_cons_self⟩
    · intro i mem
      rw [created]
      rcases List.mem_cons.mp mem with rfl | mem
      · exact h.pool.created i List.mem_cons_self
      · exact h.created t i mem
    · intro u _ i mem
      refine same i ?_
      rintro rfl
      exact h.custody.apart u i mem List.mem_cons_self
  next => exact ⟨l, h.goto_call trivial⟩

/-- `new ZapData()`. -/
theorem Sound.goto_create (h : s.Sound l) (t : τ) (writes : List FieldWrite) :
    ({ s with pool := s.pool.create.2 }.goto t
      ⟨s.pool.created :: (s.threads t).held, .obtain s.pool.created writes⟩).Sound l := by
  have unheld : ∀ u, s.pool.created ∉ (s.threads u).held :=
    fun u mem => Nat.lt_irrefl _ (h.created u _ mem)
  have unfree : s.pool.created ∉ l := fun mem => Nat.lt_irrefl _ (h.pool.created _ mem)
  refine h.goto h.pool.create (h.custody.hold unheld unfree t) (Nat.le_succ _) ?_ ?_ List.mem_cons_self
  · intro i mem
    rcases List.mem_cons.mp mem with rfl | mem
    · exact Nat.lt_succ_self _
    · exact Nat.lt_succ_of_lt (h.created t i mem)
  · intro u _ i mem
    exact Function.update_of_ne (ne_of_mem_of_not_mem mem (unheld u)) _ _

/-- What is synchronized in `recycle`, of a thread that has cleared its object. -/
theorem Sound.goto_recycle (h : s.Sound l) {data : Nat} (mem : data ∈ (s.threads t).held)
    (cleared : (s.pool.objects data).Cleared) :
    ∃ l', ({ s with pool := s.pool.recycleSync data }.goto t
      ⟨(s.threads t).held.erase data, .idle⟩).Sound l' := by
  obtain ⟨holds, created, same⟩ :=
    h.pool.recycleSync (h.custody.apart t data mem) (h.created t data mem) cleared
  have mine : ∀ i ∈ (s.threads t).held.erase data, i < (s.pool.recycleSync data).created := by
    intro i left
    rw [created]
    exact h.created t i (List.mem_of_mem_erase left)
  have others : ∀ u, u ≠ t → ∀ i ∈ (s.threads u).held,
      (s.pool.recycleSync data).objects i = s.pool.objects i := by
    intro u other i mem'
    refine same i ?_
    rintro rfl
    exact other (h.custody.alone u t i mem' mem)
  rcases holds with holds | holds
  · exact ⟨data :: l, h.goto holds (h.custody.give mem) (Nat.le_of_eq created.symm) mine others trivial⟩
  · exact ⟨l, h.goto holds (h.custody.drop mem) (Nat.le_of_eq created.symm) mine others trivial⟩

/-- **The call of a thread goes on.** -/
theorem Sound.proceed (h : s.Sound l) (next : s.proceed t = some s') : ∃ l', s'.Sound l' := by
  have fits := h.fits t
  unfold PoolThread.Fits at fits
  unfold PoolSystem.proceed at next
  split at next
  next => cases next
  next writes call =>
    cases next
    exact ⟨l, h.goto_create t writes⟩
  next data w writes call =>
    cases next
    rw [call] at fits
    exact ⟨l, h.goto_write fits fits⟩
  next =>
    cases next
    exact ⟨l, h.goto_call trivial⟩
  next data w writes call =>
    cases next
    rw [call] at fits
    refine ⟨l, h.goto_write fits.1 ⟨fits.1, ?_⟩⟩
    -- the assignment that was made is no longer among those to come
    change (writes.foldl _ (Function.update s.pool.objects data _ data)).Cleared
    rw [Function.update_self]
    exact fits.2
  next data call =>
    cases next
    rw [call] at fits
    exact h.goto_recycle fits.1 fits.2

/-- **A step keeps** a list of the objects in the pool. -/
theorem Sound.step (h : s.Sound l) {action : τ × PoolAction} (stepped : s.step action = some s') :
    ∃ l', s'.Sound l' := by
  unfold PoolSystem.step at stepped
  split at stepped
  next => exact h.proceed stepped
  next t action _ =>
    split at stepped
    next =>
      cases stepped
      exact h.obtain t _
    next =>
      cases stepped
      exact h.obtain t _
    next data _ =>
      split at stepped
      next mem =>
        cases stepped
        exact ⟨l, h.goto_call ⟨mem, cleared_clearing _⟩⟩
      next => cases stepped
    next => cases stepped

/-- **The pool is safe** in every run, of any number of threads and in any order of their steps. The
objects from `sPool` on are a list without repetition, `sPoolSize` is its length and at most fifty, and
all have their fields cleared. No thread holds one of them, none holds an object twice, and no two
threads hold the same. -/
theorem pool_safe {actions : List (τ × PoolAction)}
    (h : Machine.run PoolSystem.step ({} : PoolSystem τ) actions = some s) :
    ∃ l, Linked (fun i => (s.pool.objects i).next) s.pool.sPool l ∧ l.Nodup ∧
      s.pool.sPoolSize.toInt = l.length ∧ l.length ≤ 50 ∧
      (∀ i ∈ l, (s.pool.objects i).Cleared) ∧
      (∀ t, ∀ i ∈ (s.threads t).held, i ∉ l) ∧
      (∀ t, (s.threads t).held.Nodup) ∧
      ∀ t t' i, i ∈ (s.threads t).held → i ∈ (s.threads t').held → t = t' := by
  have keeps : ∀ (s : PoolSystem τ) (action : τ × PoolAction) (s' : PoolSystem τ),
      (∃ l, s.Sound l) → s.step action = some s' → ∃ l, s'.Sound l := by
    rintro s action s' ⟨l, sound⟩ stepped
    exact sound.step stepped
  obtain ⟨l, sound⟩ := Machine.run_keeps (fun s => ∃ l, s.Sound l) keeps ⟨[], sound_start⟩ h
  have bound := sound.pool.bound
  refine ⟨l, sound.pool.linked, sound.custody.nodup, ?_, bound, sound.pool.cleared,
    sound.custody.apart, sound.custody.once, sound.custody.alone⟩
  rw [sound.pool.size, Int32.toInt_ofNat_of_lt (by omega)]

/-- Two threads obtain an object each; the first recycles its own, and the second then obtains that. -/
def twoThreads : List (Bool × PoolAction) :=
  [(false, .obtainWith .info (some [1]) none), (true, .obtain), (false, .proceed), (true, .proceed),
    (false, .proceed), (false, .proceed), (true, .proceed), (false, .proceed), (false, .proceed),
    (false, .recycle 0), (false, .proceed), (false, .proceed), (false, .proceed), (false, .proceed),
    (true, .obtain)]

theorem pool_safe_twoThreads :
    ∃ s, Machine.run PoolSystem.step ({} : PoolSystem Bool) twoThreads = some s ∧
      (s.threads true).held = [0, 1] ∧
      ∃ l, Linked (fun i => (s.pool.objects i).next) s.pool.sPool l ∧ l.Nodup ∧
        s.pool.sPoolSize.toInt = l.length ∧ l.length ≤ 50 ∧
        (∀ i ∈ l, (s.pool.objects i).Cleared) ∧
        (∀ t, ∀ i ∈ (s.threads t).held, i ∉ l) ∧
        (∀ t, (s.threads t).held.Nodup) ∧
        ∀ t t' i, i ∈ (s.threads t).held → i ∈ (s.threads t').held → t = t' := by
  have run : ∃ s, Machine.run PoolSystem.step ({} : PoolSystem Bool) twoThreads = some s ∧
      (s.threads true).held = [0, 1] := ⟨_, rfl, rfl⟩
  obtain ⟨s, run, held⟩ := run
  exact ⟨s, run, held, pool_safe run⟩

end PoolSystem

end Dolin.Zap
