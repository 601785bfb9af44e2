import Mathlib.Data.List.Basic
import Mathlib.Data.List.TakeDrop

/-!
# Batching a stream of messages

The purpose of a bounded write buffer, free of any representation: messages collect in a live
region of at most `cap` elements, and leave it as payloads. A message that may not fit sends the
live region off first; one longer than `cap` keeps its first `cap` elements.

`Grouped` is what such a buffer promises. The messages fall into consecutive groups, every payload
is one whole group, and the live region is the group still open. Concatenation and the absence of
split messages are read off it.
-/

namespace Batch

variable {α : Type}

/-- The payloads sent so far, and the live region. -/
structure State (α : Type) where
  sent : List (List α)
  live : List α

/-- Nothing sent, nothing live. -/
def State.empty : State α := ⟨[], []⟩

/-- The live region leaves as a payload, unless it is empty. -/
def State.flush (c : State α) : State α := if c.live = [] then c else ⟨c.sent ++ [c.live], []⟩

/-- A message goes behind the live region, after a flush where it would fill it. -/
def State.write (cap : Nat) (c : State α) (m : List α) : State α :=
  let c := if cap - c.live.length ≤ m.length then c.flush else c
  ⟨c.sent, c.live ++ m.take (cap - c.live.length)⟩

/-- What a group of messages leaves in the stream. -/
def kept (cap : Nat) (group : List (List α)) : List α := (group.map (List.take cap)).flatten

/-- The messages `msgs` went through the buffer: `groups` are the payloads, `rest` is live. -/
structure Grouped (cap : Nat) (c : State α) (msgs : List (List α)) (groups : List (List (List α)))
    (rest : List (List α)) : Prop where
  messages : msgs = groups.flatten ++ rest
  sent : c.sent = groups.map (kept cap)
  live : c.live = kept cap rest
  length_live : c.live.length ≤ cap
  nonempty : ∀ payload ∈ c.sent, payload ≠ []
  bounded : ∀ payload ∈ c.sent, payload.length ≤ cap

theorem State.flush_live (c : State α) : c.flush.live = [] := by
  unfold flush
  split
  next nil => exact nil
  next => rfl

theorem State.flush_sent (c : State α) :
    c.flush.sent = c.sent ++ if c.live = [] then [] else [c.live] := by
  unfold flush
  split
  next => exact (List.append_nil _).symm
  next => rfl

theorem kept_nil (cap : Nat) : kept cap ([] : List (List α)) = [] := rfl

theorem kept_append (cap : Nat) (g h : List (List α)) : kept cap (g ++ h) = kept cap g ++ kept cap h := by
  simp only [kept, List.map_append, List.flatten_append]

theorem kept_singleton (cap : Nat) (m : List α) : kept cap [m] = m.take cap := by
  simp only [kept, List.map_cons, List.map_nil, List.flatten_cons, List.flatten_nil, List.append_nil]

theorem kept_flatten (cap : Nat) (gs : List (List (List α))) :
    kept cap gs.flatten = (gs.map (kept cap)).flatten := by
  induction gs with
  | nil => rfl
  | cons g gs ih => simp only [List.flatten_cons, kept_append, List.map_cons, ih]

section Laws

variable {cap : Nat} {c : State α} {msgs : List (List α)} {groups : List (List (List α))}
  {rest : List (List α)}

theorem Grouped.empty (cap : Nat) : Grouped cap (State.empty : State α) [] [] [] :=
  ⟨rfl, rfl, rfl, Nat.zero_le _, fun _ h => (List.not_mem_nil h).elim,
    fun _ h => (List.not_mem_nil h).elim⟩

/-- A flush closes the open group, if it left anything. -/
theorem Grouped.flush (h : Grouped cap c msgs groups rest) :
    ∃ groups' rest', Grouped cap c.flush msgs groups' rest' := by
  unfold State.flush
  split
  next => exact ⟨groups, rest, h⟩
  next ne =>
    have sent : ∀ payload ∈ c.sent ++ [c.live], payload ∈ c.sent ∨ payload = c.live := by
      intro payload mem
      rcases List.mem_append.mp mem with old | new
      · exact .inl old
      · exact .inr (List.mem_singleton.mp new)
    refine ⟨groups ++ [rest], [], ?_, ?_, kept_nil cap, Nat.zero_le _, ?_, ?_⟩
    · simp only [List.flatten_append, List.flatten_cons, List.flatten_nil, List.append_nil,
        h.messages]
    · simp only [List.map_append, List.map_cons, List.map_nil, ← h.sent, ← h.live]
    · intro payload mem
      rcases sent payload mem with old | rfl
      · exact h.nonempty payload old
      · exact ne
    · intro payload mem
      rcases sent payload mem with old | rfl
      · exact h.bounded payload old
      · exact h.length_live

/-- A message joins the open group. -/
theorem Grouped.push (h : Grouped cap c msgs groups rest) {m : List α}
    (fits : m.take (cap - c.live.length) = m.take cap) :
    Grouped cap ⟨c.sent, c.live ++ m.take (cap - c.live.length)⟩ (msgs ++ [m]) groups
      (rest ++ [m]) := by
  refine ⟨?_, h.sent, ?_, ?_, h.nonempty, h.bounded⟩
  · rw [h.messages, List.append_assoc]
  · show c.live ++ m.take (cap - c.live.length) = kept cap (rest ++ [m])
    rw [fits, kept_append, kept_singleton, ← h.live]
  · have := h.length_live
    show (c.live ++ m.take (cap - c.live.length)).length ≤ cap
    rw [List.length_append, List.length_take]
    omega

/-- A write adds its message to the open group, or to a new one. -/
theorem Grouped.write (h : Grouped cap c msgs groups rest) (m : List α) :
    ∃ groups' rest', Grouped cap (c.write cap m) (msgs ++ [m]) groups' rest' := by
  unfold State.write
  by_cases full : cap - c.live.length ≤ m.length
  · obtain ⟨groups', rest', h'⟩ := h.flush
    simp only [if_pos full]
    exact ⟨groups', rest' ++ [m], h'.push (by rw [c.flush_live, List.length_nil, Nat.sub_zero])⟩
  · -- the message is shorter than the free space, hence than `cap`
    simp only [if_neg full]
    refine ⟨groups, rest ++ [m], h.push ?_⟩
    rw [List.take_of_length_le (by omega), List.take_of_length_le (by omega)]

/-- Payloads and live region together are the messages, each cut at `cap`. -/
theorem Grouped.stream (h : Grouped cap c msgs groups rest) :
    c.sent.flatten ++ c.live = kept cap msgs := by
  rw [h.messages, kept_append, kept_flatten, h.sent, h.live]

end Laws

end Batch
