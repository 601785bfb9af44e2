import Dolin.Hawkeye.Handshake
import Dolin.Hawkeye.Receive

/-!
# What the receive loop makes of a stream

While bytes come, each turn of the loop brings it at least one byte nearer to its end, and what it has
stored is what was sent. At the end of the stream `recv` gives no byte, the sum stands still, and the
loop takes the same turn again: it has no test for the end. A client that dies before its last byte
keeps the daemon busy for good.
-/

namespace Dolin.Hawkeye.Receive

open Region

variable {size : Nat} {stream : Bytes}

theorem length_recv_le {requested : Nat} (most : Nat) (rest : Bytes) (asked : 0 < requested) :
    (recv requested most rest).length ≤ requested := by
  rw [recv, List.length_take]
  omega

theorem length_recv_pos (requested most : Nat) {rest : Bytes} (more : rest ≠ []) :
    0 < (recv requested most rest).length := by
  have := List.length_pos_iff.mpr more
  rw [recv, List.length_take]
  omega

/-- What `recv` gives and what it leaves are the rest of the stream. -/
theorem recv_append_drop (requested most : Nat) (rest : Bytes) :
    recv requested most rest ++ rest.drop (recv requested most rest).length = rest := by
  rw [recv, List.length_take]
  rcases Nat.le_total (max 1 (min most requested)) rest.length with inside | beyond
  · rw [Nat.min_eq_left inside, List.take_append_drop]
  · rw [Nat.min_eq_right beyond, List.drop_length, List.append_nil, List.take_of_length_le beyond]

/-- The invariant of the running loop: the message starts with what was received, and the rest is still
to come. -/
structure Underway (size : Nat) (stream message : Bytes) (overallRead : Nat) (rest : Bytes) :
    Prop where
  length : message.length = size
  below : overallRead < size
  stored : slice message 0 overallRead ++ rest = stream

theorem underway_start (pos : 0 < size) (stream : Bytes) :
    Underway size stream (List.replicate size 0) 0 stream :=
  ⟨List.length_replicate, pos, rfl⟩

namespace Underway

variable {message rest : Bytes} {overallRead : Nat}

/-- The bytes that were received and those to come are the stream. -/
theorem length_add (u : Underway size stream message overallRead rest) :
    overallRead + rest.length = stream.length := by
  have below := u.below
  have := u.length
  rw [← u.stored, List.length_append, length_slice (by omega)]

/-- One turn stores what `recv` gave. The loop goes on with the invariant, or it ends with the
message. -/
theorem turn (u : Underway size stream message overallRead rest) (most : Nat) :
    (∃ message', turn size (.running message overallRead rest) (.recv most) =
        .running message' (overallRead + (recv (size - overallRead) most rest).length)
          (rest.drop (recv (size - overallRead) most rest).length) ∧
      Underway size stream message' (overallRead + (recv (size - overallRead) most rest).length)
        (rest.drop (recv (size - overallRead) most rest).length)) ∨
    (turn size (.running message overallRead rest) (.recv most) = .received (stream.take size) ∧
      size ≤ stream.length) := by
  have below := u.below
  have length := u.length
  have given := length_recv_le most rest (show 0 < size - overallRead by omega)
  generalize bytes_eq : recv (size - overallRead) most rest = bytes at given
  obtain ⟨message', put⟩ := store_ok message overallRead bytes (by omega)
  have length' := length_store put
  have stored : slice message' 0 (overallRead + bytes.length) ++ rest.drop bytes.length = stream := by
    rw [slice_add, Nat.zero_add, slice_store_other put (by omega), slice_store_same put,
      List.append_assoc, ← bytes_eq, recv_append_drop, u.stored]
  simp only [Receive.turn, bytes_eq, put]
  split
  next short => exact .inl ⟨message', rfl, length'.trans length, short, stored⟩
  next full =>
    have all : overallRead + bytes.length = message'.length := by omega
    have whole : slice message' 0 message'.length = message' := List.take_length
    rw [all, whole] at stored
    refine .inr ⟨?_, ?_⟩
    · rw [← stored, List.take_left' (length'.trans length)]
    · rw [← stored, List.length_append, length', length]
      exact Nat.le_add_right ..

end Underway

/-! ## The loop in the handshake -/

/-- Where the daemon of the handshake stands, which counts the bytes and does not keep them. -/
def Loop.pc (c : Nat) : Loop → Handshake.DaemonPc
  | .running _ overallRead _ => .recvSelect c overallRead
  | .received _ => .report c
  | .closed | .outside => .acceptSelect

/-- A turn of the loop is a step of the handshake: what `recv` gives here it can give there, and both
go on from the same test. -/
theorem Underway.simulates {message rest : Bytes} {overallRead : Nat}
    (u : Underway size stream message overallRead rest) (most : Nat) {s : Handshake.State} {c : Nat}
    (at_ : s.daemon = .recv c overallRead) (flight : (s.clients c).inFlight = rest.length)
    (ended : rest = [] → (s.clients c).pc = .closed) :
    ∃ s', Handshake.daemonStep size s (.bytes (recv (size - overallRead) most rest).length) =
        some s' ∧
      s'.daemon = (Receive.turn size (.running message overallRead rest) (.recv most)).pc c ∧
      (s'.clients c).inFlight = (rest.drop (recv (size - overallRead) most rest).length).length := by
  have below := u.below
  have length := u.length
  have asked := length_recv_le most rest (show 0 < size - overallRead by omega)
  have gives : (s.clients c).Gives (size - overallRead)
      (recv (size - overallRead) most rest).length := by
    by_cases nil : rest = []
    · refine .inr ⟨?_, by rw [flight, nil]; rfl, ended nil⟩
      rw [nil, recv, List.take_nil]
      rfl
    · refine .inl ⟨length_recv_pos _ most nil, ?_, asked⟩
      rw [flight, recv, List.length_take]
      exact Nat.min_le_right ..
  obtain ⟨message', put⟩ := store_ok message overallRead (recv (size - overallRead) most rest)
    (by omega)
  refine ⟨s.received size c overallRead (recv (size - overallRead) most rest).length, ?_, ?_, ?_⟩
  · simp only [Handshake.daemonStep, at_]
    exact if_pos gives
  · simp only [Receive.turn, put, Handshake.State.received]
    split
    next => rfl
    next => rfl
  · change (Function.update s.clients c _ c).inFlight = _
    rw [Function.update_self, List.length_drop, flight]

/-! ## Whole streams -/

section Streams

variable (most : Nat → Nat)

/-- While the stream is longer than the message, each turn receives something. -/
theorem after_of_long (pos : 0 < size) (long : size ≤ stream.length) (k : Nat) :
    after size (fun i => .recv (most i)) stream k = .received (stream.take size) ∨
      ∃ message overallRead rest,
        after size (fun i => .recv (most i)) stream k = .running message overallRead rest ∧
        Underway size stream message overallRead rest ∧ k ≤ overallRead := by
  induction k with
  | zero => exact .inr ⟨_, 0, stream, rfl, underway_start pos stream, Nat.le_refl 0⟩
  | succ k ih =>
    rw [after]
    rcases ih with done | ⟨message, overallRead, rest, running, u, far⟩
    · rw [done]
      exact .inl rfl
    · rw [running]
      rcases u.turn (most k) with ⟨message', next, u'⟩ | ⟨done, -⟩
      · have more : rest ≠ [] := by
          rintro rfl
          have all := u.length_add
          have below := u.below
          rw [List.length_nil] at all
          omega
        have progress := length_recv_pos (size - overallRead) (most k) more
        exact .inr ⟨message', _, _, next, u', by omega⟩
      · exact .inl done

/-- A stream that is too short never ends the loop. -/
theorem after_of_short (short : stream.length < size) (k : Nat) :
    ∃ message overallRead rest,
      after size (fun i => .recv (most i)) stream k = .running message overallRead rest ∧
      Underway size stream message overallRead rest := by
  induction k with
  | zero => exact ⟨_, 0, stream, rfl, underway_start (by omega) stream⟩
  | succ k ih =>
    obtain ⟨message, overallRead, rest, running, u⟩ := ih
    rw [after, running]
    rcases u.turn (most k) with ⟨message', next, u'⟩ | ⟨-, long⟩
    · exact ⟨message', _, _, next, u'⟩
    · omega

end Streams

/-- What the loop owes a client that sends `stream` and closes, where the turns take the bytes as
`most` says: it ends, with the message where the stream holds one, and without a report where it does
not. -/
structure Serves (size : Nat) (stream : Bytes) (most : Nat → Nat) : Prop where
  whole : size ≤ stream.length →
    ∃ k, after size (fun i => .recv (most i)) stream k = .received (stream.take size)
  cut : stream.length < size → ∃ k, after size (fun i => .recv (most i)) stream k = .closed

/-- **The receive loop.** For every stream and every way to take it in pieces: the loop ends as it
should, and stores nothing outside the message, if and only if the stream is at least as long as the
message. -/
theorem serves_iff_long (size : Nat) (pos : 0 < size) (stream : Bytes) (most : Nat → Nat) :
    (Serves size stream most ∧
      ∀ k, after size (fun i => .recv (most i)) stream k ≠ .outside) ↔ size ≤ stream.length := by
  constructor
  · rintro ⟨serves, -⟩
    by_contra short
    obtain ⟨k, closed⟩ := serves.cut (by omega)
    obtain ⟨message, overallRead, rest, running, -⟩ :=
      after_of_short most (show stream.length < size by omega) k
    cases running.symm.trans closed
  · intro long
    refine ⟨⟨fun _ => ⟨size, ?_⟩, fun short => absurd long (by omega)⟩, fun k outside => ?_⟩
    · rcases after_of_long most pos long size with done | ⟨message, overallRead, rest, -, u, far⟩
      · exact done
      · -- as many turns as there are bytes in the message
        exact absurd u.below (by omega)
    · rcases after_of_long most pos long k with done | ⟨message, overallRead, rest, running, -⟩
      · cases done.symm.trans outside
      · cases running.symm.trans outside

/-- Four bytes that come in pieces of two, for a message of three. -/
theorem serves_iff_long_pieces :
    Serves 3 [0x61, 0x62, 0x63, 0x64] (fun _ => 2) :=
  ((serves_iff_long 3 (by simp) [0x61, 0x62, 0x63, 0x64] fun _ => 2).mpr (by simp)).1

/-- A client sends one byte of three and dies: the loop is still running after any number of turns. -/
theorem cut_stream_spins :
    (∀ k, after 3 (fun _ => .recv 2) [0x61] k ≠ .closed ∧
      ∀ message, after 3 (fun _ => .recv 2) [0x61] k ≠ .received message) ∧
    ¬ Serves 3 [0x61] (fun _ => 2) := by
  have spins : ∀ k, ∃ message overallRead rest, after 3 (fun _ => .recv 2) [0x61] k =
      .running message overallRead rest ∧ Underway 3 [0x61] message overallRead rest :=
    after_of_short (fun _ => 2) (by simp)
  refine ⟨fun k => ?_, fun serves => ?_⟩
  · obtain ⟨message, overallRead, rest, running, -⟩ := spins k
    rw [running]
    refine ⟨fun h => ?_, fun message h => ?_⟩
    · cases h
    · cases h
  · obtain ⟨k, closed⟩ := serves.cut (by simp)
    obtain ⟨message, overallRead, rest, running, -⟩ := spins k
    cases running.symm.trans closed

end Dolin.Hawkeye.Receive
