import Dolin.Base.Region

/-!
# The receive loop

The loop of `DaemonProcessClient` on the bytes of the message. `select` looks at the socket only:
`interrupter[0]` is not put into the set, so the test for it never holds. A socket whose client has
closed is readable, and `recv` gives no byte.

`size` is `sizeof(struct hawkeye_crash_message)`, which the system's headers decide.
-/

namespace Dolin.Hawkeye.Receive

open Region

/-- What the system calls of one turn answer. -/
inductive Turn where
  | selectFails
  | recvFails
  /-- The socket is readable, and `recv` gives at most so many bytes. -/
  | recv (most : Nat)

/-- Where the loop stands. `rest` is what the client has sent and `recv` has not given yet. -/
inductive Loop where
  | running (message : Bytes) (overallRead : Nat) (rest : Bytes)
  /-- `close(socket_fd)` and `return`. -/
  | closed
  /-- Behind the loop, at `DaemonCreateReport(&message)`. -/
  | received (message : Bytes)
  /-- A store outside the message. -/
  | outside
  deriving DecidableEq

/-- The bytes that `recv` gives: between one and as many as were asked for, and none at the end of the
stream. -/
def recv (requested most : Nat) (rest : Bytes) : Bytes := rest.take (max 1 (min most requested))

/-- One turn of the loop, with the test at its end. -/
def turn (size : Nat) : Loop → Turn → Loop
  | .running message overallRead rest, .recv most =>
    let bytes := recv (size - overallRead) most rest
    match store message overallRead bytes with
    | none => .outside
    | some message =>
      if overallRead + bytes.length < size then
        .running message (overallRead + bytes.length) (rest.drop bytes.length)
      else .received message
  | .running _ _ _, .selectFails => .closed
  | .running _ _ _, .recvFails => .closed
  | ended, _ => ended

/-- The loop before its first turn, for a client that sends `stream` and closes. -/
def start (size : Nat) (stream : Bytes) : Loop := .running (List.replicate size 0) 0 stream

/-- The loop after a number of turns. -/
def after (size : Nat) (answers : Nat → Turn) (stream : Bytes) : Nat → Loop
  | 0 => start size stream
  | k + 1 => turn size (after size answers stream k) (answers k)

end Dolin.Hawkeye.Receive
