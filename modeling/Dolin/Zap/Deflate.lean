import Mathlib.Data.List.Forall2
import Dolin.Zap.Buffer

/-!
# zlib's sync flush

What the library relies on of zlib in compress mode, as the zlib manual has it: with
`Z_SYNC_FLUSH` a call encodes its input into a chunk that ends on a byte boundary. Where the chunk
fits `avail_out` and nothing is pending, the call delivers it whole and answers `Z_OK`, and again
nothing is pending. Every input with a byte in it makes a chunk; for the empty one, right behind
another flush, the call has nothing to do and answers `Z_BUF_ERROR`. Nothing is said here of a chunk
that does not fit. Inflating complete chunks, of one stream after another, gives back their inputs.

`blocks` is a deflate encoder of that kind, and `inflateBlocks` reads what it writes. It puts every
byte in a stored block of its own, except that the message `a` gets the fixed Huffman block which
zlib makes of it.
-/

namespace Dolin.Zap

open Region

/-- The documented behaviour of `deflate` with `Z_SYNC_FLUSH`. -/
structure SyncFlush (Z : Zlib) where
  fresh : Z.Stream
  /-- The stream has delivered all that it made. -/
  Flushed : Z.Stream → Prop
  /-- The chunk a stream makes of its next input, where it has anything to do. It closes with an
  empty stored block. -/
  chunk : Z.Stream → Bytes → Option Bytes
  deflateInit2 : Z.deflateInit2 = some fresh
  flushed_fresh : Flushed fresh
  chunk_ne : ∀ s m c, chunk s m = some c → c ≠ []
  deflate : ∀ s m c n, Flushed s → chunk s m = some c → c.length ≤ n →
    (Z.deflate s m n).ok = true ∧ (Z.deflate s m n).out = c ∧ Flushed (Z.deflate s m n).next

/-- A stream makes a chunk of the input, and it fits the space. -/
def SyncFlush.Fits {Z : Zlib} (S : SyncFlush Z) (s : Z.Stream) (m : Bytes) (space : Nat) : Prop :=
  ∃ c, S.chunk s m = some c ∧ c.length ≤ space

/-- A fresh stream was given the messages one call each, every chunk was delivered completely, and
the bytes are the chunks in order. -/
inductive SyncFlush.Encoded {Z : Zlib} (S : SyncFlush Z) : List Bytes → Bytes → Z.Stream → Prop
  | fresh : S.Encoded [] [] S.fresh
  | deflate {ms : List Bytes} {bs c : Bytes} {s : Z.Stream} (m : Bytes) (availOut : Nat) :
      S.Encoded ms bs s → S.chunk s m = some c → c.length ≤ availOut →
        S.Encoded (ms ++ [m]) (bs ++ c) (Z.deflate s m availOut).next

namespace SyncFlush.Encoded

variable {Z : Zlib} {S : SyncFlush Z} {ms : List Bytes} {bs : Bytes} {s : Z.Stream}

/-- Complete chunks leave nothing pending. -/
theorem flushed (h : S.Encoded ms bs s) : S.Flushed s := by
  induction h with
  | fresh => exact S.flushed_fresh
  | deflate m availOut _ made fits ih => exact (S.deflate _ _ _ _ ih made fits).2.2

/-- Messages have bytes, and only messages have. -/
theorem nil_iff (h : S.Encoded ms bs s) : ms = [] ↔ bs = [] := by
  cases h with
  | fresh => exact ⟨fun _ => rfl, fun _ => rfl⟩
  | deflate m availOut _ made _ =>
    refine ⟨fun nil => absurd nil (by simp), fun nil => ?_⟩
    exact absurd (List.append_eq_nil_iff.mp nil).2 (S.chunk_ne _ m _ made)

/-- A stream without messages is fresh. -/
theorem eq_fresh (h : S.Encoded ms bs s) (nil : ms = []) : s = S.fresh := by
  cases h with
  | fresh => rfl
  | deflate m availOut _ _ _ => exact absurd nil (by simp)

end SyncFlush.Encoded

/-- Each payload is the complete chunks of its group of messages. -/
abbrev SyncFlush.Payloads {Z : Zlib} (S : SyncFlush Z) (payloads : List Bytes)
    (groups : List (List Bytes)) : Prop :=
  List.Forall₂ (fun payload group => ∃ s, S.Encoded group payload s) payloads groups

/-- `inflate` reads the chunks of one stream after another as the messages they encode. -/
def SyncFlush.Inflates {Z : Zlib} (S : SyncFlush Z) (inflate : Bytes → Bytes) : Prop :=
  ∀ payloads groups, S.Payloads payloads groups → inflate payloads.flatten = groups.flatten.flatten

/-! ## An encoder -/

/-- A stored block of one byte. -/
def storedByte (b : UInt8) : Bytes := [0x00, 0x01, 0x00, 0xfe, 0xff, b]

/-- The chunk of a message: its blocks, then the empty stored block of the sync flush. -/
def blockChunk (m : Bytes) : Bytes :=
  if m = [0x61] then [0x4a, 0x04, 0x00, 0x00, 0x00, 0xff, 0xff]
  else (m.map storedByte).flatten ++ [0x00, 0x00, 0x00, 0xff, 0xff]

/-- The encoder as a zlib: a stream is what it has pending. -/
def blocks : Zlib where
  Stream := Bytes
  deflateInit2 := some []
  deflate pending m availOut :=
    if availOut = 0 then { ok := false, out := [], next := pending }
    else
      { ok := true, out := (pending ++ blockChunk m).take availOut,
        next := (pending ++ blockChunk m).drop availOut }
  out_le _ _ availOut := by
    split
    · exact Nat.zero_le _
    · simp only [List.length_take]
      omega

/-- The decoder for the blocks the encoder writes. Of a block that breaks off behind its literal, it has
the literal. -/
def inflateBlocks : Bytes → Bytes
  | 0x00 :: 0x01 :: 0x00 :: 0xfe :: 0xff :: b :: rest => b :: inflateBlocks rest
  | 0x00 :: 0x00 :: 0x00 :: 0xff :: 0xff :: rest => inflateBlocks rest
  | 0x4a :: 0x04 :: 0x00 :: 0x00 :: 0x00 :: 0xff :: 0xff :: rest => 0x61 :: inflateBlocks rest
  | 0x4a :: 0x04 :: _ => [0x61]
  | _ => []

theorem inflateBlocks_stored (m rest : Bytes) :
    inflateBlocks ((m.map storedByte).flatten ++ rest) = m ++ inflateBlocks rest := by
  induction m with
  | nil => rfl
  | cons b m ih => simp only [List.map_cons, List.flatten_cons, storedByte,
      List.cons_append, List.nil_append, inflateBlocks, ih]

theorem inflateBlocks_chunk (m rest : Bytes) :
    inflateBlocks (blockChunk m ++ rest) = m ++ inflateBlocks rest := by
  unfold blockChunk
  split
  next single =>
    subst single
    simp only [List.cons_append, List.nil_append, inflateBlocks]
  next =>
    rw [List.append_assoc, inflateBlocks_stored]
    simp only [List.cons_append, List.nil_append, inflateBlocks]

theorem inflateBlocks_chunks (ms : List Bytes) (rest : Bytes) :
    inflateBlocks ((ms.map blockChunk).flatten ++ rest) = ms.flatten ++ inflateBlocks rest := by
  induction ms with
  | nil => rfl
  | cons m ms ih => simp only [List.map_cons, List.flatten_cons, List.append_assoc,
      inflateBlocks_chunk, ih]

theorem blockChunk_ne (m : Bytes) : blockChunk m ≠ [] := by
  unfold blockChunk
  split <;> simp

/-- The encoder behaves as documented. -/
def blocksSync : SyncFlush blocks where
  fresh := []
  Flushed pending := pending = []
  chunk _ m := some (blockChunk m)
  deflateInit2 := rfl
  flushed_fresh := rfl
  chunk_ne _ m c made := by
    cases made
    exact blockChunk_ne m
  deflate s m c n flushed made fits := by
    cases made
    have pos : n ≠ 0 := by
      have := List.length_pos_iff.mpr (blockChunk_ne m)
      omega
    simp only [blocks, if_neg pos]
    rw [flushed, List.nil_append]
    exact ⟨trivial, List.take_of_length_le fits, List.drop_eq_nil_of_le fits⟩

/-- What the encoder makes of messages is their chunks. -/
theorem blocksSync_encoded {ms : List Bytes} {bs : Bytes} {s : blocks.Stream}
    (h : blocksSync.Encoded ms bs s) : bs = (ms.map blockChunk).flatten := by
  induction h with
  | fresh => rfl
  | deflate m availOut _ made _ ih =>
    cases made
    rw [ih, List.map_append, List.flatten_append]
    simp only [List.map_cons, List.map_nil, List.flatten_cons, List.flatten_nil, List.append_nil]

/-- Every chunk ends with the mark of the sync flush. -/
theorem blocksSync_last {ms : List Bytes} {bs : Bytes} {s : blocks.Stream}
    (h : blocksSync.Encoded ms bs s) : bs = [] ∨ bs.getLast? = some 0xff := by
  cases h with
  | fresh => exact .inl rfl
  | deflate m availOut _ made _ =>
    cases made
    refine .inr ?_
    show (_ ++ blockChunk m).getLast? = _
    unfold blockChunk
    split <;> simp

theorem blocksSync_inflates : blocksSync.Inflates inflateBlocks := by
  intro payloads groups encoded
  have all : ∀ rest, inflateBlocks (payloads.flatten ++ rest) =
      groups.flatten.flatten ++ inflateBlocks rest := by
    intro rest
    induction encoded with
    | nil => rfl
    | cons first _ ih =>
      obtain ⟨s, h⟩ := first
      simp only [List.flatten_cons, List.append_assoc, List.flatten_append, blocksSync_encoded h,
        inflateBlocks_chunks, ih]
  have := all []
  simpa only [List.append_nil, inflateBlocks] using this

end Dolin.Zap
