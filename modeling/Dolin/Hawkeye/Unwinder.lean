import Dolin.Hawkeye.Report
import Dolin.Unwindstack.Elf

/-!
# The backtrace of a thread

`Unwind` of `hawkeye_unwinder.cpp` and `DumpBacktraceLine` of `hawkeye_dumper_utils.cpp`. The maps of the
process are parsed once. The library of a map is made when a frame is first in it, and is kept with what
was looked up in it for all other frames, of all threads.

Names and steps are looked up by loops that are given a number of turns: where it is not enough there is
no end.
-/

namespace Dolin.Hawkeye

open Region Unwindstack
open Daemon (ascii)

/-- `HAWKEYE_MAX_FRAMES`. -/
def HAWKEYE_MAX_FRAMES : Nat := 128

/-- A map with its library, as `GetElf` makes it. -/
structure LoadedMap where
  info : MapInfo
  elfOffset : BitVec 64
  elf : Elf

/-- What `DumpBacktraceLine` is given. -/
structure BacktraceLine where
  counter : Nat
  pc : BitVec 64
  mapName : Option Bytes
  function : Option (Bytes × BitVec 64)
  deriving DecidableEq

/-- How a step ends: with the registers of the caller or without a caller, and `none` where it does not
end. -/
abbrev Stepped := Option (Except Halt (Option (Regs .uint64)))

/-- What all frames of a thread have in common. -/
structure Unwinding where
  arch : Arch
  turns : Nat
  /-- The order in which the rules of a frame are walked. -/
  order : Rules → List Nat
  /-- The memory of the process. -/
  memory : Memory

namespace Unwinder

/-- `maps.Find(regs->pc())`, with the place of the map. -/
def find (maps : List LoadedMap) (pc : BitVec 64) : Option (Nat × LoadedMap) :=
  match BinarySearch.search (Maps.compare (maps.map LoadedMap.info) pc) maps.length 0 maps.length with
  | .found i => maps[i]?.map (i, ·)
  | .before _ => none

/-- The body of the loop where the map is known: the line, the step, and the library behind it. -/
def visitMap (u : Unwinding) (frameNum : Nat) (regs : Regs .uint64) (map : LoadedMap) :
    Option BacktraceLine × Stepped × Elf :=
  let relPc := map.elf.getRelPc regs.pc map.info.start map.elfOffset
  -- for other frames the address of the call is the one before the return address
  let adjustedRelPc := if frameNum ≠ 0 then relPc - u.arch.getPcAdjustment relPc else relPc
  match map.elf.getFunctionName u.turns relPc with
  | none => (none, none, map.elf)
  | some (function, elf) =>
    let (stepped, elf) := elf.step u.arch u.turns relPc adjustedRelPc map.elfOffset regs u.memory u.order
    (some ⟨frameNum, relPc, some map.info.name, function⟩, stepped, elf)

/-- The body of the loop. -/
def visit (u : Unwinding) (frameNum : Nat) (regs : Regs .uint64) (maps : List LoadedMap) :
    Option BacktraceLine × Stepped × List LoadedMap :=
  match find maps regs.pc with
  | none => (some ⟨frameNum, regs.pc, none, none⟩, some (.ok none), maps)
  | some (i, map) =>
    let (line, stepped, elf) := visitMap u frameNum regs map
    (line, stepped, maps.set i { map with elf := elf })

/-- The lines of a thread, and how the loop ended: `none` where it did not. -/
structure Backtrace where
  lines : List BacktraceLine
  ended : Option (Except Halt Unit)
  deriving DecidableEq

/-- The loop, from a frame on, with the number of frames that may still be visited. -/
def loop (u : Unwinding) : Nat → Nat → Regs .uint64 → List LoadedMap → Backtrace × List LoadedMap
  | 0, _, _, maps => (⟨[], some (.ok ())⟩, maps)
  | left + 1, frameNum, regs, maps =>
    match visit u frameNum regs maps with
    | (line, none, maps) => (⟨line.toList, none⟩, maps)
    | (line, some (.error halt), maps) => (⟨line.toList, some (.error halt)⟩, maps)
    | (line, some (.ok none), maps) => (⟨line.toList, some (.ok ())⟩, maps)
    | (line, some (.ok (some caller)), maps) =>
      let (rest, maps) := loop u left (frameNum + 1) caller maps
      (⟨line.toList ++ rest.lines, rest.ended⟩, maps)

/-- `Unwind`. -/
def unwind (u : Unwinding) (regs : Regs .uint64) (maps : List LoadedMap) : Backtrace × List LoadedMap :=
  loop u HAWKEYE_MAX_FRAMES 0 regs maps

/-- `Unwind` for one thread after the other, with the maps of the process. After one that does not come to
its end there is no other. -/
def unwindAll (maps : List LoadedMap) : List (Unwinding × Regs .uint64) → List Backtrace
  | [] => []
  | (u, regs) :: threads =>
    match unwind u regs maps with
    | (backtrace, maps) =>
      match backtrace.ended with
      | some (.ok ()) => backtrace :: unwindAll maps threads
      | _ => [backtrace]

end Unwinder

namespace BacktraceLine

/-- `map_name`, or what stands for it. -/
def mapText (line : BacktraceLine) : Bytes :=
  match line.mapName with
  | none => ascii "<unknown>".toList
  | some [] => ascii "<anonymous>".toList
  | some name => name

/-- `%d` of an `int`. -/
def formatInt (value : BitVec 32) : Bytes :=
  if value.msb then 0x2d :: Numeral.print 10 1 (-value).toNat else Numeral.print 10 1 value.toNat

/-- The text of `DumpBacktraceLine`. -/
def text (line : BacktraceLine) : Bytes :=
  ascii "    #".toList ++ Numeral.print 10 2 line.counter ++ ascii " pc ".toList ++
    Numeral.print 16 16 line.pc.toNat ++ ascii "  ".toList ++ line.mapText ++
    match line.function with
    | none => []
    | some (name, offset) =>
      ascii " (".toList ++ name ++ [0x2b] ++ formatInt (offset.setWidth 32) ++ ascii ")".toList

/-- `DumpBacktraceLine`, with what lies behind the newline in the memory that `RecordNewline` gets. -/
def dump (behind : Bytes) (line : BacktraceLine) : RecordCall := .recordNewline (some line.text) behind

end BacktraceLine

end Dolin.Hawkeye
