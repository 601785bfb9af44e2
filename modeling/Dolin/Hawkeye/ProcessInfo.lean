import Dolin.Hawkeye.Sections

/-!
# The line about a process and a thread

`ReadFile` and `WriteProcessAndThreadInfo` of `hawkeye_dumper_utils.cpp`. The buffers have the contents
they happen to have: what a function stores lands on them, with every access in a ledger, and the rest
stays.
-/

namespace Dolin.Hawkeye

open Region Daemon

/-- How the reads of a file end. -/
inductive ReadEnd where
  | eof
  | error
  deriving DecidableEq

/-- A file that was opened: its contents, and what the reads give that are asked for enough, up to the
end of the file or an error. -/
structure ProcFile where
  contents : Bytes
  chunks : List Bytes
  ends : ReadEnd
  nonempty : ∀ chunk ∈ chunks, chunk ≠ []
  starts : chunks.flatten <+: contents
  whole : ends = .eof → chunks.flatten = contents

/-- What `ReadFile` leaves in `out_buffer`, its return value, `none` for -1, and its stores. -/
structure ReadResult where
  buffer : Bytes
  ret : Option Nat
  stores : List Access

/-- Behind the loop, where the last read did not fail. -/
def terminate (buffer : Bytes) (overallRead : Nat) : ReadResult :=
  { buffer := overlay buffer overallRead [0], ret := some overallRead
    stores := [⟨buffer.length, overallRead + 1⟩] }

/-- The loop. A read gives no more than it is asked for. -/
def readLoop (bufferSize : Nat) (ends : ReadEnd) : List Bytes → Bytes → Nat → ReadResult
  | [], buffer, overallRead =>
    match ends with
    | .eof => terminate buffer overallRead
    | .error => { buffer := buffer, ret := none, stores := [] }
  | chunk :: chunks, buffer, overallRead =>
    let got := chunk.take (bufferSize - overallRead - 1)
    if got = [] then terminate buffer overallRead
    else
      let stored := overlay buffer overallRead got
      let rest :=
        if bufferSize - 1 ≤ overallRead + got.length then terminate stored (overallRead + got.length)
        else readLoop bufferSize ends chunks stored (overallRead + got.length)
      { rest with stores := ⟨buffer.length, overallRead + got.length⟩ :: rest.stores }

/-- `ReadFile`. The file is `none` where `open` fails. -/
def readFile (file : Option ProcFile) (outBuffer : Bytes) (bufferSize : Nat) : ReadResult :=
  match file with
  | none => { buffer := outBuffer, ret := none, stores := [] }
  | some file => readLoop bufferSize file.ends file.chunks outBuffer 0

/-- The buffers of `WriteProcessAndThreadInfo` when it is called. -/
structure InfoBuffers where
  processNameBuffer : Bytes
  procFilePath : Bytes
  procCommContent : Bytes

/-- They have their sizes: `char proc_file_path[25]`, `char proc_comm_content[16]` and the size that the
caller passes. -/
structure InfoBuffers.Sized (b : InfoBuffers) (processNameBufferSize : Nat) : Prop where
  processName : b.processNameBuffer.length = processNameBufferSize
  filePath : b.procFilePath.length = 25
  comm : b.procCommContent.length = 16

/-- `snprintf` of a path into `proc_file_path`. -/
def printPath (procFilePath path : Bytes) : Bytes := overlay procFilePath 0 (path.take 24 ++ [0])

/-- `/proc/<id>/<name>`. -/
def procPath (id : Int32) (name : String) : Bytes :=
  ascii "/proc/".toList ++ appendInt id ++ ascii ['/'] ++ ascii name.toList

/-- What `WriteProcessAndThreadInfo` leaves: the buffers that it prints, and its stores. -/
structure InfoResult where
  processNameBuffer : Bytes
  procCommContent : Bytes
  stores : List Access

/-- `comm` usually has a newline at its end, which becomes a zero byte: the buffer, and the store. -/
def stripNewline (comm : ReadResult) : Bytes × List Access :=
  match comm.ret with
  | some (last + 1) =>
    if comm.buffer[last]? = some 0x0a then
      (overlay comm.buffer last [0], [⟨comm.buffer.length, last + 1⟩])
    else (comm.buffer, [])
  | _ => (comm.buffer, [])

/-- `WriteProcessAndThreadInfo` up to the line it records, over the files that `open` finds. The second
of the two characters that it sets to zero first is that of `proc_file_path`. -/
def writeProcessAndThreadInfo (proc : Bytes → Option ProcFile) (pid tid : Int32) (b : InfoBuffers)
    (processNameBufferSize : Nat) : InfoResult :=
  let processName := overlay b.processNameBuffer 0 [0]
  let path := overlay b.procFilePath 0 [0]
  let path := printPath path (procPath pid "cmdline")
  let cmdline := readFile (proc (cstring path)) processName processNameBufferSize
  let path := printPath path (procPath tid "comm")
  let comm := readFile (proc (cstring path)) b.procCommContent 16
  { processNameBuffer := cmdline.buffer
    procCommContent := (stripNewline comm).1
    stores := [⟨b.processNameBuffer.length, 1⟩, ⟨b.procFilePath.length, 1⟩] ++ cmdline.stores ++
      comm.stores ++ (stripNewline comm).2 }

/-- The line that is recorded: `"pid: %d, tid: %d, name: %s,  >>> %s <<<"`. -/
def infoLine (pid tid : Int32) (r : InfoResult) : Bytes :=
  ascii "pid: ".toList ++ appendInt pid ++ ascii ", tid: ".toList ++ appendInt tid ++
    ascii ", name: ".toList ++ cstring r.procCommContent ++ ascii ",  >>> ".toList ++
    cstring r.processNameBuffer ++ ascii " <<<".toList

end Dolin.Hawkeye
