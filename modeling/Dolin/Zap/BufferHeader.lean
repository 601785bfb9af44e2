import Dolin.Base.Abi
import Dolin.Base.Region

/-!
# The header of the mapped log buffer

`zap_buffer_header.cpp`. The header lies at the start of the mapping: the magic byte, the log
length, the path length, the path, the size limit, the compress byte. `InitHeader` puts the
compress byte one `size_t` further than `IsCompress` and `CalculateHeaderLen` have it; the model
keeps both offsets as the source computes them.

A reader gets the bytes behind `data_ptr` and `data_size`. The two are separate because nothing in
the class ties them; a read past the bytes answers `none`.
-/

namespace Dolin.Zap

open Region

/-- `dolin_zap::kMagicHeader`. -/
def kMagicHeader : UInt8 := 0x11

/-- `dolin_zap::Header`. -/
structure Header where
  magic : UInt8
  logLen : Nat
  logPathLen : Nat
  logPath : Bytes
  compress : Bool
  limitSize : Nat
  deriving DecidableEq, Repr

namespace BufferHeader

variable (abi : Abi)

/-- `CalculateHeaderLen`. -/
def calculateHeaderLen (pathLen : Nat) : Nat :=
  abi.wrap (1 + abi.sizeofSizeT + abi.sizeofSizeT + pathLen + abi.sizeofSizeT + 1)

/-- `InitHeader`: the six copies in the source's order, or nothing where the path alone does not
fit. -/
def initHeader (m : Bytes) (dataSize : Nat) (header : Header) : Option Bytes :=
  let w := abi.sizeofSizeT
  if abi.wrap (1 + w + w + header.logPathLen) > dataSize then some m
  else do
    let m ← store m 0 [header.magic]
    let m ← storeWord w m 1 header.logLen
    let m ← storeWord w m (1 + w) header.logPathLen
    let m ← store m (1 + w + w) (header.logPath.take header.logPathLen)
    let m ← storeWord w m (1 + w + w + header.logPathLen) header.limitSize
    let compress : UInt8 := if header.compress then 1 else 0
    store m (1 + w + w + header.logPathLen + w + w) [compress]

/-- `IsAvailable`. -/
def isAvailable (m : Bytes) : Option Bool := do
  let b ← load m 0 1
  return b == [kMagicHeader]

/-- `GetHeader`. The path length is taken as it stands. Where there is no header the answer is all
zeros, and its path is null. -/
def getHeader (m : Bytes) : Option Header := do
  let w := abi.sizeofSizeT
  if ← isAvailable m then
    let logLen ← loadWord w m 1
    let logPathLen ← loadWord w m (1 + w)
    let logPath ← load m (1 + w + w) logPathLen
    let limitSize ← loadWord w m (1 + w + w + logPathLen)
    let compress ← load m (1 + w + w + logPathLen + w) 1
    return { magic := kMagicHeader, logLen, logPathLen, logPath, compress := compress == [1],
             limitSize }
  else
    return { magic := 0, logLen := 0, logPathLen := 0, logPath := [], compress := false,
             limitSize := 0 }

/-- `GetLogPathLen`. -/
def getLogPathLen (m : Bytes) (dataSize : Nat) : Option Nat := do
  if ← isAvailable m then
    let len ← loadWord abi.sizeofSizeT m (1 + abi.sizeofSizeT)
    return if len > 0 ∧ len < abi.sub dataSize (calculateHeaderLen abi 0) then len else 0
  else return 0

/-- `GetHeaderLen`. -/
def getHeaderLen (m : Bytes) (dataSize : Nat) : Option Nat := do
  if ← isAvailable m then
    let len ← getLogPathLen abi m dataSize
    return calculateHeaderLen abi len
  else return 0

/-- `SetLogLen`. -/
def setLogLen (m : Bytes) (len : Nat) : Option Bytes := do
  if ← isAvailable m then storeWord abi.sizeofSizeT m 1 len else return m

/-- `GetLogLen`. The test is strict: a region filled to its last byte reads back as empty. -/
def getLogLen (m : Bytes) (dataSize : Nat) : Option Nat := do
  if ← isAvailable m then
    let len ← loadWord abi.sizeofSizeT m 1
    let headerLen ← getHeaderLen abi m dataSize
    return if len > 0 ∧ len < abi.sub dataSize headerLen then len else 0
  else return 0

/-- `GetLogPath`: the C string it allocates, or null. -/
def getLogPath (m : Bytes) (dataSize : Nat) : Option (Option Bytes) := do
  if ← isAvailable m then
    let len ← getLogPathLen abi m dataSize
    if len > 0 then
      let path ← load m (1 + abi.sizeofSizeT + abi.sizeofSizeT) len
      return some path
    else return none
  else return none

/-- `GetLimitSize`. -/
def getLimitSize (m : Bytes) (dataSize : Nat) : Option Nat := do
  if ← isAvailable m then
    let len ← getLogPathLen abi m dataSize
    loadWord abi.sizeofSizeT m (1 + abi.sizeofSizeT + abi.sizeofSizeT + len)
  else return 0

/-- `IsCompress`. -/
def isCompress (m : Bytes) (dataSize : Nat) : Option Bool := do
  let w := abi.sizeofSizeT
  if ← isAvailable m then
    let len ← getLogPathLen abi m dataSize
    let compress ← load m (1 + w + w + len + w) 1
    return compress == [1]
  else return false

/-- `GetDataPtr`, as an offset from the start of the mapping. -/
def getDataPtr (m : Bytes) (dataSize : Nat) : Option Nat := getHeaderLen abi m dataSize

/-- `GetWritePtr`, as an offset from the start of the mapping. -/
def getWritePtr (m : Bytes) (dataSize : Nat) : Option Nat := do
  let headerLen ← getHeaderLen abi m dataSize
  let logLen ← getLogLen abi m dataSize
  return headerLen + logLen

end BufferHeader

end Dolin.Zap
