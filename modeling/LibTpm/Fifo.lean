import LibTpm.Platform

namespace LibTpm.Fifo

open LibTpm.Base.Process LibTpm.Command LibTpm.Constants LibTpm.Endian LibTpm.Platform

def localityStartAddress (locality : UInt8) : UInt16 := UInt16.ofNat (0x1000 * locality.toNat)

/-- A register of the locality page at `base`: the 32-bit sum is narrowed to
the 16-bit parameter of the access functions. -/
def fifoReg (base : UInt16) (offset : UInt32) : UInt16 := (base.toUInt32 + offset).toUInt16

def burstcountOf (byte0 byte1 : UInt8) : UInt16 := (byte1.toUInt16 <<< 8) + byte0.toUInt16

def intOfUint32 (x : UInt32) : Int := x.toBitVec.toInt

def sizeT (x : Int) : Nat := (x % 2 ^ 64).toNat

variable {W : Type} (port : FifoPort W) (fuel : Nat)

def tpm2GetInfo (_chipData : ChipData) (locality : UInt8) : Proc W Int := do
  let base := localityStartAddress locality
  let (err, _) ← port.readChunk (fifoReg base tpmFifoRegVendid) 4
  if err < 0 then return err
  let (err, _) ← port.readByte (fifoReg base tpmFifoRegRevid) .variable
  if err < 0 then return err
  return tpmSuccess

def waitRegBitsLoop (reg : UInt16) (set : UInt8) (timeoutDelay : UInt64) :
    Nat → Proc W (Int × UInt8)
  | 0 => Proc.suspend
  | fuel + 1 => do
      let (err, status) ← port.readByte reg .variable
      if err < 0 then return (err, status)
      if status &&& set = set then return (tpmSuccess, status)
      if ← port.timeoutElapsed timeoutDelay then return (tpmErrTimeout, status)
      waitRegBitsLoop reg set timeoutDelay fuel

def tpm2WaitRegBits (reg : UInt16) (set : UInt8) (timeout : UInt64) : Proc W (Int × UInt8) := do
  let timeoutDelay ← port.timeoutInitUs (timeout * 1000).toUInt32
  waitRegBitsLoop port reg set timeoutDelay fuel

def tpm2FifoRequestAccess (chipData : ChipData) (locality : UInt8) : Proc W (Int × ChipData) := do
  let base := localityStartAddress locality
  let err ← port.writeByte (fifoReg base tpmFifoRegAccess) tpmAccessRequestUse
  if err < 0 then return (err, chipData)
  let (err, _) ← tpm2WaitRegBits port fuel (fifoReg base tpmFifoRegAccess)
    tpmAccessActiveLocality chipData.timeouts.msecA
  if err = 0 then return (tpmSuccess, { chipData with locality := locality })
  return (err, chipData)

def tpm2FifoReleaseLocality (_chipData : ChipData) (locality : UInt8) : Proc W Int := do
  let base := localityStartAddress locality
  let (err, buf) ← port.readByte (fifoReg base tpmFifoRegAccess) .variable
  if err < 0 then return err
  if buf &&& (tpmAccessRequestPending ||| tpmAccessValid) ≠ 0 then
    port.writeByte (fifoReg base tpmFifoRegAccess) tpmAccessRelinquishLocality
  else return tpmErrResponse

def tpm2FifoPrepare (chipData : ChipData) : Proc W Int := do
  let base := localityStartAddress chipData.locality
  let err ← port.writeByte (fifoReg base tpmFifoRegStatus) tpmStatCommandReady
  if err < 0 then return err
  let (err, _) ← tpm2WaitRegBits port fuel (fifoReg base tpmFifoRegStatus) tpmStatCommandReady
    chipData.timeouts.msecB
  if err < 0 then return err
  return tpmSuccess

def getBurstcountLoop (base : UInt16) (timeoutDelay : UInt64) : Nat → Proc W (Int × UInt16)
  | 0 => Proc.suspend
  | fuel + 1 => do
      let (err, byte0) ← port.readByte (fifoReg base tpmFifoRegBurstCountLo) .variable
      if err < 0 then return (err, 0)
      let (err, byte1) ← port.readByte (fifoReg base tpmFifoRegBurstCountHi) .variable
      if err < 0 then return (err, 0)
      if burstcountOf byte0 byte1 ≠ 0 then return (tpmSuccess, burstcountOf byte0 byte1)
      if ← port.timeoutElapsed timeoutDelay then return (tpmErrTimeout, 0)
      getBurstcountLoop base timeoutDelay fuel

def tpm2FifoGetBurstcount (chipData : ChipData) : Proc W (Int × UInt16) := do
  let timeoutDelay ← port.timeoutInitUs (chipData.timeouts.msecA * 1000).toUInt32
  getBurstcountLoop port (localityStartAddress chipData.locality) timeoutDelay fuel

def writeHeader (base : UInt16) : List UInt8 → Proc W Int
  | [] => return tpmSuccess
  | b :: bs => do
      let err ← port.writeByte (fifoReg base tpmFifoRegDataFifo) b
      if err < 0 then return err
      writeHeader base bs

/-- The inner loop of the send: at most `burstcnt` data bytes. It returns the
index of the next byte of the command. -/
def writeBurst (base : UInt16) (buf : TpmCmd) (len : Nat) : Nat → Nat → Proc W (Int × Nat)
  | 0, index => return (tpmSuccess, index)
  | burstcnt + 1, index =>
      if index < len then do
        let err ← port.writeByte (fifoReg base tpmFifoRegDataFifo) (buf.data (index - tpmHeaderSize))
        if err < 0 then return (err, index)
        writeBurst base buf len burstcnt (index + 1)
      else return (tpmSuccess, index)

/-- The outer loop of the send, with its own fuel. -/
def writeData (chipData : ChipData) (base : UInt16) (buf : TpmCmd) (len : Nat) :
    Nat → Nat → Proc W Int
  | 0, index => if index < len then Proc.suspend else return tpmSuccess
  | n + 1, index =>
      if index < len then do
        let (err, burstcnt) ← tpm2FifoGetBurstcount port fuel chipData
        if err < 0 then return err
        let (err, index) ← writeBurst port base buf len burstcnt.toNat index
        if err < 0 then return err
        writeData chipData base buf len n index
      else return tpmSuccess

/-- The part of the send that follows the COMMAND_READY test. -/
def sendBytes [Host] (chipData : ChipData) (buf : TpmCmd) : Proc W Int := do
  let base := localityStartAddress chipData.locality
  let err ← writeHeader port base buf.header
  if err < 0 then return err
  let len := (be32toh buf.cmdSize).toNat
  if len < tpmHeaderSize then return tpmInvalidParam
  let err ← writeData port fuel chipData base buf len fuel tpmHeaderSize
  if err < 0 then return err
  let (err, status) ← tpm2WaitRegBits port fuel (fifoReg base tpmFifoRegStatus) tpmStatValid
    chipData.timeouts.msecC
  if err < 0 then return err
  if status &&& tpmStatExpect ≠ 0 then return tpmErrTransfer
  let err ← port.writeByte (fifoReg base tpmFifoRegStatus) tpmStatGo
  if err < 0 then return err
  return tpmSuccess

def tpm2FifoSend [Host] (chipData : ChipData) (buf : TpmCmd) : Proc W Int := do
  let base := localityStartAddress chipData.locality
  let (err, status) ← port.readByte (fifoReg base tpmFifoRegStatus) .variable
  if err < 0 then return err
  if status &&& tpmStatCommandReady = 0 then
    let err ← tpm2FifoPrepare port fuel chipData
    if err < 0 then return err
  sendBytes port fuel chipData buf

structure ReadState where
  loopIndex : Int
  size : Int
  buf : TpmCmd

/-- The object that `read_data[i]` denotes in the pass for the header or in
the pass for the rest of the response. -/
def readDest (bytesExpected : Int) (i : Nat) : Dest :=
  if bytesExpected = tpmReadHeader then .header i else .data i

def storeTo (buf : TpmCmd) (b : UInt8) : Dest → TpmCmd
  | .variable => buf
  | .header i => buf.setByte i b
  | .data i => buf.setData i b

/-- The inner loop of a receive pass: at most `burstcnt` bytes. -/
def readBurst (base : UInt16) (dest : Nat → Dest) (readSize : Int) :
    Nat → ReadState → Proc W (Int × ReadState)
  | 0, st => return (tpmSuccess, st)
  | burstcnt + 1, st =>
      if st.loopIndex < readSize then do
        let dst := dest st.loopIndex.toNat
        let (err, val) ← port.readByte (fifoReg base tpmFifoRegDataFifo) dst
        if err < 0 then return (err, st)
        readBurst base dest readSize burstcnt ⟨st.loopIndex + 1, st.size + 1, storeTo st.buf val dst⟩
      else return (tpmSuccess, st)

/-- The outer loop of a receive pass, with its own fuel. -/
def readLoop (chipData : ChipData) (base : UInt16) (dest : Nat → Dest) (readSize : Int) :
    Nat → ReadState → Proc W (Int × ReadState)
  | 0, st => if st.size < readSize then Proc.suspend else return (tpmSuccess, st)
  | n + 1, st =>
      if st.size < readSize then do
        let (err, burstcnt) ← tpm2FifoGetBurstcount port fuel chipData
        if err < 0 then return (err, st)
        let (err, st) ← readBurst port base dest readSize burstcnt.toNat st
        if err < 0 then return (err, st)
        readLoop chipData base dest readSize n st
      else return (tpmSuccess, st)

/-- One receive pass. It returns the new size and the buffer. -/
def tpm2FifoReadData (chipData : ChipData) (buf : TpmCmd) (base : UInt16) (size : Int)
    (bytesExpected : Int) : Proc W (Int × Int × TpmCmd) := do
  let readSize := if bytesExpected = tpmReadHeader then (tpmHeaderSize : Int) else bytesExpected
  let loopIndex := if bytesExpected = tpmReadHeader then size else size - tpmHeaderSize
  let (err, _) ← tpm2WaitRegBits port fuel (fifoReg base tpmFifoRegStatus) tpmStatAvail
    chipData.timeouts.msecC
  if err < 0 then return (err, size, buf)
  let (err, st) ← readLoop port fuel chipData base (readDest bytesExpected) readSize fuel
    ⟨loopIndex, size, buf⟩
  return (err, st.size, st.buf)

def tpm2FifoReceive [Host] (chipData : ChipData) (buf : TpmCmd) : Proc W (Int × TpmCmd) := do
  let base := localityStartAddress chipData.locality
  let (err, size, buf) ← tpm2FifoReadData port fuel chipData buf base 0 tpmReadHeader
  if err < 0 then return (err, buf)
  let bytesExpected := intOfUint32 (be32toh buf.cmdSize)
  if sizeT bytesExpected > maxSizeCmdbuf then return (tpmInvalidParam, buf)
  if size = bytesExpected then return (size, buf)
  let (err, size, buf) ← tpm2FifoReadData port fuel chipData buf base size bytesExpected
  if err < 0 then return (err, buf)
  if size < bytesExpected then return (tpmErrResponse, buf)
  return (tpmSuccess, buf)

def fifoOps [Host] : Interface W where
  getInfo := tpm2GetInfo port
  send := tpm2FifoSend port fuel
  receive := tpm2FifoReceive port fuel
  requestAccess := tpm2FifoRequestAccess port fuel
  releaseLocality := tpm2FifoReleaseLocality port

end LibTpm.Fifo
