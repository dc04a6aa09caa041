import LibTpm.Fifo

namespace LibTpm.Spi

open LibTpm.Base.Process LibTpm.Constants LibTpm.Platform

variable {W : Type}

def encodeLimit : UInt8 := 64
def tpmSpiAddrPrefix : UInt8 := 0xD4
def retryCount : Nat := 50

/-- The operations of the platform's SPI driver. A NULL output buffer is
`none`; the input bytes are returned, and ignored where the buffer is NULL. -/
structure SpiOps (W : Type) where
  getAccess : StateM W Int
  releaseAccess : StateM W Unit
  start : StateM W Unit
  stop : StateM W Unit
  xfer : (bytelen : Nat) → Option (List UInt8) → StateM W (Int × Vector UInt8 bytelen)

/-- The global variables of the library beside the world they reach. The
interface is a flag: there is one implementation, and NULL before it is set. -/
structure Globals (W : Type) where
  tpmSpidev : SpiOps W
  tpmTimeoutOps : TimeoutOps W
  interfaceSet : Bool
  tpmLastTransportError : Int
  world : W

def platform (m : Globals W → StateM W α) : StateM (Globals W) α := fun g =>
  ((m g g.world).1, { g with world := (m g g.world).2 })

inductive TpmAccess
  | read
  | write
  deriving DecidableEq, Repr

def setTransportError (r : Int) : StateM (Globals W) Unit := fun g =>
  ((), { g with tpmLastTransportError := r })

def tpm2SpiTransfer (dataOut : Option (List UInt8)) (len : UInt8) :
    StateM (Globals W) (Int × Vector UInt8 len.toNat) := do
  let r ← platform (fun g => g.tpmSpidev.xfer len.toNat dataOut)
  if r.1 ≠ 0 then setTransportError r.1
  return r

def waitStates : Nat → StateM (Globals W) Int
  | 0 => return tpmErrTimeout
  | retries + 1 => do
      let (rc, byte) ← tpm2SpiTransfer (some [0]) 1
      if rc ≠ 0 then return tpmErrTransfer
      if byte[0] &&& 0x01 ≠ 0 then return tpmSuccess
      waitStates retries

def spiHeader (reg : UInt16) (access : TpmAccess) (len : UInt8) : List UInt8 :=
  [(if access = .write then 0x00 else 0x80) ||| (len - 1), tpmSpiAddrPrefix,
    (reg >>> 8).toUInt8, reg.toUInt8]

def tpm2SpiStartTransaction (reg : UInt16) (access : TpmAccess) (len : UInt8) :
    StateM (Globals W) Int := do
  if len > encodeLimit then return tpmInvalidParam
  let (rc, response) ← tpm2SpiTransfer (some (spiHeader reg access len)) 4
  if rc ≠ 0 then return tpmErrTransfer
  if response[3] &&& 0x01 ≠ 0 then return tpmSuccess
  waitStates retryCount

def tpm2SpiEndTransaction : StateM (Globals W) Unit := do
  platform (fun g => g.tpmSpidev.stop)
  platform (fun g => g.tpmSpidev.releaseAccess)

def tpm2SpiInit : StateM (Globals W) Int := do
  let rc ← platform (fun g => g.tpmSpidev.getAccess)
  if rc ≠ 0 then
    setTransportError rc
    return tpmErrTransfer
  platform (fun g => g.tpmSpidev.start)
  return 0

/-- One register access. The value is the bytes written, or the bytes that the
data phase of a read stores. A read that fails before its data phase stores
nothing: the zeros given here stand for an object that no caller looks at. -/
def tpm2FifoIo (reg : UInt16) (access : TpmAccess) (len : UInt8) (val : Option (List UInt8)) :
    StateM (Globals W) (Int × Vector UInt8 len.toNat) := do
  let none := Vector.replicate len.toNat 0
  let rc ← tpm2SpiInit
  if rc ≠ 0 then return (rc, none)
  let rc ← tpm2SpiStartTransaction reg access len
  if rc ≠ 0 then
    tpm2SpiEndTransaction
    return (rc, none)
  let (rc, bytes) ← tpm2SpiTransfer (if access = .write then val else Option.none) len
  if rc ≠ 0 then
    tpm2SpiEndTransaction
    return (tpmErrTransfer, bytes)
  tpm2SpiEndTransaction
  return (tpmSuccess, bytes)

def tpm2FifoWriteByte (reg : UInt16) (val : UInt8) : StateM (Globals W) Int := do
  let (rc, _) ← tpm2FifoIo reg .write 1 (some [val])
  return rc

def tpm2FifoReadByte (reg : UInt16) : StateM (Globals W) (Int × UInt8) := do
  let (rc, bytes) ← tpm2FifoIo reg .read 1 none
  return (rc, bytes[0])

def tpm2FifoReadChunk (reg : UInt16) (len : UInt8) :
    StateM (Globals W) (Int × Vector UInt8 len.toNat) := do
  if len ≠ 1 ∧ len ≠ 2 ∧ len ≠ 4 then return (tpmInvalidParam, Vector.replicate len.toNat 0)
  tpm2FifoIo reg .read len none

/-- The port that tpm2_fifo_spi.c and the timer provide to tpm2_fifo.c. -/
def spiPort : FifoPort (Globals W) where
  timeoutInitUs usec := platform (fun g => g.tpmTimeoutOps.timeoutInitUs usec)
  timeoutElapsed cnt := platform (fun g => g.tpmTimeoutOps.timeoutElapsed cnt)
  writeByte reg val := tpm2FifoWriteByte reg val
  readByte reg _ := tpm2FifoReadByte reg
  readChunk reg len := tpm2FifoReadChunk reg len

end LibTpm.Spi
