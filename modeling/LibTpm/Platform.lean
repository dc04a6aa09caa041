import LibTpm.Base.Process
import LibTpm.Command

namespace LibTpm.Platform

open LibTpm.Base.Process LibTpm.Command

variable {W : Type}

/-- The timeouts in milliseconds, of the C type unsigned long. -/
structure ChipTimeouts where
  msecA : UInt64
  msecB : UInt64
  msecC : UInt64
  msecD : UInt64
  deriving DecidableEq, Repr

def tpmTimeouts : ChipTimeouts := ⟨750, 2000, 200, 30⟩

structure ChipData where
  locality : UInt8
  timeouts : ChipTimeouts
  deriving DecidableEq, Repr

def tpmChipData : ChipData := ⟨-1, tpmTimeouts⟩

structure TimeoutOps (W : Type) where
  timeoutInitUs : UInt32 → StateM W UInt64
  timeoutElapsed : UInt64 → StateM W Bool

/-- The object that a register read is stored to: a local variable of the
driver, or a byte of the header or the data of the receive buffer. -/
inductive Dest
  | variable
  | header (i : Nat)
  | data (i : Nat)
  deriving DecidableEq, Repr

def Dest.Inside : Dest → Prop
  | .variable => True
  | .header i => i < Constants.tpmHeaderSize
  | .data i => i < Constants.maxCmdData

instance : DecidablePred Dest.Inside := fun d => by
  cases d <;> unfold Dest.Inside <;> infer_instance

/-- The register accesses that tpm2_fifo.c is linked against, and its timer.
The integer is the return value of the access. -/
structure FifoPort (W : Type) extends TimeoutOps W where
  writeByte : UInt16 → UInt8 → StateM W Int
  readByte : UInt16 → Dest → StateM W (Int × UInt8)
  readChunk : UInt16 → (len : UInt8) → StateM W (Int × Vector UInt8 len.toNat)

/-- A port whose registers always hold `answer` and whose timer never ends. -/
def FifoPort.steady (answer : UInt16 → UInt8) : FifoPort Unit where
  timeoutInitUs _ := pure 0
  timeoutElapsed _ := pure false
  writeByte _ _ := pure 0
  readByte reg _ := pure (0, answer reg)
  readChunk reg len := pure (0, Vector.replicate len.toNat (answer reg))

/-- The function pointers through which tpm2_cmds.c reaches the device. -/
structure Interface (W : Type) where
  getInfo : ChipData → UInt8 → Proc W Int
  send : ChipData → TpmCmd → Proc W Int
  receive : ChipData → TpmCmd → Proc W (Int × TpmCmd)
  requestAccess : ChipData → UInt8 → Proc W (Int × ChipData)
  releaseLocality : ChipData → UInt8 → Proc W Int

/-- What the driver did at its port and what it was answered. -/
inductive Access
  | write (reg : UInt16) (val : UInt8) (err : Int)
  | read (reg : UInt16) (dst : Dest) (err : Int) (val : UInt8)
  | readChunk (reg : UInt16) (len : UInt8) (err : Int)
  | timeoutInit (usec : UInt32) (cnt : UInt64)
  | timeoutElapsed (cnt : UInt64) (elapsed : Bool)
  deriving DecidableEq, Repr

def TimeoutOps.recorded (ops : TimeoutOps W) : TimeoutOps (W × List Access) where
  timeoutInitUs usec := record (Access.timeoutInit usec) (ops.timeoutInitUs usec)
  timeoutElapsed cnt := record (Access.timeoutElapsed cnt) (ops.timeoutElapsed cnt)

/-- The same port with a log of its accesses. -/
def FifoPort.recorded (port : FifoPort W) : FifoPort (W × List Access) where
  toTimeoutOps := port.toTimeoutOps.recorded
  writeByte reg val := record (Access.write reg val) (port.writeByte reg val)
  readByte reg dst := record (fun r => Access.read reg dst r.1 r.2) (port.readByte reg dst)
  readChunk reg len := record (fun r => Access.readChunk reg len r.1) (port.readChunk reg len)

end LibTpm.Platform
