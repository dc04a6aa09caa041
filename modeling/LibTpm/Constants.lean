namespace LibTpm.Constants

/-- The return values of the library. Functions whose C type is int return
these values too, except for the size that the FIFO receive may return. -/
inductive TpmRetValue
  | success
  | errResponse
  | invalidParam
  | errTimeout
  | errTransfer
  | errIterationLimit
  | errAlreadyInit
  deriving DecidableEq, Repr

def TpmRetValue.code : TpmRetValue → Int
  | .success => 0
  | .errResponse => -1
  | .invalidParam => -2
  | .errTimeout => -3
  | .errTransfer => -4
  | .errIterationLimit => -5
  | .errAlreadyInit => -6

abbrev tpmSuccess : Int := TpmRetValue.success.code
abbrev tpmErrResponse : Int := TpmRetValue.errResponse.code
abbrev tpmInvalidParam : Int := TpmRetValue.invalidParam.code
abbrev tpmErrTimeout : Int := TpmRetValue.errTimeout.code
abbrev tpmErrTransfer : Int := TpmRetValue.errTransfer.code
abbrev tpmErrIterationLimit : Int := TpmRetValue.errIterationLimit.code
abbrev tpmErrAlreadyInit : Int := TpmRetValue.errAlreadyInit.code

@[simp] theorem code_success : TpmRetValue.success.code = 0 := rfl
@[simp] theorem code_errResponse : TpmRetValue.errResponse.code = -1 := rfl
@[simp] theorem code_invalidParam : TpmRetValue.invalidParam.code = -2 := rfl
@[simp] theorem code_errTimeout : TpmRetValue.errTimeout.code = -3 := rfl
@[simp] theorem code_errTransfer : TpmRetValue.errTransfer.code = -4 := rfl
@[simp] theorem code_errIterationLimit : TpmRetValue.errIterationLimit.code = -5 := rfl
@[simp] theorem code_errAlreadyInit : TpmRetValue.errAlreadyInit.code = -6 := rfl

theorem code_injective {a b : TpmRetValue} (h : a.code = b.code) : a = b := by
  cases a <;> cases b <;> first | rfl | simp at h

def tpmAlgNull : UInt16 := 0x0010

def tpmPcrSelectSize : UInt8 := 3

def tpmDefaultPageCount : UInt32 := 16
def tpmMaxPages : Nat := 64
def tpmMaxPcrSelections : Nat := 8
def tpmMaxAlgProperties : Nat := 64

/-! Offsets in the FIFO register space of a locality. -/

def tpmFifoRegAccess : UInt32 := 0x000
def tpmFifoRegStatus : UInt32 := 0x018
def tpmFifoRegBurstCountLo : UInt32 := 0x019
def tpmFifoRegBurstCountHi : UInt32 := 0x020
def tpmFifoRegDataFifo : UInt32 := 0x024
def tpmFifoRegVendid : UInt32 := 0xF00
def tpmFifoRegRevid : UInt32 := 0xF04

def tpmStNoSessions : UInt16 := 0x8001
def tpmStSessions : UInt16 := 0x8002

def tpmMinAuthSize : UInt32 := 9
def tpmRsPw : UInt32 := 0x40000009
def tpmRhPlatform : UInt32 := 0x4000000C
def tpmZeroNonceSize : UInt32 := 0
def tpmAttributesDisable : UInt32 := 0
def tpmZeroHmacSize : UInt32 := 0
def tpmSingleHashCount : UInt32 := 1

def tpmCmdStartup : UInt32 := 0x0144
def tpmCmdPcrRead : UInt32 := 0x017E
def tpmCmdPcrExtend : UInt32 := 0x0182
def tpmCmdGetCapability : UInt32 := 0x017A
def tpmCmdPcrAllocate : UInt32 := 0x012B

def tpmCapAlgs : UInt32 := 0x00000000
def tpmCapPcrs : UInt32 := 0x00000005

def tpmResponseSuccess : UInt32 := 0x0000
def tpmRcInitialize : UInt32 := 0x0100

def tpmAccessActiveLocality : UInt8 := (1 : UInt8) <<< 5
def tpmAccessValid : UInt8 := (1 : UInt8) <<< 7
def tpmAccessRelinquishLocality : UInt8 := (1 : UInt8) <<< 5
def tpmAccessRequestUse : UInt8 := (1 : UInt8) <<< 1
def tpmAccessRequestPending : UInt8 := (1 : UInt8) <<< 2

def tpmStatValid : UInt8 := (1 : UInt8) <<< 7
def tpmStatCommandReady : UInt8 := (1 : UInt8) <<< 6
def tpmStatGo : UInt8 := (1 : UInt8) <<< 5
def tpmStatAvail : UInt8 := (1 : UInt8) <<< 4
def tpmStatExpect : UInt8 := (1 : UInt8) <<< 3

/-- The argument of the receive pass that reads the header. -/
def tpmReadHeader : Int := -1

def tpmHeaderSize : Nat := 10
def maxSizeCmdbuf : Nat := 256
def maxCmdData : Nat := maxSizeCmdbuf - tpmHeaderSize
def maxDigestSize : Nat := 48

theorem invalidParam_ne_success : tpmInvalidParam ≠ tpmSuccess := by decide

theorem errResponse_ne_success : tpmErrResponse ≠ tpmSuccess := by decide

theorem size_ne_readHeader (n : Nat) : (n : Int) ≠ tpmReadHeader := by
  have hneg : tpmReadHeader < 0 := by decide
  omega

end LibTpm.Constants
