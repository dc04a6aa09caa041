import LibTpm.Commands
import LibTpm.Queries
import LibTpm.Spi

namespace LibTpm.Library

open LibTpm.Base.Process LibTpm.Command LibTpm.Constants LibTpm.Endian LibTpm.Platform
open LibTpm.Fifo LibTpm.Spi LibTpm.Commands LibTpm.Queries LibTpm.Getcap

variable [Host] {W : Type}

def tpmGetLastTransportError : StateM (Globals W) Int := fun g => (g.tpmLastTransportError, g)

def setSpidev (transport : SpiOps W) : StateM (Globals W) Unit := fun g =>
  ((), { g with tpmSpidev := transport })

def setInterface (ops : TimeoutOps W) : StateM (Globals W) Unit := fun g =>
  ((), { g with tpmTimeoutOps := ops, interfaceSet := true })

def interfaceIsSet : StateM (Globals W) Bool := fun g => (g.interfaceSet, g)

/-- The library timer is there when the library is built with one. -/
def tpmInterfaceInit (libTimer : Option (TimeoutOps W)) (fuel : Nat) (transport : SpiOps W)
    (timeoutOps : Option (TimeoutOps W)) (chipData : ChipData) (locality : UInt8) :
    Proc (Globals W) (Int × ChipData) := do
  setSpidev transport
  let some ops := timeoutOps.or libTimer | return (tpmInvalidParam, chipData)
  setInterface ops
  let (err, chipData) ← tpm2FifoRequestAccess spiPort fuel chipData locality
  if err ≠ 0 then return (err, chipData)
  let err ← tpm2GetInfo spiPort chipData locality
  return (err, chipData)

/-- A call through the interface pointer. A call before the pointer is set
does not return. -/
def withInterface {α : Type} (call : Interface (Globals W) → Proc (Globals W) α) (fuel : Nat) :
    Proc (Globals W) α := do
  if ← (interfaceIsSet : StateM (Globals W) Bool) then
    call (fifoOps spiPort fuel)
  else Proc.suspend

def tpmInterfaceClose (fuel : Nat) (chipData : ChipData) (locality : UInt8) :
    Proc (Globals W) Int :=
  withInterface (fun interface => interface.releaseLocality chipData locality) fuel

/-- A call of the public interface with all its arguments. The context of the
callbacks may be of any type. -/
inductive PublicCall (W : Type) : Type 1
  | interfaceInit (transport : SpiOps W) (timeoutOps : Option (TimeoutOps W)) (chipData : ChipData)
      (locality : UInt8)
  | interfaceClose (chipData : ChipData) (locality : UInt8)
  | startup (chipData : ChipData) (mode : UInt16)
  | pcrExtend (chipData : ChipData) (index : UInt32) (algorithm : UInt16)
      (digest : Option (Nat → UInt8)) (digestLen : UInt32)
  | pcrReadSingle (chipData : ChipData) (index : UInt32) (algorithm : UInt16)
      (pcrDigestRead : Option (List UInt8))
  | pcrAllocateAuthPassword (chip : Option ChipData) (password : Option (Nat → UInt8))
      (passwordLen : UInt16) (banks : Option (Nat → TpmPcrAllocateBank)) (out : Option AllocateOut)
  | getcapQueryAlgs (chip : Option ChipData) (query : Option (List TpmAlgQuery))
  | getcapQueryPcrs (chip : Option ChipData) (query : Option (List TpmPcrBankQuery))
  | hasAlg (chip : Option ChipData) (algId : UInt16) (outSupported : Option Bool)
  | getAlgProps (chip : Option ChipData) (algId : UInt16) (out : Option AlgPropsOut)
  | forEachAlgProps (σ : Type) (chip : Option ChipData) (mustSetMask mustClearMask : UInt32)
      (cb : Option (UInt16 → UInt32 → σ → Bool × σ)) (ctx : σ)
  | forEachPcrBank (σ : Type) (chip : Option ChipData)
      (cb : Option (UInt16 → List UInt8 → UInt8 → σ → Bool × σ)) (ctx : σ)
  | getLastTransportError

/-- The return value of a public call. -/
def PublicCall.run (libTimer : Option (TimeoutOps W)) (stack : TpmCmd) (fuel : Nat) :
    PublicCall W → Proc (Globals W) Int
  | .interfaceInit transport timeoutOps chipData locality =>
      return (← tpmInterfaceInit libTimer fuel transport timeoutOps chipData locality).1
  | .interfaceClose chipData locality => tpmInterfaceClose fuel chipData locality
  | .startup chipData mode => withInterface (fun i => tpmStartup i chipData mode) fuel
  | .pcrExtend chipData index algorithm digest digestLen =>
      withInterface (fun i => tpmPcrExtend i chipData index algorithm digest digestLen) fuel
  | .pcrReadSingle chipData index algorithm buf =>
      withInterface (fun i => return (← tpmPcrReadSingle i stack chipData index algorithm buf).1) fuel
  | .pcrAllocateAuthPassword chip password passwordLen banks out =>
      withInterface (fun i =>
        return (← tpmPcrAllocateAuthPassword i chip password passwordLen banks out).1) fuel
  | .getcapQueryAlgs chip query =>
      withInterface (fun i => return (← tpmGetcapQueryAlgs i stack chip query).1) fuel
  | .getcapQueryPcrs chip query =>
      withInterface (fun i => return (← tpmGetcapQueryPcrs i stack chip query).1) fuel
  | .hasAlg chip algId out =>
      withInterface (fun i => return (← tpmHasAlg i stack chip algId out).1) fuel
  | .getAlgProps chip algId out =>
      withInterface (fun i => return (← tpmGetAlgProps i stack chip algId out).1) fuel
  | .forEachAlgProps _ chip mustSet mustClear cb ctx =>
      withInterface (fun i => return (← tpmForEachAlgProps i stack chip mustSet mustClear cb ctx).1) fuel
  | .forEachPcrBank _ chip cb ctx =>
      withInterface (fun i => return (← tpmForEachPcrBank i stack chip cb ctx).1) fuel
  | .getLastTransportError => liftM (tpmGetLastTransportError : StateM (Globals W) Int)

end LibTpm.Library
