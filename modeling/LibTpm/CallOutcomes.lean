import LibTpm.Base.Clients
import LibTpm.PublicCalls

namespace LibTpm.CallOutcomes

open LibTpm.Base.Process LibTpm.Base.Process.Proc LibTpm.Base.Clients LibTpm.Command LibTpm.Constants LibTpm.Endian
open LibTpm.Platform LibTpm.Spi LibTpm.Getcap LibTpm.Commands LibTpm.Queries LibTpm.Library LibTpm.PublicCalls

variable {U W : Type}

/-- What a call leaves with its caller: the return value, and the objects that
it may have written to. -/
abbrev Outcome : PublicCall U → Type
  | .interfaceInit _ _ _ _ => Int × ChipData
  | .pcrReadSingle _ _ _ _ => Int × Option (List UInt8)
  | .pcrAllocateAuthPassword _ _ _ _ _ => Int × Option AllocateOut
  | .getcapQueryAlgs _ _ => Int × Option (List TpmAlgQuery)
  | .getcapQueryPcrs _ _ => Int × Option (List TpmPcrBankQuery)
  | .hasAlg _ _ _ => Int × Option Bool
  | .getAlgProps _ _ _ => Int × Option AlgPropsOut
  | .forEachAlgProps σ _ _ _ _ _ | .forEachPcrBank σ _ _ _ => Int × σ
  | .interfaceClose _ _ | .startup _ _ | .pcrExtend _ _ _ _ _ | .getLastTransportError => Int

def Outcome.ret : {call : PublicCall U} → Outcome call → Int
  | .interfaceInit _ _ _ _, o | .pcrReadSingle _ _ _ _, o | .pcrAllocateAuthPassword _ _ _ _ _, o
  | .getcapQueryAlgs _ _, o | .getcapQueryPcrs _ _, o | .hasAlg _ _ _, o | .getAlgProps _ _ _, o
  | .forEachAlgProps _ _ _ _ _ _, o | .forEachPcrBank _ _ _ _, o => o.1
  | .interfaceClose _ _, o | .startup _ _, o | .pcrExtend _ _ _ _ _, o | .getLastTransportError, o => o

abbrev TpmClient (U α : Type) : Type 1 := Client (PublicCall U) Outcome α

section Perform

variable [Host] (stack : TpmCmd)

/-- A call over any interface. The last transport error is not there. -/
def perform (interface : Interface W) : (call : PublicCall U) → Proc W (Outcome call)
  | .interfaceInit _ _ chip locality => do
      let (err, chip) ← interface.requestAccess chip locality
      if err ≠ 0 then return ((err, chip) : Int × ChipData)
      let err ← interface.getInfo chip locality
      return ((err, chip) : Int × ChipData)
  | .interfaceClose chip locality => interface.releaseLocality chip locality
  | .startup chip mode => tpmStartup interface chip mode
  | .pcrExtend chip index algorithm digest digestLen => tpmPcrExtend interface chip index algorithm digest digestLen
  | .pcrReadSingle chip index algorithm buf => tpmPcrReadSingle interface stack chip index algorithm buf
  | .pcrAllocateAuthPassword chip password passwordLen banks out =>
      tpmPcrAllocateAuthPassword interface chip password passwordLen banks out
  | .getcapQueryAlgs chip query => tpmGetcapQueryAlgs interface stack chip query
  | .getcapQueryPcrs chip query => tpmGetcapQueryPcrs interface stack chip query
  | .hasAlg chip algId out => tpmHasAlg interface stack chip algId out
  | .getAlgProps chip algId out => tpmGetAlgProps interface stack chip algId out
  | .forEachAlgProps _ chip mustSet mustClear cb ctx =>
      tpmForEachAlgProps interface stack chip mustSet mustClear cb ctx
  | .forEachPcrBank _ chip cb ctx => tpmForEachPcrBank interface stack chip cb ctx
  | .getLastTransportError => (return tpmSuccess : Proc W Int)

/-- A call of the library, with its outcome. -/
def invoke (libTimer : Option (TimeoutOps W)) (fuel : Nat) : (call : PublicCall W) → Proc (Globals W) (Outcome call)
  | .interfaceInit transport timeoutOps chip locality =>
      tpmInterfaceInit libTimer fuel transport timeoutOps chip locality
  | .getLastTransportError => liftM (tpmGetLastTransportError : StateM (Globals W) Int)
  | call => withInterface (fun interface => perform stack interface call) fuel

variable {stack}

theorem run_invoke (libTimer : Option (TimeoutOps W)) (fuel : Nat) (call : PublicCall W) :
    call.run libTimer stack fuel = invoke stack libTimer fuel call >>= fun o => pure o.ret := by
  let p (i : Interface (Globals W)) : Proc (Globals W) (Outcome call) := perform stack i call
  have hlift : withInterface (fun i => p i >>= fun o => pure o.ret) fuel =
      withInterface p fuel >>= fun o => pure o.ret := by
    funext g
    simp only [withInterface, bind_run, interfaceIsSet, lift_run]
    cases g.interfaceSet <;> rfl
  cases call with
  | interfaceInit => rfl
  | interfaceClose | startup | pcrExtend | getLastTransportError => exact (bind_pure _).symm
  | _ => exact hlift

end Perform

end LibTpm.CallOutcomes
