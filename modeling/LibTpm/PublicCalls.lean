import LibTpm.Invariance
import LibTpm.Library

namespace LibTpm.PublicCalls

open LibTpm.Base.Process LibTpm.Base.Process.Proc LibTpm.Base.Surfacing LibTpm.Command LibTpm.Constants
open LibTpm.Endian LibTpm.Platform LibTpm.Fifo LibTpm.Spi LibTpm.Commands LibTpm.Queries LibTpm.Library
open LibTpm.Invariance

variable {W : Type}

def installs (libTimer : Option (TimeoutOps W)) : PublicCall W → Option (SpiOps W × Option (TimeoutOps W))
  | .interfaceInit transport timeoutOps _ _ => some (transport, timeoutOps.or libTimer)
  | _ => none

def localities : PublicCall W → List UInt8
  | .interfaceInit _ _ _ locality | .interfaceClose _ locality => [locality]
  | .startup chip _ | .pcrExtend chip _ _ _ _ | .pcrReadSingle chip _ _ _ => [chip.locality]
  | .pcrAllocateAuthPassword chip _ _ _ _ | .getcapQueryAlgs chip _ | .getcapQueryPcrs chip _
  | .hasAlg chip _ _ | .getAlgProps chip _ _ | .forEachAlgProps _ chip _ _ _ _
  | .forEachPcrBank _ chip _ _ => chip.toList.map ChipData.locality
  | .getLastTransportError => []

/-- The command behind a call, over any interface. The calls that send no
command are not of this form. -/
def command [Host] {V : Type} (stack : TpmCmd) (call : PublicCall V) (interface : Interface W) : Proc W Int :=
  match call with
  | .startup chip mode => tpmStartup interface chip mode
  | .pcrExtend chip index algorithm digest digestLen => tpmPcrExtend interface chip index algorithm digest digestLen
  | .pcrReadSingle chip index algorithm buf =>
      return (← tpmPcrReadSingle interface stack chip index algorithm buf).1
  | .pcrAllocateAuthPassword chip password passwordLen banks out =>
      return (← tpmPcrAllocateAuthPassword interface chip password passwordLen banks out).1
  | .getcapQueryAlgs chip query => return (← tpmGetcapQueryAlgs interface stack chip query).1
  | .getcapQueryPcrs chip query => return (← tpmGetcapQueryPcrs interface stack chip query).1
  | .hasAlg chip algId out => return (← tpmHasAlg interface stack chip algId out).1
  | .getAlgProps chip algId out => return (← tpmGetAlgProps interface stack chip algId out).1
  | .forEachAlgProps _ chip mustSet mustClear cb ctx =>
      return (← tpmForEachAlgProps interface stack chip mustSet mustClear cb ctx).1
  | .forEachPcrBank _ chip cb ctx => return (← tpmForEachPcrBank interface stack chip cb ctx).1
  | .interfaceInit _ _ _ _ | .interfaceClose _ _ | .getLastTransportError => return tpmSuccess

def SendsCommand {V : Type} : PublicCall V → Prop
  | .interfaceInit _ _ _ _ | .interfaceClose _ _ | .getLastTransportError => False
  | _ => True

theorem run_command [Host] {call : PublicCall W} (h : SendsCommand call) (libTimer : Option (TimeoutOps W))
    (stack : TpmCmd) (fuel : Nat) : call.run libTimer stack fuel = withInterface (command stack call) fuel := by
  cases call with
  | interfaceInit | interfaceClose | getLastTransportError => exact h.elim
  | _ => rfl

variable [Host] {A : UInt16 → Prop} {I S : Globals W → Prop}

omit [Host] in
theorem tpmInterfaceInit_surfaces (hport : PortSurfaces A I S (spiPort : FifoPort (Globals W)))
    {libTimer timeoutOps : Option (TimeoutOps W)} {transport : SpiOps W} {locality : UInt8} (hp : PageIn A locality)
    (hspi : Keeps I (liftM (setSpidev transport)))
    (htimer : ∀ ops ∈ timeoutOps.or libTimer, Keeps I (liftM (setInterface ops))) (fuel : Nat) (chip : ChipData) :
    Surfaces I S (fun r => r.1 = tpmErrTransfer)
      (tpmInterfaceInit libTimer fuel transport timeoutOps chip locality) := by
  apply Surfaces.after hspi
  intro _
  rcases ht : timeoutOps.or libTimer with _ | ops
  · exact surfaces_pure _
  apply Surfaces.after (htimer ops ht)
  intro _
  apply Surfaces.bind (tpm2FifoRequestAccess_surfaces hport chip hp)
  · rintro ⟨err, chip⟩
    refine Surfaces.unless (Surfaces.bind (tpm2GetInfo_surfaces hport chip hp) ?_ ?_)
    · exact fun _ => surfaces_pure _
    · exact fun _ he => stops_pure he
  · exact fun ⟨err, chip⟩ he => Stops.pos (errTransfer_ne he) (stops_pure he)

omit [Host] in
theorem Surfaces.value {α : Type} {p : Proc (Globals W) (Int × α)}
    (h : Surfaces I S (fun r => r.1 = tpmErrTransfer) p) :
    Surfaces I S (fun ret => ret = tpmErrTransfer) (p >>= fun r => pure r.1) :=
  Surfaces.bind h (fun _ => surfaces_pure _) fun _ he => stops_pure he

theorem withInterface_surfaces {α : Type} {F : α → Prop} {fuel : Nat}
    {call : Interface (Globals W) → Proc (Globals W) α} (h : Surfaces I S F (call (fifoOps spiPort fuel))) :
    Surfaces I S F (withInterface call fuel) :=
  Surfaces.after (fun _ hg => hg) fun _ => Surfaces.ite h surfaces_suspend

theorem publicCall_surfaces (hport : PortSurfaces A I S (spiPort : FifoPort (Globals W)))
    (libTimer : Option (TimeoutOps W)) (call : PublicCall W) (hp : ∀ locality ∈ localities call, PageIn A locality)
    (hset : ∀ s ∈ installs libTimer call,
      Keeps I (liftM (setSpidev s.1)) ∧ ∀ ops ∈ s.2, Keeps I (liftM (setInterface ops)))
    (stack : TpmCmd) (fuel : Nat) :
    Surfaces I S (fun ret => ret = tpmErrTransfer) (call.run libTimer stack fuel) := by
  have hi {chip : ChipData} (h : PageIn A chip.locality) : InterfaceSurfaces I S (fifoOps spiPort fuel) chip :=
    fifoOps_surfaces hport h
  have ho {chip : Option ChipData} (h : ∀ l ∈ chip.toList.map ChipData.locality, PageIn A l) :
      ∀ c ∈ chip, InterfaceSurfaces I S (fifoOps spiPort fuel) c := by
    rintro c rfl
    exact hi (h _ (by simp))
  cases call with
  | interfaceInit transport timeoutOps chip locality =>
      obtain ⟨hspi, htimer⟩ := hset _ rfl
      exact Surfaces.value (tpmInterfaceInit_surfaces hport (hp _ List.mem_cons_self) hspi htimer fuel chip)
  | interfaceClose chip locality =>
      rw [PublicCall.run]
      exact withInterface_surfaces (tpm2FifoReleaseLocality_surfaces hport chip (hp _ List.mem_cons_self))
  | startup chip mode =>
      rw [PublicCall.run]
      exact withInterface_surfaces (tpmStartup_surfaces (hi (hp _ List.mem_cons_self)) mode)
  | pcrExtend chip index algorithm digest digestLen =>
      rw [PublicCall.run]
      exact withInterface_surfaces (tpmPcrExtend_surfaces (hi (hp _ List.mem_cons_self)) _ _ _ _)
  | pcrReadSingle chip index algorithm buf =>
      rw [PublicCall.run]
      exact withInterface_surfaces (Surfaces.value (tpmPcrReadSingle_surfaces (hi (hp _ List.mem_cons_self)) _ _ _))
  | pcrAllocateAuthPassword chip password passwordLen banks out =>
      rw [PublicCall.run]
      exact withInterface_surfaces (Surfaces.value (tpmPcrAllocateAuthPassword_surfaces (ho hp) _ _ _ _))
  | getcapQueryAlgs chip query =>
      rw [PublicCall.run]
      exact withInterface_surfaces (Surfaces.value (tpmGetcapQueryAlgs_surfaces (ho hp) _))
  | getcapQueryPcrs chip query =>
      rw [PublicCall.run]
      exact withInterface_surfaces (Surfaces.value (tpmGetcapQueryPcrs_surfaces (ho hp) _))
  | hasAlg chip algId out =>
      rw [PublicCall.run]
      exact withInterface_surfaces (Surfaces.value (tpmHasAlg_surfaces (ho hp) _ _))
  | getAlgProps chip algId out =>
      rw [PublicCall.run]
      exact withInterface_surfaces (Surfaces.value (tpmGetAlgProps_surfaces (ho hp) _ _))
  | forEachAlgProps σ chip mustSet mustClear cb ctx =>
      rw [PublicCall.run]
      exact withInterface_surfaces (Surfaces.value (tpmForEachAlgProps_surfaces (ho hp) _ _ _ _))
  | forEachPcrBank σ chip cb ctx =>
      rw [PublicCall.run]
      exact withInterface_surfaces (Surfaces.value (tpmForEachPcrBank_surfaces (ho hp) _ _))
  | getLastTransportError => exact surfaces_of_keeps fun _ hg => hg

theorem publicCall_keeps (hport : PortKeeps A I (spiPort : FifoPort (Globals W)))
    (libTimer : Option (TimeoutOps W)) (call : PublicCall W) (hp : ∀ locality ∈ localities call, PageIn A locality)
    (hset : ∀ s ∈ installs libTimer call,
      Keeps I (liftM (setSpidev s.1)) ∧ ∀ ops ∈ s.2, Keeps I (liftM (setInterface ops)))
    (stack : TpmCmd) (fuel : Nat) : Keeps I (call.run libTimer stack fuel) :=
  (publicCall_surfaces hport.surfaces libTimer call hp hset stack fuel).keeps

end LibTpm.PublicCalls
