import LibTpm.Base.Cost
import LibTpm.CommandSimulation

namespace LibTpm.CommandCosts

open LibTpm.Base.Process LibTpm.Base.Process.Proc LibTpm.Base.Cost LibTpm.Command LibTpm.Constants LibTpm.Endian
open LibTpm.Platform LibTpm.Builder LibTpm.Getcap LibTpm.Commands LibTpm.Queries LibTpm.CommandBytes
open LibTpm.Library LibTpm.PublicCalls LibTpm.CallOutcomes LibTpm.CommandSimulation

variable [Host] {W σ : Type} {cost : W → Nat} {n : Nat} {interface : Interface W} {stack : TpmCmd}

def ExchangeCosts (cost : W → Nat) (n : Nat) (interface : Interface W) (chip : ChipData) : Prop :=
  ∀ cmd buf, Sized cmd → Costs cost n (tpmXfer interface chip cmd buf)

theorem tpmStartup_costs {chip : ChipData} (h : ExchangeCosts cost n interface chip) (mode : UInt16) :
    Costs cost n (tpmStartup interface chip mode) := by
  refine Costs.unless fun hok => ?_
  apply Costs.last (h _ _ (sized_of_built (startupCommand_built mode) hok))
  exact fun ⟨ret, resp⟩ => Costs.unless fun _ => Costs.unless fun _ => Costs.unless fun _ => costs_pure _ _

theorem tpmPcrExtend_costs {chip : ChipData} (h : ExchangeCosts cost n interface chip) (index : UInt32)
    (algorithm : UInt16) (digest : Option (Nat → UInt8)) (digestLen : UInt32) :
    Costs cost n (tpmPcrExtend interface chip index algorithm digest digestLen) := by
  cases digest with
  | none => exact costs_pure _ _
  | some digest =>
      refine Costs.unless fun hok => ?_
      apply Costs.last (h _ _ (sized_of_built (pcrExtendCommand_built index algorithm digest digestLen) hok))
      exact fun ⟨ret, resp⟩ => Costs.unless fun _ => Costs.unless fun _ => costs_pure _ _

theorem tpmPcrReadSingle_costs {chip : ChipData} (h : ExchangeCosts cost n interface chip) (index : UInt32)
    (algorithm : UInt16) (pcrDigestRead : Option (List UInt8)) :
    Costs cost n (tpmPcrReadSingle interface stack chip index algorithm pcrDigestRead) := by
  refine Costs.unless fun hindex => ?_
  cases pcrDigestRead with
  | none => exact costs_pure _ _
  | some buf =>
      dsimp only
      refine Costs.unless fun hok => ?_
      have hlt : index < 24 := UInt32.not_le.mp hindex
      apply Costs.last (h _ _ (sized_of_built (pcrReadCommand_built hlt algorithm) hok))
      rintro ⟨ret, resp⟩
      refine Costs.unless fun _ => Costs.unless fun _ => Costs.unless fun _ => ?_
      exact Costs.unless fun _ => Costs.unless fun _ => costs_pure _ _

section Optional

variable {chip : Option ChipData}

theorem tpmPcrAllocateAuthPassword_costs (h : ∀ c ∈ chip, ExchangeCosts cost n interface c)
    (password : Option (Nat → UInt8)) (passwordLen : UInt16) (banks : Option (Nat → TpmPcrAllocateBank))
    (out : Option AllocateOut) :
    Costs cost n (tpmPcrAllocateAuthPassword interface chip password passwordLen banks out) := by
  rcases chip with _ | chip
  · exact costs_pure _ _
  rcases banks with _ | banks
  · exact costs_pure _ _
  rcases out with _ | old
  · exact costs_pure _ _
  refine Costs.unless fun _ => Costs.unless fun _ => Costs.unless fun _ => Costs.unless fun hok => ?_
  apply Costs.last (h chip rfl _ _ (sized_of_built (pcrAllocateCommand_built _ passwordLen banks _) hok))
  rintro ⟨ret, resp⟩
  refine Costs.unless fun _ => Costs.unless fun _ => Costs.unless fun _ => Costs.unless fun _ => ?_
  dsimp only
  exact Costs.unless fun _ => costs_pure _ _

theorem getcapRaw_costs (h : ∀ c ∈ chip, ExchangeCosts cost n interface c) (cap property count : UInt32)
    (resp : TpmCmd) (more : Bool) : Costs cost n (getcapRaw interface chip cap property count resp more) := by
  rcases chip with _ | chip
  · exact costs_pure _ _
  refine Costs.unless fun hok => ?_
  apply Costs.last (h chip rfl _ _ (sized_of_built (getcapCommand_built cap property count) hok))
  rintro ⟨ret, resp⟩
  exact Costs.unless fun _ => Costs.unless fun _ => Costs.unless fun _ => Costs.unless fun _ => costs_pure _ _

theorem pageLoop_costs (h : ∀ c ∈ chip, ExchangeCosts cost n interface c) (cap : UInt32)
    (parse : TpmCmd → ParseOut σ → Int × ParseOut σ) (goOn : UInt16 → Bool) (pages : Nat) (st : PageState σ) :
    Costs cost (pages * n) (pageLoop interface chip cap parse goOn pages st) := by
  induction pages generalizing st with
  | zero => exact costs_pure _ _
  | succ pages ih =>
      rw [pageLoop, Nat.succ_mul, Nat.add_comm]
      apply Costs.bind (getcapRaw_costs h cap _ _ _ _)
      rintro ⟨ret, resp, more⟩
      refine Costs.unless fun _ => Costs.unless fun _ => Costs.unless fun _ => Costs.unless fun _ => ?_
      exact Costs.ite (fun _ => ih _) fun _ => costs_pure _ _

theorem tpmGetcapQueryAlgs_costs (h : ∀ c ∈ chip, ExchangeCosts cost n interface c)
    (query : Option (List TpmAlgQuery)) :
    Costs cost (tpmMaxPages * n) (tpmGetcapQueryAlgs interface stack chip query) := by
  refine Costs.unless fun _ => ?_
  cases query with
  | none => exact costs_pure _ _
  | some query =>
      refine Costs.unless fun _ => Costs.unless fun _ => ?_
      exact Costs.last (pageLoop_costs h _ _ _ _ _) fun _ => costs_pure _ _

theorem tpmGetcapQueryPcrs_costs (h : ∀ c ∈ chip, ExchangeCosts cost n interface c)
    (query : Option (List TpmPcrBankQuery)) :
    Costs cost (tpmMaxPages * n) (tpmGetcapQueryPcrs interface stack chip query) := by
  refine Costs.unless fun _ => ?_
  cases query with
  | none => exact costs_pure _ _
  | some query =>
      refine Costs.unless fun _ => Costs.unless fun _ => ?_
      exact Costs.last (pageLoop_costs h _ _ _ _ _) fun _ => costs_pure _ _

theorem tpmHasAlg_costs (h : ∀ c ∈ chip, ExchangeCosts cost n interface c) (algId : UInt16) (out : Option Bool) :
    Costs cost (tpmMaxPages * n) (tpmHasAlg interface stack chip algId out) := by
  refine Costs.unless fun _ => Costs.last (tpmGetcapQueryAlgs_costs h _) ?_
  exact fun _ => Costs.unless fun _ => costs_pure _ _

theorem tpmGetAlgProps_costs (h : ∀ c ∈ chip, ExchangeCosts cost n interface c) (algId : UInt16)
    (out : Option AlgPropsOut) : Costs cost n (tpmGetAlgProps interface stack chip algId out) := by
  refine Costs.unless fun _ => Costs.last (getcapRaw_costs h _ _ _ _ _) ?_
  rintro ⟨ret, resp, more⟩
  exact Costs.unless fun _ => Costs.unless fun _ => Costs.unless fun _ => Costs.unless fun _ => costs_pure _ _

theorem tpmForEachAlgProps_costs (h : ∀ c ∈ chip, ExchangeCosts cost n interface c) (mustSet mustClear : UInt32)
    (cb : Option (UInt16 → UInt32 → σ → Bool × σ)) (ctx : σ) :
    Costs cost (tpmMaxPages * n) (tpmForEachAlgProps interface stack chip mustSet mustClear cb ctx) := by
  refine Costs.unless fun _ => ?_
  cases cb with
  | none => exact costs_pure _ _
  | some cb => exact pageLoop_costs h _ _ _ _ _

theorem tpmForEachPcrBank_costs (h : ∀ c ∈ chip, ExchangeCosts cost n interface c)
    (cb : Option (UInt16 → List UInt8 → UInt8 → σ → Bool × σ)) (ctx : σ) :
    Costs cost (tpmMaxPages * n) (tpmForEachPcrBank interface stack chip cb ctx) := by
  refine Costs.unless fun _ => ?_
  cases cb with
  | none => exact costs_pure _ _
  | some cb => exact pageLoop_costs h _ _ _ _ _

end Optional

/-- The exchanges that a call makes at most. -/
def exchangesOf {U : Type} : PublicCall U → Nat
  | .startup _ _ | .pcrExtend _ _ _ _ _ | .pcrReadSingle _ _ _ _ | .pcrAllocateAuthPassword _ _ _ _ _
  | .getAlgProps _ _ _ => 1
  | .getcapQueryAlgs _ _ | .getcapQueryPcrs _ _ | .hasAlg _ _ _ | .forEachAlgProps _ _ _ _ _ _
  | .forEachPcrBank _ _ _ _ => tpmMaxPages
  | .interfaceInit _ _ _ _ | .interfaceClose _ _ | .getLastTransportError => 0

theorem perform_costs {U : Type} {call : PublicCall U} (hsends : SendsCommand call)
    (h : ∀ c ∈ chips call, ExchangeCosts cost n interface c) :
    Costs cost (exchangesOf call * n) (perform stack interface call) := by
  have ho {chip : Option ChipData} (h : ∀ c ∈ chip.toList, ExchangeCosts cost n interface c) :
      ∀ c ∈ chip, ExchangeCosts cost n interface c := fun c hc => h c (Option.mem_toList.mpr hc)
  have hone : n ≤ 1 * n := Nat.le_mul_of_pos_left n Nat.one_pos
  cases call with
  | interfaceInit | interfaceClose | getLastTransportError => exact hsends.elim
  | startup => exact (tpmStartup_costs (h _ List.mem_cons_self) _).mono hone
  | pcrExtend => exact (tpmPcrExtend_costs (h _ List.mem_cons_self) _ _ _ _).mono hone
  | pcrReadSingle => exact (tpmPcrReadSingle_costs (h _ List.mem_cons_self) _ _ _).mono hone
  | pcrAllocateAuthPassword => exact (tpmPcrAllocateAuthPassword_costs (ho h) _ _ _ _).mono hone
  | getAlgProps => exact (tpmGetAlgProps_costs (ho h) _ _).mono hone
  | getcapQueryAlgs => exact tpmGetcapQueryAlgs_costs (ho h) _
  | getcapQueryPcrs => exact tpmGetcapQueryPcrs_costs (ho h) _
  | hasAlg => exact tpmHasAlg_costs (ho h) _ _
  | forEachAlgProps => exact tpmForEachAlgProps_costs (ho h) _ _ _ _
  | forEachPcrBank => exact tpmForEachPcrBank_costs (ho h) _ _

end LibTpm.CommandCosts
