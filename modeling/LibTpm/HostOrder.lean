import LibTpm.CallOutcomes

namespace LibTpm.HostOrder

open LibTpm.Base.Process LibTpm.Base.Process.Proc LibTpm.Base.BigEndian LibTpm.Base.Clients LibTpm.Command
open LibTpm.Constants LibTpm.Endian LibTpm.Platform LibTpm.Builder LibTpm.Getcap LibTpm.Commands LibTpm.Queries
open LibTpm.Fifo LibTpm.Library LibTpm.CallOutcomes

variable (h₁ h₂ : Host) {U W : Type}

/-! Two hosts. Each field is converted where it is stored and where it is
loaded, so that the functions are the same on both. -/

section Fields

variable (c : TpmCmd)

theorem tag_host : @be16toh h₁ (@TpmCmd.tag h₁ c) = @be16toh h₂ (@TpmCmd.tag h₂ c) :=
  (@TpmCmd.be16toh_tag h₁ c).trans (@TpmCmd.be16toh_tag h₂ c).symm

theorem cmdSize_host : @be32toh h₁ (@TpmCmd.cmdSize h₁ c) = @be32toh h₂ (@TpmCmd.cmdSize h₂ c) :=
  (@TpmCmd.be32toh_cmdSize h₁ c).trans (@TpmCmd.be32toh_cmdSize h₂ c).symm

theorem cmdCode_host : @be32toh h₁ (@TpmCmd.cmdCode h₁ c) = @be32toh h₂ (@TpmCmd.cmdCode h₂ c) :=
  (@TpmCmd.be32toh_cmdCode h₁ c).trans (@TpmCmd.be32toh_cmdCode h₂ c).symm

theorem load16_host (a b : UInt8) : @be16toh h₁ (@load16 h₁ a b) = @be16toh h₂ (@load16 h₂ a b) :=
  (@be16toh_load16 h₁ a b).trans (@be16toh_load16 h₂ a b).symm

theorem store16_host (x : UInt16) : @store16 h₁ (@htobe16 h₁ x) = @store16 h₂ (@htobe16 h₂ x) :=
  (@store16_htobe16 h₁ x).trans (@store16_htobe16 h₂ x).symm

theorem store32_host (x : UInt32) : @store32 h₁ (@htobe32 h₁ x) = @store32 h₂ (@htobe32 h₂ x) :=
  (@store32_htobe32 h₁ x).trans (@store32_htobe32 h₂ x).symm

end Fields

section Build

theorem tpmCmdInit_host : @tpmCmdInit h₁ = @tpmCmdInit h₂ := by
  funext tag code
  simp only [tpmCmdInit, TpmCmd.setTag, TpmCmd.setCmdSize, TpmCmd.setCmdCode, store16_host h₁ h₂, store32_host h₁ h₂]

theorem newDataBytes_host : @newDataBytes h₁ = @newDataBytes h₂ := by
  funext newData newLen
  fun_cases @newDataBytes h₁ newData newLen <;> simp only [newDataBytes, store16_host h₁ h₂, store32_host h₁ h₂]

theorem append_host : @append h₁ = @append h₂ := by
  funext builder newData newLen
  simp only [append, tpmUpdateBuffer, TpmCmd.setCmdSize, cmdSize_host h₁ h₂, newDataBytes_host h₁ h₂,
    store32_host h₁ h₂]

theorem appendBytes_host : @appendBytes h₁ = @appendBytes h₂ := by
  funext builder ptr i count
  induction count generalizing builder i with
  | zero => rfl
  | succ count ih =>
      apply (ih (@append h₁ builder (ptr i).toUInt32 1) (i + 1)).trans
      rw [append_host h₁ h₂]
      rfl

theorem appendBank_host : @appendBank h₁ = @appendBank h₂ := by
  funext builder bank
  simp only [appendBank, append_host h₁ h₂, appendBytes_host h₁ h₂]

theorem appendBanks_host : @appendBanks h₁ = @appendBanks h₂ := by
  funext builder banks i count
  induction count generalizing builder i with
  | zero => rfl
  | succ count ih =>
      apply (ih (@appendBank h₁ builder (banks i)) (i + 1)).trans
      rw [appendBank_host h₁ h₂]
      rfl

end Build

section Commands

theorem startupCommand_host : @startupCommand h₁ = @startupCommand h₂ := by
  funext mode
  simp only [startupCommand, tpmCmdInit_host h₁ h₂, append_host h₁ h₂]

theorem pcrExtendCommand_host : @pcrExtendCommand h₁ = @pcrExtendCommand h₂ := by
  funext index algorithm digest digestLen
  simp only [pcrExtendCommand, tpmCmdInit_host h₁ h₂, append_host h₁ h₂, appendBytes_host h₁ h₂]

theorem pcrReadCommand_host : @pcrReadCommand h₁ = @pcrReadCommand h₂ := by
  funext index algorithm
  simp only [pcrReadCommand, tpmCmdInit_host h₁ h₂, append_host h₁ h₂]

theorem pcrAllocateCommand_host : @pcrAllocateCommand h₁ = @pcrAllocateCommand h₂ := by
  funext password passwordLen banks count
  simp only [pcrAllocateCommand, tpmCmdInit_host h₁ h₂, append_host h₁ h₂, appendBytes_host h₁ h₂,
    appendBanks_host h₁ h₂]

theorem getcapCommand_host : @getcapCommand h₁ = @getcapCommand h₂ := by
  funext cap property count
  simp only [getcapCommand, tpmCmdInit_host h₁ h₂, append_host h₁ h₂]

theorem tpmStartup_host : @tpmStartup h₁ W = @tpmStartup h₂ W := by
  funext interface chip mode
  simp only [tpmStartup, startupCommand_host h₁ h₂, cmdCode_host h₁ h₂]

theorem tpmPcrExtend_host : @tpmPcrExtend h₁ W = @tpmPcrExtend h₂ W := by
  funext interface chip index algorithm digest digestLen
  simp only [tpmPcrExtend, pcrExtendCommand_host h₁ h₂, cmdCode_host h₁ h₂]

theorem tpmPcrReadSingle_host : @tpmPcrReadSingle h₁ W = @tpmPcrReadSingle h₂ W := by
  funext interface stack chip index algorithm buf
  simp only [tpmPcrReadSingle, pcrReadCommand_host h₁ h₂, cmdSize_host h₁ h₂, cmdCode_host h₁ h₂, load16_host h₁ h₂]

theorem tpmPcrAllocateAuthPassword_host :
    @tpmPcrAllocateAuthPassword h₁ W = @tpmPcrAllocateAuthPassword h₂ W := by
  funext interface chip password passwordLen banks out
  simp only [tpmPcrAllocateAuthPassword, pcrAllocateCommand_host h₁ h₂, tag_host h₁ h₂, cmdSize_host h₁ h₂,
    cmdCode_host h₁ h₂]

end Commands

section Queries

theorem getcapPayloadStart_host : @getcapPayloadStart h₁ = @getcapPayloadStart h₂ := by
  funext resp cap iter
  simp only [getcapPayloadStart, cmdSize_host h₁ h₂]

theorem getcapRaw_host : @getcapRaw h₁ W = @getcapRaw h₂ W := by
  funext interface chip cap property count resp more
  simp only [getcapRaw, getcapCommand_host h₁ h₂, tag_host h₁ h₂, cmdSize_host h₁ h₂, cmdCode_host h₁ h₂]

theorem pageLoop_host {σ : Type} : @pageLoop h₁ W σ = @pageLoop h₂ W σ := by
  funext interface chip cap parse goOn pages st
  induction pages generalizing st with
  | zero => rfl
  | succ pages ih =>
      unfold pageLoop
      simp only [getcapRaw_host h₁ h₂, ih]

variable {ε σ : Type}

theorem parseQuery_host : @parseQuery h₁ ε σ = @parseQuery h₂ ε σ := by
  funext cap readEntry id mark resp po
  simp only [parseQuery, getcapPayloadStart_host h₁ h₂]

theorem parseFind_host : @parseFind h₁ ε σ = @parseFind h₂ ε σ := by
  funext cap readEntry id visit resp po
  simp only [parseFind, getcapPayloadStart_host h₁ h₂]

theorem tpmGetcapQueryAlgs_host : @tpmGetcapQueryAlgs h₁ W = @tpmGetcapQueryAlgs h₂ W := by
  funext interface stack chip query
  simp only [tpmGetcapQueryAlgs, parseAlgs, pageLoop_host h₁ h₂, parseQuery_host h₁ h₂]

theorem tpmGetcapQueryPcrs_host : @tpmGetcapQueryPcrs h₁ W = @tpmGetcapQueryPcrs h₂ W := by
  funext interface stack chip query
  simp only [tpmGetcapQueryPcrs, parsePcrs, pageLoop_host h₁ h₂, parseQuery_host h₁ h₂]

theorem tpmHasAlg_host : @tpmHasAlg h₁ W = @tpmHasAlg h₂ W := by
  funext interface stack chip algId out
  simp only [tpmHasAlg, tpmGetcapQueryAlgs_host h₁ h₂]

theorem tpmGetAlgProps_host : @tpmGetAlgProps h₁ W = @tpmGetAlgProps h₂ W := by
  funext interface stack chip algId out
  simp only [tpmGetAlgProps, getcapRaw_host h₁ h₂, getcapPayloadStart_host h₁ h₂]

theorem tpmForEachAlgProps_host : @tpmForEachAlgProps h₁ W σ = @tpmForEachAlgProps h₂ W σ := by
  funext interface stack chip mustSet mustClear cb ctx
  simp only [tpmForEachAlgProps, parseAlgsFind, pageLoop_host h₁ h₂, parseFind_host h₁ h₂]

theorem tpmForEachPcrBank_host : @tpmForEachPcrBank h₁ W σ = @tpmForEachPcrBank h₂ W σ := by
  funext interface stack chip cb ctx
  simp only [tpmForEachPcrBank, parsePcrsFind, pageLoop_host h₁ h₂, parseFind_host h₁ h₂]

end Queries

section Transfer

variable (port : FifoPort W) (fuel : Nat)

theorem tpm2FifoSend_host : @tpm2FifoSend W port fuel h₁ = @tpm2FifoSend W port fuel h₂ := by
  funext chip cmd
  simp only [tpm2FifoSend, sendBytes, cmdSize_host h₁ h₂]

theorem tpm2FifoReceive_host : @tpm2FifoReceive W port fuel h₁ = @tpm2FifoReceive W port fuel h₂ := by
  funext chip buf
  simp only [tpm2FifoReceive, cmdSize_host h₁ h₂]

theorem fifoOps_host : @fifoOps W port fuel h₁ = @fifoOps W port fuel h₂ := by
  simp only [fifoOps, tpm2FifoSend_host h₁ h₂, tpm2FifoReceive_host h₁ h₂]

end Transfer

theorem perform_host : @perform U W h₁ = @perform U W h₂ := by
  funext stack interface call
  cases call with
  | interfaceInit | interfaceClose | getLastTransportError => rfl
  | startup => simp only [perform, tpmStartup_host h₁ h₂]
  | pcrExtend => simp only [perform, tpmPcrExtend_host h₁ h₂]
  | pcrReadSingle => simp only [perform, tpmPcrReadSingle_host h₁ h₂]
  | pcrAllocateAuthPassword => simp only [perform, tpmPcrAllocateAuthPassword_host h₁ h₂]
  | getcapQueryAlgs => simp only [perform, tpmGetcapQueryAlgs_host h₁ h₂]
  | getcapQueryPcrs => simp only [perform, tpmGetcapQueryPcrs_host h₁ h₂]
  | hasAlg => simp only [perform, tpmHasAlg_host h₁ h₂]
  | getAlgProps => simp only [perform, tpmGetAlgProps_host h₁ h₂]
  | forEachAlgProps => simp only [perform, tpmForEachAlgProps_host h₁ h₂]
  | forEachPcrBank => simp only [perform, tpmForEachPcrBank_host h₁ h₂]

theorem withInterface_host {α : Type} : @withInterface h₁ W α = @withInterface h₂ W α := by
  funext call fuel
  simp only [withInterface, fifoOps_host h₁ h₂]

theorem invoke_host : @invoke W h₁ = @invoke W h₂ := by
  funext stack libTimer fuel call
  cases call with
  | interfaceInit | getLastTransportError => rfl
  | _ => simp only [invoke, withInterface_host h₁ h₂, perform_host h₁ h₂]

/-- Compiled for a processor of either byte order, the library does the same
on the wires and returns the same, whatever its client makes of it. -/
theorem client_same_host {α : Type} (stack : TpmCmd) (libTimer : Option (TimeoutOps W)) (fuel : Nat)
    (client : TpmClient W α) :
    client.run (@invoke W h₁ stack libTimer fuel) = client.run (@invoke W h₂ stack libTimer fuel) := by
  rw [invoke_host h₁ h₂]

end LibTpm.HostOrder
