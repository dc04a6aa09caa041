import LibTpm.AccessBounds
import LibTpm.CommandCosts
import LibTpm.WireRefinement

namespace LibTpm.CallBounds

open LibTpm.Base.Process LibTpm.Base.Process.Proc LibTpm.Base.Progress LibTpm.Base.Cost LibTpm.Base.Clients LibTpm.Command
open LibTpm.Constants LibTpm.Endian LibTpm.Platform LibTpm.Builder LibTpm.Fifo LibTpm.Spi LibTpm.Library
open LibTpm.PublicCalls LibTpm.CallOutcomes LibTpm.ReceiveBounds LibTpm.AccessBounds LibTpm.CommandSimulation
open LibTpm.CommandCosts LibTpm.WireRefinement

variable {U W : Type} {port : FifoPort W} {limit fuel : Nat} {queries : W → Nat}

def exchangeBound (limit : Nat) : Nat := sendBound limit maxSizeCmdbuf + receiveBound limit maxSizeCmdbuf

def callBound (limit : Nat) : PublicCall U → Nat
  | .interfaceInit _ _ _ _ => 1 + polls limit + 2
  | .interfaceClose _ _ => 2
  | call => exchangesOf call * exchangeBound limit

theorem sendBound_mono (limit : Nat) {n m : Nat} (h : n ≤ m) : sendBound limit n ≤ sendBound limit m := by
  have hbytes := Nat.mul_le_mul_left (2 * polls limit + 1) (Nat.sub_le_sub_right h tpmHeaderSize)
  unfold sendBound bytesBound
  omega

theorem restBound_mono (limit : Nat) {n m : Nat} (h : n ≤ m) : restBound limit n ≤ restBound limit m := by
  have hbytes := Nat.mul_le_mul_left (2 * polls limit) (Nat.sub_le_sub_right h tpmHeaderSize)
  unfold restBound
  omega

section Transfers

variable [Host] (h : Expires port limit queries) (hpolls : polls limit ≤ fuel) (hmax : maxSizeCmdbuf ≤ fuel)
include h hpolls hmax

theorem tpm2FifoSend_costs (chip : ChipData) {cmd : TpmCmd} (hcmd : Sized cmd) :
    Costs Prod.snd (sendBound limit maxSizeCmdbuf) (tpm2FifoSend (counted port) fuel chip cmd) := by
  constructor
  rintro ⟨w, k⟩
  apply (send_ends h hpolls chip cmd (Nat.le_trans hcmd.fits hmax) w k).imp
  intro _ s hs
  exact Nat.le_trans hs (Nat.add_le_add_left (sendBound_mono limit hcmd.fits) k)

/-- A response that declares more than the buffer holds costs its header only. -/
theorem tpm2FifoReceive_costs (chip : ChipData) (buf : TpmCmd) :
    Costs Prod.snd (receiveBound limit maxSizeCmdbuf) (tpm2FifoReceive (counted port) fuel chip buf) := by
  constructor
  rintro ⟨w, k⟩
  rw [tpm2FifoReceive, receiveBound]
  apply Ends.bind (headerPass_cost h hpolls (Nat.le_trans (by decide) hmax) chip _ buf w k)
  rintro ⟨err, size, buf⟩ ⟨w, k₁⟩ ⟨hk₁, hwhole⟩
  dsimp only at hk₁ hwhole ⊢
  have hpass : k₁ ≤ k + (headerBound limit + restBound limit maxSizeCmdbuf) := by omega
  by_cases herr : err < 0
  · rw [if_pos herr]
    exact hpass
  rw [if_neg herr]
  by_cases hlong : sizeT (intOfUint32 (be32toh buf.cmdSize)) > maxSizeCmdbuf
  · rw [if_pos hlong]
    exact hpass
  rw [if_neg hlong]
  have hfits : (be32toh buf.cmdSize).toNat ≤ maxSizeCmdbuf := not_lt.mp fun hc => hlong ((sizeT_intOfUint32 _).mpr hc)
  obtain rfl := hwhole (not_lt.mp herr)
  rw [intOfUint32_of_le hfits]
  by_cases hshort : ((tpmHeaderSize : Nat) : Int) = (be32toh buf.cmdSize).toNat
  · rw [if_pos hshort]
    exact hpass
  rw [if_neg hshort]
  apply Ends.bind (dataPass_cost h hpolls (Nat.le_trans hfits hmax) chip _ buf w k₁)
  rintro ⟨err, size, buf'⟩ ⟨w, k₂⟩ ⟨hk₂, -⟩
  have hrest := restBound_mono limit hfits
  have hdone : k₂ ≤ k + (headerBound limit + restBound limit maxSizeCmdbuf) := by
    dsimp only at hk₂
    omega
  dsimp only
  split
  · exact hdone
  · split <;> exact hdone

theorem tpmXfer_costs (chip : ChipData) :
    ExchangeCosts Prod.snd (exchangeBound limit) (fifoOps (counted port) fuel) chip := by
  intro cmd buf hcmd
  apply Costs.bind (tpm2FifoSend_costs h hpolls hmax chip hcmd)
  intro ret
  refine Costs.unless fun _ => Costs.last (tpm2FifoReceive_costs h hpolls hmax chip buf) ?_
  exact fun ⟨ret, resp⟩ => Costs.unless fun _ => costs_pure _ _

end Transfers

section Locality

theorem wait_costs (h : Expires port limit queries) (hpolls : polls limit ≤ fuel) (reg : UInt16) (set : UInt8)
    (timeout : UInt64) : Costs Prod.snd (polls limit) (tpm2WaitRegBits (counted port) fuel reg set timeout) :=
  ⟨fun ⟨w, k⟩ => wait_ends h hpolls reg set timeout w k⟩

theorem write_costs (port : FifoPort W) (reg : UInt16) (val : UInt8) :
    Costs Prod.snd 1 (liftM ((counted port).writeByte reg val) : Proc (W × Nat) Int) := ⟨fun _ => le_rfl⟩

theorem read_costs (port : FifoPort W) (reg : UInt16) (dst : Dest) :
    Costs Prod.snd 1 (liftM ((counted port).readByte reg dst) : Proc (W × Nat) (Int × UInt8)) := ⟨fun _ => le_rfl⟩

theorem readChunk_costs (port : FifoPort W) (reg : UInt16) (len : UInt8) :
    Costs Prod.snd 1 (liftM ((counted port).readChunk reg len) : Proc (W × Nat) _) := ⟨fun _ => le_rfl⟩

end Locality

variable [Host] {stack : TpmCmd} {α : Type} {client : TpmClient U α}

theorem interfaceInit_costs (h : Expires port limit queries) (hpolls : polls limit ≤ fuel) (transport : SpiOps U)
    (timeoutOps : Option (TimeoutOps U)) (chip : ChipData) (locality : UInt8) : Costs Prod.snd (1 + polls limit + 2)
      (perform stack (fifoOps (counted port) fuel) (.interfaceInit transport timeoutOps chip locality)) := by
  have hrequest : Costs Prod.snd (1 + polls limit) (tpm2FifoRequestAccess (counted port) fuel chip locality) := by
    apply Costs.bind (write_costs port _ _)
    intro err
    refine Costs.unless fun _ => Costs.last (wait_costs h hpolls _ _ _) ?_
    exact fun ⟨err, _⟩ => Costs.unless fun _ => costs_pure _ _
  have hinfo (chip : ChipData) : Costs Prod.snd (1 + 1) (tpm2GetInfo (counted port) chip locality) := by
    apply Costs.bind (readChunk_costs port _ _)
    rintro ⟨err, -⟩
    refine Costs.unless fun _ => Costs.last (read_costs port _ _) ?_
    exact fun ⟨err, _⟩ => Costs.unless fun _ => costs_pure _ _
  apply Costs.bind hrequest
  exact fun ⟨err, chip⟩ => Costs.unless fun _ => Costs.last (hinfo chip) fun _ => costs_pure _ _

omit [Host] in
theorem interfaceClose_costs (port : FifoPort W) (chip : ChipData) (locality : UInt8) :
    Costs Prod.snd (1 + 1) (tpm2FifoReleaseLocality (counted port) chip locality) := by
  apply Costs.bind (read_costs port _ _)
  exact fun ⟨err, buf⟩ => Costs.unless fun _ => Costs.ite (fun _ => write_costs port _ _) fun _ => costs_pure _ _

variable (stack) in
theorem call_costs (h : Expires port limit queries) (hpolls : polls limit ≤ fuel) (hmax : maxSizeCmdbuf ≤ fuel)
    (call : PublicCall U) : Costs Prod.snd (callBound limit call) (perform stack (fifoOps (counted port) fuel) call) := by
  have hcommand (hsends : SendsCommand call) : Costs Prod.snd (exchangesOf call * exchangeBound limit)
      (perform stack (fifoOps (counted port) fuel) call) :=
    perform_costs hsends fun c _ => tpmXfer_costs h hpolls hmax c
  cases call with
  | interfaceInit transport timeoutOps chip locality => exact interfaceInit_costs h hpolls transport timeoutOps chip locality
  | interfaceClose chip locality => exact interfaceClose_costs port chip locality
  | getLastTransportError => exact costs_pure _ _
  | _ => exact hcommand trivial

/-- Whatever the device answers to its accesses, every client comes to its
end, and has made no more accesses than its calls may. -/
theorem client_ends (h : Expires port limit queries) (hpolls : polls limit ≤ fuel) (hmax : maxSizeCmdbuf ≤ fuel)
    (client : TpmClient U α) (w : W) (k : Nat) :
    ∃ a w' k', client.run (perform stack (fifoOps (counted port) fuel)) (w, k) = (some a, w', k') ∧
      ∀ n, client.Within (callBound limit) n → k' ≤ k + n := by
  obtain ⟨a, ⟨w', k'⟩, hrun, hle⟩ := Client.run_bounded (fun call => call_costs stack h hpolls hmax call) client (w, k)
  exact ⟨a, w', k', hrun, hle⟩

/-- A client that starts the TPM behind the interface it has initialised, and
closes it again. -/
def startIfOpened (U : Type) : Int × ChipData → TpmClient U (Option Int)
  | (err, chip) =>
      if err = tpmSuccess then
        .call (.startup chip 0) fun (ret : Int) => .call (.interfaceClose chip 0) fun (_ : Int) => .done (some ret)
      else .done none

def startSession (transport : SpiOps U) : TpmClient U (Option Int) :=
  .call (.interfaceInit transport none tpmChipData 0) (startIfOpened U)

def sessionBound (limit : Nat) : Nat := (1 + polls limit + 2) + (exchangeBound limit + 2)

omit [Host] in
theorem startSession_within (limit : Nat) (transport : SpiOps U) :
    (startSession transport).Within (callBound limit) (sessionBound limit) := by
  refine ⟨Nat.le_add_right _ _, ?_⟩
  rintro ⟨err, chip⟩
  rw [sessionBound, callBound, Nat.add_sub_cancel_left, startIfOpened]
  by_cases h : err = tpmSuccess
  · have hone : callBound limit (.startup chip 0 : PublicCall U) = exchangeBound limit := Nat.one_mul _
    rw [if_pos h]
    refine ⟨by rw [hone]; exact Nat.le_add_right _ _, fun _ => ⟨?_, fun _ => trivial⟩⟩
    rw [hone, Nat.add_sub_cancel_left]
    rfl
  · rw [if_neg h]
    trivial

omit [Host] in
theorem client_ends_slow :
    letI := littleHost
    let client : TpmClient Unit (Option Int) := startSession LocalityPages.grantingSpi
    let run := client.run (perform TpmCmd.zero (fifoOps (counted slow) 256)) ((⟨false, 0, 0⟩, 0), 0)
    ∃ w' k', run = (some (some tpmSuccess), w', k') ∧ k' ≤ 0 + sessionBound 3 := by
  let _ := littleHost
  intro client run
  have hvalue : run.1 = some (some tpmSuccess) := by decide +kernel
  obtain ⟨a, w', k', hrun, hbound⟩ : ∃ a w' k', run = (some a, w', k') ∧
      ∀ n, client.Within (callBound 3) n → k' ≤ 0 + n :=
    client_ends slow_expires (by decide) (by decide) client (⟨false, 0, 0⟩, 0) 0
  rw [hrun] at hvalue
  cases hvalue
  exact ⟨w', k', hrun, hbound _ (startSession_within 3 _)⟩

end LibTpm.CallBounds
