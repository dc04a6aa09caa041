import LibTpm.BufferStores
import LibTpm.CommandCosts
import LibTpm.LazyDevice

namespace LibTpm.DeviceRefinement

open LibTpm.Base.Process LibTpm.Base.Process.Proc LibTpm.Base.Simulation LibTpm.Base.Progress LibTpm.Base.Cost
open LibTpm.Command LibTpm.Constants LibTpm.Endian LibTpm.Platform LibTpm.Fifo LibTpm.Builder LibTpm.Commands
open LibTpm.Base.Clients LibTpm.Library LibTpm.PublicCalls LibTpm.CallOutcomes LibTpm.CapResponse LibTpm.DeviceSending LibTpm.DeviceExchanges
open LibTpm.PtpDevice LibTpm.TpmMachine LibTpm.PromptDevice LibTpm.CommandSimulation LibTpm.CommandCosts
open LibTpm.ReceiveRuns LibTpm.PortSimulation LibTpm.BufferStores

variable [Host] {W σ : Type} {port : FifoPort W} {chip : ChipData} {m : Machine σ} {view : W → Device}
  {limit fuel : Nat} {lag left : W → Nat}

/-- From any state of the device an exchange succeeds. The machine makes one
step, that of the command, and its response is returned. -/
theorem tpmXfer_ends (h : Prompt port chip m view limit lag left) (hfuel : Ample limit fuel) {cmd : TpmCmd}
    (hcmd : Sized cmd) (buf : TpmCmd) (w : W) :
    Ends (tpmXfer (fifoOps port fuel) chip cmd buf) w (fun r w' => r.1 = tpmSuccess ∧
      Carries r.2 (m.step (m.stateAt (view w).history) cmd.serialise).1 ∧
      ∃ ext, (view w').history = (view w).history ++ ext ∧ executions ext = [cmd.serialise]) := by
  apply (tpm2FifoSend_ends h hfuel hcmd.header hcmd.fits w).bind
  rintro ret w₁ ⟨rfl, hexecuting⟩
  rw [if_neg (by decide)]
  apply (tpm2FifoReceive_ends h hfuel buf w₁ hexecuting).bind
  rintro ⟨ret, resp⟩ w₂ ⟨hret, ext, response, hhistory, hext, -, hbytes⟩
  dsimp only at hret hbytes ⊢
  rw [if_neg (not_lt.mpr hret)]
  have hgenuine := h.genuine w₂
  rw [hhistory] at hgenuine
  rw [← hgenuine.response hext]
  refine ⟨rfl, hbytes ▸ List.take_prefix _ _, _, hhistory, ?_⟩
  rw [executions_append, hext]
  rfl

theorem tpmXfer_unrecorded (port : FifoPort W) (fuel : Nat) (chip : ChipData) (cmd buf : TpmCmd) :
    Simulates (fun s w => s.1 = w) Eq (tpmXfer (fifoOps port.recorded fuel) chip cmd buf)
      (tpmXfer (fifoOps port fuel) chip cmd buf) := by
  have hcalls : InterfaceSimulates (fun s w => s.1 = w) (fifoOps port.recorded fuel) (fifoOps port fuel) :=
    fifoOps_simulates (recorded_simulates port)
  exact tpmXfer_simulates (hcalls.send chip) (hcalls.receive chip) cmd buf

/-- An exchange recovers from whatever an earlier one has left behind, be it
half a command, a command that executes or a response that nobody has read. It
stores inside the buffer when the response is no longer than the data of one. -/
theorem exchange_recovers (h : Prompt port chip m view limit lag left) (hfuel : Ample limit fuel) {cmd : TpmCmd}
    (h10 : tpmHeaderSize ≤ (be32toh cmd.cmdSize).toNat)
    (hmax : (be32toh cmd.cmdSize).toNat ≤ maxSizeCmdbuf) (buf : TpmCmd) (w : W)
    (hdata : (m.step (m.stateAt (view w).history) cmd.serialise).1.length ≤ maxCmdData) :
    ∃ resp w' log, tpmXfer (fifoOps port fuel) chip cmd buf w = (some (tpmSuccess, resp), w') ∧
      tpmXfer (fifoOps port.recorded fuel) chip cmd buf (w, []) = (some (tpmSuccess, resp), w', log) ∧
      (∀ d ∈ stored log, d.Inside) ∧
      Carries resp (m.step (m.stateAt (view w).history) cmd.serialise).1 ∧
      ∃ ext, (view w').history = (view w).history ++ ext ∧ executions ext = [cmd.serialise] := by
  obtain ⟨⟨ret, resp⟩, ⟨w', log⟩, hrun, rfl, hcarries, hhistory⟩ :=
    (tpmXfer_ends h.recorded hfuel ⟨h10, hmax⟩ buf (w, [])).exists
  have hinside := tpmXfer_contained h hfuel h10 hmax buf (s := (w, [])) (fun _ hd => absurd hd List.not_mem_nil) hdata
  obtain ⟨r, s, w'', hrecorded, hbare, rfl⟩ := (tpmXfer_unrecorded port fuel chip cmd buf).agree (rfl : (w, []).1 = w)
  rw [hrun] at hinside hrecorded
  cases hrecorded
  exact ⟨resp, w', log, hbare, hrun, hinside, hcarries, hhistory⟩

def counting : Machine Nat where
  start := 0
  step n _ := (emptyResponse, n + 1)
  wellFormed _ _ := show WellFormed emptyResponse from ⟨by decide, by decide, by decide⟩

omit [Host] in
theorem counting_fits (n : Nat) (command : List UInt8) : (counting.step n command).1.length ≤ maxCmdData :=
  show emptyResponse.length ≤ maxCmdData by decide

omit [Host] in
theorem exchange_recovers_startup :
    letI := littleHost
    let port := LazyDevice.port counting (localityStartAddress tpmChipData.locality) 3
    ∃ resp w' log, tpmXfer (fifoOps port 300) tpmChipData (startupCommand 0).cmd TpmCmd.zero
        (LazyDevice.interrupted counting 3) = (some (tpmSuccess, resp), w') ∧
      tpmXfer (fifoOps port.recorded 300) tpmChipData (startupCommand 0).cmd TpmCmd.zero
        (LazyDevice.interrupted counting 3, []) = (some (tpmSuccess, resp), w', log) ∧
      (∀ d ∈ stored log, d.Inside) ∧
      Carries resp (counting.step (counting.stateAt (LazyDevice.interrupted counting 3).device.history)
        (startupCommand 0).cmd.serialise).1 ∧
      ∃ ext, w'.device.history = (LazyDevice.interrupted counting 3).device.history ++ ext ∧
        executions ext = [(startupCommand 0).cmd.serialise] := by
  let _ := littleHost
  exact exchange_recovers (LazyDevice.prompt counting 3 tpmChipData) ⟨by decide, by decide⟩ (by decide +kernel)
    (by decide +kernel) TpmCmd.zero (LazyDevice.interrupted counting 3) (counting_fits _ _)

def InStep (m : Machine σ) (view : W → Device) (w : W) (s : σ × List UInt8) : Prop :=
  m.stateAt (view w).history = s.1

theorem exchange_simulates (h : Prompt port chip m view limit lag left) (hfuel : Ample limit fuel) :
    ExchangeSimulates (InStep m view) (fifoOps port fuel) m.ops chip := by
  rintro cmd buf hcmd w ⟨s, resp⟩ hin
  obtain ⟨⟨ret, out⟩, w', hrun, rfl, hcarries, ext, hhistory, hext⟩ := (tpmXfer_ends h hfuel hcmd buf w).exists
  have hs : m.stateAt (view w).history = s := hin
  rw [hs] at hcarries
  rw [hrun, Machine.tpmXfer_ops]
  have hwell := m.wellFormed s cmd.serialise
  refine ⟨.some ⟨rfl, fun _ => similar_carries hwell hcarries (carries_setBytes hwell.fits buf)⟩, ?_⟩
  change m.stateAt (view w').history = (m.step s cmd.serialise).2
  rw [hhistory, ← List.nil_append ext, Machine.stateAt_executed rfl hext, hs]

/-- The calls that send commands to a chip. -/
def Commands {U : Type} (chip : ChipData) (call : PublicCall U) : Prop := SendsCommand call ∧ ∀ c ∈ chips call, c = chip

variable {U α : Type} {stack : TpmCmd} {client : TpmClient U α}

variable (stack) in
theorem client_machine (m : Machine σ) (hc : client.Makes (Commands chip)) (s : σ × List UInt8) :
    ∃ a s', client.run (perform stack m.ops) s = (some a, s') := by
  have hcosts : Costs (fun _ => 0) 0 (client.run (perform stack m.ops)) := by
    apply Client.run_ends hc
    intro call hcall
    have hexchange (c : ChipData) : ExchangeCosts (fun _ => 0) 0 m.ops c := fun cmd buf _ => ⟨fun _ => le_rfl⟩
    exact perform_costs hcall.1 fun c _ => hexchange c
  obtain ⟨a, s', hrun, -⟩ := (hcosts.ends s).exists
  exact ⟨a, s', hrun⟩

theorem exchange_contains (h : Prompt port chip m view limit lag left) (hfuel : Ample limit fuel)
    (hdata : ∀ s command, (m.step s command).1.length ≤ maxCmdData) :
    ExchangeSimulates (fun s t => InStep m (fun s : W × List Access => view s.1) s t ∧ Contained s)
      (fifoOps port.recorded fuel) m.ops chip := by
  intro cmd buf hcmd
  apply (exchange_simulates h.recorded hfuel cmd buf hcmd).keeping
  exact fun s t _ hs => tpmXfer_contained h hfuel hcmd.header hcmd.fits buf hs (hdata _ _)

theorem client_contains (h : Prompt port chip m view limit lag left) (hfuel : Ample limit fuel)
    (hdata : ∀ s command, (m.step s command).1.length ≤ maxCmdData) (hc : client.Makes (Commands chip)) :
    Simulates (fun s t => InStep m (fun s : W × List Access => view s.1) s t ∧ Contained s) Eq
      (client.run (perform stack (fifoOps port.recorded fuel))) (client.run (perform stack m.ops)) := by
  apply Client.run_simulates hc
  intro call hcall
  apply perform_simulates hcall.1
  intro c hchip
  rw [hcall.2 c hchip]
  exact exchange_contains h hfuel hdata

theorem client_unrecorded (port : FifoPort W) (fuel : Nat) (stack : TpmCmd) (client : TpmClient U α) :
    Simulates (fun s w => s.1 = w) Eq (client.run (perform stack (fifoOps port.recorded fuel)))
      (client.run (perform stack (fifoOps port fuel))) :=
  Client.run_simulates client.makes_true fun call _ =>
    calls_simulate stack (fifoOps_simulates (recorded_simulates port)) call

/-- Whatever state the device starts in, no client can tell its registers from
the machine inside, and the commands leave the machine in the same state. When
no response is longer than the data of a buffer, nothing is stored outside one. -/
theorem client_refines (h : Prompt port chip m view limit lag left) (hfuel : Ample limit fuel)
    (hdata : ∀ s command, (m.step s command).1.length ≤ maxCmdData) (hc : client.Makes (Commands chip)) (w : W) :
    ∃ a w' log resp', client.run (perform stack (fifoOps port fuel)) w = (some a, w') ∧
      client.run (perform stack (fifoOps port.recorded fuel)) (w, []) = (some a, w', log) ∧
      (∀ d ∈ stored log, d.Inside) ∧
      client.run (perform stack m.ops) (m.stateAt (view w).history, []) =
        (some a, m.stateAt (view w').history, resp') := by
  obtain ⟨a, ⟨t', resp'⟩, hmachine⟩ := client_machine stack m hc (m.stateAt (view w).history, [])
  have hstart : InStep m (fun s : W × List Access => view s.1) (w, []) (m.stateAt (view w).history, []) := rfl
  have hnone : Contained (w, []) := fun _ hd => absurd hd List.not_mem_nil
  obtain ⟨_, ⟨w', log⟩, hrun, rfl, hin, hinside⟩ :=
    (client_contains h hfuel hdata hc).returned ⟨hstart, hnone⟩ hmachine
  obtain rfl : m.stateAt (view w').history = t' := hin
  obtain ⟨r, s, w'', hrecorded, hbare, rfl⟩ := (client_unrecorded port fuel stack client).agree (rfl : (w, []).1 = w)
  rw [hrun] at hrecorded
  cases hrecorded
  exact ⟨_, w', log, resp', hbare, hrun, hinside, hmachine⟩

def startAndAsk (U : Type) (chip : ChipData) : TpmClient U (Option (Int × Option Bool)) :=
  .call (.startup chip 0) fun (err : Int) =>
    if err = tpmSuccess then
      .call (.hasAlg (some chip) 0x000B (some false)) fun (supported : Int × Option Bool) => .done (some supported)
    else .done none

omit [Host] in
theorem startAndAsk_makes (U : Type) (chip : ChipData) : (startAndAsk U chip).Makes (Commands chip) := by
  refine ⟨⟨trivial, fun c hc => List.mem_singleton.mp hc⟩, fun (err : Int) => ?_⟩
  by_cases h : err = tpmSuccess
  · simp only [h, if_true]
    exact ⟨⟨trivial, fun c hc => List.mem_singleton.mp hc⟩, fun _ => trivial⟩
  · simp only [h, if_false]
    trivial

omit [Host] in
theorem client_refines_interrupted :
    letI := littleHost
    let client := startAndAsk Unit tpmChipData
    let port := LazyDevice.port counting (localityStartAddress tpmChipData.locality) 3
    ∃ a w' log resp', client.run (perform TpmCmd.zero (fifoOps port 300)) (LazyDevice.interrupted counting 3) =
        (some a, w') ∧
      client.run (perform TpmCmd.zero (fifoOps port.recorded 300)) (LazyDevice.interrupted counting 3, []) =
        (some a, w', log) ∧
      (∀ d ∈ stored log, d.Inside) ∧
      client.run (perform TpmCmd.zero counting.ops)
        (counting.stateAt (LazyDevice.interrupted counting 3).device.history, []) =
          (some a, counting.stateAt w'.device.history, resp') := by
  let _ := littleHost
  exact client_refines (LazyDevice.prompt counting 3 tpmChipData) ⟨by decide, by decide⟩ counting_fits
    (startAndAsk_makes Unit tpmChipData) (LazyDevice.interrupted counting 3)

end LibTpm.DeviceRefinement
