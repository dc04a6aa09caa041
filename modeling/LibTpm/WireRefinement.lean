import LibTpm.DeviceRefinement
import LibTpm.WireAccess

namespace LibTpm.WireRefinement

open LibTpm.Base.Process LibTpm.Base.Process.Proc LibTpm.Base.Simulation LibTpm.Command LibTpm.Constants
open LibTpm.Base.Clients LibTpm.Endian LibTpm.Platform LibTpm.Fifo LibTpm.Spi LibTpm.Library LibTpm.PublicCalls LibTpm.CallOutcomes
open LibTpm.Invariance LibTpm.PortSimulation LibTpm.CommandSimulation LibTpm.PtpDevice LibTpm.TpmMachine LibTpm.PromptDevice
open LibTpm.DeviceRefinement LibTpm.SpiDevice LibTpm.WireAccess

variable {W σ τ : Type} {d : BusDevice σ} {timer : TimeoutOps σ} {ops : SpiOps W} {timeoutOps : TimeoutOps W}
  {line : W → Line σ} {g : Globals W} {s : σ}

section Calls

variable [Host] {fuel : Nat} {stack : TpmCmd}

/-- The calls that reach the device. An initialisation has the same transport
and the same timer each time. -/
def Serves (ops : SpiOps W) (timeoutOps : TimeoutOps W) (libTimer : Option (TimeoutOps W)) : PublicCall W → Prop
  | .interfaceInit transport callerTimer _ _ => transport = ops ∧ callerTimer.or libTimer = some timeoutOps
  | .getLastTransportError => False
  | _ => True

theorem withInterface_linked {α : Type} {R : Globals W → σ → Prop} {A : α → α → Prop}
    (hset : ∀ g s, R g s → g.interfaceSet = true) {call : Interface (Globals W) → Proc (Globals W) α} {p : Proc σ α}
    (h : Simulates R A (call (fifoOps spiPort fuel)) p) : Simulates R A (withInterface call fuel) p := by
  intro g s hg
  have hrun : withInterface call fuel g = call (fifoOps spiPort fuel) g := by
    rw [withInterface, lift_bind]
    simp only [interfaceIsSet, hset g s hg, if_true]
  rw [hrun]
  exact h g s hg

variable (fuel) in
theorem interface_linked (h : Linked d timer ops timeoutOps line) :
    InterfaceSimulates (Behind ops timeoutOps line) (fifoOps spiPort fuel) (fifoOps (registerPort d timer) fuel) :=
  fifoOps_simulates (spiPort_linked h)

/-- The initialisation brings the transport and the timer into place, whatever
was in the global variables. -/
theorem interfaceInit_linked (h : Linked d timer ops timeoutOps line) {libTimer callerTimer : Option (TimeoutOps W)}
    (htimer : callerTimer.or libTimer = some timeoutOps) (chip : ChipData) (locality : UInt8) (g : Globals W) :
    ∃ r g' s', tpmInterfaceInit libTimer fuel ops callerTimer chip locality g = (r, g') ∧
      perform stack (fifoOps (registerPort d timer) fuel) (.interfaceInit ops callerTimer chip locality)
        (line g.world).device = (r, s') ∧ Behind ops timeoutOps line g' s' := by
  have hbehind : Behind ops timeoutOps line { g with tpmSpidev := ops, tpmTimeoutOps := timeoutOps, interfaceSet := true }
      (line g.world).device := ⟨rfl, rfl, rfl, rfl⟩
  have hsim := calls_simulate stack (interface_linked fuel h) (.interfaceInit ops callerTimer chip locality)
  obtain ⟨r, g', s', hrun, hrun', hbehind⟩ := hsim.agree hbehind
  refine ⟨r, g', s', ?_, hrun', hbehind⟩
  rw [tpmInterfaceInit, htimer]
  exact hrun

theorem invoke_linked (h : Linked d timer ops timeoutOps line) {libTimer : Option (TimeoutOps W)} {call : PublicCall W}
    (hcall : Serves ops timeoutOps libTimer call) : Simulates (Behind ops timeoutOps line) Eq
      (invoke stack libTimer fuel call) (perform stack (fifoOps (registerPort d timer) fuel) call) := by
  have hset (g : Globals W) (s : σ) (hg : Behind ops timeoutOps line g s) : g.interfaceSet = true := hg.interfaceSet
  have hcall' : Simulates (Behind ops timeoutOps line) Eq (withInterface (fun i => perform stack i call) fuel)
      (perform stack (fifoOps (registerPort d timer) fuel) call) :=
    withInterface_linked hset (calls_simulate stack (interface_linked fuel h) call)
  cases call with
  | getLastTransportError => exact hcall.elim
  | interfaceInit transport callerTimer chip locality =>
      obtain ⟨rfl, htimer⟩ := hcall
      rintro g s ⟨-, -, -, rfl⟩
      obtain ⟨r, g', s', hrun, hrun', hbehind⟩ := interfaceInit_linked h htimer chip locality g
      rw [invoke, hrun, hrun']
      refine ⟨?_, hbehind⟩
      cases r with
      | none => exact .none
      | some r => exact .some rfl
  | _ => exact hcall'

variable {α : Type} {libTimer callerTimer : Option (TimeoutOps W)}

theorem client_linked (h : Linked d timer ops timeoutOps line) {client : TpmClient W α}
    (hc : client.Makes (Serves ops timeoutOps libTimer)) : Simulates (Behind ops timeoutOps line) Eq
      (client.run (invoke stack libTimer fuel)) (client.run (perform stack (fifoOps (registerPort d timer) fuel))) :=
  Client.run_simulates hc fun _ hcall => invoke_linked h hcall

/-- Whatever the device does at each byte of a register, however many wait
states it asks for and whatever it sends in the bits left open, a client that
begins with the initialisation cannot tell the library over the wires from the
registers, and leaves the device in the same state. -/
theorem client_over_wires (h : Linked d timer ops timeoutOps line) (htimer : callerTimer.or libTimer = some timeoutOps)
    (chip : ChipData) (locality : UInt8) {next : Int × ChipData → TpmClient W α}
    (hnext : ∀ r, (next r).Makes (Serves ops timeoutOps libTimer)) (g : Globals W) :
    let client : TpmClient W α := .call (.interfaceInit ops callerTimer chip locality) next
    ∃ r g' s', client.run (invoke stack libTimer fuel) g = (r, g') ∧
      client.run (perform stack (fifoOps (registerPort d timer) fuel)) (line g.world).device = (r, s') ∧
      Behind ops timeoutOps line g' s' := by
  obtain ⟨_ | r, g', s', hinit, hinit', hbehind⟩ := interfaceInit_linked h htimer chip locality g
  · exact ⟨none, g', s', bind_none hinit, bind_none hinit', hbehind⟩
  obtain ⟨r', g'', s'', hrun, hrun', hbehind⟩ := (client_linked h (hnext r)).agree hbehind
  exact ⟨r', g'', s'', (bind_some hinit).trans hrun, (bind_some hinit').trans hrun', hbehind⟩

/-- From the bytes on the wires to the machine in the device: over a prompt
device no client of commands can tell the library from the machine. When no
response is longer than the data of a buffer, nothing is stored outside one. -/
theorem client_reaches_machine {chip : ChipData} {m : Machine τ} {view : σ → Device} {limit : Nat} {lag left : σ → Nat}
    (h : Linked d timer ops timeoutOps line) (hp : Prompt (registerPort d timer) chip m view limit lag left)
    (hfuel : Ample limit fuel) (hdata : ∀ s command, (m.step s command).1.length ≤ maxCmdData)
    {client : TpmClient W α} (hc : client.Makes (Commands chip)) (hg : Behind ops timeoutOps line g s) :
    ∃ a g' s' log resp', client.run (invoke stack libTimer fuel) g = (some a, g') ∧ Behind ops timeoutOps line g' s' ∧
      client.run (perform stack (fifoOps (registerPort d timer).recorded fuel)) (s, []) = (some a, s', log) ∧
      (∀ dst ∈ ReceiveRuns.stored log, dst.Inside) ∧
      client.run (perform stack m.ops) (m.stateAt (view s).history, []) =
        (some a, m.stateAt (view s').history, resp') := by
  have hserves : client.Makes (Serves ops timeoutOps libTimer) := by
    apply hc.mono
    rintro call ⟨hsends, -⟩
    cases call with
    | interfaceInit | getLastTransportError => exact hsends.elim
    | _ => trivial
  obtain ⟨a, s', log, resp', hrun, hrecorded, hinside, hmachine⟩ := client_refines hp hfuel hdata hc s
  obtain ⟨_, g', hrun', rfl, hbehind⟩ := (client_linked h hserves).returned hg hrun
  exact ⟨_, g', s', log, resp', hrun', hbehind, hrecorded, hinside, hmachine⟩

end Calls

section Example

def lazyLine (interfaceSet : Bool) : Globals (Line (LazyDevice.Lazy counting 3)) :=
  ⟨lineSpi (LazyDevice.bus counting (localityStartAddress tpmChipData.locality) 3),
    lineTimer (LazyDevice.timer counting 3), interfaceSet, 0, ⟨LazyDevice.interrupted counting 3, .released, 0⟩⟩

def closeIfOpened (W : Type) : Int × ChipData → TpmClient W Bool
  | (err, chip) =>
      if err = tpmSuccess then .call (.interfaceClose chip 0) fun (ret : Int) => .done (ret = tpmSuccess)
      else .done false

theorem closeIfOpened_makes {P : PublicCall W → Prop} (h : ∀ chip, P (.interfaceClose chip 0)) (r : Int × ChipData) :
    (closeIfOpened W r).Makes P := by
  obtain ⟨err, chip⟩ := r
  rw [closeIfOpened]
  by_cases herr : err = tpmSuccess
  · rw [if_pos herr]
    exact ⟨h chip, fun _ => trivial⟩
  · rw [if_neg herr]
    trivial

theorem client_over_wires_lazy :
    letI := littleHost
    let d := LazyDevice.bus counting (localityStartAddress tpmChipData.locality) 3
    let timer := LazyDevice.timer counting 3
    let client : TpmClient (Line (LazyDevice.Lazy counting 3)) Bool :=
      .call (.interfaceInit (lineSpi d) (some (lineTimer timer)) tpmChipData 0) (closeIfOpened _)
    ∃ r g' s', client.run (invoke TpmCmd.zero none 300) (lazyLine false) = (r, g') ∧
      client.run (perform TpmCmd.zero (fifoOps (registerPort d timer) 300)) (LazyDevice.interrupted counting 3) =
        (r, s') ∧ Behind (lineSpi d) (lineTimer timer) id g' s' := by
  let _ := littleHost
  exact client_over_wires (line_linked _ _) rfl tpmChipData 0 (closeIfOpened_makes fun _ => trivial) (lazyLine false)

theorem client_reaches_machine_lazy :
    letI := littleHost
    let d := LazyDevice.bus counting (localityStartAddress tpmChipData.locality) 3
    let timer := LazyDevice.timer counting 3
    let client := startAndAsk (Line (LazyDevice.Lazy counting 3)) tpmChipData
    ∃ a g' s' log resp', client.run (invoke TpmCmd.zero none 300) (lazyLine true) = (some a, g') ∧
      Behind (lineSpi d) (lineTimer timer) id g' s' ∧
      client.run (perform TpmCmd.zero (fifoOps (registerPort d timer).recorded 300))
        (LazyDevice.interrupted counting 3, []) = (some a, s', log) ∧
      (∀ dst ∈ ReceiveRuns.stored log, dst.Inside) ∧
      client.run (perform TpmCmd.zero counting.ops)
        (counting.stateAt (LazyDevice.interrupted counting 3).device.history, []) =
          (some a, counting.stateAt s'.device.history, resp') := by
  let _ := littleHost
  exact client_reaches_machine (line_linked _ _) (LazyDevice.prompt counting 3 tpmChipData) ⟨by decide, by decide⟩
    counting_fits (startAndAsk_makes _ tpmChipData) ⟨rfl, rfl, rfl, rfl⟩

end Example

end LibTpm.WireRefinement
