import LibTpm.ClockBounds

namespace LibTpm.TransportBounds

open LibTpm.Base.Process LibTpm.Base.Process.Proc LibTpm.Base.Simulation LibTpm.Base.Cost LibTpm.Base.Clients
open LibTpm.Constants LibTpm.Command LibTpm.Endian LibTpm.Platform LibTpm.Fifo LibTpm.Spi LibTpm.PosixTimer
open LibTpm.Library LibTpm.PublicCalls LibTpm.CallOutcomes LibTpm.AccessBounds LibTpm.PortSimulation
open LibTpm.CommandSimulation LibTpm.CallBounds LibTpm.ClockBounds LibTpm.WireRefinement

variable {W : Type} {ops : SpiOps W} {clockGettime : StateM W Timespec} {now : W → UInt64} {stalls cost : W → Nat}
  {s : Nat}

/-- Time does not go back, and the cost rises by `n` at most. -/
structure Goes (now : W → UInt64) (stalls cost : W → Nat) (n : Nat) (w w' : W) : Prop where
  passes : Passes now stalls 0 w w'
  costs : cost w' ≤ cost w + n

/-- A transport of which nothing is known but that it does not turn the clock
back. Only a transfer costs something. -/
structure Timely (ops : SpiOps W) (clockGettime : StateM W Timespec) (now : W → UInt64) (stalls cost : W → Nat)
    (s : Nat) : Prop extends Running clockGettime now stalls s where
  reading_costs (w : W) : cost (clockGettime w).2 ≤ cost w
  getAccess (w : W) : Goes now stalls cost 0 w (ops.getAccess w).2
  releaseAccess (w : W) : Goes now stalls cost 0 w (ops.releaseAccess w).2
  start (w : W) : Goes now stalls cost 0 w (ops.start w).2
  stop (w : W) : Goes now stalls cost 0 w (ops.stop w).2
  xfer (len : Nat) (out : Option (List UInt8)) (w : W) : Goes now stalls cost 1 w (ops.xfer len out w).2

/-- The transfers of a register access: the header, the polls and the data. -/
def accessTransfers : Nat := 1 + retryCount + 1

section Access

structure Stays (g g' : Globals W) : Prop where
  spidev : g'.tpmSpidev = g.tpmSpidev
  timeoutOps : g'.tpmTimeoutOps = g.tpmTimeoutOps
  interfaceSet : g'.interfaceSet = g.interfaceSet

structure Moves (now : W → UInt64) (stalls cost : W → Nat) (n : Nat) (g g' : Globals W) : Prop
    extends Stays g g' where
  goes : Goes now stalls cost n g.world g'.world

theorem Goes.refl (n : Nat) (w : W) : Goes now stalls cost n w w := ⟨.inr ⟨rfl, le_rfl⟩, Nat.le_add_right _ _⟩

theorem passes_trans {w w' w'' : W} (h : Passes now stalls 0 w w') (h' : Passes now stalls 0 w' w'') :
    Passes now stalls 0 w w'' := by
  rcases h with hnow | ⟨hnow, hstalls⟩ <;> rcases h' with hnow' | ⟨hnow', hstalls'⟩
  · exact .inl (UInt64.lt_trans hnow hnow')
  · exact .inl (hnow' ▸ hnow)
  · exact .inl (hnow ▸ hnow')
  · exact .inr ⟨hnow.trans hnow', Nat.le_trans hstalls hstalls'⟩

variable {n m : Nat} {g g' g'' : Globals W}

theorem Moves.refl (n : Nat) (g : Globals W) : Moves now stalls cost n g g := ⟨⟨rfl, rfl, rfl⟩, Goes.refl n g.world⟩

theorem Moves.trans (h : Moves now stalls cost n g g') (h' : Moves now stalls cost m g' g'') :
    Moves now stalls cost (n + m) g g'' where
  spidev := h'.spidev.trans h.spidev
  timeoutOps := h'.timeoutOps.trans h.timeoutOps
  interfaceSet := h'.interfaceSet.trans h.interfaceSet
  goes := by
    refine ⟨passes_trans h.goes.passes h'.goes.passes, ?_⟩
    have hcost := h.goes.costs
    have hcost' := h'.goes.costs
    omega

theorem Moves.mono (h : Moves now stalls cost n g g') (hn : n ≤ m) : Moves now stalls cost m g g' :=
  ⟨h.toStays, h.goes.passes, Nat.le_trans h.goes.costs (Nat.add_le_add_left hn _)⟩

theorem platform_moves {α : Type} {f : Globals W → StateM W α} (h : Goes now stalls cost n g.world (f g g.world).2) :
    Moves now stalls cost n g (platform f g).2 := ⟨⟨rfl, rfl, rfl⟩, h⟩

theorem transport_moves {α : Type} (f : SpiOps W → StateM W α) (hg : g.tpmSpidev = ops)
    (h : Goes now stalls cost n g.world (f ops g.world).2) :
    Moves now stalls cost n g (platform (fun g => f g.tpmSpidev) g).2 := by
  apply platform_moves
  rw [hg]
  exact h

theorem setTransportError_moves (rc : Int) (g : Globals W) : Moves now stalls cost 0 g (setTransportError rc g).2 :=
  ⟨⟨rfl, rfl, rfl⟩, Goes.refl 0 g.world⟩

variable (h : Timely ops clockGettime now stalls cost s)
include h

theorem transfer_moves (hg : g.tpmSpidev = ops) (out : Option (List UInt8)) (len : UInt8) :
    Moves now stalls cost 1 g (tpm2SpiTransfer out len g).2 := by
  have hxfer := transport_moves (fun ops => ops.xfer len.toNat out) hg (h.xfer len.toNat out g.world)
  simp only [tpm2SpiTransfer, state_bind]
  split
  · exact hxfer.trans (setTransportError_moves _ _)
  · exact hxfer

theorem waitStates_moves (hg : g.tpmSpidev = ops) (n : Nat) : Moves now stalls cost n g (waitStates n g).2 := by
  induction n generalizing g with
  | zero => exact Moves.refl 0 g
  | succ n ih =>
      have hpoll := transfer_moves h hg (some [0]) 1
      simp only [waitStates, state_bind]
      rw [Nat.add_comm]
      split
      · exact hpoll.mono (Nat.le_add_right 1 n)
      · split
        · exact hpoll.mono (Nat.le_add_right 1 n)
        · exact hpoll.trans (ih (hpoll.spidev.trans hg))

theorem startTransaction_moves (hg : g.tpmSpidev = ops) (reg : UInt16) (access : TpmAccess) (len : UInt8) :
    Moves now stalls cost (1 + retryCount) g (tpm2SpiStartTransaction reg access len g).2 := by
  have hheader := transfer_moves h hg (some (spiHeader reg access len)) 4
  simp only [tpm2SpiStartTransaction]
  split
  · exact Moves.refl _ g
  · simp only [state_bind]
    split
    · exact hheader.mono (Nat.le_add_right _ _)
    · split
      · exact hheader.mono (Nat.le_add_right _ _)
      · exact hheader.trans (waitStates_moves h (hheader.spidev.trans hg) retryCount)

theorem endTransaction_moves (hg : g.tpmSpidev = ops) : Moves now stalls cost 0 g (tpm2SpiEndTransaction g).2 := by
  have hstop := transport_moves SpiOps.stop hg (h.stop g.world)
  have hrelease := transport_moves SpiOps.releaseAccess (hstop.spidev.trans hg) (h.releaseAccess _)
  exact hstop.trans hrelease

theorem init_moves (hg : g.tpmSpidev = ops) : Moves now stalls cost 0 g (tpm2SpiInit g).2 := by
  have haccess := transport_moves SpiOps.getAccess hg (h.getAccess g.world)
  have hstart := transport_moves SpiOps.start (haccess.spidev.trans hg) (h.start _)
  simp only [tpm2SpiInit, state_bind]
  split
  · exact haccess.trans (setTransportError_moves _ _)
  · exact haccess.trans hstart

theorem tpm2FifoIo_moves (hg : g.tpmSpidev = ops) (reg : UInt16) (access : TpmAccess) (len : UInt8)
    (val : Option (List UInt8)) : Moves now stalls cost accessTransfers g (tpm2FifoIo reg access len val g).2 := by
  have hinit := init_moves h hg
  have hstart := startTransaction_moves h (hinit.spidev.trans hg) reg access len
  have hopened := hinit.trans hstart
  have hdata (out : Option (List UInt8)) := hopened.trans (transfer_moves h (hopened.spidev.trans hg) out len)
  simp only [Nat.zero_add] at hopened hdata
  simp only [tpm2FifoIo, state_bind]
  split
  · exact hinit.mono (Nat.zero_le _)
  simp only [state_bind]
  split
  · exact (hopened.trans (endTransaction_moves h (hopened.spidev.trans hg))).mono (Nat.le_add_right (1 + retryCount) 1)
  generalize (if access = .write then val else none) = out
  have hclosed := (hdata out).trans (endTransaction_moves h ((hdata out).spidev.trans hg))
  simp only [state_bind]
  split
  · exact hclosed
  · exact hclosed

end Access

section Installed

structure Installed (ops : SpiOps W) (clockGettime : StateM W Timespec) where
  globals : Globals W
  spidev : globals.tpmSpidev = ops
  timer : globals.tpmTimeoutOps = tpmLibTimeoutOps clockGettime
  interfaceSet : globals.interfaceSet = true

def install (ops : SpiOps W) (clockGettime : StateM W Timespec) (g : Globals W) : Installed ops clockGettime :=
  ⟨{ g with tpmSpidev := ops, tpmTimeoutOps := tpmLibTimeoutOps clockGettime, interfaceSet := true }, rfl, rfl, rfl⟩

theorem install_globals (x : Installed ops clockGettime) : (install ops clockGettime x.globals).globals = x.globals := by
  obtain ⟨g, hspidev, htimer, hset⟩ := x
  dsimp only [install]
  rw [← hspidev, ← htimer, ← hset]

def Installed.moved (x : Installed ops clockGettime) {g : Globals W} (h : Stays x.globals g) :
    Installed ops clockGettime :=
  ⟨g, h.spidev.trans x.spidev, h.timeoutOps.trans x.timer, h.interfaceSet.trans x.interfaceSet⟩

def installed {α : Type} (m : StateM (Globals W) α)
    (h : ∀ x : Installed ops clockGettime, Stays x.globals (m x.globals).2) :
    StateM (Installed ops clockGettime) α := fun x => ((m x.globals).1, x.moved (h x))

theorem writeByte_moves (h : Timely ops clockGettime now stalls cost s) (x : Installed ops clockGettime)
    (reg : UInt16) (val : UInt8) :
    Moves now stalls cost accessTransfers x.globals (tpm2FifoWriteByte reg val x.globals).2 :=
  tpm2FifoIo_moves h x.spidev reg .write 1 (some [val])

theorem readByte_moves (h : Timely ops clockGettime now stalls cost s) (x : Installed ops clockGettime) (reg : UInt16) :
    Moves now stalls cost accessTransfers x.globals (tpm2FifoReadByte reg x.globals).2 :=
  tpm2FifoIo_moves h x.spidev reg .read 1 none

theorem readChunk_moves (h : Timely ops clockGettime now stalls cost s) (x : Installed ops clockGettime)
    (reg : UInt16) (len : UInt8) :
    Moves now stalls cost accessTransfers x.globals (tpm2FifoReadChunk reg len x.globals).2 := by
  unfold tpm2FifoReadChunk
  split
  · exact Moves.refl _ _
  · exact tpm2FifoIo_moves h x.spidev reg .read len none

def wiredClock (ops : SpiOps W) (clockGettime : StateM W Timespec) : StateM (Installed ops clockGettime) Timespec :=
  installed (platform fun _ => clockGettime) fun _ => ⟨rfl, rfl, rfl⟩

def wiredPort (h : Timely ops clockGettime now stalls cost s) : FifoPort (Installed ops clockGettime) where
  toTimeoutOps := tpmLibTimeoutOps (wiredClock ops clockGettime)
  writeByte reg val := installed (tpm2FifoWriteByte reg val) fun x => (writeByte_moves h x reg val).toStays
  readByte reg _ := installed (tpm2FifoReadByte reg) fun x => (readByte_moves h x reg).toStays
  readChunk reg len := installed (tpm2FifoReadChunk reg len) fun x => (readChunk_moves h x reg len).toStays

theorem wiredPort_advances (h : Timely ops clockGettime now stalls cost s) :
    Advances (wiredClock ops clockGettime) (wiredPort h) (fun x => now x.globals.world)
      (fun x => stalls x.globals.world) s where
  stalls_lt x := h.stalls_lt x.globals.world
  reads := by
    rintro x _ _ ⟨⟩
    exact h.reads rfl
  writeByte reg val x := (writeByte_moves h x reg val).goes.passes
  readByte reg _ x := (readByte_moves h x reg).goes.passes
  readChunk reg len x := (readChunk_moves h x reg len).goes.passes

end Installed

section Calls

variable {libTimer callerTimer : Option (TimeoutOps W)} {fuel base : Nat}

/-- The library's globals, over the registers that it reaches; each access has
cost the transfers of one at most. -/
def Wired (cost : W → Nat) (base : Nat) (g : Globals W) (p : Installed ops clockGettime × Nat) : Prop :=
  g = p.1.globals ∧ cost g.world ≤ base + accessTransfers * p.2

theorem wired_access {x : Installed ops clockGettime} {k : Nat} {g : Globals W}
    (hk : cost x.globals.world ≤ base + accessTransfers * k) (h : Moves now stalls cost accessTransfers x.globals g) :
    cost g.world ≤ base + accessTransfers * (k + 1) := by
  have hcosts := h.goes.costs
  rw [Nat.mul_succ]
  omega

theorem spiPort_wired (h : Timely ops clockGettime now stalls cost s) :
    PortSimulates (fun _ => True) (Wired cost base) (fun _ => Wired cost base) spiPort (counted (wiredPort h)) where
  timeoutInit usec := by
    rintro _ ⟨x, k⟩ ⟨rfl, hk⟩
    have hinit : spiPort.timeoutInitUs usec x.globals =
        platform (fun _ => timeoutInitUsImpl clockGettime usec) x.globals := by
      simp only [spiPort, platform, x.timer]
      rfl
    exact ⟨_, _, _, hinit, rfl, rfl, Nat.le_trans (h.reading_costs _) hk⟩
  timeoutElapsed cnt := by
    rintro _ ⟨x, k⟩ ⟨rfl, hk⟩
    have helapsed : spiPort.timeoutElapsed cnt x.globals =
        platform (fun _ => timeoutElapsedImpl clockGettime cnt) x.globals := by
      simp only [spiPort, platform, x.timer]
      rfl
    rw [lift_run, lift_run, helapsed]
    exact ⟨.some rfl, rfl, Nat.le_trans (h.reading_costs _) hk⟩
  poll _ reg dst _ := by
    rintro _ ⟨x, k⟩ ⟨rfl, hk⟩
    exact ⟨.some rfl, rfl, wired_access hk (readByte_moves h x reg)⟩
  disarm _ _ _ := id
  write reg val _ := by
    rintro _ ⟨x, k⟩ ⟨rfl, hk⟩
    exact ⟨.some rfl, rfl, wired_access hk (writeByte_moves h x reg val)⟩
  read reg dst _ := by
    rintro _ ⟨x, k⟩ ⟨rfl, hk⟩
    exact ⟨.some rfl, rfl, wired_access hk (readByte_moves h x reg)⟩
  readChunk reg len _ := by
    rintro _ ⟨x, k⟩ ⟨rfl, hk⟩
    exact ⟨.some rfl, rfl, wired_access hk (readChunk_moves h x reg len)⟩

def Uses (ops : SpiOps W) (timeoutOps : TimeoutOps W) (libTimer : Option (TimeoutOps W)) : PublicCall W → Prop
  | .interfaceInit transport callerTimer _ _ => transport = ops ∧ callerTimer.or libTimer = some timeoutOps
  | _ => True

variable [Host] {stack : TpmCmd} {α : Type}

def answer (stack : TpmCmd) (fuel : Nat) (h : Timely ops clockGettime now stalls cost s) :
    (call : PublicCall W) → Proc (Installed ops clockGettime × Nat) (Outcome call)
  | .getLastTransportError => fun p => (some p.1.globals.tpmLastTransportError, p)
  | call => perform stack (fifoOps (counted (wiredPort h)) fuel) call

theorem answer_costs (h : Timely ops clockGettime now stalls cost s) (hfuel : 2 ^ 32 * s ≤ fuel) (call : PublicCall W) :
    Costs Prod.snd (callBound (2 ^ 32 * s) call) (answer stack fuel h call) := by
  have hcall : Costs Prod.snd (callBound (2 ^ 32 * s) call)
      (perform stack (fifoOps (counted (wiredPort h)) fuel) call) :=
    call_costs_timed stack (wiredPort_advances h) hfuel call
  cases call with
  | getLastTransportError => exact ⟨fun p => Nat.le_add_right _ _⟩
  | _ => exact hcall

variable (fuel stack) in
theorem invoke_interfaceInit (htimer : callerTimer.or libTimer = some (tpmLibTimeoutOps clockGettime)) (chip : ChipData)
    (locality : UInt8) (g : Globals W) : invoke stack libTimer fuel (.interfaceInit ops callerTimer chip locality) g =
      perform stack (fifoOps spiPort fuel) (.interfaceInit ops callerTimer chip locality)
        (install ops clockGettime g).globals := by
  rw [invoke, tpmInterfaceInit, htimer]
  rfl

theorem invoke_wired (h : Timely ops clockGettime now stalls cost s) {call : PublicCall W}
    (hcall : Uses ops (tpmLibTimeoutOps clockGettime) libTimer call) :
    Simulates (Wired cost base) Eq (invoke stack libTimer fuel call) (answer stack fuel h call) := by
  have hsim : Simulates (Wired cost base) Eq (perform stack (fifoOps spiPort fuel) call)
      (perform stack (fifoOps (counted (wiredPort h)) fuel) call) :=
    calls_simulate stack (fifoOps_simulates (spiPort_wired h)) call
  have hset (g : Globals W) (p : Installed ops clockGettime × Nat) (hg : Wired cost base g p) :
      g.interfaceSet = true := hg.1 ▸ p.1.interfaceSet
  have hcall' : Simulates (Wired cost base) Eq (withInterface (fun i => perform stack i call) fuel)
      (perform stack (fifoOps (counted (wiredPort h)) fuel) call) := withInterface_linked hset hsim
  cases call with
  | getLastTransportError =>
      rintro _ ⟨x, k⟩ ⟨rfl, hk⟩
      exact ⟨.some rfl, rfl, hk⟩
  | interfaceInit transport callerTimer chip locality =>
      obtain ⟨rfl, htimer⟩ := hcall
      rintro _ ⟨x, k⟩ ⟨rfl, hk⟩
      rw [invoke_interfaceInit fuel stack htimer, install_globals]
      exact hsim x.globals (x, k) ⟨rfl, hk⟩
  | _ => exact hcall'

/-- Whatever the transport does and answers, a client that begins with the
initialisation comes to its end, after transfers that its calls bound. -/
theorem client_ends_transport (h : Timely ops clockGettime now stalls cost s)
    (htimer : callerTimer.or libTimer = some (tpmLibTimeoutOps clockGettime)) (hfuel : 2 ^ 32 * s ≤ fuel)
    (chip : ChipData) (locality : UInt8) {next : Int × ChipData → TpmClient W α}
    (hnext : ∀ r, (next r).Makes (Uses ops (tpmLibTimeoutOps clockGettime) libTimer)) (g : Globals W) :
    let client : TpmClient W α := .call (.interfaceInit ops callerTimer chip locality) next
    ∃ a g', client.run (invoke stack libTimer fuel) g = (some a, g') ∧
      ∀ n, client.Within (callBound (2 ^ 32 * s)) n → cost g'.world ≤ cost g.world + accessTransfers * n := by
  intro client
  let x := install ops clockGettime g
  have hstart : Wired cost (cost g.world) x.globals (x, 0) := ⟨rfl, Nat.le_add_right _ _⟩
  have hrun : client.run (invoke stack libTimer fuel) g = client.run (invoke stack libTimer fuel) x.globals := by
    simp only [client, Client.run, bind_run]
    rw [invoke_interfaceInit fuel stack htimer, invoke_interfaceInit fuel stack htimer, install_globals]
  have hsim : Simulates (Wired cost (cost g.world)) Eq (client.run (invoke stack libTimer fuel))
      (client.run (answer stack fuel h)) :=
    Client.run_simulates ⟨⟨rfl, htimer⟩, hnext⟩ fun call hcall => invoke_wired h hcall
  obtain ⟨a, ⟨x', k⟩, hrun', hbound⟩ := Client.run_bounded (fun call => answer_costs h hfuel call) client (x, 0)
  obtain ⟨_, g', hreal, rfl, -, hcost⟩ := hsim.returned hstart hrun'
  refine ⟨_, g', hrun.trans hreal, fun n hn => Nat.le_trans hcost ?_⟩
  have hk : k ≤ 0 + n := hbound n hn
  rw [Nat.zero_add] at hk
  exact Nat.add_le_add_left (Nat.mul_le_mul_left accessTransfers hk) _

end Calls

def slowBus : SpiDevice.BusDevice Slow where
  waits _ _ := 2
  read address _ := Slow.look (address - 0xD40000).toUInt16
  write address _ _ := fun s => ((), s.take (address - 0xD40000).toUInt16)
  noise sent := sent.toUInt8

def slowSpi : SpiOps ((SpiDevice.Line Slow × Nat) × Nat) where
  getAccess := pure 0
  releaseAccess := pure ()
  start := fun w => ((), (w.1.1.select, w.1.2), w.2)
  stop := fun w => ((), (w.1.1.deselect, w.1.2), w.2)
  xfer len out := fun w =>
    let r := (SpiDevice.lineSpi slowBus).xfer len out w.1.1
    (r.1, (r.2, w.1.2 + 1), w.2)

theorem slowSpi_timely :
    Timely slowSpi (tickingBeside _) (fun w => tickingNow w.2) (fun _ => 0) (fun w => w.1.2) 1 where
  toRunning := tickingBeside_running _
  reading_costs _ := le_rfl
  getAccess w := Goes.refl 0 w
  releaseAccess w := Goes.refl 0 w
  start _ := ⟨.inr ⟨rfl, le_rfl⟩, le_rfl⟩
  stop _ := ⟨.inr ⟨rfl, le_rfl⟩, le_rfl⟩
  xfer _ _ _ := ⟨.inr ⟨rfl, le_rfl⟩, le_rfl⟩

theorem startIfOpened_makes {P : PublicCall W → Prop} (hstart : ∀ chip, P (.startup chip 0))
    (hclose : ∀ chip, P (.interfaceClose chip 0)) (r : Int × ChipData) : (startIfOpened W r).Makes P := by
  obtain ⟨err, chip⟩ := r
  rw [startIfOpened]
  by_cases h : err = tpmSuccess
  · rw [if_pos h]
    exact ⟨hstart chip, fun _ => ⟨hclose chip, fun _ => trivial⟩⟩
  · rw [if_neg h]
    trivial

theorem client_ends_transport_slow :
    letI := littleHost
    let timer := tpmLibTimeoutOps (tickingBeside (SpiDevice.Line Slow × Nat))
    let run := (startSession slowSpi).run (invoke TpmCmd.zero (some timer) (2 ^ 32 * 1))
      ⟨slowSpi, timer, false, 0, (⟨⟨false, 0, 0⟩, .released, 0⟩, 0), 0⟩
    ∃ g', run = (some (some tpmSuccess), g') ∧ g'.world.1.2 ≤ 0 + accessTransfers * sessionBound (2 ^ 32 * 1) := by
  let _ := littleHost
  intro timer run
  have hvalue : run.1 = some (some tpmSuccess) := by decide +kernel
  have hnext (r : Int × ChipData) : (startIfOpened _ r).Makes (Uses slowSpi timer (some timer)) :=
    startIfOpened_makes (fun _ => trivial) (fun _ => trivial) r
  obtain ⟨a, g', hrun, hbound⟩ : ∃ a g', run = (some a, g') ∧
      ∀ n, (startSession slowSpi).Within (callBound (2 ^ 32 * 1)) n → g'.world.1.2 ≤ 0 + accessTransfers * n :=
    client_ends_transport slowSpi_timely rfl le_rfl tpmChipData 0 hnext
      ⟨slowSpi, _, false, 0, (⟨⟨false, 0, 0⟩, .released, 0⟩, 0), 0⟩
  rw [hrun] at hvalue
  cases hvalue
  exact ⟨g', hrun, hbound _ (startSession_within _ _)⟩

end LibTpm.TransportBounds
