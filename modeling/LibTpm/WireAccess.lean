import LibTpm.PortSimulation
import LibTpm.SpiDevice

namespace LibTpm.WireAccess

open LibTpm.Base.Process LibTpm.Base.Process.Proc LibTpm.Base.Simulation LibTpm.Constants LibTpm.Platform
open LibTpm.Fifo LibTpm.Spi LibTpm.SpiDevice LibTpm.PortSimulation
open LibTpm.SpiSlave (Request Phase decode decode_spiHeader flowByte flowByte_over flowByte_wait flowPhase dataPhase)
open LibTpm.SpiAccess (getElem_of_toList toList_one toList_getD)

variable {W σ : Type}

/-- A transport that does not fail, wired to the device, and a timer that
measures the device's time. Where the library gives no bytes to send, the
transport sends any. -/
structure Linked (d : BusDevice σ) (timer : TimeoutOps σ) (ops : SpiOps W) (timeoutOps : TimeoutOps W)
    (line : W → Line σ) : Prop where
  getAccess (w : W) : (ops.getAccess w).1 = 0 ∧ line (ops.getAccess w).2 = line w
  releaseAccess (w : W) : line (ops.releaseAccess w).2 = line w
  start (w : W) : line (ops.start w).2 = (line w).select
  stop (w : W) : line (ops.stop w).2 = (line w).deselect
  xfer (len : Nat) (out : Option (List UInt8)) (w : W) : ∃ mosi : List UInt8, mosi.length = len ∧
    (∀ bytes ∈ out, bytes.length = len → mosi = bytes) ∧ (ops.xfer len out w).1.1 = 0 ∧
    (ops.xfer len out w).1.2.toList = (exchangeAll d mosi (line w)).1 ∧
    line (ops.xfer len out w).2 = (exchangeAll d mosi (line w)).2
  timeoutInit (usec : UInt32) (w : W) :
    (timeoutOps.timeoutInitUs usec w).1 = (timer.timeoutInitUs usec (line w).device).1 ∧
      (line (timeoutOps.timeoutInitUs usec w).2).device = (timer.timeoutInitUs usec (line w).device).2
  timeoutElapsed (cnt : UInt64) (w : W) :
    (timeoutOps.timeoutElapsed cnt w).1 = (timer.timeoutElapsed cnt (line w).device).1 ∧
      (line (timeoutOps.timeoutElapsed cnt w).2).device = (timer.timeoutElapsed cnt (line w).device).2

/-- The library is initialised with the transport and the timer, and `s` is the
state of the device behind them. -/
structure Behind (ops : SpiOps W) (timeoutOps : TimeoutOps W) (line : W → Line σ) (g : Globals W) (s : σ) : Prop where
  spidev : g.tpmSpidev = ops
  timer : g.tpmTimeoutOps = timeoutOps
  interfaceSet : g.interfaceSet = true
  device : (line g.world).device = s

variable {d : BusDevice σ} {timer : TimeoutOps σ} {ops : SpiOps W} {timeoutOps : TimeoutOps W} {line : W → Line σ}
  {g : Globals W} {s : σ} {request : Request}

def At (ops : SpiOps W) (timeoutOps : TimeoutOps W) (line : W → Line σ) (phase : Phase) (s : σ) (g : Globals W) : Prop :=
  Behind ops timeoutOps line g s ∧ (line g.world).phase = phase

section Driver

variable {phase : Phase}

theorem transfer_linked (h : Linked d timer ops timeoutOps line) (hg : At ops timeoutOps line phase s g)
    (out : Option (List UInt8)) (len : UInt8) : ∃ mosi resp g', tpm2SpiTransfer out len g = ((0, resp), g') ∧
      mosi.length = len.toNat ∧ (∀ bytes ∈ out, bytes.length = len.toNat → mosi = bytes) ∧
      resp.toList = (exchangeAll d mosi (line g.world)).1 ∧
      At ops timeoutOps line (exchangeAll d mosi (line g.world)).2.phase
        (exchangeAll d mosi (line g.world)).2.device g' := by
  obtain ⟨⟨rfl, rfl, hset, -⟩, -⟩ := hg
  obtain ⟨mosi, hlen, hout, hrc, hresp, hline⟩ := h.xfer len.toNat out g.world
  refine ⟨mosi, (g.tpmSpidev.xfer len.toNat out g.world).1.2,
    { g with world := (g.tpmSpidev.xfer len.toNat out g.world).2 }, ?_, hlen, hout, hresp, ⟨rfl, rfl, hset, ?_⟩, ?_⟩
  · have hzero : ¬ (platform (fun g => g.tpmSpidev.xfer len.toNat out) g).1.1 ≠ 0 := not_not.mpr hrc
    simp only [tpm2SpiTransfer, state_bind]
    rw [if_neg hzero]
    exact Prod.ext (Prod.ext hrc rfl) rfl
  · exact congrArg Line.device hline
  · exact congrArg Line.phase hline

theorem poll_linked (h : Linked d timer ops timeoutOps line) {left : Nat}
    (hg : At ops timeoutOps line (.waiting request left) s g) : ∃ resp g' noise,
      tpm2SpiTransfer (some [0]) 1 g = ((0, resp), g') ∧ resp[0] = flowByte left noise ∧
      At ops timeoutOps line (flowPhase request left) s g' := by
  obtain ⟨mosi, resp, g', hrun, -, hout, hresp, hl⟩ := transfer_linked h hg (some [0]) 1
  obtain rfl : mosi = [0] := hout [0] rfl rfl
  obtain ⟨noise, hx⟩ := exchange_wait (d := d) hg.2 0
  simp only [exchangeAll, state_bind, state_pure, hx, Line.turn_device, Line.turn_phase, hg.1.device] at hresp hl
  exact ⟨resp, g', noise, hrun, getElem_of_toList hresp rfl _, hl⟩

theorem waitStates_linked (h : Linked d timer ops timeoutOps line) {left retries : Nat}
    (hg : At ops timeoutOps line (.waiting request left) s g) : ∃ phase g',
      waitStates retries g = (if left < retries then tpmSuccess else tpmErrTimeout, g') ∧
      At ops timeoutOps line phase s g' ∧ (left < retries → phase = .data request 0) := by
  induction retries generalizing left g with
  | zero => exact ⟨_, g, rfl, hg, fun hlt => absurd hlt (Nat.not_lt_zero _)⟩
  | succ retries ih =>
      obtain ⟨resp, g', noise, hrun, hresp, hl⟩ := poll_linked h hg
      simp only [waitStates, state_bind, hrun]
      rw [if_neg (by decide), hresp]
      cases left with
      | zero =>
          rw [if_pos (flowByte_over noise), if_pos (Nat.succ_pos _)]
          exact ⟨_, g', rfl, hl, fun _ => rfl⟩
      | succ left =>
          rw [if_neg (not_not.mpr (flowByte_wait left noise))]
          obtain ⟨phase, g'', hrest, hl', hphase⟩ := ih hl
          simp only [Nat.succ_lt_succ_iff]
          exact ⟨phase, g'', hrest, hl', hphase⟩

variable {len : UInt8}

/-- The device decodes the header, and its wait states decide the transaction. -/
theorem startTransaction_linked (h : Linked d timer ops timeoutOps line) (reg : UInt16) (access : TpmAccess)
    (hpos : 1 ≤ len) (hle : len ≤ encodeLimit) (hg : At ops timeoutOps line (.header []) s g) : ∃ phase g',
      tpm2SpiStartTransaction reg access len g =
        (if d.waits ⟨access, len.toNat, 0xD40000 + reg.toNat⟩ s ≤ retryCount then tpmSuccess else tpmErrTimeout, g') ∧
      At ops timeoutOps line phase s g' ∧ (d.waits ⟨access, len.toNat, 0xD40000 + reg.toNat⟩ s ≤ retryCount →
        phase = .data ⟨access, len.toNat, 0xD40000 + reg.toNat⟩ 0) := by
  generalize hrequest : (⟨access, len.toNat, 0xD40000 + reg.toNat⟩ : Request) = request
  have hd : decode (spiHeader reg access len) = some request := hrequest ▸ decode_spiHeader reg access hpos hle
  obtain ⟨mosi, resp, g', hrun, -, hout, hresp, hl⟩ := transfer_linked h hg (some (spiHeader reg access len)) 4
  obtain rfl : mosi = spiHeader reg access len := hout _ rfl rfl
  obtain ⟨x, y, z, noise, l', hx, hdevice, hphase⟩ := exchange_header (d := d) hg.2 hd
  have hheader : exchangeAll d (spiHeader reg access len) (line g.world) = _ := hx
  rw [hheader] at hresp hl
  rw [hg.1.device] at hresp hdevice hphase
  dsimp only at hl
  rw [hdevice, hphase] at hl
  have hlast : resp[3] = flowByte (d.waits request s) noise := getElem_of_toList hresp rfl _
  simp only [tpm2SpiStartTransaction, if_neg (UInt8.not_lt.mpr hle), state_bind, hrun]
  rw [if_neg (by decide), hlast]
  cases hwaits : d.waits request s with
  | zero =>
      rw [hwaits] at hl
      rw [if_pos (flowByte_over noise), if_pos (Nat.zero_le _)]
      exact ⟨_, g', rfl, hl, fun _ => rfl⟩
  | succ left =>
      rw [hwaits] at hl
      rw [if_neg (not_not.mpr (flowByte_wait left noise))]
      exact waitStates_linked h hl

theorem spiInit_linked (h : Linked d timer ops timeoutOps line) (hg : Behind ops timeoutOps line g s) :
    ∃ g', tpm2SpiInit g = (0, g') ∧ At ops timeoutOps line (.header []) s g' := by
  obtain ⟨rfl, rfl, hset, rfl⟩ := hg
  obtain ⟨hrc, hline⟩ := h.getAccess g.world
  have hzero : ¬ (platform (fun g => g.tpmSpidev.getAccess) g).1 ≠ 0 := not_not.mpr hrc
  refine ⟨{ g with world := (g.tpmSpidev.start (g.tpmSpidev.getAccess g.world).2).2 }, ?_, ⟨rfl, rfl, hset, ?_⟩, ?_⟩
  · simp only [tpm2SpiInit, state_bind]
    rw [if_neg hzero]
    rfl
  · rw [h.start, hline]
    rfl
  · rw [h.start]
    rfl

theorem endTransaction_linked (h : Linked d timer ops timeoutOps line) (hg : At ops timeoutOps line phase s g) :
    Behind ops timeoutOps line (tpm2SpiEndTransaction g).2 s := by
  obtain ⟨⟨rfl, rfl, hset, rfl⟩, -⟩ := hg
  refine ⟨rfl, rfl, hset, ?_⟩
  simp only [tpm2SpiEndTransaction, state_bind, platform]
  rw [h.releaseAccess, h.stop]
  rfl

theorem tpm2FifoIo_linked (h : Linked d timer ops timeoutOps line) (reg : UInt16) (access : TpmAccess)
    (hpos : 1 ≤ len) (hle : len ≤ encodeLimit) (val : Option (List UInt8)) {α : Type} (act : StateM σ α) (failed : α)
    (A : Vector UInt8 len.toNat → α → Prop) (hfailed : A (Vector.replicate len.toNat 0) failed)
    (hdata : ∀ g, At ops timeoutOps line (.data ⟨access, len.toNat, 0xD40000 + reg.toNat⟩ 0) s g → ∃ resp phase g',
      tpm2SpiTransfer (if access = .write then val else none) len g = ((0, resp), g') ∧ A resp (act s).1 ∧
      At ops timeoutOps line phase (act s).2 g')
    (hg : Behind ops timeoutOps line g s) : ∃ err resp a g' s', tpm2FifoIo reg access len val g = ((err, resp), g') ∧
      serve d ⟨access, len.toNat, 0xD40000 + reg.toNat⟩ act failed s = ((err, a), s') ∧ A resp a ∧
      Behind ops timeoutOps line g' s' := by
  obtain ⟨g₁, hinit, h₁⟩ := spiInit_linked h hg
  obtain ⟨phase, g₂, hstart, h₂, hphase⟩ := startTransaction_linked h reg access hpos hle h₁
  simp only [tpm2FifoIo, state_bind, hinit]
  rw [if_neg (by decide)]
  simp only [state_bind, hstart, serve]
  by_cases hwaits : d.waits ⟨access, len.toNat, 0xD40000 + reg.toNat⟩ s ≤ retryCount
  · rw [if_pos hwaits, if_pos hwaits, if_neg (by decide)]
    rw [hphase hwaits] at h₂
    obtain ⟨resp, phase, g₃, hrun, hresp, h₃⟩ := hdata g₂ h₂
    simp only [state_bind, hrun]
    rw [if_neg (by decide)]
    exact ⟨_, _, _, _, _, rfl, rfl, hresp, endTransaction_linked h h₃⟩
  · rw [if_neg hwaits, if_neg hwaits, if_pos (by decide)]
    exact ⟨_, _, _, _, _, rfl, rfl, hfailed, endTransaction_linked h h₂⟩

theorem data_write (h : Linked d timer ops timeoutOps line) {val : UInt8} {address : Nat}
    (hg : At ops timeoutOps line (.data ⟨.write, 1, address⟩ 0) s g) : ∃ resp phase g',
      tpm2SpiTransfer (some [val]) 1 g = ((0, resp), g') ∧
      At ops timeoutOps line phase (d.write address 0 val s).2 g' := by
  obtain ⟨mosi, resp, g', hrun, -, hout, -, hl⟩ := transfer_linked h hg (some [val]) 1
  obtain rfl : mosi = [val] := hout [val] rfl rfl
  rw [exchangeAll_write hg.2, hg.1.device] at hl
  exact ⟨resp, _, g', hrun, hl⟩

theorem data_read (h : Linked d timer ops timeoutOps line) {address : Nat}
    (hg : At ops timeoutOps line (.data ⟨.read, len.toNat, address⟩ 0) s g) (hpos : 1 ≤ len) : ∃ resp phase g',
      tpm2SpiTransfer none len g = ((0, resp), g') ∧ resp.toList = (reads d address 0 len.toNat s).1 ∧
      At ops timeoutOps line phase (reads d address 0 len.toNat s).2 g' := by
  obtain ⟨mosi, resp, g', hrun, hmosi, -, hresp, hl⟩ := transfer_linked h hg none len
  have hphase : (line g.world).phase = dataPhase ⟨.read, len.toNat, address⟩ 0 :=
    hg.2.trans (dataPhase_of_lt hpos).symm
  obtain ⟨l', hx, hdevice⟩ := exchangeAll_read (d := d) mosi hmosi hphase
  rw [hg.1.device, hmosi] at hx hdevice
  rw [hx] at hresp hl
  rw [← hdevice]
  exact ⟨resp, _, g', hrun, hresp, hl⟩

end Driver

section Port

theorem one_le : (1 : UInt8) ≤ 1 := by decide

theorem toList_head {v : Vector UInt8 (1 : UInt8).toNat} {b : UInt8} (h : v.toList = [b]) : v[0] = b :=
  getElem_of_toList h rfl _

theorem spiRead_linked (h : Linked d timer ops timeoutOps line) (reg : UInt16) (dst : Dest) :
    Simulates (Behind ops timeoutOps line) Eq (liftM ((spiPort : FifoPort (Globals W)).readByte reg dst))
      (liftM ((registerPort d timer).readByte reg dst)) := by
  apply simulates_lift
  intro g s hg
  obtain ⟨err, resp, b, g', s', hio, hserve, rfl, hbehind⟩ := tpm2FifoIo_linked h reg .read one_le
    (by decide) none (d.read (0xD40000 + reg.toNat) 0) 0 (fun v b => v[0] = b) rfl
    (fun g hdata => by
      obtain ⟨resp, phase, g', hrun, hresp, hl⟩ := data_read h hdata one_le
      exact ⟨resp, phase, g', hrun, toList_head hresp, hl⟩) hg
  refine ⟨(err, resp[0]), _, g', s', ?_, hserve, rfl, hbehind⟩
  simp only [spiPort, tpm2FifoReadByte, state_bind, hio]
  rfl

/-- The driver reaches the same registers over the wires. -/
theorem spiPort_linked (h : Linked d timer ops timeoutOps line) :
    PortSimulates (fun _ => True) (Behind ops timeoutOps line) (fun _ => Behind ops timeoutOps line) spiPort
      (registerPort d timer) where
  timeoutInit usec := by
    rintro g s ⟨rfl, rfl, hset, rfl⟩
    obtain ⟨hvalue, hdevice⟩ := h.timeoutInit usec g.world
    exact ⟨_, _, _, Prod.ext hvalue rfl, rfl, rfl, rfl, hset, hdevice⟩
  timeoutElapsed cnt := by
    rintro g s ⟨rfl, rfl, hset, rfl⟩
    obtain ⟨hvalue, hdevice⟩ := h.timeoutElapsed cnt g.world
    exact ⟨.some hvalue, rfl, rfl, hset, hdevice⟩
  poll _ reg dst _ := spiRead_linked h reg dst
  disarm _ _ _ := id
  write reg val _ := by
    apply simulates_lift
    intro g s hg
    obtain ⟨err, resp, ⟨⟩, g', s', hio, hserve, -, hbehind⟩ := tpm2FifoIo_linked h reg .write one_le (by decide)
      (some [val]) (d.write (0xD40000 + reg.toNat) 0 val) () (fun _ _ => True) trivial
      (fun g hdata => by
        obtain ⟨resp, phase, g', hrun, hl⟩ := data_write h hdata
        exact ⟨resp, phase, g', hrun, trivial, hl⟩) hg
    refine ⟨err, err, g', s', ?_, ?_, rfl, hbehind⟩
    · simp only [spiPort, tpm2FifoWriteByte, state_bind, hio]
      rfl
    · simp only [registerPort, state_bind]
      exact congrArg (fun r => (r.1.1, r.2)) hserve
  read reg dst _ := spiRead_linked h reg dst
  readChunk reg len _ := by
    apply simulates_lift
    intro g s hg
    simp only [spiPort, registerPort, tpm2FifoReadChunk]
    by_cases hlen : len ≠ 1 ∧ len ≠ 2 ∧ len ≠ 4
    · rw [if_pos hlen, if_pos hlen]
      exact ⟨_, _, _, _, rfl, rfl, rfl, hg⟩
    rw [if_neg hlen, if_neg hlen]
    have hpos : 1 ≤ len := by
      simp only [ne_eq, not_and_or, not_not] at hlen
      rcases hlen with rfl | rfl | rfl <;> decide
    obtain ⟨err, resp, a, g', s', hio, hserve, rfl, hbehind⟩ := tpm2FifoIo_linked h reg .read hpos
      (SpiFlow.chunk_le hlen) none (chunk d (0xD40000 + reg.toNat) len.toNat) (Vector.replicate len.toNat 0) Eq rfl
      (fun g hdata => by
        obtain ⟨resp, phase, g', hrun, hresp, hl⟩ := data_read h hdata hpos
        refine ⟨resp, phase, g', hrun, ?_, hl⟩
        rw [← Vector.toList_inj, hresp]
        exact (toList_getD (reads_length _ _ _ _)).symm) hg
    exact ⟨_, _, _, _, hio, hserve, rfl, hbehind⟩

end Port

theorem line_linked (d : BusDevice σ) (timer : TimeoutOps σ) : Linked d timer (lineSpi d) (lineTimer timer) id where
  getAccess _ := ⟨rfl, rfl⟩
  releaseAccess _ := rfl
  start _ := rfl
  stop _ := rfl
  xfer len out l := by
    refine ⟨(out.getD []).takeD len 0, List.takeD_length _ _ _, ?_, rfl, ?_, rfl⟩
    · rintro bytes rfl rfl
      exact (List.takeD_eq_take _ (Nat.le_refl _)).trans List.take_length
    · exact toList_getD ((exchangeAll_length _ l).trans (List.takeD_length _ _ _))
  timeoutInit _ _ := ⟨rfl, rfl⟩
  timeoutElapsed _ _ := ⟨rfl, rfl⟩

end LibTpm.WireAccess
