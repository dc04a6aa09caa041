import LibTpm.PublicCalls
import LibTpm.SpiFlow

namespace LibTpm.BusDiscipline

open LibTpm.Base.Process LibTpm.Base.Process.Proc LibTpm.Command LibTpm.Constants LibTpm.Endian
open LibTpm.Platform LibTpm.Fifo LibTpm.Spi LibTpm.SpiFlow LibTpm.Library LibTpm.Invariance LibTpm.PublicCalls

variable {W : Type}

/-- A call on the SPI transport, with the result of those that have one. -/
inductive SpiCall
  | getAccess (rc : Int)
  | start
  | xfer (rc : Int)
  | stop
  | releaseAccess
  deriving DecidableEq, Repr

def recordedSpi (ops : SpiOps W) : SpiOps (W × List SpiCall) where
  getAccess := record SpiCall.getAccess ops.getAccess
  releaseAccess := record (fun _ => SpiCall.releaseAccess) ops.releaseAccess
  start := record (fun _ => SpiCall.start) ops.start
  stop := record (fun _ => SpiCall.stop) ops.stop
  xfer len out := record (fun r => SpiCall.xfer r.1) (ops.xfer len out)

def besideLog (ops : TimeoutOps W) : TimeoutOps (W × List SpiCall) where
  timeoutInitUs usec := fun s =>
    ((ops.timeoutInitUs usec s.1).1, ((ops.timeoutInitUs usec s.1).2, s.2))
  timeoutElapsed cnt := fun s =>
    ((ops.timeoutElapsed cnt s.1).1, ((ops.timeoutElapsed cnt s.1).2, s.2))

def recordedGlobals (g : Globals W) : Globals (W × List SpiCall) where
  tpmSpidev := recordedSpi g.tpmSpidev
  tpmTimeoutOps := besideLog g.tpmTimeoutOps
  interfaceSet := g.interfaceSet
  tpmLastTransportError := g.tpmLastTransportError
  world := (g.world, [])

/-- The same public call, whose transport records its calls. -/
def recordedCall : PublicCall W → PublicCall (W × List SpiCall)
  | .interfaceInit transport timeoutOps chipData locality =>
      .interfaceInit (recordedSpi transport) (timeoutOps.map besideLog) chipData locality
  | .interfaceClose chipData locality => .interfaceClose chipData locality
  | .startup chipData mode => .startup chipData mode
  | .pcrExtend chipData index algorithm digest digestLen =>
      .pcrExtend chipData index algorithm digest digestLen
  | .pcrReadSingle chipData index algorithm buf => .pcrReadSingle chipData index algorithm buf
  | .pcrAllocateAuthPassword chip password passwordLen banks out =>
      .pcrAllocateAuthPassword chip password passwordLen banks out
  | .getcapQueryAlgs chip query => .getcapQueryAlgs chip query
  | .getcapQueryPcrs chip query => .getcapQueryPcrs chip query
  | .hasAlg chip algId out => .hasAlg chip algId out
  | .getAlgProps chip algId out => .getAlgProps chip algId out
  | .forEachAlgProps σ chip mustSet mustClear cb ctx =>
      .forEachAlgProps σ chip mustSet mustClear cb ctx
  | .forEachPcrBank σ chip cb ctx => .forEachPcrBank σ chip cb ctx
  | .getLastTransportError => .getLastTransportError

/-- Public calls one after another, each with the uninitialised memory that it
finds. A call that does not return is the last. -/
def runCalls [Host] (libTimer : Option (TimeoutOps W)) (fuel : Nat) :
    List (PublicCall W × TpmCmd) → Proc (Globals W) Unit
  | [] => return ()
  | (call, stack) :: calls => do
      let _ ← call.run libTimer stack fuel
      runCalls libTimer fuel calls

/-- One transaction: a failing get_access, or get_access, start, one or more
xfer, stop and release_access. -/
inductive Transaction : List SpiCall → Prop
  | refused {rc : Int} (h : rc ≠ 0) : Transaction [.getAccess rc]
  | complete {xfers : List Int} (h : xfers ≠ []) :
      Transaction (.getAccess 0 :: .start :: xfers.map .xfer ++ [.stop, .releaseAccess])

inductive Transactions : List SpiCall → Prop
  | nil : Transactions []
  | snoc {tr t : List SpiCall} (htr : Transactions tr) (ht : Transaction t) : Transactions (tr ++ t)

/-- The bus as the transport sees it. -/
inductive Bus
  | released
  | held
  | started
  | stopped
  deriving DecidableEq, Repr

def busStep : Bus → SpiCall → Option Bus
  | .released, .getAccess rc => some (if rc = 0 then .held else .released)
  | .held, .start => some .started
  | .started, .xfer _ => some .started
  | .started, .stop => some .stopped
  | .stopped, .releaseAccess => some .released
  | _, _ => none

def busRun (b : Bus) (tr : List SpiCall) : Option Bus := tr.foldlM busStep b

theorem busRun_append (b : Bus) (tr tr' : List SpiCall) :
    busRun b (tr ++ tr') = (busRun b tr).bind (fun b => busRun b tr') := by
  simp only [busRun, List.foldlM_append]
  rfl

theorem busRun_xfers (xfers : List Int) : busRun .started (xfers.map .xfer) = some .started := by
  induction xfers with
  | nil => rfl
  | cons rc xfers ih => simpa [busRun, busStep] using ih

theorem Transaction.bus_released {t : List SpiCall} (h : Transaction t) :
    busRun .released t = some .released := by
  cases h with
  | refused h => simp [busRun, busStep, h]
  | @complete xfers h =>
      have hx : busRun .released (.getAccess 0 :: .start :: xfers.map .xfer) = some .started := by
        simpa [busRun, busStep] using busRun_xfers xfers
      rw [busRun_append, hx]
      rfl

theorem Transactions.bus_released {tr : List SpiCall} (h : Transactions tr) :
    busRun .released tr = some .released := by
  induction h with
  | nil => rfl
  | snoc _ ht ih => rw [busRun_append, ih]; exact ht.bus_released

structure Reaches (g g' : Globals (W × List SpiCall)) (calls : List SpiCall) : Prop where
  spidev : g'.tpmSpidev = g.tpmSpidev
  timeoutOps : g'.tpmTimeoutOps = g.tpmTimeoutOps
  log : g'.world.2 = g.world.2 ++ calls

theorem Reaches.trans {g g' g'' : Globals (W × List SpiCall)} {c d : List SpiCall}
    (h : Reaches g g' c) (h' : Reaches g' g'' d) : Reaches g g'' (c ++ d) :=
  ⟨h'.spidev.trans h.spidev, h'.timeoutOps.trans h.timeoutOps, by
    rw [h'.log, h.log, List.append_assoc]⟩

section Transport

variable {g : Globals (W × List SpiCall)} {ops : SpiOps W}

theorem transfer_reaches (h : g.tpmSpidev = recordedSpi ops) (out : Option (List UInt8))
    (len : UInt8) :
    Reaches g (tpm2SpiTransfer out len g).2 [.xfer (tpm2SpiTransfer out len g).1.1] := by
  have hp : Reaches g (platform (fun g => g.tpmSpidev.xfer len.toNat out) g).2
      [.xfer (platform (fun g => g.tpmSpidev.xfer len.toNat out) g).1.1] :=
    ⟨rfl, rfl, by simp only [platform, h]; rfl⟩
  unfold tpm2SpiTransfer
  simp only [state_bind]
  split
  · exact ⟨hp.spidev, hp.timeoutOps, hp.log⟩
  · exact hp

theorem endTransaction_reaches (h : g.tpmSpidev = recordedSpi ops) :
    Reaches g (tpm2SpiEndTransaction g).2 [.stop, .releaseAccess] := by
  refine ⟨rfl, rfl, ?_⟩
  simp only [tpm2SpiEndTransaction, state_bind, platform, h]
  exact List.append_assoc _ _ _

theorem spiInit_reaches (h : g.tpmSpidev = recordedSpi ops) :
    (∃ rc, rc ≠ 0 ∧ (tpm2SpiInit g).1 = tpmErrTransfer ∧
      Reaches g (tpm2SpiInit g).2 [.getAccess rc]) ∨
    ((tpm2SpiInit g).1 = 0 ∧ Reaches g (tpm2SpiInit g).2 [.getAccess 0, .start]) := by
  have hg : Reaches g (platform (fun g => g.tpmSpidev.getAccess) g).2
      [.getAccess (platform (fun g => g.tpmSpidev.getAccess) g).1] :=
    ⟨rfl, rfl, by simp only [platform, h]; rfl⟩
  simp only [tpm2SpiInit, state_bind]
  split
  next hrc => exact .inl ⟨_, hrc, rfl, hg.spidev, hg.timeoutOps, hg.log⟩
  next hrc =>
    rw [not_not.mp hrc] at hg
    refine .inr ⟨rfl, hg.trans (d := [.start]) ⟨rfl, rfl, ?_⟩⟩
    simp only [platform, h]
    rfl

def Open (g g' : Globals (W × List SpiCall)) : Prop :=
  ∃ xfers : List Int, xfers ≠ [] ∧ Reaches g g' (.getAccess 0 :: .start :: xfers.map .xfer)

def Closed (g g' : Globals (W × List SpiCall)) : Prop := ∃ t, Transaction t ∧ Reaches g g' t

theorem transfer_open (h : g.tpmSpidev = recordedSpi ops) {g' : Globals (W × List SpiCall)} (xfers : List Int)
    (hg : Reaches g g' (.getAccess 0 :: .start :: xfers.map .xfer)) (out : Option (List UInt8)) (len : UInt8) :
    Open g (tpm2SpiTransfer out len g').2 := by
  have ht := hg.trans (transfer_reaches (hg.spidev.trans h) out len)
  exact ⟨xfers ++ [_], by simp, by simpa using ht⟩

theorem endTransaction_closed (h : g.tpmSpidev = recordedSpi ops) {g' : Globals (W × List SpiCall)}
    (hg : Open g g') : Closed g (tpm2SpiEndTransaction g').2 := by
  obtain ⟨xfers, hx, hg⟩ := hg
  exact ⟨_, .complete hx, hg.trans (endTransaction_reaches (hg.spidev.trans h))⟩

theorem accessSteps_reaches (h : g.tpmSpidev = recordedSpi ops) (header : List UInt8) :
    AccessSteps header (fun g' => g' = g) (fun g' => Reaches g g' [.getAccess 0, .start]) (Open g) (Open g)
      (Closed g) (Closed g) where
  init := by
    rintro _ rfl
    rcases spiInit_reaches h with ⟨rc, hrc, hi, hg⟩ | ⟨hi, hg⟩
    · exact .inr ⟨hi, _, .refused hrc, hg⟩
    · exact .inl ⟨hi, hg⟩
  header := .either fun g' hg => transfer_open h [] hg (some header) 4
  transfer out len := by
    apply TransferSteps.either
    rintro g' ⟨xfers, -, hg⟩
    exact transfer_open h xfers hg out len
  close _ hg := endTransaction_closed h hg
  abandon _ hg := endTransaction_closed h hg

theorem tpm2FifoIo_reaches (h : g.tpmSpidev = recordedSpi ops) (reg : UInt16) (access : TpmAccess)
    {len : UInt8} (hl : len ≤ encodeLimit) (val : Option (List UInt8)) :
    ∃ t, Transaction t ∧ Reaches g (tpm2FifoIo reg access len val g).2 t :=
  (tpm2FifoIo_steps (accessSteps_reaches h _) hl val rfl).elim id And.right

end Transport

/-- The transport and the timer are recorded ones, and every transaction on
the transport is complete. -/
structure Orderly (g : Globals (W × List SpiCall)) : Prop where
  spidev : ∃ ops, g.tpmSpidev = recordedSpi ops
  timer : ∃ ops, g.tpmTimeoutOps = besideLog ops
  log : Transactions g.world.2

theorem orderly_io {g : Globals (W × List SpiCall)} (h : Orderly g) (reg : UInt16)
    (access : TpmAccess) {len : UInt8} (hl : len ≤ encodeLimit) (val : Option (List UInt8)) :
    Orderly (tpm2FifoIo reg access len val g).2 := by
  obtain ⟨ops, hs⟩ := h.spidev
  obtain ⟨t, ht, hr⟩ := tpm2FifoIo_reaches hs reg access hl val
  exact ⟨⟨ops, hr.spidev.trans hs⟩, by rw [hr.timeoutOps]; exact h.timer,
    by rw [hr.log]; exact .snoc h.log ht⟩

theorem orderly_timer {g : Globals (W × List SpiCall)} (h : Orderly g) {α : Type}
    (call : TimeoutOps (W × List SpiCall) → StateM (W × List SpiCall) α)
    (hc : ∀ ops w, ((call (besideLog ops)) w).2.2 = w.2) :
    Orderly (platform (fun g => call g.tpmTimeoutOps) g).2 := by
  obtain ⟨ops, ht⟩ := h.timer
  refine ⟨h.spidev, h.timer, ?_⟩
  have hw : (platform (fun g => call g.tpmTimeoutOps) g).2.world.2 = g.world.2 := by
    simp only [platform, ht]
    exact hc ops g.world
  rw [hw]
  exact h.log

theorem spiPort_orderly :
    PortKeeps (fun _ => True) Orderly (spiPort : FifoPort (Globals (W × List SpiCall))) where
  timeoutInit usec := fun _ h => orderly_timer h (fun ops => ops.timeoutInitUs usec) fun _ _ => rfl
  timeoutElapsed cnt := fun _ h => orderly_timer h (fun ops => ops.timeoutElapsed cnt) fun _ _ => rfl
  write reg val _ := fun _ h => orderly_io h reg .write (by decide) (some [val])
  read reg _ _ := fun _ h => orderly_io h reg .read (by decide) none
  readChunk reg len _ := fun g h => by
    change Orderly (tpm2FifoReadChunk reg len g).2
    unfold tpm2FifoReadChunk
    split
    · exact h
    next hl => exact orderly_io h reg .read (chunk_le hl) none

section Calls

variable [Host]

omit [Host] in
theorem recorded_timer (timeoutOps libTimer : Option (TimeoutOps W)) :
    (timeoutOps.map besideLog).or (libTimer.map besideLog) = (timeoutOps.or libTimer).map besideLog := by
  cases timeoutOps <;> rfl

omit [Host] in
theorem recordedCall_installs {libTimer : Option (TimeoutOps W)} {call : PublicCall W}
    {s : SpiOps (W × List SpiCall) × Option (TimeoutOps (W × List SpiCall))}
    (hs : s ∈ installs (libTimer.map besideLog) (recordedCall call)) :
    (∃ ops, s.1 = recordedSpi ops) ∧ ∀ t ∈ s.2, ∃ ops, t = besideLog ops := by
  cases call with
  | interfaceInit transport timeoutOps chip locality =>
      obtain rfl : _ = s := Option.some.inj hs
      refine ⟨⟨transport, rfl⟩, fun t ht => ?_⟩
      rw [recorded_timer] at ht
      obtain ⟨ops, -, rfl⟩ := Option.mem_map.mp ht
      exact ⟨ops, rfl⟩
  | _ => exact absurd hs (Option.not_mem_none s)

theorem publicCall_orderly (libTimer : Option (TimeoutOps W)) (stack : TpmCmd) (fuel : Nat)
    (call : PublicCall W) :
    Keeps Orderly ((recordedCall call).run (libTimer.map besideLog) stack fuel) := by
  apply publicCall_keeps spiPort_orderly _ _ (fun locality _ => pageIn_true locality)
  intro s hs
  obtain ⟨hspi, htimer⟩ := recordedCall_installs hs
  exact ⟨fun g h => ⟨hspi, h.timer, h.log⟩, fun ops ho g h => ⟨h.spidev, htimer ops ho, h.log⟩⟩

theorem runCalls_orderly (libTimer : Option (TimeoutOps W)) (fuel : Nat)
    (calls : List (PublicCall W × TpmCmd)) :
    Keeps Orderly (runCalls (libTimer.map besideLog) fuel
      (calls.map fun c => (recordedCall c.1, c.2))) := by
  induction calls with
  | nil => exact keeps_pure _ _
  | cons c calls ih => exact Keeps.bind (publicCall_orderly libTimer c.2 fuel c.1) fun _ => ih

/-- Whatever the transport, the timer and the device answer, the calls on the
transport are complete transactions and leave the bus released. -/
theorem publicCalls_complete_transactions (libTimer : Option (TimeoutOps W)) (fuel : Nat)
    (calls : List (PublicCall W × TpmCmd)) (g : Globals W) :
    let tr := (runCalls (libTimer.map besideLog) fuel
      (calls.map fun c => (recordedCall c.1, c.2)) (recordedGlobals g)).2.world.2
    Transactions tr ∧ busRun .released tr = some .released := by
  have h : Transactions _ := (runCalls_orderly libTimer fuel calls (recordedGlobals g)
    ⟨⟨_, rfl⟩, ⟨_, rfl⟩, .nil⟩).log
  exact ⟨h, h.bus_released⟩

end Calls

end LibTpm.BusDiscipline
