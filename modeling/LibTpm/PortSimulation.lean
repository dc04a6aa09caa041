import LibTpm.Base.Simulation
import LibTpm.Invariance

namespace LibTpm.PortSimulation

open LibTpm.Base.Process LibTpm.Base.Process.Proc LibTpm.Base.Polling LibTpm.Base.Simulation LibTpm.Command
open LibTpm.Constants LibTpm.Endian LibTpm.Platform LibTpm.Fifo LibTpm.PollRounds LibTpm.Invariance

variable {W V : Type}

/-- Two ports that answer the same in related worlds, and lead to related
worlds, as long as the registers they access satisfy `A`. While a timeout that
ends at `cnt` is running, `T cnt` relates the worlds. -/
structure PortSimulates (A : UInt16 → Prop) (R : W → V → Prop) (T : UInt64 → W → V → Prop) (port : FifoPort W)
    (port' : FifoPort V) : Prop where
  timeoutInit (usec : UInt32) (w : W) (v : V) : R w v →
    ∃ cnt w' v', port.timeoutInitUs usec w = (cnt, w') ∧ port'.timeoutInitUs usec v = (cnt, v') ∧ T cnt w' v'
  timeoutElapsed (cnt : UInt64) :
    Simulates (T cnt) Eq (liftM (port.timeoutElapsed cnt)) (liftM (port'.timeoutElapsed cnt))
  poll (cnt : UInt64) (reg : UInt16) (dst : Dest) :
    A reg → Simulates (T cnt) Eq (liftM (port.readByte reg dst)) (liftM (port'.readByte reg dst))
  disarm (cnt : UInt64) (w : W) (v : V) : T cnt w v → R w v
  write (reg : UInt16) (val : UInt8) :
    A reg → Simulates R Eq (liftM (port.writeByte reg val)) (liftM (port'.writeByte reg val))
  read (reg : UInt16) (dst : Dest) :
    A reg → Simulates R Eq (liftM (port.readByte reg dst)) (liftM (port'.readByte reg dst))
  readChunk (reg : UInt16) (len : UInt8) :
    A reg → Simulates R Eq (liftM (port.readChunk reg len)) (liftM (port'.readChunk reg len))

structure TransferRegs (A : UInt16 → Prop) (base : UInt16) : Prop where
  status : A (fifoReg base tpmFifoRegStatus)
  burstLo : A (fifoReg base tpmFifoRegBurstCountLo)
  burstHi : A (fifoReg base tpmFifoRegBurstCountHi)
  data : A (fifoReg base tpmFifoRegDataFifo)

theorem PortKeeps.simulates {A : UInt16 → Prop} {I : W → Prop} {port : FifoPort W} (h : PortKeeps A I port) :
    PortSimulates A (Kept I) (fun _ => Kept I) port port where
  timeoutInit usec := by
    rintro w _ ⟨rfl, hw⟩
    exact ⟨_, _, _, rfl, rfl, rfl, h.timeoutInit usec w hw⟩
  timeoutElapsed cnt := simulates_kept.mpr (h.timeoutElapsed cnt)
  poll _ reg dst hr := simulates_kept.mpr (h.read reg dst hr)
  disarm _ _ _ := id
  write reg val hr := simulates_kept.mpr (h.write reg val hr)
  read reg dst hr := simulates_kept.mpr (h.read reg dst hr)
  readChunk reg len hr := simulates_kept.mpr (h.readChunk reg len hr)

theorem recorded_simulates (port : FifoPort W) :
    PortSimulates (fun _ => True) (fun s w => s.1 = w) (fun _ s w => s.1 = w) port.recorded port where
  timeoutInit usec := by
    rintro s _ rfl
    exact ⟨_, _, _, rfl, rfl, rfl⟩
  timeoutElapsed cnt := by
    rintro s _ rfl
    exact ⟨.some rfl, rfl⟩
  poll _ reg dst _ := by
    rintro s _ rfl
    exact ⟨.some rfl, rfl⟩
  disarm _ _ _ := id
  write reg val _ := by
    rintro s _ rfl
    exact ⟨.some rfl, rfl⟩
  read reg dst _ := by
    rintro s _ rfl
    exact ⟨.some rfl, rfl⟩
  readChunk reg len _ := by
    rintro s _ rfl
    exact ⟨.some rfl, rfl⟩

theorem transferRegs_true (base : UInt16) : TransferRegs (fun _ => True) base := ⟨trivial, trivial, trivial, trivial⟩

/-- Two interfaces that answer the same in related worlds. -/
structure InterfaceSimulates (R : W → V → Prop) (i : Interface W) (i' : Interface V) : Prop where
  getInfo (chip : ChipData) (locality : UInt8) : Simulates R Eq (i.getInfo chip locality) (i'.getInfo chip locality)
  send (chip : ChipData) (cmd : TpmCmd) : Simulates R Eq (i.send chip cmd) (i'.send chip cmd)
  receive (chip : ChipData) (buf : TpmCmd) : Simulates R Eq (i.receive chip buf) (i'.receive chip buf)
  requestAccess (chip : ChipData) (locality : UInt8) :
    Simulates R Eq (i.requestAccess chip locality) (i'.requestAccess chip locality)
  releaseLocality (chip : ChipData) (locality : UInt8) :
    Simulates R Eq (i.releaseLocality chip locality) (i'.releaseLocality chip locality)

section Fifo

variable {A : UInt16 → Prop} {R : W → V → Prop} {T : UInt64 → W → V → Prop} {port : FifoPort W} {port' : FifoPort V}
  {fuel : Nat}

theorem waitRegBitsLoop_simulates (h : PortSimulates A R T port port') {reg : UInt16} (hr : A reg) (set : UInt8)
    (delay : UInt64) (n : Nat) :
    Simulates (T delay) Eq (waitRegBitsLoop port reg set delay n) (waitRegBitsLoop port' reg set delay n) := by
  rw [waitRegBitsLoop_eq, waitRegBitsLoop_eq]
  apply simulates_poll
  apply Simulates.step (h.poll delay _ _ hr)
  rintro ⟨err, status⟩
  refine Simulates.unless (Simulates.unless ?_)
  exact Simulates.step (h.timeoutElapsed delay) fun _ => Simulates.unless (simulates_pure rfl)

theorem tpm2WaitRegBits_simulates (h : PortSimulates A R T port port') {reg : UInt16} (hr : A reg) (set : UInt8)
    (timeout : UInt64) :
    Simulates R Eq (tpm2WaitRegBits port fuel reg set timeout) (tpm2WaitRegBits port' fuel reg set timeout) :=
  Simulates.within (h.timeoutInit _) (fun _ => waitRegBitsLoop_simulates h hr set _ fuel) h.disarm

theorem tpm2GetInfo_simulates (h : PortSimulates A R T port port') (chip : ChipData) {locality : UInt8}
    (hp : PageIn A locality) :
    Simulates R Eq (tpm2GetInfo port chip locality) (tpm2GetInfo port' chip locality) := by
  apply Simulates.step (h.readChunk _ _ (hp _ (by decide)))
  rintro ⟨err, _⟩
  refine Simulates.unless (Simulates.step (h.read _ _ (hp _ (by decide))) ?_)
  exact fun ⟨err, _⟩ => Simulates.unless (simulates_pure rfl)

theorem tpm2FifoRequestAccess_simulates (h : PortSimulates A R T port port') (chip : ChipData) {locality : UInt8}
    (hp : PageIn A locality) :
    Simulates R Eq (tpm2FifoRequestAccess port fuel chip locality) (tpm2FifoRequestAccess port' fuel chip locality) := by
  apply Simulates.step (h.write _ _ (hp _ (by decide)))
  intro err
  refine Simulates.unless (Simulates.step (tpm2WaitRegBits_simulates h (hp _ (by decide)) _ _) ?_)
  exact fun ⟨err, _⟩ => Simulates.unless (simulates_pure rfl)

theorem tpm2FifoReleaseLocality_simulates (h : PortSimulates A R T port port') (chip : ChipData) {locality : UInt8}
    (hp : PageIn A locality) :
    Simulates R Eq (tpm2FifoReleaseLocality port chip locality) (tpm2FifoReleaseLocality port' chip locality) := by
  apply Simulates.step (h.read _ _ (hp _ (by decide)))
  exact fun ⟨err, buf⟩ => Simulates.unless (Simulates.ite (fun _ => h.write _ _ (hp _ (by decide))) fun _ => simulates_pure rfl)

variable {base : UInt16} {chip : ChipData}

theorem getBurstcountLoop_simulates (h : PortSimulates A R T port port') (hr : TransferRegs A base) (delay : UInt64)
    (n : Nat) :
    Simulates (T delay) Eq (getBurstcountLoop port base delay n) (getBurstcountLoop port' base delay n) := by
  rw [getBurstcountLoop_eq, getBurstcountLoop_eq]
  apply simulates_poll
  apply Simulates.step (h.poll delay _ _ hr.burstLo)
  rintro ⟨err, byte0⟩
  refine Simulates.unless (Simulates.step (h.poll delay _ _ hr.burstHi) ?_)
  rintro ⟨err, byte1⟩
  refine Simulates.unless (Simulates.unless ?_)
  exact Simulates.step (h.timeoutElapsed delay) fun _ => Simulates.unless (simulates_pure rfl)

theorem writeHeader_simulates (h : PortSimulates A R T port port') (hr : TransferRegs A base) (bs : List UInt8) :
    Simulates R Eq (writeHeader port base bs) (writeHeader port' base bs) := by
  induction bs with
  | nil => exact simulates_pure rfl
  | cons b bs ih => exact Simulates.step (h.write _ _ hr.data) fun _ => Simulates.unless ih

theorem writeBurst_simulates (h : PortSimulates A R T port port') (hr : TransferRegs A base) (buf : TpmCmd)
    (len burst index : Nat) :
    Simulates R Eq (writeBurst port base buf len burst index) (writeBurst port' base buf len burst index) := by
  induction burst generalizing index with
  | zero => exact simulates_pure rfl
  | succ burst ih =>
      refine Simulates.ite (fun _ => Simulates.step (h.write _ _ hr.data) ?_) fun _ => simulates_pure rfl
      exact fun _ => Simulates.unless (ih _)

theorem readBurst_simulates (h : PortSimulates A R T port port') (hr : TransferRegs A base) (dest : Nat → Dest)
    (readSize : Int) (burst : Nat) (st : ReadState) :
    Simulates R Eq (readBurst port base dest readSize burst st) (readBurst port' base dest readSize burst st) := by
  induction burst generalizing st with
  | zero => exact simulates_pure rfl
  | succ burst ih =>
      refine Simulates.ite (fun _ => Simulates.step (h.read _ _ hr.data) ?_) fun _ => simulates_pure rfl
      exact fun ⟨err, val⟩ => Simulates.unless (ih _)

section Chip

variable (h : PortSimulates A R T port port') (hr : TransferRegs A (localityStartAddress chip.locality))
include h hr

theorem tpm2FifoPrepare_simulates :
    Simulates R Eq (tpm2FifoPrepare port fuel chip) (tpm2FifoPrepare port' fuel chip) := by
  apply Simulates.step (h.write _ _ hr.status)
  intro err
  refine Simulates.unless (Simulates.step (tpm2WaitRegBits_simulates h hr.status _ _) ?_)
  exact fun ⟨err, _⟩ => Simulates.unless (simulates_pure rfl)

theorem tpm2FifoGetBurstcount_simulates :
    Simulates R Eq (tpm2FifoGetBurstcount port fuel chip) (tpm2FifoGetBurstcount port' fuel chip) :=
  Simulates.within (h.timeoutInit _) (fun _ => getBurstcountLoop_simulates h hr _ fuel) h.disarm

theorem writeData_simulates (buf : TpmCmd) (len n index : Nat) :
    Simulates R Eq (writeData port fuel chip (localityStartAddress chip.locality) buf len n index)
      (writeData port' fuel chip (localityStartAddress chip.locality) buf len n index) := by
  induction n generalizing index with
  | zero => exact Simulates.ite (fun _ => simulates_suspend) fun _ => simulates_pure rfl
  | succ n ih =>
      refine Simulates.ite (fun _ => Simulates.step (tpm2FifoGetBurstcount_simulates h hr) ?_) fun _ =>
        simulates_pure rfl
      rintro ⟨err, burst⟩
      refine Simulates.unless (Simulates.step (writeBurst_simulates h hr _ _ _ _) ?_)
      exact fun ⟨err, index⟩ => Simulates.unless (ih _)

theorem readLoop_simulates (dest : Nat → Dest) (readSize : Int) (n : Nat) (st : ReadState) :
    Simulates R Eq (readLoop port fuel chip (localityStartAddress chip.locality) dest readSize n st)
      (readLoop port' fuel chip (localityStartAddress chip.locality) dest readSize n st) := by
  induction n generalizing st with
  | zero => exact Simulates.ite (fun _ => simulates_suspend) fun _ => simulates_pure rfl
  | succ n ih =>
      refine Simulates.ite (fun _ => Simulates.step (tpm2FifoGetBurstcount_simulates h hr) ?_) fun _ =>
        simulates_pure rfl
      rintro ⟨err, burst⟩
      refine Simulates.unless (Simulates.step (readBurst_simulates h hr _ _ _ _) ?_)
      exact fun ⟨err, st⟩ => Simulates.unless (ih _)

theorem tpm2FifoReadData_simulates (buf : TpmCmd) (size expected : Int) :
    Simulates R Eq (tpm2FifoReadData port fuel chip buf (localityStartAddress chip.locality) size expected)
      (tpm2FifoReadData port' fuel chip buf (localityStartAddress chip.locality) size expected) := by
  apply Simulates.step (tpm2WaitRegBits_simulates h hr.status _ _)
  rintro ⟨err, _⟩
  refine Simulates.unless (Simulates.step (readLoop_simulates h hr _ _ _ _) ?_)
  exact fun ⟨err, st⟩ => simulates_pure rfl

variable [Host]

theorem sendBytes_simulates (buf : TpmCmd) :
    Simulates R Eq (sendBytes port fuel chip buf) (sendBytes port' fuel chip buf) := by
  apply Simulates.step (writeHeader_simulates h hr _)
  intro err
  refine Simulates.unless (Simulates.unless (Simulates.step (writeData_simulates h hr _ _ _ _) ?_))
  intro err
  refine Simulates.unless (Simulates.step (tpm2WaitRegBits_simulates h hr.status _ _) ?_)
  rintro ⟨err, status⟩
  refine Simulates.unless (Simulates.unless (Simulates.step (h.write _ _ hr.status) ?_))
  exact fun _ => Simulates.unless (simulates_pure rfl)

theorem tpm2FifoSend_simulates (buf : TpmCmd) :
    Simulates R Eq (tpm2FifoSend port fuel chip buf) (tpm2FifoSend port' fuel chip buf) := by
  apply Simulates.step (h.read _ _ hr.status)
  rintro ⟨err, status⟩
  refine Simulates.unless (Simulates.ite (fun _ => Simulates.step (tpm2FifoPrepare_simulates h hr) ?_) fun _ => ?_)
  · exact fun _ => Simulates.unless (sendBytes_simulates h hr buf)
  · exact sendBytes_simulates h hr buf

theorem tpm2FifoReceive_simulates (buf : TpmCmd) :
    Simulates R Eq (tpm2FifoReceive port fuel chip buf) (tpm2FifoReceive port' fuel chip buf) := by
  apply Simulates.step (tpm2FifoReadData_simulates h hr _ _ _)
  rintro ⟨err, size, buf⟩
  refine Simulates.unless (Simulates.unless (Simulates.unless ?_))
  apply Simulates.step (tpm2FifoReadData_simulates h hr _ _ _)
  exact fun ⟨err, size, buf⟩ => Simulates.unless (Simulates.unless (simulates_pure rfl))

end Chip

theorem fifoOps_simulates [Host] (h : PortSimulates (fun _ => True) R T port port') :
    InterfaceSimulates R (fifoOps port fuel) (fifoOps port' fuel) where
  getInfo chip locality := tpm2GetInfo_simulates h chip (pageIn_true locality)
  send _ cmd := tpm2FifoSend_simulates h (transferRegs_true _) cmd
  receive _ buf := tpm2FifoReceive_simulates h (transferRegs_true _) buf
  requestAccess chip locality := tpm2FifoRequestAccess_simulates h chip (pageIn_true locality)
  releaseLocality chip locality := tpm2FifoReleaseLocality_simulates h chip (pageIn_true locality)

end Fifo

end LibTpm.PortSimulation
