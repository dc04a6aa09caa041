import LibTpm.FifoTrace

namespace LibTpm.TransferFrames

open LibTpm.Base.Process LibTpm.Base.Process.Proc LibTpm.Command LibTpm.Constants LibTpm.Endian
open LibTpm.Platform LibTpm.Fifo LibTpm.FifoTrace LibTpm.PollRounds

variable {W : Type}

/-- The polling of the registers at `base` preserves `I`. -/
structure PollFrame (I : W → Prop) (port : FifoPort W) (base : UInt16) : Prop where
  timeoutInit (usec : UInt32) : Keeps I (liftM (port.timeoutInitUs usec))
  timeoutElapsed (cnt : UInt64) : Keeps I (liftM (port.timeoutElapsed cnt))
  read (reg : UInt16) : reg ≠ fifoReg base tpmFifoRegDataFifo → Keeps I (liftM (port.readByte reg .variable))

/-- So do the writes that a send makes before its GO. -/
structure SendFrame (I : W → Prop) (port : FifoPort W) (base : UInt16) : Prop extends PollFrame I port base where
  ready : Keeps I (liftM (port.writeByte (fifoReg base tpmFifoRegStatus) tpmStatCommandReady))
  data (val : UInt8) : Keeps I (liftM (port.writeByte (fifoReg base tpmFifoRegDataFifo) val))

variable {I : W → Prop} {port : FifoPort W} {base : UInt16} {chip : ChipData} {fuel : Nat}

theorem PollFrame.wait (h : PollFrame I port base) {offset : UInt32}
    (hne : offset.toUInt16 ≠ tpmFifoRegDataFifo.toUInt16) (set : UInt8) (timeout : UInt64) :
    Keeps I (tpm2WaitRegBits port fuel (fifoReg base offset) set timeout) :=
  Keeps.bind (h.timeoutInit _) fun cnt =>
    waitRegBitsLoop_keeps (h.read _ (fifoReg_ne base hne)) (h.timeoutElapsed cnt) fuel

theorem PollFrame.burstcount (h : PollFrame I port (localityStartAddress chip.locality)) :
    Keeps I (tpm2FifoGetBurstcount port fuel chip) :=
  Keeps.bind (h.timeoutInit _) fun cnt => getBurstcountLoop_keeps (h.read _ (fifoReg_ne _ (by decide)))
    (h.read _ (fifoReg_ne _ (by decide))) (h.timeoutElapsed cnt) fuel

section Send

theorem SendFrame.writeHeader (h : SendFrame I port base) (bs : List UInt8) : Keeps I (writeHeader port base bs) := by
  induction bs with
  | nil => exact keeps_pure I _
  | cons b bs ih => exact Keeps.bind (h.data b) fun _ => Keeps.unless ih

theorem SendFrame.writeBurst (h : SendFrame I port base) (buf : TpmCmd) (len burst index : Nat) :
    Keeps I (writeBurst port base buf len burst index) := by
  induction burst generalizing index with
  | zero => exact keeps_pure I _
  | succ burst ih =>
      rw [Fifo.writeBurst]
      exact Keeps.ite (Keeps.bind (h.data _) fun _ => Keeps.unless (ih (index + 1))) (keeps_pure I _)

variable (h : SendFrame I port (localityStartAddress chip.locality))
include h

theorem SendFrame.writeData (buf : TpmCmd) (len n index : Nat) :
    Keeps I (writeData port fuel chip (localityStartAddress chip.locality) buf len n index) := by
  induction n generalizing index with
  | zero => exact Keeps.ite (keeps_suspend I) (keeps_pure I _)
  | succ n ih =>
      rw [Fifo.writeData]
      refine Keeps.ite (Keeps.bind h.burstcount ?_) (keeps_pure I _)
      rintro ⟨err, burst⟩
      refine Keeps.unless (Keeps.bind (h.writeBurst buf len burst.toNat index) ?_)
      rintro ⟨err, index⟩
      exact Keeps.unless (ih index)

theorem SendFrame.prepare : Keeps I (tpm2FifoPrepare port fuel chip) := by
  refine Keeps.bind h.ready fun err => Keeps.unless (Keeps.bind (h.wait (by decide) _ _) ?_)
  exact fun _ => Keeps.unless (keeps_pure I _)

variable [Host] (hgo : Keeps I (liftM (port.writeByte
  (fifoReg (localityStartAddress chip.locality) tpmFifoRegStatus) tpmStatGo)))
include hgo

theorem SendFrame.sendBytes (cmd : TpmCmd) : Keeps I (sendBytes port fuel chip cmd) := by
  refine Keeps.bind (h.writeHeader cmd.header) fun err => Keeps.unless (Keeps.unless ?_)
  refine Keeps.bind (h.writeData cmd _ fuel _) fun err => Keeps.unless (Keeps.bind (h.wait (by decide) _ _) ?_)
  rintro ⟨err, status⟩
  exact Keeps.unless (Keeps.unless (Keeps.bind hgo fun err => Keeps.unless (keeps_pure I _)))

theorem SendFrame.send (cmd : TpmCmd) : Keeps I (tpm2FifoSend port fuel chip cmd) := by
  refine Keeps.bind (h.read _ (fifoReg_ne _ (by decide))) ?_
  rintro ⟨err, status⟩
  refine Keeps.unless (Keeps.ite ?_ (h.sendBytes hgo cmd))
  exact Keeps.bind h.prepare fun err => Keeps.unless (h.sendBytes hgo cmd)

end Send

section Receive

variable {dest : Nat → Dest} {bound : Nat} {readSize : Int}

theorem readBurst_keeps (hdata : ∀ i < bound, Keeps I (liftM (port.readByte (fifoReg base tpmFifoRegDataFifo) (dest i))))
    (hpos : 0 < bound) (hsize : readSize ≤ bound) (burst : Nat) (st : ReadState) :
    Keeps I (readBurst port base dest readSize burst st) := by
  induction burst generalizing st with
  | zero => exact keeps_pure I _
  | succ burst ih =>
      rw [readBurst]
      by_cases hlt : st.loopIndex < readSize
      · rw [if_pos hlt]
        refine Keeps.bind (hdata _ (by omega)) ?_
        rintro ⟨err, val⟩
        exact Keeps.unless (ih _)
      · rw [if_neg hlt]
        exact keeps_pure I _

variable (h : PollFrame I port (localityStartAddress chip.locality))
  (hdata : ∀ i < bound,
    Keeps I (liftM (port.readByte (fifoReg (localityStartAddress chip.locality) tpmFifoRegDataFifo) (dest i))))
  (hpos : 0 < bound) (hsize : readSize ≤ bound)
include h hdata hpos hsize

theorem PollFrame.readLoop (n : Nat) (st : ReadState) :
    Keeps I (readLoop port fuel chip (localityStartAddress chip.locality) dest readSize n st) := by
  induction n generalizing st with
  | zero => exact Keeps.ite (keeps_suspend I) (keeps_pure I _)
  | succ n ih =>
      rw [Fifo.readLoop]
      refine Keeps.ite (Keeps.bind h.burstcount ?_) (keeps_pure I _)
      rintro ⟨err, burst⟩
      refine Keeps.unless (Keeps.bind (readBurst_keeps hdata hpos hsize burst.toNat st) ?_)
      rintro ⟨err, st⟩
      exact Keeps.unless (ih st)

omit hdata hsize in
theorem PollFrame.readData {expected : Int}
    (hdata : ∀ i < bound, Keeps I (liftM (port.readByte
      (fifoReg (localityStartAddress chip.locality) tpmFifoRegDataFifo) (readDest expected i))))
    (hsize : (if expected = tpmReadHeader then (tpmHeaderSize : Int) else expected) ≤ bound) (buf : TpmCmd)
    (size : Int) :
    Keeps I (tpm2FifoReadData port fuel chip buf (localityStartAddress chip.locality) size expected) := by
  refine Keeps.bind (h.wait (by decide) _ _) ?_
  rintro ⟨err, status⟩
  refine Keeps.unless (Keeps.bind (h.readLoop hdata hpos hsize fuel _) ?_)
  exact fun _ => keeps_pure I _

end Receive

end LibTpm.TransferFrames
