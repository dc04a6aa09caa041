import LibTpm.PromptDevice
import LibTpm.TransferFrames

namespace LibTpm.BufferStores

open LibTpm.Base.Process LibTpm.Base.Process.Proc LibTpm.Base.Progress LibTpm.Command LibTpm.Constants
open LibTpm.Endian LibTpm.Platform LibTpm.Fifo LibTpm.ReceiveRuns LibTpm.ReceiveBounds LibTpm.TransferFrames
open LibTpm.Builder LibTpm.PtpDevice LibTpm.DeviceSending LibTpm.DeviceExchanges LibTpm.TpmMachine LibTpm.PromptDevice

variable {W σ : Type}

/-- All objects that have been handed out to be stored to are inside the buffer. -/
def Contained (s : W × List Access) : Prop := ∀ d ∈ stored s.2, d.Inside

section Port

variable {port : FifoPort W} {base : UInt16} {chip : ChipData} {fuel : Nat}

theorem Contained.snoc {w w' : W} {log : List Access} {e : Access} (h : Contained (w, log))
    (he : ∀ d ∈ stored [e], d.Inside) : Contained (w', log ++ [e]) := by
  intro d hd
  rw [stored_append] at hd
  exact List.forall_mem_append.mpr ⟨h, he⟩ d hd

theorem contained_read (port : FifoPort W) (reg : UInt16) {dst : Dest} (hdst : dst.Inside) :
    Keeps (@Contained W) (liftM (port.recorded.readByte reg dst)) := by
  intro s h
  apply h.snoc
  intro d hd
  cases dst with
  | «variable» => exact absurd hd List.not_mem_nil
  | header i | data i =>
      obtain rfl := List.mem_singleton.mp hd
      exact hdst

theorem contained_write (port : FifoPort W) (reg : UInt16) (val : UInt8) :
    Keeps (@Contained W) (liftM (port.recorded.writeByte reg val)) :=
  fun _ h => h.snoc fun _ hd => absurd hd List.not_mem_nil

theorem contained_frame (port : FifoPort W) (base : UInt16) : SendFrame Contained port.recorded base where
  timeoutInit _ _ h := h.snoc fun _ hd => absurd hd List.not_mem_nil
  timeoutElapsed _ _ h := h.snoc fun _ hd => absurd hd List.not_mem_nil
  read reg _ := contained_read port reg trivial
  ready := contained_write port _ _
  data val := contained_write port _ val

theorem headerPass_contained (buf : TpmCmd) (size : Int) : Keeps Contained
    (tpm2FifoReadData port.recorded fuel chip buf (localityStartAddress chip.locality) size tpmReadHeader) := by
  apply (contained_frame port _).readData (show 0 < tpmHeaderSize by decide)
  · intro i hi
    rw [readDest_header]
    exact contained_read port _ hi
  · rw [if_pos rfl]

theorem restPass_contained {n : Nat} (hn : n ≤ maxCmdData) (buf : TpmCmd) (size : Int) : Keeps Contained
    (tpm2FifoReadData port.recorded fuel chip buf (localityStartAddress chip.locality) size n) := by
  apply (contained_frame port _).readData (show 0 < maxCmdData by decide)
  · intro i hi
    rw [readDest_data (size_ne_readHeader n)]
    exact contained_read port _ hi
  · rw [if_neg (size_ne_readHeader n)]
    exact Int.ofNat_le.mpr hn

variable [Host]

theorem send_contained (cmd : TpmCmd) : Keeps Contained (tpm2FifoSend port.recorded fuel chip cmd) :=
  (contained_frame port _).send (contained_write port _ _) cmd

/-- A receive stores inside the buffer when the header that it has read declares
no more bytes than the data of the buffer has. -/
theorem receive_contained (buf : TpmCmd) {s : W × List Access} (h : Contained s)
    (hsize : Meets (tpm2FifoReadData port.recorded fuel chip buf (localityStartAddress chip.locality) 0 tpmReadHeader) s
      (fun r _ => 0 ≤ r.1 → (be32toh r.2.2.cmdSize).toNat ≤ maxCmdData) (fun _ => True)) :
    Contained (tpm2FifoReceive port.recorded fuel chip buf s).2 := by
  apply Meets.world
  rw [tpm2FifoReceive]
  dsimp only
  rw [meets_bind]
  apply (hsize.and (meets_world.mpr (headerPass_contained buf 0 s h))).mono
  · rintro ⟨err, size, buf⟩ s₁ ⟨hsize, h₁⟩
    dsimp only at hsize ⊢
    rw [meets_ite]
    refine ⟨fun _ => h₁, fun herr => ?_⟩
    have hle := hsize (not_lt.mp herr)
    have hint : intOfUint32 (be32toh buf.cmdSize) = (be32toh buf.cmdSize).toNat :=
      intOfUint32_of_le (hle.trans (by decide))
    rw [meets_ite]
    refine ⟨fun _ => h₁, fun _ => ?_⟩
    rw [meets_ite]
    refine ⟨fun _ => h₁, fun _ => ?_⟩
    rw [hint]
    refine meets_world.mpr (Keeps.bind (restPass_contained hle buf _) ?_ s₁ h₁)
    rintro ⟨err, size, buf⟩
    exact Keeps.unless (Keeps.unless (keeps_pure _ _))
  · exact fun _ hc => hc.2

end Port

section Exchange

variable [Host] {port : FifoPort W} {chip : ChipData} {m : Machine σ} {view : W → Device} {limit fuel : Nat}
  {lag left : W → Nat}

/-- An exchange with a device that runs a machine stores inside the buffer when
the response of the machine is no longer than the data of the buffer. -/
theorem tpmXfer_contained (h : Prompt port chip m view limit lag left) (hfuel : Ample limit fuel) {cmd : TpmCmd}
    (h10 : tpmHeaderSize ≤ (be32toh cmd.cmdSize).toNat) (hmax : (be32toh cmd.cmdSize).toNat ≤ maxSizeCmdbuf)
    (buf : TpmCmd) {s : W × List Access} (hs : Contained s)
    (hdata : (m.step (m.stateAt (view s.1).history) cmd.serialise).1.length ≤ maxCmdData) :
    Contained (tpmXfer (fifoOps port.recorded fuel) chip cmd buf s).2 := by
  apply Meets.world
  rw [tpmXfer, meets_bind]
  have hsend := tpm2FifoSend_ends h.recorded hfuel h10 hmax s
  apply (hsend.and (meets_world.mpr (send_contained cmd s hs))).mono
  · rintro ret s₁ ⟨⟨rfl, hexecuting⟩, h₁⟩
    rw [if_neg (by decide), meets_bind]
    have hsize : Meets (tpm2FifoReadData port.recorded fuel chip buf (localityStartAddress chip.locality) 0
        tpmReadHeader) s₁ (fun r _ => 0 ≤ r.1 → (be32toh r.2.2.cmdSize).toNat ≤ maxCmdData) (fun _ => True) := by
      apply (readHeader_ends h.recorded hfuel buf s₁ hexecuting).mono _ fun _ hf => hf.elim
      rintro ⟨err, size, buf⟩ s₂ ⟨-, -, response, hresponding, hholds⟩ -
      rw [cmdSize_holds hholds hresponding.headed, Responding.genuine hresponding (h.genuine s₂.1)]
      exact hdata
    apply (meets_world.mpr (receive_contained buf h₁ hsize)).mono _ fun _ hc => hc
    rintro ⟨ret, resp⟩ s₂ h₂
    dsimp only
    rw [meets_ite]
    exact ⟨fun _ => h₂, fun _ => h₂⟩
  · exact fun _ hf => hf.elim

end Exchange

end LibTpm.BufferStores
