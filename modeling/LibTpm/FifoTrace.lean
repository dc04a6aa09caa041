import LibTpm.PollRounds
import Mathlib.Data.List.Basic

namespace LibTpm.FifoTrace

open LibTpm.Base.Process LibTpm.Base.Process.Proc LibTpm.Constants LibTpm.Platform LibTpm.Fifo LibTpm.PollRounds

variable {W : Type}

/-- The access failed, or the timer reported the end of a timeout. -/
def Fails : Access → Prop
  | .write _ _ err => err < 0
  | .read _ _ err _ => err < 0
  | .readChunk _ _ err => err < 0
  | .timeoutInit _ _ => False
  | .timeoutElapsed _ elapsed => elapsed = true

instance : DecidablePred Fails := fun e => by
  cases e <;> unfold Fails <;> infer_instance

def IsRegister : Access → Prop
  | .write _ _ _ | .read _ _ _ _ | .readChunk _ _ _ => True
  | .timeoutInit _ _ | .timeoutElapsed _ _ => False

def Clean (tr : List Access) : Prop := ∀ e ∈ tr, ¬ Fails e

@[simp] theorem clean_nil : Clean [] := fun _ h => absurd h List.not_mem_nil

@[simp] theorem clean_append {tr tr' : List Access} : Clean (tr ++ tr') ↔ Clean tr ∧ Clean tr' :=
  List.forall_mem_append

@[simp] theorem clean_singleton {e : Access} : Clean [e] ↔ ¬ Fails e := List.forall_mem_singleton

theorem fifoReg_eq (base : UInt16) (offset : UInt32) : fifoReg base offset = base + offset.toUInt16 := by
  simp [fifoReg]

theorem fifoReg_ne (base : UInt16) {a b : UInt32} (h : a.toUInt16 ≠ b.toUInt16) :
    fifoReg base a ≠ fifoReg base b := by
  rw [fifoReg_eq, fifoReg_eq, Ne, UInt16.add_right_inj]
  exact h

section Recorded

variable {port : FifoPort W} {s : W × List Access} {C : W × List Access → Prop}

/-! What a call at a recorded port does to the log, whatever it is answered. -/

theorem meets_read {reg : UInt16} {dst : Dest} {Q : Int × UInt8 → W × List Access → Prop}
    (h : ∀ err val w, Q (err, val) (w, s.2 ++ [.read reg dst err val])) :
    Meets (liftM (port.recorded.readByte reg dst)) s Q C := h _ _ _

theorem meets_write {reg : UInt16} {val : UInt8} {Q : Int → W × List Access → Prop}
    (h : ∀ err w, Q err (w, s.2 ++ [.write reg val err])) :
    Meets (liftM (port.recorded.writeByte reg val)) s Q C := h _ _

theorem meets_timeoutInit {usec : UInt32} {Q : UInt64 → W × List Access → Prop}
    (h : ∀ cnt w, Q cnt (w, s.2 ++ [.timeoutInit usec cnt])) :
    Meets (liftM (port.recorded.timeoutInitUs usec)) s Q C := h _ _

/-- Reads of the registers in `regs` to local variables, and calls of the
timer. Only the last of them may have failed. -/
structure Polls (regs : List UInt16) (ext : List Access) : Prop where
  polls : ∀ e ∈ ext, (∃ reg ∈ regs, ∃ err val, e = .read reg .variable err val) ∨ ¬ IsRegister e
  clean : Clean ext.dropLast

theorem Polls.of_clean {regs : List UInt16} {ext : List Access} (hc : Clean ext)
    (h : ∀ e ∈ ext, (∃ reg ∈ regs, ∃ err val, e = .read reg .variable err val) ∨ ¬ IsRegister e) :
    Polls regs ext :=
  ⟨h, fun e he => hc e (List.dropLast_subset ext he)⟩

theorem Polls.nil (regs : List UInt16) : Polls regs [] := .of_clean clean_nil (by simp)

theorem Polls.snoc_read {regs : List UInt16} {ext : List Access} (h : Polls regs ext) (hc : Clean ext)
    {reg : UInt16} (hr : reg ∈ regs) (err : Int) (val : UInt8) :
    Polls regs (ext ++ [.read reg .variable err val]) := by
  refine ⟨fun e he => ?_, by rwa [List.dropLast_concat]⟩
  rcases List.mem_append.mp he with he | he
  · exact h.polls e he
  · rw [List.mem_singleton.mp he]
    exact .inl ⟨reg, hr, err, val, rfl⟩

theorem Polls.snoc_timer {regs : List UInt16} {ext : List Access} (h : Polls regs ext)
    (hc : Clean ext) {e : Access} (he : ¬ IsRegister e) : Polls regs (ext ++ [e]) := by
  refine ⟨fun x hx => ?_, by rwa [List.dropLast_concat]⟩
  rcases List.mem_append.mp hx with hx | hx
  · exact h.polls x hx
  · rw [List.mem_singleton.mp hx]
    exact .inr he

theorem recorded_read {reg : UInt16} {dst : Dest} {r : Int × UInt8} {s' : W × List Access}
    (h : port.recorded.readByte reg dst s = (r, s')) :
    port.readByte reg dst s.1 = (r, s'.1) ∧ s'.2 = s.2 ++ [.read reg dst r.1 r.2] := by
  cases h
  exact ⟨rfl, rfl⟩

theorem recorded_write {reg : UInt16} {val : UInt8} {err : Int} {s' : W × List Access}
    (h : port.recorded.writeByte reg val s = (err, s')) : port.writeByte reg val s.1 = (err, s'.1) := by
  cases h
  rfl

theorem recorded_timeoutInit {usec : UInt32} {cnt : UInt64} {s' : W × List Access}
    (h : port.recorded.timeoutInitUs usec s = (cnt, s')) : port.timeoutInitUs usec s.1 = (cnt, s'.1) := by
  cases h
  rfl

theorem recorded_timeoutElapsed {cnt : UInt64} {elapsed : Bool} {s' : W × List Access}
    (h : port.recorded.timeoutElapsed cnt s = (elapsed, s')) :
    port.timeoutElapsed cnt s.1 = (elapsed, s'.1) ∧ s'.2 = s.2 ++ [.timeoutElapsed cnt elapsed] := by
  cases h
  exact ⟨rfl, rfl⟩

theorem clean_read {ext : List Access} {reg : UInt16} {dst : Dest} {err : Int} {val : UInt8} (h : Clean ext)
    (ok : 0 ≤ err) : Clean (ext ++ [.read reg dst err val]) :=
  clean_append.mpr ⟨h, clean_singleton.mpr (not_lt.mpr ok)⟩

theorem clean_timer {ext : List Access} (h : Clean ext) (cnt : UInt64) :
    Clean (ext ++ [.timeoutElapsed cnt false]) := clean_append.mpr ⟨h, clean_singleton.mpr Bool.false_ne_true⟩

structure Reached (regs : List UInt16) (tr : List Access) (s : W × List Access) (ext : List Access) : Prop where
  log : s.2 = tr ++ ext
  polls : Polls regs ext

section Reached

variable {regs : List UInt16} {tr ext : List Access} {s' : W × List Access}

theorem Reached.read (h : Reached regs tr s ext) (hc : Clean ext) {reg : UInt16} (hr : reg ∈ regs) {err : Int}
    {val : UInt8} (hread : port.recorded.readByte reg .variable s = ((err, val), s')) :
    Reached regs tr s' (ext ++ [.read reg .variable err val]) := by
  refine ⟨?_, h.polls.snoc_read hc hr err val⟩
  rw [(recorded_read hread).2, h.log, List.append_assoc]

theorem Reached.timer (h : Reached regs tr s ext) (hc : Clean ext) {cnt : UInt64} {elapsed : Bool}
    (htimer : port.recorded.timeoutElapsed cnt s = (elapsed, s')) :
    Reached regs tr s' (ext ++ [.timeoutElapsed cnt elapsed]) := by
  refine ⟨?_, h.polls.snoc_timer hc id⟩
  rw [(recorded_timeoutElapsed htimer).2, h.log, List.append_assoc]

end Reached

structure WaitSegment (reg : UInt16) (set : UInt8) (r : Int × UInt8) (ext : List Access) : Prop where
  polls : Polls [reg] ext
  le_zero : r.1 ≤ 0
  success : r.1 = 0 → Clean ext ∧ r.2 &&& set = set ∧
    ∃ pre err, 0 ≤ err ∧ ext = pre ++ [.read reg .variable err r.2]

theorem waitRegBitsLoop_segment (reg : UInt16) (set : UInt8) (delay : UInt64) (n : Nat)
    (w : W) (tr ext : List Access) (hp : Polls [reg] ext) (hc : Clean ext) :
    Meets (waitRegBitsLoop port.recorded reg set delay n) (w, tr ++ ext)
      (fun r s' => ∃ ext', s'.2 = tr ++ ext' ∧ WaitSegment reg set r ext')
      (fun s' => ∃ ext', s'.2 = tr ++ ext' ∧ Polls [reg] ext') := by
  refine waitRegBitsLoop_meets (I := fun _ s => ∃ ext, Reached [reg] tr s ext ∧ Clean ext)
    (fun s ⟨ext, h, _⟩ => ⟨ext, h.log, h.polls⟩) ?_ ⟨ext, ⟨rfl, hp⟩, hc⟩
  rintro n s o s' ⟨ext, h, hc⟩ hround
  have hreg := List.mem_singleton_self reg
  cases hround with
  | failed read neg =>
      have h' := h.read hc hreg read
      exact ⟨_, h'.log, h'.polls, Int.le_of_lt neg, fun h0 => absurd h0 (Int.ne_of_lt neg)⟩
  | @found err status _ read ok bits =>
      have h' := h.read hc hreg read
      exact ⟨_, h'.log, h'.polls, le_rfl, fun _ => ⟨clean_read hc ok, bits, ext, err, ok, rfl⟩⟩
  | expired read ok unset timer =>
      have h' := (h.read hc hreg read).timer (clean_read hc ok) timer
      exact ⟨_, h'.log, h'.polls, show tpmErrTimeout ≤ 0 by decide,
        fun h0 => absurd h0 (show ¬ tpmErrTimeout = 0 by decide)⟩
  | vain read ok unset timer =>
      exact ⟨_, (h.read hc hreg read).timer (clean_read hc ok) timer, clean_timer (clean_read hc ok) delay⟩

theorem tpm2WaitRegBits_segment (fuel : Nat) (reg : UInt16) (set : UInt8) (timeout : UInt64)
    (w : W) (tr : List Access) :
    Meets (tpm2WaitRegBits port.recorded fuel reg set timeout) (w, tr)
      (fun r s' => ∃ ext, s'.2 = tr ++ ext ∧ WaitSegment reg set r ext)
      (fun s' => ∃ ext, s'.2 = tr ++ ext ∧ Polls [reg] ext) := by
  rw [tpm2WaitRegBits, meets_bind]
  refine meets_timeoutInit fun cnt w => ?_
  refine waitRegBitsLoop_segment reg set cnt fuel w tr _ ?_ (by simp [Fails])
  exact (Polls.nil _).snoc_timer clean_nil (by simp [IsRegister])

structure BurstSegment (base : UInt16) (r : Int × UInt16) (ext : List Access) : Prop where
  polls : Polls [fifoReg base tpmFifoRegBurstCountLo, fifoReg base tpmFifoRegBurstCountHi] ext
  le_zero : r.1 ≤ 0
  success : r.1 = 0 → Clean ext ∧ r.2 ≠ 0

theorem getBurstcountLoop_segment (base : UInt16) (delay : UInt64) (n : Nat) (w : W)
    (tr ext : List Access) (hc : Clean ext)
    (hp : Polls [fifoReg base tpmFifoRegBurstCountLo, fifoReg base tpmFifoRegBurstCountHi] ext) :
    Meets (getBurstcountLoop port.recorded base delay n) (w, tr ++ ext)
      (fun r s' => ∃ ext', s'.2 = tr ++ ext' ∧ BurstSegment base r ext')
      (fun s' => ∃ ext', s'.2 = tr ++ ext' ∧
        Polls [fifoReg base tpmFifoRegBurstCountLo, fifoReg base tpmFifoRegBurstCountHi] ext') := by
  refine getBurstcountLoop_meets (I := fun _ s => ∃ ext,
    Reached [fifoReg base tpmFifoRegBurstCountLo, fifoReg base tpmFifoRegBurstCountHi] tr s ext ∧ Clean ext)
    (fun s ⟨ext, h, _⟩ => ⟨ext, h.log, h.polls⟩) ?_ ⟨ext, ⟨rfl, hp⟩, hc⟩
  rintro n s o s' ⟨ext, h, hc⟩ hround
  have hloReg := List.mem_cons_self (a := fifoReg base tpmFifoRegBurstCountLo)
    (l := [fifoReg base tpmFifoRegBurstCountHi])
  have hhiReg := List.mem_cons_of_mem (fifoReg base tpmFifoRegBurstCountLo)
    (List.mem_singleton_self (fifoReg base tpmFifoRegBurstCountHi))
  cases hround with
  | failedLo lo neg =>
      have h' := h.read hc hloReg lo
      exact ⟨_, h'.log, h'.polls, Int.le_of_lt neg, fun h0 => absurd h0 (Int.ne_of_lt neg)⟩
  | failedHi lo ok₀ hi neg =>
      have h' := (h.read hc hloReg lo).read (clean_read hc ok₀) hhiReg hi
      exact ⟨_, h'.log, h'.polls, Int.le_of_lt neg, fun h0 => absurd h0 (Int.ne_of_lt neg)⟩
  | found lo ok₀ hi ok₁ burst =>
      have h' := (h.read hc hloReg lo).read (clean_read hc ok₀) hhiReg hi
      exact ⟨_, h'.log, h'.polls, le_rfl, fun _ => ⟨clean_read (clean_read hc ok₀) ok₁, burst⟩⟩
  | expired lo ok₀ hi ok₁ zero timer =>
      have h' := ((h.read hc hloReg lo).read (clean_read hc ok₀) hhiReg hi).timer
        (clean_read (clean_read hc ok₀) ok₁) timer
      exact ⟨_, h'.log, h'.polls, show tpmErrTimeout ≤ 0 by decide,
        fun h0 => absurd h0 (show ¬ tpmErrTimeout = 0 by decide)⟩
  | vain lo ok₀ hi ok₁ zero timer =>
      have h' := (h.read hc hloReg lo).read (clean_read hc ok₀) hhiReg hi
      exact ⟨_, h'.timer (clean_read (clean_read hc ok₀) ok₁) timer,
        clean_timer (clean_read (clean_read hc ok₀) ok₁) delay⟩

theorem tpm2FifoGetBurstcount_segment (fuel : Nat) (chip : ChipData) (w : W) (tr : List Access) :
    Meets (tpm2FifoGetBurstcount port.recorded fuel chip) (w, tr)
      (fun r s' => ∃ ext, s'.2 = tr ++ ext ∧
        BurstSegment (localityStartAddress chip.locality) r ext)
      (fun s' => ∃ ext, s'.2 = tr ++ ext ∧
        Polls [fifoReg (localityStartAddress chip.locality) tpmFifoRegBurstCountLo,
          fifoReg (localityStartAddress chip.locality) tpmFifoRegBurstCountHi] ext) := by
  rw [tpm2FifoGetBurstcount, meets_bind]
  refine meets_timeoutInit fun cnt w => ?_
  refine getBurstcountLoop_segment _ cnt fuel w tr _ (by simp [Fails]) ?_
  exact (Polls.nil _).snoc_timer clean_nil (by simp [IsRegister])

end Recorded

end LibTpm.FifoTrace
