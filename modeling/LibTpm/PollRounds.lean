import LibTpm.Base.Polling
import LibTpm.Fifo

namespace LibTpm.PollRounds

open LibTpm.Base.Process LibTpm.Base.Process.Proc LibTpm.Base.Polling LibTpm.Base.Progress LibTpm.Constants
open LibTpm.Platform LibTpm.Fifo

variable {W : Type} (port : FifoPort W) (reg : UInt16) (set : UInt8) (base : UInt16) (delay : UInt64)

def waitRound : Proc W (Option (Int × UInt8)) := do
  let (err, status) ← port.readByte reg .variable
  if err < 0 then return some (err, status)
  if status &&& set = set then return some (tpmSuccess, status)
  if ← port.timeoutElapsed delay then return some (tpmErrTimeout, status)
  return none

def burstRound : Proc W (Option (Int × UInt16)) := do
  let (err, byte0) ← port.readByte (fifoReg base tpmFifoRegBurstCountLo) .variable
  if err < 0 then return some (err, 0)
  let (err, byte1) ← port.readByte (fifoReg base tpmFifoRegBurstCountHi) .variable
  if err < 0 then return some (err, 0)
  if burstcountOf byte0 byte1 ≠ 0 then return some (tpmSuccess, burstcountOf byte0 byte1)
  if ← port.timeoutElapsed delay then return some (tpmErrTimeout, 0)
  return none

theorem waitRegBitsLoop_eq (n : Nat) :
    waitRegBitsLoop port reg set delay n = poll (waitRound port reg set delay) n := by
  induction n with
  | zero => rfl
  | succ n ih =>
      rw [waitRegBitsLoop, poll, waitRound, bind_assoc]
      congr 1
      funext read
      obtain ⟨err, status⟩ := read
      dsimp only
      by_cases herr : err < 0
      · rw [if_pos herr, if_pos herr, pure_bind]
      rw [if_neg herr, if_neg herr]
      by_cases hset : status &&& set = set
      · rw [if_pos hset, if_pos hset, pure_bind]
      rw [if_neg hset, if_neg hset, bind_assoc]
      congr 1
      funext elapsed
      cases elapsed with
      | true => rfl
      | false => exact ih

theorem getBurstcountLoop_eq (n : Nat) :
    getBurstcountLoop port base delay n = poll (burstRound port base delay) n := by
  induction n with
  | zero => rfl
  | succ n ih =>
      rw [getBurstcountLoop, poll, burstRound, bind_assoc]
      congr 1
      funext lo
      obtain ⟨err, byte0⟩ := lo
      dsimp only
      by_cases herr : err < 0
      · rw [if_pos herr, if_pos herr, pure_bind]
      rw [if_neg herr, if_neg herr, bind_assoc]
      congr 1
      funext hi
      obtain ⟨err, byte1⟩ := hi
      dsimp only
      by_cases herr : err < 0
      · rw [if_pos herr, if_pos herr, pure_bind]
      rw [if_neg herr, if_neg herr]
      by_cases hburst : burstcountOf byte0 byte1 ≠ 0
      · rw [if_pos hburst, if_pos hburst, pure_bind]
      rw [if_neg hburst, if_neg hburst, bind_assoc]
      congr 1
      funext elapsed
      cases elapsed with
      | true => rfl
      | false => exact ih

/-- What a round of a wait can do. -/
inductive WaitRound (w : W) : Option (Int × UInt8) → W → Prop
  | failed {err : Int} {status : UInt8} {w' : W} (read : port.readByte reg .variable w = ((err, status), w'))
      (neg : err < 0) : WaitRound w (some (err, status)) w'
  | found {err : Int} {status : UInt8} {w' : W} (read : port.readByte reg .variable w = ((err, status), w'))
      (ok : 0 ≤ err) (bits : status &&& set = set) : WaitRound w (some (tpmSuccess, status)) w'
  | expired {err : Int} {status : UInt8} {w' w'' : W} (read : port.readByte reg .variable w = ((err, status), w'))
      (ok : 0 ≤ err) (unset : ¬ status &&& set = set) (timer : port.timeoutElapsed delay w' = (true, w'')) :
      WaitRound w (some (tpmErrTimeout, status)) w''
  | vain {err : Int} {status : UInt8} {w' w'' : W} (read : port.readByte reg .variable w = ((err, status), w'))
      (ok : 0 ≤ err) (unset : ¬ status &&& set = set) (timer : port.timeoutElapsed delay w' = (false, w'')) :
      WaitRound w none w''

/-- What a round of the burst count can do. -/
inductive BurstRound (w : W) : Option (Int × UInt16) → W → Prop
  | failedLo {err : Int} {byte0 : UInt8} {w' : W}
      (lo : port.readByte (fifoReg base tpmFifoRegBurstCountLo) .variable w = ((err, byte0), w'))
      (neg : err < 0) : BurstRound w (some (err, 0)) w'
  | failedHi {err₀ err₁ : Int} {byte0 byte1 : UInt8} {w' w'' : W}
      (lo : port.readByte (fifoReg base tpmFifoRegBurstCountLo) .variable w = ((err₀, byte0), w')) (ok₀ : 0 ≤ err₀)
      (hi : port.readByte (fifoReg base tpmFifoRegBurstCountHi) .variable w' = ((err₁, byte1), w''))
      (neg : err₁ < 0) : BurstRound w (some (err₁, 0)) w''
  | found {err₀ err₁ : Int} {byte0 byte1 : UInt8} {w' w'' : W}
      (lo : port.readByte (fifoReg base tpmFifoRegBurstCountLo) .variable w = ((err₀, byte0), w')) (ok₀ : 0 ≤ err₀)
      (hi : port.readByte (fifoReg base tpmFifoRegBurstCountHi) .variable w' = ((err₁, byte1), w''))
      (ok₁ : 0 ≤ err₁) (burst : burstcountOf byte0 byte1 ≠ 0) :
      BurstRound w (some (tpmSuccess, burstcountOf byte0 byte1)) w''
  | expired {err₀ err₁ : Int} {byte0 byte1 : UInt8} {w' w'' w''' : W}
      (lo : port.readByte (fifoReg base tpmFifoRegBurstCountLo) .variable w = ((err₀, byte0), w')) (ok₀ : 0 ≤ err₀)
      (hi : port.readByte (fifoReg base tpmFifoRegBurstCountHi) .variable w' = ((err₁, byte1), w''))
      (ok₁ : 0 ≤ err₁) (zero : burstcountOf byte0 byte1 = 0)
      (timer : port.timeoutElapsed delay w'' = (true, w''')) : BurstRound w (some (tpmErrTimeout, 0)) w'''
  | vain {err₀ err₁ : Int} {byte0 byte1 : UInt8} {w' w'' w''' : W}
      (lo : port.readByte (fifoReg base tpmFifoRegBurstCountLo) .variable w = ((err₀, byte0), w')) (ok₀ : 0 ≤ err₀)
      (hi : port.readByte (fifoReg base tpmFifoRegBurstCountHi) .variable w' = ((err₁, byte1), w''))
      (ok₁ : 0 ≤ err₁) (zero : burstcountOf byte0 byte1 = 0)
      (timer : port.timeoutElapsed delay w'' = (false, w''')) : BurstRound w none w'''

variable {port reg set base delay}

theorem waitRound_does (w : W) :
    Ends (waitRound port reg set delay) w (WaitRound port reg set delay w) := by
  rw [waitRound]
  apply Ends.call
  rintro ⟨err, status⟩ w' hread
  dsimp only
  by_cases herr : err < 0
  · rw [if_pos herr]
    exact WaitRound.failed hread herr
  rw [if_neg herr]
  by_cases hset : status &&& set = set
  · rw [if_pos hset]
    exact WaitRound.found hread (not_lt.mp herr) hset
  rw [if_neg hset]
  apply Ends.call
  rintro (_ | _) w'' htimer
  · exact WaitRound.vain hread (not_lt.mp herr) hset htimer
  · exact WaitRound.expired hread (not_lt.mp herr) hset htimer

theorem burstRound_does (w : W) : Ends (burstRound port base delay) w (BurstRound port base delay w) := by
  rw [burstRound]
  apply Ends.call
  rintro ⟨err₀, byte0⟩ w' hlo
  dsimp only
  by_cases herr₀ : err₀ < 0
  · rw [if_pos herr₀]
    exact BurstRound.failedLo hlo herr₀
  rw [if_neg herr₀]
  apply Ends.call
  rintro ⟨err₁, byte1⟩ w'' hhi
  dsimp only
  by_cases herr₁ : err₁ < 0
  · rw [if_pos herr₁]
    exact BurstRound.failedHi hlo (not_lt.mp herr₀) hhi herr₁
  rw [if_neg herr₁]
  by_cases hburst : burstcountOf byte0 byte1 ≠ 0
  · rw [if_pos hburst]
    exact BurstRound.found hlo (not_lt.mp herr₀) hhi (not_lt.mp herr₁) hburst
  rw [if_neg hburst]
  apply Ends.call
  rintro (_ | _) w''' htimer
  · exact BurstRound.vain hlo (not_lt.mp herr₀) hhi (not_lt.mp herr₁) (not_not.mp hburst) htimer
  · exact BurstRound.expired hlo (not_lt.mp herr₀) hhi (not_lt.mp herr₁) (not_not.mp hburst) htimer

section Rules

variable {I : Nat → W → Prop} {C : W → Prop}

theorem waitRegBitsLoop_meets {Q : Int × UInt8 → W → Prop} (stop : ∀ w, I 0 w → C w)
    (step : ∀ n w o w', I (n + 1) w → WaitRound port reg set delay w o w' → Round Q (I n) o w') {n : Nat} {w : W}
    (h : I n w) :
    Meets (waitRegBitsLoop port reg set delay n) w Q C := by
  rw [waitRegBitsLoop_eq]
  refine poll_meets stop (fun n w hi => ?_) h
  exact Meets.mono (waitRound_does w) (fun o w' hr => step n w o w' hi hr) fun _ hf => hf.elim

theorem getBurstcountLoop_meets {Q : Int × UInt16 → W → Prop} (stop : ∀ w, I 0 w → C w)
    (step : ∀ n w o w', I (n + 1) w → BurstRound port base delay w o w' → Round Q (I n) o w') {n : Nat} {w : W}
    (h : I n w) :
    Meets (getBurstcountLoop port base delay n) w Q C := by
  rw [getBurstcountLoop_eq]
  refine poll_meets stop (fun n w hi => ?_) h
  exact Meets.mono (burstRound_does w) (fun o w' hr => step n w o w' hi hr) fun _ hf => hf.elim

theorem waitRegBitsLoop_ends {J : W → Prop} {Q : Int × UInt8 → W → Prop} (rank : W → Nat)
    (step : ∀ w o w', J w → WaitRound port reg set delay w o w' → Round Q (fun w' => J w' ∧ rank w' < rank w) o w')
    {n : Nat} {w : W} (h : J w) (hn : rank w < n) : Ends (waitRegBitsLoop port reg set delay n) w Q := by
  rw [waitRegBitsLoop_eq]
  exact poll_ends rank (fun w hj => (waitRound_does w).imp fun o w' hr => step w o w' hj hr) h hn

theorem getBurstcountLoop_ends {J : W → Prop} {Q : Int × UInt16 → W → Prop} (rank : W → Nat)
    (step : ∀ w o w', J w → BurstRound port base delay w o w' → Round Q (fun w' => J w' ∧ rank w' < rank w) o w')
    {n : Nat} {w : W} (h : J w) (hn : rank w < n) : Ends (getBurstcountLoop port base delay n) w Q := by
  rw [getBurstcountLoop_eq]
  exact poll_ends rank (fun w hj => (burstRound_does w).imp fun o w' hr => step w o w' hj hr) h hn

end Rules

section Keeps

variable {I : W → Prop}

theorem waitRegBitsLoop_keeps (hread : Keeps I (liftM (port.readByte reg .variable)))
    (htimer : Keeps I (liftM (port.timeoutElapsed delay))) (n : Nat) :
    Keeps I (waitRegBitsLoop port reg set delay n) := by
  rw [waitRegBitsLoop_eq]
  refine keeps_poll (Keeps.bind hread ?_) n
  rintro ⟨err, status⟩
  refine Keeps.unless (Keeps.unless (Keeps.bind htimer fun _ => ?_))
  exact Keeps.unless (keeps_pure _ _)

theorem getBurstcountLoop_keeps (hlo : Keeps I (liftM (port.readByte (fifoReg base tpmFifoRegBurstCountLo) .variable)))
    (hhi : Keeps I (liftM (port.readByte (fifoReg base tpmFifoRegBurstCountHi) .variable)))
    (htimer : Keeps I (liftM (port.timeoutElapsed delay))) (n : Nat) :
    Keeps I (getBurstcountLoop port base delay n) := by
  rw [getBurstcountLoop_eq]
  refine keeps_poll (Keeps.bind hlo ?_) n
  rintro ⟨err, byte0⟩
  refine Keeps.unless (Keeps.bind hhi ?_)
  rintro ⟨err, byte1⟩
  refine Keeps.unless (Keeps.unless (Keeps.bind htimer fun _ => ?_))
  exact Keeps.unless (keeps_pure _ _)

end Keeps

end LibTpm.PollRounds
