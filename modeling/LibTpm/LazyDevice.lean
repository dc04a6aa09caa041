import LibTpm.PromptDevice
import LibTpm.SpiDevice

namespace LibTpm.LazyDevice

open Relation LibTpm.Base.Process LibTpm.Constants LibTpm.Platform LibTpm.Fifo LibTpm.FifoTrace LibTpm.PtpDevice
open LibTpm.PtpDevice.Bench LibTpm.TpmMachine LibTpm.PromptDevice LibTpm.SpiDevice

variable {σ : Type} (m : Machine σ)

structure Coherent (d : Device) : Prop where
  genuine : m.Genuine d.history
  executing (command : List UInt8) : d.phase = .executing command →
    ∃ before, executions d.history = before ++ [command]

/-- A device that puts off what it has to do. -/
structure Lazy (limit : Nat) where
  device : Device
  lag : Nat
  left : Nat
  lag_le : lag ≤ limit
  coherent : Coherent m device

def finished (d : Device) : Device :=
  match d.phase with
  | .executing command =>
      let response := (m.step (m.after (executions d.history).dropLast) command).1
      { d with phase := .responding response, history := d.history ++ [.responds command response] }
  | _ => d

def done (d : Device) : Device := finished m (settle d)

variable {m}

section Coherent

variable {d : Device}

theorem Genuine.append {log : List Event} {event : Event} (h : m.Genuine log)
    (hevent : ∀ command response, event = .responds command response →
      ∃ before, executions log = before ++ [command] ∧ response = (m.step (m.after before) command).1) :
    m.Genuine (log ++ [event]) := by
  intro pre command response post heq
  rcases List.eq_nil_or_concat' post with rfl | ⟨post, last, rfl⟩
  · obtain ⟨rfl, hlast⟩ := List.append_inj' heq rfl
    exact hevent _ _ (List.singleton_inj.mp hlast)
  · rw [← List.cons_append, ← List.append_assoc] at heq
    exact h pre command response post (List.append_inj' heq rfl).1

theorem Coherent.quiet (h : m.Genuine d.history) (hphase : ∀ command, d.phase ≠ .executing command) : Coherent m d :=
  ⟨h, fun command he => absurd he (hphase command)⟩

theorem Coherent.settle (h : Coherent m d) : Coherent m (settle d) := by
  rw [Bench.settle]
  by_cases hs : d.discarding
  · rw [if_pos hs]
    exact Coherent.quiet h.genuine fun _ hp => by cases hp
  · rw [if_neg hs]
    exact h

theorem Coherent.finished (h : Coherent m d) : Coherent m (finished m d) := by
  obtain ⟨phase, discarding, history⟩ := d
  cases phase with
  | idle | receiving | responding => exact h
  | executing command =>
      obtain ⟨before, hbefore⟩ := h.executing command rfl
      refine Coherent.quiet (Genuine.append h.genuine ?_) fun _ hp => by cases hp
      intro command' response heq
      cases heq
      refine ⟨before, hbefore, ?_⟩
      dsimp only at hbefore ⊢
      rw [hbefore, List.dropLast_concat]

theorem Coherent.written (h : Coherent m d) (base reg : UInt16) (val : UInt8) : Coherent m (written base reg val d) := by
  obtain ⟨phase, discarding, history⟩ := d
  rw [Bench.written]
  split
  · split
    · exact ⟨h.genuine, h.executing⟩
    · cases phase with
      | idle | executing | responding => exact h
      | receiving input =>
          refine ⟨Genuine.append h.genuine fun _ _ heq => (by cases heq), fun command hp => ?_⟩
          cases hp
          exact ⟨executions history, by rw [executions_append]; rfl⟩
  · cases phase with
    | idle | executing | responding => exact h
    | receiving input => exact Coherent.quiet h.genuine fun _ hp => by cases hp

theorem Coherent.popped (h : Coherent m d) (base reg : UInt16) : Coherent m (popped base reg d) := by
  obtain ⟨phase, discarding, history⟩ := d
  rw [Bench.popped]
  split
  · cases phase with
    | idle | executing | receiving => exact h
    | responding rest => exact Coherent.quiet h.genuine fun _ hp => by cases hp
  · exact h

theorem evolves_done (d : Device) : Evolves d (done m d) := by
  refine (evolves_settle d).trans ?_
  rw [done]
  generalize settle d = e
  obtain ⟨phase, discarding, history⟩ := e
  cases phase with
  | idle | receiving | responding => exact .refl
  | executing command =>
      have hw := m.wellFormed (m.after (executions history).dropLast) command
      exact .single (.finish command _ discarding history ⟨Nat.le_trans (by decide) hw.header, hw.size⟩)

theorem finished_discarding (d : Device) : (finished m d).discarding = d.discarding := by
  obtain ⟨phase, discarding, history⟩ := d
  cases phase <;> rfl

theorem done_discarding (d : Device) : (done m d).discarding = false := by
  rw [done, finished_discarding, settle_discarding]

theorem done_phase (d : Device) (command : List UInt8) : (done m d).phase ≠ .executing command := by
  rw [done]
  generalize settle d = e
  obtain ⟨phase, discarding, history⟩ := e
  cases phase <;> exact fun hp => by cases hp

theorem done_restarts (d : Device) : Restarts d (done m d) := by
  intro hs
  rw [done, settle, if_pos hs]
  exact .inr rfl

theorem done_shows (d : Device) : Shows (done m d) (status (done m d)) := by
  refine ⟨done_discarding d, done_phase d, ?_, ?_, ?_⟩
  · intro hp
    rw [status, hp]
    decide
  · intro input hp
    rw [status, hp]
    cases input with
    | nil => decide
    | cons b input =>
        dsimp only
        split <;> decide
  · intro rest hp hne
    rw [status, hp]
    cases rest with
    | nil => exact absurd rfl hne
    | cons b rest => exact show (tpmStatValid ||| tpmStatAvail) &&& tpmStatAvail = tpmStatAvail by decide

end Coherent

variable (m) (base : UInt16) (limit : Nat)

def timer : TimeoutOps (Lazy m limit) where
  timeoutInitUs _ := fun w => (0, { w with left := limit })
  timeoutElapsed _ := fun w => (decide (w.left = 0), { w with left := w.left - 1 })

def writeReg (reg : UInt16) (val : UInt8) : StateM (Lazy m limit) Unit := fun w =>
  ((), { device := written base reg val w.device
         lag := if reg = fifoReg base tpmFifoRegStatus then limit else w.lag
         left := w.left
         lag_le := by
          split
          · exact Nat.le_refl limit
          · exact w.lag_le
         coherent := w.coherent.written base reg val })

def readReg (reg : UInt16) : StateM (Lazy m limit) UInt8 := fun w =>
  if reg = fifoReg base tpmFifoRegStatus then
    if w.lag = 0 then
      (status (done m w.device), { w with device := done m w.device, coherent := w.coherent.settle.finished })
    else (0, { w with lag := w.lag - 1, lag_le := Nat.le_trans (Nat.sub_le _ _) w.lag_le })
  else if reg = fifoReg base tpmFifoRegBurstCountLo then
    if w.lag = 0 then (8, w)
    else (0, { w with lag := w.lag - 1, lag_le := Nat.le_trans (Nat.sub_le _ _) w.lag_le })
  else (value base reg w.device, { w with device := popped base reg w.device, coherent := w.coherent.popped base reg })

/-- A device whose timer allows `limit` polls. STATUS and the burst count stay
zero for as long, from a write of STATUS on. -/
def bus : BusDevice (Lazy m limit) where
  waits _ _ := 3
  read address _ := readReg m base limit (UInt16.ofNat address)
  write address _ val := writeReg m base limit (UInt16.ofNat address) val
  noise := UInt8.ofNat

def port : FifoPort (Lazy m limit) := registerPort (bus m base limit) (timer m limit)

variable {m base limit} {w w' : Lazy m limit} {reg : UInt16} {dst : Dest} {err : Int} {val : UInt8}

theorem ofNat_address (reg : UInt16) : UInt16.ofNat (0xD40000 + reg.toNat) = reg := by
  rw [UInt16.ofNat_add, UInt16.ofNat_toNat]
  exact UInt16.zero_add reg

theorem writeByte_eq (h : (port m base limit).writeByte reg val w = (err, w')) :
    err = tpmSuccess ∧ w' = (writeReg m base limit reg val w).2 := by
  have hport : (port m base limit).writeByte reg val w =
      (tpmSuccess, (writeReg m base limit (UInt16.ofNat (0xD40000 + reg.toNat)) val w).2) := rfl
  rw [hport, ofNat_address] at h
  cases h
  exact ⟨rfl, rfl⟩

theorem readReg_eq (h : (port m base limit).readByte reg dst w = ((err, val), w')) :
    err = tpmSuccess ∧ readReg m base limit reg w = (val, w') := by
  have hport : (port m base limit).readByte reg dst w =
      ((tpmSuccess, (readReg m base limit (UInt16.ofNat (0xD40000 + reg.toNat)) w).1),
        (readReg m base limit (UInt16.ofNat (0xD40000 + reg.toNat)) w).2) := rfl
  rw [hport, ofNat_address] at h
  cases h
  exact ⟨rfl, rfl⟩

theorem readStatus_eq (h : (port m base limit).readByte (fifoReg base tpmFifoRegStatus) dst w = ((err, val), w')) :
    err = tpmSuccess ∧ w'.left = w.left ∧
      (w.lag = 0 ∧ val = status (done m w.device) ∧ w'.device = done m w.device ∧ w'.lag = w.lag ∨
        val = 0 ∧ w'.device = w.device ∧ w'.lag < w.lag) := by
  obtain ⟨rfl, hr⟩ := readReg_eq h
  simp only [readReg, if_pos] at hr
  by_cases hlag : w.lag = 0
  · rw [if_pos hlag] at hr
    cases hr
    exact ⟨rfl, rfl, .inl ⟨hlag, rfl, rfl, rfl⟩⟩
  · rw [if_neg hlag] at hr
    cases hr
    exact ⟨rfl, rfl, .inr ⟨rfl, rfl, Nat.sub_one_lt hlag⟩⟩

theorem readBurst_eq
    (h : (port m base limit).readByte (fifoReg base tpmFifoRegBurstCountLo) dst w = ((err, val), w')) :
    err = tpmSuccess ∧ w'.left = w.left ∧ w'.device = w.device ∧ (val ≠ 0 ∨ w'.lag < w.lag) := by
  have hs : fifoReg base tpmFifoRegBurstCountLo ≠ fifoReg base tpmFifoRegStatus := fifoReg_ne base (by decide)
  obtain ⟨rfl, hr⟩ := readReg_eq h
  simp only [readReg, if_neg hs, if_pos] at hr
  by_cases hlag : w.lag = 0
  · rw [if_pos hlag] at hr
    cases hr
    exact ⟨rfl, rfl, rfl, .inl (by decide)⟩
  · rw [if_neg hlag] at hr
    cases hr
    exact ⟨rfl, rfl, rfl, .inr (Nat.sub_one_lt hlag)⟩

theorem readByte_eq (hs : reg ≠ fifoReg base tpmFifoRegStatus) (hb : reg ≠ fifoReg base tpmFifoRegBurstCountLo)
    (h : (port m base limit).readByte reg dst w = ((err, val), w')) :
    err = tpmSuccess ∧ w'.left = w.left ∧ w'.lag = w.lag ∧ val = value base reg w.device ∧
      w'.device = popped base reg w.device := by
  obtain ⟨rfl, hr⟩ := readReg_eq h
  simp only [readReg, if_neg hs, if_neg hb] at hr
  cases hr
  exact ⟨rfl, rfl, rfl, rfl, rfl⟩

theorem readBurstHi_eq
    (h : (port m base limit).readByte (fifoReg base tpmFifoRegBurstCountHi) dst w = ((err, val), w')) :
    err = tpmSuccess ∧ w'.left = w.left ∧ w'.lag = w.lag ∧ w'.device = w.device := by
  obtain ⟨herr, hleft, hlag, -, hdevice⟩ :=
    readByte_eq (fifoReg_ne base (by decide)) (fifoReg_ne base (by decide)) h
  rw [popped_of_ne (fifoReg_ne base (by decide))] at hdevice
  exact ⟨herr, hleft, hlag, hdevice⟩

theorem conforms : Conforms (port m base limit) base Lazy.device := by
  constructor
  case timeoutInit =>
    intro w w' usec cnt h
    cases h
    exact .refl
  case timeoutElapsed =>
    intro w w' cnt elapsed h
    cases h
    exact .refl
  case readStatus =>
    intro w w' dst err val h
    obtain ⟨-, -, ⟨-, rfl, hdevice, -⟩ | ⟨rfl, hdevice, -⟩⟩ := readStatus_eq h
    · rw [hdevice]
      exact ⟨evolves_done _, fun _ => status_answer _ (done_discarding _)⟩
    · rw [hdevice]
      refine ⟨.refl, fun _ => ⟨fun hr => absurd rfl hr, fun _ _ _ hv => absurd rfl hv, fun ha => absurd rfl ha⟩⟩
  case readBurst =>
    rintro w w' reg dst err val (rfl | rfl) h
    · rw [(readBurst_eq h).2.2.1]
    · rw [(readBurstHi_eq h).2.2.2]
  case commandReady =>
    intro w w' err h
    obtain ⟨-, rfl⟩ := writeByte_eq h
    refine ⟨_, .refl, .inl ?_⟩
    simp only [writeReg, written, if_pos]
  case sendByte =>
    intro w w' val err h
    obtain ⟨-, rfl⟩ := writeByte_eq h
    have hs : fifoReg base tpmFifoRegDataFifo ≠ fifoReg base tpmFifoRegStatus := fifoReg_ne base (by decide)
    refine ⟨_, .refl, fun input hphase => .inl ?_⟩
    simp only [writeReg, written, if_neg hs, hphase]
  case go =>
    intro w w' err h
    obtain ⟨-, rfl⟩ := writeByte_eq h
    refine ⟨_, .refl, fun input hphase _ => .inl ?_⟩
    simp only [writeReg, written, if_pos, if_neg (show tpmStatGo ≠ tpmStatCommandReady by decide), hphase]
  case readByte =>
    intro w w' dst err val h
    obtain ⟨-, -, -, rfl, hdevice⟩ :=
      readByte_eq (fifoReg_ne base (by decide)) (fifoReg_ne base (by decide)) h
    refine ⟨_, .refl, fun rest hphase => ⟨.inl ?_, fun _ b hb => ?_⟩⟩
    · rw [hdevice, popped, if_pos rfl, hphase]
    · rw [value, if_neg (fifoReg_ne base (by decide)), if_pos rfl, hphase]
      cases rest with
      | nil => cases hb
      | cons a rest =>
          cases hb
          rfl

variable (m limit)

/-- However long it puts things off, the device is prompt for its own timer. -/
theorem prompt (chip : ChipData) : Prompt (port m (localityStartAddress chip.locality) limit) chip m
    Lazy.device limit Lazy.lag Lazy.left where
  toConforms := conforms
  genuine w := w.coherent.genuine
  lag_le w := w.lag_le
  arms := by
    intro w w' usec cnt _ h
    cases h
    exact ⟨Nat.le_refl limit, .inl⟩
  elapses := by
    intro w w' cnt elapsed h
    cases h
    exact ⟨of_decide_eq_true, Nat.le_add_of_sub_le (Nat.le_refl _), Nat.le_refl _, .inl⟩
  status := by
    intro w w' dst err val h
    obtain ⟨rfl, hleft, ⟨-, rfl, hdevice, hlag⟩ | ⟨rfl, hdevice, hlag⟩⟩ := readStatus_eq h
    · rw [hdevice]
      exact ⟨Int.le_refl 0, hleft, done_restarts _, .inl (done_shows _)⟩
    · rw [hdevice]
      exact ⟨Int.le_refl 0, hleft, .inl, .inr hlag⟩
  burst := by
    intro w w' dst err val h
    obtain ⟨rfl, hleft, -, hprogress⟩ := readBurst_eq h
    exact ⟨Int.le_refl 0, hleft, fun _ => hprogress⟩
  burstHi := by
    intro w w' dst err val h
    obtain ⟨rfl, hleft, hlag, -⟩ := readBurstHi_eq h
    exact ⟨Int.le_refl 0, hleft, le_of_eq hlag⟩
  write := by
    intro w w' reg val err _ h
    obtain ⟨rfl, -⟩ := writeByte_eq h
    exact Int.le_refl 0
  data := by
    intro w w' dst err val h
    obtain ⟨rfl, -⟩ := readByte_eq (fifoReg_ne _ (by decide)) (fifoReg_ne _ (by decide)) h
    exact Int.le_refl 0

def interrupted : Lazy m limit where
  device := ⟨.receiving [0x80, 0x01, 0], false, []⟩
  lag := limit
  left := 0
  lag_le := Nat.le_refl limit
  coherent := Coherent.quiet (fun pre _ _ _ heq => absurd heq (by simp)) fun _ hp => by cases hp

end LibTpm.LazyDevice
