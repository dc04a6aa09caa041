import LibTpm.FifoTrace
import Mathlib.Logic.Relation

namespace LibTpm.PtpDevice

open Relation LibTpm.Base.Process LibTpm.Base.BigEndian LibTpm.Constants LibTpm.Platform
open LibTpm.Fifo LibTpm.FifoTrace

/-- What the command interface is doing, with the bytes received so far of a
command, the command that executes, or the bytes left of its response. -/
inductive Phase
  | idle
  | receiving (input : List UInt8)
  | executing (command : List UInt8)
  | responding (rest : List UInt8)
  deriving DecidableEq, Repr

inductive Event
  | executes (command : List UInt8)
  | responds (command response : List UInt8)
  deriving DecidableEq, Repr

/-- A device and what it has done so far. It is discarding from a write of
COMMAND_READY until that write has taken effect. -/
structure Device where
  phase : Phase
  discarding : Bool
  history : List Event
  deriving DecidableEq, Repr

def executed : Event → Option (List UInt8)
  | .executes command => some command
  | .responds _ _ => none

def executions (log : List Event) : List (List UInt8) := log.filterMap executed

theorem executions_append (log log' : List Event) :
    executions (log ++ log') = executions log ++ executions log' := List.filterMap_append

def sizeField (bytes : List UInt8) : Nat :=
  (of32 (bytes.getD 2 0) (bytes.getD 3 0) (bytes.getD 4 0) (bytes.getD 5 0)).toNat

def sizeFieldEnd : Nat := 6

/-- Fewer bytes than the size field of the command have arrived. -/
def Expecting (input : List UInt8) : Prop :=
  input.length < sizeFieldEnd ∨ input.length < sizeField input

def Headed (response : List UInt8) : Prop :=
  sizeFieldEnd ≤ response.length ∧ sizeField response = response.length

instance : DecidablePred Expecting := fun input =>
  inferInstanceAs (Decidable (input.length < sizeFieldEnd ∨ input.length < sizeField input))

instance : DecidablePred Headed := fun response =>
  inferInstanceAs (Decidable (sizeFieldEnd ≤ response.length ∧ sizeField response = response.length))

/-- What the device does by itself: a COMMAND_READY takes effect, or the
command ends with its response. -/
inductive Moves : Device → Device → Prop
  | discard (phase next : Phase) (history : List Event) (h : next = .idle ∨ next = .receiving []) :
      Moves ⟨phase, true, history⟩ ⟨next, false, history⟩
  | finish (command response : List UInt8) (discarding : Bool) (history : List Event)
      (h : Headed response) :
      Moves ⟨.executing command, discarding, history⟩
        ⟨.responding response, discarding, history ++ [.responds command response]⟩

abbrev Evolves : Device → Device → Prop := ReflTransGen Moves

structure StatusAnswer (d : Device) (v : UInt8) : Prop where
  ready : v &&& tpmStatCommandReady ≠ 0 → d.phase = .receiving [] ∧ d.discarding = false
  expect : ∀ input, d.phase = .receiving input → input ≠ [] → v &&& tpmStatValid ≠ 0 →
    (v &&& tpmStatExpect ≠ 0 ↔ Expecting input)
  avail : v &&& tpmStatAvail ≠ 0 → ∃ rest, d.phase = .responding rest ∧ rest ≠ []

/-- The device after an access that reaches it makes `next` of `d`. An access
that fails may have reached it or not. -/
def Lands (err : Int) (d next after : Device) : Prop := after = next ∨ err < 0 ∧ after = d

/-- The device behind a port, which `view` sees in the world, follows the
protocol. Nothing is assumed about a byte, a GO or a read of the response that
comes in another phase than its own, and nothing about the burst counts. -/
structure Conforms {W : Type} (port : FifoPort W) (base : UInt16) (view : W → Device) : Prop where
  timeoutInit {w w' : W} {usec : UInt32} {cnt : UInt64} :
    port.timeoutInitUs usec w = (cnt, w') → Evolves (view w) (view w')
  timeoutElapsed {w w' : W} {cnt : UInt64} {elapsed : Bool} :
    port.timeoutElapsed cnt w = (elapsed, w') → Evolves (view w) (view w')
  readStatus {w w' : W} {dst : Dest} {err : Int} {val : UInt8} :
    port.readByte (fifoReg base tpmFifoRegStatus) dst w = ((err, val), w') →
      Evolves (view w) (view w') ∧ (0 ≤ err → StatusAnswer (view w') val)
  readBurst {w w' : W} {reg : UInt16} {dst : Dest} {err : Int} {val : UInt8} :
    reg = fifoReg base tpmFifoRegBurstCountLo ∨ reg = fifoReg base tpmFifoRegBurstCountHi →
      port.readByte reg dst w = ((err, val), w') → Evolves (view w) (view w')
  commandReady {w w' : W} {err : Int} :
    port.writeByte (fifoReg base tpmFifoRegStatus) tpmStatCommandReady w = (err, w') →
      ∃ d, Evolves (view w) d ∧ Lands err d { d with discarding := true } (view w')
  sendByte {w w' : W} {val : UInt8} {err : Int} :
    port.writeByte (fifoReg base tpmFifoRegDataFifo) val w = (err, w') →
      ∃ d, Evolves (view w) d ∧ ∀ input, d.phase = .receiving input →
        Lands err d { d with phase := .receiving (input ++ [val]) } (view w')
  go {w w' : W} {err : Int} :
    port.writeByte (fifoReg base tpmFifoRegStatus) tpmStatGo w = (err, w') →
      ∃ d, Evolves (view w) d ∧ ∀ input, d.phase = .receiving input → ¬ Expecting input →
        Lands err d { d with phase := .executing input, history := d.history ++ [.executes input] }
          (view w')
  readByte {w w' : W} {dst : Dest} {err : Int} {val : UInt8} :
    port.readByte (fifoReg base tpmFifoRegDataFifo) dst w = ((err, val), w') →
      ∃ d, Evolves (view w) d ∧ ∀ rest, d.phase = .responding rest →
        Lands err d { d with phase := .responding rest.tail } (view w') ∧
          (0 ≤ err → ∀ b ∈ rest.head?, val = b)

section Evolves

variable {d d' : Device}

theorem Moves.history (h : Moves d d') :
    ∃ ext, d'.history = d.history ++ ext ∧ executions ext = [] := by
  cases h with
  | discard phase next history h => exact ⟨[], (List.append_nil _).symm, rfl⟩
  | finish command response discarding history h => exact ⟨[.responds command response], rfl, rfl⟩

theorem Evolves.history (h : Evolves d d') :
    ∃ ext, d'.history = d.history ++ ext ∧ executions ext = [] := by
  induction h with
  | refl => exact ⟨[], (List.append_nil _).symm, rfl⟩
  | tail _ hm ih =>
      obtain ⟨ext, he, hn⟩ := ih
      obtain ⟨ext', he', hn'⟩ := hm.history
      refine ⟨ext ++ ext', ?_, ?_⟩
      · rw [he', he, List.append_assoc]
      · rw [executions_append, hn, hn']
        rfl

theorem Evolves.receiving {input : List UInt8} (h : Evolves d d') (hp : d.phase = .receiving input)
    (hs : d.discarding = false) : d' = d := by
  rcases h.cases_head with rfl | ⟨e, hm, -⟩
  · rfl
  · cases hm with
    | discard => cases hs
    | finish => cases hp

theorem Evolves.responding {rest : List UInt8} (h : Evolves d d') (hp : d.phase = .responding rest)
    (hs : d.discarding = false) : d' = d := by
  rcases h.cases_head with rfl | ⟨e, hm, -⟩
  · rfl
  · cases hm with
    | discard => cases hs
    | finish => cases hp

theorem Evolves.executing {command : List UInt8} (h : Evolves d d')
    (hp : d.phase = .executing command) (hs : d.discarding = false) :
    d' = d ∨ ∃ response, Headed response ∧
      d' = ⟨.responding response, false, d.history ++ [.responds command response]⟩ := by
  rcases h.cases_head with rfl | ⟨e, hm, he⟩
  · exact .inl rfl
  · cases hm with
    | discard => cases hs
    | finish command' response discarding history hr =>
        cases hp
        cases hs
        exact .inr ⟨response, hr, Evolves.responding he rfl rfl⟩

end Evolves

inductive Fault
  | none
  | lost
  | late
  deriving DecidableEq, Repr

structure Bench where
  device : Device
  count : Nat
  deriving DecidableEq, Repr

namespace Bench

def settle (d : Device) : Device :=
  if d.discarding then ⟨.receiving [], false, d.history⟩ else d

def finish (answer : List UInt8 → List UInt8) (d : Device) : Device :=
  match d.phase with
  | .executing command =>
      { d with phase := .responding (answer command),
               history := d.history ++ [.responds command (answer command)] }
  | _ => d

def status (d : Device) : UInt8 :=
  match d.phase with
  | .idle | .executing _ => 0
  | .receiving [] => tpmStatValid ||| tpmStatCommandReady
  | .receiving input => if Expecting input then tpmStatValid ||| tpmStatExpect else tpmStatValid
  | .responding [] => tpmStatValid
  | .responding _ => tpmStatValid ||| tpmStatAvail

def written (base reg : UInt16) (val : UInt8) (d : Device) : Device :=
  if reg = fifoReg base tpmFifoRegStatus then
    if val = tpmStatCommandReady then { d with discarding := true }
    else match d.phase with
      | .receiving input => { d with phase := .executing input, history := d.history ++ [.executes input] }
      | _ => d
  else match d.phase with
    | .receiving input => { d with phase := .receiving (input ++ [val]) }
    | _ => d

def popped (base reg : UInt16) (d : Device) : Device :=
  if reg = fifoReg base tpmFifoRegDataFifo then
    match d.phase with
    | .responding rest => { d with phase := .responding rest.tail }
    | _ => d
  else d

def value (base reg : UInt16) (d : Device) : UInt8 :=
  if reg = fifoReg base tpmFifoRegStatus then status d
  else if reg = fifoReg base tpmFifoRegDataFifo then
    match d.phase with
    | .responding (b :: _) => b
    | _ => 0xFF
  else if reg = fifoReg base tpmFifoRegBurstCountLo then 8 else 0

def access (answer : List UInt8 → List UInt8) (faults : Nat → Fault) (effect : Device → Device)
    (w : Bench) : Int × Bench :=
  let d := finish answer (settle w.device)
  match faults w.count with
  | .none => (tpmSuccess, ⟨effect d, w.count + 1⟩)
  | .lost => (tpmErrTransfer, ⟨d, w.count + 1⟩)
  | .late => (tpmErrTransfer, ⟨effect d, w.count + 1⟩)

/-- A device that does at the next access what it has to do, with a given fault
at each access and bursts of eight bytes. -/
def port (answer : List UInt8 → List UInt8) (faults : Nat → Fault) (base : UInt16) : FifoPort Bench where
  timeoutInitUs _ := pure 0
  timeoutElapsed _ := pure false
  writeByte reg val := access answer faults (written base reg val)
  readByte reg _ := fun w =>
    (((access answer faults (popped base reg) w).1, value base reg (finish answer (settle w.device))),
      (access answer faults (popped base reg) w).2)
  readChunk _ len := pure (0, Vector.replicate len.toNat 0)

variable {answer : List UInt8 → List UInt8} {faults : Nat → Fault} {base : UInt16} {w w' : Bench}

theorem settle_discarding (d : Device) : (settle d).discarding = false := by
  rw [settle]
  by_cases h : d.discarding
  · rw [if_pos h]
  · rw [if_neg h]
    exact Bool.not_eq_true _ ▸ h

theorem evolves_settle (d : Device) : Evolves d (settle d) := by
  cases d with
  | mk phase discarding history =>
      cases discarding with
      | false => exact .refl
      | true => exact .single (.discard phase (.receiving []) history (.inr rfl))

theorem evolves_finish (hanswer : ∀ command, Headed (answer command)) (d : Device) :
    Evolves d (finish answer d) := by
  cases d with
  | mk phase discarding history =>
      cases phase with
      | executing command => exact .single (.finish command (answer command) discarding history (hanswer command))
      | idle | receiving | responding => exact .refl

theorem finish_discarding (d : Device) : (finish answer d).discarding = d.discarding := by
  cases d with
  | mk phase discarding history => cases phase <;> rfl

theorem access_lands {effect : Device → Device} {err : Int} (h : access answer faults effect w = (err, w')) :
    Lands err (finish answer (settle w.device)) (effect (finish answer (settle w.device))) w'.device := by
  rw [access] at h
  cases hf : faults w.count <;> rw [hf] at h <;> cases h
  · exact .inl rfl
  · exact .inr ⟨by decide, rfl⟩
  · exact .inl rfl

theorem access_of_id {err : Int} (h : access answer faults id w = (err, w')) :
    w'.device = finish answer (settle w.device) := by
  rcases access_lands h with heq | ⟨-, heq⟩ <;> exact heq

theorem status_answer (d : Device) (h : d.discarding = false) : StatusAnswer d (status d) := by
  obtain ⟨phase, discarding, history⟩ := d
  cases phase with
  | idle | executing =>
      change StatusAnswer _ 0
      exact ⟨fun hr => absurd hr (by decide), fun _ hp => (by cases hp), fun ha => absurd ha (by decide)⟩
  | receiving input =>
      cases input with
      | nil =>
          change StatusAnswer _ (tpmStatValid ||| tpmStatCommandReady)
          refine ⟨fun _ => ⟨rfl, h⟩, fun input hp hne => ?_, fun ha => absurd ha (by decide)⟩
          cases hp
          exact absurd rfl hne
      | cons b input =>
          change StatusAnswer _ (if Expecting (b :: input) then _ else _)
          by_cases he : Expecting (b :: input)
          · rw [if_pos he]
            refine ⟨fun hr => absurd hr (by decide), fun input hp _ _ => ?_, fun ha => absurd ha (by decide)⟩
            cases hp
            exact ⟨fun _ => he, fun _ => by decide⟩
          · rw [if_neg he]
            refine ⟨fun hr => absurd hr (by decide), fun input hp _ _ => ?_, fun ha => absurd ha (by decide)⟩
            cases hp
            exact ⟨fun hx => absurd hx (by decide), fun hx => absurd hx he⟩
  | responding rest =>
      cases rest with
      | nil =>
          change StatusAnswer _ tpmStatValid
          exact ⟨fun hr => absurd hr (by decide), fun _ hp => (by cases hp), fun ha => absurd ha (by decide)⟩
      | cons b rest =>
          change StatusAnswer _ (tpmStatValid ||| tpmStatAvail)
          exact ⟨fun hr => absurd hr (by decide), fun _ hp => (by cases hp),
            fun _ => ⟨b :: rest, rfl, List.cons_ne_nil b rest⟩⟩

theorem popped_of_ne {reg : UInt16} (h : reg ≠ fifoReg base tpmFifoRegDataFifo) : popped base reg = id := by
  funext d
  exact if_neg h

theorem readByte_eq {reg : UInt16} {dst : Dest} {err : Int} {val : UInt8}
    (h : (port answer faults base).readByte reg dst w = ((err, val), w')) :
    access answer faults (popped base reg) w = (err, w') ∧
      val = value base reg (finish answer (settle w.device)) := by
  obtain ⟨h, hw⟩ := Prod.ext_iff.mp h
  obtain ⟨herr, hval⟩ := Prod.ext_iff.mp h
  exact ⟨Prod.ext herr hw, hval.symm⟩

theorem conforms (hanswer : ∀ command, Headed (answer command)) (faults : Nat → Fault) (base : UInt16) :
    Conforms (port answer faults base) base Bench.device := by
  have hev : ∀ w : Bench, Evolves w.device (finish answer (settle w.device)) := fun w =>
    (evolves_settle w.device).trans (evolves_finish hanswer _)
  have hsettled : ∀ w : Bench, (finish answer (settle w.device)).discarding = false := by
    intro w
    rw [finish_discarding, settle_discarding]
  have hquiet : ∀ {reg : UInt16} {dst : Dest} {err : Int} {val : UInt8} {w w' : Bench},
      reg ≠ fifoReg base tpmFifoRegDataFifo →
        (port answer faults base).readByte reg dst w = ((err, val), w') →
          w'.device = finish answer (settle w.device) := by
    intro reg dst err val w w' hreg h
    have hacc := (readByte_eq h).1
    rw [popped_of_ne hreg] at hacc
    exact access_of_id hacc
  constructor
  case timeoutInit =>
    intro w w' usec cnt h
    cases h
    exact .refl
  case timeoutElapsed =>
    intro w w' cnt elapsed h
    cases h
    exact .refl
  case readStatus =>
    intro w w' dst err val h
    rw [hquiet (fifoReg_ne base (by decide)) h, (readByte_eq h).2]
    refine ⟨hev w, fun _ => ?_⟩
    rw [value, if_pos rfl]
    exact status_answer _ (hsettled w)
  case readBurst =>
    intro w w' reg dst err val hreg h
    rw [hquiet (by rcases hreg with rfl | rfl <;> exact fifoReg_ne base (by decide)) h]
    exact hev w
  case commandReady =>
    intro w w' err h
    have hlands := access_lands h
    rw [written, if_pos rfl, if_pos rfl] at hlands
    exact ⟨_, hev w, hlands⟩
  case sendByte =>
    intro w w' val err h
    refine ⟨_, hev w, fun input hphase => ?_⟩
    have hlands := access_lands h
    rw [written, if_neg (fifoReg_ne base (by decide)), hphase] at hlands
    exact hlands
  case go =>
    intro w w' err h
    refine ⟨_, hev w, fun input hphase _ => ?_⟩
    have hlands := access_lands h
    rw [written, if_pos rfl, if_neg (by decide), hphase] at hlands
    exact hlands
  case readByte =>
    intro w w' dst err val h
    refine ⟨_, hev w, fun rest hphase => ?_⟩
    obtain ⟨hacc, hval⟩ := readByte_eq h
    have hlands := access_lands hacc
    rw [popped, if_pos rfl, hphase] at hlands
    refine ⟨hlands, fun _ b hb => ?_⟩
    rw [hval, value, if_neg (fifoReg_ne base (by decide)), if_pos rfl, hphase]
    cases rest with
    | nil => cases hb
    | cons a rest =>
        cases hb
        rfl

end Bench

end LibTpm.PtpDevice
