import LibTpm.SpiAccess

namespace LibTpm.SpiDevice

open LibTpm.Base.Process LibTpm.Constants LibTpm.Platform LibTpm.Spi LibTpm.SpiSlave

variable {σ : Type}

/-- A device with registers, which each byte that is read or written may change.
It asks for wait states, and its noise stands in the bits that the protocol
leaves open, by the number of bytes before it on the wire. -/
structure BusDevice (σ : Type) where
  waits : Request → σ → Nat
  read : (address index : Nat) → StateM σ UInt8
  write : (address index : Nat) → UInt8 → StateM σ Unit
  noise : Nat → UInt8

structure Line (σ : Type) where
  device : σ
  phase : Phase
  sent : Nat

namespace Line

def select (l : Line σ) : Line σ := { l with phase := .header [] }

def deselect (l : Line σ) : Line σ := { l with phase := .released }

def turn (l : Line σ) (device : σ) (phase : Phase) : Line σ := ⟨device, phase, l.sent + 1⟩

@[simp] theorem turn_device (l : Line σ) (device : σ) (phase : Phase) : (l.turn device phase).device = device := rfl

@[simp] theorem turn_phase (l : Line σ) (device : σ) (phase : Phase) : (l.turn device phase).phase = phase := rfl

end Line

section Wire

variable (d : BusDevice σ)

def exchange (mosi : UInt8) : StateM (Line σ) UInt8 := fun l =>
  let noise := d.noise l.sent
  match l.phase with
  | .header received =>
      match decode (received ++ [mosi]) with
      | some request =>
          let left := d.waits request l.device
          (flowByte left noise, l.turn l.device (flowPhase request left))
      | none => (noise, l.turn l.device (.header (received ++ [mosi])))
  | .waiting request left => (flowByte left noise, l.turn l.device (flowPhase request left))
  | .data request moved =>
      match request.access with
      | .read =>
          let r := d.read request.address moved l.device
          (r.1, l.turn r.2 (dataPhase request (moved + 1)))
      | .write =>
          let r := d.write request.address moved mosi l.device
          (noise, l.turn r.2 (dataPhase request (moved + 1)))
  | .released => (noise, l.turn l.device .released)
  | .finished => (noise, l.turn l.device .finished)

def exchangeAll : List UInt8 → StateM (Line σ) (List UInt8)
  | [] => return []
  | b :: bytes => do
      let r ← exchange d b
      let rs ← exchangeAll bytes
      return r :: rs

def reads (address : Nat) : (moved len : Nat) → StateM σ (List UInt8)
  | _, 0 => return []
  | moved, len + 1 => do
      let b ← d.read address moved
      let bs ← reads address (moved + 1) len
      return b :: bs

def chunk (address len : Nat) : StateM σ (Vector UInt8 len) := do
  let bytes ← reads d address 0 len
  return Vector.ofFn fun i => bytes.getD i 0

def serve {α : Type} (request : Request) (act : StateM σ α) (failed : α) : StateM σ (Int × α) := fun s =>
  if d.waits request s ≤ retryCount then ((tpmSuccess, (act s).1), (act s).2) else ((tpmErrTimeout, failed), s)

def registerPort (timer : TimeoutOps σ) : FifoPort σ where
  toTimeoutOps := timer
  writeByte reg val := do
    let (err, _) ← serve d ⟨.write, 1, 0xD40000 + reg.toNat⟩ (d.write (0xD40000 + reg.toNat) 0 val) ()
    return err
  readByte reg _ := serve d ⟨.read, 1, 0xD40000 + reg.toNat⟩ (d.read (0xD40000 + reg.toNat) 0) 0
  readChunk reg len :=
    if len ≠ 1 ∧ len ≠ 2 ∧ len ≠ 4 then pure (tpmInvalidParam, Vector.replicate len.toNat 0)
    else serve d ⟨.read, len.toNat, 0xD40000 + reg.toNat⟩ (chunk d (0xD40000 + reg.toNat) len.toNat)
      (Vector.replicate len.toNat 0)

end Wire

variable {d : BusDevice σ} {l : Line σ} {request : Request}

theorem exchange_received {received : List UInt8} (hp : l.phase = .header received) (hr : received.length < 3)
    (mosi : UInt8) : ∃ noise, exchange d mosi l = (noise, l.turn l.device (.header (received ++ [mosi]))) := by
  have hnone : decode (received ++ [mosi]) = none := by
    rcases received with _ | ⟨a, _ | ⟨b, _ | ⟨c, received⟩⟩⟩
    · rfl
    · rfl
    · rfl
    · exact absurd hr (by simp)
  refine ⟨d.noise l.sent, ?_⟩
  simp only [exchange, hp, hnone]

theorem exchange_header (hp : l.phase = .header []) {a b c e : UInt8} (hd : decode [a, b, c, e] = some request) :
    ∃ x y z noise l', exchangeAll d [a, b, c, e] l = ([x, y, z, flowByte (d.waits request l.device) noise], l') ∧
      l'.device = l.device ∧ l'.phase = flowPhase request (d.waits request l.device) := by
  obtain ⟨x, ha⟩ := exchange_received (d := d) hp (by simp) a
  generalize hla : l.turn l.device (.header ([] ++ [a])) = la at ha
  have hpa : la.phase = .header [a] := by simp [← hla]
  obtain ⟨y, hb⟩ := exchange_received (d := d) hpa (by simp) b
  generalize hlb : la.turn la.device (.header ([a] ++ [b])) = lb at hb
  have hpb : lb.phase = .header [a, b] := by simp [← hlb]
  obtain ⟨z, hc⟩ := exchange_received (d := d) hpb (by simp) c
  generalize hlc : lb.turn lb.device (.header ([a, b] ++ [c])) = lc at hc
  have hpc : lc.phase = .header [a, b, c] := by simp [← hlc]
  have hdevice : lc.device = l.device := by simp [← hlc, ← hlb, ← hla]
  have hd' : decode ([a, b, c] ++ [e]) = some request := hd
  have hlast : exchange d e lc = (flowByte (d.waits request l.device) (d.noise lc.sent),
      lc.turn l.device (flowPhase request (d.waits request l.device))) := by
    simp only [exchange, hpc, hd', hdevice]
  refine ⟨x, y, z, d.noise lc.sent, lc.turn l.device (flowPhase request (d.waits request l.device)), ?_, rfl, rfl⟩
  simp only [exchangeAll, state_bind, state_pure, ha, hb, hc, hlast]

theorem exchange_wait {left : Nat} (hp : l.phase = .waiting request left) (mosi : UInt8) : ∃ noise,
    exchange d mosi l = (flowByte left noise, l.turn l.device (flowPhase request left)) :=
  ⟨d.noise l.sent, by simp only [exchange, hp]⟩

theorem dataPhase_of_lt {moved : Nat} (h : moved < request.len) : dataPhase request moved = .data request moved :=
  if_pos h

theorem exchangeAll_read {moved : Nat} {address : Nat} {len : Nat} (out : List UInt8)
    (hlen : out.length + moved = len) (hp : l.phase = dataPhase ⟨.read, len, address⟩ moved) :
    ∃ l', exchangeAll d out l = ((reads d address moved out.length l.device).1, l') ∧
      l'.device = (reads d address moved out.length l.device).2 := by
  induction out generalizing moved l with
  | nil => exact ⟨l, rfl, rfl⟩
  | cons b out ih =>
      rw [List.length_cons] at hlen
      rw [dataPhase_of_lt (by dsimp only; omega)] at hp
      have hx : exchange d b l = ((d.read address moved l.device).1,
          l.turn (d.read address moved l.device).2 (dataPhase ⟨.read, len, address⟩ (moved + 1))) := by
        simp only [exchange, hp]
      obtain ⟨l', hrest, hdevice⟩ := ih (by omega)
        (Line.turn_phase l (d.read address moved l.device).2 (dataPhase ⟨.read, len, address⟩ (moved + 1)))
      refine ⟨l', ?_, hdevice⟩
      simp only [exchangeAll, state_bind, state_pure, hx, hrest, Line.turn_device, List.length_cons, reads]

theorem exchangeAll_write {address : Nat} {mosi : UInt8} (hp : l.phase = .data ⟨.write, 1, address⟩ 0) :
    (exchangeAll d [mosi] l).2.device = (d.write address 0 mosi l.device).2 := by
  have hx : exchange d mosi l = (d.noise l.sent,
      l.turn (d.write address 0 mosi l.device).2 (dataPhase ⟨.write, 1, address⟩ 1)) := by
    simp only [exchange, hp]
  simp only [exchangeAll, state_bind, state_pure, hx, Line.turn_device]

theorem reads_length (address moved len : Nat) (s : σ) : (reads d address moved len s).1.length = len := by
  induction len generalizing moved s with
  | zero => rfl
  | succ len ih => simp only [reads, state_bind, state_pure, List.length_cons, ih]

theorem exchangeAll_length (out : List UInt8) (l : Line σ) : (exchangeAll d out l).1.length = out.length := by
  induction out generalizing l with
  | nil => rfl
  | cons b out ih => simp only [exchangeAll, state_bind, state_pure, List.length_cons, ih]

/-- A driver whose world is the device on the wires. It sends zeros where it is
given no bytes. -/
def lineSpi (d : BusDevice σ) : SpiOps (Line σ) where
  getAccess := pure 0
  releaseAccess := pure ()
  start := fun l => ((), l.select)
  stop := fun l => ((), l.deselect)
  xfer len out := fun l =>
    let r := exchangeAll d ((out.getD []).takeD len 0) l
    ((0, Vector.ofFn fun i => r.1.getD i 0), r.2)

def lineTimer (timer : TimeoutOps σ) : TimeoutOps (Line σ) where
  timeoutInitUs usec := fun l =>
    ((timer.timeoutInitUs usec l.device).1, { l with device := (timer.timeoutInitUs usec l.device).2 })
  timeoutElapsed cnt := fun l =>
    ((timer.timeoutElapsed cnt l.device).1, { l with device := (timer.timeoutElapsed cnt l.device).2 })

end LibTpm.SpiDevice
