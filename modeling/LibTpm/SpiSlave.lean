import LibTpm.LocalityPages
import Mathlib.Data.List.Induction

namespace LibTpm.SpiSlave

open LibTpm.Base.Process LibTpm.Spi
open LibTpm.LocalityPages (headerAddress headerAddress_spiHeader)

structure Request where
  access : TpmAccess
  len : Nat
  address : Nat
  deriving DecidableEq, Repr

/-- Bit 7 of a header is the direction and its low six bits are the length
minus one; the address is in the three bytes that follow. -/
def decode (header : List UInt8) : Option Request :=
  match header.head?, headerAddress header with
  | some b, some address => some ⟨if b &&& 0x80 = 0 then .write else .read, (b &&& 0x3F).toNat + 1, address⟩
  | _, _ => none

inductive Phase
  | released
  | header (received : List UInt8)
  | waiting (request : Request) (left : Nat)
  | data (request : Request) (moved : Nat)
  | finished
  deriving DecidableEq, Repr

/-- The part of an access that a byte on the wire belongs to. -/
inductive Part
  | header
  | wait
  | data
  | stray
  deriving DecidableEq, Repr

structure WireByte where
  part : Part
  mosi : UInt8
  miso : UInt8
  deriving DecidableEq, Repr

abbrev Registers : Type := Nat → Nat → UInt8

/-- A reference TPM on the SPI bus. The noise is what it sends in the bits that
the protocol leaves open, by the number of bytes before it on the wire. -/
structure Slave where
  registers : Registers
  waits : Nat
  noise : Nat → UInt8
  phase : Phase
  wire : List WireByte

/-- Bit 0 is the flow control: clear while there are wait states left. -/
def flowByte (left : Nat) (noise : UInt8) : UInt8 := if left = 0 then noise ||| 1 else noise &&& 0xFE

def flowPhase (request : Request) : Nat → Phase
  | 0 => .data request 0
  | left + 1 => .waiting request left

def dataPhase (request : Request) (moved : Nat) : Phase :=
  if moved < request.len then .data request moved else .finished

namespace Slave

def select (s : Slave) : Slave := { s with phase := .header [] }

@[simp] theorem select_phase (s : Slave) : s.select.phase = .header [] := rfl

@[simp] theorem select_waits (s : Slave) : s.select.waits = s.waits := rfl

@[simp] theorem select_registers (s : Slave) : s.select.registers = s.registers := rfl

@[simp] theorem select_wire (s : Slave) : s.select.wire = s.wire := rfl

def deselect (s : Slave) : Slave := { s with phase := .released }

@[simp] theorem deselect_registers (s : Slave) : s.deselect.registers = s.registers := rfl

@[simp] theorem deselect_wire (s : Slave) : s.deselect.wire = s.wire := rfl

def advance (s : Slave) (phase : Phase) (bytes : List WireByte) : Slave :=
  { s with phase := phase, wire := s.wire ++ bytes }

@[simp] theorem advance_registers (s : Slave) (phase : Phase) (bytes : List WireByte) :
    (s.advance phase bytes).registers = s.registers := rfl

@[simp] theorem advance_waits (s : Slave) (phase : Phase) (bytes : List WireByte) :
    (s.advance phase bytes).waits = s.waits := rfl

@[simp] theorem advance_phase (s : Slave) (phase : Phase) (bytes : List WireByte) :
    (s.advance phase bytes).phase = phase := rfl

@[simp] theorem advance_wire (s : Slave) (phase : Phase) (bytes : List WireByte) :
    (s.advance phase bytes).wire = s.wire ++ bytes := rfl

theorem advance_advance (s : Slave) (phase phase' : Phase) (bytes bytes' : List WireByte) :
    (s.advance phase bytes).advance phase' bytes' = s.advance phase' (bytes ++ bytes') := by
  rw [advance, advance_wire, List.append_assoc]
  rfl

def part (s : Slave) : Part :=
  match s.phase with
  | .header _ => .header
  | .waiting _ _ => .wait
  | .data _ _ => .data
  | .released | .finished => .stray

def store (s : Slave) (registers : Registers) : Slave := { s with registers := registers }

@[simp] theorem store_registers (s : Slave) (registers : Registers) : (s.store registers).registers = registers := rfl

@[simp] theorem store_phase (s : Slave) (registers : Registers) : (s.store registers).phase = s.phase := rfl

@[simp] theorem store_wire (s : Slave) (registers : Registers) : (s.store registers).wire = s.wire := rfl

theorem advance_store (s : Slave) (phase phase' : Phase) (bytes bytes' : List WireByte)
    (registers registers' : Registers) :
    (((s.advance phase bytes).store registers).advance phase' bytes').store registers' =
      (s.advance phase' (bytes ++ bytes')).store registers' := by
  rw [← advance_advance s phase]
  rfl

def miso (s : Slave) : UInt8 :=
  let noise := s.noise s.wire.length
  match s.phase with
  | .header received => if received.length = 3 then flowByte s.waits noise else noise
  | .waiting _ left => flowByte left noise
  | .data ⟨.read, _, address⟩ moved => s.registers address moved
  | .data ⟨.write, _, _⟩ _ | .released | .finished => noise

def next (s : Slave) (mosi : UInt8) : Phase :=
  match s.phase with
  | .header received =>
      match decode (received ++ [mosi]) with
      | some request => flowPhase request s.waits
      | none => .header (received ++ [mosi])
  | .waiting request left => flowPhase request left
  | .data request moved => dataPhase request (moved + 1)
  | .released => .released
  | .finished => .finished

def stored (s : Slave) (mosi : UInt8) : Registers :=
  match s.phase with
  | .data ⟨.write, _, address⟩ moved =>
      Function.update s.registers address (Function.update (s.registers address) moved mosi)
  | _ => s.registers

end Slave

def exchange (mosi : UInt8) : StateM Slave UInt8 := fun s =>
  (s.miso, { s with
    registers := s.stored mosi
    phase := s.next mosi
    wire := s.wire ++ [⟨s.part, mosi, s.miso⟩] })

def exchangeAll : List UInt8 → StateM Slave (List UInt8)
  | [] => return []
  | b :: bytes => do
      let r ← exchange b
      let rs ← exchangeAll bytes
      return r :: rs

def overwrite (data : List UInt8) (r : Nat → UInt8) : Nat → UInt8 := fun i => data.getD i (r i)

def Request.after (request : Request) (data : List UInt8) (registers : Registers) : Registers :=
  match request.access with
  | .read => registers
  | .write => Function.update registers request.address (overwrite data (registers request.address))

section Bits

theorem or_and (a b c : UInt8) : (a ||| b) &&& c = a &&& c ||| b &&& c :=
  UInt8.toBitVec_inj.1 BitVec.and_or_distrib_right

theorem low_six {n : UInt8} (h : n < encodeLimit) : n &&& 0x3F = n := by
  have hlt : n.toNat < 2 ^ 6 := h
  have hmask : (0x3F : UInt8).toNat = 2 ^ 6 - 1 := rfl
  apply UInt8.toNat_inj.1
  rw [UInt8.toNat_and, hmask, Nat.and_two_pow_sub_one_eq_mod, Nat.mod_eq_of_lt hlt]

theorem bit_seven {n : UInt8} (h : n < encodeLimit) : n &&& 0x80 = 0 := by
  rw [← low_six h, UInt8.and_assoc]
  exact UInt8.and_zero

theorem flowByte_over (noise : UInt8) : flowByte 0 noise &&& 1 ≠ 0 := by
  have hone : flowByte 0 noise &&& 1 = noise &&& 1 ||| 1 := or_and noise 1 1
  rw [hone, Ne, UInt8.or_eq_zero_iff]
  exact fun h => absurd h.2 (by decide)

theorem flowByte_wait (left : Nat) (noise : UInt8) : flowByte (left + 1) noise &&& 1 = 0 := by
  rw [flowByte, if_neg (Nat.succ_ne_zero left), UInt8.and_assoc]
  exact UInt8.and_zero

end Bits

section Decode

theorem decode_head (access : TpmAccess) {n : UInt8} (h : n < encodeLimit) :
    let b := (if access = .write then 0x00 else 0x80) ||| n
    (if b &&& 0x80 = 0 then TpmAccess.write else .read) = access ∧ b &&& 0x3F = n := by
  cases access with
  | write =>
      rw [if_pos rfl, UInt8.zero_or]
      exact ⟨if_pos (bit_seven h), low_six h⟩
  | read =>
      have hread : (0x80 ||| n) &&& 0x80 = 0x80 := by
        rw [or_and, bit_seven h]
        rfl
      rw [if_neg (by decide)]
      dsimp only
      rw [hread, or_and, low_six h]
      exact ⟨if_neg (by decide), UInt8.zero_or⟩

theorem decode_spiHeader (reg : UInt16) (access : TpmAccess) {len : UInt8} (hpos : 1 ≤ len) (hle : len ≤ encodeLimit) :
    decode (spiHeader reg access len) = some ⟨access, len.toNat, 0xD40000 + reg.toNat⟩ := by
  have hpred : (len - 1).toNat = len.toNat - 1 := UInt8.toNat_sub_of_le len 1 hpos
  have h1 : 1 ≤ len.toNat := hpos
  have h64 : len.toNat ≤ 64 := hle
  have hlt : len - 1 < encodeLimit := by
    have hlimit : encodeLimit.toNat = 64 := rfl
    rw [UInt8.lt_iff_toNat_lt, hpred, hlimit]
    omega
  have hhead : (spiHeader reg access len).head? = some ((if access = .write then 0x00 else 0x80) ||| (len - 1)) := rfl
  obtain ⟨haccess, hlen⟩ := decode_head access hlt
  rw [decode, hhead, headerAddress_spiHeader]
  dsimp only
  rw [haccess, hlen, hpred, Nat.sub_add_cancel h1]

end Decode

section Segments

variable {s : Slave} {request : Request}

theorem exchange_received {received : List UInt8} (hp : s.phase = .header received) (hr : received.length < 3)
    (mosi : UInt8) : ∃ noise,
      exchange mosi s = (noise, s.advance (.header (received ++ [mosi])) [⟨.header, mosi, noise⟩]) := by
  have hnone : decode (received ++ [mosi]) = none := by
    rcases received with _ | ⟨a, _ | ⟨b, _ | ⟨c, received⟩⟩⟩
    · rfl
    · rfl
    · rfl
    · exact absurd hr (by simp)
  have hmiso : s.miso = s.noise s.wire.length := by
    simp only [Slave.miso, hp, if_neg (Nat.ne_of_lt hr)]
  refine ⟨s.noise s.wire.length, ?_⟩
  simp only [exchange, hmiso, Slave.next, Slave.stored, Slave.part, hp, hnone]
  rfl

theorem exchange_last {received : List UInt8} (hp : s.phase = .header received) (hr : received.length = 3)
    {mosi : UInt8} (hd : decode (received ++ [mosi]) = some request) : ∃ noise, exchange mosi s =
      (flowByte s.waits noise,
        s.advance (flowPhase request s.waits) [⟨.header, mosi, flowByte s.waits noise⟩]) := by
  have hmiso : s.miso = flowByte s.waits (s.noise s.wire.length) := by
    simp only [Slave.miso, hp, if_pos hr]
  refine ⟨s.noise s.wire.length, ?_⟩
  simp only [exchange, hmiso, Slave.next, Slave.stored, Slave.part, hp, hd]
  rfl

theorem exchange_header (hp : s.phase = .header []) {a b c d : UInt8} (hd : decode [a, b, c, d] = some request) :
    ∃ x y z noise, exchangeAll [a, b, c, d] s = ([x, y, z, flowByte s.waits noise],
      s.advance (flowPhase request s.waits) [⟨.header, a, x⟩, ⟨.header, b, y⟩, ⟨.header, c, z⟩,
        ⟨.header, d, flowByte s.waits noise⟩]) := by
  obtain ⟨x, ha⟩ := exchange_received hp (by simp) a
  generalize hsa : s.advance (.header ([] ++ [a])) [⟨.header, a, x⟩] = sa at ha
  have hpa : sa.phase = .header [a] := by simp [← hsa]
  obtain ⟨y, hb⟩ := exchange_received hpa (by simp) b
  generalize hsb : sa.advance (.header ([a] ++ [b])) [⟨.header, b, y⟩] = sb at hb
  have hpb : sb.phase = .header [a, b] := by simp [← hsb]
  obtain ⟨z, hc⟩ := exchange_received hpb (by simp) c
  generalize hsc : sb.advance (.header ([a, b] ++ [c])) [⟨.header, c, z⟩] = sc at hc
  have hpc : sc.phase = .header [a, b, c] := by simp [← hsc]
  obtain ⟨noise, hlast⟩ := exchange_last hpc rfl hd
  refine ⟨x, y, z, noise, ?_⟩
  have hwaits : sc.waits = s.waits := by simp [← hsc, ← hsb, ← hsa]
  rw [hwaits] at hlast
  simp only [exchangeAll, state_bind, state_pure, ha, hb, hc, hlast]
  rw [← hsc, ← hsb, ← hsa]
  simp only [Slave.advance_advance, List.cons_append, List.nil_append]

theorem exchange_wait {left : Nat} (hp : s.phase = .waiting request left) (mosi : UInt8) : ∃ noise,
    exchange mosi s = (flowByte left noise,
      s.advance (flowPhase request left) [⟨.wait, mosi, flowByte left noise⟩]) :=
  ⟨s.noise s.wire.length, by simp only [exchange, Slave.miso, Slave.next, Slave.stored, Slave.part, hp]; rfl⟩

theorem exchange_data {moved : Nat} (hp : s.phase = .data request moved) (mosi : UInt8) : ∃ miso,
    exchange mosi s = (miso,
      (s.advance (dataPhase request (moved + 1)) [⟨.data, mosi, miso⟩]).store (s.stored mosi)) ∧
    (request.access = .read → miso = s.registers request.address moved) := by
  refine ⟨s.miso, ?_, ?_⟩
  · simp only [exchange, Slave.next, Slave.part, hp]
    rfl
  · obtain ⟨access, len, address⟩ := request
    rintro rfl
    simp only [Slave.miso, hp]

theorem overwrite_snoc (data : List UInt8) (b : UInt8) (r : Nat → UInt8) :
    overwrite (data ++ [b]) r = Function.update (overwrite data r) data.length b := by
  funext i
  rw [overwrite, Function.update_apply]
  rcases Nat.lt_trichotomy i data.length with hlt | rfl | hgt
  · rw [List.getD_append _ _ _ _ hlt, if_neg (Nat.ne_of_lt hlt)]
    rfl
  · rw [List.getD_append_right _ _ _ _ (Nat.le_refl _), Nat.sub_self, if_pos rfl]
    rfl
  · have hend : (data ++ [b]).length ≤ i := by rw [List.length_append]; exact hgt
    rw [List.getD_eq_default _ _ hend, if_neg (Nat.ne_of_gt hgt), overwrite,
      List.getD_eq_default _ _ (Nat.le_of_lt hgt)]

theorem stored_after {data : List UInt8} (hp : s.phase = .data request data.length) {registers : Registers}
    (hr : s.registers = request.after data registers) (mosi : UInt8) :
    s.stored mosi = request.after (data ++ [mosi]) registers := by
  obtain ⟨access, len, address⟩ := request
  cases access with
  | read =>
      simp only [Slave.stored, hp]
      exact hr
  | write =>
      simp only [Slave.stored, hp, hr, Request.after, overwrite_snoc, Function.update_idem, Function.update_self]

theorem exchangeAll_append (out out' : List UInt8) (s : Slave) :
    exchangeAll (out ++ out') s = ((exchangeAll out s).1 ++ (exchangeAll out' (exchangeAll out s).2).1,
      (exchangeAll out' (exchangeAll out s).2).2) := by
  induction out generalizing s with
  | nil => rfl
  | cons b out ih =>
      simp only [List.cons_append, exchangeAll, state_bind, state_pure, ih]

theorem after_nil (request : Request) (registers : Registers) : request.after [] registers = registers := by
  obtain ⟨access, len, address⟩ := request
  cases access with
  | read => rfl
  | write => exact Function.update_eq_self address registers

/-- The slave moves the bytes of the one register, in order. -/
theorem exchangeAll_data (hp : s.phase = .data request 0) (hpos : 0 < request.len) (out : List UInt8)
    (hle : out.length ≤ request.len) : ∃ bytes : List WireByte,
      exchangeAll out s = (bytes.map (·.miso),
        (s.advance (dataPhase request out.length) bytes).store (request.after out s.registers)) ∧
      (∀ b ∈ bytes, b.part = .data) ∧ bytes.map (·.mosi) = out ∧
      (request.access = .read → bytes.map (·.miso) = (List.range out.length).map (s.registers request.address)) := by
  induction out using List.reverseRecOn with
  | nil =>
      refine ⟨[], ?_, fun b hb => absurd hb List.not_mem_nil, rfl, fun _ => rfl⟩
      have hphase : dataPhase request 0 = s.phase := (if_pos hpos).trans hp.symm
      rw [List.length_nil, hphase, after_nil, Slave.advance, List.append_nil]
      rfl
  | append_singleton out b ih =>
      rw [List.length_append, List.length_singleton] at hle
      obtain ⟨bytes, hrun, hpart, hmosi, hmiso⟩ := ih (Nat.le_of_succ_le hle)
      generalize hs' : (s.advance (dataPhase request out.length) bytes).store (request.after out s.registers) = s' at hrun
      have hp' : s'.phase = .data request out.length := by
        rw [← hs', Slave.store_phase, Slave.advance_phase]
        exact if_pos hle
      have hr' : s'.registers = request.after out s.registers := by simp [← hs']
      obtain ⟨miso, hx, hread⟩ := exchange_data hp' b
      refine ⟨bytes ++ [⟨.data, b, miso⟩], ?_, ?_, ?_, ?_⟩
      · have hlast : exchangeAll [b] s' = ([miso], (s'.advance (dataPhase request (out.length + 1))
            [⟨.data, b, miso⟩]).store (s'.stored b)) := by
          simp only [exchangeAll, state_bind, state_pure, hx]
        rw [exchangeAll_append, hrun, hlast, stored_after hp' hr', ← hs', Slave.advance_store, List.map_append,
          List.length_append, List.length_singleton]
        rfl
      · exact List.forall_mem_append.mpr ⟨hpart, List.forall_mem_singleton.mpr rfl⟩
      · rw [List.map_append, hmosi]
        rfl
      · intro h
        have hafter : request.after out s.registers = s.registers := by simp only [Request.after, h]
        rw [List.map_append, hmiso h, List.length_append, List.length_singleton, List.range_succ, List.map_append,
          List.map_singleton, List.map_singleton, hread h, hr', hafter]

end Segments

end LibTpm.SpiSlave
