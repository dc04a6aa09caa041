import LibTpm.SpiSlave
import Mathlib.Data.List.TakeDrop

namespace LibTpm.SpiAccess

open LibTpm.Base.Process LibTpm.Constants LibTpm.Platform LibTpm.Spi LibTpm.SpiSlave

variable {W : Type}

/-- A transport that does not fail, wired to a slave in its world. Where the
library gives no bytes to send, it sends any. -/
structure Wired (ops : SpiOps W) (slave : W → Slave) : Prop where
  getAccess (w : W) : (ops.getAccess w).1 = 0 ∧ slave (ops.getAccess w).2 = slave w
  releaseAccess (w : W) : slave (ops.releaseAccess w).2 = slave w
  start (w : W) : slave (ops.start w).2 = (slave w).select
  stop (w : W) : slave (ops.stop w).2 = (slave w).deselect
  xfer (len : Nat) (out : Option (List UInt8)) (w : W) : ∃ mosi : List UInt8, mosi.length = len ∧
    (∀ bytes ∈ out, bytes.length = len → mosi = bytes) ∧ (ops.xfer len out w).1.1 = 0 ∧
    (ops.xfer len out w).1.2.toList = (exchangeAll mosi (slave w)).1 ∧
    slave (ops.xfer len out w).2 = (exchangeAll mosi (slave w)).2

section Wire

structure Asks (request : Request) (header : List WireByte) : Prop where
  length : header.length = 4
  part : ∀ b ∈ header, b.part = .header
  decode : decode (header.map (·.mosi)) = some request

structure Polls (n : Nat) (polls : List WireByte) : Prop where
  length : polls.length = n
  part : ∀ b ∈ polls, b.part = .wait

def flow (header polls : List WireByte) : List WireByte := header.drop 3 ++ polls

def Waits (bytes : List WireByte) : Prop := ∀ b ∈ bytes, b.miso &&& 1 = 0

def Over (bytes : List WireByte) : Prop :=
  ∃ waits last, bytes = waits ++ [last] ∧ Waits waits ∧ last.miso &&& 1 ≠ 0

def carried (access : TpmAccess) (b : WireByte) : UInt8 :=
  match access with
  | .read => b.miso
  | .write => b.mosi

/-- The header, the wait states, and directly after them the bytes that it
announces, which are those of the one register. -/
def Transfers (request : Request) (data : List UInt8) (s s' : Slave) : Prop :=
  ∃ header polls bytes, s'.wire = s.wire ++ (header ++ polls ++ bytes) ∧
    Asks request header ∧ Polls s.waits polls ∧ Over (flow header polls) ∧
    bytes.length = request.len ∧ (∀ b ∈ bytes, b.part = .data) ∧ bytes.map (carried request.access) = data ∧
    (request.access = .read → data = (List.range request.len).map (s.registers request.address)) ∧
    s'.registers = request.after data s.registers

def Refuses (request : Request) (s s' : Slave) : Prop :=
  ∃ header polls, s'.wire = s.wire ++ (header ++ polls) ∧
    Asks request header ∧ Polls 50 polls ∧ Waits (flow header polls) ∧ s'.registers = s.registers

def Outcome (request : Request) (rc : Int) (data : List UInt8) (s s' : Slave) : Prop :=
  (s.waits ≤ 50 → rc = tpmSuccess ∧ Transfers request data s s') ∧
  (50 < s.waits → rc = tpmErrTimeout ∧ Refuses request s s')

theorem Over.cons {b : WireByte} {bytes : List WireByte} (hb : b.miso &&& 1 = 0) (h : Over bytes) :
    Over (b :: bytes) := by
  obtain ⟨waits, last, rfl, hw, hl⟩ := h
  exact ⟨b :: waits, last, rfl, List.forall_mem_cons.mpr ⟨hb, hw⟩, hl⟩

theorem over_singleton {b : WireByte} (hb : b.miso &&& 1 ≠ 0) : Over [b] :=
  ⟨[], b, rfl, fun _ h => absurd h List.not_mem_nil, hb⟩

theorem Polls.nil : Polls 0 [] := ⟨rfl, fun _ h => absurd h List.not_mem_nil⟩

theorem Polls.cons {n : Nat} {b : WireByte} {polls : List WireByte} (hb : b.part = .wait) (h : Polls n polls) :
    Polls (n + 1) (b :: polls) :=
  ⟨congrArg Nat.succ h.length, List.forall_mem_cons.mpr ⟨hb, h.part⟩⟩

theorem asks_of_decode {request : Request} {a b c d : UInt8} (x y z w : UInt8)
    (hd : decode [a, b, c, d] = some request) :
    Asks request [⟨.header, a, x⟩, ⟨.header, b, y⟩, ⟨.header, c, z⟩, ⟨.header, d, w⟩] where
  length := rfl
  part := by simp only [List.forall_mem_cons, List.not_mem_nil, false_imp_iff, implies_true, and_self]
  decode := hd

end Wire

section Master

structure Leads (slave : W → Slave) (g g' : Globals W) (s : Slave) : Prop where
  spidev : g'.tpmSpidev = g.tpmSpidev
  slave : slave g'.world = s

variable {slave : W → Slave} {g : Globals W} {request : Request}

theorem Leads.wired {g' : Globals W} {s : Slave} (h : Leads slave g g' s) (hw : Wired g.tpmSpidev slave) :
    Wired g'.tpmSpidev slave := h.spidev ▸ hw

theorem Leads.advance {g' g'' : Globals W} {s : Slave} {phase phase' : Phase} {bytes bytes' : List WireByte}
    (h : Leads slave g g' (s.advance phase bytes))
    (h' : Leads slave g' g'' ((slave g'.world).advance phase' bytes')) :
    Leads slave g g'' (s.advance phase' (bytes ++ bytes')) := by
  refine ⟨h'.spidev.trans h.spidev, ?_⟩
  rw [h'.slave, h.slave, Slave.advance_advance]

theorem transfer_wired (h : Wired g.tpmSpidev slave) (out : Option (List UInt8)) (len : UInt8) :
    ∃ mosi resp g', tpm2SpiTransfer out len g = ((0, resp), g') ∧ mosi.length = len.toNat ∧
      (∀ bytes ∈ out, bytes.length = len.toNat → mosi = bytes) ∧
      resp.toList = (exchangeAll mosi (slave g.world)).1 ∧
      Leads slave g g' (exchangeAll mosi (slave g.world)).2 := by
  obtain ⟨mosi, hlen, hout, hrc, hresp, hslave⟩ := h.xfer len.toNat out g.world
  refine ⟨mosi, (g.tpmSpidev.xfer len.toNat out g.world).1.2,
    { g with world := (g.tpmSpidev.xfer len.toNat out g.world).2 }, ?_, hlen, hout, hresp, rfl, hslave⟩
  have hzero : ¬ (platform (fun g => g.tpmSpidev.xfer len.toNat out) g).1.1 ≠ 0 := not_not.mpr hrc
  simp only [tpm2SpiTransfer, state_bind]
  rw [if_neg hzero]
  exact Prod.ext (Prod.ext hrc rfl) rfl

theorem getElem_of_toList {n : Nat} {v : Vector UInt8 n} {l : List UInt8} {i : Nat} {b : UInt8} (h : v.toList = l)
    (hb : l[i]? = some b) (hi : i < n) : v[i] = b := by
  rw [← h, Vector.getElem?_toList, Vector.getElem?_eq_getElem hi] at hb
  exact Option.some.inj hb

theorem poll_wired (h : Wired g.tpmSpidev slave) {left : Nat} (hp : (slave g.world).phase = .waiting request left) :
    ∃ resp g' b, tpm2SpiTransfer (some [0]) 1 g = ((0, resp), g') ∧ resp[0] = b.miso ∧ b.part = .wait ∧
      (∃ noise, b.miso = flowByte left noise) ∧
      Leads slave g g' ((slave g.world).advance (flowPhase request left) [b]) := by
  obtain ⟨mosi, resp, g', hrun, -, hout, hresp, hl⟩ := transfer_wired h (some [0]) 1
  obtain rfl : mosi = [0] := hout [0] rfl rfl
  obtain ⟨noise, hx⟩ := exchange_wait hp 0
  simp only [exchangeAll, state_bind, state_pure, hx] at hresp hl
  exact ⟨resp, g', ⟨.wait, 0, flowByte left noise⟩, hrun, getElem_of_toList hresp rfl _, rfl, ⟨noise, rfl⟩, hl⟩

theorem waitStates_ready (h : Wired g.tpmSpidev slave) (hp : (slave g.world).phase = .waiting request 0)
    (retries : Nat) : ∃ b g', waitStates (retries + 1) g = (tpmSuccess, g') ∧ b.part = .wait ∧ b.miso &&& 1 ≠ 0 ∧
      Leads slave g g' ((slave g.world).advance (.data request 0) [b]) := by
  obtain ⟨resp, g', b, hrun, hresp, hpart, ⟨noise, hmiso⟩, hl⟩ := poll_wired h hp
  have hover : b.miso &&& 1 ≠ 0 := by rw [hmiso]; exact flowByte_over noise
  refine ⟨b, g', ?_, hpart, hover, hl⟩
  rw [← hresp] at hover
  simp only [waitStates, state_bind, hrun]
  rw [if_neg (by decide), if_pos hover]
  rfl

theorem waitStates_busy (h : Wired g.tpmSpidev slave) {left : Nat}
    (hp : (slave g.world).phase = .waiting request (left + 1)) (retries : Nat) : ∃ b g',
      waitStates (retries + 1) g = waitStates retries g' ∧ b.part = .wait ∧ b.miso &&& 1 = 0 ∧
      Leads slave g g' ((slave g.world).advance (.waiting request left) [b]) := by
  obtain ⟨resp, g', b, hrun, hresp, hpart, ⟨noise, hmiso⟩, hl⟩ := poll_wired h hp
  have hwait : b.miso &&& 1 = 0 := by rw [hmiso]; exact flowByte_wait left noise
  refine ⟨b, g', ?_, hpart, hwait, hl⟩
  rw [← hresp] at hwait
  simp only [waitStates, state_bind, hrun]
  rw [if_neg (by decide), if_neg (not_not.mpr hwait)]

theorem waitStates_over (h : Wired g.tpmSpidev slave) {left retries : Nat} (hlt : left < retries)
    (hp : (slave g.world).phase = .waiting request left) : ∃ polls g', waitStates retries g = (tpmSuccess, g') ∧
      Leads slave g g' ((slave g.world).advance (.data request 0) polls) ∧ Polls (left + 1) polls ∧ Over polls := by
  obtain ⟨retries, rfl⟩ := Nat.exists_eq_succ_of_ne_zero (Nat.ne_zero_of_lt hlt)
  induction left generalizing retries g with
  | zero =>
      obtain ⟨b, g', hrun, hpart, hover, hl⟩ := waitStates_ready h hp retries
      exact ⟨[b], g', hrun, hl, Polls.nil.cons hpart, over_singleton hover⟩
  | succ left ih =>
      have hlt := Nat.lt_of_succ_lt_succ hlt
      obtain ⟨b, g', hrun, hpart, hwait, hl⟩ := waitStates_busy h hp retries
      have hp' : (slave g'.world).phase = .waiting request left := by simp [hl.slave]
      obtain ⟨retries, rfl⟩ := Nat.exists_eq_succ_of_ne_zero (Nat.ne_zero_of_lt hlt)
      obtain ⟨polls, g'', hrest, hl', hpolls, hover⟩ := ih (hl.wired h) hp' retries hlt
      exact ⟨b :: polls, g'', hrun.trans hrest, hl.advance hl', hpolls.cons hpart, hover.cons hwait⟩

theorem waitStates_timeout (h : Wired g.tpmSpidev slave) {left retries : Nat} (hle : retries ≤ left)
    (hp : (slave g.world).phase = .waiting request left) : ∃ polls phase g',
      waitStates retries g = (tpmErrTimeout, g') ∧
      Leads slave g g' ((slave g.world).advance phase polls) ∧ Polls retries polls ∧ Waits polls := by
  induction retries generalizing left g with
  | zero =>
      refine ⟨[], .waiting request left, g, rfl, ⟨rfl, ?_⟩, .nil, fun _ hb => absurd hb List.not_mem_nil⟩
      rw [← hp, Slave.advance, List.append_nil]
  | succ retries ih =>
      obtain ⟨left, rfl⟩ := Nat.exists_eq_succ_of_ne_zero (Nat.ne_zero_of_lt hle)
      obtain ⟨b, g', hrun, hpart, hwait, hl⟩ := waitStates_busy h hp retries
      have hp' : (slave g'.world).phase = .waiting request left := by simp [hl.slave]
      obtain ⟨polls, phase, g'', hrest, hl', hpolls, hwaits⟩ := ih (hl.wired h) (Nat.le_of_succ_le_succ hle) hp'
      exact ⟨b :: polls, phase, g'', hrun.trans hrest, hl.advance hl', hpolls.cons hpart,
        List.forall_mem_cons.mpr ⟨hwait, hwaits⟩⟩

theorem header_wired (h : Wired g.tpmSpidev slave) (hp : (slave g.world).phase = .header []) {reg : UInt16}
    {access : TpmAccess} {len : UInt8} (hd : decode (spiHeader reg access len) = some request) :
    ∃ resp g' header last, tpm2SpiTransfer (some (spiHeader reg access len)) 4 g = ((0, resp), g') ∧
      header.drop 3 = [last] ∧ resp[3] = last.miso ∧ (∃ noise, last.miso = flowByte (slave g.world).waits noise) ∧
      Asks request header ∧
      Leads slave g g' ((slave g.world).advance (flowPhase request (slave g.world).waits) header) := by
  obtain ⟨mosi, resp, g', hrun, -, hout, hresp, hl⟩ := transfer_wired h (some (spiHeader reg access len)) 4
  obtain rfl : mosi = spiHeader reg access len := hout _ rfl rfl
  obtain ⟨x, y, z, noise, hx⟩ := exchange_header hp hd
  rw [spiHeader, hx] at hresp hl
  exact ⟨resp, g', _, _, hrun, rfl, getElem_of_toList hresp rfl _, ⟨noise, rfl⟩, asks_of_decode x y z _ hd, hl⟩

variable {reg : UInt16} {access : TpmAccess} {len : UInt8}

theorem startTransaction_ready (h : Wired g.tpmSpidev slave) (hp : (slave g.world).phase = .header [])
    (hle : len ≤ encodeLimit) (hd : decode (spiHeader reg access len) = some request)
    (hw : (slave g.world).waits = 0) : ∃ header last g',
      tpm2SpiStartTransaction reg access len g = (tpmSuccess, g') ∧ header.drop 3 = [last] ∧ last.miso &&& 1 ≠ 0 ∧
      Asks request header ∧ Leads slave g g' ((slave g.world).advance (.data request 0) header) := by
  obtain ⟨resp, g', header, last, hrun, hlast, hresp, ⟨noise, hmiso⟩, hasks, hl⟩ := header_wired h hp hd
  rw [hw] at hmiso hl
  have hover : last.miso &&& 1 ≠ 0 := by rw [hmiso]; exact flowByte_over noise
  refine ⟨header, last, g', ?_, hlast, hover, hasks, hl⟩
  rw [← hresp] at hover
  simp only [tpm2SpiStartTransaction, if_neg (UInt8.not_lt.mpr hle), state_bind, hrun]
  rw [if_neg (by decide), if_pos hover]
  rfl

theorem startTransaction_busy (h : Wired g.tpmSpidev slave) (hp : (slave g.world).phase = .header [])
    (hle : len ≤ encodeLimit) (hd : decode (spiHeader reg access len) = some request) {left : Nat}
    (hw : (slave g.world).waits = left + 1) : ∃ header last g',
      tpm2SpiStartTransaction reg access len g = waitStates retryCount g' ∧ header.drop 3 = [last] ∧
      last.miso &&& 1 = 0 ∧ Asks request header ∧
      Leads slave g g' ((slave g.world).advance (.waiting request left) header) := by
  obtain ⟨resp, g', header, last, hrun, hlast, hresp, ⟨noise, hmiso⟩, hasks, hl⟩ := header_wired h hp hd
  rw [hw] at hmiso hl
  have hwait : last.miso &&& 1 = 0 := by rw [hmiso]; exact flowByte_wait left noise
  refine ⟨header, last, g', ?_, hlast, hwait, hasks, hl⟩
  rw [← hresp] at hwait
  simp only [tpm2SpiStartTransaction, if_neg (UInt8.not_lt.mpr hle), state_bind, hrun]
  rw [if_neg (by decide), if_neg (not_not.mpr hwait)]

theorem startTransaction_over (h : Wired g.tpmSpidev slave) (hp : (slave g.world).phase = .header [])
    (hle : len ≤ encodeLimit) (hd : decode (spiHeader reg access len) = some request)
    (hw : (slave g.world).waits ≤ 50) : ∃ header polls g',
      tpm2SpiStartTransaction reg access len g = (tpmSuccess, g') ∧
      Leads slave g g' ((slave g.world).advance (.data request 0) (header ++ polls)) ∧ Asks request header ∧
      Polls (slave g.world).waits polls ∧ Over (flow header polls) := by
  rcases hwaits : (slave g.world).waits with _ | left
  · obtain ⟨header, last, g', hrun, hlast, hover, hasks, hl⟩ := startTransaction_ready h hp hle hd hwaits
    refine ⟨header, [], g', hrun, by simpa using hl, hasks, .nil, ?_⟩
    rw [flow, hlast]
    exact over_singleton hover
  · rw [hwaits] at hw
    obtain ⟨header, last, g', hrun, hlast, hwait, hasks, hl⟩ := startTransaction_busy h hp hle hd hwaits
    have hp' : (slave g'.world).phase = .waiting request left := by simp [hl.slave]
    obtain ⟨polls, g'', hrest, hl', hpolls, hover⟩ := waitStates_over (hl.wired h) hw hp'
    refine ⟨header, polls, g'', hrun.trans hrest, hl.advance hl', hasks, hpolls, ?_⟩
    rw [flow, hlast]
    exact hover.cons hwait

theorem startTransaction_timeout (h : Wired g.tpmSpidev slave) (hp : (slave g.world).phase = .header [])
    (hle : len ≤ encodeLimit) (hd : decode (spiHeader reg access len) = some request)
    (hw : 50 < (slave g.world).waits) : ∃ header polls phase g',
      tpm2SpiStartTransaction reg access len g = (tpmErrTimeout, g') ∧
      Leads slave g g' ((slave g.world).advance phase (header ++ polls)) ∧ Asks request header ∧
      Polls 50 polls ∧ Waits (flow header polls) := by
  obtain ⟨left, hwaits⟩ := Nat.exists_eq_succ_of_ne_zero (Nat.ne_zero_of_lt hw)
  rw [hwaits] at hw
  obtain ⟨header, last, g', hrun, hlast, hwait, hasks, hl⟩ := startTransaction_busy h hp hle hd hwaits
  have hp' : (slave g'.world).phase = .waiting request left := by simp [hl.slave]
  obtain ⟨polls, phase, g'', hrest, hl', hpolls, hwaits⟩ :=
    waitStates_timeout (hl.wired h) (Nat.le_of_lt_succ hw) hp'
  refine ⟨header, polls, phase, g'', hrun.trans hrest, hl.advance hl', hasks, hpolls, ?_⟩
  rw [flow, hlast]
  exact List.forall_mem_cons.mpr ⟨hwait, hwaits⟩

theorem spiInit_wired (h : Wired g.tpmSpidev slave) : ∃ g', tpm2SpiInit g = (0, g') ∧
    Leads slave g g' (slave g.world).select := by
  obtain ⟨hrc, hslave⟩ := h.getAccess g.world
  have hzero : ¬ (platform (fun g => g.tpmSpidev.getAccess) g).1 ≠ 0 := not_not.mpr hrc
  refine ⟨{ g with world := (g.tpmSpidev.start (g.tpmSpidev.getAccess g.world).2).2 }, ?_, rfl, ?_⟩
  · simp only [tpm2SpiInit, state_bind]
    rw [if_neg hzero]
    rfl
  · rw [h.start, hslave]

theorem endTransaction_wired (h : Wired g.tpmSpidev slave) :
    Leads slave g (tpm2SpiEndTransaction g).2 (slave g.world).deselect := by
  refine ⟨rfl, ?_⟩
  simp only [tpm2SpiEndTransaction, state_bind, platform]
  rw [h.releaseAccess, h.stop]

theorem data_wired (h : Wired g.tpmSpidev slave) (hp : (slave g.world).phase = .data request 0)
    (hlen : request.len = len.toNat) (hpos : 0 < request.len) (out : Option (List UInt8)) :
    ∃ resp g' bytes phase, tpm2SpiTransfer out len g = ((0, resp), g') ∧ bytes.length = request.len ∧
      (∀ b ∈ bytes, b.part = .data) ∧ resp.toList = bytes.map (·.miso) ∧
      (∀ data ∈ out, data.length = request.len → bytes.map (·.mosi) = data) ∧
      (request.access = .read →
        bytes.map (·.miso) = (List.range request.len).map ((slave g.world).registers request.address)) ∧
      Leads slave g g' (((slave g.world).advance phase bytes).store
        (request.after (bytes.map (·.mosi)) (slave g.world).registers)) := by
  obtain ⟨mosi, resp, g', hrun, hmosi, hout, hresp, hl⟩ := transfer_wired h out len
  rw [← hlen] at hmosi hout
  obtain ⟨bytes, hx, hpart, hsent, hread⟩ := exchangeAll_data hp hpos mosi (Nat.le_of_eq hmosi)
  rw [hx] at hresp hl
  rw [hmosi] at hread
  rw [← hsent] at hl
  refine ⟨resp, g', bytes, _, hrun, ?_, hpart, hresp, ?_, hread, hl⟩
  · rw [← hmosi, ← hsent, List.length_map]
  · intro data hdata hlength
    rw [hsent]
    exact hout data hdata hlength

end Master

section Accesses

variable {slave : W → Slave} {g : Globals W}

def payload (access : TpmAccess) (val : Option (List UInt8)) (bytes : List UInt8) : List UInt8 :=
  match access with
  | .write => val.getD []
  | .read => bytes

theorem carried_payload {access : TpmAccess} {val : Option (List UInt8)} {bytes : List WireByte} {resp : List UInt8}
    (hresp : resp = bytes.map (·.miso)) (hsent : access = .write → bytes.map (·.mosi) = val.getD []) :
    bytes.map (carried access) = payload access val resp := by
  cases access with
  | read => exact hresp.symm
  | write => exact hsent rfl

theorem after_carried (request : Request) (bytes : List WireByte) (registers : Registers) :
    request.after (bytes.map (carried request.access)) registers = request.after (bytes.map (·.mosi)) registers := by
  obtain ⟨access, len, address⟩ := request
  cases access <;> rfl

theorem tpm2FifoIo_transfers (h : Wired g.tpmSpidev slave) (reg : UInt16) (access : TpmAccess) {len : UInt8}
    (hpos : 1 ≤ len) (hle : len ≤ encodeLimit) {val : Option (List UInt8)}
    (hval : access = .write → ∃ data, val = some data ∧ data.length = len.toNat) (hw : (slave g.world).waits ≤ 50) :
    ∃ resp g', tpm2FifoIo reg access len val g = ((tpmSuccess, resp), g') ∧
      Transfers ⟨access, len.toNat, 0xD40000 + reg.toNat⟩ (payload access val resp.toList) (slave g.world)
        (slave g'.world) := by
  have hd := decode_spiHeader reg access hpos hle
  obtain ⟨g₁, hinit, hl₁⟩ := spiInit_wired h
  have hp₁ : (slave g₁.world).phase = .header [] := by simp [hl₁.slave]
  have hw₁ : (slave g₁.world).waits ≤ 50 := by simpa [hl₁.slave] using hw
  have h₁ := hl₁.wired h
  obtain ⟨header, polls, g₂, hstart, hl₂, hasks, hpolls, hover⟩ := startTransaction_over h₁ hp₁ hle hd hw₁
  have hp₂ : (slave g₂.world).phase = .data ⟨access, len.toNat, 0xD40000 + reg.toNat⟩ 0 := by simp [hl₂.slave]
  have h₂ := hl₂.wired h₁
  obtain ⟨resp, g₃, bytes, phase, hdata, hlength, hpart, hresp, hsent, hread, hl₃⟩ :=
    data_wired h₂ hp₂ rfl hpos (if access = .write then val else none)
  have hend := endTransaction_wired (hl₃.wired h₂)
  have hregs : (slave g₂.world).registers = (slave g.world).registers := by
    simp [hl₂.slave, hl₁.slave]
  have hmoved : bytes.map (carried access) = payload access val resp.toList := by
    apply carried_payload hresp
    intro hwrite
    obtain ⟨data, rfl, hlen⟩ := hval hwrite
    exact hsent data (if_pos hwrite) hlen
  refine ⟨resp, (tpm2SpiEndTransaction g₃).2, ?_, header, polls, bytes, ?_, hasks, ?_, hover, hlength, hpart, hmoved,
    ?_, ?_⟩
  · simp only [tpm2FifoIo, state_bind, hinit]
    rw [if_neg (by decide)]
    simp only [state_bind, hstart]
    rw [if_neg (by decide)]
    simp only [state_bind, hdata]
    rw [if_neg (by decide)]
    rfl
  · simp [hend.slave, hl₃.slave, hl₂.slave, hl₁.slave]
  · rw [hl₁.slave] at hpolls
    exact hpolls
  · intro haccess
    obtain rfl : access = .read := haccess
    have hregister := hread rfl
    rw [hregs] at hregister
    rw [← hmoved]
    exact hregister
  · rw [hend.slave, hl₃.slave, ← hmoved, after_carried, ← hregs]
    simp

theorem tpm2FifoIo_refuses (h : Wired g.tpmSpidev slave) (reg : UInt16) (access : TpmAccess) {len : UInt8}
    (hpos : 1 ≤ len) (hle : len ≤ encodeLimit) (val : Option (List UInt8)) (hw : 50 < (slave g.world).waits) :
    ∃ resp g', tpm2FifoIo reg access len val g = ((tpmErrTimeout, resp), g') ∧
      Refuses ⟨access, len.toNat, 0xD40000 + reg.toNat⟩ (slave g.world) (slave g'.world) := by
  have hd := decode_spiHeader reg access hpos hle
  obtain ⟨g₁, hinit, hl₁⟩ := spiInit_wired h
  have hp₁ : (slave g₁.world).phase = .header [] := by simp [hl₁.slave]
  have hw₁ : 50 < (slave g₁.world).waits := by simpa [hl₁.slave] using hw
  have h₁ := hl₁.wired h
  obtain ⟨header, polls, phase, g₂, hstart, hl₂, hasks, hpolls, hwaits⟩ := startTransaction_timeout h₁ hp₁ hle hd hw₁
  have hend := endTransaction_wired (hl₂.wired h₁)
  refine ⟨Vector.replicate len.toNat 0, (tpm2SpiEndTransaction g₂).2, ?_, header, polls, ?_, hasks, hpolls, hwaits, ?_⟩
  · simp only [tpm2FifoIo, state_bind, hinit]
    rw [if_neg (by decide)]
    simp only [state_bind, hstart]
    rw [if_pos (by decide)]
    rfl
  · simp [hend.slave, hl₂.slave, hl₁.slave]
  · simp [hend.slave, hl₂.slave, hl₁.slave]

theorem tpm2FifoIo_outcome (h : Wired g.tpmSpidev slave) (reg : UInt16) (access : TpmAccess) {len : UInt8}
    (hpos : 1 ≤ len) (hle : len ≤ encodeLimit) {val : Option (List UInt8)}
    (hval : access = .write → ∃ data, val = some data ∧ data.length = len.toNat) :
    let r := tpm2FifoIo reg access len val g
    Outcome ⟨access, len.toNat, 0xD40000 + reg.toNat⟩ r.1.1 (payload access val r.1.2.toList) (slave g.world)
      (slave r.2.world) := by
  constructor
  · intro hw
    obtain ⟨resp, g', hrun, htransfers⟩ := tpm2FifoIo_transfers h reg access hpos hle hval hw
    rw [hrun]
    exact ⟨rfl, htransfers⟩
  · intro hw
    obtain ⟨resp, g', hrun, hrefuses⟩ := tpm2FifoIo_refuses h reg access hpos hle val hw
    rw [hrun]
    exact ⟨rfl, hrefuses⟩

theorem toList_one (v : Vector UInt8 1) : v.toList = [v[0]] := by
  obtain ⟨⟨l⟩, hl⟩ := v
  obtain ⟨b, rfl⟩ := List.length_eq_one_iff.mp hl
  rfl

theorem read_outcome (h : Wired g.tpmSpidev slave) (reg : UInt16) {len : UInt8} (hpos : 1 ≤ len)
    (hle : len ≤ encodeLimit) :
    let r := tpm2FifoIo reg .read len none g
    Outcome ⟨.read, len.toNat, 0xD40000 + reg.toNat⟩ r.1.1 r.1.2.toList (slave g.world) (slave r.2.world) :=
  tpm2FifoIo_outcome h reg .read hpos hle nofun

/-- Whatever the register, the wait states, the bytes and the registers'
contents, an access moves what its header announces, or gives up after 50 polls. -/
theorem register_accesses (h : Wired g.tpmSpidev slave) (reg : UInt16) :
    (∀ val : UInt8,
      let r := tpm2FifoWriteByte reg val g
      Outcome ⟨.write, 1, 0xD40000 + reg.toNat⟩ r.1 [val] (slave g.world) (slave r.2.world)) ∧
    (let r := tpm2FifoReadByte reg g
     Outcome ⟨.read, 1, 0xD40000 + reg.toNat⟩ r.1.1 [r.1.2] (slave g.world) (slave r.2.world)) ∧
    ∀ len : UInt8, len = 1 ∨ len = 2 ∨ len = 4 →
      let r := tpm2FifoReadChunk reg len g
      Outcome ⟨.read, len.toNat, 0xD40000 + reg.toNat⟩ r.1.1 r.1.2.toList (slave g.world) (slave r.2.world) := by
  refine ⟨fun val => ?_, ?_, fun len hlen => ?_⟩
  · exact tpm2FifoIo_outcome h reg .write (by decide) (by decide) fun _ => ⟨[val], rfl, rfl⟩
  · have hpos : (1 : UInt8) ≤ 1 := by decide
    have hbyte : (tpm2FifoIo reg .read 1 none g).1.2.toList = [(tpm2FifoReadByte reg g).1.2] := toList_one _
    dsimp only
    rw [← hbyte]
    exact read_outcome h reg hpos (by decide)
  · have hchunk : tpm2FifoReadChunk reg len g = tpm2FifoIo reg .read len none g := by
      rw [tpm2FifoReadChunk, if_neg (by tauto)]
    rw [hchunk]
    rcases hlen with rfl | rfl | rfl
    · exact read_outcome h reg (by decide) (by decide)
    · exact read_outcome h reg (by decide) (by decide)
    · exact read_outcome h reg (by decide) (by decide)

end Accesses

def slaveSpi : SpiOps Slave where
  getAccess := pure 0
  releaseAccess := pure ()
  start := fun s => ((), s.select)
  stop := fun s => ((), s.deselect)
  xfer len out := fun s =>
    let r := exchangeAll ((out.getD []).takeD len 0) s
    ((0, Vector.ofFn fun i => r.1.getD i 0), r.2)

theorem exchangeAll_length (out : List UInt8) (s : Slave) : (exchangeAll out s).1.length = out.length := by
  induction out generalizing s with
  | nil => rfl
  | cons b out ih => simp only [exchangeAll, state_bind, state_pure, List.length_cons, ih]

theorem toList_getD {n : Nat} {l : List UInt8} (h : l.length = n) :
    (Vector.ofFn fun i : Fin n => l.getD i 0).toList = l := by
  subst h
  apply List.ext_getElem
  · simp
  · intro i hi hi'
    simp

theorem slaveSpi_wired : Wired slaveSpi id where
  getAccess _ := ⟨rfl, rfl⟩
  releaseAccess _ := rfl
  start _ := rfl
  stop _ := rfl
  xfer len out s := by
    refine ⟨(out.getD []).takeD len 0, List.takeD_length _ _ _, ?_, rfl, ?_, rfl⟩
    · rintro bytes rfl rfl
      exact (List.takeD_eq_take _ (Nat.le_refl _)).trans List.take_length
    · exact toList_getD ((exchangeAll_length _ s).trans (List.takeD_length _ _ _))

def quietBus (waits : Nat) : Globals Slave :=
  ⟨slaveSpi, ⟨fun _ => pure 0, fun _ => pure false⟩, true, 0, ⟨fun _ _ => 0, waits, fun _ => 0, .released, []⟩⟩

theorem register_accesses_sts :
    (tpm2FifoReadChunk 0x18 4 (quietBus 50)).1.1 = tpmSuccess ∧
    (tpm2FifoReadChunk 0x18 4 (quietBus 51)).1.1 = tpmErrTimeout :=
  ⟨(((register_accesses (g := quietBus 50) slaveSpi_wired 0x18).2.2 4 (by decide)).1 (Nat.le_refl 50)).1,
    (((register_accesses (g := quietBus 51) slaveSpi_wired 0x18).2.2 4 (by decide)).2 (Nat.lt_succ_self 50)).1⟩

end LibTpm.SpiAccess
