import LibTpm.Commands
import LibTpm.DeviceSending
import LibTpm.ReceiveBounds

namespace LibTpm.DeviceExchanges

open LibTpm.Base.Process LibTpm.Base.Process.Proc LibTpm.Command LibTpm.Constants LibTpm.Endian
open LibTpm.Platform LibTpm.Fifo LibTpm.Builder LibTpm.Commands LibTpm.PtpDevice LibTpm.DeviceSending
open LibTpm.ReceiveRuns LibTpm.ReceiveBounds

variable {W : Type}

section Receive

variable {port : FifoPort W} {view : W → Device} {fuel : Nat} {chip : ChipData}
variable {past : List Event} {command response : List UInt8}

def Holds (response : List UInt8) (buf : TpmCmd) (k : Nat) : Prop :=
  ∀ i < k, i < maxSizeCmdbuf → ∀ b, response[i]? = some b → buf.byte i = b

theorem Holds.store {buf : TpmCmd} {k : Nat} {val : UInt8} (h : Holds response buf k)
    (hval : ∀ b, response[k]? = some b → val = b) : Holds response (buf.setByte k val) (k + 1) := by
  intro i hi hmax b hb
  by_cases hk : k < maxSizeCmdbuf
  · rw [TpmCmd.byte_setByte _ _ _ _ hk]
    by_cases hik : i = k
    · rw [if_pos hik]
      exact hval b (hik ▸ hb)
    · rw [if_neg hik]
      exact h i (by omega) hmax b hb
  · rw [TpmCmd.setByte_of_le _ _ _ (not_lt.mp hk)]
    exact h i (by omega) hmax b hb

theorem Holds.bytes {buf : TpmCmd} {k : Nat} (h : Holds response buf k) (hk : response.length ≤ k)
    (hmax : response.length ≤ maxSizeCmdbuf) : buf.bytes.take response.length = response := by
  apply List.ext_getElem
  · rw [List.length_take, buf.length_bytes, min_eq_left hmax]
  · intro i hi hi'
    rw [List.getElem_take, ← TpmCmd.byte_eq_getElem]
    exact h i (by omega) (by omega) _ (List.getElem?_eq_getElem hi')

theorem cmdSize_holds [Host] {buf : TpmCmd} (h : Holds response buf tpmHeaderSize)
    (hr : Headed response) : (be32toh buf.cmdSize).toNat = response.length := by
  obtain ⟨hend, hsize⟩ := hr
  have hget : ∀ i < sizeFieldEnd, buf.byte i = response.getD i 0 := by
    intro i hi
    rw [List.getD_eq_getElem _ _ (Nat.lt_of_lt_of_le hi hend)]
    have hsix : sizeFieldEnd = 6 := rfl
    have hten : tpmHeaderSize = 10 := rfl
    have hmax : maxSizeCmdbuf = 256 := rfl
    exact h i (by omega) (by omega) _ (List.getElem?_eq_getElem _)
  rw [TpmCmd.be32toh_cmdSize, hget 2 (by decide), hget 3 (by decide), hget 4 (by decide),
    hget 5 (by decide)]
  exact hsize

/-- The counters of a receive pass and its buffer after `y` reads, where the
passes before it have made `off`. -/
structure Collected (past : List Event) (command response : List UInt8) (off y : Nat) (st : ReadState)
    (d : Device) : Prop where
  index : st.loopIndex = y
  size : st.size = y + off
  responding : Responding past command response (off + y) d
  holds : Holds response st.buf (off + y)

theorem Collected.evolves {off y : Nat} {st : ReadState} {d d' : Device}
    (h : Collected past command response off y st d) (he : Evolves d d') :
    Collected past command response off y st d' :=
  ⟨h.index, h.size, h.responding.evolves he, h.holds⟩

theorem readByte_responding {base : UInt16} (hd : Conforms port base view) {w w' : W} {k : Nat}
    {dst : Dest} {err : Int} {val : UInt8} (h : Responding past command response k (view w))
    (hr : port.readByte (fifoReg base tpmFifoRegDataFifo) dst w = ((err, val), w')) :
    Outcome past command (Responding past command response (k + 1)) err (view w') ∧
      (0 ≤ err → ∀ b, response[k]? = some b → val = b) := by
  obtain ⟨d, hev, hlands⟩ := hd.readByte hr
  have hd' := h.evolves hev
  obtain ⟨hlands, hval⟩ := hlands _ hd'.phase
  rw [List.tail_drop] at hlands
  rw [List.head?_drop] at hval
  have hnext : Responding past command response (k + 1)
      { d with phase := .responding (response.drop (k + 1)) } :=
    ⟨rfl, hd'.settled, hd'.headed, hd'.once⟩
  exact ⟨.lands hlands hd'.atMostOnce hnext.atMostOnce hnext, hval⟩

theorem readBurst_collects {base : UInt16} (hd : Conforms port base view) {dest : Nat → Dest}
    {off limit : Nat} (ht : Target dest off) (burst y : Nat) (st : ReadState) (w : W) (hy : y ≤ limit)
    (h : Collected past command response off y st (view w)) :
    Meets (readBurst port base dest limit burst st) w
      (fun r w' => Outcome past command
        (fun d => ∃ z ≤ limit, Collected past command response off z r.2 d) r.1 (view w'))
      (fun w' => AtMostOnce past command (view w')) := by
  induction burst generalizing y st w with
  | zero => exact meets_pure.mpr (.ok ⟨y, hy, h⟩)
  | succ burst ih =>
      rw [readBurst]
      by_cases hlt : st.loopIndex < limit
      · have hyl : y < limit := by
          rw [h.index] at hlt
          omega
        have hidx : st.loopIndex.toNat = y := by rw [h.index, Int.toNat_natCast]
        rw [if_pos hlt, hidx]
        dsimp only
        rw [meets_bind]
        apply meets_call
        rintro ⟨err, val⟩ w₁ hr
        obtain ⟨ho, hval⟩ := readByte_responding hd h.responding hr
        dsimp only
        by_cases herr : err < 0
        · rw [if_pos herr]
          exact meets_pure.mpr (.fail herr (ho.1 herr))
        · rw [if_neg herr]
          apply ih (y + 1) _ w₁ hyl
          refine ⟨?_, ?_, ho.2 (not_lt.mp herr), ?_⟩
          · change st.loopIndex + 1 = _
            rw [h.index]
            rfl
          · change st.size + 1 = ((y + 1 : Nat) : Int) + off
            rw [h.size]
            omega
          · change Holds response (storeTo st.buf val (dest y)) _
            rw [ht.store]
            exact h.holds.store (hval (not_lt.mp herr))
      · rw [if_neg hlt]
        exact meets_pure.mpr (.ok ⟨y, hy, h⟩)

theorem readLoop_collects (hd : Conforms port (localityStartAddress chip.locality) view)
    {dest : Nat → Dest} {off limit : Nat} (ht : Target dest off) (n y : Nat) (st : ReadState) (w : W)
    (hy : y ≤ limit) (h : Collected past command response off y st (view w)) :
    Meets (readLoop port fuel chip (localityStartAddress chip.locality) dest limit n st) w
      (fun r w' => Outcome past command (fun d => ∃ z ≤ limit, limit ≤ z + off ∧
        Collected past command response off z r.2 d) r.1 (view w'))
      (fun w' => AtMostOnce past command (view w')) := by
  have hdone : ¬ st.size < limit → limit ≤ y + off := by
    rw [h.size]
    omega
  induction n generalizing y st w with
  | zero =>
      rw [readLoop]
      by_cases hlt : st.size < limit
      · rw [if_pos hlt]
        exact h.responding.atMostOnce
      · rw [if_neg hlt]
        exact meets_pure.mpr (.ok ⟨y, hy, hdone hlt, h⟩)
  | succ n ih =>
      rw [readLoop]
      by_cases hlt : st.size < limit
      · rw [if_pos hlt, meets_bind]
        refine (tpm2FifoGetBurstcount_evolves hd fuel w).mono ?_ ?_
        · rintro ⟨err, burst⟩ w₁ hev
          have h₁ := h.evolves hev
          dsimp only
          by_cases herr : err < 0
          · rw [if_pos herr]
            exact meets_pure.mpr (.fail herr h₁.responding.atMostOnce)
          rw [if_neg herr, meets_bind]
          refine (readBurst_collects hd ht burst.toNat y st w₁ hy h₁).imp ?_
          rintro ⟨err, st'⟩ w₂ ho
          dsimp only at ho ⊢
          by_cases herr : err < 0
          · rw [if_pos herr]
            exact meets_pure.mpr (.fail herr (ho.1 herr))
          · rw [if_neg herr]
            obtain ⟨z, hz, h₂⟩ := ho.2 (not_lt.mp herr)
            apply ih z st' w₂ hz h₂
            rw [h₂.size]
            omega
        · intro w₁ hev
          exact (h.evolves hev).responding.atMostOnce
      · rw [if_neg hlt]
        exact meets_pure.mpr (.ok ⟨y, hy, hdone hlt, h⟩)

/-- A receive pass of `off` on reads the response that the wait for AVAIL has
found, with whatever is known of it. -/
theorem readData_collects (hd : Conforms port (localityStartAddress chip.locality) view)
    {expected : Int} {off limit : Nat} (ht : Target (readDest expected) off)
    (hlimit : (if expected = tpmReadHeader then (tpmHeaderSize : Int) else expected) = limit)
    (hindex : (if expected = tpmReadHeader then (off : Int) else off - tpmHeaderSize) = 0)
    (known : List UInt8 → Prop) (buf : TpmCmd) (w : W)
    (honce : ∀ d, Evolves (view w) d → AtMostOnce past command d)
    (hstart : ∀ d rest, Evolves (view w) d → d.phase = .responding rest →
      ∃ response, known response ∧ Responding past command response off d ∧ Holds response buf off) :
    Meets (tpm2FifoReadData port fuel chip buf (localityStartAddress chip.locality) off expected) w
      (fun r w' => Outcome past command (fun d => ∃ response z, known response ∧ z ≤ limit ∧
        limit ≤ z + off ∧ Collected past command response off z ⟨z, r.2.1, r.2.2⟩ d) r.1 (view w'))
      (fun w' => AtMostOnce past command (view w')) := by
  rw [tpm2FifoReadData, meets_bind, hlimit, hindex]
  refine (tpm2WaitRegBits_evolves hd fuel _ _ w).mono ?_ ?_
  · rintro ⟨err, status⟩ w₁ ⟨hev, hdone⟩
    dsimp only
    by_cases herr : err < 0
    · rw [if_pos herr]
      exact meets_pure.mpr (.fail herr (honce _ hev))
    obtain ⟨hset, hanswer⟩ := hdone (not_lt.mp herr)
    have hne : status &&& tpmStatAvail ≠ 0 := by
      dsimp only at hset
      rw [hset]
      decide
    obtain ⟨rest, hphase, -⟩ := hanswer.avail hne
    obtain ⟨response, hknown, hresponding, hholds⟩ := hstart _ rest hev hphase
    have h₁ : Collected past command response off 0 ⟨0, off, buf⟩ (view w₁) :=
      ⟨rfl, (Int.zero_add _).symm, hresponding, hholds⟩
    rw [if_neg herr, meets_bind]
    refine (readLoop_collects hd ht fuel 0 _ w₁ (Nat.zero_le limit) h₁).imp ?_
    rintro ⟨err, st⟩ w₂ ⟨hfail, hok⟩
    refine ⟨hfail, fun h0 => ?_⟩
    obtain ⟨z, hz, hfull, h₂⟩ := hok h0
    exact ⟨response, z, hknown, hz, hfull, rfl, h₂.size, h₂.responding, h₂.holds⟩
  · intro w₁ hev
    exact honce _ hev

/-- Since `past` the device has executed the command once, then it has
responded, and the response is in the buffer. -/
def Served (past : List Event) (command : List UInt8) (out : TpmCmd) (d : Device) : Prop :=
  ∃ ext response, d.history = past ++ (ext ++ [.executes command, .responds command response]) ∧
    executions ext = [] ∧ response.length ≤ maxSizeCmdbuf ∧
      out.bytes.take response.length = response

theorem served_of_responding {k : Nat} {out : TpmCmd} {d : Device}
    (h : Responding past command response k d) (hb : Holds response out k) (hk : response.length ≤ k)
    (hmax : response.length ≤ maxSizeCmdbuf) : Served past command out d := by
  obtain ⟨ext, hext, hn⟩ := h.once
  exact ⟨ext, response, hext, hn, hmax, hb.bytes hk hmax⟩

theorem tpm2FifoReceive_serves [Host]
    (hd : Conforms port (localityStartAddress chip.locality) view) (buf : TpmCmd) (w : W)
    (h : Executing past command (view w)) :
    Meets (tpm2FifoReceive port fuel chip buf) w
      (fun r w' => Outcome past command (Served past command r.2) r.1 (view w'))
      (fun w' => AtMostOnce past command (view w')) := by
  have hten : tpmHeaderSize = 10 := rfl
  rw [tpm2FifoReceive]
  dsimp only
  rw [meets_bind]
  refine (readData_collects hd target_header rfl rfl (fun _ => True) buf w ?_ ?_).mono ?_ (fun _ hc => hc)
  · intro d hev
    rcases h.evolves hev with h | ⟨response, h⟩ <;> exact h.atMostOnce
  · intro d rest hev hphase
    rcases h.evolves hev with h | ⟨response, h⟩
    · rw [h.phase] at hphase
      cases hphase
    · exact ⟨response, trivial, h, fun i hi => absurd hi (Nat.not_lt_zero i)⟩
  rintro ⟨err, size, buf⟩ w₁ ho
  dsimp only at ho ⊢
  by_cases herr : err < 0
  · rw [if_pos herr]
    exact meets_pure.mpr (.fail herr (ho.1 herr))
  obtain ⟨response, z, -, hz, hfull, hcollected⟩ := ho.2 (not_lt.mp herr)
  obtain rfl : z = tpmHeaderSize := by omega
  have hsize : size = (tpmHeaderSize : Nat) := hcollected.size
  have hresponding := hcollected.responding
  have hholds : Holds response buf (0 + tpmHeaderSize) := hcollected.holds
  rw [Nat.zero_add] at hresponding hholds
  have hlength := cmdSize_holds hholds hresponding.headed
  rw [if_neg herr]
  by_cases hlong : maxSizeCmdbuf < response.length
  · rw [if_pos ((sizeT_intOfUint32 _).mpr (hlength ▸ hlong))]
    exact meets_pure.mpr (.fail (show tpmInvalidParam < 0 by decide) hresponding.atMostOnce)
  have hmax := not_lt.mp hlong
  have hint : intOfUint32 (be32toh buf.cmdSize) = response.length := by
    rw [← hlength]
    exact intOfUint32_of_le (hlength ▸ hmax)
  rw [if_neg fun hc => hlong (hlength ▸ (sizeT_intOfUint32 _).mp hc), hint, hsize]
  by_cases hshort : response.length = tpmHeaderSize
  · rw [if_pos (congrArg Nat.cast hshort.symm)]
    refine meets_pure.mpr ⟨fun h0 => absurd h0 (show ¬ ((tpmHeaderSize : Nat) : Int) < 0 by decide), fun _ => ?_⟩
    exact served_of_responding hresponding hholds (le_of_eq hshort) hmax
  have hrest : ¬ ((tpmHeaderSize : Nat) : Int) = (response.length : Nat) :=
    fun hc => hshort (Int.ofNat.inj hc).symm
  have hdata := size_ne_readHeader response.length
  rw [if_neg hrest, meets_bind]
  refine (readData_collects hd (target_data hdata) (if_neg hdata)
    (by rw [if_neg hdata]; exact Int.sub_self _) (· = response) buf w₁ ?_ ?_).mono ?_ (fun _ hc => hc)
  · intro d hev
    exact (hresponding.evolves hev).atMostOnce
  · intro d rest hev _
    exact ⟨response, rfl, hresponding.evolves hev, hholds⟩
  rintro ⟨err, size, out⟩ w₂ ho
  dsimp only at ho ⊢
  by_cases herr : err < 0
  · rw [if_pos herr]
    exact meets_pure.mpr (.fail herr (ho.1 herr))
  obtain ⟨_, z, rfl, hz, hfull, hcollected⟩ := ho.2 (not_lt.mp herr)
  have hsize : size = z + (tpmHeaderSize : Nat) := hcollected.size
  rw [if_neg herr, hsize, if_neg (by omega)]
  exact meets_pure.mpr (.ok (served_of_responding hcollected.responding hcollected.holds (by omega) hmax))

end Receive

section Exchanges

variable [Host]

/-- A call of the exchange, with the world before and after it. It has no
result while it is still polling. -/
structure Exchange (W : Type) where
  cmd : TpmCmd
  before : W
  result : Option (Int × TpmCmd)
  after : W

/-- The exchanges of a sequence of commands, each with the buffer for its
response. Each starts in the world that the one before it has left, whatever
that one has returned. -/
def exchanges (port : FifoPort W) (fuel : Nat) (chip : ChipData) :
    List (TpmCmd × TpmCmd) → W → List (Exchange W)
  | [], _ => []
  | (cmd, buf) :: calls, w =>
      let r := tpmXfer (fifoOps port fuel) chip cmd buf w
      ⟨cmd, w, r.1, r.2⟩ :: (if r.1.isSome then exchanges port fuel chip calls r.2 else [])

/-- During the exchange the device executes nothing or its command once. If it
succeeds, the device has executed the command and then responded, and the
response is the one returned. -/
structure Faithful (view : W → Device) (x : Exchange W) : Prop where
  once : AtMostOnce (view x.before).history x.cmd.serialise (view x.after)
  served : ∀ ret out, x.result = some (ret, out) → 0 ≤ ret →
    Served (view x.before).history x.cmd.serialise out (view x.after)

variable {port : FifoPort W} {view : W → Device} {fuel : Nat} {chip : ChipData}

theorem tpmXfer_serves (hd : Conforms port (localityStartAddress chip.locality) view) {cmd : TpmCmd}
    (h10 : tpmHeaderSize ≤ (be32toh cmd.cmdSize).toNat)
    (hmax : (be32toh cmd.cmdSize).toNat ≤ maxSizeCmdbuf) (buf : TpmCmd) (w : W) :
    Meets (tpmXfer (fifoOps port fuel) chip cmd buf) w
      (fun r w' => Outcome (view w).history cmd.serialise (Served (view w).history cmd.serialise r.2) r.1
        (view w'))
      (fun w' => AtMostOnce (view w).history cmd.serialise (view w')) := by
  have hstart : Unexecuted (view w).history (view w) := ⟨[], (List.append_nil _).symm, rfl⟩
  rw [tpmXfer, meets_bind]
  refine (tpm2FifoSend_executes hd h10 hmax w hstart).mono ?_ (fun _ hc => hc)
  intro ret w₁ ho
  by_cases herr : ret < 0
  · rw [if_pos herr]
    exact meets_pure.mpr (.fail herr (ho.1 herr))
  rw [if_neg herr, meets_bind]
  refine (tpm2FifoReceive_serves hd buf w₁ (ho.2 (not_lt.mp herr))).mono ?_ (fun _ hc => hc)
  rintro ⟨ret, out⟩ w₂ ho
  dsimp only at ho ⊢
  by_cases herr : ret < 0
  · rw [if_pos herr]
    exact meets_pure.mpr (.fail herr (ho.1 herr))
  · rw [if_neg herr]
    exact meets_pure.mpr (.ok (ho.2 (not_lt.mp herr)))

theorem exchange_faithful (hd : Conforms port (localityStartAddress chip.locality) view) {cmd : TpmCmd}
    (h10 : tpmHeaderSize ≤ (be32toh cmd.cmdSize).toNat)
    (hmax : (be32toh cmd.cmdSize).toNat ≤ maxSizeCmdbuf) (buf : TpmCmd) (w : W) :
    Faithful view ⟨cmd, w, (tpmXfer (fifoOps port fuel) chip cmd buf w).1,
      (tpmXfer (fifoOps port fuel) chip cmd buf w).2⟩ := by
  rcases hr : tpmXfer (fifoOps port fuel) chip cmd buf w with ⟨_ | ⟨ret, out⟩, w'⟩
  · exact ⟨(tpmXfer_serves hd h10 hmax buf w).polling hr, fun _ _ heq => by cases heq⟩
  · obtain ⟨hfail, hok⟩ := (tpmXfer_serves hd h10 hmax buf w).returned hr
    constructor
    · rcases lt_or_ge ret 0 with herr | h0
      · exact hfail herr
      · obtain ⟨ext, response, hext, hn, -⟩ := hok h0
        refine ⟨_, hext, .inr ?_⟩
        rw [executions_append, hn]
        rfl
    · intro ret' out' heq h0
      cases heq
      exact hok h0

/-- Whatever fails in earlier exchanges, at whichever access and with or
without an effect on the device, an exchange has at most its own command
executed, and returns no other response than that of its own command. -/
theorem exchanges_faithful (hd : Conforms port (localityStartAddress chip.locality) view)
    (calls : List (TpmCmd × TpmCmd))
    (hcalls : ∀ c ∈ calls, tpmHeaderSize ≤ (be32toh c.1.cmdSize).toNat ∧
      (be32toh c.1.cmdSize).toNat ≤ maxSizeCmdbuf) (w : W) :
    ∀ x ∈ exchanges port fuel chip calls w, Faithful view x := by
  induction calls generalizing w with
  | nil => exact fun x hx => absurd hx List.not_mem_nil
  | cons c calls ih =>
      obtain ⟨h10, hmax⟩ := hcalls c List.mem_cons_self
      intro x hx
      rcases List.mem_cons.mp hx with rfl | hx
      · exact exchange_faithful hd h10 hmax c.2 w
      · by_cases hs : (tpmXfer (fifoOps port fuel) chip c.1 c.2 w).1.isSome
        · rw [if_pos hs] at hx
          exact ih (fun c hc => hcalls c (List.mem_cons_of_mem _ hc)) _ x hx
        · rw [if_neg hs] at hx
          exact absurd hx List.not_mem_nil

end Exchanges

def emptyResponse : List UInt8 := [0x80, 0x01, 0, 0, 0, 10, 0, 0, 0, 0]

def faultyGo (n : Nat) : Fault := if n = 18 then .late else .none

theorem exchanges_faithful_startup :
    letI := littleHost
    let port := Bench.port (fun _ => emptyResponse) faultyGo (localityStartAddress tpmChipData.locality)
    let run := exchanges port 64 tpmChipData
      [((startupCommand 0).cmd, TpmCmd.zero), ((startupCommand 1).cmd, TpmCmd.zero)]
      ⟨⟨.idle, true, []⟩, 0⟩
    run.map (fun x => x.result.map Prod.fst) = [some tpmErrTransfer, some tpmSuccess] ∧
      ∀ x ∈ run, Faithful Bench.device x := by
  let _ := littleHost
  refine ⟨by decide +kernel, ?_⟩
  apply exchanges_faithful (Bench.conforms (fun _ => by decide) faultyGo _)
  intro c hc
  rcases List.mem_pair.mp hc with rfl | rfl <;> exact ⟨by decide +kernel, by decide +kernel⟩

end LibTpm.DeviceExchanges
