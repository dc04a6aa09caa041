import LibTpm.Base.Progress
import LibTpm.DeviceExchanges
import LibTpm.TpmMachine
import LibTpm.Watched

namespace LibTpm.PromptDevice

open LibTpm.Base.Process LibTpm.Base.Process.Proc LibTpm.Base.Progress LibTpm.Command LibTpm.Constants
open LibTpm.Endian LibTpm.Platform LibTpm.Fifo LibTpm.FifoTrace LibTpm.PollRounds LibTpm.ReceiveRuns LibTpm.ReceiveBounds
open LibTpm.PtpDevice LibTpm.DeviceSending LibTpm.DeviceExchanges LibTpm.TpmMachine

variable {W σ : Type}

def Restarts (d d' : Device) : Prop := d.discarding → d'.discarding ∨ d'.phase = .receiving []

/-- The device has nothing left to do by itself, and STATUS shows it. -/
structure Shows (d : Device) (status : UInt8) : Prop where
  settled : d.discarding = false
  finished (command : List UInt8) : d.phase ≠ .executing command
  ready : d.phase = .receiving [] → status &&& tpmStatCommandReady = tpmStatCommandReady
  valid (input : List UInt8) : d.phase = .receiving input → status &&& tpmStatValid = tpmStatValid
  avail (rest : List UInt8) : d.phase = .responding rest → rest ≠ [] → status &&& tpmStatAvail = tpmStatAvail

def Transfers (d : Device) : Prop :=
  d.discarding = false ∧ ((∃ input, d.phase = .receiving input) ∨ ∃ rest ≠ [], d.phase = .responding rest)

def delays (chip : ChipData) : List UInt32 :=
  [chip.timeouts.msecA, chip.timeouts.msecB, chip.timeouts.msecC].map fun msec => (msec * 1000).toUInt32

/-- A device that runs the machine, on accesses that do not fail. It needs at
most `limit` reads of STATUS or the burst count until it has done what it has
to do by itself, `lag` of them still to come, and every timeout of the chip
leaves time for so many, `left` of them by the one that runs. -/
structure Prompt (port : FifoPort W) (chip : ChipData) (m : Machine σ) (view : W → Device) (limit : Nat)
    (lag left : W → Nat) : Prop extends Conforms port (localityStartAddress chip.locality) view where
  genuine (w : W) : m.Genuine (view w).history
  lag_le (w : W) : lag w ≤ limit
  arms {w w' : W} {usec : UInt32} {cnt : UInt64} : usec ∈ delays chip → port.timeoutInitUs usec w = (cnt, w') →
    limit ≤ left w' ∧ Restarts (view w) (view w')
  elapses {w w' : W} {cnt : UInt64} {elapsed : Bool} : port.timeoutElapsed cnt w = (elapsed, w') →
    (elapsed = true → left w = 0) ∧ left w ≤ left w' + 1 ∧ lag w' ≤ lag w ∧ Restarts (view w) (view w')
  status {w w' : W} {dst : Dest} {err : Int} {val : UInt8} :
    port.readByte (fifoReg (localityStartAddress chip.locality) tpmFifoRegStatus) dst w = ((err, val), w') →
      0 ≤ err ∧ left w' = left w ∧ Restarts (view w) (view w') ∧ (Shows (view w') val ∨ lag w' < lag w)
  burst {w w' : W} {dst : Dest} {err : Int} {val : UInt8} :
    port.readByte (fifoReg (localityStartAddress chip.locality) tpmFifoRegBurstCountLo) dst w = ((err, val), w') →
      0 ≤ err ∧ left w' = left w ∧ (Transfers (view w) → val ≠ 0 ∨ lag w' < lag w)
  burstHi {w w' : W} {dst : Dest} {err : Int} {val : UInt8} :
    port.readByte (fifoReg (localityStartAddress chip.locality) tpmFifoRegBurstCountHi) dst w = ((err, val), w') →
      0 ≤ err ∧ left w' = left w ∧ lag w' ≤ lag w
  write {w w' : W} {reg : UInt16} {val : UInt8} {err : Int} :
    reg = fifoReg (localityStartAddress chip.locality) tpmFifoRegStatus ∨
      reg = fifoReg (localityStartAddress chip.locality) tpmFifoRegDataFifo →
        port.writeByte reg val w = (err, w') → 0 ≤ err
  data {w w' : W} {dst : Dest} {err : Int} {val : UInt8} :
    port.readByte (fifoReg (localityStartAddress chip.locality) tpmFifoRegDataFifo) dst w = ((err, val), w') →
      0 ≤ err

theorem Prompt.recorded {port : FifoPort W} {chip : ChipData} {m : Machine σ} {view : W → Device} {limit : Nat}
    {lag left : W → Nat} (h : Prompt port chip m view limit lag left) :
    Prompt port.recorded chip m (fun s => view s.1) limit (fun s => lag s.1) (fun s => left s.1) where
  timeoutInit ht := h.timeoutInit (recorded_timeoutInit ht)
  timeoutElapsed ht := h.timeoutElapsed (recorded_timeoutElapsed ht).1
  readStatus hr := h.readStatus (recorded_read hr).1
  readBurst hreg hr := h.readBurst hreg (recorded_read hr).1
  commandReady hw := h.commandReady (recorded_write hw)
  sendByte hw := h.sendByte (recorded_write hw)
  go hw := h.go (recorded_write hw)
  readByte hr := h.readByte (recorded_read hr).1
  genuine s := h.genuine s.1
  lag_le s := h.lag_le s.1
  arms hdelay ht := h.arms hdelay (recorded_timeoutInit ht)
  elapses ht := h.elapses (recorded_timeoutElapsed ht).1
  status hr := h.status (recorded_read hr).1
  burst hr := h.burst (recorded_read hr).1
  burstHi hr := h.burstHi (recorded_read hr).1
  write hreg hw := h.write hreg (recorded_write hw)
  data hr := h.data (recorded_read hr).1

/-- There is fuel for every poll and for a burst for each byte. -/
structure Ample (limit fuel : Nat) : Prop where
  polls : limit < fuel
  bursts : maxSizeCmdbuf < fuel

theorem Evolves.transfers {d d' : Device} (h : Evolves d d') (ht : Transfers d) : d' = d := by
  obtain ⟨hs, ⟨input, hp⟩ | ⟨rest, -, hp⟩⟩ := ht
  · exact h.receiving hp hs
  · exact h.responding hp hs

variable {port : FifoPort W} {chip : ChipData} {m : Machine σ} {view : W → Device} {limit fuel : Nat}
  {lag left : W → Nat}

section Polls

def Lasts (J : Device → Prop) : Prop := ∀ d d', J d → Evolves d d' → Restarts d d' → J d'

/-- The polling of STATUS ends with the bits in time when the device, once it
has done what it has to do, shows them. -/
theorem tpm2WaitRegBits_ends (h : Prompt port chip m view limit lag left) (hfuel : Ample limit fuel)
    {J : Device → Prop} (hlasts : Lasts J) {set : UInt8}
    (hshows : ∀ d status, J d → Shows d status → status &&& set = set) {timeout : UInt64}
    (hdelay : (timeout * 1000).toUInt32 ∈ delays chip) (w : W) (hw : J (view w)) :
    Ends (tpm2WaitRegBits port fuel (fifoReg (localityStartAddress chip.locality) tpmFifoRegStatus) set timeout) w
      (fun r w' => r.1 = tpmSuccess ∧ J (view w') ∧ r.2 &&& set = set ∧ StatusAnswer (view w') r.2) := by
  have hsafe := tpm2WaitRegBits_evolves h.toConforms fuel set timeout w
  have hlive : Ends (tpm2WaitRegBits port fuel
      (fifoReg (localityStartAddress chip.locality) tpmFifoRegStatus) set timeout) w
      (fun r w' => r.1 = tpmSuccess ∧ J (view w')) := by
    rw [tpm2WaitRegBits]
    apply Ends.call
    intro cnt w₁ ht
    obtain ⟨harmed, hrestarts⟩ := h.arms hdelay ht
    have hw₁ := hlasts _ _ hw (h.timeoutInit ht) hrestarts
    refine waitRegBitsLoop_ends (J := fun w => J (view w) ∧ lag w ≤ left w) lag ?_ ⟨hw₁, (h.lag_le w₁).trans harmed⟩
      ((h.lag_le w₁).trans_lt hfuel.polls)
    rintro w o w' ⟨hj, hle⟩ hround
    have hread {err : Int} {status : UInt8} {v : W}
        (hr : port.readByte (fifoReg (localityStartAddress chip.locality) tpmFifoRegStatus) .variable w =
          ((err, status), v)) : J (view v) := hlasts _ _ hj (h.readStatus hr).1 (h.status hr).2.2.1
    have hlower {err : Int} {status : UInt8} {v : W}
        (hr : port.readByte (fifoReg (localityStartAddress chip.locality) tpmFifoRegStatus) .variable w =
          ((err, status), v)) (hset : ¬ status &&& set = set) : lag v < lag w ∧ left v = left w := by
      obtain ⟨-, hleft, -, hprogress⟩ := h.status hr
      exact ⟨hprogress.resolve_left fun hs => hset (hshows _ _ (hread hr) hs), hleft⟩
    cases hround with
    | failed read neg => exact absurd neg (not_lt.mpr (h.status read).1)
    | found read ok bits => exact ⟨rfl, hread read⟩
    | expired read ok unset timer =>
        obtain ⟨hlag, hleft⟩ := hlower read unset
        have hzero := (h.elapses timer).1 rfl
        omega
    | vain read ok unset timer =>
        obtain ⟨hlag, hleft⟩ := hlower read unset
        obtain ⟨-, hleft', hlag', hrestarts⟩ := h.elapses timer
        exact ⟨⟨hlasts _ _ (hread read) (h.timeoutElapsed timer) hrestarts, by omega⟩, by omega⟩
  refine (hlive.and hsafe).imp ?_
  rintro r w' ⟨⟨hret, hj⟩, -, hdone⟩
  exact ⟨hret, hj, hdone (by rw [hret]; decide)⟩

theorem burstcountOf_ne_zero {byte0 : UInt8} (h : byte0 ≠ 0) (byte1 : UInt8) : burstcountOf byte0 byte1 ≠ 0 := by
  intro hzero
  have hnat := Watched.burstcountOf_toNat byte0 byte1
  rw [hzero] at hnat
  apply h
  apply UInt8.toNat_inj.mp
  change 0 = _ at hnat
  change _ = 0
  omega

/-- A device that transfers has a burst count in time. -/
theorem tpm2FifoGetBurstcount_ends (h : Prompt port chip m view limit lag left) (hfuel : Ample limit fuel) (w : W)
    (hw : Transfers (view w)) :
    Ends (tpm2FifoGetBurstcount port fuel chip) w
      (fun r w' => r.1 = tpmSuccess ∧ r.2 ≠ 0 ∧ view w' = view w) := by
  rw [tpm2FifoGetBurstcount]
  apply Ends.call
  intro cnt w₁ ht
  obtain ⟨harmed, -⟩ := h.arms List.mem_cons_self ht
  have hw₁ : view w₁ = view w := Evolves.transfers (h.timeoutInit ht) hw
  refine getBurstcountLoop_ends (J := fun v => view v = view w ∧ lag v ≤ left v) lag ?_
    ⟨hw₁, (h.lag_le w₁).trans harmed⟩ ((h.lag_le w₁).trans_lt hfuel.polls)
  rintro v o v' ⟨hv, hle⟩ hround
  rw [← hv] at hw
  have hstays {x y : W} (hx : view x = view v) (hev : Evolves (view x) (view y)) : view y = view v :=
    (Evolves.transfers hev (hx ▸ hw)).trans hx
  have hlower {err₀ err₁ : Int} {byte0 byte1 : UInt8} {x y : W}
      (lo : port.readByte (fifoReg (localityStartAddress chip.locality) tpmFifoRegBurstCountLo) .variable v =
        ((err₀, byte0), x))
      (hi : port.readByte (fifoReg (localityStartAddress chip.locality) tpmFifoRegBurstCountHi) .variable x =
        ((err₁, byte1), y)) :
      view y = view v ∧ left y = left v ∧ (burstcountOf byte0 byte1 = 0 → lag y < lag v) := by
    obtain ⟨-, hleft, hprogress⟩ := h.burst lo
    obtain ⟨-, hleft', hlag'⟩ := h.burstHi hi
    refine ⟨hstays (hstays rfl (h.readBurst (.inl rfl) lo)) (h.readBurst (.inr rfl) hi), hleft'.trans hleft, ?_⟩
    intro hcount
    have hlag : lag x < lag v := (hprogress hw).resolve_left fun hb => burstcountOf_ne_zero hb byte1 hcount
    omega
  cases hround with
  | failedLo lo neg => exact absurd neg (not_lt.mpr (h.burst lo).1)
  | failedHi lo ok₀ hi neg => exact absurd neg (not_lt.mpr (h.burstHi hi).1)
  | found lo ok₀ hi ok₁ burst => exact ⟨rfl, burst, (hlower lo hi).1.trans hv⟩
  | expired lo ok₀ hi ok₁ zero timer =>
      obtain ⟨-, hleft, hlag⟩ := hlower lo hi
      have hrank := hlag zero
      have hzero := (h.elapses timer).1 rfl
      omega
  | vain lo ok₀ hi ok₁ zero timer =>
      obtain ⟨hview, hleft, hlag⟩ := hlower lo hi
      have hrank := hlag zero
      obtain ⟨-, hleft', hlag', -⟩ := h.elapses timer
      exact ⟨⟨(hstays hview (h.timeoutElapsed timer)).trans hv, by omega⟩, by omega⟩

end Polls

theorem Ends.outcome {α : Type} {p : Proc W α} {w : W} {Q : α → W → Prop} {ret : α → Int} {C : W → Prop}
    {past : List Event} {P : α → Device → Prop} (command : List UInt8) (h : Ends p w Q)
    (hret : ∀ a w', Q a w' → ret a = tpmSuccess)
    (hsafe : Meets p w (fun a w' => Outcome past command (P a) (ret a) (view w')) C) :
    Ends p w fun a w' => Q a w' ∧ P a (view w') := by
  refine (h.and hsafe).imp ?_
  rintro a w' ⟨hq, -, hdone⟩
  exact ⟨hq, hdone (by rw [hret a w' hq]; decide)⟩

section Send

variable [Host] {past : List Event} {cmd : TpmCmd}

omit [Host] in
theorem writeHeader_ends (h : Prompt port chip m view limit lag left) (bs : List UInt8) (w : W) :
    Ends (writeHeader port (localityStartAddress chip.locality) bs) w (fun err _ => err = tpmSuccess) := by
  induction bs generalizing w with
  | nil => exact rfl
  | cons b bs ih =>
      rw [writeHeader]
      apply Ends.call
      intro err w₁ hr
      rw [if_neg (not_lt.mpr (h.write (.inr rfl) hr))]
      exact ih w₁

omit [Host] in
theorem writeBurst_ends (h : Prompt port chip m view limit lag left) (cmd : TpmCmd) {len : Nat}
    (burst index : Nat) (w : W) (hi : index ≤ len) :
    Ends (writeBurst port (localityStartAddress chip.locality) cmd len burst index) w
      (fun r _ => r.1 = tpmSuccess ∧ r.2 = min (index + burst) len) := by
  induction burst generalizing index w with
  | zero => exact ⟨rfl, (min_eq_left hi).symm⟩
  | succ burst ih =>
      rw [writeBurst]
      by_cases hlt : index < len
      · rw [if_pos hlt]
        apply Ends.call
        intro err w₁ hr
        rw [if_neg (not_lt.mpr (h.write (.inr rfl) hr)), Nat.add_comm burst 1, ← Nat.add_assoc]
        exact ih (index + 1) w₁ hlt
      · rw [if_neg hlt]
        exact ⟨rfl, by omega⟩

theorem writeData_ends (h : Prompt port chip m view limit lag left) (hfuel : Ample limit fuel) {len : Nat}
    (hlen : (be32toh cmd.cmdSize).toNat = len) (hmax : len ≤ maxSizeCmdbuf) (w : W)
    (hw : Accepting past (cmd.serialise.take tpmHeaderSize) (view w)) (h10 : tpmHeaderSize ≤ len) :
    Ends (writeData port fuel chip (localityStartAddress chip.locality) cmd len fuel tpmHeaderSize) w
      (fun err w' => err = tpmSuccess ∧ Accepting past (cmd.serialise.take len) (view w')) := by
  have hbursts := hfuel.bursts
  have hten : tpmHeaderSize = 10 := rfl
  have hlive : Ends (writeData port fuel chip (localityStartAddress chip.locality) cmd len fuel tpmHeaderSize) w
      (fun err _ => err = tpmSuccess) := by
    apply loop_ends (fun n index => writeData port fuel chip _ cmd len n index)
      (fun index w => Accepting past (cmd.serialise.take index) (view w) ∧ tpmHeaderSize ≤ index ∧ index ≤ len)
      (fun index _ => len - index) _ fuel tpmHeaderSize w ⟨hw, le_rfl, h10⟩ (by omega)
    rintro n index w ⟨ha, hle, hi⟩ ih
    rw [writeData]
    by_cases hlt : index < len
    swap
    · rw [if_neg hlt]
      exact rfl
    rw [if_pos hlt]
    apply (tpm2FifoGetBurstcount_ends h hfuel w ⟨ha.settled, .inl ⟨_, ha.phase⟩⟩).bind
    rintro ⟨err, burst⟩ w₁ ⟨rfl, hburst, hview⟩
    dsimp only at hburst ⊢
    rw [if_neg (by decide)]
    have hpos : 0 < burst.toNat := Nat.pos_of_ne_zero fun h0 => hburst (UInt16.toNat_inj.mp h0)
    have hsent := Ends.outcome cmd.serialise (writeBurst_ends h cmd burst.toNat index w₁ hi) (fun _ _ hr => hr.1)
      (writeBurst_accepting h.toConforms hlen hmax burst.toNat index w₁ (hview ▸ ha) hle hi)
    apply hsent.bind
    rintro ⟨err, index'⟩ w₂ ⟨⟨rfl, hindex⟩, ha, -, hi'⟩
    dsimp only at hindex ha hi' ⊢
    rw [if_neg (by decide)]
    exact ih index' w₂ ⟨ha, by omega, hi'⟩ (by omega)
  exact Ends.outcome cmd.serialise hlive (fun _ _ hr => hr)
    (writeData_accepting h.toConforms hlen hmax fuel tpmHeaderSize w hw le_rfl h10)

theorem sendBytes_ends (h : Prompt port chip m view limit lag left) (hfuel : Ample limit fuel)
    (h10 : tpmHeaderSize ≤ (be32toh cmd.cmdSize).toNat)
    (hmax : (be32toh cmd.cmdSize).toNat ≤ maxSizeCmdbuf) (w : W) (hw : Accepting past [] (view w)) :
    Ends (sendBytes port fuel chip cmd) w (fun err _ => err = tpmSuccess) := by
  have hheader : cmd.header = cmd.serialise.take tpmHeaderSize := by
    rw [TpmCmd.serialise, List.take_take, min_eq_left h10, TpmCmd.header]
  have hlen : cmd.serialise.take (be32toh cmd.cmdSize).toNat = cmd.serialise := by
    rw [TpmCmd.serialise, List.take_take, min_self]
  rw [sendBytes]
  have hsent := Ends.outcome cmd.serialise (writeHeader_ends h cmd.header w) (fun _ _ hr => hr)
    (writeHeader_accepting h.toConforms cmd.header [] w hw)
  apply hsent.bind
  rintro err w₁ ⟨rfl, h₁⟩
  rw [List.nil_append, hheader] at h₁
  rw [if_neg (by decide)]
  dsimp only
  rw [if_neg (not_lt.mpr h10)]
  apply (writeData_ends h hfuel rfl hmax w₁ h₁ h10).bind
  rintro err w₂ ⟨rfl, h₂⟩
  rw [hlen] at h₂
  rw [if_neg (by decide)]
  have hlasts : Lasts (Accepting past cmd.serialise) := fun _ _ ha hev _ => ha.evolves hev
  apply (tpm2WaitRegBits_ends h hfuel hlasts (fun _ _ ha hs => hs.valid _ ha.phase) (by simp [delays]) w₂ h₂).bind
  rintro ⟨err, status⟩ w₃ ⟨rfl, h₃, hset, hanswer⟩
  dsimp only at hset hanswer ⊢
  have hnonempty : cmd.serialise ≠ [] := by
    rw [TpmCmd.serialise]
    intro hnil
    have hlength := congrArg List.length hnil
    rw [List.length_take, cmd.length_bytes, min_eq_left hmax, List.length_nil] at hlength
    have hten : tpmHeaderSize = 10 := rfl
    omega
  have hexpect : ¬ status &&& tpmStatExpect ≠ 0 := fun he =>
    not_expecting_serialise h10 hmax ((hanswer.expect _ h₃.phase hnonempty (by rw [hset]; decide)).mp he)
  rw [if_neg (by decide), if_neg hexpect]
  apply Ends.call
  intro err w₄ hr
  rw [if_neg (not_lt.mpr (h.write (.inl rfl) hr))]
  exact rfl

omit [Host] in
theorem tpm2FifoPrepare_ends (h : Prompt port chip m view limit lag left) (hfuel : Ample limit fuel) (w : W) :
    Ends (tpm2FifoPrepare port fuel chip) w (fun err _ => err = tpmSuccess) := by
  rw [tpm2FifoPrepare]
  apply Ends.call
  intro err w₁ hr
  have herr := h.write (.inl rfl) hr
  obtain ⟨d, -, heq | ⟨hneg, -⟩⟩ := h.commandReady hr
  swap
  · exact absurd hneg (not_lt.mpr herr)
  rw [if_neg (not_lt.mpr herr)]
  have hlasts : Lasts fun d => d.discarding ∨ d.phase = .receiving [] := by
    rintro d d' hj hev hrestarts
    by_cases hs : d.discarding
    · exact hrestarts hs
    · rw [hev.receiving (hj.resolve_left hs) (Bool.eq_false_iff.mpr hs)]
      exact hj
  have hshows (d : Device) (status : UInt8) (hj : d.discarding ∨ d.phase = .receiving []) (hs : Shows d status) :
      status &&& tpmStatCommandReady = tpmStatCommandReady :=
    hs.ready (hj.resolve_left (by rw [hs.settled]; exact Bool.false_ne_true))
  apply (tpm2WaitRegBits_ends h hfuel hlasts hshows (by simp [delays]) w₁ (.inl (by rw [heq]))).bind
  rintro ⟨err, status⟩ w₂ ⟨rfl, -⟩
  exact rfl

/-- Whatever state the device is in, the command is sent and executed. -/
theorem tpm2FifoSend_ends (h : Prompt port chip m view limit lag left) (hfuel : Ample limit fuel)
    (h10 : tpmHeaderSize ≤ (be32toh cmd.cmdSize).toNat)
    (hmax : (be32toh cmd.cmdSize).toNat ≤ maxSizeCmdbuf) (w : W) :
    Ends (tpm2FifoSend port fuel chip cmd) w
      (fun err w' => err = tpmSuccess ∧ Executing (view w).history cmd.serialise (view w')) := by
  have hstart : Unexecuted (view w).history (view w) := ⟨[], (List.append_nil _).symm, rfl⟩
  have hlive : Ends (tpm2FifoSend port fuel chip cmd) w (fun err _ => err = tpmSuccess) := by
    rw [tpm2FifoSend]
    apply Ends.call
    rintro ⟨err, status⟩ w₁ hr
    obtain ⟨hev, hanswer⟩ := h.readStatus hr
    have herr := (h.status hr).1
    have h₁ := hstart.evolves hev
    dsimp only
    rw [if_neg (not_lt.mpr herr)]
    by_cases hready : status &&& tpmStatCommandReady = 0
    · rw [if_pos hready]
      have hprepared := Ends.outcome cmd.serialise (tpm2FifoPrepare_ends h hfuel w₁) (fun _ _ hr => hr)
        (tpm2FifoPrepare_accepting h.toConforms w₁ h₁)
      apply hprepared.bind
      rintro err w₂ ⟨rfl, h₂⟩
      rw [if_neg (by decide)]
      exact sendBytes_ends h hfuel h10 hmax w₂ h₂
    · rw [if_neg hready]
      obtain ⟨hphase, hsettled⟩ := (hanswer herr).ready hready
      exact sendBytes_ends h hfuel h10 hmax w₁ ⟨hphase, hsettled, h₁⟩
  exact Ends.outcome cmd.serialise hlive (fun _ _ hr => hr) (tpm2FifoSend_executes h.toConforms h10 hmax w hstart)

end Send

section Receive

variable {past : List Event} {command response : List UInt8} {dest : Nat → Dest} {off : Nat}

theorem readBurst_ends (h : Prompt port chip m view limit lag left) (dest : Nat → Dest) (readSize : Int)
    (burst : Nat) (st : ReadState) (w : W) :
    Ends (readBurst port (localityStartAddress chip.locality) dest readSize burst st) w
      (fun r _ => r.1 = tpmSuccess ∧ st.size ≤ r.2.size ∧
        (0 < burst → st.loopIndex < readSize → st.size < r.2.size)) := by
  induction burst generalizing st w with
  | zero => exact ⟨rfl, le_rfl, fun h0 => absurd h0 (Nat.lt_irrefl 0)⟩
  | succ burst ih =>
      rw [readBurst]
      by_cases hlt : st.loopIndex < readSize
      · rw [if_pos hlt]
        apply Ends.call
        rintro ⟨err, val⟩ w₁ hr
        dsimp only
        rw [if_neg (not_lt.mpr (h.data hr))]
        apply (ih _ w₁).imp
        rintro r w₂ ⟨hret, hsize, -⟩
        dsimp only at hsize
        exact ⟨hret, by omega, fun _ _ => by omega⟩
      · rw [if_neg hlt]
        exact ⟨rfl, le_rfl, fun _ hlt' => absurd hlt' hlt⟩

/-- A pass ends that reads no more than the response has. -/
theorem readLoop_ends (h : Prompt port chip m view limit lag left) (hfuel : Ample limit fuel) (ht : Target dest off)
    {len : Nat} (hlen : len ≤ response.length) (hmax : len < fuel) (st : ReadState) (w : W)
    (hw : Collected past command response off 0 st (view w)) :
    Ends (readLoop port fuel chip (localityStartAddress chip.locality) dest len fuel st) w
      (fun r _ => r.1 = tpmSuccess) := by
  apply loop_ends (fun n st => readLoop port fuel chip _ dest len n st)
    (fun st w => ∃ y ≤ len, Collected past command response off y st (view w))
    (fun st _ => (len - st.size).toNat) _ fuel st w ⟨0, Nat.zero_le _, hw⟩
  · have hsize := hw.size
    omega
  rintro n st w ⟨y, hy, hc⟩ ih
  rw [readLoop]
  have hsize := hc.size
  by_cases hlt : st.size < len
  swap
  · rw [if_neg hlt]
    exact rfl
  rw [if_pos hlt]
  have hrest : response.drop (off + y) ≠ [] := by
    rw [ne_eq, List.drop_eq_nil_iff]
    omega
  have htransfers : Transfers (view w) := ⟨hc.responding.settled, .inr ⟨_, hrest, hc.responding.phase⟩⟩
  apply (tpm2FifoGetBurstcount_ends h hfuel w htransfers).bind
  rintro ⟨err, burst⟩ w₁ ⟨rfl, hburst, hview⟩
  dsimp only at hburst ⊢
  rw [if_neg (by decide)]
  have hpos : 0 < burst.toNat := Nat.pos_of_ne_zero fun h0 => hburst (UInt16.toNat_inj.mp h0)
  have hread := Ends.outcome command (readBurst_ends h dest len burst.toNat st w₁) (fun _ _ hr => hr.1)
    (readBurst_collects h.toConforms ht burst.toNat y st w₁ hy (hview ▸ hc))
  apply hread.bind
  rintro ⟨err, st'⟩ w₂ ⟨⟨rfl, -, hprogress⟩, z, hz, hc'⟩
  dsimp only at hprogress hc' ⊢
  have hindex := hc.index
  have hgrows := hprogress hpos (by omega)
  rw [if_neg (by decide)]
  exact ih st' w₂ ⟨z, hz, hc'⟩ (by omega)

theorem readData_ends (h : Prompt port chip m view limit lag left) (hfuel : Ample limit fuel) {expected : Int}
    {len : Nat} (ht : Target (readDest expected) off)
    (hlimit : (if expected = tpmReadHeader then (tpmHeaderSize : Int) else expected) = len)
    (hindex : (if expected = tpmReadHeader then (off : Int) else off - tpmHeaderSize) = 0) (hmax : len < fuel)
    {J : Device → Prop} (hlasts : Lasts J)
    (hcomes : ∀ d status, J d → Shows d status → status &&& tpmStatAvail = tpmStatAvail) (buf : TpmCmd)
    (hstart : ∀ w rest, J (view w) → (view w).phase = .responding rest → ∃ response, len ≤ response.length ∧
      Responding past command response off (view w) ∧ Holds response buf off) (w : W) (hw : J (view w)) :
    Ends (tpm2FifoReadData port fuel chip buf (localityStartAddress chip.locality) off expected) w
      (fun r _ => r.1 = tpmSuccess) := by
  rw [tpm2FifoReadData, hlimit, hindex]
  apply (tpm2WaitRegBits_ends h hfuel hlasts hcomes (by simp [delays]) w hw).bind
  rintro ⟨err, status⟩ w₁ ⟨rfl, hj, hset, hanswer⟩
  dsimp only at hset hanswer ⊢
  obtain ⟨rest, hphase, -⟩ := hanswer.avail (by rw [hset]; decide)
  obtain ⟨response, hlen, hresponding, hholds⟩ := hstart _ rest hj hphase
  have hc : Collected past command response off 0 ⟨0, off, buf⟩ (view w₁) :=
    ⟨rfl, (Int.zero_add _).symm, hresponding, hholds⟩
  rw [if_neg (by decide)]
  apply (readLoop_ends h hfuel ht hlen hmax _ w₁ hc).bind
  rintro ⟨err, st⟩ w₂ rfl
  exact rfl

theorem Responding.genuine {m : Machine σ} {d : Device} {k : Nat} (h : Responding past command response k d)
    (hg : m.Genuine d.history) : response = (m.step (m.stateAt past) command).1 := by
  obtain ⟨ext, hhistory, hext⟩ := h.once
  rw [hhistory] at hg
  exact hg.response hext

theorem Responding.wellFormed {m : Machine σ} {d : Device} {k : Nat} (h : Responding past command response k d)
    (hg : m.Genuine d.history) : WellFormed response := by
  rw [Responding.genuine h hg]
  exact m.wellFormed _ _

theorem Responding.avail {d : Device} {k : Nat} {status : UInt8} (h : Responding past command response k d)
    (hk : k < response.length) (hs : Shows d status) : status &&& tpmStatAvail = tpmStatAvail := by
  apply hs.avail _ h.phase
  rw [ne_eq, List.drop_eq_nil_iff]
  omega

def Underway (past : List Event) (command : List UInt8) (d : Device) : Prop :=
  Executing past command d ∨ ∃ response, Responding past command response 0 d

theorem underway_lasts (past : List Event) (command : List UInt8) : Lasts (Underway past command) := by
  rintro d d' (he | ⟨response, hr⟩) hev -
  · exact he.evolves hev
  · exact .inr ⟨response, hr.evolves hev⟩

theorem Underway.avail {d : Device} {status : UInt8} (h : Underway past command d) (hs : Shows d status) :
    status &&& tpmStatAvail = tpmStatAvail := by
  obtain he | ⟨response, hr⟩ := h
  · exact absurd he.phase (hs.finished command)
  · exact Responding.avail hr (Nat.lt_of_lt_of_le (by decide) hr.headed.1) hs

theorem Underway.responding {d : Device} {rest : List UInt8} (h : Underway past command d)
    (hphase : d.phase = .responding rest) : ∃ response, Responding past command response 0 d := by
  obtain he | hr := h
  · rw [he.phase] at hphase
    cases hphase
  · exact hr

theorem Underway.atMostOnce {d : Device} (h : Underway past command d) : AtMostOnce past command d := by
  obtain he | ⟨response, hr⟩ := h
  · exact he.atMostOnce
  · exact hr.atMostOnce

theorem holds_zero (response : List UInt8) (buf : TpmCmd) : Holds response buf 0 :=
  fun i hi => absurd hi (Nat.not_lt_zero i)

/-- The first pass brings the header of the response. -/
theorem readHeader_ends (h : Prompt port chip m view limit lag left) (hfuel : Ample limit fuel) (buf : TpmCmd)
    (w : W) (hw : Executing past command (view w)) :
    Ends (tpm2FifoReadData port fuel chip buf (localityStartAddress chip.locality) 0 tpmReadHeader) w
      (fun r w' => r.1 = tpmSuccess ∧ r.2.1 = (tpmHeaderSize : Nat) ∧ ∃ response,
        Responding past command response tpmHeaderSize (view w') ∧ Holds response r.2.2 tpmHeaderSize) := by
  have hten : tpmHeaderSize = 10 := rfl
  have hmaxbuf : maxSizeCmdbuf = 256 := rfl
  have hbursts := hfuel.bursts
  have hstart (w : W) (rest : List UInt8) (hj : Underway past command (view w))
      (hphase : (view w).phase = .responding rest) : ∃ response, tpmHeaderSize ≤ response.length ∧
        Responding past command response 0 (view w) ∧ Holds response buf 0 := by
    obtain ⟨response, hr⟩ := hj.responding hphase
    exact ⟨response, (Responding.wellFormed hr (h.genuine w)).header, hr, holds_zero response buf⟩
  have hlive := readData_ends h hfuel target_header rfl rfl (by omega) (underway_lasts past command)
    (fun _ _ hj hs => hj.avail hs) buf hstart w (.inl hw)
  have hunderway (d : Device) (hev : Evolves (view w) d) : Underway past command d := hw.evolves hev
  have hread := Ends.outcome command hlive (fun _ _ hr => hr)
    (readData_collects h.toConforms target_header rfl rfl (fun _ => True) buf w
      (fun d hev => (hunderway d hev).atMostOnce) fun d rest hev hphase =>
        ((hunderway d hev).responding hphase).imp fun response hr => ⟨trivial, hr, holds_zero response buf⟩)
  apply hread.imp
  rintro ⟨err, size, buf⟩ w₁ ⟨hret, response, z, -, hz, hfull, hcollected⟩
  obtain rfl : z = tpmHeaderSize := by omega
  have hresponding := hcollected.responding
  have hholds : Holds response buf (0 + tpmHeaderSize) := hcollected.holds
  rw [Nat.zero_add] at hresponding hholds
  exact ⟨hret, hcollected.size, response, hresponding, hholds⟩

theorem readRest_ends (h : Prompt port chip m view limit lag left) (hfuel : Ample limit fuel) {buf : TpmCmd} {w : W}
    (hw : Responding past command response tpmHeaderSize (view w)) (hholds : Holds response buf tpmHeaderSize)
    (hlong : tpmHeaderSize < response.length) (hfits : response.length ≤ maxSizeCmdbuf) :
    Ends (tpm2FifoReadData port fuel chip buf (localityStartAddress chip.locality) (tpmHeaderSize : Nat)
        (response.length : Nat)) w (fun r _ => r.1 = tpmSuccess ∧ (response.length : Nat) ≤ r.2.1) := by
  have hdata := size_ne_readHeader response.length
  have hindex : (if ((response.length : Nat) : Int) = tpmReadHeader then ((tpmHeaderSize : Nat) : Int)
      else (tpmHeaderSize : Nat) - tpmHeaderSize) = 0 := by
    rw [if_neg hdata]
    exact Int.sub_self _
  have hlive := readData_ends h hfuel (target_data hdata) (if_neg hdata) hindex
    (Nat.lt_of_le_of_lt hfits hfuel.bursts) (fun _ _ hr hev _ => Responding.evolves hr hev)
    (fun _ _ hr hs => Responding.avail hr hlong hs) buf (fun v _ hr _ => ⟨response, le_rfl, hr, hholds⟩) w hw
  have hread := Ends.outcome command hlive (fun _ _ hr => hr)
    (readData_collects h.toConforms (target_data hdata) (if_neg hdata) hindex (fun _ => True) buf w
      (fun d hev => (hw.evolves hev).atMostOnce) fun d rest hev _ =>
        ⟨response, trivial, hw.evolves hev, hholds⟩)
  apply hread.imp
  rintro ⟨err, size, out⟩ w₁ ⟨hret, _, z, -, hz, hfull, hcollected⟩
  have hsize : size = z + (tpmHeaderSize : Nat) := hcollected.size
  exact ⟨hret, by dsimp only; omega⟩

/-- The response to the command that executes is received. -/
theorem tpm2FifoReceive_ends [Host] (h : Prompt port chip m view limit lag left) (hfuel : Ample limit fuel)
    (buf : TpmCmd) (w : W) (hw : Executing past command (view w)) :
    Ends (tpm2FifoReceive port fuel chip buf) w
      (fun r w' => 0 ≤ r.1 ∧ Served past command r.2 (view w')) := by
  have hlive : Ends (tpm2FifoReceive port fuel chip buf) w (fun r _ => 0 ≤ r.1) := by
    rw [tpm2FifoReceive]
    apply (readHeader_ends h hfuel buf w hw).bind
    rintro ⟨err, size, buf⟩ w₁ ⟨rfl, hsize, response, hresponding, hholds⟩
    dsimp only at hsize hholds ⊢
    have hwell := Responding.wellFormed hresponding (h.genuine w₁)
    have hlength := cmdSize_holds hholds hresponding.headed
    have hfits := hwell.fits
    have hint : intOfUint32 (be32toh buf.cmdSize) = response.length := by
      rw [← hlength]
      exact intOfUint32_of_le (hlength ▸ hfits)
    rw [if_neg (by decide), if_neg fun hc => absurd (hlength ▸ (sizeT_intOfUint32 _).mp hc) (not_lt.mpr hfits),
      hint, hsize]
    by_cases hshort : response.length = tpmHeaderSize
    · rw [if_pos (congrArg Nat.cast hshort.symm)]
      exact Int.natCast_nonneg _
    have hlong : tpmHeaderSize < response.length := Nat.lt_of_le_of_ne hwell.header (Ne.symm hshort)
    have hrest : ¬ ((tpmHeaderSize : Nat) : Int) = (response.length : Nat) :=
      fun hc => hshort (Int.ofNat.inj hc).symm
    rw [if_neg hrest]
    apply (readRest_ends h hfuel hresponding hholds hlong hfits).bind
    rintro ⟨err, size, out⟩ w₂ ⟨rfl, hsize⟩
    dsimp only at hsize ⊢
    rw [if_neg (by decide), if_neg (not_lt.mpr hsize)]
    exact Int.le_refl 0
  refine (hlive.and (tpm2FifoReceive_serves h.toConforms buf w hw)).imp ?_
  rintro r w' ⟨hret, -, hdone⟩
  exact ⟨hret, hdone hret⟩

end Receive

end LibTpm.PromptDevice
