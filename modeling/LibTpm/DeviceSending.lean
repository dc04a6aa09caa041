import LibTpm.PollRounds
import LibTpm.PtpDevice

namespace LibTpm.DeviceSending

open LibTpm.Base.Process LibTpm.Base.Process.Proc LibTpm.Command LibTpm.Constants LibTpm.Endian
open LibTpm.Platform LibTpm.Fifo LibTpm.PollRounds LibTpm.PtpDevice

variable {W : Type}

theorem meets_call {α : Type} {m : StateM W α} {w : W} {Q : α → W → Prop} {C : W → Prop}
    (h : ∀ a w', m w = (a, w') → Q a w') : Meets (liftM m) w Q C := h _ _ rfl

section Polls

variable {port : FifoPort W} {base : UInt16} {view : W → Device}

/-- While the driver polls STATUS the device goes on by itself, and the bits
that end the polling are those of the last state. -/
theorem waitRegBitsLoop_evolves (hd : Conforms port base view) (set : UInt8) (delay : UInt64)
    (n : Nat) (w : W) :
    Meets (waitRegBitsLoop port (fifoReg base tpmFifoRegStatus) set delay n) w
      (fun r w' => Evolves (view w) (view w') ∧
        (0 ≤ r.1 → r.2 &&& set = set ∧ StatusAnswer (view w') r.2))
      (fun w' => Evolves (view w) (view w')) := by
  refine waitRegBitsLoop_meets (I := fun _ w' => Evolves (view w) (view w')) (fun _ hev => hev) ?_ .refl
  rintro n v o v' hev hround
  cases hround with
  | failed read neg => exact ⟨hev.trans (hd.readStatus read).1, fun h0 => absurd neg (not_lt.mpr h0)⟩
  | found read ok bits =>
      obtain ⟨hev', hanswer⟩ := hd.readStatus read
      exact ⟨hev.trans hev', fun _ => ⟨bits, hanswer ok⟩⟩
  | expired read ok unset timer =>
      refine ⟨(hev.trans (hd.readStatus read).1).trans (hd.timeoutElapsed timer), fun h0 => ?_⟩
      exact absurd h0 (show ¬ (0 : Int) ≤ tpmErrTimeout by decide)
  | vain read ok unset timer => exact (hev.trans (hd.readStatus read).1).trans (hd.timeoutElapsed timer)

theorem tpm2WaitRegBits_evolves (hd : Conforms port base view) (fuel : Nat) (set : UInt8)
    (timeout : UInt64) (w : W) :
    Meets (tpm2WaitRegBits port fuel (fifoReg base tpmFifoRegStatus) set timeout) w
      (fun r w' => Evolves (view w) (view w') ∧
        (0 ≤ r.1 → r.2 &&& set = set ∧ StatusAnswer (view w') r.2))
      (fun w' => Evolves (view w) (view w')) := by
  rw [tpm2WaitRegBits, meets_bind]
  apply meets_call
  intro cnt w₁ ht
  have hev := hd.timeoutInit ht
  refine (waitRegBitsLoop_evolves hd set cnt fuel w₁).mono ?_ ?_
  · rintro r w₂ ⟨hev₂, hdone⟩
    exact ⟨hev.trans hev₂, hdone⟩
  · intro w₂ hev₂
    exact hev.trans hev₂

theorem getBurstcountLoop_evolves (hd : Conforms port base view) (delay : UInt64) (n : Nat) (w : W) :
    Meets (getBurstcountLoop port base delay n) w (fun _ w' => Evolves (view w) (view w'))
      (fun w' => Evolves (view w) (view w')) := by
  refine getBurstcountLoop_meets (I := fun _ w' => Evolves (view w) (view w')) (fun _ hev => hev) ?_ .refl
  rintro n v o v' hev hround
  cases hround with
  | failedLo lo neg => exact hev.trans (hd.readBurst (.inl rfl) lo)
  | failedHi lo ok₀ hi neg => exact (hev.trans (hd.readBurst (.inl rfl) lo)).trans (hd.readBurst (.inr rfl) hi)
  | found lo ok₀ hi ok₁ burst => exact (hev.trans (hd.readBurst (.inl rfl) lo)).trans (hd.readBurst (.inr rfl) hi)
  | expired lo ok₀ hi ok₁ zero timer | vain lo ok₀ hi ok₁ zero timer =>
      have hread := (hev.trans (hd.readBurst (.inl rfl) lo)).trans (hd.readBurst (.inr rfl) hi)
      exact hread.trans (hd.timeoutElapsed timer)

theorem tpm2FifoGetBurstcount_evolves {chip : ChipData}
    (hd : Conforms port (localityStartAddress chip.locality) view) (fuel : Nat) (w : W) :
    Meets (tpm2FifoGetBurstcount port fuel chip) w (fun _ w' => Evolves (view w) (view w'))
      (fun w' => Evolves (view w) (view w')) := by
  rw [tpm2FifoGetBurstcount, meets_bind]
  apply meets_call
  intro cnt w₁ ht
  have hev := hd.timeoutInit ht
  refine (getBurstcountLoop_evolves hd cnt fuel w₁).mono ?_ ?_
  · intro r w₂ hev₂
    exact hev.trans hev₂
  · intro w₂ hev₂
    exact hev.trans hev₂

end Polls

section Stages

variable {past : List Event} {command input : List UInt8} {d d' : Device}

def Unexecuted (past : List Event) (d : Device) : Prop :=
  ∃ ext, d.history = past ++ ext ∧ executions ext = []

def AtMostOnce (past : List Event) (command : List UInt8) (d : Device) : Prop :=
  ∃ ext, d.history = past ++ ext ∧ (executions ext = [] ∨ executions ext = [command])

structure Accepting (past : List Event) (input : List UInt8) (d : Device) : Prop where
  phase : d.phase = .receiving input
  settled : d.discarding = false
  unexecuted : Unexecuted past d

structure Executing (past : List Event) (command : List UInt8) (d : Device) : Prop where
  phase : d.phase = .executing command
  settled : d.discarding = false
  once : ∃ ext, d.history = past ++ (ext ++ [.executes command]) ∧ executions ext = []

/-- `k` reads have been made of the response to the command. -/
structure Responding (past : List Event) (command response : List UInt8) (k : Nat) (d : Device) :
    Prop where
  phase : d.phase = .responding (response.drop k)
  settled : d.discarding = false
  headed : Headed response
  once : ∃ ext, d.history = past ++ (ext ++ [.executes command, .responds command response]) ∧
    executions ext = []

def Outcome (past : List Event) (command : List UInt8) (P : Device → Prop) (err : Int) (d : Device) :
    Prop := (err < 0 → AtMostOnce past command d) ∧ (0 ≤ err → P d)

theorem Outcome.ok {P : Device → Prop} (h : P d) : Outcome past command P tpmSuccess d :=
  ⟨fun h0 => absurd h0 (by decide), fun _ => h⟩

theorem Outcome.fail {P : Device → Prop} {err : Int} (herr : err < 0) (h : AtMostOnce past command d) :
    Outcome past command P err d :=
  ⟨fun _ => h, fun h0 => absurd herr (not_lt.mpr h0)⟩

theorem Outcome.lands {P : Device → Prop} {err : Int} {next after : Device} (h : Lands err d next after)
    (hd : AtMostOnce past command d) (hnext : AtMostOnce past command next) (hP : P next) :
    Outcome past command P err after := by
  rcases h with rfl | ⟨herr, rfl⟩
  · exact ⟨fun _ => hnext, fun _ => hP⟩
  · exact .fail herr hd

theorem Unexecuted.evolves (h : Unexecuted past d) (he : Evolves d d') : Unexecuted past d' := by
  obtain ⟨ext, hext, hn⟩ := h
  obtain ⟨ext', hext', hn'⟩ := he.history
  refine ⟨ext ++ ext', ?_, ?_⟩
  · rw [hext', hext, List.append_assoc]
  · rw [executions_append, hn, hn']
    rfl

theorem Unexecuted.atMostOnce (h : Unexecuted past d) : AtMostOnce past command d := by
  obtain ⟨ext, hext, hn⟩ := h
  exact ⟨ext, hext, .inl hn⟩

theorem Accepting.evolves (h : Accepting past input d) (he : Evolves d d') : Accepting past input d' := by
  rw [he.receiving h.phase h.settled]
  exact h

theorem Accepting.atMostOnce (h : Accepting past input d) : AtMostOnce past command d :=
  h.unexecuted.atMostOnce

theorem Executing.atMostOnce (h : Executing past command d) : AtMostOnce past command d := by
  obtain ⟨ext, hext, hn⟩ := h.once
  refine ⟨_, hext, .inr ?_⟩
  rw [executions_append, hn]
  rfl

theorem Responding.atMostOnce {response : List UInt8} {k : Nat}
    (h : Responding past command response k d) : AtMostOnce past command d := by
  obtain ⟨ext, hext, hn⟩ := h.once
  refine ⟨_, hext, .inr ?_⟩
  rw [executions_append, hn]
  rfl

theorem Responding.evolves {response : List UInt8} {k : Nat}
    (h : Responding past command response k d) (he : Evolves d d') :
    Responding past command response k d' := by
  rw [he.responding h.phase h.settled]
  exact h

theorem Executing.evolves (h : Executing past command d) (he : Evolves d d') :
    Executing past command d' ∨ ∃ response, Responding past command response 0 d' := by
  rcases he.executing h.phase h.settled with rfl | ⟨response, hr, rfl⟩
  · exact .inl h
  · obtain ⟨ext, hext, hn⟩ := h.once
    refine .inr ⟨response, rfl, rfl, hr, ext, ?_, hn⟩
    rw [hext]
    simp only [List.append_assoc, List.cons_append, List.nil_append]

end Stages

section Send

variable [Host] {port : FifoPort W} {view : W → Device} {fuel : Nat} {chip : ChipData}
variable {past : List Event} {command : List UInt8} {cmd : TpmCmd}

omit [Host] in
theorem sendByte_accepting {base : UInt16} (hd : Conforms port base view) {w w' : W}
    {input : List UInt8} {val : UInt8} {err : Int} (h : Accepting past input (view w))
    (hr : port.writeByte (fifoReg base tpmFifoRegDataFifo) val w = (err, w')) :
    Outcome past command (Accepting past (input ++ [val])) err (view w') := by
  obtain ⟨d, hev, hlands⟩ := hd.sendByte hr
  have hd' := h.evolves hev
  have hnext : Accepting past (input ++ [val]) { d with phase := .receiving (input ++ [val]) } :=
    ⟨rfl, hd'.settled, hd'.unexecuted⟩
  exact .lands (hlands input hd'.phase) hd'.atMostOnce hnext.atMostOnce hnext

omit [Host] in
theorem writeHeader_accepting {base : UInt16} (hd : Conforms port base view) (bs : List UInt8)
    (input : List UInt8) (w : W) (h : Accepting past input (view w)) :
    Meets (writeHeader port base bs) w
      (fun err w' => Outcome past command (Accepting past (input ++ bs)) err (view w'))
      (fun w' => AtMostOnce past command (view w')) := by
  induction bs generalizing input w with
  | nil =>
      rw [List.append_nil]
      exact .ok h
  | cons b bs ih =>
      rw [writeHeader, meets_bind]
      apply meets_call
      intro err w₁ hr
      have ho : Outcome past command (Accepting past (input ++ [b])) err (view w₁) :=
        sendByte_accepting hd h hr
      by_cases herr : err < 0
      · rw [if_pos herr]
        exact .fail herr (ho.1 herr)
      · rw [if_neg herr]
        have hn := ih (input ++ [b]) w₁ (ho.2 (not_lt.mp herr))
        rwa [List.append_assoc] at hn

theorem writeBurst_accepting {base : UInt16} (hd : Conforms port base view) {len : Nat}
    (hlen : (be32toh cmd.cmdSize).toNat = len) (hmax : len ≤ maxSizeCmdbuf) (burst index : Nat) (w : W)
    (h : Accepting past (cmd.serialise.take index) (view w)) (h10 : tpmHeaderSize ≤ index)
    (hi : index ≤ len) :
    Meets (writeBurst port base cmd len burst index) w
      (fun r w' => Outcome past command
        (fun d => Accepting past (cmd.serialise.take r.2) d ∧ index ≤ r.2 ∧ r.2 ≤ len) r.1 (view w'))
      (fun w' => AtMostOnce past command (view w')) := by
  induction burst generalizing index w with
  | zero => exact meets_pure.mpr (.ok ⟨h, le_rfl, hi⟩)
  | succ burst ih =>
      rw [writeBurst]
      by_cases hlt : index < len
      · rw [if_pos hlt, meets_bind]
        apply meets_call
        intro err w₁ hr
        have htake : cmd.serialise.take index ++ [cmd.data (index - tpmHeaderSize)] =
            cmd.serialise.take (index + 1) := by
          rw [List.take_add_one, cmd.serialise_getElem? (hlen ▸ hmax) (hlen ▸ hlt), TpmCmd.data,
            Nat.add_sub_cancel' h10]
          rfl
        have ho : Outcome past command (Accepting past (cmd.serialise.take (index + 1))) err (view w₁) := by
          rw [← htake]
          exact sendByte_accepting hd h hr
        by_cases herr : err < 0
        · rw [if_pos herr]
          exact meets_pure.mpr (.fail herr (ho.1 herr))
        · rw [if_neg herr]
          refine (ih (index + 1) w₁ (ho.2 (not_lt.mp herr)) (by omega) (by omega)).imp ?_
          rintro r w₂ ⟨hfail, hdone⟩
          refine ⟨hfail, fun h0 => ?_⟩
          obtain ⟨ha, hle, hrl⟩ := hdone h0
          exact ⟨ha, by omega, hrl⟩
      · rw [if_neg hlt]
        exact meets_pure.mpr (.ok ⟨h, le_rfl, hi⟩)

theorem writeData_accepting (hd : Conforms port (localityStartAddress chip.locality) view) {len : Nat}
    (hlen : (be32toh cmd.cmdSize).toNat = len) (hmax : len ≤ maxSizeCmdbuf) (n index : Nat) (w : W)
    (h : Accepting past (cmd.serialise.take index) (view w)) (h10 : tpmHeaderSize ≤ index)
    (hi : index ≤ len) :
    Meets (writeData port fuel chip (localityStartAddress chip.locality) cmd len n index) w
      (fun err w' => Outcome past command (Accepting past (cmd.serialise.take len)) err (view w'))
      (fun w' => AtMostOnce past command (view w')) := by
  induction n generalizing index w with
  | zero =>
      rw [writeData]
      split
      next => exact h.atMostOnce
      next hge =>
        obtain rfl : index = len := by omega
        exact meets_pure.mpr (.ok h)
  | succ n ih =>
      rw [writeData]
      split
      next hlt =>
        rw [meets_bind]
        refine (tpm2FifoGetBurstcount_evolves hd fuel w).mono ?_ ?_
        · rintro ⟨err, burst⟩ w₁ hev
          have h₁ := h.evolves hev
          dsimp only
          by_cases herr : err < 0
          · rw [if_pos herr]
            exact meets_pure.mpr (.fail herr h₁.atMostOnce)
          rw [if_neg herr, meets_bind]
          refine (writeBurst_accepting hd hlen hmax burst.toNat index w₁ h₁ h10 hi).imp ?_
          rintro ⟨err, index'⟩ w₂ ho
          dsimp only at ho ⊢
          by_cases herr : err < 0
          · rw [if_pos herr]
            exact meets_pure.mpr (.fail herr (ho.1 herr))
          · rw [if_neg herr]
            obtain ⟨ha, hle, hi'⟩ := ho.2 (not_lt.mp herr)
            exact ih index' w₂ ha (by omega) hi'
        · intro w₁ hev
          exact (h.evolves hev).atMostOnce
      next hge =>
        obtain rfl : index = len := by omega
        exact meets_pure.mpr (.ok h)

theorem not_expecting_serialise (h10 : tpmHeaderSize ≤ (be32toh cmd.cmdSize).toNat)
    (hmax : (be32toh cmd.cmdSize).toNat ≤ maxSizeCmdbuf) : ¬ Expecting cmd.serialise := by
  have hlen : cmd.serialise.length = (be32toh cmd.cmdSize).toNat := by
    rw [TpmCmd.serialise, List.length_take, cmd.length_bytes]
    exact min_eq_left hmax
  have hten : tpmHeaderSize = 10 := rfl
  have hget : ∀ i < tpmHeaderSize, cmd.serialise.getD i 0 = cmd.byte i := by
    intro i hi
    rw [List.getD_eq_getElem?_getD, cmd.serialise_getElem? hmax (by omega)]
    rfl
  have hsize : sizeField cmd.serialise = (be32toh cmd.cmdSize).toNat := by
    rw [sizeField, TpmCmd.be32toh_cmdSize, hget 2 (by decide), hget 3 (by decide), hget 4 (by decide),
      hget 5 (by decide)]
  rw [Expecting, hsize, hlen, sizeFieldEnd]
  omega

theorem sendBytes_executes (hd : Conforms port (localityStartAddress chip.locality) view)
    (h10 : tpmHeaderSize ≤ (be32toh cmd.cmdSize).toNat)
    (hmax : (be32toh cmd.cmdSize).toNat ≤ maxSizeCmdbuf) (w : W) (h : Accepting past [] (view w)) :
    Meets (sendBytes port fuel chip cmd) w
      (fun err w' => Outcome past cmd.serialise (Executing past cmd.serialise) err (view w'))
      (fun w' => AtMostOnce past cmd.serialise (view w')) := by
  have hheader : cmd.header = cmd.serialise.take tpmHeaderSize := by
    rw [TpmCmd.serialise, List.take_take, min_eq_left h10, TpmCmd.header]
  have hlen : cmd.serialise.take (be32toh cmd.cmdSize).toNat = cmd.serialise := by
    rw [TpmCmd.serialise, List.take_take, min_self]
  rw [sendBytes, meets_bind]
  refine (writeHeader_accepting hd cmd.header [] w h).mono ?_ (fun _ hc => hc)
  intro err w₁ ho
  by_cases herr : err < 0
  · rw [if_pos herr]
    exact .fail herr (ho.1 herr)
  have h₁ := ho.2 (not_lt.mp herr)
  rw [List.nil_append, hheader] at h₁
  rw [if_neg herr]
  dsimp only
  rw [if_neg (not_lt.mpr h10), meets_bind]
  refine (writeData_accepting hd rfl hmax fuel tpmHeaderSize w₁ h₁ le_rfl h10).mono ?_ (fun _ hc => hc)
  intro err w₂ ho
  by_cases herr : err < 0
  · rw [if_pos herr]
    exact .fail herr (ho.1 herr)
  have h₂ := ho.2 (not_lt.mp herr)
  rw [hlen] at h₂
  rw [if_neg herr, meets_bind]
  refine (tpm2WaitRegBits_evolves hd fuel _ _ w₂).mono ?_ ?_
  · rintro ⟨err, status⟩ w₃ ⟨hev, -⟩
    have h₃ := h₂.evolves hev
    dsimp only
    by_cases herr : err < 0
    · rw [if_pos herr]
      exact .fail herr h₃.atMostOnce
    rw [if_neg herr]
    by_cases hexpect : status &&& tpmStatExpect ≠ 0
    · rw [if_pos hexpect]
      exact .fail (show tpmErrTransfer < 0 by decide) h₃.atMostOnce
    rw [if_neg hexpect, meets_bind]
    apply meets_call
    intro err w₄ hr
    obtain ⟨d, hev, hlands⟩ := hd.go hr
    have hd' := h₃.evolves hev
    obtain ⟨ext, hext, hn⟩ := hd'.unexecuted
    have hnext : Executing past cmd.serialise
        { d with phase := .executing cmd.serialise, history := d.history ++ [.executes cmd.serialise] } := by
      refine ⟨rfl, hd'.settled, ext, ?_, hn⟩
      rw [hext, List.append_assoc]
    have ho : Outcome past cmd.serialise (Executing past cmd.serialise) err (view w₄) :=
      .lands (hlands _ hd'.phase (not_expecting_serialise h10 hmax)) hd'.atMostOnce hnext.atMostOnce hnext
    by_cases herr : err < 0
    · rw [if_pos herr]
      exact .fail herr (ho.1 herr)
    · rw [if_neg herr]
      exact .ok (ho.2 (not_lt.mp herr))
  · intro w₃ hev
    exact (h₂.evolves hev).atMostOnce

omit [Host] in
/-- A COMMAND_READY that is seen to have taken effect leaves nothing of an
earlier command. -/
theorem tpm2FifoPrepare_accepting (hd : Conforms port (localityStartAddress chip.locality) view) (w : W)
    (h : Unexecuted past (view w)) :
    Meets (tpm2FifoPrepare port fuel chip) w
      (fun err w' => Outcome past command (Accepting past []) err (view w'))
      (fun w' => AtMostOnce past command (view w')) := by
  rw [tpm2FifoPrepare, meets_bind]
  apply meets_call
  intro err w₁ hr
  obtain ⟨d, hev, hlands⟩ := hd.commandReady hr
  have hd' := h.evolves hev
  have h₁ : Unexecuted past (view w₁) := by
    rcases hlands with heq | ⟨-, heq⟩ <;> rw [heq] <;> exact hd'
  by_cases herr : err < 0
  · rw [if_pos herr]
    exact .fail herr h₁.atMostOnce
  rw [if_neg herr, meets_bind]
  refine (tpm2WaitRegBits_evolves hd fuel _ _ w₁).mono ?_ ?_
  · rintro ⟨err, status⟩ w₂ ⟨hev, hdone⟩
    have h₂ := h₁.evolves hev
    dsimp only
    by_cases herr : err < 0
    · rw [if_pos herr]
      exact .fail herr h₂.atMostOnce
    · obtain ⟨hset, hanswer⟩ := hdone (not_lt.mp herr)
      have hne : status &&& tpmStatCommandReady ≠ 0 := by
        dsimp only at hset
        rw [hset]
        decide
      obtain ⟨hphase, hsettled⟩ := hanswer.ready hne
      rw [if_neg herr]
      exact .ok ⟨hphase, hsettled, h₂⟩
  · intro w₂ hev
    exact (h₁.evolves hev).atMostOnce

/-- Whatever an earlier exchange has left behind, a send that succeeds has the
device execute its own command. -/
theorem tpm2FifoSend_executes (hd : Conforms port (localityStartAddress chip.locality) view)
    (h10 : tpmHeaderSize ≤ (be32toh cmd.cmdSize).toNat)
    (hmax : (be32toh cmd.cmdSize).toNat ≤ maxSizeCmdbuf) (w : W) (h : Unexecuted past (view w)) :
    Meets (tpm2FifoSend port fuel chip cmd) w
      (fun err w' => Outcome past cmd.serialise (Executing past cmd.serialise) err (view w'))
      (fun w' => AtMostOnce past cmd.serialise (view w')) := by
  rw [tpm2FifoSend, meets_bind]
  apply meets_call
  rintro ⟨err, status⟩ w₁ hr
  obtain ⟨hev, hanswer⟩ := hd.readStatus hr
  have h₁ := h.evolves hev
  dsimp only
  by_cases herr : err < 0
  · rw [if_pos herr]
    exact .fail herr h₁.atMostOnce
  rw [if_neg herr]
  by_cases hready : status &&& tpmStatCommandReady = 0
  · rw [if_pos hready, meets_bind]
    refine (tpm2FifoPrepare_accepting hd w₁ h₁).mono ?_ (fun _ hc => hc)
    intro err w₂ ho
    by_cases herr : err < 0
    · rw [if_pos herr]
      exact .fail herr (ho.1 herr)
    · rw [if_neg herr]
      exact sendBytes_executes hd h10 hmax w₂ (ho.2 (not_lt.mp herr))
  · rw [if_neg hready]
    obtain ⟨hphase, hsettled⟩ := (hanswer (not_lt.mp herr)).ready hready
    exact sendBytes_executes hd h10 hmax w₁ ⟨hphase, hsettled, h₁⟩

end Send

end LibTpm.DeviceSending
