import LibTpm.FifoProtocol
import LibTpm.Invariance
import LibTpm.ReceiveBounds

namespace LibTpm.ResponseSizes

open LibTpm.Base.Process LibTpm.Base.Process.Proc LibTpm.Base.BigEndian LibTpm.Command LibTpm.Constants
open LibTpm.Endian LibTpm.Platform LibTpm.Fifo LibTpm.PollRounds LibTpm.FifoTrace LibTpm.FifoProtocol LibTpm.Invariance

variable {W : Type} {base : UInt16}

def receivedByte (base : UInt16) : Access → Option UInt8
  | .read reg _ err val => if reg = fifoReg base tpmFifoRegDataFifo ∧ 0 ≤ err then some val else none
  | _ => none

def receivedBytes (base : UInt16) (tr : List Access) : List UInt8 := tr.filterMap (receivedByte base)

def AvailSeen (base : UInt16) (tr : List Access) : Prop :=
  ∃ e ∈ tr, StatusRead base (fun v => v &&& tpmStatAvail = tpmStatAvail) e

def field (offset : Nat) (header : List UInt8) : Nat := beNat ((header.drop offset).take 4)

/-- The device yields a whole header whose size field is less than the size of
a header, and after it a STATUS byte with AVAIL. -/
structure Undersized (base : UInt16) (tr : List Access) (header : List UInt8) : Prop where
  answered : ∃ pre post, tr = pre ++ post ∧ receivedBytes base pre = header ∧ AvailSeen base post
  whole : header.length = tpmHeaderSize
  short : field 2 header < tpmHeaderSize

/-- The size field of the response covers its header and fits the buffer. -/
def SizeInRange [Host] (resp : TpmCmd) : Prop :=
  tpmHeaderSize ≤ (be32toh resp.cmdSize).toNat ∧ (be32toh resp.cmdSize).toNat ≤ maxSizeCmdbuf

section Traces

@[simp] theorem receivedBytes_append (tr tr' : List Access) :
    receivedBytes base (tr ++ tr') = receivedBytes base tr ++ receivedBytes base tr' := List.filterMap_append

@[simp] theorem availSeen_append {tr tr' : List Access} :
    AvailSeen base (tr ++ tr') ↔ AvailSeen base tr ∨ AvailSeen base tr' := by
  simp only [AvailSeen, List.mem_append, or_and_right, exists_or]

@[simp] theorem availSeen_status {dst : Dest} {err : Int} {val : UInt8} :
    AvailSeen base [.read (fifoReg base tpmFifoRegStatus) dst err val] ↔
      0 ≤ err ∧ val &&& tpmStatAvail = tpmStatAvail := by
  simp [AvailSeen, StatusRead]

theorem receivedBytes_other {reg : UInt16} (h : reg ≠ fifoReg base tpmFifoRegDataFifo) (dst : Dest) (err : Int)
    (val : UInt8) : receivedBytes base [.read reg dst err val] = [] := by
  simp [receivedBytes, receivedByte, h]

theorem receivedBytes_fifo {err : Int} (h : 0 ≤ err) (dst : Dest) (val : UInt8) :
    receivedBytes base [.read (fifoReg base tpmFifoRegDataFifo) dst err val] = [val] := by
  simp [receivedBytes, receivedByte, h]

theorem receivedBytes_failed {err : Int} (h : err < 0) (reg : UInt16) (dst : Dest) (val : UInt8) :
    receivedBytes base [.read reg dst err val] = [] := by
  simp [receivedBytes, receivedByte, not_le.mpr h]

theorem availSeen_other {reg : UInt16} (h : reg ≠ fifoReg base tpmFifoRegStatus) (dst : Dest) (err : Int)
    (val : UInt8) : ¬ AvailSeen base [.read reg dst err val] := by
  simp [AvailSeen, StatusRead, h]

theorem receivedBytes_polls {regs : List UInt16} {tr : List Access} (h : Polls regs tr)
    (hregs : fifoReg base tpmFifoRegDataFifo ∉ regs) : receivedBytes base tr = [] := by
  rw [receivedBytes, List.filterMap_eq_nil_iff]
  intro e he
  rcases h.polls e he with ⟨reg, hreg, err, val, rfl⟩ | he
  · have hne : reg ≠ fifoReg base tpmFifoRegDataFifo := fun hc => hregs (hc ▸ hreg)
    simp [receivedByte, hne]
  · cases e with
    | read | write | readChunk => exact absurd trivial he
    | timeoutInit | timeoutElapsed => rfl

theorem not_availSeen_polls {regs : List UInt16} {tr : List Access} (h : Polls regs tr)
    (hregs : fifoReg base tpmFifoRegStatus ∉ regs) : ¬ AvailSeen base tr := by
  rintro ⟨e, he, hs⟩
  rcases h.polls e he with ⟨reg, hreg, err, val, rfl⟩ | hr
  · exact hregs (hs.1 ▸ hreg)
  · cases e with
    | read | write | readChunk => exact hr trivial
    | timeoutInit | timeoutElapsed => exact hs

theorem burstRegs_ne_statusReg (base : UInt16) : fifoReg base tpmFifoRegStatus ∉
    [fifoReg base tpmFifoRegBurstCountLo, fifoReg base tpmFifoRegBurstCountHi] := by
  simp only [List.mem_cons, List.not_mem_nil, or_false, not_or]
  exact ⟨fifoReg_ne base (by decide), fifoReg_ne base (by decide)⟩

end Traces

section Header

/-- The accesses of a receive up to the end of its header pass: the wait, then
the bursts. -/
structure HeaderPass (base : UInt16) (tr : List Access) (header : List UInt8) : Prop where
  parts : ∃ wait bursts, tr = wait ++ bursts ∧ receivedBytes base wait = [] ∧
    receivedBytes base bursts = header ∧ ¬ AvailSeen base bursts
  whole : header.length = tpmHeaderSize

theorem Undersized.header_le {tr : List Access} {header : List UInt8} (h : Undersized base tr header) :
    tpmHeaderSize ≤ (receivedBytes base tr).length := by
  obtain ⟨pre, post, rfl, hpre, -⟩ := h.answered
  rw [receivedBytes_append, List.length_append, hpre, h.whole]
  exact Nat.le_add_right _ _

/-- Whether the header is undersized is decided by the header pass and the
status bytes that follow it. -/
theorem HeaderPass.undersized_iff {tr rest : List Access} {header header' : List UInt8}
    (h : HeaderPass base tr header) : Undersized base (tr ++ rest) header' ↔
      header' = header ∧ field 2 header < tpmHeaderSize ∧ AvailSeen base rest := by
  obtain ⟨⟨wait, bursts, rfl, hwait, hbursts, hno⟩, hwhole⟩ := h
  constructor
  · rintro ⟨⟨pre, post, htr, hpre, havail⟩, hwhole', hshort⟩
    rw [List.append_assoc] at htr
    rcases List.append_eq_append_iff.mp htr with ⟨more, rfl, hrest⟩ | ⟨more, rfl, -⟩
    · rw [receivedBytes_append, hwait, List.nil_append] at hpre
      rcases List.append_eq_append_iff.mp hrest with ⟨last, rfl, rfl⟩ | ⟨last, rfl, rfl⟩
      · -- the header pass ends within `pre`
        rw [receivedBytes_append, hbursts] at hpre
        have hlast : receivedBytes base last = [] := by
          rw [← List.length_eq_zero_iff]
          have := congrArg List.length hpre
          rw [List.length_append] at this
          omega
        rw [hlast, List.append_nil] at hpre
        subst hpre
        exact ⟨rfl, hshort, availSeen_append.mpr (.inr havail)⟩
      · rw [receivedBytes_append, hpre] at hbursts
        have hlast : receivedBytes base last = [] := by
          rw [← List.length_eq_zero_iff]
          have := congrArg List.length hbursts
          rw [List.length_append] at this
          omega
        rw [hlast, List.append_nil] at hbursts
        subst hbursts
        rw [availSeen_append, not_or] at hno
        exact ⟨rfl, hshort, (availSeen_append.mp havail).resolve_left hno.2⟩
    · rw [receivedBytes_append, hpre, List.append_eq_nil_iff] at hwait
      rw [hwait.1] at hwhole'
      exact absurd hwhole' (by decide)
  · rintro ⟨rfl, hshort, havail⟩
    refine ⟨⟨wait ++ bursts, rest, rfl, ?_, havail⟩, hwhole, hshort⟩
    rw [receivedBytes_append, hwait, hbursts, List.nil_append]

end Header

section Passes

variable {port : FifoPort W}

structure AvailWait (base : UInt16) (err : Int) (ext : List Access) : Prop where
  silent : receivedBytes base ext = []
  avail : 0 ≤ err ↔ AvailSeen base ext

theorem waitAvailLoop_ends (delay : UInt64) (n : Nat) (w : W) (tr ext : List Access)
    (hs : receivedBytes base ext = []) (ha : ¬ AvailSeen base ext) :
    Meets (waitRegBitsLoop port.recorded (fifoReg base tpmFifoRegStatus) tpmStatAvail delay n) (w, tr ++ ext)
      (fun r s => ∃ ext', s.2 = tr ++ ext' ∧ AvailWait base r.1 ext')
      (fun s => ∃ ext', s.2 = tr ++ ext' ∧ receivedBytes base ext' = [] ∧ ¬ AvailSeen base ext') := by
  refine waitRegBitsLoop_meets
    (I := fun _ (s : W × List Access) => ∃ ext, s.2 = tr ++ ext ∧ receivedBytes base ext = [] ∧ ¬ AvailSeen base ext)
    (fun _ h => h) ?_ ⟨ext, rfl, hs, ha⟩
  rintro n s o s' ⟨ext, hlog, hs, ha⟩ hround
  -- the read of STATUS brings no byte, and shows AVAIL only in `found`
  have hread {err : Int} {val : UInt8} {s₁ : W × List Access}
      (h : port.recorded.readByte (fifoReg base tpmFifoRegStatus) .variable s = ((err, val), s₁)) :
      ∃ ext', s₁.2 = tr ++ ext' ∧ receivedBytes base ext' = [] ∧
        (AvailSeen base ext' ↔ 0 ≤ err ∧ val &&& tpmStatAvail = tpmStatAvail) := by
    refine ⟨ext ++ [.read (fifoReg base tpmFifoRegStatus) .variable err val], ?_, ?_, ?_⟩
    · rw [(recorded_read h).2, hlog, List.append_assoc]
    · rw [receivedBytes_append, hs, receivedBytes_other (fifoReg_ne base (by decide)), List.append_nil]
    · rw [availSeen_append, availSeen_status, or_iff_right ha]
  have htimer {s₁ : W × List Access} {ext' : List Access} {elapsed : Bool} (hlog : s₁.2 = tr ++ ext')
      (hs : receivedBytes base ext' = []) (ha : ¬ AvailSeen base ext')
      (h : port.recorded.timeoutElapsed delay s₁ = (elapsed, s')) :
      ∃ ext', s'.2 = tr ++ ext' ∧ receivedBytes base ext' = [] ∧ ¬ AvailSeen base ext' := by
    refine ⟨ext' ++ [.timeoutElapsed delay elapsed], ?_, ?_, ?_⟩
    · rw [(recorded_timeoutElapsed h).2, hlog, List.append_assoc]
    · rw [receivedBytes_append, hs]
      rfl
    · rw [availSeen_append, not_or]
      exact ⟨ha, by simp [AvailSeen, StatusRead]⟩
  cases hround with
  | failed read neg =>
      obtain ⟨ext', hlog', hs', hseen⟩ := hread read
      refine ⟨ext', hlog', hs', ?_⟩
      rw [hseen, ← not_lt]
      exact ⟨fun h => absurd neg h, fun h => absurd neg h.1⟩
  | found read ok bits =>
      obtain ⟨ext', hlog', hs', hseen⟩ := hread read
      exact ⟨ext', hlog', hs', fun _ => hseen.mpr ⟨ok, bits⟩, fun _ => le_refl 0⟩
  | expired read ok unset timer =>
      obtain ⟨ext', hlog', hs', hseen⟩ := hread read
      obtain ⟨ext'', hlog'', hs'', hno⟩ := htimer hlog' hs' (fun h => unset (hseen.mp h).2) timer
      exact ⟨ext'', hlog'', hs'', fun h => absurd h (show ¬ 0 ≤ tpmErrTimeout by decide), fun h => absurd h hno⟩
  | vain read ok unset timer =>
      obtain ⟨ext', hlog', hs', hseen⟩ := hread read
      exact htimer hlog' hs' (fun h => unset (hseen.mp h).2) timer

theorem waitAvail_ends (fuel : Nat) (timeout : UInt64) (w : W) (tr : List Access) :
    Meets (tpm2WaitRegBits port.recorded fuel (fifoReg base tpmFifoRegStatus) tpmStatAvail timeout) (w, tr)
      (fun r s => ∃ ext, s.2 = tr ++ ext ∧ AvailWait base r.1 ext)
      (fun s => ∃ ext, s.2 = tr ++ ext ∧ receivedBytes base ext = [] ∧ ¬ AvailSeen base ext) := by
  rw [tpm2WaitRegBits, meets_bind]
  refine meets_timeoutInit fun cnt w => ?_
  exact waitAvailLoop_ends cnt fuel w tr _ rfl (by simp [AvailSeen, StatusRead])

/-- The burst loops of the header pass so far: what they have read is in the
front of the buffer. -/
structure Collected (base : UInt16) (st : ReadState) (ext : List Access) : Prop where
  index : st.loopIndex = (receivedBytes base ext).length
  size : st.size = (receivedBytes base ext).length
  le : (receivedBytes base ext).length ≤ tpmHeaderSize
  bytes : st.buf.bytes.take (receivedBytes base ext).length = receivedBytes base ext
  unpolled : ¬ AvailSeen base ext

theorem Collected.quiet {st : ReadState} {ext ext' : List Access} (h : Collected base st ext)
    (hs : receivedBytes base ext' = []) (ha : ¬ AvailSeen base ext') : Collected base st (ext ++ ext') := by
  have hr : receivedBytes base (ext ++ ext') = receivedBytes base ext := by
    rw [receivedBytes_append, hs, List.append_nil]
  refine ⟨?_, ?_, ?_, ?_, ?_⟩
  · rw [hr, h.index]
  · rw [hr, h.size]
  · rw [hr]
    exact h.le
  · rw [hr, h.bytes]
  · rw [availSeen_append, not_or]
    exact ⟨h.unpolled, ha⟩

theorem Collected.store {st : ReadState} {ext : List Access} (h : Collected base st ext)
    (hlt : (receivedBytes base ext).length < tpmHeaderSize) {err : Int} (herr : 0 ≤ err) (val : UInt8) (dst : Dest) :
    Collected base ⟨st.loopIndex + 1, st.size + 1, st.buf.setByte st.loopIndex.toNat val⟩
      (ext ++ [.read (fifoReg base tpmFifoRegDataFifo) dst err val]) := by
  have hr : receivedBytes base (ext ++ [.read (fifoReg base tpmFifoRegDataFifo) dst err val]) =
      receivedBytes base ext ++ [val] := by
    rw [receivedBytes_append, receivedBytes_fifo herr]
  have hl : (receivedBytes base ext ++ [val]).length = (receivedBytes base ext).length + 1 := by simp
  have hidx : st.loopIndex.toNat = (receivedBytes base ext).length := by rw [h.index, Int.toNat_natCast]
  refine ⟨?_, ?_, ?_, ?_, ?_⟩
  · rw [hr, hl, h.index]
    rfl
  · rw [hr, hl, h.size]
    rfl
  · rw [hr, hl]
    exact hlt
  · have hb := h.bytes
    have hlen : (receivedBytes base ext).length < st.buf.bytes.length := by
      have hmax : tpmHeaderSize ≤ maxSizeCmdbuf := by decide
      rw [TpmCmd.length_bytes]
      omega
    rw [hr, hl, hidx, TpmCmd.bytes_setByte, List.take_succ_eq_append_getElem (by simpa using hlen),
      List.take_set_of_le (Nat.le_refl _), hb, List.getElem_set_self]
  · rw [availSeen_append, not_or]
    exact ⟨h.unpolled, availSeen_other (fifoReg_ne base (by decide)) _ _ _⟩

theorem readBurst_fills (burst : Nat) (st : ReadState) (w : W) (tr ext : List Access) (h : Collected base st ext) :
    Meets (readBurst port.recorded base (readDest tpmReadHeader) tpmHeaderSize burst st) (w, tr ++ ext)
      (fun r s => ∃ ext', s.2 = tr ++ ext' ∧ Collected base r.2 ext' ∧
        (r.1 < 0 → (receivedBytes base ext').length < tpmHeaderSize)) (fun _ => False) := by
  induction burst generalizing st w ext with
  | zero => exact ⟨ext, rfl, h, fun herr => absurd herr (lt_irrefl 0)⟩
  | succ burst ih =>
      rw [readBurst, meets_ite]
      refine ⟨fun hlt => ?_, fun _ => ⟨ext, rfl, h, fun herr => absurd herr (lt_irrefl 0)⟩⟩
      have hlt' : (receivedBytes base ext).length < tpmHeaderSize := by
        rw [h.index] at hlt
        exact Int.ofNat_lt.mp hlt
      dsimp only
      rw [meets_bind]
      refine meets_read fun err val w => ?_
      simp only [List.append_assoc]
      rw [meets_ite]
      refine ⟨fun herr => ?_, fun herr => ?_⟩
      · refine ⟨_, rfl, h.quiet (receivedBytes_failed herr _ _ _)
          (availSeen_other (fifoReg_ne base (by decide)) _ _ _), fun _ => ?_⟩
        rwa [receivedBytes_append, receivedBytes_failed herr, List.append_nil]
      · rw [ReceiveBounds.readDest_header]
        rw [ReceiveBounds.readDest_header] at ih
        exact ih _ w _ (h.store hlt' (not_lt.mp herr) val _)

theorem readLoop_fills {chip : ChipData} (hbase : base = localityStartAddress chip.locality) (fuel n : Nat)
    (st : ReadState) (w : W) (tr ext : List Access) (h : Collected base st ext) :
    Meets (readLoop port.recorded fuel chip base (readDest tpmReadHeader) tpmHeaderSize n st) (w, tr ++ ext)
      (fun r s => ∃ ext', s.2 = tr ++ ext' ∧ Collected base r.2 ext' ∧
        (r.1 < 0 ↔ (receivedBytes base ext').length < tpmHeaderSize))
      (fun s => ∃ ext', s.2 = tr ++ ext' ∧ (receivedBytes base ext').length < tpmHeaderSize) := by
  have hdone {st : ReadState} {ext : List Access} (h : Collected base st ext) (hge : ¬ st.size < tpmHeaderSize) :
      tpmSuccess < 0 ↔ (receivedBytes base ext).length < tpmHeaderSize := by
    have hneg : ¬ tpmSuccess < 0 := by decide
    rw [h.size] at hge
    exact ⟨fun herr => absurd herr hneg, fun hlt => absurd (Int.ofNat_lt.mpr hlt) hge⟩
  have hmore {st : ReadState} {ext : List Access} (h : Collected base st ext) (hlt : st.size < tpmHeaderSize) :
      (receivedBytes base ext).length < tpmHeaderSize := by
    rw [h.size] at hlt
    exact Int.ofNat_lt.mp hlt
  induction n generalizing st w ext with
  | zero =>
      rw [readLoop, meets_ite]
      exact ⟨fun hlt => ⟨ext, rfl, hmore h hlt⟩, fun hge => ⟨ext, rfl, h, hdone h hge⟩⟩
  | succ n ih =>
      rw [readLoop, meets_ite]
      refine ⟨fun hlt => ?_, fun hge => ⟨ext, rfl, h, hdone h hge⟩⟩
      have hlen := hmore h hlt
      have hquiet {burst : List Access} (hp : Polls [fifoReg base tpmFifoRegBurstCountLo,
          fifoReg base tpmFifoRegBurstCountHi] burst) :
          receivedBytes base (ext ++ burst) = receivedBytes base ext ∧ Collected base st (ext ++ burst) := by
        have hsilent := receivedBytes_polls hp (burstRegs_ne_dataReg base)
        refine ⟨?_, h.quiet hsilent (not_availSeen_polls hp (burstRegs_ne_statusReg base))⟩
        rw [receivedBytes_append, hsilent, List.append_nil]
      rw [meets_bind]
      subst hbase
      apply (tpm2FifoGetBurstcount_segment fuel chip w _).mono
      · rintro ⟨err, burst⟩ ⟨w, log⟩ ⟨seg, rfl, hseg⟩
        obtain ⟨hsame, hcol⟩ := hquiet hseg.polls
        dsimp only
        rw [meets_ite, List.append_assoc]
        refine ⟨fun herr => ⟨_, rfl, hcol, ?_⟩, fun herr => ?_⟩
        · rw [hsame]
          exact ⟨fun _ => hlen, fun _ => herr⟩
        rw [meets_bind]
        apply (readBurst_fills burst.toNat st w tr _ hcol).mono
        · rintro ⟨err, st⟩ ⟨w, log⟩ ⟨ext', rfl, hcol, hfail⟩
          dsimp only
          rw [meets_ite]
          refine ⟨fun herr => ⟨_, rfl, hcol, fun _ => hfail herr, fun _ => herr⟩, fun _ => ?_⟩
          exact ih st w ext' hcol
        · exact fun _ hc => hc.elim
      · rintro ⟨w, log⟩ ⟨seg, rfl, hp⟩
        refine ⟨_, List.append_assoc _ _ _, ?_⟩
        rw [(hquiet hp).1]
        exact hlen

theorem headerPass_ends (fuel : Nat) (chip : ChipData) (buf : TpmCmd) (w : W) :
    Meets (tpm2FifoReadData port.recorded fuel chip buf (localityStartAddress chip.locality) 0 tpmReadHeader) (w, [])
      (fun r s => if r.1 < 0 then (receivedBytes (localityStartAddress chip.locality) s.2).length < tpmHeaderSize
        else r.2.1 = tpmHeaderSize ∧ HeaderPass (localityStartAddress chip.locality) s.2 r.2.2.header)
      (fun s => (receivedBytes (localityStartAddress chip.locality) s.2).length < tpmHeaderSize) := by
  unfold tpm2FifoReadData
  rw [if_pos rfl, if_pos rfl, meets_bind]
  apply (waitAvail_ends fuel chip.timeouts.msecC w []).mono
  · rintro ⟨err, status⟩ ⟨w, wait⟩ ⟨_, rfl, hsilent, -⟩
    dsimp only at hsilent ⊢
    rw [meets_ite]
    refine ⟨fun herr => ?_, fun herr => ?_⟩
    · rw [meets_pure, if_pos herr, hsilent]
      decide
    rw [meets_bind]
    have hstart : Collected (localityStartAddress chip.locality) ⟨0, 0, buf⟩ [] :=
      ⟨rfl, rfl, Nat.zero_le _, rfl, by simp [AvailSeen]⟩
    have hloop := @readLoop_fills W (localityStartAddress chip.locality) port chip rfl fuel fuel ⟨0, 0, buf⟩ w wait []
      hstart
    rw [List.append_nil] at hloop
    have hlen (bursts : List Access) : receivedBytes (localityStartAddress chip.locality) (wait ++ bursts) =
        receivedBytes (localityStartAddress chip.locality) bursts := by
      rw [receivedBytes_append, hsilent, List.nil_append]
    apply hloop.mono
    · rintro ⟨err, st⟩ ⟨w, log⟩ ⟨bursts, rfl, hcol, hfail⟩
      rw [meets_pure]
      dsimp only at hcol hfail ⊢
      split
      next herr =>
        rw [hlen]
        exact hfail.mp herr
      next herr =>
        have hten : (receivedBytes (localityStartAddress chip.locality) bursts).length = tpmHeaderSize :=
          le_antisymm hcol.le (not_lt.mp fun h => herr (hfail.mpr h))
        have hbytes := hcol.bytes
        rw [hten] at hbytes
        refine ⟨?_, ⟨wait, bursts, rfl, hsilent, hbytes.symm, hcol.unpolled⟩, ?_⟩
        · rw [hcol.size, hten]
        · exact (congrArg List.length hbytes).trans hten
    · rintro ⟨w, log⟩ ⟨bursts, rfl, hlt⟩
      rw [hlen]
      exact hlt
  · rintro ⟨w, wait⟩ ⟨_, rfl, hsilent, -⟩
    dsimp only at hsilent ⊢
    rw [hsilent]
    decide

theorem recorded_grows (tr : List Access) :
    PortKeeps (fun _ => True) (fun s : W × List Access => tr <+: s.2) port.recorded where
  timeoutInit _ s h := h.trans (List.prefix_append s.2 _)
  timeoutElapsed _ s h := h.trans (List.prefix_append s.2 _)
  write _ _ _ s h := h.trans (List.prefix_append s.2 _)
  read _ _ _ s h := h.trans (List.prefix_append s.2 _)
  readChunk _ _ _ s h := h.trans (List.prefix_append s.2 _)

theorem header_setData (c : TpmCmd) (i : Nat) (b : UInt8) : (c.setData i b).header = c.header :=
  List.take_set_of_le (Nat.le_add_right _ _)

theorem dataBurst_header {n : Int} (hn : n ≠ tpmReadHeader) (limit : Int) (burst : Nat) (st : ReadState)
    (w : W) : Meets (readBurst port base (readDest n) limit burst st) w
      (fun r _ => r.2.buf.header = st.buf.header) (fun _ => True) := by
  induction burst generalizing st w with
  | zero => exact rfl
  | succ burst ih =>
      rw [readBurst, meets_ite]
      refine ⟨fun _ => ?_, fun _ => rfl⟩
      dsimp only
      rw [meets_bind, meets_lift, meets_ite]
      refine ⟨fun _ => rfl, fun _ => ?_⟩
      rw [ReceiveBounds.readDest_data hn] at ih ⊢
      exact (ih _ _).imp fun _ _ h => h.trans (header_setData _ _ _)

theorem dataLoop_header {n : Int} (hn : n ≠ tpmReadHeader) (chip : ChipData) (limit : Int) (fuel k : Nat)
    (st : ReadState) (w : W) :
    Meets (readLoop port fuel chip base (readDest n) limit k st) w
      (fun r _ => r.2.buf.header = st.buf.header) (fun _ => True) := by
  induction k generalizing st w with
  | zero =>
      rw [readLoop, meets_ite]
      exact ⟨fun _ => trivial, fun _ => rfl⟩
  | succ k ih =>
      rw [readLoop, meets_ite]
      refine ⟨fun _ => ?_, fun _ => rfl⟩
      rw [meets_bind]
      apply Meets.of_forall _ fun _ => trivial
      rintro ⟨err, burst⟩ w
      dsimp only
      rw [meets_ite]
      refine ⟨fun _ => rfl, fun _ => ?_⟩
      rw [meets_bind]
      apply (dataBurst_header hn limit burst.toNat st w).imp
      rintro ⟨err, st'⟩ w hst
      dsimp only at hst ⊢
      rw [meets_ite]
      exact ⟨fun _ => hst, fun _ => (ih st' w).imp fun _ _ h => h.trans hst⟩

/-- The second pass, for a size that is not the one of the header. A size
below it needs no byte: the pass is its wait for AVAIL. -/
theorem dataPass_ends {n : Int} (hn : n ≠ tpmReadHeader) (fuel : Nat) (chip : ChipData) (buf : TpmCmd) (w : W)
    (tr : List Access) :
    Meets (tpm2FifoReadData port.recorded fuel chip buf (localityStartAddress chip.locality) tpmHeaderSize n) (w, tr)
      (fun r s => ∃ ext, s.2 = tr ++ ext ∧ r.2.2.header = buf.header ∧ (n < tpmHeaderSize →
        (0 ≤ r.1 ↔ AvailSeen (localityStartAddress chip.locality) ext) ∧ r.2.1 = tpmHeaderSize))
      (fun s => ∃ ext, s.2 = tr ++ ext ∧
        (n < tpmHeaderSize → ¬ AvailSeen (localityStartAddress chip.locality) ext)) := by
  unfold tpm2FifoReadData
  rw [if_neg hn, if_neg hn, meets_bind]
  apply (waitAvail_ends fuel chip.timeouts.msecC w tr).mono
  · rintro ⟨err, status⟩ ⟨w, log⟩ ⟨wait, rfl, hwait⟩
    dsimp only
    rw [meets_ite]
    refine ⟨fun herr => ⟨wait, rfl, rfl, fun _ => ⟨hwait.avail, rfl⟩⟩, fun herr => ?_⟩
    rw [meets_bind]
    have hlog (st : ReadState) : Meets (readLoop port.recorded fuel chip (localityStartAddress chip.locality)
        (readDest n) n fuel st) (w, tr ++ wait) (fun _ s => tr ++ wait <+: s.2) (fun s => tr ++ wait <+: s.2) :=
      meets_world.mpr ((readLoop_surfaces (recorded_grows (tr ++ wait)).surfaces (pageIn_true _) _ _ _ st).keeps _
        (List.prefix_refl _))
    by_cases hlt : n < tpmHeaderSize
    · have hshort : readLoop port.recorded fuel chip (localityStartAddress chip.locality) (readDest n) n fuel
          ⟨tpmHeaderSize - tpmHeaderSize, tpmHeaderSize, buf⟩ =
          pure (tpmSuccess, ⟨tpmHeaderSize - tpmHeaderSize, tpmHeaderSize, buf⟩) := by
        cases fuel <;> exact if_neg (not_lt.mpr hlt.le)
      rw [hshort]
      exact ⟨wait, rfl, rfl, fun _ => ⟨⟨fun _ => hwait.avail.mp (not_lt.mp herr), fun _ => le_refl 0⟩, rfl⟩⟩
    · apply ((dataLoop_header hn chip n fuel fuel _ _).and (hlog _)).mono
      · rintro ⟨err, st⟩ ⟨w, log⟩ ⟨hst, ⟨ext, hext⟩⟩
        exact ⟨wait ++ ext, by rw [← List.append_assoc]; exact hext.symm, hst, fun h => absurd h hlt⟩
      · rintro ⟨w, log⟩ ⟨-, ⟨ext, hext⟩⟩
        exact ⟨wait ++ ext, by rw [← List.append_assoc]; exact hext.symm, fun h => absurd h hlt⟩
  · rintro ⟨w, log⟩ ⟨wait, rfl, -, hno⟩
    exact ⟨wait, rfl, fun _ => hno⟩

end Passes

section Receive

variable [Host] {port : FifoPort W}

omit [Host] in
theorem field_header (c : TpmCmd) {offset : Nat} (h : offset + 4 ≤ tpmHeaderSize) : field offset c.header =
    beNat [c.byte offset, c.byte (offset + 1), c.byte (offset + 2), c.byte (offset + 3)] := by
  have hmax : tpmHeaderSize ≤ maxSizeCmdbuf := by decide
  have hlen : c.bytes.length = maxSizeCmdbuf := c.length_bytes
  have hfour : (c.header.drop offset).take 4 =
      [c.byte offset, c.byte (offset + 1), c.byte (offset + 2), c.byte (offset + 3)] := by
    apply List.ext_getElem
    · simp only [TpmCmd.header, List.length_take, List.length_drop, List.length_cons, List.length_nil]
      omega
    · intro i hi hi'
      have hi4 : i < 4 := hi'
      rw [List.getElem_take, List.getElem_drop]
      simp only [TpmCmd.header, List.getElem_take, ← c.byte_eq_getElem (show offset + i < c.bytes.length by omega)]
      interval_cases i <;> rfl
  rw [field, hfour]

theorem field_cmdSize (c : TpmCmd) : field 2 c.header = (be32toh c.cmdSize).toNat := by
  rw [field_header c (by decide), TpmCmd.be32toh_cmdSize, of32_toNat]

theorem field_cmdCode (c : TpmCmd) : field 6 c.header = (be32toh c.cmdCode).toNat := by
  rw [field_header c (by decide), TpmCmd.be32toh_cmdCode, of32_toNat]

/-- How a receive ends, with the size field that it accepts. -/
inductive Sized (base : UInt16) (tr : List Access) : Int × TpmCmd → Prop
  | refused {r : Int × TpmCmd} (err : r.1 < 0) (none : ∀ header, ¬ Undersized base tr header) : Sized base tr r
  | sound {r : Int × TpmCmd} (ok : 0 ≤ r.1) (size : SizeInRange r.2)
      (none : ∀ header, ¬ Undersized base tr header) : Sized base tr r
  | undersized {r : Int × TpmCmd} (ok : 0 ≤ r.1) (header : Undersized base tr r.2.header)
      (only : ∀ header, Undersized base tr header → header = r.2.header) : Sized base tr r

theorem HeaderPass.not_undersized {base : UInt16} {tr : List Access} {buf : TpmCmd} (h : HeaderPass base tr buf.header)
    (hge : tpmHeaderSize ≤ (be32toh buf.cmdSize).toNat) (rest : List Access) (header : List UInt8) :
    ¬ Undersized base (tr ++ rest) header := by
  rw [h.undersized_iff, field_cmdSize]
  exact fun hu => absurd hu.2.1 (not_lt.mpr hge)

omit [Host] in
theorem HeaderPass.not_undersized_end {base : UInt16} {tr : List Access} {buf : TpmCmd}
    (h : HeaderPass base tr buf.header) (header : List UInt8) : ¬ Undersized base tr header := by
  rw [← List.append_nil tr, h.undersized_iff]
  exact fun hu => absurd hu.2.2 (by simp [AvailSeen])

/-- The receive from the header on, when the size field fits. -/
theorem rest_sized (fuel : Nat) (chip : ChipData) (buf : TpmCmd) (w : W) {tr : List Access}
    (hheader : HeaderPass (localityStartAddress chip.locality) tr buf.header)
    (hfits : (be32toh buf.cmdSize).toNat ≤ maxSizeCmdbuf) :
    Meets (do
        let (err, size, buf') ← tpm2FifoReadData port.recorded fuel chip buf (localityStartAddress chip.locality)
          (tpmHeaderSize : Nat) ((be32toh buf.cmdSize).toNat : Int)
        if err < 0 then return (err, buf')
        if size < ((be32toh buf.cmdSize).toNat : Int) then return (tpmErrResponse, buf')
        return (tpmSuccess, buf')) (w, tr)
      (fun r s => Sized (localityStartAddress chip.locality) s.2 r)
      (fun s => ∀ header, ¬ Undersized (localityStartAddress chip.locality) s.2 header) := by
  rw [meets_bind]
  have hn := size_ne_readHeader (be32toh buf.cmdSize).toNat
  apply (dataPass_ends hn fuel chip buf w tr).mono
  · rintro ⟨err, size, buf'⟩ ⟨w, log⟩ ⟨ext, rfl, hsame, hshort⟩
    dsimp only at hsame hshort ⊢
    have hfield : (be32toh buf'.cmdSize).toNat = (be32toh buf.cmdSize).toNat := by
      rw [← field_cmdSize, ← field_cmdSize, hsame]
    by_cases hlt : (be32toh buf.cmdSize).toNat < tpmHeaderSize
    · obtain ⟨havail, rfl⟩ := hshort (Int.ofNat_lt.mpr hlt)
      rw [meets_ite]
      refine ⟨fun herr => .refused herr fun header hu => ?_, fun herr => ?_⟩
      · exact absurd (havail.mpr (hheader.undersized_iff.mp hu).2.2) (not_le.mpr herr)
      have hnot : ¬ (tpmHeaderSize : Int) < (be32toh buf.cmdSize).toNat := by omega
      rw [if_neg hnot]
      refine .undersized (le_refl 0) ?_ fun header hu => ?_
      · rw [hheader.undersized_iff, field_cmdSize]
        exact ⟨hsame, hlt, havail.mp (not_lt.mp herr)⟩
      · rw [hsame]
        exact (hheader.undersized_iff.mp hu).1
    · have hge := not_lt.mp hlt
      have hlarge := hheader.not_undersized hge ext
      rw [meets_ite]
      refine ⟨fun herr => .refused herr hlarge, fun _ => ?_⟩
      rw [meets_ite]
      refine ⟨fun _ => .refused (by decide : tpmErrResponse < 0) hlarge, fun _ => ?_⟩
      refine .sound (le_refl 0) ?_ hlarge
      rw [SizeInRange, hfield]
      exact ⟨hge, hfits⟩
  · rintro ⟨w, log⟩ ⟨ext, rfl, hshort⟩ header hu
    obtain ⟨-, hlt, havail⟩ := hheader.undersized_iff.mp hu
    rw [field_cmdSize] at hlt
    exact hshort (Int.ofNat_lt.mpr hlt) havail

theorem tpm2FifoReceive_sized (fuel : Nat) (chip : ChipData) (buf : TpmCmd) (w : W) :
    Meets (tpm2FifoReceive port.recorded fuel chip buf) (w, [])
      (fun r s => Sized (localityStartAddress chip.locality) s.2 r)
      (fun s => ∀ header, ¬ Undersized (localityStartAddress chip.locality) s.2 header) := by
  have hnone {tr : List Access} (h : (receivedBytes (localityStartAddress chip.locality) tr).length < tpmHeaderSize)
      (header : List UInt8) : ¬ Undersized (localityStartAddress chip.locality) tr header :=
    fun hu => absurd hu.header_le (not_le.mpr h)
  unfold tpm2FifoReceive
  dsimp only
  rw [meets_bind]
  apply (headerPass_ends fuel chip buf w).mono
  · rintro ⟨err, size, buf⟩ ⟨w, tr⟩ hpass
    dsimp only at hpass ⊢
    rw [meets_ite]
    refine ⟨fun herr => ?_, fun herr => ?_⟩
    · rw [if_pos herr] at hpass
      exact .refused herr (hnone hpass)
    rw [if_neg herr] at hpass
    obtain ⟨hsize, hheader⟩ := hpass
    subst hsize
    have hend := hheader.not_undersized_end
    rw [meets_ite]
    refine ⟨fun _ => .refused (by decide : tpmInvalidParam < 0) hend, fun hfits => ?_⟩
    rw [ReceiveBounds.sizeT_intOfUint32, not_lt] at hfits
    have hint := ReceiveBounds.intOfUint32_of_le hfits
    rw [hint, meets_ite]
    refine ⟨fun hten => .sound (Int.natCast_nonneg _) ⟨?_, hfits⟩ hend, fun hten => ?_⟩
    · exact (Int.ofNat_inj.mp hten).le
    exact rest_sized fuel chip buf w hheader hfits
  · exact fun s h => hnone h

end Receive

end LibTpm.ResponseSizes
