import LibTpm.Commands
import LibTpm.FifoTrace
import Mathlib.Data.List.Induction

namespace LibTpm.FifoProtocol

open LibTpm.Base.Process LibTpm.Base.Process.Proc LibTpm.Command LibTpm.Constants LibTpm.Endian
open LibTpm.Platform LibTpm.Fifo LibTpm.FifoTrace LibTpm.Builder LibTpm.Commands

variable {W : Type} {base : UInt16}

def fifoByte (base : UInt16) : Access → Option UInt8
  | .write reg val _ => if reg = fifoReg base tpmFifoRegDataFifo then some val else none
  | _ => none

def sentBytes (base : UInt16) (tr : List Access) : List UInt8 := tr.filterMap (fifoByte base)

def IsGo (base : UInt16) : Access → Prop
  | .write reg val _ => reg = fifoReg base tpmFifoRegStatus ∧ val &&& tpmStatGo ≠ 0
  | _ => False

def StatusRead (base : UInt16) (P : UInt8 → Prop) : Access → Prop
  | .read reg _ err val => reg = fifoReg base tpmFifoRegStatus ∧ 0 ≤ err ∧ P val
  | _ => False

def ReadySeen (base : UInt16) (tr : List Access) : Prop :=
  ∃ e ∈ tr, StatusRead base (fun v => v &&& tpmStatCommandReady ≠ 0) e

/-- A STATUS read after the last byte sent had VALID set and EXPECT clear. -/
def Drained (base : UInt16) (tr : List Access) : Prop :=
  ∃ p e s, tr = p ++ e :: s ∧ sentBytes base s = [] ∧
    StatusRead base (fun v => v &&& tpmStatValid ≠ 0 ∧ v &&& tpmStatExpect = 0) e

def GoWritten (base : UInt16) (tr : List Access) : Prop := ∃ e ∈ tr, IsGo base e

/-- A STATUS read after GO had AVAIL set. -/
def Answered (base : UInt16) (tr : List Access) : Prop :=
  ∃ p s, tr = p ++ s ∧ GoWritten base p ∧
    ∃ e ∈ s, StatusRead base (fun v => v &&& tpmStatAvail ≠ 0) e

/-- What the protocol lets an access `e` be after the accesses `tr`. -/
structure Permitted [Host] (base : UInt16) (cmd : TpmCmd) (tr : List Access) (e : Access) : Prop where
  afterFailure : IsRegister e → Clean tr
  ready : ∀ val, fifoByte base e = some val → ReadySeen base tr
  inOrder : ∀ val, fifoByte base e = some val → sentBytes base tr ++ [val] <+: cmd.serialise
  complete : IsGo base e → sentBytes base tr = cmd.serialise
  once : IsGo base e → ¬ GoWritten base tr
  drained : IsGo base e → Drained base tr
  answered : ∀ dst err val, e = .read (fifoReg base tpmFifoRegDataFifo) dst err val → Answered base tr

/-- Every access of the trace is permitted after those before it. -/
def Obeys [Host] (base : UInt16) (cmd : TpmCmd) (tr : List Access) : Prop :=
  ∀ p e, p ++ [e] <+: tr → Permitted base cmd p e

structure Quiet (base : UInt16) (e : Access) : Prop where
  noByte : fifoByte base e = none
  noGo : ¬ IsGo base e
  noRead : ∀ dst err val, e ≠ .read (fifoReg base tpmFifoRegDataFifo) dst err val

theorem sentBytes_append (tr tr' : List Access) :
    sentBytes base (tr ++ tr') = sentBytes base tr ++ sentBytes base tr' :=
  List.filterMap_append

theorem sentBytes_quiet {ext : List Access} (h : ∀ e ∈ ext, Quiet base e) : sentBytes base ext = [] :=
  List.filterMap_eq_nil_iff.mpr fun e he => (h e he).noByte

theorem goWritten_append {tr tr' : List Access} :
    GoWritten base (tr ++ tr') ↔ GoWritten base tr ∨ GoWritten base tr' := by
  simp only [GoWritten, List.mem_append, or_and_right, exists_or]

theorem not_goWritten_quiet {ext : List Access} (h : ∀ e ∈ ext, Quiet base e) : ¬ GoWritten base ext :=
  fun ⟨e, he, hg⟩ => (h e he).noGo hg

theorem ReadySeen.append {tr : List Access} (h : ReadySeen base tr) (ext : List Access) :
    ReadySeen base (tr ++ ext) :=
  let ⟨e, he, hs⟩ := h
  ⟨e, List.mem_append_left ext he, hs⟩

theorem Answered.append {tr : List Access} (h : Answered base tr) (ext : List Access) :
    Answered base (tr ++ ext) := by
  obtain ⟨p, s, rfl, hg, e, he, hs⟩ := h
  exact ⟨p, s ++ ext, List.append_assoc p s ext, hg, e, List.mem_append_left ext he, hs⟩

theorem quiet_of_polls {regs : List UInt16} {ext : List Access} (h : Polls regs ext)
    (hr : fifoReg base tpmFifoRegDataFifo ∉ regs) : ∀ e ∈ ext, Quiet base e := by
  intro e he
  rcases h.polls e he with ⟨reg, hreg, err, val, rfl⟩ | ht
  · refine ⟨rfl, id, fun dst err val heq => ?_⟩
    cases heq
    exact hr hreg
  · cases e with
    | write | read | readChunk => exact absurd trivial ht
    | timeoutInit | timeoutElapsed => exact ⟨rfl, id, fun _ _ _ h => by cases h⟩

theorem statusReg_ne_dataReg (base : UInt16) :
    fifoReg base tpmFifoRegStatus ≠ fifoReg base tpmFifoRegDataFifo := fifoReg_ne base (by decide)

theorem burstRegs_ne_dataReg (base : UInt16) : fifoReg base tpmFifoRegDataFifo ∉
    [fifoReg base tpmFifoRegBurstCountLo, fifoReg base tpmFifoRegBurstCountHi] := by
  simp only [List.mem_cons, List.not_mem_nil, or_false, not_or]
  exact ⟨fifoReg_ne base (by decide), fifoReg_ne base (by decide)⟩

theorem status_quiet {ext : List Access} (h : Polls [fifoReg base tpmFifoRegStatus] ext) :
    ∀ e ∈ ext, Quiet base e :=
  quiet_of_polls h (by simpa using (statusReg_ne_dataReg base).symm)

theorem and_eq_self_ne_zero {v set : UInt8} (h : v &&& set = set) (hs : set ≠ 0) : v &&& set ≠ 0 := by
  rw [h]
  exact hs

theorem statusRead_of_segment {set : UInt8} {r : Int × UInt8} {ext : List Access}
    (hs : WaitSegment (fifoReg base tpmFifoRegStatus) set r ext) (hr : r.1 = 0) (h0 : set ≠ 0) :
    ∃ pre e, ext = pre ++ [e] ∧ StatusRead base (fun v => v = r.2 ∧ v &&& set ≠ 0) e := by
  obtain ⟨_, hset, pre, err, herr, hext⟩ := hs.success hr
  exact ⟨pre, _, hext, rfl, herr, rfl, and_eq_self_ne_zero hset h0⟩

theorem StatusRead.imp {P Q : UInt8 → Prop} {e : Access} (h : StatusRead base P e)
    (hpq : ∀ v, P v → Q v) : StatusRead base Q e := by
  cases e with
  | read => exact ⟨h.1, h.2.1, hpq _ h.2.2⟩
  | write | readChunk | timeoutInit | timeoutElapsed => exact h

section Obeys

variable [Host] {cmd : TpmCmd}

theorem obeys_nil : Obeys base cmd [] := fun p e h => by simp at h

theorem Obeys.snoc {tr : List Access} {e : Access} (h : Obeys base cmd tr)
    (he : Permitted base cmd tr e) : Obeys base cmd (tr ++ [e]) := by
  intro p x hx
  rcases List.prefix_concat_iff.mp hx with heq | hp
  · obtain ⟨rfl, hxe⟩ := List.append_inj' heq rfl
    cases hxe
    exact he
  · exact h p x hp

theorem permitted_quiet {tr : List Access} {e : Access} (hc : Clean tr) (he : Quiet base e) :
    Permitted base cmd tr e where
  afterFailure _ := hc
  ready _ h := by rw [he.noByte] at h; cases h
  inOrder _ h := by rw [he.noByte] at h; cases h
  complete h := absurd h he.noGo
  once h := absurd h he.noGo
  drained h := absurd h he.noGo
  answered _ _ _ h := absurd h (he.noRead _ _ _)

/-- Polls are permitted after a trace without a failure, up to and with the
one that fails. -/
theorem Obeys.append_quiet {tr ext : List Access} (h : Obeys base cmd tr) (hc : Clean tr)
    (hq : ∀ e ∈ ext, Quiet base e) (hl : Clean ext.dropLast) : Obeys base cmd (tr ++ ext) := by
  induction ext using List.reverseRecOn with
  | nil => simpa using h
  | append_singleton ext e ih =>
      rw [List.dropLast_concat] at hl
      rw [← List.append_assoc]
      refine (ih (fun x hx => hq x (List.mem_append_left _ hx)) ?_).snoc ?_
      · exact fun x hx => hl x (List.dropLast_subset ext hx)
      · exact permitted_quiet (clean_append.mpr ⟨hc, hl⟩) (hq e (by simp))

end Obeys

section Send

variable [Host] {cmd : TpmCmd} {port : FifoPort W} {fuel : Nat} {chip : ChipData}

/-- The state of the log when the first `k` bytes of the command have been sent. -/
structure Sending (base : UInt16) (cmd : TpmCmd) (k : Nat) (tr : List Access) : Prop where
  obeys : Obeys base cmd tr
  clean : Clean tr
  ready : ReadySeen base tr
  sent : sentBytes base tr = cmd.serialise.take k
  noGo : ¬ GoWritten base tr

def Outcome (base : UInt16) (cmd : TpmCmd) (P : List Access → Prop) (r : Int)
    (s : W × List Access) : Prop :=
  (r < 0 → Obeys base cmd s.2) ∧ (0 ≤ r → P s.2)

theorem Outcome.ok {P : List Access → Prop} {s : W × List Access} (h : P s.2) :
    Outcome base cmd P tpmSuccess s :=
  ⟨fun h0 => absurd h0 (by decide), fun _ => h⟩

theorem Outcome.fail {P : List Access → Prop} {r : Int} {s : W × List Access} (hr : r < 0)
    (h : Obeys base cmd s.2) : Outcome base cmd P r s :=
  ⟨fun _ => h, fun h0 => absurd hr (not_lt.mpr h0)⟩

theorem Sending.quiet {k : Nat} {tr ext : List Access} (h : Sending base cmd k tr)
    (hq : ∀ e ∈ ext, Quiet base e) (hc : Clean ext) : Sending base cmd k (tr ++ ext) where
  obeys := h.obeys.append_quiet h.clean hq fun e he => hc e (List.dropLast_subset ext he)
  clean := clean_append.mpr ⟨h.clean, hc⟩
  ready := h.ready.append ext
  sent := by rw [sentBytes_append, sentBytes_quiet hq, List.append_nil, h.sent]
  noGo := by rw [goWritten_append]; exact not_or.mpr ⟨h.noGo, not_goWritten_quiet hq⟩

/-- The next byte of the command may be written, and when the write succeeds
one more byte has been sent. -/
theorem Sending.write_byte {k : Nat} {b : UInt8} {tr : List Access} (h : Sending base cmd k tr)
    (hb : cmd.serialise[k]? = some b) (err : Int) (w : W) :
    Outcome base cmd (Sending base cmd (k + 1)) err
      (w, tr ++ [.write (fifoReg base tpmFifoRegDataFifo) b err]) := by
  have hbyte : fifoByte base (.write (fifoReg base tpmFifoRegDataFifo) b err) = some b := if_pos rfl
  have hgo : ¬ IsGo base (.write (fifoReg base tpmFifoRegDataFifo) b err) :=
    fun hg => statusReg_ne_dataReg base hg.1.symm
  have htake : cmd.serialise.take k ++ [b] = cmd.serialise.take (k + 1) := by
    rw [List.take_add_one, hb]
    rfl
  have ho : Obeys base cmd (tr ++ [.write (fifoReg base tpmFifoRegDataFifo) b err]) := by
    refine h.obeys.snoc {
      afterFailure := fun _ => h.clean
      ready := fun _ _ => h.ready
      inOrder := fun val hv => ?_
      complete := fun hg => absurd hg hgo
      once := fun hg => absurd hg hgo
      drained := fun hg => absurd hg hgo
      answered := fun _ _ _ heq => by cases heq }
    cases hbyte.symm.trans hv
    rw [h.sent, htake]
    exact List.take_prefix _ _
  refine ⟨fun _ => ho, fun herr => ⟨ho, ?_, h.ready.append _, ?_, ?_⟩⟩
  · rw [clean_append, clean_singleton]
    exact ⟨h.clean, not_lt.mpr herr⟩
  · rw [sentBytes_append, h.sent, ← htake]
    exact congrArg _ (List.filterMap_cons_some hbyte)
  · rw [goWritten_append]
    exact not_or.mpr ⟨h.noGo, fun ⟨e, he, hg⟩ => hgo (List.mem_singleton.mp he ▸ hg)⟩

theorem writeHeader_sends (bs : List UInt8) (k : Nat) (w : W) (tr : List Access)
    (h : Sending base cmd k tr) (hb : bs <+: cmd.serialise.drop k) :
    Meets (writeHeader port.recorded base bs) (w, tr)
      (Outcome base cmd (Sending base cmd (k + bs.length))) (fun s => Obeys base cmd s.2) := by
  induction bs generalizing k w tr with
  | nil => exact .ok h
  | cons b bs ih =>
      obtain ⟨rest, hr⟩ := hb
      have hk : cmd.serialise[k]? = some b := by
        rw [← List.head?_drop, ← hr]
        rfl
      have hb' : bs <+: cmd.serialise.drop (k + 1) := by
        rw [← List.tail_drop, ← hr]
        exact List.prefix_append _ _
      rw [writeHeader, meets_bind]
      refine meets_write fun err w => ?_
      have ho := h.write_byte hk err w
      split
      next herr => exact .fail herr (ho.1 herr)
      next herr =>
        have hn := ih (k + 1) w _ (ho.2 (not_lt.mp herr)) hb'
        rwa [Nat.add_right_comm] at hn

theorem writeBurst_sends {len : Nat} (hlen : (be32toh cmd.cmdSize).toNat = len)
    (hmax : len ≤ maxSizeCmdbuf) (burst index : Nat) (w : W) (tr : List Access)
    (h : Sending base cmd index tr) (h10 : tpmHeaderSize ≤ index) (hi : index ≤ len) :
    Meets (writeBurst port.recorded base cmd len burst index) (w, tr)
      (fun r => Outcome base cmd (fun tr => Sending base cmd r.2 tr ∧ index ≤ r.2 ∧ r.2 ≤ len) r.1)
      (fun s => Obeys base cmd s.2) := by
  induction burst generalizing index w tr with
  | zero => exact meets_pure.mpr (.ok ⟨h, le_rfl, hi⟩)
  | succ burst ih =>
      rw [writeBurst]
      split
      next hlt =>
        have hb : cmd.serialise[index]? = some (cmd.data (index - tpmHeaderSize)) := by
          rw [cmd.serialise_getElem? (hlen ▸ hmax) (hlen ▸ hlt), TpmCmd.data, Nat.add_sub_cancel' h10]
        rw [meets_bind]
        refine meets_write fun err w => ?_
        have ho := h.write_byte hb err w
        split
        next herr => exact meets_pure.mpr (.fail herr (ho.1 herr))
        next herr =>
          refine (ih (index + 1) w _ (ho.2 (not_lt.mp herr)) (by omega) (by omega)).imp ?_
          exact fun r s hr => ⟨hr.1, fun h0 => ⟨(hr.2 h0).1, by have := (hr.2 h0).2.1; omega, (hr.2 h0).2.2⟩⟩
      next hge => exact meets_pure.mpr (.ok ⟨h, le_rfl, hi⟩)

theorem writeData_sends {len : Nat} (hlen : (be32toh cmd.cmdSize).toNat = len)
    (hmax : len ≤ maxSizeCmdbuf) (n index : Nat) (w : W) (tr : List Access)
    (hbase : base = localityStartAddress chip.locality)
    (h : Sending base cmd index tr) (h10 : tpmHeaderSize ≤ index) (hi : index ≤ len) :
    Meets (writeData port.recorded fuel chip base cmd len n index) (w, tr)
      (Outcome base cmd (Sending base cmd len)) (fun s => Obeys base cmd s.2) := by
  induction n generalizing index w tr with
  | zero =>
      rw [writeData]
      split
      next => exact h.obeys
      next hge =>
        rw [show index = len by omega] at h
        exact .ok h
  | succ n ih =>
      rw [writeData]
      split
      next hlt =>
        rw [meets_bind]
        refine (tpm2FifoGetBurstcount_segment fuel chip w tr).mono ?_ ?_
        · rintro ⟨err, burst⟩ ⟨w, tr'⟩ ⟨ext, rfl, hs⟩
          rw [← hbase] at hs
          have hq := quiet_of_polls hs.polls (burstRegs_ne_dataReg base)
          dsimp only
          split
          next herr =>
            exact .fail herr (h.obeys.append_quiet h.clean hq hs.polls.clean)
          next herr =>
            have hc := (hs.success (le_antisymm hs.le_zero (not_lt.mp herr))).1
            rw [meets_bind]
            refine (writeBurst_sends hlen hmax burst.toNat index w _ (h.quiet hq hc) h10 hi).imp ?_
            rintro ⟨err, index⟩ ⟨w, tr⟩ ho
            dsimp only
            split
            next herr => exact .fail herr (ho.1 herr)
            next herr =>
              obtain ⟨hs, hle, hi⟩ := ho.2 (not_lt.mp herr)
              exact ih index w tr hs (by omega) hi
        · rintro ⟨w, tr'⟩ ⟨ext, rfl, hp⟩
          rw [← hbase] at hp
          exact h.obeys.append_quiet h.clean (quiet_of_polls hp (burstRegs_ne_dataReg base)) hp.clean
      next hge =>
        rw [show index = len by omega] at h
        exact .ok h

structure Waiting (base : UInt16) (cmd : TpmCmd) (tr : List Access) : Prop where
  obeys : Obeys base cmd tr
  clean : Clean tr
  go : GoWritten base tr

theorem Sending.write_go {tr : List Access} (h : Sending base cmd cmd.serialise.length tr)
    (hd : Drained base tr) (err : Int) (w : W) :
    Outcome base cmd (Waiting base cmd) err
      (w, tr ++ [.write (fifoReg base tpmFifoRegStatus) tpmStatGo err]) := by
  have hbyte : fifoByte base (.write (fifoReg base tpmFifoRegStatus) tpmStatGo err) = none :=
    if_neg (statusReg_ne_dataReg base)
  have hsent : sentBytes base tr = cmd.serialise := by rw [h.sent, List.take_length]
  have ho : Obeys base cmd (tr ++ [.write (fifoReg base tpmFifoRegStatus) tpmStatGo err]) :=
    h.obeys.snoc {
      afterFailure := fun _ => h.clean
      ready := fun _ hv => absurd (hbyte.symm.trans hv) (by simp)
      inOrder := fun _ hv => absurd (hbyte.symm.trans hv) (by simp)
      complete := fun _ => hsent
      once := fun _ => h.noGo
      drained := fun _ => hd
      answered := fun _ _ _ heq => by cases heq }
  refine ⟨fun _ => ho, fun herr => ⟨ho, ?_, _, List.mem_append_right _ (List.mem_singleton_self _), ?_⟩⟩
  · rw [clean_append, clean_singleton]
    exact ⟨h.clean, not_lt.mpr herr⟩
  · exact ⟨rfl, by decide⟩

theorem sendBytes_waits (h10 : tpmHeaderSize ≤ (be32toh cmd.cmdSize).toNat)
    (hmax : (be32toh cmd.cmdSize).toNat ≤ maxSizeCmdbuf) (w : W) (tr : List Access)
    (h : Sending (localityStartAddress chip.locality) cmd 0 tr) :
    Meets (sendBytes port.recorded fuel chip cmd) (w, tr)
      (Outcome (localityStartAddress chip.locality) cmd
        (Waiting (localityStartAddress chip.locality) cmd))
      (fun s => Obeys (localityStartAddress chip.locality) cmd s.2) := by
  have hlen : cmd.serialise.length = (be32toh cmd.cmdSize).toNat := by
    rw [TpmCmd.serialise, List.length_take, cmd.length_bytes]
    exact min_eq_left hmax
  have hhead : cmd.header <+: cmd.serialise.drop 0 := List.take_prefix_take_left h10
  have hheader : cmd.header.length = tpmHeaderSize := by
    rw [TpmCmd.header, List.length_take, cmd.length_bytes]
    rfl
  rw [sendBytes, meets_bind]
  refine (writeHeader_sends cmd.header 0 w tr h hhead).mono ?_ (fun _ hc => hc)
  rintro err ⟨w, tr⟩ ho
  split
  next herr => exact .fail herr (ho.1 herr)
  next herr =>
    have h1 := ho.2 (not_lt.mp herr)
    rw [Nat.zero_add, hheader] at h1
    dsimp only
    rw [if_neg (not_lt.mpr h10), meets_bind]
    refine (writeData_sends rfl hmax fuel _ w tr rfl h1 le_rfl h10).mono ?_ (fun _ hc => hc)
    rintro err ⟨w, tr⟩ ho
    split
    next herr => exact .fail herr (ho.1 herr)
    next herr =>
      have h2 := ho.2 (not_lt.mp herr)
      rw [meets_bind]
      refine (tpm2WaitRegBits_segment fuel _ _ _ w tr).mono ?_ ?_
      · rintro ⟨err, status⟩ ⟨w, tr'⟩ ⟨ext, rfl, hs⟩
        have hq := status_quiet hs.polls
        dsimp only
        split
        next herr => exact .fail herr (h2.obeys.append_quiet h2.clean hq hs.polls.clean)
        next herr =>
          have hz := le_antisymm hs.le_zero (not_lt.mp herr)
          have h3 := h2.quiet hq (hs.success hz).1
          split
          next hexp => exact .fail (by decide) h3.obeys
          next hexp =>
            obtain ⟨pre, e, rfl, hread⟩ := statusRead_of_segment hs hz (by decide)
            have hd : Drained (localityStartAddress chip.locality) (tr ++ (pre ++ [e])) := by
              refine ⟨tr ++ pre, e, [], by simp, rfl, hread.imp fun v hv => ⟨hv.2, ?_⟩⟩
              rw [hv.1]
              exact not_not.mp hexp
            rw [meets_bind]
            refine meets_write fun err w => ?_
            have hg := Sending.write_go (hlen ▸ h3) hd err w
            split
            next herr => exact .fail herr (hg.1 herr)
            next herr => exact .ok (hg.2 (not_lt.mp herr))
      · rintro ⟨w, tr'⟩ ⟨ext, rfl, hp⟩
        exact h2.obeys.append_quiet h2.clean (status_quiet hp) hp.clean

theorem tpm2FifoPrepare_ready (w : W) (tr : List Access)
    (ho : Obeys (localityStartAddress chip.locality) cmd tr) (hc : Clean tr)
    (hs : sentBytes (localityStartAddress chip.locality) tr = [])
    (hg : ¬ GoWritten (localityStartAddress chip.locality) tr) :
    Meets (tpm2FifoPrepare port.recorded fuel chip) (w, tr)
      (Outcome (localityStartAddress chip.locality) cmd
        (Sending (localityStartAddress chip.locality) cmd 0))
      (fun s => Obeys (localityStartAddress chip.locality) cmd s.2) := by
  rw [tpm2FifoPrepare, meets_bind]
  refine meets_write fun err w => ?_
  have hq : Quiet (localityStartAddress chip.locality) (.write
      (fifoReg (localityStartAddress chip.locality) tpmFifoRegStatus) tpmStatCommandReady err) :=
    ⟨if_neg (statusReg_ne_dataReg _), fun h => h.2 (by decide), fun _ _ _ h => by cases h⟩
  have h1 : Obeys (localityStartAddress chip.locality) cmd (tr ++ [.write
      (fifoReg (localityStartAddress chip.locality) tpmFifoRegStatus) tpmStatCommandReady err]) :=
    ho.snoc (permitted_quiet hc hq)
  split
  next herr => exact .fail herr h1
  next herr =>
    have hc1 : Clean (tr ++ [.write (fifoReg (localityStartAddress chip.locality) tpmFifoRegStatus)
        tpmStatCommandReady err]) := by
      rw [clean_append, clean_singleton]
      exact ⟨hc, herr⟩
    rw [meets_bind]
    refine (tpm2WaitRegBits_segment fuel _ _ _ w _).mono ?_ ?_
    · rintro ⟨err', status⟩ ⟨w, tr'⟩ ⟨ext, rfl, hseg⟩
      have hqe := status_quiet hseg.polls
      have h2 := h1.append_quiet hc1 hqe hseg.polls.clean
      dsimp only
      split
      next herr => exact .fail herr h2
      next herr =>
        have hz := le_antisymm hseg.le_zero (not_lt.mp herr)
        obtain ⟨pre, e, rfl, hread⟩ := statusRead_of_segment hseg hz (by decide)
        refine .ok ⟨h2, clean_append.mpr ⟨hc1, (hseg.success hz).1⟩,
          ⟨e, by simp, hread.imp fun v hv => hv.2⟩, ?_, ?_⟩
        · rw [sentBytes_append, sentBytes_append, hs, sentBytes_quiet hqe,
            sentBytes_quiet (List.forall_mem_singleton.mpr hq)]
          rfl
        · rw [goWritten_append, goWritten_append, not_or, not_or]
          exact ⟨⟨hg, not_goWritten_quiet (List.forall_mem_singleton.mpr hq)⟩,
            not_goWritten_quiet hqe⟩
    · rintro ⟨w, tr'⟩ ⟨ext, rfl, hp⟩
      exact h1.append_quiet hc1 (status_quiet hp) hp.clean

theorem tpm2FifoSend_waits (h10 : tpmHeaderSize ≤ (be32toh cmd.cmdSize).toNat)
    (hmax : (be32toh cmd.cmdSize).toNat ≤ maxSizeCmdbuf) (w : W) :
    Meets (tpm2FifoSend port.recorded fuel chip cmd) (w, [])
      (Outcome (localityStartAddress chip.locality) cmd
        (Waiting (localityStartAddress chip.locality) cmd))
      (fun s => Obeys (localityStartAddress chip.locality) cmd s.2) := by
  rw [tpm2FifoSend, meets_bind]
  refine meets_read fun err status w => ?_
  have hp : Polls [fifoReg (localityStartAddress chip.locality) tpmFifoRegStatus]
      ([] ++ [.read (fifoReg (localityStartAddress chip.locality) tpmFifoRegStatus) .variable err
        status]) := (Polls.nil _).snoc_read clean_nil (List.mem_singleton_self _) err status
  have hq := status_quiet hp
  have h1 : Obeys (localityStartAddress chip.locality) cmd _ :=
    obeys_nil.append_quiet clean_nil hq hp.clean
  dsimp only
  split
  next herr => exact .fail herr h1
  next herr =>
    have hc : Clean ([] ++ [.read (fifoReg (localityStartAddress chip.locality) tpmFifoRegStatus)
        .variable err status]) := by simpa [Fails] using herr
    have hg := not_goWritten_quiet hq
    split
    next hcr =>
      rw [meets_bind]
      refine (tpm2FifoPrepare_ready w _ h1 hc (sentBytes_quiet hq) hg).mono ?_ (fun _ hc => hc)
      rintro err ⟨w, tr⟩ ho
      split
      next herr => exact .fail herr (ho.1 herr)
      next herr => exact sendBytes_waits h10 hmax w tr (ho.2 (not_lt.mp herr))
    next hcr =>
      refine sendBytes_waits h10 hmax w _ ⟨h1, hc, ⟨_, List.mem_append_right _
        (List.mem_singleton_self _), rfl, not_lt.mp herr, hcr⟩, sentBytes_quiet hq, hg⟩

end Send

section Receive

variable [Host] {cmd : TpmCmd} {port : FifoPort W} {fuel : Nat} {chip : ChipData}

structure Reading (base : UInt16) (cmd : TpmCmd) (tr : List Access) : Prop extends
    Waiting base cmd tr where
  answered : Answered base tr

theorem Waiting.quiet {tr ext : List Access} (h : Waiting base cmd tr)
    (hq : ∀ e ∈ ext, Quiet base e) (hc : Clean ext) : Waiting base cmd (tr ++ ext) where
  obeys := h.obeys.append_quiet h.clean hq fun e he => hc e (List.dropLast_subset ext he)
  clean := clean_append.mpr ⟨h.clean, hc⟩
  go := goWritten_append.mpr (.inl h.go)

theorem Reading.read_byte {tr : List Access} (h : Reading base cmd tr) (dst : Dest) (err : Int)
    (val : UInt8) (w : W) : Outcome base cmd (Reading base cmd) err
      (w, tr ++ [.read (fifoReg base tpmFifoRegDataFifo) dst err val]) := by
  have ho : Obeys base cmd (tr ++ [.read (fifoReg base tpmFifoRegDataFifo) dst err val]) :=
    h.obeys.snoc {
      afterFailure := fun _ => h.clean
      ready := fun _ hv => by cases hv
      inOrder := fun _ hv => by cases hv
      complete := fun hg => hg.elim
      once := fun hg => hg.elim
      drained := fun hg => hg.elim
      answered := fun _ _ _ _ => h.answered }
  refine ⟨fun _ => ho, fun herr => ⟨⟨ho, ?_, goWritten_append.mpr (.inl h.go)⟩, h.answered.append _⟩⟩
  rw [clean_append, clean_singleton]
  exact ⟨h.clean, not_lt.mpr herr⟩

theorem readBurst_reads (dest : Nat → Dest) (readSize : Int) (burst : Nat) (st : ReadState) (w : W)
    (tr : List Access) (h : Reading base cmd tr) :
    Meets (readBurst port.recorded base dest readSize burst st) (w, tr)
      (fun r => Outcome base cmd (Reading base cmd) r.1) (fun s => Obeys base cmd s.2) := by
  induction burst generalizing st w tr with
  | zero => exact meets_pure.mpr (.ok h)
  | succ burst ih =>
      rw [readBurst]
      split
      next =>
        rw [meets_bind]
        refine meets_read fun err val w => ?_
        have ho := h.read_byte (dest st.loopIndex.toNat) err val w
        dsimp only
        split
        next herr => exact meets_pure.mpr (.fail herr (ho.1 herr))
        next herr => exact ih _ w _ (ho.2 (not_lt.mp herr))
      next => exact meets_pure.mpr (.ok h)

theorem readLoop_reads (dest : Nat → Dest) (readSize : Int) (n : Nat) (st : ReadState) (w : W)
    (tr : List Access) (hbase : base = localityStartAddress chip.locality)
    (h : Reading base cmd tr) :
    Meets (readLoop port.recorded fuel chip base dest readSize n st) (w, tr)
      (fun r => Outcome base cmd (Reading base cmd) r.1) (fun s => Obeys base cmd s.2) := by
  induction n generalizing st w tr with
  | zero =>
      rw [readLoop]
      split
      next => exact h.obeys
      next => exact meets_pure.mpr (.ok h)
  | succ n ih =>
      rw [readLoop]
      split
      next =>
        rw [meets_bind]
        refine (tpm2FifoGetBurstcount_segment fuel chip w tr).mono ?_ ?_
        · rintro ⟨err, burst⟩ ⟨w, tr'⟩ ⟨ext, rfl, hs⟩
          rw [← hbase] at hs
          have hq := quiet_of_polls hs.polls (burstRegs_ne_dataReg base)
          dsimp only
          split
          next herr =>
            exact meets_pure.mpr (.fail herr (h.obeys.append_quiet h.clean hq hs.polls.clean))
          next herr =>
            have hc := (hs.success (le_antisymm hs.le_zero (not_lt.mp herr))).1
            have hr : Reading base cmd (tr ++ ext) := ⟨h.toWaiting.quiet hq hc, h.answered.append ext⟩
            rw [meets_bind]
            refine (readBurst_reads dest readSize burst.toNat st w _ hr).imp ?_
            rintro ⟨err, st⟩ ⟨w, tr⟩ ho
            dsimp only
            split
            next herr => exact meets_pure.mpr (.fail herr (ho.1 herr))
            next herr => exact ih st w tr (ho.2 (not_lt.mp herr))
        · rintro ⟨w, tr'⟩ ⟨ext, rfl, hp⟩
          rw [← hbase] at hp
          exact h.obeys.append_quiet h.clean (quiet_of_polls hp (burstRegs_ne_dataReg base)) hp.clean
      next => exact meets_pure.mpr (.ok h)

theorem tpm2FifoReadData_reads (buf : TpmCmd) (size expected : Int) (w : W) (tr : List Access)
    (h : Waiting (localityStartAddress chip.locality) cmd tr) :
    Meets (tpm2FifoReadData port.recorded fuel chip buf (localityStartAddress chip.locality) size
        expected) (w, tr)
      (fun r => Outcome (localityStartAddress chip.locality) cmd
        (Reading (localityStartAddress chip.locality) cmd) r.1)
      (fun s => Obeys (localityStartAddress chip.locality) cmd s.2) := by
  rw [tpm2FifoReadData, meets_bind]
  refine (tpm2WaitRegBits_segment fuel _ _ _ w tr).mono ?_ ?_
  · rintro ⟨err, status⟩ ⟨w, tr'⟩ ⟨ext, rfl, hs⟩
    have hq := status_quiet hs.polls
    dsimp only
    split
    next herr => exact meets_pure.mpr (.fail herr (h.obeys.append_quiet h.clean hq hs.polls.clean))
    next herr =>
      have hz := le_antisymm hs.le_zero (not_lt.mp herr)
      have hw := h.quiet hq (hs.success hz).1
      obtain ⟨pre, e, rfl, hread⟩ := statusRead_of_segment hs hz (by decide)
      have ha : Answered (localityStartAddress chip.locality) (tr ++ (pre ++ [e])) :=
        ⟨tr, _, rfl, h.go, e, by simp, hread.imp fun v hv => hv.2⟩
      rw [meets_bind]
      exact (readLoop_reads _ _ fuel _ w _ rfl ⟨hw, ha⟩).imp fun r s hr => hr
  · rintro ⟨w, tr'⟩ ⟨ext, rfl, hp⟩
    exact h.obeys.append_quiet h.clean (status_quiet hp) hp.clean

theorem tpm2FifoReceive_obeys (buf : TpmCmd) (w : W) (tr : List Access)
    (h : Waiting (localityStartAddress chip.locality) cmd tr) :
    Obeys (localityStartAddress chip.locality) cmd
      (tpm2FifoReceive port.recorded fuel chip buf (w, tr)).2.2 := by
  refine Meets.world (C := fun s : W × List Access => Obeys (localityStartAddress chip.locality) cmd s.2) ?_
  rw [tpm2FifoReceive, meets_bind]
  refine (tpm2FifoReadData_reads buf 0 tpmReadHeader w tr h).mono ?_ (fun _ hc => hc)
  rintro ⟨err, size, buf⟩ ⟨w, tr⟩ ho
  dsimp only
  split
  next herr => exact ho.1 herr
  next herr =>
    have hr := ho.2 (not_lt.mp herr)
    split
    next => exact hr.obeys
    next =>
      split
      next => exact hr.obeys
      next =>
        rw [meets_bind]
        refine (tpm2FifoReadData_reads buf size _ w tr hr.toWaiting).mono ?_ (fun _ hc => hc)
        rintro ⟨err, size, buf⟩ ⟨w, tr⟩ ho
        have hobeys : Obeys (localityStartAddress chip.locality) cmd tr :=
          (lt_or_ge err 0).elim ho.1 fun h0 => (ho.2 h0).obeys
        dsimp only
        split
        next => exact hobeys
        next => split <;> exact hobeys

def xferTrace (port : FifoPort W) (fuel : Nat) (chip : ChipData) (send receive : TpmCmd) (w : W) :
    List Access := (tpmXfer (fifoOps port.recorded fuel) chip send receive (w, [])).2.2

/-- In every run of an exchange with a well-formed command, whatever the
registers, the bus and the timer answer, each access is permitted by the
protocol after those before it. -/
theorem tpmXfer_obeys_protocol (port : FifoPort W) (fuel : Nat) (chip : ChipData)
    (cmd resp : TpmCmd) (w : W) (h10 : tpmHeaderSize ≤ (be32toh cmd.cmdSize).toNat)
    (hmax : (be32toh cmd.cmdSize).toNat ≤ maxSizeCmdbuf) :
    Obeys (localityStartAddress chip.locality) cmd (xferTrace port fuel chip cmd resp w) := by
  refine Meets.world (C := fun s : W × List Access =>
    Obeys (localityStartAddress chip.locality) cmd s.2) ?_
  rw [tpmXfer, meets_bind]
  refine (tpm2FifoSend_waits h10 hmax w).mono ?_ (fun _ hc => hc)
  rintro ret ⟨w, tr⟩ ho
  split
  next herr => exact ho.1 herr
  next herr =>
    rw [meets_bind]
    refine (meets_world.mpr (tpm2FifoReceive_obeys resp w tr (ho.2 (not_lt.mp herr)))).mono ?_
      (fun _ hc => hc)
    rintro ⟨ret, buf⟩ s hs
    dsimp only
    split <;> exact hs

end Receive

theorem tpmXfer_obeys_protocol_startup :
    letI := littleHost
    Obeys (localityStartAddress tpmChipData.locality) (startupCommand 0).cmd
      (xferTrace (FifoPort.steady fun _ => 0xd0) 64 tpmChipData (startupCommand 0).cmd .zero ()) :=
  letI := littleHost
  tpmXfer_obeys_protocol (FifoPort.steady fun _ => 0xd0) 64 tpmChipData (startupCommand 0).cmd .zero ()
    (by decide +kernel) (by decide +kernel)

end LibTpm.FifoProtocol
