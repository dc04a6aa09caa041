import LibTpm.ResponseSizes
import LibTpm.TransferFrames
import LibTpm.Watched

namespace LibTpm.StatusTruth

open LibTpm.Base.Process LibTpm.Base.Process.Proc LibTpm.Command LibTpm.Constants LibTpm.Endian
open LibTpm.Platform LibTpm.Fifo LibTpm.FifoTrace LibTpm.FifoProtocol LibTpm.ResponseSizes LibTpm.TransferFrames
open LibTpm.Watched
open LibTpm.Builder LibTpm.Commands

variable {W : Type} {base : UInt16}

/-- What a device really does, whatever its STATUS shows: whether it expects
more bytes, and how many bytes are left of its response once it has one. -/
structure Truth where
  expects : Bool
  response : Option Nat
  deriving DecidableEq, Repr

def Truth.Available (t : Truth) : Prop := ∃ n, 0 < n ∧ t.response = some n

instance : DecidablePred Truth.Available := fun t =>
  decidable_of_iff (∃ n ∈ t.response, 0 < n) ⟨fun ⟨n, hn, hpos⟩ => ⟨n, hpos, hn⟩, fun ⟨n, hpos, hn⟩ => ⟨n, hn, hpos⟩⟩

/-- STATUS tells the truth in a byte with VALID, and a response stays until it
is read. Nothing is assumed of a STATUS byte without VALID, nor of what the
device makes of a write. -/
structure Truthful (port : FifoPort W) (base : UInt16) (truth : W → Truth) : Prop where
  status {dst : Dest} {w w' : W} {err : Int} {val : UInt8} :
    port.readByte (fifoReg base tpmFifoRegStatus) dst w = ((err, val), w') → 0 ≤ err → val &&& tpmStatValid ≠ 0 →
      (val &&& tpmStatExpect ≠ 0 ↔ (truth w').expects = true) ∧ (val &&& tpmStatAvail ≠ 0 ↔ (truth w').Available)
  timeoutInit {usec : UInt32} {w w' : W} {cnt : UInt64} {n : Nat} :
    port.timeoutInitUs usec w = (cnt, w') → (truth w).response = some n → (truth w').response = some n
  timeoutElapsed {cnt : UInt64} {w w' : W} {elapsed : Bool} {n : Nat} :
    port.timeoutElapsed cnt w = (elapsed, w') → (truth w).response = some n → (truth w').response = some n
  read {reg : UInt16} {dst : Dest} {w w' : W} {err : Int} {val : UInt8} {n : Nat} :
    reg ≠ fifoReg base tpmFifoRegDataFifo → port.readByte reg dst w = ((err, val), w') →
      (truth w).response = some n → (truth w').response = some n
  fifo {dst : Dest} {w w' : W} {err : Int} {val : UInt8} {n : Nat} :
    port.readByte (fifoReg base tpmFifoRegDataFifo) dst w = ((err, val), w') → (truth w).response = some n →
      ∃ m, n ≤ m + 1 ∧ (truth w').response = some m

def IsFifoRead (base : UInt16) : Access → Prop
  | .read reg _ _ _ => reg = fifoReg base tpmFifoRegDataFifo
  | _ => False

instance : DecidablePred (IsFifoRead base) := fun e =>
  Access.casesOn (motive := fun e => Decidable (IsFifoRead base e)) e (fun _ _ _ => isFalse id)
    (fun reg _ _ _ => inferInstanceAs (Decidable (reg = fifoReg base tpmFifoRegDataFifo)))
    (fun _ _ _ => isFalse id) (fun _ _ => isFalse id) (fun _ _ => isFalse id)

instance : DecidablePred (IsGo base) := fun e =>
  Access.casesOn (motive := fun e => Decidable (IsGo base e)) e
    (fun reg val _ => inferInstanceAs (Decidable (reg = fifoReg base tpmFifoRegStatus ∧ val &&& tpmStatGo ≠ 0)))
    (fun _ _ _ _ => isFalse id) (fun _ _ _ => isFalse id) (fun _ _ => isFalse id) (fun _ _ => isFalse id)

instance {P : UInt8 → Prop} [DecidablePred P] : DecidablePred (StatusRead base P) := fun e =>
  Access.casesOn (motive := fun e => Decidable (StatusRead base P e)) e (fun _ _ _ => isFalse id)
    (fun reg _ err val => inferInstanceAs (Decidable (reg = fifoReg base tpmFifoRegStatus ∧ 0 ≤ err ∧ P val)))
    (fun _ _ _ => isFalse id) (fun _ _ => isFalse id) (fun _ _ => isFalse id)

/-- GO is written only when the device expects no more bytes. -/
def GoTimely (base : UInt16) (log : List (Observed Truth)) : Prop :=
  ∀ e ∈ log, IsGo base e.access → e.before.expects = false

/-- DATA_FIFO is read only when the device has response bytes left. -/
def ReadsAvailable (base : UInt16) (log : List (Observed Truth)) : Prop :=
  ∀ e ∈ log, IsFifoRead base e.access → e.before.Available

def ReadsResponse (base : UInt16) (log : List (Observed Truth)) : Prop :=
  ∀ e ∈ log, IsFifoRead base e.access → ∃ n, e.before.response = some n

/-- The part of an exchange that answers the command, from the GO on. -/
def answer (base : UInt16) (log : List (Observed Truth)) : List (Observed Truth) :=
  log.dropWhile fun e => ¬ IsGo base e.access

/-- Each STATUS byte with AVAIL and without VALID is true about it. -/
def AvailTrue (base : UInt16) (log : List (Observed Truth)) : Prop :=
  ∀ e ∈ log, StatusRead base (fun v => v &&& tpmStatAvail ≠ 0 ∧ v &&& tpmStatValid = 0) e.access → e.after.Available

/-- The bytes that the receive still wants in its pass: those of the header,
and after it as many as the size field says. -/
def wants (base : UInt16) (log : List (Observed Truth)) : Nat :=
  if (receivedBytes base (accesses log)).length < tpmHeaderSize then
    tpmHeaderSize - (receivedBytes base (accesses log)).length
  else field 2 ((receivedBytes base (accesses log)).take tpmHeaderSize) + tpmHeaderSize -
    (receivedBytes base (accesses log)).length

/-- The burst count that two successive accesses read. -/
def countRead (base : UInt16) : Access → Access → Option Nat
  | .read lo _ err₀ byte0, .read hi _ err₁ byte1 =>
      if lo = fifoReg base tpmFifoRegBurstCountLo ∧ hi = fifoReg base tpmFifoRegBurstCountHi ∧
          0 ≤ err₀ ∧ 0 ≤ err₁ then
        some (burstcountOf byte0 byte1).toNat
      else none
  | _, _ => none

/-- Each burst count that is read, or what the receive still wants, is no more
than what is left of the response. -/
def BurstsLeft (base : UInt16) (log : List (Observed Truth)) : Prop :=
  ∀ p lo hi, p ++ [lo, hi] <+: log → ∀ c ∈ countRead base lo.access hi.access,
    ∀ n ∈ hi.after.response, c ≤ n ∨ wants base p ≤ n

theorem BurstsLeft.of_indices {log : List (Observed Truth)}
    (h : ∀ i < log.length, ∀ lo ∈ log[i]?, ∀ hi ∈ log[i + 1]?, ∀ c ∈ countRead base lo.access hi.access,
      ∀ n ∈ hi.after.response, c ≤ n ∨ wants base (log.take i) ≤ n) : BurstsLeft base log := by
  rintro p lo hi ⟨rest, rfl⟩ c hc n hn
  have hat := h p.length (by simp) lo (by simp) hi (by simp) c hc n hn
  simpa using hat

section Persistence

variable {port : FifoPort W} {truth : W → Truth} {chip : ChipData} {fuel : Nat}

def Stays (truth : W → Truth) (t : Truth) (s : W × List (Observed Truth)) : Prop :=
  ∀ n, t.response = some n → (truth s.1).response = some n

theorem burstcount_stays (ht : Truthful port (localityStartAddress chip.locality) truth) (t : Truth) :
    Keeps (Stays truth t) (tpm2FifoGetBurstcount (watched port truth) fuel chip) := by
  have hframe : PollFrame (Stays truth t) (watched port truth) (localityStartAddress chip.locality) :=
    ⟨fun _ _ h n hn => ht.timeoutInit rfl (h n hn), fun _ _ h n hn => ht.timeoutElapsed rfl (h n hn),
      fun _ hreg _ h n hn => ht.read hreg rfl (h n hn)⟩
  exact hframe.burstcount

end Persistence

section Logs

variable {log ext : List (Observed Truth)}

theorem AvailTrue.front {ext' : List (Observed Truth)} (h : AvailTrue base (ext ++ ext')) : AvailTrue base ext :=
  fun e he => h e (List.mem_append_left ext' he)

theorem BurstsLeft.front {ext' : List (Observed Truth)} (h : BurstsLeft base (ext ++ ext')) : BurstsLeft base ext :=
  fun p lo hi hp => h p lo hi (hp.trans (List.prefix_append ext ext'))

/-- A part of a receive: it writes no GO, and what it reads is there if the
device's answers are as they should be. -/
structure Told (base : UInt16) (ext : List (Observed Truth)) : Prop where
  noGo : ∀ e ∈ ext, ¬ IsGo base e.access
  response : AvailTrue base ext → ReadsResponse base ext
  available : AvailTrue base ext → BurstsLeft base ext → ReadsAvailable base ext

theorem Told.nil : Told base [] :=
  ⟨fun _ he => absurd he List.not_mem_nil, fun _ _ he => absurd he List.not_mem_nil,
    fun _ _ _ he => absurd he List.not_mem_nil⟩

theorem Told.append (h : Told base ext) {part : List (Observed Truth)} (hgo : ∀ e ∈ part, ¬ IsGo base e.access)
    (hr : AvailTrue base (ext ++ part) → ReadsResponse base part)
    (ha : AvailTrue base (ext ++ part) → BurstsLeft base (ext ++ part) → ReadsAvailable base part) :
    Told base (ext ++ part) where
  noGo := List.forall_mem_append.mpr ⟨h.noGo, hgo⟩
  response ht := List.forall_mem_append.mpr ⟨h.response ht.front, hr ht⟩
  available ht hb := List.forall_mem_append.mpr ⟨h.available ht.front hb.front, ha ht hb⟩

/-- An access that neither writes GO nor reads DATA_FIFO. -/
structure Mute (base : UInt16) (e : Access) : Prop where
  noGo : ¬ IsGo base e
  noRead : ¬ IsFifoRead base e

theorem Told.mute (h : Told base ext) {part : List (Observed Truth)} (hm : ∀ e ∈ part, Mute base e.access) :
    Told base (ext ++ part) :=
  h.append (fun e he => (hm e he).noGo) (fun _ e he hf => absurd hf (hm e he).noRead)
    fun _ _ e he hf => absurd hf (hm e he).noRead

theorem mute_read {reg : UInt16} (h : reg ≠ fifoReg base tpmFifoRegDataFifo) (dst : Dest) (err : Int) (val : UInt8) :
    Mute base (.read reg dst err val) := ⟨id, h⟩

theorem mute_polled {e : Access} (h : Polled (fifoReg base tpmFifoRegStatus) e) : Mute base e := by
  cases e with
  | read reg dst err val =>
      obtain ⟨rfl, -⟩ := h
      exact mute_read (fifoReg_ne base (by decide)) _ _ _
  | timeoutInit | timeoutElapsed => exact ⟨id, id⟩
  | write | readChunk => exact h.elim

theorem mute_vain {e : Access} (h : Vain base e) : Mute base e := by
  cases e with
  | read reg dst err val =>
      obtain ⟨-, rfl | ⟨rfl, -⟩⟩ := h <;> exact mute_read (fifoReg_ne base (by decide)) _ _ _
  | timeoutInit | timeoutElapsed => exact ⟨id, id⟩
  | write | readChunk => exact h.elim

theorem received_mute {part : List (Observed Truth)} (h : ∀ e ∈ part, Mute base e.access) :
    receivedBytes base (accesses part) = [] := by
  apply List.filterMap_eq_nil_iff.mpr
  intro a ha
  obtain ⟨e, he, rfl⟩ := List.mem_map.mp ha
  have hread := (h e he).noRead
  cases hacc : e.access with
  | read reg dst err val =>
      rw [hacc] at hread
      exact if_neg fun hc => hread hc.1
  | write | readChunk | timeoutInit | timeoutElapsed => rfl

theorem not_availSeen_vain {vain : List (Observed Truth)} (h : ∀ e ∈ vain, Vain base e.access) :
    ¬ AvailSeen base (accesses vain) := by
  rintro ⟨a, ha, hs⟩
  obtain ⟨e, he, rfl⟩ := List.mem_map.mp ha
  have hv := h e he
  cases hacc : e.access with
  | read reg dst err val =>
      rw [hacc] at hv hs
      obtain ⟨-, hreg | ⟨hreg, -⟩⟩ := hv <;> exact fifoReg_ne base (by decide) (hreg.symm.trans hs.1)
  | write | readChunk | timeoutInit | timeoutElapsed =>
      rw [hacc] at hs
      exact hs

end Logs

section Passes

variable {port : FifoPort W} {truth : W → Truth} {chip : ChipData} {fuel : Nat} {dest : Nat → Dest}
  {readSize : Int} {J : ReadState → List Access → Prop}

/-- What a receive pass keeps true of its counters and of the bytes it has read. -/
structure Pass (base : UInt16) (dest : Nat → Dest) (readSize : Int) (J : ReadState → List Access → Prop) : Prop where
  aside {st : ReadState} {tr tr' : List Access} : J st tr → receivedBytes base tr' = [] → ¬ AvailSeen base tr' →
    J st (tr ++ tr')
  store {st : ReadState} {tr : List Access} (err : Int) (val : UInt8) : J st tr → st.loopIndex < readSize → 0 ≤ err →
    J ⟨st.loopIndex + 1, st.size + 1, storeTo st.buf val (dest st.loopIndex.toNat)⟩
      (tr ++ [.read (fifoReg base tpmFifoRegDataFifo) (dest st.loopIndex.toNat) err val])
  wants {st : ReadState} {log : List (Observed Truth)} : J st (accesses log) → st.size < readSize →
    wants base log = (readSize - st.loopIndex).toNat

theorem Pass.vain (hJ : Pass base dest readSize J) {st : ReadState} {tr : List Access}
    {vain : List (Observed Truth)} (h : J st tr) (hv : ∀ e ∈ vain, Vain base e.access) :
    J st (tr ++ accesses vain) :=
  hJ.aside h (received_mute fun e he => mute_vain (hv e he)) (not_availSeen_vain hv)

/-- At most `most` bytes that are read one after the other, from the truth `t`
to the truth `t'`. -/
structure Drawn (base : UInt16) (t : Truth) (most : Nat) (chunk : List (Observed Truth)) (t' : Truth) : Prop where
  noGo : ∀ e ∈ chunk, ¬ IsGo base e.access
  kept (n : Nat) : t.response = some n → ∃ m, t'.response = some m
  response (n : Nat) : t.response = some n → ReadsResponse base chunk
  available (n : Nat) : t.response = some n → most ≤ n → ReadsAvailable base chunk

theorem Drawn.nil (t : Truth) (most : Nat) : Drawn base t most [] t where
  noGo _ he := absurd he List.not_mem_nil
  kept n h := ⟨n, h⟩
  response _ _ _ he := absurd he List.not_mem_nil
  available _ _ _ _ he := absurd he List.not_mem_nil

theorem Drawn.cons {t t₁ t' : Truth} {most : Nat} {chunk : List (Observed Truth)} {dst : Dest} {err : Int}
    {val : UInt8} (hread : ∀ n, t.response = some n → ∃ m, n ≤ m + 1 ∧ t₁.response = some m)
    (h : Drawn base t₁ most chunk t') :
    Drawn base t (most + 1) (⟨t, .read (fifoReg base tpmFifoRegDataFifo) dst err val, t₁⟩ :: chunk) t' where
  noGo := List.forall_mem_cons.mpr ⟨id, h.noGo⟩
  kept n hn := by
    obtain ⟨m, -, hm⟩ := hread n hn
    exact h.kept m hm
  response n hn := by
    obtain ⟨m, -, hm⟩ := hread n hn
    exact List.forall_mem_cons.mpr ⟨fun _ => ⟨n, hn⟩, h.response m hm⟩
  available n hn hle := by
    obtain ⟨m, hnm, hm⟩ := hread n hn
    exact List.forall_mem_cons.mpr ⟨fun _ => ⟨n, by omega, hn⟩, h.available m hm (by omega)⟩

theorem readBurst_draws (ht : Truthful port base truth) (hJ : Pass base dest readSize J) (count : Nat)
    (st : ReadState) (w : W) (log ext : List (Observed Truth)) (h : J st (accesses ext)) :
    Meets (readBurst (watched port truth) base dest readSize count st) (w, log)
      (fun r s => ∃ chunk, s.2 = log ++ chunk ∧
        Drawn base (truth w) (min count (readSize - st.loopIndex).toNat) chunk (truth s.1) ∧
        (0 ≤ r.1 → J r.2 (accesses (ext ++ chunk)))) (fun _ => False) := by
  have hnone {st : ReadState} {ext : List (Observed Truth)} (h : J st (accesses ext)) :
      J st (accesses (ext ++ [])) := by rwa [List.append_nil]
  induction count generalizing st w log ext with
  | zero =>
      rw [readBurst, meets_pure]
      exact ⟨[], (List.append_nil log).symm, Drawn.nil _ _, fun _ => hnone h⟩
  | succ count ih =>
      rw [readBurst, meets_ite]
      refine ⟨fun hlt => ?_, fun _ => ?_⟩
      · have hmost : min (count + 1) (readSize - st.loopIndex).toNat =
            min count (readSize - (st.loopIndex + 1)).toNat + 1 := by omega
        dsimp only
        rw [meets_bind, hmost]
        apply watch_read
        intro err val w' hread
        have hfifo (n : Nat) (hn : (truth w).response = some n) := ht.fifo hread hn
        rw [meets_ite]
        refine ⟨fun herr => ?_, fun herr => ?_⟩
        · rw [meets_pure]
          exact ⟨_, rfl, (Drawn.nil _ _).cons hfifo, fun hok => absurd herr (not_lt.mpr hok)⟩
        · have hnext : J ⟨st.loopIndex + 1, st.size + 1, storeTo st.buf val (dest st.loopIndex.toNat)⟩
              (accesses (ext ++ [⟨truth w, .read (fifoReg base tpmFifoRegDataFifo) (dest st.loopIndex.toNat) err val,
                truth w'⟩])) := by
            rw [accesses_append]
            exact hJ.store err val h hlt (not_lt.mp herr)
          apply (ih _ w' _ _ hnext).imp
          rintro r s ⟨chunk, hlog, hd, hj⟩
          rw [List.append_assoc, List.singleton_append] at hlog hj
          exact ⟨_, hlog, hd.cons hfifo, hj⟩
      · rw [meets_pure]
        exact ⟨[], (List.append_nil log).symm, Drawn.nil _ _, fun _ => hnone h⟩

/-- What a read of the burst count adds, and the bytes that are then drawn. -/
theorem Told.draw (hJ : Pass base dest readSize J) {st : ReadState} {w w₁ : W} {t : Truth} {r : Int × UInt16}
    {ext vain two chunk : List (Observed Truth)} (h : Told base ext) (hj : J st (accesses ext))
    (hlt : st.size < readSize) (hb : Bursted port truth base r w₁ vain two) (hok : 0 ≤ r.1)
    (hresp : AvailTrue base ext → ∃ n, (truth w).response = some n)
    (hkeep : ∀ n, (truth w).response = some n → (truth w₁).response = some n)
    (hd : Drawn base (truth w₁) (min r.2.toNat (readSize - st.loopIndex).toNat) chunk t) :
    Told base (ext ++ vain ++ two ++ chunk) ∧
      (AvailTrue base (ext ++ vain ++ two ++ chunk) → ∃ n, t.response = some n) := by
  have hfound (ha : AvailTrue base (ext ++ vain ++ two ++ chunk)) : ∃ n, (truth w₁).response = some n := by
    obtain ⟨n, hn⟩ := hresp ha.front.front.front
    exact ⟨n, hkeep n hn⟩
  have hwants : wants base (ext ++ vain) = (readSize - st.loopIndex).toNat := by
    apply hJ.wants _ hlt
    rw [accesses_append]
    exact hJ.vain hj hb.vain
  obtain ⟨-, u, v, err₀, err₁, byte0, byte1, -, -, hok₀, hok₁, hcount, rfl⟩ := hb.yields hok
  generalize hlo : (⟨truth u, .read (fifoReg base tpmFifoRegBurstCountLo) .variable err₀ byte0, truth v⟩ :
    Observed Truth) = lo
  generalize hhi : (⟨truth v, .read (fifoReg base tpmFifoRegBurstCountHi) .variable err₁ byte1, truth w₁⟩ :
    Observed Truth) = hi
  rw [hlo, hhi] at hfound
  have hread : countRead base lo.access hi.access = some r.2.toNat := by
    rw [← hlo, ← hhi, hcount]
    exact if_pos ⟨rfl, rfl, hok₀, hok₁⟩
  have hafter : hi.after = truth w₁ := hhi ▸ rfl
  have htwo : ∀ e ∈ [lo, hi], Mute base e.access := by
    rw [← hlo, ← hhi]
    exact List.forall_mem_cons.mpr ⟨mute_read (fifoReg_ne base (by decide)) _ _ _,
      List.forall_mem_singleton.mpr (mute_read (fifoReg_ne base (by decide)) _ _ _)⟩
  refine ⟨?_, fun ha => ?_⟩
  · apply ((h.mute fun e he => mute_vain (hb.vain e he)).mute htwo).append hd.noGo
    · intro ha
      obtain ⟨n, hn⟩ := hfound ha
      exact hd.response n hn
    · intro ha hleft
      obtain ⟨n, hn⟩ := hfound ha
      have hbound := hleft (ext ++ vain) lo hi (List.prefix_append _ _) _ hread n (by rw [hafter]; exact hn)
      rw [hwants] at hbound
      exact hd.available n hn (by omega)
  · obtain ⟨n, hn⟩ := hfound ha
    exact hd.kept n hn

theorem Pass.two (hJ : Pass base dest readSize J) {st : ReadState} {w : W} {burst : UInt16} {tr : List Access}
    {two : List (Observed Truth)} (h : J st tr) (hy : Yields port truth base burst w two) :
    J st (tr ++ accesses two) := by
  obtain ⟨-, u, v, err₀, err₁, byte0, byte1, -, -, -, -, -, rfl⟩ := hy
  have hlo : fifoReg base tpmFifoRegBurstCountLo ≠ fifoReg base tpmFifoRegDataFifo := fifoReg_ne base (by decide)
  have hhi : fifoReg base tpmFifoRegBurstCountHi ≠ fifoReg base tpmFifoRegDataFifo := fifoReg_ne base (by decide)
  have hlo' : fifoReg base tpmFifoRegBurstCountLo ≠ fifoReg base tpmFifoRegStatus := fifoReg_ne base (by decide)
  have hhi' : fifoReg base tpmFifoRegBurstCountHi ≠ fifoReg base tpmFifoRegStatus := fifoReg_ne base (by decide)
  apply hJ.aside h
  · simp [accesses, receivedBytes, receivedByte, hlo, hhi]
  · simp [accesses, AvailSeen, StatusRead, hlo', hhi']

theorem readLoop_told (ht : Truthful port (localityStartAddress chip.locality) truth)
    (hJ : Pass (localityStartAddress chip.locality) dest readSize J) (n : Nat) (st : ReadState) (w : W)
    (log ext : List (Observed Truth)) (h : Told (localityStartAddress chip.locality) ext) (hj : J st (accesses ext))
    (hresp : AvailTrue (localityStartAddress chip.locality) ext → ∃ n, (truth w).response = some n) :
    Meets (readLoop (watched port truth) fuel chip (localityStartAddress chip.locality) dest readSize n st)
      (w, log ++ ext)
      (fun r s => ∃ ext', s.2 = log ++ ext' ∧ Told (localityStartAddress chip.locality) ext' ∧
        (0 ≤ r.1 → J r.2 (accesses ext') ∧ readSize ≤ r.2.size))
      (fun s => ∃ ext', s.2 = log ++ ext' ∧ Told (localityStartAddress chip.locality) ext') := by
  induction n generalizing st w ext with
  | zero =>
      rw [readLoop, meets_ite]
      exact ⟨fun _ => ⟨ext, rfl, h⟩, fun hge => ⟨ext, rfl, h, fun _ => ⟨hj, not_lt.mp hge⟩⟩⟩
  | succ n ih =>
      rw [readLoop, meets_ite]
      refine ⟨fun hlt => ?_, fun hge => ⟨ext, rfl, h, fun _ => ⟨hj, not_lt.mp hge⟩⟩⟩
      rw [meets_bind]
      have hstays := meets_world.mpr
        (@burstcount_stays W port truth chip fuel ht (truth w) (w, log ++ ext) fun _ hn => hn)
      apply ((burstcount_watched fuel chip w (log ++ ext)).and hstays).mono
      · rintro ⟨err, count⟩ ⟨w₁, log'⟩ ⟨⟨vain, two, rfl, hb⟩, hkeep⟩
        dsimp only
        rw [meets_ite]
        refine ⟨fun herr => ?_, fun herr => ?_⟩
        · rw [meets_pure, hb.none herr, List.append_nil]
          exact ⟨ext ++ vain, List.append_assoc .., h.mute fun e he => mute_vain (hb.vain e he),
            fun hok => absurd herr (not_lt.mpr hok)⟩
        rw [meets_bind]
        have htwo : J st (accesses (ext ++ vain ++ two)) := by
          rw [accesses_append, accesses_append]
          exact hJ.two (hJ.vain hj hb.vain) (hb.yields (not_lt.mp herr))
        apply (readBurst_draws ht hJ count.toNat st w₁ _ _ htwo).mono
        · rintro ⟨err', st'⟩ ⟨w₂, log'⟩ ⟨chunk, rfl, hd, hnext⟩
          obtain ⟨htold, hleft⟩ := h.draw hJ hj hlt hb (not_lt.mp herr) hresp hkeep hd
          dsimp only at hnext ⊢
          have hlog : log ++ ext ++ vain ++ two ++ chunk = log ++ (ext ++ vain ++ two ++ chunk) := by
            simp only [List.append_assoc]
          rw [hlog, meets_ite]
          refine ⟨fun herr' => ⟨_, rfl, htold, fun hok => absurd herr' (not_lt.mpr hok)⟩, fun herr' => ?_⟩
          exact ih st' w₂ _ htold (hnext (not_lt.mp herr')) hleft
        · exact fun _ hf => hf.elim
      · rintro ⟨w₁, log'⟩ ⟨⟨vain, rfl, hvain⟩, -⟩
        exact ⟨ext ++ vain, List.append_assoc .., h.mute fun e he => mute_vain (hvain e he)⟩

/-- A wait for AVAIL that succeeds: either its last byte had VALID, or it is
one that has to be true without it. -/
theorem Told.waited (ht : Truthful port base truth) {r : Int × UInt8} {w : W} {ext wait : List (Observed Truth)}
    (h : Told base ext) (hw : Waited port truth (fifoReg base tpmFifoRegStatus) tpmStatAvail r w wait) :
    Told base (ext ++ wait) ∧ (0 ≤ r.1 → AvailTrue base (ext ++ wait) → ∃ n, (truth w).response = some n) := by
  refine ⟨h.mute fun e he => mute_polled (hw.polls e he), fun hok ha => ?_⟩
  obtain ⟨hset, pre, v, err, hread, herr, rfl⟩ := hw.done hok
  have havail : r.2 &&& tpmStatAvail ≠ 0 := and_eq_self_ne_zero hset (by decide)
  have hthere : (truth w).Available := by
    by_cases hvalid : r.2 &&& tpmStatValid = 0
    · have hlast := ha ⟨truth v, .read (fifoReg base tpmFifoRegStatus) .variable err r.2, truth w⟩ (by simp)
      exact hlast ⟨rfl, herr, havail, hvalid⟩
    · exact ((ht.status hread herr hvalid).2).mp havail
  obtain ⟨n, -, hn⟩ := hthere
  exact ⟨n, hn⟩

end Passes

section Receive

variable {port : FifoPort W} {truth : W → Truth} {chip : ChipData} {fuel : Nat}

def HeaderSoFar (base : UInt16) (st : ReadState) (tr : List Access) : Prop :=
  ∃ wait bursts, tr = wait ++ bursts ∧ receivedBytes base wait = [] ∧ Collected base st bursts

theorem HeaderSoFar.received {st : ReadState} {tr : List Access} (h : HeaderSoFar base st tr) :
    st.loopIndex = (receivedBytes base tr).length ∧ st.size = (receivedBytes base tr).length ∧
      (receivedBytes base tr).length ≤ tpmHeaderSize ∧
      st.buf.bytes.take (receivedBytes base tr).length = receivedBytes base tr := by
  obtain ⟨wait, bursts, rfl, hwait, hc⟩ := h
  rw [receivedBytes_append, hwait, List.nil_append]
  exact ⟨hc.index, hc.size, hc.le, hc.bytes⟩

theorem headerSoFar_pass (base : UInt16) :
    Pass base (readDest tpmReadHeader) tpmHeaderSize (HeaderSoFar base) where
  aside h hs ha := by
    obtain ⟨wait, bursts, rfl, hwait, hc⟩ := h
    exact ⟨wait, bursts ++ _, List.append_assoc .., hwait, hc.quiet hs ha⟩
  store err val h hlt herr := by
    obtain ⟨wait, bursts, rfl, hwait, hc⟩ := h
    rw [hc.index] at hlt
    rw [ReceiveBounds.readDest_header]
    exact ⟨wait, _, List.append_assoc .., hwait, hc.store (Int.ofNat_lt.mp hlt) herr _ _⟩
  wants h hlt := by
    obtain ⟨hindex, hsize, -, -⟩ := h.received
    rw [hsize] at hlt
    rw [wants, if_pos (Int.ofNat_lt.mp hlt), hindex]
    omega

def RestSoFar (base : UInt16) (header : List UInt8) (st : ReadState) (tr : List Access) : Prop :=
  ∃ rest, receivedBytes base tr = header ++ rest ∧ st.loopIndex = rest.length

theorem restSoFar_pass {header : List UInt8} {n : Nat} (hwhole : header.length = tpmHeaderSize)
    (hn : field 2 header = n) : Pass base (readDest n) n (RestSoFar base header) where
  aside h hs _ := by
    obtain ⟨rest, hrest, hindex⟩ := h
    refine ⟨rest, ?_, hindex⟩
    rw [receivedBytes_append, hs, List.append_nil, hrest]
  store err val h _ herr := by
    obtain ⟨rest, hrest, hindex⟩ := h
    refine ⟨rest ++ [val], ?_, ?_⟩
    · rw [receivedBytes_append, hrest, receivedBytes_fifo herr, List.append_assoc]
    · rw [List.length_append, hindex]
      rfl
  wants h _ := by
    obtain ⟨rest, hrest, hindex⟩ := h
    have hlen : (header ++ rest).length = tpmHeaderSize + rest.length := by rw [List.length_append, hwhole]
    rw [wants, hrest, hlen, if_neg (by omega), ← hwhole, List.take_left, hn, hindex]
    omega

theorem headerPass_told (ht : Truthful port (localityStartAddress chip.locality) truth) (buf : TpmCmd) (w : W)
    (log : List (Observed Truth)) :
    Meets (tpm2FifoReadData (watched port truth) fuel chip buf (localityStartAddress chip.locality) 0 tpmReadHeader)
      (w, log)
      (fun r s => ∃ ext, s.2 = log ++ ext ∧ Told (localityStartAddress chip.locality) ext ∧ (0 ≤ r.1 →
        r.2.1 = tpmHeaderSize ∧
          receivedBytes (localityStartAddress chip.locality) (accesses ext) = r.2.2.header))
      (fun s => ∃ ext, s.2 = log ++ ext ∧ Told (localityStartAddress chip.locality) ext) := by
  unfold tpm2FifoReadData
  rw [if_pos rfl, if_pos rfl, meets_bind]
  apply (wait_watched fuel _ _ _ w log).mono
  · rintro ⟨err, status⟩ ⟨w₁, log'⟩ ⟨wait, rfl, hw⟩
    obtain ⟨htold, hresp⟩ := Told.nil.waited ht hw
    rw [List.nil_append] at htold hresp
    dsimp only at hresp ⊢
    rw [meets_ite]
    refine ⟨fun herr => ⟨wait, rfl, htold, fun hok => absurd herr (not_lt.mpr hok)⟩, fun herr => ?_⟩
    rw [meets_bind]
    have hsilent : receivedBytes (localityStartAddress chip.locality) (accesses wait) = [] :=
      received_mute fun e he => mute_polled (hw.polls e he)
    have hstart : HeaderSoFar (localityStartAddress chip.locality) ⟨0, 0, buf⟩ (accesses wait) :=
      ⟨accesses wait, [], (List.append_nil _).symm, hsilent, rfl, rfl, Nat.zero_le _, rfl, by simp [AvailSeen]⟩
    apply (readLoop_told ht (headerSoFar_pass _) fuel ⟨0, 0, buf⟩ w₁ log wait htold hstart
      (hresp (not_lt.mp herr))).mono
    · rintro ⟨err, st⟩ s ⟨ext, hlog, htold, hdone⟩
      refine ⟨ext, hlog, htold, fun hok => ?_⟩
      obtain ⟨hj, hfull⟩ := hdone hok
      obtain ⟨-, hsize, hle, hbytes⟩ := hj.received
      dsimp only at hfull hsize hbytes ⊢
      have hten : (receivedBytes (localityStartAddress chip.locality) (accesses ext)).length = tpmHeaderSize := by
        omega
      rw [hten] at hsize hbytes
      exact ⟨hsize, hbytes.symm⟩
    · exact fun _ h => h
  · rintro ⟨w₁, log'⟩ ⟨wait, rfl, hw⟩
    exact ⟨wait, rfl, Told.nil.mute fun e he => mute_polled (hw e he)⟩

theorem restPass_told (ht : Truthful port (localityStartAddress chip.locality) truth) {n : Nat} (buf : TpmCmd)
    (hn : field 2 buf.header = n) (w : W) (log ext : List (Observed Truth))
    (h : Told (localityStartAddress chip.locality) ext)
    (hheader : receivedBytes (localityStartAddress chip.locality) (accesses ext) = buf.header) :
    Meets (tpm2FifoReadData (watched port truth) fuel chip buf (localityStartAddress chip.locality) tpmHeaderSize n)
      (w, log ++ ext)
      (fun _ s => ∃ ext', s.2 = log ++ ext' ∧ Told (localityStartAddress chip.locality) ext')
      (fun s => ∃ ext', s.2 = log ++ ext' ∧ Told (localityStartAddress chip.locality) ext') := by
  have hrest := size_ne_readHeader n
  unfold tpm2FifoReadData
  rw [if_neg hrest, if_neg hrest, meets_bind]
  apply (wait_watched fuel _ _ _ w (log ++ ext)).mono
  · rintro ⟨err, status⟩ ⟨w₁, log'⟩ ⟨wait, rfl, hw⟩
    obtain ⟨htold, hresp⟩ := h.waited ht hw
    dsimp only at hresp ⊢
    rw [List.append_assoc, meets_ite]
    refine ⟨fun herr => ⟨_, rfl, htold⟩, fun herr => ?_⟩
    rw [meets_bind]
    have hstart : RestSoFar (localityStartAddress chip.locality) buf.header
        ⟨(tpmHeaderSize : Int) - tpmHeaderSize, tpmHeaderSize, buf⟩ (accesses (ext ++ wait)) := by
      refine ⟨[], ?_, Int.sub_self _⟩
      rw [accesses_append, receivedBytes_append, hheader, received_mute fun e he => mute_polled (hw.polls e he)]
    apply (readLoop_told ht (restSoFar_pass buf.length_header hn) fuel _ w₁ log (ext ++ wait) htold hstart
      (hresp (not_lt.mp herr))).mono
    · rintro r s ⟨ext', hlog, htold, -⟩
      exact ⟨ext', hlog, htold⟩
    · exact fun _ h => h
  · rintro ⟨w₁, log'⟩ ⟨wait, rfl, hw⟩
    exact ⟨ext ++ wait, List.append_assoc .., h.mute fun e he => mute_polled (hw e he)⟩

theorem receive_told [Host] (ht : Truthful port (localityStartAddress chip.locality) truth) (buf : TpmCmd) (w : W)
    (log : List (Observed Truth)) :
    Meets (tpm2FifoReceive (watched port truth) fuel chip buf) (w, log)
      (fun _ s => ∃ ext, s.2 = log ++ ext ∧ Told (localityStartAddress chip.locality) ext)
      (fun s => ∃ ext, s.2 = log ++ ext ∧ Told (localityStartAddress chip.locality) ext) := by
  unfold tpm2FifoReceive
  dsimp only
  rw [meets_bind]
  apply (headerPass_told ht buf w log).mono
  · rintro ⟨err, size, buf⟩ ⟨w₁, log'⟩ ⟨ext, rfl, htold, hdone⟩
    dsimp only at hdone ⊢
    rw [meets_ite]
    refine ⟨fun _ => ⟨ext, rfl, htold⟩, fun herr => ?_⟩
    obtain ⟨rfl, hheader⟩ := hdone (not_lt.mp herr)
    rw [meets_ite]
    refine ⟨fun _ => ⟨ext, rfl, htold⟩, fun hfits => ?_⟩
    rw [meets_ite]
    refine ⟨fun _ => ⟨ext, rfl, htold⟩, fun _ => ?_⟩
    have hsize : (be32toh buf.cmdSize).toNat ≤ maxSizeCmdbuf :=
      not_lt.mp fun hc => hfits ((ReceiveBounds.sizeT_intOfUint32 _).mpr hc)
    rw [ReceiveBounds.intOfUint32_of_le hsize, meets_bind]
    apply (restPass_told ht buf (field_cmdSize buf) w₁ log ext htold hheader).mono
    · rintro ⟨err, size, buf'⟩ s hs
      dsimp only
      rw [meets_ite]
      refine ⟨fun _ => hs, fun _ => ?_⟩
      rw [meets_ite]
      exact ⟨fun _ => hs, fun _ => hs⟩
    · exact fun _ h => h
  · rintro s ⟨ext, hlog, htold⟩
    exact ⟨ext, hlog, htold⟩

end Receive

section Send

variable {port : FifoPort W} {truth : W → Truth} {chip : ChipData} {fuel : Nat}

/-- The accesses of a send: at most its last one is a GO, and then the device
expects no more bytes. -/
structure Sent (base : UInt16) (log : List (Observed Truth)) : Prop where
  noRead : ∀ e ∈ log, ¬ IsFifoRead base e.access
  go : (∀ e ∈ log, ¬ IsGo base e.access) ∨ ∃ pre e, log = pre ++ [e] ∧ (∀ x ∈ pre, ¬ IsGo base x.access) ∧
    IsGo base e.access ∧ e.before.expects = false

def AllMute (base : UInt16) (s : W × List (Observed Truth)) : Prop := ∀ e ∈ s.2, Mute base e.access

theorem allMute_snoc {w w' : W} {log : List (Observed Truth)} {t t' : Truth} {e : Access}
    (h : AllMute base (w, log)) (he : Mute base e) : AllMute base (w', log ++ [⟨t, e, t'⟩]) :=
  List.forall_mem_append.mpr ⟨h, List.forall_mem_singleton.mpr he⟩

theorem mute_frame : SendFrame (@AllMute W base) (watched port truth) base where
  timeoutInit _ _ h := allMute_snoc h ⟨id, id⟩
  timeoutElapsed _ _ h := allMute_snoc h ⟨id, id⟩
  read _ hreg _ h := allMute_snoc h (mute_read hreg _ _ _)
  ready _ h := allMute_snoc h ⟨fun hgo => absurd hgo.2 (by decide), id⟩
  data _ _ h := allMute_snoc h ⟨fun hgo => absurd hgo.1 (fifoReg_ne base (by decide)), id⟩

theorem AllMute.sent {s : W × List (Observed Truth)} (h : AllMute base s) : Sent base s.2 :=
  ⟨fun e he => (h e he).noRead, .inl fun e he => (h e he).noGo⟩

def GoesLast (base : UInt16) (r : Int) (s : W × List (Observed Truth)) : Prop :=
  Sent base s.2 ∧ (0 ≤ r → ∃ e ∈ s.2, IsGo base e.access)

theorem AllMute.fails {r : Int} {s : W × List (Observed Truth)} (h : AllMute base s) (hr : r < 0) :
    GoesLast base r s :=
  ⟨h.sent, fun hok => absurd hr (not_lt.mpr hok)⟩

theorem sendBytes_sent [Host] (ht : Truthful port (localityStartAddress chip.locality) truth) (cmd : TpmCmd)
    (s : W × List (Observed Truth)) (h : AllMute (localityStartAddress chip.locality) s) :
    Meets (sendBytes (watched port truth) fuel chip cmd) s (GoesLast (localityStartAddress chip.locality))
      (fun s => Sent (localityStartAddress chip.locality) s.2) := by
  unfold sendBytes
  dsimp only
  rw [meets_bind]
  apply (meets_world.mpr (mute_frame.writeHeader cmd.header s h)).mono _ fun _ hm => hm.sent
  intro err s hs
  rw [meets_ite]
  refine ⟨fun herr => hs.fails herr, fun _ => ?_⟩
  rw [meets_ite]
  refine ⟨fun _ => hs.fails (by decide), fun _ => ?_⟩
  rw [meets_bind]
  apply (meets_world.mpr (mute_frame.writeData cmd _ fuel tpmHeaderSize s hs)).mono _ fun _ hm => hm.sent
  intro err s hs
  rw [meets_ite]
  refine ⟨fun herr => hs.fails herr, fun _ => ?_⟩
  rw [meets_bind]
  apply ((wait_watched fuel _ tpmStatValid chip.timeouts.msecC s.1 s.2).and
    (meets_world.mpr (mute_frame.wait (by decide) _ _ s hs))).mono _ fun _ hm => hm.2.sent
  rintro ⟨err, status⟩ ⟨w, log⟩ ⟨⟨wait, -, hw⟩, hs⟩
  dsimp only at hw ⊢
  rw [meets_ite]
  refine ⟨fun herr => hs.fails herr, fun herr => ?_⟩
  rw [meets_ite]
  refine ⟨fun _ => hs.fails (by decide), fun hexpect => ?_⟩
  obtain ⟨hset, pre, v, err', hread, hok, -⟩ := hw.done (not_lt.mp herr)
  have hvalid : status &&& tpmStatValid ≠ 0 := and_eq_self_ne_zero hset (by decide)
  have hdone : (truth w).expects = false := by
    have hnot := mt ((ht.status hread hok hvalid).1).mpr hexpect
    simpa using hnot
  rw [meets_bind]
  apply watch_write
  intro err w' _
  have hgo : IsGo (localityStartAddress chip.locality)
      (.write (fifoReg (localityStartAddress chip.locality) tpmFifoRegStatus) tpmStatGo err) := ⟨rfl, by decide⟩
  have hlast (r : Int) : GoesLast (localityStartAddress chip.locality) r (w', log ++ [⟨truth w,
      .write (fifoReg (localityStartAddress chip.locality) tpmFifoRegStatus) tpmStatGo err, truth w'⟩]) := by
    refine ⟨⟨?_, .inr ⟨log, _, rfl, fun e he => (hs e he).noGo, hgo, hdone⟩⟩,
      fun _ => ⟨_, List.mem_append_right log (List.mem_singleton_self _), hgo⟩⟩
    exact List.forall_mem_append.mpr ⟨fun e he => (hs e he).noRead, List.forall_mem_singleton.mpr id⟩
  rw [meets_ite]
  exact ⟨fun _ => hlast err, fun _ => hlast tpmSuccess⟩

theorem send_sent [Host] (ht : Truthful port (localityStartAddress chip.locality) truth) (cmd : TpmCmd) (w : W) :
    Meets (tpm2FifoSend (watched port truth) fuel chip cmd) (w, []) (GoesLast (localityStartAddress chip.locality))
      (fun s => Sent (localityStartAddress chip.locality) s.2) := by
  have hnil : AllMute (localityStartAddress chip.locality) (w, []) := fun _ he => absurd he List.not_mem_nil
  unfold tpm2FifoSend
  dsimp only
  rw [meets_bind]
  have hframe : SendFrame (AllMute (localityStartAddress chip.locality)) (watched port truth)
      (localityStartAddress chip.locality) := mute_frame
  have hread := hframe.read _ (fifoReg_ne _ (by decide : tpmFifoRegStatus.toUInt16 ≠ _)) (w, []) hnil
  apply (meets_world.mpr hread).mono _ fun _ hm => hm.sent
  rintro ⟨err, status⟩ s hs
  dsimp only
  rw [meets_ite]
  refine ⟨fun herr => hs.fails herr, fun _ => ?_⟩
  rw [meets_ite]
  refine ⟨fun _ => ?_, fun _ => sendBytes_sent ht cmd s hs⟩
  rw [meets_bind]
  apply (meets_world.mpr (mute_frame.prepare s hs)).mono _ fun _ hm => hm.sent
  intro err s hs
  rw [meets_ite]
  exact ⟨fun herr => hs.fails herr, fun _ => sendBytes_sent ht cmd s hs⟩

end Send

section Exchange

variable {port : FifoPort W} {truth : W → Truth} {chip : ChipData} {fuel : Nat}

/-- An exchange writes GO in time, and reads what is there if, from the GO on,
the device's AVAIL is true also without VALID and its bursts are within what
is left of the response. -/
structure Exchanged (base : UInt16) (log : List (Observed Truth)) : Prop where
  goTimely : GoTimely base log
  response : AvailTrue base (answer base log) → ReadsResponse base log
  available : AvailTrue base (answer base log) → BurstsLeft base (answer base log) → ReadsAvailable base log

theorem Sent.goTimely {log : List (Observed Truth)} (h : Sent base log) : GoTimely base log := by
  intro e he hgo
  rcases h.go with hno | ⟨pre, x, rfl, hpre, -, hx⟩
  · exact absurd hgo (hno e he)
  · rcases List.mem_append.mp he with he | he
    · exact absurd hgo (hpre e he)
    · rw [List.mem_singleton.mp he]
      exact hx

theorem Sent.exchanged {log : List (Observed Truth)} (h : Sent base log) : Exchanged base log where
  goTimely := h.goTimely
  response _ e he hr := absurd hr (h.noRead e he)
  available _ _ e he hr := absurd hr (h.noRead e he)

theorem answer_go {pre ext : List (Observed Truth)} {e : Observed Truth} (hpre : ∀ x ∈ pre, ¬ IsGo base x.access)
    (he : IsGo base e.access) : answer base (pre ++ [e] ++ ext) = e :: ext := by
  rw [answer, List.append_assoc, List.dropWhile_append_of_pos (by simpa using hpre), List.singleton_append,
    List.dropWhile_cons_of_neg (by simpa using he)]

theorem wants_cons {p : List (Observed Truth)} {e : Observed Truth} (he : IsGo base e.access) :
    wants base (e :: p) = wants base p := by
  have hsame : receivedBytes base (accesses (e :: p)) = receivedBytes base (accesses p) := by
    obtain ⟨before, access, after⟩ := e
    cases access with
    | write => rfl
    | read | readChunk | timeoutInit | timeoutElapsed => exact he.elim
  rw [wants, hsame, wants]

theorem BurstsLeft.tail {ext : List (Observed Truth)} {e : Observed Truth} (he : IsGo base e.access)
    (h : BurstsLeft base (e :: ext)) : BurstsLeft base ext := by
  intro p lo hi hp c hc n hn
  have hleft := h (e :: p) lo hi (List.cons_prefix_cons.mpr ⟨rfl, hp⟩) c hc n hn
  rwa [wants_cons he] at hleft

theorem Sent.told {log ext : List (Observed Truth)} (h : Sent base log) (hgo : ∃ e ∈ log, IsGo base e.access)
    (ht : Told base ext) : Exchanged base (log ++ ext) := by
  obtain ⟨x, hx, hxgo⟩ := hgo
  rcases h.go with hno | ⟨pre, e, rfl, hpre, he, hexpects⟩
  · exact absurd hxgo (hno x hx)
  have hnoRead (y : Observed Truth) (hy : y ∈ pre ++ [e]) {P : Prop} (hr : IsFifoRead base y.access) : P :=
    absurd hr (h.noRead y hy)
  have htrue : AvailTrue base (answer base (pre ++ [e] ++ ext)) → AvailTrue base ext := by
    rw [answer_go hpre he]
    exact fun ha y hy => ha y (List.mem_cons_of_mem e hy)
  have hleft : BurstsLeft base (answer base (pre ++ [e] ++ ext)) → BurstsLeft base ext := by
    rw [answer_go hpre he]
    exact BurstsLeft.tail he
  refine ⟨?_, fun ha => ?_, fun ha hb => ?_⟩
  · exact List.forall_mem_append.mpr ⟨h.goTimely, fun y hy hgo => absurd hgo (ht.noGo y hy)⟩
  · exact List.forall_mem_append.mpr ⟨fun y hy hr => hnoRead y hy hr, ht.response (htrue ha)⟩
  · exact List.forall_mem_append.mpr ⟨fun y hy hr => hnoRead y hy hr, ht.available (htrue ha) (hleft hb)⟩

/-- In every run of a send followed by a receive, GO is written only when the
device expects no more bytes; DATA_FIFO is read only when the response exists
if each AVAIL that comes without VALID is true, and only when bytes of it are
left if its bursts are within them too. -/
theorem exchange_told [Host] (ht : Truthful port (localityStartAddress chip.locality) truth) (cmd resp : TpmCmd)
    (w : W) :
    Meets (tpmXfer (fifoOps (watched port truth) fuel) chip cmd resp) (w, [])
      (fun _ s => Exchanged (localityStartAddress chip.locality) s.2)
      (fun s => Exchanged (localityStartAddress chip.locality) s.2) := by
  rw [tpmXfer, meets_bind]
  apply (send_sent ht cmd w).mono _ fun _ hs => hs.exchanged
  rintro err ⟨w₁, log⟩ ⟨hsent, hgo⟩
  rw [meets_ite]
  refine ⟨fun _ => hsent.exchanged, fun herr => ?_⟩
  rw [meets_bind]
  apply (receive_told ht resp w₁ log).mono
  · rintro ⟨err', out⟩ ⟨w₂, log'⟩ ⟨ext, rfl, htold⟩
    have hall := hsent.told (hgo (not_lt.mp herr)) htold
    dsimp only
    rw [meets_ite]
    exact ⟨fun _ => hall, fun _ => hall⟩
  · rintro ⟨w₂, log'⟩ ⟨ext, rfl, htold⟩
    exact hsent.told (hgo (not_lt.mp herr)) htold

theorem Exchanged.of_run {α : Type} {p : Proc (W × List (Observed Truth)) α}
    (h : ∀ w, Meets p (w, []) (fun _ s => Exchanged base s.2) (fun s => Exchanged base s.2)) {w : W}
    {run : Option α × W × List (Observed Truth)} (hrun : p (w, []) = run) : Exchanged base run.2.2 := by
  rw [← hrun]
  exact (h w).world

end Exchange

/-- The registers of a device that has received some bytes of a command of
twelve, and perhaps a GO. It then shows AVAIL at once, without VALID, while it
still executes the command. -/
def hastyRegister (received : Nat) (go : Bool) (reg : UInt16) : UInt8 :=
  if reg = fifoReg (localityStartAddress 0) tpmFifoRegStatus then
    if go then tpmStatAvail
    else if received = 0 then tpmStatValid ||| tpmStatCommandReady
    else if received < 12 then tpmStatValid ||| tpmStatExpect
    else tpmStatValid
  else if reg = fifoReg (localityStartAddress 0) tpmFifoRegBurstCountLo then 8
  else 0

def hasty : FifoPort (Nat × Bool) where
  timeoutInitUs _ := pure 0
  timeoutElapsed _ := pure false
  writeByte reg val := fun w =>
    (0, if reg = fifoReg (localityStartAddress 0) tpmFifoRegDataFifo then (w.1 + 1, w.2)
      else (w.1, w.2 || decide (val = tpmStatGo)))
  readByte reg _ := fun w => ((0, hastyRegister w.1 w.2 reg), w)
  readChunk _ len := pure (0, Vector.replicate len.toNat 0)

def hastyTruth (w : Nat × Bool) : Truth := ⟨!w.2 && decide (w.1 ≠ 0) && decide (w.1 < 12), none⟩

theorem hasty_status (received : Nat) (go : Bool)
    (hvalid : hastyRegister received go (fifoReg (localityStartAddress 0) tpmFifoRegStatus) &&& tpmStatValid ≠ 0) :
    (hastyRegister received go (fifoReg (localityStartAddress 0) tpmFifoRegStatus) &&& tpmStatExpect ≠ 0 ↔
      (hastyTruth (received, go)).expects = true) ∧
    hastyRegister received go (fifoReg (localityStartAddress 0) tpmFifoRegStatus) &&& tpmStatAvail = 0 := by
  rw [hastyRegister, if_pos rfl] at hvalid ⊢
  cases go with
  | true => exact absurd (show tpmStatAvail &&& tpmStatValid = 0 by decide) hvalid
  | false =>
      by_cases hzero : received = 0
      · subst hzero
        decide
      by_cases hlt : received < 12
      · simp [hastyTruth, hzero, hlt]
        decide
      · simp [hastyTruth, hzero, hlt]
        decide

theorem hasty_truthful : Truthful hasty (localityStartAddress 0) hastyTruth where
  status h _ hvalid := by
    cases h
    obtain ⟨hexpect, havail⟩ := hasty_status _ _ hvalid
    refine ⟨hexpect, fun h => absurd havail h, ?_⟩
    rintro ⟨n, -, hn⟩
    exact absurd hn (by simp [hastyTruth])
  timeoutInit _ h := by simp [hastyTruth] at h
  timeoutElapsed _ h := by simp [hastyTruth] at h
  read _ _ h := by simp [hastyTruth] at h
  fifo _ h := by simp [hastyTruth] at h

/-- A device that takes a command of twelve bytes as the hasty one does, but
has its response only at its second STATUS after the GO. -/
structure Patient where
  received : Nat
  go : Bool
  polls : Nat
  given : Nat

def patientResponse : List UInt8 := [0x80, 1, 0, 0, 0, 12, 0, 0, 0, 0, 0xAA, 0x55]

/-- The first STATUS after the GO shows EXPECT without VALID, which means
nothing; the later ones show AVAIL, with VALID, while bytes are left. -/
def patientRegister (p : Patient) (reg : UInt16) : UInt8 :=
  if ¬ p.go then hastyRegister p.received false reg
  else if reg = fifoReg (localityStartAddress 0) tpmFifoRegStatus then
    if p.polls = 0 then tpmStatExpect
    else if p.given < 12 then tpmStatValid ||| tpmStatAvail
    else tpmStatValid
  else if reg = fifoReg (localityStartAddress 0) tpmFifoRegBurstCountLo then (min 8 (12 - p.given)).toUInt8
  else if reg = fifoReg (localityStartAddress 0) tpmFifoRegDataFifo then patientResponse.getD p.given 0
  else 0

def Patient.afterRead (p : Patient) (reg : UInt16) : Patient :=
  if reg = fifoReg (localityStartAddress 0) tpmFifoRegDataFifo then { p with given := p.given + 1 }
  else if reg = fifoReg (localityStartAddress 0) tpmFifoRegStatus ∧ p.go then { p with polls := p.polls + 1 }
  else p

def patient : FifoPort Patient where
  timeoutInitUs _ := pure 0
  timeoutElapsed _ := pure false
  writeByte reg val := fun p =>
    (0, if reg = fifoReg (localityStartAddress 0) tpmFifoRegDataFifo then { p with received := p.received + 1 }
      else { p with go := p.go || decide (val = tpmStatGo) })
  readByte reg _ := fun p => ((0, patientRegister p reg), p.afterRead reg)
  readChunk _ len := pure (0, Vector.replicate len.toNat 0)

def patientTruth (p : Patient) : Truth where
  expects := !p.go && decide (p.received ≠ 0) && decide (p.received < 12)
  response := if p.go ∧ p.polls ≠ 0 then some (12 - p.given) else none

theorem patient_status (p : Patient)
    (hvalid : patientRegister p (fifoReg (localityStartAddress 0) tpmFifoRegStatus) &&& tpmStatValid ≠ 0) :
    (patientRegister p (fifoReg (localityStartAddress 0) tpmFifoRegStatus) &&& tpmStatExpect ≠ 0 ↔
      (patientTruth (p.afterRead (fifoReg (localityStartAddress 0) tpmFifoRegStatus))).expects = true) ∧
    (patientRegister p (fifoReg (localityStartAddress 0) tpmFifoRegStatus) &&& tpmStatAvail ≠ 0 ↔
      (patientTruth (p.afterRead (fifoReg (localityStartAddress 0) tpmFifoRegStatus))).Available) := by
  obtain ⟨received, go, polls, given⟩ := p
  have hne : fifoReg (localityStartAddress 0) tpmFifoRegStatus ≠ fifoReg (localityStartAddress 0) tpmFifoRegDataFifo := by
    decide
  cases go with
  | false =>
      obtain ⟨hexpect, havail⟩ := hasty_status received false hvalid
      refine ⟨hexpect, fun h => absurd havail h, ?_⟩
      rintro ⟨n, -, hn⟩
      simp [patientTruth, Patient.afterRead, hne] at hn
  | true =>
      have hpolls : polls ≠ 0 := by
        rintro rfl
        exact hvalid (show tpmStatExpect &&& tpmStatValid = 0 by decide)
      by_cases hgiven : given < 12
      · simp [patientRegister, patientTruth, Patient.afterRead, Truth.Available, hne, hpolls, hgiven]
        decide
      · simp [patientRegister, patientTruth, Patient.afterRead, Truth.Available, hne, hpolls, hgiven]
        decide

theorem patientTruth_response {p : Patient} {n : Nat} (h : (patientTruth p).response = some n) :
    p.go = true ∧ p.polls ≠ 0 ∧ n = 12 - p.given := by
  simp [patientTruth] at h
  simp [h]

theorem patient_truthful : Truthful patient (localityStartAddress 0) patientTruth where
  status h _ hvalid := by
    cases h
    exact patient_status _ hvalid
  timeoutInit h hn := by
    cases h
    exact hn
  timeoutElapsed h hn := by
    cases h
    exact hn
  read hreg h hn := by
    cases h
    obtain ⟨hgo, hpolls, rfl⟩ := patientTruth_response hn
    rw [Patient.afterRead, if_neg hreg]
    split <;> simp [patientTruth, hgo, hpolls]
  fifo {_ p _ _ _ _} h hn := by
    cases h
    obtain ⟨hgo, hpolls, rfl⟩ := patientTruth_response hn
    refine ⟨12 - (p.given + 1), by omega, ?_⟩
    simp [patientTruth, Patient.afterRead, hgo, hpolls]

def patientRun : Option (Int × TpmCmd) × Patient × List (Observed Truth) :=
  letI := littleHost
  tpmXfer (fifoOps (watched patient patientTruth) 64) ⟨0, tpmTimeouts⟩ (startupCommand 0).cmd TpmCmd.zero
    (⟨0, false, 0, 0⟩, [])

theorem patientRun_availTrue : AvailTrue (localityStartAddress 0) (answer (localityStartAddress 0) patientRun.2.2) := by
  unfold AvailTrue
  decide +kernel

theorem patientRun_burstsLeft :
    BurstsLeft (localityStartAddress 0) (answer (localityStartAddress 0) patientRun.2.2) :=
  BurstsLeft.of_indices (by decide +kernel)

theorem exchange_told_patient :
    patientRun.1.map Prod.fst = some tpmSuccess ∧
      receivedBytes (localityStartAddress 0) (accesses patientRun.2.2) = patientResponse ∧
      GoTimely (localityStartAddress 0) patientRun.2.2 ∧ ReadsResponse (localityStartAddress 0) patientRun.2.2 ∧
      ReadsAvailable (localityStartAddress 0) patientRun.2.2 := by
  have htold : Exchanged (localityStartAddress 0) patientRun.2.2 := Exchanged.of_run (@exchange_told Patient patient
    patientTruth ⟨0, tpmTimeouts⟩ 64 littleHost patient_truthful (@startupCommand littleHost 0).cmd TpmCmd.zero)
    (by rw [patientRun])
  exact ⟨by decide +kernel, by decide +kernel, htold.goTimely, htold.response patientRun_availTrue,
    htold.available patientRun_availTrue patientRun_burstsLeft⟩

theorem not_reads {log : List (Observed Truth)}
    (h : ∃ e ∈ log, IsFifoRead base e.access ∧ e.before.response = none) :
    ¬ ReadsAvailable base log ∧ ¬ ReadsResponse base log := by
  obtain ⟨e, he, hread, hnone⟩ := h
  refine ⟨fun h => ?_, fun h => ?_⟩
  · obtain ⟨n, -, hn⟩ := h e he hread
    exact absurd (hnone.symm.trans hn) (by simp)
  · obtain ⟨n, hn⟩ := h e he hread
    exact absurd (hnone.symm.trans hn) (by simp)

theorem header_before_response :
    letI := littleHost
    let run := tpmXfer (fifoOps (watched hasty hastyTruth) 64) ⟨0, tpmTimeouts⟩ (startupCommand 0).cmd TpmCmd.zero
      ((0, false), [])
    Truthful hasty (localityStartAddress 0) hastyTruth ∧ run.1.map Prod.fst = some tpmSuccess ∧
      ¬ ReadsAvailable (localityStartAddress 0) run.2.2 ∧ ¬ ReadsResponse (localityStartAddress 0) run.2.2 := by
  let _ := littleHost
  exact ⟨hasty_truthful, by decide +kernel, not_reads (by decide +kernel)⟩

end LibTpm.StatusTruth
