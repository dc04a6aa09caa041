import LibTpm.Commands
import LibTpm.Watched
import Mathlib.Data.List.Induction

namespace LibTpm.BurstFlow

open LibTpm.Base.Process LibTpm.Base.Process.Proc LibTpm.Command LibTpm.Constants LibTpm.Endian
open LibTpm.Platform LibTpm.Fifo LibTpm.FifoTrace LibTpm.Watched LibTpm.Builder LibTpm.Commands

variable {W : Type} {base : UInt16}

/-- The offset of the high byte of burstCount in the register space of the
device, directly after the low byte. -/
def ptpBurstCountHigh : UInt32 := 0x01A

/-- The device holds burstCount in the two bytes after STATUS, and a read of
the low byte leaves it as it is. Nothing is assumed of another register. -/
structure HasBurstCount (port : FifoPort W) (base : UInt16) (burst : W → UInt16) : Prop where
  low {dst : Dest} {w w' : W} {err : Int} {val : UInt8} :
    port.readByte (fifoReg base tpmFifoRegBurstCountLo) dst w = ((err, val), w') → 0 ≤ err →
      val.toNat = (burst w).toNat % 256 ∧ burst w' = burst w
  high {dst : Dest} {w w' : W} {err : Int} {val : UInt8} :
    port.readByte (fifoReg base ptpBurstCountHigh) dst w = ((err, val), w') → 0 ≤ err →
      val.toNat = (burst w).toNat / 256

/-- A byte written to DATA_FIFO or read from it, also by an access that fails. -/
def IsTransfer (base : UInt16) : Access → Prop
  | .write reg _ _ | .read reg _ _ _ => reg = fifoReg base tpmFifoRegDataFifo
  | .readChunk _ _ _ | .timeoutInit _ _ | .timeoutElapsed _ _ => False

instance : DecidablePred (IsTransfer base) := fun e =>
  Access.casesOn (motive := fun e => Decidable (IsTransfer base e)) e
    (fun reg _ _ => inferInstanceAs (Decidable (reg = fifoReg base tpmFifoRegDataFifo)))
    (fun reg _ _ _ => inferInstanceAs (Decidable (reg = fifoReg base tpmFifoRegDataFifo)))
    (fun _ _ _ => isFalse id) (fun _ _ => isFalse id) (fun _ _ => isFalse id)

/-- The byte that the driver takes for the high one, where a read yields it. -/
def highByte (base : UInt16) : Access → Option UInt8
  | .read reg _ err val => if reg = fifoReg base tpmFifoRegBurstCountHi ∧ 0 ≤ err then some val else none
  | _ => none

def moved (base : UInt16) (ext : List (Observed UInt16)) : Nat := ext.countP fun e => IsTransfer base e.access

/-- The burstCount of the device when the driver last read one, and the bytes
moved since. -/
def meter (base : UInt16) (m : Option (Nat × Nat)) (e : Observed UInt16) : Option (Nat × Nat) :=
  if (highByte base e.access).isSome then some (e.before.toNat, 0)
  else if IsTransfer base e.access then m.map fun p => (p.1, p.2 + 1)
  else m

def metered (base : UInt16) (ext : List (Observed UInt16)) : Option (Nat × Nat) := ext.foldl (meter base) none

/-- At no point of the run has the driver moved more bytes since its last read
of a burst count than the burstCount of the device was. -/
def Paced (base : UInt16) (ext : List (Observed UInt16)) : Prop :=
  ∀ p, p <+: ext → ∀ m ∈ metered base p, m.2 ≤ m.1

/-- At each read of a burst count the byte that the driver takes for the high
one is no more than the high byte of burstCount, or what is left of `total`
bytes is no more than burstCount. -/
def Harmless (base : UInt16) (total : Nat) (ext : List (Observed UInt16)) : Prop :=
  ∀ p e, p ++ [e] <+: ext → ∀ v ∈ highByte base e.access,
    v.toNat ≤ e.before.toNat / 256 ∨ total - moved base p ≤ e.before.toNat

/-- The run is paced if its burst counts are harmless, and a run without
failures is paced only then. -/
structure Pacing (base : UInt16) (total : Nat) (ext : List (Observed UInt16)) : Prop where
  enough : Harmless base total ext → Paced base ext
  needed : Clean (accesses ext) → Paced base ext → Harmless base total ext

section Logs

variable {total : Nat} {ext : List (Observed UInt16)}

theorem moved_append (ext ext' : List (Observed UInt16)) :
    moved base (ext ++ ext') = moved base ext + moved base ext' := List.countP_append

theorem metered_snoc (ext : List (Observed UInt16)) (e : Observed UInt16) :
    metered base (ext ++ [e]) = meter base (metered base ext) e := List.foldl_concat ..

theorem forall_prefix_snoc {α : Type} {P : List α → Prop} {l : List α} {a : α} :
    (∀ p, p <+: l ++ [a] → P p) ↔ (∀ p, p <+: l → P p) ∧ P (l ++ [a]) := by
  constructor
  · intro h
    exact ⟨fun p hp => h p (hp.trans (List.prefix_append l [a])), h _ List.prefix_rfl⟩
  · rintro ⟨h, ha⟩ p hp
    rcases List.prefix_concat_iff.mp hp with rfl | hp
    · exact ha
    · exact h p hp

theorem paced_snoc {e : Observed UInt16} :
    Paced base (ext ++ [e]) ↔ Paced base ext ∧ ∀ m ∈ meter base (metered base ext) e, m.2 ≤ m.1 := by
  rw [Paced, forall_prefix_snoc, metered_snoc]
  rfl

theorem harmless_snoc {e : Observed UInt16} :
    Harmless base total (ext ++ [e]) ↔ Harmless base total ext ∧ ∀ v ∈ highByte base e.access,
      v.toNat ≤ e.before.toNat / 256 ∨ total - moved base ext ≤ e.before.toNat := by
  constructor
  · intro h
    exact ⟨fun p x hp => h p x (hp.trans (List.prefix_append ext [e])), h ext e List.prefix_rfl⟩
  · rintro ⟨h, he⟩ p x hp
    rcases List.prefix_concat_iff.mp hp with heq | hp
    · obtain ⟨rfl, hx⟩ := List.append_inj' heq rfl
      obtain rfl := List.singleton_inj.mp hx
      exact he
    · exact h p x hp

theorem Harmless.of_indices (h : ∀ i < ext.length, ∀ e ∈ ext[i]?, ∀ v ∈ highByte base e.access,
    v.toNat ≤ e.before.toNat / 256 ∨ total - moved base (ext.take i) ≤ e.before.toNat) : Harmless base total ext := by
  rintro p e ⟨rest, rfl⟩ v hv
  have hat := h p.length (by simp) e (by simp) v hv
  simpa using hat

structure Silent (base : UInt16) (e : Access) : Prop where
  still : ¬ IsTransfer base e
  zero : ∀ v ∈ highByte base e, v = 0

theorem Pacing.nil : Pacing base total [] := by
  refine ⟨fun _ p hp m hm => ?_, fun _ _ p e hp => ?_⟩
  · rw [List.prefix_nil.mp hp] at hm
    exact absurd hm (Option.not_mem_none m)
  · exact absurd (List.prefix_nil.mp hp) (by simp)

theorem moved_silent (ext : List (Observed UInt16)) {s : List (Observed UInt16)} (h : ∀ e ∈ s, Silent base e.access) :
    moved base (ext ++ s) = moved base ext := by
  have hzero : moved base s = 0 := List.countP_eq_zero.mpr fun e he => by simpa using (h e he).still
  rw [moved_append, hzero, Nat.add_zero]

theorem paced_silent {e : Observed UInt16} (h : Silent base e.access) :
    Paced base (ext ++ [e]) ↔ Paced base ext := by
  rw [paced_snoc, and_iff_left_iff_imp]
  intro hp m hm
  rw [meter, if_neg h.still] at hm
  split at hm
  next =>
    obtain rfl := Option.mem_some_iff.mp hm
    exact Nat.zero_le _
  next => exact hp ext List.prefix_rfl m hm

theorem harmless_silent {e : Observed UInt16} (h : Silent base e.access) :
    Harmless base total (ext ++ [e]) ↔ Harmless base total ext := by
  rw [harmless_snoc, and_iff_left_iff_imp]
  intro _ v hv
  rw [h.zero v hv]
  exact .inl (Nat.zero_le _)

theorem Pacing.silent {s : List (Observed UInt16)} (hs : ∀ e ∈ s, Silent base e.access)
    (h : Pacing base total ext) : Pacing base total (ext ++ s) := by
  induction s generalizing ext with
  | nil => rwa [List.append_nil]
  | cons e s ih =>
      have he := hs e List.mem_cons_self
      rw [List.append_cons]
      apply ih (fun x hx => hs x (List.mem_cons_of_mem e hx))
      refine ⟨fun hh => ?_, fun hc hp => ?_⟩
      · exact (paced_silent he).mpr (h.enough ((harmless_silent he).mp hh))
      · rw [accesses_append, clean_append] at hc
        exact (harmless_silent he).mpr (h.needed hc.1 ((paced_silent he).mp hp))

/-- Bytes that are moved after a burst count was read: they are as many as
they may be, or the last of them has failed. -/
structure Chunk (base : UInt16) (most : Nat) (err : Int) (chunk : List (Observed UInt16)) : Prop where
  transfers : ∀ e ∈ chunk, IsTransfer base e.access
  le : chunk.length ≤ most
  full : 0 ≤ err → chunk.length = most
  failed : err < 0 → ¬ Clean (accesses chunk)

theorem highByte_transfer {e : Access} (h : IsTransfer base e) : highByte base e = none := by
  cases e with
  | read reg dst err val =>
      have hne : fifoReg base tpmFifoRegDataFifo ≠ fifoReg base tpmFifoRegBurstCountHi := fifoReg_ne base (by decide)
      rw [highByte, if_neg]
      rintro ⟨rfl, -⟩
      exact hne h.symm
  | write | readChunk | timeoutInit | timeoutElapsed => rfl

theorem moved_transfers {chunk : List (Observed UInt16)} (h : ∀ e ∈ chunk, IsTransfer base e.access) :
    moved base (ext ++ chunk) = moved base ext + chunk.length := by
  have hall : moved base chunk = chunk.length := List.countP_eq_length.mpr fun e he => by simpa using h e he
  rw [moved_append, hall]

theorem harmless_transfers {chunk : List (Observed UInt16)} (h : ∀ e ∈ chunk, IsTransfer base e.access) :
    Harmless base total (ext ++ chunk) ↔ Harmless base total ext := by
  induction chunk generalizing ext with
  | nil => rw [List.append_nil]
  | cons e chunk ih =>
      rw [List.append_cons, ih fun x hx => h x (List.mem_cons_of_mem e hx), harmless_snoc,
        highByte_transfer (h e List.mem_cons_self)]
      exact and_iff_left fun v hv => absurd hv (Option.not_mem_none v)

theorem paced_transfers {chunk : List (Observed UInt16)} {b k : Nat} (h : ∀ e ∈ chunk, IsTransfer base e.access)
    (hm : metered base ext = some (b, k)) (hk : k ≤ b) :
    Paced base (ext ++ chunk) ↔ Paced base ext ∧ k + chunk.length ≤ b := by
  induction chunk generalizing ext k with
  | nil =>
      rw [List.append_nil]
      exact (and_iff_left hk).symm
  | cons e chunk ih =>
      have he := h e List.mem_cons_self
      have hnext : meter base (metered base ext) e = some (b, k + 1) := by
        rw [meter, highByte_transfer he, hm, if_pos he]
        rfl
      rw [List.append_cons, List.length_cons]
      by_cases hlt : k + 1 ≤ b
      · rw [ih (fun x hx => h x (List.mem_cons_of_mem e hx)) (by rw [metered_snoc, hnext]) hlt, paced_snoc, hnext]
        constructor
        · rintro ⟨⟨hp, -⟩, hle⟩
          exact ⟨hp, by omega⟩
        · rintro ⟨hp, hle⟩
          refine ⟨⟨hp, fun m hm => ?_⟩, by omega⟩
          obtain rfl := Option.mem_some_iff.mp hm
          exact hlt
      · constructor
        · intro hp
          have hover := hp (ext ++ [e]) (List.prefix_append _ _) (b, k + 1) (by rw [metered_snoc, hnext]; rfl)
          exact absurd hover hlt
        · rintro ⟨-, hle⟩
          omega

theorem silent_read {reg : UInt16} (hdata : reg ≠ fifoReg base tpmFifoRegDataFifo)
    (hhigh : reg ≠ fifoReg base tpmFifoRegBurstCountHi) (dst : Dest) (err : Int) (val : UInt8) :
    Silent base (.read reg dst err val) where
  still := hdata
  zero v hv := by
    rw [highByte, if_neg fun h => hhigh h.1] at hv
    exact absurd hv (Option.not_mem_none v)

/-- A burst count that the driver reads, and the bytes that it moves for it. -/
theorem Pacing.round {port : FifoPort W} {burst : W → UInt16} (hd : HasBurstCount port base burst)
    {two chunk : List (Observed UInt16)} {count : UInt16} {err : Int} {w : W} (h : Pacing base total ext)
    (hy : Yields port burst base count w two)
    (hc : Chunk base (min count.toNat (total - moved base ext)) err chunk) :
    Pacing base total (ext ++ two ++ chunk) := by
  obtain ⟨-, u, v, err₀, err₁, byte0, byte1, hlo, hhi, hok₀, hok₁, rfl, rfl⟩ := hy
  obtain ⟨hlow, hsame⟩ := hd.low hlo hok₀
  rw [burstcountOf_toNat, hlow, ← hsame] at hc
  rw [List.append_cons]
  generalize hlo' : (⟨burst u, .read (fifoReg base tpmFifoRegBurstCountLo) .variable err₀ byte0, burst v⟩ :
    Observed UInt16) = lo
  generalize hhi' : (⟨burst v, .read (fifoReg base tpmFifoRegBurstCountHi) .variable err₁ byte1, burst w⟩ :
    Observed UInt16) = hi
  have hsilent : ∀ e ∈ [lo], Silent base e.access := by
    rw [List.forall_mem_singleton, ← hlo']
    exact silent_read (fifoReg_ne base (by decide)) (fifoReg_ne base (by decide)) _ _ _
  have hbefore : hi.before = burst v := hhi' ▸ rfl
  have hbyte : highByte base hi.access = some byte1 := by
    rw [← hhi']
    exact if_pos ⟨rfl, hok₁⟩
  have hmeter : meter base (metered base (ext ++ [lo])) hi = some ((burst v).toNat, 0) := by
    rw [meter, hbyte, hbefore]
    rfl
  have hpaced : Paced base (ext ++ [lo] ++ [hi] ++ chunk) ↔
      Paced base (ext ++ [lo]) ∧ chunk.length ≤ (burst v).toNat := by
    have hstart : metered base (ext ++ [lo] ++ [hi]) = some ((burst v).toNat, 0) := by rw [metered_snoc, hmeter]
    rw [paced_transfers hc.transfers hstart (Nat.zero_le _), paced_snoc, hmeter, Nat.zero_add]
    simp
  have hharmless : Harmless base total (ext ++ [lo] ++ [hi] ++ chunk) ↔ Harmless base total (ext ++ [lo]) ∧
      (byte1.toNat ≤ (burst v).toNat / 256 ∨ total - moved base ext ≤ (burst v).toNat) := by
    rw [harmless_transfers hc.transfers, harmless_snoc, hbyte, hbefore, moved_silent ext hsilent]
    simp
  have hbefore' := h.silent hsilent
  refine ⟨fun hh => ?_, fun hclean hp => ?_⟩
  · obtain ⟨hprev, hbound⟩ := hharmless.mp hh
    have hle := hc.le
    exact hpaced.mpr ⟨hbefore'.enough hprev, by omega⟩
  · obtain ⟨hprev, hbound⟩ := hpaced.mp hp
    rw [accesses_append, accesses_append, clean_append, clean_append] at hclean
    have hfull := hc.full (not_lt.mp fun herr => hc.failed herr hclean.2)
    exact hharmless.mpr ⟨hbefore'.needed hclean.1.1 hprev, by omega⟩

end Logs

section Loops

variable {port : FifoPort W} {burst : W → UInt16} {chip : ChipData} {fuel : Nat}

theorem Chunk.cons {most : Nat} {err : Int} {chunk : List (Observed UInt16)} {e : Observed UInt16}
    (he : IsTransfer base e.access) (h : Chunk base most err chunk) : Chunk base (most + 1) err (e :: chunk) where
  transfers := List.forall_mem_cons.mpr ⟨he, h.transfers⟩
  le := Nat.succ_le_succ h.le
  full herr := congrArg Nat.succ (h.full herr)
  failed herr hclean := h.failed herr fun x hx => hclean x (List.mem_cons_of_mem _ hx)

theorem Chunk.fail {most : Nat} {err : Int} {e : Observed UInt16} (he : IsTransfer base e.access)
    (herr : err < 0) (hf : Fails e.access) : Chunk base (most + 1) err [e] where
  transfers := List.forall_mem_singleton.mpr he
  le := Nat.le_add_left 1 most
  full hok := absurd herr (not_lt.mpr hok)
  failed _ hclean := hclean e.access List.mem_cons_self hf

theorem Chunk.nil (base : UInt16) : Chunk base 0 tpmSuccess [] where
  transfers _ he := absurd he List.not_mem_nil
  le := Nat.le_refl 0
  full _ := rfl
  failed herr := absurd herr (lt_irrefl 0)

theorem writeBurst_chunk (buf : TpmCmd) (len count index : Nat) (w : W) (log : List (Observed UInt16)) :
    Meets (writeBurst (watched port burst) base buf len count index) (w, log)
      (fun r s => ∃ chunk, s.2 = log ++ chunk ∧ Chunk base (min count (len - index)) r.1 chunk ∧
        (0 ≤ r.1 → r.2 = index + chunk.length)) (fun _ => False) := by
  induction count generalizing index w log with
  | zero =>
      rw [writeBurst, meets_pure, Nat.zero_min]
      exact ⟨[], (List.append_nil log).symm, Chunk.nil base, fun _ => rfl⟩
  | succ count ih =>
      rw [writeBurst, meets_ite]
      refine ⟨fun hlt => ?_, fun hge => ?_⟩
      · have hmost : min (count + 1) (len - index) = min count (len - (index + 1)) + 1 := by omega
        rw [meets_bind, hmost]
        apply watch_write
        intro err w' _
        rw [meets_ite]
        refine ⟨fun herr => ⟨_, rfl, Chunk.fail rfl herr herr, fun hok => absurd herr (not_lt.mpr hok)⟩, fun _ => ?_⟩
        apply (ih (index + 1) w' _).imp
        rintro r s ⟨chunk, hlog, hc, hidx⟩
        rw [List.append_assoc, List.singleton_append] at hlog
        refine ⟨_, hlog, hc.cons rfl, fun hok => ?_⟩
        rw [hidx hok, List.length_cons]
        omega
      · have hmost : min (count + 1) (len - index) = 0 := by omega
        rw [meets_pure, hmost]
        exact ⟨[], (List.append_nil log).symm, Chunk.nil base, fun _ => rfl⟩

theorem readBurst_chunk (dest : Nat → Dest) (readSize : Int) (count : Nat) (st : ReadState) (w : W)
    (log : List (Observed UInt16)) :
    Meets (readBurst (watched port burst) base dest readSize count st) (w, log)
      (fun r s => ∃ chunk, s.2 = log ++ chunk ∧
        Chunk base (min count (readSize - st.loopIndex).toNat) r.1 chunk ∧
        (0 ≤ r.1 → r.2.loopIndex = st.loopIndex + chunk.length)) (fun _ => False) := by
  induction count generalizing st w log with
  | zero =>
      rw [readBurst, meets_pure, Nat.zero_min]
      exact ⟨[], (List.append_nil log).symm, Chunk.nil base, fun _ => (Int.add_zero _).symm⟩
  | succ count ih =>
      rw [readBurst, meets_ite]
      refine ⟨fun hlt => ?_, fun hge => ?_⟩
      · have hmost : min (count + 1) (readSize - st.loopIndex).toNat =
            min count (readSize - (st.loopIndex + 1)).toNat + 1 := by omega
        dsimp only
        rw [meets_bind, hmost]
        apply watch_read
        intro err val w' _
        rw [meets_ite]
        refine ⟨fun herr => ⟨_, rfl, Chunk.fail rfl herr herr, fun hok => absurd herr (not_lt.mpr hok)⟩, fun _ => ?_⟩
        apply (ih ⟨st.loopIndex + 1, _, _⟩ w' _).imp
        rintro r s ⟨chunk, hlog, hc, hidx⟩
        rw [List.append_assoc, List.singleton_append] at hlog
        refine ⟨_, hlog, hc.cons rfl, fun hok => ?_⟩
        rw [hidx hok, List.length_cons]
        dsimp only
        omega
      · have hmost : min (count + 1) (readSize - st.loopIndex).toNat = 0 := by omega
        rw [meets_pure, hmost]
        exact ⟨[], (List.append_nil log).symm, Chunk.nil base, fun _ => (Int.add_zero _).symm⟩

theorem silent_vain {e : Access} (h : Vain base e) : Silent base e := by
  cases e with
  | read reg dst err val =>
      obtain ⟨-, rfl | ⟨rfl, hzero⟩⟩ := h
      · exact silent_read (fifoReg_ne base (by decide)) (fifoReg_ne base (by decide)) _ _ _
      · refine ⟨fifoReg_ne base (by decide), fun v hv => ?_⟩
        rw [highByte] at hv
        split at hv
        next hok =>
          obtain rfl := Option.mem_some_iff.mp hv
          exact hzero hok.2
        next => exact absurd hv (Option.not_mem_none v)
  | timeoutInit | timeoutElapsed => exact ⟨id, fun v hv => absurd hv (Option.not_mem_none v)⟩
  | write | readChunk => exact h.elim

theorem silent_polled {e : Access} (h : Polled (fifoReg base tpmFifoRegStatus) e) : Silent base e := by
  cases e with
  | read reg dst err val =>
      obtain ⟨rfl, -⟩ := h
      exact silent_read (fifoReg_ne base (by decide)) (fifoReg_ne base (by decide)) _ _ _
  | timeoutInit | timeoutElapsed => exact ⟨id, fun v hv => absurd hv (Option.not_mem_none v)⟩
  | write | readChunk => exact h.elim

theorem Pacing.moves (hd : HasBurstCount port base burst) {total : Nat} {ext vain two chunk : List (Observed UInt16)}
    {r : Int × UInt16} {err : Int} {w : W} (h : Pacing base total ext) (hb : Bursted port burst base r w vain two)
    (hok : 0 ≤ r.1) (hc : Chunk base (min r.2.toNat (total - moved base ext)) err chunk) :
    Pacing base total (ext ++ vain ++ two ++ chunk) ∧
      moved base (ext ++ vain ++ two ++ chunk) = moved base ext + chunk.length := by
  have hvain : ∀ e ∈ vain, Silent base e.access := fun e he => silent_vain (hb.vain e he)
  have hsame := moved_silent ext hvain
  have hy := hb.yields hok
  rw [← hsame] at hc ⊢
  refine ⟨(h.silent hvain).round hd hy hc, ?_⟩
  obtain ⟨-, u, v, err₀, err₁, byte0, byte1, -, -, -, -, -, rfl⟩ := hy
  have hlo : fifoReg base tpmFifoRegBurstCountLo ≠ fifoReg base tpmFifoRegDataFifo := fifoReg_ne base (by decide)
  have hhi : fifoReg base tpmFifoRegBurstCountHi ≠ fifoReg base tpmFifoRegDataFifo := fifoReg_ne base (by decide)
  rw [moved_transfers hc.transfers, moved_append]
  simp [moved, IsTransfer, hlo, hhi]

theorem writeData_paced (hd : HasBurstCount port (localityStartAddress chip.locality) burst) (buf : TpmCmd)
    (len n index : Nat) (w : W) (ext : List (Observed UInt16))
    (h : Pacing (localityStartAddress chip.locality) len ext)
    (hm : moved (localityStartAddress chip.locality) ext = index) :
    Meets (writeData (watched port burst) fuel chip (localityStartAddress chip.locality) buf len n index) (w, ext)
      (fun _ s => Pacing (localityStartAddress chip.locality) len s.2)
      (fun s => Pacing (localityStartAddress chip.locality) len s.2) := by
  induction n generalizing index w ext with
  | zero =>
      rw [writeData, meets_ite]
      exact ⟨fun _ => h, fun _ => h⟩
  | succ n ih =>
      rw [writeData, meets_ite]
      refine ⟨fun hlt => ?_, fun _ => h⟩
      rw [meets_bind]
      apply (burstcount_watched fuel chip w ext).mono
      · rintro ⟨err, count⟩ ⟨w, log⟩ ⟨vain, two, rfl, hb⟩
        dsimp only
        rw [meets_ite]
        refine ⟨fun herr => ?_, fun herr => ?_⟩
        · rw [meets_pure, hb.none herr, List.append_nil]
          exact h.silent fun e he => silent_vain (hb.vain e he)
        rw [meets_bind]
        apply (writeBurst_chunk buf len count.toNat index w _).mono
        · rintro ⟨err', index'⟩ ⟨w, log⟩ ⟨chunk, rfl, hc, hidx⟩
          rw [← hm] at hc
          obtain ⟨hv, hmoved⟩ := h.moves hd hb (not_lt.mp herr) hc
          dsimp only at hidx ⊢
          rw [meets_ite]
          refine ⟨fun _ => hv, fun herr' => ih index' w _ hv ?_⟩
          rw [hmoved, hm, hidx (not_lt.mp herr')]
        · exact fun _ hf => hf.elim
      · rintro ⟨w, log⟩ ⟨vain, rfl, hvain⟩
        exact h.silent fun e he => silent_vain (hvain e he)

theorem readLoop_paced (hd : HasBurstCount port (localityStartAddress chip.locality) burst) (dest : Nat → Dest)
    (readSize : Int) (total n : Nat) (st : ReadState) (w : W) (ext : List (Observed UInt16))
    (h : Pacing (localityStartAddress chip.locality) total ext)
    (hm : (readSize - st.loopIndex).toNat = total - moved (localityStartAddress chip.locality) ext) :
    Meets (readLoop (watched port burst) fuel chip (localityStartAddress chip.locality) dest readSize n st) (w, ext)
      (fun _ s => Pacing (localityStartAddress chip.locality) total s.2)
      (fun s => Pacing (localityStartAddress chip.locality) total s.2) := by
  induction n generalizing st w ext with
  | zero =>
      rw [readLoop, meets_ite]
      exact ⟨fun _ => h, fun _ => h⟩
  | succ n ih =>
      rw [readLoop, meets_ite]
      refine ⟨fun hlt => ?_, fun _ => h⟩
      rw [meets_bind]
      apply (burstcount_watched fuel chip w ext).mono
      · rintro ⟨err, count⟩ ⟨w, log⟩ ⟨vain, two, rfl, hb⟩
        dsimp only
        rw [meets_ite]
        refine ⟨fun herr => ?_, fun herr => ?_⟩
        · rw [meets_pure, hb.none herr, List.append_nil]
          exact h.silent fun e he => silent_vain (hb.vain e he)
        rw [meets_bind]
        apply (readBurst_chunk dest readSize count.toNat st w _).mono
        · rintro ⟨err', st'⟩ ⟨w, log⟩ ⟨chunk, rfl, hc, hidx⟩
          rw [hm] at hc
          obtain ⟨hv, hmoved⟩ := h.moves hd hb (not_lt.mp herr) hc
          dsimp only at hidx ⊢
          rw [meets_ite]
          refine ⟨fun _ => hv, fun herr' => ih st' w _ hv ?_⟩
          rw [hmoved, hidx (not_lt.mp herr')]
          omega
        · exact fun _ hf => hf.elim
      · rintro ⟨w, log⟩ ⟨vain, rfl, hvain⟩
        exact h.silent fun e he => silent_vain (hvain e he)

end Loops

section Transfers

variable {port : FifoPort W} {burst : W → UInt16} {chip : ChipData} {fuel : Nat}

structure Begun (base : UInt16) (k : Nat) (ext : List (Observed UInt16)) : Prop where
  uncounted : ∀ e ∈ ext, highByte base e.access = none
  moved : moved base ext = k

theorem Begun.pacing {k total : Nat} {ext : List (Observed UInt16)} (h : Begun base k ext) :
    Pacing base total ext := by
  have hnone (p : List (Observed UInt16)) (hp : p <+: ext) : metered base p = none := by
    induction p using List.reverseRecOn with
    | nil => rfl
    | append_singleton p e ih =>
        have he := h.uncounted e (hp.subset (by simp))
        rw [metered_snoc, ih ((List.prefix_append p [e]).trans hp), meter, he]
        simp
  refine ⟨fun _ p hp m hm => ?_, fun _ _ p e hp v hv => ?_⟩
  · rw [hnone p hp] at hm
    exact absurd hm (Option.not_mem_none m)
  · rw [h.uncounted e (hp.subset (by simp))] at hv
    exact absurd hv (Option.not_mem_none v)

theorem Begun.append {k : Nat} {ext s : List (Observed UInt16)} (h : Begun base k ext)
    (hs : ∀ e ∈ s, highByte base e.access = none) (hm : ∀ e ∈ s, ¬ IsTransfer base e.access) :
    Begun base k (ext ++ s) := by
  have hzero : BurstFlow.moved base s = 0 := List.countP_eq_zero.mpr fun e he => by simpa using hm e he
  refine ⟨List.forall_mem_append.mpr ⟨h.uncounted, hs⟩, ?_⟩
  rw [moved_append, hzero, h.moved, Nat.add_zero]

theorem Begun.status {k : Nat} {ext s : List (Observed UInt16)} (h : Begun base k ext)
    (hs : ∀ e ∈ s, Polled (fifoReg base tpmFifoRegStatus) e.access) : Begun base k (ext ++ s) := by
  have hne : fifoReg base tpmFifoRegStatus ≠ fifoReg base tpmFifoRegBurstCountHi := fifoReg_ne base (by decide)
  apply h.append _ fun e he => (silent_polled (hs e he)).still
  intro e he
  have hp := hs e he
  cases hacc : e.access with
  | read reg dst err val =>
      rw [hacc] at hp
      rw [highByte, if_neg fun hc => hne (hp.1.symm.trans hc.1)]
  | write | readChunk | timeoutInit | timeoutElapsed => rfl

theorem Begun.write_status {k : Nat} {ext : List (Observed UInt16)} (h : Begun base k ext) (val : UInt8) (err : Int)
    (before after : UInt16) :
    Begun base k (ext ++ [⟨before, .write (fifoReg base tpmFifoRegStatus) val err, after⟩]) := by
  apply h.append
  · exact List.forall_mem_singleton.mpr rfl
  · exact List.forall_mem_singleton.mpr (fifoReg_ne base (by decide))

theorem writeHeader_begun (bs : List UInt8) (k : Nat) (w : W) (ext : List (Observed UInt16)) (h : Begun base k ext) :
    Meets (writeHeader (watched port burst) base bs) (w, ext)
      (fun r s => (∃ k', Begun base k' s.2) ∧ (0 ≤ r → Begun base (k + bs.length) s.2)) (fun _ => False) := by
  induction bs generalizing k w ext with
  | nil => exact ⟨⟨k, h⟩, fun _ => h⟩
  | cons b bs ih =>
      rw [writeHeader, meets_bind]
      apply watch_write
      intro err w' _
      have hnext : Begun base (k + 1)
          (ext ++ [⟨burst w, .write (fifoReg base tpmFifoRegDataFifo) b err, burst w'⟩]) := by
        refine ⟨List.forall_mem_append.mpr ⟨h.uncounted, List.forall_mem_singleton.mpr rfl⟩, ?_⟩
        have hone : ∀ e ∈ [Observed.mk (burst w) (.write (fifoReg base tpmFifoRegDataFifo) b err) (burst w')],
            IsTransfer base e.access := List.forall_mem_singleton.mpr rfl
        rw [moved_transfers hone, h.moved]
        rfl
      rw [meets_ite]
      refine ⟨fun herr => ⟨⟨_, hnext⟩, fun hok => absurd herr (not_lt.mpr hok)⟩, fun _ => ?_⟩
      rw [List.length_cons, ← Nat.add_assoc, Nat.add_right_comm]
      exact ih (k + 1) w' _ hnext

theorem prepare_begun (k : Nat) (w : W) (ext : List (Observed UInt16))
    (h : Begun (localityStartAddress chip.locality) k ext) :
    Meets (tpm2FifoPrepare (watched port burst) fuel chip) (w, ext)
      (fun _ s => Begun (localityStartAddress chip.locality) k s.2)
      (fun s => Begun (localityStartAddress chip.locality) k s.2) := by
  unfold tpm2FifoPrepare
  dsimp only
  rw [meets_bind]
  apply watch_write
  intro err w' _
  have hnext := h.write_status tpmStatCommandReady err (burst w) (burst w')
  rw [meets_ite]
  refine ⟨fun _ => hnext, fun _ => ?_⟩
  rw [meets_bind]
  apply (wait_watched fuel _ _ _ w' _).mono
  · rintro ⟨err, status⟩ ⟨w, log⟩ ⟨wait, rfl, hwait⟩
    have hdone := hnext.status hwait.polls
    dsimp only
    rw [meets_ite]
    exact ⟨fun _ => hdone, fun _ => hdone⟩
  · rintro ⟨w, log⟩ ⟨wait, rfl, hwait⟩
    exact hnext.status hwait

theorem sendBytes_paced [Host] (hd : HasBurstCount port (localityStartAddress chip.locality) burst) (cmd : TpmCmd)
    (w : W) (ext : List (Observed UInt16)) (h : Begun (localityStartAddress chip.locality) 0 ext) :
    Meets (sendBytes (watched port burst) fuel chip cmd) (w, ext)
      (fun _ s => Pacing (localityStartAddress chip.locality) (be32toh cmd.cmdSize).toNat s.2)
      (fun s => Pacing (localityStartAddress chip.locality) (be32toh cmd.cmdSize).toNat s.2) := by
  unfold sendBytes
  dsimp only
  rw [meets_bind]
  apply (writeHeader_begun cmd.header 0 w ext h).mono
  · rintro err ⟨w, log⟩ ⟨⟨k, hk⟩, hheader⟩
    dsimp only at hk hheader ⊢
    rw [meets_ite]
    refine ⟨fun _ => hk.pacing, fun herr => ?_⟩
    rw [meets_ite]
    refine ⟨fun _ => hk.pacing, fun _ => ?_⟩
    have hten := hheader (not_lt.mp herr)
    rw [cmd.length_header, Nat.zero_add] at hten
    rw [meets_bind]
    apply (writeData_paced hd cmd _ fuel tpmHeaderSize w log hten.pacing hten.moved).mono
    · rintro err ⟨w, log⟩ hv
      dsimp only at hv ⊢
      rw [meets_ite]
      refine ⟨fun _ => hv, fun _ => ?_⟩
      rw [meets_bind]
      apply (wait_watched fuel _ _ _ w log).mono
      · rintro ⟨err, status⟩ ⟨w, log⟩ ⟨wait, rfl, hwait⟩
        have hv := hv.silent fun e he => silent_polled (hwait.polls e he)
        dsimp only
        rw [meets_ite]
        refine ⟨fun _ => hv, fun _ => ?_⟩
        rw [meets_ite]
        refine ⟨fun _ => hv, fun _ => ?_⟩
        rw [meets_bind]
        apply watch_write
        intro err w' _
        have hgo := hv.silent (s := [⟨burst w, .write (fifoReg (localityStartAddress chip.locality)
          tpmFifoRegStatus) tpmStatGo err, burst w'⟩]) (List.forall_mem_singleton.mpr
            ⟨fifoReg_ne _ (by decide), fun v hv => absurd hv (Option.not_mem_none v)⟩)
        rw [meets_ite]
        exact ⟨fun _ => hgo, fun _ => hgo⟩
      · rintro ⟨w, log⟩ ⟨wait, rfl, hwait⟩
        exact hv.silent fun e he => silent_polled (hwait e he)
    · exact fun _ hv => hv
  · exact fun _ hf => hf.elim

theorem send_paced [Host] (hd : HasBurstCount port (localityStartAddress chip.locality) burst) (cmd : TpmCmd)
    (w : W) :
    Meets (tpm2FifoSend (watched port burst) fuel chip cmd) (w, [])
      (fun _ s => Pacing (localityStartAddress chip.locality) (be32toh cmd.cmdSize).toNat s.2)
      (fun s => Pacing (localityStartAddress chip.locality) (be32toh cmd.cmdSize).toNat s.2) := by
  unfold tpm2FifoSend
  dsimp only
  rw [meets_bind]
  apply watch_read
  intro err status w' _
  have hstart : Begun (localityStartAddress chip.locality) 0 [] := ⟨fun _ he => absurd he List.not_mem_nil, rfl⟩
  have hread := hstart.status (s := [⟨burst w, .read (fifoReg (localityStartAddress chip.locality) tpmFifoRegStatus)
    .variable err status, burst w'⟩]) (List.forall_mem_singleton.mpr ⟨rfl, rfl⟩)
  rw [meets_ite]
  refine ⟨fun _ => hread.pacing, fun _ => ?_⟩
  rw [meets_ite]
  refine ⟨fun _ => ?_, fun _ => sendBytes_paced hd cmd w' _ hread⟩
  rw [meets_bind]
  apply (prepare_begun 0 w' _ hread).mono
  · rintro err ⟨w, log⟩ hprep
    dsimp only at hprep ⊢
    rw [meets_ite]
    exact ⟨fun _ => hprep.pacing, fun _ => sendBytes_paced hd cmd w log hprep⟩
  · exact fun _ hprep => hprep.pacing

/-- The bytes that a receive pass reads if nothing fails. -/
def wanted (size bytesExpected : Int) : Nat :=
  if bytesExpected = tpmReadHeader then (tpmHeaderSize - size).toNat
  else (bytesExpected - (size - tpmHeaderSize)).toNat

theorem readData_paced (hd : HasBurstCount port (localityStartAddress chip.locality) burst) (buf : TpmCmd)
    (size bytesExpected : Int) (w : W) :
    Meets (tpm2FifoReadData (watched port burst) fuel chip buf (localityStartAddress chip.locality) size
      bytesExpected) (w, []) (fun _ s => Pacing (localityStartAddress chip.locality) (wanted size bytesExpected) s.2)
      (fun s => Pacing (localityStartAddress chip.locality) (wanted size bytesExpected) s.2) := by
  unfold tpm2FifoReadData
  dsimp only
  rw [meets_bind]
  apply (wait_watched fuel _ _ _ w []).mono
  · rintro ⟨err, status⟩ ⟨w, log⟩ ⟨wait, hlog, hwait⟩
    obtain rfl : log = wait := hlog
    have hsilent : ∀ e ∈ log, Silent (localityStartAddress chip.locality) e.access :=
      fun e he => silent_polled (hwait.polls e he)
    have hv : Pacing (localityStartAddress chip.locality) (wanted size bytesExpected) log :=
      Pacing.nil.silent hsilent
    dsimp only
    rw [meets_ite]
    refine ⟨fun _ => hv, fun _ => ?_⟩
    rw [meets_bind]
    apply (readLoop_paced hd _ _ _ fuel _ w _ hv ?_).imp
    · exact fun _ _ hv => hv
    · have hzero : moved (localityStartAddress chip.locality) log = 0 := moved_silent [] hsilent
      rw [hzero]
      by_cases hheader : bytesExpected = tpmReadHeader
      · rw [wanted, if_pos hheader, if_pos hheader, if_pos hheader]
        rfl
      · rw [wanted, if_neg hheader, if_neg hheader, if_neg hheader]
        rfl
  · rintro ⟨w, log⟩ ⟨wait, hlog, hwait⟩
    obtain rfl : log = wait := hlog
    exact Pacing.nil.silent fun e he => silent_polled (hwait e he)

end Transfers

/-- A send, and each pass of a receive, moves no more bytes for a burst count
than the device said if the byte it takes for the high one is harmless at each
read, and, where no access fails, only then. -/
theorem bursts_paced_iff [Host] {port : FifoPort W} {burst : W → UInt16} {chip : ChipData}
    (hd : HasBurstCount port (localityStartAddress chip.locality) burst) (fuel : Nat) (w : W) :
    (∀ cmd, Meets (tpm2FifoSend (watched port burst) fuel chip cmd) (w, [])
      (fun _ s => Pacing (localityStartAddress chip.locality) (be32toh cmd.cmdSize).toNat s.2)
      (fun s => Pacing (localityStartAddress chip.locality) (be32toh cmd.cmdSize).toNat s.2)) ∧
    (∀ buf size bytesExpected, Meets (tpm2FifoReadData (watched port burst) fuel chip buf
      (localityStartAddress chip.locality) size bytesExpected) (w, [])
      (fun _ s => Pacing (localityStartAddress chip.locality) (wanted size bytesExpected) s.2)
      (fun s => Pacing (localityStartAddress chip.locality) (wanted size bytesExpected) s.2)) :=
  ⟨fun cmd => send_paced hd cmd w, fun buf size bytesExpected => readData_paced hd buf size bytesExpected w⟩

theorem Pacing.of_run {α : Type} {p : Nat → Proc (W × List (Observed UInt16)) α} {w : W} {total : Nat}
    (h : ∀ fuel, Meets (p fuel) (w, []) (fun _ s => Pacing base total s.2) (fun s => Pacing base total s.2))
    (fuel : Nat) {run : Option α × W × List (Observed UInt16)} (hrun : p fuel (w, []) = run) :
    Pacing base total run.2.2 := by
  rw [← hrun]
  exact (h fuel).world

/-- The registers of an idle device whose burstCount is 1. The byte at offset
0x20 belongs to no register. -/
def idle (reserved : UInt8) (reg : UInt16) : UInt8 :=
  if reg = fifoReg (localityStartAddress 0) tpmFifoRegStatus then
    tpmStatValid ||| tpmStatCommandReady ||| tpmStatAvail
  else if reg = fifoReg (localityStartAddress 0) tpmFifoRegBurstCountLo then 1
  else if reg = fifoReg (localityStartAddress 0) tpmFifoRegBurstCountHi then reserved
  else 0

theorem idle_hasBurstCount (reserved : UInt8) :
    HasBurstCount (FifoPort.steady (idle reserved)) (localityStartAddress 0) (fun _ => 1) where
  low h _ := by
    cases h
    rw [idle, if_neg (by decide), if_pos rfl]
    exact ⟨by decide, rfl⟩
  high h _ := by
    cases h
    rw [idle, if_neg (by decide), if_neg (by decide), if_neg (by decide)]
    decide

def idleSend : Option Int × Unit × List (Observed UInt16) :=
  letI := littleHost
  tpm2FifoSend (watched (FifoPort.steady (idle 0)) fun _ => 1) 64 ⟨0, tpmTimeouts⟩ (startupCommand 0).cmd ((), [])

def idleRead : Option (Int × Int × TpmCmd) × Unit × List (Observed UInt16) :=
  tpm2FifoReadData (watched (FifoPort.steady (idle 0)) fun _ => 1) 64 ⟨0, tpmTimeouts⟩ TpmCmd.zero
    (localityStartAddress 0) 0 tpmReadHeader ((), [])

theorem idleSend_harmless : Harmless (localityStartAddress 0) 12 idleSend.2.2 :=
  Harmless.of_indices (by decide +kernel)

theorem idleRead_harmless : Harmless (localityStartAddress 0) 10 idleRead.2.2 :=
  Harmless.of_indices (by decide +kernel)

theorem bursts_paced_idle :
    idleSend.1 = some tpmSuccess ∧ moved (localityStartAddress 0) idleSend.2.2 = 12 ∧
      Paced (localityStartAddress 0) idleSend.2.2 ∧
      idleRead.1 = some (tpmSuccess, 10, TpmCmd.zero) ∧ moved (localityStartAddress 0) idleRead.2.2 = 10 ∧
      Paced (localityStartAddress 0) idleRead.2.2 := by
  let _ := littleHost
  have hpacing (fuel : Nat) := @bursts_paced_iff Unit littleHost _ _ ⟨0, tpmTimeouts⟩ (idle_hasBurstCount 0) fuel ()
  have hsize : (be32toh (startupCommand 0).cmd.cmdSize).toNat = 12 := by decide +kernel
  have hwanted : wanted 0 tpmReadHeader = 10 := by decide
  have hsend : Pacing (localityStartAddress 0) 12 idleSend.2.2 := by
    rw [← hsize]
    exact Pacing.of_run (fun fuel => (hpacing fuel).1 (startupCommand 0).cmd) 64 (by rw [idleSend])
  have hread : Pacing (localityStartAddress 0) 10 idleRead.2.2 := by
    rw [← hwanted]
    exact Pacing.of_run (fun fuel => (hpacing fuel).2 TpmCmd.zero 0 tpmReadHeader) 64 (by rw [idleRead])
  exact ⟨by decide +kernel, by decide +kernel, hsend.enough idleSend_harmless,
    by decide +kernel, by decide +kernel, hread.enough idleRead_harmless⟩

theorem burst_overrun :
    letI := littleHost
    HasBurstCount (FifoPort.steady (idle 1)) (localityStartAddress 0) (fun _ => 1) ∧
      ¬ Paced (localityStartAddress 0) (tpm2FifoSend (watched (FifoPort.steady (idle 1)) fun _ => (1 : UInt16)) 64
        ⟨0, tpmTimeouts⟩ (startupCommand 0).cmd ((), [])).2.2 ∧
      ¬ Paced (localityStartAddress 0) (tpm2FifoReadData (watched (FifoPort.steady (idle 1)) fun _ => (1 : UInt16)) 64
        ⟨0, tpmTimeouts⟩ TpmCmd.zero (localityStartAddress 0) 0 tpmReadHeader ((), [])).2.2 := by
  let _ := littleHost
  refine ⟨idle_hasBurstCount 1, fun h => ?_, fun h => ?_⟩
  · exact absurd (h _ List.prefix_rfl (1, 2) (by decide +kernel)) (by decide)
  · exact absurd (h _ List.prefix_rfl (1, 10) (by decide +kernel)) (by decide)

end LibTpm.BurstFlow
