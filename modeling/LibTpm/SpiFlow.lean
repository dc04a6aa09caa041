import LibTpm.Spi

namespace LibTpm.SpiFlow

open LibTpm.Base.Process LibTpm.Constants LibTpm.Platform LibTpm.Spi

variable {W : Type}

def TransferSteps (P Q S : Globals W → Prop) (out : Option (List UInt8)) (len : UInt8) : Prop :=
  ∀ g, P g → ((tpm2SpiTransfer out len g).1.1 = 0 ∧ Q (tpm2SpiTransfer out len g).2) ∨
    ((tpm2SpiTransfer out len g).1.1 ≠ 0 ∧ S (tpm2SpiTransfer out len g).2)

/-- The states of a register access, by the calls that lead from one to the
next: `Opened` when the bus is started, `Held` after each transfer that
succeeds, `Broken` after one that fails, `Done` and `Failed` at the end. -/
structure AccessSteps (header : List UInt8) (Idle Opened Held Broken Done Failed : Globals W → Prop) : Prop where
  init (g : Globals W) : Idle g → ((tpm2SpiInit g).1 = 0 ∧ Opened (tpm2SpiInit g).2) ∨
    ((tpm2SpiInit g).1 = tpmErrTransfer ∧ Failed (tpm2SpiInit g).2)
  header : TransferSteps Opened Held Broken (some header) 4
  transfer (out : Option (List UInt8)) (len : UInt8) : TransferSteps Held Held Broken out len
  close (g : Globals W) : Held g → Done (tpm2SpiEndTransaction g).2
  abandon (g : Globals W) : Broken g → Failed (tpm2SpiEndTransaction g).2

variable {reg : UInt16} {access : TpmAccess} {len : UInt8} {Idle Opened Held Broken Done Failed : Globals W → Prop}
  {g : Globals W}

theorem TransferSteps.either {P Q : Globals W → Prop} {out : Option (List UInt8)} {len : UInt8}
    (h : ∀ g, P g → Q (tpm2SpiTransfer out len g).2) : TransferSteps P Q Q out len := by
  intro g hg
  rcases Decidable.em ((tpm2SpiTransfer out len g).1.1 = 0) with hrc | hrc
  · exact .inl ⟨hrc, h g hg⟩
  · exact .inr ⟨hrc, h g hg⟩

theorem waitStates_steps (h : ∀ out len, TransferSteps Held Held Broken out len) (hg : Held g) (n : Nat) :
    Held (waitStates n g).2 ∨ ((waitStates n g).1 = tpmErrTransfer ∧ Broken (waitStates n g).2) := by
  induction n generalizing g with
  | zero => exact .inl hg
  | succ n ih =>
      simp only [waitStates, state_bind]
      rcases h (some [0]) 1 g hg with ⟨hrc, hq⟩ | ⟨hrc, hf⟩
      · rw [if_neg (not_not.mpr hrc)]
        split
        · exact .inl hq
        · exact ih hq
      · rw [if_pos hrc]
        exact .inr ⟨rfl, hf⟩

theorem startTransaction_steps (h : AccessSteps (spiHeader reg access len) Idle Opened Held Broken Done Failed)
    (hl : len ≤ encodeLimit) (hg : Opened g) :
    Held (tpm2SpiStartTransaction reg access len g).2 ∨
      ((tpm2SpiStartTransaction reg access len g).1 = tpmErrTransfer ∧
        Broken (tpm2SpiStartTransaction reg access len g).2) := by
  simp only [tpm2SpiStartTransaction, gt_iff_lt, UInt8.not_lt.mpr hl, if_false, state_bind]
  rcases h.header g hg with ⟨hrc, hq⟩ | ⟨hrc, hf⟩
  · rw [if_neg (not_not.mpr hrc)]
    split
    · exact .inl hq
    · exact waitStates_steps h.transfer hq retryCount
  · rw [if_pos hrc]
    exact .inr ⟨rfl, hf⟩

theorem tpm2FifoIo_steps (h : AccessSteps (spiHeader reg access len) Idle Opened Held Broken Done Failed)
    (hl : len ≤ encodeLimit) (val : Option (List UInt8)) (hg : Idle g) :
    Done (tpm2FifoIo reg access len val g).2 ∨
      ((tpm2FifoIo reg access len val g).1.1 = tpmErrTransfer ∧ Failed (tpm2FifoIo reg access len val g).2) := by
  have herr : tpmErrTransfer ≠ 0 := by decide
  simp only [tpm2FifoIo, state_bind]
  rcases h.init g hg with ⟨hrc, hq⟩ | ⟨hrc, hf⟩
  · rw [if_neg (not_not.mpr hrc)]
    simp only [state_bind]
    rcases startTransaction_steps h hl hq with hq | ⟨hrc, hf⟩
    · split
      · exact .inl (h.close _ hq)
      simp only [state_bind]
      rcases h.transfer (if access = .write then val else none) len _ hq with ⟨hrc, hq⟩ | ⟨hrc, hf⟩
      · rw [if_neg (not_not.mpr hrc)]
        exact .inl (h.close _ hq)
      · rw [if_pos hrc]
        exact .inr ⟨rfl, h.abandon _ hf⟩
    · rw [hrc, if_pos herr]
      exact .inr ⟨rfl, h.abandon _ hf⟩
  · rw [hrc, if_pos herr]
    exact .inr ⟨rfl, hf⟩

theorem chunk_le {len : UInt8} (h : ¬ (len ≠ 1 ∧ len ≠ 2 ∧ len ≠ 4)) : len ≤ encodeLimit := by
  simp only [ne_eq, not_and_or, not_not] at h
  rcases h with rfl | rfl | rfl <;> decide

end LibTpm.SpiFlow
