import Mathlib.Data.List.Basic

namespace LibTpm.Base.Sticky

variable {σ ι α β : Type}

section Cut

variable (fits : α → ι → Prop) [∀ a i, Decidable (fits a i)] (next : α → ι → α)

/-- The number of operations before the first one that does not fit what the
operations before it add up to. -/
def cut : α → List ι → Nat
  | _, [] => 0
  | a, i :: is => if fits a i then cut (next a i) is + 1 else 0

variable {fits next} {a : α} {i : ι} {is : List ι}

theorem cut_cons_pos (h : fits a i) : cut fits next a (i :: is) = cut fits next (next a i) is + 1 := if_pos h

theorem cut_cons_neg (h : ¬ fits a i) : cut fits next a (i :: is) = 0 := if_neg h

theorem cut_le (a : α) (is : List ι) : cut fits next a is ≤ is.length := by
  induction is generalizing a with
  | nil => exact Nat.le_refl 0
  | cons i is ih =>
      by_cases h : fits a i
      · rw [cut_cons_pos h]
        exact Nat.succ_le_succ (ih (next a i))
      · rw [cut_cons_neg h]
        exact Nat.zero_le _

theorem fits_of_lt_cut {j : Nat} (hj : j < cut fits next a is) (hi : is[j]? = some i) :
    fits ((is.take j).foldl next a) i := by
  induction is generalizing a j with
  | nil => cases hi
  | cons i₀ is ih =>
      by_cases h : fits a i₀
      · rw [cut_cons_pos h] at hj
        cases j with
        | zero =>
            cases hi
            exact h
        | succ j => exact ih (Nat.lt_of_succ_lt_succ hj) hi
      · rw [cut_cons_neg h] at hj
        exact absurd hj (Nat.not_lt_zero j)

theorem not_fits_cut (hi : is[cut fits next a is]? = some i) :
    ¬ fits ((is.take (cut fits next a is)).foldl next a) i := by
  induction is generalizing a with
  | nil => cases hi
  | cons i₀ is ih =>
      by_cases h : fits a i₀
      · rw [cut_cons_pos h] at hi ⊢
        exact ih hi
      · rw [cut_cons_neg h] at hi ⊢
        cases hi
        exact h

end Cut

/-- A machine with a sticky error. `Live a s` says that `s` has accepted
operations that add up to `a`, and `Dead s` that it has refused one; a refusal
and all that follows it keep what `seen` sees. -/
structure Latches (fits : α → ι → Prop) (next : α → ι → α) (step : σ → ι → σ) (seen : σ → β)
    (Live : α → σ → Prop) (Dead : σ → Prop) : Prop where
  accept {a : α} {s : σ} {i : ι} : Live a s → fits a i → Live (next a i) (step s i)
  refuse {a : α} {s : σ} {i : ι} : Live a s → ¬ fits a i → Dead (step s i) ∧ seen (step s i) = seen s
  stay {s : σ} {i : ι} : Dead s → Dead (step s i) ∧ seen (step s i) = seen s

namespace Latches

variable {fits : α → ι → Prop} [∀ a i, Decidable (fits a i)] {next : α → ι → α} {step : σ → ι → σ}
  {seen : σ → β} {Live : α → σ → Prop} {Dead : σ → Prop} {a : α} {s : σ} {is : List ι}

omit [∀ a i, Decidable (fits a i)] in
theorem dead_run (h : Latches fits next step seen Live Dead) (hs : Dead s) (is : List ι) :
    Dead (is.foldl step s) ∧ seen (is.foldl step s) = seen s := by
  induction is generalizing s with
  | nil => exact ⟨hs, rfl⟩
  | cons i is ih =>
      obtain ⟨hd, hseen⟩ := h.stay (i := i) hs
      obtain ⟨hd', hseen'⟩ := ih hd
      exact ⟨hd', hseen'.trans hseen⟩

theorem live_take (h : Latches fits next step seen Live Dead) (hs : Live a s) {j : Nat}
    (hj : j ≤ cut fits next a is) : Live ((is.take j).foldl next a) ((is.take j).foldl step s) := by
  induction is generalizing a s j with
  | nil =>
      rw [List.take_nil]
      exact hs
  | cons i is ih =>
      cases j with
      | zero => exact hs
      | succ j =>
          by_cases hi : fits a i
          · rw [cut_cons_pos hi] at hj
            exact ih (h.accept hs hi) (Nat.le_of_succ_le_succ hj)
          · rw [cut_cons_neg hi] at hj
            exact absurd hj (Nat.not_succ_le_zero j)

theorem dead_take (h : Latches fits next step seen Live Dead) (hs : Live a s) {j : Nat}
    (hj : cut fits next a is < j) (hl : cut fits next a is < is.length) : Dead ((is.take j).foldl step s) ∧
      seen ((is.take j).foldl step s) = seen ((is.take (cut fits next a is)).foldl step s) := by
  induction is generalizing a s j with
  | nil => exact absurd hl (Nat.not_lt_zero _)
  | cons i is ih =>
      cases j with
      | zero => exact absurd hj (Nat.not_lt_zero _)
      | succ j =>
          by_cases hi : fits a i
          · rw [cut_cons_pos hi] at hj hl ⊢
            exact ih (h.accept hs hi) (Nat.lt_of_succ_lt_succ hj) (Nat.lt_of_succ_lt_succ hl)
          · rw [cut_cons_neg hi]
            obtain ⟨hd, hseen⟩ := h.refuse hs hi
            obtain ⟨hd', hseen'⟩ := h.dead_run hd (is.take j)
            exact ⟨hd', hseen'.trans hseen⟩

theorem seen_take (h : Latches fits next step seen Live Dead) (hs : Live a s) {j : Nat}
    (hj : cut fits next a is ≤ j) :
    seen ((is.take j).foldl step s) = seen ((is.take (cut fits next a is)).foldl step s) := by
  rcases Nat.eq_or_lt_of_le hj with heq | hlt
  · rw [heq]
  · have hle : cut fits next a is ≤ is.length := cut_le a is
    rcases Nat.eq_or_lt_of_le hle with hall | hl
    · rw [List.take_of_length_le (hall ▸ hj), List.take_of_length_le (Nat.le_of_eq hall.symm)]
    · exact (h.dead_take hs hlt hl).2

end Latches

end LibTpm.Base.Sticky
