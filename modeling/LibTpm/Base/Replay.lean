import Mathlib.Data.List.Basic
import Mathlib.Logic.Function.Basic

namespace LibTpm.Base.Replay

variable {K D : Type} {V : K → Type} [DecidableEq K]

def absorb (f : (k : K) → V k → D → V k) (r : (k : K) → V k) (e : K × D) : (k : K) → V k :=
  Function.update r e.1 (f e.1 (r e.1) e.2)

def entriesAt (k : K) (log : List (K × D)) : List D := log.filterMap fun e => if e.1 = k then some e.2 else none

theorem entriesAt_append (k : K) (log log' : List (K × D)) :
    entriesAt k (log ++ log') = entriesAt k log ++ entriesAt k log' := List.filterMap_append

theorem entriesAt_cons_self (k : K) (d : D) (log : List (K × D)) :
    entriesAt k ((k, d) :: log) = d :: entriesAt k log := by simp [entriesAt]

theorem entriesAt_cons_of_ne {k k' : K} (h : k' ≠ k) (d : D) (log : List (K × D)) :
    entriesAt k ((k', d) :: log) = entriesAt k log := by simp [entriesAt, h]

theorem absorbAll_apply (f : (k : K) → V k → D → V k) (r : (k : K) → V k) (log : List (K × D)) (k : K) :
    log.foldl (absorb f) r k = (entriesAt k log).foldl (f k) (r k) := by
  induction log generalizing r with
  | nil => rfl
  | cons e log ih =>
      obtain ⟨k', d⟩ := e
      rw [List.foldl_cons, ih]
      by_cases h : k' = k
      · subst h
        rw [entriesAt_cons_self, List.foldl_cons, absorb, Function.update_self]
      · rw [entriesAt_cons_of_ne h, absorb, Function.update_of_ne (Ne.symm h)]

end LibTpm.Base.Replay
