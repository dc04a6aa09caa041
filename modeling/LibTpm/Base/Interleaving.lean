import Mathlib.Data.List.Basic

namespace LibTpm.Base.Interleaving

variable {ι E S : Type}

/-- Events of several parties, in the order in which they reach a shared state.
The state may also change by itself. -/
inductive Runs (step : S → E → S → Prop) (silent : S → S → Prop) (s : S) : List (ι × E) → S → Prop
  | start : Runs step silent s [] s
  | silent {log : List (ι × E)} {t u : S} : Runs step silent s log t → silent t u → Runs step silent s log u
  | event {log : List (ι × E)} {t u : S} {e : E} (i : ι) :
      Runs step silent s log t → step t e u → Runs step silent s (log ++ [(i, e)]) u

variable [DecidableEq ι]

def own (i : ι) (log : List (ι × E)) : List E := (log.filter fun p => p.1 = i).map Prod.snd

theorem own_concat_self (i : ι) (log : List (ι × E)) (e : E) : own i (log ++ [(i, e)]) = own i log ++ [e] := by
  simp [own]

theorem own_concat_of_ne {i j : ι} (h : j ≠ i) (log : List (ι × E)) (e : E) :
    own i (log ++ [(j, e)]) = own i log := by
  simp [own, h]

theorem mem_own {i : ι} {e : E} {log : List (ι × E)} : e ∈ own i log ↔ (i, e) ∈ log := by
  simp [own]

variable {step : S → E → S → Prop} {silent : S → S → Prop} {s t : S} {log : List (ι × E)}

/-- What a party may conclude about the state from its own events, when the
others keep to what they guarantee. -/
theorem Runs.concludes (hrun : Runs step silent s log t) {G : ι → E → Prop} (hG : ∀ p ∈ log, G p.1 p.2) (i : ι)
    {Seen : List E → Prop} {C : S → Prop} (hstart : Seen [] → C s)
    (hsilent : ∀ t u, C t → silent t u → C u)
    (hothers : ∀ j e t u, j ≠ i → G j e → C t → step t e u → C u)
    (hown : ∀ es e t u, G i e → (Seen es → C t) → Seen (es ++ [e]) → step t e u → C u) :
    Seen (own i log) → C t := by
  induction hrun with
  | start => exact hstart
  | silent _ hs ih => exact fun hseen => hsilent _ _ (ih hG hseen) hs
  | @event log t u e j _ hs ih =>
      rw [List.forall_mem_append] at hG
      have hg : G j e := hG.2 (j, e) (List.mem_singleton_self _)
      intro hseen
      by_cases hj : j = i
      · subst hj
        rw [own_concat_self] at hseen
        exact hown _ e t u hg (ih hG.1) hseen hs
      · rw [own_concat_of_ne hj] at hseen
        exact hothers j e t u hj hg (ih hG.1 hseen) hs

end LibTpm.Base.Interleaving
