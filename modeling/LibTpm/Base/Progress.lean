import LibTpm.Base.Process

namespace LibTpm.Base.Progress

open LibTpm.Base.Process LibTpm.Base.Process.Proc

variable {S W α : Type} {p : Proc W α} {w : W} {Q : α → W → Prop} {C : W → Prop}

/-- `p` returns from `w`, and with a return that satisfies `Q`. -/
def Ends (p : Proc W α) (w : W) (Q : α → W → Prop) : Prop := Meets p w Q fun _ => False

theorem Ends.exists (h : Ends p w Q) : ∃ a w', p w = (some a, w') ∧ Q a w' := by
  rcases hp : p w with ⟨_ | a, w'⟩
  · exact (h.polling hp).elim
  · exact ⟨a, w', rfl, h.returned hp⟩

theorem Ends.imp {Q' : α → W → Prop} (h : Ends p w Q) (hq : ∀ a w', Q a w' → Q' a w') : Ends p w Q' := Meets.imp h hq

theorem Ends.and {Q' : α → W → Prop} (h : Ends p w Q) (h' : Meets p w Q' C) :
    Ends p w fun a w' => Q a w' ∧ Q' a w' := by
  apply Meets.mono (Meets.and h h')
  · exact fun _ _ hq => hq
  · exact fun _ hc => hc.1

theorem Ends.bind {β : Type} {f : α → Proc W β} {Q' : β → W → Prop} (h : Ends p w Q)
    (hf : ∀ a w', Q a w' → Ends (f a) w' Q') : Ends (p >>= f) w Q' :=
  meets_bind.mpr (Meets.imp h hf)

theorem Ends.call {β : Type} {m : StateM W α} {f : α → Proc W β} {Q' : β → W → Prop}
    (h : ∀ a w', m w = (a, w') → Ends (f a) w' Q') : Ends (liftM m >>= f) w Q' := h _ _ rfl

/-- A loop ends when every round that does not end it keeps the invariant and
lowers the rank, and there is more fuel than the rank. -/
theorem loop_ends (loop : Nat → S → Proc W α) (I : S → W → Prop) (rank : S → W → Nat)
    (step : ∀ n s w, I s w → (∀ s' w', I s' w' → rank s' w' < rank s w → Ends (loop n s') w' Q) →
      Ends (loop (n + 1) s) w Q)
    (n : Nat) (s : S) (w : W) (h : I s w) (hn : rank s w < n) : Ends (loop n s) w Q := by
  induction n generalizing s w with
  | zero => exact absurd hn (Nat.not_lt_zero _)
  | succ n ih =>
      apply step n s w h
      intro s' w' h' hrank
      exact ih s' w' h' (by omega)

end LibTpm.Base.Progress
