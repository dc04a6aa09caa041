import LibTpm.Base.Progress
import LibTpm.Base.Simulation
import LibTpm.Base.Surfacing

namespace LibTpm.Base.Polling

open LibTpm.Base.Process LibTpm.Base.Process.Proc LibTpm.Base.Progress LibTpm.Base.Simulation LibTpm.Base.Surfacing

variable {V W α : Type}

/-- Rounds until one of them has an answer. -/
def poll (round : Proc W (Option α)) : Nat → Proc W α
  | 0 => suspend
  | n + 1 => do
      match ← round with
      | some a => return a
      | none => poll round n

/-- A round with an answer establishes `Q`, and one in vain `J`. -/
def Round (Q : α → W → Prop) (J : W → Prop) : Option α → W → Prop
  | some a, w => Q a w
  | none, w => J w

variable {round : Proc W (Option α)}

/-- The rule for a poll: a round in vain keeps the invariant, which may count
the rounds that are left, and one with an answer establishes what the poll returns. -/
theorem poll_meets {I : Nat → W → Prop} {Q : α → W → Prop} {C : W → Prop} (stop : ∀ w, I 0 w → C w)
    (step : ∀ n w, I (n + 1) w → Meets round w (Round Q (I n)) C) {n : Nat} {w : W} (h : I n w) :
    Meets (poll round n) w Q C := by
  induction n generalizing w with
  | zero => exact stop w h
  | succ n ih =>
      rw [poll, meets_bind]
      apply (step n w h).imp
      rintro (_ | a) w' ho
      · exact ih ho
      · exact ho

theorem keeps_poll {I : W → Prop} (h : Keeps I round) (n : Nat) : Keeps I (poll round n) := by
  intro w hw
  refine (poll_meets (I := fun _ => I) (fun _ hc => hc) (fun _ w hw => ?_) hw).world
  refine (meets_world.mpr (h w hw)).imp ?_
  rintro (_ | a) w' hw' <;> exact hw'

theorem poll_ends {I : W → Prop} {Q : α → W → Prop} (rank : W → Nat)
    (step : ∀ w, I w → Ends round w (Round Q fun w' => I w' ∧ rank w' < rank w)) {n : Nat} {w : W} (h : I w)
    (hn : rank w < n) : Ends (poll round n) w Q := by
  refine poll_meets (I := fun n w => I w ∧ rank w < n) (fun _ hc => absurd hc.2 (Nat.not_lt_zero _)) ?_ ⟨h, hn⟩
  rintro n w ⟨hi, hrank⟩
  apply (step w hi).imp
  rintro (_ | a) w' ho
  · obtain ⟨hi', hlt⟩ : I w' ∧ rank w' < rank w := ho
    exact ⟨hi', by omega⟩
  · exact ho

theorem surfaces_poll {I S : W → Prop} {F : α → Prop} (h : Surfaces I S (fun o => ∃ a ∈ o, F a) round) (n : Nat) :
    Surfaces I S F (poll round n) := by
  induction n with
  | zero => exact surfaces_suspend
  | succ n ih =>
      apply Surfaces.bind h
      · rintro (_ | a)
        · exact ih
        · exact surfaces_pure a
      · rintro _ ⟨a, rfl, ha⟩
        exact stops_pure ha

theorem simulates_poll {R : W → V → Prop} {round' : Proc V (Option α)} (h : Simulates R Eq round round') (n : Nat) :
    Simulates R Eq (poll round n) (poll round' n) := by
  induction n with
  | zero => exact simulates_suspend
  | succ n ih =>
      apply Simulates.step h
      rintro (_ | a)
      · exact ih
      · exact simulates_pure rfl

end LibTpm.Base.Polling
