import LibTpm.Base.Progress
import LibTpm.Base.Simulation

namespace LibTpm.Base.Cost

open LibTpm.Base.Process LibTpm.Base.Process.Proc LibTpm.Base.Progress LibTpm.Base.Simulation

variable {W α β : Type}

/-- From every world the program returns, and raises the cost by `n` at most. -/
structure Costs (cost : W → Nat) (n : Nat) (p : Proc W α) : Prop where
  ends (w : W) : Ends p w fun _ w' => cost w' ≤ cost w + n

variable {cost : W → Nat} {n m : Nat} {p q : Proc W α}

theorem costs_pure (n : Nat) (a : α) : Costs cost n (pure a : Proc W α) :=
  ⟨fun _ => Nat.le_add_right _ _⟩

theorem Costs.mono (h : Costs cost n p) (hn : n ≤ m) : Costs cost m p :=
  ⟨fun w => (h.ends w).imp fun _ _ hle => Nat.le_trans hle (Nat.add_le_add_left hn _)⟩

theorem Costs.bind {f : α → Proc W β} (hp : Costs cost n p) (hf : ∀ a, Costs cost m (f a)) :
    Costs cost (n + m) (p >>= f) := by
  constructor
  intro w
  apply (hp.ends w).bind
  intro a w' hle
  apply ((hf a).ends w').imp
  intro b w'' hle'
  omega

theorem Costs.ite {c : Prop} {_ : Decidable c} (hp : c → Costs cost n p) (hq : ¬ c → Costs cost n q) :
    Costs cost n (if c then p else q) := by
  by_cases h : c
  · rw [if_pos h]
    exact hp h
  · rw [if_neg h]
    exact hq h

theorem Costs.unless {c : Prop} {_ : Decidable c} {a : α} (hq : ¬ c → Costs cost n q) :
    Costs cost n (if c then pure a else q) := Costs.ite (fun _ => costs_pure n a) hq

theorem Costs.last {f : α → Proc W β} (hp : Costs cost n p) (hf : ∀ a, Costs cost 0 (f a)) :
    Costs cost n (p >>= f) := Costs.bind hp hf

theorem Costs.returns (h : Costs cost n p) : Costs (fun _ => 0) 0 p :=
  ⟨fun w => (h.ends w).imp fun _ _ _ => Nat.le_refl 0⟩

theorem Costs.of_simulates {V α' : Type} {A : α → α' → Prop} {R : W → V → Prop} {cost' : V → Nat} {p' : Proc V α'}
    (h : Costs cost' n p') (hs : Simulates R A p p') (hstart : ∀ w, ∃ v, R w v)
    (hcost : ∀ w v, R w v → cost w = cost' v) : Costs cost n p := by
  constructor
  intro w
  obtain ⟨v, hr⟩ := hstart w
  obtain ⟨a', v', hrun', hle⟩ := (h.ends v).exists
  obtain ⟨a, w', hrun, -, hr'⟩ := hs.returned hr hrun'
  rw [Ends, Meets, hrun]
  dsimp only
  rw [hcost w v hr, hcost w' v' hr']
  exact hle

end LibTpm.Base.Cost
