import LibTpm.Base.Cost
import LibTpm.Base.Simulation

namespace LibTpm.Base.Clients

open LibTpm.Base.Process LibTpm.Base.Process.Proc LibTpm.Base.Simulation LibTpm.Base.Cost

/-- A user of an interface. Which call comes next, and whether one comes, may
depend on all that the calls before have returned. -/
inductive Client (C : Type*) (Result : C → Type) (α : Type)
  | done (a : α)
  | call (c : C) (next : Result c → Client C Result α)

namespace Client

variable {C : Type*} {Result : C → Type} {α U V W : Type} {client : Client C Result α} {P : C → Prop}

def run (perform : (c : C) → Proc W (Result c)) : Client C Result α → Proc W α
  | .done a => return a
  | .call c next => do
      let r ← perform c
      run perform (next r)

/-- Whatever the calls return, the client makes none but these. -/
def Makes (P : C → Prop) : Client C Result α → Prop
  | .done _ => True
  | .call c next => P c ∧ ∀ r, Makes P (next r)

/-- Whatever the calls return, the client makes calls of this weight at most. -/
def Within (weight : C → Nat) : Nat → Client C Result α → Prop
  | _, .done _ => True
  | n, .call c next => weight c ≤ n ∧ ∀ r, Within weight (n - weight c) (next r)

variable {perform : (c : C) → Proc W (Result c)} {cost : W → Nat} {weight : C → Nat} {n : Nat}

theorem Makes.mono {P' : C → Prop} (h : client.Makes P) (hp : ∀ c, P c → P' c) : client.Makes P' := by
  induction client with
  | done a => exact trivial
  | call c next ih => exact ⟨hp c h.1, fun r => ih r (h.2 r)⟩

theorem makes_true (client : Client C Result α) : client.Makes fun _ => True := by
  induction client with
  | done a => exact trivial
  | call c next ih => exact ⟨trivial, ih⟩

theorem run_simulates {perform' : (c : C) → Proc V (Result c)} {R : W → V → Prop} (hc : client.Makes P)
    (h : ∀ c, P c → Simulates R Eq (perform c) (perform' c)) :
    Simulates R Eq (client.run perform) (client.run perform') := by
  induction client with
  | done a => exact simulates_pure rfl
  | call c next ih => exact Simulates.step (h c hc.1) fun r => ih r (hc.2 r)

theorem run_keeps {I : W → Prop} (hc : client.Makes P) (h : ∀ c, P c → Keeps I (perform c)) :
    Keeps I (client.run perform) :=
  simulates_kept.mp (run_simulates hc fun c hp => simulates_kept.mpr (h c hp))

theorem run_ends (hc : client.Makes P) (h : ∀ c, P c → Costs cost 0 (perform c)) :
    Costs cost 0 (client.run perform) := by
  induction client with
  | done a => exact costs_pure _ _
  | call c next ih => exact Costs.last (h c hc.1) fun r => ih r (hc.2 r)

theorem run_costs (hc : client.Within weight n) (h : ∀ c, Costs cost (weight c) (perform c)) :
    Costs cost n (client.run perform) := by
  induction client generalizing n with
  | done a => exact costs_pure _ _
  | call c next ih =>
      rw [← Nat.add_sub_of_le hc.1]
      exact Costs.bind (h c) fun r => ih r (hc.2 r)

theorem run_bounded (h : ∀ c, Costs cost (weight c) (perform c)) (client : Client C Result α) (w : W) :
    ∃ a w', client.run perform w = (some a, w') ∧ ∀ n, client.Within weight n → cost w' ≤ cost w + n := by
  have hends : Costs (fun _ => 0) 0 (client.run perform) :=
    run_ends client.makes_true fun c _ => (h c).returns
  obtain ⟨a, w', hrun, -⟩ := (hends.ends w).exists
  refine ⟨a, w', hrun, fun n hn => ?_⟩
  obtain ⟨_, _, hrun', hle⟩ := ((run_costs hn h).ends w).exists
  rw [hrun] at hrun'
  cases hrun'
  exact hle

section Notes

variable {L : Type}

variable {note : (c : C) → Result c → L → L}

end Notes

end Client

end LibTpm.Base.Clients
