import LibTpm.Base.Process
import Mathlib.Data.Option.Basic

namespace LibTpm.Base.Simulation

open LibTpm.Base.Process LibTpm.Base.Process.Proc

variable {V W α α' β β' : Type}

/-- From worlds that `R` relates, both programs return values that `A` relates,
or both are still polling, and `R` relates the worlds that they have reached. -/
def Simulates (R : W → V → Prop) (A : α → α' → Prop) (p : Proc W α) (p' : Proc V α') : Prop :=
  ∀ w v, R w v → Option.Rel A (p w).1 (p' v).1 ∧ R (p w).2 (p' v).2

variable {R : W → V → Prop} {A : α → α' → Prop} {B : β → β' → Prop} {p q : Proc W α} {p' q' : Proc V α'}

theorem simulates_pure {a : α} {a' : α'} (h : A a a') :
    Simulates R A (pure a : Proc W α) (pure a' : Proc V α') := fun _ _ hr => ⟨.some h, hr⟩

theorem simulates_suspend : Simulates R A (suspend : Proc W α) (suspend : Proc V α') := fun _ _ hr => ⟨.none, hr⟩

theorem simulates_lift {m : StateM W α} {m' : StateM V α'}
    (h : ∀ w v, R w v → ∃ a a' w' v', m w = (a, w') ∧ m' v = (a', v') ∧ A a a' ∧ R w' v') :
    Simulates R A (liftM m) (liftM m') := by
  intro w v hr
  obtain ⟨a, a', w', v', hm, hm', ha, hr'⟩ := h w v hr
  rw [Proc.lift_run, Proc.lift_run, hm, hm']
  exact ⟨.some ha, hr'⟩

theorem Simulates.bind {f : α → Proc W β} {f' : α' → Proc V β'} (hp : Simulates R A p p')
    (hf : ∀ a a', A a a' → Simulates R B (f a) (f' a')) : Simulates R B (p >>= f) (p' >>= f') := by
  intro w v hr
  obtain ⟨hval, hworld⟩ := hp w v hr
  rcases hw : p w with ⟨_ | a, w'⟩ <;> rcases hv : p' v with ⟨_ | a', v'⟩ <;> rw [hw, hv] at hval hworld
  · rw [bind_none hw, bind_none hv]
    exact ⟨.none, hworld⟩
  · cases hval
  · cases hval
  · cases hval with
    | some ha =>
        rw [bind_some hw, bind_some hv]
        exact hf a a' ha w' v' hworld

theorem Simulates.imp {A' : α → α' → Prop} (h : Simulates R A p p') (ha : ∀ a a', A a a' → A' a a') :
    Simulates R A' p p' := by
  intro w v hr
  obtain ⟨hval, hworld⟩ := h w v hr
  refine ⟨?_, hworld⟩
  generalize (p w).1 = o at hval ⊢
  generalize (p' v).1 = o' at hval ⊢
  cases hval with
  | none => exact .none
  | some hval => exact .some (ha _ _ hval)

theorem Simulates.keeping {I : W → Prop} (h : Simulates R A p p') (hi : ∀ w v, R w v → I w → I (p w).2) :
    Simulates (fun w v => R w v ∧ I w) A p p' := by
  rintro w v ⟨hr, hw⟩
  obtain ⟨hval, hworld⟩ := h w v hr
  exact ⟨hval, hworld, hi w v hr hw⟩

theorem Simulates.step {p : Proc W α} {p' : Proc V α} {f : α → Proc W β} {f' : α → Proc V β'}
    (hp : Simulates R Eq p p') (hf : ∀ a, Simulates R B (f a) (f' a)) :
    Simulates R B (p >>= f) (p' >>= f') := by
  apply hp.bind
  rintro a _ rfl
  exact hf a

theorem Simulates.within {T : α → W → V → Prop} {m : StateM W α} {m' : StateM V α} {f : α → Proc W β} {f' : α → Proc V β'}
    (hm : ∀ w v, R w v → ∃ a w' v', m w = (a, w') ∧ m' v = (a, v') ∧ T a w' v')
    (hf : ∀ a, Simulates (T a) B (f a) (f' a)) (ht : ∀ a w v, T a w v → R w v) :
    Simulates R B (liftM m >>= f) (liftM m' >>= f') := by
  intro w v hr
  obtain ⟨a, w', v', hw, hv, ha⟩ := hm w v hr
  rw [lift_bind, lift_bind, hw, hv]
  obtain ⟨hval, hworld⟩ := hf a w' v' ha
  exact ⟨hval, ht a _ _ hworld⟩

theorem Simulates.ite {c : Prop} {_ : Decidable c} (hp : c → Simulates R A p p') (hq : ¬ c → Simulates R A q q') :
    Simulates R A (if c then p else q) (if c then p' else q') := by
  by_cases h : c
  · rw [if_pos h, if_pos h]
    exact hp h
  · rw [if_neg h, if_neg h]
    exact hq h

theorem Simulates.unless {c : Prop} {_ : Decidable c} {a : α} {q : Proc W α} {q' : Proc V α}
    (hq : Simulates R Eq q q') : Simulates R Eq (if c then pure a else q) (if c then pure a else q') :=
  Simulates.ite (fun _ => simulates_pure rfl) fun _ => hq

theorem Simulates.agree {p' : Proc V α} (h : Simulates R Eq p p') {w : W} {v : V} (hr : R w v) :
    ∃ r w' v', p w = (r, w') ∧ p' v = (r, v') ∧ R w' v' := by
  obtain ⟨hval, hworld⟩ := h w v hr
  rcases hw : p w with ⟨_ | a, w'⟩ <;> rcases hv : p' v with ⟨_ | a', v'⟩ <;> rw [hw, hv] at hval hworld
  · exact ⟨none, w', v', rfl, rfl, hworld⟩
  · cases hval
  · cases hval
  · cases hval with
    | some ha => exact ⟨some a, w', v', rfl, by rw [ha], hworld⟩

theorem Simulates.returned (h : Simulates R A p p') {w : W} {v v' : V} {a' : α'} (hr : R w v)
    (hv : p' v = (some a', v')) : ∃ a w', p w = (some a, w') ∧ A a a' ∧ R w' v' := by
  obtain ⟨hval, hworld⟩ := h w v hr
  rcases hw : p w with ⟨_ | a, w'⟩ <;> rw [hw, hv] at hval hworld
  · cases hval
  · cases hval with
    | some ha => exact ⟨a, w', rfl, ha, hworld⟩

def Kept (I : W → Prop) (w v : W) : Prop := w = v ∧ I w

theorem simulates_of_keeps {I : W → Prop} {A : α → α → Prop} (ha : ∀ a, A a a) (h : Keeps I p) :
    Simulates (Kept I) A p p := by
  rintro w _ ⟨rfl, hw⟩
  refine ⟨?_, rfl, h w hw⟩
  cases (p w).1 with
  | none => exact .none
  | some a => exact .some (ha a)

theorem simulates_kept {I : W → Prop} : Simulates (Kept I) Eq p p ↔ Keeps I p :=
  ⟨fun h w hw => (h w w ⟨rfl, hw⟩).2.2, simulates_of_keeps fun _ => rfl⟩

end LibTpm.Base.Simulation
