import Mathlib.Data.List.Basic

namespace LibTpm.Base.Process

variable {W E α β : Type}

/-- A computation over a world. It returns a value, or its fuel ends while it
is still polling; the world it has reached is observed in both cases. -/
def Proc (W α : Type) : Type := W → Option α × W

namespace Proc

protected def pure (a : α) : Proc W α := fun w => (some a, w)

protected def bind (p : Proc W α) (f : α → Proc W β) : Proc W β := fun w =>
  match p w with
  | (some a, w') => f a w'
  | (none, w') => (none, w')

instance : Monad (Proc W) where
  pure := Proc.pure
  bind := Proc.bind

instance : LawfulMonad (Proc W) := LawfulMonad.mk' (Proc W)
  (fun p => funext fun w => by
    change Proc.bind p Proc.pure w = p w
    unfold Proc.bind
    rcases p w with ⟨_ | a, w'⟩ <;> rfl)
  (fun _ _ => rfl)
  (fun p f g => funext fun w => by
    change Proc.bind (Proc.bind p f) g w = Proc.bind p (fun a => Proc.bind (f a) g) w
    unfold Proc.bind
    rcases p w with ⟨_ | a, w'⟩ <;> rfl)

def suspend : Proc W α := fun w => (none, w)

def lift (m : StateM W α) : Proc W α := fun w => (some (m w).1, (m w).2)

instance : MonadLift (StateM W) (Proc W) := ⟨lift⟩

/-- `Meets p w Q C`: a return of `p` from `w` satisfies `Q`, and a world in
which `p` is still polling satisfies `C`. -/
def Meets (p : Proc W α) (w : W) (Q : α → W → Prop) (C : W → Prop) : Prop :=
  match p w with
  | (some a, w') => Q a w'
  | (none, w') => C w'

variable {p : Proc W α} {f : α → Proc W β} {w : W} {C : W → Prop}

@[simp] theorem pure_run (a : α) (w : W) : (pure a : Proc W α) w = (some a, w) := rfl

@[simp] theorem suspend_run (w : W) : (suspend : Proc W α) w = (none, w) := rfl

@[simp] theorem lift_run (m : StateM W α) (w : W) :
    (liftM m : Proc W α) w = (some (m w).1, (m w).2) := rfl

theorem bind_run (p : Proc W α) (f : α → Proc W β) (w : W) :
    (p >>= f) w = match p w with
      | (some a, w') => f a w'
      | (none, w') => (none, w') := rfl

theorem bind_some {a : α} {w' : W} (h : p w = (some a, w')) : (p >>= f) w = f a w' := by
  simp only [bind_run, h]

theorem bind_none {w' : W} (h : p w = (none, w')) : (p >>= f) w = (none, w') := by
  simp only [bind_run, h]

@[simp] theorem lift_bind (m : StateM W α) (f : α → Proc W β) (w : W) :
    ((liftM m : Proc W α) >>= f) w = f (m w).1 (m w).2 := rfl

@[simp] theorem meets_pure {a : α} {Q : α → W → Prop} :
    Meets (pure a : Proc W α) w Q C ↔ Q a w := Iff.rfl

@[simp] theorem meets_suspend {Q : α → W → Prop} :
    Meets (suspend : Proc W α) w Q C ↔ C w := Iff.rfl

@[simp] theorem meets_lift {m : StateM W α} {Q : α → W → Prop} :
    Meets (liftM m : Proc W α) w Q C ↔ Q (m w).1 (m w).2 := Iff.rfl

@[simp] theorem meets_bind {Q : β → W → Prop} :
    Meets (p >>= f) w Q C ↔ Meets p w (fun a w' => Meets (f a) w' Q C) C := by
  unfold Meets
  rw [bind_run]
  rcases p w with ⟨_ | a, w'⟩ <;> rfl

theorem Meets.mono {Q Q' : α → W → Prop} {C' : W → Prop} (h : Meets p w Q C)
    (hq : ∀ a w', Q a w' → Q' a w') (hc : ∀ w', C w' → C' w') : Meets p w Q' C' := by
  unfold Meets at h ⊢
  rcases hp : p w with ⟨_ | a, w'⟩
  · exact hc w' (by simpa only [hp] using h)
  · exact hq a w' (by simpa only [hp] using h)

theorem Meets.imp {Q Q' : α → W → Prop} (h : Meets p w Q C) (hq : ∀ a w', Q a w' → Q' a w') :
    Meets p w Q' C :=
  h.mono hq (fun _ hc => hc)

theorem Meets.and {Q Q' : α → W → Prop} {C' : W → Prop} (h : Meets p w Q C) (h' : Meets p w Q' C') :
    Meets p w (fun a w' => Q a w' ∧ Q' a w') (fun w' => C w' ∧ C' w') := by
  unfold Meets at h h' ⊢
  rcases hp : p w with ⟨_ | a, w'⟩ <;> simp only [hp] at h h' ⊢ <;> exact ⟨h, h'⟩

theorem Meets.absurd {Q : α → W → Prop} (h : Meets p w Q C) (hq : ∀ a w', ¬ Q a w')
    (hc : ∀ w', ¬ C w') : False := by
  unfold Meets at h
  rcases hp : p w with ⟨_ | a, w'⟩ <;> simp only [hp] at h
  · exact hc w' h
  · exact hq a w' h

theorem Meets.returned {Q : α → W → Prop} {a : α} {w' : W} (h : Meets p w Q C)
    (hp : p w = (some a, w')) : Q a w' := by
  simpa only [Meets, hp] using h

theorem Meets.polling {Q : α → W → Prop} {w' : W} (h : Meets p w Q C)
    (hp : p w = (none, w')) : C w' := by
  simpa only [Meets, hp] using h

theorem Meets.of_forall {Q : α → W → Prop} (hq : ∀ a w', Q a w') (hc : ∀ w', C w') : Meets p w Q C := by
  unfold Meets
  rcases p w with ⟨_ | a, w'⟩
  · exact hc w'
  · exact hq a w'

theorem meets_ite {Q : α → W → Prop} {c : Prop} [Decidable c] {p q : Proc W α} :
    Meets (if c then p else q) w Q C ↔ (c → Meets p w Q C) ∧ (¬ c → Meets q w Q C) := by
  split
  next h => exact ⟨fun hp => ⟨fun _ => hp, fun hc => absurd h hc⟩, fun hp => hp.1 h⟩
  next h => exact ⟨fun hq => ⟨fun hc => absurd hc h, fun _ => hq⟩, fun hq => hq.2 h⟩

theorem meets_world : Meets p w (fun _ => C) C ↔ C (p w).2 := by
  unfold Meets
  rcases p w with ⟨_ | a, w'⟩ <;> rfl

theorem Meets.world (h : Meets p w (fun _ => C) C) : C (p w).2 := meets_world.mp h

/-- Every step of `p` preserves `I`. -/
def Keeps (I : W → Prop) (p : Proc W α) : Prop := ∀ w, I w → I (p w).2

theorem keeps_pure (I : W → Prop) (a : α) : Keeps I (pure a : Proc W α) := fun _ h => h

theorem keeps_suspend (I : W → Prop) : Keeps I (suspend : Proc W α) := fun _ h => h

theorem Keeps.bind {I : W → Prop} (hp : Keeps I p) (hf : ∀ a, Keeps I (f a)) : Keeps I (p >>= f) := by
  intro w hw
  have h := hp w hw
  rcases hr : p w with ⟨_ | a, w'⟩ <;> rw [hr] at h
  · rw [bind_none hr]
    exact h
  · rw [bind_some hr]
    exact hf a w' h

theorem Keeps.ite {I : W → Prop} {c : Prop} [Decidable c] {p q : Proc W α}
    (hp : Keeps I p) (hq : Keeps I q) : Keeps I (if c then p else q) := by
  split
  · exact hp
  · exact hq

theorem Keeps.unless {I : W → Prop} {c : Prop} [Decidable c] {a : α} {q : Proc W α} (hq : Keeps I q) :
    Keeps I (if c then pure a else q) := Keeps.ite (keeps_pure I a) hq

theorem Keeps.guard {I : W → Prop} {c : Prop} [Decidable c] {a : α} {q : Proc W α} (hq : ¬ c → Keeps I q) :
    Keeps I (if c then pure a else q) := by
  split
  · exact keeps_pure I a
  next h => exact hq h

theorem world_bind (hp : C (p w).2) (hf : ∀ a, Keeps C (f a)) : C ((p >>= f) w).2 := by
  rcases hr : p w with ⟨_ | a, w'⟩ <;> rw [hr] at hp
  · rw [bind_none hr]
    exact hp
  · rw [bind_some hr]
    exact hf a w' hp

/-- Run `p` and append what it did to a log. -/
def observe (event : Option α → List E) (p : Proc W α) : Proc (W × List E) α := fun s =>
  ((p s.1).1, (p s.1).2, s.2 ++ event (p s.1).1)

theorem meets_observe {event : Option α → List E} {s : W × List E} {Q : α → W × List E → Prop}
    {C : W × List E → Prop} : Meets (observe event p) s Q C ↔
      Meets p s.1 (fun a w' => Q a (w', s.2 ++ event (some a))) (fun w' => C (w', s.2 ++ event none)) := by
  unfold Meets observe
  rcases p s.1 with ⟨_ | a, w'⟩ <;> rfl

end Proc

@[simp] theorem state_bind (m : StateM W α) (f : α → StateM W β) (w : W) :
    (m >>= f) w = f (m w).1 (m w).2 := rfl

@[simp] theorem state_pure (a : α) (w : W) : (pure a : StateM W α) w = (a, w) := rfl

def record (event : α → E) (m : StateM W α) : StateM (W × List E) α := fun s =>
  ((m s.1).1, (m s.1).2, s.2 ++ [event (m s.1).1])

@[simp] theorem record_value (event : α → E) (m : StateM W α) (s : W × List E) :
    (record event m s).1 = (m s.1).1 := rfl

@[simp] theorem record_world (event : α → E) (m : StateM W α) (s : W × List E) :
    (record event m s).2 = ((m s.1).2, s.2 ++ [event (m s.1).1]) := rfl

end LibTpm.Base.Process
