import LibTpm.Base.Process

namespace LibTpm.Base.Surfacing

open LibTpm.Base.Process LibTpm.Base.Process.Proc

variable {W α β : Type}

/-- `p` preserves `I`, or breaks off in a world that satisfies `S` with a value
that satisfies `F`. While it polls it preserves `I`. -/
structure Surfaces (I S : W → Prop) (F : α → Prop) (p : Proc W α) : Prop where
  meets (w : W) : I w → Meets p w (fun a w' => I w' ∨ S w' ∧ F a) I

/-- The rest of a program after a failure: it returns a value that satisfies `G`, and does nothing else. -/
def Stops (G : β → Prop) (p : Proc W β) : Prop := ∃ b, G b ∧ p = pure b

variable {I S : W → Prop} {F : α → Prop} {G : β → Prop}

theorem stops_pure {b : β} (h : G b) : Stops G (pure b : Proc W β) := ⟨b, h, rfl⟩

theorem Stops.pos {c : Prop} {_ : Decidable c} {p q : Proc W β} (hc : c) (h : Stops G p) :
    Stops G (if c then p else q) := by
  rwa [if_pos hc]

theorem Stops.neg {c : Prop} {_ : Decidable c} {p q : Proc W β} (hc : ¬ c) (h : Stops G q) :
    Stops G (if c then p else q) := by
  rwa [if_neg hc]

theorem Stops.bind {p : Proc W α} {f : α → Proc W β} (h : Stops F p) (hf : ∀ a, F a → Stops G (f a)) :
    Stops G (p >>= f) := by
  obtain ⟨a, ha, rfl⟩ := h
  exact hf a ha

theorem surfaces_pure (a : α) : Surfaces I S F (pure a : Proc W α) := ⟨fun _ h => .inl h⟩

theorem surfaces_suspend : Surfaces I S F (suspend : Proc W α) := ⟨fun _ h => h⟩

theorem surfaces_of_keeps {p : Proc W α} (h : Keeps I p) : Surfaces I S F p := by
  constructor
  intro w hw
  refine (meets_world.mpr (h w hw)).imp fun a w' h' => .inl h'

theorem Surfaces.keeps {p : Proc W α} (h : Surfaces I (fun _ => False) F p) : Keeps I p := by
  intro w hw
  refine Meets.world ((h.meets w hw).imp ?_)
  rintro a w' (h' | ⟨h', -⟩)
  · exact h'
  · exact h'.elim

theorem Surfaces.ite {c : Prop} {_ : Decidable c} {p q : Proc W α} (hp : Surfaces I S F p)
    (hq : Surfaces I S F q) : Surfaces I S F (if c then p else q) := by
  split
  · exact hp
  · exact hq

theorem Surfaces.unless {c : Prop} {_ : Decidable c} {a : α} {q : Proc W α} (hq : Surfaces I S F q) :
    Surfaces I S F (if c then pure a else q) := Surfaces.ite (surfaces_pure a) hq

theorem Surfaces.bind {p : Proc W α} {f : α → Proc W β} (hp : Surfaces I S F p)
    (hf : ∀ a, Surfaces I S G (f a)) (hx : ∀ a, F a → Stops G (f a)) : Surfaces I S G (p >>= f) := by
  constructor
  intro w hw
  rw [meets_bind]
  refine (hp.meets w hw).imp ?_
  rintro a w' (h | ⟨h, ha⟩)
  · exact (hf a).meets w' h
  · obtain ⟨b, hb, hfa⟩ := hx a ha
    rw [hfa]
    exact .inr ⟨h, hb⟩

theorem Surfaces.after {p : Proc W α} {f : α → Proc W β} (hp : Keeps I p) (hf : ∀ a, Surfaces I S G (f a)) :
    Surfaces I S G (p >>= f) :=
  Surfaces.bind (surfaces_of_keeps (F := fun _ => False) hp) hf fun _ h => h.elim

end LibTpm.Base.Surfacing
