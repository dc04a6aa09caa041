import LibTpm.Base.Process
import Mathlib.Data.List.Forall2
import Mathlib.Data.Option.Basic

namespace LibTpm.Base.TwoRuns

open LibTpm.Base.Process LibTpm.Base.Process.Proc

variable {W W' E α α' β β' : Type}

def Extends (p : Proc (W × List E) α) : Prop := ∀ s, s.2 <+: (p s).2.2

theorem extends_of_keeps {p : Proc (W × List E) α} (h : ∀ log, Keeps (fun s => log <+: s.2) p) : Extends p :=
  fun s => h s.2 s List.prefix_rfl

theorem extends_pure (a : α) : Extends (pure a : Proc (W × List E) α) := fun _ => List.prefix_rfl

theorem Extends.ite {c : Prop} [Decidable c] {p q : Proc (W × List E) α} (hp : Extends p) (hq : Extends q) :
    Extends (if c then p else q) := by
  split
  · exact hp
  · exact hq

/-- Events at the same position agree, as far as both logs go. -/
def Compatible (agree : E → E → Prop) (log log' : List E) : Prop :=
  ∀ (k : Nat) (e e' : E), log[k]? = some e → log'[k]? = some e' → agree e e'

variable {agree same : E → E → Prop}

theorem Compatible.of_prefix {log log' more more' : List E} (h : Compatible agree more more')
    (hlog : log <+: more) (hlog' : log' <+: more') : Compatible agree log log' := by
  obtain ⟨rest, rfl⟩ := hlog
  obtain ⟨rest', rfl⟩ := hlog'
  intro k e e' he he'
  refine h k e e' ?_ ?_
  · rw [List.getElem?_append_left (List.getElem?_eq_some_iff.mp he).1, he]
  · rw [List.getElem?_append_left (List.getElem?_eq_some_iff.mp he').1, he']

theorem Compatible.of_forall₂ {log log' : List E} (h : List.Forall₂ agree log log') :
    Compatible agree log log' := by
  induction h with
  | nil =>
      intro k e e' he
      cases he
  | @cons a b log log' hab _ ih =>
      intro k e e' he he'
      cases k with
      | zero =>
          cases he
          cases he'
          exact hab
      | succ k => exact ih k e e' he he'

/-- Two programs whose logs stay the same, and whose outcomes are related by
`A`, in any two runs in which the events agree. -/
def Coupled (agree same : E → E → Prop) (A : α → α' → Prop) (p : Proc (W × List E) α)
    (p' : Proc (W' × List E) α') : Prop :=
  ∀ s s', List.Forall₂ same s.2 s'.2 → Compatible agree (p s).2.2 (p' s').2.2 →
    List.Forall₂ same (p s).2.2 (p' s').2.2 ∧ Option.Rel A (p s).1 (p' s').1

variable {A : α → α' → Prop} {B : β → β' → Prop}
variable {p q : Proc (W × List E) α} {p' q' : Proc (W' × List E) α'}

theorem coupled_pure {a : α} {a' : α'} (h : A a a') :
    Coupled agree same A (pure a : Proc (W × List E) α) (pure a' : Proc (W' × List E) α') :=
  fun _ _ hs _ => ⟨hs, .some h⟩

theorem Coupled.bind {f : α → Proc (W × List E) β} {f' : α' → Proc (W' × List E) β'}
    (hp : Coupled agree same A p p') (hf : ∀ a a', A a a' → Coupled agree same B (f a) (f' a'))
    (he : ∀ a, Extends (f a)) (he' : ∀ a', Extends (f' a')) :
    Coupled agree same B (p >>= f) (p' >>= f') := by
  intro s s' hs
  have h := hp s s' hs
  rcases hr : p s with ⟨_ | a, s₁⟩ <;> rcases hr' : p' s' with ⟨_ | a', s₁'⟩ <;> rw [hr, hr'] at h
  · rw [bind_none hr, bind_none hr']
    exact fun hc => ⟨(h hc).1, .none⟩
  · rw [bind_none hr, bind_some hr']
    intro hc
    cases (h (hc.of_prefix List.prefix_rfl (he' a' s₁'))).2
  · rw [bind_some hr, bind_none hr']
    intro hc
    cases (h (hc.of_prefix (he a s₁) List.prefix_rfl)).2
  · rw [bind_some hr, bind_some hr']
    intro hc
    obtain ⟨hsame, hrel⟩ := h (hc.of_prefix (he a s₁) (he' a' s₁'))
    cases hrel with
    | some ha => exact hf a a' ha s₁ s₁' hsame hc

theorem Coupled.ite {c c' : Prop} [Decidable c] [Decidable c'] (hc : c ↔ c')
    (hp : c → Coupled agree same A p p') (hq : ¬ c → Coupled agree same A q q') :
    Coupled agree same A (if c then p else q) (if c' then p' else q') := by
  by_cases h : c
  · rw [if_pos h, if_pos (hc.mp h)]
    exact hp h
  · rw [if_neg h, if_neg fun h' => h (hc.mpr h')]
    exact hq h

theorem coupled_observe {p : Proc W α} {p' : Proc W' α'} {event : Option α → E} {event' : Option α' → E}
    (h : ∀ o o', agree (event o) (event' o') → same (event o) (event' o') ∧ Option.Rel A o o') :
    Coupled agree same A (observe (fun o => [event o]) p) (observe (fun o => [event' o]) p') := by
  intro s s' hs hc
  have hlast : agree (event (p s.1).1) (event' (p' s'.1).1) := by
    apply hc s.2.length
    · exact List.getElem?_concat_length
    · rw [hs.length_eq]
      exact List.getElem?_concat_length
  obtain ⟨hsame, hrel⟩ := h _ _ hlast
  exact ⟨List.rel_append hs (.cons hsame .nil), hrel⟩

end LibTpm.Base.TwoRuns
