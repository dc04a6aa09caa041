import LibTpm.Base.Interleaving
import LibTpm.Platform
import Mathlib.Data.Finset.Erase
import Mathlib.Data.Finset.Insert

namespace LibTpm.LocalityArbiter

open LibTpm.Base.Interleaving LibTpm.Constants LibTpm.Platform

/-- The locality that uses the TPM, and those that ask for it, by their pages
of registers. -/
structure Arbiter where
  active : Option Nat
  pending : Finset Nat
  deriving DecidableEq

def page (reg : UInt16) : Nat := reg.toNat / 0x1000

def IsAccess (reg : UInt16) : Prop := reg.toNat % 0x1000 = 0

instance : DecidablePred IsAccess := fun reg => inferInstanceAs (Decidable (reg.toNat % 0x1000 = 0))

/-- A locality may also take the TPM from a lower one. -/
def tpmAccessSeize : UInt8 := (1 : UInt8) <<< 3

namespace Arbiter

def request (a : Arbiter) (p : Nat) : Arbiter :=
  if a.active = some p then a else { a with pending := insert p a.pending }

def relinquish (a : Arbiter) (p : Nat) : Arbiter where
  active := if a.active = some p then none else a.active
  pending := a.pending.erase p

def seize (a : Arbiter) (p : Nat) : Arbiter :=
  if ∃ q ∈ a.active, q < p then ⟨some p, a.pending.erase p⟩ else a

def written (a : Arbiter) (p : Nat) (val : UInt8) : Arbiter :=
  if val = tpmAccessRequestUse then a.request p
  else if val = tpmAccessRelinquishLocality then a.relinquish p
  else if val = tpmAccessSeize then a.seize p
  else a

end Arbiter

/-- The value that ACCESS has for a locality. The other bits are left open. -/
structure Shows (a : Arbiter) (p : Nat) (val : UInt8) : Prop where
  valid : val &&& tpmAccessValid = tpmAccessValid
  active : val &&& tpmAccessActiveLocality = tpmAccessActiveLocality ↔ a.active = some p

/-- An access as the TPM sees it. A write that has failed may have had its effect. -/
inductive Step (a : Arbiter) : Access → Arbiter → Prop
  | write {reg : UInt16} {val : UInt8} {err : Int} (access : IsAccess reg) :
      Step a (.write reg val err) (a.written (page reg) val)
  | lost {reg : UInt16} {val : UInt8} {err : Int} (access : IsAccess reg) (failed : err < 0) :
      Step a (.write reg val err) a
  | read {reg : UInt16} {dst : Dest} {err : Int} {val : UInt8} (access : IsAccess reg)
      (shows : 0 ≤ err → Shows a (page reg) val) : Step a (.read reg dst err val) a
  | writeElse {reg : UInt16} {val : UInt8} {err : Int} (other : ¬ IsAccess reg) : Step a (.write reg val err) a
  | readElse {reg : UInt16} {dst : Dest} {err : Int} {val : UInt8} (other : ¬ IsAccess reg) :
      Step a (.read reg dst err val) a
  | readChunk {reg : UInt16} {len : UInt8} {err : Int} : Step a (.readChunk reg len err) a
  | timeoutInit {usec : UInt32} {cnt : UInt64} : Step a (.timeoutInit usec cnt) a
  | timeoutElapsed {cnt : UInt64} {elapsed : Bool} : Step a (.timeoutElapsed cnt elapsed) a

/-- The TPM grants a request when it is free, at any time and in any order. -/
inductive Grants (a : Arbiter) : Arbiter → Prop
  | grant {p : Nat} (free : a.active = none) (asked : p ∈ a.pending) : Grants a ⟨some p, a.pending.erase p⟩

/-- What the parties guarantee to each other: ACCESS is used in the party's
own page, and never to seize the TPM. -/
def Lawful (p : Nat) : Access → Prop
  | .write reg val _ => IsAccess reg → page reg = p ∧ (val = tpmAccessRequestUse ∨ val = tpmAccessRelinquishLocality)
  | .read reg _ _ _ => IsAccess reg → page reg = p
  | _ => True

def Relinquishes : Access → Prop
  | .write reg val _ => IsAccess reg ∧ val = tpmAccessRelinquishLocality
  | _ => False

def Requests : Access → Prop
  | .write reg val _ => IsAccess reg ∧ val = tpmAccessRequestUse
  | _ => False

def SeesActive : Access → Prop
  | .read reg _ err val => IsAccess reg ∧ 0 ≤ err ∧ val &&& tpmAccessActiveLocality = tpmAccessActiveLocality
  | _ => False

def Holding (es : List Access) : Prop :=
  ∃ pre e post, es = pre ++ e :: post ∧ SeesActive e ∧ ∀ e' ∈ post, ¬ Relinquishes e'

def Withdrawn (es : List Access) : Prop :=
  ∃ pre reg err post, es = pre ++ .write reg tpmAccessRelinquishLocality err :: post ∧ IsAccess reg ∧ 0 ≤ err ∧
    ∀ e' ∈ post, ¬ Requests e'

theorem relinquish_ne_request : tpmAccessRelinquishLocality ≠ tpmAccessRequestUse := by decide

section Steps

variable {a b : Arbiter} {p : Nat} {e : Access}

@[simp] theorem written_request (a : Arbiter) (p : Nat) : a.written p tpmAccessRequestUse = a.request p := if_pos rfl

@[simp] theorem written_relinquish (a : Arbiter) (p : Nat) :
    a.written p tpmAccessRelinquishLocality = a.relinquish p := by
  rw [Arbiter.written, if_neg relinquish_ne_request, if_pos rfl]

theorem step_cases (h : Step a e b) (hl : Lawful p e) :
    b = a ∨ (Requests e ∧ b = a.request p) ∨ (Relinquishes e ∧ b = a.relinquish p) := by
  cases h with
  | @write reg val err access =>
      obtain ⟨rfl, rfl | rfl⟩ := hl access
      · exact .inr (.inl ⟨⟨access, rfl⟩, written_request a _⟩)
      · exact .inr (.inr ⟨⟨access, rfl⟩, written_relinquish a _⟩)
  | _ => exact .inl rfl

theorem request_active (a : Arbiter) (q : Nat) : (a.request q).active = a.active := by
  rw [Arbiter.request]
  split <;> rfl

theorem relinquish_active_of_ne {q : Nat} (h : q ≠ p) (ha : a.active = some p) : (a.relinquish q).active = some p := by
  rw [Arbiter.relinquish, ha]
  exact if_neg fun heq => h (Option.some.inj heq).symm

theorem active_others {q : Nat} (h : Step a e b) (hl : Lawful q e) (hne : q ≠ p) (ha : a.active = some p) :
    b.active = some p := by
  obtain rfl | ⟨-, rfl⟩ | ⟨-, rfl⟩ := step_cases h hl
  · exact ha
  · rw [request_active, ha]
  · exact relinquish_active_of_ne hne ha

theorem active_grants (h : Grants a b) (ha : a.active = some p) : b.active = some p := by
  cases h with
  | grant free => exact absurd (free.symm.trans ha) (by simp)

theorem active_seen (h : Step a e b) (hl : Lawful p e) (hs : SeesActive e) : b.active = some p := by
  cases h with
  | @read reg dst err val access shows =>
      obtain ⟨-, herr, hbit⟩ := hs
      obtain rfl := hl access
      exact (shows herr).active.mp hbit
  | @readElse reg dst err val other => exact absurd hs.1 other
  | write | lost | writeElse | readChunk | timeoutInit | timeoutElapsed => exact hs.elim

/-- The locality is neither active nor asked for. -/
def Absent (p : Nat) (a : Arbiter) : Prop := a.active ≠ some p ∧ p ∉ a.pending

theorem absent_relinquish (a : Arbiter) (p : Nat) : Absent p (a.relinquish p) := by
  refine ⟨?_, Finset.notMem_erase p _⟩
  rw [Arbiter.relinquish]
  split
  · exact nofun
  next h => exact h

theorem absent_request {q : Nat} (hne : q ≠ p) (h : Absent p a) : Absent p (a.request q) := by
  refine ⟨by rw [request_active]; exact h.1, ?_⟩
  rw [Arbiter.request]
  split
  · exact h.2
  · rw [Finset.mem_insert, not_or]
    exact ⟨hne.symm, h.2⟩

theorem absent_others {q : Nat} (h : Step a e b) (hl : Lawful q e) (hne : q ≠ p) (ha : Absent p a) : Absent p b := by
  obtain rfl | ⟨-, rfl⟩ | ⟨-, rfl⟩ := step_cases h hl
  · exact ha
  · exact absent_request hne ha
  · refine ⟨?_, fun hmem => ha.2 (Finset.mem_of_mem_erase hmem)⟩
    rw [Arbiter.relinquish]
    split
    · exact nofun
    · exact ha.1

theorem absent_grants (h : Grants a b) (ha : Absent p a) : Absent p b := by
  cases h with
  | @grant q free asked =>
      refine ⟨fun heq => ha.2 ?_, fun hmem => ha.2 (Finset.mem_of_mem_erase hmem)⟩
      rw [← Option.some.inj heq]
      exact asked

end Steps

section System

variable {ι : Type} [DecidableEq ι] {pageOf : ι → Nat} {log : List (ι × Access)} {a b : Arbiter}

theorem holding_concat {es : List Access} {e : Access} (h : Holding (es ++ [e])) :
    SeesActive e ∨ Holding es ∧ ¬ Relinquishes e := by
  obtain ⟨pre, x, post, heq, hx, hpost⟩ := h
  rcases List.eq_nil_or_concat' post with rfl | ⟨post, last, rfl⟩
  · obtain ⟨-, hlast⟩ := List.append_inj' heq rfl
    rw [List.singleton_inj.mp hlast]
    exact .inl hx
  · rw [← List.cons_append, ← List.append_assoc] at heq
    obtain ⟨rfl, hlast⟩ := List.append_inj' heq rfl
    rw [List.singleton_inj.mp hlast]
    rw [List.forall_mem_append, List.forall_mem_singleton] at hpost
    exact .inr ⟨⟨pre, x, post, rfl, hx, hpost.1⟩, hpost.2⟩

theorem withdrawn_concat {es : List Access} {e : Access} (h : Withdrawn (es ++ [e])) :
    (∃ reg err, e = .write reg tpmAccessRelinquishLocality err ∧ IsAccess reg ∧ 0 ≤ err) ∨
      Withdrawn es ∧ ¬ Requests e := by
  obtain ⟨pre, reg, err, post, heq, hreg, herr, hpost⟩ := h
  rcases List.eq_nil_or_concat' post with rfl | ⟨post, last, rfl⟩
  · obtain ⟨-, hlast⟩ := List.append_inj' heq rfl
    exact .inl ⟨reg, err, List.singleton_inj.mp hlast, hreg, herr⟩
  · rw [← List.cons_append, ← List.append_assoc] at heq
    obtain ⟨rfl, hlast⟩ := List.append_inj' heq rfl
    rw [List.singleton_inj.mp hlast]
    rw [List.forall_mem_append, List.forall_mem_singleton] at hpost
    exact .inr ⟨⟨pre, reg, err, post, rfl, hreg, herr, hpost.1⟩, hpost.2⟩

/-- A party that holds its locality has the TPM, however the accesses of the
parties are interleaved. -/
theorem active_of_holding (hrun : Runs Step Grants a log b) (hlaw : ∀ p ∈ log, Lawful (pageOf p.1) p.2)
    (hinj : Function.Injective pageOf) (i : ι) (h : Holding (own i log)) : b.active = some (pageOf i) := by
  refine hrun.concludes (G := fun i => Lawful (pageOf i)) hlaw i (C := fun a => a.active = some (pageOf i)) ?_ ?_ ?_ ?_ h
  · rintro ⟨pre, x, post, heq, -⟩
    simp at heq
  · exact fun t u ht hs => active_grants hs ht
  · exact fun j e t u hne hl ht hs => active_others hs hl (fun heq => hne (hinj heq)) ht
  · intro es e t u hl hseen hhold hs
    obtain hsees | ⟨hes, hkeep⟩ := holding_concat hhold
    · exact active_seen hs hl hsees
    · obtain rfl | ⟨-, rfl⟩ | ⟨hr, -⟩ := step_cases hs hl
      · exact hseen hes
      · rw [request_active]
        exact hseen hes
      · exact absurd hr hkeep

theorem absent_of_withdrawn (hrun : Runs Step Grants a log b) (hlaw : ∀ p ∈ log, Lawful (pageOf p.1) p.2)
    (hinj : Function.Injective pageOf) (i : ι) (h : Withdrawn (own i log)) : Absent (pageOf i) b := by
  refine hrun.concludes (G := fun i => Lawful (pageOf i)) hlaw i (C := Absent (pageOf i)) ?_ ?_ ?_ ?_ h
  · rintro ⟨pre, reg, err, post, heq, -⟩
    simp at heq
  · exact fun t u ht hs => absent_grants hs ht
  · exact fun j e t u hne hl ht hs => absent_others hs hl (fun heq => hne (hinj heq)) ht
  · intro es e t u hl hseen hgone hs
    obtain ⟨reg, err, rfl, hreg, herr⟩ | ⟨hes, hkeep⟩ := withdrawn_concat hgone
    · cases hs with
      | write access =>
          rw [written_relinquish, (hl hreg).1]
          exact absent_relinquish t _
      | lost _ failed => exact absurd herr (not_le.mpr failed)
      | writeElse other => exact absurd hreg other
    · obtain rfl | ⟨hr, -⟩ | ⟨-, rfl⟩ := step_cases hs hl
      · exact hseen hes
      · exact absurd hr hkeep
      · exact absent_relinquish t _

end System

end LibTpm.LocalityArbiter
