import LibTpm.Base.BigEndian

namespace LibTpm.Base.Wire

open LibTpm.Base.BigEndian

variable {α β : Type}

abbrev Reader (α : Type) : Type := StateT (List UInt8) Option α

namespace Reader

def u8 : Reader UInt8 := fun
  | a :: rest => some (a, rest)
  | _ => none

def u16 : Reader UInt16 := fun
  | a :: b :: rest => some (of16 a b, rest)
  | _ => none

def u32 : Reader UInt32 := fun
  | a :: b :: c :: d :: rest => some (of32 a b c d, rest)
  | _ => none

def bytes (n : Nat) : Reader (List UInt8) := fun bs =>
  if n ≤ bs.length then some (bs.take n, bs.drop n) else none

def remaining : Reader (List UInt8) := fun bs => some (bs, [])

def many (p : Reader α) : Nat → Reader (List α)
  | 0 => return []
  | n + 1 => do
      let a ← p
      let as ← many p n
      return a :: as

def complete (p : Reader α) (bs : List UInt8) : Option α :=
  match p.run bs with
  | some (a, []) => some a
  | _ => none

/-- `p` reads `a` from the bytes `xs`, whatever follows them. -/
def Reads (p : Reader α) (xs : List UInt8) (a : α) : Prop :=
  ∀ rest, p.run (xs ++ rest) = some (a, rest)

/-- `p` reads `a` when `xs` is all of the input. -/
def ReadsAll (p : Reader α) (xs : List UInt8) (a : α) : Prop := p.run xs = some (a, [])

variable {p : Reader α} {f : α → Reader β} {xs ys : List UInt8} {a : α} {b : β}

theorem Reads.all (h : Reads p xs a) : ReadsAll p xs a := by
  have h := h []
  rwa [List.append_nil] at h

theorem ReadsAll.complete (h : ReadsAll p xs a) : complete p xs = some a := by
  unfold ReadsAll at h
  rw [Reader.complete, h]

theorem Reads.pure (a : α) : Reads (Pure.pure a) [] a := fun _ => rfl

theorem Reads.bind (hp : Reads p xs a) (hf : Reads (f a) ys b) : Reads (p >>= f) (xs ++ ys) b := by
  intro rest
  rw [StateT.run_bind, List.append_assoc, hp (ys ++ rest)]
  exact hf rest

theorem Reads.bind_last (hp : Reads p xs a) (hf : Reads (f a) [] b) : Reads (p >>= f) xs b := by
  rw [← List.append_nil xs]
  exact hp.bind hf

theorem ReadsAll.bind (hp : Reads p xs a) (hf : ReadsAll (f a) ys b) :
    ReadsAll (p >>= f) (xs ++ ys) b := by
  unfold ReadsAll
  rw [StateT.run_bind, hp ys]
  exact hf

theorem Reads.map {g : α → β} (hp : Reads p xs a) : Reads (g <$> p) xs (g a) := by
  intro rest
  rw [StateT.run_map, hp rest]
  rfl

theorem reads_guard {c : Prop} [Decidable c] {q : Reader β} (hc : c) (h : Reads q xs b) :
    Reads (do guard c; q) xs b := by
  rw [guard, if_pos hc]
  exact Reads.bind (Reads.pure ()) h

theorem readsAll_guard {c : Prop} [Decidable c] {q : Reader β} (hc : c) (h : ReadsAll q xs b) :
    ReadsAll (do guard c; q) xs b := by
  rw [guard, if_pos hc]
  exact ReadsAll.bind (Reads.pure ()) h

theorem reads_u8 (x : UInt8) : Reads u8 [x] x := fun _ => rfl

theorem reads_u16 (x : UInt16) : Reads u16 (be16 x) x := by
  intro rest
  change some (of16 _ _, rest) = some (x, rest)
  rw [of16_be16]

theorem reads_u32 (x : UInt32) : Reads u32 (be32 x) x := by
  intro rest
  change some (of32 _ _ _ _, rest) = some (x, rest)
  rw [of32_be32]

theorem reads_bytes {n : Nat} (h : xs.length = n) : Reads (bytes n) xs xs := by
  subst h
  intro rest
  have hle : xs.length ≤ (xs ++ rest).length := by
    rw [List.length_append]
    exact Nat.le_add_right _ _
  change (if xs.length ≤ (xs ++ rest).length then _ else _) = _
  rw [if_pos hle, List.take_left, List.drop_left]

theorem readsAll_remaining {f : List UInt8 → Reader β} (h : ReadsAll (f xs) [] b) :
    ReadsAll (remaining >>= f) xs b := h

theorem Reads.many {encode : α → List UInt8} (hp : ∀ a, Reads p (encode a) a) (as : List α) :
    Reads (many p as.length) (as.flatMap encode) as := by
  induction as with
  | nil => exact Reads.pure []
  | cons a as ih =>
      rw [List.flatMap_cons]
      apply Reads.bind (hp a)
      exact Reads.bind_last ih (Reads.pure _)

end Reader

end LibTpm.Base.Wire
