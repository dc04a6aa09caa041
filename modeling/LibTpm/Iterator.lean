import LibTpm.Command

namespace LibTpm.Iterator

open LibTpm.Base.BigEndian LibTpm.Command LibTpm.Constants

/-- A cursor in a response: the memory from its position on, and how much of
it may still be read. Its position and its outputs are never NULL in the library. -/
structure TpmBufIter where
  ptr : List UInt8
  remain : Nat
  errorState : TpmRetValue
  deriving DecidableEq

variable {α : Type}

/-- Read `n` bytes. The output keeps its value when the read fails. -/
def iterRead (n : Nat) (decode : List UInt8 → α) (iter : TpmBufIter) (out : α) :
    Int × α × TpmBufIter :=
  if iter.errorState ≠ .success then (iter.errorState.code, out, iter)
  else if iter.remain < n then (tpmErrResponse, out, { iter with errorState := .errResponse })
  else (tpmSuccess, decode iter.ptr, { iter with ptr := iter.ptr.drop n, remain := iter.remain - n })

def iterReadU8 : TpmBufIter → UInt8 → Int × UInt8 × TpmBufIter :=
  iterRead 1 (fun p => p.getD 0 0)

def iterReadU16Be : TpmBufIter → UInt16 → Int × UInt16 × TpmBufIter :=
  iterRead 2 (fun p => of16 (p.getD 0 0) (p.getD 1 0))

def iterReadU32Be : TpmBufIter → UInt32 → Int × UInt32 × TpmBufIter :=
  iterRead 4 (fun p => of32 (p.getD 0 0) (p.getD 1 0) (p.getD 2 0) (p.getD 3 0))

/-- The output is the position itself: the memory that starts there. -/
def iterReadPtr (len : Nat) : TpmBufIter → List UInt8 → Int × List UInt8 × TpmBufIter :=
  iterRead len (fun p => p)

section Read

variable {n : Nat} {decode : List UInt8 → α} {iter : TpmBufIter} {out : α}

theorem iterRead_error (h : iter.errorState ≠ .success) :
    iterRead n decode iter out = (iter.errorState.code, out, iter) := by
  simp only [iterRead, if_pos h]

theorem iterRead_short (h : iter.errorState = .success) (hn : iter.remain < n) :
    iterRead n decode iter out = (tpmErrResponse, out, { iter with errorState := .errResponse }) := by
  simp only [iterRead, h, ne_eq, not_true_eq_false, if_false, if_pos hn]

theorem iterRead_fits (h : iter.errorState = .success) (hn : n ≤ iter.remain) :
    iterRead n decode iter out = (tpmSuccess, decode iter.ptr,
      { iter with ptr := iter.ptr.drop n, remain := iter.remain - n }) := by
  simp only [iterRead, h, ne_eq, not_true_eq_false, if_false, if_neg (Nat.not_lt.mpr hn)]

end Read

section Fits

variable {n : Nat} (rest : List UInt8)

theorem iterReadU8_cons (x : UInt8) (h : 1 ≤ n) (out : UInt8) :
    iterReadU8 ⟨x :: rest, n, .success⟩ out = (tpmSuccess, x, ⟨rest, n - 1, .success⟩) :=
  iterRead_fits rfl h

theorem iterReadU16Be_be16 (x : UInt16) (h : 2 ≤ n) (out : UInt16) :
    iterReadU16Be ⟨be16 x ++ rest, n, .success⟩ out = (tpmSuccess, x, ⟨rest, n - 2, .success⟩) := by
  rw [iterReadU16Be, iterRead_fits rfl h]
  exact congrArg (fun y => (tpmSuccess, y, _)) (of16_be16 x)

theorem iterReadU32Be_be32 (x : UInt32) (h : 4 ≤ n) (out : UInt32) :
    iterReadU32Be ⟨be32 x ++ rest, n, .success⟩ out = (tpmSuccess, x, ⟨rest, n - 4, .success⟩) := by
  rw [iterReadU32Be, iterRead_fits rfl h]
  exact congrArg (fun y => (tpmSuccess, y, _)) (of32_be32 x)

theorem iterReadPtr_append {xs : List UInt8} {len : Nat} (hl : xs.length = len) (h : len ≤ n)
    (out : List UInt8) : iterReadPtr len ⟨xs ++ rest, n, .success⟩ out =
      (tpmSuccess, xs ++ rest, ⟨rest, n - len, .success⟩) := by
  rw [iterReadPtr, iterRead_fits rfl h, ← hl, List.drop_left]

end Fits

end LibTpm.Iterator
