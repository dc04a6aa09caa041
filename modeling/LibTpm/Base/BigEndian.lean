import Mathlib.Tactic.IntervalCases

namespace LibTpm.Base.BigEndian

def beNat (bs : List UInt8) : Nat := bs.foldl (fun n b => 256 * n + b.toNat) 0

def be16 (x : UInt16) : List UInt8 := [(x >>> 8).toUInt8, x.toUInt8]

def be32 (x : UInt32) : List UInt8 :=
  [(x >>> 24).toUInt8, (x >>> 16).toUInt8, (x >>> 8).toUInt8, x.toUInt8]

def of16 (a b : UInt8) : UInt16 := (a.toUInt16 <<< 8) ||| b.toUInt16

def of32 (a b c d : UInt8) : UInt32 :=
  (a.toUInt32 <<< 24) ||| (b.toUInt32 <<< 16) ||| (c.toUInt32 <<< 8) ||| d.toUInt32

@[simp] theorem be16_length (x : UInt16) : (be16 x).length = 2 := rfl

@[simp] theorem be32_length (x : UInt32) : (be32 x).length = 4 := rfl

theorem be16_of16 (a b : UInt8) : be16 (of16 a b) = [a, b] := by
  simp only [be16, of16, List.cons.injEq, and_true]
  constructor <;> apply UInt8.toBitVec_inj.mp <;> ext i hi <;> interval_cases i <;> simp

theorem be32_of32 (a b c d : UInt8) : be32 (of32 a b c d) = [a, b, c, d] := by
  simp only [be32, of32, List.cons.injEq, and_true]
  refine ⟨?_, ?_, ?_, ?_⟩ <;> apply UInt8.toBitVec_inj.mp <;> ext i hi <;> interval_cases i <;> simp

theorem of16_toNat (a b : UInt8) : (of16 a b).toNat = beNat [a, b] := by
  have ha := a.toNat_lt
  have hb := b.toNat_lt
  have h8 : a.toNat <<< 8 % 2 ^ 16 = a.toNat <<< 8 := Nat.mod_eq_of_lt (by omega)
  simp only [of16, UInt16.toNat_or, UInt16.toNat_shiftLeft, UInt8.toNat_toUInt16,
    UInt16.reduceToNat, Nat.reduceMod, h8]
  rw [← Nat.shiftLeft_add_eq_or_of_lt (by omega)]
  simp only [beNat, List.foldl_cons, List.foldl_nil]
  omega

theorem of32_toNat (a b c d : UInt8) : (of32 a b c d).toNat = beNat [a, b, c, d] := by
  have ha := a.toNat_lt
  have hb := b.toNat_lt
  have hc := c.toNat_lt
  have hd := d.toNat_lt
  have h24 : a.toNat <<< 24 % 2 ^ 32 = a.toNat <<< 24 := Nat.mod_eq_of_lt (by omega)
  have h16 : b.toNat <<< 16 % 2 ^ 32 = b.toNat <<< 16 := Nat.mod_eq_of_lt (by omega)
  have h8 : c.toNat <<< 8 % 2 ^ 32 = c.toNat <<< 8 := Nat.mod_eq_of_lt (by omega)
  simp only [of32, UInt32.toNat_or, UInt32.toNat_shiftLeft, UInt8.toNat_toUInt32,
    UInt32.reduceToNat, Nat.reduceMod, h24, h16, h8, Nat.or_assoc]
  -- each shifted byte lies above the bits of the bytes that follow it
  rw [← Nat.shiftLeft_add_eq_or_of_lt (i := 8) (by omega),
    ← Nat.shiftLeft_add_eq_or_of_lt (i := 16) (by omega),
    ← Nat.shiftLeft_add_eq_or_of_lt (i := 24) (by omega)]
  simp only [beNat, List.foldl_cons, List.foldl_nil]
  omega

theorem of16_be16 (x : UInt16) : of16 (x >>> 8).toUInt8 x.toUInt8 = x := by
  apply UInt16.toNat_inj.mp
  have hx := x.toNat_lt
  rw [of16_toNat]
  simp only [beNat, List.foldl_cons, List.foldl_nil, UInt16.toNat_toUInt8,
    UInt16.toNat_shiftRight, UInt16.reduceToNat, Nat.reduceMod, Nat.shiftRight_eq_div_pow]
  omega

theorem of32_be32 (x : UInt32) :
    of32 (x >>> 24).toUInt8 (x >>> 16).toUInt8 (x >>> 8).toUInt8 x.toUInt8 = x := by
  apply UInt32.toNat_inj.mp
  have hx := x.toNat_lt
  rw [of32_toNat]
  simp only [beNat, List.foldl_cons, List.foldl_nil, UInt32.toNat_toUInt8,
    UInt32.toNat_shiftRight, UInt32.reduceToNat, Nat.reduceMod, Nat.shiftRight_eq_div_pow]
  omega

end LibTpm.Base.BigEndian
