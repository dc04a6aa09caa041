import LibTpm.Base.BigEndian

namespace LibTpm.Endian

open LibTpm.Base.BigEndian

inductive ByteOrder
  | little
  | big
  deriving DecidableEq, Repr

/-- The byte order of the processor the library is compiled for. -/
class Host where
  order : ByteOrder

abbrev littleHost : Host := ⟨.little⟩

def bswap16 (x : UInt16) : UInt16 := (x >>> 8) ||| ((x <<< 8) &&& (0xff00 : UInt16))

def bswap32 (x : UInt32) : UInt32 :=
  (x >>> 24) ||| ((x >>> 8) &&& (0xff00 : UInt32)) ||| ((x <<< 8) &&& (0xff0000 : UInt32)) |||
    ((x <<< 24) &&& (0xff000000 : UInt32))

variable [Host]

def htobe32 (x : UInt32) : UInt32 :=
  match Host.order with
  | .little => bswap32 x
  | .big => x

def be32toh (x : UInt32) : UInt32 :=
  match Host.order with
  | .little => bswap32 x
  | .big => x

def htobe16 (x : UInt16) : UInt16 :=
  match Host.order with
  | .little => bswap16 x
  | .big => x

def be16toh (x : UInt16) : UInt16 :=
  match Host.order with
  | .little => bswap16 x
  | .big => x

def store16 (x : UInt16) : List UInt8 :=
  match Host.order with
  | .little => [x.toUInt8, (x >>> 8).toUInt8]
  | .big => [(x >>> 8).toUInt8, x.toUInt8]

def store32 (x : UInt32) : List UInt8 :=
  match Host.order with
  | .little => [x.toUInt8, (x >>> 8).toUInt8, (x >>> 16).toUInt8, (x >>> 24).toUInt8]
  | .big => [(x >>> 24).toUInt8, (x >>> 16).toUInt8, (x >>> 8).toUInt8, x.toUInt8]

def load16 (a b : UInt8) : UInt16 :=
  match Host.order with
  | .little => of16 b a
  | .big => of16 a b

def load32 (a b c d : UInt8) : UInt32 :=
  match Host.order with
  | .little => of32 d c b a
  | .big => of32 a b c d

theorem store16_htobe16 (x : UInt16) : store16 (htobe16 x) = be16 x := by
  cases h : (Host.order : ByteOrder) with
  | big => simp only [store16, htobe16, h, be16]
  | little =>
      simp only [store16, htobe16, h, be16, bswap16, List.cons.injEq, and_true]
      constructor <;> apply UInt8.toBitVec_inj.mp <;> ext i hi <;> interval_cases i <;> simp

theorem store32_htobe32 (x : UInt32) : store32 (htobe32 x) = be32 x := by
  cases h : (Host.order : ByteOrder) with
  | big => simp only [store32, htobe32, h, be32]
  | little =>
      simp only [store32, htobe32, h, be32, bswap32, List.cons.injEq, and_true]
      refine ⟨?_, ?_, ?_, ?_⟩ <;> apply UInt8.toBitVec_inj.mp <;> ext i hi <;>
        interval_cases i <;> simp

theorem be16toh_load16 (a b : UInt8) : be16toh (load16 a b) = of16 a b := by
  cases h : (Host.order : ByteOrder) with
  | big => simp only [be16toh, load16, h]
  | little =>
      simp only [be16toh, load16, h, bswap16, of16]
      apply UInt16.toBitVec_inj.mp
      ext i hi
      interval_cases i <;> simp

theorem be32toh_load32 (a b c d : UInt8) : be32toh (load32 a b c d) = of32 a b c d := by
  cases h : (Host.order : ByteOrder) with
  | big => simp only [be32toh, load32, h]
  | little =>
      simp only [be32toh, load32, h, bswap32, of32]
      apply UInt32.toBitVec_inj.mp
      ext i hi
      interval_cases i <;> simp

end LibTpm.Endian
