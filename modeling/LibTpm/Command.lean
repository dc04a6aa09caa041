import LibTpm.Constants
import LibTpm.Endian
import Mathlib.Data.List.GetD

namespace LibTpm.Command

open LibTpm.Base.BigEndian LibTpm.Constants LibTpm.Endian

/-- The packed command and response buffer: ten header bytes, then the data. -/
structure TpmCmd where
  bytes : List UInt8
  length_bytes : bytes.length = maxSizeCmdbuf
  deriving DecidableEq

attribute [simp] TpmCmd.length_bytes

namespace TpmCmd

@[ext] theorem ext {c d : TpmCmd} (h : c.bytes = d.bytes) : c = d := by
  cases c
  cases d
  cases h
  rfl

def zero : TpmCmd := ⟨List.replicate maxSizeCmdbuf 0, List.length_replicate⟩

def byte (c : TpmCmd) (i : Nat) : UInt8 := c.bytes.getD i 0

/-- Store a byte at an offset from the start of the buffer. What is behind the
buffer is not modelled: a store there is dropped, and a statement about it looks
at the objects that the accesses are handed (`Dest.Inside`). -/
def setByte (c : TpmCmd) (i : Nat) (b : UInt8) : TpmCmd :=
  ⟨c.bytes.set i b, by simp⟩

def setBytes (c : TpmCmd) (i : Nat) : List UInt8 → TpmCmd
  | [] => c
  | b :: bs => (c.setByte i b).setBytes (i + 1) bs

def header (c : TpmCmd) : List UInt8 := c.bytes.take tpmHeaderSize

theorem length_header (c : TpmCmd) : c.header.length = tpmHeaderSize := by
  rw [header, List.length_take, c.length_bytes]
  rfl

def data (c : TpmCmd) (i : Nat) : UInt8 := c.byte (tpmHeaderSize + i)

def setData (c : TpmCmd) (i : Nat) (b : UInt8) : TpmCmd := c.setByte (tpmHeaderSize + i) b

section Fields

variable [Host]

/-! The header fields as the processor reads and writes them, without the
conversion to or from the byte order of the device. -/

def tag (c : TpmCmd) : UInt16 := load16 (c.byte 0) (c.byte 1)

def cmdSize (c : TpmCmd) : UInt32 := load32 (c.byte 2) (c.byte 3) (c.byte 4) (c.byte 5)

def cmdCode (c : TpmCmd) : UInt32 := load32 (c.byte 6) (c.byte 7) (c.byte 8) (c.byte 9)

def setTag (c : TpmCmd) (x : UInt16) : TpmCmd := c.setBytes 0 (store16 x)

def setCmdSize (c : TpmCmd) (x : UInt32) : TpmCmd := c.setBytes 2 (store32 x)

def setCmdCode (c : TpmCmd) (x : UInt32) : TpmCmd := c.setBytes 6 (store32 x)

theorem be16toh_tag (c : TpmCmd) : be16toh c.tag = of16 (c.byte 0) (c.byte 1) :=
  be16toh_load16 _ _

theorem be32toh_cmdSize (c : TpmCmd) :
    be32toh c.cmdSize = of32 (c.byte 2) (c.byte 3) (c.byte 4) (c.byte 5) :=
  be32toh_load32 _ _ _ _

theorem be32toh_cmdCode (c : TpmCmd) :
    be32toh c.cmdCode = of32 (c.byte 6) (c.byte 7) (c.byte 8) (c.byte 9) :=
  be32toh_load32 _ _ _ _

/-- The bytes of a command on the wire, as many as its size field says. -/
def serialise (c : TpmCmd) : List UInt8 := c.bytes.take (be32toh c.cmdSize).toNat

end Fields

theorem byte_eq_getElem (c : TpmCmd) {i : Nat} (h : i < c.bytes.length) : c.byte i = c.bytes[i] :=
  List.getD_eq_getElem _ _ h

theorem serialise_getElem? [Host] (c : TpmCmd) {i : Nat}
    (hl : (be32toh c.cmdSize).toNat ≤ maxSizeCmdbuf) (hi : i < (be32toh c.cmdSize).toNat) :
    c.serialise[i]? = some (c.byte i) := by
  have hlt : i < c.bytes.length := by
    rw [c.length_bytes]
    omega
  rw [serialise, List.getElem?_take_of_lt hi, List.getElem?_eq_getElem hlt, c.byte_eq_getElem hlt]

@[simp] theorem bytes_setByte (c : TpmCmd) (i : Nat) (b : UInt8) :
    (c.setByte i b).bytes = c.bytes.set i b := rfl

theorem byte_setByte (c : TpmCmd) (i j : Nat) (b : UInt8) (hi : i < maxSizeCmdbuf) :
    (c.setByte i b).byte j = if j = i then b else c.byte j := by
  simp only [byte, bytes_setByte, List.getD_eq_getElem?_getD]
  by_cases h : j = i
  · subst h
    simp [hi]
  · rw [List.getElem?_set_ne (Ne.symm h), if_neg h]

theorem setByte_of_le (c : TpmCmd) (i : Nat) (b : UInt8) (hi : maxSizeCmdbuf ≤ i) :
    c.setByte i b = c :=
  ext (by simp [List.set_eq_of_length_le, hi])

theorem bytes_setBytes {c : TpmCmd} {i : Nat} {bs pre old post : List UInt8}
    (hc : c.bytes = pre ++ (old ++ post)) (hi : pre.length = i) (hl : old.length = bs.length) :
    (c.setBytes i bs).bytes = pre ++ (bs ++ post) := by
  induction bs generalizing c i pre old with
  | nil =>
      rw [List.length_eq_zero_iff.mp hl] at hc
      exact hc
  | cons b bs ih =>
      match old, hl with
      | a :: old, hl =>
          have hset : (c.setByte i b).bytes = (pre ++ [b]) ++ (old ++ post) := by
            rw [bytes_setByte, hc, ← hi]
            simp
          have h := ih hset (by rw [List.length_append, hi, List.length_singleton]) (Nat.succ.inj hl)
          rw [List.append_assoc] at h
          exact h

end TpmCmd

end LibTpm.Command
