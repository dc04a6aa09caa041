import LibTpm.Base.Replay
import LibTpm.PcrBanks
import LibTpm.Responders

namespace LibTpm.ReferenceTpm

open LibTpm.Base.BigEndian LibTpm.Base.Process LibTpm.Base.Process.Proc LibTpm.Base.Replay LibTpm.Command
open LibTpm.Constants LibTpm.Endian LibTpm.Platform LibTpm.Builder LibTpm.Request LibTpm.CommandBytes
open LibTpm.CapResponse LibTpm.PtpDevice LibTpm.PcrResponse LibTpm.PcrBanks LibTpm.TpmMachine LibTpm.Responders

/-- The hash algorithms of a TPM, by their ids. -/
structure HashAlgs where
  size : UInt16 → Nat
  hash : UInt16 → List UInt8 → List UInt8
  length_hash (algorithm : UInt16) (bs : List UInt8) : (hash algorithm bs).length = size algorithm
  size_pos (algorithm : UInt16) : 1 ≤ size algorithm
  size_le (algorithm : UInt16) : size algorithm ≤ 64

abbrev Digest (algs : HashAlgs) (algorithm : UInt16) : Type :=
  { bs : List UInt8 // bs.length = algs.size algorithm }

abbrev Pcr : Type := UInt16 × Fin 24

def extended (algs : HashAlgs) (pcr : Pcr) (old : Digest algs pcr.1) (digest : List UInt8) : Digest algs pcr.1 :=
  ⟨algs.hash pcr.1 (old.1 ++ digest), algs.length_hash _ _⟩

structure Tpm (algs : HashAlgs) where
  started : Bool
  updateCounter : UInt32
  allocated : UInt16 → Bool
  pcrs : (pcr : Pcr) → Digest algs pcr.1

variable {algs : HashAlgs}

def Tpm.banks (t : Tpm algs) : RefTpm where
  updateCounter := t.updateCounter
  banks algorithm :=
    if t.allocated algorithm then
      some ⟨algs.size algorithm, fun index => (t.pcrs (algorithm, index)).1, fun index => (t.pcrs (algorithm, index)).2,
        algs.size_pos algorithm, algs.size_le algorithm⟩
    else none

def Tpm.extend (t : Tpm algs) (pcr : Pcr) (digest : List UInt8) : Tpm algs :=
  { t with updateCounter := t.updateCounter + 1, pcrs := absorb (extended algs) t.pcrs (pcr, digest) }

def extendResponse : List UInt8 := sessionFrame []

variable (other : Unmodelled)

/-- TPM2_Startup is the first command, and comes once. An extend needs a bank
that is allocated, a digest of its size and the empty password. -/
def respond (t : Tpm algs) (request : TpmRequest) : List UInt8 × Tpm algs :=
  match t.started, request with
  | true, .startup _ => (failure tpmRcInitialize, t)
  | false, .startup _ => (frame 0x8001 0 [], { t with started := true })
  | false, _ => (failure tpmRcInitialize, t)
  | true, .pcrRead [sel] =>
      match selected sel.octets with
      | some index => (pcrResponse (t.banks.parameters sel.hashAlg index), t)
      | none => (other.reply request, t)
  | true, .pcrExtend handle auth hashAlg digest =>
      if h : handle.toNat < 24 ∧ t.allocated hashAlg ∧ digest.length = algs.size hashAlg ∧ auth.password = [] then
        (extendResponse, t.extend (hashAlg, ⟨handle.toNat, h.1⟩) digest)
      else (failure 0x84, t)
  | true, request => (other.reply request, t)

theorem wellFormed_pcrResponse (tpm : RefTpm) (algorithm : UInt16) (index : Fin 24) :
    WellFormed (pcrResponse (tpm.parameters algorithm index)) := by
  have hmax : maxSizeCmdbuf = 256 := rfl
  have hten : tpmHeaderSize = 10 := rfl
  apply wellFormed_frame
  cases hbank : tpm.banks algorithm with
  | none =>
      rw [length_parameters_none index hbank]
      decide
  | some bank =>
      have hle := bank.size_le
      rw [length_parameters_some index hbank]
      omega

theorem wellFormed_respond (t : Tpm algs) (request : TpmRequest) : WellFormed (respond other t request).1 := by
  fun_cases respond other t request with
  | case1 | case2 | case3 | case6 | case7 => exact wellFormed_frame (by decide)
  | case4 => exact wellFormed_pcrResponse _ _ _
  | case5 | case8 => exact other.wellFormed _

def responder (start : Tpm algs) : Responder (Tpm algs) where
  start := start
  respond := respond other
  wellFormed := wellFormed_respond other

def machine (start : Tpm algs) : Machine (Tpm algs) := (responder other start).machine

variable [Host] (start : Tpm algs) (chip : ChipData) (request : TpmRequest)

theorem tpmXfer_machine {builder : TpmCmdBuilder} (h : Built request.tag request.code request.body builder)
    (hfit : request.size ≤ maxSizeCmdbuf) (buf : TpmCmd) (t : Tpm algs) (resp : List UInt8) : ∃ out,
      tpmXfer (machine other start).ops chip builder.cmd buf (t, resp) =
        (some (tpmSuccess, out), (respond other t request).2, (respond other t request).1) ∧
      Carries out (respond other t request).1 :=
  Responders.tpmXfer_machine (responder other start) chip request h hfit buf t resp

end LibTpm.ReferenceTpm
