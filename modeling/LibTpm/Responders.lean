import LibTpm.PcrResponse
import LibTpm.TpmMachine

namespace LibTpm.Responders

open LibTpm.Base.BigEndian LibTpm.Base.Process LibTpm.Base.Process.Proc LibTpm.Command LibTpm.Constants LibTpm.Endian
open LibTpm.Platform LibTpm.Builder LibTpm.Commands LibTpm.Request LibTpm.CommandBytes LibTpm.CapResponse LibTpm.PtpDevice
open LibTpm.TpmMachine

variable {τ : Type}

/-! The responses. -/

def frame (tag : UInt16) (code : UInt32) (parameters : List UInt8) : List UInt8 :=
  be16 tag ++ (be32 (UInt32.ofNat (tpmHeaderSize + parameters.length)) ++ (be32 code ++ parameters))

def failure (code : UInt32) : List UInt8 := frame 0x8001 code []

def sessionFrame (parameters : List UInt8) : List UInt8 :=
  frame 0x8002 0 (be32 (UInt32.ofNat parameters.length) ++ (parameters ++ (be16 0 ++ ([1] ++ be16 0))))

theorem length_frame (tag : UInt16) (code : UInt32) (parameters : List UInt8) :
    (frame tag code parameters).length = tpmHeaderSize + parameters.length := by
  simp only [frame, List.length_append, be16_length, be32_length, tpmHeaderSize]
  omega

theorem wellFormed_frame {tag : UInt16} {code : UInt32} {parameters : List UInt8}
    (h : tpmHeaderSize + parameters.length ≤ maxSizeCmdbuf) : WellFormed (frame tag code parameters) := by
  refine ⟨?_, ?_, ?_⟩
  · rw [length_frame]
    exact Nat.le_add_right _ _
  · rw [length_frame]
    exact h
  · have hlt : tpmHeaderSize + parameters.length < 2 ^ 32 := Nat.lt_of_le_of_lt h (by decide)
    rw [length_frame, ← UInt32.toNat_ofNat_of_lt' hlt]
    exact congrArg UInt32.toNat (of32_be32 _)

structure Responder (τ : Type) where
  start : τ
  respond : τ → TpmRequest → List UInt8 × τ
  wellFormed (t : τ) (request : TpmRequest) : WellFormed (respond t request).1

/-- The TPM as a machine on the bytes of commands. Bytes that are no request
change nothing. -/
def Responder.machine (r : Responder τ) : Machine τ where
  start := r.start
  step t bytes :=
    match parseRequest bytes with
    | some request => r.respond t request
    | none => (failure 0x142, t)
  wellFormed t bytes := by
    cases parseRequest bytes with
    | some request => exact r.wellFormed t request
    | none => exact wellFormed_frame (by decide)

structure Unmodelled where
  reply : TpmRequest → List UInt8
  wellFormed (request : TpmRequest) : WellFormed (reply request)

def refusing : Unmodelled where
  reply _ := failure 0x143
  wellFormed _ := wellFormed_frame (by decide)

variable [Host] (r : Responder τ) (chip : ChipData) (request : TpmRequest)

theorem size_of_built {request : TpmRequest} {builder : TpmCmdBuilder}
    (h : Built request.tag request.code request.body builder) (hok : ¬ tpmBuilderFinalize builder < 0) :
    request.size ≤ maxSizeCmdbuf := by
  have hfinish := h.finish
  by_contra hlong
  rw [if_neg hlong] at hfinish
  rw [hfinish] at hok
  exact hok (by decide)

theorem tpmXfer_machine {builder : TpmCmdBuilder} (h : Built request.tag request.code request.body builder)
    (hfit : request.size ≤ maxSizeCmdbuf) (buf : TpmCmd) (t : τ) (resp : List UInt8) : ∃ out,
      tpmXfer r.machine.ops chip builder.cmd buf (t, resp) =
        (some (tpmSuccess, out), (r.respond t request).2, (r.respond t request).1) ∧
      Carries out (r.respond t request).1 := by
  have hfinish := h.finish
  rw [if_pos hfit] at hfinish
  have hparse : parseRequest builder.cmd.serialise = some request := by
    rw [hfinish.2]
    exact parseRequest_encode (Nat.lt_of_le_of_lt hfit (by decide))
  have hstep : r.machine.step t builder.cmd.serialise = r.respond t request := by
    simp only [Responder.machine, hparse]
  rw [Machine.tpmXfer_ops, hstep]
  exact ⟨_, rfl, carries_setBytes (r.wellFormed t request).fits buf⟩

theorem code_frame {tag : UInt16} {code : UInt32} {parameters : List UInt8} {out : TpmCmd}
    (h : Carries out (frame tag code parameters)) : be32toh out.cmdCode = code := (Carries.header h).2.2

theorem tpmStartup_machine {mode : UInt16} {code : UInt32} {t t' : τ}
    (h : r.respond t (.startup mode) = (frame 0x8001 code [], t')) (resp : List UInt8) : ∃ resp',
      tpmStartup r.machine.ops chip mode (t, resp) =
        (some (if code = tpmRcInitialize then tpmErrAlreadyInit
          else if code ≠ tpmResponseSuccess then tpmErrResponse else tpmSuccess), t', resp') := by
  have hbuilt := startupCommand_built mode
  have hfit : (TpmRequest.startup mode).size ≤ maxSizeCmdbuf := show 12 ≤ 256 by decide
  have hfinish := hbuilt.finish
  rw [if_pos hfit] at hfinish
  obtain ⟨out, hrun, hcarries⟩ := tpmXfer_machine r chip (.startup mode) hbuilt hfit TpmCmd.zero t resp
  rw [h] at hrun hcarries
  rw [tpmStartup]
  dsimp only
  rw [hfinish.1, if_neg (by decide), bind_some hrun]
  dsimp only
  rw [if_neg (by decide), code_frame hcarries]
  refine ⟨frame 0x8001 code [], ?_⟩
  split_ifs <;> rfl

end LibTpm.Responders
