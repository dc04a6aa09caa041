import LibTpm.CommandSimulation
import LibTpm.PageRuns
import LibTpm.PtpDevice

namespace LibTpm.TpmMachine

open LibTpm.Base.Process LibTpm.Base.Process.Proc LibTpm.Command LibTpm.Constants LibTpm.Endian
open LibTpm.Platform LibTpm.Builder LibTpm.CapFormat LibTpm.CapResponse LibTpm.DeclaredBytes LibTpm.PtpDevice

variable {σ : Type}

/-- A response with a whole header that fits the buffer and is as long as it says. -/
structure WellFormed (response : List UInt8) : Prop where
  header : tpmHeaderSize ≤ response.length
  fits : response.length ≤ maxSizeCmdbuf
  size : sizeField response = response.length

/-- A TPM as the commands see it: it executes one command at a time, and has
a response to each. -/
structure Machine (σ : Type) where
  start : σ
  step : σ → List UInt8 → List UInt8 × σ
  wellFormed (s : σ) (command : List UInt8) : WellFormed (step s command).1

namespace Machine

variable (m : Machine σ)

def after (commands : List (List UInt8)) : σ := commands.foldl (fun s command => (m.step s command).2) m.start

theorem after_concat (commands : List (List UInt8)) (command : List UInt8) :
    m.after (commands ++ [command]) = (m.step (m.after commands) command).2 := by
  rw [after, List.foldl_append]
  rfl

def stateAt (log : List Event) : σ := m.after (executions log)

/-- Every response that the device has given is the one of the machine. -/
def Genuine (log : List Event) : Prop :=
  ∀ pre command response post, log = pre ++ .responds command response :: post →
    ∃ before, executions pre = before ++ [command] ∧ response = (m.step (m.after before) command).1

variable {m}

theorem Genuine.response {past ext : List Event} {command response : List UInt8}
    (h : m.Genuine (past ++ (ext ++ [.executes command, .responds command response])))
    (hext : executions ext = []) : response = (m.step (m.stateAt past) command).1 := by
  obtain ⟨before, hbefore, hresponse⟩ := h (past ++ (ext ++ [.executes command])) command response [] (by simp)
  rw [executions_append, executions_append, hext] at hbefore
  obtain ⟨rfl, -⟩ := List.append_inj' hbefore rfl
  exact hresponse

theorem stateAt_executed {past ext tail : List Event} {command : List UInt8} (hext : executions ext = [])
    (htail : executions tail = [command]) :
    m.stateAt (past ++ (ext ++ tail)) = (m.step (m.stateAt past) command).2 := by
  rw [stateAt, executions_append, executions_append, hext, htail, List.nil_append, after_concat]
  rfl

/-- The machine behind the function pointers. Its world is its state and the
response that waits to be received. -/
def ops [Host] (m : Machine σ) : Interface (σ × List UInt8) where
  getInfo _ _ := pure tpmSuccess
  send _ cmd := fun s =>
    (some tpmSuccess, (m.step s.1 cmd.serialise).2, (m.step s.1 cmd.serialise).1)
  receive _ buf := fun s => (some (tpmSuccess, buf.setBytes 0 s.2), s)
  requestAccess chip locality := pure (tpmSuccess, { chip with locality := locality })
  releaseLocality _ _ := pure tpmSuccess

theorem tpmXfer_ops [Host] (m : Machine σ) (chip : ChipData) (cmd buf : TpmCmd) (s : σ × List UInt8) :
    tpmXfer m.ops chip cmd buf s = (some (tpmSuccess, buf.setBytes 0 (m.step s.1 cmd.serialise).1),
      (m.step s.1 cmd.serialise).2, (m.step s.1 cmd.serialise).1) := rfl

end Machine

theorem carries_setBytes {response : List UInt8} (h : response.length ≤ maxSizeCmdbuf) (buf : TpmCmd) :
    Carries (buf.setBytes 0 response) response := by
  have hlen : (buf.bytes.take response.length).length = response.length := by
    rw [List.length_take, buf.length_bytes, Nat.min_eq_left h]
  have hsplit : buf.bytes = [] ++ (buf.bytes.take response.length ++ buf.bytes.drop response.length) := by
    rw [List.nil_append, List.take_append_drop]
  exact ⟨_, (TpmCmd.bytes_setBytes hsplit rfl hlen).symm⟩

section Carried

variable [Host] {response : List UInt8} {resp resp' : TpmCmd}

theorem declared_carries (hw : WellFormed response) (h : Carries resp response) :
    (be32toh resp.cmdSize).toNat = response.length := by
  obtain ⟨rest, hbytes⟩ := h
  have hten : tpmHeaderSize = 10 := rfl
  have hheader := hw.header
  have hget : ∀ i < tpmHeaderSize, resp.byte i = response.getD i 0 := by
    intro i hi
    rw [TpmCmd.byte, ← hbytes, List.getD_append _ _ _ _ (by omega)]
  rw [TpmCmd.be32toh_cmdSize, hget 2 (by decide), hget 3 (by decide), hget 4 (by decide), hget 5 (by decide)]
  exact hw.size

theorem similar_carries (hw : WellFormed response) (h : Carries resp response) (h' : Carries resp' response) :
    Similar resp resp' := by
  have hten : tpmHeaderSize = 10 := rfl
  have hheader := hw.header
  have hdeclared := declared_carries hw h
  have hdeclared' := declared_carries hw h'
  obtain ⟨rest, hbytes⟩ := h
  obtain ⟨rest', hbytes'⟩ := h'
  constructor
  · rw [TpmCmd.header, TpmCmd.header, ← hbytes, ← hbytes', List.take_append_of_le_length hheader,
      List.take_append_of_le_length hheader]
  · have hdrop {tail : List UInt8} : ((response ++ tail).drop tpmHeaderSize).take
        (response.length - tpmHeaderSize) = response.drop tpmHeaderSize := by
      rw [List.drop_append_of_le_length hheader, ← List.length_drop, List.take_left]
    rw [payload, payload, hdeclared, hdeclared', ← hbytes, ← hbytes', hdrop, hdrop]

end Carried

end LibTpm.TpmMachine
