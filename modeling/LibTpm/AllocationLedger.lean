import LibTpm.AllocatingTpm
import LibTpm.CallOutcomes

namespace LibTpm.AllocationLedger

open LibTpm.Base.BigEndian LibTpm.Base.Process LibTpm.Base.Process.Proc LibTpm.Base.Simulation LibTpm.Base.Progress
open LibTpm.Base.Clients LibTpm.Base.Paging LibTpm.Command LibTpm.Constants LibTpm.Endian LibTpm.Platform LibTpm.Builder LibTpm.Iterator
open LibTpm.Getcap LibTpm.Commands LibTpm.Queries LibTpm.Request LibTpm.CommandBytes LibTpm.CommandCalls LibTpm.Library
open LibTpm.Traffic LibTpm.CapResponse LibTpm.PageRuns LibTpm.CapQueries LibTpm.TpmMachine LibTpm.Responders
open LibTpm.CommandSimulation LibTpm.CallOutcomes LibTpm.AllocatingTpm LibTpm.Invariance

variable {U : Type}

abbrev Result : Option (PublicCall U) → Type
  | none => Unit
  | some call => Outcome call

/-- What the user of the library writes down: the allocation in force, and the
one that has been stored for the next reset. -/
structure Ledger where
  current : Allocation
  stored : Allocation

/-- An allocation counts when the call has returned success and says so. -/
def Ledger.allocated (l : Ledger) (banks : Option (Nat → TpmPcrAllocateBank)) (o : Int × Option AllocateOut) : Ledger :=
  match banks, o.2 with
  | some banks, some out =>
      if o.1 = tpmSuccess ∧ out.success = true then
        { l with stored := assign l.current ((bankList banks).map selectionOf) }
      else l
  | _, _ => l

variable [Host] (banks : Banks) (other : Unmodelled) (start : Tpm) (stack : TpmCmd)

def ops : Interface (Tpm × List UInt8) := (responder banks other start).machine.ops

variable {banks other start stack} {chip : ChipData} {t : Tpm}

section Unchanged

theorem tpmXfer_respond {builder : TpmCmdBuilder} {request : TpmRequest} {bytes : List UInt8} {t' : Tpm}
    (h : Built request.tag request.code request.body builder) (hfit : request.size ≤ maxSizeCmdbuf)
    (hstep : respond banks other t request = (bytes, t')) (buf : TpmCmd) (resp : List UInt8) : ∃ out,
      tpmXfer (ops banks other start) chip builder.cmd buf (t, resp) = (some (tpmSuccess, out), t', bytes) ∧
        Carries out bytes := by
  have hrun := tpmXfer_machine (responder banks other start) chip request h hfit buf t resp
  have hrespond : (responder banks other start).respond t request = (bytes, t') := hstep
  rw [hrespond] at hrun
  exact hrun

theorem tpmXfer_keeps {builder : TpmCmdBuilder} {request : TpmRequest}
    (h : Built request.tag request.code request.body builder) (hfit : request.size ≤ maxSizeCmdbuf) (buf : TpmCmd)
    (hsame : ∀ t, (respond banks other t request).2 = t) :
    Keeps (fun s => s.1 = t) (tpmXfer (ops banks other start) chip builder.cmd buf) := by
  rintro ⟨_, resp⟩ rfl
  obtain ⟨out, hrun, -⟩ := tpmXfer_respond h hfit rfl buf resp
  rw [hrun]
  exact hsame _

def Reads : TpmRequest → Prop
  | .startup _ | .pcrAllocate _ _ _ => False
  | _ => True

omit [Host] in
theorem respond_reads {request : TpmRequest} (h : Reads request) (t : Tpm) : (respond banks other t request).2 = t := by
  fun_cases respond banks other t request with
  | case2 | case4 => exact h.elim
  | _ => rfl

variable (banks other start) in
theorem caps_keep (t : Tpm) (chip : ChipData) :
    CapSimulates (Kept fun s => s.1 = t) (ops banks other start) (ops banks other start) chip := by
  intro cap property count
  apply simulates_of_keeps fun _ => ⟨rfl, fun _ => ⟨rfl, rfl⟩⟩
  have hfit : (TpmRequest.getCapability cap property count).size ≤ maxSizeCmdbuf := show 22 ≤ 256 by decide
  exact tpmXfer_keeps (getcapCommand_built cap property count) hfit TpmCmd.zero (respond_reads trivial)

def Observes : PublicCall U → Prop
  | .startup _ _ | .pcrAllocateAuthPassword _ _ _ _ _ => False
  | _ => True

theorem perform_keeps {call : PublicCall U} (h : Observes call) (t : Tpm) :
    Keeps (fun s => s.1 = t) (perform stack (ops banks other start) call) := by
  have hcaps (c : ChipData) := caps_keep banks other start t c
  cases call with
  | startup | pcrAllocateAuthPassword => exact h.elim
  | interfaceInit | interfaceClose | getLastTransportError => exact keeps_pure _ _
  | pcrExtend chip index algorithm digest digestLen =>
      cases digest with
      | none => exact keeps_pure _ _
      | some digest =>
          have hbuilt := pcrExtendCommand_built index algorithm digest digestLen
          refine Keeps.guard fun hok => Keeps.bind ?_ ?_
          · exact tpmXfer_keeps hbuilt (size_of_built hbuilt hok) TpmCmd.zero (respond_reads trivial)
          · exact fun ⟨ret, out⟩ => Keeps.unless (Keeps.unless (keeps_pure _ _))
  | pcrReadSingle chip index algorithm buf =>
      refine Keeps.guard fun hindex => ?_
      cases buf with
      | none => exact keeps_pure _ _
      | some buf =>
          have hbuilt := pcrReadCommand_built (UInt32.not_le.mp hindex) algorithm
          refine Keeps.guard fun hok => Keeps.bind ?_ ?_
          · exact tpmXfer_keeps hbuilt (size_of_built hbuilt hok) stack (respond_reads trivial)
          · rintro ⟨ret, out⟩
            refine Keeps.unless (Keeps.unless (Keeps.unless ?_))
            exact Keeps.unless (Keeps.unless (keeps_pure _ _))
  | getcapQueryAlgs chip query => exact simulates_kept.mp (tpmGetcapQueryAlgs_simulates (fun c _ => hcaps c) query)
  | getcapQueryPcrs chip query => exact simulates_kept.mp (tpmGetcapQueryPcrs_simulates (fun c _ => hcaps c) query)
  | hasAlg chip algId out => exact simulates_kept.mp (tpmHasAlg_simulates (fun c _ => hcaps c) algId out)
  | getAlgProps chip algId out => exact simulates_kept.mp (tpmGetAlgProps_simulates (fun c _ => hcaps c) algId out)
  | forEachAlgProps _ chip mustSet mustClear cb ctx =>
      exact simulates_kept.mp (tpmForEachAlgProps_simulates (fun c _ => hcaps c) mustSet mustClear cb ctx)
  | forEachPcrBank _ chip cb ctx =>
      exact simulates_kept.mp (tpmForEachPcrBank_simulates (fun c _ => hcaps c) cb ctx)

end Unchanged

section Allocate

end Allocate

section Reports

variable (banks other) in
def answer (t : Tpm) (request : TpmRequest) : List UInt8 := (respond banks other t request).1

variable {query : List TpmPcrBankQuery}

end Reports

section Ledgers

variable {α : Type}

end Ledgers

section Example

def allPcrs : PcrSelect := Vector.replicate tpmPcrSelectSize.toNat 0xFF

def resetTpm : Tpm where
  started := false
  current := Function.update (fun _ => noOctets) 0x0004 allPcrs
  stored := Function.update (fun _ => noOctets) 0x0004 allPcrs

end Example

end LibTpm.AllocationLedger
