import LibTpm.CapQueries
import LibTpm.CommandCalls
import LibTpm.Responders
import Mathlib.Logic.Function.Basic

namespace LibTpm.AllocatingTpm

open LibTpm.Base.BigEndian LibTpm.Base.Paging LibTpm.Base.Process LibTpm.Base.Process.Proc LibTpm.Base.Simulation
open LibTpm.Command LibTpm.Constants LibTpm.Endian LibTpm.Platform LibTpm.Builder LibTpm.Getcap LibTpm.Commands
open LibTpm.Queries LibTpm.Request LibTpm.CommandBytes LibTpm.CommandCalls LibTpm.Traffic LibTpm.CapResponse
open LibTpm.PageRuns LibTpm.CapQueries LibTpm.TpmMachine LibTpm.Responders LibTpm.CommandSimulation

abbrev Allocation : Type := UInt16 → PcrSelect

def assign (a : Allocation) (selections : List Selection) : Allocation :=
  selections.foldl (fun a s => Function.update a s.hashAlg s.octets) a

/-- The hash algorithms of a TPM, few enough for one response, and what it has
memory for. -/
structure Banks where
  ids : List UInt16
  ascending : Ascending UInt16.toNat ids
  few : ids.length ≤ 39
  platformAuth : List UInt8
  maxPcr : UInt32
  sizeNeeded : Allocation → UInt32
  sizeAvailable : UInt32

/-- The allocation that is in force, and the one that the next reset puts into force. -/
structure Tpm where
  started : Bool
  current : Allocation
  stored : Allocation

def bankOf (a : Allocation) (id : UInt16) : PcrBank := ⟨id, (a id).toList, le_of_eq (a id).length_toList⟩

variable (banks : Banks) (other : Unmodelled)

def Banks.list (a : Allocation) : List PcrBank := banks.ids.map (bankOf a)

def allocateResponse (wanted : Allocation) : List UInt8 :=
  sessionFrame ((if banks.sizeNeeded wanted ≤ banks.sizeAvailable then 1 else 0) ::
    (be32 banks.maxPcr ++ (be32 (banks.sizeNeeded wanted) ++ be32 banks.sizeAvailable)))

/-- An allocation needs the password of the platform and banks that are there.
It is stored when there is memory for it, and replaces the one stored before. -/
def respond (t : Tpm) (request : TpmRequest) : List UInt8 × Tpm :=
  match t.started, request with
  | true, .startup _ => (failure tpmRcInitialize, t)
  | false, .startup _ => (frame 0x8001 0 [], { t with started := true })
  | false, _ => (failure tpmRcInitialize, t)
  | true, .pcrAllocate handle auth selections =>
      if handle = tpmRhPlatform ∧ auth.password = banks.platformAuth ∧ ∀ s ∈ selections, s.hashAlg ∈ banks.ids then
        let wanted := assign t.current selections
        (allocateResponse banks wanted,
          if banks.sizeNeeded wanted ≤ banks.sizeAvailable then { t with stored := wanted } else t)
      else (failure 0x9A2, t)
  | true, .getCapability cap property count =>
      if cap = tpmCapPcrs then (capResponse bankFormat.encode tpmCapPcrs false (banks.list t.current), t)
      else (other.reply (.getCapability cap property count), t)
  | true, request => (other.reply request, t)

theorem capResponse_frame {β : Type} (encode : β → List UInt8) (cap : UInt32) (more : Bool) (page : List β) :
    capResponse encode cap more page = frame 0x8001 0 ((if more then 1 else 0) ::
      (be32 cap ++ (be32 (UInt32.ofNat page.length) ++ page.flatMap encode))) := by
  have hlen : tpmHeaderSize + ((if more then (1 : UInt8) else 0) ::
      (be32 cap ++ (be32 (UInt32.ofNat page.length) ++ page.flatMap encode))).length =
        19 + (page.flatMap encode).length := by
    simp only [List.length_cons, List.length_append, be32_length, tpmHeaderSize]
    omega
  rw [frame, hlen]
  rfl

theorem length_list (a : Allocation) : ((banks.list a).flatMap bankFormat.encode).length = 6 * banks.ids.length := by
  rw [Banks.list]
  induction banks.ids with
  | nil => rfl
  | cons id ids ih =>
      have hone : (bankFormat.encode (bankOf a id)).length = 6 :=
        congrArg (fun n => n + 1 + 1 + 1) (a id).length_toList
      rw [List.map_cons, List.flatMap_cons, List.length_append, ih, hone, List.length_cons]
      omega

theorem wellFormed_list (a : Allocation) :
    WellFormed (capResponse bankFormat.encode tpmCapPcrs false (banks.list a)) := by
  have hlen := capResponse_length bankFormat.encode tpmCapPcrs false (banks.list a)
  have hfew := banks.few
  have hmax : maxSizeCmdbuf = 256 := rfl
  rw [capResponse_frame, length_frame, length_list] at hlen
  rw [capResponse_frame]
  apply wellFormed_frame
  omega

theorem wellFormed_allocate (wanted : Allocation) : WellFormed (allocateResponse banks wanted) := by
  apply wellFormed_frame
  simp only [List.length_append, List.length_cons, List.length_nil, be32_length, be16_length]
  decide

theorem wellFormed_respond (t : Tpm) (request : TpmRequest) : WellFormed (respond banks other t request).1 := by
  fun_cases respond banks other t request with
  | case1 | case2 | case3 | case5 => exact wellFormed_frame (by decide)
  | case4 => exact wellFormed_allocate banks _
  | case6 => exact wellFormed_list banks t.current
  | case7 | case8 => exact other.wellFormed _

def responder (start : Tpm) : Responder Tpm where
  start := start
  respond := respond banks other
  wellFormed := wellFormed_respond banks other

end LibTpm.AllocatingTpm
