import LibTpm.CapFormat
import LibTpm.Commands
import LibTpm.Traffic

namespace LibTpm.CallOutputs

open LibTpm.Base.BigEndian LibTpm.Base.Process LibTpm.Base.Process.Proc LibTpm.Command LibTpm.Constants
open LibTpm.Endian LibTpm.Platform LibTpm.Builder LibTpm.Iterator LibTpm.Getcap LibTpm.Commands LibTpm.Queries
open LibTpm.CapFormat LibTpm.Traffic

variable {W : Type}

theorem tpmXfer_receives (interface : Interface W) (chip : ChipData) (cmd buf : TpmCmd) (s : W × List Message) :
    Meets (tpmXfer (logged interface) chip cmd buf) s
      (fun r s' => 0 ≤ r.1 → (receivedBuffers s'.2).getLast? = some r.2) (fun _ => True) := by
  rw [tpmXfer, meets_bind, logged_send, meets_observe]
  apply Meets.of_forall _ fun _ => trivial
  intro ret w'
  by_cases hret : ret < 0
  · rw [if_pos hret]
    exact fun h => absurd h (not_le.mpr hret)
  rw [if_neg hret, meets_bind, logged_receive, meets_observe]
  apply Meets.of_forall _ fun _ => trivial
  rintro ⟨ret', buf'⟩ w''
  dsimp only
  by_cases hret' : ret' < 0
  · rw [if_pos hret']
    exact fun h => absurd h (not_le.mpr hret')
  · rw [if_neg hret']
    intro _
    change (receivedBuffers (_ ++ [.received buf'])).getLast? = some buf'
    rw [receivedBuffers_append]
    exact List.getLast?_concat

section Allocate

variable [Host]

/-- The fields of a response to the allocation: parameterSize, and the four
results after it. -/
def AllocateFields (resp : TpmCmd) (out : AllocateOut) : Prop :=
  ∃ parameterSize allocationSuccess rest, out.success = decide (allocationSuccess ≠ 0) ∧
    resp.bytes.drop tpmHeaderSize = be32 parameterSize ++ (allocationSuccess ::
      (be32 out.maxPcr ++ (be32 out.sizeNeeded ++ (be32 out.sizeAvailable ++ rest))))

omit [Host] in
theorem exists_allocateFields (resp : TpmCmd) :
    ∃ parameterSize allocationSuccess maxPcr sizeNeeded sizeAvailable rest,
    resp.bytes.drop tpmHeaderSize = be32 parameterSize ++ (allocationSuccess ::
      (be32 maxPcr ++ (be32 sizeNeeded ++ (be32 sizeAvailable ++ rest)))) := by
  have hlen : (resp.bytes.drop tpmHeaderSize).length = 246 := by
    rw [List.length_drop, resp.length_bytes]
    rfl
  obtain ⟨parameterSize, r1, h1⟩ := exists_be32 (resp.bytes.drop tpmHeaderSize) (by omega)
  rw [h1, List.length_append, be32_length] at hlen
  obtain ⟨allocationSuccess, r2, rfl⟩ := List.exists_cons_of_length_pos (show 0 < r1.length by omega)
  rw [List.length_cons] at hlen
  obtain ⟨maxPcr, r3, rfl⟩ := exists_be32 r2 (by omega)
  rw [List.length_append, be32_length] at hlen
  obtain ⟨sizeNeeded, r4, rfl⟩ := exists_be32 r3 (by omega)
  rw [List.length_append, be32_length] at hlen
  obtain ⟨sizeAvailable, rest, rfl⟩ := exists_be32 r4 (by omega)
  exact ⟨_, _, _, _, _, _, h1⟩

theorem tpmPcrAllocateAuthPassword_delivers (interface : Interface W) (chip : Option ChipData)
    (password : Option (Nat → UInt8)) (passwordLen : UInt16) (banks : Option (Nat → TpmPcrAllocateBank))
    (out : Option AllocateOut) (s : W × List Message) :
    Meets (tpmPcrAllocateAuthPassword (logged interface) chip password passwordLen banks out) s
      (fun r s' => r.1 ≠ tpmSuccess ∧ r.2 = out ∨ r.1 = tpmSuccess ∧ ∃ resp fields,
        (receivedBuffers s'.2).getLast? = some resp ∧ AllocateFields resp fields ∧ r.2 = some fields)
      (fun _ => True) := by
  have hinvalid : tpmInvalidParam ≠ tpmSuccess := by decide
  have hresponse : tpmErrResponse ≠ tpmSuccess := by decide
  have hnegative {ret : Int} (h : ret < 0) : ret ≠ tpmSuccess := by
    rintro rfl
    exact absurd h (by decide)
  have hfail {ret : Int} {s' : W × List Message} (h : ret ≠ tpmSuccess) : ret ≠ tpmSuccess ∧ out = out ∨
      ret = tpmSuccess ∧ ∃ resp fields, (receivedBuffers s'.2).getLast? = some resp ∧
        AllocateFields resp fields ∧ out = some fields := .inl ⟨h, rfl⟩
  rcases chip with _ | chip
  · exact hfail hinvalid
  rcases banks with _ | banks
  · exact hfail hinvalid
  rcases out with _ | old
  · exact hfail hinvalid
  rw [tpmPcrAllocateAuthPassword]
  dsimp only
  rw [meets_ite]
  refine ⟨fun _ => hfail hinvalid, fun _ => ?_⟩
  rw [meets_ite]
  refine ⟨fun _ => hfail hinvalid, fun _ => ?_⟩
  rw [meets_ite]
  refine ⟨fun _ => hfail hinvalid, fun _ => ?_⟩
  rw [meets_ite]
  refine ⟨fun hbuilt => hfail (hnegative hbuilt), fun _ => ?_⟩
  rw [meets_bind]
  apply (tpmXfer_receives interface chip _ TpmCmd.zero s).imp
  rintro ⟨ret, resp⟩ s' hlast
  obtain ⟨parameterSize, allocationSuccess, maxPcr, sizeNeeded, sizeAvailable, rest, hdata⟩ :=
    exists_allocateFields resp
  dsimp only at hlast ⊢
  rw [meets_ite]
  refine ⟨fun hret => hfail (hnegative hret), fun hret => ?_⟩
  rw [meets_ite]
  refine ⟨fun _ => hfail hresponse, fun _ => ?_⟩
  rw [meets_ite]
  refine ⟨fun _ => hfail hresponse, fun _ => ?_⟩
  rw [meets_ite]
  refine ⟨fun _ => hfail hresponse, fun hsize => ?_⟩
  have hfields : AllocateFields resp ⟨allocationSuccess ≠ 0, maxPcr, sizeNeeded, sizeAvailable⟩ :=
    ⟨parameterSize, allocationSuccess, rest, rfl, hdata⟩
  rw [not_or, not_lt, not_lt] at hsize
  have hten : tpmHeaderSize = 10 := rfl
  have hskip := iterReadU32Be_be32 (n := (be32toh resp.cmdSize).toNat - tpmHeaderSize)
    (allocationSuccess :: (be32 maxPcr ++ (be32 sizeNeeded ++ (be32 sizeAvailable ++ rest)))) parameterSize
    (by omega) 0
  rw [← hdata] at hskip
  simp (disch := omega) only [hskip, iterReadU8_cons, iterReadU32Be_be32, ne_eq, not_true_eq_false,
    if_false, meets_pure]
  exact .inr ⟨trivial, resp, _, hlast (not_lt.mp hret), hfields, rfl⟩

end Allocate

section Others

variable [Host]

theorem tpmHasAlg_delivers (interface : Interface W) (stack : TpmCmd) (chip : Option ChipData) (algId : UInt16)
    (outSupported : Option Bool) (w : W) :
    Meets (tpmHasAlg interface stack chip algId outSupported) w
      (fun r _ => r.1 ≠ tpmSuccess → r.2 = outSupported) (fun _ => True) := by
  rw [tpmHasAlg]
  split
  · exact fun _ => rfl
  rw [meets_bind]
  apply Meets.of_forall _ fun _ => trivial
  rintro ⟨ret, item⟩ w'
  dsimp only
  split
  · exact fun _ => rfl
  · exact fun h => absurd rfl h

theorem tpmGetAlgProps_delivers (interface : Interface W) (stack : TpmCmd) (chip : Option ChipData) (algId : UInt16)
    (out : Option AlgPropsOut) (w : W) :
    Meets (tpmGetAlgProps interface stack chip algId out) w
      (fun r _ => r.1 ≠ tpmSuccess → r.2 = out ∨ r.2 = some ⟨false, 0⟩) (fun _ => True) := by
  rw [tpmGetAlgProps]
  split
  · exact fun _ => .inl rfl
  rw [meets_bind]
  apply Meets.of_forall _ fun _ => trivial
  rintro ⟨ret, resp, more⟩ w'
  dsimp only
  split
  · exact fun _ => .inl rfl
  split
  · exact fun _ => .inr rfl
  split
  · exact fun _ => .inr rfl
  split <;> exact fun h => absurd rfl h

/-- The buffer after a PCR read that fails. -/
def Withheld (index : UInt32) (pcrDigestRead out : Option (List UInt8)) : Prop :=
  (index ≥ 24 ∨ pcrDigestRead = none) ∧ out = pcrDigestRead ∨
    ∃ buf, pcrDigestRead = some buf ∧ out = some (List.replicate buf.length 0)

theorem tpmPcrReadSingle_delivers (interface : Interface W) (stack : TpmCmd) (chip : ChipData) (index : UInt32)
    (algorithm : UInt16) (pcrDigestRead : Option (List UInt8)) (w : W) :
    Meets (tpmPcrReadSingle interface stack chip index algorithm pcrDigestRead) w
      (fun r _ => r.1 ≠ tpmSuccess → Withheld index pcrDigestRead r.2) (fun _ => True) := by
  cases pcrDigestRead with
  | none =>
      rw [tpmPcrReadSingle]
      split <;> exact fun _ => .inl ⟨.inr rfl, rfl⟩
      exact fun _ h => nomatch h
  | some buf =>
      have hzero (ret : Int) (w' : W) : Meets (pure (ret, some (List.replicate buf.length 0)) : Proc W _) w'
          (fun r _ => r.1 ≠ tpmSuccess → Withheld index (some buf) r.2) (fun _ => True) :=
        fun _ => .inr ⟨buf, rfl, rfl⟩
      rw [tpmPcrReadSingle]
      rw [meets_ite]
      refine ⟨fun hindex _ => .inl ⟨.inl hindex, rfl⟩, fun _ => ?_⟩
      dsimp only
      rw [meets_ite]
      refine ⟨fun _ => hzero _ _, fun _ => ?_⟩
      rw [meets_bind]
      apply Meets.of_forall _ fun _ => trivial
      rintro ⟨ret, resp⟩ w'
      dsimp only
      rw [meets_ite]
      refine ⟨fun _ => hzero _ _, fun _ => ?_⟩
      rw [meets_ite]
      refine ⟨fun _ => hzero _ _, fun _ => ?_⟩
      rw [meets_ite]
      refine ⟨fun _ => hzero _ _, fun _ => ?_⟩
      rw [meets_ite]
      refine ⟨fun _ => hzero _ _, fun _ => ?_⟩
      rw [meets_ite]
      refine ⟨fun _ => hzero _ _, fun _ => ?_⟩
      exact fun h => absurd rfl h

/-- What the four calls leave in the memory of their callers, for any
interface; the first one over a log of what it receives. -/
theorem calls_deliver (interface : Interface W) (stack : TpmCmd) (w : W) :
    (∀ chip password passwordLen banks out (log : List Message),
      Meets (tpmPcrAllocateAuthPassword (logged interface) chip password passwordLen banks out) (w, log)
        (fun r s => r.1 ≠ tpmSuccess ∧ r.2 = out ∨ r.1 = tpmSuccess ∧ ∃ resp fields,
          (receivedBuffers s.2).getLast? = some resp ∧ AllocateFields resp fields ∧ r.2 = some fields)
        (fun _ => True)) ∧
    (∀ chip algId outSupported, Meets (tpmHasAlg interface stack chip algId outSupported) w
      (fun r _ => r.1 ≠ tpmSuccess → r.2 = outSupported) (fun _ => True)) ∧
    (∀ chip algId out, Meets (tpmGetAlgProps interface stack chip algId out) w
      (fun r _ => r.1 ≠ tpmSuccess → r.2 = out ∨ r.2 = some ⟨false, 0⟩) (fun _ => True)) ∧
    (∀ chip index algorithm pcrDigestRead,
      Meets (tpmPcrReadSingle interface stack chip index algorithm pcrDigestRead) w
        (fun r _ => r.1 ≠ tpmSuccess → Withheld index pcrDigestRead r.2) (fun _ => True)) :=
  ⟨fun chip password passwordLen banks out log =>
      tpmPcrAllocateAuthPassword_delivers interface chip password passwordLen banks out (w, log),
    fun chip algId out => tpmHasAlg_delivers interface stack chip algId out w,
    fun chip algId out => tpmGetAlgProps_delivers interface stack chip algId out w,
    fun chip index algorithm buf => tpmPcrReadSingle_delivers interface stack chip index algorithm buf w⟩

end Others

end LibTpm.CallOutputs
