import LibTpm.PageRuns

namespace LibTpm.PcrResponse

open LibTpm.Base.BigEndian LibTpm.Base.Process LibTpm.Base.Process.Proc LibTpm.Command LibTpm.Constants
open LibTpm.Endian LibTpm.Platform LibTpm.Builder LibTpm.Commands LibTpm.CommandBytes LibTpm.Request
open LibTpm.PageRuns

/-- The fields of a response to TPM2_PCR_Read with one bank and one digest,
up to the digest. -/
structure PcrReadFields where
  updateCounter : UInt32
  selectionCount : UInt32
  hash : UInt16
  sizeofSelect : UInt8
  octets : Vector UInt8 3
  digestCount : UInt32
  digestSize : UInt16
  deriving DecidableEq

def fieldsOf (resp : TpmCmd) : PcrReadFields where
  updateCounter := of32 (resp.data 0) (resp.data 1) (resp.data 2) (resp.data 3)
  selectionCount := of32 (resp.data 4) (resp.data 5) (resp.data 6) (resp.data 7)
  hash := of16 (resp.data 8) (resp.data 9)
  sizeofSelect := resp.data 10
  octets := #v[resp.data 11, resp.data 12, resp.data 13]
  digestCount := of32 (resp.data 14) (resp.data 15) (resp.data 16) (resp.data 17)
  digestSize := of16 (resp.data 18) (resp.data 19)

def digestSize (resp : TpmCmd) : Nat := (fieldsOf resp).digestSize.toNat

def digestBytes (resp : TpmCmd) (n : Nat) : List UInt8 :=
  ((List.range maxDigestSize).map fun i => resp.data (pcrSingleReadResDigest + i)).take n

/-- The fields name the bank and the PCR that were asked for, and one digest
that is not empty. -/
def Names (index : UInt32) (algorithm : UInt16) (resp : TpmCmd) : Prop :=
  (fieldsOf resp).selectionCount = 1 ∧ (fieldsOf resp).hash = algorithm ∧ (fieldsOf resp).sizeofSelect = 3 ∧
    (fieldsOf resp).octets = pcrOctets index.toNat ∧ (fieldsOf resp).digestCount = 1 ∧ 0 < digestSize resp

instance (index : UInt32) (algorithm : UInt16) (resp : TpmCmd) : Decidable (Names index algorithm resp) :=
  inferInstanceAs (Decidable (_ ∧ _))

def pcrResponse (parameters : List UInt8) : List UInt8 :=
  be16 0x8001 ++ (be32 (UInt32.ofNat (tpmHeaderSize + parameters.length)) ++ (be32 0 ++ parameters))

section Read

variable [Host] {W : Type}

def declaredSize (resp : TpmCmd) : Nat := (be32toh resp.cmdSize).toNat

/-- The response code is zero, and the declared size, the size of the digest
and the size `m` of the caller's buffer fit each other. -/
def WellSized (m : Nat) (resp : TpmCmd) : Prop :=
  be32toh resp.cmdCode = tpmResponseSuccess ∧
    tpmHeaderSize + pcrSingleReadResDigest ≤ declaredSize resp ∧
    declaredSize resp ≤ tpmHeaderSize + pcrSingleReadResSize ∧
    digestSize resp ≤ maxDigestSize ∧ digestSize resp ≤ m ∧
    tpmHeaderSize + pcrSingleReadResDigest + digestSize resp ≤ declaredSize resp

instance (m : Nat) (resp : TpmCmd) : Decidable (WellSized m resp) := inferInstanceAs (Decidable (_ ∧ _))

/-- The response carries the PCR that was asked for, inside its declared size. -/
def CarriesPcr (index : UInt32) (algorithm : UInt16) (resp : TpmCmd) : Prop :=
  Names index algorithm resp ∧
    tpmHeaderSize + pcrSingleReadResDigest + digestSize resp ≤ declaredSize resp ∧ declaredSize resp ≤ maxSizeCmdbuf

instance (index : UInt32) (algorithm : UInt16) (resp : TpmCmd) : Decidable (CarriesPcr index algorithm resp) :=
  inferInstanceAs (Decidable (_ ∧ _))

def verdict (m : Nat) (resp : TpmCmd) : TpmRetValue :=
  if be32toh resp.cmdCode ≠ tpmResponseSuccess then .errResponse
  else if ¬ (tpmHeaderSize + pcrSingleReadResDigest ≤ declaredSize resp ∧
      declaredSize resp ≤ tpmHeaderSize + pcrSingleReadResSize) then .errResponse
  else if digestSize resp > maxDigestSize ∨ digestSize resp > m then .invalidParam
  else if tpmHeaderSize + pcrSingleReadResDigest + digestSize resp > declaredSize resp then .errResponse
  else .success

theorem verdict_success {m : Nat} {resp : TpmCmd} : verdict m resp = .success ↔ WellSized m resp := by
  unfold verdict WellSized
  grind

omit [Host] in
theorem dataSize_eq (size : UInt32) :
    (size - UInt32.ofNat tpmHeaderSize).toNat = if tpmHeaderSize ≤ size.toNat then size.toNat - tpmHeaderSize
      else 2 ^ 32 + size.toNat - tpmHeaderSize := by
  have hsize := size.toNat_lt
  have hten : (UInt32.ofNat tpmHeaderSize).toNat = tpmHeaderSize := rfl
  have h10 : tpmHeaderSize = 10 := rfl
  rw [UInt32.toNat_sub, hten]
  split <;> omega

/-- The read's view of the sizes: `dataSize` is the size of the data area, in
32 bits, and the struct is copied from there. -/
theorem sizes_iff (resp : TpmCmd) :
    ¬ ((be32toh resp.cmdSize - UInt32.ofNat tpmHeaderSize).toNat > pcrSingleReadResSize ∨
      (be32toh resp.cmdSize - UInt32.ofNat tpmHeaderSize).toNat < pcrSingleReadResDigest) ↔
    tpmHeaderSize + pcrSingleReadResDigest ≤ declaredSize resp ∧
      declaredSize resp ≤ tpmHeaderSize + pcrSingleReadResSize := by
  have hsize := (be32toh resp.cmdSize).toNat_lt
  have h10 : tpmHeaderSize = 10 := rfl
  have h20 : pcrSingleReadResDigest = 20 := rfl
  have h68 : pcrSingleReadResSize = 68 := rfl
  rw [dataSize_eq, declaredSize]
  split <;> omega

def contents (m : Nat) (resp : TpmCmd) : List UInt8 :=
  if verdict m resp = .success then
    digestBytes resp (digestSize resp) ++ List.replicate (m - digestSize resp) 0
  else List.replicate m 0

def outcome (m : Nat) (r : Int × TpmCmd) : Int × Option (List UInt8) :=
  if r.1 < 0 then (r.1, some (List.replicate m 0)) else ((verdict m r.2).code, some (contents m r.2))

theorem outcome_success (m : Nat) (resp : TpmCmd) :
    outcome m (tpmSuccess, resp) = ((verdict m resp).code, some (contents m resp)) := rfl

theorem pcrReadCommand_ok {index : UInt32} (h : index < 24) (algorithm : UInt16) :
    tpmBuilderFinalize (pcrReadCommand index algorithm) = tpmSuccess ∧
      (pcrReadCommand index algorithm).cmd.serialise =
        (TpmRequest.pcrRead [⟨algorithm, pcrOctets index.toNat⟩]).encode := by
  have hfits : (TpmRequest.pcrRead [⟨algorithm, pcrOctets index.toNat⟩]).size ≤ maxSizeCmdbuf := by
    rw [TpmRequest.size, TpmRequest.body, length_encodeSelections, List.length_singleton]
    decide
  have hbuilt := (pcrReadCommand_built h algorithm).finish
  rwa [if_pos hfits] at hbuilt

/-- The read is its exchange, and then a function of the response. -/
theorem tpmPcrReadSingle_eq (interface : Interface W) (stack : TpmCmd) (chip : ChipData) {index : UInt32}
    (h : index < 24) (algorithm : UInt16) (buf : List UInt8) :
    tpmPcrReadSingle interface stack chip index algorithm (some buf) =
      (do return outcome buf.length (← tpmXfer interface chip (pcrReadCommand index algorithm).cmd stack)) := by
  have hle : ¬ index ≥ tpmPcrSelectSize.toUInt32 * 8 := UInt32.not_le.mpr h
  have hbuilt : ¬ tpmBuilderFinalize (pcrReadCommand index algorithm) < 0 := by
    rw [(pcrReadCommand_ok h algorithm).1]
    decide
  rw [tpmPcrReadSingle, if_neg hle]
  dsimp only
  rw [if_neg hbuilt]
  congr 1
  funext r
  obtain ⟨ret, resp⟩ := r
  dsimp only
  rw [outcome]
  by_cases hret : ret < 0
  · rw [if_pos hret, if_pos hret]
  rw [if_neg hret, if_neg hret, contents, verdict]
  have hdigest : be16toh (load16 (resp.data 18) (resp.data 19)) = (fieldsOf resp).digestSize :=
    be16toh_load16 _ _
  have hsizes := sizes_iff resp
  dsimp only
  rw [hdigest, ← digestSize]
  by_cases hcode : be32toh resp.cmdCode ≠ tpmResponseSuccess
  · simp only [if_pos hcode, reduceCtorEq, if_false]
  rw [if_neg hcode, if_neg hcode]
  by_cases hsize : (be32toh resp.cmdSize - UInt32.ofNat tpmHeaderSize).toNat > pcrSingleReadResSize ∨
      (be32toh resp.cmdSize - UInt32.ofNat tpmHeaderSize).toNat < pcrSingleReadResDigest
  · have hdeclared := mt hsizes.mpr (not_not.mpr hsize)
    rw [if_pos hsize]
    simp only [if_pos hdeclared, reduceCtorEq, if_false]
  have hdeclared := hsizes.mp hsize
  rw [if_neg hsize, if_neg (not_not.mpr hdeclared)]
  by_cases hspace : digestSize resp > maxDigestSize ∨ digestSize resp > buf.length
  · rw [if_pos hspace]
    simp only [if_pos hspace, reduceCtorEq, if_false]
  rw [if_neg hspace, if_neg hspace, dataSize_eq]
  have hten : tpmHeaderSize ≤ (be32toh resp.cmdSize).toNat := le_trans (Nat.le_add_right _ _) hdeclared.1
  rw [if_pos hten]
  by_cases hinside : tpmHeaderSize + pcrSingleReadResDigest + digestSize resp > declaredSize resp
  · have hshort : pcrSingleReadResDigest + digestSize resp > (be32toh resp.cmdSize).toNat - tpmHeaderSize := by
      rw [declaredSize] at hinside
      omega
    rw [if_pos hshort]
    simp only [if_pos hinside, reduceCtorEq, if_false]
  · have hfits : ¬ pcrSingleReadResDigest + digestSize resp > (be32toh resp.cmdSize).toNat - tpmHeaderSize := by
      rw [declaredSize] at hinside
      omega
    rw [if_neg hfits]
    simp only [if_neg hinside, if_true, digestBytes, List.drop_replicate]

/-- The exchange of the read succeeds and leaves `resp` in its buffer. -/
def Receives (interface : Interface W) (stack : TpmCmd) (chip : ChipData) (index : UInt32) (algorithm : UInt16)
    (w : W) (resp : TpmCmd) : Prop :=
  ∃ ret w', tpmXfer interface chip (pcrReadCommand index algorithm).cmd stack w = (some (ret, resp), w') ∧ 0 ≤ ret

/-- A read that succeeds has received the PCR that was asked for if and only
if every well-sized response names it: the sizes are all that the read checks. -/
theorem success_carries_iff (interface : Interface W) (stack : TpmCmd) (chip : ChipData) {index : UInt32}
    (h : index < 24) (algorithm : UInt16) (buf : List UInt8) (w : W) :
    (∀ out w', tpmPcrReadSingle interface stack chip index algorithm (some buf) w = (some (tpmSuccess, out), w') →
      ∃ resp, Receives interface stack chip index algorithm w resp ∧ CarriesPcr index algorithm resp) ↔
    ∀ resp, Receives interface stack chip index algorithm w resp → WellSized buf.length resp →
      Names index algorithm resp := by
  rw [tpmPcrReadSingle_eq interface stack chip h]
  rcases hx : tpmXfer interface chip (pcrReadCommand index algorithm).cmd stack w with ⟨_ | ⟨ret, resp⟩, w'⟩
  · rw [bind_none hx]
    refine ⟨?_, fun _ out w'' hrun => by cases hrun⟩
    rintro - resp ⟨ret, w'', hx', -⟩
    rw [hx] at hx'
    cases hx'
  rw [bind_some hx]
  have hone {resp' : TpmCmd} (hd : Receives interface stack chip index algorithm w resp') :
      resp' = resp ∧ 0 ≤ ret := by
    obtain ⟨ret', w'', hx', hret⟩ := hd
    rw [hx] at hx'
    cases hx'
    exact ⟨rfl, hret⟩
  constructor
  · intro hall resp' hd hsized
    obtain ⟨rfl, hret⟩ := hone hd
    have hverdict := verdict_success.mpr hsized
    obtain ⟨resp'', hd', hcarries⟩ := hall _ w' (by
      rw [pure_run, outcome, if_neg (not_lt.mpr hret)]
      dsimp only
      rw [hverdict])
    rw [(hone hd').1] at hcarries
    exact hcarries.1
  · intro hall out w'' hrun
    rw [pure_run, outcome] at hrun
    by_cases hret : ret < 0
    · rw [if_pos hret] at hrun
      cases hrun
      exact absurd hret (by decide)
    · rw [if_neg hret] at hrun
      have hcode : (verdict buf.length resp).code = tpmSuccess := by
        injection hrun with hrun
        injection hrun with hrun
        exact congrArg Prod.fst hrun
      have hsized := verdict_success.mp (code_injective hcode)
      have hd : Receives interface stack chip index algorithm w resp := ⟨ret, w', hx, not_lt.mp hret⟩
      have hnames := hall resp hd hsized
      obtain ⟨-, -, hle, -, -, hinside⟩ := hsized
      have hmax : tpmHeaderSize + pcrSingleReadResSize ≤ maxSizeCmdbuf := by decide
      exact ⟨resp, hd, hnames, hinside, le_trans hle hmax⟩

end Read

def sha1Response : List UInt8 :=
  pcrResponse (be32 1 ++ (encodeSelections [⟨0x0004, pcrOctets 7⟩] ++ (be32 1 ++ encodeSized (List.replicate 20 0xA5))))

theorem success_carries_iff_sha1 :
    letI := littleHost
    (∀ out w', tpmPcrReadSingle (replying fun _ => sha1Response) TpmCmd.zero tpmChipData 7 0x0004
        (some (List.replicate 32 0)) [] = (some (tpmSuccess, out), w') →
      ∃ resp, Receives (replying fun _ => sha1Response) TpmCmd.zero tpmChipData 7 0x0004 [] resp ∧
        CarriesPcr 7 0x0004 resp) ↔
    ∀ resp, Receives (replying fun _ => sha1Response) TpmCmd.zero tpmChipData 7 0x0004 [] resp →
      WellSized 32 resp → Names 7 0x0004 resp := by
  let _ := littleHost
  exact success_carries_iff (replying fun _ => sha1Response) TpmCmd.zero tpmChipData (by decide) 0x0004
    (List.replicate 32 0) []

/-- Asked for PCR 0 of the SHA-256 bank, the read takes the same response. -/
theorem other_pcr_accepted :
    letI := littleHost
    tpmPcrReadSingle (replying fun _ => sha1Response) TpmCmd.zero tpmChipData 0 0x000B
        (some (List.replicate 32 0)) [] =
      (some (tpmSuccess, some (List.replicate 20 0xA5 ++ List.replicate 12 0)), sha1Response) ∧
    ∀ resp, Receives (replying fun _ => sha1Response) TpmCmd.zero tpmChipData 0 0x000B [] resp →
      ¬ CarriesPcr 0 0x000B resp := by
  let _ := littleHost
  have hx : tpmXfer (replying fun _ => sha1Response) tpmChipData (pcrReadCommand 0 0x000B).cmd TpmCmd.zero [] =
      (some (tpmSuccess, TpmCmd.zero.setBytes 0 sha1Response), sha1Response) := by
    decide +kernel
  refine ⟨by decide +kernel, ?_⟩
  rintro resp ⟨ret, w', hx', -⟩
  rw [hx] at hx'
  cases hx'
  decide +kernel

end LibTpm.PcrResponse
