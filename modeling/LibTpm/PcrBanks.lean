import LibTpm.PcrResponse

namespace LibTpm.PcrBanks

open LibTpm.Base.BigEndian LibTpm.Base.Process LibTpm.Base.Process.Proc LibTpm.Command LibTpm.Constants
open LibTpm.Endian LibTpm.Platform LibTpm.Builder LibTpm.Commands LibTpm.CommandBytes LibTpm.Request
open LibTpm.Traffic LibTpm.CapResponse LibTpm.PageRuns LibTpm.PcrResponse

/-- A bank with the digests of its PCRs, all of one length. -/
structure DigestBank where
  size : Nat
  digests : Fin 24 → List UInt8
  length_digests (i : Fin 24) : (digests i).length = size
  size_pos : 1 ≤ size
  size_le : size ≤ 64

/-- The TPM behind the interface, as far as a PCR read can tell. -/
structure RefTpm where
  updateCounter : UInt32
  banks : UInt16 → Option DigestBank

/-- The parameters of a response to a read of one PCR. The selection is
cleared when there is no such bank. -/
def RefTpm.parameters (tpm : RefTpm) (algorithm : UInt16) (index : Fin 24) : List UInt8 :=
  match tpm.banks algorithm with
  | some bank => be32 tpm.updateCounter ++ (encodeSelections [⟨algorithm, pcrOctets index.val⟩] ++
      (be32 1 ++ encodeSized (bank.digests index)))
  | none => be32 tpm.updateCounter ++ (encodeSelections [⟨algorithm, Vector.replicate 3 0⟩] ++ be32 0)

/-- The TPM answers every read of one PCR, and its responses arrive intact. -/
def Serves {W : Type} [Host] (tpm : RefTpm) (interface : Interface W) (chip : ChipData) : Prop :=
  ∀ cmd algorithm (index : Fin 24) w,
    parseRequest cmd.serialise = some (.pcrRead [⟨algorithm, pcrOctets index.val⟩]) →
      Delivers interface chip cmd w (pcrResponse (tpm.parameters algorithm index))

theorem length_parameters_some {tpm : RefTpm} {algorithm : UInt16} {bank : DigestBank} (index : Fin 24)
    (h : tpm.banks algorithm = some bank) : (tpm.parameters algorithm index).length = 20 + bank.size := by
  simp only [RefTpm.parameters, h, encodeSized, List.length_append, be32_length, be16_length,
    length_encodeSelections, List.length_singleton, bank.length_digests]
  omega

theorem length_parameters_none {tpm : RefTpm} {algorithm : UInt16} (index : Fin 24)
    (h : tpm.banks algorithm = none) : (tpm.parameters algorithm index).length = 18 := by
  simp only [RefTpm.parameters, h, List.length_append, be32_length, length_encodeSelections,
    List.length_singleton]

theorem map_byte (c : TpmCmd) (k n : Nat) (h : k + n ≤ maxSizeCmdbuf) :
    (List.range n).map (fun i => c.byte (k + i)) = (c.bytes.drop k).take n := by
  apply List.ext_getElem
  · simp only [List.length_map, List.length_range, List.length_take, List.length_drop, c.length_bytes]
    omega
  · intro i hi hi'
    rw [List.length_map, List.length_range] at hi
    simp only [List.getElem_map, List.getElem_range, List.getElem_take, List.getElem_drop]
    exact c.byte_eq_getElem (by rw [c.length_bytes]; omega)

section Response

variable [Host] {resp : TpmCmd} {parameters : List UInt8}

theorem cmdCode_pcrResponse (h : Carries resp (pcrResponse parameters)) :
    be32toh resp.cmdCode = tpmResponseSuccess := (Carries.header h).2.2

theorem declaredSize_pcrResponse (h : Carries resp (pcrResponse parameters)) :
    declaredSize resp = tpmHeaderSize + parameters.length := by
  have hle : tpmHeaderSize + parameters.length ≤ maxSizeCmdbuf := by
    have hprefix := List.IsPrefix.length_le h
    rw [resp.length_bytes, pcrResponse] at hprefix
    simp only [List.length_append, be16_length, be32_length] at hprefix
    have h10 : tpmHeaderSize = 10 := rfl
    omega
  have hlt : tpmHeaderSize + parameters.length < 2 ^ 32 := Nat.lt_of_le_of_lt hle (by decide)
  rw [declaredSize, (Carries.header h).2.1, UInt32.toNat_ofNat_of_lt' hlt]

omit [Host] in
theorem digest_pcrResponse {updateCounter : UInt32} {sel : Selection} {digest : List UInt8}
    (h : Carries resp (pcrResponse (be32 updateCounter ++ (encodeSelections [sel] ++ (be32 1 ++ encodeSized digest)))))
    (hlt : digest.length < 2 ^ 16) : digestSize resp = digest.length ∧
      (digest.length ≤ maxDigestSize → digestBytes resp digest.length = digest) := by
  obtain ⟨hashAlg, ⟨⟨octets⟩, h3⟩⟩ := sel
  match octets, h3 with
  | [a, b, c], _ =>
      obtain ⟨rest, hb⟩ := h
      have hdata : resp.bytes.drop 30 = digest ++ rest := by
        rw [← hb]
        rfl
      constructor
      · have hsize : (fieldsOf resp).digestSize = UInt16.ofNat digest.length := by
          simp only [fieldsOf, TpmCmd.data, TpmCmd.byte, ← hb]
          exact of16_be16 _
        rw [digestSize, hsize, UInt16.toNat_ofNat_of_lt' hlt]
      · intro hmax
        have hall := map_byte resp 30 maxDigestSize (by decide)
        rw [hdata] at hall
        have hbytes : digestBytes resp digest.length = ((digest ++ rest).take maxDigestSize).take digest.length := by
          rw [← hall, digestBytes]
          simp only [TpmCmd.data, ← Nat.add_assoc]
          rfl
        rw [hbytes, List.take_take, Nat.min_eq_left hmax, List.take_left]

variable {tpm : RefTpm} {algorithm : UInt16} {index : Fin 24}

theorem verdict_bank {bank : DigestBank} (h : Carries resp (pcrResponse (tpm.parameters algorithm index)))
    (hbank : tpm.banks algorithm = some bank) (m : Nat) :
    verdict m resp = if bank.size ≤ maxDigestSize then if bank.size ≤ m then .success else .invalidParam
      else .errResponse := by
  have hcode := cmdCode_pcrResponse h
  have hdeclared := declaredSize_pcrResponse h
  rw [length_parameters_some index hbank] at hdeclared
  have hsize : digestSize resp = bank.size := by
    have h' := h
    simp only [RefTpm.parameters, hbank] at h'
    have hlen := bank.length_digests index
    have hle := bank.size_le
    rw [(digest_pcrResponse h' (by omega)).1, hlen]
  have h10 : tpmHeaderSize = 10 := rfl
  have h20 : pcrSingleReadResDigest = 20 := rfl
  have h68 : pcrSingleReadResSize = 68 := rfl
  have h48 : maxDigestSize = 48 := rfl
  rw [verdict, if_neg (not_not.mpr hcode), hsize, hdeclared]
  by_cases hmax : bank.size ≤ maxDigestSize
  · rw [if_neg (by omega), if_pos hmax]
    by_cases hm : bank.size ≤ m
    · rw [if_neg (by omega), if_neg (by omega), if_pos hm]
    · rw [if_pos (by omega), if_neg hm]
  · rw [if_pos (by omega), if_neg hmax]

theorem verdict_absent (h : Carries resp (pcrResponse (tpm.parameters algorithm index)))
    (hnone : tpm.banks algorithm = none) (m : Nat) : verdict m resp = .errResponse := by
  have hdeclared := declaredSize_pcrResponse h
  rw [length_parameters_none index hnone] at hdeclared
  rw [verdict, if_neg (not_not.mpr (cmdCode_pcrResponse h)), hdeclared]
  exact if_pos (by decide)

end Response

/-- What a read of one PCR returns: the digest with zeros after it, or why
there is none. -/
structure ReadsPcr (tpm : RefTpm) (index : UInt32) (algorithm : UInt16) (buf : List UInt8) (ret : Int)
    (out : List UInt8) : Prop where
  success : ret = tpmSuccess ↔ index < 24 ∧ ∃ bank, tpm.banks algorithm = some bank ∧ bank.size ≤ 48 ∧
    bank.size ≤ buf.length
  digest : ret = tpmSuccess → ∀ (h : index.toNat < 24) bank, tpm.banks algorithm = some bank →
    out = bank.digests ⟨index.toNat, h⟩ ++ List.replicate (buf.length - bank.size) 0
  response : index < 24 → (tpm.banks algorithm = none ∨ ∃ bank, tpm.banks algorithm = some bank ∧ 48 < bank.size) →
    ret = tpmErrResponse ∧ out = List.replicate buf.length 0
  param : index < 24 → (∃ bank, tpm.banks algorithm = some bank ∧ bank.size ≤ 48 ∧ buf.length < bank.size) →
    ret = tpmInvalidParam ∧ out = List.replicate buf.length 0
  untouched : ¬ index < 24 → out = buf

section Read

variable [Host] {W : Type} {interface : Interface W} {chip : ChipData} {tpm : RefTpm} {index : UInt32}
  {algorithm : UInt16}

theorem tpmXfer_serves (h : Serves tpm interface chip) (hindex : index < 24) (algorithm : UInt16) (stack : TpmCmd)
    (w : W) (log : List Message) : ∃ resp s,
      tpmXfer (logged interface) chip (pcrReadCommand index algorithm).cmd stack (w, log) =
        (some (tpmSuccess, resp), s) ∧
      Carries resp (pcrResponse (tpm.parameters algorithm ⟨index.toNat, hindex⟩)) := by
  have hrequest : parseRequest (pcrReadCommand index algorithm).cmd.serialise =
      some (.pcrRead [⟨algorithm, pcrOctets index.toNat⟩]) := by
    rw [(pcrReadCommand_ok hindex algorithm).2]
    apply parseRequest_encode
    rw [TpmRequest.size, TpmRequest.body, length_encodeSelections, List.length_singleton]
    decide
  have hmeets := tpmXfer_delivers (h _ algorithm ⟨index.toNat, hindex⟩ w hrequest) stack log
  rcases hrun : tpmXfer (logged interface) chip (pcrReadCommand index algorithm).cmd stack (w, log) with
    ⟨_ | ⟨ret, resp⟩, s⟩
  · exact (hmeets.polling hrun).elim
  · obtain ⟨rfl, hcarries, -⟩ := hmeets.returned hrun
    exact ⟨resp, s, rfl, hcarries⟩

theorem readsPcr_bank {bank : DigestBank} (hbank : tpm.banks algorithm = some bank) {resp : TpmCmd}
    (hindex : index < 24)
    (h : Carries resp (pcrResponse (tpm.parameters algorithm ⟨index.toNat, hindex⟩))) (buf : List UInt8) :
    ReadsPcr tpm index algorithm buf (verdict buf.length resp).code (contents buf.length resp) := by
  have hverdict := verdict_bank h hbank buf.length
  have hsuccess : (verdict buf.length resp).code = tpmSuccess ↔ bank.size ≤ 48 ∧ bank.size ≤ buf.length := by
    rw [hverdict]
    by_cases hmax : bank.size ≤ maxDigestSize
    · by_cases hm : bank.size ≤ buf.length
      · simp only [if_pos hmax, if_pos hm, true_iff]
        exact ⟨hmax, hm⟩
      · simp only [if_pos hmax, if_neg hm]
        exact ⟨fun hcode => absurd hcode invalidParam_ne_success, fun hsizes => absurd hsizes.2 hm⟩
    · simp only [if_neg hmax]
      exact ⟨fun hcode => absurd hcode errResponse_ne_success, fun hsizes => absurd hsizes.1 hmax⟩
  have hfound {bank' : DigestBank} (hbank' : tpm.banks algorithm = some bank') : bank' = bank :=
    Option.some.inj (hbank'.symm.trans hbank)
  constructor
  · rw [hsuccess]
    constructor
    · exact fun hsizes => ⟨hindex, bank, hbank, hsizes⟩
    · rintro ⟨-, bank', hbank', hsizes⟩
      rwa [hfound hbank'] at hsizes
  · intro hcode hlt bank' hbank'
    obtain ⟨hmax, hm⟩ := hsuccess.mp hcode
    obtain rfl := hfound hbank'
    have hlen := bank'.length_digests ⟨index.toNat, hlt⟩
    simp only [RefTpm.parameters, hbank] at h
    obtain ⟨hsize, hbytes⟩ := digest_pcrResponse h (by rw [hlen]; omega)
    rw [hlen] at hsize hbytes
    rw [contents, if_pos (code_injective hcode), hsize, hbytes hmax]
  · rintro - (hnone | ⟨bank', hbank', hbig⟩)
    · rw [hnone] at hbank
      cases hbank
    · rw [hfound hbank'] at hbig
      have hmax : ¬ bank.size ≤ maxDigestSize := not_le.mpr hbig
      rw [contents, hverdict, if_neg hmax]
      exact ⟨rfl, rfl⟩
  · rintro - ⟨bank', hbank', hmax, hm⟩
    rw [hfound hbank'] at hmax hm
    have hfits : bank.size ≤ maxDigestSize := hmax
    rw [contents, hverdict, if_pos hfits, if_neg (not_le.mpr hm)]
    exact ⟨rfl, rfl⟩
  · exact fun hge => absurd hindex hge

theorem readsPcr_absent (hnone : tpm.banks algorithm = none) {resp : TpmCmd} (hindex : index < 24)
    (h : Carries resp (pcrResponse (tpm.parameters algorithm ⟨index.toNat, hindex⟩))) (buf : List UInt8) :
    ReadsPcr tpm index algorithm buf (verdict buf.length resp).code (contents buf.length resp) := by
  have hverdict := verdict_absent h hnone buf.length
  have habsent {P : DigestBank → Prop} : ¬ ∃ bank, tpm.banks algorithm = some bank ∧ P bank := by
    rintro ⟨bank, hbank, -⟩
    rw [hnone] at hbank
    cases hbank
  rw [contents, hverdict]
  constructor
  · exact ⟨fun hcode => absurd hcode errResponse_ne_success, fun hfound => absurd hfound.2 habsent⟩
  · exact fun hcode => absurd hcode errResponse_ne_success
  · exact fun _ _ => ⟨rfl, rfl⟩
  · exact fun _ hfound => absurd hfound habsent
  · exact fun hge => absurd hindex hge

/-- A read of one PCR against any set of banks, for every index, algorithm
and buffer. An index past the last PCR sends nothing. -/
theorem tpmPcrReadSingle_reads (h : Serves tpm interface chip) (stack : TpmCmd) (index : UInt32)
    (algorithm : UInt16) (buf : List UInt8) (w : W) (log : List Message) : ∃ ret out s,
      tpmPcrReadSingle (logged interface) stack chip index algorithm (some buf) (w, log) =
        (some (ret, some out), s) ∧
      ReadsPcr tpm index algorithm buf ret out ∧ (¬ index < 24 → s = (w, log)) := by
  by_cases hindex : index < 24
  · obtain ⟨resp, s, hrun, hcarries⟩ := tpmXfer_serves h hindex algorithm stack w log
    refine ⟨(verdict buf.length resp).code, contents buf.length resp, s, ?_, ?_, fun hge => absurd hindex hge⟩
    · rw [tpmPcrReadSingle_eq _ _ _ hindex, bind_some hrun, pure_run, outcome_success]
    · cases hbank : tpm.banks algorithm with
      | none => exact readsPcr_absent hbank hindex hcarries buf
      | some bank => exact readsPcr_bank hbank hindex hcarries buf
  · have hge : index ≥ tpmPcrSelectSize.toUInt32 * 8 := UInt32.not_lt.mp hindex
    refine ⟨tpmInvalidParam, buf, (w, log), ?_, ?_, fun _ => rfl⟩
    · rw [tpmPcrReadSingle, if_pos hge, pure_run]
    · constructor
      · exact ⟨fun hcode => absurd hcode invalidParam_ne_success, fun hfound => absurd hfound.1 hindex⟩
      · exact fun hcode => absurd hcode invalidParam_ne_success
      · exact fun hlt => absurd hlt hindex
      · exact fun hlt => absurd hlt hindex
      · exact fun _ => rfl

end Read

def selected (octets : Vector UInt8 3) : Option (Fin 24) :=
  (List.finRange 24).find? fun index => pcrOctets index.val = octets

theorem selected_pcrOctets (index : Fin 24) : selected (pcrOctets index.val) = some index := by
  revert index
  decide +kernel

def RefTpm.reply (tpm : RefTpm) : TpmRequest → List UInt8
  | .pcrRead [sel] => ((selected sel.octets).map fun index => pcrResponse (tpm.parameters sel.hashAlg index)).getD []
  | _ => []

theorem replying_serves [Host] (tpm : RefTpm) (chip : ChipData) : Serves tpm (replying tpm.reply) chip := by
  intro cmd algorithm index w hrequest
  have hreply : tpm.reply (.pcrRead [⟨algorithm, pcrOctets index.val⟩]) =
      pcrResponse (tpm.parameters algorithm index) := by
    rw [RefTpm.reply, selected_pcrOctets]
    rfl
  rw [← hreply]
  apply replying_delivers hrequest
  rw [hreply, pcrResponse]
  simp only [List.length_append, be16_length, be32_length]
  have hmax : maxSizeCmdbuf = 256 := rfl
  cases hbank : tpm.banks algorithm with
  | none =>
      rw [length_parameters_none index hbank, hmax]
      decide
  | some bank =>
      have hle := bank.size_le
      rw [length_parameters_some index hbank]
      omega

def sha256Tpm : RefTpm where
  updateCounter := 9
  banks algorithm :=
    if algorithm = 0x000B then
      some ⟨32, fun index => List.replicate 32 (UInt8.ofNat index.val), fun _ => List.length_replicate,
        by decide, by decide⟩
    else none

theorem tpmPcrReadSingle_reads_sha256 :
    letI := littleHost
    ∃ ret out s, tpmPcrReadSingle (logged (replying sha256Tpm.reply)) TpmCmd.zero tpmChipData 7 0x000B
        (some (List.replicate 40 0xFF)) ([], []) = (some (ret, some out), s) ∧
      ReadsPcr sha256Tpm 7 0x000B (List.replicate 40 0xFF) ret out ∧
      (¬ (7 : UInt32) < 24 → s = ([], [])) := by
  let _ := littleHost
  exact tpmPcrReadSingle_reads (replying_serves sha256Tpm tpmChipData) _ _ _ _ _ _

end LibTpm.PcrBanks
