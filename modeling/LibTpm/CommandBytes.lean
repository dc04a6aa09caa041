import LibTpm.Commands
import LibTpm.Request

namespace LibTpm.CommandBytes

open LibTpm.Base.BigEndian LibTpm.Command LibTpm.Constants LibTpm.Endian LibTpm.Builder
open LibTpm.Commands LibTpm.Getcap LibTpm.Request

def pcrOctets (index : Nat) : Vector UInt8 3 :=
  Vector.ofFn fun k => if k.val = index / 8 then 1 <<< UInt8.ofNat (index % 8) else 0

theorem pcrBitmask_octets {index : UInt32} (h : index < 24) :
    (pcrOctets index.toNat).toList = [(((1 : UInt32) <<< index) &&& 0xFF).toUInt8,
      ((((1 : UInt32) <<< index) >>> 8) &&& 0xFF).toUInt8,
      ((((1 : UInt32) <<< index) >>> 16) &&& 0xFF).toUInt8] := by
  have hlt : index.toNat < 24 := h
  have hindex : index = UInt32.ofNat index.toNat := UInt32.ofNat_toNat.symm
  rw [hindex]
  generalize index.toNat = k at hlt
  interval_cases k <;> decide

variable [Host] {tag : UInt16} {code : UInt32} {payload : List UInt8} {builder : TpmCmdBuilder}

def image (tag : UInt16) (code : UInt32) (payload : List UInt8) : List UInt8 :=
  be16 tag ++ (be32 (UInt32.ofNat (tpmHeaderSize + payload.length)) ++ (be32 code ++
    (payload ++ List.replicate (maxSizeCmdbuf - (tpmHeaderSize + payload.length)) 0)))

/-- The builder after appends that add up to `payload`: either it holds them
all, or they were too many and it reports this. -/
def Built (tag : UInt16) (code : UInt32) (payload : List UInt8) (builder : TpmCmdBuilder) : Prop :=
  if tpmHeaderSize + payload.length ≤ maxSizeCmdbuf then
    builder.errorState = .success ∧ builder.cmd.bytes = image tag code payload
  else builder.errorState = .invalidParam

theorem cmdSize_of_image (c : TpmCmd) (h : c.bytes = image tag code payload) :
    be32toh c.cmdSize = UInt32.ofNat (tpmHeaderSize + payload.length) := by
  rw [TpmCmd.be32toh_cmdSize]
  simp only [TpmCmd.byte, h]
  exact of32_be32 _

theorem setCmdSize_image {c : TpmCmd} {x y : UInt32} {post : List UInt8}
    (h : c.bytes = be16 tag ++ (be32 x ++ post)) :
    (c.setCmdSize (htobe32 y)).bytes = be16 tag ++ (be32 y ++ post) := by
  rw [TpmCmd.setCmdSize, store32_htobe32]
  exact TpmCmd.bytes_setBytes h rfl rfl

theorem tpmCmdInit_built (tag : UInt16) (code : UInt32) : Built tag code [] (tpmCmdInit tag code) := by
  have h0 : TpmCmd.zero.bytes = [] ++ ([0, 0] ++ ([0, 0, 0, 0] ++ ([0, 0, 0, 0] ++
      List.replicate maxCmdData 0))) := rfl
  have h1 : (TpmCmd.zero.setTag (htobe16 tag)).bytes = be16 tag ++ ([0, 0, 0, 0] ++
      ([0, 0, 0, 0] ++ List.replicate maxCmdData 0)) := by
    rw [TpmCmd.setTag, store16_htobe16]
    exact TpmCmd.bytes_setBytes h0 rfl rfl
  have h2 := setCmdSize_image (y := UInt32.ofNat tpmHeaderSize) (x := 0) h1
  rw [Built, if_pos (by decide)]
  refine ⟨rfl, ?_⟩
  rw [← List.append_assoc] at h2
  have h3 : (((TpmCmd.zero.setTag (htobe16 tag)).setCmdSize (htobe32 (UInt32.ofNat
      tpmHeaderSize))).setCmdCode (htobe32 code)).bytes = (be16 tag ++ be32 (UInt32.ofNat
      tpmHeaderSize)) ++ (be32 code ++ List.replicate maxCmdData 0) := by
    rw [TpmCmd.setCmdCode, store32_htobe32]
    exact TpmCmd.bytes_setBytes h2 rfl rfl
  rw [List.append_assoc] at h3
  exact h3

theorem newDataBytes_length {x : UInt32} {n : Nat} {bs : List UInt8}
    (h : newDataBytes x n = some bs) : bs.length = n ∧ n ≤ 4 := by
  unfold newDataBytes at h
  split at h
  · cases h
    exact ⟨rfl, by decide⟩
  · cases h
    rw [store16_htobe16]
    exact ⟨rfl, by decide⟩
  · cases h
    rw [store32_htobe32]
    exact ⟨rfl, by decide⟩
  · cases h

/-- The rule of the builder: every append of a value extends the payload. -/
theorem Built.append (h : Built tag code payload builder) {x : UInt32} {n : Nat} {bs : List UInt8}
    (hbs : newDataBytes x n = some bs) :
    Built tag code (payload ++ bs) (Builder.append builder x n) := by
  obtain ⟨hn, h4⟩ := newDataBytes_length hbs
  unfold Built at h ⊢
  rw [List.length_append, hn]
  by_cases hfit : tpmHeaderSize + payload.length ≤ maxSizeCmdbuf
  · rw [if_pos hfit] at h
    obtain ⟨hok, himage⟩ := h
    have hsize := cmdSize_of_image builder.cmd himage
    have hlt : tpmHeaderSize + payload.length < 2 ^ 32 := by
      have : maxSizeCmdbuf < 2 ^ 32 := by decide
      omega
    have hnat : (be32toh builder.cmd.cmdSize).toNat = tpmHeaderSize + payload.length := by
      rw [hsize, UInt32.toNat_ofNat_of_lt' hlt]
    have hmod : (tpmHeaderSize + payload.length + n) % 2 ^ 64 = tpmHeaderSize + payload.length + n :=
      Nat.mod_eq_of_lt (by omega)
    simp only [Builder.append, tpmUpdateBuffer, hok, ne_eq, not_true_eq_false, if_false, hnat, hmod]
    by_cases hroom : tpmHeaderSize + (payload.length + n) ≤ maxSizeCmdbuf
    · rw [if_pos hroom, if_neg (by omega), hbs]
      have hzero : List.replicate (maxSizeCmdbuf - (tpmHeaderSize + payload.length)) (0 : UInt8) =
          List.replicate n 0 ++
            List.replicate (maxSizeCmdbuf - (tpmHeaderSize + (payload.length + n))) 0 := by
        rw [List.replicate_append_replicate]
        congr 1
        omega
      have hdata : builder.cmd.bytes = (be16 tag ++
          (be32 (UInt32.ofNat (tpmHeaderSize + payload.length)) ++ (be32 code ++ payload))) ++
          (List.replicate n 0 ++
            List.replicate (maxSizeCmdbuf - (tpmHeaderSize + (payload.length + n))) 0) := by
        rw [himage, image, hzero]
        simp only [List.append_assoc]
      have hindex : (be16 tag ++ (be32 (UInt32.ofNat (tpmHeaderSize + payload.length)) ++
          (be32 code ++ payload))).length =
          tpmHeaderSize + (tpmHeaderSize + payload.length - tpmHeaderSize) := by
        simp only [List.length_append, be16_length, be32_length]
        have : tpmHeaderSize = 10 := rfl
        omega
      have hold : (List.replicate n (0 : UInt8)).length = bs.length := by rw [List.length_replicate, hn]
      have hset := TpmCmd.bytes_setBytes hdata hindex hold
      rw [List.append_assoc, List.append_assoc] at hset
      have hsum : UInt32.ofNat (tpmHeaderSize + payload.length) + UInt32.ofNat n =
          UInt32.ofNat (tpmHeaderSize + (payload ++ bs).length) := by
        rw [← UInt32.ofNat_add, List.length_append, hn, Nat.add_assoc]
      refine ⟨rfl, (setCmdSize_image hset).trans ?_⟩
      rw [hsize, hsum, image, List.length_append, hn]
      simp only [List.append_assoc]
    · rw [if_neg hroom, if_pos (by omega)]
  · rw [if_neg hfit] at h
    rw [if_neg (by omega), Builder.append, tpmUpdateBuffer, if_pos (by rw [h]; decide)]
    exact h

theorem Built.append8 (h : Built tag code payload builder) (x : UInt32) :
    Built tag code (payload ++ [x.toUInt8]) (Builder.append builder x 1) := h.append rfl

theorem Built.append16 (h : Built tag code payload builder) (x : UInt32) :
    Built tag code (payload ++ be16 x.toUInt16) (Builder.append builder x 2) := by
  rw [← store16_htobe16]
  exact h.append rfl

theorem Built.append32 (h : Built tag code payload builder) (x : UInt32) :
    Built tag code (payload ++ be32 x) (Builder.append builder x 4) := by
  rw [← store32_htobe32]
  exact h.append rfl

theorem Built.appendBytes (h : Built tag code payload builder) (ptr : Nat → UInt8) (i count : Nat) :
    Built tag code (payload ++ (List.range' i count).map ptr) (appendBytes builder ptr i count) := by
  induction count generalizing payload builder i with
  | zero => simpa [Builder.appendBytes] using h
  | succ count ih =>
      have hb := ih (h.append8 (ptr i).toUInt32) (i + 1)
      rw [UInt8.toUInt8_toUInt32, List.append_assoc] at hb
      exact hb

theorem Built.finish {r : TpmRequest} (h : Built r.tag r.code r.body builder) :
    if r.size ≤ maxSizeCmdbuf then
      tpmBuilderFinalize builder = tpmSuccess ∧ builder.cmd.serialise = r.encode
    else tpmBuilderFinalize builder = tpmInvalidParam := by
  unfold Built at h
  split at h
  next hfit =>
    obtain ⟨hok, himage⟩ := h
    have hlt : tpmHeaderSize + r.body.length < 2 ^ 32 := by
      have : maxSizeCmdbuf < 2 ^ 32 := by decide
      omega
    have hsize : r.size ≤ maxSizeCmdbuf := hfit
    rw [if_pos hsize]
    refine ⟨by rw [tpmBuilderFinalize, hok], ?_⟩
    rw [TpmCmd.serialise, cmdSize_of_image builder.cmd himage, himage,
      UInt32.toNat_ofNat_of_lt' hlt]
    have hlen : r.encode.length = tpmHeaderSize + r.body.length := r.length_encode
    have himg : image r.tag r.code r.body = r.encode ++ List.replicate
        (maxSizeCmdbuf - (tpmHeaderSize + r.body.length)) 0 := by
      simp only [image, TpmRequest.encode, TpmRequest.size, List.append_assoc]
      rfl
    rw [himg, ← hlen, List.take_left]
  next hfit =>
    have hsize : ¬ r.size ≤ maxSizeCmdbuf := hfit
    rw [if_neg hsize, tpmBuilderFinalize, h]

theorem startupCommand_built (mode : UInt16) :
    Built 0x8001 0x144 (TpmRequest.startup mode).body (startupCommand mode) := by
  have h := (tpmCmdInit_built tpmStNoSessions tpmCmdStartup).append16 mode.toUInt32
  rwa [UInt16.toUInt16_toUInt32] at h

theorem getcapCommand_built (capability property propertyCount : UInt32) :
    Built 0x8001 0x17A (TpmRequest.getCapability capability property propertyCount).body
      (getcapCommand capability property propertyCount) :=
  (((tpmCmdInit_built tpmStNoSessions tpmCmdGetCapability).append32 capability).append32
    property).append32 propertyCount

def memory (ptr : Nat → UInt8) (n : Nat) : List UInt8 := (List.range' 0 n).map ptr

theorem pcrExtendCommand_built (index : UInt32) (algorithm : UInt16) (digest : Nat → UInt8)
    (digestLen : UInt32) : Built 0x8002 0x182
      (TpmRequest.pcrExtend index ⟨[], 0, []⟩ algorithm (memory digest digestLen.toNat)).body
      (pcrExtendCommand index algorithm digest digestLen) := by
  have h := (tpmCmdInit_built tpmStSessions tpmCmdPcrExtend).append32 index
  have h := ((((h.append32 tpmMinAuthSize).append32 tpmRsPw).append16 tpmZeroNonceSize).append8
    tpmAttributesDisable).append16 tpmZeroHmacSize
  have h := (h.append32 tpmSingleHashCount).append16 algorithm.toUInt32
  have h := h.appendBytes digest 0 digestLen.toNat
  rw [UInt16.toUInt16_toUInt32] at h
  exact h

theorem pcrReadCommand_built {index : UInt32} (h : index < 24) (algorithm : UInt16) :
    Built 0x8001 0x17E (TpmRequest.pcrRead [⟨algorithm, pcrOctets index.toNat⟩]).body
      (pcrReadCommand index algorithm) := by
  have hb := ((tpmCmdInit_built tpmStNoSessions tpmCmdPcrRead).append32 1).append16
    algorithm.toUInt32
  have hb := (((hb.append8 tpmPcrSelectSize.toUInt32).append8
    (((1 : UInt32) <<< index) &&& 0xFF)).append8
    ((((1 : UInt32) <<< index) >>> 8) &&& 0xFF)).append8 ((((1 : UInt32) <<< index) >>> 16) &&& 0xFF)
  rw [UInt16.toUInt16_toUInt32] at hb
  have hbody : (TpmRequest.pcrRead [⟨algorithm, pcrOctets index.toNat⟩]).body =
      be32 1 ++ (be16 algorithm ++ [3] ++ (pcrOctets index.toNat).toList) := by
    simp only [TpmRequest.body, encodeSelections, Selection.encode, List.flatMap_singleton]
    rfl
  rw [hbody, pcrBitmask_octets h]
  simp only [List.append_assoc] at hb ⊢
  exact hb

def selectionOf (bank : TpmPcrAllocateBank) : Selection := ⟨bank.hashAlg, bank.pcrSelect⟩

theorem Built.appendBank (h : Built tag code payload builder) (bank : TpmPcrAllocateBank) :
    Built tag code (payload ++ (selectionOf bank).encode) (appendBank builder bank) := by
  have hb := ((h.append16 bank.hashAlg.toUInt32).append8 tpmPcrSelectSize.toUInt32).appendBytes
    (fun j => bank.pcrSelect.toList.getD j 0) 0 tpmPcrSelectSize.toNat
  rw [UInt16.toUInt16_toUInt32] at hb
  have hoctets : (List.range' 0 tpmPcrSelectSize.toNat).map (fun j => bank.pcrSelect.toList.getD j 0) =
      bank.pcrSelect.toList := by
    obtain ⟨hashAlg, ⟨⟨octets⟩, h3⟩⟩ := bank
    match octets, h3 with
    | [a, b, c], _ => rfl
  rw [hoctets] at hb
  simp only [Selection.encode, List.append_assoc] at hb ⊢
  exact hb

theorem Built.appendBanks (h : Built tag code payload builder) (banks : Nat → TpmPcrAllocateBank)
    (i count : Nat) : Built tag code
      (payload ++ ((List.range' i count).map (fun i => selectionOf (banks i))).flatMap Selection.encode)
      (appendBanks builder banks i count) := by
  induction count generalizing payload builder i with
  | zero => simpa [Commands.appendBanks] using h
  | succ count ih =>
      have hb := ih (h.appendBank (banks i)) (i + 1)
      rw [List.append_assoc] at hb
      exact hb

theorem pcrAllocateCommand_built (password : Nat → UInt8) (passwordLen : UInt16)
    (banks : Nat → TpmPcrAllocateBank) (count : Nat) : Built 0x8002 0x12B
      (TpmRequest.pcrAllocate 0x4000000C ⟨[], 0, memory password passwordLen.toNat⟩
        ((List.range' 0 count).map (fun i => selectionOf (banks i)))).body
      (pcrAllocateCommand password passwordLen banks count) := by
  have h := (tpmCmdInit_built tpmStSessions tpmCmdPcrAllocate).append32 tpmRhPlatform
  have h := (h.append32 (tpmMinAuthSize + passwordLen.toUInt32)).append32 tpmRsPw
  have h := ((h.append16 tpmZeroNonceSize).append8 tpmAttributesDisable).append16
    passwordLen.toUInt32
  have h := (h.appendBytes password 0 passwordLen.toNat).append32 (UInt32.ofNat count)
  have h := h.appendBanks banks 0 count
  rw [UInt16.toUInt16_toUInt32] at h
  have hpassword : (memory password passwordLen.toNat).length = passwordLen.toNat := by
    rw [memory, List.length_map, List.length_range']
  have hauth : UInt32.ofNat (PasswordAuth.area
      ⟨[], 0, memory password passwordLen.toNat⟩).length = tpmMinAuthSize + passwordLen.toUInt32 := by
    have hsize : UInt32.ofNat passwordLen.toNat = passwordLen.toUInt32 := UInt32.ofNat_uInt16ToNat passwordLen
    rw [PasswordAuth.length_area, hpassword, List.length_nil, Nat.add_zero, UInt32.ofNat_add, hsize]
    rfl
  have hbody : (TpmRequest.pcrAllocate 0x4000000C ⟨[], 0, memory password passwordLen.toNat⟩
      ((List.range' 0 count).map (fun i => selectionOf (banks i)))).body =
      be32 0x4000000C ++ (be32 (tpmMinAuthSize + passwordLen.toUInt32) ++ (be32 0x40000009 ++
        (be16 0 ++ ([0] ++ (be16 passwordLen ++ (memory password passwordLen.toNat ++
          (be32 (UInt32.ofNat count) ++ ((List.range' 0 count).map
            (fun i => selectionOf (banks i))).flatMap Selection.encode))))))) := by
    rw [TpmRequest.body, PasswordAuth.encode, hauth]
    simp only [PasswordAuth.area, encodeSized, encodeSelections, hpassword, UInt16.ofNat_toNat,
      List.length_map, List.length_range', List.append_assoc]
    rfl
  rw [hbody]
  simp only [List.append_assoc] at h
  exact h

end LibTpm.CommandBytes
