import LibTpm.Getcap

namespace LibTpm.Commands

open LibTpm.Base.BigEndian LibTpm.Base.Process LibTpm.Command LibTpm.Constants LibTpm.Endian
open LibTpm.Platform LibTpm.Builder LibTpm.Iterator LibTpm.Getcap

structure TpmPcrAllocateBank where
  hashAlg : UInt16
  pcrSelect : Vector UInt8 tpmPcrSelectSize.toNat
  deriving DecidableEq

variable [Host] {W : Type} (interface : Interface W)

def startupCommand (mode : UInt16) : TpmCmdBuilder :=
  append (tpmCmdInit tpmStNoSessions tpmCmdStartup) mode.toUInt32 2

def tpmStartup (chipData : ChipData) (mode : UInt16) : Proc W Int := do
  let builder := startupCommand mode
  if tpmBuilderFinalize builder < 0 then return tpmBuilderFinalize builder
  let (ret, resp) ← tpmXfer interface chipData builder.cmd TpmCmd.zero
  if ret < 0 then return ret
  let tpmRc := be32toh resp.cmdCode
  if tpmRc = tpmRcInitialize then return tpmErrAlreadyInit
  if tpmRc ≠ tpmResponseSuccess then return tpmErrResponse
  return tpmSuccess

/-- The digest is the memory behind its pointer. -/
def pcrExtendCommand (index : UInt32) (algorithm : UInt16) (digest : Nat → UInt8)
    (digestLen : UInt32) : TpmCmdBuilder :=
  let builder := tpmCmdInit tpmStSessions tpmCmdPcrExtend
  let builder := append builder index 4
  let builder := append builder tpmMinAuthSize 4
  let builder := append builder tpmRsPw 4
  let builder := append builder tpmZeroNonceSize 2
  let builder := append builder tpmAttributesDisable 1
  let builder := append builder tpmZeroHmacSize 2
  let builder := append builder tpmSingleHashCount 4
  let builder := append builder algorithm.toUInt32 2
  appendBytes builder digest 0 digestLen.toNat

def tpmPcrExtend (chipData : ChipData) (index : UInt32) (algorithm : UInt16)
    (digest : Option (Nat → UInt8)) (digestLen : UInt32) : Proc W Int := do
  let some digest := digest | return tpmInvalidParam
  let builder := pcrExtendCommand index algorithm digest digestLen
  if tpmBuilderFinalize builder < 0 then return tpmBuilderFinalize builder
  let (ret, resp) ← tpmXfer interface chipData builder.cmd TpmCmd.zero
  if ret < 0 then return ret
  if be32toh resp.cmdCode ≠ tpmResponseSuccess then return tpmErrResponse
  return tpmSuccess

def pcrReadCommand (index : UInt32) (algorithm : UInt16) : TpmCmdBuilder :=
  let pcrBitmask := (1 : UInt32) <<< index
  let builder := tpmCmdInit tpmStNoSessions tpmCmdPcrRead
  let builder := append builder 1 4
  let builder := append builder algorithm.toUInt32 2
  let builder := append builder tpmPcrSelectSize.toUInt32 1
  let builder := append builder (pcrBitmask &&& 0xFF) 1
  let builder := append builder ((pcrBitmask >>> 8) &&& 0xFF) 1
  append builder ((pcrBitmask >>> 16) &&& 0xFF) 1

/-- The size of struct tpm_pcr_single_read_res, and of its part before the digest. -/
def pcrSingleReadResSize : Nat := 68
def pcrSingleReadResDigest : Nat := 20

/-- `stack` is the uninitialised memory of the response buffer. The output
buffer is a list of its bytes, and none when the pointer is NULL. -/
def tpmPcrReadSingle (stack : TpmCmd) (chipData : ChipData) (index : UInt32) (algorithm : UInt16)
    (pcrDigestRead : Option (List UInt8)) : Proc W (Int × Option (List UInt8)) := do
  if index ≥ tpmPcrSelectSize.toUInt32 * 8 then return (tpmInvalidParam, pcrDigestRead)
  let some buf := pcrDigestRead | return (tpmInvalidParam, pcrDigestRead)
  let cleared := List.replicate buf.length 0
  let builder := pcrReadCommand index algorithm
  if tpmBuilderFinalize builder < 0 then return (tpmBuilderFinalize builder, some cleared)
  let (ret, resp) ← tpmXfer interface chipData builder.cmd stack
  if ret < 0 then return (ret, some cleared)
  if be32toh resp.cmdCode ≠ tpmResponseSuccess then return (tpmErrResponse, some cleared)
  let dataSize := (be32toh resp.cmdSize - UInt32.ofNat tpmHeaderSize).toNat
  if dataSize > pcrSingleReadResSize ∨ dataSize < pcrSingleReadResDigest then
    return (tpmErrResponse, some cleared)
  -- the fields of the packed struct that the data area is copied to
  let tpmlDigestSize := be16toh (load16 (resp.data 18) (resp.data 19))
  let digest := (List.range maxDigestSize).map (fun i => resp.data (pcrSingleReadResDigest + i))
  let digestLen := tpmlDigestSize.toNat
  if digestLen > maxDigestSize ∨ digestLen > buf.length then
    return (tpmInvalidParam, some cleared)
  if pcrSingleReadResDigest + digestLen > dataSize then return (tpmErrResponse, some cleared)
  return (tpmSuccess, some (digest.take digestLen ++ cleared.drop digestLen))

def countBanks (banks : Nat → TpmPcrAllocateBank) (i : Nat) : Nat → Nat
  | 0 => 0
  | n + 1 => if (banks i).hashAlg = tpmAlgNull then 0 else countBanks banks (i + 1) n + 1

def appendBank (builder : TpmCmdBuilder) (bank : TpmPcrAllocateBank) : TpmCmdBuilder :=
  let builder := append builder bank.hashAlg.toUInt32 2
  let builder := append builder tpmPcrSelectSize.toUInt32 1
  appendBytes builder (fun j => bank.pcrSelect.toList.getD j 0) 0 tpmPcrSelectSize.toNat

def appendBanks (builder : TpmCmdBuilder) (banks : Nat → TpmPcrAllocateBank) (i : Nat) :
    Nat → TpmCmdBuilder
  | 0 => builder
  | count + 1 => appendBanks (appendBank builder (banks i)) banks (i + 1) count

def pcrAllocateCommand (password : Nat → UInt8) (passwordLen : UInt16)
    (banks : Nat → TpmPcrAllocateBank) (count : Nat) : TpmCmdBuilder :=
  let builder := tpmCmdInit tpmStSessions tpmCmdPcrAllocate
  let builder := append builder tpmRhPlatform 4
  let builder := append builder (tpmMinAuthSize + passwordLen.toUInt32) 4
  let builder := append builder tpmRsPw 4
  let builder := append builder tpmZeroNonceSize 2
  let builder := append builder tpmAttributesDisable 1
  let builder := append builder passwordLen.toUInt32 2
  let builder := appendBytes builder password 0 passwordLen.toNat
  let builder := append builder (UInt32.ofNat count) 4
  appendBanks builder banks 0 count

/-- The objects behind the four output pointers of the allocation. -/
structure AllocateOut where
  success : Bool
  maxPcr : UInt32
  sizeNeeded : UInt32
  sizeAvailable : UInt32
  deriving DecidableEq, Repr

/-- A NULL pointer is none; a NULL among the output pointers makes `out` none. -/
def tpmPcrAllocateAuthPassword (chip : Option ChipData) (password : Option (Nat → UInt8))
    (passwordLen : UInt16) (banks : Option (Nat → TpmPcrAllocateBank)) (out : Option AllocateOut) :
    Proc W (Int × Option AllocateOut) := do
  let some chip := chip | return (tpmInvalidParam, out)
  let some banks := banks | return (tpmInvalidParam, out)
  let some old := out | return (tpmInvalidParam, out)
  if passwordLen > 0 ∧ password.isNone then return (tpmInvalidParam, out)
  let count := countBanks banks 0 tpmMaxPcrSelections
  if count = 0 then return (tpmInvalidParam, out)
  if count ≥ tpmMaxPcrSelections then return (tpmInvalidParam, out)
  let builder := pcrAllocateCommand (password.getD (fun _ => 0)) passwordLen banks count
  if tpmBuilderFinalize builder < 0 then return (tpmBuilderFinalize builder, out)
  let (ret, resp) ← tpmXfer interface chip builder.cmd TpmCmd.zero
  if ret < 0 then return (ret, out)
  if be16toh resp.tag ≠ tpmStSessions then return (tpmErrResponse, out)
  if be32toh resp.cmdCode ≠ tpmResponseSuccess then return (tpmErrResponse, out)
  let respSize := (be32toh resp.cmdSize).toNat
  if respSize < tpmHeaderSize + 17 ∨ respSize > maxSizeCmdbuf then return (tpmErrResponse, out)
  let iter : TpmBufIter := ⟨resp.bytes.drop tpmHeaderSize, respSize - tpmHeaderSize, .success⟩
  let (_, _, iter) := iterReadU32Be iter 0
  let (_, allocSuccess, iter) := iterReadU8 iter 0
  let (_, maxPcr, iter) := iterReadU32Be iter old.maxPcr
  let (_, sizeNeeded, iter) := iterReadU32Be iter old.sizeNeeded
  let (_, sizeAvailable, iter) := iterReadU32Be iter old.sizeAvailable
  if iter.errorState ≠ .success then
    return (iter.errorState.code, some ⟨old.success, maxPcr, sizeNeeded, sizeAvailable⟩)
  return (tpmSuccess, some ⟨allocSuccess ≠ 0, maxPcr, sizeNeeded, sizeAvailable⟩)

end LibTpm.Commands
