import LibTpm.Platform

namespace LibTpm.Builder

open LibTpm.Base.Process LibTpm.Command LibTpm.Constants LibTpm.Endian LibTpm.Platform

/-- A command under construction. The first error sticks and stops every
later append. -/
structure TpmCmdBuilder where
  cmd : TpmCmd
  errorState : TpmRetValue
  deriving DecidableEq

section Build

variable [Host]

def tpmCmdInit (tag : UInt16) (cmdCode : UInt32) : TpmCmdBuilder where
  cmd := ((TpmCmd.zero.setTag (htobe16 tag)).setCmdSize
    (htobe32 (UInt32.ofNat tpmHeaderSize))).setCmdCode (htobe32 cmdCode)
  errorState := .success

def tpmBuilderFinalize (builder : TpmCmdBuilder) : Int := builder.errorState.code

/-- The bytes of the union that holds the new data, for the lengths that the
builder accepts. -/
def newDataBytes (newData : UInt32) : Nat → Option (List UInt8)
  | 1 => some [newData.toUInt8]
  | 2 => some (store16 (htobe16 newData.toUInt16))
  | 4 => some (store32 (htobe32 newData))
  | _ => none

def tpmUpdateBuffer (builder : TpmCmdBuilder) (newData : UInt32) (newLen : Nat) :
    Int × TpmCmdBuilder :=
  if builder.errorState ≠ .success then (builder.errorState.code, builder)
  else
    let commandSize := be32toh builder.cmd.cmdSize
    -- the sum is computed in size_t
    if (commandSize.toNat + newLen) % 2 ^ 64 > maxSizeCmdbuf then
      (tpmInvalidParam, { builder with errorState := .invalidParam })
    else
      let start := commandSize.toNat - tpmHeaderSize
      match newDataBytes newData newLen with
      | none => (tpmInvalidParam, { builder with errorState := .invalidParam })
      | some array =>
          (tpmSuccess, { builder with
            cmd := (builder.cmd.setBytes (tpmHeaderSize + start) array).setCmdSize
              (htobe32 (commandSize + UInt32.ofNat newLen)) })

def append (builder : TpmCmdBuilder) (newData : UInt32) (newLen : Nat) : TpmCmdBuilder :=
  (tpmUpdateBuffer builder newData newLen).2

def appendBytes (builder : TpmCmdBuilder) (ptr : Nat → UInt8) (i : Nat) : Nat → TpmCmdBuilder
  | 0 => builder
  | count + 1 => appendBytes (append builder (ptr i).toUInt32 1) ptr (i + 1) count

end Build

def tpmXfer {W : Type} (interface : Interface W) (chipData : ChipData) (send receive : TpmCmd) :
    Proc W (Int × TpmCmd) := do
  let ret ← interface.send chipData send
  if ret < 0 then return (ret, receive)
  let (ret, receive) ← interface.receive chipData receive
  if ret < 0 then return (ret, receive)
  return (tpmSuccess, receive)

end LibTpm.Builder
