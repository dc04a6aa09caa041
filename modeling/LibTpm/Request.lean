import LibTpm.Base.Wire

namespace LibTpm.Request

open LibTpm.Base.BigEndian LibTpm.Base.Wire LibTpm.Base.Wire.Reader

structure Selection where
  hashAlg : UInt16
  octets : Vector UInt8 3
  deriving DecidableEq

structure PasswordAuth where
  nonce : List UInt8
  attributes : UInt8
  password : List UInt8
  deriving DecidableEq, Repr

/-- The TPM 2.0 commands that the library sends, with their arguments. -/
inductive TpmRequest
  | startup (mode : UInt16)
  | getCapability (capability property propertyCount : UInt32)
  | pcrRead (selections : List Selection)
  | pcrExtend (handle : UInt32) (auth : PasswordAuth) (hashAlg : UInt16) (digest : List UInt8)
  | pcrAllocate (handle : UInt32) (auth : PasswordAuth) (selections : List Selection)
  deriving DecidableEq

/-! The reference parser. -/

def readSelection : Reader Selection := do
  let hashAlg ← u16
  let sizeofSelect ← u8
  guard (sizeofSelect = 3)
  let a ← u8
  let b ← u8
  let c ← u8
  return ⟨hashAlg, #v[a, b, c]⟩

def readSelections : Reader (List Selection) := do
  let count ← u32
  many readSelection count.toNat

def readSized : Reader (List UInt8) := do
  let size ← u16
  bytes size.toNat

def readPassword : Reader PasswordAuth := do
  let session ← u32
  guard (session = 0x40000009)
  let nonce ← readSized
  let attributes ← u8
  let password ← readSized
  return ⟨nonce, attributes, password⟩

def readAuth : Reader PasswordAuth := do
  let authorizationSize ← u32
  let area ← bytes authorizationSize.toNat
  match complete readPassword area with
  | some auth => return auth
  | none => failure

def readStartup : Reader TpmRequest := TpmRequest.startup <$> u16

def readGetCapability : Reader TpmRequest := do
  let capability ← u32
  let property ← u32
  let propertyCount ← u32
  return .getCapability capability property propertyCount

def readPcrRead : Reader TpmRequest := TpmRequest.pcrRead <$> readSelections

def readPcrExtend : Reader TpmRequest := do
  let handle ← u32
  let auth ← readAuth
  let count ← u32
  guard (count = 1)
  let hashAlg ← u16
  let digest ← remaining
  return .pcrExtend handle auth hashAlg digest

def readPcrAllocate : Reader TpmRequest := do
  let handle ← u32
  let auth ← readAuth
  let selections ← readSelections
  return .pcrAllocate handle auth selections

def readBody (tag : UInt16) (commandCode : UInt32) : Reader TpmRequest :=
  if tag = 0x8001 ∧ commandCode = 0x144 then readStartup
  else if tag = 0x8001 ∧ commandCode = 0x17A then readGetCapability
  else if tag = 0x8001 ∧ commandCode = 0x17E then readPcrRead
  else if tag = 0x8002 ∧ commandCode = 0x182 then readPcrExtend
  else if tag = 0x8002 ∧ commandCode = 0x12B then readPcrAllocate
  else failure

def readRequest (total : Nat) : Reader TpmRequest := do
  let tag ← u16
  let commandSize ← u32
  guard (commandSize.toNat = total)
  let commandCode ← u32
  readBody tag commandCode

def parseRequest (bs : List UInt8) : Option TpmRequest := complete (readRequest bs.length) bs

/-! The bytes of a request. -/

def Selection.encode (s : Selection) : List UInt8 := be16 s.hashAlg ++ [3] ++ s.octets.toList

def encodeSelections (ss : List Selection) : List UInt8 :=
  be32 (UInt32.ofNat ss.length) ++ ss.flatMap Selection.encode

def encodeSized (bs : List UInt8) : List UInt8 := be16 (UInt16.ofNat bs.length) ++ bs

def PasswordAuth.area (auth : PasswordAuth) : List UInt8 :=
  be32 0x40000009 ++ encodeSized auth.nonce ++ [auth.attributes] ++ encodeSized auth.password

def PasswordAuth.encode (auth : PasswordAuth) : List UInt8 :=
  be32 (UInt32.ofNat auth.area.length) ++ auth.area

namespace TpmRequest

def tag : TpmRequest → UInt16
  | startup _ | getCapability _ _ _ | pcrRead _ => 0x8001
  | pcrExtend _ _ _ _ | pcrAllocate _ _ _ => 0x8002

def code : TpmRequest → UInt32
  | startup _ => 0x144
  | getCapability _ _ _ => 0x17A
  | pcrRead _ => 0x17E
  | pcrExtend _ _ _ _ => 0x182
  | pcrAllocate _ _ _ => 0x12B

def body : TpmRequest → List UInt8
  | startup mode => be16 mode
  | getCapability capability property propertyCount =>
      be32 capability ++ be32 property ++ be32 propertyCount
  | pcrRead selections => encodeSelections selections
  | pcrExtend handle auth hashAlg digest =>
      be32 handle ++ auth.encode ++ be32 1 ++ be16 hashAlg ++ digest
  | pcrAllocate handle auth selections =>
      be32 handle ++ auth.encode ++ encodeSelections selections

def size (r : TpmRequest) : Nat := 10 + r.body.length

def encode (r : TpmRequest) : List UInt8 :=
  be16 r.tag ++ be32 (UInt32.ofNat r.size) ++ be32 r.code ++ r.body

end TpmRequest

theorem reads_selection (s : Selection) : Reads readSelection s.encode s := by
  obtain ⟨hashAlg, ⟨⟨octets⟩, h⟩⟩ := s
  match octets, h with
  | [a, b, c], _ =>
      simp only [Selection.encode, List.append_assoc]
      apply Reads.bind (reads_u16 hashAlg)
      apply Reads.bind (reads_u8 3)
      apply reads_guard rfl
      change Reads _ ([a] ++ ([b] ++ ([c] ++ []))) _
      apply Reads.bind (reads_u8 a)
      apply Reads.bind (reads_u8 b)
      apply Reads.bind (reads_u8 c)
      exact Reads.pure _

theorem Selection.length_encode (s : Selection) : s.encode.length = 6 := by
  simp only [encode, List.length_append, be16_length, List.length_singleton, Vector.length_toList]

theorem length_encodeSelections (ss : List Selection) :
    (encodeSelections ss).length = 4 + 6 * ss.length := by
  rw [encodeSelections, List.length_append, be32_length]
  congr 1
  induction ss with
  | nil => rfl
  | cons s ss ih =>
      rw [List.flatMap_cons, List.length_append, s.length_encode, ih, List.length_cons]
      omega

theorem reads_selections {ss : List Selection} (h : ss.length < 2 ^ 32) :
    Reads readSelections (encodeSelections ss) ss := by
  apply Reads.bind (reads_u32 _)
  rw [UInt32.toNat_ofNat_of_lt' h]
  exact Reads.many reads_selection ss

theorem reads_sized {bs : List UInt8} (h : bs.length < 2 ^ 16) :
    Reads readSized (encodeSized bs) bs := by
  apply Reads.bind (reads_u16 _)
  apply reads_bytes
  exact (UInt16.toNat_ofNat_of_lt' h).symm

theorem reads_password {auth : PasswordAuth} (hn : auth.nonce.length < 2 ^ 16)
    (hp : auth.password.length < 2 ^ 16) : Reads readPassword auth.area auth := by
  simp only [PasswordAuth.area, List.append_assoc]
  apply Reads.bind (reads_u32 _)
  apply reads_guard rfl
  apply Reads.bind (reads_sized hn)
  apply Reads.bind (reads_u8 _)
  apply Reads.bind_last (reads_sized hp)
  exact Reads.pure auth

theorem PasswordAuth.length_area (auth : PasswordAuth) :
    auth.area.length = 9 + auth.nonce.length + auth.password.length := by
  simp only [area, encodeSized, List.length_append, be32_length, be16_length, List.length_singleton]
  omega

theorem PasswordAuth.length_encode (auth : PasswordAuth) :
    auth.encode.length = 13 + auth.nonce.length + auth.password.length := by
  rw [encode, List.length_append, be32_length, auth.length_area]
  omega

theorem reads_auth {auth : PasswordAuth} (h : auth.encode.length < 2 ^ 16) :
    Reads readAuth auth.encode auth := by
  have hl := auth.length_area
  have he := auth.length_encode
  have hread : Reads readPassword auth.area auth := reads_password (by omega) (by omega)
  have hc := hread.all.complete
  have h32 : auth.area.length < 2 ^ 32 := by omega
  apply Reads.bind (reads_u32 _)
  apply Reads.bind_last (reads_bytes (UInt32.toNat_ofNat_of_lt' h32).symm)
  rw [hc]
  exact Reads.pure auth

/-- The counts and sizes inside a request fit their fields. -/
theorem readsAll_body {r : TpmRequest} (h : r.size < 2 ^ 16) :
    ReadsAll (readBody r.tag r.code) r.body r := by
  rw [TpmRequest.size] at h
  cases r with
  | startup mode => exact (reads_u16 mode).map.all
  | getCapability capability property propertyCount =>
      apply Reads.all
      simp only [TpmRequest.body, List.append_assoc]
      apply Reads.bind (reads_u32 capability)
      apply Reads.bind (reads_u32 property)
      apply Reads.bind_last (reads_u32 propertyCount)
      exact Reads.pure _
  | pcrRead selections =>
      rw [TpmRequest.body, length_encodeSelections] at h
      exact (reads_selections (by omega)).map.all
  | pcrExtend handle auth hashAlg digest =>
      simp only [TpmRequest.body, List.length_append, List.append_assoc] at h ⊢
      apply ReadsAll.bind (reads_u32 handle)
      apply ReadsAll.bind (reads_auth (by omega))
      apply ReadsAll.bind (reads_u32 1)
      apply readsAll_guard rfl
      apply ReadsAll.bind (reads_u16 hashAlg)
      apply readsAll_remaining
      exact (Reads.pure _).all
  | pcrAllocate handle auth selections =>
      simp only [TpmRequest.body, List.length_append, length_encodeSelections, List.append_assoc]
        at h ⊢
      apply Reads.all
      apply Reads.bind (reads_u32 handle)
      apply Reads.bind (reads_auth (by omega))
      apply Reads.bind_last (reads_selections (by omega))
      exact Reads.pure _

theorem TpmRequest.length_encode (r : TpmRequest) : r.encode.length = r.size := by
  simp only [encode, size, List.length_append, be16_length, be32_length]

theorem parseRequest_encode {r : TpmRequest} (h : r.size < 2 ^ 16) :
    parseRequest r.encode = some r := by
  have h32 : r.size < 2 ^ 32 := by omega
  apply ReadsAll.complete
  rw [r.length_encode]
  simp only [TpmRequest.encode, List.append_assoc]
  apply ReadsAll.bind (reads_u16 r.tag)
  apply ReadsAll.bind (reads_u32 _)
  apply readsAll_guard (UInt32.toNat_ofNat_of_lt' h32)
  apply ReadsAll.bind (reads_u32 r.code)
  exact readsAll_body h

end LibTpm.Request
