import LibTpm.Base.Sticky
import LibTpm.CommandBytes

namespace LibTpm.Appends

open LibTpm.Base.BigEndian LibTpm.Base.Sticky LibTpm.Command LibTpm.Constants LibTpm.Endian LibTpm.Builder
open LibTpm.CommandBytes

structure Append where
  newData : UInt32
  newLen : Nat
  deriving DecidableEq, Repr

def lowBytes (x : UInt32) (n : Nat) : List UInt8 :=
  (List.range n).map fun i => UInt8.ofNat (x.toNat / 256 ^ (n - 1 - i))

theorem length_lowBytes (x : UInt32) (n : Nat) : (lowBytes x n).length = n := by
  rw [lowBytes, List.length_map, List.length_range]

def Append.bytes (c : Append) : List UInt8 := lowBytes c.newData c.newLen

def payloadOf (calls : List Append) : List UInt8 := calls.flatMap Append.bytes

theorem length_payloadOf (calls : List Append) :
    (payloadOf calls).length = (calls.map Append.newLen).sum := by
  rw [payloadOf, List.length_flatMap]
  congr 1
  exact List.map_congr_left fun c _ => length_lowBytes c.newData c.newLen

def Fits (payload : List UInt8) (c : Append) : Prop :=
  (c.newLen = 1 ∨ c.newLen = 2 ∨ c.newLen = 4) ∧ tpmHeaderSize + payload.length + c.newLen ≤ maxSizeCmdbuf

instance (payload : List UInt8) (c : Append) : Decidable (Fits payload c) :=
  inferInstanceAs (Decidable (_ ∧ _))

def firstRefused (calls : List Append) : Nat := cut Fits (fun payload c => payload ++ c.bytes) [] calls

theorem foldl_bytes (calls : List Append) (payload : List UInt8) :
    calls.foldl (fun payload c => payload ++ c.bytes) payload = payload ++ payloadOf calls := by
  induction calls generalizing payload with
  | nil => exact (List.append_nil payload).symm
  | cons c calls ih =>
      rw [List.foldl_cons, ih, List.append_assoc]
      rfl

theorem foldl_take (calls : List Append) (j : Nat) :
    (calls.take j).foldl (fun payload c => payload ++ c.bytes) [] = payloadOf (calls.take j) :=
  foldl_bytes (calls.take j) []

/-! The low-order bytes in the lengths of the builder. -/

theorem eq_lowByte {y : UInt8} {m : Nat} (h : y.toNat = m % 256) : y = UInt8.ofNat m := by
  apply UInt8.toNat_inj.mp
  rw [UInt8.toNat_ofNat', h]

theorem lowBytes_one (x : UInt32) : lowBytes x 1 = [x.toUInt8] := by
  have h0 : x.toUInt8 = UInt8.ofNat (x.toNat / 256 ^ 0) := eq_lowByte (by simp)
  rw [h0]
  rfl

theorem lowBytes_two (x : UInt32) : lowBytes x 2 = be16 x.toUInt16 := by
  have h1 : (x.toUInt16 >>> 8).toUInt8 = UInt8.ofNat (x.toNat / 256 ^ 1) := eq_lowByte (by
    simp [Nat.shiftRight_eq_div_pow]
    omega)
  have h0 : x.toUInt16.toUInt8 = UInt8.ofNat (x.toNat / 256 ^ 0) := eq_lowByte (by simp)
  rw [be16, h1, h0]
  rfl

theorem lowBytes_four (x : UInt32) : lowBytes x 4 = be32 x := by
  have hshift (k : UInt32) (i : Nat) (hk : k.toNat = 8 * i) (hi : i < 4) :
      (x >>> k).toUInt8 = UInt8.ofNat (x.toNat / 256 ^ i) := eq_lowByte (by
    have hpow : 2 ^ (8 * i) = 256 ^ i := by rw [Nat.pow_mul]
    have hmod : 8 * i % 32 = 8 * i := Nat.mod_eq_of_lt (by omega)
    rw [UInt32.toNat_toUInt8, UInt32.toNat_shiftRight, hk, hmod, Nat.shiftRight_eq_div_pow, hpow])
  have h0 : x.toUInt8 = UInt8.ofNat (x.toNat / 256 ^ 0) := eq_lowByte (by simp)
  rw [be32, hshift 24 3 rfl (by decide), hshift 16 2 rfl (by decide), hshift 8 1 rfl (by decide), h0]
  rfl

variable [Host]

theorem newDataBytes_lowBytes (x : UInt32) {n : Nat} (h : n = 1 ∨ n = 2 ∨ n = 4) :
    newDataBytes x n = some (lowBytes x n) := by
  rcases h with rfl | rfl | rfl
  · rw [newDataBytes, lowBytes_one]
  · rw [newDataBytes, lowBytes_two, store16_htobe16]
  · rw [newDataBytes, lowBytes_four, store32_htobe32]

theorem newDataBytes_none (x : UInt32) {n : Nat} (h : ¬ (n = 1 ∨ n = 2 ∨ n = 4)) : newDataBytes x n = none := by
  unfold newDataBytes
  split <;> simp_all

def step (builder : TpmCmdBuilder) (c : Append) : TpmCmdBuilder := append builder c.newData c.newLen

def run (builder : TpmCmdBuilder) (calls : List Append) : TpmCmdBuilder := calls.foldl step builder

/-- The stores that the loop of one call makes to the data area. -/
def stores (builder : TpmCmdBuilder) (c : Append) : List (Nat × UInt8) :=
  if builder.errorState ≠ .success then []
  else
    let commandSize := be32toh builder.cmd.cmdSize
    if (commandSize.toNat + c.newLen) % 2 ^ 64 > maxSizeCmdbuf then []
    else
      let start := commandSize.toNat - tpmHeaderSize
      match newDataBytes c.newData c.newLen with
      | none => []
      | some array => (List.range' start c.newLen).zip array

def runStores (builder : TpmCmdBuilder) : List Append → List (Nat × UInt8)
  | [] => []
  | c :: calls => stores builder c ++ runStores (step builder c) calls

omit [Host] in
theorem setBytes_eq_foldl (cmd : TpmCmd) (start : Nat) (array : List UInt8) :
    cmd.setBytes (tpmHeaderSize + start) array =
      ((List.range' start array.length).zip array).foldl (fun cmd s => cmd.setData s.1 s.2) cmd := by
  induction array generalizing cmd start with
  | nil => rfl
  | cons b array ih =>
      rw [TpmCmd.setBytes, Nat.add_assoc, ih, List.length_cons, List.range'_succ, List.zip_cons_cons, List.foldl_cons]
      rfl

theorem tpmUpdateBuffer_stores (builder : TpmCmdBuilder) (c : Append) :
    let r := tpmUpdateBuffer builder c.newData c.newLen
    r.2.cmd = if r.1 = tpmSuccess then
      ((stores builder c).foldl (fun cmd s => cmd.setData s.1 s.2) builder.cmd).setCmdSize
        (htobe32 (be32toh builder.cmd.cmdSize + UInt32.ofNat c.newLen))
    else builder.cmd := by
  dsimp only
  rw [tpmUpdateBuffer, stores]
  by_cases herr : builder.errorState = .success
  · have hinvalid : tpmInvalidParam ≠ tpmSuccess := invalidParam_ne_success
    rw [if_neg (not_not.mpr herr), if_neg (not_not.mpr herr)]
    dsimp only
    split
    · rfl
    · cases harray : newDataBytes c.newData c.newLen with
      | none => exact (if_neg hinvalid).symm
      | some array =>
          dsimp only
          rw [setBytes_eq_foldl, (newDataBytes_length harray).1]
          exact (if_pos rfl).symm
  · rw [if_pos herr]
    exact (if_neg fun h => herr (code_injective h)).symm

variable {tag : UInt16} {code : UInt32} {payload : List UInt8} {builder : TpmCmdBuilder} {c : Append}

structure Live (tag : UInt16) (code : UInt32) (payload : List UInt8) (builder : TpmCmdBuilder) : Prop where
  fits : tpmHeaderSize + payload.length ≤ maxSizeCmdbuf
  ok : builder.errorState = .success
  bytes : builder.cmd.bytes = image tag code payload

theorem Live.size (h : Live tag code payload builder) :
    (be32toh builder.cmd.cmdSize).toNat = tpmHeaderSize + payload.length := by
  have hlt : tpmHeaderSize + payload.length < 2 ^ 32 := lt_of_le_of_lt h.fits (by decide)
  rw [cmdSize_of_image builder.cmd h.bytes, UInt32.toNat_ofNat_of_lt' hlt]

theorem Live.accept (h : Live tag code payload builder) (hc : Fits payload c) :
    Live tag code (payload ++ c.bytes) (step builder c) := by
  obtain ⟨hlen, hfits⟩ := hc
  have hbuilt : Built tag code payload builder := by
    rw [Built, if_pos h.fits]
    exact ⟨h.ok, h.bytes⟩
  have hsum : tpmHeaderSize + (payload ++ c.bytes).length ≤ maxSizeCmdbuf := by
    rw [List.length_append, Append.bytes, length_lowBytes, ← Nat.add_assoc]
    exact hfits
  have hnext := hbuilt.append (newDataBytes_lowBytes c.newData hlen)
  rw [Built] at hnext
  rw [Append.bytes] at hsum ⊢
  rw [if_pos hsum] at hnext
  exact ⟨hsum, hnext.1, hnext.2⟩

theorem Live.stores (h : Live tag code payload builder) (hc : Fits payload c) :
    stores builder c = (List.range' payload.length c.newLen).zip c.bytes := by
  obtain ⟨hlen, hfits⟩ := hc
  have hmax : maxSizeCmdbuf < 2 ^ 64 := by decide
  have hmod : (tpmHeaderSize + payload.length + c.newLen) % 2 ^ 64 = tpmHeaderSize + payload.length + c.newLen :=
    Nat.mod_eq_of_lt (by omega)
  rw [Appends.stores, if_neg (not_not.mpr h.ok)]
  dsimp only
  rw [h.size, hmod, if_neg (not_lt.mpr hfits), newDataBytes_lowBytes c.newData hlen, Nat.add_sub_cancel_left]
  rfl

/-- A call that does not fit stores nothing and leaves its error. A length
for which the sum in size_t wraps around is none of the lengths that are known. -/
theorem Live.refuse (h : Live tag code payload builder) (hc : ¬ Fits payload c) :
    step builder c = { builder with errorState := .invalidParam } ∧ Appends.stores builder c = [] := by
  have hsmall : ¬ (tpmHeaderSize + payload.length + c.newLen) % 2 ^ 64 > maxSizeCmdbuf →
      newDataBytes c.newData c.newLen = none := by
    intro hle
    apply newDataBytes_none
    intro hlen
    apply hc
    have hfits := h.fits
    have hmax : maxSizeCmdbuf = 256 := rfl
    refine ⟨hlen, ?_⟩
    rw [Nat.mod_eq_of_lt (by omega)] at hle
    exact not_lt.mp hle
  constructor
  · rw [step, append, tpmUpdateBuffer, if_neg (not_not.mpr h.ok)]
    dsimp only
    rw [h.size]
    split
    next => rfl
    next hle => rw [hsmall hle]
  · rw [Appends.stores, if_neg (not_not.mpr h.ok)]
    dsimp only
    rw [h.size]
    split
    next => rfl
    next hle => rw [hsmall hle]

theorem step_error (h : builder.errorState = .invalidParam) : step builder c = builder ∧ stores builder c = [] := by
  have hne : builder.errorState ≠ .success := by
    rw [h]
    decide
  constructor
  · rw [step, append, tpmUpdateBuffer, if_pos hne]
  · rw [stores, if_pos hne]

theorem latches (tag : UInt16) (code : UInt32) :
    Latches Fits (fun payload c => payload ++ c.bytes) step TpmCmdBuilder.cmd (Live tag code)
      (fun builder => builder.errorState = .invalidParam) where
  accept := Live.accept
  refuse h hc := by
    rw [(h.refuse hc).1]
    exact ⟨rfl, rfl⟩
  stay h := by
    rw [(step_error h).1]
    exact ⟨h, rfl⟩

theorem tpmCmdInit_live (tag : UInt16) (code : UInt32) : Live tag code [] (tpmCmdInit tag code) := by
  have hfits : tpmHeaderSize + ([] : List UInt8).length ≤ maxSizeCmdbuf := by decide
  have hbuilt := tpmCmdInit_built tag code
  rw [Built, if_pos hfits] at hbuilt
  exact ⟨hfits, hbuilt.1, hbuilt.2⟩

theorem error_runStores (h : builder.errorState = .invalidParam) (calls : List Append) :
    runStores builder calls = [] := by
  induction calls with
  | nil => rfl
  | cons c calls ih => rw [runStores, (step_error h).1, (step_error h).2, ih, List.append_nil]

theorem Live.runStores (h : Live tag code payload builder) (calls : List Append) :
    ∀ s ∈ runStores builder calls, s.1 < maxCmdData := by
  induction calls generalizing payload builder with
  | nil => exact fun s hs => absurd hs List.not_mem_nil
  | cons c calls ih =>
      intro s hs
      rw [Appends.runStores, List.mem_append] at hs
      by_cases hc : Fits payload c
      · rcases hs with hs | hs
        · rw [h.stores hc] at hs
          have hindex := (List.of_mem_zip hs).1
          rw [List.mem_range'_1] at hindex
          have hfits := hc.2
          have hdata : maxCmdData = maxSizeCmdbuf - tpmHeaderSize := rfl
          omega
        · exact ih (h.accept hc) s hs
      · rw [(h.refuse hc).2, (h.refuse hc).1, error_runStores rfl] at hs
        exact absurd hs (not_or_intro List.not_mem_nil List.not_mem_nil)

theorem run_take_live (tag : UInt16) (code : UInt32) (calls : List Append) :
    Live tag code (payloadOf (calls.take (firstRefused calls)))
      (run (tpmCmdInit tag code) (calls.take (firstRefused calls))) := by
  rw [← foldl_take]
  exact (latches tag code).live_take (tpmCmdInit_live tag code) (Nat.le_refl _)

theorem finalize_run (tag : UInt16) (code : UInt32) (calls : List Append) :
    tpmBuilderFinalize (run (tpmCmdInit tag code) calls) =
      if firstRefused calls = calls.length then tpmSuccess else tpmInvalidParam := by
  have hle : firstRefused calls ≤ calls.length := cut_le [] calls
  rw [tpmBuilderFinalize]
  by_cases hk : firstRefused calls = calls.length
  · have hlive := run_take_live tag code calls
    rw [hk, List.take_length] at hlive
    rw [if_pos hk, hlive.ok]
  · have hlt : firstRefused calls < calls.length := Nat.lt_of_le_of_ne hle hk
    have hdead := ((latches tag code).dead_take (tpmCmdInit_live tag code) hlt hlt).1
    rw [List.take_length] at hdead
    rw [if_neg hk]
    exact congrArg TpmRetValue.code hdead

theorem live_of_finalize {calls : List Append}
    (h : tpmBuilderFinalize (run (tpmCmdInit tag code) calls) = tpmSuccess) :
    Live tag code (payloadOf calls) (run (tpmCmdInit tag code) calls) := by
  have hall : firstRefused calls = calls.length := by
    by_contra hk
    rw [finalize_run, if_neg hk] at h
    exact absurd h invalidParam_ne_success
  have hlive := run_take_live tag code calls
  rwa [hall, List.take_length] at hlive

/-- What a sequence of calls makes of a fresh command, with `k` the index of
the first call that does not fit. -/
theorem appends_build (tag : UInt16) (code : UInt32) (calls : List Append) :
    let k := firstRefused calls
    let fresh := tpmCmdInit tag code
    ((∀ j c, j < k → calls[j]? = some c → Fits (payloadOf (calls.take j)) c) ∧ k ≤ calls.length ∧
      ∀ c, calls[k]? = some c → ¬ Fits (payloadOf (calls.take k)) c) ∧
    (run fresh calls).cmd.bytes = image tag code (payloadOf (calls.take k)) ∧
    (payloadOf (calls.take k)).length = ((calls.take k).map Append.newLen).sum ∧
    (∀ s ∈ runStores fresh calls, s.1 < maxCmdData) ∧
    (∀ j, k ≤ j → (run fresh (calls.take j)).cmd = (run fresh (calls.take k)).cmd) ∧
    tpmBuilderFinalize (run fresh calls) = if k = calls.length then tpmSuccess else tpmInvalidParam := by
  intro k fresh
  have hfresh : Live tag code [] fresh := tpmCmdInit_live tag code
  have hle : k ≤ calls.length := cut_le [] calls
  have hkeep (j : Nat) (hj : k ≤ j) : (run fresh (calls.take j)).cmd = (run fresh (calls.take k)).cmd :=
    (latches tag code).seen_take hfresh hj
  refine ⟨⟨?_, hle, ?_⟩, ?_, length_payloadOf _, hfresh.runStores calls, hkeep, finalize_run tag code calls⟩
  · intro j c hj hc
    rw [← foldl_take]
    exact fits_of_lt_cut hj hc
  · intro c hc
    rw [← foldl_take]
    exact not_fits_cut hc
  · have hall := hkeep calls.length hle
    rw [List.take_length] at hall
    rw [hall]
    exact (run_take_live tag code calls).bytes

end LibTpm.Appends
