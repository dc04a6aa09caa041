import LibTpm.CommandBytes
import LibTpm.Traffic

namespace LibTpm.CommandCalls

open LibTpm.Base.Process LibTpm.Base.Process.Proc LibTpm.Command LibTpm.Constants LibTpm.Endian
open LibTpm.Platform LibTpm.Builder LibTpm.Commands LibTpm.Getcap LibTpm.Request
open LibTpm.CommandBytes LibTpm.Traffic

inductive CommandCall
  | startup (chip : ChipData) (mode : UInt16)
  | pcrExtend (chip : ChipData) (index : UInt32) (algorithm : UInt16)
      (digest : Option (Nat → UInt8)) (digestLen : UInt32)
  | pcrReadSingle (stack : TpmCmd) (chip : ChipData) (index : UInt32) (algorithm : UInt16)
      (pcrDigestRead : Option (List UInt8))
  | pcrAllocateAuthPassword (chip : Option ChipData) (password : Option (Nat → UInt8))
      (passwordLen : UInt16) (banks : Option (Nat → TpmPcrAllocateBank)) (out : Option AllocateOut)
  | getcapRaw (chip : Option ChipData) (capability property propertyCount : UInt32)
      (respOut : TpmCmd) (moreDataOut : Bool)

def bankList (banks : Nat → TpmPcrAllocateBank) : List TpmPcrAllocateBank :=
  ((List.range' 0 tpmMaxPcrSelections).map banks).takeWhile (fun bank => bank.hashAlg ≠ tpmAlgNull)

namespace CommandCall

/-- The request that the arguments ask for, when they are valid. -/
def request : CommandCall → Option TpmRequest
  | startup _ mode => some (.startup mode)
  | pcrExtend _ index algorithm digest digestLen =>
      digest.map fun digest => .pcrExtend index ⟨[], 0, []⟩ algorithm (memory digest digestLen.toNat)
  | pcrReadSingle _ _ index algorithm buf =>
      if index.toNat < 24 ∧ buf.isSome then
        some (.pcrRead [⟨algorithm, pcrOctets index.toNat⟩])
      else none
  | pcrAllocateAuthPassword chip password passwordLen banks out =>
      if chip.isSome ∧ out.isSome ∧ (passwordLen = 0 ∨ password.isSome) then
        banks.bind fun banks =>
          if 0 < (bankList banks).length ∧ (bankList banks).length < tpmMaxPcrSelections then
            some (.pcrAllocate 0x4000000C
              ⟨[], 0, memory (password.getD fun _ => 0) passwordLen.toNat⟩
              ((bankList banks).map selectionOf))
          else none
      else none
  | getcapRaw chip capability property propertyCount _ _ =>
      chip.map fun _ => .getCapability capability property propertyCount

variable [Host] {W : Type} (interface : Interface W)

def run : CommandCall → Proc W Int
  | startup chip mode => tpmStartup interface chip mode
  | pcrExtend chip index algorithm digest digestLen =>
      tpmPcrExtend interface chip index algorithm digest digestLen
  | pcrReadSingle stack chip index algorithm buf =>
      return (← tpmPcrReadSingle interface stack chip index algorithm buf).1
  | pcrAllocateAuthPassword chip password passwordLen banks out =>
      return (← tpmPcrAllocateAuthPassword interface chip password passwordLen banks out).1
  | getcapRaw chip capability property propertyCount respOut moreDataOut =>
      return (← Getcap.getcapRaw interface chip capability property propertyCount respOut
        moreDataOut).1

end CommandCall

theorem countBanks_spec (banks : Nat → TpmPcrAllocateBank) (i n : Nat) :
    ((List.range' i n).map banks).takeWhile (fun bank => bank.hashAlg ≠ tpmAlgNull) =
      (List.range' i (countBanks banks i n)).map banks := by
  induction n generalizing i with
  | zero => rfl
  | succ n ih =>
      rw [List.range'_succ, List.map_cons, List.takeWhile_cons, countBanks]
      by_cases h : (banks i).hashAlg = tpmAlgNull
      · rw [if_pos h, if_neg (by simpa using h)]
        rfl
      · rw [if_neg h, if_pos (by simpa using h), List.range'_succ, List.map_cons, ih (i + 1)]

theorem bankList_eq (banks : Nat → TpmPcrAllocateBank) :
    bankList banks = (List.range' 0 (countBanks banks 0 tpmMaxPcrSelections)).map banks :=
  countBanks_spec banks 0 tpmMaxPcrSelections

theorem bankList_length (banks : Nat → TpmPcrAllocateBank) :
    (bankList banks).length = countBanks banks 0 tpmMaxPcrSelections := by
  rw [bankList_eq, List.length_map, List.length_range']

theorem password_given {password : Option (Nat → UInt8)} {passwordLen : UInt16} :
    passwordLen = 0 ∨ password.isSome ↔ ¬ (passwordLen > 0 ∧ password.isNone) := by
  have hpos : passwordLen > 0 ↔ passwordLen ≠ 0 := UInt16.pos_iff_ne_zero
  rw [hpos, not_and_or, not_not, Option.isNone_iff_eq_none, Option.isSome_iff_ne_none]

variable [Host] {W : Type} {interface : Interface W}

/-- What a call makes of a valid request: it sends the request when it fits
the buffer, and otherwise it returns an error and sends nothing. -/
def Sends {α : Type} (val : α → Int) (p : Proc (W × List Message) α) (w : W) (r : TpmRequest) : Prop :=
  if r.size ≤ maxSizeCmdbuf then
    ∃ cmd, sentCommands (p (w, [])).2.2 = [cmd] ∧ parseRequest cmd.serialise = some r
  else ∃ a, val a = tpmInvalidParam ∧ p (w, []) = (some a, w, [])

/-- The part that the calls have in common: the builder is checked, and the
command goes to one exchange, after which nothing more is sent. -/
theorem sends_of_built {α : Type} {val : α → Int} {r : TpmRequest} {builder : TpmCmdBuilder}
    {chip : ChipData} {buf : TpmCmd} {a : α} {rest : Int × TpmCmd → Proc (W × List Message) α}
    (h : Built r.tag r.code r.body builder) (ha : val a = tpmBuilderFinalize builder)
    (hrest : ∀ (I : W × List Message → Prop) x, Keeps I (rest x)) (w : W) :
    Sends val (if tpmBuilderFinalize builder < 0 then pure a
      else tpmXfer (logged interface) chip builder.cmd buf >>= rest) w r := by
  have hf := h.finish
  rw [Sends]
  split
  next hfit =>
    rw [if_pos hfit] at hf
    obtain ⟨hok, hbytes⟩ := hf
    refine ⟨builder.cmd, ?_, ?_⟩
    · rw [if_neg (by rw [hok]; decide)]
      refine world_bind (C := fun s : W × List Message => sentCommands s.2 = [builder.cmd]) ?_ ?_
      · exact tpmXfer_sends interface chip builder.cmd buf (w, [])
      · exact hrest _
    · have hmax : r.size < 2 ^ 16 := by
        have : maxSizeCmdbuf < 2 ^ 16 := by decide
        omega
      rw [hbytes]
      exact parseRequest_encode hmax
  next hfit =>
    rw [if_neg hfit] at hf
    rw [if_pos (by rw [hf]; decide)]
    exact ⟨a, ha.trans hf, rfl⟩

theorem Sends.value {α : Type} {val : α → Int} {p : Proc (W × List Message) α} {w : W}
    {r : TpmRequest} (h : Sends val p w r) : Sends id (return val (← p)) w r := by
  rw [Sends] at h ⊢
  split
  next hfit =>
    rw [if_pos hfit] at h
    obtain ⟨cmd, hs, hp⟩ := h
    exact ⟨cmd, world_bind (C := fun s : W × List Message => sentCommands s.2 = [cmd]) hs
      fun _ => keeps_pure _ _, hp⟩
  next hfit =>
    rw [if_neg hfit] at h
    obtain ⟨a, ha, hp⟩ := h
    exact ⟨val a, ha, bind_some hp⟩

theorem tpmStartup_sends (chip : ChipData) (mode : UInt16) (w : W) :
    Sends id (tpmStartup (logged interface) chip mode) w (.startup mode) := by
  rw [tpmStartup]
  refine sends_of_built (startupCommand_built mode) ?_ ?_ w
  · rfl
  rintro I ⟨ret, resp⟩
  refine Keeps.unless (Keeps.unless (Keeps.unless ?_))
  exact keeps_pure I _

theorem tpmPcrExtend_sends (chip : ChipData) (index : UInt32) (algorithm : UInt16)
    (digest : Nat → UInt8) (digestLen : UInt32) (w : W) :
    Sends id (tpmPcrExtend (logged interface) chip index algorithm (some digest) digestLen) w
      (.pcrExtend index ⟨[], 0, []⟩ algorithm (memory digest digestLen.toNat)) := by
  rw [tpmPcrExtend]
  refine sends_of_built (pcrExtendCommand_built index algorithm digest digestLen) ?_ ?_ w
  · rfl
  rintro I ⟨ret, resp⟩
  exact Keeps.unless (Keeps.unless (keeps_pure I _))

theorem getcapRaw_sends (chip : ChipData) (capability property propertyCount : UInt32)
    (respOut : TpmCmd) (moreDataOut : Bool) (w : W) :
    Sends Prod.fst (getcapRaw (logged interface) (some chip) capability property propertyCount
      respOut moreDataOut) w (.getCapability capability property propertyCount) := by
  rw [getcapRaw]
  dsimp only
  refine sends_of_built (getcapCommand_built capability property propertyCount) ?_ ?_ w
  · rfl
  rintro I ⟨ret, resp⟩
  refine Keeps.unless (Keeps.unless (Keeps.unless ?_))
  exact Keeps.unless (keeps_pure I _)

theorem tpmPcrReadSingle_sends (stack : TpmCmd) (chip : ChipData) {index : UInt32}
    (h : index < 24) (algorithm : UInt16) (buf : List UInt8) (w : W) :
    Sends Prod.fst (tpmPcrReadSingle (logged interface) stack chip index algorithm (some buf)) w
      (.pcrRead [⟨algorithm, pcrOctets index.toNat⟩]) := by
  have hle : ¬ index ≥ tpmPcrSelectSize.toUInt32 * 8 := UInt32.not_le.mpr h
  rw [tpmPcrReadSingle, if_neg hle]
  dsimp only
  refine sends_of_built (pcrReadCommand_built h algorithm) ?_ ?_ w
  · dsimp only
  rintro I ⟨ret, resp⟩
  refine Keeps.unless (Keeps.unless (Keeps.unless ?_))
  exact Keeps.unless (Keeps.unless (keeps_pure I _))

theorem tpmPcrAllocateAuthPassword_sends (chip : ChipData) (password : Option (Nat → UInt8))
    (passwordLen : UInt16) (banks : Nat → TpmPcrAllocateBank) (out : AllocateOut) (w : W)
    (hp : passwordLen = 0 ∨ password.isSome) (h0 : 0 < (bankList banks).length)
    (h8 : (bankList banks).length < tpmMaxPcrSelections) :
    Sends Prod.fst (tpmPcrAllocateAuthPassword (logged interface) (some chip) password passwordLen
      (some banks) (some out)) w
      (.pcrAllocate 0x4000000C ⟨[], 0, memory (password.getD fun _ => 0) passwordLen.toNat⟩
        ((bankList banks).map selectionOf)) := by
  have hnone := password_given.mp hp
  have hcount := bankList_length banks
  rw [tpmPcrAllocateAuthPassword]
  dsimp only
  rw [if_neg hnone, if_neg (by omega), if_neg (by omega), bankList_eq, List.map_map]
  refine sends_of_built (pcrAllocateCommand_built _ passwordLen banks _) ?_ ?_ w
  · rfl
  rintro I ⟨ret, resp⟩
  refine Keeps.unless (Keeps.unless (Keeps.unless ?_))
  refine Keeps.unless (Keeps.unless (keeps_pure I _))

def Obliged {α : Type} (val : α → Int) (p : Proc (W × List Message) α) (w : W) :
    Option TpmRequest → Prop
  | some r => Sends val p w r
  | none => ∃ a, val a = tpmInvalidParam ∧ p (w, []) = (some a, w, [])

theorem Obliged.value {α : Type} {val : α → Int} {p : Proc (W × List Message) α} {w : W}
    {r : Option TpmRequest} (h : Obliged val p w r) : Obliged id (return val (← p)) w r := by
  cases r with
  | some r => exact Sends.value h
  | none =>
      obtain ⟨a, ha, hp⟩ := h
      exact ⟨val a, ha, bind_some hp⟩

theorem tpmPcrReadSingle_obliged (stack : TpmCmd) (chip : ChipData) (index : UInt32)
    (algorithm : UInt16) (buf : Option (List UInt8)) (w : W) :
    Obliged Prod.fst (tpmPcrReadSingle (logged interface) stack chip index algorithm buf) w
      (CommandCall.request (.pcrReadSingle stack chip index algorithm buf)) := by
  by_cases h : index < 24
  · have hlt : index.toNat < 24 := h
    cases buf with
    | some buf =>
        rw [CommandCall.request, if_pos ⟨hlt, rfl⟩]
        exact tpmPcrReadSingle_sends stack chip h algorithm buf w
    | none =>
        have hle : ¬ index ≥ tpmPcrSelectSize.toUInt32 * 8 := UInt32.not_le.mpr h
        rw [CommandCall.request, if_neg (by simp)]
        unfold tpmPcrReadSingle
        rw [if_neg hle]
        exact ⟨_, rfl, rfl⟩
  · have hge : ¬ index.toNat < 24 := h
    have hle : index ≥ tpmPcrSelectSize.toUInt32 * 8 := UInt32.not_lt.mp h
    rw [CommandCall.request, if_neg (fun hc => hge hc.1)]
    unfold tpmPcrReadSingle
    rw [if_pos hle]
    exact ⟨_, rfl, rfl⟩

theorem tpmPcrAllocateAuthPassword_obliged (chip : Option ChipData)
    (password : Option (Nat → UInt8)) (passwordLen : UInt16)
    (banks : Option (Nat → TpmPcrAllocateBank)) (out : Option AllocateOut) (w : W) :
    Obliged Prod.fst (tpmPcrAllocateAuthPassword (logged interface) chip password passwordLen banks
      out) w (CommandCall.request (.pcrAllocateAuthPassword chip password passwordLen banks out)) := by
  rw [CommandCall.request]
  match chip, banks, out with
  | none, _, _ => exact ⟨_, rfl, rfl⟩
  | some chip, none, out =>
      rw [Option.bind_none, ite_self]
      exact ⟨_, rfl, rfl⟩
  | some chip, some banks, none => exact ⟨_, rfl, rfl⟩
  | some chip, some banks, some out =>
      by_cases hp : passwordLen = 0 ∨ password.isSome
      · rw [if_pos ⟨rfl, rfl, hp⟩, Option.bind_some]
        by_cases hb : 0 < (bankList banks).length ∧ (bankList banks).length < tpmMaxPcrSelections
        · rw [if_pos hb]
          exact tpmPcrAllocateAuthPassword_sends chip password passwordLen banks out w hp hb.1 hb.2
        · rw [if_neg hb]
          rw [bankList_length] at hb
          unfold tpmPcrAllocateAuthPassword
          dsimp only
          rw [if_neg (password_given.mp hp)]
          split
          next => exact ⟨_, rfl, rfl⟩
          next h0 =>
            rw [if_pos (by omega)]
            exact ⟨_, rfl, rfl⟩
      · rw [if_neg (fun h => hp h.2.2)]
        unfold tpmPcrAllocateAuthPassword
        dsimp only
        rw [if_pos (not_not.mp (mt password_given.mpr hp))]
        exact ⟨_, rfl, rfl⟩

theorem CommandCall.obliged (call : CommandCall) (w : W) :
    Obliged id (call.run (logged interface)) w call.request := by
  cases call with
  | startup chip mode => exact tpmStartup_sends chip mode w
  | pcrExtend chip index algorithm digest digestLen =>
      cases digest with
      | some digest => exact tpmPcrExtend_sends chip index algorithm digest digestLen w
      | none => exact ⟨_, rfl, rfl⟩
  | pcrReadSingle stack chip index algorithm buf =>
      exact (tpmPcrReadSingle_obliged stack chip index algorithm buf w).value
  | pcrAllocateAuthPassword chip password passwordLen banks out =>
      exact (tpmPcrAllocateAuthPassword_obliged chip password passwordLen banks out w).value
  | getcapRaw chip capability property propertyCount respOut moreDataOut =>
      cases chip with
      | some chip =>
          exact (getcapRaw_sends chip capability property propertyCount respOut moreDataOut w).value
      | none => exact ⟨_, rfl, rfl⟩

/-- Every call with valid arguments sends exactly its request, or reports that
the request does not fit; every other call reports this and sends nothing. -/
theorem commandCall_sends (interface : Interface W) (call : CommandCall) (w : W) :
    match call.request with
    | some r =>
        if r.size ≤ maxSizeCmdbuf then
          ∃ cmd, sentCommands (call.run (logged interface) (w, [])).2.2 = [cmd] ∧
            parseRequest cmd.serialise = some r
        else call.run (logged interface) (w, []) = (some tpmInvalidParam, w, [])
    | none => call.run (logged interface) (w, []) = (some tpmInvalidParam, w, []) := by
  have h : Obliged id (call.run (logged interface)) w call.request := call.obliged w
  cases hr : call.request with
  | some r =>
      rw [hr, Obliged, Sends] at h
      dsimp only
      split
      next hfit => rwa [if_pos hfit] at h
      next hfit =>
        rw [if_neg hfit] at h
        obtain ⟨a, rfl, hp⟩ := h
        exact hp
  | none =>
      rw [hr] at h
      obtain ⟨a, rfl, hp⟩ := h
      exact hp

end LibTpm.CommandCalls
