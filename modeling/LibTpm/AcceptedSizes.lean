import LibTpm.PublicCalls
import LibTpm.ResponseSizes

namespace LibTpm.AcceptedSizes

open LibTpm.Base.Process LibTpm.Base.Process.Proc LibTpm.Command LibTpm.Constants LibTpm.Endian LibTpm.Platform
open LibTpm.Fifo LibTpm.Builder LibTpm.Getcap LibTpm.Commands LibTpm.Queries LibTpm.Library LibTpm.PublicCalls
open LibTpm.ResponseSizes

variable {W V : Type}

/-- One call of receive: the locality page, the accesses that it makes, and its
result when it returns. -/
structure Reception where
  base : UInt16
  accesses : List Access
  result : Option (Int × TpmCmd)

section Receptions

variable [Host]

def withReceptions (port : FifoPort W) (fuel : Nat) : Interface (W × List Reception) where
  getInfo chip locality := observe (fun _ => []) (tpm2GetInfo port chip locality)
  send chip cmd := observe (fun _ => []) (tpm2FifoSend port fuel chip cmd)
  receive chip buf := fun s =>
    ((tpm2FifoReceive port.recorded fuel chip buf (s.1, [])).1,
      (tpm2FifoReceive port.recorded fuel chip buf (s.1, [])).2.1,
      s.2 ++ [⟨localityStartAddress chip.locality, (tpm2FifoReceive port.recorded fuel chip buf (s.1, [])).2.2,
        (tpm2FifoReceive port.recorded fuel chip buf (s.1, [])).1⟩])
  requestAccess chip locality := observe (fun _ => []) (tpm2FifoRequestAccess port fuel chip locality)
  releaseLocality chip locality := observe (fun _ => []) (tpm2FifoReleaseLocality port chip locality)

namespace Reception

/-- A response that is accepted has a size in range. -/
def InRange (x : Reception) : Prop := ∀ ret resp, x.result = some (ret, resp) → 0 ≤ ret → SizeInRange resp

inductive Genuine (x : Reception) : Prop
  | pending (result : x.result = none) (none : ∀ header, ¬ Undersized x.base x.accesses header)
  | returned (r : Int × TpmCmd) (result : x.result = some r) (sized : Sized x.base x.accesses r)

variable {x : Reception}

theorem Genuine.inRange_iff (h : x.Genuine) : x.InRange ↔ ∀ header, ¬ Undersized x.base x.accesses header := by
  cases h with
  | pending result none =>
      refine ⟨fun _ => none, fun _ ret resp hr => ?_⟩
      rw [result] at hr
      exact absurd hr (Option.some_ne_none _).symm
  | returned r result sized =>
      cases sized with
      | refused err none =>
          refine ⟨fun _ => none, fun _ ret resp hr hret => ?_⟩
          obtain rfl := Option.some.inj (result.symm.trans hr)
          exact absurd err (not_lt.mpr hret)
      | sound ok size none =>
          refine ⟨fun _ => none, fun _ ret resp hr _ => ?_⟩
          obtain rfl := Option.some.inj (result.symm.trans hr)
          exact size
      | undersized ok header only =>
          refine ⟨fun hin => ?_, fun hno => absurd header (hno _)⟩
          have hsize := (hin r.1 r.2 result ok).1
          have hshort := header.short
          rw [field_cmdSize] at hshort
          exact absurd hshort (not_lt.mpr hsize)

/-- An undersized header is the one of the response. -/
theorem Genuine.header {ret : Int} {resp : TpmCmd} {header : List UInt8} (h : x.Genuine)
    (hr : x.result = some (ret, resp)) (hu : Undersized x.base x.accesses header) : header = resp.header := by
  cases h with
  | pending result none => exact absurd hu (none header)
  | returned r result sized =>
      obtain rfl := Option.some.inj (result.symm.trans hr)
      cases sized with
      | refused err none => exact absurd hu (none header)
      | sound ok size none => exact absurd hu (none header)
      | undersized ok hheader only => exact only header hu

end Reception

variable {port : FifoPort W} {fuel : Nat}

theorem receive_genuine (port : FifoPort W) (fuel : Nat) (chip : ChipData) (buf : TpmCmd) (w : W) :
    Reception.Genuine ⟨localityStartAddress chip.locality,
      (tpm2FifoReceive port.recorded fuel chip buf (w, [])).2.2,
      (tpm2FifoReceive port.recorded fuel chip buf (w, [])).1⟩ := by
  have h : Meets (tpm2FifoReceive port.recorded fuel chip buf) (w, []) _ _ := tpm2FifoReceive_sized fuel chip buf w
  rcases hr : tpm2FifoReceive port.recorded fuel chip buf (w, []) with ⟨_ | r, s⟩
  · exact .pending rfl (h.polling hr)
  · exact .returned r rfl (h.returned hr)

/-- What one exchange adds to the log: a reception whose response it returns,
or none with an accepted response. -/
inductive Exchanged (log : List Reception) : Int × TpmCmd → List Reception → Prop
  | failed {r : Int × TpmCmd} (new : List Reception) (err : r.1 < 0) (genuine : ∀ x ∈ new, x.Genuine)
      (inRange : ∀ x ∈ new, x.InRange) : Exchanged log r (log ++ new)
  | answered {resp : TpmCmd} (x : Reception) (ret : Int) (ok : 0 ≤ ret) (genuine : x.Genuine)
      (result : x.result = some (ret, resp)) : Exchanged log (tpmSuccess, resp) (log ++ [x])

theorem receive_logs (chip : ChipData) (buf : TpmCmd) (s : W × List Reception) :
    Meets ((withReceptions port fuel).receive chip buf) s
      (fun r s' => ∃ x, s'.2 = s.2 ++ [x] ∧ x.Genuine ∧ x.result = some r)
      (fun s' => ∃ x, s'.2 = s.2 ++ [x] ∧ x.Genuine ∧ x.result = none) := by
  have hg := receive_genuine port fuel chip buf s.1
  unfold Meets
  simp only [withReceptions]
  generalize (tpm2FifoReceive port.recorded fuel chip buf (s.1, [])).1 = result at hg ⊢
  rcases result with _ | r
  · exact ⟨_, rfl, hg, rfl⟩
  · exact ⟨_, rfl, hg, rfl⟩

theorem tpmXfer_exchanges (chip : ChipData) (cmd buf : TpmCmd) (s : W × List Reception) :
    Meets (tpmXfer (withReceptions port fuel) chip cmd buf) s (fun r s' => Exchanged s.2 r s'.2)
      (fun s' => ∃ new, s'.2 = s.2 ++ new ∧ ∀ x ∈ new, x.Genuine ∧ x.InRange) := by
  rw [tpmXfer, meets_bind]
  change Meets (observe (fun _ => []) (tpm2FifoSend port fuel chip cmd)) s _ _
  rw [meets_observe]
  apply Meets.of_forall
  · intro ret w
    rw [meets_ite]
    refine ⟨fun herr => .failed [] herr (List.forall_mem_nil _) (List.forall_mem_nil _), fun _ => ?_⟩
    rw [meets_bind, List.append_nil]
    apply (receive_logs chip buf (w, s.2)).mono
    · rintro ⟨ret, resp⟩ ⟨w, log⟩ ⟨x, rfl, hg, hx⟩
      dsimp only
      rw [meets_ite]
      refine ⟨fun herr => ?_, fun herr => .answered x ret (not_lt.mp herr) hg hx⟩
      refine .failed [x] herr (List.forall_mem_singleton.mpr hg) (List.forall_mem_singleton.mpr ?_)
      intro ret' resp' h hret
      obtain rfl : ret = ret' := congrArg Prod.fst (Option.some.inj (hx.symm.trans h))
      exact absurd herr (not_lt.mpr hret)
    · rintro ⟨w, log⟩ ⟨x, rfl, hg, hx⟩
      refine ⟨[x], rfl, List.forall_mem_singleton.mpr ⟨hg, fun ret resp h => ?_⟩⟩
      rw [hx] at h
      exact absurd h (Option.some_ne_none _).symm
  · exact fun w => ⟨[], rfl, List.forall_mem_nil _⟩

section Checks

variable {α β : Type} {val : α → Int} {val' : β → Int}

def AllInRange (log : List Reception) : Prop := ∀ x ∈ log, x.InRange

structure Checks (val : α → Int) (p : Proc (W × List Reception) α) : Prop where
  meets (s : W × List Reception) :
    AllInRange s.2 → Meets p s (fun a s' => val a = tpmSuccess → AllInRange s'.2) (fun _ => True)

structure Guards (val : α → Int) (resp : TpmCmd) (p : Proc (W × List Reception) α) : Prop where
  returns : ∃ a, p = pure a ∧ (val a = tpmSuccess → SizeInRange resp)

theorem guards_fail {resp : TpmCmd} {a : α} (h : val a ≠ tpmSuccess) :
    Guards val resp (pure a : Proc (W × List Reception) α) := ⟨⟨a, rfl, fun hs => absurd hs h⟩⟩

theorem guards_sized {resp : TpmCmd} (h : SizeInRange resp) (a : α) :
    Guards val resp (pure a : Proc (W × List Reception) α) := ⟨⟨a, rfl, fun _ => h⟩⟩

theorem Guards.ite {resp : TpmCmd} {c : Prop} {_ : Decidable c} {p q : Proc (W × List Reception) α}
    (hp : c → Guards val resp p) (hq : ¬ c → Guards val resp q) : Guards val resp (if c then p else q) := by
  split
  next h => exact hp h
  next h => exact hq h

theorem checks_pure (a : α) : Checks val (pure a : Proc (W × List Reception) α) := ⟨fun _ h _ => h⟩

theorem Checks.ite {c : Prop} {_ : Decidable c} {p q : Proc (W × List Reception) α} (hp : Checks val p)
    (hq : Checks val q) : Checks val (if c then p else q) := by
  split
  · exact hp
  · exact hq

theorem Checks.bind {p : Proc (W × List Reception) α} {f : α → Proc (W × List Reception) β} (hp : Checks val p)
    (hf : ∀ a, val a = tpmSuccess → Checks val' (f a))
    (hx : ∀ a, val a ≠ tpmSuccess → ∃ b, f a = pure b ∧ val' b ≠ tpmSuccess) : Checks val' (p >>= f) := by
  constructor
  intro s hs
  rw [meets_bind]
  apply (hp.meets s hs).imp
  intro a s' ha
  by_cases hval : val a = tpmSuccess
  · exact (hf a hval).meets s' (ha hval)
  · obtain ⟨b, hb, hne⟩ := hx a hval
    rw [hb]
    exact fun hval' => absurd hval' hne

theorem checks_xfer (chip : ChipData) (cmd buf : TpmCmd) {f : Int × TpmCmd → Proc (W × List Reception) β}
    (hf : ∀ r, r.1 < 0 → ∃ b, f r = pure b ∧ val' b ≠ tpmSuccess)
    (hg : ∀ resp, Guards val' resp (f (tpmSuccess, resp))) :
    Checks val' (tpmXfer (withReceptions port fuel) chip cmd buf >>= f) := by
  constructor
  intro s hs
  rw [meets_bind]
  apply (tpmXfer_exchanges chip cmd buf s).mono
  · rintro r ⟨w, log⟩ (⟨new, err, genuine, inRange⟩ | ⟨x, ret, ok, genuine, result⟩)
    · obtain ⟨b, hb, hne⟩ := hf r err
      rw [hb]
      exact fun hval => absurd hval hne
    · obtain ⟨b, hb, hsize⟩ := (hg _).returns
      rw [hb]
      intro hval
      refine List.forall_mem_append.mpr ⟨hs, List.forall_mem_singleton.mpr ?_⟩
      intro ret' resp' h _
      obtain rfl := congrArg Prod.snd (Option.some.inj (result.symm.trans h))
      exact hsize hval
  · exact fun _ _ => trivial

theorem sizeInRange_of_data {resp : TpmCmd}
    (h : ¬ ((be32toh resp.cmdSize - UInt32.ofNat tpmHeaderSize).toNat > pcrSingleReadResSize ∨
      (be32toh resp.cmdSize - UInt32.ofNat tpmHeaderSize).toNat < pcrSingleReadResDigest)) : SizeInRange resp := by
  have hlt := (be32toh resp.cmdSize).toNat_lt
  have hten : (UInt32.ofNat tpmHeaderSize).toNat = 10 := rfl
  have hheader : tpmHeaderSize = 10 := rfl
  have hmax : maxSizeCmdbuf = 256 := rfl
  have hres : pcrSingleReadResSize = 68 := rfl
  have hdigest : pcrSingleReadResDigest = 20 := rfl
  rw [UInt32.toNat_sub, hten] at h
  unfold SizeInRange
  omega

omit [Host] in
theorem errors_ne {ret : Int} (h : ret < 0) : ret ≠ tpmSuccess := Int.ne_of_lt h

theorem tpmPcrReadSingle_checks (stack : TpmCmd) (chip : ChipData) (index : UInt32) (algorithm : UInt16)
    (buf : Option (List UInt8)) :
    Checks Prod.fst (tpmPcrReadSingle (withReceptions port fuel) stack chip index algorithm buf) := by
  refine Checks.ite (checks_pure _) ?_
  cases buf with
  | none => exact checks_pure _
  | some buf =>
      refine Checks.ite (checks_pure _) ?_
      apply checks_xfer
      · rintro ⟨ret, resp⟩ hret
        exact ⟨_, if_pos hret, errors_ne hret⟩
      · intro resp
        refine Guards.ite (fun h => absurd h (lt_irrefl 0)) fun _ => ?_
        refine Guards.ite (fun _ => guards_fail errResponse_ne_success) fun _ => ?_
        refine Guards.ite (fun _ => guards_fail errResponse_ne_success) fun hdata => ?_
        have hsize := sizeInRange_of_data hdata
        refine Guards.ite (fun _ => guards_sized hsize _) fun _ => ?_
        exact Guards.ite (fun _ => guards_sized hsize _) fun _ => guards_sized hsize _

theorem tpmPcrAllocateAuthPassword_checks (chip : Option ChipData) (password : Option (Nat → UInt8))
    (passwordLen : UInt16) (banks : Option (Nat → TpmPcrAllocateBank)) (out : Option AllocateOut) :
    Checks Prod.fst (tpmPcrAllocateAuthPassword (withReceptions port fuel) chip password passwordLen banks out) := by
  rcases chip with _ | chip
  · exact checks_pure _
  rcases banks with _ | banks
  · exact checks_pure _
  rcases out with _ | out
  · exact checks_pure _
  refine Checks.ite (checks_pure _) (Checks.ite (checks_pure _) (Checks.ite (checks_pure _) ?_))
  refine Checks.ite (checks_pure _) ?_
  apply checks_xfer
  · rintro ⟨ret, resp⟩ hret
    exact ⟨_, if_pos hret, errors_ne hret⟩
  · intro resp
    refine Guards.ite (fun h => absurd h (lt_irrefl 0)) fun _ => ?_
    refine Guards.ite (fun _ => guards_fail errResponse_ne_success) fun _ => ?_
    refine Guards.ite (fun _ => guards_fail errResponse_ne_success) fun _ => ?_
    refine Guards.ite (fun _ => guards_fail errResponse_ne_success) fun hdata => ?_
    have hsize : SizeInRange resp := by
      rw [not_or, not_lt, gt_iff_lt, not_lt] at hdata
      exact ⟨by omega, hdata.2⟩
    exact Guards.ite (fun _ => guards_sized hsize _) fun _ => guards_sized hsize _

theorem getcapRaw_checks (chip : Option ChipData) (capability property propertyCount : UInt32) (resp : TpmCmd)
    (more : Bool) : Checks Prod.fst
      (getcapRaw (withReceptions port fuel) chip capability property propertyCount resp more) := by
  cases chip with
  | none => exact checks_pure _
  | some chip =>
      refine Checks.ite (checks_pure _) ?_
      apply checks_xfer
      · rintro ⟨ret, resp⟩ hret
        exact ⟨_, if_pos hret, errors_ne hret⟩
      · intro resp
        refine Guards.ite (fun h => absurd h (lt_irrefl 0)) fun _ => ?_
        refine Guards.ite (fun _ => guards_fail errResponse_ne_success) fun _ => ?_
        refine Guards.ite (fun _ => guards_fail errResponse_ne_success) fun _ => ?_
        refine Guards.ite (fun _ => guards_fail errResponse_ne_success) fun hdata => ?_
        rw [not_or, not_lt, gt_iff_lt, not_lt] at hdata
        exact guards_sized ⟨by omega, hdata.2⟩ _

variable {σ : Type}

theorem pageLoop_checks (chip : Option ChipData) (cap : UInt32) (parse : TpmCmd → ParseOut σ → Int × ParseOut σ)
    (goOn : UInt16 → Bool) (n : Nat) (st : PageState σ) :
    Checks Prod.fst (pageLoop (withReceptions port fuel) chip cap parse goOn n st) := by
  induction n generalizing st with
  | zero => exact checks_pure _
  | succ n ih =>
      apply Checks.bind (getcapRaw_checks chip cap st.property tpmDefaultPageCount st.resp st.moreData)
      · rintro ⟨ret, resp, more⟩ -
        refine Checks.ite (checks_pure _) (Checks.ite (checks_pure _) (Checks.ite (checks_pure _) ?_))
        exact Checks.ite (checks_pure _) (Checks.ite (ih _) (checks_pure _))
      · rintro ⟨ret, resp, more⟩ hret
        exact ⟨_, if_pos hret, hret⟩

theorem checks_query {ι : Type} {p : Proc (W × List Reception) (Int × σ)} (h : Checks Prod.fst p)
    (f : Int × σ → ι) (val : ι → Int) (hval : ∀ r, val (f r) = r.1) : Checks val (p >>= fun r => pure (f r)) := by
  apply h.bind
  · exact fun _ _ => checks_pure _
  · exact fun r hr => ⟨f r, rfl, by rwa [hval]⟩

theorem tpmGetcapQueryAlgs_checks (stack : TpmCmd) (chip : Option ChipData) (query : Option (List TpmAlgQuery)) :
    Checks Prod.fst (tpmGetcapQueryAlgs (withReceptions port fuel) stack chip query) := by
  refine Checks.ite (checks_pure _) ?_
  cases query with
  | none => exact checks_pure _
  | some query =>
      refine Checks.ite (checks_pure _) (Checks.ite (checks_pure _) ?_)
      exact checks_query (pageLoop_checks _ _ _ _ _ _) _ _ fun _ => rfl

theorem tpmGetcapQueryPcrs_checks (stack : TpmCmd) (chip : Option ChipData)
    (query : Option (List TpmPcrBankQuery)) :
    Checks Prod.fst (tpmGetcapQueryPcrs (withReceptions port fuel) stack chip query) := by
  refine Checks.ite (checks_pure _) ?_
  cases query with
  | none => exact checks_pure _
  | some query =>
      refine Checks.ite (checks_pure _) (Checks.ite (checks_pure _) ?_)
      exact checks_query (pageLoop_checks _ _ _ _ _ _) _ _ fun _ => rfl

theorem tpmHasAlg_checks (stack : TpmCmd) (chip : Option ChipData) (algId : UInt16) (out : Option Bool) :
    Checks Prod.fst (tpmHasAlg (withReceptions port fuel) stack chip algId out) := by
  refine Checks.ite (checks_pure _) ?_
  apply Checks.bind (tpmGetcapQueryAlgs_checks stack chip _)
  · exact fun _ _ => Checks.ite (checks_pure _) (checks_pure _)
  · exact fun _ hret => ⟨_, if_pos hret, hret⟩

theorem tpmGetAlgProps_checks (stack : TpmCmd) (chip : Option ChipData) (algId : UInt16) (out : Option AlgPropsOut) :
    Checks Prod.fst (tpmGetAlgProps (withReceptions port fuel) stack chip algId out) := by
  refine Checks.ite (checks_pure _) ?_
  apply Checks.bind (getcapRaw_checks chip tpmCapAlgs algId.toUInt32 1 stack false)
  · rintro ⟨ret, resp, more⟩ -
    refine Checks.ite (checks_pure _) (Checks.ite (checks_pure _) ?_)
    exact Checks.ite (checks_pure _) (Checks.ite (checks_pure _) (checks_pure _))
  · rintro ⟨ret, resp, more⟩ hret
    exact ⟨_, if_pos hret, hret⟩

theorem tpmForEachAlgProps_checks (stack : TpmCmd) (chip : Option ChipData) (mustSet mustClear : UInt32)
    (cb : Option (UInt16 → UInt32 → σ → Bool × σ)) (ctx : σ) :
    Checks Prod.fst (tpmForEachAlgProps (withReceptions port fuel) stack chip mustSet mustClear cb ctx) := by
  refine Checks.ite (checks_pure _) ?_
  cases cb with
  | none => exact checks_pure _
  | some cb => exact pageLoop_checks _ _ _ _ _ _

theorem tpmForEachPcrBank_checks (stack : TpmCmd) (chip : Option ChipData)
    (cb : Option (UInt16 → List UInt8 → UInt8 → σ → Bool × σ)) (ctx : σ) :
    Checks Prod.fst (tpmForEachPcrBank (withReceptions port fuel) stack chip cb ctx) := by
  refine Checks.ite (checks_pure _) ?_
  cases cb with
  | none => exact checks_pure _
  | some cb => exact pageLoop_checks _ _ _ _ _ _

end Checks

section Unchecked

/-- A reception of the log has an undersized header with the response code of success. -/
def AcceptsUndersized (log : List Reception) : Prop :=
  ∃ x ∈ log, ∃ header, Undersized x.base x.accesses header ∧ field 6 header = tpmResponseSuccess.toNat

/-- The commands that look at the response code only. -/
def SizeUnchecked : PublicCall V → Prop
  | .startup _ _ | .pcrExtend _ _ _ _ _ => True
  | _ => False

omit [Host] in
theorem not_acceptsUndersized {log : List Reception}
    (h : ∀ x ∈ log, ∀ header, ¬ Undersized x.base x.accesses header) : ¬ AcceptsUndersized log :=
  fun ⟨x, hx, header, hu, _⟩ => h x hx header hu

/-- A command that sends first, and accepts by the response code. -/
theorem unchecked_iff (chip : ChipData) (cmd buf : TpmCmd) {f : Int × TpmCmd → Proc (W × List Reception) Int}
    (hf : ∀ r, r.1 < 0 → ∃ ret, f r = pure ret ∧ ret ≠ tpmSuccess)
    (hg : ∀ resp, ∃ ret, f (tpmSuccess, resp) = pure ret ∧
      (ret = tpmSuccess ↔ be32toh resp.cmdCode = tpmResponseSuccess)) (w : W) :
    Meets (tpmXfer (withReceptions port fuel) chip cmd buf >>= f) (w, [])
      (fun ret s => (ret = tpmSuccess → AllInRange s.2) ↔ ¬ AcceptsUndersized s.2)
      (fun s => ¬ AcceptsUndersized s.2) := by
  rw [meets_bind]
  apply (tpmXfer_exchanges chip cmd buf (w, [])).mono
  · rintro r ⟨w, log⟩ (⟨new, err, genuine, inRange⟩ | @⟨resp, x, ret, ok, genuine, result⟩)
    · obtain ⟨ret, hret, hne⟩ := hf r err
      rw [hret, meets_pure]
      refine ⟨fun _ => not_acceptsUndersized fun x hx => ?_, fun _ h => absurd h hne⟩
      exact (genuine x hx).inRange_iff.mp (inRange x hx)
    · obtain ⟨ret', hret, hcode⟩ := hg resp
      rw [hret, meets_pure, hcode]
      have hfield {header : List UInt8} (hu : Undersized x.base x.accesses header) :
          field 6 header = tpmResponseSuccess.toNat ↔ be32toh resp.cmdCode = tpmResponseSuccess := by
        rw [genuine.header result hu, field_cmdCode, UInt32.toNat_inj]
      simp only [AllInRange, AcceptsUndersized, List.mem_singleton, forall_eq, exists_eq_left, genuine.inRange_iff]
      constructor
      · rintro hnone ⟨header, hu, hsuccess⟩
        exact hnone ((hfield hu).mp hsuccess) header hu
      · intro hnone hsuccess header hu
        exact hnone ⟨header, hu, (hfield hu).mpr hsuccess⟩
  · rintro ⟨w, log⟩ ⟨new, rfl, hnew⟩
    apply not_acceptsUndersized
    intro x hx
    obtain ⟨genuine, inRange⟩ := hnew x hx
    exact genuine.inRange_iff.mp inRange

theorem tpmStartup_accepts (chip : ChipData) (mode : UInt16) (w : W) :
    Meets (tpmStartup (withReceptions port fuel) chip mode) (w, [])
      (fun ret s => (ret = tpmSuccess → AllInRange s.2) ↔ ¬ AcceptsUndersized s.2)
      (fun s => ¬ AcceptsUndersized s.2) := by
  rw [tpmStartup, meets_ite]
  refine ⟨fun _ => ?_, fun _ => ?_⟩
  · exact ⟨fun _ => not_acceptsUndersized (List.forall_mem_nil _), fun _ _ => List.forall_mem_nil _⟩
  apply unchecked_iff
  · rintro ⟨ret, resp⟩ hret
    exact ⟨ret, if_pos hret, errors_ne hret⟩
  · intro resp
    have hneg : ¬ tpmSuccess < 0 := by decide
    have hinit : tpmErrAlreadyInit ≠ tpmSuccess := by decide
    have hrc : tpmRcInitialize ≠ tpmResponseSuccess := by decide
    dsimp only
    rw [if_neg hneg]
    by_cases h : be32toh resp.cmdCode = tpmRcInitialize
    · rw [if_pos h, h]
      exact ⟨_, rfl, fun h => absurd h hinit, fun h => absurd h hrc⟩
    rw [if_neg h]
    by_cases h : be32toh resp.cmdCode = tpmResponseSuccess
    · rw [if_neg (not_not.mpr h)]
      exact ⟨_, rfl, fun _ => h, fun _ => rfl⟩
    · rw [if_pos h]
      exact ⟨_, rfl, fun hret => absurd hret errResponse_ne_success, fun hc => absurd hc h⟩

theorem tpmPcrExtend_accepts (chip : ChipData) (index : UInt32) (algorithm : UInt16) (digest : Option (Nat → UInt8))
    (digestLen : UInt32) (w : W) :
    Meets (tpmPcrExtend (withReceptions port fuel) chip index algorithm digest digestLen) (w, [])
      (fun ret s => (ret = tpmSuccess → AllInRange s.2) ↔ ¬ AcceptsUndersized s.2)
      (fun s => ¬ AcceptsUndersized s.2) := by
  have hempty (ret : Int) : (ret = tpmSuccess → AllInRange []) ↔ ¬ AcceptsUndersized [] :=
    ⟨fun _ => not_acceptsUndersized (List.forall_mem_nil _), fun _ _ => List.forall_mem_nil _⟩
  rcases digest with _ | digest
  · exact hempty _
  rw [tpmPcrExtend, meets_ite]
  refine ⟨fun _ => hempty _, fun _ => ?_⟩
  apply unchecked_iff
  · rintro ⟨ret, resp⟩ hret
    exact ⟨ret, if_pos hret, errors_ne hret⟩
  · intro resp
    have hneg : ¬ tpmSuccess < 0 := by decide
    dsimp only
    rw [if_neg hneg]
    by_cases h : be32toh resp.cmdCode = tpmResponseSuccess
    · rw [if_neg (not_not.mpr h)]
      exact ⟨_, rfl, fun _ => h, fun _ => rfl⟩
    · rw [if_pos h]
      exact ⟨_, rfl, fun hret => absurd hret errResponse_ne_success, fun hc => absurd hc h⟩

end Unchecked

section Commands

theorem command_checks (call : PublicCall V) (h : ¬ SizeUnchecked call) (stack : TpmCmd) :
    Checks id (command stack call (withReceptions port fuel)) := by
  cases call with
  | startup | pcrExtend => exact absurd trivial h
  | pcrReadSingle => exact checks_query (tpmPcrReadSingle_checks _ _ _ _ _) _ _ fun _ => rfl
  | pcrAllocateAuthPassword =>
      exact checks_query (tpmPcrAllocateAuthPassword_checks _ _ _ _ _) _ _ fun _ => rfl
  | getcapQueryAlgs => exact checks_query (tpmGetcapQueryAlgs_checks _ _ _) _ _ fun _ => rfl
  | getcapQueryPcrs => exact checks_query (tpmGetcapQueryPcrs_checks _ _ _) _ _ fun _ => rfl
  | hasAlg => exact checks_query (tpmHasAlg_checks _ _ _ _) _ _ fun _ => rfl
  | getAlgProps => exact checks_query (tpmGetAlgProps_checks _ _ _ _) _ _ fun _ => rfl
  | forEachAlgProps => exact checks_query (tpmForEachAlgProps_checks _ _ _ _ _ _) _ _ fun _ => rfl
  | forEachPcrBank => exact checks_query (tpmForEachPcrBank_checks _ _ _ _) _ _ fun _ => rfl
  | interfaceInit | interfaceClose | getLastTransportError => exact checks_pure _

theorem unchecked_run {p : Proc (W × List Reception) Int} {w : W} (h : Meets p (w, [])
    (fun ret s => (ret = tpmSuccess → AllInRange s.2) ↔ ¬ AcceptsUndersized s.2) (fun s => ¬ AcceptsUndersized s.2)) :
    ((p (w, [])).1 = some tpmSuccess → AllInRange (p (w, [])).2.2) ↔ ¬ AcceptsUndersized (p (w, [])).2.2 := by
  rcases hr : p (w, []) with ⟨_ | ret, s⟩
  · exact ⟨fun _ => h.polling hr, fun _ hret => absurd hret (Option.some_ne_none _).symm⟩
  · dsimp only
    rw [Option.some.injEq]
    exact h.returned hr

theorem checked_run {p : Proc (W × List Reception) Int} (h : Checks id p) (w : W)
    (hret : (p (w, [])).1 = some tpmSuccess) : AllInRange (p (w, [])).2.2 := by
  have hm := h.meets (w, []) (List.forall_mem_nil _)
  exact hm.returned (Prod.ext hret rfl) rfl

/-- A receive accepts sizes from 10 to 256 only, unless it sees AVAIL after a
header that says less than 10; then it accepts the header. Of the commands,
two trust it without a look at the size. -/
theorem accepted_size_iff (port : FifoPort W) (fuel : Nat) :
    (∀ (chip : ChipData) (buf : TpmCmd) (w : W),
      let r := tpm2FifoReceive port.recorded fuel chip buf (w, [])
      (∀ ret resp, r.1 = some (ret, resp) → 0 ≤ ret → SizeInRange resp) ↔
        ∀ header, ¬ Undersized (localityStartAddress chip.locality) r.2.2 header) ∧
    ∀ (call : PublicCall V) (stack : TpmCmd) (w : W),
      let r := command stack call (withReceptions port fuel) (w, [])
      (r.1 = some tpmSuccess → AllInRange r.2.2) ↔ ¬ (SizeUnchecked call ∧ AcceptsUndersized r.2.2) := by
  constructor
  · intro chip buf w r
    exact (receive_genuine port fuel chip buf w).inRange_iff
  · intro call stack w r
    by_cases h : SizeUnchecked call
    · rw [and_iff_right h]
      apply unchecked_run
      cases call with
      | startup chip mode => exact tpmStartup_accepts chip mode w
      | pcrExtend chip index algorithm digest digestLen =>
          exact tpmPcrExtend_accepts chip index algorithm digest digestLen w
      | _ => exact h.elim
    · exact ⟨fun _ hc => h hc.1, fun _ hret => checked_run (command_checks call h stack) w hret⟩

end Commands

end Receptions

/-- A device whose response bytes are all zero: it is ready, its bursts are of
ten bytes, and every response says that its size is 0. -/
def zeroPort : FifoPort Unit :=
  FifoPort.steady fun reg => if reg = 0x18 then 0xd0 else if reg = 0x19 then 10 else 0

def zeroChip : ChipData := { tpmChipData with locality := 0 }

/-- The zero header is accepted, and with it the response to TPM2_Startup. -/
theorem zero_header_accepted :
    (¬ ∀ (fuel : Nat) (buf : TpmCmd) (ret : Int) (resp : TpmCmd),
      (@tpm2FifoReceive _ zeroPort.recorded fuel littleHost zeroChip buf ((), [])).1 = some (ret, resp) → 0 ≤ ret →
        @SizeInRange littleHost resp) ∧
      (@tpmStartup littleHost _ (@withReceptions Unit littleHost zeroPort 64) zeroChip 0 ((), [])).1 =
        some tpmSuccess := by
  let _ := littleHost
  constructor
  · intro h
    have hrun : (tpm2FifoReceive zeroPort.recorded 64 zeroChip TpmCmd.zero ((), [])).1 =
        some (tpmSuccess, TpmCmd.zero) := by decide +kernel
    exact absurd (h 64 TpmCmd.zero tpmSuccess TpmCmd.zero hrun (le_refl 0)).1 (by decide)
  · decide +kernel

end LibTpm.AcceptedSizes
