import LibTpm.PortSimulation
import LibTpm.CallOutcomes
import LibTpm.DeclaredBytes

namespace LibTpm.CommandSimulation

open LibTpm.Base.Process LibTpm.Base.Process.Proc LibTpm.Base.Simulation LibTpm.Command LibTpm.Constants
open LibTpm.Endian LibTpm.Platform LibTpm.Builder LibTpm.Iterator LibTpm.Getcap LibTpm.Commands LibTpm.Queries
open LibTpm.Request LibTpm.CommandBytes LibTpm.Fifo LibTpm.Library LibTpm.Invariance LibTpm.PublicCalls LibTpm.DeclaredBytes
open LibTpm.CallOutcomes LibTpm.PortSimulation

variable [Host] {V W ε σ : Type}

structure Sized (cmd : TpmCmd) : Prop where
  header : tpmHeaderSize ≤ (be32toh cmd.cmdSize).toNat
  fits : (be32toh cmd.cmdSize).toNat ≤ maxSizeCmdbuf

theorem sized_of_built {tag : UInt16} {code : UInt32} {payload : List UInt8} {builder : TpmCmdBuilder}
    (h : Built tag code payload builder) (hok : ¬ tpmBuilderFinalize builder < 0) : Sized builder.cmd := by
  unfold Built at h
  by_cases hfit : tpmHeaderSize + payload.length ≤ maxSizeCmdbuf
  · rw [if_pos hfit] at h
    have hlt : tpmHeaderSize + payload.length < 2 ^ 32 := Nat.lt_of_le_of_lt hfit (by decide)
    have hsize : (be32toh builder.cmd.cmdSize).toNat = tpmHeaderSize + payload.length := by
      rw [cmdSize_of_image _ h.2, UInt32.toNat_ofNat_of_lt' hlt]
    constructor <;> rw [hsize]
    · exact Nat.le_add_right _ _
    · exact hfit
  · rw [if_neg hfit] at h
    rw [tpmBuilderFinalize, h] at hok
    exact absurd (by decide) hok

structure Brings (r r' : Int × TpmCmd) : Prop where
  ret : r.1 = r'.1
  resp : 0 ≤ r.1 → Similar r.2 r'.2

def ExchangeSimulates (R : W → V → Prop) (i : Interface W) (i' : Interface V) (chip : ChipData) : Prop :=
  ∀ cmd buf, Sized cmd → Simulates R Brings (tpmXfer i chip cmd buf) (tpmXfer i' chip cmd buf)

def CapSimulates (R : W → V → Prop) (i : Interface W) (i' : Interface V) (chip : ChipData) : Prop :=
  ∀ cap property count, Simulates R Brings (tpmXfer i chip (getcapCommand cap property count).cmd TpmCmd.zero)
    (tpmXfer i' chip (getcapCommand cap property count).cmd TpmCmd.zero)

variable {R : W → V → Prop} {i : Interface W} {i' : Interface V} {chip : ChipData} {stack : TpmCmd}

theorem ExchangeSimulates.caps (h : ExchangeSimulates R i i' chip) : CapSimulates R i i' chip := by
  intro cap property count
  have hfinish := (getcapCommand_built cap property count).finish
  have hsize : (TpmRequest.getCapability cap property count).size = 22 := rfl
  rw [hsize, if_pos (by decide)] at hfinish
  apply h
  apply sized_of_built (getcapCommand_built cap property count)
  rw [hfinish.1]
  decide

omit [Host] in
theorem tpmXfer_simulates (hsend : ∀ cmd, Simulates R Eq (i.send chip cmd) (i'.send chip cmd))
    (hreceive : ∀ buf, Simulates R Eq (i.receive chip buf) (i'.receive chip buf)) (cmd buf : TpmCmd) :
    Simulates R Eq (tpmXfer i chip cmd buf) (tpmXfer i' chip cmd buf) := by
  apply Simulates.step (hsend _)
  intro ret
  refine Simulates.unless (Simulates.step (hreceive _) ?_)
  exact fun ⟨ret, resp⟩ => Simulates.unless (simulates_pure rfl)

theorem exchange_of_calls (hsend : ∀ cmd, Simulates R Eq (i.send chip cmd) (i'.send chip cmd))
    (hreceive : ∀ buf, Simulates R Eq (i.receive chip buf) (i'.receive chip buf)) : ExchangeSimulates R i i' chip := by
  intro cmd buf _
  apply (tpmXfer_simulates hsend hreceive cmd buf).imp
  rintro r _ rfl
  exact ⟨rfl, fun _ => ⟨rfl, rfl⟩⟩

theorem InterfaceSimulates.exchange (h : InterfaceSimulates R i i') (chip : ChipData) :
    ExchangeSimulates R i i' chip := exchange_of_calls (h.send chip) (h.receive chip)

theorem tpmStartup_simulates (h : ExchangeSimulates R i i' chip) (mode : UInt16) :
    Simulates R Eq (tpmStartup i chip mode) (tpmStartup i' chip mode) := by
  refine Simulates.ite (fun _ => simulates_pure rfl) fun hok => ?_
  apply Simulates.bind (h _ _ (sized_of_built (startupCommand_built mode) hok))
  rintro ⟨ret, resp⟩ ⟨ret', resp'⟩ ⟨hret, hsim⟩
  dsimp only at hret hsim
  subst hret
  refine Simulates.ite (fun _ => simulates_pure rfl) fun hret => ?_
  rw [(hsim (not_lt.mp hret)).cmdCode]
  exact Simulates.unless (Simulates.unless (simulates_pure rfl))

theorem tpmPcrExtend_simulates (h : ExchangeSimulates R i i' chip) (index : UInt32) (algorithm : UInt16)
    (digest : Option (Nat → UInt8)) (digestLen : UInt32) :
    Simulates R Eq (tpmPcrExtend i chip index algorithm digest digestLen)
      (tpmPcrExtend i' chip index algorithm digest digestLen) := by
  cases digest with
  | none => exact simulates_pure rfl
  | some digest =>
      refine Simulates.ite (fun _ => simulates_pure rfl) fun hok => ?_
      apply Simulates.bind (h _ _ (sized_of_built (pcrExtendCommand_built index algorithm digest digestLen) hok))
      rintro ⟨ret, resp⟩ ⟨ret', resp'⟩ ⟨hret, hsim⟩
      dsimp only at hret hsim
      subst hret
      refine Simulates.ite (fun _ => simulates_pure rfl) fun hret => ?_
      rw [(hsim (not_lt.mp hret)).cmdCode]
      exact Simulates.unless (simulates_pure rfl)

theorem tpmPcrReadSingle_simulates (h : ExchangeSimulates R i i' chip) (index : UInt32) (algorithm : UInt16)
    (pcrDigestRead : Option (List UInt8)) :
    Simulates R Eq (tpmPcrReadSingle i stack chip index algorithm pcrDigestRead)
      (tpmPcrReadSingle i' stack chip index algorithm pcrDigestRead) := by
  refine Simulates.ite (fun _ => simulates_pure rfl) fun hindex => ?_
  cases pcrDigestRead with
  | none => exact simulates_pure rfl
  | some buf =>
      dsimp only
      refine Simulates.ite (fun _ => simulates_pure rfl) fun hok => ?_
      have hlt : index < 24 := UInt32.not_le.mp hindex
      apply Simulates.bind (h _ _ (sized_of_built (pcrReadCommand_built hlt algorithm) hok))
      rintro ⟨ret, resp⟩ ⟨ret', resp'⟩ ⟨hret, hsim⟩
      dsimp only at hret hsim
      subst hret
      refine Simulates.ite (fun _ => simulates_pure rfl) fun hret => ?_
      have hsim := hsim (not_lt.mp hret)
      dsimp only
      rw [hsim.cmdCode, ← hsim.cmdSize]
      refine Simulates.unless (Simulates.ite (fun _ => simulates_pure rfl) fun hsize => ?_)
      obtain ⟨hleast, hbytes⟩ := hsim.pcrData hsize
      rw [hbytes 18 (by omega), hbytes 19 (by omega)]
      generalize (be32toh resp.cmdSize - UInt32.ofNat tpmHeaderSize).toNat = dataSize at hbytes hleast ⊢
      generalize (be16toh (load16 (resp'.data 18) (resp'.data 19))).toNat = digestLen
      refine Simulates.unless (Simulates.ite (fun _ => simulates_pure rfl) fun hfit => simulates_pure ?_)
      -- the digest is copied out of the declared bytes
      rw [← List.map_take, ← List.map_take, List.map_congr_left]
      intro i hi
      rw [List.take_range, List.mem_range] at hi
      exact hbytes _ (by omega)

section Optional

variable {chip : Option ChipData}

theorem tpmPcrAllocateAuthPassword_simulates (h : ∀ c ∈ chip, ExchangeSimulates R i i' c)
    (password : Option (Nat → UInt8)) (passwordLen : UInt16) (banks : Option (Nat → TpmPcrAllocateBank))
    (out : Option AllocateOut) :
    Simulates R Eq (tpmPcrAllocateAuthPassword i chip password passwordLen banks out)
      (tpmPcrAllocateAuthPassword i' chip password passwordLen banks out) := by
  rcases chip with _ | chip
  · exact simulates_pure rfl
  rcases banks with _ | banks
  · exact simulates_pure rfl
  rcases out with _ | old
  · exact simulates_pure rfl
  refine Simulates.unless (Simulates.unless (Simulates.unless ?_))
  refine Simulates.ite (fun _ => simulates_pure rfl) fun hok => ?_
  apply Simulates.bind (h chip rfl _ _ (sized_of_built (pcrAllocateCommand_built _ passwordLen banks _) hok))
  rintro ⟨ret, resp⟩ ⟨ret', resp'⟩ ⟨hret, hsim⟩
  dsimp only at hret hsim
  subst hret
  refine Simulates.ite (fun _ => simulates_pure rfl) fun hret => ?_
  have hsim := hsim (not_lt.mp hret)
  have hfields := hsim.allocateFields
  rw [hsim.tag, hsim.cmdCode, ← hsim.cmdSize]
  refine Simulates.unless (Simulates.unless (Simulates.ite (fun _ => simulates_pure rfl) fun hsize => ?_))
  rw [not_or, not_lt, not_lt] at hsize
  obtain ⟨parameterSize, allocationSuccess, maxPcr, sizeNeeded, sizeAvailable, rest, rest', hdata, hdata'⟩ :=
    hfields hsize.1
  have hten : tpmHeaderSize = 10 := rfl
  dsimp only
  simp (disch := omega) only [hdata, hdata', iterReadU8_cons, iterReadU32Be_be32, ne_eq,
    not_true_eq_false, if_false]
  exact simulates_pure rfl

theorem getcapRaw_simulates (h : ∀ c ∈ chip, CapSimulates R i i' c) (cap property count : UInt32)
    (resp resp' : TpmCmd) (more more' : Bool) :
    Simulates R SamePage (getcapRaw i chip cap property count resp more)
      (getcapRaw i' chip cap property count resp' more') := by
  have hfail {ret : Int} {x x' : TpmCmd × Bool} (h : ret ≠ tpmSuccess) : SamePage (ret, x) (ret, x') :=
    ⟨rfl, fun h0 => absurd h0 h⟩
  have hnegative {ret : Int} (h : ret < 0) : ret ≠ tpmSuccess := by
    rintro rfl
    exact absurd h (by decide)
  rcases chip with _ | chip
  · exact simulates_pure (hfail (by decide))
  refine Simulates.ite (fun h => simulates_pure (hfail (hnegative h))) fun _ => ?_
  apply Simulates.bind (h chip rfl cap property count)
  rintro ⟨ret, resp⟩ ⟨ret', resp'⟩ ⟨hret, hsim⟩
  dsimp only at hret hsim
  subst hret
  refine Simulates.ite (fun h => simulates_pure (hfail (hnegative h))) fun hret => ?_
  have hsim := hsim (not_lt.mp hret)
  rw [hsim.tag, hsim.cmdCode, ← hsim.cmdSize]
  refine Simulates.ite (fun _ => simulates_pure (hfail errResponse_ne_success)) fun _ => ?_
  refine Simulates.ite (fun _ => simulates_pure (hfail errResponse_ne_success)) fun _ => ?_
  refine Simulates.ite (fun _ => simulates_pure (hfail errResponse_ne_success)) fun hsize => ?_
  rw [hsim.data (by omega)]
  exact simulates_pure ⟨rfl, fun _ => ⟨hsim, rfl⟩⟩

theorem pageLoop_simulates (h : ∀ c ∈ chip, CapSimulates R i i' c) (cap : UInt32)
    {parse : TpmCmd → ParseOut σ → Int × ParseOut σ}
    (hparse : ∀ {resp resp'}, Similar resp resp' → ∀ po, parse resp po = parse resp' po) (goOn : UInt16 → Bool)
    (n : Nat) {st st' : PageState σ} (hproperty : st.property = st'.property) (hpo : st.po = st'.po) :
    Simulates R Eq (pageLoop i chip cap parse goOn n st) (pageLoop i' chip cap parse goOn n st') := by
  induction n generalizing st st' with
  | zero =>
      rw [pageLoop, pageLoop, hpo]
      exact simulates_pure rfl
  | succ n ih =>
      rw [pageLoop, pageLoop, hproperty, hpo]
      apply Simulates.bind (getcapRaw_simulates h cap _ _ _ _ _ _)
      rintro ⟨ret, resp, more⟩ ⟨ret', resp', more'⟩ ⟨hret, hpage⟩
      dsimp only at hret hpage
      subst hret
      refine Simulates.ite (fun _ => simulates_pure rfl) fun hok => ?_
      obtain ⟨hsim, rfl⟩ := hpage (not_not.mp hok)
      dsimp only
      rw [hparse hsim]
      refine Simulates.unless (Simulates.unless (Simulates.unless ?_))
      exact Simulates.ite (fun _ => ih rfl rfl) fun _ => simulates_pure rfl

theorem tpmGetcapQueryAlgs_simulates (h : ∀ c ∈ chip, CapSimulates R i i' c)
    (query : Option (List TpmAlgQuery)) :
    Simulates R Eq (tpmGetcapQueryAlgs i stack chip query) (tpmGetcapQueryAlgs i' stack chip query) := by
  refine Simulates.unless ?_
  cases query with
  | none => exact simulates_pure rfl
  | some query =>
      refine Simulates.unless (Simulates.unless ?_)
      apply Simulates.step (pageLoop_simulates h _ (fun hsim => parseQuery_same readAlg_same hsim _ _) _ _ rfl rfl)
      exact fun _ => simulates_pure rfl

theorem tpmGetcapQueryPcrs_simulates (h : ∀ c ∈ chip, CapSimulates R i i' c)
    (query : Option (List TpmPcrBankQuery)) :
    Simulates R Eq (tpmGetcapQueryPcrs i stack chip query) (tpmGetcapQueryPcrs i' stack chip query) := by
  refine Simulates.unless ?_
  cases query with
  | none => exact simulates_pure rfl
  | some query =>
      refine Simulates.unless (Simulates.unless ?_)
      apply Simulates.step (pageLoop_simulates h _ (fun hsim => parseQuery_same readBank_same hsim _ _) _ _ rfl rfl)
      exact fun _ => simulates_pure rfl

theorem tpmHasAlg_simulates (h : ∀ c ∈ chip, CapSimulates R i i' c) (algId : UInt16) (out : Option Bool) :
    Simulates R Eq (tpmHasAlg i stack chip algId out) (tpmHasAlg i' stack chip algId out) := by
  refine Simulates.unless (Simulates.step (tpmGetcapQueryAlgs_simulates h _) ?_)
  exact fun _ => Simulates.unless (simulates_pure rfl)

theorem tpmGetAlgProps_simulates (h : ∀ c ∈ chip, CapSimulates R i i' c) (algId : UInt16)
    (out : Option AlgPropsOut) :
    Simulates R Eq (tpmGetAlgProps i stack chip algId out) (tpmGetAlgProps i' stack chip algId out) := by
  refine Simulates.unless (Simulates.bind (getcapRaw_simulates h _ _ _ _ _ _ _) ?_)
  rintro ⟨ret, resp, more⟩ ⟨ret', resp', more'⟩ ⟨hret, hpage⟩
  dsimp only at hret hpage
  subst hret
  refine Simulates.ite (fun _ => simulates_pure rfl) fun hok => ?_
  obtain ⟨hsim, rfl⟩ := hpage (not_not.mp hok)
  obtain ⟨hstart, hiter⟩ := hsim.payloadStart tpmCapAlgs
  obtain ⟨-, hiter⟩ := hiter.readU32Be 0
  obtain ⟨halg, hiter⟩ := hiter.readU16Be tpmAlgNull
  obtain ⟨hprops, hiter⟩ := hiter.readU32Be 0
  dsimp only
  rw [hstart, halg, hprops, hiter.errorState]
  exact Simulates.unless (Simulates.unless (Simulates.unless (simulates_pure rfl)))

theorem tpmForEachAlgProps_simulates (h : ∀ c ∈ chip, CapSimulates R i i' c) (mustSet mustClear : UInt32)
    (cb : Option (UInt16 → UInt32 → σ → Bool × σ)) (ctx : σ) :
    Simulates R Eq (tpmForEachAlgProps i stack chip mustSet mustClear cb ctx)
      (tpmForEachAlgProps i' stack chip mustSet mustClear cb ctx) := by
  refine Simulates.unless ?_
  cases cb with
  | none => exact simulates_pure rfl
  | some cb => exact pageLoop_simulates h _ (fun hsim => parseFind_same readAlg_same hsim _ _) _ _ rfl rfl

theorem tpmForEachPcrBank_simulates (h : ∀ c ∈ chip, CapSimulates R i i' c)
    (cb : Option (UInt16 → List UInt8 → UInt8 → σ → Bool × σ)) (ctx : σ) :
    Simulates R Eq (tpmForEachPcrBank i stack chip cb ctx) (tpmForEachPcrBank i' stack chip cb ctx) := by
  refine Simulates.unless ?_
  cases cb with
  | none => exact simulates_pure rfl
  | some cb => exact pageLoop_simulates h _ (fun hsim => parseFind_same readBank_same hsim _ _) _ _ rfl rfl

end Optional

def chips {U : Type} : PublicCall U → List ChipData
  | .startup chip _ | .pcrExtend chip _ _ _ _ | .pcrReadSingle chip _ _ _ => [chip]
  | .pcrAllocateAuthPassword chip _ _ _ _ | .getcapQueryAlgs chip _ | .getcapQueryPcrs chip _
  | .hasAlg chip _ _ | .getAlgProps chip _ _ | .forEachAlgProps _ chip _ _ _ _
  | .forEachPcrBank _ chip _ _ => chip.toList
  | .interfaceInit _ _ _ _ | .interfaceClose _ _ | .getLastTransportError => []

theorem perform_simulates {U : Type} {call : PublicCall U} (hsends : SendsCommand call)
    (h : ∀ c ∈ chips call, ExchangeSimulates R i i' c) :
    Simulates R Eq (perform stack i call) (perform stack i' call) := by
  have ho {chip : Option ChipData} (h : ∀ c ∈ chip.toList, ExchangeSimulates R i i' c) :
      ∀ c ∈ chip, ExchangeSimulates R i i' c := fun c hc => h c (Option.mem_toList.mpr hc)
  cases call with
  | interfaceInit | interfaceClose | getLastTransportError => exact hsends.elim
  | startup => exact tpmStartup_simulates (h _ List.mem_cons_self) _
  | pcrExtend => exact tpmPcrExtend_simulates (h _ List.mem_cons_self) _ _ _ _
  | pcrReadSingle => exact tpmPcrReadSingle_simulates (h _ List.mem_cons_self) _ _ _
  | pcrAllocateAuthPassword => exact tpmPcrAllocateAuthPassword_simulates (ho h) _ _ _ _
  | getcapQueryAlgs => exact tpmGetcapQueryAlgs_simulates (fun c hc => (ho h c hc).caps) _
  | getcapQueryPcrs => exact tpmGetcapQueryPcrs_simulates (fun c hc => (ho h c hc).caps) _
  | hasAlg => exact tpmHasAlg_simulates (fun c hc => (ho h c hc).caps) _ _
  | getAlgProps => exact tpmGetAlgProps_simulates (fun c hc => (ho h c hc).caps) _ _
  | forEachAlgProps => exact tpmForEachAlgProps_simulates (fun c hc => (ho h c hc).caps) _ _ _ _
  | forEachPcrBank => exact tpmForEachPcrBank_simulates (fun c hc => (ho h c hc).caps) _ _

variable (stack) in
theorem calls_simulate {U : Type} (h : InterfaceSimulates R i i') (call : PublicCall U) :
    Simulates R Eq (perform stack i call) (perform stack i' call) := by
  have hcommand (hsends : SendsCommand call) : Simulates R Eq (perform stack i call) (perform stack i' call) :=
    perform_simulates hsends fun c _ => InterfaceSimulates.exchange h c
  cases call with
  | interfaceInit transport timeoutOps chip locality =>
      apply Simulates.step (h.requestAccess chip locality)
      rintro ⟨err, chip⟩
      refine Simulates.unless (Simulates.step (h.getInfo chip locality) ?_)
      exact fun _ => simulates_pure rfl
  | interfaceClose chip locality => exact h.releaseLocality chip locality
  | getLastTransportError => exact simulates_pure rfl
  | _ => exact hcommand trivial

theorem perform_keeps {U : Type} {call : PublicCall U} {A : UInt16 → Prop} {I : W → Prop} {port : FifoPort W}
    {fuel : Nat} (hsends : SendsCommand call) (h : PortKeeps A I port)
    (hregs : ∀ c ∈ chips call, TransferRegs A (localityStartAddress c.locality)) :
    Keeps I (perform stack (fifoOps port fuel) call) := by
  refine simulates_kept.mp (perform_simulates hsends ?_)
  intro c hc
  have hport := PortKeeps.simulates h
  exact exchange_of_calls (tpm2FifoSend_simulates hport (hregs c hc)) (tpm2FifoReceive_simulates hport (hregs c hc))

end LibTpm.CommandSimulation
