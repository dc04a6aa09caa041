import LibTpm.DeviceRefinement
import LibTpm.ReferenceTpm

namespace LibTpm.MeasuredBoot

open LibTpm.Base.BigEndian LibTpm.Base.Process LibTpm.Base.Process.Proc LibTpm.Base.Simulation LibTpm.Base.Replay LibTpm.Command
open LibTpm.Constants LibTpm.Endian LibTpm.Platform LibTpm.Fifo LibTpm.Builder LibTpm.Commands LibTpm.Request
open LibTpm.CommandBytes LibTpm.CapResponse LibTpm.PtpDevice LibTpm.PcrResponse LibTpm.PcrBanks LibTpm.TpmMachine
open LibTpm.PromptDevice LibTpm.CommandSimulation LibTpm.DeviceRefinement LibTpm.ReferenceTpm
open LibTpm.Responders (Unmodelled refusing failure frame code_frame)

variable {algs : HashAlgs}

inductive Call
  | startup (mode : UInt16)
  | extend (index : UInt32) (algorithm : UInt16) (digest : Option (Nat → UInt8)) (digestLen : UInt32)
  | read (index : UInt32) (algorithm : UInt16) (buf : Option (List UInt8))

abbrev Result : Type := Int × Option (List UInt8)

def Call.run [Host] {W : Type} (interface : Interface W) (chip : ChipData) (stack : TpmCmd) : Call → Proc W Result
  | startup mode => return (← tpmStartup interface chip mode, none)
  | extend index algorithm digest digestLen =>
      return (← tpmPcrExtend interface chip index algorithm digest digestLen, none)
  | read index algorithm buf => tpmPcrReadSingle interface stack chip index algorithm buf

def runAll [Host] {W : Type} (interface : Interface W) (chip : ChipData) (stack : TpmCmd) : List Call →
    Proc W (List Result)
  | [] => return []
  | call :: calls => do
      let result ← call.run interface chip stack
      let results ← runAll interface chip stack calls
      return result :: results

/-! What the calls are for, in terms of the TPM. -/

/-- The TPM takes a digest of this length for this PCR. -/
def Accepts (t : Tpm algs) (index : UInt32) (algorithm : UInt16) (length : Nat) : Prop :=
  t.started = true ∧ index.toNat < 24 ∧ t.allocated algorithm = true ∧ length = algs.size algorithm

instance (t : Tpm algs) (index : UInt32) (algorithm : UInt16) (length : Nat) :
    Decidable (Accepts t index algorithm length) := inferInstanceAs (Decidable (_ ∧ _))

/-- A read that succeeds fills the buffer with the PCR and zeros. One that the
library refuses by its index leaves it alone, and every other one clears it. -/
def readResult (t : Tpm algs) (index : UInt32) (algorithm : UInt16) : Option (List UInt8) → Result
  | none => (tpmInvalidParam, none)
  | some buf =>
      if h : index.toNat < 24 then
        if t.started = true ∧ t.allocated algorithm = true ∧ algs.size algorithm ≤ maxDigestSize then
          if algs.size algorithm ≤ buf.length then
            (tpmSuccess, some ((t.pcrs (algorithm, ⟨index.toNat, h⟩)).1 ++
              List.replicate (buf.length - algs.size algorithm) 0))
          else (tpmInvalidParam, some (List.replicate buf.length 0))
        else (tpmErrResponse, some (List.replicate buf.length 0))
      else (tpmInvalidParam, some buf)

def extendSize : Nat := 33

/-- The result of a call and what it makes of the TPM. -/
def expected (t : Tpm algs) : Call → Result × Tpm algs
  | .startup _ =>
      if t.started then ((tpmErrAlreadyInit, none), t) else ((tpmSuccess, none), { t with started := true })
  | .extend _ _ none _ => ((tpmInvalidParam, none), t)
  | .extend index algorithm (some digest) digestLen =>
      if extendSize + digestLen.toNat ≤ maxSizeCmdbuf then
        if h : Accepts t index algorithm digestLen.toNat then
          ((tpmSuccess, none), t.extend (algorithm, ⟨index.toNat, h.2.1⟩) (memory digest digestLen.toNat))
        else ((tpmErrResponse, none), t)
      else ((tpmInvalidParam, none), t)
  | .read index algorithm buf => (readResult t index algorithm buf, t)

def expectedAll (t : Tpm algs) : List Call → List Result × Tpm algs
  | [] => ([], t)
  | call :: calls =>
      let rest := expectedAll (expected t call).2 calls
      ((expected t call).1 :: rest.1, rest.2)

def logged : Call × Result → Option (Pcr × List UInt8)
  | (.extend index algorithm (some digest) digestLen, result) =>
      if h : result.1 = tpmSuccess ∧ index.toNat < 24 then
        some ((algorithm, ⟨index.toNat, h.2⟩), memory digest digestLen.toNat)
      else none
  | _ => none

def eventLog (calls : List Call) (results : List Result) : List (Pcr × List UInt8) :=
  (calls.zip results).filterMap logged

section Machine

variable {t : Tpm algs}

theorem respond_accepts (other : Unmodelled) {index : UInt32} {algorithm : UInt16} {digest : List UInt8}
    (h : Accepts t index algorithm digest.length) :
    respond other t (.pcrExtend index ⟨[], 0, []⟩ algorithm digest) =
      (extendResponse, t.extend (algorithm, ⟨index.toNat, h.2.1⟩) digest) := by
  obtain ⟨hs, hindex, halloc, hlen⟩ := h
  simp only [respond, hs]
  exact dif_pos ⟨hindex, halloc, hlen, trivial⟩

theorem respond_refuses (other : Unmodelled) {index : UInt32} {algorithm : UInt16} {digest : List UInt8}
    (h : ¬ Accepts t index algorithm digest.length) : ∃ code, code ≠ tpmResponseSuccess ∧
      respond other t (.pcrExtend index ⟨[], 0, []⟩ algorithm digest) = (failure code, t) := by
  cases hs : t.started with
  | false =>
      refine ⟨tpmRcInitialize, by decide, ?_⟩
      simp only [respond, hs]
  | true =>
      refine ⟨0x84, by decide, ?_⟩
      simp only [respond, hs]
      exact dif_neg fun hc => h ⟨hs, hc.1, hc.2.1, hc.2.2.1⟩

variable [Host] (other : Unmodelled) (start : Tpm algs) (chip : ChipData) (stack : TpmCmd) (t)

theorem tpmStartup_machine (mode : UInt16) (resp : List UInt8) : ∃ resp',
    tpmStartup (machine other start).ops chip mode (t, resp) =
      (some (expected t (.startup mode)).1.1, (expected t (.startup mode)).2, resp') := by
  cases hs : t.started with
  | true =>
      have hstep : respond other t (.startup mode) = (failure tpmRcInitialize, t) := by simp only [respond, hs]
      rw [expected, if_pos hs]
      exact Responders.tpmStartup_machine (responder other start) chip hstep resp
  | false =>
      have hstep : respond other t (.startup mode) = (frame 0x8001 0 [], { t with started := true }) := by
        simp only [respond, hs]
      rw [expected, if_neg (by rw [hs]; decide)]
      exact Responders.tpmStartup_machine (responder other start) chip hstep resp

theorem tpmPcrExtend_machine (index : UInt32) (algorithm : UInt16) (digest : Option (Nat → UInt8))
    (digestLen : UInt32) (resp : List UInt8) : ∃ resp',
    tpmPcrExtend (machine other start).ops chip index algorithm digest digestLen (t, resp) =
      (some (expected t (.extend index algorithm digest digestLen)).1.1,
        (expected t (.extend index algorithm digest digestLen)).2, resp') := by
  cases digest with
  | none => exact ⟨resp, rfl⟩
  | some digest =>
      have hbuilt := pcrExtendCommand_built index algorithm digest digestLen
      have hlength : (memory digest digestLen.toNat).length = digestLen.toNat := by
        rw [memory, List.length_map, List.length_range']
      have hsize : (TpmRequest.pcrExtend index ⟨[], 0, []⟩ algorithm (memory digest digestLen.toNat)).size =
          extendSize + digestLen.toNat := by
        simp only [TpmRequest.size, TpmRequest.body, List.length_append, be32_length, be16_length,
          PasswordAuth.length_encode, hlength, List.length_nil, extendSize]
        omega
      have hfinish := hbuilt.finish
      rw [hsize] at hfinish
      rw [tpmPcrExtend, expected]
      dsimp only
      by_cases hfit : extendSize + digestLen.toNat ≤ maxSizeCmdbuf
      swap
      · rw [if_neg hfit] at hfinish
        rw [hfinish, if_pos (by decide), if_neg hfit]
        exact ⟨resp, rfl⟩
      rw [if_pos hfit] at hfinish ⊢
      obtain ⟨out, hrun, hcarries⟩ := tpmXfer_machine other start chip _ hbuilt (hsize ▸ hfit) TpmCmd.zero t resp
      rw [hfinish.1, if_neg (by decide), bind_some hrun]
      dsimp only
      rw [if_neg (by decide)]
      by_cases haccepts : Accepts t index algorithm digestLen.toNat
      · have hstep := respond_accepts other (hlength.symm ▸ haccepts : Accepts t index algorithm
          (memory digest digestLen.toNat).length)
        rw [hstep] at hcarries ⊢
        rw [code_frame hcarries, if_neg (by decide), dif_pos haccepts]
        exact ⟨_, rfl⟩
      · obtain ⟨code, hcode, hstep⟩ := respond_refuses other (hlength.symm ▸ haccepts : ¬ Accepts t index algorithm
          (memory digest digestLen.toNat).length)
        rw [hstep] at hcarries ⊢
        rw [code_frame hcarries, if_pos hcode, dif_neg haccepts]
        exact ⟨_, rfl⟩

omit [Host] in
theorem banks_allocated {algorithm : UInt16} (h : t.allocated algorithm = true) :
    t.banks.banks algorithm = some ⟨algs.size algorithm, fun index => (t.pcrs (algorithm, index)).1,
      fun index => (t.pcrs (algorithm, index)).2, algs.size_pos algorithm, algs.size_le algorithm⟩ := if_pos h

omit [Host] in
theorem banks_free {algorithm : UInt16} (h : ¬ t.allocated algorithm = true) : t.banks.banks algorithm = none :=
  if_neg h

omit [Host] in
theorem readResult_of_reads {index : UInt32} {algorithm : UInt16} {buf out : List UInt8} {ret : Int}
    (hs : t.started = true) (hindex : index.toNat < 24) (h : ReadsPcr t.banks index algorithm buf ret out) :
    (ret, some out) = readResult t index algorithm (some buf) := by
  rw [readResult, dif_pos hindex]
  by_cases halloc : t.allocated algorithm = true
  swap
  · obtain ⟨rfl, rfl⟩ := h.response hindex (.inl (banks_free t halloc))
    rw [if_neg fun hc => halloc hc.2.1]
  have hbank := banks_allocated t halloc
  by_cases hmax : algs.size algorithm ≤ maxDigestSize
  swap
  · obtain ⟨rfl, rfl⟩ := h.response hindex (.inr ⟨_, hbank, not_le.mp hmax⟩)
    rw [if_neg fun hc => hmax hc.2.2]
  rw [if_pos ⟨hs, halloc, hmax⟩]
  by_cases hroom : algs.size algorithm ≤ buf.length
  · have hret := h.success.mpr ⟨hindex, _, hbank, hmax, hroom⟩
    rw [if_pos hroom, hret, h.digest hret hindex _ hbank]
  · obtain ⟨rfl, rfl⟩ := h.param hindex ⟨_, hbank, hmax, not_le.mp hroom⟩
    rw [if_neg hroom]

theorem tpmPcrReadSingle_machine (index : UInt32) (algorithm : UInt16) (buf : Option (List UInt8))
    (resp : List UInt8) : ∃ resp',
    tpmPcrReadSingle (machine other start).ops stack chip index algorithm buf (t, resp) =
      (some (expected t (.read index algorithm buf)).1, (expected t (.read index algorithm buf)).2, resp') := by
  by_cases hindex : index < 24
  swap
  · have hge : index ≥ tpmPcrSelectSize.toUInt32 * 8 := UInt32.not_lt.mp hindex
    refine ⟨resp, ?_⟩
    rw [expected]
    cases buf with
    | none =>
        rw [tpmPcrReadSingle, if_pos hge]
        · rfl
        · intro _ hb
          cases hb
    | some buf =>
        have hlt : ¬ index.toNat < 24 := hindex
        rw [tpmPcrReadSingle, if_pos hge, readResult, dif_neg hlt]
        rfl
  cases buf with
  | none =>
      have hlt : ¬ index ≥ tpmPcrSelectSize.toUInt32 * 8 := UInt32.not_le.mpr hindex
      refine ⟨resp, ?_⟩
      rw [tpmPcrReadSingle, if_neg hlt]
      · rfl
      · intro _ hb
        cases hb
  | some buf =>
      have hfit : (TpmRequest.pcrRead [⟨algorithm, pcrOctets index.toNat⟩]).size ≤ maxSizeCmdbuf := by
        rw [TpmRequest.size, TpmRequest.body, length_encodeSelections, List.length_singleton]
        decide
      obtain ⟨out, hrun, hcarries⟩ :=
        tpmXfer_machine other start chip _ (pcrReadCommand_built hindex algorithm) hfit stack t resp
      rw [tpmPcrReadSingle_eq _ _ _ hindex, bind_some hrun, outcome_success, expected]
      have hlt : index.toNat < 24 := hindex
      cases hs : t.started with
      | false =>
          have hstep : respond other t (.pcrRead [⟨algorithm, pcrOctets index.toNat⟩]) =
              (failure tpmRcInitialize, t) := by simp only [respond, hs]
          rw [hstep] at hcarries ⊢
          have hverdict : verdict buf.length out = .errResponse := by
            rw [verdict, code_frame hcarries]
            exact if_pos (by decide)
          have hclosed : ¬ (t.started = true ∧ t.allocated algorithm = true ∧ algs.size algorithm ≤ maxDigestSize) :=
            fun hc => Bool.false_ne_true (hs.symm.trans hc.1)
          rw [contents, hverdict, if_neg (by decide), readResult, dif_pos hlt, if_neg hclosed]
          exact ⟨_, rfl⟩
      | true =>
          have hstep : respond other t (.pcrRead [⟨algorithm, pcrOctets index.toNat⟩]) =
              (pcrResponse (t.banks.parameters algorithm ⟨index.toNat, hlt⟩), t) := by
            have hselected := selected_pcrOctets ⟨index.toNat, hlt⟩
            simp only [respond, hs]
            rw [hselected]
          rw [hstep] at hcarries ⊢
          have hreads : ReadsPcr t.banks index algorithm buf (verdict buf.length out).code (contents buf.length out) := by
            cases hbank : t.banks.banks algorithm with
            | none => exact readsPcr_absent hbank hindex hcarries buf
            | some bank => exact readsPcr_bank hbank hindex hcarries buf
          rw [readResult_of_reads t hs hlt hreads]
          exact ⟨_, rfl⟩

omit [Host] in
theorem expected_extend (index : UInt32) (algorithm : UInt16) (digest : Option (Nat → UInt8)) (digestLen : UInt32) :
    (expected t (.extend index algorithm digest digestLen)).1.2 = none := by
  cases digest with
  | none => rfl
  | some digest =>
      rw [expected]
      split
      · split <;> rfl
      · rfl

theorem call_machine (call : Call) (resp : List UInt8) : ∃ resp',
    call.run (machine other start).ops chip stack (t, resp) =
      (some (expected t call).1, (expected t call).2, resp') := by
  cases call with
  | startup mode =>
      obtain ⟨resp', hrun⟩ := tpmStartup_machine t other start chip mode resp
      refine ⟨resp', ?_⟩
      rw [Call.run, bind_some hrun, expected]
      split <;> rfl
  | extend index algorithm digest digestLen =>
      obtain ⟨resp', hrun⟩ := tpmPcrExtend_machine t other start chip index algorithm digest digestLen resp
      have hnone := expected_extend t index algorithm digest digestLen
      exact ⟨resp', by rw [Call.run, bind_some hrun, ← hnone]; rfl⟩
  | read index algorithm buf => exact tpmPcrReadSingle_machine t other start chip stack index algorithm buf resp

end Machine

section Replay

variable (t : Tpm algs)

/-- Only an extend that returns success changes a PCR, and only its own. -/
theorem expected_pcrs (call : Call) : (expected t call).2.pcrs =
    (logged (call, (expected t call).1)).toList.foldl (absorb (extended algs)) t.pcrs := by
  cases call with
  | startup mode =>
      rw [expected]
      split <;> rfl
  | read index algorithm buf => rfl
  | extend index algorithm digest digestLen =>
      cases digest with
      | none => rfl
      | some digest =>
          rw [expected]
          by_cases hfit : extendSize + digestLen.toNat ≤ maxSizeCmdbuf
          swap
          · rw [if_neg hfit, logged, dif_neg fun hc => invalidParam_ne_success hc.1]
            rfl
          rw [if_pos hfit]
          by_cases haccepts : Accepts t index algorithm digestLen.toNat
          · rw [dif_pos haccepts, logged, dif_pos ⟨rfl, haccepts.2.1⟩]
            rfl
          · rw [dif_neg haccepts, logged, dif_neg fun hc => errResponse_ne_success hc.1]
            rfl

theorem eventLog_cons (call : Call) (calls : List Call) (result : Result) (results : List Result) :
    eventLog (call :: calls) (result :: results) =
      (logged (call, result)).toList ++ eventLog calls results := by
  rw [eventLog, List.zip_cons_cons]
  cases h : logged (call, result) with
  | none => exact List.filterMap_cons_none h
  | some e => exact List.filterMap_cons_some h

theorem expectedAll_pcrs (calls : List Call) (pcr : Pcr) : (expectedAll t calls).2.pcrs pcr =
    (entriesAt pcr (eventLog calls (expectedAll t calls).1)).foldl (extended algs pcr) (t.pcrs pcr) := by
  induction calls generalizing t with
  | nil => rfl
  | cons call calls ih =>
      rw [expectedAll]
      dsimp only
      rw [ih, expected_pcrs, absorbAll_apply, eventLog_cons, entriesAt_append, List.foldl_append]

theorem expectedAll_allocated (calls : List Call) : (expectedAll t calls).2.allocated = t.allocated := by
  induction calls generalizing t with
  | nil => rfl
  | cons call calls ih =>
      have hcall : (expected t call).2.allocated = t.allocated := by
        fun_cases expected t call <;> rfl
      exact (ih _).trans hcall

theorem expectedAll_started (calls : List Call) (h : t.started = true ∨ ∃ mode, .startup mode ∈ calls) :
    (expectedAll t calls).2.started = true := by
  induction calls generalizing t with
  | nil =>
      obtain hs | ⟨mode, hmode⟩ := h
      · exact hs
      · exact absurd hmode List.not_mem_nil
  | cons call calls ih =>
      apply ih
      have hkeeps (hs : t.started = true) : (expected t call).2.started = true := by
        fun_cases expected t call with
        | case2 => rfl
        | case1 | case3 | case4 | case5 | case6 | case7 => exact hs
      obtain hs | ⟨mode, hmode⟩ := h
      · exact .inl (hkeeps hs)
      obtain rfl | hmode := List.mem_cons.mp hmode
      · refine .inl ?_
        by_cases hs : t.started = true
        · exact hkeeps hs
        · rw [expected, if_neg hs]
      · exact .inr ⟨mode, hmode⟩

end Replay

section Hardware

variable [Host] {W : Type} {port : FifoPort W} {chip : ChipData} {other : Unmodelled} {start : Tpm algs}
  {view : W → Device} {limit fuel : Nat} {lag left : W → Nat} {stack : TpmCmd}

theorem call_simulates {V W : Type} {R : W → V → Prop} {i : Interface W} {i' : Interface V}
    (h : ExchangeSimulates R i i' chip) (stack : TpmCmd) (call : Call) :
    Simulates R Eq (call.run i chip stack) (call.run i' chip stack) := by
  cases call with
  | startup mode => exact Simulates.step (tpmStartup_simulates h _) fun _ => simulates_pure rfl
  | extend => exact Simulates.step (tpmPcrExtend_simulates h _ _ _ _) fun _ => simulates_pure rfl
  | read => exact tpmPcrReadSingle_simulates h _ _ _

def tpmIn (other : Unmodelled) (start : Tpm algs) (view : W → Device) (w : W) : Tpm algs :=
  (machine other start).stateAt (view w).history

/-- Whatever state the device is in, a call over its registers returns what it is
for, and does to the TPM inside what it is for. -/
theorem call_expected (h : Prompt port chip (machine other start) view limit lag left) (hfuel : Ample limit fuel)
    (call : Call) (w : W) : ∃ w',
      call.run (fifoOps port fuel) chip stack w = (some (expected (tpmIn other start view w) call).1, w') ∧
      tpmIn other start view w' = (expected (tpmIn other start view w) call).2 := by
  obtain ⟨resp', hrun⟩ := call_machine (tpmIn other start view w) other start chip stack call []
  have hstart : InStep (machine other start) view w (tpmIn other start view w, []) := rfl
  have hsim := call_simulates (exchange_simulates h hfuel) stack call
  obtain ⟨_, w', hw, rfl, hin⟩ := hsim.returned hstart hrun
  exact ⟨w', hw, hin⟩

theorem runAll_expected (h : Prompt port chip (machine other start) view limit lag left) (hfuel : Ample limit fuel)
    (calls : List Call) (w : W) : ∃ w',
      runAll (fifoOps port fuel) chip stack calls w =
        (some (expectedAll (tpmIn other start view w) calls).1, w') ∧
      tpmIn other start view w' = (expectedAll (tpmIn other start view w) calls).2 := by
  induction calls generalizing w with
  | nil => exact ⟨w, rfl, rfl⟩
  | cons call calls ih =>
      obtain ⟨w₁, hcall, htpm⟩ := call_expected h hfuel call w
      obtain ⟨w₂, hrest, htpm'⟩ := ih w₁
      rw [htpm] at hrest htpm'
      exact ⟨w₂, by rw [runAll, bind_some hcall, bind_some hrest]; rfl, htpm'⟩

/-- Whatever state the device is in, a measured boot over its registers has the
results that the calls are for, and leaves each PCR as the event log of its
extends says. -/
theorem measured_boot (h : Prompt port chip (machine other start) view limit lag left) (hfuel : Ample limit fuel)
    (calls : List Call) (w : W) : ∃ results w',
      runAll (fifoOps port fuel) chip stack calls w = (some results, w') ∧
      (results, tpmIn other start view w') = expectedAll (tpmIn other start view w) calls ∧
      ∀ pcr, (tpmIn other start view w').pcrs pcr =
        (entriesAt pcr (eventLog calls results)).foldl (extended algs pcr) ((tpmIn other start view w).pcrs pcr) := by
  obtain ⟨w', hrun, htpm⟩ := runAll_expected h hfuel calls w
  refine ⟨_, w', hrun, Prod.ext rfl htpm, fun pcr => ?_⟩
  rw [htpm]
  exact expectedAll_pcrs _ calls pcr

/-- A verifier that replays the event log of a boot gets what a read returns. -/
theorem read_replays (h : Prompt port chip (machine other start) view limit lag left) (hfuel : Ample limit fuel)
    (calls : List Call) (w : W) (index : Fin 24) (algorithm : UInt16) (buf : List UInt8)
    (hstarted : (tpmIn other start view w).started = true ∨ ∃ mode, .startup mode ∈ calls)
    (halloc : (tpmIn other start view w).allocated algorithm = true) (hsize : algs.size algorithm ≤ 48)
    (hroom : algs.size algorithm ≤ buf.length) : ∃ results w' w'',
      runAll (fifoOps port fuel) chip stack calls w = (some results, w') ∧
      tpmPcrReadSingle (fifoOps port fuel) stack chip (UInt32.ofNat index.val) algorithm (some buf) w' =
        (some (tpmSuccess, some (((entriesAt (algorithm, index) (eventLog calls results)).foldl
          (extended algs (algorithm, index)) ((tpmIn other start view w).pcrs (algorithm, index))).1 ++
            List.replicate (buf.length - algs.size algorithm) 0)), w'') := by
  obtain ⟨w', hrun, htpm⟩ := runAll_expected h hfuel calls w
  obtain ⟨w'', hread, -⟩ :=
    call_expected h hfuel (.read (UInt32.ofNat index.val) algorithm (some buf)) w'
  refine ⟨_, w', w'', hrun, ?_⟩
  have hindex : (UInt32.ofNat index.val).toNat = index.val :=
    UInt32.toNat_ofNat_of_lt' (Nat.lt_trans index.isLt (by decide))
  have hlt : (UInt32.ofNat index.val).toNat < 24 := Nat.lt_of_le_of_lt (Nat.le_of_eq hindex) index.isLt
  have halloc' : (tpmIn other start view w').allocated algorithm = true := by
    rw [htpm, expectedAll_allocated, halloc]
  have hstarted' : (tpmIn other start view w').started = true := by
    rw [htpm]
    exact expectedAll_started _ calls hstarted
  rw [Call.run] at hread
  rw [hread, expected, readResult, dif_pos hlt, if_pos ⟨hstarted', halloc', hsize⟩, if_pos hroom]
  have hpcr : (⟨(UInt32.ofNat index.val).toNat, hlt⟩ : Fin 24) = index := Fin.ext hindex
  rw [hpcr, htpm, expectedAll_pcrs]

end Hardware

section Example

def checksums : HashAlgs where
  size _ := 32
  hash algorithm bs := List.replicate 32 (bs.foldl (fun sum b => 31 * sum + b) algorithm.toUInt8)
  length_hash _ _ := List.length_replicate
  size_pos _ := by decide
  size_le _ := by decide

def resetTpm : Tpm checksums where
  started := false
  updateCounter := 0
  allocated algorithm := algorithm = 0x000B
  pcrs _ := ⟨List.replicate 32 0, List.length_replicate⟩

def boot : List Call :=
  [.extend 0 0x000B (some fun _ => 1) 32, .startup 0, .extend 0 0x000B (some fun _ => 2) 32,
    .extend 7 0x000B (some fun _ => 3) 32, .extend 0 0x000B (some fun _ => 4) 20, .startup 0,
    .extend 0 0x000B (some fun _ => 5) 32]

theorem measured_boot_checksums :
    letI := littleHost
    let m := machine refusing resetTpm
    let port := LazyDevice.port m (localityStartAddress tpmChipData.locality) 3
    let before := tpmIn refusing resetTpm LazyDevice.Lazy.device (LazyDevice.interrupted m 3)
    ∃ results w', runAll (fifoOps port 300) tpmChipData TpmCmd.zero boot (LazyDevice.interrupted m 3) =
        (some results, w') ∧
      (results, tpmIn refusing resetTpm LazyDevice.Lazy.device w') = expectedAll before boot ∧
      ∀ pcr, (tpmIn refusing resetTpm LazyDevice.Lazy.device w').pcrs pcr =
        (entriesAt pcr (eventLog boot results)).foldl (extended checksums pcr) (before.pcrs pcr) := by
  let _ := littleHost
  exact measured_boot (LazyDevice.prompt (machine refusing resetTpm) 3 tpmChipData) ⟨by decide, by decide⟩ boot
    (LazyDevice.interrupted (machine refusing resetTpm) 3)

theorem read_replays_checksums :
    letI := littleHost
    let m := machine refusing resetTpm
    let port := LazyDevice.port m (localityStartAddress tpmChipData.locality) 3
    let before := tpmIn refusing resetTpm LazyDevice.Lazy.device (LazyDevice.interrupted m 3)
    ∃ results w' w'', runAll (fifoOps port 300) tpmChipData TpmCmd.zero boot (LazyDevice.interrupted m 3) =
        (some results, w') ∧
      tpmPcrReadSingle (fifoOps port 300) TpmCmd.zero tpmChipData 0 0x000B (some (List.replicate 40 0xFF)) w' =
        (some (tpmSuccess, some (((entriesAt (0x000B, 0) (eventLog boot results)).foldl
          (extended checksums (0x000B, 0)) (before.pcrs (0x000B, 0))).1 ++ List.replicate 8 0)), w'') := by
  let _ := littleHost
  exact read_replays (LazyDevice.prompt (machine refusing resetTpm) 3 tpmChipData) ⟨by decide, by decide⟩ boot
    (LazyDevice.interrupted (machine refusing resetTpm) 3) 0 0x000B (List.replicate 40 0xFF)
    (.inr ⟨0, by simp [boot]⟩) (by decide) (by decide) (by decide)

end Example

end LibTpm.MeasuredBoot
