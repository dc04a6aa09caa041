import LibTpm.BusDiscipline

namespace LibTpm.TransportErrors

open LibTpm.Base.Process LibTpm.Base.Process.Proc LibTpm.Base.Surfacing LibTpm.Command LibTpm.Constants
open LibTpm.Endian LibTpm.Platform LibTpm.Fifo LibTpm.Spi LibTpm.SpiFlow LibTpm.Library LibTpm.Invariance
open LibTpm.PublicCalls LibTpm.BusDiscipline

variable {W : Type}

def Refusable : SpiCall → Prop
  | .getAccess _ | .xfer _ => True
  | .start | .stop | .releaseAccess => False

def code : SpiCall → Int
  | .getAccess rc | .xfer rc => rc
  | .start | .stop | .releaseAccess => 0

theorem code_eq_zero {c : SpiCall} (h : ¬ Refusable c) : code c = 0 := by
  cases c with
  | getAccess rc | xfer rc => exact absurd trivial h
  | start | stop | releaseAccess => rfl

def mostRecentCode (e : Int) (tr : List SpiCall) : Int :=
  tr.foldl (fun e c => if code c = 0 then e else code c) e

theorem mostRecentCode_append (e : Int) (tr tr' : List SpiCall) :
    mostRecentCode e (tr ++ tr') = mostRecentCode (mostRecentCode e tr) tr' := List.foldl_append

theorem mostRecentCode_zero (e : Int) {tr : List SpiCall} (h : ∀ c ∈ tr, code c = 0) : mostRecentCode e tr = e := by
  induction tr with
  | nil => rfl
  | cons c tr ih =>
      rw [List.forall_mem_cons] at h
      simpa [mostRecentCode, h.1] using ih h.2

/-- A log in which one call has failed, the last that could. -/
structure OneFailure (tr : List SpiCall) (pre : List SpiCall) (c : SpiCall) (post : List SpiCall) : Prop where
  log : tr = pre ++ c :: post
  before : ∀ d ∈ pre, code d = 0
  failed : code c ≠ 0
  after : ∀ d ∈ post, ¬ Refusable d

theorem OneFailure.mostRecentCode {tr pre post : List SpiCall} {c : SpiCall} (h : OneFailure tr pre c post)
    (e : Int) : mostRecentCode e tr = code c := by
  have hpost : ∀ d ∈ post, code d = 0 := fun d hd => code_eq_zero (h.after d hd)
  rw [h.log, mostRecentCode_append, ← List.singleton_append, mostRecentCode_append, mostRecentCode_zero _ hpost]
  simp [TransportErrors.mostRecentCode, h.failed]

theorem OneFailure.unique {tr pre post pre' post' : List SpiCall} {c c' : SpiCall} (h : OneFailure tr pre c post)
    (htr : tr = pre' ++ c' :: post') (hc' : code c' ≠ 0) : c' = c ∧ post' = post := by
  have heq := h.log.symm.trans htr
  rcases List.append_eq_append_iff.mp heq with ⟨between, hpre, hrest⟩ | ⟨between, hpre, hrest⟩
  · rcases between with _ | ⟨d, between⟩
    · rw [List.nil_append, List.cons.injEq] at hrest
      exact ⟨hrest.1.symm, hrest.2.symm⟩
    · rw [List.cons_append, List.cons.injEq] at hrest
      have hm : c' ∈ post := by simp [hrest.2]
      exact absurd (code_eq_zero (h.after c' hm)) hc'
  · rcases between with _ | ⟨d, between⟩
    · rw [List.nil_append, List.cons.injEq] at hrest
      exact ⟨hrest.1, hrest.2⟩
    · rw [List.cons_append, List.cons.injEq] at hrest
      have hm : c' ∈ pre := by simp [hpre, hrest.1]
      exact absurd (h.before c' hm) hc'

structure Recorded (g : Globals (W × List SpiCall)) : Prop where
  spidev : ∃ ops, g.tpmSpidev = recordedSpi ops
  timer : ∃ ops, g.tpmTimeoutOps = besideLog ops

structure Quiet (base : List SpiCall) (e : Int) (g : Globals (W × List SpiCall)) : Prop where
  recorded : Recorded g
  log : ∃ tr, g.world.2 = base ++ tr ∧ ∀ c ∈ tr, code c = 0
  error : g.tpmLastTransportError = e

structure Failed (base : List SpiCall) (g : Globals (W × List SpiCall)) : Prop where
  recorded : Recorded g
  log : ∃ tr pre c post, g.world.2 = base ++ tr ∧ OneFailure tr pre c post ∧ g.tpmLastTransportError = code c

section Transport

variable {base : List SpiCall} {e : Int} {g g' : Globals (W × List SpiCall)}

theorem Quiet.succeed (h : Quiet base e g) (calls : List SpiCall) (hs : g'.tpmSpidev = g.tpmSpidev)
    (ht : g'.tpmTimeoutOps = g.tpmTimeoutOps) (hl : g'.world.2 = g.world.2 ++ calls)
    (he : g'.tpmLastTransportError = g.tpmLastTransportError) (hc : ∀ c ∈ calls, code c = 0) : Quiet base e g' := by
  obtain ⟨tr, htr, hz⟩ := h.log
  refine ⟨⟨hs ▸ h.recorded.spidev, ht ▸ h.recorded.timer⟩, ⟨tr ++ calls, ?_, ?_⟩, he.trans h.error⟩
  · rw [hl, htr, List.append_assoc]
  · simp only [List.mem_append]
    rintro c (hm | hm)
    · exact hz c hm
    · exact hc c hm

theorem Quiet.fail (h : Quiet base e g) (hs : g'.tpmSpidev = g.tpmSpidev) (ht : g'.tpmTimeoutOps = g.tpmTimeoutOps)
    {c : SpiCall} (hl : g'.world.2 = g.world.2 ++ [c]) (hc : code c ≠ 0)
    (he : g'.tpmLastTransportError = code c) : Failed base g' := by
  obtain ⟨tr, htr, hz⟩ := h.log
  refine ⟨⟨hs ▸ h.recorded.spidev, ht ▸ h.recorded.timer⟩, tr ++ [c], tr, c, [], ?_, ?_, he⟩
  · rw [hl, htr, List.append_assoc]
  · exact ⟨rfl, hz, hc, List.forall_mem_nil _⟩

theorem transfer_quiet (base : List SpiCall) (e : Int) (out : Option (List UInt8)) (len : UInt8) :
    TransferSteps (W := W × List SpiCall) (Quiet base e) (Quiet base e) (Failed base) out len := by
  intro g h
  obtain ⟨ops, hs⟩ := h.recorded.spidev
  have hl : (platform (fun g => g.tpmSpidev.xfer len.toNat out) g).2.world.2 =
      g.world.2 ++ [.xfer (platform (fun g => g.tpmSpidev.xfer len.toNat out) g).1.1] := by
    simp only [platform, hs]
    rfl
  simp only [tpm2SpiTransfer, state_bind]
  split
  next hrc => exact .inr ⟨hrc, h.fail rfl rfl hl hrc rfl⟩
  next hrc =>
    rw [not_not] at hrc
    exact .inl ⟨hrc, h.succeed _ rfl rfl hl rfl (by simpa [code] using hrc)⟩

theorem endTransaction_quiet (h : Quiet base e g) : Quiet base e (tpm2SpiEndTransaction g).2 := by
  obtain ⟨ops, hs⟩ := h.recorded.spidev
  exact h.succeed _ rfl rfl (endTransaction_reaches hs).log rfl (by decide)

theorem endTransaction_failed (h : Failed base g) : Failed base (tpm2SpiEndTransaction g).2 := by
  obtain ⟨⟨⟨ops, hs⟩, ht⟩, tr, pre, c, post, hlog, hone, he⟩ := h
  have hr := endTransaction_reaches hs
  refine ⟨⟨⟨ops, hr.spidev.trans hs⟩, hr.timeoutOps ▸ ht⟩, tr ++ [.stop, .releaseAccess], pre, c,
    post ++ [.stop, .releaseAccess], ?_, ?_, he⟩
  · rw [hr.log, hlog, List.append_assoc]
  · refine ⟨?_, hone.before, hone.failed, ?_⟩
    · rw [hone.log, List.append_assoc, List.cons_append]
    · simpa [or_imp, forall_and, Refusable] using hone.after

theorem spiInit_quiet (h : Quiet base e g) :
    ((tpm2SpiInit g).1 = 0 ∧ Quiet base e (tpm2SpiInit g).2) ∨
      ((tpm2SpiInit g).1 = tpmErrTransfer ∧ Failed base (tpm2SpiInit g).2) := by
  obtain ⟨ops, hs⟩ := h.recorded.spidev
  have hl : (platform (fun g => g.tpmSpidev.getAccess) g).2.world.2 =
      g.world.2 ++ [.getAccess (platform (fun g => g.tpmSpidev.getAccess) g).1] := by
    simp only [platform, hs]
    rfl
  simp only [tpm2SpiInit, state_bind]
  split
  next hrc => exact .inr ⟨rfl, h.fail rfl rfl hl hrc rfl⟩
  next hrc =>
    rw [not_not] at hrc
    have hq : Quiet base e (platform (fun g => g.tpmSpidev.getAccess) g).2 :=
      h.succeed _ rfl rfl hl rfl (by simpa [code] using hrc)
    refine .inl ⟨rfl, hq.succeed [.start] rfl rfl ?_ rfl (by decide)⟩
    simp only [platform, hs]
    rfl

theorem accessSteps_quiet (base : List SpiCall) (e : Int) (header : List UInt8) :
    AccessSteps (W := W × List SpiCall) header (Quiet base e) (Quiet base e) (Quiet base e) (Failed base)
      (Quiet base e) (Failed base) where
  init _ h := spiInit_quiet h
  header := transfer_quiet base e (some header) 4
  transfer := transfer_quiet base e
  close _ h := endTransaction_quiet h
  abandon _ h := endTransaction_failed h

theorem tpm2FifoIo_quiet (h : Quiet base e g) (reg : UInt16) (access : TpmAccess) {len : UInt8}
    (hl : len ≤ encodeLimit) (val : Option (List UInt8)) :
    Quiet base e (tpm2FifoIo reg access len val g).2 ∨
      ((tpm2FifoIo reg access len val g).1.1 = tpmErrTransfer ∧ Failed base (tpm2FifoIo reg access len val g).2) :=
  tpm2FifoIo_steps (accessSteps_quiet base e _) hl val h

end Transport

section Calls

variable {base : List SpiCall} {e : Int}

theorem timer_quiet {g : Globals (W × List SpiCall)} (h : Quiet base e g) {α : Type}
    (call : TimeoutOps (W × List SpiCall) → StateM (W × List SpiCall) α)
    (hc : ∀ ops w, ((call (besideLog ops)) w).2.2 = w.2) :
    Quiet base e (platform (fun g => call g.tpmTimeoutOps) g).2 := by
  obtain ⟨ops, ht⟩ := h.recorded.timer
  refine h.succeed [] rfl rfl ?_ rfl (List.forall_mem_nil _)
  rw [List.append_nil, ← hc ops g.world, ← ht]
  rfl

theorem spiPort_surfaces : PortSurfaces (fun _ => True) (Quiet base e) (Failed base)
    (spiPort : FifoPort (Globals (W × List SpiCall))) where
  timeoutInit usec := fun _ h => timer_quiet h (fun ops => ops.timeoutInitUs usec) fun _ _ => rfl
  timeoutElapsed cnt := fun _ h => timer_quiet h (fun ops => ops.timeoutElapsed cnt) fun _ _ => rfl
  write reg val _ := ⟨fun _ h => (tpm2FifoIo_quiet h reg .write (by decide) (some [val])).imp_right And.symm⟩
  read reg _ _ := ⟨fun _ h => (tpm2FifoIo_quiet h reg .read (by decide) none).imp_right And.symm⟩
  readChunk reg len _ := by
    constructor
    intro g h
    change Quiet base e (tpm2FifoReadChunk reg len g).2 ∨
      Failed base (tpm2FifoReadChunk reg len g).2 ∧ (tpm2FifoReadChunk reg len g).1.1 = tpmErrTransfer
    unfold tpm2FifoReadChunk
    split
    · exact .inl h
    next hl => exact (tpm2FifoIo_quiet h reg .read (chunk_le hl) none).imp_right And.symm

variable [Host]

theorem recordedCall_surfaces (base : List SpiCall) (e : Int) (libTimer : Option (TimeoutOps W))
    (call : PublicCall W) (stack : TpmCmd) (fuel : Nat) :
    Surfaces (Quiet base e) (Failed base) (fun ret => ret = tpmErrTransfer)
      ((recordedCall call).run (libTimer.map besideLog) stack fuel) := by
  apply publicCall_surfaces spiPort_surfaces _ _ (fun locality _ => pageIn_true locality)
  intro s hs
  obtain ⟨hspi, htimer⟩ := recordedCall_installs hs
  refine ⟨fun g h => ⟨⟨hspi, h.recorded.timer⟩, h.log, h.error⟩, fun ops ho g h => ?_⟩
  exact ⟨⟨h.recorded.spidev, htimer ops ho⟩, h.log, h.error⟩

/-- The last error is the most recent code of the log. -/
structure Current (e : Int) (g : Globals (W × List SpiCall)) : Prop where
  recorded : Recorded g
  error : g.tpmLastTransportError = mostRecentCode e g.world.2

omit [Host] in
theorem Quiet.current {g g' : Globals (W × List SpiCall)} (hg : Current e g)
    (h : Quiet g.world.2 g.tpmLastTransportError g') : Current e g' := by
  obtain ⟨tr, hlog, hz⟩ := h.log
  refine ⟨h.recorded, ?_⟩
  rw [h.error, hlog, mostRecentCode_append, mostRecentCode_zero _ hz, hg.error]

omit [Host] in
theorem Failed.current {g' : Globals (W × List SpiCall)} (h : Failed base g') : Current e g' := by
  obtain ⟨tr, pre, c, post, hlog, hone, he⟩ := h.log
  refine ⟨h.recorded, ?_⟩
  rw [he, hlog, mostRecentCode_append, hone.mostRecentCode]

theorem recordedCall_current (libTimer : Option (TimeoutOps W)) (call : PublicCall W) (stack : TpmCmd)
    (fuel : Nat) : Keeps (Current e) ((recordedCall call).run (libTimer.map besideLog) stack fuel) := by
  intro g hg
  have h := (recordedCall_surfaces g.world.2 g.tpmLastTransportError libTimer call stack fuel).meets g
    ⟨hg.recorded, ⟨[], (List.append_nil _).symm, List.forall_mem_nil _⟩, rfl⟩
  apply Meets.world
  apply h.mono
  · rintro _ g' (hq | ⟨hf, -⟩)
    · exact hq.current hg
    · exact hf.current
  · exact fun _ hq => hq.current hg

theorem runCalls_current (libTimer : Option (TimeoutOps W)) (fuel : Nat) (calls : List (PublicCall W × TpmCmd)) :
    Keeps (Current e) (runCalls (libTimer.map besideLog) fuel (calls.map fun c => (recordedCall c.1, c.2))) := by
  induction calls with
  | nil => exact keeps_pure _ _
  | cons c calls ih => exact Keeps.bind (recordedCall_current libTimer c.1 c.2 fuel) fun _ => ih

omit [Host] in
theorem recordedGlobals_recorded (g : Globals W) : Recorded (recordedGlobals g) := ⟨⟨_, rfl⟩, ⟨_, rfl⟩⟩

theorem failed_call (libTimer : Option (TimeoutOps W)) (fuel : Nat) (call : PublicCall W) (stack : TpmCmd)
    (g : Globals W) {pre post : List SpiCall} {c : SpiCall}
    (htr : ((recordedCall call).run (libTimer.map besideLog) stack fuel (recordedGlobals g)).2.world.2 =
      pre ++ c :: post) (hc : code c ≠ 0) :
    Meets ((recordedCall call).run (libTimer.map besideLog) stack fuel) (recordedGlobals g)
      (fun ret g' => ret = tpmErrTransfer ∧ (∀ d ∈ post, ¬ Refusable d) ∧ g'.tpmLastTransportError = code c)
      (fun _ => False) := by
  have h := (recordedCall_surfaces [] g.tpmLastTransportError libTimer call stack fuel).meets (recordedGlobals g)
    ⟨recordedGlobals_recorded g, ⟨[], rfl, List.forall_mem_nil _⟩, rfl⟩
  have hquiet {e : Int} {g' : Globals (W × List SpiCall)} (hq : Quiet [] e g') (hg' : g'.world.2 = pre ++ c :: post) :
      False := by
    obtain ⟨tr, hlog, hz⟩ := hq.log
    rw [hg', List.nil_append] at hlog
    exact hc (hz c (by simp [← hlog]))
  apply ((h.and (meets_world.mpr htr)).mono · fun g' hq => hquiet hq.1 hq.2)
  rintro ret g' ⟨hq | ⟨hf, hret⟩, hg'⟩
  · exact (hquiet hq hg').elim
  · obtain ⟨tr, pre', c', post', hlog, hone, he⟩ := hf.log
    rw [List.nil_append] at hlog
    obtain ⟨rfl, rfl⟩ := hone.unique (hlog.symm.trans hg') hc
    exact ⟨hret, hone.after, he⟩

/-- A failure of the transport ends the call with TPM_ERR_TRANSFER and is the
last request of the call; tpm_get_last_transport_error returns its code, and
between failures the most recent one. -/
theorem transport_failures_surface (libTimer : Option (TimeoutOps W)) (fuel : Nat) :
    (∀ (call : PublicCall W) (stack : TpmCmd) (g : Globals W) (pre post : List SpiCall) (c : SpiCall),
      let r := (recordedCall call).run (libTimer.map besideLog) stack fuel (recordedGlobals g)
      r.2.world.2 = pre ++ c :: post → code c ≠ 0 →
        r.1 = some tpmErrTransfer ∧ (∀ d ∈ post, ¬ Refusable d) ∧ (tpmGetLastTransportError r.2).1 = code c) ∧
    ∀ (calls : List (PublicCall W × TpmCmd)) (g : Globals W),
      let r := runCalls (libTimer.map besideLog) fuel (calls.map fun c => (recordedCall c.1, c.2)) (recordedGlobals g)
      (tpmGetLastTransportError r.2).1 = mostRecentCode g.tpmLastTransportError r.2.world.2 := by
  constructor
  · intro call stack g pre post c r htr hc
    have h := failed_call libTimer fuel call stack g htr hc
    rcases hr : (recordedCall call).run (libTimer.map besideLog) stack fuel (recordedGlobals g) with ⟨_ | ret, g'⟩
    · exact (h.polling hr).elim
    · obtain ⟨rfl, hpost, he⟩ := h.returned hr
      exact ⟨by rw [show r = _ from hr], hpost, by rw [show r = _ from hr]; exact he⟩
  · intro calls g
    exact (runCalls_current libTimer fuel calls (recordedGlobals g) ⟨recordedGlobals_recorded g, rfl⟩).error

end Calls

end LibTpm.TransportErrors
