import LibTpm.BusDiscipline

namespace LibTpm.LocalityPages

open LibTpm.Base.Process LibTpm.Base.Process.Proc LibTpm.Command LibTpm.Constants LibTpm.Endian LibTpm.Platform
open LibTpm.Fifo LibTpm.Spi LibTpm.SpiFlow LibTpm.Library LibTpm.Invariance LibTpm.PublicCalls
open LibTpm.BusDiscipline

variable {W : Type}

/-- What a bus analyser sees of a transaction: its start, and the bytes that
each transfer sends. -/
inductive SpiEvent
  | start
  | xfer (out : Option (List UInt8))
  deriving DecidableEq, Repr

def unlogged {α E : Type} (m : StateM W α) : StateM (W × List E) α := fun s => ((m s.1).1, (m s.1).2, s.2)

def watchedSpi (ops : SpiOps W) : SpiOps (W × List SpiEvent) where
  getAccess := unlogged ops.getAccess
  releaseAccess := unlogged ops.releaseAccess
  start := record (fun _ => SpiEvent.start) ops.start
  stop := unlogged ops.stop
  xfer len out := record (fun _ => SpiEvent.xfer out) (ops.xfer len out)

def watchedTimer (ops : TimeoutOps W) : TimeoutOps (W × List SpiEvent) where
  timeoutInitUs usec := unlogged (ops.timeoutInitUs usec)
  timeoutElapsed cnt := unlogged (ops.timeoutElapsed cnt)

def watchedGlobals (g : Globals W) : Globals (W × List SpiEvent) where
  tpmSpidev := watchedSpi g.tpmSpidev
  tpmTimeoutOps := watchedTimer g.tpmTimeoutOps
  interfaceSet := g.interfaceSet
  tpmLastTransportError := g.tpmLastTransportError
  world := (g.world, [])

def firstSent : List SpiEvent → List UInt8
  | .xfer (some out) :: _ => out
  | _ => []

def headers : List SpiEvent → List (List UInt8)
  | [] => []
  | .start :: tr => firstSent tr :: headers tr
  | .xfer _ :: tr => headers tr

def headerAddress : List UInt8 → Option Nat
  | [_, a, b, c] => some (a.toNat * 0x10000 + b.toNat * 0x100 + c.toNat)
  | _ => none

def addresses (tr : List SpiEvent) : List (Option Nat) := (headers tr).map headerAddress

def InPage (locality : UInt8) (address : Option Nat) : Prop :=
  ∃ a, address = some a ∧ 0xD40000 + 0x1000 * locality.toNat ≤ a ∧ a ≤ 0xD40000 + 0x1000 * locality.toNat + 0xFFF

def OnChip (chip : ChipData) (locality : UInt8) : PublicCall W → Prop
  | .interfaceInit _ _ _ _ => False
  | .interfaceClose c l => c = chip ∧ l = locality
  | .startup c _ | .pcrExtend c _ _ _ _ | .pcrReadSingle c _ _ _ => c = chip
  | .pcrAllocateAuthPassword c _ _ _ _ | .getcapQueryAlgs c _ | .getcapQueryPcrs c _
  | .hasAlg c _ _ | .getAlgProps c _ _ | .forEachAlgProps _ c _ _ _ _
  | .forEachPcrBank _ c _ _ => c = some chip
  | .getLastTransportError => True

/-- The transactions of an initialisation that succeeds and of any calls that
follow on its chip data, on any transport and device. -/
inductive Session [Host] (locality : UInt8) : List SpiEvent → Prop
  | run {W : Type} (libTimer : Option (TimeoutOps W)) (fuel : Nat) (transport : SpiOps W)
      (timeoutOps : Option (TimeoutOps W)) (chip chip' : ChipData) (g : Globals W)
      (calls : List (PublicCall (W × List SpiEvent) × TpmCmd))
      (init : (tpmInterfaceInit (libTimer.map watchedTimer) fuel (watchedSpi transport)
        (timeoutOps.map watchedTimer) chip locality (watchedGlobals g)).1 = some (tpmSuccess, chip'))
      (commands : ∀ call ∈ calls, OnChip chip' locality call.1) :
      Session locality (runCalls (libTimer.map watchedTimer) fuel calls
        (tpmInterfaceInit (libTimer.map watchedTimer) fuel (watchedSpi transport)
          (timeoutOps.map watchedTimer) chip locality (watchedGlobals g)).2).2.world.2

section Headers

theorem firstSent_start (tr t : List SpiEvent) : firstSent (tr ++ .start :: t) = firstSent tr := by
  rcases tr with _ | ⟨e, tr⟩
  · rfl
  · rcases e with _ | _ | out <;> rfl

theorem headers_start (tr t : List SpiEvent) : headers (tr ++ .start :: t) = headers tr ++ headers (.start :: t) := by
  induction tr with
  | nil => rfl
  | cons e tr ih =>
      cases e with
      | start => simp only [List.cons_append, headers, firstSent_start, ih]
      | xfer out => simp only [List.cons_append, headers, ih]

theorem headers_xfers (outs : List (Option (List UInt8))) : headers (outs.map .xfer) = [] := by
  induction outs with
  | nil => rfl
  | cons out outs ih => simpa only [List.map_cons, headers] using ih

theorem headerAddress_spiHeader (reg : UInt16) (access : TpmAccess) (len : UInt8) :
    headerAddress (spiHeader reg access len) = some (0xD40000 + reg.toNat) := by
  have h := reg.toNat_lt
  have hhi : (reg >>> 8).toUInt8.toNat = reg.toNat / 256 := by
    simp [UInt16.toNat_toUInt8, UInt16.toNat_shiftRight, Nat.shiftRight_eq_div_pow]
    omega
  have hlo : reg.toUInt8.toNat = reg.toNat % 256 := by simp
  have hprefix : tpmSpiAddrPrefix.toNat = 0xD4 := rfl
  simp only [spiHeader, headerAddress, hhi, hlo, hprefix, Option.some.injEq]
  omega

def Transacted (reg : UInt16) (t : List SpiEvent) : Prop :=
  ∃ (access : TpmAccess) (len : UInt8) (outs : List (Option (List UInt8))),
    t = .start :: .xfer (some (spiHeader reg access len)) :: outs.map .xfer

theorem Transacted.addresses {reg : UInt16} {t : List SpiEvent} (h : Transacted reg t) (tr : List SpiEvent) :
    addresses (tr ++ t) = addresses tr ++ [some (0xD40000 + reg.toNat)] := by
  obtain ⟨access, len, outs, rfl⟩ := h
  simp only [LocalityPages.addresses, headers_start, headers, firstSent, headers_xfers, List.map_append, List.map_cons,
    List.map_nil, headerAddress_spiHeader]

end Headers

section Pages

def PageOf (locality : UInt8) (reg : UInt16) : Prop := reg.toNat / 0x1000 = locality.toNat % 16

theorem pageIn_pageOf (locality : UInt8) : PageIn (PageOf locality) locality := by
  intro offset ho
  have hb : (localityStartAddress locality).toNat = 0x1000 * locality.toNat % 0x10000 := by
    simp [localityStartAddress]
  rw [UInt32.lt_iff_toNat_lt] at ho
  have hr : (fifoReg (localityStartAddress locality) offset).toNat =
      (0x1000 * locality.toNat % 0x10000 + offset.toNat) % 2 ^ 32 % 2 ^ 16 := by
    simp only [fifoReg, UInt32.toNat_toUInt16, UInt32.toNat_add, UInt16.toNat_toUInt32, hb]
  have hl := locality.toNat_lt
  have : (0x1000 : UInt32).toNat = 0x1000 := rfl
  unfold PageOf
  omega

theorem inPage_iff {locality : UInt8} {reg : UInt16} (h : PageOf locality reg) :
    InPage locality (some (0xD40000 + reg.toNat)) ↔ locality < 16 := by
  have hr := reg.toNat_lt
  have h16 : (16 : UInt8).toNat = 16 := rfl
  unfold PageOf at h
  rw [UInt8.lt_iff_toNat_lt]
  constructor
  · rintro ⟨a, ha, hlo, hhi⟩
    obtain rfl := Option.some.inj ha
    omega
  · intro hl
    exact ⟨_, rfl, by omega, by omega⟩

end Pages

section Transport

structure Logs (g g' : Globals (W × List SpiEvent)) (events : List SpiEvent) : Prop where
  spidev : g'.tpmSpidev = g.tpmSpidev
  timeoutOps : g'.tpmTimeoutOps = g.tpmTimeoutOps
  log : g'.world.2 = g.world.2 ++ events

theorem Logs.trans {g g' g'' : Globals (W × List SpiEvent)} {c d : List SpiEvent} (h : Logs g g' c)
    (h' : Logs g' g'' d) : Logs g g'' (c ++ d) :=
  ⟨h'.spidev.trans h.spidev, h'.timeoutOps.trans h.timeoutOps, by rw [h'.log, h.log, List.append_assoc]⟩

variable {g : Globals (W × List SpiEvent)} {ops : SpiOps W}

theorem transfer_logs (h : g.tpmSpidev = watchedSpi ops) (out : Option (List UInt8)) (len : UInt8) :
    Logs g (tpm2SpiTransfer out len g).2 [.xfer out] := by
  have hp : Logs g (platform (fun g => g.tpmSpidev.xfer len.toNat out) g).2 [.xfer out] :=
    ⟨rfl, rfl, by simp only [platform, h]; rfl⟩
  simp only [tpm2SpiTransfer, state_bind]
  split
  · exact ⟨hp.spidev, hp.timeoutOps, hp.log⟩
  · exact hp

theorem endTransaction_logs (h : g.tpmSpidev = watchedSpi ops) : Logs g (tpm2SpiEndTransaction g).2 [] := by
  refine ⟨rfl, rfl, ?_⟩
  simp only [tpm2SpiEndTransaction, state_bind, platform, h]
  exact (List.append_nil _).symm

theorem spiInit_logs (h : g.tpmSpidev = watchedSpi ops) :
    ((tpm2SpiInit g).1 = tpmErrTransfer ∧ Logs g (tpm2SpiInit g).2 []) ∨
      ((tpm2SpiInit g).1 = 0 ∧ Logs g (tpm2SpiInit g).2 [.start]) := by
  have hl : (platform (fun g => g.tpmSpidev.getAccess) g).2.world.2 = g.world.2 ++ [] := by
    simp only [platform, h]
    exact (List.append_nil _).symm
  simp only [tpm2SpiInit, state_bind]
  split
  · exact .inl ⟨rfl, rfl, rfl, hl⟩
  · refine .inr ⟨rfl, rfl, rfl, ?_⟩
    simp only [platform, h]
    rfl

def Sending (header : List UInt8) (g g' : Globals (W × List SpiEvent)) : Prop :=
  ∃ outs : List (Option (List UInt8)), Logs g g' (.start :: .xfer (some header) :: outs.map .xfer)

def Sent (reg : UInt16) (g g' : Globals (W × List SpiEvent)) : Prop := ∃ t, Transacted reg t ∧ Logs g g' t

theorem endTransaction_sent (h : g.tpmSpidev = watchedSpi ops) {reg : UInt16} {access : TpmAccess} {len : UInt8}
    {g' : Globals (W × List SpiEvent)} (hg : Sending (spiHeader reg access len) g g') :
    Sent reg g (tpm2SpiEndTransaction g').2 := by
  obtain ⟨outs, hg⟩ := hg
  have he := hg.trans (endTransaction_logs (hg.spidev.trans h))
  exact ⟨_, ⟨access, len, outs, rfl⟩, by simpa using he⟩

theorem accessSteps_logs (h : g.tpmSpidev = watchedSpi ops) (reg : UInt16) (access : TpmAccess) (len : UInt8) :
    AccessSteps (spiHeader reg access len) (fun g' => g' = g) (fun g' => Logs g g' [.start])
      (Sending (spiHeader reg access len) g) (Sending (spiHeader reg access len) g) (Sent reg g)
      (fun g' => Logs g g' [] ∨ Sent reg g g') where
  init := by
    rintro _ rfl
    rcases spiInit_logs h with ⟨hrc, hg⟩ | ⟨hrc, hg⟩
    · exact .inr ⟨hrc, .inl hg⟩
    · exact .inl ⟨hrc, hg⟩
  header := .either fun g' hg => ⟨[], hg.trans (transfer_logs (hg.spidev.trans h) _ 4)⟩
  transfer out len := by
    apply TransferSteps.either
    rintro g' ⟨outs, hg⟩
    have ht := hg.trans (transfer_logs (hg.spidev.trans h) out len)
    exact ⟨outs ++ [out], by simpa using ht⟩
  close _ hg := endTransaction_sent h hg
  abandon _ hg := .inr (endTransaction_sent h hg)

theorem tpm2FifoIo_logs (h : g.tpmSpidev = watchedSpi ops) (reg : UInt16) (access : TpmAccess) {len : UInt8}
    (hl : len ≤ encodeLimit) (val : Option (List UInt8)) :
    ((tpm2FifoIo reg access len val g).1.1 = tpmErrTransfer ∧ Logs g (tpm2FifoIo reg access len val g).2 []) ∨
      ∃ t, Transacted reg t ∧ Logs g (tpm2FifoIo reg access len val g).2 t := by
  rcases tpm2FifoIo_steps (accessSteps_logs h reg access len) hl val rfl with hs | ⟨hrc, hg | hs⟩
  · exact .inr hs
  · exact .inl ⟨hrc, hg⟩
  · exact .inr hs

end Transport

section Invariants

structure Watched (J : List SpiEvent → Prop) (g : Globals (W × List SpiEvent)) : Prop where
  spidev : ∃ ops, g.tpmSpidev = watchedSpi ops
  timer : ∃ ops, g.tpmTimeoutOps = watchedTimer ops
  log : J g.world.2

variable {A : UInt16 → Prop} {J : List SpiEvent → Prop}

theorem watched_io (hJ : ∀ tr t reg, A reg → Transacted reg t → J tr → J (tr ++ t))
    {g : Globals (W × List SpiEvent)} (h : Watched J g) {reg : UInt16} (hr : A reg) (access : TpmAccess)
    {len : UInt8} (hl : len ≤ encodeLimit) (val : Option (List UInt8)) :
    Watched J (tpm2FifoIo reg access len val g).2 := by
  obtain ⟨ops, hs⟩ := h.spidev
  rcases tpm2FifoIo_logs hs reg access hl val with ⟨-, hg⟩ | ⟨t, ht, hg⟩
  · refine ⟨⟨ops, hg.spidev.trans hs⟩, hg.timeoutOps ▸ h.timer, ?_⟩
    rw [hg.log, List.append_nil]
    exact h.log
  · refine ⟨⟨ops, hg.spidev.trans hs⟩, hg.timeoutOps ▸ h.timer, ?_⟩
    rw [hg.log]
    exact hJ _ _ _ hr ht h.log

theorem watched_timer {g : Globals (W × List SpiEvent)} (h : Watched J g) {α : Type}
    (call : TimeoutOps (W × List SpiEvent) → StateM (W × List SpiEvent) α)
    (hc : ∀ ops w, ((call (watchedTimer ops)) w).2.2 = w.2) :
    Watched J (platform (fun g => call g.tpmTimeoutOps) g).2 := by
  obtain ⟨ops, ht⟩ := h.timer
  have hw : (platform (fun g => call g.tpmTimeoutOps) g).2.world.2 = g.world.2 := by
    simp only [platform, ht]
    exact hc ops g.world
  exact ⟨h.spidev, h.timer, hw ▸ h.log⟩

theorem spiPort_watched (hJ : ∀ tr t reg, A reg → Transacted reg t → J tr → J (tr ++ t)) :
    PortKeeps A (Watched J) (spiPort : FifoPort (Globals (W × List SpiEvent))) where
  timeoutInit usec := fun _ h => watched_timer h (fun ops => ops.timeoutInitUs usec) fun _ _ => rfl
  timeoutElapsed cnt := fun _ h => watched_timer h (fun ops => ops.timeoutElapsed cnt) fun _ _ => rfl
  write reg val hr := fun _ h => watched_io hJ h hr .write (by decide) (some [val])
  read reg _ hr := fun _ h => watched_io hJ h hr .read (by decide) none
  readChunk reg len hr := fun g h => by
    change Watched J (tpm2FifoReadChunk reg len g).2
    unfold tpm2FifoReadChunk
    split
    · exact h
    next hl => exact watched_io hJ h hr .read (chunk_le hl) none

theorem spiPort_addresses {P : Option Nat → Prop} (hP : ∀ reg, A reg → P (some (0xD40000 + reg.toNat))) :
    PortKeeps A (Watched fun tr => ∀ a ∈ addresses tr, P a)
      (spiPort : FifoPort (Globals (W × List SpiEvent))) := by
  apply spiPort_watched
  intro tr t reg hr ht h
  simpa [ht.addresses, or_imp, forall_and, hP reg hr] using h

theorem spiPort_address (x : Option Nat) :
    PortKeeps (fun _ => True) (Watched fun tr => x ∈ addresses tr)
      (spiPort : FifoPort (Globals (W × List SpiEvent))) := by
  apply spiPort_watched
  intro tr t reg _ ht h
  rw [ht.addresses]
  exact List.mem_append_left _ h

end Invariants

section Sessions

variable [Host]

omit [Host] in
theorem watched_timeoutOps (timeoutOps libTimer : Option (TimeoutOps W)) :
    (timeoutOps.map watchedTimer).or (libTimer.map watchedTimer) = (timeoutOps.or libTimer).map watchedTimer := by
  cases timeoutOps <;> rfl

omit [Host] in
theorem OnChip.localities {chip : ChipData} {locality : UInt8} (hc : chip.locality = locality)
    {call : PublicCall W} (h : OnChip chip locality call) : ∀ l ∈ localities call, l = locality := by
  cases call <;> simp only [OnChip] at h <;> simp [PublicCalls.localities, h, hc]

omit [Host] in
theorem OnChip.installs {chip : ChipData} {locality : UInt8} {call : PublicCall W} (h : OnChip chip locality call)
    (libTimer : Option (TimeoutOps W)) : installs libTimer call = none := by
  cases call with
  | interfaceInit => exact h.elim
  | _ => rfl

theorem runCalls_watched {A : UInt16 → Prop} {J : List SpiEvent → Prop} {locality : UInt8} {chip : ChipData}
    (hport : PortKeeps A (Watched J) (spiPort : FifoPort (Globals (W × List SpiEvent)))) (hA : PageIn A locality)
    (hc : chip.locality = locality) (libTimer : Option (TimeoutOps (W × List SpiEvent))) (fuel : Nat)
    (calls : List (PublicCall (W × List SpiEvent) × TpmCmd)) (h : ∀ call ∈ calls, OnChip chip locality call.1) :
    Keeps (Watched J) (runCalls libTimer fuel calls) := by
  induction calls with
  | nil => exact keeps_pure _ _
  | cons call calls ih =>
      rw [List.forall_mem_cons] at h
      apply Keeps.bind
      · apply publicCall_keeps hport
        · intro l hl
          rw [h.1.localities hc l hl]
          exact hA
        · simp [h.1.installs]
      · exact fun _ => ih h.2

omit [Host] in
theorem tpmInterfaceInit_watched {A : UInt16 → Prop} {J : List SpiEvent → Prop} {locality : UInt8}
    (hport : PortKeeps A (Watched J) (spiPort : FifoPort (Globals (W × List SpiEvent)))) (hA : PageIn A locality)
    (libTimer timeoutOps : Option (TimeoutOps W)) (fuel : Nat) (transport : SpiOps W) (chip : ChipData) :
    Keeps (Watched J) (tpmInterfaceInit (libTimer.map watchedTimer) fuel (watchedSpi transport)
      (timeoutOps.map watchedTimer) chip locality) := by
  refine (tpmInterfaceInit_surfaces hport.surfaces hA ?_ ?_ fuel chip).keeps
  · exact fun g h => ⟨⟨_, rfl⟩, h.timer, h.log⟩
  · intro ops ho g h
    rw [watched_timeoutOps] at ho
    obtain ⟨ops, -, rfl⟩ := Option.mem_map.mp ho
    exact ⟨h.spidev, ⟨ops, rfl⟩, h.log⟩

def accessAddress (locality : UInt8) : Option Nat :=
  some (0xD40000 + (fifoReg (localityStartAddress locality) tpmFifoRegAccess).toNat)

structure Granted (locality : UInt8) (chip : ChipData) (g : Globals (W × List SpiEvent)) : Prop where
  chip : chip.locality = locality
  accessed : Watched (fun tr => accessAddress locality ∈ addresses tr) g

omit [Host] in
theorem writeByte_accesses {g : Globals (W × List SpiEvent)} (h : Watched (fun _ => True) g) (reg : UInt16)
    (val : UInt8) {C : Globals (W × List SpiEvent) → Prop} :
    Meets (liftM ((spiPort : FifoPort (Globals (W × List SpiEvent))).writeByte reg val)) g
      (fun err g' => err = tpmErrTransfer ∨
      Watched (fun tr => some (0xD40000 + reg.toNat) ∈ addresses tr) g') C := by
  obtain ⟨ops, hs⟩ := h.spidev
  rcases tpm2FifoIo_logs hs reg .write (by decide : (1 : UInt8) ≤ encodeLimit) (some [val]) with
    ⟨hrc, -⟩ | ⟨t, ht, hg⟩
  · exact .inl hrc
  · refine .inr ⟨⟨ops, hg.spidev.trans hs⟩, hg.timeoutOps ▸ h.timer, ?_⟩
    change _ ∈ addresses (tpm2FifoIo reg .write 1 (some [val]) g).2.world.2
    rw [hg.log, ht.addresses]
    exact List.mem_append_right _ (List.mem_singleton_self _)

omit [Host] in
theorem tpm2FifoRequestAccess_grants {locality : UInt8} {g : Globals (W × List SpiEvent)}
    (h : Watched (fun _ => True) g) (fuel : Nat) (chip : ChipData) :
    Meets (tpm2FifoRequestAccess spiPort fuel chip locality) g
      (fun r g' => r.1 = tpmSuccess → Granted locality r.2 g') (fun _ => True) := by
  rw [tpm2FifoRequestAccess, meets_bind]
  apply (writeByte_accesses h _ _).imp
  rintro err g' hw
  rw [meets_ite]
  refine ⟨fun herr hret => absurd hret (Int.ne_of_lt herr), fun herr => ?_⟩
  rcases hw with rfl | hw
  · exact absurd (errTransfer_neg rfl) herr
  · have hwait : Keeps (Watched (W := W) fun tr => accessAddress locality ∈ addresses tr)
        (tpm2WaitRegBits spiPort fuel (fifoReg (localityStartAddress locality) tpmFifoRegAccess)
          tpmAccessActiveLocality chip.timeouts.msecA) :=
      (tpm2WaitRegBits_surfaces (spiPort_address _).surfaces trivial _ _).keeps
    rw [meets_bind]
    apply (meets_world.mpr (hwait g' hw)).mono
    · rintro ⟨err, status⟩ g' hg'
      rw [meets_ite]
      exact ⟨fun _ _ => ⟨rfl, hg'⟩, fun herr hret => absurd hret herr⟩
    · exact fun _ _ => trivial

omit [Host] in
theorem tpmInterfaceInit_grants (libTimer timeoutOps : Option (TimeoutOps W)) (fuel : Nat) (transport : SpiOps W)
    (chip : ChipData) (locality : UInt8) (g : Globals W) :
    Meets (tpmInterfaceInit (libTimer.map watchedTimer) fuel (watchedSpi transport) (timeoutOps.map watchedTimer)
      chip locality) (watchedGlobals g) (fun r g' => r.1 = tpmSuccess → Granted locality r.2 g') (fun _ => True) := by
  rw [tpmInterfaceInit, meets_bind, watched_timeoutOps]
  rcases timeoutOps.or libTimer with _ | ops
  · exact fun hret => absurd hret invalidParam_ne_success
  rw [Option.map_some]
  simp only [meets_bind]
  apply (tpm2FifoRequestAccess_grants (g := _) ?_ fuel chip).imp
  · rintro ⟨err, chip⟩ g' hg'
    rw [meets_ite]
    refine ⟨fun herr hret => absurd hret herr, fun herr => ?_⟩
    have hgr := hg' (not_not.mp herr)
    rw [meets_bind]
    have hinfo : Keeps (Watched (W := W) fun tr => accessAddress locality ∈ addresses tr)
        (tpm2GetInfo spiPort chip locality) :=
      (tpm2GetInfo_surfaces (spiPort_address _).surfaces chip (pageIn_true locality)).keeps
    apply (meets_world.mpr (hinfo g' hgr.accessed)).mono
    · exact fun _ g' hg' _ => ⟨hgr.chip, hg'⟩
    · exact fun _ _ => trivial
  · exact ⟨⟨_, rfl⟩, ⟨_, rfl⟩, trivial⟩

structure Confined (locality : UInt8) (tr : List SpiEvent) : Prop where
  page : ∀ a ∈ addresses tr, ∃ reg, PageOf locality reg ∧ a = some (0xD40000 + reg.toNat)
  access : accessAddress locality ∈ addresses tr

theorem Session.confined {locality : UInt8} {tr : List SpiEvent} (h : Session locality tr) :
    Confined locality tr := by
  obtain ⟨libTimer, fuel, transport, timeoutOps, chip, chip', g, calls, init, commands⟩ := h
  have hp := spiPort_addresses (W := ‹_›) (A := PageOf locality)
    (P := fun a => ∃ reg, PageOf locality reg ∧ a = some (0xD40000 + reg.toNat)) fun reg hr => ⟨reg, hr, rfl⟩
  have hgr := (tpmInterfaceInit_grants libTimer timeoutOps fuel transport chip locality g).returned
    (Prod.ext init rfl) rfl
  constructor
  · apply (runCalls_watched hp (pageIn_pageOf locality) hgr.chip _ fuel calls commands _ ?_).log
    apply tpmInterfaceInit_watched hp (pageIn_pageOf locality)
    exact ⟨⟨_, rfl⟩, ⟨_, rfl⟩, List.forall_mem_nil _⟩
  · exact (runCalls_watched (spiPort_address _) (pageIn_true locality) hgr.chip _ fuel calls commands _
      hgr.accessed).log

omit [Host] in
theorem accessAddress_pageOf (locality : UInt8) :
    PageOf locality (fifoReg (localityStartAddress locality) tpmFifoRegAccess) :=
  pageIn_pageOf locality _ (by decide)

omit [Host] in
theorem accessAddress_eq {locality locality' : UInt8} (h : locality % 16 = locality' % 16) :
    accessAddress locality = accessAddress locality' := by
  have hn : locality.toNat % 16 = locality'.toNat % 16 := congrArg UInt8.toNat h
  have hb : localityStartAddress locality = localityStartAddress locality' := by
    apply UInt16.toNat_inj.mp
    simp only [localityStartAddress, UInt16.toNat_ofNat']
    omega
  rw [accessAddress, hb, accessAddress]

/-- The transactions stay in the page of the locality exactly for the sixteen
localities that the 16-bit start address can tell apart; other localities
share the registers of one of these. -/
theorem session_in_page_iff {locality : UInt8} {tr : List SpiEvent} (h : Session locality tr) :
    ((∀ a ∈ addresses tr, InPage locality a) ↔ locality < 16) ∧
      ∀ (locality' : UInt8) (tr' : List SpiEvent), Session locality' tr' →
        ((∀ a ∈ addresses tr, a ∉ addresses tr') ↔ locality % 16 ≠ locality' % 16) := by
  have hc := h.confined
  constructor
  · constructor
    · intro hall
      exact (inPage_iff (accessAddress_pageOf locality)).mp (hall _ hc.access)
    · intro hl a ha
      obtain ⟨reg, hr, rfl⟩ := hc.page a ha
      exact (inPage_iff hr).mpr hl
  · intro locality' tr' h'
    have hc' := h'.confined
    constructor
    · intro hdisjoint heq
      apply hdisjoint _ hc.access
      rw [accessAddress_eq heq]
      exact hc'.access
    · intro hne a ha ha'
      obtain ⟨reg, hr, rfl⟩ := hc.page a ha
      obtain ⟨reg', hr', heq⟩ := hc'.page _ ha'
      have hreg : reg = reg' := by
        apply UInt16.toNat_inj.mp
        simpa using heq
      subst hreg
      apply hne
      apply UInt8.toNat_inj.mp
      exact hr.symm.trans hr'

end Sessions

/-- A transport that never fails, to a device that answers 0xFF to every byte
and so grants every locality. -/
def grantingSpi : SpiOps Unit where
  getAccess := pure 0
  releaseAccess := pure ()
  start := pure ()
  stop := pure ()
  xfer len _ := pure (0, Vector.replicate len 0xFF)

def steadyTimer : TimeoutOps Unit where
  timeoutInitUs _ := pure 0
  timeoutElapsed _ := pure false

def grantingGlobals : Globals Unit := ⟨grantingSpi, steadyTimer, false, 0, ()⟩

def grantedChip (locality : UInt8) : ChipData := { tpmChipData with locality := locality }

def grantingInit (locality : UInt8) : Proc (Globals (Unit × List SpiEvent)) (Int × ChipData) :=
  tpmInterfaceInit (some (watchedTimer steadyTimer)) 1 (watchedSpi grantingSpi) none tpmChipData locality

theorem grantingInit_succeeds (locality : UInt8) :
    (grantingInit locality (watchedGlobals grantingGlobals)).1 = some (tpmSuccess, grantedChip locality) := rfl

def grantedTrace (locality : UInt8) : List SpiEvent :=
  letI := littleHost
  (runCalls (some (watchedTimer steadyTimer)) 1 [(.interfaceClose (grantedChip locality) locality, TpmCmd.zero)]
    (grantingInit locality (watchedGlobals grantingGlobals)).2).2.world.2

theorem granted_session (locality : UInt8) : @Session littleHost locality (grantedTrace locality) := by
  let _ := littleHost
  apply Session.run (some steadyTimer) 1 grantingSpi none tpmChipData (grantedChip locality) grantingGlobals
  · exact grantingInit_succeeds locality
  · simp [OnChip]

/-- Localities 3 and 5 are apart. -/
theorem session_in_page_granted :
    ((∀ a ∈ addresses (grantedTrace 3), InPage 3 a) ↔ (3 : UInt8) < 16) ∧
      ((∀ a ∈ addresses (grantedTrace 3), a ∉ addresses (grantedTrace 5)) ↔ (3 : UInt8) % 16 ≠ 5 % 16) := by
  let _ := littleHost
  have h := session_in_page_iff (granted_session 3)
  exact ⟨h.1, h.2 5 _ (granted_session 5)⟩

/-- Locality 16 is initialised and closed at the registers of locality 0. -/
theorem granted_locality_out_of_page :
    ¬ ∀ (locality : UInt8) (tr : List SpiEvent), @Session littleHost locality tr →
      ∀ a ∈ addresses tr, InPage locality a := by
  intro h
  have hmem : some 0xD40000 ∈ addresses (grantedTrace 16) := by decide
  obtain ⟨a, ha, hlo, -⟩ := h 16 _ (granted_session 16) _ hmem
  obtain rfl := Option.some.inj ha
  exact absurd hlo (by decide)

end LibTpm.LocalityPages
