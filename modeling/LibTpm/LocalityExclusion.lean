import LibTpm.LocalityArbiter
import LibTpm.LocalityPages
import LibTpm.WireRefinement

namespace LibTpm.LocalityExclusion

open LibTpm.Base.Process LibTpm.Base.Process.Proc LibTpm.Base.Clients LibTpm.Base.Interleaving LibTpm.Command
open LibTpm.Constants LibTpm.Endian LibTpm.Platform LibTpm.Fifo LibTpm.FifoTrace LibTpm.PollRounds LibTpm.Spi LibTpm.Library
open LibTpm.PublicCalls LibTpm.CallOutcomes
open LibTpm.Invariance LibTpm.PortSimulation LibTpm.CommandSimulation LibTpm.LocalityArbiter LibTpm.WireRefinement
open LibTpm.LocalityPages (PageOf pageIn_pageOf)

variable {U W : Type}

section Registers

theorem fifoReg_mod (locality : UInt8) {offset : UInt32} (h : offset < 0x1000) :
    (fifoReg (localityStartAddress locality) offset).toNat % 0x1000 = offset.toNat := by
  have hb : (localityStartAddress locality).toNat = 0x1000 * locality.toNat % 0x10000 := by
    simp [localityStartAddress]
  rw [UInt32.lt_iff_toNat_lt] at h
  have hlimit : (0x1000 : UInt32).toNat = 0x1000 := rfl
  have hr : (fifoReg (localityStartAddress locality) offset).toNat =
      (0x1000 * locality.toNat % 0x10000 + offset.toNat) % 2 ^ 32 % 2 ^ 16 := by
    simp only [fifoReg, UInt32.toNat_toUInt16, UInt32.toNat_add, UInt16.toNat_toUInt32, hb]
  omega

def pageOf (locality : UInt8) : Nat := locality.toNat % 16

def accessReg (locality : UInt8) : UInt16 := fifoReg (localityStartAddress locality) tpmFifoRegAccess

theorem isAccess_accessReg (locality : UInt8) : IsAccess (accessReg locality) :=
  fifoReg_mod locality (by decide : tpmFifoRegAccess < 0x1000)

theorem page_accessReg (locality : UInt8) : page (accessReg locality) = pageOf locality :=
  pageIn_pageOf locality tpmFifoRegAccess (by decide)

theorem not_isAccess {locality : UInt8} {offset : UInt32} (h : offset < 0x1000) (hne : offset.toNat ≠ 0) :
    ¬ IsAccess (fifoReg (localityStartAddress locality) offset) := by
  rw [IsAccess, fifoReg_mod locality h]
  exact hne

theorem transferRegs_not_isAccess (locality : UInt8) :
    TransferRegs (fun reg => ¬ IsAccess reg) (localityStartAddress locality) where
  status := not_isAccess (by decide) (by decide)
  burstLo := not_isAccess (by decide) (by decide)
  burstHi := not_isAccess (by decide) (by decide)
  data := not_isAccess (by decide) (by decide)

end Registers

section Logs

variable {E : Access → Prop} {J : List Access → Prop} {port : FifoPort W} {fuel : Nat} {locality : UInt8}

def Elsewhere : Access → Prop
  | .write reg _ _ | .read reg _ _ _ | .readChunk reg _ _ => ¬ IsAccess reg
  | .timeoutInit _ _ | .timeoutElapsed _ _ => True

def Lasting (E : Access → Prop) (J : List Access → Prop) : Prop := ∀ es e, J es → E e → J (es ++ [e])

def Grows (E : Access → Prop) (done es : List Access) : Prop := ∃ ext, es = done ++ ext ∧ ∀ e ∈ ext, E e

theorem grows_refl (E : Access → Prop) (done : List Access) : Grows E done done :=
  ⟨[], (List.append_nil _).symm, List.forall_mem_nil _⟩

theorem lasting_grows (E : Access → Prop) (done : List Access) : Lasting E (Grows E done) := by
  rintro es e ⟨ext, rfl, hext⟩ he
  exact ⟨ext ++ [e], List.append_assoc _ _ _, List.forall_mem_append.mpr ⟨hext, List.forall_mem_singleton.mpr he⟩⟩

theorem Grows.lasts {done es : List Access} (h : Grows E done es) (hl : Lasting E J) (hd : J done) : J es := by
  obtain ⟨ext, rfl, hext⟩ := h
  induction ext using List.reverseRecOn with
  | nil => rwa [List.append_nil]
  | append_singleton ext e ih =>
      rw [List.forall_mem_append, List.forall_mem_singleton] at hext
      rw [← List.append_assoc]
      exact hl _ e (ih hext.1) hext.2

theorem Grows.cut {done es full : List Access} (h : Grows E done full) (hdone : done <+: es) (hes : es <+: full) :
    Grows E done es := by
  obtain ⟨ext, rfl⟩ := hdone
  obtain ⟨rest, rfl⟩ := hes
  obtain ⟨all, heq, hall⟩ := h
  rw [List.append_assoc] at heq
  obtain rfl := List.append_cancel_left heq
  exact ⟨ext, rfl, (List.forall_mem_append.mp hall).1⟩

theorem timeoutInit_recorded (h : Lasting E J) (usec : UInt32) (he : ∀ cnt, E (.timeoutInit usec cnt)) :
    Keeps (fun s : W × List Access => J s.2) (liftM (port.recorded.timeoutInitUs usec)) :=
  fun s hs => h s.2 _ hs (he _)

theorem timeoutElapsed_recorded (h : Lasting E J) (cnt : UInt64) (he : ∀ elapsed, E (.timeoutElapsed cnt elapsed)) :
    Keeps (fun s : W × List Access => J s.2) (liftM (port.recorded.timeoutElapsed cnt)) :=
  fun s hs => h s.2 _ hs (he _)

theorem write_recorded (h : Lasting E J) {reg : UInt16} {val : UInt8} (he : ∀ err, E (.write reg val err)) :
    Keeps (fun s : W × List Access => J s.2) (liftM (port.recorded.writeByte reg val)) :=
  fun s hs => h s.2 _ hs (he _)

theorem read_recorded (h : Lasting E J) {reg : UInt16} {dst : Dest} (he : ∀ err val, E (.read reg dst err val)) :
    Keeps (fun s : W × List Access => J s.2) (liftM (port.recorded.readByte reg dst)) :=
  fun s hs => h s.2 _ hs (he _ _)

theorem readChunk_recorded (h : Lasting E J) {reg : UInt16} {len : UInt8} (he : ∀ err, E (.readChunk reg len err)) :
    Keeps (fun s : W × List Access => J s.2) (liftM (port.recorded.readChunk reg len)) :=
  fun s hs => h s.2 _ hs (he _)

theorem elsewhere_recorded (h : Lasting Elsewhere J) (port : FifoPort W) :
    PortKeeps (fun reg => ¬ IsAccess reg) (fun s : W × List Access => J s.2) port.recorded where
  timeoutInit usec := timeoutInit_recorded h usec fun _ => trivial
  timeoutElapsed cnt := timeoutElapsed_recorded h cnt fun _ => trivial
  write _ _ hr := write_recorded h fun _ => hr
  read _ _ hr := read_recorded h fun _ _ => hr
  readChunk _ _ hr := readChunk_recorded h fun _ => hr

theorem tpm2GetInfo_recorded (h : Lasting Elsewhere J) (chip : ChipData) (locality : UInt8) :
    Keeps (fun s : W × List Access => J s.2) (tpm2GetInfo port.recorded chip locality) := by
  apply Keeps.bind (readChunk_recorded h fun _ => not_isAccess (by decide) (by decide))
  rintro ⟨err, -⟩
  apply Keeps.unless
  apply Keeps.bind (read_recorded h fun _ _ => not_isAccess (by decide) (by decide))
  exact fun ⟨err, _⟩ => Keeps.unless (keeps_pure _ _)

theorem requestAccess_recorded (h : Lasting E J) (hwrite : ∀ err, E (.write (accessReg locality) tpmAccessRequestUse err))
    (hread : ∀ dst err val, E (.read (accessReg locality) dst err val)) (htime : ∀ e, Elsewhere e → E e)
    (chip : ChipData) : Keeps (fun s : W × List Access => J s.2)
      (tpm2FifoRequestAccess port.recorded fuel chip locality) := by
  have hpoll (delay : UInt64) : Keeps (fun s : W × List Access => J s.2)
      (waitRegBitsLoop port.recorded (accessReg locality) tpmAccessActiveLocality delay fuel) :=
    waitRegBitsLoop_keeps (read_recorded h fun err val => hread _ err val)
      (timeoutElapsed_recorded h _ fun _ => htime _ trivial) fuel
  apply Keeps.bind (write_recorded h hwrite)
  intro err
  refine Keeps.unless (Keeps.bind (Keeps.bind (timeoutInit_recorded h _ fun _ => htime _ trivial) hpoll) ?_)
  exact fun ⟨err, _⟩ => Keeps.unless (keeps_pure _ _)

end Logs

section Uses

/-- The accesses that a call may make. -/
inductive Uses : PublicCall U → Access → Prop
  | elsewhere {call : PublicCall U} {e : Access} (h : Elsewhere e) : Uses call e
  | request {transport : SpiOps U} {timeoutOps : Option (TimeoutOps U)} {chip : ChipData} {locality : UInt8} {err : Int} :
      Uses (.interfaceInit transport timeoutOps chip locality) (.write (accessReg locality) tpmAccessRequestUse err)
  | poll {transport : SpiOps U} {timeoutOps : Option (TimeoutOps U)} {chip : ChipData} {locality : UInt8} {dst : Dest}
      {err : Int} {val : UInt8} :
      Uses (.interfaceInit transport timeoutOps chip locality) (.read (accessReg locality) dst err val)
  | check {chip : ChipData} {locality : UInt8} {dst : Dest} {err : Int} {val : UInt8} :
      Uses (.interfaceClose chip locality) (.read (accessReg locality) dst err val)
  | relinquish {chip : ChipData} {locality : UInt8} {err : Int} :
      Uses (.interfaceClose chip locality) (.write (accessReg locality) tpmAccessRelinquishLocality err)

theorem uses_lawful {call : PublicCall U} {e : Access} {locality : UInt8} (hcall : ∀ l ∈ localities call, l = locality)
    (h : Uses call e) : Lawful (pageOf locality) e := by
  cases h with
  | elsewhere h =>
      cases e with
      | write | read => exact fun hr => absurd hr h
      | readChunk | timeoutInit | timeoutElapsed => trivial
  | request | poll | check | relinquish =>
      obtain rfl := hcall _ List.mem_cons_self
      first
        | exact fun _ => page_accessReg _
        | exact fun _ => ⟨page_accessReg _, .inl rfl⟩
        | exact fun _ => ⟨page_accessReg _, .inr rfl⟩

theorem uses_elsewhere {call : PublicCall U} {e : Access} (hcall : SendsCommand call) (h : Uses call e) : Elsewhere e := by
  cases h with
  | elsewhere h => exact h
  | request | poll | check | relinquish => exact hcall.elim

def AsksNot : PublicCall U → Prop
  | .interfaceInit _ _ _ _ => False
  | _ => True

theorem uses_not_request {call : PublicCall U} {e : Access} (hcall : AsksNot call) (h : Uses call e) : ¬ Requests e := by
  cases h with
  | elsewhere h =>
      cases e with
      | write reg val err => exact fun hr => h hr.1
      | read | readChunk | timeoutInit | timeoutElapsed => exact id
  | request | poll => exact hcall.elim
  | check => exact id
  | relinquish => exact fun hr => relinquish_ne_request hr.2

variable [Host] {E : Access → Prop} {J : List Access → Prop} {port : FifoPort W} {stack : TpmCmd} {fuel : Nat}

theorem perform_recorded {call : PublicCall U} (h : Lasting (Uses call) J) :
    Keeps (fun s : W × List Access => J s.2) (perform stack (fifoOps port.recorded fuel) call) := by
  have helse : Lasting Elsewhere J := fun es e hes he => h es e hes (.elsewhere he)
  have hcommand (hsends : SendsCommand call) :
      Keeps (fun s : W × List Access => J s.2) (perform stack (fifoOps port.recorded fuel) call) :=
    perform_keeps hsends (elsewhere_recorded helse port) fun c _ => transferRegs_not_isAccess c.locality
  cases call with
  | interfaceInit transport timeoutOps chip locality =>
      apply Keeps.bind (requestAccess_recorded h (fun _ => .request) (fun _ _ _ => .poll) (fun _ => .elsewhere) chip)
      rintro ⟨err, chip⟩
      exact Keeps.unless (Keeps.bind (tpm2GetInfo_recorded helse chip locality) fun _ => keeps_pure _ _)
  | interfaceClose chip locality =>
      apply Keeps.bind (read_recorded h fun _ _ => .check)
      rintro ⟨err, buf⟩
      exact Keeps.unless (Keeps.ite (write_recorded h fun _ => .relinquish) (keeps_pure _ _))
  | getLastTransportError => exact keeps_pure _ _
  | _ => exact hcommand trivial

end Uses

section Parties

variable [Host]

def accesses (port : FifoPort W) (stack : TpmCmd) (fuel : Nat) (client : TpmClient Unit Unit) (s : W × List Access) :
    List Access := (client.run (perform stack (fifoOps port.recorded fuel)) s).2.2

theorem accesses_last {E : Access → Prop} {J : List Access → Prop} {P : PublicCall Unit → Prop} (hl : Lasting E J)
    {client : TpmClient Unit Unit} (hc : client.Makes P) (h : ∀ call, P call → ∀ e, Uses call e → E e)
    (port : FifoPort W) (stack : TpmCmd) (fuel : Nat) (s : W × List Access) (hs : J s.2) :
    J (accesses port stack fuel client s) := by
  have hkeeps : Keeps (fun s : W × List Access => J s.2) (client.run (perform stack (fifoOps port.recorded fuel))) :=
    Client.run_keeps hc fun call hcall => perform_recorded fun es e hes he => hl es e hes (h call hcall e he)
  exact hkeeps s hs

/-- The accesses of a party so far: a client at its locality, whose last call
may not have ended, with any answers of the registers and the timer. -/
def PartyTrace (locality : UInt8) (es : List Access) : Prop :=
  ∃ (W : Type) (port : FifoPort W) (stack : TpmCmd) (fuel : Nat) (client : TpmClient Unit Unit) (w : W),
    client.Makes (fun call => ∀ l ∈ localities call, l = locality) ∧ es <+: accesses port stack fuel client (w, [])

/-- The party has initialised the library with success, and since then it makes
calls that send commands. -/
def Admitted (locality : UInt8) (es : List Access) : Prop :=
  ∃ (W : Type) (port : FifoPort W) (stack : TpmCmd) (fuel : Nat) (transport : SpiOps Unit)
    (timeoutOps : Option (TimeoutOps Unit)) (chip chip' : ChipData) (client : TpmClient Unit Unit) (w w' : W)
    (before done : List Access),
    perform stack (fifoOps port.recorded fuel) (.interfaceInit transport timeoutOps chip locality) (w, before) =
        (some (tpmSuccess, chip'), (w', done)) ∧ done <+: es ∧
      client.Makes SendsCommand ∧ es <+: accesses port stack fuel client (w', done)

/-- The party has closed the library with success, and since then it makes
calls other than an initialisation. -/
def Closed (locality : UInt8) (es : List Access) : Prop :=
  ∃ (W : Type) (port : FifoPort W) (stack : TpmCmd) (fuel : Nat) (chip : ChipData) (client : TpmClient Unit Unit)
    (w w' : W) (before done : List Access),
    tpm2FifoReleaseLocality port.recorded chip locality (w, before) = (some tpmSuccess, (w', done)) ∧ done <+: es ∧
      client.Makes AsksNot ∧ es <+: accesses port stack fuel client (w', done)

theorem PartyTrace.lawful {locality : UInt8} {es : List Access} (h : PartyTrace locality es) :
    ∀ e ∈ es, Lawful (pageOf locality) e := by
  obtain ⟨W, port, stack, fuel, client, w, hclient, hes⟩ := h
  have hlasting : Lasting (Lawful (pageOf locality)) fun es => ∀ e ∈ es, Lawful (pageOf locality) e :=
    fun es e hes he => List.forall_mem_append.mpr ⟨hes, List.forall_mem_singleton.mpr he⟩
  have hall := accesses_last hlasting hclient (fun call hcall e => uses_lawful hcall) port stack fuel (w, [])
    (List.forall_mem_nil _)
  exact fun e he => hall e (hes.subset he)

omit [Host] in
theorem holding_elsewhere : Lasting Elsewhere Holding := by
  rintro _ e ⟨pre, x, post, rfl, hx, hpost⟩ he
  refine ⟨pre, x, post ++ [e], by simp, hx, List.forall_mem_append.mpr ⟨hpost, List.forall_mem_singleton.mpr ?_⟩⟩
  cases e with
  | write reg val err => exact fun hr => he hr.1
  | read | readChunk | timeoutInit | timeoutElapsed => exact id

/-- An initialisation that succeeds has seen the locality active. -/
theorem interfaceInit_holding (port : FifoPort W) (stack : TpmCmd) (fuel : Nat) (transport : SpiOps Unit)
    (timeoutOps : Option (TimeoutOps Unit)) (chip : ChipData) (locality : UInt8) (w : W) (before : List Access) :
    Meets (perform stack (fifoOps port.recorded fuel) (.interfaceInit transport timeoutOps chip locality)) (w, before)
      (fun r s => r.1 = tpmSuccess → Holding s.2) fun _ => True := by
  rw [perform, meets_bind]
  have hrequest : Meets (tpm2FifoRequestAccess port.recorded fuel chip locality) (w, before)
      (fun r s => r.1 = tpmSuccess → Holding s.2) fun _ => True := by
    rw [tpm2FifoRequestAccess, meets_bind]
    refine meets_write fun err w => ?_
    rw [meets_ite]
    refine ⟨fun herr hret => absurd hret (Int.ne_of_lt herr), fun _ => ?_⟩
    rw [meets_bind]
    refine (tpm2WaitRegBits_segment fuel _ _ _ w _).mono ?_ fun _ _ => trivial
    rintro ⟨err, status⟩ ⟨w, tr⟩ ⟨ext, rfl, hseg⟩
    rw [meets_ite]
    refine ⟨fun herr _ => ?_, fun herr hret => absurd hret herr⟩
    obtain ⟨-, hset, pre, err', herr', rfl⟩ := hseg.success herr
    refine ⟨_ ++ pre, _, [], List.append_assoc _ _ _ |>.symm, ⟨isAccess_accessReg locality, herr', hset⟩, ?_⟩
    exact List.forall_mem_nil _
  refine hrequest.mono ?_ fun _ _ => trivial
  rintro ⟨err, chip⟩ s hs
  rw [meets_ite]
  refine ⟨fun herr hret => absurd hret herr, fun herr => ?_⟩
  rw [meets_bind]
  have hinfo : Keeps (fun s : W × List Access => Holding s.2) (tpm2GetInfo port.recorded chip locality) :=
    tpm2GetInfo_recorded holding_elsewhere chip locality
  apply (meets_world (C := fun s : W × List Access => Holding s.2) |>.mpr (hinfo s (hs (not_not.mp herr)))).mono
  · exact fun _ _ hh _ => hh
  · exact fun _ _ => trivial

theorem Admitted.holding {locality : UInt8} {es : List Access} (h : Admitted locality es) : Holding es := by
  obtain ⟨W, port, stack, fuel, transport, timeoutOps, chip, chip', client, w, w', before, done, hinit, hdone, hclient,
    hes⟩ := h
  have hgrows := accesses_last (lasting_grows Elsewhere done) hclient (fun call hcall e => uses_elsewhere hcall) port
    stack fuel (w', done) (grows_refl _ _)
  have hholding := (interfaceInit_holding port stack fuel transport timeoutOps chip locality w before).returned hinit rfl
  exact (hgrows.cut hdone hes).lasts holding_elsewhere hholding

omit [Host] in
theorem withdrawn_lasting : Lasting (fun e => ¬ Requests e) Withdrawn := by
  rintro _ e ⟨pre, reg, err, post, rfl, hreg, herr, hpost⟩ he
  exact ⟨pre, reg, err, post ++ [e], by simp, hreg, herr,
    List.forall_mem_append.mpr ⟨hpost, List.forall_mem_singleton.mpr he⟩⟩

omit [Host] in
theorem release_withdrawn (port : FifoPort W) (chip : ChipData) (locality : UInt8) (w : W) (before : List Access) :
    Meets (tpm2FifoReleaseLocality port.recorded chip locality) (w, before)
      (fun ret s => ret = tpmSuccess → Withdrawn s.2) fun _ => True := by
  rw [tpm2FifoReleaseLocality, meets_bind]
  refine meets_read fun err buf w => ?_
  rw [meets_ite]
  refine ⟨fun herr hret => absurd hret (Int.ne_of_lt herr), fun _ => ?_⟩
  rw [meets_ite]
  refine ⟨fun _ => ?_, fun _ hret => absurd hret (by decide)⟩
  refine meets_write fun err w hret => ?_
  exact ⟨_, _, err, [], rfl, isAccess_accessReg locality, le_of_eq hret.symm, List.forall_mem_nil _⟩

theorem Closed.withdrawn {locality : UInt8} {es : List Access} (h : Closed locality es) : Withdrawn es := by
  obtain ⟨W, port, stack, fuel, chip, client, w, w', before, done, hclose, hdone, hclient, hes⟩ := h
  have hgrows := accesses_last (lasting_grows (fun e => ¬ Requests e) done) hclient
    (fun call hcall e => uses_not_request hcall) port stack fuel (w', done) (grows_refl _ _)
  have hwithdrawn := (release_withdrawn port chip locality w before).returned hclose rfl
  exact (hgrows.cut hdone hes).lasts withdrawn_lasting hwithdrawn

section System

variable {ι : Type} [DecidableEq ι] {locality : ι → UInt8} {log : List (ι × Access)} {a b : Arbiter}

theorem parties_lawful (h : ∀ i, PartyTrace (locality i) (own i log)) :
    ∀ p ∈ log, Lawful (pageOf (locality p.1)) p.2 := fun p hp => (h p.1).lawful p.2 (mem_own.mpr hp)

/-- However the accesses of several users of the library are interleaved, one
that has initialised it has the TPM, and is the only one. -/
theorem admitted_exclusive (hpages : ∀ i j, locality i % 16 = locality j % 16 → i = j)
    (hrun : Runs Step Grants a log b) (hparties : ∀ i, PartyTrace (locality i) (own i log)) {i : ι}
    (hi : Admitted (locality i) (own i log)) :
    b.active = some (pageOf (locality i)) ∧ ∀ j, Admitted (locality j) (own j log) → j = i := by
  have hinj : Function.Injective fun i => pageOf (locality i) :=
    fun i j h => hpages i j (UInt8.toNat_inj.mp h)
  have hactive (j : ι) (hj : Admitted (locality j) (own j log)) : b.active = some (pageOf (locality j)) :=
    active_of_holding hrun (parties_lawful hparties) hinj j hj.holding
  refine ⟨hactive i hi, fun j hj => hinj ?_⟩
  exact Option.some.inj ((hactive j hj).symm.trans (hactive i hi))

/-- One that has closed it neither has the TPM nor is granted it, whatever
request an initialisation has left behind. -/
theorem closed_absent (hpages : ∀ i j, locality i % 16 = locality j % 16 → i = j)
    (hrun : Runs Step Grants a log b) (hparties : ∀ i, PartyTrace (locality i) (own i log)) {i : ι}
    (hi : Closed (locality i) (own i log)) : Absent (pageOf (locality i)) b := by
  have hinj : Function.Injective fun i => pageOf (locality i) :=
    fun i j h => hpages i j (UInt8.toNat_inj.mp h)
  exact absent_of_withdrawn hrun (parties_lawful hparties) hinj i hi.withdrawn

end System

end Parties

section Example

def askedAndGranted : List (Bool × Access) :=
  [(false, .write 0x0000 tpmAccessRequestUse 0), (true, .write 0x1000 tpmAccessRequestUse 0),
    (false, .timeoutInit 750000 0), (true, .timeoutInit 750000 0), (false, .read 0x0000 .variable 0 0xA0),
    (true, .read 0x1000 .variable 0 0x82), (false, .readChunk 0x0F00 4 0), (false, .read 0x0F04 .variable 0 0xA0)]

def firstClosed : List (Bool × Access) :=
  askedAndGranted ++ [(false, .read 0x0000 .variable 0 0xA0), (false, .write 0x0000 tpmAccessRelinquishLocality 0)]

def bothLocalities (i : Bool) : UInt8 := if i then 1 else 0

theorem bothLocalities_apart : ∀ i j, bothLocalities i % 16 = bothLocalities j % 16 → i = j := by decide

def granted : Arbiter := ⟨some 0, {1}⟩

theorem granted_shows : Shows granted 0 0xA0 ∧ Shows granted 1 0x82 := by
  constructor <;> constructor <;> decide

theorem askedAndGranted_runs : Runs Step Grants ⟨none, ∅⟩ askedAndGranted granted := by
  have hstart : Runs (ι := Bool) Step Grants ⟨none, ∅⟩ [] ⟨none, ∅⟩ := .start
  have hfirst := hstart.event false (@Step.write _ 0x0000 tpmAccessRequestUse 0 (by decide))
  have hboth := hfirst.event true (@Step.write _ 0x1000 tpmAccessRequestUse 0 (by decide))
  have hgranted := hboth.silent (@Grants.grant _ 0 rfl (by decide))
  rw [show (⟨some 0, _⟩ : Arbiter) = granted by decide] at hgranted
  have hseen := ((hgranted.event false (@Step.timeoutInit _ 750000 0)).event true (@Step.timeoutInit _ 750000 0)).event
    false (@Step.read _ 0x0000 .variable 0 0xA0 (by decide) fun _ => granted_shows.1)
  have hwaits := hseen.event true (@Step.read _ 0x1000 .variable 0 0x82 (by decide) fun _ => granted_shows.2)
  exact (hwaits.event false .readChunk).event false (.readElse (by decide))

theorem firstClosed_runs : Runs Step Grants ⟨none, ∅⟩ firstClosed ⟨none, {1}⟩ := by
  have hread := askedAndGranted_runs.event false (@Step.read _ 0x0000 .variable 0 0xA0 (by decide)
    fun _ => granted_shows.1)
  exact hread.event false (@Step.write _ 0x0000 tpmAccessRelinquishLocality 0 (by decide))

def opener (close : Bool) (locality : UInt8) : TpmClient Unit Unit :=
  .call (.interfaceInit LocalityPages.grantingSpi none tpmChipData locality) fun _ =>
    if close then .call (.interfaceClose tpmChipData locality) fun _ => .done () else .done ()

theorem opener_makes (close : Bool) (locality : UInt8) :
    (opener close locality).Makes fun call => ∀ l ∈ localities call, l = locality := by
  refine ⟨fun l hl => List.mem_singleton.mp hl, fun _ => ?_⟩
  cases close with
  | false => trivial
  | true => exact ⟨fun l hl => List.mem_singleton.mp hl, fun _ => trivial⟩

def showsActive : FifoPort Unit := .steady fun _ => 0xA0

theorem askedAndGranted_parties : letI := littleHost
    ∀ i, PartyTrace (bothLocalities i) (own i askedAndGranted) := by
  let _ := littleHost
  intro i
  cases i with
  | false => exact ⟨Unit, showsActive, .zero, 1, opener false 0, (), opener_makes _ _, [], rfl⟩
  | true =>
      exact ⟨Unit, .steady fun _ => 0x82, .zero, 1, opener false 1, (), opener_makes _ _, [.timeoutElapsed 0 false], rfl⟩

theorem firstClosed_parties : letI := littleHost
    ∀ i, PartyTrace (bothLocalities i) (own i firstClosed) := by
  let _ := littleHost
  intro i
  cases i with
  | false => exact ⟨Unit, showsActive, .zero, 1, opener true 0, (), opener_makes _ _, [], rfl⟩
  | true => exact askedAndGranted_parties true

theorem admitted_exclusive_granted : letI := littleHost
    granted.active = some (pageOf (bothLocalities false)) ∧
      ∀ j, Admitted (bothLocalities j) (own j askedAndGranted) → j = false := by
  let _ := littleHost
  have hadmitted : Admitted (bothLocalities false) (own false askedAndGranted) :=
    ⟨Unit, showsActive, .zero, 1, LocalityPages.grantingSpi, none, tpmChipData, { tpmChipData with locality := 0 },
      .done (), (), (), [], own false askedAndGranted, rfl, List.prefix_rfl, trivial, List.prefix_rfl⟩
  exact admitted_exclusive bothLocalities_apart askedAndGranted_runs askedAndGranted_parties hadmitted

theorem closed_absent_first : letI := littleHost
    Absent (pageOf (bothLocalities false)) ⟨none, {1}⟩ := by
  let _ := littleHost
  have hclosed : Closed (bothLocalities false) (own false firstClosed) :=
    ⟨Unit, showsActive, .zero, 1, tpmChipData, .done (), (), (), own false askedAndGranted, own false firstClosed, rfl,
      List.prefix_rfl, trivial, List.prefix_rfl⟩
  exact closed_absent bothLocalities_apart firstClosed_runs firstClosed_parties hclosed

end Example

end LibTpm.LocalityExclusion
