import LibTpm.FifoTrace

namespace LibTpm.Watched

open LibTpm.Base.Process LibTpm.Base.Process.Proc LibTpm.Constants LibTpm.Platform LibTpm.Fifo LibTpm.PollRounds

variable {W T : Type}

/-- An access, with what the device really was before it and after it. -/
structure Observed (T : Type) where
  before : T
  access : Access
  after : T

def accesses (ext : List (Observed T)) : List Access := ext.map Observed.access

@[simp] theorem accesses_append (ext ext' : List (Observed T)) :
    accesses (ext ++ ext') = accesses ext ++ accesses ext' := List.map_append

def watch {α : Type} (truth : W → T) (event : α → Access) (m : StateM W α) : StateM (W × List (Observed T)) α :=
  fun s => ((m s.1).1, (m s.1).2, s.2 ++ [⟨truth s.1, event (m s.1).1, truth (m s.1).2⟩])

/-- The same port with a log of its accesses, in which `truth` says what the
world really is. The driver does not see the log. -/
def watched (port : FifoPort W) (truth : W → T) : FifoPort (W × List (Observed T)) where
  timeoutInitUs usec := watch truth (Access.timeoutInit usec) (port.timeoutInitUs usec)
  timeoutElapsed cnt := watch truth (Access.timeoutElapsed cnt) (port.timeoutElapsed cnt)
  writeByte reg val := watch truth (Access.write reg val) (port.writeByte reg val)
  readByte reg dst := watch truth (fun r => Access.read reg dst r.1 r.2) (port.readByte reg dst)
  readChunk reg len := watch truth (fun r => Access.readChunk reg len r.1) (port.readChunk reg len)

variable {port : FifoPort W} {truth : W → T} {w : W} {log : List (Observed T)}
  {C : W × List (Observed T) → Prop}

theorem watch_read {reg : UInt16} {dst : Dest} {Q : Int × UInt8 → W × List (Observed T) → Prop}
    (h : ∀ err val w', port.readByte reg dst w = ((err, val), w') →
      Q (err, val) (w', log ++ [⟨truth w, .read reg dst err val, truth w'⟩])) :
    Meets (liftM ((watched port truth).readByte reg dst)) (w, log) Q C := h _ _ _ rfl

theorem watch_write {reg : UInt16} {val : UInt8} {Q : Int → W × List (Observed T) → Prop}
    (h : ∀ err w', port.writeByte reg val w = (err, w') →
      Q err (w', log ++ [⟨truth w, .write reg val err, truth w'⟩])) :
    Meets (liftM ((watched port truth).writeByte reg val)) (w, log) Q C := h _ _ rfl

theorem watch_timeoutInit {usec : UInt32} {Q : UInt64 → W × List (Observed T) → Prop}
    (h : ∀ cnt w', port.timeoutInitUs usec w = (cnt, w') →
      Q cnt (w', log ++ [⟨truth w, .timeoutInit usec cnt, truth w'⟩])) :
    Meets (liftM ((watched port truth).timeoutInitUs usec)) (w, log) Q C := h _ _ rfl

structure Since (P : Access → Prop) (log : List (Observed T)) (s : W × List (Observed T))
    (ext : List (Observed T)) : Prop where
  log : s.2 = log ++ ext
  each : ∀ e ∈ ext, P e.access

section Since

variable {P : Access → Prop} {s s' : W × List (Observed T)} {ext : List (Observed T)}

theorem Since.read (h : Since P log s ext) {reg : UInt16} {dst : Dest} {r : Int × UInt8}
    (hread : (watched port truth).readByte reg dst s = (r, s')) (hp : P (.read reg dst r.1 r.2)) :
    port.readByte reg dst s.1 = (r, s'.1) ∧
      Since P log s' (ext ++ [⟨truth s.1, .read reg dst r.1 r.2, truth s'.1⟩]) := by
  cases hread
  refine ⟨rfl, (congrArg (· ++ _) h.log).trans (List.append_assoc ..), ?_⟩
  exact List.forall_mem_append.mpr ⟨h.each, List.forall_mem_singleton.mpr hp⟩

theorem Since.timer (h : Since P log s ext) {cnt : UInt64} {elapsed : Bool}
    (htimer : (watched port truth).timeoutElapsed cnt s = (elapsed, s')) (hp : P (.timeoutElapsed cnt elapsed)) :
    Since P log s' (ext ++ [⟨truth s.1, .timeoutElapsed cnt elapsed, truth s'.1⟩]) := by
  cases htimer
  refine ⟨(congrArg (· ++ _) h.log).trans (List.append_assoc ..), ?_⟩
  exact List.forall_mem_append.mpr ⟨h.each, List.forall_mem_singleton.mpr hp⟩

end Since

section Waits

def Polled (reg : UInt16) : Access → Prop
  | .read reg' dst _ _ => reg' = reg ∧ dst = .variable
  | .timeoutInit _ _ | .timeoutElapsed _ _ => True
  | .write _ _ _ | .readChunk _ _ _ => False

/-- A wait for bits, from the read of the register that ends it. -/
structure Waited (port : FifoPort W) (truth : W → T) (reg : UInt16) (set : UInt8) (r : Int × UInt8) (w : W)
    (ext : List (Observed T)) : Prop where
  polls : ∀ e ∈ ext, Polled reg e.access
  done : 0 ≤ r.1 → r.2 &&& set = set ∧ ∃ pre v err, port.readByte reg .variable v = ((err, r.2), w) ∧ 0 ≤ err ∧
    ext = pre ++ [⟨truth v, .read reg .variable err r.2, truth w⟩]

theorem waitLoop_watched (reg : UInt16) (set : UInt8) (delay : UInt64) (n : Nat) (w : W)
    (log ext : List (Observed T)) (h : ∀ e ∈ ext, Polled reg e.access) :
    Meets (waitRegBitsLoop (watched port truth) reg set delay n) (w, log ++ ext)
      (fun r s => ∃ ext', s.2 = log ++ ext' ∧ Waited port truth reg set r s.1 ext')
      (fun s => ∃ ext', s.2 = log ++ ext' ∧ ∀ e ∈ ext', Polled reg e.access) := by
  refine waitRegBitsLoop_meets (I := fun _ s => ∃ ext, Since (Polled reg) log s ext)
    (fun s ⟨ext, h⟩ => ⟨ext, h.log, h.each⟩) ?_ ⟨ext, rfl, h⟩
  rintro n s o s' ⟨ext, h⟩ hround
  cases hround with
  | failed read neg =>
      obtain ⟨-, h'⟩ := h.read read ⟨rfl, rfl⟩
      exact ⟨_, h'.log, h'.each, fun hok => absurd neg (not_lt.mpr hok)⟩
  | @found err _ _ read ok bits =>
      obtain ⟨hread, h'⟩ := h.read read ⟨rfl, rfl⟩
      exact ⟨_, h'.log, h'.each, fun _ => ⟨bits, ext, s.1, err, hread, ok, rfl⟩⟩
  | expired read ok unset timer =>
      obtain ⟨-, h'⟩ := h.read read ⟨rfl, rfl⟩
      have h'' := h'.timer timer trivial
      exact ⟨_, h''.log, h''.each, fun hok => absurd hok (show ¬ 0 ≤ tpmErrTimeout by decide)⟩
  | vain read ok unset timer =>
      obtain ⟨-, h'⟩ := h.read read ⟨rfl, rfl⟩
      exact ⟨_, h'.timer timer trivial⟩

theorem wait_watched (fuel : Nat) (reg : UInt16) (set : UInt8) (timeout : UInt64) (w : W)
    (log : List (Observed T)) :
    Meets (tpm2WaitRegBits (watched port truth) fuel reg set timeout) (w, log)
      (fun r s => ∃ ext, s.2 = log ++ ext ∧ Waited port truth reg set r s.1 ext)
      (fun s => ∃ ext, s.2 = log ++ ext ∧ ∀ e ∈ ext, Polled reg e.access) := by
  rw [tpm2WaitRegBits, meets_bind]
  apply watch_timeoutInit
  intro cnt w' _
  exact waitLoop_watched reg set cnt fuel w' log _ (List.forall_mem_singleton.mpr trivial)

end Waits

section Bursts

def Vain (base : UInt16) : Access → Prop
  | .read reg dst err val => dst = .variable ∧ (reg = fifoReg base tpmFifoRegBurstCountLo ∨
      reg = fifoReg base tpmFifoRegBurstCountHi ∧ (0 ≤ err → val = 0))
  | .timeoutInit _ _ | .timeoutElapsed _ _ => True
  | .write _ _ _ | .readChunk _ _ _ => False

/-- The two reads, one directly after the other, that yield the burst count `burst`. -/
structure Yields (port : FifoPort W) (truth : W → T) (base : UInt16) (burst : UInt16) (w : W)
    (two : List (Observed T)) : Prop where
  pos : burst ≠ 0
  reads : ∃ u v err₀ err₁ byte0 byte1,
    port.readByte (fifoReg base tpmFifoRegBurstCountLo) .variable u = ((err₀, byte0), v) ∧
    port.readByte (fifoReg base tpmFifoRegBurstCountHi) .variable v = ((err₁, byte1), w) ∧
    0 ≤ err₀ ∧ 0 ≤ err₁ ∧ burst = burstcountOf byte0 byte1 ∧
    two = [⟨truth u, .read (fifoReg base tpmFifoRegBurstCountLo) .variable err₀ byte0, truth v⟩,
      ⟨truth v, .read (fifoReg base tpmFifoRegBurstCountHi) .variable err₁ byte1, truth w⟩]

structure Bursted (port : FifoPort W) (truth : W → T) (base : UInt16) (r : Int × UInt16) (w : W)
    (vain two : List (Observed T)) : Prop where
  vain : ∀ e ∈ vain, Vain base e.access
  none : r.1 < 0 → two = []
  yields : 0 ≤ r.1 → Yields port truth base r.2 w two

theorem burstcountOf_toNat (byte0 byte1 : UInt8) :
    (burstcountOf byte0 byte1).toNat = 256 * byte1.toNat + byte0.toNat := by
  have h0 := byte0.toNat_lt
  have h1 := byte1.toNat_lt
  rw [burstcountOf, UInt16.toNat_add, UInt16.toNat_shiftLeft, UInt8.toNat_toUInt16, UInt8.toNat_toUInt16]
  simp only [Nat.shiftLeft_eq]
  simp
  omega

theorem burstcountOf_zero {byte0 byte1 : UInt8} (h : burstcountOf byte0 byte1 = 0) : byte1 = 0 := by
  have hnat := burstcountOf_toNat byte0 byte1
  rw [h] at hnat
  apply UInt8.toNat_inj.mp
  simp at hnat ⊢
  omega

theorem burstcountLoop_watched (base : UInt16) (delay : UInt64) (n : Nat) (w : W)
    (log ext : List (Observed T)) (h : ∀ e ∈ ext, Vain base e.access) :
    Meets (getBurstcountLoop (watched port truth) base delay n) (w, log ++ ext)
      (fun r s => ∃ vain two, s.2 = log ++ vain ++ two ∧ Bursted port truth base r s.1 vain two)
      (fun s => ∃ ext', s.2 = log ++ ext' ∧ ∀ e ∈ ext', Vain base e.access) := by
  refine getBurstcountLoop_meets (I := fun _ s => ∃ ext, Since (Vain base) log s ext)
    (fun s ⟨ext, h⟩ => ⟨ext, h.log, h.each⟩) ?_ ⟨ext, rfl, h⟩
  rintro n s o s' ⟨ext, h⟩ hround
  have hfails {ext : List (Observed T)} {err : Int} (herr : err < 0) (h : Since (Vain base) log s' ext) :
      ∃ vain two, s'.2 = log ++ vain ++ two ∧ Bursted port truth base (err, 0) s'.1 vain two :=
    ⟨ext, [], h.log.trans (List.append_nil _).symm, h.each, fun _ => rfl, fun hok => absurd herr (not_lt.mpr hok)⟩
  cases hround with
  | failedLo lo neg =>
      obtain ⟨-, hlo⟩ := h.read lo ⟨rfl, .inl rfl⟩
      exact hfails neg hlo
  | failedHi lo ok₀ hi neg =>
      obtain ⟨-, hlo⟩ := h.read lo ⟨rfl, .inl rfl⟩
      obtain ⟨-, hhi⟩ := hlo.read hi ⟨rfl, .inr ⟨rfl, fun hok => absurd neg (not_lt.mpr hok)⟩⟩
      exact hfails neg hhi
  | @found err₀ err₁ byte0 byte1 s'' _ lo ok₀ hi ok₁ burst =>
      -- the two reads are not in vain, and what is in vain ends before them
      have hany : Since (fun _ => True) log s ext := ⟨h.log, fun _ _ => trivial⟩
      obtain ⟨hlo, h'⟩ := hany.read lo trivial
      obtain ⟨hhi, h''⟩ := h'.read hi trivial
      have hlog := h''.log
      rw [List.append_assoc, ← List.append_assoc log] at hlog
      exact ⟨ext, _, hlog, h.each, fun herr => absurd herr (lt_irrefl 0), fun _ =>
        ⟨burst, s.1, s''.1, err₀, err₁, byte0, byte1, hlo, hhi, ok₀, ok₁, rfl, rfl⟩⟩
  | expired lo ok₀ hi ok₁ zero timer =>
      obtain ⟨-, hlo⟩ := h.read lo ⟨rfl, .inl rfl⟩
      obtain ⟨-, hhi⟩ := hlo.read hi ⟨rfl, .inr ⟨rfl, fun _ => burstcountOf_zero zero⟩⟩
      exact hfails (show tpmErrTimeout < 0 by decide) (hhi.timer timer trivial)
  | vain lo ok₀ hi ok₁ zero timer =>
      obtain ⟨-, hlo⟩ := h.read lo ⟨rfl, .inl rfl⟩
      obtain ⟨-, hhi⟩ := hlo.read hi ⟨rfl, .inr ⟨rfl, fun _ => burstcountOf_zero zero⟩⟩
      exact ⟨_, hhi.timer timer trivial⟩

theorem burstcount_watched (fuel : Nat) (chip : ChipData) (w : W) (log : List (Observed T)) :
    Meets (tpm2FifoGetBurstcount (watched port truth) fuel chip) (w, log)
      (fun r s => ∃ vain two, s.2 = log ++ vain ++ two ∧
        Bursted port truth (localityStartAddress chip.locality) r s.1 vain two)
      (fun s => ∃ ext, s.2 = log ++ ext ∧ ∀ e ∈ ext, Vain (localityStartAddress chip.locality) e.access) := by
  rw [tpm2FifoGetBurstcount, meets_bind]
  apply watch_timeoutInit
  intro cnt w' _
  exact burstcountLoop_watched _ cnt fuel w' log _ (List.forall_mem_singleton.mpr trivial)

end Bursts

end LibTpm.Watched
