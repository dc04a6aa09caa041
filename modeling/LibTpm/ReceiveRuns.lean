import LibTpm.FifoTrace

namespace LibTpm.ReceiveRuns

open LibTpm.Base.Process LibTpm.Base.Process.Proc LibTpm.Base.BigEndian LibTpm.Command
open LibTpm.Constants LibTpm.Platform LibTpm.Fifo LibTpm.FifoTrace LibTpm.PollRounds

/-- What a device and a timer answer, each in the order in which it is asked:
the result of an access and the byte it yields, or whether the time is over. -/
structure Behaviour where
  status : Nat → Int × UInt8
  burstLo : Nat → Int × UInt8
  burstHi : Nat → Int × UInt8
  fifo : Nat → Int × UInt8
  elapsed : Nat → Bool

/-- How many answers of each kind have been given. -/
structure Asked where
  status : Nat
  burstLo : Nat
  burstHi : Nat
  fifo : Nat
  timer : Nat
  deriving DecidableEq, Repr

def Asked.none : Asked := ⟨0, 0, 0, 0, 0⟩

def Behaviour.read (b : Behaviour) (base reg : UInt16) : StateM Asked (Int × UInt8) := fun n =>
  if reg = fifoReg base tpmFifoRegStatus then (b.status n.status, { n with status := n.status + 1 })
  else if reg = fifoReg base tpmFifoRegBurstCountLo then
    (b.burstLo n.burstLo, { n with burstLo := n.burstLo + 1 })
  else if reg = fifoReg base tpmFifoRegBurstCountHi then
    (b.burstHi n.burstHi, { n with burstHi := n.burstHi + 1 })
  else (b.fifo n.fifo, { n with fifo := n.fifo + 1 })

/-- The registers of the locality page at `base`. A receive does not write. -/
def Behaviour.port (b : Behaviour) (base : UInt16) : FifoPort Asked where
  timeoutInitUs _ := pure 0
  timeoutElapsed _ := fun n => (b.elapsed n.timer, { n with timer := n.timer + 1 })
  writeByte _ _ := pure 0
  readByte reg _ := b.read base reg
  readChunk _ len := pure (0, Vector.replicate len.toNat 0)

namespace Behaviour

variable (b : Behaviour)

def burst (i : Nat) : Nat := (burstcountOf (b.burstLo i).2 (b.burstHi i).2).toNat

def BurstOk (i : Nat) : Prop := 0 ≤ (b.burstLo i).1 ∧ 0 ≤ (b.burstHi i).1

def carried (first : Nat) : Nat → Nat
  | 0 => 0
  | k + 1 => carried first k + b.burst (first + k)

def FifoOk (n : Nat) : Prop := ∀ i < n, 0 ≤ (b.fifo i).1

/-- The status is read in vain and the time is not over. -/
def Unready (s t : Nat) : Prop :=
  0 ≤ (b.status s).1 ∧ ¬ (b.status s).2 &&& tpmStatAvail = tpmStatAvail ∧ b.elapsed t = false

/-- A wait for AVAIL ends well after `p` polls in vain, from the status `s`
and the timer answer `t` on. -/
structure Avail (s t p : Nat) : Prop where
  unready : ∀ q < p, b.Unready (s + q) (t + q)
  ok : 0 ≤ (b.status (s + p)).1
  avail : (b.status (s + p)).2 &&& tpmStatAvail = tpmStatAvail

/-- A receive pass asks for its byte `y`: bursts reach it before the pass has
its bytes, and no access before it fails. The pass stores at indices from 0
below `limit`, and it has its bytes when `off` and the index reach `limit`. -/
def Asks (off limit first y : Nat) : Prop :=
  ∃ k, b.carried first k + off < limit ∧ y < limit ∧ y < b.carried first (k + 1) ∧
    (∀ i ≤ k, b.BurstOk (first + i)) ∧ b.FifoOk (off + y)

/-- The pass gets its byte `y`. -/
def Reads (off limit first y : Nat) : Prop :=
  b.Asks off limit first y ∧ 0 ≤ (b.fifo (off + y)).1

variable {b}

theorem carried_mono {first i j : Nat} (h : i ≤ j) : b.carried first i ≤ b.carried first j := by
  induction h with
  | refl => exact Nat.le_refl _
  | step _ ih => exact Nat.le_trans ih (Nat.le_add_right _ _)

theorem Avail.unique {s t p q : Nat} (hp : b.Avail s t p) (hq : b.Avail s t q) : p = q := by
  rcases Nat.lt_trichotomy p q with h | h | h
  · exact absurd hp.avail (hq.unready p h).2.1
  · exact h
  · exact absurd hq.avail (hp.unready q h).2.1

theorem exists_burst {first h z : Nat} (hz : z < b.carried first h) :
    ∃ k < h, b.carried first k ≤ z ∧ z < b.carried first (k + 1) := by
  induction h with
  | zero => exact absurd hz (Nat.not_lt_zero z)
  | succ h ih =>
      by_cases hlt : z < b.carried first h
      · obtain ⟨k, hk, hz⟩ := ih hlt
        exact ⟨k, Nat.lt_succ_of_lt hk, hz⟩
      · exact ⟨h, Nat.lt_succ_self h, not_lt.mp hlt, hz⟩

theorem not_avail {s t q : Nat} (hq : ∀ i < q, b.Unready (s + i) (t + i))
    (h : ¬ b.Unready (s + q) (t + q))
    (h' : 0 ≤ (b.status (s + q)).1 → ¬ (b.status (s + q)).2 &&& tpmStatAvail = tpmStatAvail)
    (p : Nat) : ¬ b.Avail s t p := by
  intro hp
  rcases Nat.lt_trichotomy p q with hlt | rfl | hlt
  · exact (hq p hlt).2.1 hp.avail
  · exact h' hp.ok hp.avail
  · exact h (hp.unready q hlt)

theorem Asks.le {off limit first x y : Nat} (h : b.Asks off limit first y) (hx : x ≤ y) :
    b.Asks off limit first x := by
  obtain ⟨k, hk, hlimit, hcarried, hbursts, hfifo⟩ := h
  refine ⟨k, hk, by omega, by omega, hbursts, fun i hi => hfifo i (by omega)⟩

end Behaviour

open Behaviour

/-- The objects that a run has handed to the transport to store bytes of the
device to. A read that fails may have stored before it fails, in its data phase. -/
def stored (log : List Access) : List Dest :=
  log.filterMap fun e => match e with
    | .read _ dst _ _ => if dst ≠ .variable then some dst else none
    | _ => none

theorem stored_append (log log' : List Access) : stored (log ++ log') = stored log ++ stored log' :=
  List.filterMap_append

section Script

variable {b : Behaviour} {base : UInt16} {n : Asked} {log : List Access} {dst : Dest}

theorem read_status : (b.port base).readByte (fifoReg base tpmFifoRegStatus) dst n =
    (b.status n.status, { n with status := n.status + 1 }) := if_pos rfl

theorem read_burstLo : (b.port base).readByte (fifoReg base tpmFifoRegBurstCountLo) dst n =
    (b.burstLo n.burstLo, { n with burstLo := n.burstLo + 1 }) := by
  change b.read base _ n = _
  rw [Behaviour.read, if_neg (fifoReg_ne base (by decide)), if_pos rfl]

theorem read_burstHi : (b.port base).readByte (fifoReg base tpmFifoRegBurstCountHi) dst n =
    (b.burstHi n.burstHi, { n with burstHi := n.burstHi + 1 }) := by
  change b.read base _ n = _
  rw [Behaviour.read, if_neg (fifoReg_ne base (by decide)), if_neg (fifoReg_ne base (by decide)),
    if_pos rfl]

theorem read_fifo : (b.port base).readByte (fifoReg base tpmFifoRegDataFifo) dst n =
    (b.fifo n.fifo, { n with fifo := n.fifo + 1 }) := by
  change b.read base _ n = _
  rw [Behaviour.read, if_neg (fifoReg_ne base (by decide)), if_neg (fifoReg_ne base (by decide)),
    if_neg (fifoReg_ne base (by decide))]

theorem stored_read_variable (log : List Access) (reg : UInt16) (err : Int) (val : UInt8) :
    stored (log ++ [.read reg .variable err val]) = stored log := by
  rw [stored_append]
  exact List.append_nil _

theorem stored_timeoutElapsed (log : List Access) (cnt : UInt64) (e : Bool) :
    stored (log ++ [.timeoutElapsed cnt e]) = stored log := by
  rw [stored_append]
  exact List.append_nil _

section Calls

variable {reg : UInt16} {a : Int × UInt8} {n' : Asked} {C : Asked × List Access → Prop}

theorem meets_answer (h : (b.port base).readByte reg dst n = (a, n'))
    {Q : Int × UInt8 → Asked × List Access → Prop} (hq : Q a (n', log ++ [.read reg dst a.1 a.2])) :
    Meets (liftM ((b.port base).recorded.readByte reg dst)) (n, log) Q C := by
  change Q ((b.port base).readByte reg dst n).1 (((b.port base).readByte reg dst n).2,
    log ++ [.read reg dst ((b.port base).readByte reg dst n).1.1 ((b.port base).readByte reg dst n).1.2])
  rw [h]
  exact hq

end Calls

/-- How a wait for AVAIL ends that has started at `n`. -/
structure Waited (b : Behaviour) (n : Asked) (log : List Access) (err : Int)
    (w : Asked × List Access) : Prop where
  log : stored w.2 = stored log
  ok : 0 ≤ err → ∃ p, b.Avail n.status n.timer p ∧
    w.1 = { n with status := n.status + p + 1, timer := n.timer + p }
  failed : err < 0 → ∀ p, ¬ b.Avail n.status n.timer p

theorem status_read {err : Int} {val : UInt8} {s s' : Asked × List Access}
    (h : (b.port base).recorded.readByte (fifoReg base tpmFifoRegStatus) .variable s = ((err, val), s')) :
    b.status s.1.status = (err, val) ∧ s'.1 = { s.1 with status := s.1.status + 1 } ∧ stored s'.2 = stored s.2 := by
  obtain ⟨hread, hlog⟩ := recorded_read h
  rw [read_status] at hread
  obtain ⟨hval, hworld⟩ := Prod.mk.inj hread
  exact ⟨hval, hworld.symm, by rw [hlog, stored_read_variable]⟩

theorem timer_elapsed {cnt : UInt64} {elapsed : Bool} {s s' : Asked × List Access}
    (h : (b.port base).recorded.timeoutElapsed cnt s = (elapsed, s')) :
    b.elapsed s.1.timer = elapsed ∧ s'.1 = { s.1 with timer := s.1.timer + 1 } ∧ stored s'.2 = stored s.2 := by
  obtain ⟨htimer, hlog⟩ := recorded_timeoutElapsed h
  obtain ⟨hval, hworld⟩ := Prod.mk.inj htimer
  exact ⟨hval, hworld.symm, by rw [hlog, stored_timeoutElapsed]⟩

structure Polled (b : Behaviour) (n : Asked) (log : List Access) (q : Nat) (s : Asked × List Access) : Prop where
  unready : ∀ i < q, b.Unready (n.status + i) (n.timer + i)
  asked : s.1 = { n with status := n.status + q, timer := n.timer + q }
  log : stored s.2 = stored log

theorem waitAvailLoop_waits (delay : UInt64) (fuel : Nat) {s : Asked × List Access} (h : Polled b n log 0 s) :
    Meets (waitRegBitsLoop (b.port base).recorded (fifoReg base tpmFifoRegStatus) tpmStatAvail delay fuel) s
      (fun r w => Waited b n log r.1 w)
      (fun w => stored w.2 = stored log ∧ ∀ p, b.Avail n.status n.timer p → fuel ≤ p) := by
  refine waitRegBitsLoop_meets (I := fun m s => ∃ q, Polled b n log q s ∧ q + m = fuel) ?_ ?_
    ⟨0, h, Nat.zero_add fuel⟩
  · rintro s ⟨q, h, rfl⟩
    refine ⟨h.log, fun p hp => ?_⟩
    by_contra hlt
    exact (h.unready p (by omega)).2.1 hp.avail
  rintro m s o s' ⟨q, h, hm⟩ hround
  cases hround with
  | failed read neg =>
      obtain ⟨hval, -, hlog⟩ := status_read read
      rw [h.asked] at hval
      have herr : (b.status (n.status + q)).1 < 0 := by rwa [hval]
      refine ⟨hlog.trans h.log, fun hok => absurd neg (not_lt.mpr hok), fun _ => ?_⟩
      exact not_avail h.unready (fun hu => absurd herr (not_lt.mpr hu.1)) fun hok => absurd herr (not_lt.mpr hok)
  | found read ok bits =>
      obtain ⟨hval, hasked, hlog⟩ := status_read read
      rw [h.asked] at hval hasked
      refine ⟨hlog.trans h.log, fun _ => ⟨q, ⟨h.unready, ?_, ?_⟩, hasked⟩, fun hneg => absurd hneg (lt_irrefl 0)⟩
      · rwa [hval]
      · rwa [hval]
  | expired read ok unset timer =>
      obtain ⟨hval, hasked, hlog⟩ := status_read read
      obtain ⟨htime, -, hlog'⟩ := timer_elapsed timer
      rw [h.asked] at hval hasked
      rw [hasked] at htime
      refine ⟨hlog'.trans (hlog.trans h.log), fun hok => absurd hok (show ¬ 0 ≤ tpmErrTimeout by decide), fun _ => ?_⟩
      refine not_avail h.unready (fun hu => ?_) fun _ => by rwa [hval]
      exact Bool.false_ne_true (hu.2.2.symm.trans htime)
  | vain read ok unset timer =>
      obtain ⟨hval, hasked, hlog⟩ := status_read read
      obtain ⟨htime, hasked', hlog'⟩ := timer_elapsed timer
      rw [h.asked] at hval hasked
      rw [hasked] at htime hasked'
      have hunready : b.Unready (n.status + q) (n.timer + q) := ⟨by rwa [hval], by rwa [hval], htime⟩
      exact ⟨q + 1, ⟨Nat.forall_lt_succ_right.mpr ⟨h.unready, hunready⟩, hasked', hlog'.trans (hlog.trans h.log)⟩,
        by omega⟩

theorem waitAvail_waits (timeout : UInt64) (fuel : Nat) :
    Meets (tpm2WaitRegBits (b.port base).recorded fuel (fifoReg base tpmFifoRegStatus) tpmStatAvail
        timeout) (n, log)
      (fun r w => Waited b n log r.1 w)
      (fun w => stored w.2 = stored log ∧ ∀ p, b.Avail n.status n.timer p → fuel ≤ p) := by
  have hinit : stored (log ++ [.timeoutInit (timeout * 1000).toUInt32 0]) = stored log := by
    rw [stored_append]
    exact List.append_nil _
  exact waitAvailLoop_waits 0 fuel ⟨fun i hi => absurd hi (Nat.not_lt_zero i), rfl, hinit⟩

/-- How the driver comes by the count of the burst `i`, for which it asks at `n`. -/
structure Fetched (b : Behaviour) (n : Asked) (i : Nat) (log : List Access) (r : Int × UInt16)
    (w : Asked × List Access) : Prop where
  log : stored w.2 = stored log
  ok : 0 ≤ r.1 → b.BurstOk i ∧ r.2.toNat = b.burst i ∧
    w.1 = { n with burstLo := i + 1, burstHi := i + 1 }
  failed : r.1 < 0 → ¬ b.BurstOk i ∧ w.1.fifo = n.fifo

theorem burst_read {err₀ err₁ : Int} {byte0 byte1 : UInt8} {s s' s'' : Asked × List Access}
    (hlo : (b.port base).recorded.readByte (fifoReg base tpmFifoRegBurstCountLo) .variable s = ((err₀, byte0), s'))
    (hhi : (b.port base).recorded.readByte (fifoReg base tpmFifoRegBurstCountHi) .variable s' = ((err₁, byte1), s'')) :
    b.burstLo s.1.burstLo = (err₀, byte0) ∧ b.burstHi s.1.burstHi = (err₁, byte1) ∧
      s''.1 = { s.1 with burstLo := s.1.burstLo + 1, burstHi := s.1.burstHi + 1 } ∧ stored s''.2 = stored s.2 := by
  obtain ⟨hread, hlog⟩ := recorded_read hlo
  obtain ⟨hread', hlog'⟩ := recorded_read hhi
  rw [read_burstLo] at hread
  obtain ⟨hval, hworld⟩ := Prod.mk.inj hread
  rw [← hworld, read_burstHi] at hread'
  obtain ⟨hval', hworld'⟩ := Prod.mk.inj hread'
  exact ⟨hval, hval', hworld'.symm, by rw [hlog', stored_read_variable, hlog, stored_read_variable]⟩

theorem getBurstcount_fetches (hburst : ∀ i, b.BurstOk i → 0 < b.burst i) {chip : ChipData}
    (hbase : base = localityStartAddress chip.locality) (fuel i : Nat) (hlo : n.burstLo = i)
    (hhi : n.burstHi = i) :
    Meets (tpm2FifoGetBurstcount (b.port base).recorded fuel chip) (n, log)
      (fun r w => Fetched b n i log r w) (fun w => stored w.2 = stored log ∧ fuel = 0) := by
  subst hbase
  have hinit : stored (log ++ [.timeoutInit (chip.timeouts.msecA * 1000).toUInt32 0]) = stored log := by
    rw [stored_append]
    exact List.append_nil _
  -- a count that is read is not zero, so that there is one round
  refine getBurstcountLoop_meets (I := fun m s => s.1 = n ∧ stored s.2 = stored log ∧ m = fuel) ?_ ?_
    ⟨rfl, hinit, rfl⟩
  · rintro s ⟨-, hlog, hfuel⟩
    exact ⟨hlog, hfuel.symm⟩
  rintro m s o s' ⟨rfl, hlog, -⟩ hround
  have hpos {err₀ err₁ : Int} {byte0 byte1 : UInt8} (hlo' : b.burstLo s.1.burstLo = (err₀, byte0))
      (hhi' : b.burstHi s.1.burstHi = (err₁, byte1)) (ok₀ : 0 ≤ err₀) (ok₁ : 0 ≤ err₁) :
      b.BurstOk i ∧ (burstcountOf byte0 byte1).toNat = b.burst i := by
    rw [hlo] at hlo'
    rw [hhi] at hhi'
    rw [BurstOk, burst, hlo', hhi']
    exact ⟨⟨ok₀, ok₁⟩, rfl⟩
  have hzero {err₀ err₁ : Int} {byte0 byte1 : UInt8} (hlo' : b.burstLo s.1.burstLo = (err₀, byte0))
      (hhi' : b.burstHi s.1.burstHi = (err₁, byte1)) (ok₀ : 0 ≤ err₀) (ok₁ : 0 ≤ err₁)
      (hcount : burstcountOf byte0 byte1 = 0) : False := by
    obtain ⟨hok, hval⟩ := hpos hlo' hhi' ok₀ ok₁
    have := hburst i hok
    rw [← hval, hcount] at this
    exact Nat.lt_irrefl 0 this
  cases hround with
  | failedLo lo neg =>
      obtain ⟨hread, hlog'⟩ := recorded_read lo
      rw [read_burstLo, hlo] at hread
      obtain ⟨hval, hworld⟩ := Prod.mk.inj hread
      refine ⟨?_, fun hok => absurd neg (not_lt.mpr hok), fun _ => ⟨fun hok => ?_, by rw [← hworld]⟩⟩
      · rw [hlog', stored_read_variable, hlog]
      · rw [BurstOk, hval] at hok
        exact absurd neg (not_lt.mpr hok.1)
  | failedHi lo ok₀ hi neg =>
      obtain ⟨-, hval, hasked, hlog'⟩ := burst_read lo hi
      rw [hhi] at hval
      refine ⟨hlog'.trans hlog, fun hok => absurd neg (not_lt.mpr hok), fun _ => ⟨fun hok => ?_, by rw [hasked]⟩⟩
      rw [BurstOk, hval] at hok
      exact absurd neg (not_lt.mpr hok.2)
  | found lo ok₀ hi ok₁ burst =>
      obtain ⟨hlo', hhi', hasked, hlog'⟩ := burst_read lo hi
      obtain ⟨hok, hcount⟩ := hpos hlo' hhi' ok₀ ok₁
      rw [hlo, hhi] at hasked
      exact ⟨hlog'.trans hlog, fun _ => ⟨hok, hcount, hasked⟩, fun hneg => absurd hneg (lt_irrefl 0)⟩
  | expired lo ok₀ hi ok₁ zero timer | vain lo ok₀ hi ok₁ zero timer =>
      obtain ⟨hlo', hhi', -⟩ := burst_read lo hi
      exact (hzero hlo' hhi' ok₀ ok₁ zero).elim

end Script

section Pass

def Received (b : Behaviour) (buf : TpmCmd) (m : Nat) : Prop :=
  ∀ i < m, i < maxSizeCmdbuf → buf.byte i = (b.fifo i).2

theorem Received.store {b : Behaviour} {buf : TpmCmd} {m : Nat} (h : Received b buf m) :
    Received b (buf.setByte m (b.fifo m).2) (m + 1) := by
  intro i hi hmax
  by_cases hm : m < maxSizeCmdbuf
  · rw [TpmCmd.byte_setByte _ _ _ _ hm]
    by_cases him : i = m
    · rw [if_pos him, him]
    · rw [if_neg him]
      exact h i (by omega) hmax
  · rw [TpmCmd.setByte_of_le _ _ _ (not_lt.mp hm)]
    exact h i (by omega) hmax

structure Target (dest : Nat → Dest) (off : Nat) : Prop where
  named (y : Nat) : dest y ≠ .variable
  store (buf : TpmCmd) (v : UInt8) (y : Nat) : storeTo buf v (dest y) = buf.setByte (off + y) v

variable {b : Behaviour} {dest : Nat → Dest} {off limit first : Nat} {pre : List Dest}

/-- A pass has got its bytes up to the index `y`, and it has asked for those
up to the index `m`. -/
structure At (b : Behaviour) (dest : Nat → Dest) (off : Nat) (pre : List Dest) (y m : Nat)
    (st : ReadState) (log : List Access) : Prop where
  index : st.loopIndex = y
  size : st.size = y + off
  log : stored log = pre ++ (List.range m).map dest
  received : Received b st.buf (off + y)
  ok : b.FifoOk (off + y)

theorem stored_read (ht : Target dest off) (reg : UInt16) (err : Int) (val : UInt8) {y : Nat}
    {log : List Access} (h : stored log = pre ++ (List.range y).map dest) :
    stored (log ++ [.read reg (dest y) err val]) = pre ++ (List.range (y + 1)).map dest := by
  have hread : stored [.read reg (dest y) err val] = [dest y] :=
    List.filterMap_cons_some (if_pos (ht.named y))
  rw [stored_append, hread, h, List.range_succ, List.map_append, List.append_assoc]
  rfl

theorem readBurst_reads (ht : Target dest off) {base : UInt16} {n : Asked} (count x : Nat)
    (st : ReadState) (log : List Access) (hx : x ≤ limit) (h : At b dest off pre x x st log) :
    Meets (readBurst (b.port base).recorded base dest limit count st) ({ n with fifo := off + x }, log)
      (fun r w => ∃ y m, At b dest off pre y m r.2 w.2 ∧
        (0 ≤ r.1 → m = y ∧ y = min limit (x + count) ∧ w.1 = { n with fifo := off + y }) ∧
        (r.1 < 0 → m = y + 1 ∧ x ≤ y ∧ y < limit ∧ y < x + count ∧ (b.fifo (off + y)).1 < 0))
      (fun _ => False) := by
  induction count generalizing x st log with
  | zero =>
      rw [readBurst]
      exact ⟨x, x, h, fun _ => ⟨rfl, by omega, rfl⟩, fun hlt => absurd hlt (lt_irrefl 0)⟩
  | succ count ih =>
      rw [readBurst]
      by_cases hlt : st.loopIndex < limit
      · have hxl : x < limit := by
          rw [h.index] at hlt
          omega
        have hidx : st.loopIndex.toNat = x := by rw [h.index, Int.toNat_natCast]
        rw [if_pos hlt, hidx]
        dsimp only
        rw [meets_bind]
        apply meets_answer read_fifo
        dsimp only
        by_cases herr : (b.fifo (off + x)).1 < 0
        · rw [if_pos herr]
          exact ⟨x, x + 1, ⟨h.index, h.size, stored_read ht _ _ _ h.log, h.received, h.ok⟩,
            fun hc => absurd herr (not_lt.mpr hc), fun _ => ⟨rfl, Nat.le_refl x, hxl, by omega, herr⟩⟩
        · have hok := not_lt.mp herr
          have hat : At b dest off pre (x + 1) (x + 1)
              ⟨st.loopIndex + 1, st.size + 1, storeTo st.buf (b.fifo (off + x)).2 (dest x)⟩
              (log ++ [.read (fifoReg base tpmFifoRegDataFifo) (dest x) (b.fifo (off + x)).1
                (b.fifo (off + x)).2]) := by
            refine ⟨?_, ?_, stored_read ht _ _ _ h.log, ?_, ?_⟩
            · rw [h.index]
              rfl
            · change st.size + 1 = ((x + 1 : Nat) : Int) + off
              rw [h.size]
              omega
            · rw [ht.store]
              exact h.received.store
            · exact Nat.forall_lt_succ_right.mpr ⟨h.ok, hok⟩
          rw [if_neg herr]
          refine (ih (x + 1) _ _ hxl hat).imp ?_
          rintro r w ⟨y, m, hy, hdone, hfail⟩
          refine ⟨y, m, hy, fun hc => ?_, fun hc => ?_⟩
          · obtain ⟨hm, hmin, hasked⟩ := hdone hc
            exact ⟨hm, by omega, hasked⟩
          · obtain ⟨hm, hxy, hyl, hyc, hnot⟩ := hfail hc
            exact ⟨hm, by omega, hyl, by omega, hnot⟩
      · rw [if_neg hlt]
        rw [h.index] at hlt
        exact ⟨x, x, h, fun _ => ⟨rfl, by omega, rfl⟩, fun hlt => absurd hlt (lt_irrefl 0)⟩

/-- How a receive pass ends that has started at `n` with the burst `first`. -/
structure Passed (b : Behaviour) (dest : Nat → Dest) (off limit first : Nat) (pre : List Dest)
    (n : Asked) (y m : Nat) (r : Int × ReadState) (w : Asked × List Access) : Prop where
  stored : At b dest off pre y m r.2 w.2
  asks : ∀ z < m, b.Asks off limit first z
  unasked : r.1 < 0 → ¬ b.Asks off limit first m
  failed : r.1 < 0 → y < limit ∧ ¬ b.Reads off limit first y
  faulty : r.1 < 0 → ∃ i, ¬ b.BurstOk i ∨ ¬ b.FifoOk i
  done : 0 ≤ r.1 → m = y ∧ ∃ k, (∀ i < k, b.carried first i + off < limit) ∧
    (∀ i < k, b.BurstOk (first + i)) ∧ y = min limit (b.carried first k) ∧ limit ≤ y + off ∧
    w.1 = { n with burstLo := first + k, burstHi := first + k, fifo := off + y }

theorem Passed.lt {n : Asked} {y m z : Nat} {r : Int × ReadState} {w : Asked × List Access}
    (h : Passed b dest off limit first pre n y m r w) (hz : b.Asks off limit first z) : z < m := by
  by_contra hle
  by_cases herr : r.1 < 0
  · exact h.unasked herr (hz.le (not_lt.mp hle))
  · obtain ⟨rfl, k, -, -, hy, hfull, -⟩ := h.done (not_lt.mp herr)
    obtain ⟨i, hi, hlimit, hcarried, -, -⟩ := hz
    by_cases hik : i < k
    · have hmono : b.carried first (i + 1) ≤ b.carried first k := carried_mono hik
      omega
    · have hmono : b.carried first k ≤ b.carried first i := carried_mono (not_lt.mp hik)
      omega

theorem le_carried (hburst : ∀ i, b.BurstOk i → 0 < b.burst i) {k : Nat}
    (h : ∀ i < k, b.BurstOk (first + i)) : k ≤ b.carried first k := by
  induction k with
  | zero => exact Nat.zero_le _
  | succ k ih =>
      have hk := ih fun i hi => h i (by omega)
      have hpos := hburst _ (h k (Nat.lt_succ_self k))
      change k + 1 ≤ b.carried first k + b.burst (first + k)
      omega

theorem At.passed {n : Asked} {k : Nat} {st : ReadState} {log : List Access}
    (h : At b dest off pre (min limit (b.carried first k)) (min limit (b.carried first k)) st log)
    (hprev : ∀ i < k, b.carried first i + off < limit) (hok : ∀ i < k, b.BurstOk (first + i))
    (hasks : ∀ z < min limit (b.carried first k), b.Asks off limit first z)
    (hge : ¬ st.size < limit) :
    Passed b dest off limit first pre n (min limit (b.carried first k)) (min limit (b.carried first k))
      (tpmSuccess, st)
      ({ n with burstLo := first + k, burstHi := first + k, fifo := off + min limit (b.carried first k) },
        log) := by
  rw [h.size] at hge
  exact ⟨h, hasks, fun hlt => absurd hlt (lt_irrefl 0), fun hlt => absurd hlt (lt_irrefl 0),
    fun hlt => absurd hlt (lt_irrefl 0), fun _ => ⟨rfl, k, hprev, hok, rfl, by omega, rfl⟩⟩

theorem Passed.burstFault {n : Asked} {y : Nat} {r : Int × ReadState} {w : Asked × List Access}
    (herr : r.1 < 0) (hat : At b dest off pre y y r.2 w.2)
    (hasks : ∀ z < y, b.Asks off limit first z) (hlt : y < limit) (hnot : ¬ b.Asks off limit first y)
    (hfault : ∃ i, ¬ b.BurstOk i) : Passed b dest off limit first pre n y y r w :=
  ⟨hat, hasks, fun _ => hnot, fun _ => ⟨hlt, fun hreads => hnot hreads.1⟩,
    fun _ => hfault.imp fun _ => .inl, fun hge => absurd herr (not_lt.mpr hge)⟩

theorem Passed.fifoFault {n : Asked} {y : Nat} {r : Int × ReadState} {w : Asked × List Access}
    (herr : r.1 < 0) (hat : At b dest off pre y (y + 1) r.2 w.2)
    (hasks : ∀ z < y + 1, b.Asks off limit first z) (hlt : y < limit) (hfault : (b.fifo (off + y)).1 < 0) :
    Passed b dest off limit first pre n y (y + 1) r w := by
  have hnot : ¬ b.FifoOk (off + (y + 1)) := fun hok => absurd hfault (not_lt.mpr (hok _ (Nat.lt_succ_self _)))
  refine ⟨hat, hasks, ?_, fun _ => ⟨hlt, fun hreads => absurd hfault (not_lt.mpr hreads.2)⟩,
    fun _ => ⟨_, .inr hnot⟩, fun hge => absurd herr (not_lt.mpr hge)⟩
  rintro - ⟨-, -, -, -, -, hok⟩
  exact hnot hok

theorem not_asks_burst {k : Nat} (hnot : ¬ b.BurstOk (first + k)) :
    ¬ b.Asks off limit first (b.carried first k) := by
  rintro ⟨i, -, -, hi, hbursts, -⟩
  have hik : k ≤ i := by
    by_contra hki
    have hmono : b.carried first (i + 1) ≤ b.carried first k := carried_mono (by omega)
    exact absurd hi (not_lt.mpr hmono)
  exact hnot (hbursts k hik)

theorem asks_burst {k y : Nat} (hcarried : b.carried first k + off < limit)
    (hbursts : ∀ i ≤ k, b.BurstOk (first + i)) (hfifo : b.FifoOk (off + y))
    (hasks : ∀ z < b.carried first k, b.Asks off limit first z) {z : Nat} (hzy : z ≤ y) (hzl : z < limit)
    (hzk : z < b.carried first (k + 1)) : b.Asks off limit first z := by
  by_cases hz : z < b.carried first k
  · exact hasks z hz
  · exact ⟨k, hcarried, hzl, hzk, hbursts, fun i hi => hfifo i (by omega)⟩

theorem readLoop_reads (ht : Target dest off) (hburst : ∀ i, b.BurstOk i → 0 < b.burst i)
    {base : UInt16} {chip : ChipData} (hbase : base = localityStartAddress chip.locality) {n : Asked}
    (fuel m k : Nat) (hm : m ≤ fuel) (st : ReadState) (log : List Access)
    (h : At b dest off pre (min limit (b.carried first k)) (min limit (b.carried first k)) st log)
    (hprev : ∀ i < k, b.carried first i + off < limit) (hok : ∀ i < k, b.BurstOk (first + i))
    (hasks : ∀ z < min limit (b.carried first k), b.Asks off limit first z) :
    Meets (readLoop (b.port base).recorded fuel chip base dest limit m st)
      ({ n with burstLo := first + k, burstHi := first + k, fifo := off + min limit (b.carried first k) },
        log)
      (fun r w => ∃ y m, Passed b dest off limit first pre n y m r w)
      (fun w => ∃ y, stored w.2 = pre ++ (List.range y).map dest ∧
        (∀ z < y, b.Asks off limit first z) ∧ m + k < limit) := by
  induction m generalizing k st log with
  | zero =>
      rw [readLoop]
      by_cases hlt : st.size < limit
      · have hk := le_carried hburst hok
        rw [if_pos hlt]
        rw [h.size] at hlt
        exact ⟨_, h.log, hasks, by omega⟩
      · rw [if_neg hlt]
        exact ⟨_, _, h.passed hprev hok hasks hlt⟩
  | succ m ih =>
      rw [readLoop]
      by_cases hlt : st.size < limit
      swap
      · rw [if_neg hlt]
        exact ⟨_, _, h.passed hprev hok hasks hlt⟩
      rw [if_pos hlt, meets_bind]
      rw [h.size] at hlt
      have hmin : min limit (b.carried first k) = b.carried first k := by omega
      have hcarried : b.carried first k + off < limit := by omega
      rw [hmin] at h hasks ⊢
      refine Meets.mono (getBurstcount_fetches hburst hbase fuel (first + k) rfl rfl) ?_ ?_
      swap
      · rintro w ⟨-, rfl⟩
        exact absurd hm (Nat.not_succ_le_zero m)
      rintro ⟨err, count⟩ ⟨n', log'⟩ ⟨hlog, hgood, hbad⟩
      dsimp only at hlog hgood hbad ⊢
      have hat : At b dest off pre (b.carried first k) (b.carried first k) st log' :=
        ⟨h.index, h.size, hlog.trans h.log, h.received, h.ok⟩
      by_cases herr : err < 0
      · rw [if_pos herr]
        obtain ⟨hnot, -⟩ := hbad herr
        exact ⟨_, _, .burstFault herr hat hasks (by omega) (not_asks_burst hnot) ⟨first + k, hnot⟩⟩
      obtain ⟨hbok, hcount, rfl⟩ := hgood (not_lt.mp herr)
      rw [if_neg herr, meets_bind, hcount]
      have hok' : ∀ i < k + 1, b.BurstOk (first + i) := Nat.forall_lt_succ_right.mpr ⟨hok, hbok⟩
      have hbursts : ∀ i ≤ k, b.BurstOk (first + i) := fun i hi => hok' i (Nat.lt_succ_of_le hi)
      have hnext : b.carried first (k + 1) = b.carried first k + b.burst (first + k) := rfl
      have hle : b.carried first k ≤ limit := by omega
      refine Meets.mono (readBurst_reads ht
        (n := { n with burstLo := first + (k + 1), burstHi := first + (k + 1) })
        (b.burst (first + k)) (b.carried first k) st log' hle hat) ?_ (fun _ hc => False.elim hc)
      rintro ⟨err, st⟩ ⟨n', log⟩ ⟨y, m, hy, hgood, hbad⟩
      dsimp only at hy hgood hbad ⊢
      by_cases herr : err < 0
      · obtain ⟨rfl, -, hyl, hyk, hfault⟩ := hbad herr
        rw [if_pos herr]
        refine ⟨y, y + 1, .fifoFault herr hy (fun z hz => ?_) hyl hfault⟩
        exact asks_burst hcarried hbursts hy.ok hasks (by omega) (by omega) (by omega)
      · obtain ⟨rfl, rfl, rfl⟩ := hgood (not_lt.mp herr)
        rw [if_neg herr]
        have hasks' : ∀ z < min limit (b.carried first (k + 1)), b.Asks off limit first z := fun z hz =>
          asks_burst hcarried hbursts hy.ok hasks (Nat.le_of_lt hz) (by omega) (by omega)
        refine (ih (k + 1) (by omega) st log hy (Nat.forall_lt_succ_right.mpr ⟨hprev, hcarried⟩) hok' hasks').mono
          (fun _ _ h => h) ?_
        rintro w ⟨y, hlog, hall, hfuel⟩
        exact ⟨y, hlog, hall, by omega⟩

theorem readLoop_starts (ht : Target dest off) (hburst : ∀ i, b.BurstOk i → 0 < b.burst i)
    {base : UInt16} {chip : ChipData} (hbase : base = localityStartAddress chip.locality) {n : Asked}
    (hlo : n.burstLo = first) (hhi : n.burstHi = first) (hfifo : n.fifo = off) (fuel : Nat)
    (st : ReadState) (log : List Access) (h : At b dest off pre 0 0 st log) :
    Meets (readLoop (b.port base).recorded fuel chip base dest limit fuel st) (n, log)
      (fun r w => ∃ y m, Passed b dest off limit first pre n y m r w)
      (fun w => ∃ y, stored w.2 = pre ++ (List.range y).map dest ∧
        (∀ z < y, b.Asks off limit first z) ∧ fuel < limit) := by
  have hzero : min limit (b.carried first 0) = 0 := Nat.min_zero limit
  have hn : ({ n with
      burstLo := first + 0, burstHi := first + 0
      fifo := off + min limit (b.carried first 0) } : Asked) = n := by
    rw [hzero, ← hfifo]
    cases n
    cases hlo
    cases hhi
    rfl
  have hloop := readLoop_reads ht hburst hbase (n := n) fuel fuel 0 (Nat.le_refl fuel)
    st log (by rwa [hzero]) (fun i hi => absurd hi (Nat.not_lt_zero i))
    (fun i hi => absurd hi (Nat.not_lt_zero i))
    (fun z hz => absurd hz (by rw [hzero]; exact Nat.not_lt_zero z))
  rwa [hn] at hloop

theorem readData_reads {expected : Int} (ht : Target (readDest expected) off)
    (hlimit : (if expected = tpmReadHeader then (tpmHeaderSize : Int) else expected) = limit)
    (hindex : (if expected = tpmReadHeader then (off : Int) else off - tpmHeaderSize) = 0)
    (hburst : ∀ i, b.BurstOk i → 0 < b.burst i) (chip : ChipData) (n : Asked) (hlo : n.burstLo = first)
    (hhi : n.burstHi = first) (hfifo : n.fifo = off) (buf : TpmCmd) (hbuf : Received b buf off)
    (hok : b.FifoOk off) (fuel : Nat) (log : List Access) :
    Meets (tpm2FifoReadData (b.port (localityStartAddress chip.locality)).recorded fuel chip buf
        (localityStartAddress chip.locality) off expected) (n, log)
      (fun r w => (r.1 < 0 ∧ stored w.2 = stored log ∧ ∀ p, ¬ b.Avail n.status n.timer p) ∨
        ∃ p y m st, b.Avail n.status n.timer p ∧ r.2 = (st.size, st.buf) ∧
          Passed b (readDest expected) off limit first (stored log)
            { n with status := n.status + p + 1, timer := n.timer + p } y m (r.1, st) w)
      (fun w => ∃ y, stored w.2 = stored log ++ (List.range y).map (readDest expected) ∧
        (∀ z < y, b.Asks off limit first z) ∧ (y ≠ 0 → ∃ p, b.Avail n.status n.timer p) ∧
        ∀ p, b.Avail n.status n.timer p → fuel ≤ p ∨ fuel < limit) := by
  unfold tpm2FifoReadData
  dsimp only
  rw [hlimit, hindex, meets_bind]
  refine Meets.mono (waitAvail_waits chip.timeouts.msecC fuel) ?_ ?_
  · rintro ⟨err, status⟩ ⟨n', log'⟩ ⟨hlog, hgood, hbad⟩
    dsimp only at hlog hgood hbad ⊢
    by_cases herr : err < 0
    · rw [if_pos herr]
      exact .inl ⟨herr, hlog, hbad herr⟩
    · obtain ⟨p, hp, rfl⟩ := hgood (not_lt.mp herr)
      rw [if_neg herr, meets_bind]
      have hat : At b (readDest expected) off (stored log) 0 0 ⟨0, off, buf⟩ log' :=
        ⟨rfl, (Int.zero_add _).symm, hlog.trans (List.append_nil _).symm, hbuf, hok⟩
      refine Meets.mono (readLoop_starts
        (n := { n with status := n.status + p + 1, timer := n.timer + p }) ht hburst rfl hlo hhi hfifo fuel
        ⟨0, off, buf⟩ log' hat) ?_ ?_
      · rintro ⟨err, st⟩ w ⟨y, m, hy⟩
        exact .inr ⟨p, y, m, st, hp, rfl, hy⟩
      · rintro w ⟨y, hlog, hasks, hfuel⟩
        exact ⟨y, hlog, hasks, fun _ => ⟨p, hp⟩, fun _ _ => .inr hfuel⟩
  · rintro w ⟨hlog, hp⟩
    refine ⟨0, ?_, fun z hz => absurd hz (Nat.not_lt_zero z), fun h => absurd rfl h,
      fun p h => .inl (hp p h)⟩
    rw [hlog]
    exact (List.append_nil _).symm

end Pass

end LibTpm.ReceiveRuns
