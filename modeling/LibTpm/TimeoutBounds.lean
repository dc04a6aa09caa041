import LibTpm.PollRounds
import LibTpm.PosixTimer

namespace LibTpm.TimeoutBounds

open LibTpm.Base.Process LibTpm.Base.Process.Proc LibTpm.Constants LibTpm.Platform LibTpm.Fifo LibTpm.PollRounds
open LibTpm.PosixTimer

variable {W α β : Type}

def rounds (reads : β → List Observation) (failed : List (β × UInt64)) : List Observation :=
  failed.flatMap fun r => reads r.1 ++ [.clock r.2]

/-- Every poll failed, and the last reading of the clock is at least `us`
microseconds after the first. -/
def TimedOut (reads : β → List Observation) (ready : β → Prop) (us : Nat) (log : List Observation) : Prop :=
  ∃ start failed b last, log = .clock start :: rounds reads (failed ++ [(b, last)]) ∧
    (∀ r ∈ failed ++ [(b, last)], ¬ ready r.1) ∧ start.toNat + us ≤ last.toNat

/-- The last poll is the first that did not fail, and it has read `b`. -/
def Succeeded (reads : β → List Observation) (ready : β → Prop) (b : β) (log : List Observation) : Prop :=
  ∃ start failed, log = .clock start :: (rounds reads failed ++ reads b) ∧ (∀ r ∈ failed, ¬ ready r.1) ∧ ready b

section Loop

/-- How a loop of polls ends, after those in `failed`: with `accept` when a poll
is ready, or with `expire` when the timer says that `delay` is over. -/
def Ends (reads : β → List Observation) (ready : β → Prop) (delay : UInt64) (accept expire : β → α)
    (log : List Observation) (a : α) (log' : List Observation) : Prop :=
  ∃ failed, (∀ r ∈ failed, ¬ ready r.1) ∧
    ((∃ b, ready b ∧ a = accept b ∧ log' = log ++ (rounds reads failed ++ reads b)) ∨
      ∃ b last, ¬ ready b ∧ delay ≤ last ∧ a = expire b ∧ log' = log ++ rounds reads (failed ++ [(b, last)]))

variable {reads : β → List Observation} {ready : β → Prop} {delay : UInt64} {accept expire : β → α}
  {log : List Observation}

structure Failed (reads : β → List Observation) (ready : β → Prop) (log : List Observation) (failed : List (β × UInt64))
    (log' : List Observation) : Prop where
  log : log' = log ++ rounds reads failed
  each : ∀ r ∈ failed, ¬ ready r.1

theorem rounds_snoc (failed : List (β × UInt64)) (b : β) (us : UInt64) :
    rounds reads (failed ++ [(b, us)]) = rounds reads failed ++ (reads b ++ [.clock us]) := by
  rw [rounds, rounds, List.flatMap_append, List.flatMap_singleton]

theorem Failed.snoc {failed : List (β × UInt64)} {log' log'' : List Observation} (h : Failed reads ready log failed log')
    {b : β} {us : UInt64} (hb : ¬ ready b) (hlog : log'' = log' ++ reads b ++ [.clock us]) :
    Failed reads ready log (failed ++ [(b, us)]) log'' := by
  refine ⟨?_, List.forall_mem_append.mpr ⟨h.each, List.forall_mem_singleton.mpr hb⟩⟩
  rw [hlog, h.log, rounds_snoc, List.append_assoc, List.append_assoc]

theorem Failed.accepts {failed : List (β × UInt64)} {log' log'' : List Observation}
    (h : Failed reads ready log failed log') {b : β} {a : α} (hb : ready b) (ha : a = accept b)
    (hlog : log'' = log' ++ reads b) : Ends reads ready delay accept expire log a log'' := by
  refine ⟨failed, h.each, .inl ⟨b, hb, ha, ?_⟩⟩
  rw [hlog, h.log, List.append_assoc]

theorem Failed.expires {failed : List (β × UInt64)} {log' log'' : List Observation}
    (h : Failed reads ready log failed log') {b : β} {us : UInt64} {a : α} (hb : ¬ ready b) (hus : delay ≤ us)
    (ha : a = expire b) (hlog : log'' = log' ++ reads b ++ [.clock us]) :
    Ends reads ready delay accept expire log a log'' :=
  ⟨failed, h.each, .inr ⟨b, us, hb, hus, ha, (h.snoc hb hlog).log⟩⟩

theorem toNat_deadline {start : UInt64} (usec : UInt32) (h : start.toNat + 2 ^ 32 ≤ 2 ^ 64) :
    (start + usec.toUInt64).toNat = start.toNat + usec.toNat := by
  have hlt := usec.toNat_lt
  rw [UInt64.toNat_add, UInt32.toNat_toUInt64, Nat.mod_eq_of_lt (by omega)]

theorem Ends.bounded {start : UInt64} {usec : UInt32} {a : α} {log : List Observation}
    (h : Ends reads ready (start + usec.toUInt64) accept expire [.clock start] a log) (hsteady : Steady log) :
    (∃ b, a = accept b ∧ Succeeded reads ready b log) ∨ ∃ b, a = expire b ∧ TimedOut reads ready usec.toNat log := by
  have hfar {tail : List Observation} (hlog : log = [.clock start] ++ tail) : start.toNat + 2 ^ 32 ≤ 2 ^ 64 := by
    apply hsteady.2
    rw [hlog]
    exact List.mem_cons_self
  obtain ⟨failed, hfailed, ⟨b, hb, ha, hlog⟩ | ⟨b, last, hb, hlast, ha, hlog⟩⟩ := h
  · exact .inl ⟨b, ha, start, failed, hlog, hfailed, hb⟩
  · refine .inr ⟨b, ha, start, failed, b, last, hlog, ?_, ?_⟩
    · exact List.forall_mem_append.mpr ⟨hfailed, List.forall_mem_singleton.mpr hb⟩
    · rw [← toNat_deadline usec (hfar hlog)]
      exact hlast

end Loop

def Answers (port : FifoPort W) : Prop := ∀ reg dst w, (port.readByte reg dst w).1.1 = tpmSuccess

section Waits

variable {port : FifoPort W} {clockGettime : StateM W Timespec}

def regPoll (reg : UInt16) (v : UInt8) : List Observation := [.read reg v]

def burstPoll (base : UInt16) (b : UInt8 × UInt8) : List Observation :=
  [.read (fifoReg base tpmFifoRegBurstCountLo) b.1, .read (fifoReg base tpmFifoRegBurstCountHi) b.2]

theorem answers_not_neg (h : Answers port) (reg : UInt16) (dst : Dest) (w : W) :
    ¬ (port.readByte reg dst w).1.1 < 0 := by
  rw [h reg dst w]
  decide

theorem observed_readByte (reg : UInt16) (dst : Dest) (w : W) (log : List Observation) :
    (observed clockGettime port).readByte reg dst (w, log) = ((port.readByte reg dst w).1,
      (port.readByte reg dst w).2, log ++ [.read reg (port.readByte reg dst w).1.2]) := rfl

theorem observed_timeoutInitUs (usec : UInt32) (w : W) (log : List Observation) :
    (observed clockGettime port).timeoutInitUs usec (w, log) = ((clockGettime w).1.us + usec.toUInt64,
      (clockGettime w).2, log ++ [.clock (clockGettime w).1.us]) := rfl

theorem observed_timeoutElapsed (delay : UInt64) (w : W) (log : List Observation) :
    (observed clockGettime port).timeoutElapsed delay (w, log) = (decide (delay ≤ (clockGettime w).1.us),
      (clockGettime w).2, log ++ [.clock (clockGettime w).1.us]) := rfl

theorem observed_read (h : Answers port) {reg : UInt16} {dst : Dest} {err : Int} {v : UInt8}
    {s s' : W × List Observation} (hread : (observed clockGettime port).readByte reg dst s = ((err, v), s')) :
    ¬ err < 0 ∧ s'.2 = s.2 ++ [.read reg v] := by
  have hok := answers_not_neg h reg dst s.1
  obtain ⟨w, log⟩ := s
  rw [observed_readByte] at hread
  obtain ⟨hval, hworld⟩ := Prod.mk.inj hread
  rw [hval] at hok hworld
  exact ⟨hok, by rw [← hworld]⟩

theorem observed_query {delay : UInt64} {elapsed : Bool} {s s' : W × List Observation}
    (htimer : (observed clockGettime port).timeoutElapsed delay s = (elapsed, s')) :
    ∃ us, elapsed = decide (delay ≤ us) ∧ s'.2 = s.2 ++ [.clock us] := by
  obtain ⟨w, log⟩ := s
  rw [observed_timeoutElapsed] at htimer
  obtain ⟨hval, hworld⟩ := Prod.mk.inj htimer
  exact ⟨_, hval.symm, by rw [← hworld]⟩

theorem waitLoop_ends (h : Answers port) (reg : UInt16) (set : UInt8) (delay : UInt64) (n : Nat) (w : W)
    (log : List Observation) :
    Meets (waitRegBitsLoop (observed clockGettime port) reg set delay n) (w, log)
      (fun r s => Ends (regPoll reg) (fun v => v &&& set = set) delay (fun v => (tpmSuccess, v))
        (fun v => (tpmErrTimeout, v)) log r s.2) (fun _ => True) := by
  refine waitRegBitsLoop_meets
    (I := fun _ s => ∃ failed, Failed (regPoll reg) (fun v => v &&& set = set) log failed s.2)
    (fun _ _ => trivial) ?_ ⟨[], (List.append_nil _).symm, fun _ hr => absurd hr List.not_mem_nil⟩
  rintro n s o s' ⟨failed, hfailed⟩ hround
  cases hround with
  | failed read neg => exact absurd neg (observed_read h read).1
  | found read ok bits => exact hfailed.accepts bits rfl (observed_read h read).2
  | expired read ok unset timer =>
      obtain ⟨us, helapsed, hlog⟩ := observed_query timer
      rw [(observed_read h read).2] at hlog
      exact hfailed.expires unset (of_decide_eq_true helapsed.symm) rfl hlog
  | vain read ok unset timer =>
      obtain ⟨us, -, hlog⟩ := observed_query timer
      rw [(observed_read h read).2] at hlog
      exact ⟨_, hfailed.snoc unset hlog⟩

theorem burstLoop_ends (h : Answers port) (base : UInt16) (delay : UInt64) (n : Nat) (w : W)
    (log : List Observation) :
    Meets (getBurstcountLoop (observed clockGettime port) base delay n) (w, log)
      (fun r s => Ends (burstPoll base) (fun b => burstcountOf b.1 b.2 ≠ 0) delay
        (fun b => (tpmSuccess, burstcountOf b.1 b.2)) (fun _ => (tpmErrTimeout, 0)) log r s.2) (fun _ => True) := by
  refine getBurstcountLoop_meets
    (I := fun _ s => ∃ failed, Failed (burstPoll base) (fun b => burstcountOf b.1 b.2 ≠ 0) log failed s.2)
    (fun _ _ => trivial) ?_ ⟨[], (List.append_nil _).symm, fun _ hr => absurd hr List.not_mem_nil⟩
  rintro n s o s' ⟨failed, hfailed⟩ hround
  have hpoll {err₀ err₁ : Int} {byte0 byte1 : UInt8} {s₁ s₂ : W × List Observation}
      (lo : (observed clockGettime port).readByte (fifoReg base tpmFifoRegBurstCountLo) .variable s = ((err₀, byte0), s₁))
      (hi : (observed clockGettime port).readByte (fifoReg base tpmFifoRegBurstCountHi) .variable s₁ = ((err₁, byte1), s₂)) :
      s₂.2 = s.2 ++ burstPoll base (byte0, byte1) := by
    rw [(observed_read h hi).2, (observed_read h lo).2, List.append_assoc]
    rfl
  cases hround with
  | failedLo lo neg => exact absurd neg (observed_read h lo).1
  | failedHi lo ok₀ hi neg => exact absurd neg (observed_read h hi).1
  | @found err₀ err₁ byte0 byte1 _ _ lo ok₀ hi ok₁ burst =>
      exact hfailed.accepts (b := (byte0, byte1)) burst rfl (hpoll lo hi)
  | @expired err₀ err₁ byte0 byte1 _ _ _ lo ok₀ hi ok₁ zero timer =>
      obtain ⟨us, helapsed, hlog⟩ := observed_query timer
      rw [hpoll lo hi] at hlog
      exact hfailed.expires (b := (byte0, byte1)) (not_not.mpr zero) (of_decide_eq_true helapsed.symm) rfl hlog
  | @vain err₀ err₁ byte0 byte1 _ _ _ lo ok₀ hi ok₁ zero timer =>
      obtain ⟨us, -, hlog⟩ := observed_query timer
      rw [hpoll lo hi] at hlog
      exact ⟨_, hfailed.snoc (b := (byte0, byte1)) (not_not.mpr zero) hlog⟩

theorem wait_bounded (h : Answers port) {fuel : Nat} {reg : UInt16} {set : UInt8} {timeout : UInt64} {w w' : W}
    {r : Int × UInt8} {log : List Observation}
    (hrun : tpm2WaitRegBits (observed clockGettime port) fuel reg set timeout (w, []) = (some r, w', log))
    (hsteady : Steady log) :
    r.1 = tpmSuccess ∧ Succeeded (regPoll reg) (fun v => v &&& set = set) r.2 log ∨
      r.1 = tpmErrTimeout ∧
        TimedOut (regPoll reg) (fun v => v &&& set = set) (timeout * 1000).toUInt32.toNat log := by
  rw [tpm2WaitRegBits, lift_bind, observed_timeoutInitUs] at hrun
  have hends := (waitLoop_ends h reg set _ fuel _ _).returned hrun
  rcases hends.bounded hsteady with ⟨b, rfl, hb⟩ | ⟨b, rfl, hlog⟩
  · exact .inl ⟨rfl, hb⟩
  · exact .inr ⟨rfl, hlog⟩

theorem burstcount_bounded (h : Answers port) {fuel : Nat} {chip : ChipData} {w w' : W} {r : Int × UInt16}
    {log : List Observation}
    (hrun : tpm2FifoGetBurstcount (observed clockGettime port) fuel chip (w, []) = (some r, w', log))
    (hsteady : Steady log) :
    (r.1 = tpmSuccess ∧ ∃ b, r.2 = burstcountOf b.1 b.2 ∧
      Succeeded (burstPoll (localityStartAddress chip.locality)) (fun b => burstcountOf b.1 b.2 ≠ 0) b log) ∨
      r.1 = tpmErrTimeout ∧ TimedOut (burstPoll (localityStartAddress chip.locality))
        (fun b => burstcountOf b.1 b.2 ≠ 0) (chip.timeouts.msecA * 1000).toUInt32.toNat log := by
  rw [tpm2FifoGetBurstcount, lift_bind, observed_timeoutInitUs] at hrun
  have hends := (burstLoop_ends h _ _ fuel _ _).returned hrun
  rcases hends.bounded hsteady with ⟨b, rfl, hb⟩ | ⟨b, rfl, hlog⟩
  · exact .inl ⟨rfl, b, rfl, hb⟩
  · exact .inr ⟨rfl, hlog⟩

end Waits

/-- A wait for register bits with the timeout `t` keeps its promise, over every
device whose accesses do not fail and every clock: it times out only after `t`
milliseconds of polls that failed, and succeeds only with its last poll. -/
def WaitsOut (t : UInt64) : Prop :=
  ∀ (W : Type) (port : FifoPort W) (clockGettime : StateM W Timespec) (fuel : Nat) (reg : UInt16) (set : UInt8)
    (w w' : W) (ret : Int) (status : UInt8) (log : List Observation), Answers port →
    tpm2WaitRegBits (observed clockGettime port) fuel reg set t (w, []) = (some (ret, status), w', log) →
    Steady log →
    (ret = tpmErrTimeout → TimedOut (regPoll reg) (fun v => v &&& set = set) (t.toNat * 1000) log) ∧
    (ret = tpmSuccess → Succeeded (regPoll reg) (fun v => v &&& set = set) status log)

/-- The same for the wait for a burst count, whose timeout is the first of the chip. -/
def BurstWaitsOut (t : UInt64) : Prop :=
  ∀ (W : Type) (port : FifoPort W) (clockGettime : StateM W Timespec) (fuel : Nat) (chip : ChipData) (w w' : W)
    (ret : Int) (burstcount : UInt16) (log : List Observation), Answers port → chip.timeouts.msecA = t →
    tpm2FifoGetBurstcount (observed clockGettime port) fuel chip (w, []) = (some (ret, burstcount), w', log) →
    Steady log →
    let base := localityStartAddress chip.locality
    (ret = tpmErrTimeout →
      TimedOut (burstPoll base) (fun b => burstcountOf b.1 b.2 ≠ 0) (t.toNat * 1000) log) ∧
    (ret = tpmSuccess → ∃ b, burstcount = burstcountOf b.1 b.2 ∧
      Succeeded (burstPoll base) (fun b => burstcountOf b.1 b.2 ≠ 0) b log)

/-- The largest number of milliseconds whose microseconds fit in 32 bits. -/
def longestTimeout : Nat := 4294967

theorem timeout_fits {t : UInt64} (h : t.toNat ≤ longestTimeout) : (t * 1000).toUInt32.toNat = t.toNat * 1000 := by
  have hmax : longestTimeout = 4294967 := rfl
  have h1000 : (1000 : UInt64).toNat = 1000 := rfl
  have hlt : t.toNat * 1000 < 2 ^ 32 := by omega
  have hlt' : t.toNat * 1000 < 2 ^ 64 := by omega
  rw [UInt64.toNat_toUInt32, UInt64.toNat_mul, h1000, Nat.mod_eq_of_lt hlt', Nat.mod_eq_of_lt hlt]

theorem success_ne_timeout : tpmSuccess ≠ tpmErrTimeout := by decide

theorem waitsOut_of_fits {t : UInt64} (h : t.toNat ≤ longestTimeout) : WaitsOut t := by
  intro W port clockGettime fuel reg set w w' ret status log hport hrun hsteady
  rcases wait_bounded hport hrun hsteady with ⟨hret, hb⟩ | ⟨hret, hlog⟩
  · exact ⟨fun h => absurd (hret.symm.trans h) success_ne_timeout, fun _ => hb⟩
  · rw [timeout_fits h] at hlog
    exact ⟨fun _ => hlog, fun h => absurd (h.symm.trans hret) success_ne_timeout⟩

theorem burstWaitsOut_of_fits {t : UInt64} (h : t.toNat ≤ longestTimeout) : BurstWaitsOut t := by
  intro W port clockGettime fuel chip w w' ret burstcount log hport ht hrun hsteady
  subst ht
  rcases burstcount_bounded hport hrun hsteady with ⟨hret, hb⟩ | ⟨hret, hlog⟩
  · exact ⟨fun h => absurd (hret.symm.trans h) success_ne_timeout, fun _ => hb⟩
  · rw [timeout_fits h] at hlog
    exact ⟨fun _ => hlog, fun h => absurd (h.symm.trans hret) success_ne_timeout⟩

/-- A device whose registers are zero. Its world is the number of readings of the clock. -/
def quietPort : FifoPort Nat where
  timeoutInitUs _ := pure 0
  timeoutElapsed _ := pure false
  writeByte _ _ := pure 0
  readByte _ _ := pure (0, 0)
  readChunk _ len := pure (0, Vector.replicate len.toNat 0)

def jumpingClock (usec : UInt32) : StateM Nat Timespec := fun n =>
  (timespecOf (if n = 0 then 0 else usec.toNat), n + 1)

theorem quietPort_answers : Answers quietPort := fun _ _ _ => rfl

theorem jumpingClock_zero (usec : UInt32) : (jumpingClock usec 0).1.us = 0 := us_timespecOf 0

theorem jumpingClock_one (usec : UInt32) : (jumpingClock usec 1).1.us = usec.toUInt64 := by
  rw [jumpingClock, us_timespecOf, if_neg (by decide)]
  exact UInt64.toNat_inj.mp (UInt64.toNat_ofNat_of_lt' (Nat.lt_trans usec.toNat_lt (by decide)))

def jumpLog (poll : List Observation) (usec : UInt32) : List Observation :=
  .clock 0 :: (poll ++ [.clock usec.toUInt64])

theorem not_neg_quietPort (reg : UInt16) (n : Nat) : ¬ (quietPort.readByte reg .variable n).1.1 < 0 :=
  answers_not_neg quietPort_answers reg .variable n

theorem elapsed_jumpingClock (usec : UInt32) : decide (0 + usec.toUInt64 ≤ (jumpingClock usec 1).1.us) = true := by
  rw [jumpingClock_one, UInt64.zero_add]
  exact decide_eq_true (UInt64.le_refl _)

theorem wait_jumping (t : UInt64) :
    tpm2WaitRegBits (observed (jumpingClock (t * 1000).toUInt32) quietPort) 1 0 tpmAccessActiveLocality t (0, []) =
      (some (tpmErrTimeout, 0), 2, jumpLog (regPoll 0 0) (t * 1000).toUInt32) := by
  generalize husec : (t * 1000).toUInt32 = usec
  have hfail : ¬ (quietPort.readByte 0 .variable 1).1.2 &&& tpmAccessActiveLocality = tpmAccessActiveLocality := by
    decide
  have hworld : (jumpingClock usec 0).2 = 1 := rfl
  have hpoll : (quietPort.readByte 0 .variable 1).2 = 1 := rfl
  rw [tpm2WaitRegBits, husec, lift_bind, observed_timeoutInitUs, jumpingClock_zero, hworld, waitRegBitsLoop, lift_bind,
    observed_readByte]
  dsimp only
  rw [if_neg (not_neg_quietPort 0 1), if_neg hfail, lift_bind, observed_timeoutElapsed, hpoll,
    elapsed_jumpingClock, jumpingClock_one]
  rfl

theorem burstcount_jumping (chip : ChipData) :
    tpm2FifoGetBurstcount (observed (jumpingClock (chip.timeouts.msecA * 1000).toUInt32) quietPort) 1 chip (0, []) =
      (some (tpmErrTimeout, 0), 2, jumpLog (burstPoll (localityStartAddress chip.locality) (0, 0))
        (chip.timeouts.msecA * 1000).toUInt32) := by
  generalize husec : (chip.timeouts.msecA * 1000).toUInt32 = usec
  generalize hbase : localityStartAddress chip.locality = base
  have hfail (lo hi : UInt16) : ¬ burstcountOf (quietPort.readByte lo .variable 1).1.2
      (quietPort.readByte hi .variable 1).1.2 ≠ 0 := not_not.mpr rfl
  have hworld : (jumpingClock usec 0).2 = 1 := rfl
  have hpoll (reg : UInt16) : (quietPort.readByte reg .variable 1).2 = 1 := rfl
  rw [tpm2FifoGetBurstcount, husec, hbase, lift_bind, observed_timeoutInitUs, jumpingClock_zero, hworld,
    getBurstcountLoop, lift_bind, observed_readByte]
  dsimp only
  rw [if_neg (not_neg_quietPort _ 1), hpoll, lift_bind, observed_readByte]
  dsimp only
  rw [if_neg (not_neg_quietPort _ 1), if_neg (hfail _ _), lift_bind, observed_timeoutElapsed, hpoll,
    elapsed_jumpingClock, jumpingClock_one]
  rfl

theorem jumpLog_steady {poll : List Observation} (hpoll : clocks poll = []) (usec : UInt32) :
    Steady (jumpLog poll usec) := by
  have hclocks : clocks (jumpLog poll usec) = [0, usec.toUInt64] := by
    rw [jumpLog, clocks_clock, clocks_append, hpoll]
    rfl
  have hlt := usec.toNat_lt
  constructor
  · rw [hclocks, List.pairwise_pair]
    exact UInt64.zero_le
  · rw [hclocks]
    simp only [List.forall_mem_cons, UInt32.toNat_toUInt64]
    refine ⟨by decide, by omega, fun us hus => absurd hus List.not_mem_nil⟩

theorem not_timedOut_jumpLog {reads : β → List Observation} {ready : β → Prop} {us : Nat}
    {poll : List Observation} {usec : UInt32} (h : usec.toNat < us) :
    ¬ TimedOut reads ready us (jumpLog poll usec) := by
  rintro ⟨start, failed, b, last, hlog, -, hle⟩
  have hlast := congrArg List.getLast? hlog
  rw [jumpLog, ← List.cons_append, List.getLast?_concat, rounds, List.flatMap_append, List.flatMap_singleton,
    ← List.append_assoc, ← List.cons_append, List.getLast?_concat] at hlast
  have hlast : usec.toUInt64 = last := Observation.clock.inj (Option.some.inj hlast)
  rw [← hlast, UInt32.toNat_toUInt64] at hle
  omega

theorem lt_of_not_fits {t : UInt64} (h : ¬ t.toNat ≤ longestTimeout) : (t * 1000).toUInt32.toNat < t.toNat * 1000 := by
  have hmax : longestTimeout = 4294967 := rfl
  have hlt := (t * 1000).toUInt32.toNat_lt
  omega

theorem not_waitsOut {t : UInt64} (h : ¬ t.toNat ≤ longestTimeout) : ¬ WaitsOut t := by
  intro hall
  have hrun := hall Nat quietPort _ 1 _ _ 0 2 _ _ _ quietPort_answers (wait_jumping t) (jumpLog_steady rfl _)
  exact not_timedOut_jumpLog (lt_of_not_fits h) (hrun.1 rfl)

theorem not_burstWaitsOut {t : UInt64} (h : ¬ t.toNat ≤ longestTimeout) : ¬ BurstWaitsOut t := by
  intro hall
  have hrun := hall Nat quietPort _ 1 ⟨0, t, 0, 0, 0⟩ 0 2 _ _ _ quietPort_answers rfl (burstcount_jumping _)
    (jumpLog_steady rfl _)
  exact not_timedOut_jumpLog (lt_of_not_fits h) (hrun.1 rfl)

/-- The two waits keep their promise for exactly the timeouts whose
microseconds fit the 32-bit parameter of the timer. -/
theorem waits_out_iff (t : UInt64) :
    (WaitsOut t ↔ t.toNat ≤ longestTimeout) ∧ (BurstWaitsOut t ↔ t.toNat ≤ longestTimeout) :=
  ⟨⟨not_imp_not.mp not_waitsOut, waitsOut_of_fits⟩, ⟨not_imp_not.mp not_burstWaitsOut, burstWaitsOut_of_fits⟩⟩

example : [tpmTimeouts.msecA, tpmTimeouts.msecB, tpmTimeouts.msecC, tpmTimeouts.msecD].all
    (fun t => t.toNat ≤ longestTimeout) := by decide

/-- A timeout of 4294968 ms is over after 704 microseconds. -/
theorem early_timeout :
    tpm2WaitRegBits (observed (jumpingClock 704) quietPort) 1 0 tpmAccessActiveLocality 4294968 (0, []) =
      (some (tpmErrTimeout, 0), 2, [.clock 0, .read 0 0, .clock 704]) ∧
    ¬ WaitsOut 4294968 ∧ ¬ BurstWaitsOut 4294968 :=
  ⟨wait_jumping 4294968, not_waitsOut (by decide), not_burstWaitsOut (by decide)⟩

end LibTpm.TimeoutBounds
