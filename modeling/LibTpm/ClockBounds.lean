import LibTpm.CallBounds
import LibTpm.TimeoutBounds

namespace LibTpm.ClockBounds

open LibTpm.Base.Process LibTpm.Base.Process.Proc LibTpm.Base.Progress LibTpm.Base.Simulation LibTpm.Base.Cost
open LibTpm.Base.Clients LibTpm.Constants LibTpm.Command LibTpm.Endian LibTpm.Platform LibTpm.Fifo LibTpm.PosixTimer
open LibTpm.Library LibTpm.PublicCalls LibTpm.CallOutcomes LibTpm.AccessBounds LibTpm.PortSimulation
open LibTpm.CommandSimulation LibTpm.CallBounds LibTpm.TimeoutBounds LibTpm.WireRefinement

variable {W : Type} {clockGettime : StateM W Timespec} {port : FifoPort W} {now : W → UInt64} {stalls : W → Nat}
  {s : Nat}

def timed (clockGettime : StateM W Timespec) (port : FifoPort W) : FifoPort W :=
  { port with toTimeoutOps := tpmLibTimeoutOps clockGettime }

/-- Time goes on, or has gone on by less than a microsecond once more. -/
def Passes (now : W → UInt64) (stalls : W → Nat) (n : Nat) (w w' : W) : Prop :=
  now w < now w' ∨ now w = now w' ∧ stalls w + n ≤ stalls w'

/-- A clock that goes on by a microsecond in `s` readings at the latest, until
the end of its range. -/
structure Running (clockGettime : StateM W Timespec) (now : W → UInt64) (stalls : W → Nat) (s : Nat) : Prop where
  stalls_lt (w : W) : stalls w < s
  reads {w w' : W} {ts : Timespec} : clockGettime w = (ts, w') → now w ≤ ts.us ∧ ts.us ≤ now w' ∧
    (Passes now stalls 1 w w' ∨ now w = .ofNat (2 ^ 64 - 1) ∧ now w' = now w)

/-- Such a clock, and registers that do not turn it back. -/
structure Advances (clockGettime : StateM W Timespec) (port : FifoPort W) (now : W → UInt64) (stalls : W → Nat)
    (s : Nat) : Prop extends Running clockGettime now stalls s where
  writeByte (reg : UInt16) (val : UInt8) (w : W) : Passes now stalls 0 w (port.writeByte reg val w).2
  readByte (reg : UInt16) (dst : Dest) (w : W) : Passes now stalls 0 w (port.readByte reg dst w).2
  readChunk (reg : UInt16) (len : UInt8) (w : W) : Passes now stalls 0 w (port.readChunk reg len w).2

/-- The readings that are left before the clock has come to the expiry time. -/
def rank (now : W → UInt64) (stalls : W → Nat) (s : Nat) (expiry : UInt64) (w : W) : Nat :=
  (expiry.toNat - (now w).toNat) * s - stalls w

section Rank

variable {expiry : UInt64} {w w' : W}

theorem rank_passes {n : Nat} (hn : n ≤ 1) (hs : ∀ w, stalls w < s) (h : Passes now stalls n w w') :
    rank now stalls s expiry w' ≤ rank now stalls s expiry w - n := by
  have hlt := hs w
  unfold rank
  rcases h with hnow | ⟨hnow, hstalls⟩
  · have hnow : (now w).toNat < (now w').toNat := UInt64.lt_iff_toNat_lt.mp hnow
    have hfewer : expiry.toNat - (now w').toNat ≤ expiry.toNat - (now w).toNat - 1 := by omega
    have hmul := Nat.mul_le_mul_right s hfewer
    rw [Nat.sub_one_mul] at hmul
    omega
  · rw [← hnow]
    omega

theorem rank_init (hs : ∀ w, stalls w < s) {us : UInt64} (h : us ≤ now w) (usec : UInt32) :
    rank now stalls s (us + usec.toUInt64) w < 2 ^ 32 * s := by
  have hpos : 0 < s := Nat.zero_lt_of_lt (hs w)
  have hle : us.toNat ≤ (now w).toNat := UInt64.le_iff_toNat_le.mp h
  have hsum : (us + usec.toUInt64).toNat ≤ us.toNat + usec.toNat := by
    rw [UInt64.toNat_add, UInt32.toNat_toUInt64]
    exact Nat.mod_le _ _
  have hspan : (us + usec.toUInt64).toNat - (now w).toNat < 2 ^ 32 := by
    have hlt := usec.toNat_lt
    omega
  exact Nat.lt_of_le_of_lt (Nat.sub_le _ _) (Nat.mul_lt_mul_of_pos_right hspan hpos)

theorem rank_read (h : Running clockGettime now stalls s) {ts : Timespec} (hread : clockGettime w = (ts, w')) :
    rank now stalls s expiry w' ≤ rank now stalls s expiry w := by
  obtain ⟨-, -, hpasses | ⟨hlast, hsame⟩⟩ := h.reads hread
  · exact Nat.le_trans (rank_passes (Nat.le_refl 1) h.stalls_lt hpasses) (Nat.sub_le _ _)
  · have hnone : expiry.toNat - (now w').toNat = 0 := by
      have hlt := expiry.toNat_lt
      rw [hsame, hlast]
      exact Nat.sub_eq_zero_of_le (Nat.le_of_lt_succ hlt)
    rw [rank, hnone, Nat.zero_mul, Nat.zero_sub]
    exact Nat.zero_le _

theorem rank_vain (h : Running clockGettime now stalls s) {ts : Timespec} (hread : clockGettime w = (ts, w'))
    (hvain : ¬ ts.us ≥ expiry) : rank now stalls s expiry w' + 1 ≤ rank now stalls s expiry w := by
  obtain ⟨hnow, -, hpasses | ⟨hlast, -⟩⟩ := h.reads hread
  · have hbefore : (now w).toNat < expiry.toNat :=
      UInt64.lt_iff_toNat_lt.mp (UInt64.lt_of_le_of_lt hnow (UInt64.not_le.mp hvain))
    have hrank : rank now stalls s expiry w' ≤ rank now stalls s expiry w - 1 :=
      rank_passes (Nat.le_refl 1) h.stalls_lt hpasses
    have hleft : 1 * s ≤ (expiry.toNat - (now w).toNat) * s := Nat.mul_le_mul_right s (by omega)
    have hpos : 0 < rank now stalls s expiry w := by
      have hlt := h.stalls_lt w
      rw [rank]
      omega
    omega
  · refine absurd (UInt64.le_trans ?_ hnow) hvain
    rw [hlast]
    exact UInt64.le_iff_toNat_le.mpr (Nat.le_of_lt_succ expiry.toNat_lt)

end Rank

section Armed

/-- A world with the last expiry time and the queries in vain since then. They
and the readings that are left are fewer than those of the longest timeout. -/
structure Armed (now : W → UInt64) (stalls : W → Nat) (s : Nat) where
  world : W
  expiry : UInt64
  vain : Nat
  bounded : vain + rank now stalls s expiry world < 2 ^ 32 * s

theorem bounded_passes {w : W} (g : Armed now stalls s) (hs : ∀ w, stalls w < s) (hp : Passes now stalls 0 g.world w) :
    g.vain + rank now stalls s g.expiry w < 2 ^ 32 * s :=
  Nat.lt_of_le_of_lt (Nat.add_le_add_left (rank_passes (Nat.zero_le 1) hs hp) g.vain) g.bounded

theorem bounded_elapsed (h : Running clockGettime now stalls s) (g : Armed now stalls s) :
    (if (timeoutElapsedImpl clockGettime g.expiry g.world).1 then 0 else g.vain + 1) +
      rank now stalls s g.expiry (timeoutElapsedImpl clockGettime g.expiry g.world).2 < 2 ^ 32 * s := by
  have hbounded := g.bounded
  have hread : clockGettime g.world =
      ((clockGettime g.world).1, (timeoutElapsedImpl clockGettime g.expiry g.world).2) := rfl
  by_cases helapsed : (clockGettime g.world).1.us ≥ g.expiry
  · have hvalue : (timeoutElapsedImpl clockGettime g.expiry g.world).1 = true := decide_eq_true helapsed
    have hrank : rank now stalls s g.expiry _ ≤ _ := rank_read h hread
    rw [if_pos hvalue]
    omega
  · have hvalue : ¬ (timeoutElapsedImpl clockGettime g.expiry g.world).1 = true :=
      fun hc => helapsed (of_decide_eq_true hc)
    have hrank := rank_vain h hread helapsed
    rw [if_neg hvalue]
    omega

variable (h : Advances clockGettime port now stalls s)

/-- The port with a timer that takes a count which is not the last for one that
has elapsed. The library does not ask for such a count. -/
def guarded : FifoPort (Armed now stalls s) where
  timeoutInitUs usec := fun g =>
    let r := timeoutInitUsImpl clockGettime usec g.world
    (r.1, ⟨r.2, r.1, 0, by
      rw [Nat.zero_add]
      exact rank_init h.stalls_lt (h.reads rfl).2.1 usec⟩)
  timeoutElapsed cnt := fun g =>
    if cnt = g.expiry then
      let r := timeoutElapsedImpl clockGettime g.expiry g.world
      (r.1, ⟨r.2, g.expiry, if r.1 then 0 else g.vain + 1, bounded_elapsed h.toRunning g⟩)
    else (true, g)
  writeByte reg val := fun g =>
    let r := port.writeByte reg val g.world
    (r.1, ⟨r.2, g.expiry, g.vain, bounded_passes g h.stalls_lt (h.writeByte reg val g.world)⟩)
  readByte reg dst := fun g =>
    let r := port.readByte reg dst g.world
    (r.1, ⟨r.2, g.expiry, g.vain, bounded_passes g h.stalls_lt (h.readByte reg dst g.world)⟩)
  readChunk reg len := fun g =>
    let r := port.readChunk reg len g.world
    (r.1, ⟨r.2, g.expiry, g.vain, bounded_passes g h.stalls_lt (h.readChunk reg len g.world)⟩)

theorem guarded_elapsed (g : Armed now stalls s) : ∃ g',
    (guarded h).timeoutElapsed g.expiry g = ((timeoutElapsedImpl clockGettime g.expiry g.world).1, g') ∧
      g'.world = (timeoutElapsedImpl clockGettime g.expiry g.world).2 ∧ g'.expiry = g.expiry :=
  ⟨_, if_pos rfl, rfl, rfl⟩

theorem guarded_expires : Expires (guarded h) (2 ^ 32 * s) Armed.vain where
  init _ _ := rfl
  query cnt g := by
    intro helapsed
    by_cases hcnt : cnt = g.expiry
    · simp only [guarded, if_pos hcnt] at helapsed ⊢
      have hbounded := bounded_elapsed h.toRunning g
      rw [helapsed] at hbounded ⊢
      exact ⟨rfl, Nat.lt_of_le_of_lt (Nat.le_add_right _ _) hbounded⟩
    · simp only [guarded, if_neg hcnt] at helapsed
      exact absurd helapsed.symm Bool.false_ne_true
  write _ _ _ := rfl
  read _ _ _ := rfl
  readChunk _ _ _ := rfl

def Behind (p : W × Nat) (q : Armed now stalls s × Nat) : Prop := p = (q.1.world, q.2)

theorem timed_guarded : PortSimulates (fun _ => True) Behind (fun cnt p q => Behind p q ∧ q.1.expiry = cnt)
    (counted (timed clockGettime port)) (counted (guarded h)) where
  timeoutInit usec := by
    rintro _ ⟨g, k⟩ rfl
    exact ⟨_, _, _, rfl, rfl, rfl, rfl⟩
  timeoutElapsed cnt := by
    rintro _ ⟨g, k⟩ ⟨rfl, rfl⟩
    obtain ⟨g', hrun, hworld, hexpiry⟩ := guarded_elapsed h g
    refine ⟨?_, ?_, ?_⟩
    · exact .some (congrArg Prod.fst hrun).symm
    · exact Prod.ext (hworld.symm.trans (congrArg (fun r => r.2.world) hrun).symm) rfl
    · exact (congrArg (fun r => r.2.expiry) hrun).trans hexpiry
  poll cnt reg dst _ := by
    rintro _ ⟨g, k⟩ ⟨rfl, rfl⟩
    exact ⟨.some rfl, rfl, rfl⟩
  disarm _ _ _ := And.left
  write reg val _ := by
    rintro _ ⟨g, k⟩ rfl
    exact ⟨.some rfl, rfl⟩
  read reg dst _ := by
    rintro _ ⟨g, k⟩ rfl
    exact ⟨.some rfl, rfl⟩
  readChunk reg len _ := by
    rintro _ ⟨g, k⟩ rfl
    exact ⟨.some rfl, rfl⟩

end Armed

section Clients

variable [Host] {stack : TpmCmd} {fuel : Nat} {U α : Type}

variable (stack) in
/-- A call over the library's timer runs as it does over the guarded one, from
any time and with no timeout armed. -/
theorem call_costs_timed (h : Advances clockGettime port now stalls s) (hfuel : 2 ^ 32 * s ≤ fuel)
    (call : PublicCall U) : Costs Prod.snd (callBound (2 ^ 32 * s) call)
      (perform stack (fifoOps (counted (timed clockGettime port)) fuel) call) := by
  have hbounded (w : W) : 0 + rank now stalls s 0 w < 2 ^ 32 * s := by
    have hlt := h.stalls_lt w
    rw [rank, UInt64.toNat_zero, Nat.zero_sub, Nat.zero_mul, Nat.zero_sub]
    omega
  constructor
  intro p
  have hpos : 0 < s := Nat.zero_lt_of_lt (h.stalls_lt p.1)
  have hpolls : polls (2 ^ 32 * s) ≤ fuel := by
    unfold polls
    omega
  have hmax : maxSizeCmdbuf ≤ fuel := by
    have h256 : maxSizeCmdbuf = 256 := rfl
    omega
  have hguarded := call_costs stack (guarded_expires h) hpolls hmax call
  apply (hguarded.of_simulates (calls_simulate stack (fifoOps_simulates (timed_guarded h)) call) ?_ ?_).ends p
  · exact fun p => ⟨(⟨p.1, 0, 0, hbounded p.1⟩, p.2), rfl⟩
  · rintro _ _ rfl
    rfl

/-- With the library's timer, and a clock that goes on by a microsecond in `s`
readings at the latest, every client comes to its end. -/
theorem client_ends_timed (h : Advances clockGettime port now stalls s) (hfuel : 2 ^ 32 * s ≤ fuel)
    (client : TpmClient U α) (w : W) (k : Nat) :
    ∃ a w' k', client.run (perform stack (fifoOps (counted (timed clockGettime port)) fuel)) (w, k) = (some a, w', k') ∧
      ∀ n, client.Within (callBound (2 ^ 32 * s)) n → k' ≤ k + n := by
  obtain ⟨a, ⟨w', k'⟩, hrun, hle⟩ := Client.run_bounded (fun call => call_costs_timed stack h hfuel call) client (w, k)
  exact ⟨a, w', k', hrun, hle⟩

end Clients

def tickingClock : StateM Nat Timespec := fun n => (timespecOf (min n (2 ^ 64 - 1)), n + 1)

def tickingNow (n : Nat) : UInt64 := .ofNat (min n (2 ^ 64 - 1))

theorem toNat_tickingNow (n : Nat) : (tickingNow n).toNat = min n (2 ^ 64 - 1) := by
  have hlt : min n (2 ^ 64 - 1) < 2 ^ 64 := Nat.lt_of_le_of_lt (Nat.min_le_right _ _) (by decide)
  exact UInt64.toNat_ofNat_of_lt' hlt

theorem tickingClock_running : Running tickingClock tickingNow (fun _ => 0) 1 where
  stalls_lt _ := Nat.zero_lt_one
  reads := by
    rintro n _ _ ⟨⟩
    have hshown : (timespecOf (min n (2 ^ 64 - 1))).us = tickingNow n := us_timespecOf _
    have hthis := toNat_tickingNow n
    have hnext := toNat_tickingNow (n + 1)
    refine ⟨UInt64.le_of_eq hshown.symm, ?_, ?_⟩
    · rw [hshown, UInt64.le_iff_toNat_le]
      omega
    · by_cases hlast : n < 2 ^ 64 - 1
      · refine .inl (.inl (UInt64.lt_iff_toNat_lt.mpr ?_))
        omega
      · refine .inr ⟨congrArg UInt64.ofNat ?_, UInt64.toNat_inj.mp ?_⟩ <;> omega

def tickingBeside (A : Type) : StateM (A × Nat) Timespec := fun w =>
  ((tickingClock w.2).1, w.1, (tickingClock w.2).2)

theorem tickingBeside_running (A : Type) : Running (tickingBeside A) (fun w => tickingNow w.2) (fun _ => 0) 1 where
  stalls_lt _ := Nat.zero_lt_one
  reads := by
    rintro w _ _ ⟨⟩
    exact tickingClock_running.reads rfl

theorem slow_advances : Advances (tickingBeside Slow) slow (fun w => tickingNow w.2) (fun _ => 0) 1 where
  toRunning := tickingBeside_running Slow
  writeByte _ _ _ := .inr ⟨rfl, le_rfl⟩
  readByte _ _ _ := .inr ⟨rfl, le_rfl⟩
  readChunk _ _ _ := .inr ⟨rfl, le_rfl⟩

theorem client_ends_timed_ticking :
    letI := littleHost
    let client : TpmClient Unit (Option Int) := startSession LocalityPages.grantingSpi
    let run := client.run (perform TpmCmd.zero (fifoOps (counted (timed (tickingBeside Slow) slow)) (2 ^ 32 * 1)))
      ((⟨false, 0, 0⟩, 0), 0)
    ∃ w' k', run = (some (some tpmSuccess), w', k') ∧ k' ≤ 0 + sessionBound (2 ^ 32 * 1) := by
  let _ := littleHost
  intro client run
  have hvalue : run.1 = some (some tpmSuccess) := by decide +kernel
  obtain ⟨a, w', k', hrun, hbound⟩ : ∃ a w' k', run = (some a, w', k') ∧
      ∀ n, client.Within (callBound (2 ^ 32 * 1)) n → k' ≤ 0 + n :=
    client_ends_timed slow_advances le_rfl client (⟨false, 0, 0⟩, 0) 0
  rw [hrun] at hvalue
  cases hvalue
  exact ⟨w', k', hrun, hbound _ (startSession_within _ _)⟩

end LibTpm.ClockBounds
