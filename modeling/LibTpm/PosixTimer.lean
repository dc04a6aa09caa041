import LibTpm.Fifo

namespace LibTpm.PosixTimer

open LibTpm.Base.Process LibTpm.Platform

variable {W : Type}

structure Timespec where
  tvSec : Int64
  tvNsec : Int64
  deriving DecidableEq

def Timespec.us (ts : Timespec) : UInt64 := ts.tvSec.toUInt64 * 1000000 + (ts.tvNsec / 1000).toUInt64

section Timer

variable (clockGettime : StateM W Timespec)

def getTimeUs : StateM W UInt64 := do
  let ts ← clockGettime
  return ts.us

def timeoutInitUsImpl (usec : UInt32) : StateM W UInt64 := do
  let now ← getTimeUs clockGettime
  return now + usec.toUInt64

def timeoutElapsedImpl (expiryTimeUs : UInt64) : StateM W Bool := do
  let now ← getTimeUs clockGettime
  return decide (now ≥ expiryTimeUs)

def tpmLibTimeoutOps : TimeoutOps W where
  timeoutInitUs := timeoutInitUsImpl clockGettime
  timeoutElapsed := timeoutElapsedImpl clockGettime

end Timer

def timespecOf (us : Nat) : Timespec := ⟨Int64.ofNat (us / 1000000), Int64.ofNat (us % 1000000 * 1000)⟩

theorem us_timespecOf (us : Nat) : (timespecOf us).us = UInt64.ofNat us := by
  have hdiv : Int64.ofNat (us % 1000000 * 1000) / 1000 = Int64.ofNat (us % 1000000) := by
    have hlt := Nat.mod_lt us (show 0 < 1000000 by decide)
    have h1000 : (1000 : Int64) = Int64.ofNat 1000 := rfl
    rw [h1000, ← Int64.ofNat_div (by omega) (by decide), Nat.mul_div_cancel _ (by decide)]
  have hsec : (1000000 : UInt64) = UInt64.ofNat 1000000 := rfl
  rw [Timespec.us, timespecOf]
  dsimp only
  rw [hdiv, Int64.toUInt64_ofNat', Int64.toUInt64_ofNat', hsec, ← UInt64.ofNat_mul, ← UInt64.ofNat_add,
    Nat.div_add_mod']

inductive Observation
  | clock (us : UInt64)
  | read (reg : UInt16) (val : UInt8)
  deriving DecidableEq, Repr

/-- The registers of a device with the library's timer over a clock, and a log
of what the driver sees of both. -/
def observed (clockGettime : StateM W Timespec) (port : FifoPort W) : FifoPort (W × List Observation) where
  toTimeoutOps := tpmLibTimeoutOps (record (fun ts => Observation.clock ts.us) clockGettime)
  writeByte reg val := fun s => ((port.writeByte reg val s.1).1, (port.writeByte reg val s.1).2, s.2)
  readByte reg dst := record (fun r => Observation.read reg r.2) (port.readByte reg dst)
  readChunk reg len := fun s => ((port.readChunk reg len s.1).1, (port.readChunk reg len s.1).2, s.2)

def clockReading : Observation → Option UInt64
  | .clock us => some us
  | .read _ _ => none

def clocks (log : List Observation) : List UInt64 := log.filterMap clockReading

theorem clocks_clock (us : UInt64) (log : List Observation) : clocks (.clock us :: log) = us :: clocks log := rfl

theorem clocks_append (log log' : List Observation) : clocks (log ++ log') = clocks log ++ clocks log' :=
  List.filterMap_append

def Steady (log : List Observation) : Prop :=
  (clocks log).Pairwise (· ≤ ·) ∧ ∀ us ∈ clocks log, us.toNat + 2 ^ 32 ≤ 2 ^ 64

end LibTpm.PosixTimer
