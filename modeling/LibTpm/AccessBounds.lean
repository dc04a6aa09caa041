import LibTpm.ResponseSizes

namespace LibTpm.AccessBounds

open LibTpm.Base.Process LibTpm.Base.Process.Proc LibTpm.Command LibTpm.Constants LibTpm.Endian
open LibTpm.Platform LibTpm.Fifo LibTpm.PollRounds LibTpm.ReceiveBounds LibTpm.ResponseSizes

variable {W : Type}

/-- The same port with the number of its register accesses. -/
def counted (port : FifoPort W) : FifoPort (W × Nat) where
  timeoutInitUs usec := fun s => ((port.timeoutInitUs usec s.1).1, (port.timeoutInitUs usec s.1).2, s.2)
  timeoutElapsed cnt := fun s => ((port.timeoutElapsed cnt s.1).1, (port.timeoutElapsed cnt s.1).2, s.2)
  writeByte reg val := fun s => ((port.writeByte reg val s.1).1, (port.writeByte reg val s.1).2, s.2 + 1)
  readByte reg dst := fun s => ((port.readByte reg dst s.1).1, (port.readByte reg dst s.1).2, s.2 + 1)
  readChunk reg len := fun s => ((port.readChunk reg len s.1).1, (port.readChunk reg len s.1).2, s.2 + 1)

theorem counted_read (port : FifoPort W) (reg : UInt16) (dst : Dest) (w : W) (k : Nat) :
    (counted port).readByte reg dst (w, k) =
      ((port.readByte reg dst w).1, (port.readByte reg dst w).2, k + 1) := rfl

/-- The timer has elapsed at its `limit`-th query after each timeout_init_us at
the latest. `queries` is the number of queries in vain since then. -/
structure Expires (port : FifoPort W) (limit : Nat) (queries : W → Nat) : Prop where
  init (usec : UInt32) (w : W) : queries (port.timeoutInitUs usec w).2 = 0
  query (cnt : UInt64) (w : W) : (port.timeoutElapsed cnt w).1 = false →
    queries (port.timeoutElapsed cnt w).2 = queries w + 1 ∧ queries w + 1 < limit
  write (reg : UInt16) (val : UInt8) (w : W) : queries (port.writeByte reg val w).2 = queries w
  read (reg : UInt16) (dst : Dest) (w : W) : queries (port.readByte reg dst w).2 = queries w
  readChunk (reg : UInt16) (len : UInt8) (w : W) : queries (port.readChunk reg len w).2 = queries w

def polls (limit : Nat) : Nat := max limit 1

def bytesBound (limit size : Nat) : Nat :=
  tpmHeaderSize + (2 * polls limit + 1) * (size - tpmHeaderSize) + polls limit + 1

def sendBound (limit size : Nat) : Nat := 1 + (1 + polls limit) + bytesBound limit size

def headerBound (limit : Nat) : Nat := polls limit + 2 * polls limit * tpmHeaderSize + tpmHeaderSize

/-- The second pass stops at the size of the response, not at what is left of it. -/
def restBound (limit size : Nat) : Nat := polls limit + 2 * polls limit * (size - tpmHeaderSize) + size

def receiveBound (limit size : Nat) : Nat := headerBound limit + restBound limit size

def sendIteration (port : FifoPort W) (fuel : Nat) (chip : ChipData) (base : UInt16) (buf : TpmCmd)
    (len index : Nat) : Proc W (Int × Nat) := do
  let (err, burstcnt) ← tpm2FifoGetBurstcount port fuel chip
  if err < 0 then return (err, index)
  writeBurst port base buf len burstcnt.toNat index

def receiveIteration (port : FifoPort W) (fuel : Nat) (chip : ChipData) (base : UInt16) (dest : Nat → Dest)
    (readSize : Int) (st : ReadState) : Proc W (Int × ReadState) := do
  let (err, burstcnt) ← tpm2FifoGetBurstcount port fuel chip
  if err < 0 then return (err, st)
  readBurst port base dest readSize burstcnt.toNat st

section Iterations

variable (port : FifoPort W) (fuel : Nat) (chip : ChipData) (base : UInt16)

theorem writeData_succ (buf : TpmCmd) (len n index : Nat) :
    writeData port fuel chip base buf len (n + 1) index = if index < len then
      sendIteration port fuel chip base buf len index >>= fun r =>
        if r.1 < 0 then pure r.1 else writeData port fuel chip base buf len n r.2
      else pure tpmSuccess := by
  rw [writeData, sendIteration, bind_assoc]
  congr 2
  funext r
  obtain ⟨err, burst⟩ := r
  dsimp only
  by_cases herr : err < 0
  · rw [if_pos herr, if_pos herr, pure_bind, if_pos herr]
  · rw [if_neg herr, if_neg herr]

theorem readLoop_succ (dest : Nat → Dest) (readSize : Int) (n : Nat) (st : ReadState) :
    readLoop port fuel chip base dest readSize (n + 1) st = if st.size < readSize then
      receiveIteration port fuel chip base dest readSize st >>= fun r =>
        if r.1 < 0 then pure (r.1, r.2) else readLoop port fuel chip base dest readSize n r.2
      else pure (tpmSuccess, st) := by
  rw [readLoop, receiveIteration, bind_assoc]
  congr 2
  funext r
  obtain ⟨err, burst⟩ := r
  dsimp only
  by_cases herr : err < 0
  · rw [if_pos herr, if_pos herr, pure_bind, if_pos herr]
  · rw [if_neg herr, if_neg herr]

end Iterations

section Polls

variable {port : FifoPort W} {limit : Nat} {queries : W → Nat}

theorem counted_query (h : Expires port limit queries) {delay : UInt64} {s s' : W × Nat}
    (htimer : (counted port).timeoutElapsed delay s = (false, s')) :
    s'.2 = s.2 ∧ queries s'.1 = queries s.1 + 1 ∧ queries s.1 + 1 < limit := by
  obtain ⟨helapsed, hworld⟩ := Prod.mk.inj htimer
  rw [← hworld]
  exact ⟨rfl, h.query delay s.1 helapsed⟩

theorem counted_readByte (h : Expires port limit queries) {reg : UInt16} {dst : Dest} {r : Int × UInt8}
    {s s' : W × Nat} (hread : (counted port).readByte reg dst s = (r, s')) :
    s'.2 = s.2 + 1 ∧ queries s'.1 = queries s.1 := by
  cases hread
  exact ⟨rfl, h.read reg dst s.1⟩

theorem counted_timer {delay : UInt64} {elapsed : Bool} {s s' : W × Nat}
    (htimer : (counted port).timeoutElapsed delay s = (elapsed, s')) : s'.2 = s.2 := by
  cases htimer
  rfl

/-- A wait that has made `queries w` queries in vain makes at most one access
for each query that is left to it. -/
theorem waitLoop_ends (h : Expires port limit queries) (reg : UInt16) (set : UInt8) (delay : UInt64) (n : Nat)
    (w : W) (k : Nat) (hw : queries w < polls limit) (hn : polls limit - queries w ≤ n) :
    Meets (waitRegBitsLoop (counted port) reg set delay n) (w, k)
      (fun _ s => s.2 ≤ k + (polls limit - queries w)) (fun _ => False) := by
  have hpolls : limit ≤ polls limit := Nat.le_max_left limit 1
  refine waitRegBitsLoop_meets (I := fun n s => queries s.1 < polls limit ∧ polls limit - queries s.1 ≤ n ∧
    s.2 + (polls limit - queries s.1) ≤ k + (polls limit - queries w)) (fun s hs => by omega) ?_ ⟨hw, hn, le_rfl⟩
  rintro n s o s' ⟨hlt, hle, hcost⟩ hround
  cases hround with
  | failed read | found read =>
      obtain ⟨hcount, -⟩ := counted_readByte h read
      change s'.2 ≤ _
      omega
  | expired read ok unset timer =>
      obtain ⟨hcount, -⟩ := counted_readByte h read
      have htimer := counted_timer timer
      change s'.2 ≤ _
      omega
  | vain read ok unset timer =>
      obtain ⟨hcount, hqueries⟩ := counted_readByte h read
      obtain ⟨hcount', hnext, hlimit⟩ := counted_query h timer
      exact ⟨by omega, by omega, by omega⟩

theorem wait_ends (h : Expires port limit queries) {fuel : Nat} (hfuel : polls limit ≤ fuel) (reg : UInt16)
    (set : UInt8) (timeout : UInt64) (w : W) (k : Nat) :
    Meets (tpm2WaitRegBits (counted port) fuel reg set timeout) (w, k)
      (fun _ s => s.2 ≤ k + polls limit) (fun _ => False) := by
  rw [tpm2WaitRegBits, meets_bind, meets_lift]
  have hinit := h.init (timeout * 1000).toUInt32 w
  have hpos : 1 ≤ polls limit := Nat.le_max_right limit 1
  have hloop := waitLoop_ends h reg set (port.timeoutInitUs (timeout * 1000).toUInt32 w).1 fuel
    (port.timeoutInitUs (timeout * 1000).toUInt32 w).2 k (by omega) (by omega)
  rwa [hinit, Nat.sub_zero] at hloop

/-- A burst count that is returned is not zero. -/
theorem burstcountLoop_ends (h : Expires port limit queries) (base : UInt16) (delay : UInt64) (n : Nat) (w : W)
    (k : Nat) (hw : queries w < polls limit) (hn : polls limit - queries w ≤ n) :
    Meets (getBurstcountLoop (counted port) base delay n) (w, k)
      (fun r s => s.2 ≤ k + 2 * (polls limit - queries w) ∧ (0 ≤ r.1 → 0 < r.2.toNat)) (fun _ => False) := by
  have hpolls : limit ≤ polls limit := Nat.le_max_left limit 1
  refine getBurstcountLoop_meets (I := fun n s => queries s.1 < polls limit ∧ polls limit - queries s.1 ≤ n ∧
    s.2 + 2 * (polls limit - queries s.1) ≤ k + 2 * (polls limit - queries w)) (fun s hs => by omega) ?_
    ⟨hw, hn, le_rfl⟩
  rintro n s o s' ⟨hlt, hle, hcost⟩ hround
  cases hround with
  | failedLo lo neg =>
      obtain ⟨hcount, -⟩ := counted_readByte h lo
      exact ⟨by omega, fun hok => absurd neg (not_lt.mpr hok)⟩
  | failedHi lo ok₀ hi neg =>
      obtain ⟨hcount, -⟩ := counted_readByte h lo
      obtain ⟨hcount', -⟩ := counted_readByte h hi
      exact ⟨by omega, fun hok => absurd neg (not_lt.mpr hok)⟩
  | found lo ok₀ hi ok₁ burst =>
      obtain ⟨hcount, -⟩ := counted_readByte h lo
      obtain ⟨hcount', -⟩ := counted_readByte h hi
      exact ⟨by omega, fun _ => Nat.pos_of_ne_zero fun hzero => burst (UInt16.toNat_inj.mp hzero)⟩
  | expired lo ok₀ hi ok₁ zero timer =>
      obtain ⟨hcount, -⟩ := counted_readByte h lo
      obtain ⟨hcount', -⟩ := counted_readByte h hi
      have htimer := counted_timer timer
      exact ⟨by omega, fun hok => absurd hok (show ¬ 0 ≤ tpmErrTimeout by decide)⟩
  | vain lo ok₀ hi ok₁ zero timer =>
      obtain ⟨hcount, hqueries⟩ := counted_readByte h lo
      obtain ⟨hcount', hqueries'⟩ := counted_readByte h hi
      obtain ⟨hcount'', hnext, hlimit⟩ := counted_query h timer
      exact ⟨by omega, by omega, by omega⟩

theorem getBurstcount_ends (h : Expires port limit queries) {fuel : Nat} (hfuel : polls limit ≤ fuel)
    (chip : ChipData) (w : W) (k : Nat) :
    Meets (tpm2FifoGetBurstcount (counted port) fuel chip) (w, k)
      (fun r s => s.2 ≤ k + 2 * polls limit ∧ (0 ≤ r.1 → 0 < r.2.toNat)) (fun _ => False) := by
  rw [tpm2FifoGetBurstcount, meets_bind, meets_lift]
  have hinit := h.init (chip.timeouts.msecA * 1000).toUInt32 w
  have hpos : 1 ≤ polls limit := Nat.le_max_right limit 1
  have hloop := burstcountLoop_ends h (localityStartAddress chip.locality)
    (port.timeoutInitUs (chip.timeouts.msecA * 1000).toUInt32 w).1 fuel
    (port.timeoutInitUs (chip.timeouts.msecA * 1000).toUInt32 w).2 k (by omega) (by omega)
  rwa [hinit, Nat.sub_zero] at hloop

end Polls

section Send

variable {port : FifoPort W} {limit : Nat} {queries : W → Nat}

theorem writeHeader_ends (base : UInt16) (bs : List UInt8) (w : W) (k : Nat) :
    Meets (writeHeader (counted port) base bs) (w, k) (fun _ s => s.2 ≤ k + bs.length) (fun _ => False) := by
  induction bs generalizing w k with
  | nil => exact Nat.le_refl k
  | cons b bs ih =>
      rw [writeHeader, meets_bind, meets_lift, meets_ite]
      refine ⟨fun _ => ?_, fun _ => ?_⟩
      · rw [meets_pure, List.length_cons]
        exact Nat.add_le_add_left (Nat.le_add_left 1 _) k
      · apply (ih _ _).imp
        intro _ s hs
        rw [List.length_cons]
        exact Nat.le_trans hs (by omega)

theorem writeBurst_ends (base : UInt16) (buf : TpmCmd) (len burst index : Nat) (w : W) (k : Nat)
    (hindex : index ≤ len) :
    Meets (writeBurst (counted port) base buf len burst index) (w, k)
      (fun r s => index ≤ r.2 ∧ r.2 ≤ len ∧ s.2 + index ≤ k + len ∧ (0 ≤ r.1 → s.2 + index = k + r.2) ∧
        (0 ≤ r.1 → 0 < burst → index < len → index < r.2)) (fun _ => False) := by
  induction burst generalizing index w k with
  | zero =>
      rw [writeBurst, meets_pure]
      exact ⟨Nat.le_refl _, hindex, by omega, fun _ => rfl, fun _ h => absurd h (Nat.lt_irrefl 0)⟩
  | succ burst ih =>
      rw [writeBurst, meets_ite]
      refine ⟨fun hlt => ?_, fun hge => ?_⟩
      · rw [meets_bind, meets_lift, meets_ite]
        refine ⟨fun herr => ?_, fun _ => ?_⟩
        · rw [meets_pure]
          dsimp only [counted] at herr ⊢
          exact ⟨Nat.le_refl _, hindex, by omega, fun h => absurd herr (not_lt.mpr h),
            fun h => absurd herr (not_lt.mpr h)⟩
        · apply (ih (index + 1) _ _ hlt).imp
          rintro r s ⟨hle, hlen, htotal, hdone, -⟩
          exact ⟨by omega, hlen, by omega, fun hok => by have := hdone hok; omega, fun _ _ _ => by omega⟩
      · rw [meets_pure]
        exact ⟨Nat.le_refl _, hindex, by omega, fun _ => rfl, fun _ _ h => absurd h hge⟩

/-- An iteration that does not fail moves a byte and pays for each byte it
moves, besides the polls of its burst count. -/
theorem sendIteration_ends (h : Expires port limit queries) {fuel : Nat} (hfuel : polls limit ≤ fuel)
    (chip : ChipData) (base : UInt16) (buf : TpmCmd) {len index : Nat} (hindex : index < len) (w : W) (k : Nat) :
    Meets (sendIteration (counted port) fuel chip base buf len index) (w, k)
      (fun r s => r.2 ≤ len ∧ s.2 + index ≤ k + 2 * polls limit + len ∧
        (0 ≤ r.1 → index < r.2 ∧ s.2 + index ≤ k + 2 * polls limit + r.2)) (fun _ => False) := by
  rw [sendIteration, meets_bind]
  apply (getBurstcount_ends h hfuel chip w k).imp
  rintro ⟨err, burst⟩ ⟨w, k'⟩ ⟨hcost, hpos⟩
  dsimp only at hcost hpos ⊢
  rw [meets_ite]
  refine ⟨fun herr => ?_, fun herr => ?_⟩
  · rw [meets_pure]
    exact ⟨Nat.le_of_lt hindex, by omega, fun hok => absurd herr (not_lt.mpr hok)⟩
  · apply (writeBurst_ends base buf len burst.toNat index w k' (Nat.le_of_lt hindex)).imp
    rintro r s ⟨-, hlen, htotal, hdone, hmoved⟩
    refine ⟨hlen, by omega, fun hok => ?_⟩
    have hcount := hdone hok
    exact ⟨hmoved hok (hpos (not_lt.mp herr)) hindex, by omega⟩

theorem burst_cost {m : Nat} (M : Nat) (hm : 1 ≤ m) : 2 * M + m ≤ (2 * M + 1) * m := by
  have h := Nat.mul_le_mul_left (2 * M) hm
  rw [Nat.add_mul, Nat.one_mul]
  omega

theorem writeData_ends (h : Expires port limit queries) {fuel : Nat} (hfuel : polls limit ≤ fuel)
    (chip : ChipData) (base : UInt16) (buf : TpmCmd) (len n index : Nat) (w : W) (k : Nat) (hindex : index ≤ len)
    (hn : len - index ≤ n) :
    Meets (writeData (counted port) fuel chip base buf len n index) (w, k)
      (fun _ s => s.2 ≤ k + (2 * polls limit + 1) * (len - index)) (fun _ => False) := by
  induction n generalizing index w k with
  | zero =>
      rw [writeData, if_neg (by omega)]
      exact Nat.le_add_right k _
  | succ n ih =>
      rw [writeData_succ, meets_ite]
      refine ⟨fun hlt => ?_, fun _ => ?_⟩
      · rw [meets_bind]
        apply (sendIteration_ends h hfuel chip base buf hlt w k).imp
        rintro ⟨err, index'⟩ ⟨w, k'⟩ ⟨hlen, htotal, hdone⟩
        dsimp only at hlen htotal hdone ⊢
        rw [meets_ite]
        refine ⟨fun _ => ?_, fun herr => ?_⟩
        · rw [meets_pure]
          have hcost := burst_cost (polls limit) (show 1 ≤ len - index by omega)
          dsimp only
          omega
        · obtain ⟨hmoved, hcount⟩ := hdone (not_lt.mp herr)
          apply (ih index' w k' hlen (by omega)).imp
          intro _ s hs
          have hcost := burst_cost (polls limit) (show 1 ≤ index' - index by omega)
          have hsplit : len - index = (index' - index) + (len - index') := by omega
          rw [hsplit, Nat.mul_add]
          omega
      · exact Nat.le_add_right k _

theorem prepare_ends (h : Expires port limit queries) {fuel : Nat} (hfuel : polls limit ≤ fuel) (chip : ChipData)
    (w : W) (k : Nat) :
    Meets (tpm2FifoPrepare (counted port) fuel chip) (w, k)
      (fun _ s => s.2 ≤ k + 1 + polls limit) (fun _ => False) := by
  unfold tpm2FifoPrepare
  dsimp only
  rw [meets_bind, meets_lift, meets_ite]
  refine ⟨fun _ => ?_, fun _ => ?_⟩
  · rw [meets_pure]
    exact Nat.le_add_right (k + 1) _
  rw [meets_bind]
  apply (wait_ends h hfuel _ _ _ _ _).imp
  rintro ⟨err, status⟩ s hs
  dsimp only at hs ⊢
  rw [meets_ite]
  exact ⟨fun _ => hs, fun _ => hs⟩

theorem sendBytes_ends [Host] (h : Expires port limit queries) {fuel : Nat} (hfuel : polls limit ≤ fuel)
    (chip : ChipData) (cmd : TpmCmd) (hsize : (be32toh cmd.cmdSize).toNat ≤ fuel) (w : W) (k : Nat) :
    Meets (sendBytes (counted port) fuel chip cmd) (w, k)
      (fun _ s => s.2 ≤ k + bytesBound limit (be32toh cmd.cmdSize).toNat) (fun _ => False) := by
  unfold sendBytes
  dsimp only
  rw [meets_bind]
  apply (writeHeader_ends _ cmd.header w k).imp
  rintro err ⟨w, k₁⟩ hk
  rw [cmd.length_header] at hk
  dsimp only at hk ⊢
  rw [meets_ite]
  refine ⟨fun _ => ?_, fun _ => ?_⟩
  · rw [meets_pure]
    dsimp only [bytesBound]
    omega
  rw [meets_ite]
  refine ⟨fun _ => ?_, fun hlen => ?_⟩
  · rw [meets_pure]
    dsimp only [bytesBound]
    omega
  rw [meets_bind]
  apply (writeData_ends h hfuel chip _ cmd _ fuel tpmHeaderSize w k₁ (not_lt.mp hlen) (by omega)).imp
  rintro err ⟨w, k₂⟩ hk₂
  dsimp only at hk₂ ⊢
  rw [meets_ite]
  refine ⟨fun _ => ?_, fun _ => ?_⟩
  · rw [meets_pure]
    dsimp only [bytesBound]
    omega
  rw [meets_bind]
  apply (wait_ends h hfuel _ _ _ w k₂).imp
  rintro ⟨err, status⟩ ⟨w, k₃⟩ hk₃
  have hall : k₃ + 1 ≤ k + bytesBound limit (be32toh cmd.cmdSize).toNat := by
    dsimp only [bytesBound] at hk₃ ⊢
    omega
  dsimp only
  rw [meets_ite]
  refine ⟨fun _ => Nat.le_of_succ_le hall, fun _ => ?_⟩
  rw [meets_ite]
  refine ⟨fun _ => Nat.le_of_succ_le hall, fun _ => ?_⟩
  rw [meets_bind, meets_lift, meets_ite]
  exact ⟨fun _ => hall, fun _ => hall⟩

theorem send_ends [Host] (h : Expires port limit queries) {fuel : Nat} (hfuel : polls limit ≤ fuel)
    (chip : ChipData) (cmd : TpmCmd) (hsize : (be32toh cmd.cmdSize).toNat ≤ fuel) (w : W) (k : Nat) :
    Meets (tpm2FifoSend (counted port) fuel chip cmd) (w, k)
      (fun _ s => s.2 ≤ k + sendBound limit (be32toh cmd.cmdSize).toNat) (fun _ => False) := by
  unfold tpm2FifoSend
  dsimp only
  rw [meets_bind, meets_lift, counted_read]
  dsimp only [sendBound]
  rw [meets_ite]
  refine ⟨fun _ => ?_, fun _ => ?_⟩
  · rw [meets_pure]
    dsimp only
    omega
  rw [meets_ite]
  refine ⟨fun _ => ?_, fun _ => ?_⟩
  · rw [meets_bind]
    apply (prepare_ends h hfuel chip _ (k + 1)).imp
    rintro err ⟨w, k₁⟩ hk₁
    dsimp only at hk₁ ⊢
    rw [meets_ite]
    refine ⟨fun _ => ?_, fun _ => ?_⟩
    · rw [meets_pure]
      dsimp only
      omega
    · apply (sendBytes_ends h hfuel chip cmd hsize w k₁).imp
      intro _ s hs
      omega
  · apply (sendBytes_ends h hfuel chip cmd hsize _ (k + 1)).imp
    intro _ s hs
    omega

end Send

section Receive

variable {port : FifoPort W} {limit : Nat} {queries : W → Nat}

theorem readBurst_ends (base : UInt16) (dest : Nat → Dest) (readSize : Int) (burst : Nat) (st : ReadState) (w : W)
    (k : Nat) (hindex : st.loopIndex ≤ readSize) :
    Meets (readBurst (counted port) base dest readSize burst st) (w, k)
      (fun r s => r.2.loopIndex ≤ readSize ∧ r.2.size - r.2.loopIndex = st.size - st.loopIndex ∧
        s.2 + st.loopIndex ≤ k + readSize ∧ (0 ≤ r.1 → s.2 + st.loopIndex = k + r.2.loopIndex) ∧
        st.loopIndex ≤ r.2.loopIndex ∧
        (0 ≤ r.1 → 0 < burst → st.loopIndex < readSize → st.loopIndex < r.2.loopIndex)) (fun _ => False) := by
  induction burst generalizing st w k with
  | zero =>
      rw [readBurst, meets_pure]
      exact ⟨hindex, rfl, by omega, fun _ => rfl, le_refl _, fun _ h => absurd h (Nat.lt_irrefl 0)⟩
  | succ burst ih =>
      rw [readBurst, meets_ite]
      refine ⟨fun hlt => ?_, fun hge => ?_⟩
      · dsimp only
        rw [meets_bind, meets_lift, counted_read, meets_ite]
        refine ⟨fun herr => ?_, fun _ => ?_⟩
        · rw [meets_pure]
          dsimp only
          exact ⟨hindex, rfl, by omega, fun h => absurd herr (not_lt.mpr h), le_refl _,
            fun h => absurd herr (not_lt.mpr h)⟩
        · apply (ih _ _ _ _).imp
          · rintro r s ⟨hlen, hdiff, htotal, hdone, hle, -⟩
            dsimp only at hdiff htotal hdone hle
            exact ⟨hlen, by omega, by omega, fun hok => by have := hdone hok; omega, by omega,
              fun _ _ _ => by omega⟩
          · exact hlt
      · rw [meets_pure]
        exact ⟨hindex, rfl, by omega, fun _ => rfl, le_refl _, fun _ _ h => absurd h hge⟩

/-- The index of the buffer is not ahead of the size, so a round that the size
allows has room for a byte. -/
theorem receiveIteration_ends (h : Expires port limit queries) {fuel : Nat} (hfuel : polls limit ≤ fuel)
    (chip : ChipData) (base : UInt16) (dest : Nat → Dest) {readSize : Int} {st : ReadState}
    (hle : st.loopIndex ≤ st.size) (hlt : st.size < readSize) (w : W) (k : Nat) :
    Meets (receiveIteration (counted port) fuel chip base dest readSize st) (w, k)
      (fun r s => r.2.loopIndex ≤ readSize ∧ r.2.size - r.2.loopIndex = st.size - st.loopIndex ∧
        s.2 + st.loopIndex ≤ k + 2 * polls limit + readSize ∧ (0 ≤ r.1 → st.loopIndex < r.2.loopIndex ∧
          s.2 + st.loopIndex ≤ k + 2 * polls limit + r.2.loopIndex)) (fun _ => False) := by
  rw [receiveIteration, meets_bind]
  apply (getBurstcount_ends h hfuel chip w k).imp
  rintro ⟨err, burst⟩ ⟨w, k'⟩ ⟨hcost, hpos⟩
  dsimp only at hcost hpos ⊢
  rw [meets_ite]
  refine ⟨fun herr => ?_, fun herr => ?_⟩
  · rw [meets_pure]
    dsimp only
    exact ⟨by omega, rfl, by omega, fun hok => absurd herr (not_lt.mpr hok)⟩
  · apply (readBurst_ends base dest readSize burst.toNat st w k' (by omega)).imp
    rintro r s ⟨hlen, hdiff, htotal, hdone, -, hmoved⟩
    refine ⟨hlen, hdiff, by omega, fun hok => ?_⟩
    have hcount := hdone hok
    exact ⟨hmoved hok (hpos (not_lt.mp herr)) (by omega), by omega⟩

theorem readLoop_ends (h : Expires port limit queries) {fuel : Nat} (hfuel : polls limit ≤ fuel)
    (chip : ChipData) (base : UInt16) (dest : Nat → Dest) (readSize : Int) (n : Nat) (st : ReadState) (w : W)
    (k : Nat) (hle : st.loopIndex ≤ st.size) (hindex : st.loopIndex ≤ readSize)
    (hn : (readSize - st.size).toNat ≤ n) :
    Meets (readLoop (counted port) fuel chip base dest readSize n st) (w, k)
      (fun r s => s.2 ≤ k + 2 * polls limit * (readSize - st.size).toNat + (readSize - st.loopIndex).toNat ∧
        r.2.size - r.2.loopIndex = st.size - st.loopIndex ∧ r.2.loopIndex ≤ readSize ∧
        (0 ≤ r.1 → readSize ≤ r.2.size))
      (fun _ => False) := by
  induction n generalizing st w k with
  | zero =>
      rw [readLoop, if_neg (by omega), meets_pure, Nat.add_assoc]
      exact ⟨Nat.le_add_right k _, rfl, hindex, fun _ => by dsimp only; omega⟩
  | succ n ih =>
      rw [readLoop_succ, meets_ite]
      refine ⟨fun hlt => ?_, fun hge => ?_⟩
      · rw [meets_bind]
        apply (receiveIteration_ends h hfuel chip base dest hle hlt w k).imp
        rintro ⟨err, st'⟩ ⟨w, k'⟩ ⟨hlen, hdiff, htotal, hdone⟩
        dsimp only at hlen hdiff htotal hdone ⊢
        rw [meets_ite]
        refine ⟨fun herr => ?_, fun herr => ?_⟩
        · rw [meets_pure]
          have hcost := Nat.mul_le_mul_left (2 * polls limit)
            (show 1 ≤ (readSize - st.size).toNat by omega)
          dsimp only
          exact ⟨by omega, hdiff, hlen, fun hok => absurd herr (not_lt.mpr hok)⟩
        · obtain ⟨hmoved, hcount⟩ := hdone (not_lt.mp herr)
          apply (ih st' w k' (by omega) hlen (by omega)).imp
          rintro r s ⟨hs, hdiff', hlen', hfull⟩
          have hcost := Nat.mul_le_mul_left (2 * polls limit)
            (show (readSize - st'.size).toNat + 1 ≤ (readSize - st.size).toNat by omega)
          rw [Nat.mul_succ] at hcost
          exact ⟨by omega, hdiff'.trans hdiff, hlen', hfull⟩
      · rw [meets_pure, Nat.add_assoc]
        exact ⟨Nat.le_add_right k _, rfl, hindex, fun _ => not_lt.mp hge⟩

theorem headerPass_cost (h : Expires port limit queries) {fuel : Nat} (hfuel : polls limit ≤ fuel)
    (hheader : tpmHeaderSize ≤ fuel) (chip : ChipData) (base : UInt16) (buf : TpmCmd) (w : W) (k : Nat) :
    Meets (tpm2FifoReadData (counted port) fuel chip buf base 0 tpmReadHeader) (w, k)
      (fun r s => s.2 ≤ k + headerBound limit ∧ (0 ≤ r.1 → r.2.1 = tpmHeaderSize)) (fun _ => False) := by
  unfold tpm2FifoReadData
  rw [if_pos rfl, if_pos rfl, meets_bind]
  apply (wait_ends h hfuel _ _ _ w k).imp
  rintro ⟨err, status⟩ ⟨w, k₁⟩ hk₁
  dsimp only [headerBound] at hk₁ ⊢
  rw [meets_ite]
  refine ⟨fun herr => ?_, fun _ => ?_⟩
  · rw [meets_pure]
    dsimp only
    exact ⟨by omega, fun hok => absurd herr (not_lt.mpr hok)⟩
  · rw [meets_bind]
    apply (readLoop_ends h hfuel chip base _ tpmHeaderSize fuel ⟨0, 0, buf⟩ w k₁ (le_refl 0)
      (Int.natCast_nonneg _) (by simpa using hheader)).imp
    rintro r s ⟨hs, hdiff, hlen, hfull⟩
    rw [meets_pure]
    simp only [Int.sub_zero, Int.toNat_natCast] at hs
    dsimp only at hdiff ⊢
    exact ⟨by omega, fun hok => by have := hfull hok; omega⟩

/-- The pass for the rest of the response, for every size that is stored in
the buffer. -/
theorem dataPass_cost (h : Expires port limit queries) {fuel n : Nat} (hfuel : polls limit ≤ fuel)
    (hn : n ≤ fuel) (chip : ChipData) (base : UInt16) (buf : TpmCmd) (w : W) (k : Nat) :
    Meets (tpm2FifoReadData (counted port) fuel chip buf base tpmHeaderSize n) (w, k)
      (fun r s => s.2 ≤ k + restBound limit n ∧ r.2.2.header = buf.header) (fun _ => False) := by
  have hdata := size_ne_readHeader n
  unfold tpm2FifoReadData
  rw [if_neg hdata, if_neg hdata, meets_bind]
  apply (wait_ends h hfuel _ _ _ w k).imp
  rintro ⟨err, status⟩ ⟨w, k₁⟩ hk₁
  dsimp only [restBound] at hk₁ ⊢
  rw [meets_ite]
  refine ⟨fun _ => ?_, fun _ => ?_⟩
  · rw [meets_pure]
    exact ⟨by dsimp only; omega, rfl⟩
  · rw [meets_bind]
    have hloop := readLoop_ends h hfuel chip base (readDest n) n fuel ⟨(tpmHeaderSize : Int) - tpmHeaderSize,
      tpmHeaderSize, buf⟩ w k₁ (by dsimp only; omega) (by dsimp only; omega) (by dsimp only; omega)
    apply ((dataLoop_header hdata chip n fuel fuel _ (w, k₁)).and hloop).mono
    · rintro r s ⟨hsame, hs, -⟩
      rw [meets_pure]
      have hdiff : ((n : Int) - tpmHeaderSize).toNat = n - tpmHeaderSize := by omega
      have hall : ((n : Int) - ((tpmHeaderSize : Int) - tpmHeaderSize)).toNat = n := by omega
      dsimp only at hs hsame ⊢
      rw [hdiff, hall] at hs
      exact ⟨by omega, hsame⟩
    · exact fun _ hc => hc.2

theorem cmdSize_of_header [Host] {c d : TpmCmd} (h : c.header = d.header) :
    (be32toh c.cmdSize).toNat = (be32toh d.cmdSize).toNat := by
  rw [← field_cmdSize, ← field_cmdSize, h]

theorem receive_ends [Host] (h : Expires port limit queries) {fuel : Nat} (hfuel : polls limit ≤ fuel)
    (hmax : maxSizeCmdbuf ≤ fuel) (chip : ChipData) (buf : TpmCmd) (w : W) (k : Nat) :
    Meets (tpm2FifoReceive (counted port) fuel chip buf) (w, k)
      (fun r s => s.2 ≤ k + receiveBound limit (be32toh r.2.cmdSize).toNat) (fun _ => False) := by
  have hheader : tpmHeaderSize ≤ maxSizeCmdbuf := by decide
  unfold tpm2FifoReceive
  dsimp only [receiveBound]
  rw [meets_bind]
  apply (headerPass_cost h hfuel (Nat.le_trans hheader hmax) chip _ buf w k).imp
  rintro ⟨err, size, buf⟩ ⟨w, k₁⟩ ⟨hk₁, hwhole⟩
  dsimp only at hk₁ hwhole ⊢
  have hpass (r : Int × TpmCmd) : k₁ ≤ k + (headerBound limit + restBound limit (be32toh r.2.cmdSize).toNat) :=
    Nat.le_trans hk₁ (Nat.add_le_add_left (Nat.le_add_right _ _) k)
  rw [meets_ite]
  refine ⟨fun _ => hpass (err, buf), fun herr => ?_⟩
  rw [meets_ite]
  refine ⟨fun _ => hpass (_, buf), fun hfits => ?_⟩
  rw [meets_ite]
  refine ⟨fun _ => hpass (size, buf), fun _ => ?_⟩
  have hsize : (be32toh buf.cmdSize).toNat ≤ maxSizeCmdbuf :=
    not_lt.mp fun hc => hfits ((sizeT_intOfUint32 _).mpr hc)
  obtain rfl := hwhole (not_lt.mp herr)
  rw [intOfUint32_of_le hsize, meets_bind]
  apply (dataPass_cost h hfuel (Nat.le_trans hsize hmax) chip _ buf w k₁).imp
  rintro ⟨err, size, buf'⟩ ⟨w, k₂⟩ ⟨hk₂, hsame⟩
  dsimp only at hk₂ hsame ⊢
  have hrest : k₂ ≤ k + (headerBound limit + restBound limit (be32toh buf'.cmdSize).toNat) := by
    rw [cmdSize_of_header hsame]
    omega
  rw [meets_ite]
  refine ⟨fun _ => hrest, fun _ => ?_⟩
  rw [meets_ite]
  exact ⟨fun _ => hrest, fun _ => hrest⟩

end Receive

section Progress

variable {port : FifoPort W} {limit : Nat} {queries : W → Nat}

/-- The states in which a receive pass tests its outer condition. -/
inductive Reached (port : FifoPort W) (fuel : Nat) (chip : ChipData) (base : UInt16) (dest : Nat → Dest)
    (readSize : Int) : ReadState → W → Prop
  | header {st : ReadState} {w : W} (h : st.loopIndex = st.size) :
      Reached port fuel chip base dest readSize st w
  | data {st : ReadState} {w : W} (h : st.loopIndex = st.size - tpmHeaderSize) :
      Reached port fuel chip base dest readSize st w
  | next {st : ReadState} {w w' : W} {r : Int × ReadState}
      (h : Reached port fuel chip base dest readSize st w) (hlt : st.size < readSize)
      (step : receiveIteration port fuel chip base dest readSize st w = (some r, w')) (ok : 0 ≤ r.1) :
      Reached port fuel chip base dest readSize r.2 w'

theorem Reached.index_le (h : Expires port limit queries) {fuel : Nat} (hfuel : polls limit ≤ fuel)
    {chip : ChipData} {base : UInt16} {dest : Nat → Dest} {readSize : Int} {st : ReadState} {s : W × Nat}
    (hr : Reached (counted port) fuel chip base dest readSize st s) : st.loopIndex ≤ st.size := by
  induction hr with
  | header h => exact le_of_eq h
  | data h => omega
  | next _ hlt step _ ih =>
      have hdiff := ((receiveIteration_ends h hfuel chip base dest ih hlt _ _).returned step).2.1
      omega

/-- Both transfers end within their bounds, and each round of their loops that
does not fail moves a byte. -/
theorem transfers_end [Host] (h : Expires port limit queries) {fuel : Nat} (hpolls : polls limit ≤ fuel)
    (hmax : maxSizeCmdbuf ≤ fuel) (chip : ChipData) (s : W × Nat) :
    (∀ cmd : TpmCmd, (be32toh cmd.cmdSize).toNat ≤ maxSizeCmdbuf →
      Meets (tpm2FifoSend (counted port) fuel chip cmd) s
        (fun _ s' => s'.2 ≤ s.2 + sendBound limit (be32toh cmd.cmdSize).toNat) (fun _ => False)) ∧
    (∀ buf : TpmCmd, Meets (tpm2FifoReceive (counted port) fuel chip buf) s
      (fun r s' => s'.2 ≤ s.2 + receiveBound limit (be32toh r.2.cmdSize).toNat) (fun _ => False)) ∧
    (∀ base buf len index, index < len → Meets (sendIteration (counted port) fuel chip base buf len index) s
      (fun r _ => 0 ≤ r.1 → index < r.2) (fun _ => False)) ∧
    (∀ base dest readSize st, Reached (counted port) fuel chip base dest readSize st s → st.size < readSize →
      Meets (receiveIteration (counted port) fuel chip base dest readSize st) s
        (fun r _ => 0 ≤ r.1 → st.size < r.2.size) (fun _ => False)) := by
  obtain ⟨w, k⟩ := s
  refine ⟨fun cmd hcmd => send_ends h hpolls chip cmd (Nat.le_trans hcmd hmax) w k,
    fun buf => receive_ends h hpolls hmax chip buf w k, fun base buf len index hlt => ?_,
    fun base dest readSize st hr hlt => ?_⟩
  · apply (sendIteration_ends h hpolls chip base buf hlt w k).imp
    exact fun _ _ hs hok => (hs.2.2 hok).1
  · apply (receiveIteration_ends h hpolls chip base dest (hr.index_le h hpolls) hlt w k).imp
    rintro r s ⟨-, hdiff, -, hdone⟩ hok
    have hmoved := (hdone hok).1
    omega

end Progress

/-- A device that shows what the driver waits for at every second look only,
and takes and gives one byte after each burst count. -/
structure Slow where
  ready : Bool
  received : Nat
  given : Nat
  deriving DecidableEq

def slowResponse : List UInt8 := [0x80, 1, 0, 0, 0, 12, 0, 0, 0, 0, 0xAA, 0x55]

def Slow.status (s : Slow) : UInt8 :=
  if s.received = 0 then tpmStatValid ||| tpmStatCommandReady
  else if s.received < 12 then tpmStatValid ||| tpmStatExpect
  else tpmStatValid ||| tpmStatAvail

def Slow.look (reg : UInt16) (s : Slow) : UInt8 × Slow :=
  let shown (val : UInt8) := (if s.ready then val else 0, { s with ready := !s.ready })
  if reg = fifoReg (localityStartAddress 0) tpmFifoRegAccess then shown (tpmAccessValid ||| tpmAccessActiveLocality)
  else if reg = fifoReg (localityStartAddress 0) tpmFifoRegStatus then shown s.status
  else if reg = fifoReg (localityStartAddress 0) tpmFifoRegBurstCountLo then shown 1
  else if reg = fifoReg (localityStartAddress 0) tpmFifoRegDataFifo then
    (slowResponse.getD s.given 0, { s with given := s.given + 1 })
  else (0, s)

def Slow.take (reg : UInt16) (s : Slow) : Slow :=
  if reg = fifoReg (localityStartAddress 0) tpmFifoRegDataFifo then { s with received := s.received + 1 } else s

def slow : FifoPort (Slow × Nat) where
  timeoutInitUs _ := fun w => (0, w.1, 0)
  timeoutElapsed _ := fun w => (decide (3 ≤ w.2 + 1), w.1, w.2 + 1)
  writeByte reg _ := fun w => (0, w.1.take reg, w.2)
  readByte reg _ := fun w => ((0, (w.1.look reg).1), (w.1.look reg).2, w.2)
  readChunk _ len := fun w => ((0, Vector.replicate len.toNat 0), w)

theorem slow_expires : Expires slow 3 Prod.snd where
  init _ _ := rfl
  query _ _ h := ⟨rfl, not_le.mp (of_decide_eq_false h)⟩
  write _ _ _ := rfl
  read _ _ _ := rfl
  readChunk _ _ _ := rfl

theorem transfers_end_slow :
    letI := littleHost
    let resp := TpmCmd.zero.setBytes 0 slowResponse
    tpm2FifoSend (counted slow) 256 ⟨0, tpmTimeouts⟩ (TpmCmd.zero.setByte 5 12) ((⟨false, 0, 0⟩, 0), 0) =
      (some tpmSuccess, (⟨false, 12, 0⟩, 1), 26) ∧ 26 ≤ sendBound 3 12 ∧
    tpm2FifoReceive (counted slow) 256 ⟨0, tpmTimeouts⟩ TpmCmd.zero ((⟨false, 12, 0⟩, 1), 26) =
      (some (tpmSuccess, resp), (⟨false, 12, 12⟩, 1), 90) ∧ 90 ≤ 26 + receiveBound 3 12 := by
  let _ := littleHost
  intro resp
  have hsend : tpm2FifoSend (counted slow) 256 ⟨0, tpmTimeouts⟩ (TpmCmd.zero.setByte 5 12) ((⟨false, 0, 0⟩, 0), 0) =
      (some tpmSuccess, (⟨false, 12, 0⟩, 1), 26) := by decide +kernel
  have hreceive : tpm2FifoReceive (counted slow) 256 ⟨0, tpmTimeouts⟩ TpmCmd.zero ((⟨false, 12, 0⟩, 1), 26) =
      (some (tpmSuccess, resp), (⟨false, 12, 12⟩, 1), 90) := by decide +kernel
  have hcmd : (be32toh (TpmCmd.zero.setByte 5 12).cmdSize).toNat = 12 := by decide +kernel
  have hresp : (be32toh resp.cmdSize).toNat = 12 := by decide +kernel
  have hends := transfers_end slow_expires (show polls 3 ≤ 256 by decide) (show maxSizeCmdbuf ≤ 256 by decide)
    ⟨0, tpmTimeouts⟩
  have hsent := Meets.returned ((hends _).1 (TpmCmd.zero.setByte 5 12) (by decide +kernel)) hsend
  have hreceived := Meets.returned ((hends _).2.1 TpmCmd.zero) hreceive
  dsimp only at hsent hreceived
  rw [hcmd, Nat.zero_add] at hsent
  rw [hresp] at hreceived
  exact ⟨hsend, hsent, hreceive, hreceived⟩

end LibTpm.AccessBounds
