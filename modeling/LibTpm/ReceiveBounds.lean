import LibTpm.ReceiveRuns

namespace LibTpm.ReceiveBounds

open LibTpm.Base.Process LibTpm.Base.Process.Proc LibTpm.Base.BigEndian LibTpm.Command
open LibTpm.Constants LibTpm.Endian LibTpm.Platform LibTpm.Fifo LibTpm.FifoTrace LibTpm.ReceiveRuns
open LibTpm.ReceiveRuns.Behaviour

variable {b : Behaviour} {buf : TpmCmd}

theorem target_header : Target (readDest tpmReadHeader) 0 where
  named y := by
    rw [readDest, if_pos rfl]
    exact Dest.noConfusion
  store buf v y := by
    rw [readDest, if_pos rfl, Nat.zero_add]
    rfl

theorem target_data {expected : Int} (h : expected ≠ tpmReadHeader) :
    Target (readDest expected) tpmHeaderSize where
  named y := by
    rw [readDest, if_neg h]
    exact Dest.noConfusion
  store buf v y := by
    rw [readDest, if_neg h]
    rfl

def responseSize (b : Behaviour) : Nat :=
  (of32 (b.fifo 2).2 (b.fifo 3).2 (b.fifo 4).2 (b.fifo 5).2).toNat

theorem cmdSize_received [Host] (h : Received b buf tpmHeaderSize) :
    (be32toh buf.cmdSize).toNat = responseSize b := by
  rw [TpmCmd.be32toh_cmdSize, h 2 (by decide) (by decide), h 3 (by decide) (by decide),
    h 4 (by decide) (by decide), h 5 (by decide) (by decide)]
  rfl

theorem intOfUint32_eq (x : UInt32) :
    intOfUint32 x = if 2 * x.toNat < 2 ^ 32 then (x.toNat : Int) else x.toNat - 2 ^ 32 := by
  rw [intOfUint32, BitVec.toInt_eq_toNat_cond]
  rfl

theorem intOfUint32_of_le {x : UInt32} (h : x.toNat ≤ maxSizeCmdbuf) : intOfUint32 x = x.toNat := by
  have hmax : maxSizeCmdbuf = 256 := rfl
  rw [intOfUint32_eq, if_pos (by omega)]

theorem sizeT_intOfUint32 (x : UInt32) :
    sizeT (intOfUint32 x) > maxSizeCmdbuf ↔ maxSizeCmdbuf < x.toNat := by
  have hlt := x.toNat_lt
  have hmax : maxSizeCmdbuf = 256 := rfl
  rw [intOfUint32_eq, sizeT]
  split <;> omega

structure HeaderBursts (b : Behaviour) (h : Nat) : Prop where
  pending : ∀ i < h, b.carried 0 i < tpmHeaderSize
  full : tpmHeaderSize ≤ b.carried 0 h

theorem HeaderBursts.unique {h h' : Nat} (x : HeaderBursts b h) (y : HeaderBursts b h') : h = h' := by
  rcases Nat.lt_trichotomy h h' with hlt | heq | hlt
  · exact absurd (y.pending h hlt) (not_lt.mpr x.full)
  · exact heq
  · exact absurd (x.pending h' hlt) (not_lt.mpr y.full)

/-- The header pass ends well, after `p` polls in vain and with `h` bursts. -/
structure HeaderRead (b : Behaviour) (p h : Nat) : Prop extends HeaderBursts b h where
  avail : b.Avail 0 0 p
  bursts : ∀ i < h, b.BurstOk i
  fifo : b.FifoOk tpmHeaderSize

theorem HeaderRead.reads {p h z : Nat} (x : HeaderRead b p h) (hz : z < tpmHeaderSize) :
    b.Reads 0 tpmHeaderSize 0 z := by
  obtain ⟨k, hk, -, hzk⟩ := exists_burst (Nat.lt_of_lt_of_le hz x.full)
  refine ⟨⟨k, x.pending k hk, hz, hzk, fun i hi => ?_, fun i hi => x.fifo i (by omega)⟩,
    x.fifo _ (by omega)⟩
  rw [Nat.zero_add]
  exact x.bursts i (Nat.lt_of_le_of_lt hi hk)

theorem HeaderRead.unique {p h p' h' : Nat} (x : HeaderRead b p h) (y : HeaderRead b p' h') :
    p = p' ∧ h = h' :=
  ⟨x.avail.unique y.avail, x.toHeaderBursts.unique y.toHeaderBursts⟩

def headerDests : List Dest := (List.range tpmHeaderSize).map .header

/-- How a receive returns. -/
inductive Returned (b : Behaviour) : Int × TpmCmd → Asked × List Access → Prop
  | header {y : Nat} {r : Int × TpmCmd} {w : Asked × List Access} (hy : y ≤ tpmHeaderSize)
      (log : stored w.2 = (List.range y).map .header) (failed : r.1 < 0)
      (unread : ∀ p h, ¬ HeaderRead b p h) : Returned b r w
  | tooLong {p h : Nat} {r : Int × TpmCmd} {w : Asked × List Access} (header : HeaderRead b p h)
      (long : maxSizeCmdbuf < responseSize b) (log : stored w.2 = headerDests) (failed : r.1 < 0) :
      Returned b r w
  | short {p h : Nat} {r : Int × TpmCmd} {w : Asked × List Access} (header : HeaderRead b p h)
      (short : responseSize b = tpmHeaderSize) (log : stored w.2 = headerDests) (ok : 0 ≤ r.1)
      (received : Received b r.2 tpmHeaderSize) (asked : w.1.fifo = tpmHeaderSize) : Returned b r w
  | unavailable {p h : Nat} {r : Int × TpmCmd} {w : Asked × List Access} (header : HeaderRead b p h)
      (fits : responseSize b ≤ maxSizeCmdbuf) (rest : responseSize b ≠ tpmHeaderSize)
      (log : stored w.2 = headerDests) (failed : r.1 < 0) (unread : ∀ q, ¬ b.Avail (p + 1) p q) :
      Returned b r w
  | body {p h q y m : Nat} {n : Asked} {err : Int} {st : ReadState} {r : Int × TpmCmd}
      {w : Asked × List Access} (header : HeaderRead b p h) (fits : responseSize b ≤ maxSizeCmdbuf)
      (rest : responseSize b ≠ tpmHeaderSize) (avail : b.Avail (p + 1) p q)
      (passed : Passed b .data tpmHeaderSize (responseSize b) h headerDests n y m (err, st) w)
      (failed : err < 0 → r.1 < 0) (ok : 0 ≤ err → 0 ≤ r.1) (received : r.2 = st.buf) :
      Returned b r w

/-- How a receive with the polls and rounds of `fuel` can still be going on. -/
inductive Pending (b : Behaviour) (fuel : Nat) : Asked × List Access → Prop
  | header {y : Nat} {w : Asked × List Access} (hy : y ≤ tpmHeaderSize)
      (log : stored w.2 = (List.range y).map .header)
      (few : ∀ p h, HeaderRead b p h → fuel ≤ p ∨ fuel < tpmHeaderSize) : Pending b fuel w
  | body {p h y : Nat} {w : Asked × List Access} (header : HeaderRead b p h)
      (fits : responseSize b ≤ maxSizeCmdbuf) (rest : responseSize b ≠ tpmHeaderSize)
      (log : stored w.2 = headerDests ++ (List.range y).map .data)
      (asks : ∀ z < y, b.Asks tpmHeaderSize (responseSize b) h z)
      (avail : y ≠ 0 → ∃ q, b.Avail (p + 1) p q)
      (few : ∀ q, b.Avail (p + 1) p q → fuel ≤ q ∨ fuel < responseSize b) : Pending b fuel w

theorem readDest_header : readDest tpmReadHeader = .header := by
  funext y
  rw [readDest, if_pos rfl]

theorem readDest_data {expected : Int} (h : expected ≠ tpmReadHeader) : readDest expected = .data := by
  funext y
  rw [readDest, if_neg h]

theorem asks_header {m : Nat} (hasks : ∀ z < m, b.Asks 0 tpmHeaderSize 0 z) : m ≤ tpmHeaderSize := by
  by_contra hm
  obtain ⟨-, -, hlt, -⟩ := hasks tpmHeaderSize (not_le.mp hm)
  exact Nat.lt_irrefl _ hlt

/-- The header pass ends the receive, or leaves the ten bytes of the header. -/
theorem headerPass_reads (hburst : ∀ i, b.BurstOk i → 0 < b.burst i) (chip : ChipData) (buf : TpmCmd)
    (fuel : Nat) :
    Meets (tpm2FifoReadData (b.port (localityStartAddress chip.locality)).recorded fuel chip buf
        (localityStartAddress chip.locality) 0 tpmReadHeader) (.none, [])
      (fun r w => (r.1 < 0 ∧ Returned b (r.1, r.2.2) w) ∨ (0 ≤ r.1 ∧ ∃ p h, HeaderRead b p h ∧
        w.1 = ⟨p + 1, h, h, tpmHeaderSize, p⟩ ∧ stored w.2 = headerDests ∧ r.2.1 = (tpmHeaderSize : Nat) ∧
        Received b r.2.2 tpmHeaderSize))
      (fun w => Pending b fuel w) := by
  have hpass := readData_reads target_header rfl rfl hburst chip .none (rfl : _ = 0) rfl rfl buf
    (fun i hi => absurd hi (Nat.not_lt_zero i)) (fun i hi => absurd hi (Nat.not_lt_zero i)) fuel []
  rw [readDest_header] at hpass
  refine Meets.mono hpass ?_ ?_
  · rintro ⟨err, size, buf⟩ ⟨n, log⟩ (⟨herr, hlog, hnot⟩ | ⟨p, y, m, st, hp, hst, hpassed⟩)
    · exact .inl ⟨herr, .header (Nat.zero_le tpmHeaderSize) hlog herr fun p h hr => hnot p hr.avail⟩
    obtain ⟨hat, hasks, -, hfailed, -, hdone⟩ := hpassed
    dsimp only at hat hfailed hdone ⊢
    by_cases herr : err < 0
    · obtain ⟨hy, hnot⟩ := hfailed herr
      exact .inl ⟨herr, .header (asks_header hasks) hat.log herr fun p h hr => hnot (hr.reads hy)⟩
    obtain ⟨rfl, h, hprev, hok, hy, hfull, hn⟩ := hdone (not_lt.mp herr)
    obtain ⟨rfl, rfl⟩ := Prod.mk.inj hst
    obtain rfl : m = tpmHeaderSize := by omega
    have hheader : HeaderRead b p h := by
      refine ⟨⟨hprev, by omega⟩, hp, fun i hi => ?_, ?_⟩
      · have := hok i hi
        rwa [Nat.zero_add] at this
      · have := hat.ok
        rwa [Nat.zero_add] at this
    refine .inr ⟨not_lt.mp herr, p, h, hheader, ?_, hat.log, ?_, ?_⟩
    · rw [hn]
      simp [Asked.none]
    · rw [hat.size]
      rfl
    · have := hat.received
      rwa [Nat.zero_add] at this
  · rintro w ⟨y, hlog, hasks, -, hfew⟩
    exact .header (asks_header hasks) hlog fun p h hr => hfew p hr.avail

/-- The receive from the header on, when the response has more than its header and fits. -/
theorem bodyPass_reads (hburst : ∀ i, b.BurstOk i → 0 < b.burst i) (chip : ChipData) (buf : TpmCmd) (fuel : Nat)
    {p h : Nat} (hheader : HeaderRead b p h) (hfits : responseSize b ≤ maxSizeCmdbuf)
    (hrest : responseSize b ≠ tpmHeaderSize) (hreceived : Received b buf tpmHeaderSize) {log : List Access}
    (hlog : stored log = headerDests) :
    Meets (do
        let (err, size, buf) ← tpm2FifoReadData (b.port (localityStartAddress chip.locality)).recorded fuel chip buf
          (localityStartAddress chip.locality) (tpmHeaderSize : Nat) (responseSize b : Nat)
        if err < 0 then return (err, buf)
        if size < (responseSize b : Nat) then return (tpmErrResponse, buf)
        return (tpmSuccess, buf))
      (⟨p + 1, h, h, tpmHeaderSize, p⟩, log) (fun r w => Returned b r w) (fun w => Pending b fuel w) := by
  have hdata := size_ne_readHeader (responseSize b)
  have hbody := readData_reads (target_data hdata) (if_neg hdata) (by rw [if_neg hdata]; exact Int.sub_self _)
    hburst chip ⟨p + 1, h, h, tpmHeaderSize, p⟩ rfl rfl rfl buf hreceived hheader.fifo fuel log
  rw [readDest_data hdata, hlog] at hbody
  rw [meets_bind]
  refine Meets.mono hbody ?_ ?_
  · rintro ⟨err, size, buf⟩ w (⟨herr, hlog, hnot⟩ | ⟨q, y, m, st, hq, hst, hpassed⟩)
    · dsimp only at herr ⊢
      rw [if_pos herr]
      exact .unavailable hheader hfits hrest hlog herr hnot
    · obtain ⟨rfl, rfl⟩ := Prod.mk.inj hst
      have hdone := hpassed.done
      have hsize := hpassed.stored.size
      dsimp only at hdone hsize hpassed ⊢
      by_cases herr : err < 0
      · rw [if_pos herr]
        exact .body hheader hfits hrest hq hpassed (fun h => h) (fun h => h) rfl
      · obtain ⟨rfl, -, -, -, -, hfull, -⟩ := hdone (not_lt.mp herr)
        rw [if_neg herr, hsize, if_neg (by omega)]
        exact .body hheader hfits hrest hq hpassed (fun h => absurd h herr) (fun _ => Int.le_refl 0) rfl
  · rintro w ⟨y, hlog, hasks, havail, hfew⟩
    exact .body hheader hfits hrest hlog hasks havail hfew

theorem receive_ends [Host] (hburst : ∀ i, b.BurstOk i → 0 < b.burst i) (chip : ChipData)
    (buf : TpmCmd) (fuel : Nat) :
    Meets (tpm2FifoReceive (b.port (localityStartAddress chip.locality)).recorded fuel chip buf)
      (.none, []) (fun r w => Returned b r w) (fun w => Pending b fuel w) := by
  unfold tpm2FifoReceive
  dsimp only
  rw [meets_bind]
  refine (headerPass_reads hburst chip buf fuel).imp ?_
  rintro ⟨err, size, buf⟩ ⟨n, log⟩ (⟨herr, hreturned⟩ | ⟨herr, p, h, hheader, hn, hlog, hsize, hreceived⟩)
  · dsimp only at herr hreturned ⊢
    rw [if_pos herr]
    exact hreturned
  dsimp only at herr hn hlog hsize hreceived ⊢
  subst hn hsize
  have hcmd := cmdSize_received hreceived
  have hbig : sizeT (intOfUint32 (be32toh buf.cmdSize)) > maxSizeCmdbuf ↔ maxSizeCmdbuf < responseSize b := by
    rw [sizeT_intOfUint32, hcmd]
  rw [if_neg (not_lt.mpr herr)]
  by_cases hlong : maxSizeCmdbuf < responseSize b
  · rw [if_pos (hbig.mpr hlong)]
    exact .tooLong hheader hlong hlog (show tpmInvalidParam < 0 by decide)
  have hint : intOfUint32 (be32toh buf.cmdSize) = responseSize b := by
    rw [← hcmd]
    exact intOfUint32_of_le (by rw [hcmd]; exact not_lt.mp hlong)
  rw [if_neg (mt hbig.mp hlong), hint]
  by_cases hshort : responseSize b = tpmHeaderSize
  · rw [if_pos (congrArg Nat.cast hshort.symm)]
    exact .short hheader hshort hlog (Int.natCast_nonneg _) hreceived rfl
  have hrest : ¬ ((tpmHeaderSize : Nat) : Int) = (responseSize b : Nat) := fun hc => hshort (Int.ofNat.inj hc).symm
  rw [if_neg hrest]
  exact bodyPass_reads hburst chip buf fuel hheader (not_lt.mp hlong) hshort hreceived hlog

/-- The byte with the index 246 of the data is asked for: the burst that
completes the response carries at least that much, so does the size field, and
the accesses before it succeed. Its own access may fail. -/
def Overruns (b : Behaviour) : Prop :=
  ∃ p h q, HeaderRead b p h ∧ responseSize b ≤ maxSizeCmdbuf ∧ b.Avail (p + 1) p q ∧
    b.Asks tpmHeaderSize (responseSize b) h maxCmdData

theorem header_inside {y : Nat} (hy : y ≤ tpmHeaderSize) :
    ∀ d ∈ (List.range y).map Dest.header, d.Inside := by
  intro d hd
  obtain ⟨i, hi, rfl⟩ := List.mem_map.mp hd
  exact Nat.lt_of_lt_of_le (List.mem_range.mp hi) hy

theorem data_inside {p h y : Nat} (hb : ¬ Overruns b) (header : HeaderRead b p h)
    (fits : responseSize b ≤ maxSizeCmdbuf)
    (asks : ∀ z < y, b.Asks tpmHeaderSize (responseSize b) h z)
    (avail : y ≠ 0 → ∃ q, b.Avail (p + 1) p q) :
    ∀ d ∈ headerDests ++ (List.range y).map Dest.data, d.Inside := by
  intro d hd
  rcases List.mem_append.mp hd with hd | hd
  · exact header_inside (Nat.le_refl _) d hd
  · obtain ⟨i, hi, rfl⟩ := List.mem_map.mp hd
    have hiy := List.mem_range.mp hi
    by_contra hge
    obtain ⟨q, hq⟩ := avail (by omega)
    exact hb ⟨p, h, q, header, fits, hq, (asks i hiy).le (not_lt.mp hge)⟩

section Stores

variable [Host]

def receiveRun (b : Behaviour) (chip : ChipData) (buf : TpmCmd) (fuel : Nat) :
    Option (Int × TpmCmd) × (Asked × List Access) :=
  tpm2FifoReceive (b.port (localityStartAddress chip.locality)).recorded fuel chip buf (.none, [])

theorem stored_inside (hburst : ∀ i, b.BurstOk i → 0 < b.burst i) (hb : ¬ Overruns b)
    (chip : ChipData) (buf : TpmCmd) (fuel : Nat) :
    ∀ d ∈ stored (receiveRun b chip buf fuel).2.2, d.Inside := by
  apply Meets.world (C := fun w : Asked × List Access => ∀ d ∈ stored w.2, d.Inside)
  refine (receive_ends hburst chip buf fuel).mono ?_ ?_
  · intro r w hr
    cases hr with
    | header hy log failed unread =>
        rw [log]
        exact header_inside hy
    | tooLong header long log failed =>
        rw [log]
        exact header_inside (Nat.le_refl _)
    | short header short log ok received asked =>
        rw [log]
        exact header_inside (Nat.le_refl _)
    | unavailable header fits rest log failed unread =>
        rw [log]
        exact header_inside (Nat.le_refl _)
    | @body _ _ q _ _ _ _ _ _ _ header fits rest avail passed failed ok received =>
        rw [passed.stored.log]
        exact data_inside hb header fits passed.asks fun _ => ⟨q, avail⟩
  · intro w hw
    cases hw with
    | header hy log few =>
        rw [log]
        exact header_inside hy
    | body header fits rest log asks avail few =>
        rw [log]
        exact data_inside hb header fits asks avail

/-- An overrun is reached with enough polls and rounds. -/
theorem overruns_stores (hburst : ∀ i, b.BurstOk i → 0 < b.burst i) (hb : Overruns b)
    (chip : ChipData) (buf : TpmCmd) :
    ∃ fuel, Dest.data maxCmdData ∈ stored (receiveRun b chip buf fuel).2.2 := by
  obtain ⟨p, h, q, hheader, hfits, havail, hasks⟩ := hb
  have hover : maxCmdData < responseSize b := hasks.choose_spec.2.1
  have hmax : maxSizeCmdbuf = 256 := rfl
  have hdata : maxCmdData = 246 := rfl
  have hten : tpmHeaderSize = 10 := rfl
  refine ⟨p + q + 300, ?_⟩
  apply Meets.world (C := fun w : Asked × List Access => Dest.data maxCmdData ∈ stored w.2)
  refine (receive_ends hburst chip buf (p + q + 300)).mono ?_ ?_
  · intro r w hr
    cases hr with
    | header hy log failed unread => exact absurd hheader (unread p h)
    | tooLong header long log failed => omega
    | short header short log ok received asked => omega
    | unavailable header fits rest log failed unread =>
        obtain ⟨rfl, rfl⟩ := header.unique hheader
        exact absurd havail (unread q)
    | body header fits rest avail passed failed ok received =>
        obtain ⟨rfl, rfl⟩ := header.unique hheader
        rw [passed.stored.log]
        exact List.mem_append_right _ (List.mem_map_of_mem (List.mem_range.mpr (passed.lt hasks)))
  · intro w hw
    cases hw with
    | header hy log few =>
        have := few p h hheader
        omega
    | body header fits rest log asks avail few =>
        obtain ⟨rfl, rfl⟩ := header.unique hheader
        have := few q havail
        omega

/-- All objects that a receive hands out to be stored to are inside the buffer,
whatever the device does, exactly when no burst runs over the end of the data. -/
theorem stores_inside_iff (hburst : ∀ i, b.BurstOk i → 0 < b.burst i) (chip : ChipData)
    (buf : TpmCmd) :
    (∀ fuel, ∀ d ∈ stored (receiveRun b chip buf fuel).2.2, d.Inside) ↔ ¬ Overruns b := by
  constructor
  · intro hinside hover
    obtain ⟨fuel, hmem⟩ := overruns_stores hburst hover chip buf
    exact absurd (hinside fuel _ hmem) (Nat.lt_irrefl maxCmdData)
  · intro hb fuel
    exact stored_inside hburst hb chip buf fuel

end Stores

/-- A device that is always ready, with bursts of one length, and a response of
zeros but for its size field. -/
def steady (burst size : UInt16) : Behaviour where
  status _ := (0, tpmStatAvail)
  burstLo _ := (0, burst.toUInt8)
  burstHi _ := (0, (burst >>> 8).toUInt8)
  fifo i := (0, if i = 4 then (size >>> 8).toUInt8 else if i = 5 then size.toUInt8 else 0)
  elapsed _ := false

section Steady

variable {burst size : UInt16}

theorem steady_burstOk (i : Nat) : (steady burst size).BurstOk i := ⟨Int.le_refl 0, Int.le_refl 0⟩

theorem steady_fifoOk (n : Nat) : (steady burst size).FifoOk n := fun _ _ => Int.le_refl 0

theorem steady_avail (s t : Nat) : (steady burst size).Avail s t 0 where
  unready q hq := absurd hq (Nat.not_lt_zero q)
  ok := Int.le_refl 0
  avail := by simp [steady]

theorem steady_burst (i : Nat) : (steady burst size).burst i = (steady burst size).burst 0 := rfl

theorem steady_positive (h : 0 < (steady burst size).burst 0) (i : Nat)
    (_ : (steady burst size).BurstOk i) : 0 < (steady burst size).burst i := by
  rwa [steady_burst]

theorem steady_carried (first k : Nat) :
    (steady burst size).carried first k = k * (steady burst size).burst 0 := by
  induction k with
  | zero => exact (Nat.zero_mul _).symm
  | succ k ih => rw [carried, ih, steady_burst (first + k), Nat.succ_mul]

end Steady

theorem stores_inside_iff_single :
    letI := littleHost
    (∀ fuel, ∀ d ∈ stored (receiveRun (steady 1 256) tpmChipData TpmCmd.zero fuel).2.2, d.Inside) ↔
      ¬ Overruns (steady 1 256) := by
  let _ := littleHost
  exact stores_inside_iff (steady_positive (by decide)) tpmChipData TpmCmd.zero

theorem steady_overruns : Overruns (steady 300 256) := by
  have hburst : (steady 300 256).burst 0 = 300 := by decide
  refine ⟨0, 1, 0, ⟨⟨?_, ?_⟩, steady_avail 0 0, fun i _ => steady_burstOk i, steady_fifoOk _⟩, by decide,
    steady_avail _ _, 0, ?_, by decide, ?_, fun i _ => steady_burstOk _, steady_fifoOk _⟩
  · intro i hi
    rw [Nat.lt_one_iff.mp hi]
    decide
  · rw [steady_carried, hburst]
    decide
  · rw [steady_carried, hburst]
    decide
  · rw [steady_carried, hburst]
    decide

theorem stores_outside :
    letI := littleHost
    ¬ ∀ fuel, ∀ d ∈ stored (receiveRun (steady 300 256) tpmChipData TpmCmd.zero fuel).2.2, d.Inside := by
  let _ := littleHost
  intro hinside
  obtain ⟨fuel, hmem⟩ := overruns_stores (steady_positive (by decide)) steady_overruns tpmChipData TpmCmd.zero
  exact absurd (hinside fuel _ hmem) (Nat.lt_irrefl maxCmdData)

end LibTpm.ReceiveBounds
