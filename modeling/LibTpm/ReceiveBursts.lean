import LibTpm.ReceiveBounds

namespace LibTpm.ReceiveBursts

open LibTpm.Base.Process LibTpm.Base.Process.Proc LibTpm.Command LibTpm.Constants LibTpm.Endian
open LibTpm.Platform LibTpm.Fifo LibTpm.ReceiveRuns LibTpm.ReceiveRuns.Behaviour LibTpm.ReceiveBounds

variable {b : Behaviour}

/-- No access of the bursts or the FIFO fails, and both waits for AVAIL end in time. -/
structure Undisturbed (b : Behaviour) : Prop where
  bursts (i : Nat) : b.BurstOk i
  fifo (n : Nat) : b.FifoOk n
  avail : ∃ p q, b.Avail 0 0 p ∧ b.Avail (p + 1) p q

/-- With enough polls and rounds the receive returns the response and has read
no byte beyond it. -/
def ReadsExactly [Host] (b : Behaviour) (chip : ChipData) (buf : TpmCmd) : Prop :=
  ∃ enough, ∀ fuel ≥ enough, ∃ ret out w, receiveRun b chip buf fuel = (some (ret, out), w) ∧ 0 ≤ ret ∧
    w.1.fifo = responseSize b ∧
    out.bytes.take (responseSize b) = (List.range (responseSize b)).map fun i => (b.fifo i).2

/-- After the `h` bursts of the header, some number of bursts carries exactly
the rest of the response. -/
def LandsExactly (b : Behaviour) : Prop :=
  ∃ h k, HeaderBursts b h ∧ b.carried h k + tpmHeaderSize = responseSize b

theorem bytes_of_received {buf : TpmCmd} {n : Nat} (h : Received b buf n) (hn : n ≤ maxSizeCmdbuf) :
    buf.bytes.take n = (List.range n).map fun i => (b.fifo i).2 := by
  apply List.ext_getElem
  · rw [List.length_take, buf.length_bytes, List.length_map, List.length_range, Nat.min_eq_left hn]
  · intro i hi hi'
    rw [List.length_map, List.length_range] at hi'
    have hmax : i < maxSizeCmdbuf := Nat.lt_of_lt_of_le hi' hn
    rw [List.getElem_take, List.getElem_map, List.getElem_range, ← h i hi' hmax,
      TpmCmd.byte_eq_getElem]

theorem exists_headerBursts (hburst : ∀ i, b.BurstOk i → 0 < b.burst i) (hb : ∀ i, b.BurstOk i) :
    ∃ h, HeaderBursts b h := by
  have hex : ∃ h, tpmHeaderSize ≤ b.carried 0 h :=
    ⟨tpmHeaderSize, le_carried hburst fun i _ => hb _⟩
  exact ⟨Nat.find hex, fun i hi => not_le.mp (Nat.find_min hex hi), Nat.find_spec hex⟩

section Response

variable [Host]

/-- Whatever the bursts, a receive that nothing disturbs returns the response.
The body takes the first bursts that carry the rest, and the last of them to its
end or to the index of the size field. -/
theorem receive_returns (hburst : ∀ i, b.BurstOk i → 0 < b.burst i) (hb : Undisturbed b)
    (hmax : responseSize b ≤ maxSizeCmdbuf) {h : Nat} (hh : HeaderBursts b h) (chip : ChipData)
    (buf : TpmCmd) : ∃ enough, ∀ fuel ≥ enough, ∃ ret out w k,
      receiveRun b chip buf fuel = (some (ret, out), w) ∧ 0 ≤ ret ∧ Received b out (responseSize b) ∧
        (∀ i < k, b.carried h i + tpmHeaderSize < responseSize b) ∧
        responseSize b ≤ b.carried h k + tpmHeaderSize ∧
        w.1.fifo = tpmHeaderSize + min (responseSize b) (b.carried h k) := by
  obtain ⟨p, q, hp, hq⟩ := hb.avail
  have hheader : HeaderRead b p h := ⟨hh, hp, fun i _ => hb.bursts i, hb.fifo _⟩
  have hten : tpmHeaderSize = 10 := rfl
  have h256 : maxSizeCmdbuf = 256 := rfl
  refine ⟨p + q + 300, fun fuel hfuel => ?_⟩
  have hend := receive_ends hburst chip buf fuel
  rcases hrun : receiveRun b chip buf fuel with ⟨_ | ⟨ret, out⟩, w⟩
  · have hpending := hend.polling hrun
    cases hpending with
    | header hy log few =>
        have := few p h hheader
        omega
    | body header fits rest log asks avail few =>
        obtain ⟨rfl, rfl⟩ := header.unique hheader
        have := few q hq
        omega
  · have hreturned := hend.returned hrun
    cases hreturned with
    | header hy log failed unread => exact absurd hheader (unread p h)
    | tooLong header long log failed => omega
    | unavailable header fits rest log failed unread =>
        obtain ⟨rfl, rfl⟩ := header.unique hheader
        exact absurd hq (unread q)
    | short header short log ok received asked =>
        refine ⟨ret, out, w, 0, rfl, ok, ?_, fun i hi => absurd hi (Nat.not_lt_zero i), ?_, ?_⟩
        · rwa [short]
        · rw [short]
          exact Nat.le_add_left _ _
        · rw [asked]
          exact (congrArg (tpmHeaderSize + ·) (Nat.min_zero _)).symm
    | @body _ _ _ y m n err st _ _ header fits rest avail passed failed ok received =>
        obtain ⟨rfl, rfl⟩ := header.unique hheader
        have herr : 0 ≤ err := by
          by_contra hlt
          obtain ⟨i, hi | hi⟩ := passed.faulty (not_le.mp hlt)
          · exact hi (hb.bursts i)
          · exact hi (hb.fifo i)
        obtain ⟨rfl, k, hprev, -, hy, hfull, hw⟩ := passed.done herr
        refine ⟨ret, out, w, k, rfl, ok herr, ?_, hprev, by omega, ?_⟩
        · dsimp only at received
          rw [received]
          intro i hi hfit
          exact passed.stored.received i (by omega) hfit
        · rw [hw, hy]

theorem ReadsExactly.lands (hburst : ∀ i, b.BurstOk i → 0 < b.burst i) (hb : Undisturbed b)
    (hmax : responseSize b ≤ maxSizeCmdbuf) {chip : ChipData} {buf : TpmCmd}
    (hexact : ReadsExactly b chip buf) : LandsExactly b := by
  have hten : tpmHeaderSize = 10 := rfl
  obtain ⟨h, hh⟩ := exists_headerBursts hburst hb.bursts
  obtain ⟨enough, hreturns⟩ := receive_returns hburst hb hmax hh chip buf
  obtain ⟨enough', hexact⟩ := hexact
  obtain ⟨ret, out, w, k, hrun, -, -, -, hfull, hfifo⟩ := hreturns (max enough enough') (by omega)
  obtain ⟨ret', out', w', hrun', -, hfifo', -⟩ := hexact (max enough enough') (by omega)
  obtain ⟨-, rfl⟩ := Prod.mk.inj (hrun.symm.trans hrun')
  exact ⟨h, k, hh, by omega⟩

/-- A receive that nothing disturbs reads exactly the bytes of the response
when the last burst ends with it, and only then. -/
theorem readsExactly_iff (hburst : ∀ i, b.BurstOk i → 0 < b.burst i) (hb : Undisturbed b)
    (hmax : responseSize b ≤ maxSizeCmdbuf) (chip : ChipData) (buf : TpmCmd) :
    ReadsExactly b chip buf ↔ LandsExactly b := by
  constructor
  · exact ReadsExactly.lands hburst hb hmax
  · rintro ⟨h, k, hh, hlands⟩
    obtain ⟨enough, hreturns⟩ := receive_returns hburst hb hmax hh chip buf
    refine ⟨enough, fun fuel hfuel => ?_⟩
    obtain ⟨ret, out, w, k', hrun, hret, hreceived, hprev, hfull, hfifo⟩ := hreturns fuel hfuel
    refine ⟨ret, out, w, hrun, hret, ?_, bytes_of_received hreceived hmax⟩
    have hkk : k' ≤ k := by
      by_contra hlt
      have := hprev k (not_le.mp hlt)
      omega
    have hmono : b.carried h k' ≤ b.carried h k := carried_mono hkk
    omega

end Response

theorem steady_undisturbed (burst size : UInt16) : Undisturbed (steady burst size) where
  bursts := steady_burstOk
  fifo := steady_fifoOk
  avail := ⟨0, 0, steady_avail 0 0, steady_avail 1 0⟩

theorem readsExactly_iff_single :
    letI := littleHost
    ReadsExactly (steady 1 12) tpmChipData TpmCmd.zero ↔ LandsExactly (steady 1 12) := by
  let _ := littleHost
  exact readsExactly_iff (steady_positive (by decide)) (steady_undisturbed 1 12) (by decide) tpmChipData
    TpmCmd.zero

/-- Bursts of eight bytes never land on the twelve bytes of the response. -/
theorem reads_beyond_response :
    letI := littleHost
    Undisturbed (steady 8 12) ∧ responseSize (steady 8 12) = 12 ∧
      ¬ ReadsExactly (steady 8 12) tpmChipData TpmCmd.zero := by
  let _ := littleHost
  have hburst : (steady 8 12).burst 0 = 8 := by decide
  have hsize : responseSize (steady 8 12) = 12 := by decide
  have hten : tpmHeaderSize = 10 := rfl
  refine ⟨steady_undisturbed 8 12, hsize, fun hexact => ?_⟩
  obtain ⟨h, k, -, hlands⟩ := hexact.lands (steady_positive (by decide)) (steady_undisturbed 8 12)
    (by decide)
  rw [steady_carried, hburst, hsize] at hlands
  omega

end LibTpm.ReceiveBursts
