import LibTpm.CapResponse
import Mathlib.Data.List.Flatten
import Mathlib.Data.List.Forall2

namespace LibTpm.PageRuns

open LibTpm.Base.BigEndian LibTpm.Base.Paging LibTpm.Base.Process LibTpm.Base.Process.Proc
open LibTpm.Command LibTpm.Constants LibTpm.Endian LibTpm.Platform LibTpm.Builder LibTpm.Getcap
open LibTpm.Queries LibTpm.Request LibTpm.CommandBytes LibTpm.Traffic LibTpm.CapResponse

variable {W β ε σ : Type}

/-- The pair of send and receive hands the command over and brings the
response back intact. -/
def Delivers (interface : Interface W) (chip : ChipData) (cmd : TpmCmd) (w : W)
    (resp : List UInt8) : Prop :=
  ∃ ret w', interface.send chip cmd w = (some ret, w') ∧ 0 ≤ ret ∧
    ∀ buf, ∃ ret' buf' w'', interface.receive chip buf w' = (some (ret', buf'), w'') ∧
      0 ≤ ret' ∧ Carries buf' resp

/-- The TPM behind the interface answers a request for the elements from
`property` on, at most `count` of them, with a page that `A` allows. -/
def Answers [Host] (interface : Interface W) (chip : ChipData) (cap : UInt32)
    (encode : β → List UInt8) (A : Nat → Nat → List β → Bool → Prop) : Prop :=
  ∀ cmd property count w, parseRequest cmd.serialise = some (.getCapability cap property count) →
    ∃ page more, A property.toNat count.toNat page more ∧
      Delivers interface chip cmd w (capResponse encode cap more page)

section Exchange

variable {interface : Interface W} {chip : ChipData}

theorem tpmXfer_delivers {cmd : TpmCmd} {w : W} {resp : List UInt8}
    (h : Delivers interface chip cmd w resp) (buf : TpmCmd) (log : List Message) :
    Meets (tpmXfer (logged interface) chip cmd buf) (w, log)
      (fun r s => r.1 = tpmSuccess ∧ Carries r.2 resp ∧
        receivedBuffers s.2 = receivedBuffers log ++ [r.2]) (fun _ => False) := by
  obtain ⟨ret, w', hsend, hret, hreceive⟩ := h
  obtain ⟨ret', buf', w'', hrecv, hret', hcarries⟩ := hreceive buf
  have h1 : (logged interface).send chip cmd (w, log) = (some ret, w', log ++ [.sent cmd]) := by
    change ((interface.send chip cmd w).1, _, _) = _
    rw [hsend]
  have h2 : (logged interface).receive chip buf (w', log ++ [.sent cmd]) =
      (some (ret', buf'), w'', (log ++ [.sent cmd]) ++ [.received buf']) := by
    change ((interface.receive chip buf w').1, _, _) = _
    rw [hrecv]
    rfl
  have hrun : tpmXfer (logged interface) chip cmd buf (w, log) =
      (some (tpmSuccess, buf'), w'', (log ++ [.sent cmd]) ++ [.received buf']) := by
    rw [tpmXfer, bind_some h1, if_neg (not_lt.mpr hret), bind_some h2]
    dsimp only
    rw [if_neg (not_lt.mpr hret')]
    rfl
  unfold Meets
  rw [hrun]
  refine ⟨rfl, hcarries, ?_⟩
  rw [receivedBuffers_append, receivedBuffers_append]
  exact congrArg (· ++ [buf']) (List.append_nil _)

variable [Host] {cap : UInt32} {encode : β → List UInt8} {A : Nat → Nat → List β → Bool → Prop}

theorem getcapRaw_answered (h : Answers interface chip cap encode A) (property count : UInt32)
    (respOut : TpmCmd) (more0 : Bool) (w : W) (log : List Message) :
    Meets (getcapRaw (logged interface) (some chip) cap property count respOut more0) (w, log)
      (fun r s => r.1 = tpmSuccess ∧ ∃ page, A property.toNat count.toNat page r.2.2 ∧
        Carries r.2.1 (capResponse encode cap r.2.2 page) ∧
        receivedBuffers s.2 = receivedBuffers log ++ [r.2.1]) (fun _ => False) := by
  have hfit := (getcapCommand_built cap property count).finish
  have h22 : (TpmRequest.getCapability cap property count).size = 22 := rfl
  rw [h22, if_pos (by decide)] at hfit
  obtain ⟨hok, hbytes⟩ := hfit
  have hreq : parseRequest (getcapCommand cap property count).cmd.serialise =
      some (.getCapability cap property count) := by
    rw [hbytes]
    exact parseRequest_encode (by rw [h22]; decide)
  obtain ⟨page, more, hA, hd⟩ := h _ property count w hreq
  rw [getcapRaw]
  dsimp only
  rw [hok, if_neg (by decide), meets_bind]
  refine (tpmXfer_delivers hd TpmCmd.zero log).imp ?_
  rintro ⟨ret, resp⟩ s ⟨rfl, hcarries, hlog⟩
  have hsize := hcarries.cmdSize
  have hle := hcarries.length_le
  have h10 : tpmHeaderSize = 10 := rfl
  dsimp only
  rw [if_neg (by decide), hcarries.tag, if_neg (by simp), hcarries.cmdCode, if_neg (by simp),
    if_neg (by rw [hsize]; omega)]
  refine meets_pure.mpr ⟨rfl, page, ?_⟩
  rw [hcarries.moreData]
  exact ⟨hA, hcarries, hlog⟩

/-- A TPM that answers each request at once with the bytes of `reply`. Its
world is the response that waits to be received. -/
def replying (reply : TpmRequest → List UInt8) : Interface (List UInt8) where
  getInfo _ _ := pure 0
  send _ cmd := fun _ => (some 0, match parseRequest cmd.serialise with
    | some request => reply request
    | none => [])
  receive _ buf := fun resp => (some (0, buf.setBytes 0 resp), resp)
  requestAccess chip _ := pure (0, chip)
  releaseLocality _ _ := pure 0

theorem replying_delivers {reply : TpmRequest → List UInt8} {cmd : TpmCmd} {request : TpmRequest}
    (hreq : parseRequest cmd.serialise = some request)
    (hfit : (reply request).length ≤ maxSizeCmdbuf) (chip : ChipData) (w : List UInt8) :
    Delivers (replying reply) chip cmd w (reply request) := by
  refine ⟨0, reply request, ?_, Int.le_refl 0, fun buf => ?_⟩
  · simp only [replying, hreq]
  · refine ⟨0, buf.setBytes 0 (reply request), reply request, rfl, Int.le_refl 0, ?_⟩
    have hold : (buf.bytes.take (reply request).length).length = (reply request).length := by
      rw [List.length_take, buf.length_bytes, Nat.min_eq_left hfit]
    have hsplit : buf.bytes = [] ++ (buf.bytes.take (reply request).length ++
        buf.bytes.drop (reply request).length) := by
      rw [List.nil_append, List.take_append_drop]
    have hset := TpmCmd.bytes_setBytes hsplit rfl hold
    exact ⟨_, hset.symm⟩

def pageReply (encode : β → List UInt8) (cap : UInt32) (pick : Nat → Nat → List β × Bool) :
    TpmRequest → List UInt8
  | .getCapability _ property count =>
      capResponse encode cap (pick property.toNat count.toNat).2 (pick property.toNat count.toNat).1
  | _ => []

theorem replying_answers {pick : Nat → Nat → List β × Bool}
    (hpick : ∀ p k, A p k (pick p k).1 (pick p k).2)
    (hfit : ∀ p k, 19 + ((pick p k).1.flatMap encode).length ≤ maxSizeCmdbuf) :
    Answers (replying (pageReply encode cap pick)) chip cap encode A := by
  intro cmd property count w hreq
  refine ⟨_, _, hpick _ _, replying_delivers hreq ?_ chip w⟩
  exact (capResponse_length _ _ _ _).trans_le (hfit _ _)

theorem replying_nextPage (f : EntryFormat β ε) {S : List β} (size : Nat → Nat)
    (hfit : 19 + (S.flatMap f.encode).length ≤ maxSizeCmdbuf)
    (hA : ∀ p k, A p k (nextPage f.key S p (size k)).1 (nextPage f.key S p (size k)).2) :
    Answers (replying (pageReply f.encode cap fun p k => nextPage f.key S p (size k))) chip cap
      f.encode A := by
  apply replying_answers hA
  intro p k
  have hle := ((nextPage_sublist f.key S p (size k)).flatMap f.encode).length_le
  exact Nat.le_trans (Nat.add_le_add_left hle 19) hfit

end Exchange

section Loop

variable [Host] (f : EntryFormat β ε) (cap : UInt32) (A : Nat → List β → Bool → Prop)
variable (v : ε → σ → Bool × σ) (goOn : UInt16 → Bool) (limit : Nat) (start : σ)

/-- How a page loop that visits the elements from `start` on can end: on an
accepted element, on the last page, on a page whose last id it need not go
beyond, or when `limit` pages have been read and each has announced more. -/
inductive PageRun : Int × σ → List TpmCmd → Prop
  | accepted {pages : List (List β)} {p : Nat} {page : List β} {more : Bool} {out : σ}
      {bufs : List TpmCmd} (walk : Walk f.key A pages p) (short : pages.length < limit)
      (answer : A p page more)
      (visited : visitAll (f.visit v) (pages.flatten ++ page) start = (true, out)) :
      PageRun (tpmSuccess, out) bufs
  | finished {pages : List (List β)} {p : Nat} {page : List β} {out : σ} {bufs : List TpmCmd}
      (walk : Walk f.key A pages p) (short : pages.length < limit) (answer : A p page false)
      (visited : visitAll (f.visit v) (pages.flatten ++ page) start = (false, out)) :
      PageRun (tpmSuccess, out) bufs
  | stopped {pages : List (List β)} {page : List β} {last : β} {out : σ} {bufs : List TpmCmd}
      (walk : Walk f.key A (pages ++ [page ++ [last]]) (f.key last + 1))
      (halt : goOn (f.id (f.entry last)) = false)
      (visited : visitAll (f.visit v) (pages ++ [page ++ [last]]).flatten start = (false, out)) :
      PageRun (tpmSuccess, out) bufs
  | exhausted {pages : List (List β)} {p : Nat} {out : σ} {bufs : List TpmCmd}
      (walk : Walk f.key A pages p) (full : pages.length = limit)
      (delivered : List.Forall₂ (fun buf page => Carries buf (capResponse f.encode cap true page))
        bufs pages)
      (unfinished : ∀ init page last, pages = init ++ [page ++ [last]] →
        goOn (f.id (f.entry last)) = true)
      (visited : visitAll (f.visit v) pages.flatten start = (false, out)) :
      PageRun (tpmErrIterationLimit, out) bufs

variable {f cap A v goOn limit start} {parse : TpmCmd → ParseOut σ → Int × ParseOut σ}
variable {interface : Interface W} {chip : ChipData}

omit [Host] in
theorem next_property (last : β) : ((f.id (f.entry last)).toUInt32 + 1).toNat = f.key last + 1 := by
  have hlt := (f.id (f.entry last)).toNat_lt
  rw [UInt32.toNat_add, UInt16.toNat_toUInt32]
  exact Nat.mod_eq_of_lt (by change _ + 1 < _; omega)

omit [Host] in
theorem last_of_concat {pages pages' : List (List β)} {page page' : List β} {last last' : β}
    (h : pages ++ [page ++ [last]] = pages' ++ [page' ++ [last']]) : last = last' := by
  have hpage := (List.append_inj' h rfl).2
  have hlast := (List.append_inj' (List.singleton_inj.mp hpage) rfl).2
  exact List.singleton_inj.mp hlast

omit [Host] in
theorem not_empty_count {p : Nat} {page : List β} {more : Bool} {buf : TpmCmd} {parsedCount : UInt32}
    (hempty : ∀ p more, A p [] more → more = false) (hpage : A p page more)
    (hcarries : Carries buf (capResponse f.encode cap more page)) (hcnt : parsedCount = UInt32.ofNat page.length) :
    ¬ (more = true ∧ parsedCount = 0) := by
  rintro ⟨rfl, h0⟩
  have hzero : page.length = 0 := by
    rw [← hcarries.count f, ← hcnt, h0]
    rfl
  rw [List.length_eq_zero_iff.mp hzero] at hpage
  exact Bool.false_ne_true (hempty _ _ hpage).symm

theorem pageLoop_run {tpm : Nat → Nat → List β → Bool → Prop}
    (htpm : Answers interface chip cap f.encode tpm)
    (hA : ∀ p page more, tpm p tpmDefaultPageCount.toNat page more → A p page more)
    (hempty : ∀ p more, A p [] more → more = false)
    (hparse : ∀ buf more page po, Carries buf (capResponse f.encode cap more page) →
      po.found = false → Parses f v parse buf page po)
    (n : Nat) (st : PageState σ) (w : W) (log : List Message) (pages : List (List β))
    (hwalk : Walk f.key A pages st.property.toNat) (hfound : st.po.found = false)
    (hvisited : visitAll (f.visit v) pages.flatten start = (false, st.po.out))
    (hcount : pages.length + n = limit)
    (hlog : List.Forall₂ (fun buf page => Carries buf (capResponse f.encode cap true page))
      (receivedBuffers log) pages)
    (hgo : ∀ init page last, pages = init ++ [page ++ [last]] →
      goOn (f.id (f.entry last)) = true) :
    Meets (pageLoop (logged interface) (some chip) cap parse goOn n st) (w, log)
      (fun r s => PageRun f cap A v goOn limit start r (receivedBuffers s.2)) (fun _ => False) := by
  induction n generalizing st w log pages with
  | zero => exact .exhausted hwalk hcount hlog hgo hvisited
  | succ n ih =>
      rw [pageLoop, meets_bind]
      refine (getcapRaw_answered htpm st.property tpmDefaultPageCount st.resp st.moreData w log).imp ?_
      rintro ⟨ret, resp, more⟩ ⟨w, log'⟩ ⟨rfl, page, htp, hcarries, hlog'⟩
      have hpage := hA _ _ _ htp
      have hp := hparse resp more page st.po hcarries hfound
      dsimp only at hcarries hp ⊢
      rw [if_neg (by simp)]
      obtain ⟨hok, hout, hfd, hfin⟩ := hp
      generalize parse resp st.po = r at hok hout hfd hfin ⊢
      obtain ⟨ret, po⟩ := r
      dsimp only at hok hout hfd hfin ⊢
      rw [hok, if_neg (by simp)]
      have hall := visitAll_continues hvisited page
      cases hv : (visitAll (f.visit v) page st.po.out).1 with
      | true =>
          rw [hv] at hfd
          rw [if_pos hfd]
          refine .accepted hwalk (by omega) hpage ?_
          rw [hall, hout, ← hv]
      | false =>
          rw [hv] at hfd
          obtain ⟨hcnt, hlast⟩ := hfin hv
          have hvis : visitAll (f.visit v) (pages.flatten ++ page) start = (false, po.out) := by
            rw [hall, hout, ← hv]
          rw [if_neg (by rw [hfd]; simp)]
          rw [if_neg (not_empty_count hempty hpage hcarries hcnt)]
          cases more with
          | false =>
              rw [if_neg (by simp)]
              exact .finished hwalk (by omega) hpage hvis
          | true =>
              rcases List.eq_nil_or_concat' page with rfl | ⟨init, last, rfl⟩
              · exact absurd (hempty _ _ hpage) (by simp)
              have hid := hlast init last rfl
              have hwalk' := hwalk.resume hpage
              have hflat : (pages ++ [init ++ [last]]).flatten = pages.flatten ++ (init ++ [last]) :=
                List.flatten_concat
              rw [← hflat] at hvis
              by_cases hg : goOn po.last = true
              · rw [if_pos ⟨rfl, hg⟩]
                refine ih ⟨po.last.toUInt32 + 1, resp, true, po⟩ w log' (pages ++ [init ++ [last]]) ?_ hfd
                  hvis ?_ ?_ ?_
                · rwa [hid, next_property]
                · rw [List.length_append, List.length_singleton]
                  omega
                · rw [hlog']
                  exact List.rel_append hlog (List.Forall₂.cons hcarries List.Forall₂.nil)
                · intro init' page' last' heq
                  rwa [← last_of_concat heq, ← hid]
              · rw [if_neg fun hc => hg hc.2]
                rw [hid] at hg
                exact .stopped hwalk' (Bool.eq_false_iff.mpr hg) hvis

end Loop

end LibTpm.PageRuns
