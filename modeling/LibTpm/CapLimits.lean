import LibTpm.CapFormat
import LibTpm.CapQueries

namespace LibTpm.CapLimits

open LibTpm.Base.Paging LibTpm.Base.Process LibTpm.Base.Process.Proc LibTpm.Command LibTpm.Constants
open LibTpm.Endian LibTpm.Platform LibTpm.Builder LibTpm.Iterator LibTpm.Getcap LibTpm.Queries
open LibTpm.Traffic LibTpm.CapResponse LibTpm.CapFormat LibTpm.CapQueries

variable {W α β ε σ : Type}

def sending : Transfer → Bool
  | .sent _ _ => true
  | .received _ => false

def exchangeCount (log : List Transfer) : Nat := log.countP sending

/-- The last call of the log does not return. -/
def Stalled (log : List Transfer) : Prop :=
  (∃ cmd, log.getLast? = some (.sent cmd none)) ∨ log.getLast? = some (.received none)

section Page

variable [Host]

structure PageHeader (resp : TpmCmd) : Prop where
  tag : be16toh resp.tag = tpmStNoSessions
  cmdCode : be32toh resp.cmdCode = tpmResponseSuccess
  least : tpmHeaderSize + 1 ≤ (be32toh resp.cmdSize).toNat
  most : (be32toh resp.cmdSize).toNat ≤ maxSizeCmdbuf

instance (resp : TpmCmd) : Decidable (PageHeader resp) :=
  decidable_of_iff (be16toh resp.tag = tpmStNoSessions ∧ be32toh resp.cmdCode = tpmResponseSuccess ∧
      tpmHeaderSize + 1 ≤ (be32toh resp.cmdSize).toNat ∧ (be32toh resp.cmdSize).toNat ≤ maxSizeCmdbuf)
    ⟨fun ⟨htag, hcode, hleast, hmost⟩ => ⟨htag, hcode, hleast, hmost⟩,
      fun ⟨htag, hcode, hleast, hmost⟩ => ⟨htag, hcode, hleast, hmost⟩⟩

def pageRead : Transfer → Option TpmCmd
  | .received (some (ret, resp)) => if 0 ≤ ret ∧ PageHeader resp then some resp else none
  | _ => none

def pagesRead (log : List Transfer) : List TpmCmd := log.filterMap pageRead

structure Requested (log log' : List Transfer) (r : Int × TpmCmd × Bool) : Prop where
  count : exchangeCount log' ≤ exchangeCount log + 1
  read : r.1 = tpmSuccess → pagesRead log' = pagesRead log ++ [r.2.1] ∧
    (r.2.2 = true ↔ r.2.1.data 0 ≠ 0)
  unread : r.1 ≠ tpmSuccess → pagesRead log' = pagesRead log

omit [Host] in
theorem exchangeCount_append (log : List Transfer) (cmd : TpmCmd) (x : Option Int) (events : List Transfer)
    (h : exchangeCount events = 0) : exchangeCount (log ++ .sent cmd x :: events) = exchangeCount log + 1 := by
  rw [exchangeCount, List.countP_append, List.countP_cons, ← exchangeCount, ← exchangeCount, h]
  rfl

theorem pagesRead_append (log log' : List Transfer) : pagesRead (log ++ log') = pagesRead log ++ pagesRead log' :=
  List.filterMap_append

theorem pagesRead_read {ret : Int} {resp : TpmCmd} (cmd : TpmCmd) (x : Option Int)
    (h : 0 ≤ ret ∧ PageHeader resp) :
    pagesRead [.sent cmd x, .received (some (ret, resp))] = [resp] := by
  have hread : pageRead (.received (some (ret, resp))) = some resp := if_pos h
  rw [pagesRead, List.filterMap_cons_none (by rfl), List.filterMap_cons_some hread]
  rfl

theorem pagesRead_unread {ret : Int} {resp : TpmCmd} (cmd : TpmCmd) (x : Option Int)
    (h : ¬ (0 ≤ ret ∧ PageHeader resp)) :
    pagesRead [.sent cmd x, .received (some (ret, resp))] = [] := by
  have hread : pageRead (.received (some (ret, resp))) = none := if_neg h
  rw [pagesRead, List.filterMap_cons_none (by rfl), List.filterMap_cons_none hread]
  rfl

omit [Host] in
theorem tpmXfer_traced (interface : Interface W) (chip : ChipData) (cmd buf : TpmCmd) (w : W)
    (log : List Transfer) :
    Meets (tpmXfer (traced interface) chip cmd buf) (w, log)
      (fun r s => r.1 < 0 ∧ (∃ ret, s.2 = log ++ [.sent cmd ret]) ∨
        r.1 < 0 ∧ (∃ x ret, s.2 = log ++ [.sent cmd x, .received (some (ret, r.2))] ∧ ret < 0) ∨
        r.1 = tpmSuccess ∧ ∃ x ret, s.2 = log ++ [.sent cmd x, .received (some (ret, r.2))] ∧ 0 ≤ ret)
      (fun s => s.2 = log ++ [.sent cmd none] ∨ ∃ x, s.2 = log ++ [.sent cmd x, .received none]) := by
  rw [tpmXfer, meets_bind, traced_send, meets_observe]
  apply Meets.of_forall _ fun w' => .inl rfl
  intro ret w'
  by_cases hret : ret < 0
  · rw [if_pos hret]
    exact .inl ⟨hret, _, rfl⟩
  rw [if_neg hret, meets_bind, traced_receive, meets_observe]
  apply Meets.of_forall _ fun w'' => .inr ⟨some ret, List.append_assoc _ _ _⟩
  rintro ⟨ret', buf'⟩ w''
  dsimp only
  have hlog := List.append_assoc log [.sent cmd (some ret)] [.received (some (ret', buf'))]
  by_cases hret' : ret' < 0
  · rw [if_pos hret']
    exact .inr (.inl ⟨hret', _, _, hlog, hret'⟩)
  · rw [if_neg hret']
    exact .inr (.inr ⟨rfl, _, _, hlog, not_lt.mp hret'⟩)

theorem getcapRaw_requests (interface : Interface W) (chip : ChipData) (cap property count : UInt32)
    (respOut : TpmCmd) (more : Bool) (w : W) (log : List Transfer) :
    Meets (getcapRaw (traced interface) (some chip) cap property count respOut more) (w, log)
      (fun r s => Requested log s.2 r)
      (fun s => exchangeCount s.2 ≤ exchangeCount log + 1 ∧ Stalled s.2) := by
  have hnone {ret : Int} (hret : ret < 0) : ret ≠ tpmSuccess := by
    rintro rfl
    exact absurd hret (by decide)
  rw [getcapRaw]
  dsimp only
  split
  next hfin => exact ⟨Nat.le_succ _, fun h => absurd h (hnone hfin), fun _ => rfl⟩
  rw [meets_bind]
  generalize (getcapCommand cap property count).cmd = cmd
  apply (tpmXfer_traced interface chip cmd TpmCmd.zero w log).mono
  · rintro ⟨ret, resp⟩ ⟨w', log'⟩ h
    dsimp only at h ⊢
    rcases h with ⟨hret, x, rfl⟩ | ⟨hret, x, ret', rfl, hret'⟩ | ⟨rfl, x, ret', rfl, hret'⟩
    · rw [if_pos hret]
      refine ⟨(exchangeCount_append log cmd x [] rfl).le, fun h => absurd h (hnone hret), fun _ => ?_⟩
      rw [pagesRead_append]
      exact List.append_nil _
    · rw [if_pos hret]
      refine ⟨(exchangeCount_append log cmd x _ rfl).le, fun h => absurd h (hnone hret), fun _ => ?_⟩
      rw [pagesRead_append, pagesRead_unread cmd x fun h => absurd h.1 (not_le.mpr hret'), List.append_nil]
    · rw [if_neg (by decide)]
      have hcount := (exchangeCount_append log cmd x [.received (some (ret', resp))] rfl).le
      by_cases hh : PageHeader resp
      · rw [if_neg (not_not.mpr hh.tag), if_neg (not_not.mpr hh.cmdCode),
          if_neg (by have := hh.least; have := hh.most; omega)]
        refine ⟨hcount, fun _ => ⟨?_, decide_eq_true_iff⟩, fun h => absurd rfl h⟩
        rw [pagesRead_append]
        exact congrArg (_ ++ ·) (pagesRead_read cmd x ⟨hret', hh⟩)
      · have hunread : pagesRead (log ++ [.sent cmd x, .received (some (ret', resp))]) = pagesRead log := by
          rw [pagesRead_append, pagesRead_unread cmd x fun h => hh h.2, List.append_nil]
        have herr : Requested log (log ++ [.sent cmd x, .received (some (ret', resp))])
            (tpmErrResponse, resp, more) := ⟨hcount, fun h => absurd h errResponse_ne_success, fun _ => hunread⟩
        by_cases htag : be16toh resp.tag = tpmStNoSessions
        · rw [if_neg (not_not.mpr htag)]
          by_cases hcode : be32toh resp.cmdCode = tpmResponseSuccess
          · rw [if_neg (not_not.mpr hcode), if_pos ?_]
            · exact herr
            · by_contra hsize
              rw [not_or, not_lt, not_lt] at hsize
              exact hh ⟨htag, hcode, hsize.1, hsize.2⟩
          · rw [if_pos hcode]
            exact herr
        · rw [if_pos htag]
          exact herr
  · rintro ⟨w', log'⟩ h
    dsimp only at h ⊢
    rcases h with rfl | ⟨x, rfl⟩
    · refine ⟨(exchangeCount_append log cmd none [] rfl).le, .inl ⟨cmd, ?_⟩⟩
      exact List.getLast?_concat
    · refine ⟨(exchangeCount_append log cmd x _ rfl).le, .inr ?_⟩
      simp

end Page

section Parsers

variable [Host] (f : EntryFormat β ε) (cap : UInt32) (limit : Nat) (v : ε → σ → Bool × σ) (resp : TpmCmd)

/-- What a parser makes of any buffer: the elements of `page` are all that it
visits. -/
structure Processes (po : ParseOut σ) (r : Int × ParseOut σ) (page : List β) (accepted : Bool) : Prop where
  le : page.length ≤ limit
  visited : visitAll (f.visit v) page po.out = (accepted, r.2.out)
  code : r.1 = tpmSuccess ∨ r.1 = tpmErrResponse
  found : r.1 = tpmSuccess → r.2.found = accepted
  listed : r.1 = tpmSuccess → accepted = false → Lists f cap resp page ∧
    r.2.parsedCount = UInt32.ofNat page.length ∧ ∃ d, r.2.last = lastId f page d
  empty : Lists f cap resp [] → r.1 = tpmSuccess ∧ r.2.found = false ∧ r.2.parsedCount = 0

def Fits : Prop := ∀ page : List β, 19 + (page.flatMap f.encode).length ≤ maxSizeCmdbuf → page.length ≤ limit

omit [Host] in
theorem algFormat_fits : Fits algFormat 39 := by
  intro page h
  rw [length_flatMap_algs] at h
  have hmax : maxSizeCmdbuf = 256 := rfl
  omega

omit [Host] in
theorem bankFormat_fits : Fits bankFormat 79 := by
  intro page h
  have hthree : 3 * page.length ≤ (page.flatMap bankFormat.encode).length := by
    clear h
    induction page with
    | nil => exact Nat.zero_le _
    | cons b page ih =>
        have hb : (bankFormat.encode b).length = 2 + (b.octets.length + 1) := List.length_append
        rw [List.flatMap_cons, List.length_append, List.length_cons, hb]
        omega
  have hmax : maxSizeCmdbuf = 256 := rfl
  omega

variable {f cap limit v resp}

theorem length_le_of_ends (hfit : Fits f limit) (hmost : (be32toh resp.cmdSize).toNat ≤ maxSizeCmdbuf)
    {last : UInt16} {out : σ} {r : LoopExit × EntryState σ} {page : List β}
    (h : Ends f cap resp v last out r page) : page.length ≤ limit := by
  rcases h.fits with rfl | hle
  · exact Nat.zero_le limit
  · apply hfit
    rw [length_payload hmost] at hle
    have hten : tpmHeaderSize = 10 := rfl
    omega

theorem Processes.refused {po : ParseOut σ} {r : Int × ParseOut σ} {page : List β} {accepted : Bool}
    (hle : page.length ≤ limit) (hvis : visitAll (f.visit v) page po.out = (accepted, r.2.out))
    (hret : r.1 = tpmErrResponse)
    (hempty : Lists f cap resp [] → r.1 = tpmSuccess ∧ r.2.found = false ∧ r.2.parsedCount = 0) :
    Processes f cap limit v resp po r page accepted where
  le := hle
  visited := hvis
  code := .inr hret
  found h := absurd (hret.symm.trans h) errResponse_ne_success
  listed h := absurd (hret.symm.trans h) errResponse_ne_success
  empty := hempty

theorem parseQuery_processes (hf : Decodes f) (hfit : Fits f limit) (mark : ε → σ → σ) (po : ParseOut σ)
    (hpo : po.found = false) : ∃ page, Processes f cap limit (fun e s => (false, mark e s)) resp po
      (parseQuery cap f.read f.id mark resp po) page false := by
  have hempty (h : Lists f cap resp []) : (parseQuery cap f.read f.id mark resp po).1 = tpmSuccess ∧
      (parseQuery cap f.read f.id mark resp po).2.found = false ∧
      (parseQuery cap f.read f.id mark resp po).2.parsedCount = 0 := by
    rw [h.query mark po]
    exact ⟨rfl, hpo, rfl⟩
  by_cases hb : Begins cap resp
  · obtain ⟨iter, hstart, page, hends⟩ := entryLoop_ends hf hb (fun e s => (false, mark e s)) 0 po.out
    have hle := length_le_of_ends hfit hb.most hends
    rw [parseQuery_start hstart] at hempty ⊢
    obtain ⟨-, hvis, hcnt, hlast, hfin, hfail⟩ := hends
    generalize entryLoop f.read f.id _ _ _ = r at hvis hcnt hlast hfin hfail hempty ⊢
    obtain ⟨exit, st⟩ := r
    refine ⟨page, ?_⟩
    cases exit with
    | failed ret =>
        exact .refused hle hvis (hfail ret rfl) hempty
    | accepted => exact absurd hvis (visitAll_fold_ne (fun b s => mark (f.entry b) s) page po.out st.out)
    | finished =>
        rcases hfin rfl with ⟨hlists, herr⟩ | herr
        · have hres : queryResult po (.finished, st) =
              (tpmSuccess, { po with out := st.out, parsedCount := st.parsedCount, last := st.last }) :=
            if_neg (not_not.mpr herr)
          rw [hres] at hempty ⊢
          exact ⟨hle, hvis, .inl rfl, fun _ => hpo, fun _ _ => ⟨hlists, hcnt, 0, hlast⟩, hempty⟩
        · have hres : queryResult po (.finished, st) = (tpmErrResponse, { po with out := st.out }) := by
            dsimp only at herr
            simp [queryResult, herr]
          rw [hres] at hempty ⊢
          exact .refused hle hvis rfl hempty
  · rw [parseQuery_refuses hb] at hempty ⊢
    exact ⟨[], .refused (Nat.zero_le _) rfl rfl hempty⟩

theorem parseFind_processes (hf : Decodes f) (hfit : Fits f limit) (v : ε → σ → Bool × σ) (po : ParseOut σ) :
    ∃ page accepted, Processes f cap limit v resp po (parseFind cap f.read f.id v resp po) page accepted := by
  have hempty (h : Lists f cap resp []) : (parseFind cap f.read f.id v resp po).1 = tpmSuccess ∧
      (parseFind cap f.read f.id v resp po).2.found = false ∧
      (parseFind cap f.read f.id v resp po).2.parsedCount = 0 := by
    rw [h.find_empty v po]
    exact ⟨rfl, rfl, rfl⟩
  by_cases hb : Begins cap resp
  · obtain ⟨iter, hstart, page, hends⟩ := entryLoop_ends hf hb v po.last po.out
    have hle := length_le_of_ends hfit hb.most hends
    rw [parseFind_start hstart] at hempty ⊢
    obtain ⟨-, hvis, hcnt, hlast, hfin, hfail⟩ := hends
    generalize entryLoop f.read f.id _ _ _ = r at hvis hcnt hlast hfin hfail hempty ⊢
    obtain ⟨exit, st⟩ := r
    refine ⟨page, decide (exit = .accepted), ?_⟩
    cases exit with
    | failed ret =>
        exact .refused hle hvis (hfail ret rfl) hempty
    | accepted => exact ⟨hle, hvis, .inl rfl, fun _ => rfl, fun _ h => absurd h (by simp), hempty⟩
    | finished =>
        rcases hfin rfl with ⟨hlists, herr⟩ | herr
        · exact ⟨hle, hvis, .inl (congrArg TpmRetValue.code herr), fun _ => rfl,
            fun _ _ => ⟨hlists, hcnt, po.last, hlast⟩, hempty⟩
        · have hcode : (findResult po (.finished, st)).1 = tpmErrResponse := congrArg TpmRetValue.code herr
          exact .refused hle hvis hcode hempty
  · rw [parseFind_refuses hb] at hempty ⊢
    exact ⟨[], false, .refused (Nat.zero_le _) rfl rfl hempty⟩

end Parsers

section Loop

variable [Host]

/-- The end of a page loop: the exchanges, the page that announces more but
lists nothing, and what the last page of a success is like. -/
structure PagesEnd (f : EntryFormat β ε) (cap : UInt32) (accepted : Bool) (passed : UInt16 → Prop) (ret : Int)
    (log : List Transfer) : Prop where
  exchanges : exchangeCount log ≤ tpmMaxPages
  empty : ∀ resp ∈ pagesRead log, resp.data 0 ≠ 0 → Lists f cap resp [] → ret = tpmErrResponse
  success : ret = tpmSuccess → ∃ resp, (pagesRead log).getLast? = some resp ∧
    (resp.data 0 = 0 ∨ accepted = true ∨
      ∃ page, ∃ h : page ≠ [], Lists f cap resp page ∧ passed (f.id (f.entry (page.getLast h))))

structure PagesVisit (f : EntryFormat β ε) (limit : Nat) (v : ε → σ → Bool × σ) (ctx out : σ)
    (accepted : Bool) (elements : List β) : Prop where
  le : elements.length ≤ tpmMaxPages * limit
  visited : visitAll (f.visit v) elements ctx = (accepted, out)

def PagesRun (f : EntryFormat β ε) (cap : UInt32) (limit : Nat) (v : ε → σ → Bool × σ) (passed : UInt16 → Prop)
    (ctx : σ) (r : Int × σ) (log : List Transfer) : Prop :=
  ∃ elements accepted, PagesVisit f limit v ctx r.2 accepted elements ∧ PagesEnd f cap accepted passed r.1 log

variable {f : EntryFormat β ε} {cap : UInt32} {limit : Nat} {v : ε → σ → Bool × σ} {ctx : σ}
variable {goOn : UInt16 → Bool} {parse : TpmCmd → ParseOut σ → Int × ParseOut σ}

def NoneEmpty (f : EntryFormat β ε) (cap : UInt32) (log : List Transfer) : Prop :=
  ∀ resp ∈ pagesRead log, resp.data 0 ≠ 0 → ¬ Lists f cap resp []

theorem NoneEmpty.snoc {log log' : List Transfer} {resp : TpmCmd} (h : NoneEmpty f cap log)
    (hlog : pagesRead log' = pagesRead log ++ [resp]) (hresp : ¬ Lists f cap resp []) : NoneEmpty f cap log' := by
  intro resp' hmem hmore
  rw [hlog, List.mem_append, List.mem_singleton] at hmem
  rcases hmem with hmem | rfl
  · exact h resp' hmem hmore
  · exact hresp

theorem PagesEnd.failed {accepted : Bool} {passed : UInt16 → Prop} {ret : Int} {log : List Transfer}
    (h : NoneEmpty f cap log) (hexch : exchangeCount log ≤ tpmMaxPages) (hret : ret ≠ tpmSuccess) :
    PagesEnd f cap accepted passed ret log where
  exchanges := hexch
  empty resp hresp hmore hlists := absurd hlists (h resp hresp hmore)
  success hsuccess := absurd hsuccess hret

theorem PagesEnd.at_page {accepted : Bool} {passed : UInt16 → Prop} {ret : Int} {log log' : List Transfer}
    {resp : TpmCmd} (h : NoneEmpty f cap log) (hlog : pagesRead log' = pagesRead log ++ [resp])
    (hexch : exchangeCount log' ≤ tpmMaxPages)
    (hempty : resp.data 0 ≠ 0 → Lists f cap resp [] → ret = tpmErrResponse)
    (hsuccess : ret = tpmSuccess → resp.data 0 = 0 ∨ accepted = true ∨ ∃ page, ∃ h : page ≠ [],
      Lists f cap resp page ∧ passed (f.id (f.entry (page.getLast h)))) :
    PagesEnd f cap accepted passed ret log' := by
  have hlast : (pagesRead log').getLast? = some resp := by
    rw [hlog]
    exact List.getLast?_concat
  refine ⟨hexch, fun resp' hresp hmore h' => ?_, fun h => ⟨resp, hlast, hsuccess h⟩⟩
  rw [hlog, List.mem_append, List.mem_singleton] at hresp
  rcases hresp with hresp | rfl
  · exact absurd h' (h resp' hresp hmore)
  · exact hempty hmore h'

omit [Host] in
theorem PagesVisit.page {out out' : σ} {accepted : Bool} {elements page : List β} {n : Nat}
    (hvis : visitAll (f.visit v) elements ctx = (false, out))
    (hpage : visitAll (f.visit v) page out = (accepted, out')) (hlimit : page.length ≤ limit)
    (hle : elements.length + (n + 1) * limit ≤ tpmMaxPages * limit) :
    PagesVisit f limit v ctx out' accepted (elements ++ page) ∧
      (elements ++ page).length + n * limit ≤ tpmMaxPages * limit := by
  rw [Nat.succ_mul] at hle
  rw [List.length_append]
  refine ⟨⟨?_, ?_⟩, by omega⟩
  · rw [List.length_append]
    omega
  · rw [visitAll_continues hvis, hpage]

theorem pageLoop_ends (interface : Interface W) (chip : ChipData)
    (hparse : ∀ resp po, po.found = false → ∃ page accepted,
      Processes f cap limit v resp po (parse resp po) page accepted)
    (n : Nat) (st : PageState σ) (w : W) (log : List Transfer) (elements : List β)
    (hfound : st.po.found = false) (hvis : visitAll (f.visit v) elements ctx = (false, st.po.out))
    (hn : exchangeCount log + n ≤ tpmMaxPages) (hle : elements.length + n * limit ≤ tpmMaxPages * limit)
    (hpages : NoneEmpty f cap log) :
    Meets (pageLoop (traced interface) (some chip) cap parse goOn n st) (w, log)
      (fun r s => PagesRun f cap limit v (fun last => goOn last = false) ctx r s.2)
      (fun s => exchangeCount s.2 ≤ tpmMaxPages ∧ Stalled s.2) := by
  induction n generalizing st w log elements with
  | zero =>
      have hcode : tpmErrIterationLimit ≠ tpmSuccess := by decide
      exact ⟨elements, false, ⟨by omega, hvis⟩, .failed hpages hn hcode⟩
  | succ n ih =>
      rw [pageLoop, meets_bind]
      apply (getcapRaw_requests interface chip cap st.property tpmDefaultPageCount st.resp st.moreData w log).mono
      swap
      · intro s h
        exact ⟨by have := h.1; omega, h.2⟩
      rintro ⟨ret, resp, more⟩ ⟨w', log'⟩ ⟨hcount, hread, hunread⟩
      dsimp only at hcount hread hunread ⊢
      have hexch : exchangeCount log' ≤ tpmMaxPages := by omega
      by_cases hret : ret = tpmSuccess
      swap
      · rw [if_pos hret]
        have hpages' : NoneEmpty f cap log' := by rwa [NoneEmpty, hunread hret]
        exact ⟨elements, false, ⟨by omega, hvis⟩, .failed hpages' hexch hret⟩
      rw [if_neg (not_not.mpr hret)]
      obtain ⟨hlog, hmoredata⟩ := hread hret
      obtain ⟨page, accepted, hlimit, hvisited, hcode, hfd, hlisted, hempty⟩ := hparse resp st.po hfound
      generalize parse resp st.po = r at hvisited hcode hfd hlisted hempty ⊢
      obtain ⟨ret, po⟩ := r
      dsimp only at hvisited hcode hfd hlisted hempty ⊢
      obtain ⟨hvisit, hle'⟩ := PagesVisit.page hvis hvisited hlimit hle
      rcases hcode with rfl | rfl
      swap
      · rw [if_pos errResponse_ne_success]
        exact ⟨_, _, hvisit, .at_page hpages hlog hexch (fun _ _ => rfl) fun h => absurd h errResponse_ne_success⟩
      rw [if_neg (not_not.mpr rfl)]
      have hfd := hfd rfl
      cases accepted with
      | true =>
          rw [if_pos hfd]
          refine ⟨_, _, hvisit, .at_page hpages hlog hexch (fun _ h => ?_) fun _ => .inr (.inl rfl)⟩
          exact absurd (hfd.symm.trans (hempty h).2.1) (by simp)
      | false =>
          rw [if_neg (by rw [hfd]; simp)]
          obtain ⟨hlists, hcnt, d, hid⟩ := hlisted rfl rfl
          by_cases hmore : resp.data 0 = 0
          · rw [if_neg fun h => hmoredata.mp h.1 hmore, if_neg fun h => hmoredata.mp h.1 hmore]
            exact ⟨_, _, hvisit, .at_page hpages hlog hexch (fun h => absurd hmore h) fun _ => .inl hmore⟩
          by_cases hzero : po.parsedCount = 0
          · rw [if_pos ⟨hmoredata.mpr hmore, hzero⟩]
            exact ⟨_, _, hvisit, .at_page hpages hlog hexch (fun _ _ => rfl) fun h => absurd h errResponse_ne_success⟩
          rw [if_neg fun h => hzero h.2]
          have hnot (h : Lists f cap resp []) : False := hzero (hempty h).2.2
          by_cases hgo : goOn po.last = true
          · rw [if_pos ⟨hmoredata.mpr hmore, hgo⟩]
            exact ih _ w' log' (elements ++ page) hfd hvisit.visited (by omega) hle' (hpages.snoc hlog hnot)
          · rw [if_neg fun h => hgo h.2]
            have hne : page ≠ [] := by
              rintro rfl
              exact hzero hcnt
            rw [lastId_getLast hne] at hid
            refine ⟨_, _, hvisit, .at_page hpages hlog hexch (fun _ h => (hnot h).elim) fun _ => .inr (.inr ?_)⟩
            refine ⟨page, hne, hlists, ?_⟩
            rw [← hid]
            exact Bool.eq_false_iff.mpr hgo

theorem pageLoop_starts (interface : Interface W) (chip : ChipData)
    (hparse : ∀ resp po, po.found = false → ∃ page accepted,
      Processes f cap limit v resp po (parse resp po) page accepted) (stack : TpmCmd) (w : W) :
    Meets (pageLoop (traced interface) (some chip) cap parse goOn tpmMaxPages (PageState.init stack ctx)) (w, [])
      (fun r s => PagesRun f cap limit v (fun last => goOn last = false) ctx r s.2)
      (fun s => exchangeCount s.2 ≤ tpmMaxPages ∧ Stalled s.2) := by
  have hcount : exchangeCount [] + tpmMaxPages ≤ tpmMaxPages := (Nat.zero_add tpmMaxPages).le
  have hle : ([] : List β).length + tpmMaxPages * limit ≤ tpmMaxPages * limit := (Nat.zero_add _).le
  have hpages : NoneEmpty f cap [] := fun _ hresp => absurd hresp List.not_mem_nil
  exact pageLoop_ends interface chip hparse tpmMaxPages _ w [] [] rfl rfl hcount hle hpages

/-- The entry loop of a page, whatever the page and its count. -/
def EntriesBounded (f : EntryFormat β ε) (cap : UInt32) (limit : Nat) : Prop :=
  ∀ (σ : Type) (resp : TpmCmd) (iter : TpmBufIter), getcapPayloadStart resp cap freshIter = (tpmSuccess, iter) →
    ∀ (v : ε → σ → Bool × σ) (last : UInt16) (out : σ) (r : LoopExit × EntryState σ),
      entryLoop f.read f.id v (iterReadU32Be iter 0).2.1.toNat ⟨(iterReadU32Be iter 0).2.2, last, 0, out⟩ = r →
        ∃ page : List β, page.length ≤ limit ∧ r.2.parsedCount = UInt32.ofNat page.length ∧
          visitAll (f.visit v) page out = (decide (r.1 = .accepted), r.2.out)

theorem entries_bounded (hf : Decodes f) (hfit : Fits f limit) : EntriesBounded f cap limit := by
  rintro σ resp iter hstart v last out _ rfl
  by_cases hb : Begins cap resp
  · obtain ⟨iter', hstart', page, hends⟩ := entryLoop_ends hf hb v last out
    obtain rfl : iter' = iter := congrArg Prod.snd (hstart'.symm.trans hstart)
    exact ⟨page, length_le_of_ends hfit hb.most hends, hends.counted, hends.visited⟩
  · have hfails := payloadStart_fails hb
    rw [hstart] at hfails
    exact absurd hfails.symm errResponse_ne_success

/-- The end of a query: nothing is exchanged, or the last page has reached all
that is requested when it announces more. -/
inductive QueryEnds (f : EntryFormat β ε) (cap : UInt32) (id : α → UInt16) :
    Option (List α) → Int → List Transfer → Prop
  | refused {query : Option (List α)} : QueryEnds f cap id query tpmInvalidParam []
  | nothing {items : List α} (h : requested id items = []) : QueryEnds f cap id (some items) tpmSuccess []
  | paged {items : List α} {ret : Int} {log : List Transfer}
      (h : PagesEnd f cap false (fun last => ∀ q ∈ requested id items, id q ≤ last) ret log) :
      QueryEnds f cap id (some items) ret log

/-- The end of a visit: nothing is exchanged, or the last page of a success
announces no more, unless the callback has accepted. -/
inductive VisitEnds (f : EntryFormat β ε) (cap : UInt32) (limit : Nat) (v : ε → σ → Bool × σ) (ctx : σ) :
    Int × σ → List Transfer → Prop
  | refused : VisitEnds f cap limit v ctx (tpmInvalidParam, ctx) []
  | paged {r : Int × σ} {log : List Transfer} (h : PagesRun f cap limit v (fun _ => False) ctx r log) :
      VisitEnds f cap limit v ctx r log

omit [Host] in
theorem terminated_of_scan {id : α → UInt16} {clear : α → α} {n : Nat} {query : List α}
    (h : (scanQuery id clear n query).foundTerm = true) : Terminated id n query := by
  induction n generalizing query with
  | zero => exact absurd h (by simp [scanQuery])
  | succ n ih =>
      cases query with
      | nil => exact absurd h (by simp [scanQuery])
      | cons q query =>
          by_cases hq : id q = tpmAlgNull
          · exact .stop hq
          · rw [scanQuery, if_neg hq] at h
            exact .next hq (ih h)

/-- The part of a query function after the checks of its arguments. -/
theorem scanned_ends (interface : Interface W) (chip : ChipData) (hf : Decodes f) (hfit : Fits f limit)
    (mark : ε → List α → List α) (id : α → UInt16) (clear : α → α) (n : Nat) (items : List α)
    (stack : TpmCmd) (w : W) :
    let scan := scanQuery id clear n items
    Meets (if ¬ scan.foundTerm then pure (tpmInvalidParam, some scan.query)
      else if scan.itemCount = 0 then pure (tpmSuccess, some scan.query)
      else pageLoop (traced interface) (some chip) cap (parseQuery cap f.read f.id mark)
        (fun last => last < scan.maxId) tpmMaxPages (PageState.init stack scan.query) >>=
          fun r => pure (r.1, some r.2)) (w, [])
      (fun r s => QueryEnds f cap id (some items) r.1 s.2)
      (fun s => exchangeCount s.2 ≤ tpmMaxPages ∧ Stalled s.2) := by
  dsimp only
  by_cases hterm : (scanQuery id clear n items).foundTerm = true
  swap
  · rw [if_pos hterm]
    exact .refused
  obtain ⟨-, -, hmax, hnone⟩ := scanQuery_spec (terminated_of_scan hterm) clear
  rw [if_neg (not_not.mpr hterm)]
  by_cases h0 : (scanQuery id clear n items).itemCount = 0
  · rw [if_pos h0]
    exact .nothing (hnone h0)
  rw [if_neg h0, meets_bind]
  generalize (scanQuery id clear n items).query = start
  have hparse (resp : TpmCmd) (po : ParseOut (List α)) (hpo : po.found = false) : ∃ page accepted,
      Processes f cap limit (fun e s => (false, mark e s)) resp po (parseQuery cap f.read f.id mark resp po)
        page accepted :=
    (parseQuery_processes hf hfit mark po hpo).imp fun page h => ⟨false, h⟩
  refine Meets.imp (pageLoop_starts interface chip hparse stack w) ?_
  rintro r s ⟨elements, accepted, ⟨-, hvis⟩, hexch, hempty, hsuccess⟩
  refine .paged ⟨hexch, hempty, fun h => ?_⟩
  obtain ⟨resp, hlast, hcase⟩ := hsuccess h
  refine ⟨resp, hlast, ?_⟩
  rcases hcase with hmore | hacc | ⟨page, hne, hlists, hpassed⟩
  · exact .inl hmore
  · rw [hacc] at hvis
    exact absurd hvis (visitAll_fold_ne (fun b s => mark (f.entry b) s) elements start r.2)
  · refine .inr (.inr ⟨page, hne, hlists, fun q hq => ?_⟩)
    rw [decide_eq_false_iff_not, hmax, UInt16.not_lt] at hpassed
    exact UInt16.le_trans (le_largestId q hq) hpassed

theorem findLoop_ends (interface : Interface W) (chip : ChipData) (hf : Decodes f) (hfit : Fits f limit)
    (v : ε → σ → Bool × σ) (stack : TpmCmd) (ctx : σ) (w : W) :
    Meets (pageLoop (traced interface) (some chip) cap (parseFind cap f.read f.id v) (fun _ => true)
        tpmMaxPages (PageState.init stack ctx)) (w, [])
      (fun r s => VisitEnds f cap limit v ctx r s.2)
      (fun s => exchangeCount s.2 ≤ tpmMaxPages ∧ Stalled s.2) := by
  refine Meets.imp (pageLoop_starts interface chip (fun resp po _ => parseFind_processes hf hfit v po) stack w) ?_
  rintro r s ⟨elements, accepted, hvisit, hexch, hempty, hsuccess⟩
  refine .paged ⟨elements, accepted, hvisit, hexch, hempty, fun h => ?_⟩
  obtain ⟨resp, hlast, hcase⟩ := hsuccess h
  refine ⟨resp, hlast, hcase.imp_right (Or.imp_right ?_)⟩
  rintro ⟨page, hne, hlists, hpassed⟩
  exact absurd hpassed (by simp)

end Loop

section Functions

variable [Host] (interface : Interface W) (stack : TpmCmd) (w : W)

theorem tpmGetcapQueryAlgs_ends (chip : Option ChipData) (query : Option (List TpmAlgQuery)) :
    Meets (tpmGetcapQueryAlgs (traced interface) stack chip query) (w, [])
      (fun r s => QueryEnds algFormat tpmCapAlgs TpmAlgQuery.algId query r.1 s.2)
      (fun s => exchangeCount s.2 ≤ tpmMaxPages ∧ Stalled s.2) := by
  cases chip with
  | none => exact .refused
  | some chip =>
      cases query with
      | none => exact .refused
      | some items => exact scanned_ends interface chip algFormat_decodes algFormat_fits _ _ _ _ items stack w

theorem tpmGetcapQueryPcrs_ends (chip : Option ChipData) (query : Option (List TpmPcrBankQuery)) :
    Meets (tpmGetcapQueryPcrs (traced interface) stack chip query) (w, [])
      (fun r s => QueryEnds bankFormat tpmCapPcrs TpmPcrBankQuery.hashAlg query r.1 s.2)
      (fun s => exchangeCount s.2 ≤ tpmMaxPages ∧ Stalled s.2) := by
  cases chip with
  | none => exact .refused
  | some chip =>
      cases query with
      | none => exact .refused
      | some items => exact scanned_ends interface chip bankFormat_decodes bankFormat_fits _ _ _ _ items stack w

def visitOf {δ : Type} (visit : δ → ε → σ → Bool × σ) : Option δ → ε → σ → Bool × σ
  | some cb => visit cb
  | none => fun _ s => (false, s)

theorem capLoops_end :
    (EntriesBounded algFormat tpmCapAlgs 39 ∧ EntriesBounded bankFormat tpmCapPcrs 79) ∧
    (∀ chip query, Meets (tpmGetcapQueryAlgs (traced interface) stack chip query) (w, [])
      (fun r s => QueryEnds algFormat tpmCapAlgs TpmAlgQuery.algId query r.1 s.2)
      (fun s => exchangeCount s.2 ≤ tpmMaxPages ∧ Stalled s.2)) ∧
    (∀ chip query, Meets (tpmGetcapQueryPcrs (traced interface) stack chip query) (w, [])
      (fun r s => QueryEnds bankFormat tpmCapPcrs TpmPcrBankQuery.hashAlg query r.1 s.2)
      (fun s => exchangeCount s.2 ≤ tpmMaxPages ∧ Stalled s.2)) ∧
    (∀ chip mustSetMask mustClearMask (cb : Option (UInt16 → UInt32 → σ → Bool × σ)) ctx,
      Meets (tpmForEachAlgProps (traced interface) stack chip mustSetMask mustClearMask cb ctx) (w, [])
        (fun r s => VisitEnds algFormat tpmCapAlgs 39 (visitOf (visitAlg mustSetMask mustClearMask) cb) ctx r s.2)
        (fun s => exchangeCount s.2 ≤ tpmMaxPages ∧ Stalled s.2)) ∧
    (∀ chip (cb : Option (UInt16 → List UInt8 → UInt8 → σ → Bool × σ)) ctx,
      Meets (tpmForEachPcrBank (traced interface) stack chip cb ctx) (w, [])
        (fun r s => VisitEnds bankFormat tpmCapPcrs 79
          (visitOf (fun cb e => cb e.id e.select e.sizeofSelect) cb) ctx r s.2)
        (fun s => exchangeCount s.2 ≤ tpmMaxPages ∧ Stalled s.2)) := by
  refine ⟨⟨entries_bounded algFormat_decodes algFormat_fits, entries_bounded bankFormat_decodes bankFormat_fits⟩,
    tpmGetcapQueryAlgs_ends interface stack w, tpmGetcapQueryPcrs_ends interface stack w, ?_, ?_⟩
  · intro chip mustSetMask mustClearMask cb ctx
    rcases chip with _ | chip
    · exact .refused
    rcases cb with _ | cb
    · exact .refused
    exact findLoop_ends interface chip algFormat_decodes algFormat_fits _ stack ctx w
  · intro chip cb ctx
    rcases chip with _ | chip
    · exact .refused
    rcases cb with _ | cb
    · exact .refused
    exact findLoop_ends interface chip bankFormat_decodes bankFormat_fits _ stack ctx w

end Functions

end LibTpm.CapLimits
