import LibTpm.PageRuns

namespace LibTpm.CapQueries

open LibTpm.Base LibTpm.Base.Paging LibTpm.Base.Process LibTpm.Base.Process.Proc LibTpm.Command
open LibTpm.Constants LibTpm.Endian LibTpm.Platform LibTpm.Getcap LibTpm.Queries LibTpm.Traffic
open LibTpm.CapResponse LibTpm.PageRuns

variable {W α ε : Type}

/-- The terminator is among the first `n` entries. -/
inductive Terminated (id : α → UInt16) : Nat → List α → Prop
  | stop {n : Nat} {q : α} {query : List α} (h : id q = tpmAlgNull) : Terminated id (n + 1) (q :: query)
  | next {n : Nat} {q : α} {query : List α} (h : id q ≠ tpmAlgNull) (ht : Terminated id n query) :
      Terminated id (n + 1) (q :: query)

def requested (id : α → UInt16) (query : List α) : List α :=
  query.takeWhile (fun q => ¬ id q = tpmAlgNull)

def untouched (id : α → UInt16) (query : List α) : List α :=
  query.dropWhile (fun q => ¬ id q = tpmAlgNull)

def largestId (id : α → UInt16) (query : List α) : UInt16 :=
  ((requested id query).map id).foldr max 0

section Array

variable {id : α → UInt16} {n : Nat} {query : List α}

theorem requested_stop {q : α} (h : id q = tpmAlgNull) : requested id (q :: query) = [] :=
  List.takeWhile_cons_of_neg (by simpa using h)

theorem requested_next {q : α} (h : id q ≠ tpmAlgNull) :
    requested id (q :: query) = q :: requested id query :=
  List.takeWhile_cons_of_pos (by simpa using h)

theorem Terminated.mapBefore (h : Terminated id n query) {f : α → α} (hf : ∀ q, id (f q) = id q) :
    Terminated id n (mapBefore (fun q => id q = tpmAlgNull) f query) := by
  induction h with
  | stop hq =>
      rw [Paging.mapBefore, if_pos hq]
      exact .stop hq
  | next hq ht ih =>
      rw [Paging.mapBefore, if_neg hq]
      exact .next (by rwa [hf]) ih

theorem le_largestId (q : α) (h : q ∈ requested id query) : id q ≤ largestId id query := by
  unfold largestId
  generalize requested id query = qs at h
  induction qs with
  | nil => cases h
  | cons a qs ih =>
      rw [List.map_cons, List.foldr_cons]
      change id q ≤ if id a ≤ (qs.map id).foldr max 0 then (qs.map id).foldr max 0 else id a
      rcases List.mem_cons.mp h with rfl | h
      · split
        · assumption
        · exact UInt16.le_refl _
      · split
        · exact ih h
        next hle => exact UInt16.le_trans (ih h) (UInt16.le_of_lt (UInt16.not_le.mp hle))

theorem scanQuery_spec (h : Terminated id n query) (clear : α → α) :
    (scanQuery id clear n query).query = mapBefore (fun q => id q = tpmAlgNull) clear query ∧
      (scanQuery id clear n query).foundTerm = true ∧
      (scanQuery id clear n query).maxId = largestId id query ∧
      ((scanQuery id clear n query).itemCount = 0 → requested id query = []) := by
  induction h with
  | stop hq =>
      rw [scanQuery, if_pos hq, mapBefore, if_pos hq, largestId, requested_stop hq]
      exact ⟨rfl, rfl, rfl, fun _ => rfl⟩
  | next hq ht ih =>
      obtain ⟨hquery, hterm, hmax, -⟩ := ih
      rw [scanQuery, if_neg hq, mapBefore, if_neg hq, largestId, requested_next hq]
      dsimp only
      refine ⟨by rw [hquery], hterm, ?_, fun h0 => ?_⟩
      · rw [hmax]
        rfl
      · cases h0

def markAlg (e : AlgEntry) (q : TpmAlgQuery) : TpmAlgQuery :=
  if q.algId = e.id then { q with enabled := true } else q

def markPcr (e : PcrEntry) (q : TpmPcrBankQuery) : TpmPcrBankQuery :=
  if q.hashAlg = e.id then { q with pcrSelect := copySelect e.select } else q

theorem markAlg_id (e : AlgEntry) (q : TpmAlgQuery) : (markAlg e q).algId = q.algId := by
  unfold markAlg
  split <;> rfl

theorem markPcr_id (e : PcrEntry) (q : TpmPcrBankQuery) : (markPcr e q).hashAlg = q.hashAlg := by
  unfold markPcr
  split <;> rfl

theorem markAlgs_spec {query : List TpmAlgQuery} (h : Terminated TpmAlgQuery.algId n query)
    (e : AlgEntry) : markAlgs e n query =
      mapBefore (fun q => q.algId = tpmAlgNull) (markAlg e) query := by
  induction h with
  | stop hq => rw [markAlgs, if_pos hq, mapBefore, if_pos hq]
  | next hq ht ih =>
      rw [markAlgs, if_neg hq, mapBefore, if_neg hq, ih]
      rfl

theorem markPcrs_spec {query : List TpmPcrBankQuery}
    (h : Terminated TpmPcrBankQuery.hashAlg n query) (e : PcrEntry) : markPcrs e n query =
      mapBefore (fun q => q.hashAlg = tpmAlgNull) (markPcr e) query := by
  induction h with
  | stop hq => rw [markPcrs, if_pos hq, mapBefore, if_pos hq]
  | next hq ht ih =>
      rw [markPcrs, if_neg hq, mapBefore, if_neg hq, ih]
      rfl

theorem foldl_marks {mark : ε → α → α} {marks : ε → List α → List α}
    (hid : ∀ e q, id (mark e q) = id q)
    (hmarks : ∀ e query, Terminated id n query →
      marks e query = mapBefore (fun q => id q = tpmAlgNull) (mark e) query)
    (es : List ε) (h : Terminated id n query) :
    es.foldl (fun query e => marks e query) query =
      mapBefore (fun q => id q = tpmAlgNull) (fun q => es.foldl (fun q e => mark e q) q) query := by
  induction es generalizing query with
  | nil => exact (mapBefore_id _ query).symm
  | cons e es ih =>
      rw [List.foldl_cons, hmarks e query h, ih (h.mapBefore (hid e)),
        mapBefore_comp _ fun q => by rw [hid]]
      rfl

theorem requested_mapBefore (f : α → α) (hf : ∀ q, id (f q) = id q) (query : List α) :
    requested id (mapBefore (fun q => id q = tpmAlgNull) f query) = (requested id query).map f := by
  induction query with
  | nil => rfl
  | cons q query ih =>
      by_cases hq : id q = tpmAlgNull
      · rw [mapBefore, if_pos hq, requested_stop hq]
        rfl
      · have hfq : id (f q) ≠ tpmAlgNull := by rwa [hf]
        rw [mapBefore, if_neg hq, requested_next hfq, requested_next hq, ih, List.map_cons]

/-- No id, and no entry at or after the terminator, differs. -/
structure Unchanged (id : α → UInt16) (query out : List α) : Prop where
  ids : out.map id = query.map id
  rest : untouched id out = untouched id query

theorem unchanged_mapBefore (f : α → α) (hf : ∀ q, id (f q) = id q) (query : List α) :
    Unchanged id query (mapBefore (fun q => id q = tpmAlgNull) f query) where
  ids := map_mapBefore _ hf query
  rest := dropWhile_mapBefore _ (fun q => by rw [hf]) query

/-- A fold of marks that overwrite each other with the same value `b`. -/
theorem foldl_mark (id : α → UInt16) (key : ε → UInt16) (set : ε → α → α)
    (hid : ∀ e q, id (set e q) = id q) {b : α} (es : List ε) (q : α)
    (h : ∀ e ∈ es, key e = id q → set e q = b ∧ set e b = b) :
    es.foldl (fun q e => if id q = key e then set e q else q) q =
      if id q ∈ es.map key then b else q := by
  have stays (es : List ε) (h : ∀ e ∈ es, key e = id b → set e b = b) :
      es.foldl (fun q e => if id q = key e then set e q else q) b = b := by
    induction es with
    | nil => rfl
    | cons e es ih =>
        have he : (if id b = key e then set e b else b) = b := by
          split
          next heq => exact h e List.mem_cons_self heq.symm
          next => rfl
        rw [List.foldl_cons, he]
        exact ih fun x hx => h x (List.mem_cons_of_mem e hx)
  induction es with
  | nil => rfl
  | cons e es ih =>
      have htail : ∀ x ∈ es, key x = id q → set x q = b ∧ set x b = b :=
        fun x hx => h x (List.mem_cons_of_mem e hx)
      rw [List.foldl_cons, List.map_cons]
      by_cases heq : id q = key e
      · obtain ⟨hset, -⟩ := h e List.mem_cons_self heq.symm
        have hb : id b = id q := by rw [← hset, hid]
        rw [if_pos heq, hset, if_pos (by rw [heq]; exact List.mem_cons_self)]
        exact stays es fun x hx hk => (htail x hx (hk.trans hb)).2
      · rw [if_neg heq, ih htail]
        simp only [List.mem_cons, heq, false_or]

end Array

theorem forall₂_concat {R : α → ε → Prop} {as : List α} {es : List ε} {e : ε}
    (h : List.Forall₂ R as (es ++ [e])) : ∃ as' a, as = as' ++ [a] ∧ R a e := by
  have hdrop := List.forall₂_drop_append as es [e] h
  have hsplit := List.take_append_drop es.length as
  cases hcase : as.drop es.length with
  | nil =>
      rw [hcase] at hdrop
      cases hdrop
  | cons a rest =>
      rw [hcase] at hdrop hsplit
      cases hdrop with
      | cons ha hrest =>
          rw [List.forall₂_nil_right_iff.mp hrest] at hsplit
          exact ⟨_, a, hsplit.symm, ha⟩

section Coverage

variable {β κ σ : Type} {f : EntryFormat β ε} {cap : UInt32} {A : Nat → List β → Bool → Prop}
variable {mark : ε → σ → σ} {m : UInt16} {limit : Nat} {start : σ} {r : Int × σ} {bufs : List TpmCmd}
variable {key : κ → Nat} {S : List κ}

theorem mem_below {p : Nat} {c : κ} : c ∈ below key p S ↔ c ∈ S ∧ key c < p := by
  rw [below, List.mem_filter, decide_eq_true_eq]

theorem isPage_of_more {g : β → κ} (hA : ∀ p page more, A p page more →
      (more = false ∧ ∀ c, c ∈ page.map g ↔ c ∈ S) ∨ IsPage key S p (page.map g) more)
    (p : Nat) (page : List β) (h : A p page true) : IsPage key S p (page.map g) true := by
  rcases hA p page true h with ⟨hc, -⟩ | h
  · exact absurd hc (by simp)
  · exact h

/-- How a query ends, from the elements `V` it has marked: all that can matter
below the largest id `m`, or `limit` pages and more to come below `m`. -/
theorem run_covers (g : β → κ) (hkey : ∀ b, key (g b) = f.key b) (hS : Ascending key S)
    (hA : ∀ p page more, A p page more →
      (more = false ∧ ∀ c, c ∈ page.map g ↔ c ∈ S) ∨ IsPage key S p (page.map g) more)
    (hlimit : 0 < limit)
    (h : PageRun f cap A (fun e s => (false, mark e s)) (fun last => last < m) limit start r bufs) :
    ∃ V, visitAll (f.visit fun e s => (false, mark e s)) V start = (false, r.2) ∧
      (∀ c ∈ V.map g, c ∈ S) ∧
      ((r.1 = tpmSuccess ∧ ∀ c ∈ S, key c ≤ m.toNat → c ∈ V.map g) ∨
        (r.1 = tpmErrIterationLimit ∧ ∃ pages init last, V = (pages ++ [init ++ [last]]).flatten ∧
          (∃ rest, rest ≠ [] ∧ S = V.map g ++ rest) ∧
          Walk f.key A (pages ++ [init ++ [last]]) (f.key last + 1) ∧
          (pages ++ [init ++ [last]]).length = limit ∧
          List.Forall₂ (fun buf page => Carries buf (capResponse f.encode cap true page)) bufs
            (pages ++ [init ++ [last]]) ∧ f.id (f.entry last) < m)) := by
  have hmore := isPage_of_more hA
  have hflat {pages : List (List β)} {p : Nat} (h : Walk f.key A pages p) :
      pages.flatten.map g = below key p S := by
    rw [List.map_flatten]
    exact flatten_walk hS (h.map g hkey hmore)
  cases h with
  | @accepted pages p page more out bufs walk short answer visited =>
      exact absurd visited (visitAll_fold_ne (fun b s => mark (f.entry b) s) (pages.flatten ++ page) start out)
  | @finished pages p page out bufs walk short answer visited =>
      refine ⟨_, visited, ?_, .inl ⟨rfl, ?_⟩⟩
      · intro c hc
        rw [List.map_append, hflat walk, List.mem_append, mem_below] at hc
        rcases hc with hc | hc
        · exact hc.1
        · rcases hA _ _ _ answer with ⟨-, hall⟩ | hpage
          · exact (hall c).mp hc
          · exact hpage.mem hc
      · intro c hc _
        rw [List.map_append, hflat walk, List.mem_append]
        rcases hA _ _ _ answer with ⟨-, hall⟩ | hpage
        · exact .inr ((hall c).mpr hc)
        · rw [← hpage.complete hS] at hc
          exact List.mem_append.mp hc
  | @stopped pages page last out bufs walk halt visited =>
      refine ⟨_, visited, ?_, .inl ⟨rfl, ?_⟩⟩
      · intro c hc
        rw [hflat walk, mem_below] at hc
        exact hc.1
      · intro c hc hle
        have hm : m ≤ f.id (f.entry last) := UInt16.not_lt.mp (of_decide_eq_false halt)
        have hlast : m.toNat ≤ f.key last := UInt16.le_iff_toNat_le.mp hm
        rw [hflat walk, mem_below]
        exact ⟨hc, by omega⟩
  | @exhausted pages p out bufs walk full delivered unfinished visited =>
      refine ⟨_, visited, ?_, .inr ⟨rfl, ?_⟩⟩
      · intro c hc
        rw [hflat walk, mem_below] at hc
        exact hc.1
      · cases walk with
        | start => exact absurd full (Nat.ne_of_lt hlimit)
        | @resume pages _ init last hwalk hpage =>
            have hlt := of_decide_eq_true (unfinished pages init last rfl)
            have hrest := walk_remainder hS ((hwalk.resume hpage).map g hkey hmore) (by simp)
            rw [← List.map_flatten] at hrest
            exact ⟨pages, init, last, rfl, hrest, hwalk.resume hpage, full, delivered, hlt⟩

end Coverage

section Run

variable {β : Type} [Host] {f : EntryFormat β ε} {cap : UInt32} {A : Nat → List β → Bool → Prop}
variable {interface : Interface W} {chip : ChipData} {id : α → UInt16} {clear : α → α} {n : Nat}
variable {query : List α}

/-- The two queries after the checks of their pointers. -/
theorem scanned_run {tpm : Nat → Nat → List β → Bool → Prop}
    (htpm : Answers interface chip cap f.encode tpm)
    (hA : ∀ p page more, tpm p tpmDefaultPageCount.toNat page more → A p page more)
    (hempty : ∀ p more, A p [] more → more = false) (mark : ε → List α → List α)
    (hq : Terminated id n query) (stack : TpmCmd) (w : W) :
    let scan := scanQuery id clear n query
    Meets (if ¬ scan.foundTerm then pure (tpmInvalidParam, some scan.query)
      else if scan.itemCount = 0 then pure (tpmSuccess, some scan.query)
      else pageLoop (logged interface) (some chip) cap (parseQuery cap f.read f.id mark)
        (fun last => last < scan.maxId) tpmMaxPages (PageState.init stack scan.query) >>=
          fun r => pure (r.1, some r.2)) (w, [])
      (fun r s => ∃ out, r.2 = some out ∧
        ((requested id query = [] ∧ r.1 = tpmSuccess ∧
          out = mapBefore (fun q => id q = tpmAlgNull) clear query) ∨
        PageRun f cap A (fun e query => (false, mark e query)) (fun last => last < largestId id query)
          tpmMaxPages (mapBefore (fun q => id q = tpmAlgNull) clear query) (r.1, out)
          (receivedBuffers s.2))) (fun _ => False) := by
  obtain ⟨hquery, hterm, hmax, hnone⟩ := scanQuery_spec hq clear
  dsimp only
  rw [hterm, if_neg (by simp), hquery, hmax]
  by_cases h0 : (scanQuery id clear n query).itemCount = 0
  · rw [if_pos h0]
    exact ⟨_, rfl, .inl ⟨hnone h0, rfl, rfl⟩⟩
  · rw [if_neg h0, meets_bind]
    refine (pageLoop_run htpm hA hempty
      (fun buf more page po hc hf => parseQuery_parses f hc mark po hf) tpmMaxPages
      (PageState.init stack (mapBefore (fun q => id q = tpmAlgNull) clear query)) w [] [] .start rfl
      rfl (Nat.zero_add tpmMaxPages) .nil (by simp)).imp ?_
    rintro r s hr
    exact ⟨r.2, rfl, .inr hr⟩

end Run

section Algs

variable {query : List TpmAlgQuery}

def clearAlg (q : TpmAlgQuery) : TpmAlgQuery := { q with enabled := false }

def fillAlg (V : List AlgEntry) (q : TpmAlgQuery) : TpmAlgQuery :=
  { q with enabled := decide (q.algId ∈ V.map AlgEntry.id) }

theorem algs_visited (h : Terminated TpmAlgQuery.algId tpmMaxAlgProperties query)
    {V : List AlgEntry} {b : Bool} {out : List TpmAlgQuery}
    (hv : visitAll (algFormat.visit fun e query => (false, markAlgs e tpmMaxAlgProperties query)) V
      (mapBefore (fun q => q.algId = tpmAlgNull) clearAlg query) = (b, out)) :
    out = mapBefore (fun q => q.algId = tpmAlgNull) (fillAlg V) query := by
  have hfold := (visitAll_fold (fun e query => markAlgs e tpmMaxAlgProperties query) V _).symm.trans hv
  have hmarks := foldl_marks (n := tpmMaxAlgProperties) markAlg_id (fun e query h => markAlgs_spec h e)
    V (h.mapBefore (f := clearAlg) fun _ => rfl)
  rw [← (Prod.mk.inj hfold).2, hmarks, mapBefore_comp (g := clearAlg) _ fun _ => Iff.rfl]
  apply mapBefore_congr
  intro q _
  have hid : (clearAlg q).algId = q.algId := rfl
  have hmark : V.foldl (fun q e => markAlg e q) (clearAlg q) =
      if (clearAlg q).algId ∈ V.map AlgEntry.id then { q with enabled := true } else clearAlg q :=
    foldl_mark TpmAlgQuery.algId AlgEntry.id (fun e q => { q with enabled := true })
      (fun e q => rfl) V (clearAlg q) fun e _ _ => ⟨rfl, rfl⟩
  rw [hmark, hid, fillAlg]
  by_cases hmem : q.algId ∈ V.map AlgEntry.id
  · rw [if_pos hmem, decide_eq_true hmem]
  · rw [if_neg hmem, decide_eq_false hmem]
    rfl

variable [Host] {interface : Interface W} {chip : ChipData} {S : List UInt16}

/-- A TPM that supports the algorithms `S` and, asked for at least one of them
from `p` on, answers with at most `k`. -/
def AlgPages (S : List UInt16) (p k : Nat) (page : List AlgEntry) (more : Bool) : Prop :=
  0 < k → IsPage UInt16.toNat S p (page.map AlgEntry.id) more ∧ page.length ≤ k

theorem queryAlgs_run {tpm : Nat → Nat → List AlgEntry → Bool → Prop}
    {A : Nat → List AlgEntry → Bool → Prop}
    (htpm : Answers interface chip tpmCapAlgs algFormat.encode tpm)
    (hA : ∀ p page more, tpm p tpmDefaultPageCount.toNat page more → A p page more)
    (hempty : ∀ p more, A p [] more → more = false)
    (hq : Terminated TpmAlgQuery.algId tpmMaxAlgProperties query) (stack : TpmCmd) (w : W) :
    Meets (tpmGetcapQueryAlgs (logged interface) stack (some chip) (some query)) (w, [])
      (fun r s => ∃ out, r.2 = some out ∧
        ((requested TpmAlgQuery.algId query = [] ∧ r.1 = tpmSuccess ∧
          out = mapBefore (fun q => q.algId = tpmAlgNull) clearAlg query) ∨
        PageRun algFormat tpmCapAlgs A (fun e query => (false, markAlgs e tpmMaxAlgProperties query))
          (fun last => last < largestId TpmAlgQuery.algId query) tpmMaxPages
          (mapBefore (fun q => q.algId = tpmAlgNull) clearAlg query) (r.1, out)
          (receivedBuffers s.2))) (fun _ => False) :=
  scanned_run htpm hA hempty (fun e query => markAlgs e tpmMaxAlgProperties query) hq stack w

/-- How a query for algorithms ends: with the answer for each entry, or after
the last page that is allowed, when it announces more and its last id is still
below the largest one in the query. -/
inductive AlgsAnswer (S : List UInt16) (query : List TpmAlgQuery) :
    Int → List TpmAlgQuery → List TpmCmd → Prop
  | success {out : List TpmAlgQuery} {bufs : List TpmCmd}
      (enabled : ∀ q ∈ requested TpmAlgQuery.algId out, q.enabled = decide (q.algId ∈ S)) :
      AlgsAnswer S query tpmSuccess out bufs
  | limit {out : List TpmAlgQuery} {bufs : List TpmCmd} {buf : TpmCmd} {page : List AlgEntry}
      {last : AlgEntry} (read : (bufs ++ [buf]).length = tpmMaxPages)
      (carries : Carries buf (capResponse algFormat.encode tpmCapAlgs true (page ++ [last])))
      (ahead : last.id < largestId TpmAlgQuery.algId query) :
      AlgsAnswer S query tpmErrIterationLimit out (bufs ++ [buf])

theorem tpmGetcapQueryAlgs_enables (hS : Ascending UInt16.toNat S)
    (htpm : Answers interface chip tpmCapAlgs algFormat.encode (AlgPages S))
    (hq : Terminated TpmAlgQuery.algId tpmMaxAlgProperties query) (stack : TpmCmd) (w : W) :
    Meets (tpmGetcapQueryAlgs (logged interface) stack (some chip) (some query)) (w, [])
      (fun r s => ∃ out, r.2 = some out ∧ Unchanged TpmAlgQuery.algId query out ∧
        AlgsAnswer S query r.1 out (receivedBuffers s.2)) (fun _ => False) := by
  have hpage (p : Nat) (page : List AlgEntry) (more : Bool)
      (h : AlgPages S p tpmDefaultPageCount.toNat page more) :
      IsPage UInt16.toNat S p (page.map AlgEntry.id) more := (h (by decide)).1
  refine (queryAlgs_run htpm hpage (fun p more h => h.not_more_of_nil) hq stack w).imp ?_
  rintro ⟨ret, _⟩ ⟨w, log⟩ ⟨out, rfl, ⟨hnone, rfl, rfl⟩ | hrun⟩
  · refine ⟨_, rfl, unchanged_mapBefore clearAlg (fun _ => rfl) query, .success ?_⟩
    intro q hmem
    rw [requested_mapBefore clearAlg fun _ => rfl, hnone] at hmem
    cases hmem
  · obtain ⟨V, hvisit, hsub, hend⟩ := run_covers AlgEntry.id (fun _ => rfl) hS
      (fun p page more h => .inr h) (by decide) hrun
    obtain rfl : out = _ := algs_visited hq hvisit
    refine ⟨_, rfl, unchanged_mapBefore (fillAlg V) (fun _ => rfl) query, ?_⟩
    dsimp only at hend ⊢
    rcases hend with ⟨rfl, hall⟩ | ⟨rfl, pages, init, last, -, -, -, hfull, hlog, hlt⟩
    · constructor
      intro q hmem
      rw [requested_mapBefore (fillAlg V) fun _ => rfl] at hmem
      obtain ⟨q, hq, rfl⟩ := List.mem_map.mp hmem
      apply decide_eq_decide.mpr
      constructor
      · exact hsub q.algId
      · intro hs
        exact hall _ hs (UInt16.le_iff_toNat_le.mp (le_largestId q hq))
    · have hlength := hlog.length_eq.trans hfull
      obtain ⟨bufs, buf, hbufs, hcarries⟩ := forall₂_concat hlog
      rw [hbufs] at hlength ⊢
      exact .limit hlength hcarries hlt

end Algs

def plainAlgs (S : List UInt16) (p k : Nat) : List AlgEntry × Bool :=
  ((nextPage UInt16.toNat S p k).1.map (fun id => ⟨id, 0⟩), (nextPage UInt16.toNat S p k).2)

theorem tpmGetcapQueryAlgs_enables_sha256 :
    letI := littleHost
    Meets (tpmGetcapQueryAlgs
        (logged (replying (pageReply algFormat.encode tpmCapAlgs (plainAlgs [4, 11])))) TpmCmd.zero
        (some tpmChipData) (some [⟨11, false⟩, ⟨5, true⟩, ⟨tpmAlgNull, true⟩])) ([], [])
      (fun r s => ∃ out, r.2 = some out ∧
        Unchanged TpmAlgQuery.algId [⟨11, false⟩, ⟨5, true⟩, ⟨tpmAlgNull, true⟩] out ∧
        AlgsAnswer [4, 11] [⟨11, false⟩, ⟨5, true⟩, ⟨tpmAlgNull, true⟩] r.1 out
          (receivedBuffers s.2)) (fun _ => False) := by
  let _ := littleHost
  refine tpmGetcapQueryAlgs_enables (S := [4, 11]) (by simp [Ascending]) (replying_answers ?_ ?_)
    (.next (by decide) (.next (by decide) (.stop rfl))) _ _
  · intro p k hk
    have hids : (plainAlgs [4, 11] p k).1.map AlgEntry.id = (nextPage UInt16.toNat [4, 11] p k).1 := by
      rw [plainAlgs, List.map_map]
      exact List.map_id _
    rw [hids]
    exact ⟨isPage_nextPage _ _ hk, by simp [plainAlgs, nextPage]⟩
  · intro p k
    have hpart := (nextPage_sublist UInt16.toNat [4, 11] p k).map fun id => AlgEntry.mk id 0
    have hle := (hpart.flatMap algFormat.encode).length_le
    exact Nat.le_trans (Nat.add_le_add_left hle 19) (by decide)

section Pcrs

variable {query : List TpmPcrBankQuery}

abbrev PcrSelect : Type := Vector UInt8 tpmPcrSelectSize.toNat

def noOctets : PcrSelect := Vector.replicate tpmPcrSelectSize.toNat 0

def clearPcr (q : TpmPcrBankQuery) : TpmPcrBankQuery := { q with pcrSelect := noOctets }

def zeroExtend (octets : List UInt8) : PcrSelect := Vector.ofFn fun i => octets.getD i 0

/-- The mask of a bank in the allocation, and zeros for a bank that is not there. -/
def bankMask (S : List PcrBank) (hashAlg : UInt16) : PcrSelect :=
  match S.find? (fun b => b.id = hashAlg) with
  | some b => zeroExtend b.octets
  | none => noOctets

def fillPcr (V S : List PcrBank) (q : TpmPcrBankQuery) : TpmPcrBankQuery :=
  if q.hashAlg ∈ V.map PcrBank.id then { q with pcrSelect := bankMask S q.hashAlg } else clearPcr q

theorem pcrs_visited (h : Terminated TpmPcrBankQuery.hashAlg tpmMaxPcrSelections query)
    {V S : List PcrBank} {b : Bool} {out : List TpmPcrBankQuery}
    (hmask : ∀ b ∈ V, zeroExtend b.octets = bankMask S b.id)
    (hv : visitAll (bankFormat.visit fun e query => (false, markPcrs e tpmMaxPcrSelections query)) V
      (mapBefore (fun q => q.hashAlg = tpmAlgNull) clearPcr query) = (b, out)) :
    out = mapBefore (fun q => q.hashAlg = tpmAlgNull) (fillPcr V S) query := by
  have hfold := (visitAll_fold (fun b query => markPcrs (PcrBank.entry b) tpmMaxPcrSelections query)
    V _).symm.trans hv
  have hmarks := foldl_marks (n := tpmMaxPcrSelections)
    (fun b => markPcr_id (PcrBank.entry b)) (fun b query h => markPcrs_spec h (PcrBank.entry b)) V
    (h.mapBefore (f := clearPcr) fun _ => rfl)
  rw [← (Prod.mk.inj hfold).2, hmarks, mapBefore_comp (g := clearPcr) _ fun _ => Iff.rfl]
  apply mapBefore_congr
  intro q _
  apply foldl_mark TpmPcrBankQuery.hashAlg PcrBank.id
    (fun b q => { q with pcrSelect := zeroExtend b.octets }) (fun b q => rfl) V (clearPcr q)
  intro b hb hid
  have hq : b.id = q.hashAlg := hid
  constructor
  · rw [hmask b hb, hq]
    rfl
  · rw [hmask b hb, hq]

variable {S : List PcrBank}

theorem bankMask_of_mem (hS : Ascending bankFormat.key S) {b : PcrBank} (hb : b ∈ S) :
    bankMask S b.id = zeroExtend b.octets := by
  unfold bankMask
  induction S with
  | nil => cases hb
  | cons a S ih =>
      obtain ⟨ha, hS⟩ := List.pairwise_cons.mp hS
      rcases List.mem_cons.mp hb with rfl | hb
      · rw [List.find?_cons_of_pos (by simp)]
      · have hne : ¬ a.id = b.id := fun heq => absurd (ha b hb) (by
          change ¬ a.id.toNat < b.id.toNat
          rw [heq]
          exact Nat.lt_irrefl _)
        rw [List.find?_cons_of_neg (by simpa using hne)]
        exact ih hS hb

theorem bankMask_of_notMem {hashAlg : UInt16} (h : hashAlg ∉ S.map PcrBank.id) :
    bankMask S hashAlg = noOctets := by
  have hnone : S.find? (fun b => b.id = hashAlg) = none := by
    apply List.find?_eq_none.mpr
    intro b hb hid
    exact h (List.mem_map.mpr ⟨b, hb, of_decide_eq_true hid⟩)
  rw [bankMask, hnone]

theorem fillPcr_mask {V : List PcrBank} {q : TpmPcrBankQuery} (hsub : ∀ b ∈ S, b.id = q.hashAlg → b ∈ V) :
    (fillPcr V S q).pcrSelect = bankMask S q.hashAlg := by
  unfold fillPcr
  by_cases hmem : q.hashAlg ∈ V.map PcrBank.id
  · rw [if_pos hmem]
  · have hnot : q.hashAlg ∉ S.map PcrBank.id := by
      intro hs
      obtain ⟨b, hb, hid⟩ := List.mem_map.mp hs
      exact hmem (List.mem_map.mpr ⟨b, hsub b hb hid, hid⟩)
    rw [if_neg hmem, bankMask_of_notMem hnot]
    rfl

theorem fillPcr_id (V : List PcrBank) (q : TpmPcrBankQuery) : (fillPcr V S q).hashAlg = q.hashAlg := by
  unfold fillPcr
  split <;> rfl

variable [Host] {interface : Interface W} {chip : ChipData}

/-- How a query for the banks ends: with the mask for each entry, or after the
last page that is allowed, when banks remain and its last id is still below the
largest one in the query. -/
inductive PcrsAnswer (S : List PcrBank) (query : List TpmPcrBankQuery) :
    Int → List TpmPcrBankQuery → List TpmCmd → Prop
  | success {out : List TpmPcrBankQuery} {bufs : List TpmCmd}
      (masks : ∀ q ∈ requested TpmPcrBankQuery.hashAlg out, q.pcrSelect = bankMask S q.hashAlg) :
      PcrsAnswer S query tpmSuccess out bufs
  | limit {out : List TpmPcrBankQuery} {bufs : List TpmCmd} {pages : List (List PcrBank)}
      {page rest : List PcrBank} {last : PcrBank}
      (read : (pages ++ [page ++ [last]]).length = tpmMaxPages)
      (carries : List.Forall₂
        (fun buf page => Carries buf (capResponse bankFormat.encode tpmCapPcrs true page)) bufs
        (pages ++ [page ++ [last]]))
      (remain : S = (pages ++ [page ++ [last]]).flatten ++ rest) (unread : rest ≠ [])
      (ahead : last.id < largestId TpmPcrBankQuery.hashAlg query) :
      PcrsAnswer S query tpmErrIterationLimit out bufs

/-- A TPM with the allocation `S` answers with all of it, in any order, or with
the next banks from `p` on. -/
def BankPages (S : List PcrBank) (p _k : Nat) (page : List PcrBank) (more : Bool) : Prop :=
  (page.Perm S ∧ more = false) ∨ IsPage bankFormat.key S p page more

theorem queryPcrs_run (htpm : Answers interface chip tpmCapPcrs bankFormat.encode (BankPages S))
    (hq : Terminated TpmPcrBankQuery.hashAlg tpmMaxPcrSelections query) (stack : TpmCmd) (w : W) :
    Meets (tpmGetcapQueryPcrs (logged interface) stack (some chip) (some query)) (w, [])
      (fun r s => ∃ out, r.2 = some out ∧
        ((requested TpmPcrBankQuery.hashAlg query = [] ∧ r.1 = tpmSuccess ∧
          out = mapBefore (fun q => q.hashAlg = tpmAlgNull) clearPcr query) ∨
        PageRun bankFormat tpmCapPcrs (fun p page more => BankPages S p tpmDefaultPageCount.toNat page more)
          (fun e query => (false, markPcrs e tpmMaxPcrSelections query))
          (fun last => last < largestId TpmPcrBankQuery.hashAlg query) tpmMaxPages
          (mapBefore (fun q => q.hashAlg = tpmAlgNull) clearPcr query) (r.1, out)
          (receivedBuffers s.2))) (fun _ => False) := by
  apply scanned_run htpm (fun _ _ _ h => h) _ (fun e query => markPcrs e tpmMaxPcrSelections query) hq
  rintro p more (⟨-, hmore⟩ | hpage)
  · exact hmore
  · exact hpage.not_more_of_nil

theorem tpmGetcapQueryPcrs_fills (hS : Ascending bankFormat.key S)
    (htpm : Answers interface chip tpmCapPcrs bankFormat.encode (BankPages S))
    (hq : Terminated TpmPcrBankQuery.hashAlg tpmMaxPcrSelections query) (stack : TpmCmd) (w : W) :
    Meets (tpmGetcapQueryPcrs (logged interface) stack (some chip) (some query)) (w, [])
      (fun r s => ∃ out, r.2 = some out ∧ Unchanged TpmPcrBankQuery.hashAlg query out ∧
        PcrsAnswer S query r.1 out (receivedBuffers s.2)) (fun _ => False) := by
  have hpage (p : Nat) (page : List PcrBank) (more : Bool)
      (h : BankPages S p tpmDefaultPageCount.toNat page more) :
      (more = false ∧ ∀ b, b ∈ page.map (fun b => b) ↔ b ∈ S) ∨
        IsPage bankFormat.key S p (page.map fun b => b) more := by
    rw [List.map_id']
    rcases h with ⟨hperm, hmore⟩ | h
    · exact .inl ⟨hmore, fun _ => hperm.mem_iff⟩
    · exact .inr h
  refine (queryPcrs_run htpm hq stack w).imp ?_
  rintro ⟨ret, _⟩ ⟨w, log⟩ ⟨out, rfl, ⟨hnone, rfl, rfl⟩ | hrun⟩
  · refine ⟨_, rfl, unchanged_mapBefore clearPcr (fun _ => rfl) query, .success ?_⟩
    intro q hmem
    rw [requested_mapBefore clearPcr fun _ => rfl, hnone] at hmem
    cases hmem
  · obtain ⟨V, hvisit, hsub, hend⟩ := run_covers (fun b => b) (fun _ => rfl) hS hpage (by decide) hrun
    rw [List.map_id'] at hsub hend
    have hmask : ∀ b ∈ V, zeroExtend b.octets = bankMask S b.id :=
      fun b hb => (bankMask_of_mem hS (hsub b hb)).symm
    obtain rfl : out = _ := pcrs_visited hq hmask hvisit
    refine ⟨_, rfl, unchanged_mapBefore (fillPcr V S) (fillPcr_id V) query, ?_⟩
    dsimp only at hend ⊢
    rcases hend with ⟨rfl, hall⟩ | ⟨rfl, pages, init, last, rfl, ⟨rest, hne, hrest⟩, -, hfull, hlog, hlt⟩
    · constructor
      intro q hmem
      rw [requested_mapBefore (fillPcr V S) (fillPcr_id V)] at hmem
      obtain ⟨q, hq, rfl⟩ := List.mem_map.mp hmem
      rw [fillPcr_id]
      apply fillPcr_mask
      intro b hb hid
      apply hall b hb
      have hle := UInt16.le_iff_toNat_le.mp (le_largestId q hq)
      rw [← hid] at hle
      exact hle
    · exact .limit hfull hlog hrest hne hlt

end Pcrs

def threeBanks : List PcrBank := [⟨4, [0xff], by decide⟩, ⟨11, [0xff, 0xff], by decide⟩, ⟨12, [], by decide⟩]

theorem threeBanks_ascending : Ascending bankFormat.key threeBanks := by
  unfold Ascending
  decide +kernel

def threeBanksTpm [Host] : Interface (List UInt8) :=
  replying (pageReply bankFormat.encode tpmCapPcrs fun p _ => nextPage bankFormat.key threeBanks p 2)

theorem threeBanksTpm_answers [Host] :
    Answers threeBanksTpm tpmChipData tpmCapPcrs bankFormat.encode (BankPages threeBanks) :=
  replying_nextPage bankFormat (fun _ => 2) (by decide) fun p _ => .inr (isPage_nextPage threeBanks p (by decide))

/-- Unordered, with a bank twice and with one that the TPM does not have. -/
def bankQuery (mask : UInt16 → PcrSelect) : List TpmPcrBankQuery :=
  [⟨12, mask 12⟩, ⟨11, mask 11⟩, ⟨4, mask 4⟩, ⟨11, mask 11⟩, ⟨0x27, mask 0x27⟩, ⟨tpmAlgNull, #v[7, 7, 7]⟩,
    ⟨4, #v[8, 8, 8]⟩]

theorem tpmGetcapQueryPcrs_fills_paged :
    letI := littleHost
    let query := bankQuery fun _ => #v[1, 2, 3]
    let out := bankQuery (bankMask threeBanks)
    let run := tpmGetcapQueryPcrs (logged threeBanksTpm) TpmCmd.zero (some tpmChipData) (some query) ([], [])
    run.1 = some (tpmSuccess, some out) ∧ (receivedBuffers run.2.2).length = 2 ∧
      Unchanged TpmPcrBankQuery.hashAlg query out ∧
      PcrsAnswer threeBanks query tpmSuccess out (receivedBuffers run.2.2) := by
  let _ := littleHost
  intro query out run
  have hvalue : run.1 = some (tpmSuccess, some out) := by decide +kernel
  have hquery : Terminated TpmPcrBankQuery.hashAlg tpmMaxPcrSelections query :=
    .next (by decide) (.next (by decide) (.next (by decide) (.next (by decide) (.next (by decide) (.stop rfl)))))
  have hfills := tpmGetcapQueryPcrs_fills threeBanks_ascending threeBanksTpm_answers hquery TpmCmd.zero []
  have hrun : run = (some (tpmSuccess, some out), run.2) := Prod.ext hvalue rfl
  obtain ⟨_, hout, hsame, hanswer⟩ := hfills.returned hrun
  cases hout
  exact ⟨hvalue, by decide +kernel, hsame, hanswer⟩

end LibTpm.CapQueries
