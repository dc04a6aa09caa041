import LibTpm.PageRuns

namespace LibTpm.CapVisits

open LibTpm.Base LibTpm.Base.Paging LibTpm.Base.Process LibTpm.Base.Process.Proc LibTpm.Command
open LibTpm.Constants LibTpm.Endian LibTpm.Platform LibTpm.Getcap LibTpm.Queries LibTpm.Traffic
open LibTpm.CapResponse LibTpm.PageRuns

variable {W β ε σ : Type}

def Matches (mustSetMask mustClearMask : UInt32) (e : AlgEntry) : Bool :=
  e.props &&& mustSetMask = mustSetMask ∧ e.props &&& mustClearMask = 0

/-- How a visit of the listed elements ends: at the first one that `call`
accepts or at the end of the list, or after the last page that is allowed, when
all elements up to there have been visited in vain and others remain. -/
inductive ForEach (encode : β → List UInt8) (cap : UInt32) (P : β → Bool)
    (call : β → σ → Bool × σ) (S : List β) (ctx : σ) : Int × σ → List TpmCmd → Prop
  | complete {bufs : List TpmCmd} :
      ForEach encode cap P call S ctx (tpmSuccess, (visitAll call (S.filter P) ctx).2) bufs
  | limit {bufs : List TpmCmd} {pages : List (List β)} {rest : List β} {out : σ}
      (read : pages.length = tpmMaxPages)
      (carries : List.Forall₂ (fun buf page => Carries buf (capResponse encode cap true page)) bufs pages)
      (remain : S = pages.flatten ++ rest) (unread : rest ≠ [])
      (visited : visitAll call (pages.flatten.filter P) ctx = (false, out)) :
      ForEach encode cap P call S ctx (tpmErrIterationLimit, out) bufs

section Visit

variable {f : EntryFormat β ε} {cap : UInt32} {v : ε → σ → Bool × σ} {ctx : σ}
variable {r : Int × σ} {bufs : List TpmCmd} {S : List β}

theorem forEach_of_run {A : Nat → List β → Bool → Prop} (hS : Ascending f.key S)
    (hA : ∀ p page more, A p page more → IsPage f.key S p page more) (P : β → Bool)
    {call : β → σ → Bool × σ}
    (hcall : f.visit v = fun b s => if P b then call b s else (false, s))
    (h : PageRun f cap A v (fun _ => true) tpmMaxPages ctx r bufs) :
    ForEach f.encode cap P call S ctx r bufs := by
  have hfilter (es : List β) : visitAll (f.visit v) es ctx = visitAll call (es.filter P) ctx := by
    rw [hcall, visitAll_filter]
  have hwalk {pages : List (List β)} {p : Nat} (h : Walk f.key A pages p) :
      Walk f.key (IsPage f.key S) pages p := h.imp fun p page => hA p page true
  cases h with
  | @accepted pages p page more out bufs walk short answer visited =>
      obtain ⟨rest, hrest, -⟩ := (hA _ _ _ answer).next
      have hsplit : (pages.flatten ++ page) ++ rest = S := by
        rw [List.append_assoc, ← hrest, flatten_walk hS (hwalk walk)]
        exact below_append_above hS p
      have hall := visitAll_accepted visited rest
      rw [hsplit, hfilter] at hall
      obtain rfl : (visitAll call (S.filter P) ctx).2 = out := by rw [hall]
      exact .complete
  | @finished pages p page out bufs walk short answer visited =>
      rw [flatten_walk hS (hwalk walk), (hA _ _ _ answer).complete hS, hfilter] at visited
      obtain rfl : (visitAll call (S.filter P) ctx).2 = out := by rw [visited]
      exact .complete
  | stopped walk halt visited => exact absurd halt (by simp)
  | @exhausted pages p out bufs walk full delivered unfinished visited =>
      have hne : pages ≠ [] := by
        rintro rfl
        cases full
      obtain ⟨rest, hrest, hs⟩ := walk_remainder hS (hwalk walk) hne
      rw [hfilter] at visited
      exact .limit full delivered hs hrest visited

variable [Host] {interface : Interface W} {chip : ChipData}

theorem findLoop_run {tpm : Nat → Nat → List β → Bool → Prop} {A : Nat → List β → Bool → Prop}
    (htpm : Answers interface chip cap f.encode tpm)
    (hA : ∀ p page more, tpm p tpmDefaultPageCount.toNat page more → A p page more)
    (hempty : ∀ p more, A p [] more → more = false) (stack : TpmCmd) (w : W) :
    Meets (pageLoop (logged interface) (some chip) cap (parseFind cap f.read f.id v) (fun _ => true)
        tpmMaxPages (PageState.init stack ctx)) (w, [])
      (fun r s => PageRun f cap A v (fun _ => true) tpmMaxPages ctx r (receivedBuffers s.2))
      (fun _ => False) :=
  pageLoop_run htpm hA hempty (fun buf more page po hc _ => parseFind_parses f hc v po) tpmMaxPages
    (PageState.init stack ctx) w [] [] .start rfl rfl (Nat.zero_add tpmMaxPages) .nil (by simp)

theorem findLoop_visits (hS : Ascending f.key S)
    (htpm : Answers interface chip cap f.encode fun p _ => IsPage f.key S p) (P : β → Bool)
    {call : β → σ → Bool × σ} (hcall : f.visit v = fun b s => if P b then call b s else (false, s))
    (stack : TpmCmd) (w : W) :
    Meets (pageLoop (logged interface) (some chip) cap (parseFind cap f.read f.id v) (fun _ => true)
        tpmMaxPages (PageState.init stack ctx)) (w, [])
      (fun r s => ForEach f.encode cap P call S ctx r (receivedBuffers s.2)) (fun _ => False) := by
  refine (findLoop_run htpm (fun _ _ _ h => h) (fun p more h => h.not_more_of_nil) stack w).imp ?_
  intro r s hrun
  exact forEach_of_run hS (fun _ _ _ h => h) P hcall hrun

end Visit

theorem visitAlg_matches (mustSetMask mustClearMask : UInt32) (cb : UInt16 → UInt32 → σ → Bool × σ) :
    algFormat.visit (visitAlg mustSetMask mustClearMask cb) = fun e s =>
      if Matches mustSetMask mustClearMask e then cb e.id e.props s else (false, s) := by
  funext e s
  simp only [Matches, decide_eq_true_eq]
  rfl

/-- Both functions visit the elements of a list that the TPM hands out in
pages, whatever the pages, the callback and its context. -/
theorem tpmForEach_visits [Host] (interface : Interface W) (chip : ChipData) (stack : TpmCmd) (w : W) :
    (∀ S, Ascending algFormat.key S →
      Answers interface chip tpmCapAlgs algFormat.encode (fun p _ => IsPage algFormat.key S p) →
      ∀ mustSetMask mustClearMask (cb : UInt16 → UInt32 → σ → Bool × σ) ctx,
        Meets (tpmForEachAlgProps (logged interface) stack (some chip) mustSetMask mustClearMask
            (some cb) ctx) (w, [])
          (fun r s => ForEach algFormat.encode tpmCapAlgs (Matches mustSetMask mustClearMask)
            (fun e => cb e.id e.props) S ctx r (receivedBuffers s.2)) (fun _ => False)) ∧
    (∀ S, Ascending bankFormat.key S →
      Answers interface chip tpmCapPcrs bankFormat.encode (fun p _ => IsPage bankFormat.key S p) →
      ∀ (cb : UInt16 → List UInt8 → UInt8 → σ → Bool × σ) ctx,
        Meets (tpmForEachPcrBank (logged interface) stack (some chip) (some cb) ctx) (w, [])
          (fun r s => ForEach bankFormat.encode tpmCapPcrs (fun _ => true)
            (fun b => cb b.id b.octets (UInt8.ofNat b.octets.length)) S ctx r
            (receivedBuffers s.2)) (fun _ => False)) := by
  constructor
  · intro S hS htpm mustSetMask mustClearMask cb ctx
    exact findLoop_visits hS htpm _ (visitAlg_matches mustSetMask mustClearMask cb) stack w
  · intro S hS htpm cb ctx
    apply findLoop_visits hS htpm
    funext b s
    rfl

def fewAlgs : List AlgEntry := [⟨4, 4⟩, ⟨11, 5⟩]

theorem no_octets : ([] : List UInt8).length ≤ 3 := Nat.zero_le 3

theorem two_octets : [(0xff : UInt8), 0xff].length ≤ 3 := Nat.le_succ 2

def fewBanks : List PcrBank := [⟨4, [], no_octets⟩, ⟨11, [0xff, 0xff], two_octets⟩]

theorem tpmForEach_visits_few :
    letI := littleHost
    Meets (tpmForEachAlgProps (logged (replying (pageReply algFormat.encode tpmCapAlgs
          fun p _ => nextPage algFormat.key fewAlgs p 1))) TpmCmd.zero (some tpmChipData) 4 1
        (some fun id _ ctx => (id = 11, ctx ++ [id])) []) ([], [])
      (fun r s => ForEach algFormat.encode tpmCapAlgs (Matches 4 1)
        (fun e ctx => (e.id = 11, ctx ++ [e.id])) fewAlgs [] r (receivedBuffers s.2))
      (fun _ => False) ∧
    Meets (tpmForEachPcrBank (logged (replying (pageReply bankFormat.encode tpmCapPcrs
          fun p _ => nextPage bankFormat.key fewBanks p 1))) TpmCmd.zero (some tpmChipData)
        (some fun _ select size ctx => (false, ctx ++ [(select, size)])) []) ([], [])
      (fun r s => ForEach bankFormat.encode tpmCapPcrs (fun _ => true)
        (fun b ctx => (false, ctx ++ [(b.octets, UInt8.ofNat b.octets.length)])) fewBanks [] r
        (receivedBuffers s.2)) (fun _ => False) := by
  let _ := littleHost
  constructor
  · apply (tpmForEach_visits _ tpmChipData TpmCmd.zero []).1 fewAlgs
    · simp [Ascending, fewAlgs]
      decide
    · exact replying_nextPage algFormat (fun _ => 1) (by decide) fun p k => isPage_nextPage fewAlgs p Nat.one_pos
  · apply (tpmForEach_visits _ tpmChipData TpmCmd.zero []).2 fewBanks
    · simp [Ascending, fewBanks]
      decide
    · exact replying_nextPage bankFormat (fun _ => 1) (by decide) fun p k => isPage_nextPage fewBanks p Nat.one_pos

def manyAlgs : List AlgEntry := (List.range 65).map fun i => ⟨UInt16.ofNat (i + 1), 0⟩

def oneAlg (p _k : Nat) : List AlgEntry × Bool := nextPage algFormat.key manyAlgs p 1

def countAlg (_id : UInt16) (_props : UInt32) (n : Nat) : Bool × Nat := (false, n + 1)

theorem countAlg_visits (es : List AlgEntry) (n : Nat) :
    visitAll (algFormat.visit (visitAlg 0 0 countAlg)) es n = (false, n + es.length) := by
  induction es generalizing n with
  | nil => rfl
  | cons e es ih =>
      have hvisit : algFormat.visit (visitAlg 0 0 countAlg) e n = (false, n + 1) := by
        rw [visitAlg_matches]
        exact if_pos (by simp [Matches])
      rw [visitAll, hvisit, if_neg (by simp), ih, List.length_cons, Nat.add_right_comm, Nat.add_assoc]

theorem isPage_oneAlg (p k : Nat) :
    IsPage algFormat.key manyAlgs p (oneAlg p k).1 (oneAlg p k).2 :=
  isPage_nextPage manyAlgs p Nat.one_pos

theorem oneAlg_fits (p k : Nat) :
    19 + ((oneAlg p k).1.flatMap algFormat.encode).length ≤ maxSizeCmdbuf := by
  have hle : (oneAlg p k).1.length ≤ 1 := List.length_take_le 1 _
  match (oneAlg p k).1, hle with
  | [], _ => decide
  | [e], _ => exact Nat.le_trans (Nat.le_of_eq rfl : _ ≤ 25) (by decide)

/-- The last algorithm of the list is never reached. -/
theorem tpmForEachAlgProps_exhausted :
    letI := littleHost
    Ascending algFormat.key manyAlgs ∧
      Answers (replying (pageReply algFormat.encode tpmCapAlgs oneAlg)) tpmChipData tpmCapAlgs
        algFormat.encode (fun p _ => IsPage algFormat.key manyAlgs p) ∧
      Meets (tpmForEachAlgProps (logged (replying (pageReply algFormat.encode tpmCapAlgs oneAlg)))
          TpmCmd.zero (some tpmChipData) 0 0 (some countAlg) 0) ([], [])
        (fun r _ => r = (tpmErrIterationLimit, 64) ∧
          (visitAll (fun e => countAlg e.id e.props) (manyAlgs.filter (Matches 0 0)) 0).2 = 65)
        (fun _ => False) := by
  let _ := littleHost
  have hS : Ascending algFormat.key manyAlgs := by
    unfold Ascending
    decide +kernel
  refine ⟨hS, replying_answers isPage_oneAlg oneAlg_fits, ?_⟩
  have htpm : Answers (replying (pageReply algFormat.encode tpmCapAlgs oneAlg)) tpmChipData tpmCapAlgs
      algFormat.encode (fun p k page more => oneAlg p k = (page, more)) :=
    replying_answers (fun _ _ => rfl) oneAlg_fits
  have hpage (p : Nat) (page : List AlgEntry) (more : Bool)
      (h : nextPage algFormat.key manyAlgs p 1 = (page, more)) :
      IsPage algFormat.key manyAlgs p page more := by
    have := isPage_oneAlg p 0
    rwa [oneAlg, h] at this
  have hlen (p : Nat) (page : List AlgEntry)
      (h : nextPage algFormat.key manyAlgs p 1 = (page, true)) : page.length = 1 := by
    have := length_nextPage (congrArg Prod.snd h)
    rwa [h] at this
  refine (findLoop_run htpm (fun _ _ _ h => h) (fun p more h => (hpage p [] more h).not_more_of_nil)
    TpmCmd.zero []).imp ?_
  intro r s hrun
  refine ⟨?_, by decide +kernel⟩
  have hlength {pages : List (List AlgEntry)} {p : Nat}
      (h : Walk algFormat.key (fun p page more => oneAlg p 16 = (page, more)) pages p) :
      pages.flatten.length = 1 * pages.length := length_flatten_walk hlen h
  cases hrun with
  | accepted walk short answer visited =>
      rw [countAlg_visits] at visited
      exact absurd (congrArg Prod.fst visited) (by simp)
  | @finished pages p page out bufs walk short answer visited =>
      -- at most 63 pages before the last one, which has at most one element
      have hall := (hpage _ _ _ answer).complete hS
      rw [← flatten_walk hS (walk.imp fun p page => hpage p page true)] at hall
      have hone : (oneAlg p tpmDefaultPageCount.toNat).1.length ≤ 1 := List.length_take_le 1 _
      rw [answer] at hone
      change page.length ≤ 1 at hone
      have htotal := congrArg List.length hall
      rw [List.length_append, hlength walk] at htotal
      have hmax : tpmMaxPages = 64 := rfl
      have hmany : manyAlgs.length = 65 := rfl
      omega
  | stopped walk halt visited => exact absurd halt (by simp)
  | exhausted walk full delivered unfinished visited =>
      rw [countAlg_visits, hlength walk, full] at visited
      obtain ⟨-, rfl⟩ := Prod.mk.inj visited
      rfl

end LibTpm.CapVisits
