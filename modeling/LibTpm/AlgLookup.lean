import LibTpm.CapQueries

namespace LibTpm.AlgLookup

open LibTpm.Base LibTpm.Base.BigEndian LibTpm.Base.Paging LibTpm.Base.Process LibTpm.Base.Process.Proc
open LibTpm.Command LibTpm.Constants LibTpm.Endian LibTpm.Platform LibTpm.Iterator LibTpm.Getcap
open LibTpm.Queries LibTpm.Traffic LibTpm.CapResponse LibTpm.PageRuns LibTpm.CapQueries

variable {W : Type}

/-- A TPM that supports the algorithms `S` and answers a request for `k` of
them, up to a full page, with as many as it has. -/
def FullPages (S : List AlgEntry) (p k : Nat) (page : List AlgEntry) (more : Bool) : Prop :=
  k ≤ tpmDefaultPageCount.toNat → nextPage algFormat.key S p k = (page, more)

/-- Both lookups answer the question whether `algId` is in the list, and the
one with properties gives those of the list. -/
def LookupsAgree [Host] (interface : Interface W) (chip : ChipData) (S : List AlgEntry)
    (algId : UInt16) (stack : TpmCmd) (supported : Bool) (out : AlgPropsOut) (w w' : W) : Prop :=
  Meets (tpmHasAlg (logged interface) stack (some chip) algId (some supported)) (w, [])
      (fun r _ => r = (tpmSuccess, some (decide (algId ∈ S.map AlgEntry.id)))) (fun _ => False) ∧
    Meets (tpmGetAlgProps (logged interface) stack (some chip) algId (some out)) (w', [])
      (fun r _ => r.1 = tpmSuccess ∧ ∃ out, r.2 = some out ∧
        out.supported = decide (algId ∈ S.map AlgEntry.id) ∧
        ∀ e ∈ S, e.id = algId → out.props = e.props) (fun _ => False)

section Lookup

variable {interface : Interface W} {chip : ChipData} {S : List AlgEntry} {algId : UInt16}

theorem FullPages.isPage {p k : Nat} {page : List AlgEntry} {more : Bool} (hk : 0 < k)
    (hk' : k ≤ tpmDefaultPageCount.toNat) (h : FullPages S p k page more) :
    IsPage algFormat.key S p page more := by
  have hpage : IsPage algFormat.key S p (nextPage algFormat.key S p k).1
      (nextPage algFormat.key S p k).2 := isPage_nextPage S p hk
  rwa [h hk'] at hpage

theorem FullPages.length_eq {p k : Nat} {page : List AlgEntry}
    (hk : k ≤ tpmDefaultPageCount.toNat) (h : FullPages S p k page true) : page.length = k := by
  have hlen := length_nextPage (congrArg Prod.snd (h hk))
  rwa [h hk] at hlen

variable [Host]

theorem tpmHasAlg_run (hS : Ascending algFormat.key S)
    (hsize : S.length ≤ tpmMaxPages * tpmDefaultPageCount.toNat)
    (htpm : Answers interface chip tpmCapAlgs algFormat.encode (FullPages S))
    (hid : algId ≠ tpmAlgNull) (stack : TpmCmd) (supported : Bool) (w : W) :
    Meets (tpmHasAlg (logged interface) stack (some chip) algId (some supported)) (w, [])
      (fun r _ => r = (tpmSuccess, some (decide (algId ∈ S.map AlgEntry.id)))) (fun _ => False) := by
  have hq : Terminated TpmAlgQuery.algId tpmMaxAlgProperties
      [⟨algId, false⟩, ⟨tpmAlgNull, false⟩] := .next hid (.stop rfl)
  have hfirst : TpmAlgQuery.algId ⟨algId, false⟩ ≠ tpmAlgNull := hid
  have hreq : requested TpmAlgQuery.algId [⟨algId, false⟩, ⟨tpmAlgNull, false⟩] =
      ⟨algId, false⟩ :: requested TpmAlgQuery.algId [⟨tpmAlgNull, false⟩] := requested_next hfirst
  have hlargest : algId ≤ largestId TpmAlgQuery.algId [⟨algId, false⟩, ⟨tpmAlgNull, false⟩] :=
    le_largestId _ (by rw [hreq]; exact List.mem_cons_self)
  have hpage (p : Nat) (page : List AlgEntry) (more : Bool)
      (h : FullPages S p tpmDefaultPageCount.toNat page more) : IsPage algFormat.key S p page more :=
    h.isPage (by decide) (Nat.le_refl _)
  rw [tpmHasAlg, if_neg (by simp), meets_bind]
  refine (queryAlgs_run htpm (fun _ _ _ h => h)
    (fun p more h => (hpage p [] more h).not_more_of_nil) hq stack w).imp ?_
  rintro ⟨ret, _⟩ s ⟨out, rfl, ⟨hnone, -, -⟩ | hrun⟩
  · rw [hreq] at hnone
    cases hnone
  · obtain ⟨V, hvisit, hsub, hend⟩ := run_covers (fun e => e) (fun _ => rfl) hS
      (fun p page more h => .inr (by rw [List.map_id']; exact hpage p page more h)) (by decide) hrun
    rw [List.map_id'] at hsub hend
    obtain rfl : out = _ := algs_visited hq hvisit
    dsimp only at hend ⊢
    rcases hend with ⟨rfl, hall⟩ | ⟨-, pages, init, last, rfl, ⟨rest, hne, hrest⟩, hwalk, hfull, -, -⟩
    · have hmem : algId ∈ V.map AlgEntry.id ↔ algId ∈ S.map AlgEntry.id := by
        constructor
        · intro h
          obtain ⟨e, he, rfl⟩ := List.mem_map.mp h
          exact List.mem_map_of_mem (hsub e he)
        · intro h
          obtain ⟨e, he, rfl⟩ := List.mem_map.mp h
          exact List.mem_map_of_mem (hall e he (UInt16.le_iff_toNat_le.mp hlargest))
      rw [if_neg (by simp), mapBefore, if_neg hid]
      exact congrArg (fun b => (tpmSuccess, some b)) (decide_eq_decide.mpr hmem)
    · -- the pages that announced more were full
      have htotal := congrArg List.length hrest
      have hlength : (pages ++ [init ++ [last]]).flatten.length =
          tpmDefaultPageCount.toNat * (pages ++ [init ++ [last]]).length :=
        length_flatten_walk (fun p page h => h.length_eq (Nat.le_refl _)) hwalk
      have hpos := List.length_pos_of_ne_nil hne
      rw [List.length_append, hlength, hfull, Nat.mul_comm] at htotal
      omega

theorem tpmGetAlgProps_run (htpm : Answers interface chip tpmCapAlgs algFormat.encode (FullPages S))
    (algId : UInt16) (stack : TpmCmd) (out : AlgPropsOut) (w : W) (log : List Message) :
    Meets (tpmGetAlgProps (logged interface) stack (some chip) algId (some out)) (w, log)
      (fun r _ => match above algFormat.key algId.toNat S with
        | [] => r.1 ≠ tpmSuccess
        | e :: _ => r = (tpmSuccess, some (if e.id = algId then ⟨true, e.props⟩ else ⟨false, 0⟩)))
      (fun _ => False) := by
  rw [tpmGetAlgProps, if_neg (by simp), meets_bind]
  refine (getcapRaw_answered htpm algId.toUInt32 1 stack false w log).imp ?_
  rintro ⟨ret, resp, more⟩ s ⟨rfl, page, hpage, hcarries, -⟩
  have hnext := hpage (by decide)
  obtain ⟨rest, hpay, hread⟩ := hcarries.entries
  dsimp only
  rw [if_neg (by simp), hpay]
  dsimp only
  rw [if_neg (by simp), hread]
  dsimp only
  rw [nextPage, UInt16.toNat_toUInt32] at hnext
  obtain ⟨rfl, -⟩ := Prod.mk.inj hnext
  cases above algFormat.key algId.toNat S with
  | nil =>
      have h16 : iterReadU16Be ⟨[] ++ rest, 0, .success⟩ tpmAlgNull =
          (tpmErrResponse, tpmAlgNull, ⟨[] ++ rest, 0, .errResponse⟩) :=
        iterRead_short rfl Nat.two_pos
      have h32 : iterReadU32Be ⟨[] ++ rest, 0, .errResponse⟩ 0 =
          (tpmErrResponse, 0, ⟨[] ++ rest, 0, .errResponse⟩) := iterRead_error (by simp)
      rw [List.take_nil, List.flatMap_nil, List.length_nil, h16]
      dsimp only
      rw [h32, if_pos (by simp)]
      exact meets_pure.mpr (show tpmErrResponse ≠ tpmSuccess by decide)
  | cons e es =>
      have hlast : List.take (UInt32.toNat 1) (e :: es) = [e] := rfl
      have hlength : (algFormat.encode e).length = 6 := rfl
      have h16 : iterReadU16Be ⟨algFormat.encode e ++ rest, 6, .success⟩ tpmAlgNull =
          (tpmSuccess, e.id, ⟨be32 e.props ++ rest, 4, .success⟩) :=
        iterReadU16Be_be16 _ e.id (by decide) tpmAlgNull
      have h32 : iterReadU32Be ⟨be32 e.props ++ rest, 4, .success⟩ 0 =
          (tpmSuccess, e.props, ⟨rest, 0, .success⟩) := iterReadU32Be_be32 _ e.props (by decide) 0
      rw [hlast, List.flatMap_singleton, hlength, h16]
      dsimp only
      rw [h32, if_neg (by simp)]
      by_cases h : e.id = algId
      · rw [if_pos h, if_pos h]
        rfl
      · rw [if_neg h, if_neg h]
        rfl

theorem not_lookupsAgree_of_above (htpm : Answers interface chip tpmCapAlgs algFormat.encode (FullPages S))
    (habove : above algFormat.key algId.toNat S = []) (stack : TpmCmd) (supported : Bool)
    (out : AlgPropsOut) (w w' : W) :
    ¬ LookupsAgree interface chip S algId stack supported out w w' := by
  rintro ⟨-, hagree⟩
  have hprops := tpmGetAlgProps_run htpm algId stack out w' []
  rw [habove] at hprops
  exact (hprops.and hagree).absurd (fun _ _ h => h.1 h.2.1) (fun _ h => h.1)

/-- The lookups agree exactly when the list reaches up to the id. -/
theorem lookupsAgree_iff (hS : Ascending algFormat.key S)
    (hsize : S.length ≤ tpmMaxPages * tpmDefaultPageCount.toNat)
    (htpm : Answers interface chip tpmCapAlgs algFormat.encode (FullPages S))
    (hid : algId ≠ tpmAlgNull) (stack : TpmCmd) (supported : Bool) (out : AlgPropsOut) (w w' : W) :
    LookupsAgree interface chip S algId stack supported out w w' ↔ ∃ e ∈ S, algId ≤ e.id := by
  constructor
  · intro hagree
    cases habove : above algFormat.key algId.toNat S with
    | nil => exact absurd hagree (not_lookupsAgree_of_above htpm habove stack supported out w w')
    | cons e es =>
        have he : e ∈ above algFormat.key algId.toNat S := by
          rw [habove]
          exact List.mem_cons_self
        obtain ⟨hmem, hle⟩ := List.mem_filter.mp he
        exact ⟨e, hmem, UInt16.le_iff_toNat_le.mpr (of_decide_eq_true hle)⟩
  · rintro ⟨x, hx, hle⟩
    have hprops := tpmGetAlgProps_run htpm algId stack out w' []
    refine ⟨tpmHasAlg_run hS hsize htpm hid stack supported w, ?_⟩
    have hxa : x ∈ above algFormat.key algId.toNat S :=
      List.mem_filter.mpr ⟨hx, decide_eq_true (UInt16.le_iff_toNat_le.mp hle)⟩
    cases habove : above algFormat.key algId.toNat S with
    | nil =>
        rw [habove] at hxa
        cases hxa
    | cons e es =>
        rw [habove] at hprops
        have hfirst : ∀ a ∈ S, a.id = algId → a = e :=
          fun a ha hid => eq_of_above hS habove ha (congrArg UInt16.toNat hid)
        have he : e ∈ S := by
          have : e ∈ above algFormat.key algId.toNat S := by
            rw [habove]
            exact List.mem_cons_self
          exact List.mem_of_mem_filter this
        refine hprops.imp ?_
        rintro r s rfl
        refine ⟨rfl, _, rfl, ?_⟩
        by_cases h : e.id = algId
        · rw [if_pos h]
          have hin : algId ∈ S.map AlgEntry.id := List.mem_map.mpr ⟨e, he, h⟩
          refine ⟨(decide_eq_true hin).symm, fun a ha hida => ?_⟩
          rw [hfirst a ha hida]
        · rw [if_neg h]
          have hout : algId ∉ S.map AlgEntry.id := by
            intro hin
            obtain ⟨a, ha, hida⟩ := List.mem_map.mp hin
            exact h (hfirst a ha hida ▸ hida)
          exact ⟨(decide_eq_false hout).symm, fun a ha hida => absurd (List.mem_map.mpr ⟨a, ha, hida⟩) hout⟩

end Lookup

def twoAlgs : List AlgEntry := [⟨4, 4⟩, ⟨11, 4⟩]

theorem twoAlgs_ascending : Ascending algFormat.key twoAlgs := by
  unfold Ascending
  decide +kernel

def twoAlgsTpm [Host] : Interface (List UInt8) :=
  replying (pageReply algFormat.encode tpmCapAlgs fun p k => nextPage algFormat.key twoAlgs p k)

theorem twoAlgsTpm_answers [Host] :
    Answers twoAlgsTpm tpmChipData tpmCapAlgs algFormat.encode (FullPages twoAlgs) :=
  replying_nextPage algFormat (fun k => k) (by decide) fun _ _ _ => rfl

theorem lookupsAgree_iff_sha256 :
    letI := littleHost
    LookupsAgree twoAlgsTpm tpmChipData twoAlgs 11 TpmCmd.zero false ⟨false, 0⟩ [] [] ↔
      ∃ e ∈ twoAlgs, 11 ≤ e.id := by
  let _ := littleHost
  exact lookupsAgree_iff twoAlgs_ascending (by decide) twoAlgsTpm_answers
    (by decide) TpmCmd.zero false ⟨false, 0⟩ [] []

theorem lookups_disagree_sm3 :
    letI := littleHost
    Ascending algFormat.key twoAlgs ∧
      Answers twoAlgsTpm tpmChipData tpmCapAlgs algFormat.encode (FullPages twoAlgs) ∧
      ¬ LookupsAgree twoAlgsTpm tpmChipData twoAlgs 0x12 TpmCmd.zero false ⟨false, 0⟩ [] [] := by
  let _ := littleHost
  exact ⟨twoAlgs_ascending, twoAlgsTpm_answers,
    not_lookupsAgree_of_above twoAlgsTpm_answers rfl TpmCmd.zero false ⟨false, 0⟩ [] []⟩

end LibTpm.AlgLookup
