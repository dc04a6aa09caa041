import LibTpm.Base.Paging
import LibTpm.CommandBytes
import LibTpm.Queries
import LibTpm.Traffic

namespace LibTpm.CapResponse

open LibTpm.Base.BigEndian LibTpm.Base.Paging LibTpm.Base.Process LibTpm.Base.Process.Proc
open LibTpm.Command LibTpm.Constants LibTpm.Endian LibTpm.Platform LibTpm.Builder LibTpm.Iterator
open LibTpm.Getcap LibTpm.Queries LibTpm.Request LibTpm.CommandBytes LibTpm.Traffic

variable {W β ε σ : Type}

/-- The bytes of an element of a capability list, and the reads by which the
library decodes it. -/
structure EntryFormat (β ε : Type) where
  encode : β → List UInt8
  entry : β → ε
  id : ε → UInt16
  read : TpmBufIter → Except Int (ε × TpmBufIter)
  encode_pos (b : β) : 0 < (encode b).length
  reads (b : β) (rest : List UInt8) (remain : Nat) (h : (encode b).length ≤ remain) :
    read ⟨encode b ++ rest, remain, .success⟩ =
      .ok (entry b, ⟨rest, remain - (encode b).length, .success⟩)

def EntryFormat.key (f : EntryFormat β ε) (b : β) : Nat := (f.id (f.entry b)).toNat

def algFormat : EntryFormat AlgEntry AlgEntry where
  encode e := be16 e.id ++ be32 e.props
  entry e := e
  id := AlgEntry.id
  read := readAlg
  encode_pos _ := by simp
  reads e rest remain h := by
    have h6 : 6 ≤ remain := h
    rw [List.append_assoc, readAlg, iterReadU16Be_be16 _ _ (by omega)]
    dsimp only
    rw [iterReadU32Be_be32 _ _ (by omega)]
    rfl

structure PcrBank where
  id : UInt16
  octets : List UInt8
  length_octets : octets.length ≤ 3

def PcrBank.entry (b : PcrBank) : PcrEntry := ⟨b.id, UInt8.ofNat b.octets.length, b.octets⟩

theorem PcrBank.toNat_size (b : PcrBank) : (UInt8.ofNat b.octets.length).toNat = b.octets.length := by
  have h256 : b.octets.length < 2 ^ 8 := Nat.lt_of_le_of_lt b.length_octets (by decide)
  exact UInt8.toNat_ofNat_of_lt' h256

def bankFormat : EntryFormat PcrBank PcrEntry where
  encode b := be16 b.id ++ (UInt8.ofNat b.octets.length :: b.octets)
  entry := PcrBank.entry
  id := PcrEntry.id
  read := readBank
  encode_pos _ := by simp
  reads b rest remain h := by
    have hencode : (be16 b.id ++ (UInt8.ofNat b.octets.length :: b.octets)).length =
        2 + 1 + b.octets.length := by
      rw [List.length_append, be16_length, List.length_cons]
      omega
    rw [hencode] at h ⊢
    have h3 : ¬ UInt8.ofNat b.octets.length > tpmPcrSelectSize := by
      rw [gt_iff_lt, UInt8.lt_iff_toNat_lt, b.toNat_size]
      exact not_lt.mpr b.length_octets
    rw [List.append_assoc, readBank, iterReadU16Be_be16 _ _ (by omega)]
    dsimp only
    rw [List.cons_append, iterReadU8_cons _ _ (by omega)]
    dsimp only
    rw [if_neg (by simp), if_neg h3,
      iterReadPtr_append _ b.toNat_size.symm (by rw [b.toNat_size]; omega)]
    dsimp only
    rw [if_neg (by simp), b.toNat_size, List.take_left, Nat.sub_sub, Nat.sub_sub, ← Nat.add_assoc]
    rfl

def capResponse (encode : β → List UInt8) (cap : UInt32) (more : Bool) (page : List β) : List UInt8 :=
  be16 0x8001 ++ (be32 (UInt32.ofNat (19 + (page.flatMap encode).length)) ++ (be32 0 ++
    ((if more then 1 else 0) :: (be32 cap ++ (be32 (UInt32.ofNat page.length) ++
      page.flatMap encode)))))

/-- The response lies at the start of the buffer. -/
def Carries (buf : TpmCmd) (resp : List UInt8) : Prop := resp <+: buf.bytes

section Carries

variable {encode : β → List UInt8} {cap : UInt32} {more : Bool} {page : List β} {buf : TpmCmd}

theorem capResponse_length (encode : β → List UInt8) (cap : UInt32) (more : Bool) (page : List β) :
    (capResponse encode cap more page).length = 19 + (page.flatMap encode).length := by
  simp only [capResponse, List.length_append, List.length_cons, be16_length, be32_length]
  omega

theorem Carries.length_le (h : Carries buf (capResponse encode cap more page)) :
    19 + (page.flatMap encode).length ≤ maxSizeCmdbuf := by
  rw [← capResponse_length encode cap more page, ← buf.length_bytes]
  exact List.IsPrefix.length_le h

theorem Carries.moreData (h : Carries buf (capResponse encode cap more page)) :
    decide (buf.data 0 ≠ 0) = more := by
  obtain ⟨rest, hb⟩ := h
  have h0 : buf.data 0 = if more then 1 else 0 := by
    simp only [TpmCmd.data, TpmCmd.byte, ← hb]
    rfl
  rw [h0]
  cases more <;> rfl

variable [Host]

/-- The header fields of a response in the buffer. -/
theorem Carries.header {tag : UInt16} {size code : UInt32} {parameters : List UInt8}
    (h : Carries buf (be16 tag ++ (be32 size ++ (be32 code ++ parameters)))) :
    be16toh buf.tag = tag ∧ be32toh buf.cmdSize = size ∧ be32toh buf.cmdCode = code := by
  obtain ⟨rest, hb⟩ := h
  rw [TpmCmd.be16toh_tag, TpmCmd.be32toh_cmdSize, TpmCmd.be32toh_cmdCode]
  simp only [TpmCmd.byte, ← hb]
  exact ⟨of16_be16 _, of32_be32 _, of32_be32 _⟩

theorem Carries.tag (h : Carries buf (capResponse encode cap more page)) :
    be16toh buf.tag = tpmStNoSessions := (Carries.header h).1

theorem Carries.cmdCode (h : Carries buf (capResponse encode cap more page)) :
    be32toh buf.cmdCode = tpmResponseSuccess := (Carries.header h).2.2

theorem Carries.cmdSize (h : Carries buf (capResponse encode cap more page)) :
    (be32toh buf.cmdSize).toNat = 19 + (page.flatMap encode).length := by
  have hlt : 19 + (page.flatMap encode).length < 2 ^ 32 := Nat.lt_of_le_of_lt h.length_le (by decide)
  rw [(Carries.header h).2.1, UInt32.toNat_ofNat_of_lt' hlt]

theorem Carries.payload (h : Carries buf (capResponse encode cap more page)) {iter : TpmBufIter}
    (hiter : iter.errorState = .success) : ∃ rest, getcapPayloadStart buf cap iter =
      (tpmSuccess, ⟨be32 (UInt32.ofNat page.length) ++ (page.flatMap encode ++ rest),
        4 + (page.flatMap encode).length, .success⟩) := by
  have hle := h.length_le
  have hsize := h.cmdSize
  obtain ⟨rest, hb⟩ := h
  refine ⟨rest, ?_⟩
  have hdrop : buf.bytes.drop tpmHeaderSize = (if more then 1 else 0) :: (be32 cap ++
      (be32 (UInt32.ofNat page.length) ++ (page.flatMap encode ++ rest))) := by
    rw [← hb]
    simp only [capResponse, List.append_assoc, List.cons_append]
    rfl
  have hheader : tpmHeaderSize = 10 := rfl
  rw [getcapPayloadStart]
  dsimp only
  rw [hsize, if_neg (by omega), hiter, hdrop, hheader, iterReadU8_cons _ _ (by omega)]
  dsimp only
  rw [iterReadU32Be_be32 _ _ (by omega)]
  dsimp only
  rw [if_neg (by simp), if_neg (by simp)]
  congr 3
  omega

end Carries

section Parse

variable (f : EntryFormat β ε)

def EntryFormat.visit (v : ε → σ → Bool × σ) (b : β) (s : σ) : Bool × σ := v (f.entry b) s

/-- What the entry loop returns for a whole page, from the last id `last`. -/
structure Visited (v : ε → σ → Bool × σ) (page : List β) (st : EntryState σ)
    (r : LoopExit × EntryState σ) : Prop where
  out : r.2.out = (visitAll (f.visit v) page st.out).2
  accepted : (visitAll (f.visit v) page st.out).1 = true → r.1 = .accepted
  finished : (visitAll (f.visit v) page st.out).1 = false →
    r.1 = .finished ∧ r.2.iter.errorState = .success ∧
      r.2.parsedCount = st.parsedCount + UInt32.ofNat page.length ∧
      r.2.last = page.foldl (fun _ b => f.id (f.entry b)) st.last

theorem entryLoop_visits_prefix (v : ε → σ → Bool × σ) (page : List β) (rest : List UInt8) (extra : Nat)
    (last : UInt16) (count : UInt32) (out : σ) :
    Visited f v page ⟨⟨page.flatMap f.encode ++ rest, (page.flatMap f.encode).length + extra, .success⟩,
        last, count, out⟩
      (entryLoop f.read f.id v page.length
        ⟨⟨page.flatMap f.encode ++ rest, (page.flatMap f.encode).length + extra, .success⟩,
          last, count, out⟩) := by
  induction page generalizing last count out with
  | nil =>
      refine ⟨rfl, fun h => absurd h Bool.false_ne_true, fun _ => ⟨rfl, rfl, ?_, rfl⟩⟩
      exact (UInt32.add_zero count).symm
  | cons b page ih =>
      have hlen : ((b :: page).flatMap f.encode).length =
          (f.encode b).length + (page.flatMap f.encode).length := by
        rw [List.flatMap_cons, List.length_append]
      have hread := f.reads b (page.flatMap f.encode ++ rest)
        (((b :: page).flatMap f.encode).length + extra) (by omega)
      rw [hlen, Nat.add_assoc, Nat.add_sub_cancel_left, ← List.append_assoc, ← List.flatMap_cons,
        ← Nat.add_assoc, ← hlen] at hread
      rw [List.length_cons, entryLoop, hread]
      have h := ih (f.id (f.entry b)) (count + 1) (v (f.entry b) out).2
      dsimp only
      by_cases hv : (v (f.entry b) out).1
      · have hall : visitAll (f.visit v) (b :: page) out = (true, (v (f.entry b) out).2) := by
          rw [visitAll, EntryFormat.visit, if_pos hv]
        rw [if_pos hv]
        exact ⟨by rw [hall], fun _ => rfl, fun hc => by rw [hall] at hc; cases hc⟩
      · have hall : visitAll (f.visit v) (b :: page) out =
            visitAll (f.visit v) page (v (f.entry b) out).2 := by
          rw [visitAll, EntryFormat.visit, if_neg hv]
        rw [if_neg hv]
        refine ⟨by rw [hall]; exact h.out, fun hc => h.accepted (by rwa [hall] at hc), fun hc => ?_⟩
        rw [hall] at hc
        obtain ⟨hexit, herr, hcount, hlast⟩ := h.finished hc
        refine ⟨hexit, herr, ?_, hlast⟩
        rw [hcount, List.length_cons, Nat.add_comm page.length 1, UInt32.ofNat_add]
        exact UInt32.add_assoc count 1 _

theorem entryLoop_visits (v : ε → σ → Bool × σ) (page : List β) (rest : List UInt8)
    (last : UInt16) (count : UInt32) (out : σ) :
    Visited f v page ⟨⟨page.flatMap f.encode ++ rest, (page.flatMap f.encode).length, .success⟩,
        last, count, out⟩
      (entryLoop f.read f.id v page.length
        ⟨⟨page.flatMap f.encode ++ rest, (page.flatMap f.encode).length, .success⟩,
          last, count, out⟩) :=
  entryLoop_visits_prefix f v page rest 0 last count out

theorem foldl_lastId (init : List β) (last : β) (d : UInt16) :
    (init ++ [last]).foldl (fun _ b => f.id (f.entry b)) d = f.id (f.entry last) := by
  rw [List.foldl_append]
  rfl

theorem Carries.count {cap : UInt32} {more : Bool} {page : List β} {buf : TpmCmd}
    (h : Carries buf (capResponse f.encode cap more page)) :
    (UInt32.ofNat page.length).toNat = page.length := by
  have hle := h.length_le
  have hpos : page.length ≤ (page.flatMap f.encode).length := by
    clear h hle
    induction page with
    | nil => exact Nat.zero_le _
    | cons b page ih =>
        have := f.encode_pos b
        rw [List.flatMap_cons, List.length_append, List.length_cons]
        omega
  have hmax : maxSizeCmdbuf < 2 ^ 32 := by decide
  have hlt : page.length < 2 ^ 32 := by omega
  exact UInt32.toNat_ofNat_of_lt' hlt

variable [Host]

/-- What a parser makes of a page that has been delivered intact. -/
structure Parses (v : ε → σ → Bool × σ)
    (parse : TpmCmd → ParseOut σ → Int × ParseOut σ) (buf : TpmCmd) (page : List β)
    (po : ParseOut σ) : Prop where
  ok : (parse buf po).1 = tpmSuccess
  out : (parse buf po).2.out = (visitAll (f.visit v) page po.out).2
  found : (parse buf po).2.found = (visitAll (f.visit v) page po.out).1
  finished : (visitAll (f.visit v) page po.out).1 = false →
    (parse buf po).2.parsedCount = UInt32.ofNat page.length ∧
      ∀ init last, page = init ++ [last] → (parse buf po).2.last = f.id (f.entry last)

def queryResult (po : ParseOut σ) : LoopExit × EntryState σ → Int × ParseOut σ
  | (.failed ret, st) => (ret, { po with out := st.out })
  | (_, st) =>
      if st.iter.errorState ≠ .success then (st.iter.errorState.code, { po with out := st.out })
      else (tpmSuccess, { po with out := st.out, parsedCount := st.parsedCount, last := st.last })

def findResult (po : ParseOut σ) : LoopExit × EntryState σ → Int × ParseOut σ
  | (.failed ret, st) => (ret, { po with out := st.out, last := st.last })
  | (.accepted, st) => (tpmSuccess, ⟨st.out, st.parsedCount, st.last, true⟩)
  | (.finished, st) => (st.iter.errorState.code, ⟨st.out, st.parsedCount, st.last, false⟩)

theorem Carries.entries {cap : UInt32} {more : Bool} {page : List β} {buf : TpmCmd}
    (h : Carries buf (capResponse f.encode cap more page)) : ∃ rest,
      getcapPayloadStart buf cap freshIter = (tpmSuccess, ⟨be32 (UInt32.ofNat page.length) ++
        (page.flatMap f.encode ++ rest), 4 + (page.flatMap f.encode).length, .success⟩) ∧
      iterReadU32Be ⟨be32 (UInt32.ofNat page.length) ++ (page.flatMap f.encode ++ rest),
        4 + (page.flatMap f.encode).length, .success⟩ 0 = (tpmSuccess, UInt32.ofNat page.length,
          ⟨page.flatMap f.encode ++ rest, (page.flatMap f.encode).length, .success⟩) := by
  obtain ⟨rest, hpay⟩ := h.payload (rfl : freshIter.errorState = .success)
  refine ⟨rest, hpay, ?_⟩
  rw [iterReadU32Be_be32 _ _ (Nat.le_add_right 4 _), Nat.add_sub_cancel_left]

theorem parseQuery_parses {cap : UInt32} {more : Bool} {page : List β} {buf : TpmCmd}
    (h : Carries buf (capResponse f.encode cap more page)) (mark : ε → σ → σ) (po : ParseOut σ)
    (hpo : po.found = false) :
    Parses f (fun e s => (false, mark e s)) (parseQuery cap f.read f.id mark) buf page po := by
  obtain ⟨rest, hpay, hread⟩ := h.entries
  have hv := entryLoop_visits f (fun e s => (false, mark e s)) page rest 0 0 po.out
  have hfold : visitAll (f.visit fun e s => (false, mark e s)) page po.out =
      (false, page.foldl (fun s b => mark (f.entry b) s) po.out) :=
    visitAll_fold (fun b s => mark (f.entry b) s) page po.out
  have hp : parseQuery cap f.read f.id mark buf po =
      queryResult po (entryLoop f.read f.id (fun e s => (false, mark e s)) page.length
        ⟨⟨page.flatMap f.encode ++ rest, (page.flatMap f.encode).length, .success⟩, 0, 0, po.out⟩) := by
    rw [parseQuery, hpay]
    dsimp only
    rw [if_neg (not_not.mpr rfl), hread]
    dsimp only
    rw [h.count]
    generalize entryLoop f.read f.id _ page.length _ = r
    obtain ⟨_ | _ | _, st⟩ := r <;> rfl
  have hfound : (visitAll (f.visit fun e s => (false, mark e s)) page po.out).1 = false := by
    rw [hfold]
  generalize entryLoop f.read f.id _ page.length _ = r at hv hp
  obtain ⟨exit, st⟩ := r
  obtain ⟨hexit, herr, hcount, hlast⟩ := hv.finished hfound
  obtain rfl : exit = .finished := hexit
  dsimp only at herr
  have hresult : queryResult po (.finished, st) =
      (tpmSuccess, { po with out := st.out, parsedCount := st.parsedCount, last := st.last }) :=
    if_neg (not_not.mpr herr)
  rw [hresult] at hp
  refine ⟨by rw [hp], by rw [hp]; exact hv.out, by rw [hp, hfound]; exact hpo, fun _ => ⟨?_, ?_⟩⟩
  · rw [hp]
    exact hcount.trans (UInt32.zero_add _)
  · rintro init last rfl
    rw [hp]
    exact hlast.trans (foldl_lastId f init last _)

theorem parseFind_parses {cap : UInt32} {more : Bool} {page : List β} {buf : TpmCmd}
    (h : Carries buf (capResponse f.encode cap more page)) (v : ε → σ → Bool × σ) (po : ParseOut σ) :
    Parses f v (parseFind cap f.read f.id v) buf page po := by
  obtain ⟨rest, hpay, hread⟩ := h.entries
  have hv := entryLoop_visits f v page rest po.last 0 po.out
  have hp : parseFind cap f.read f.id v buf po =
      findResult po (entryLoop f.read f.id v page.length ⟨⟨page.flatMap f.encode ++ rest,
        (page.flatMap f.encode).length, .success⟩, po.last, 0, po.out⟩) := by
    rw [parseFind, hpay]
    dsimp only
    rw [if_neg (not_not.mpr rfl), hread]
    dsimp only
    rw [h.count]
    generalize entryLoop f.read f.id v page.length _ = r
    obtain ⟨_ | _ | _, st⟩ := r <;> rfl
  generalize entryLoop f.read f.id v page.length _ = r at hv hp
  obtain ⟨exit, st⟩ := r
  cases hfound : (visitAll (f.visit v) page po.out).1 with
  | true =>
      obtain rfl : exit = .accepted := hv.accepted hfound
      rw [findResult] at hp
      refine ⟨by rw [hp], by rw [hp]; exact hv.out, by rw [hp, hfound], fun hc => ?_⟩
      rw [hfound] at hc
      cases hc
  | false =>
      obtain ⟨hexit, herr, hcount, hlast⟩ := hv.finished hfound
      obtain rfl : exit = .finished := hexit
      rw [findResult] at hp
      refine ⟨?_, by rw [hp]; exact hv.out, by rw [hp, hfound], fun _ => ⟨?_, ?_⟩⟩
      · rw [hp]
        exact congrArg TpmRetValue.code herr
      · rw [hp]
        exact hcount.trans (UInt32.zero_add _)
      · rintro init last rfl
        rw [hp]
        exact hlast.trans (foldl_lastId f init last _)

end Parse

end LibTpm.CapResponse
