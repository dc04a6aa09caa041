import LibTpm.CapResponse

namespace LibTpm.CapFormat

open LibTpm.Base.BigEndian LibTpm.Base.Paging LibTpm.Command LibTpm.Constants LibTpm.Endian
open LibTpm.Iterator LibTpm.Getcap LibTpm.CapResponse

variable {β ε σ : Type}

section Reads

theorem exists_be16 (bytes : List UInt8) (h : 2 ≤ bytes.length) : ∃ x rest, bytes = be16 x ++ rest := by
  match bytes, h with
  | a :: b :: rest, _ => exact ⟨of16 a b, rest, by rw [be16_of16]; rfl⟩

theorem exists_be32 (bytes : List UInt8) (h : 4 ≤ bytes.length) : ∃ x rest, bytes = be32 x ++ rest := by
  match bytes, h with
  | a :: b :: c :: d :: rest, _ => exact ⟨of32 a b c d, rest, by rw [be32_of32]; rfl⟩

def Decodes (f : EntryFormat β ε) : Prop :=
  ∀ bytes remain, remain ≤ bytes.length →
    (∃ b rest, bytes = f.encode b ++ rest ∧ (f.encode b).length ≤ remain) ∨
      f.read ⟨bytes, remain, .success⟩ = .error tpmErrResponse

theorem algFormat_decodes : Decodes algFormat := by
  intro bytes remain hle
  by_cases h6 : 6 ≤ remain
  · obtain ⟨x, rest, rfl⟩ := exists_be16 bytes (by omega)
    rw [List.length_append, be16_length] at hle
    obtain ⟨y, rest', rfl⟩ := exists_be32 rest (by omega)
    refine .inl ⟨⟨x, y⟩, rest', ?_, h6⟩
    exact (List.append_assoc _ _ _).symm
  · refine .inr ?_
    change readAlg ⟨bytes, remain, .success⟩ = .error tpmErrResponse
    rw [readAlg]
    by_cases h2 : 2 ≤ remain
    · rw [iterReadU16Be, iterRead_fits rfl h2]
      dsimp only
      rw [iterReadU32Be, iterRead_short rfl (by dsimp only; omega)]
      exact if_pos (by simp)
    · rw [iterReadU16Be, iterRead_short rfl (by dsimp only; omega)]
      dsimp only
      rw [iterReadU32Be, iterRead_error (by simp)]
      exact if_pos (by simp)

theorem bankFormat_decodes : Decodes bankFormat := by
  intro bytes remain hle
  by_cases h3 : 3 ≤ remain
  · obtain ⟨x, rest, rfl⟩ := exists_be16 bytes (by omega)
    rw [List.length_append, be16_length] at hle
    obtain ⟨s, rest, rfl⟩ := List.exists_cons_of_length_pos (show 0 < rest.length by omega)
    rw [List.length_cons] at hle
    by_cases hs : s > tpmPcrSelectSize
    · refine .inr ?_
      change readBank ⟨_, remain, .success⟩ = .error tpmErrResponse
      rw [readBank, iterReadU16Be_be16 _ _ (by omega)]
      dsimp only
      rw [iterReadU8_cons _ _ (by omega)]
      dsimp only
      rw [if_neg (by simp), if_pos hs]
    have hsize : s.toNat ≤ 3 := by
      rw [gt_iff_lt, UInt8.not_lt, UInt8.le_iff_toNat_le] at hs
      exact hs
    by_cases hfit : 3 + s.toNat ≤ remain
    · refine .inl ⟨⟨x, rest.take s.toNat, ?_⟩, rest.drop s.toNat, ?_, ?_⟩
      · exact (List.length_take_le _ _).trans hsize
      all_goals
        have hlen : (rest.take s.toNat).length = s.toNat := by
          rw [List.length_take]
          omega
      · change be16 x ++ s :: rest =
          (be16 x ++ (UInt8.ofNat (rest.take s.toNat).length :: rest.take s.toNat)) ++ rest.drop s.toNat
        rw [hlen, UInt8.ofNat_toNat, List.append_assoc, List.cons_append, List.take_append_drop]
      · change (be16 x ++ (UInt8.ofNat (rest.take s.toNat).length :: rest.take s.toNat)).length ≤ remain
        rw [List.length_append, be16_length, List.length_cons, hlen]
        omega
    · refine .inr ?_
      change readBank ⟨_, remain, .success⟩ = .error tpmErrResponse
      rw [readBank, iterReadU16Be_be16 _ _ (by omega)]
      dsimp only
      rw [iterReadU8_cons _ _ (by omega)]
      dsimp only
      rw [if_neg (by simp), if_neg hs, iterReadPtr, iterRead_short rfl (by dsimp only; omega)]
      exact if_pos (by simp)
  · refine .inr ?_
    change readBank ⟨bytes, remain, .success⟩ = .error tpmErrResponse
    rw [readBank]
    by_cases h2 : 2 ≤ remain
    · rw [iterReadU16Be, iterRead_fits rfl h2]
      dsimp only
      rw [iterReadU8, iterRead_short rfl (by dsimp only; omega)]
      exact if_pos (by simp)
    · rw [iterReadU16Be, iterRead_short rfl (by dsimp only; omega)]
      dsimp only
      rw [iterReadU8, iterRead_error (by simp)]
      exact if_pos (by simp)

end Reads

section Loop

variable (f : EntryFormat β ε)

def lastId (page : List β) (d : UInt16) : UInt16 := page.foldl (fun _ b => f.id (f.entry b)) d

/-- What an entry loop has made of bytes that begin with the elements of
`page`, whatever the count says. -/
structure Processed (v : ε → σ → Bool × σ) (bytes : List UInt8) (remain count : Nat) (st : EntryState σ)
    (r : LoopExit × EntryState σ) (page : List β) : Prop where
  decoded : page.flatMap f.encode <+: bytes
  fits : (page.flatMap f.encode).length ≤ remain
  le : page.length ≤ count
  visited : visitAll (f.visit v) page st.out = (decide (r.1 = .accepted), r.2.out)
  counted : r.2.parsedCount = st.parsedCount + UInt32.ofNat page.length
  last : r.2.last = lastId f page st.last
  finished : r.1 = .finished → page.length = count ∧ r.2.iter.errorState = .success
  failed : ∀ ret, r.1 = .failed ret → ret = tpmErrResponse

variable {f}

theorem entryLoop_processes (hf : Decodes f) (v : ε → σ → Bool × σ) (count : Nat) (bytes : List UInt8)
    (remain : Nat) (hb : remain ≤ bytes.length) (last : UInt16) (pc : UInt32) (out : σ) :
    ∃ page, Processed f v bytes remain count ⟨⟨bytes, remain, .success⟩, last, pc, out⟩
      (entryLoop f.read f.id v count ⟨⟨bytes, remain, .success⟩, last, pc, out⟩) page := by
  induction count generalizing bytes remain last pc out with
  | zero =>
      refine ⟨[], List.nil_prefix, Nat.zero_le _, Nat.zero_le _, rfl, (UInt32.add_zero pc).symm, rfl,
        fun _ => ⟨rfl, rfl⟩, ?_⟩
      intro ret h
      cases h
  | succ count ih =>
      rw [entryLoop]
      rcases hf bytes remain hb with ⟨b, rest, rfl, hfit⟩ | herr
      · rw [f.reads b rest remain hfit]
        dsimp only
        by_cases hv : (v (f.entry b) out).1
        · rw [if_pos hv]
          refine ⟨[b], ?_, ?_, Nat.le_add_left _ _, ?_, rfl, rfl,
            fun h => (by cases h), fun _ h => (by cases h)⟩
          · rw [List.flatMap_singleton]
            exact List.prefix_append _ _
          · rwa [List.flatMap_singleton]
          · rw [visitAll, EntryFormat.visit, if_pos hv]
            rfl
        · rw [if_neg hv]
          rw [List.length_append] at hb
          obtain ⟨page, hdec, hfits, hle, hvis, hcnt, hlast, hfin, hfail⟩ :=
            ih rest (remain - (f.encode b).length) (by omega) (f.id (f.entry b)) (pc + 1)
              (v (f.entry b) out).2
          refine ⟨b :: page, ?_, ?_, ?_, ?_, ?_, hlast, ?_, hfail⟩
          · rw [List.flatMap_cons]
            exact (List.prefix_append_right_inj _).mpr hdec
          · rw [List.flatMap_cons, List.length_append]
            omega
          · rw [List.length_cons]
            omega
          · rw [visitAll, EntryFormat.visit, if_neg hv]
            exact hvis
          · rw [hcnt, List.length_cons, Nat.add_comm page.length 1, UInt32.ofNat_add]
            exact UInt32.add_assoc pc 1 _
          · intro h
            obtain ⟨hlen, hstate⟩ := hfin h
            exact ⟨congrArg Nat.succ hlen, hstate⟩
      · rw [herr]
        refine ⟨[], List.nil_prefix, Nat.zero_le _, Nat.zero_le _, rfl, (UInt32.add_zero pc).symm, rfl,
          fun h => (by cases h), ?_⟩
        intro ret h
        cases h
        rfl

end Loop

section Payload

variable [Host]

/-- The part of the buffer after the header that the size field declares. -/
def payload (resp : TpmCmd) : List UInt8 :=
  (resp.bytes.drop tpmHeaderSize).take ((be32toh resp.cmdSize).toNat - tpmHeaderSize)

theorem length_payload {resp : TpmCmd} (h : (be32toh resp.cmdSize).toNat ≤ maxSizeCmdbuf) :
    (payload resp).length = (be32toh resp.cmdSize).toNat - tpmHeaderSize := by
  rw [payload, List.length_take, List.length_drop, resp.length_bytes]
  omega

/-- The size field is that of a response in the buffer, and the payload begins
with a moreData byte and the capability. -/
structure Begins (cap : UInt32) (resp : TpmCmd) : Prop where
  least : tpmHeaderSize ≤ (be32toh resp.cmdSize).toNat
  most : (be32toh resp.cmdSize).toNat ≤ maxSizeCmdbuf
  capability : ∃ more, more :: be32 cap <+: payload resp

theorem payloadStart_begins {cap : UInt32} {resp : TpmCmd} (h : Begins cap resp) :
    ∃ more rest, payload resp = more :: (be32 cap ++ rest.take ((payload resp).length - 5)) ∧
      (payload resp).length - 5 ≤ rest.length ∧
      getcapPayloadStart resp cap freshIter = (tpmSuccess, ⟨rest, (payload resp).length - 5, .success⟩) := by
  obtain ⟨hleast, hmost, more, hcap⟩ := h
  have hlen := length_payload hmost
  have h5 : 5 ≤ (payload resp).length := hcap.length_le
  have hten : tpmHeaderSize = 10 := rfl
  obtain ⟨rest, hrest⟩ := hcap.trans (List.take_prefix _ _)
  refine ⟨more, rest, ?_, ?_, ?_⟩
  · conv_lhs => rw [payload, ← hrest, ← hlen]
    rw [List.take_append, List.take_of_length_le (show (more :: be32 cap).length ≤ _ from h5)]
    rfl
  · have hdrop : (resp.bytes.drop tpmHeaderSize).length = 5 + rest.length := by
      rw [← hrest, List.length_append]
      rfl
    rw [List.length_drop, resp.length_bytes] at hdrop
    omega
  · rw [getcapPayloadStart]
    dsimp only
    rw [if_neg (by omega), ← hlen, ← hrest, List.cons_append,
      show freshIter.errorState = .success from rfl, iterReadU8_cons _ _ (by omega)]
    dsimp only
    rw [iterReadU32Be_be32 _ _ (by omega)]
    dsimp only
    rw [if_neg (by simp), if_neg (by simp), Nat.sub_sub]

theorem payloadStart_fails {cap : UInt32} {resp : TpmCmd} (h : ¬ Begins cap resp) :
    (getcapPayloadStart resp cap freshIter).1 = tpmErrResponse := by
  have hten : tpmHeaderSize = 10 := rfl
  rw [getcapPayloadStart]
  dsimp only
  by_cases hrange : (be32toh resp.cmdSize).toNat < tpmHeaderSize ∨ (be32toh resp.cmdSize).toNat > maxSizeCmdbuf
  · rw [if_pos hrange]
  rw [if_neg hrange, show freshIter.errorState = .success from rfl]
  rw [not_or, not_lt, not_lt] at hrange
  obtain ⟨hleast, hmost⟩ := hrange
  have hdrop : (resp.bytes.drop tpmHeaderSize).length = maxSizeCmdbuf - tpmHeaderSize := by
    rw [List.length_drop, resp.length_bytes]
  by_cases h1 : 1 ≤ (be32toh resp.cmdSize).toNat - tpmHeaderSize
  · obtain ⟨more, rest, hrest⟩ := List.exists_cons_of_length_pos
      (show 0 < (resp.bytes.drop tpmHeaderSize).length by omega)
    rw [hrest, List.length_cons] at hdrop
    rw [hrest, iterReadU8_cons _ _ h1]
    dsimp only
    by_cases h4 : 4 ≤ (be32toh resp.cmdSize).toNat - tpmHeaderSize - 1
    · obtain ⟨x, rest, rfl⟩ := exists_be32 rest (by omega)
      rw [iterReadU32Be_be32 _ _ h4]
      dsimp only
      rw [if_neg (by simp)]
      by_cases hx : x = cap
      · refine absurd ⟨hleast, hmost, more, ?_⟩ h
        rw [payload, hrest, hx, List.prefix_take_iff]
        refine ⟨?_, ?_⟩
        · exact (List.prefix_append (more :: be32 cap) rest)
        · rw [List.length_cons, be32_length]
          omega
      · rw [if_pos hx]
    · rw [iterReadU32Be, iterRead_short rfl (by dsimp only; omega)]
      dsimp only
      rw [if_pos (by simp)]
  · rw [iterReadU8, iterRead_short rfl (by dsimp only; omega)]
    dsimp only
    rw [iterReadU32Be, iterRead_error (by simp)]
    dsimp only
    rw [if_pos (by simp)]

/-- The payload is a moreData byte, the capability, a count, and as many
elements, and there may be more bytes after them. -/
structure Lists (f : EntryFormat β ε) (cap : UInt32) (resp : TpmCmd) (page : List β) : Prop where
  least : tpmHeaderSize ≤ (be32toh resp.cmdSize).toNat
  most : (be32toh resp.cmdSize).toNat ≤ maxSizeCmdbuf
  elements : ∃ more, more :: (be32 cap ++ (be32 (UInt32.ofNat page.length) ++ page.flatMap f.encode)) <+:
    payload resp

variable {f : EntryFormat β ε} {cap : UInt32} {resp : TpmCmd} {page : List β}

theorem Lists.begins (h : Lists f cap resp page) : Begins cap resp := by
  obtain ⟨more, helements⟩ := h.elements
  exact ⟨h.least, h.most, more, (List.prefix_append (more :: be32 cap) _).trans helements⟩

omit [Host] in
theorem length_le_flatMap (f : EntryFormat β ε) (page : List β) :
    page.length ≤ (page.flatMap f.encode).length := by
  induction page with
  | nil => exact Nat.zero_le _
  | cons b page ih =>
      have hpos := f.encode_pos b
      rw [List.flatMap_cons, List.length_append, List.length_cons]
      omega

theorem Lists.count (h : Lists f cap resp page) : (UInt32.ofNat page.length).toNat = page.length := by
  obtain ⟨more, helements⟩ := h.elements
  have hle := helements.length_le
  have hmost := h.most
  have hpage := length_le_flatMap f page
  have hmax : maxSizeCmdbuf = 256 := rfl
  rw [length_payload hmost, List.length_cons, List.length_append, List.length_append] at hle
  exact UInt32.toNat_ofNat_of_lt' (show page.length < 2 ^ 32 by omega)

theorem Lists.start (h : Lists f cap resp page) : ∃ rest extra, getcapPayloadStart resp cap freshIter =
    (tpmSuccess, ⟨be32 (UInt32.ofNat page.length) ++ (page.flatMap f.encode ++ rest),
      4 + ((page.flatMap f.encode).length + extra), .success⟩) := by
  obtain ⟨more, rest, hpay, hle, hstart⟩ := payloadStart_begins h.begins
  obtain ⟨more', helements⟩ := h.elements
  rw [hpay, List.cons_prefix_cons, List.prefix_append_right_inj, List.prefix_take_iff] at helements
  obtain ⟨-, ⟨rest', hrest⟩, hlen⟩ := helements
  rw [List.length_append, be32_length] at hlen
  refine ⟨rest', (payload resp).length - 5 - 4 - (page.flatMap f.encode).length, ?_⟩
  rw [hstart, ← List.append_assoc, hrest]
  congr 2
  omega

theorem parseQuery_start {iter : TpmBufIter} (hs : getcapPayloadStart resp cap freshIter = (tpmSuccess, iter))
    (mark : ε → σ → σ) (po : ParseOut σ) :
    parseQuery cap f.read f.id mark resp po =
      queryResult po (entryLoop f.read f.id (fun e s => (false, mark e s)) (iterReadU32Be iter 0).2.1.toNat
        ⟨(iterReadU32Be iter 0).2.2, 0, 0, po.out⟩) := by
  rw [parseQuery, hs]
  dsimp only
  rw [if_neg (not_not.mpr rfl)]
  generalize entryLoop f.read f.id _ _ _ = r
  obtain ⟨_ | _ | _, st⟩ := r <;> rfl

theorem parseFind_start {iter : TpmBufIter} (hs : getcapPayloadStart resp cap freshIter = (tpmSuccess, iter))
    (v : ε → σ → Bool × σ) (po : ParseOut σ) :
    parseFind cap f.read f.id v resp po =
      findResult po (entryLoop f.read f.id v (iterReadU32Be iter 0).2.1.toNat
        ⟨(iterReadU32Be iter 0).2.2, po.last, 0, po.out⟩) := by
  rw [parseFind, hs]
  dsimp only
  rw [if_neg (not_not.mpr rfl)]
  generalize entryLoop f.read f.id _ _ _ = r
  obtain ⟨_ | _ | _, st⟩ := r <;> rfl

/-- The loop over a list visits all its elements when none is accepted. -/
theorem Lists.visits (h : Lists f cap resp page) : ∃ iter,
    getcapPayloadStart resp cap freshIter = (tpmSuccess, iter) ∧
      ∀ (visit : ε → σ → σ) (last : UInt16) (out : σ), ∃ iter', iter'.errorState = .success ∧
        entryLoop f.read f.id (fun e s => (false, visit e s)) (iterReadU32Be iter 0).2.1.toNat
          ⟨(iterReadU32Be iter 0).2.2, last, 0, out⟩ =
        (.finished, ⟨iter', lastId f page last, UInt32.ofNat page.length,
          page.foldl (fun s b => visit (f.entry b) s) out⟩) := by
  obtain ⟨rest, extra, hstart⟩ := h.start
  refine ⟨_, hstart, fun visit last out => ?_⟩
  rw [iterReadU32Be_be32 _ _ (Nat.le_add_right 4 _), Nat.add_sub_cancel_left]
  dsimp only
  rw [h.count]
  have hv := entryLoop_visits_prefix f (fun e s => (false, visit e s)) page rest extra last 0 out
  have hfold : visitAll (f.visit fun e s => (false, visit e s)) page out =
      (false, page.foldl (fun s b => visit (f.entry b) s) out) :=
    visitAll_fold (fun b s => visit (f.entry b) s) page out
  have hfound : (visitAll (f.visit fun e s => (false, visit e s)) page out).1 = false := by
    rw [hfold]
  obtain ⟨hexit, herr, hcount, hlast⟩ := hv.finished hfound
  have hout := hv.out
  rw [hfold] at hout
  generalize entryLoop f.read f.id _ page.length _ = r at hexit herr hcount hlast hout ⊢
  obtain ⟨exit, iter, last', pc, out'⟩ := r
  dsimp only at hexit herr hcount hlast hout
  rw [UInt32.zero_add] at hcount
  refine ⟨iter, herr, ?_⟩
  rw [hexit, hcount, hlast, hout]
  rfl

theorem Lists.query (h : Lists f cap resp page) (mark : ε → σ → σ) (po : ParseOut σ) :
    parseQuery cap f.read f.id mark resp po =
      (tpmSuccess, { po with
        out := page.foldl (fun s b => mark (f.entry b) s) po.out
        parsedCount := UInt32.ofNat page.length
        last := lastId f page 0 }) := by
  obtain ⟨iter, hstart, hvisits⟩ := h.visits
  obtain ⟨iter', herr, hloop⟩ := hvisits mark 0 po.out
  rw [parseQuery_start hstart, hloop]
  exact if_neg (not_not.mpr herr)

theorem Lists.find (h : Lists f cap resp page) (visit : ε → σ → σ) (po : ParseOut σ) :
    parseFind cap f.read f.id (fun e s => (false, visit e s)) resp po =
      (tpmSuccess, ⟨page.foldl (fun s b => visit (f.entry b) s) po.out, UInt32.ofNat page.length,
        lastId f page po.last, false⟩) := by
  obtain ⟨iter, hstart, hvisits⟩ := h.visits
  obtain ⟨iter', herr, hloop⟩ := hvisits visit po.last po.out
  rw [parseFind_start hstart, hloop, findResult, herr]

theorem Lists.find_empty (h : Lists f cap resp []) (v : ε → σ → Bool × σ) (po : ParseOut σ) :
    parseFind cap f.read f.id v resp po = (tpmSuccess, ⟨po.out, 0, po.last, false⟩) := by
  obtain ⟨rest, extra, hstart⟩ := h.start
  rw [parseFind_start hstart, iterReadU32Be_be32 _ _ (Nat.le_add_right 4 _)]
  rfl

/-- The end of an entry loop over a payload that begins with the capability,
whatever else is in it. -/
structure Ends (f : EntryFormat β ε) (cap : UInt32) (resp : TpmCmd) (v : ε → σ → Bool × σ) (last : UInt16)
    (out : σ) (r : LoopExit × EntryState σ) (page : List β) : Prop where
  fits : page = [] ∨ 9 + (page.flatMap f.encode).length ≤ (payload resp).length
  visited : visitAll (f.visit v) page out = (decide (r.1 = .accepted), r.2.out)
  counted : r.2.parsedCount = UInt32.ofNat page.length
  last : r.2.last = lastId f page last
  finished : r.1 = .finished → Lists f cap resp page ∧ r.2.iter.errorState = .success ∨
    r.2.iter.errorState = .errResponse
  failed : ∀ ret, r.1 = .failed ret → ret = tpmErrResponse

theorem entryLoop_ends (hf : Decodes f) (h : Begins cap resp) (v : ε → σ → Bool × σ) (last : UInt16)
    (out : σ) : ∃ iter, getcapPayloadStart resp cap freshIter = (tpmSuccess, iter) ∧
      ∃ page, Ends f cap resp v last out
        (entryLoop f.read f.id v (iterReadU32Be iter 0).2.1.toNat ⟨(iterReadU32Be iter 0).2.2, last, 0, out⟩)
        page := by
  obtain ⟨more, rest, hpay, hle, hstart⟩ := payloadStart_begins h
  refine ⟨_, hstart, ?_⟩
  have hlen := length_payload h.most
  by_cases h4 : 4 ≤ (payload resp).length - 5
  · obtain ⟨count, rest, rfl⟩ := exists_be32 rest (by omega)
    rw [iterReadU32Be_be32 _ _ h4]
    dsimp only
    rw [List.length_append, be32_length] at hle
    obtain ⟨page, hdec, hfits, -, hvis, hcnt, hlast, hfin, hfail⟩ := entryLoop_processes hf v count.toNat rest
      ((payload resp).length - 5 - 4) (by omega) last 0 out
    refine ⟨page, .inr (by omega), hvis, hcnt.trans (UInt32.zero_add _), hlast, fun hr => .inl ?_, hfail⟩
    obtain ⟨hcount, herr⟩ := hfin hr
    refine ⟨⟨h.least, h.most, more, ?_⟩, herr⟩
    rw [hpay, List.cons_prefix_cons, List.prefix_append_right_inj, List.prefix_take_iff, hcount,
      UInt32.ofNat_toNat, List.prefix_append_right_inj, List.length_append, be32_length]
    exact ⟨rfl, hdec, by omega⟩
  · rw [iterReadU32Be, iterRead_short rfl (by dsimp only; omega)]
    exact ⟨[], .inl rfl, rfl, rfl, rfl, fun _ => .inr rfl, fun _ hr => by cases hr⟩

theorem parseQuery_refuses (h : ¬ Begins cap resp) (mark : ε → σ → σ) (po : ParseOut σ) :
    parseQuery cap f.read f.id mark resp po = (tpmErrResponse, po) := by
  rw [parseQuery]
  dsimp only
  rw [payloadStart_fails h, if_pos (by simp)]

theorem parseFind_refuses (h : ¬ Begins cap resp) (v : ε → σ → Bool × σ) (po : ParseOut σ) :
    parseFind cap f.read f.id v resp po = (tpmErrResponse, po) := by
  rw [parseFind]
  dsimp only
  rw [payloadStart_fails h, if_pos (by simp)]

theorem parseQuery_fails (hf : Decodes f) (h : ∀ page, ¬ Lists f cap resp page) (mark : ε → σ → σ)
    (po : ParseOut σ) : (parseQuery cap f.read f.id mark resp po).1 = tpmErrResponse := by
  by_cases hb : Begins cap resp
  · obtain ⟨iter, hstart, page, -, hvis, -, -, hfin, hfail⟩ :=
      entryLoop_ends hf hb (fun e s => (false, mark e s)) 0 po.out
    rw [parseQuery_start hstart]
    generalize entryLoop f.read f.id _ _ _ = r at hvis hfin hfail ⊢
    obtain ⟨exit, st⟩ := r
    cases exit with
    | failed ret => exact hfail ret rfl
    | accepted => exact absurd hvis (visitAll_fold_ne (fun b s => mark (f.entry b) s) page po.out st.out)
    | finished =>
        rcases hfin rfl with ⟨hlists, -⟩ | herr
        · exact absurd hlists (h page)
        · dsimp only at herr
          simp [queryResult, herr]
  · rw [parseQuery_refuses hb]

theorem parseFind_fails (hf : Decodes f) (h : ∀ page, ¬ Lists f cap resp page) (visit : ε → σ → σ)
    (po : ParseOut σ) :
    (parseFind cap f.read f.id (fun e s => (false, visit e s)) resp po).1 = tpmErrResponse := by
  by_cases hb : Begins cap resp
  · obtain ⟨iter, hstart, page, -, hvis, -, -, hfin, hfail⟩ :=
      entryLoop_ends hf hb (fun e s => (false, visit e s)) po.last po.out
    rw [parseFind_start hstart]
    generalize entryLoop f.read f.id _ _ _ = r at hvis hfin hfail ⊢
    obtain ⟨exit, st⟩ := r
    cases exit with
    | failed ret => exact hfail ret rfl
    | accepted => exact absurd hvis (visitAll_fold_ne (fun b s => visit (f.entry b) s) page po.out st.out)
    | finished =>
        rcases hfin rfl with ⟨hlists, -⟩ | herr
        · exact absurd hlists (h page)
        · dsimp only at herr
          rw [findResult, herr]
  · rw [parseFind_refuses hb]

end Payload

section Formed

variable [Host]

/-- The size field is that of a response in the buffer, and the payload begins
with a moreData byte, TPM_CAP_ALGS, a count c and at least 6·c bytes. -/
structure AlgsFormed (resp : TpmCmd) : Prop where
  least : 10 ≤ (be32toh resp.cmdSize).toNat
  most : (be32toh resp.cmdSize).toNat ≤ 256
  elements : ∃ more count rest, payload resp = more :: (be32 tpmCapAlgs ++ (be32 count ++ rest)) ∧
    6 * count.toNat ≤ rest.length

structure PcrsFormed (resp : TpmCmd) : Prop where
  least : 10 ≤ (be32toh resp.cmdSize).toNat
  most : (be32toh resp.cmdSize).toNat ≤ 256
  elements : ∃ more count rest, payload resp = more :: (be32 tpmCapPcrs ++ (be32 count ++ rest)) ∧
    ∃ page : List PcrBank, page.length = count.toNat ∧ page.flatMap bankFormat.encode <+: rest

variable {f : EntryFormat β ε} {cap : UInt32} {resp : TpmCmd} {page : List β}

theorem Lists.elements_count (h : Lists f cap resp page) : ∃ more count rest,
    payload resp = more :: (be32 cap ++ (be32 count ++ rest)) ∧ page.length = count.toNat ∧
      page.flatMap f.encode <+: rest := by
  obtain ⟨more, rest, hrest⟩ := h.elements
  refine ⟨more, UInt32.ofNat page.length, page.flatMap f.encode ++ rest, ?_, h.count.symm,
    List.prefix_append _ _⟩
  rw [← hrest, List.cons_append, List.append_assoc, List.append_assoc]

theorem lists_of_count (hleast : tpmHeaderSize ≤ (be32toh resp.cmdSize).toNat)
    (hmost : (be32toh resp.cmdSize).toNat ≤ maxSizeCmdbuf) {more : UInt8} {count : UInt32}
    {rest : List UInt8} (hpay : payload resp = more :: (be32 cap ++ (be32 count ++ rest)))
    (hcount : page.length = count.toNat) (hpage : page.flatMap f.encode <+: rest) :
    Lists f cap resp page := by
  refine ⟨hleast, hmost, more, ?_⟩
  rw [hpay, hcount, UInt32.ofNat_toNat, List.cons_prefix_cons, List.prefix_append_right_inj,
    List.prefix_append_right_inj]
  exact ⟨rfl, hpage⟩

omit [Host] in
theorem exists_algs (count : Nat) (bytes : List UInt8) (h : 6 * count ≤ bytes.length) :
    ∃ page : List AlgEntry, page.length = count ∧ page.flatMap algFormat.encode <+: bytes := by
  induction count generalizing bytes with
  | zero => exact ⟨[], rfl, List.nil_prefix⟩
  | succ count ih =>
      obtain ⟨x, rest, rfl⟩ := exists_be16 bytes (by omega)
      rw [List.length_append, be16_length] at h
      obtain ⟨y, rest, rfl⟩ := exists_be32 rest (by omega)
      rw [List.length_append, be32_length] at h
      obtain ⟨page, hlen, hpage⟩ := ih rest (by omega)
      refine ⟨⟨x, y⟩ :: page, congrArg Nat.succ hlen, ?_⟩
      rw [List.flatMap_cons, ← List.append_assoc]
      exact (List.prefix_append_right_inj _).mpr hpage

omit [Host] in
theorem length_flatMap_algs (page : List AlgEntry) :
    (page.flatMap algFormat.encode).length = 6 * page.length := by
  induction page with
  | nil => rfl
  | cons e page ih =>
      rw [List.flatMap_cons, List.length_append, ih, List.length_cons]
      change 6 + 6 * page.length = 6 * (page.length + 1)
      omega

theorem algsFormed_iff : AlgsFormed resp ↔ ∃ page, Lists algFormat tpmCapAlgs resp page := by
  constructor
  · rintro ⟨hleast, hmost, more, count, rest, hpay, hle⟩
    obtain ⟨page, hcount, hpage⟩ := exists_algs count.toNat rest hle
    exact ⟨page, lists_of_count hleast hmost hpay hcount hpage⟩
  · rintro ⟨page, h⟩
    obtain ⟨more, count, rest, hpay, hcount, hpage⟩ := h.elements_count
    refine ⟨h.least, h.most, more, count, rest, hpay, ?_⟩
    rw [← hcount, ← length_flatMap_algs]
    exact hpage.length_le

theorem pcrsFormed_iff : PcrsFormed resp ↔ ∃ page, Lists bankFormat tpmCapPcrs resp page := by
  constructor
  · rintro ⟨hleast, hmost, more, count, rest, hpay, page, hcount, hpage⟩
    exact ⟨page, lists_of_count hleast hmost hpay hcount hpage⟩
  · rintro ⟨page, h⟩
    obtain ⟨more, count, rest, hpay, hcount, hpage⟩ := h.elements_count
    exact ⟨h.least, h.most, more, count, rest, hpay, page, hcount, hpage⟩

omit [Host] in
theorem lastId_getLast {page : List β} (h : page ≠ []) (d : UInt16) :
    lastId f page d = f.id (f.entry (page.getLast h)) := by
  conv_lhs => rw [← List.dropLast_append_getLast h]
  exact List.foldl_append

/-- What the two parsers of a pair return: the elements of the same page are
marked and visited in order, all of them are counted, and the last id of both
is that of the last element. -/
structure Parsed {τ : Type} (f : EntryFormat β ε) (page : List β) (mark : ε → σ → σ) (po : ParseOut σ)
    (visit : ε → τ → τ) (po' : ParseOut τ) (query : Int × ParseOut σ) (find : Int × ParseOut τ) :
    Prop where
  query_success : query.1 = tpmSuccess
  find_success : find.1 = tpmSuccess
  marked : query.2.out = page.foldl (fun s b => mark (f.entry b) s) po.out
  visited : find.2.out = page.foldl (fun s b => visit (f.entry b) s) po'.out
  query_count : query.2.parsedCount.toNat = page.length
  find_count : find.2.parsedCount.toNat = page.length
  not_found : query.2.found = po.found ∧ find.2.found = false
  last (h : page ≠ []) : query.2.last = f.id (f.entry (page.getLast h)) ∧ find.2.last = query.2.last

theorem Lists.parsed {τ : Type} (h : Lists f cap resp page) (mark : ε → σ → σ) (po : ParseOut σ)
    (visit : ε → τ → τ) (po' : ParseOut τ) :
    Parsed f page mark po visit po' (parseQuery cap f.read f.id mark resp po)
      (parseFind cap f.read f.id (fun e s => (false, visit e s)) resp po') := by
  rw [h.query, h.find]
  refine ⟨rfl, rfl, rfl, rfl, h.count, h.count, ⟨rfl, rfl⟩, fun hne => ⟨lastId_getLast hne 0, ?_⟩⟩
  exact (lastId_getLast hne _).trans (lastId_getLast hne _).symm

/-- A pair of parsers on the buffer `resp`, from whatever is in the
out-parameters: the buffers that both accept, what they make of them, that the
bytes after the last element do not matter, and the error on all others. -/
structure Accepts {τ : Type} (f : EntryFormat β ε) (cap : UInt32) (formed : Prop) (resp : TpmCmd)
    (mark : ε → σ → σ) (visit : ε → τ → τ) (query : TpmCmd → ParseOut σ → Int × ParseOut σ)
    (find : TpmCmd → ParseOut τ → Int × ParseOut τ) : Prop where
  formed_iff : formed ↔ ∃ page, Lists f cap resp page
  parsed (page : List β) (h : Lists f cap resp page) (po : ParseOut σ) (po' : ParseOut τ) :
    Parsed f page mark po visit po' (query resp po) (find resp po')
  trailing (page : List β) (h : Lists f cap resp page) (resp' : TpmCmd) (h' : Lists f cap resp' page)
    (po : ParseOut σ) (po' : ParseOut τ) : query resp' po = query resp po ∧ find resp' po' = find resp po'
  rejected (h : ¬ formed) (po : ParseOut σ) (po' : ParseOut τ) :
    (query resp po).1 = tpmErrResponse ∧ (find resp po').1 = tpmErrResponse

theorem accepts_of_decodes {τ : Type} (hf : Decodes f) {formed : Prop}
    (hformed : formed ↔ ∃ page, Lists f cap resp page) (mark : ε → σ → σ) (visit : ε → τ → τ) :
    Accepts f cap formed resp mark visit (parseQuery cap f.read f.id mark)
      (parseFind cap f.read f.id fun e s => (false, visit e s)) where
  formed_iff := hformed
  parsed _ h po po' := h.parsed mark po visit po'
  trailing _ h _ h' po po' := by
    rw [h.query, h'.query, h.find, h'.find]
    exact ⟨rfl, rfl⟩
  rejected h po po' := by
    rw [hformed, not_exists] at h
    exact ⟨parseQuery_fails hf h mark po, parseFind_fails hf h visit po'⟩

/-- A callback that never accepts is called for the algorithms that the masks let through. -/
theorem parsers_accept {τ : Type} (resp : TpmCmd) :
    (∀ mustSetMask mustClearMask (step : UInt16 → UInt32 → τ → τ),
      Accepts algFormat tpmCapAlgs (AlgsFormed resp) resp (fun e query => markAlgs e tpmMaxAlgProperties query)
        (fun e s => if e.props &&& mustSetMask = mustSetMask ∧ e.props &&& mustClearMask = 0 then
          step e.id e.props s else s)
        parseAlgs
        (parseAlgsFind mustSetMask mustClearMask fun id props s => (false, step id props s))) ∧
    (∀ step : UInt16 → List UInt8 → UInt8 → τ → τ,
      Accepts bankFormat tpmCapPcrs (PcrsFormed resp) resp
        (fun e query => markPcrs e tpmMaxPcrSelections query) (fun e s => step e.id e.select e.sizeofSelect s)
        parsePcrs (parsePcrsFind fun id select size s => (false, step id select size s))) := by
  constructor
  · intro mustSetMask mustClearMask step
    have hvisit : visitAlg mustSetMask mustClearMask (fun id props s => (false, step id props s)) =
        fun e s => (false, if e.props &&& mustSetMask = mustSetMask ∧ e.props &&& mustClearMask = 0 then
          step e.id e.props s else s) := by
      funext e s
      rw [visitAlg]
      split <;> rfl
    rw [parseAlgsFind, hvisit]
    exact accepts_of_decodes algFormat_decodes algsFormed_iff _ _
  · intro step
    exact accepts_of_decodes bankFormat_decodes pcrsFormed_iff _ _

end Formed

end LibTpm.CapFormat
