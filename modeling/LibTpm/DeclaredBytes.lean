import LibTpm.Base.TwoRuns
import LibTpm.CallOutputs
import LibTpm.Invariance
import LibTpm.PageRuns

namespace LibTpm.DeclaredBytes

open LibTpm.Base.BigEndian LibTpm.Base.Process LibTpm.Base.Process.Proc LibTpm.Base.TwoRuns LibTpm.Command
open LibTpm.Constants LibTpm.Endian LibTpm.Platform LibTpm.Builder LibTpm.Iterator LibTpm.Getcap LibTpm.Commands
open LibTpm.Queries LibTpm.Traffic LibTpm.CapFormat LibTpm.CallOutputs LibTpm.Invariance
open LibTpm.PageRuns

variable {W W' α ε σ : Type}

section Buffers

variable [Host]

/-- Two buffers agree on the header and on the data bytes that the size field
declares, none if it is below ten. -/
structure Similar (resp resp' : TpmCmd) : Prop where
  header : resp.header = resp'.header
  declared : payload resp = payload resp'

instance (resp resp' : TpmCmd) : Decidable (Similar resp resp') :=
  decidable_of_iff (resp.header = resp'.header ∧ payload resp = payload resp')
    ⟨fun h => ⟨h.1, h.2⟩, fun h => ⟨h.header, h.declared⟩⟩

omit [Host] in
theorem getD_of_take {n i : Nat} {p p' : List UInt8} (h : p.take n = p'.take n) (hi : i < n) :
    p.getD i 0 = p'.getD i 0 := by
  rw [List.getD_eq_getElem?_getD, List.getD_eq_getElem?_getD, ← List.getElem?_take_of_lt hi, h,
    List.getElem?_take_of_lt hi]

variable {resp resp' : TpmCmd}

theorem Similar.byte (h : Similar resp resp') {i : Nat} (hi : i < tpmHeaderSize) : resp.byte i = resp'.byte i :=
  getD_of_take h.header hi

theorem Similar.tag (h : Similar resp resp') : resp.tag = resp'.tag := by
  rw [TpmCmd.tag, h.byte (by decide), h.byte (by decide)]
  rfl

theorem Similar.cmdSize (h : Similar resp resp') : resp.cmdSize = resp'.cmdSize := by
  rw [TpmCmd.cmdSize, h.byte (by decide), h.byte (by decide), h.byte (by decide), h.byte (by decide)]
  rfl

theorem Similar.cmdCode (h : Similar resp resp') : resp.cmdCode = resp'.cmdCode := by
  rw [TpmCmd.cmdCode, h.byte (by decide), h.byte (by decide), h.byte (by decide), h.byte (by decide)]
  rfl

theorem Similar.take (h : Similar resp resp') : (resp.bytes.drop tpmHeaderSize).take
    ((be32toh resp.cmdSize).toNat - tpmHeaderSize) = (resp'.bytes.drop tpmHeaderSize).take
      ((be32toh resp.cmdSize).toNat - tpmHeaderSize) := by
  have hp := h.declared
  rw [payload, payload, ← h.cmdSize] at hp
  exact hp

theorem Similar.data (h : Similar resp resp') {i : Nat} (hi : i < (be32toh resp.cmdSize).toNat - tpmHeaderSize) :
    resp.data i = resp'.data i := by
  have hd := getD_of_take h.take hi
  rwa [List.getD_eq_getElem?_getD, List.getD_eq_getElem?_getD, List.getElem?_drop, List.getElem?_drop,
    ← List.getD_eq_getElem?_getD, ← List.getD_eq_getElem?_getD] at hd

end Buffers

section Reads

structure Alike (it it' : TpmBufIter) : Prop where
  remain : it.remain = it'.remain
  errorState : it.errorState = it'.errorState
  bytes : it.ptr.take it.remain = it'.ptr.take it.remain

variable {it it' : TpmBufIter}

theorem Alike.iterRead (h : Alike it it') {n : Nat} {decode : List UInt8 → α} (D : α → α → Prop) {out out' : α}
    (hdecode : ∀ p p', p.take n = p'.take n → D (decode p) (decode p')) (hout : D out out') :
    D (iterRead n decode it out).2.1 (iterRead n decode it' out').2.1 ∧
      Alike (iterRead n decode it out).2.2 (iterRead n decode it' out').2.2 := by
  by_cases he : it.errorState = .success
  swap
  · rw [iterRead_error he, iterRead_error (h.errorState ▸ he)]
    exact ⟨hout, h⟩
  have he' : it'.errorState = .success := h.errorState ▸ he
  by_cases hn : n ≤ it.remain
  · rw [iterRead_fits he hn, iterRead_fits he' (h.remain ▸ hn)]
    refine ⟨hdecode _ _ ?_, congrArg (· - n) h.remain, h.errorState, ?_⟩
    · have hb := congrArg (List.take n) h.bytes
      rwa [List.take_take, List.take_take, Nat.min_eq_left hn] at hb
    · have hb := congrArg (List.drop n) h.bytes
      rwa [List.drop_take, List.drop_take] at hb
  · rw [iterRead_short he (not_le.mp hn), iterRead_short he' (h.remain ▸ not_le.mp hn)]
    exact ⟨hout, h.remain, rfl, h.bytes⟩

theorem Alike.readU8 (h : Alike it it') (out : UInt8) :
    (iterReadU8 it out).2.1 = (iterReadU8 it' out).2.1 ∧ Alike (iterReadU8 it out).2.2 (iterReadU8 it' out).2.2 :=
  h.iterRead (· = ·) (fun _ _ hp => getD_of_take hp Nat.zero_lt_one) rfl

theorem Alike.readU16Be (h : Alike it it') (out : UInt16) :
    (iterReadU16Be it out).2.1 = (iterReadU16Be it' out).2.1 ∧
      Alike (iterReadU16Be it out).2.2 (iterReadU16Be it' out).2.2 := by
  apply h.iterRead (· = ·) _ rfl
  intro p p' hp
  rw [getD_of_take hp (by decide), getD_of_take (i := 1) hp (by decide)]

theorem Alike.readU32Be (h : Alike it it') (out : UInt32) :
    (iterReadU32Be it out).2.1 = (iterReadU32Be it' out).2.1 ∧
      Alike (iterReadU32Be it out).2.2 (iterReadU32Be it' out).2.2 := by
  apply h.iterRead (· = ·) _ rfl
  intro p p' hp
  rw [getD_of_take hp (by decide), getD_of_take (i := 1) hp (by decide), getD_of_take (i := 2) hp (by decide),
    getD_of_take (i := 3) hp (by decide)]

theorem Alike.readPtr (h : Alike it it') (len : Nat) :
    (iterReadPtr len it []).2.1.take len = (iterReadPtr len it' []).2.1.take len ∧
      Alike (iterReadPtr len it []).2.2 (iterReadPtr len it' []).2.2 :=
  h.iterRead (fun p p' : List UInt8 => p.take len = p'.take len) (fun _ _ hp => hp) rfl

inductive SameRead : Except Int (ε × TpmBufIter) → Except Int (ε × TpmBufIter) → Prop
  | error (ret : Int) : SameRead (.error ret) (.error ret)
  | ok (e : ε) {it it' : TpmBufIter} (h : Alike it it') : SameRead (.ok (e, it)) (.ok (e, it'))

theorem readAlg_same (h : Alike it it') : SameRead (readAlg it) (readAlg it') := by
  obtain ⟨hid, h⟩ := h.readU16Be 0
  rw [readAlg, readAlg]
  dsimp only
  obtain ⟨hprops, h⟩ := h.readU32Be 0
  rw [hid, hprops, h.errorState]
  split
  · exact .error _
  · exact .ok _ h

theorem readBank_same (h : Alike it it') : SameRead (readBank it) (readBank it') := by
  obtain ⟨hid, h⟩ := h.readU16Be 0
  obtain ⟨hsize, h⟩ := h.readU8 0
  rw [readBank, readBank]
  dsimp only
  rw [hid, hsize, h.errorState]
  split
  · exact .error _
  split
  · exact .error _
  obtain ⟨hselect, h⟩ := h.readPtr (iterReadU8 (iterReadU16Be it' 0).2.2 0).2.1.toNat
  rw [hselect, h.errorState]
  split
  · exact .error _
  · exact .ok _ h

end Reads

section Parsers

variable [Host] {resp resp' : TpmCmd}

theorem Similar.payloadStart (h : Similar resp resp') (cap : UInt32) :
    (getcapPayloadStart resp cap freshIter).1 = (getcapPayloadStart resp' cap freshIter).1 ∧
      Alike (getcapPayloadStart resp cap freshIter).2 (getcapPayloadStart resp' cap freshIter).2 := by
  rw [getcapPayloadStart, getcapPayloadStart, ← h.cmdSize]
  dsimp only
  split
  · exact ⟨rfl, rfl, rfl, rfl⟩
  have hattached : Alike
      ⟨resp.bytes.drop tpmHeaderSize, (be32toh resp.cmdSize).toNat - tpmHeaderSize, freshIter.errorState⟩
      ⟨resp'.bytes.drop tpmHeaderSize, (be32toh resp.cmdSize).toNat - tpmHeaderSize, freshIter.errorState⟩ :=
    ⟨rfl, rfl, h.take⟩
  obtain ⟨-, hmore⟩ := hattached.readU8 0
  obtain ⟨hcap, hiter⟩ := hmore.readU32Be 0
  rw [hcap, hiter.errorState]
  split
  · exact ⟨rfl, hiter⟩
  split
  · exact ⟨rfl, hiter⟩
  · exact ⟨rfl, hiter⟩

structure SameExit (r r' : LoopExit × EntryState σ) : Prop where
  exit : r.1 = r'.1
  iter : Alike r.2.iter r'.2.iter
  last : r.2.last = r'.2.last
  parsedCount : r.2.parsedCount = r'.2.parsedCount
  out : r.2.out = r'.2.out

variable {read : TpmBufIter → Except Int (ε × TpmBufIter)} {id : ε → UInt16}

omit [Host] in
theorem entryLoop_same (hread : ∀ {it it'}, Alike it it' → SameRead (read it) (read it'))
    (id : ε → UInt16) (visit : ε → σ → Bool × σ) (n : Nat) {it it' : TpmBufIter} (h : Alike it it') (last : UInt16)
    (count : UInt32)
    (out : σ) : SameExit (entryLoop read id visit n ⟨it, last, count, out⟩)
      (entryLoop read id visit n ⟨it', last, count, out⟩) := by
  induction n generalizing it it' last count out with
  | zero => exact ⟨rfl, h, rfl, rfl, rfl⟩
  | succ n ih =>
      rw [entryLoop, entryLoop]
      dsimp only
      have hr := hread h
      generalize read it = x at hr ⊢
      generalize read it' = x' at hr ⊢
      cases hr with
      | error ret => exact ⟨rfl, h, rfl, rfl, rfl⟩
      | ok e hnext =>
          dsimp only
          split
          · exact ⟨rfl, hnext, rfl, rfl, rfl⟩
          · exact ih hnext _ _ _

theorem parseQuery_same (hread : ∀ {it it'}, Alike it it' → SameRead (read it) (read it')) (h : Similar resp resp')
    (cap : UInt32) (mark : ε → σ → σ) (po : ParseOut σ) :
    parseQuery cap read id mark resp po = parseQuery cap read id mark resp' po := by
  obtain ⟨hret, hiter⟩ := h.payloadStart cap
  rw [parseQuery, parseQuery]
  dsimp only
  rw [← hret]
  split
  · rfl
  obtain ⟨hcount, hiter⟩ := hiter.readU32Be 0
  have hloop := entryLoop_same hread id (fun e s => (false, mark e s))
    (iterReadU32Be (getcapPayloadStart resp' cap freshIter).2 0).2.1.toNat hiter 0 0 po.out
  rw [hcount]
  generalize entryLoop read id _ _ _ = r at hloop ⊢
  generalize entryLoop read id _ _ _ = r' at hloop ⊢
  obtain ⟨exit, st⟩ := r
  obtain ⟨exit', st'⟩ := r'
  obtain ⟨rfl, hst, hlast, hparsed, hout⟩ := hloop
  dsimp only at hst hlast hparsed hout
  cases exit <;> simp only [hst.errorState, hlast, hparsed, hout]

theorem parseFind_same (hread : ∀ {it it'}, Alike it it' → SameRead (read it) (read it')) (h : Similar resp resp')
    (cap : UInt32) (visit : ε → σ → Bool × σ) (po : ParseOut σ) :
    parseFind cap read id visit resp po = parseFind cap read id visit resp' po := by
  obtain ⟨hret, hiter⟩ := h.payloadStart cap
  rw [parseFind, parseFind]
  dsimp only
  rw [← hret]
  split
  · rfl
  obtain ⟨hcount, hiter⟩ := hiter.readU32Be 0
  have hloop := entryLoop_same hread id visit
    (iterReadU32Be (getcapPayloadStart resp' cap freshIter).2 0).2.1.toNat hiter po.last 0 po.out
  rw [hcount]
  generalize entryLoop read id _ _ _ = r at hloop ⊢
  generalize entryLoop read id _ _ _ = r' at hloop ⊢
  obtain ⟨exit, st⟩ := r
  obtain ⟨exit', st'⟩ := r'
  obtain ⟨rfl, hst, hlast, hparsed, hout⟩ := hloop
  dsimp only at hst hlast hparsed hout
  cases exit <;> simp only [hst.errorState, hlast, hparsed, hout]

end Parsers

section Runs

variable [Host]

/-- What the environment does at corresponding points of two runs: send
returns the same, and receive returns the same and brings in similar buffers. -/
def Agree : Transfer → Transfer → Prop
  | .sent _ ret, .sent _ ret' => ret = ret'
  | .received result, .received result' =>
      Option.Rel (fun r r' => r.1 = r'.1 ∧ (0 ≤ r.1 → Similar r.2 r'.2)) result result'
  | _, _ => True

instance : DecidableRel Agree
  | .sent _ ret, .sent _ ret' => inferInstanceAs (Decidable (ret = ret'))
  | .received (some r), .received (some r') =>
      decidable_of_iff (r.1 = r'.1 ∧ (0 ≤ r.1 → Similar r.2 r'.2)) ⟨fun h => .some h, fun h => by cases h; assumption⟩
  | .received none, .received none => isTrue .none
  | .received (some _), .received none => isFalse fun h => by cases h
  | .received none, .received (some _) => isFalse fun h => by cases h
  | .sent .., .received .. => isTrue trivial
  | .received .., .sent .. => isTrue trivial

/-- The same command is sent, or a buffer is received. -/
inductive Same : Transfer → Transfer → Prop
  | sent (cmd : TpmCmd) (ret : Option Int) : Same (.sent cmd ret) (.sent cmd ret)
  | received (result result' : Option (Int × TpmCmd)) : Same (.received result) (.received result')

variable {interface : Interface W} {interface' : Interface W'}

omit [Host] in
theorem traced_keeps (log : List Transfer) (chip : ChipData) :
    InterfaceKeeps (fun s : W × List Transfer => log <+: s.2) (traced interface) chip where
  send _ s h := h.trans (List.prefix_append s.2 _)
  receive _ s h := h.trans (List.prefix_append s.2 _)

theorem tpmXfer_tied (chip : ChipData) (cmd buf buf' : TpmCmd) :
    Coupled Agree Same (fun r r' => r.1 = r'.1 ∧ (0 ≤ r.1 → Similar r.2 r'.2))
      (tpmXfer (traced interface) chip cmd buf)
      (tpmXfer (traced interface') chip cmd buf') := by
  have hnegative {ret : Int} {b b' : TpmCmd} (h : ret < 0) : ret = ret ∧ (0 ≤ ret → Similar b b') :=
    ⟨rfl, fun h0 => absurd h0 (not_le.mpr h)⟩
  refine Coupled.bind (A := Eq) ?_ ?_ ?_ ?_
  · rw [traced_send, traced_send]
    apply coupled_observe
    rintro o o' (rfl : o = o')
    exact ⟨.sent cmd o, by cases o <;> constructor; rfl⟩
  · rintro ret _ rfl
    refine Coupled.ite Iff.rfl (fun h => coupled_pure (hnegative h)) fun _ => ?_
    refine Coupled.bind (A := fun r r' => r.1 = r'.1 ∧ (0 ≤ r.1 → Similar r.2 r'.2)) ?_ ?_ ?_ ?_
    · rw [traced_receive, traced_receive]
      apply coupled_observe
      intro o o' h
      exact ⟨.received o o', h⟩
    · rintro ⟨ret, b⟩ ⟨ret', b'⟩ ⟨hret, hsim⟩
      dsimp only at hret hsim
      subst hret
      refine Coupled.ite Iff.rfl (fun h => coupled_pure (hnegative h)) fun h => ?_
      exact coupled_pure ⟨rfl, fun _ => hsim (not_lt.mp h)⟩
    all_goals exact fun r => .ite (extends_pure _) (extends_pure _)
  all_goals
    intro ret
    refine extends_of_keeps fun log => Keeps.unless (Keeps.bind ((traced_keeps log chip).receive _) ?_)
    exact fun r => Keeps.unless (keeps_pure _ _)

theorem tpmStartup_tied (chip : ChipData) (mode : UInt16) :
    Coupled Agree Same Eq (tpmStartup (traced interface) chip mode) (tpmStartup (traced interface') chip mode) := by
  refine Coupled.ite Iff.rfl (fun _ => coupled_pure rfl) fun _ => ?_
  refine Coupled.bind (tpmXfer_tied chip _ _ _) ?_ ?_ ?_
  · rintro ⟨ret, resp⟩ ⟨ret', resp'⟩ ⟨hret, hsim⟩
    dsimp only at hret hsim
    subst hret
    refine Coupled.ite Iff.rfl (fun _ => coupled_pure rfl) fun h => ?_
    dsimp only
    rw [(hsim (not_lt.mp h)).cmdCode]
    refine Coupled.ite Iff.rfl (fun _ => coupled_pure rfl) fun _ => ?_
    exact Coupled.ite Iff.rfl (fun _ => coupled_pure rfl) fun _ => coupled_pure rfl
  all_goals
    exact fun r => .ite (extends_pure _) (.ite (extends_pure _) (.ite (extends_pure _) (extends_pure _)))

theorem tpmPcrExtend_tied (chip : ChipData) (index : UInt32) (algorithm : UInt16) (digest : Option (Nat → UInt8))
    (digestLen : UInt32) :
    Coupled Agree Same Eq (tpmPcrExtend (traced interface) chip index algorithm digest digestLen)
      (tpmPcrExtend (traced interface') chip index algorithm digest digestLen) := by
  cases digest with
  | none => exact coupled_pure rfl
  | some digest =>
      refine Coupled.ite Iff.rfl (fun _ => coupled_pure rfl) fun _ => ?_
      refine Coupled.bind (tpmXfer_tied chip _ _ _) ?_ ?_ ?_
      · rintro ⟨ret, resp⟩ ⟨ret', resp'⟩ ⟨hret, hsim⟩
        dsimp only at hret hsim
        subst hret
        refine Coupled.ite Iff.rfl (fun _ => coupled_pure rfl) fun h => ?_
        rw [(hsim (not_lt.mp h)).cmdCode]
        exact Coupled.ite Iff.rfl (fun _ => coupled_pure rfl) fun _ => coupled_pure rfl
      all_goals exact fun r => .ite (extends_pure _) (.ite (extends_pure _) (extends_pure _))

omit [Host] in
theorem sub_header (size : UInt32) (h : (size - UInt32.ofNat tpmHeaderSize).toNat ≤ pcrSingleReadResSize) :
    (size - UInt32.ofNat tpmHeaderSize).toNat = size.toNat - tpmHeaderSize := by
  have hlt := size.toNat_lt
  have hten : (UInt32.ofNat tpmHeaderSize).toNat = 10 := rfl
  have hheader : tpmHeaderSize = 10 := rfl
  have hmax : pcrSingleReadResSize = 68 := rfl
  rw [UInt32.toNat_sub, hten] at h ⊢
  omega

theorem Similar.pcrData {resp resp' : TpmCmd} (h : Similar resp resp')
    (hsize : ¬ ((be32toh resp.cmdSize - UInt32.ofNat tpmHeaderSize).toNat > pcrSingleReadResSize ∨
      (be32toh resp.cmdSize - UInt32.ofNat tpmHeaderSize).toNat < pcrSingleReadResDigest)) :
    20 ≤ (be32toh resp.cmdSize - UInt32.ofNat tpmHeaderSize).toNat ∧
      ∀ i < (be32toh resp.cmdSize - UInt32.ofNat tpmHeaderSize).toNat, resp.data i = resp'.data i := by
  rw [not_or, not_lt, not_lt] at hsize
  refine ⟨hsize.2, fun i hi => ?_⟩
  rw [sub_header _ hsize.1] at hi
  exact h.data hi

/-- The digest is copied out of the bytes that the checks have found declared. -/
theorem tpmPcrReadSingle_tied (stack stack' : TpmCmd) (chip : ChipData) (index : UInt32) (algorithm : UInt16)
    (pcrDigestRead : Option (List UInt8)) :
    Coupled Agree Same Eq (tpmPcrReadSingle (traced interface) stack chip index algorithm pcrDigestRead)
      (tpmPcrReadSingle (traced interface') stack' chip index algorithm pcrDigestRead) := by
  refine Coupled.ite Iff.rfl (fun _ => coupled_pure rfl) fun _ => ?_
  cases pcrDigestRead with
  | none => exact coupled_pure rfl
  | some buf =>
      dsimp only
      refine Coupled.ite Iff.rfl (fun _ => coupled_pure rfl) fun _ => ?_
      refine Coupled.bind (tpmXfer_tied chip _ _ _) ?_ ?_ ?_
      · rintro ⟨ret, resp⟩ ⟨ret', resp'⟩ ⟨hret, hsim⟩
        dsimp only at hret hsim
        subst hret
        refine Coupled.ite Iff.rfl (fun _ => coupled_pure rfl) fun h => ?_
        have hsim := hsim (not_lt.mp h)
        dsimp only
        rw [hsim.cmdCode, ← hsim.cmdSize]
        refine Coupled.ite Iff.rfl (fun _ => coupled_pure rfl) fun _ => ?_
        refine Coupled.ite Iff.rfl (fun _ => coupled_pure rfl) fun hsize => ?_
        obtain ⟨hleast, hbytes⟩ := hsim.pcrData hsize
        rw [hbytes 18 (by omega), hbytes 19 (by omega)]
        generalize (be32toh resp.cmdSize - UInt32.ofNat tpmHeaderSize).toNat = dataSize at hbytes hleast ⊢
        generalize (be16toh (load16 (resp'.data 18) (resp'.data 19))).toNat = digestLen
        refine Coupled.ite Iff.rfl (fun _ => coupled_pure rfl) fun _ => ?_
        refine Coupled.ite Iff.rfl (fun _ => coupled_pure rfl) fun hfit => coupled_pure ?_
        rw [← List.map_take, ← List.map_take, List.map_congr_left]
        intro i hi
        rw [List.take_range, List.mem_range] at hi
        exact hbytes _ (by omega)
      all_goals
        exact fun r => .ite (extends_pure _) (.ite (extends_pure _) (.ite (extends_pure _)
          (.ite (extends_pure _) (.ite (extends_pure _) (extends_pure _)))))

theorem Similar.allocateFields {resp resp' : TpmCmd} (h : Similar resp resp')
    (hsize : tpmHeaderSize + 17 ≤ (be32toh resp.cmdSize).toNat) :
    ∃ parameterSize allocationSuccess maxPcr sizeNeeded sizeAvailable rest rest',
      resp.bytes.drop tpmHeaderSize = be32 parameterSize ++ (allocationSuccess ::
        (be32 maxPcr ++ (be32 sizeNeeded ++ (be32 sizeAvailable ++ rest)))) ∧
      resp'.bytes.drop tpmHeaderSize = be32 parameterSize ++ (allocationSuccess ::
        (be32 maxPcr ++ (be32 sizeNeeded ++ (be32 sizeAvailable ++ rest')))) := by
  obtain ⟨parameterSize, allocationSuccess, maxPcr, sizeNeeded, sizeAvailable, rest, hdata⟩ :=
    exists_allocateFields resp
  refine ⟨parameterSize, allocationSuccess, maxPcr, sizeNeeded, sizeAvailable, rest,
    (resp'.bytes.drop tpmHeaderSize).drop 17, hdata, ?_⟩
  have htake := congrArg (List.take 17) h.take
  rw [List.take_take, List.take_take, Nat.min_eq_left (by omega), hdata] at htake
  conv_lhs => rw [← List.take_append_drop 17 (resp'.bytes.drop tpmHeaderSize), ← htake]
  rfl

theorem tpmPcrAllocateAuthPassword_tied (chip : Option ChipData) (password : Option (Nat → UInt8))
    (passwordLen : UInt16) (banks : Option (Nat → TpmPcrAllocateBank)) (out : Option AllocateOut) :
    Coupled Agree Same Eq (tpmPcrAllocateAuthPassword (traced interface) chip password passwordLen banks out)
      (tpmPcrAllocateAuthPassword (traced interface') chip password passwordLen banks out) := by
  rcases chip with _ | chip
  · exact coupled_pure rfl
  rcases banks with _ | banks
  · exact coupled_pure rfl
  rcases out with _ | old
  · exact coupled_pure rfl
  refine Coupled.ite Iff.rfl (fun _ => coupled_pure rfl) fun _ => ?_
  refine Coupled.ite Iff.rfl (fun _ => coupled_pure rfl) fun _ => ?_
  refine Coupled.ite Iff.rfl (fun _ => coupled_pure rfl) fun _ => ?_
  refine Coupled.ite Iff.rfl (fun _ => coupled_pure rfl) fun _ => ?_
  refine Coupled.bind (tpmXfer_tied chip _ _ _) ?_ ?_ ?_
  · rintro ⟨ret, resp⟩ ⟨ret', resp'⟩ ⟨hret, hsim⟩
    dsimp only at hret hsim
    subst hret
    refine Coupled.ite Iff.rfl (fun _ => coupled_pure rfl) fun h => ?_
    have hsim := hsim (not_lt.mp h)
    have hfields := hsim.allocateFields
    rw [hsim.tag, hsim.cmdCode, ← hsim.cmdSize]
    refine Coupled.ite Iff.rfl (fun _ => coupled_pure rfl) fun _ => ?_
    refine Coupled.ite Iff.rfl (fun _ => coupled_pure rfl) fun _ => ?_
    refine Coupled.ite Iff.rfl (fun _ => coupled_pure rfl) fun hsize => ?_
    rw [not_or, not_lt, not_lt] at hsize
    obtain ⟨parameterSize, allocationSuccess, maxPcr, sizeNeeded, sizeAvailable, rest, rest', hdata, hdata'⟩ :=
      hfields hsize.1
    have hten : tpmHeaderSize = 10 := rfl
    dsimp only
    simp (disch := omega) only [hdata, hdata', iterReadU8_cons, iterReadU32Be_be32, ne_eq, not_true_eq_false,
      if_false]
    exact coupled_pure rfl
  all_goals
    rintro ⟨ret, resp⟩
    refine .ite (extends_pure _) (.ite (extends_pure _) (.ite (extends_pure _) (.ite (extends_pure _) ?_)))
    dsimp only
    exact .ite (extends_pure _) (extends_pure _)

structure SamePage (r r' : Int × TpmCmd × Bool) : Prop where
  ret : r.1 = r'.1
  page : r.1 = tpmSuccess → Similar r.2.1 r'.2.1 ∧ r.2.2 = r'.2.2

theorem getcapRaw_tied (chip : Option ChipData) (cap property count : UInt32) (resp resp' : TpmCmd)
    (more more' : Bool) :
    Coupled Agree Same SamePage (getcapRaw (traced interface) chip cap property count resp more)
      (getcapRaw (traced interface') chip cap property count resp' more') := by
  have hfail {ret : Int} {x x' : TpmCmd × Bool} (h : ret ≠ tpmSuccess) : SamePage (ret, x) (ret, x') :=
    ⟨rfl, fun h0 => absurd h0 h⟩
  have hnegative {ret : Int} (h : ret < 0) : ret ≠ tpmSuccess := by
    rintro rfl
    exact absurd h (by decide)
  rcases chip with _ | chip
  · exact coupled_pure (hfail (by decide))
  refine Coupled.ite Iff.rfl (fun h => coupled_pure (hfail (hnegative h))) fun _ => ?_
  refine Coupled.bind (tpmXfer_tied chip _ _ _) ?_ ?_ ?_
  · rintro ⟨ret, resp⟩ ⟨ret', resp'⟩ ⟨hret, hsim⟩
    dsimp only at hret hsim
    subst hret
    refine Coupled.ite Iff.rfl (fun h => coupled_pure (hfail (hnegative h))) fun h => ?_
    have hsim := hsim (not_lt.mp h)
    rw [hsim.tag, hsim.cmdCode, ← hsim.cmdSize]
    refine Coupled.ite Iff.rfl (fun _ => coupled_pure (hfail errResponse_ne_success)) fun _ => ?_
    refine Coupled.ite Iff.rfl (fun _ => coupled_pure (hfail errResponse_ne_success)) fun _ => ?_
    refine Coupled.ite Iff.rfl (fun _ => coupled_pure (hfail errResponse_ne_success)) fun hsize => ?_
    rw [hsim.data (by omega)]
    exact coupled_pure ⟨rfl, fun _ => ⟨hsim, rfl⟩⟩
  all_goals
    exact fun r => .ite (extends_pure _) (.ite (extends_pure _) (.ite (extends_pure _)
      (.ite (extends_pure _) (extends_pure _))))

theorem pageLoop_extends (chip : Option ChipData) (cap : UInt32)
    (parse : TpmCmd → ParseOut σ → Int × ParseOut σ) (goOn : UInt16 → Bool) (n : Nat) (st : PageState σ) :
    Extends (pageLoop (traced interface) chip cap parse goOn n st) :=
  extends_of_keeps fun log =>
    (pageLoop_surfaces (fun c _ => (traced_keeps log c).surfaces) cap parse goOn n st).keeps

/-- Later requests of a page loop depend on earlier pages only through what
the parser has made of them. -/
theorem pageLoop_tied (chip : Option ChipData) (cap : UInt32) {parse : TpmCmd → ParseOut σ → Int × ParseOut σ}
    (hparse : ∀ {resp resp'}, Similar resp resp' → ∀ po, parse resp po = parse resp' po) (goOn : UInt16 → Bool)
    (n : Nat) {st st' : PageState σ} (hproperty : st.property = st'.property) (hpo : st.po = st'.po) :
    Coupled Agree Same Eq (pageLoop (traced interface) chip cap parse goOn n st)
      (pageLoop (traced interface') chip cap parse goOn n st') := by
  induction n generalizing st st' with
  | zero =>
      rw [pageLoop, pageLoop, hpo]
      exact coupled_pure rfl
  | succ n ih =>
      rw [pageLoop, pageLoop, hproperty, hpo]
      refine Coupled.bind (getcapRaw_tied chip cap _ _ _ _ _ _) ?_ ?_ ?_
      · rintro ⟨ret, resp, more⟩ ⟨ret', resp', more'⟩ ⟨hret, hpage⟩
        dsimp only at hret hpage
        subst hret
        refine Coupled.ite Iff.rfl (fun _ => coupled_pure rfl) fun h => ?_
        obtain ⟨hsim, rfl⟩ := hpage (not_not.mp h)
        dsimp only
        rw [hparse hsim]
        refine Coupled.ite Iff.rfl (fun _ => coupled_pure rfl) fun _ => ?_
        refine Coupled.ite Iff.rfl (fun _ => coupled_pure rfl) fun _ => ?_
        refine Coupled.ite Iff.rfl (fun _ => coupled_pure rfl) fun _ => ?_
        exact Coupled.ite Iff.rfl (fun _ => ih rfl rfl) fun _ => coupled_pure rfl
      all_goals
        exact fun r => .ite (extends_pure _) (.ite (extends_pure _) (.ite (extends_pure _) (.ite (extends_pure _)
          (.ite (pageLoop_extends _ _ _ _ _ _) (extends_pure _)))))

variable (stack stack' : TpmCmd)

theorem tpmGetcapQueryAlgs_tied (chip : Option ChipData) (query : Option (List TpmAlgQuery)) :
    Coupled Agree Same Eq (tpmGetcapQueryAlgs (traced interface) stack chip query)
      (tpmGetcapQueryAlgs (traced interface') stack' chip query) := by
  refine Coupled.ite Iff.rfl (fun _ => coupled_pure rfl) fun _ => ?_
  cases query with
  | none => exact coupled_pure rfl
  | some items =>
      refine Coupled.ite Iff.rfl (fun _ => coupled_pure rfl) fun _ => ?_
      refine Coupled.ite Iff.rfl (fun _ => coupled_pure rfl) fun _ => ?_
      refine Coupled.bind (pageLoop_tied chip _ (fun h => parseQuery_same readAlg_same h _ _) _ _ rfl rfl) ?_ ?_ ?_
      · rintro r _ rfl
        exact coupled_pure rfl
      all_goals exact fun r => extends_pure _

theorem tpmGetcapQueryPcrs_tied (chip : Option ChipData) (query : Option (List TpmPcrBankQuery)) :
    Coupled Agree Same Eq (tpmGetcapQueryPcrs (traced interface) stack chip query)
      (tpmGetcapQueryPcrs (traced interface') stack' chip query) := by
  refine Coupled.ite Iff.rfl (fun _ => coupled_pure rfl) fun _ => ?_
  cases query with
  | none => exact coupled_pure rfl
  | some items =>
      refine Coupled.ite Iff.rfl (fun _ => coupled_pure rfl) fun _ => ?_
      refine Coupled.ite Iff.rfl (fun _ => coupled_pure rfl) fun _ => ?_
      refine Coupled.bind (pageLoop_tied chip _ (fun h => parseQuery_same readBank_same h _ _) _ _ rfl rfl) ?_ ?_ ?_
      · rintro r _ rfl
        exact coupled_pure rfl
      all_goals exact fun r => extends_pure _

theorem tpmHasAlg_tied (chip : Option ChipData) (algId : UInt16) (outSupported : Option Bool) :
    Coupled Agree Same Eq (tpmHasAlg (traced interface) stack chip algId outSupported)
      (tpmHasAlg (traced interface') stack' chip algId outSupported) := by
  refine Coupled.ite Iff.rfl (fun _ => coupled_pure rfl) fun _ => ?_
  refine Coupled.bind (tpmGetcapQueryAlgs_tied stack stack' chip _) ?_ ?_ ?_
  · rintro ⟨ret, item⟩ _ rfl
    exact Coupled.ite Iff.rfl (fun _ => coupled_pure rfl) fun _ => coupled_pure rfl
  all_goals exact fun r => .ite (extends_pure _) (extends_pure _)

theorem tpmGetAlgProps_tied (chip : Option ChipData) (algId : UInt16) (out : Option AlgPropsOut) :
    Coupled Agree Same Eq (tpmGetAlgProps (traced interface) stack chip algId out)
      (tpmGetAlgProps (traced interface') stack' chip algId out) := by
  refine Coupled.ite Iff.rfl (fun _ => coupled_pure rfl) fun _ => ?_
  refine Coupled.bind (getcapRaw_tied chip _ _ _ _ _ _ _) ?_ ?_ ?_
  · rintro ⟨ret, resp, more⟩ ⟨ret', resp', more'⟩ ⟨hret, hpage⟩
    dsimp only at hret hpage
    subst hret
    refine Coupled.ite Iff.rfl (fun _ => coupled_pure rfl) fun h => ?_
    obtain ⟨hsim, rfl⟩ := hpage (not_not.mp h)
    obtain ⟨hstart, hiter⟩ := hsim.payloadStart tpmCapAlgs
    obtain ⟨-, hiter⟩ := hiter.readU32Be 0
    obtain ⟨halg, hiter⟩ := hiter.readU16Be tpmAlgNull
    obtain ⟨hprops, hiter⟩ := hiter.readU32Be 0
    dsimp only
    rw [hstart, halg, hprops, hiter.errorState]
    refine Coupled.ite Iff.rfl (fun _ => coupled_pure rfl) fun _ => ?_
    refine Coupled.ite Iff.rfl (fun _ => coupled_pure rfl) fun _ => ?_
    exact Coupled.ite Iff.rfl (fun _ => coupled_pure rfl) fun _ => coupled_pure rfl
  all_goals
    exact fun r => .ite (extends_pure _) (.ite (extends_pure _) (.ite (extends_pure _)
      (.ite (extends_pure _) (extends_pure _))))

theorem tpmForEachAlgProps_tied (chip : Option ChipData) (mustSetMask mustClearMask : UInt32)
    (cb : Option (UInt16 → UInt32 → σ → Bool × σ)) (ctx : σ) :
    Coupled Agree Same Eq (tpmForEachAlgProps (traced interface) stack chip mustSetMask mustClearMask cb ctx)
      (tpmForEachAlgProps (traced interface') stack' chip mustSetMask mustClearMask cb ctx) := by
  refine Coupled.ite Iff.rfl (fun _ => coupled_pure rfl) fun _ => ?_
  cases cb with
  | none => exact coupled_pure rfl
  | some cb => exact pageLoop_tied chip _ (fun h => parseFind_same readAlg_same h _ _) _ _ rfl rfl

theorem tpmForEachPcrBank_tied (chip : Option ChipData)
    (cb : Option (UInt16 → List UInt8 → UInt8 → σ → Bool × σ)) (ctx : σ) :
    Coupled Agree Same Eq (tpmForEachPcrBank (traced interface) stack chip cb ctx)
      (tpmForEachPcrBank (traced interface') stack' chip cb ctx) := by
  refine Coupled.ite Iff.rfl (fun _ => coupled_pure rfl) fun _ => ?_
  cases cb with
  | none => exact coupled_pure rfl
  | some cb => exact pageLoop_tied chip _ (fun h => parseFind_same readBank_same h _ _) _ _ rfl rfl

/-- Two runs in which the transport behaves the same up to undeclared bytes send
the same commands and come to the same value. -/
def SameRuns (p : Proc (W × List Transfer) α) (p' : Proc (W' × List Transfer) α) : Prop :=
  ∀ w w', Compatible Agree (p (w, [])).2.2 (p' (w', [])).2.2 →
    commandsSent (p (w, [])).2.2 = commandsSent (p' (w', [])).2.2 ∧ (p (w, [])).1 = (p' (w', [])).1

omit [Host] in
theorem commandsSent_same {log log' : List Transfer} (h : List.Forall₂ Same log log') :
    commandsSent log = commandsSent log' := by
  induction h with
  | nil => rfl
  | cons he _ ih =>
      cases he with
      | sent cmd ret => exact congrArg (cmd :: ·) ih
      | received result result' => exact ih

theorem sameRuns_of_coupled {p : Proc (W × List Transfer) α} {p' : Proc (W' × List Transfer) α}
    (h : Coupled Agree Same Eq p p') : SameRuns p p' := by
  intro w w' hc
  obtain ⟨hlog, hvalue⟩ := h (w, []) (w', []) .nil hc
  refine ⟨commandsSent_same hlog, ?_⟩
  generalize (p (w, [])).1 = o, (p' (w', [])).1 = o' at hvalue ⊢
  cases hvalue with
  | some h => exact congrArg some h
  | none => rfl

variable (interface interface')

/-- No command, no callback call and no result of a public function depends on
bytes that a response does not declare. -/
theorem calls_depend_on_declared (chip : ChipData) (chipPtr : Option ChipData) (stack stack' : TpmCmd) :
    (∀ mode, SameRuns (tpmStartup (traced interface) chip mode) (tpmStartup (traced interface') chip mode)) ∧
    (∀ index algorithm digest digestLen,
      SameRuns (tpmPcrExtend (traced interface) chip index algorithm digest digestLen)
        (tpmPcrExtend (traced interface') chip index algorithm digest digestLen)) ∧
    (∀ index algorithm pcrDigestRead,
      SameRuns (tpmPcrReadSingle (traced interface) stack chip index algorithm pcrDigestRead)
        (tpmPcrReadSingle (traced interface') stack' chip index algorithm pcrDigestRead)) ∧
    (∀ password passwordLen banks out,
      SameRuns (tpmPcrAllocateAuthPassword (traced interface) chipPtr password passwordLen banks out)
        (tpmPcrAllocateAuthPassword (traced interface') chipPtr password passwordLen banks out)) ∧
    (∀ query, SameRuns (tpmGetcapQueryAlgs (traced interface) stack chipPtr query)
      (tpmGetcapQueryAlgs (traced interface') stack' chipPtr query)) ∧
    (∀ query, SameRuns (tpmGetcapQueryPcrs (traced interface) stack chipPtr query)
      (tpmGetcapQueryPcrs (traced interface') stack' chipPtr query)) ∧
    (∀ algId out, SameRuns (tpmHasAlg (traced interface) stack chipPtr algId out)
      (tpmHasAlg (traced interface') stack' chipPtr algId out)) ∧
    (∀ algId out, SameRuns (tpmGetAlgProps (traced interface) stack chipPtr algId out)
      (tpmGetAlgProps (traced interface') stack' chipPtr algId out)) ∧
    (∀ mustSetMask mustClearMask (cb : Option (UInt16 → UInt32 → σ → Bool × σ)) ctx,
      SameRuns (tpmForEachAlgProps (traced interface) stack chipPtr mustSetMask mustClearMask cb ctx)
        (tpmForEachAlgProps (traced interface') stack' chipPtr mustSetMask mustClearMask cb ctx)) ∧
    (∀ (cb : Option (UInt16 → List UInt8 → UInt8 → σ → Bool × σ)) ctx,
      SameRuns (tpmForEachPcrBank (traced interface) stack chipPtr cb ctx)
        (tpmForEachPcrBank (traced interface') stack' chipPtr cb ctx)) := by
  refine ⟨?_, ?_, ?_, ?_, ?_, ?_, ?_, ?_, ?_, ?_⟩
  · exact fun mode => sameRuns_of_coupled (tpmStartup_tied chip mode)
  · exact fun index algorithm digest len => sameRuns_of_coupled (tpmPcrExtend_tied chip index algorithm digest len)
  · exact fun index algorithm buf => sameRuns_of_coupled (tpmPcrReadSingle_tied stack stack' chip index algorithm buf)
  · exact fun password len banks out =>
      sameRuns_of_coupled (tpmPcrAllocateAuthPassword_tied chipPtr password len banks out)
  · exact fun query => sameRuns_of_coupled (tpmGetcapQueryAlgs_tied stack stack' chipPtr query)
  · exact fun query => sameRuns_of_coupled (tpmGetcapQueryPcrs_tied stack stack' chipPtr query)
  · exact fun algId out => sameRuns_of_coupled (tpmHasAlg_tied stack stack' chipPtr algId out)
  · exact fun algId out => sameRuns_of_coupled (tpmGetAlgProps_tied stack stack' chipPtr algId out)
  · exact fun mustSet mustClear cb ctx =>
      sameRuns_of_coupled (tpmForEachAlgProps_tied stack stack' chipPtr mustSet mustClear cb ctx)
  · exact fun cb ctx => sameRuns_of_coupled (tpmForEachPcrBank_tied stack stack' chipPtr cb ctx)

end Runs

def twoAlgsAnd (junk : List UInt8) : List UInt8 :=
  [0x80, 1, 0, 0, 0, 31, 0, 0, 0, 0, 0, 0, 0, 0, 0, 0, 0, 0, 2, 0, 4, 0, 0, 0, 4, 0, 11, 0, 0, 0, 4] ++ junk

def untidyTpm (junk : List UInt8) : Interface (List UInt8) := @replying littleHost fun _ => twoAlgsAnd junk

/-- The lookup of SHA-256 in that page, with these bytes on the stack before. -/
def lookupAfter (junk : List UInt8) : Proc (List UInt8 × List Transfer) (Int × Option Bool) :=
  @tpmHasAlg littleHost _ (traced (untidyTpm junk)) (TpmCmd.zero.setBytes 0 junk) (some tpmChipData) 0x000B (some false)

def responses (log : List Transfer) : List TpmCmd :=
  log.filterMap fun | .received (some r) => some r.2 | _ => none

theorem lookups_compatible : Compatible (@Agree littleHost) (lookupAfter [] ([], [])).2.2
    (lookupAfter (List.replicate 225 0xAA) ([], [])).2.2 := Compatible.of_forall₂ (by decide +kernel)

theorem calls_depend_on_declared_junk :
    let run := lookupAfter [] ([], [])
    let run' := lookupAfter (List.replicate 225 0xAA) ([], [])
    responses run.2.2 ≠ responses run'.2.2 ∧ commandsSent run.2.2 = commandsSent run'.2.2 ∧ run.1 = run'.1 ∧
      run.1 = some (tpmSuccess, some true) := by
  obtain ⟨-, -, -, -, -, -, hlookup, -⟩ := @calls_depend_on_declared (List UInt8) (List UInt8) Unit littleHost
    (untidyTpm []) (untidyTpm (List.replicate 225 0xAA)) tpmChipData (some tpmChipData)
    (TpmCmd.zero.setBytes 0 []) (TpmCmd.zero.setBytes 0 (List.replicate 225 0xAA))
  have hruns : @SameRuns _ _ _ littleHost (lookupAfter []) (lookupAfter (List.replicate 225 0xAA)) :=
    hlookup 0x000B (some false)
  obtain ⟨hcommands, hvalue⟩ := hruns [] [] lookups_compatible
  exact ⟨by decide +kernel, hcommands, hvalue, by decide +kernel⟩

end LibTpm.DeclaredBytes
