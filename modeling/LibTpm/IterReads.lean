import LibTpm.Appends
import LibTpm.Iterator

namespace LibTpm.IterReads

open LibTpm.Base.BigEndian LibTpm.Base.Sticky LibTpm.Command LibTpm.Constants LibTpm.Endian LibTpm.Builder
open LibTpm.CommandBytes LibTpm.Appends LibTpm.Iterator

inductive Read
  | u8 (out : UInt8)
  | u16 (out : UInt16)
  | u32 (out : UInt32)
  | ptr (len : Nat) (out : List UInt8)
  deriving DecidableEq, Repr

def Read.width : Read → Nat
  | .u8 _ => 1
  | .u16 _ => 2
  | .u32 _ => 4
  | .ptr len _ => len

def Read.apply (iter : TpmBufIter) : Read → Int × Read × TpmBufIter
  | .u8 out => ((iterReadU8 iter out).1, .u8 (iterReadU8 iter out).2.1, (iterReadU8 iter out).2.2)
  | .u16 out => ((iterReadU16Be iter out).1, .u16 (iterReadU16Be iter out).2.1, (iterReadU16Be iter out).2.2)
  | .u32 out => ((iterReadU32Be iter out).1, .u32 (iterReadU32Be iter out).2.1, (iterReadU32Be iter out).2.2)
  | .ptr len out =>
      ((iterReadPtr len iter out).1, .ptr len (iterReadPtr len iter out).2.1, (iterReadPtr len iter out).2.2)

def Read.decode (p : List UInt8) : Read → Read
  | .u8 _ => .u8 (p.getD 0 0)
  | .u16 _ => .u16 (of16 (p.getD 0 0) (p.getD 1 0))
  | .u32 _ => .u32 (of32 (p.getD 0 0) (p.getD 1 0) (p.getD 2 0) (p.getD 3 0))
  | .ptr len _ => .ptr len p

/-- The offsets from the position at which a call that fits loads a byte. A
pointer that is handed out is not followed. -/
def Read.loaded : Read → List Nat
  | .u8 _ => [0]
  | .u16 _ => [0, 1]
  | .u32 _ => [0, 1, 2, 3]
  | .ptr _ _ => []

def Read.loads (iter : TpmBufIter) (r : Read) : List Nat :=
  if iter.errorState ≠ .success ∨ iter.remain < r.width then [] else r.loaded

variable {iter : TpmBufIter} {r : Read}

theorem iterRead_map {α β : Type} (f : α → β) (n : Nat) (decode : List UInt8 → α) (iter : TpmBufIter) (out : α) :
    iterRead n (fun p => f (decode p)) iter (f out) =
      ((iterRead n decode iter out).1, f (iterRead n decode iter out).2.1, (iterRead n decode iter out).2.2) := by
  by_cases herr : iter.errorState = .success
  · rcases Nat.lt_or_ge iter.remain n with hn | hn
    · rw [iterRead_short herr hn, iterRead_short herr hn]
    · rw [iterRead_fits herr hn, iterRead_fits herr hn]
  · rw [iterRead_error herr, iterRead_error herr]

theorem Read.apply_eq (iter : TpmBufIter) (r : Read) :
    r.apply iter = iterRead r.width (fun p => r.decode p) iter r := by
  cases r with
  | u8 out => exact (iterRead_map Read.u8 1 _ iter out).symm
  | u16 out => exact (iterRead_map Read.u16 2 _ iter out).symm
  | u32 out => exact (iterRead_map Read.u32 4 _ iter out).symm
  | ptr len out => exact (iterRead_map (Read.ptr len) len _ iter out).symm

/-- The output of a call depends on the bytes that it loads, and on no other. -/
theorem Read.apply_loads {p q : List UInt8} {remain : Nat} {err : TpmRetValue}
    (hloads : ∀ i ∈ r.loads ⟨p, remain, err⟩, p.getD i 0 = q.getD i 0) (hr : ∀ len out, r ≠ .ptr len out) :
    (r.apply ⟨p, remain, err⟩).1 = (r.apply ⟨q, remain, err⟩).1 ∧
      (r.apply ⟨p, remain, err⟩).2.1 = (r.apply ⟨q, remain, err⟩).2.1 := by
  rw [Read.apply_eq, Read.apply_eq]
  by_cases herr : err = .success
  · subst herr
    rcases Nat.lt_or_ge remain r.width with hn | hn
    · rw [iterRead_short rfl hn, iterRead_short rfl hn]
      exact ⟨rfl, rfl⟩
    · rw [iterRead_fits rfl hn, iterRead_fits rfl hn]
      have hall : ¬ (TpmRetValue.success ≠ .success ∨ remain < r.width) :=
        not_or_intro (not_not.mpr rfl) (not_lt.mpr hn)
      rw [Read.loads, if_neg hall] at hloads
      refine ⟨rfl, ?_⟩
      cases r with
      | ptr len out => exact absurd rfl (hr len out)
      | u8 out => exact congrArg Read.u8 (hloads 0 (by simp [Read.loaded]))
      | u16 out =>
          have h0 := hloads 0 (by simp [Read.loaded])
          have h1 := hloads 1 (by simp [Read.loaded])
          dsimp only [Read.decode]
          rw [h0, h1]
      | u32 out =>
          have h0 := hloads 0 (by simp [Read.loaded])
          have h1 := hloads 1 (by simp [Read.loaded])
          have h2 := hloads 2 (by simp [Read.loaded])
          have h3 := hloads 3 (by simp [Read.loaded])
          dsimp only [Read.decode]
          rw [h0, h1, h2, h3]
  · rw [iterRead_error herr, iterRead_error herr]
    exact ⟨rfl, rfl⟩

def step (iter : TpmBufIter) (r : Read) : TpmBufIter := (r.apply iter).2.2

def run (iter : TpmBufIter) (reads : List Read) : TpmBufIter := reads.foldl step iter

def totalWidth (reads : List Read) : Nat := (reads.map Read.width).sum

/-- The index of the first call that does not fit in `n` bytes, or the number of calls. -/
def firstShort (n : Nat) (reads : List Read) : Nat :=
  cut (fun used (r : Read) => used + r.width ≤ n) (fun used r => used + r.width) 0 reads

theorem foldl_width (reads : List Read) (used : Nat) :
    reads.foldl (fun used r => used + r.width) used = used + totalWidth reads := by
  induction reads generalizing used with
  | nil => rfl
  | cons r reads ih =>
      rw [List.foldl_cons, ih, Nat.add_assoc]
      rfl

structure Consumed (memory : List UInt8) (n used : Nat) (iter : TpmBufIter) : Prop where
  ok : iter.errorState = .success
  ptr : iter.ptr = memory.drop used
  remain : used + iter.remain = n

variable {memory : List UInt8} {n used : Nat}

theorem Consumed.fits (h : Consumed memory n used iter) (hr : used + r.width ≤ n) :
    r.apply iter = (tpmSuccess, r.decode (memory.drop used),
      ⟨memory.drop (used + r.width), n - (used + r.width), .success⟩) := by
  have hremain := h.remain
  rw [Read.apply_eq, iterRead_fits h.ok (by omega), h.ok, h.ptr, List.drop_drop, ← hremain, Nat.add_sub_add_left]

theorem Consumed.short (h : Consumed memory n used iter) (hr : ¬ used + r.width ≤ n) :
    r.apply iter = (tpmErrResponse, r, { iter with errorState := .errResponse }) := by
  have hremain := h.remain
  rw [Read.apply_eq, iterRead_short h.ok (by omega)]

theorem apply_error (h : iter.errorState = .errResponse) : r.apply iter = (tpmErrResponse, r, iter) := by
  have hne : iter.errorState ≠ .success := by
    rw [h]
    decide
  rw [Read.apply_eq, iterRead_error hne, h]

theorem latches (memory : List UInt8) (n : Nat) :
    Latches (fun used (r : Read) => used + r.width ≤ n) (fun used r => used + r.width) step
      (fun iter => (iter.ptr, iter.remain)) (Consumed memory n) (fun iter => iter.errorState = .errResponse) where
  accept h hr := by
    rw [step, h.fits hr]
    exact ⟨rfl, rfl, Nat.add_sub_cancel' hr⟩
  refuse h hr := by
    rw [step, h.short hr]
    exact ⟨rfl, rfl⟩
  stay h := by
    rw [step, apply_error h]
    exact ⟨h, rfl⟩

theorem Read.lt_width : ∀ i ∈ r.loaded, i < r.width := by
  cases r <;> simp [Read.loaded, Read.width]

theorem Consumed.loads (h : Consumed memory n used iter) : ∀ i ∈ r.loads iter, used + i < n := by
  intro i hi
  rw [Read.loads] at hi
  split at hi
  · exact absurd hi List.not_mem_nil
  next hfits =>
    rw [not_or, not_lt] at hfits
    have hremain := h.remain
    have hlt := Read.lt_width i hi
    omega

theorem loads_error (h : iter.errorState = .errResponse) : r.loads iter = [] := by
  have hne : iter.errorState ≠ .success := by
    rw [h]
    decide
  exact if_pos (.inl hne)

/-- Whatever lies behind the buffer, the calls before the first that does not
fit succeed and load bytes of the buffer only; that call and all after it fail
without effect. -/
def StaysInside (buf rest : List UInt8) (reads : List Read) : Prop :=
  let k := firstShort buf.length reads
  let iter := fun j => run ⟨buf ++ rest, buf.length, .success⟩ (reads.take j)
  ((∀ j r, j < k → reads[j]? = some r → totalWidth (reads.take j) + r.width ≤ buf.length) ∧ k ≤ reads.length ∧
    ∀ r, reads[k]? = some r → ¬ totalWidth (reads.take k) + r.width ≤ buf.length) ∧
  ∀ j, (iter j).ptr = (buf ++ rest).drop (totalWidth (reads.take (min j k))) ∧
    totalWidth (reads.take (min j k)) + (iter j).remain = buf.length ∧
    ∀ r, reads[j]? = some r →
      (∀ i ∈ r.loads (iter j), totalWidth (reads.take (min j k)) + i < buf.length) ∧
      (j < k → (r.apply (iter j)).1 = tpmSuccess) ∧
      (k ≤ j → (r.apply (iter j)).1 = tpmErrResponse ∧ (r.apply (iter j)).2.1 = r ∧
        (step (iter j) r).ptr = (iter j).ptr ∧ (step (iter j) r).remain = (iter j).remain)

theorem reads_inside (buf rest : List UInt8) (reads : List Read) : StaysInside buf rest reads := by
  unfold StaysInside
  intro k iter
  have hstart : Consumed (buf ++ rest) buf.length 0 ⟨buf ++ rest, buf.length, .success⟩ :=
    ⟨rfl, rfl, Nat.zero_add _⟩
  have hwidth (j : Nat) : (reads.take j).foldl (fun used r => used + r.width) 0 = totalWidth (reads.take j) := by
    rw [foldl_width, Nat.zero_add]
  have hlive (j : Nat) (hj : j ≤ k) : Consumed (buf ++ rest) buf.length (totalWidth (reads.take j)) (iter j) := by
    rw [← hwidth]
    exact (latches _ _).live_take hstart hj
  have hfits (j : Nat) (r : Read) (hj : j < k) (hr : reads[j]? = some r) :
      totalWidth (reads.take j) + r.width ≤ buf.length := by
    rw [← hwidth]
    exact fits_of_lt_cut hj hr
  have hshort (r : Read) (hr : reads[k]? = some r) : ¬ totalWidth (reads.take k) + r.width ≤ buf.length := by
    rw [← hwidth]
    exact not_fits_cut hr
  refine ⟨⟨hfits, cut_le 0 reads, hshort⟩, ?_⟩
  intro j
  rcases lt_trichotomy j k with hj | hj | hj
  · have h := hlive j (Nat.le_of_lt hj)
    rw [Nat.min_eq_left (Nat.le_of_lt hj)]
    refine ⟨h.ptr, h.remain, fun r hr => ⟨h.loads, fun _ => ?_, fun hk => absurd hj (not_lt.mpr hk)⟩⟩
    rw [h.fits (hfits j r hj hr)]
  · subst hj
    have h := hlive k (Nat.le_refl k)
    rw [Nat.min_self]
    refine ⟨h.ptr, h.remain, fun r hr => ⟨h.loads, fun hk => absurd hk (Nat.lt_irrefl k), fun _ => ?_⟩⟩
    rw [step, h.short (hshort r hr)]
    exact ⟨rfl, rfl, rfl, rfl⟩
  · have h := hlive k (Nat.le_refl k)
    have hseen : ((iter j).ptr, (iter j).remain) = ((iter k).ptr, (iter k).remain) :=
      (latches _ _).seen_take hstart (Nat.le_of_lt hj)
    rw [Prod.mk.injEq] at hseen
    rw [Nat.min_eq_right (Nat.le_of_lt hj), hseen.1, hseen.2]
    refine ⟨h.ptr, h.remain, fun r hr => ?_⟩
    have hlen : j < reads.length := (List.getElem?_eq_some_iff.mp hr).1
    have hdead : (iter j).errorState = .errResponse :=
      ((latches _ _).dead_take hstart hj (Nat.lt_trans hj hlen)).1
    rw [loads_error hdead, step, apply_error hdead]
    exact ⟨fun i hi => absurd hi List.not_mem_nil, fun hk => absurd hk (Nat.not_lt.mpr (Nat.le_of_lt hj)),
      fun _ => ⟨rfl, rfl, hseen.1, hseen.2⟩⟩

inductive SameWidth : Append → Read → Prop
  | u8 (x : UInt32) (out : UInt8) : SameWidth ⟨x, 1⟩ (.u8 out)
  | u16 (x : UInt32) (out : UInt16) : SameWidth ⟨x, 2⟩ (.u16 out)
  | u32 (x : UInt32) (out : UInt32) : SameWidth ⟨x, 4⟩ (.u32 out)

def truncated (c : Append) : Read :=
  match c.newLen with
  | 1 => .u8 c.newData.toUInt8
  | 2 => .u16 c.newData.toUInt16
  | _ => .u32 c.newData

def results (iter : TpmBufIter) : List Read → List (Int × Read)
  | [] => []
  | r :: reads => ((r.apply iter).1, (r.apply iter).2.1) :: results (step iter r) reads

theorem SameWidth.apply {c : Append} (h : SameWidth c r) (hn : c.newLen ≤ n) (rest : List UInt8) :
    r.apply ⟨c.bytes ++ rest, n, .success⟩ = (tpmSuccess, truncated c, ⟨rest, n - c.newLen, .success⟩) := by
  cases h with
  | u8 x out =>
      rw [Append.bytes, lowBytes_one, Read.apply, List.singleton_append, iterReadU8_cons rest _ hn]
      rfl
  | u16 x out =>
      rw [Append.bytes, lowBytes_two, Read.apply, iterReadU16Be_be16 rest _ hn]
      rfl
  | u32 x out =>
      rw [Append.bytes, lowBytes_four, Read.apply, iterReadU32Be_be32 rest _ hn]
      rfl

theorem reads_payload {fields : List Append} {reads : List Read} (h : List.Forall₂ SameWidth fields reads)
    (n : Nat) (rest : List UInt8) :
    let iter : TpmBufIter := ⟨payloadOf fields ++ rest, (payloadOf fields).length + n, .success⟩
    results iter reads = fields.map (fun c => (tpmSuccess, truncated c)) ∧ run iter reads = ⟨rest, n, .success⟩ := by
  induction h with
  | nil => exact ⟨rfl, by rw [payloadOf, List.flatMap_nil, List.length_nil, Nat.zero_add]; rfl⟩
  | @cons c r fields reads hc _ ih =>
      have hpayload : payloadOf (c :: fields) = c.bytes ++ payloadOf fields := rfl
      have hbytes : c.bytes.length = c.newLen := length_lowBytes c.newData c.newLen
      have hlen : (payloadOf (c :: fields)).length + n = c.newLen + ((payloadOf fields).length + n) := by
        rw [hpayload, List.length_append, hbytes, Nat.add_assoc]
      have hfirst := hc.apply (Nat.le_add_right c.newLen ((payloadOf fields).length + n)) (payloadOf fields ++ rest)
      rw [Nat.add_sub_cancel_left] at hfirst
      rw [hlen, hpayload, List.append_assoc]
      dsimp only [results, run, List.foldl_cons, step, List.map_cons]
      rw [hfirst]
      obtain ⟨hresults, hrun⟩ := ih
      exact ⟨congrArg _ hresults, hrun⟩

section RoundTrip

variable [Host]

def dataIter (cmd : TpmCmd) : TpmBufIter :=
  ⟨cmd.bytes.drop tpmHeaderSize, (be32toh cmd.cmdSize).toNat - tpmHeaderSize, .success⟩

theorem dataIter_live {tag : UInt16} {code : UInt32} {payload : List UInt8} {builder : TpmCmdBuilder}
    (h : Live tag code payload builder) : ∃ rest, dataIter builder.cmd = ⟨payload ++ rest, payload.length, .success⟩ := by
  refine ⟨List.replicate (maxSizeCmdbuf - (tpmHeaderSize + payload.length)) 0, ?_⟩
  rw [dataIter, h.size, Nat.add_sub_cancel_left, h.bytes]
  rfl

/-- What the builder has appended is read back with reads of the same widths,
and nothing is left. -/
def ReadsBack (tag : UInt16) (code : UInt32) (fields : List Append) (reads : List Read) : Prop :=
  let iter := dataIter (Appends.run (tpmCmdInit tag code) fields).cmd
  results iter reads = fields.map (fun c => (tpmSuccess, truncated c)) ∧ (run iter reads).remain = 0

theorem fields_read_back {tag : UInt16} {code : UInt32} {fields : List Append} {reads : List Read}
    (hreads : List.Forall₂ SameWidth fields reads)
    (hok : tpmBuilderFinalize (Appends.run (tpmCmdInit tag code) fields) = tpmSuccess) :
    ReadsBack tag code fields reads := by
  obtain ⟨rest, hiter⟩ := dataIter_live (live_of_finalize hok)
  obtain ⟨hresults, hrun⟩ := reads_payload hreads 0 rest
  rw [Nat.add_zero] at hresults hrun
  rw [ReadsBack, hiter, hrun]
  exact ⟨hresults, rfl⟩

/-- Decoding undoes encoding, and no sequence of reads leaves its buffer. -/
theorem iterator_inverts_builder :
    (∀ (tag : UInt16) (code : UInt32) (fields : List Append) (reads : List Read),
      List.Forall₂ SameWidth fields reads →
      tpmBuilderFinalize (Appends.run (tpmCmdInit tag code) fields) = tpmSuccess →
      ReadsBack tag code fields reads) ∧
    ∀ (buf rest : List UInt8) (reads : List Read), StaysInside buf rest reads :=
  ⟨fun _ _ _ _ => fields_read_back, reads_inside⟩

end RoundTrip

/-- One field of each width. -/
theorem iterator_inverts_builder_fields :
    letI := littleHost
    ReadsBack 0x8001 0x17A [⟨0x1234567F, 1⟩, ⟨0x10ABCD, 2⟩, ⟨0xDEADBEEF, 4⟩] [.u8 0, .u16 0, .u32 0] ∧
      StaysInside [1, 2, 3] [4, 5] [.u16 0, .u32 0, .u8 0] := by
  let _ := littleHost
  have hreads : List.Forall₂ SameWidth [⟨0x1234567F, 1⟩, ⟨0x10ABCD, 2⟩, ⟨0xDEADBEEF, 4⟩] [.u8 0, .u16 0, .u32 0] :=
    .cons (.u8 _ _) (.cons (.u16 _ _) (.cons (.u32 _ _) .nil))
  exact ⟨iterator_inverts_builder.1 _ _ _ _ hreads (by decide +kernel), iterator_inverts_builder.2 _ _ _⟩

end LibTpm.IterReads
