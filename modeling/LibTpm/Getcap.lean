import LibTpm.Builder
import LibTpm.Iterator

namespace LibTpm.Getcap

open LibTpm.Base.Process LibTpm.Command LibTpm.Constants LibTpm.Endian LibTpm.Platform
open LibTpm.Builder LibTpm.Iterator

structure TpmAlgQuery where
  algId : UInt16
  enabled : Bool
  deriving DecidableEq, Repr

structure TpmPcrBankQuery where
  hashAlg : UInt16
  pcrSelect : Vector UInt8 tpmPcrSelectSize.toNat
  deriving DecidableEq

variable [Host]

def getcapPayloadStart (resp : TpmCmd) (expectedCap : UInt32) (iter : TpmBufIter) :
    Int × TpmBufIter :=
  let respSize := (be32toh resp.cmdSize).toNat
  if respSize < tpmHeaderSize ∨ respSize > maxSizeCmdbuf then (tpmErrResponse, iter)
  else
    let iter := { iter with ptr := resp.bytes.drop tpmHeaderSize, remain := respSize - tpmHeaderSize }
    let (_, _, iter) := iterReadU8 iter 0
    let (_, cap, iter) := iterReadU32Be iter 0
    if iter.errorState ≠ .success then (iter.errorState.code, iter)
    else if cap ≠ expectedCap then (tpmErrResponse, iter)
    else (tpmSuccess, iter)

def getcapCommand (capability property propertyCount : UInt32) : TpmCmdBuilder :=
  let builder := tpmCmdInit tpmStNoSessions tpmCmdGetCapability
  let builder := append builder capability 4
  let builder := append builder property 4
  append builder propertyCount 4

def getcapRaw {W : Type} (interface : Interface W) (chip : Option ChipData)
    (capability property propertyCount : UInt32) (respOut : TpmCmd) (moreDataOut : Bool) :
    Proc W (Int × TpmCmd × Bool) := do
  let some chip := chip | return (tpmInvalidParam, respOut, moreDataOut)
  let builder := getcapCommand capability property propertyCount
  if tpmBuilderFinalize builder < 0 then
    return (tpmBuilderFinalize builder, TpmCmd.zero, moreDataOut)
  let (ret, resp) ← tpmXfer interface chip builder.cmd TpmCmd.zero
  if ret < 0 then return (ret, resp, moreDataOut)
  if be16toh resp.tag ≠ tpmStNoSessions then return (tpmErrResponse, resp, moreDataOut)
  if be32toh resp.cmdCode ≠ tpmResponseSuccess then return (tpmErrResponse, resp, moreDataOut)
  let respSize := (be32toh resp.cmdSize).toNat
  if respSize < tpmHeaderSize + 1 ∨ respSize > maxSizeCmdbuf then
    return (tpmErrResponse, resp, moreDataOut)
  return (tpmSuccess, resp, resp.data 0 ≠ 0)

def freshIter : TpmBufIter := ⟨[], 0, .success⟩

structure AlgEntry where
  id : UInt16
  props : UInt32
  deriving DecidableEq, Repr

/-- A decoded element of TPML_PCR_SELECTION. The octets are those that the
pointer and the length of the source denote. -/
structure PcrEntry where
  id : UInt16
  sizeofSelect : UInt8
  select : List UInt8
  deriving DecidableEq, Repr

def readAlg (iter : TpmBufIter) : Except Int (AlgEntry × TpmBufIter) :=
  let (_, alg, iter) := iterReadU16Be iter 0
  let (_, props, iter) := iterReadU32Be iter 0
  if iter.errorState ≠ .success then .error iter.errorState.code
  else .ok (⟨alg, props⟩, iter)

def readBank (iter : TpmBufIter) : Except Int (PcrEntry × TpmBufIter) :=
  let (_, hash, iter) := iterReadU16Be iter 0
  let (_, sizeofSelect, iter) := iterReadU8 iter 0
  if iter.errorState ≠ .success then .error iter.errorState.code
  else if sizeofSelect > tpmPcrSelectSize then .error tpmErrResponse
  else
    let (_, pcrSelect, iter) := iterReadPtr sizeofSelect.toNat iter []
    if iter.errorState ≠ .success then .error iter.errorState.code
    else .ok (⟨hash, sizeofSelect, pcrSelect.take sizeofSelect.toNat⟩, iter)

/-- The state of an entry loop: the iterator, the last id, the number of
entries parsed, and what the entries were delivered to. -/
structure EntryState (σ : Type) where
  iter : TpmBufIter
  last : UInt16
  parsedCount : UInt32
  out : σ

inductive LoopExit
  | failed (ret : Int)
  | accepted
  | finished
  deriving DecidableEq, Repr

section EntryLoop

variable {ε σ : Type}

/-- The entry loop of the four parsers, for the remaining count. A visit that
returns true leaves the loop. -/
def entryLoop (readEntry : TpmBufIter → Except Int (ε × TpmBufIter)) (id : ε → UInt16)
    (visit : ε → σ → Bool × σ) : Nat → EntryState σ → LoopExit × EntryState σ
  | 0, st => (.finished, st)
  | n + 1, st =>
      match readEntry st.iter with
      | .error ret => (.failed ret, st)
      | .ok (e, iter) =>
          let (found, out) := visit e st.out
          let st : EntryState σ := ⟨iter, id e, st.parsedCount + 1, out⟩
          if found then (.accepted, st) else entryLoop readEntry id visit n st

/-- The out-parameters of a parser, which hold what the caller put there until
the parser writes them. -/
structure ParseOut (σ : Type) where
  out : σ
  parsedCount : UInt32
  last : UInt16
  found : Bool

/-- parse_algs and parse_pcrs: the count and the last id are written on success only. -/
def parseQuery (cap : UInt32) (readEntry : TpmBufIter → Except Int (ε × TpmBufIter))
    (id : ε → UInt16) (mark : ε → σ → σ) (resp : TpmCmd) (po : ParseOut σ) : Int × ParseOut σ :=
  let (ret, iter) := getcapPayloadStart resp cap freshIter
  if ret ≠ tpmSuccess then (ret, po)
  else
    let (_, count, iter) := iterReadU32Be iter 0
    match entryLoop readEntry id (fun e s => (false, mark e s)) count.toNat ⟨iter, 0, 0, po.out⟩ with
    | (.failed ret, st) => (ret, { po with out := st.out })
    | (_, st) =>
        if st.iter.errorState ≠ .success then (st.iter.errorState.code, { po with out := st.out })
        else (tpmSuccess, { po with out := st.out, parsedCount := st.parsedCount, last := st.last })

/-- parse_algs_find and parse_pcrs_find: the last id is written at each entry. -/
def parseFind (cap : UInt32) (readEntry : TpmBufIter → Except Int (ε × TpmBufIter))
    (id : ε → UInt16) (visit : ε → σ → Bool × σ) (resp : TpmCmd) (po : ParseOut σ) :
    Int × ParseOut σ :=
  let (ret, iter) := getcapPayloadStart resp cap freshIter
  if ret ≠ tpmSuccess then (ret, po)
  else
    let (_, count, iter) := iterReadU32Be iter 0
    match entryLoop readEntry id visit count.toNat ⟨iter, po.last, 0, po.out⟩ with
    | (.failed ret, st) => (ret, { po with out := st.out, last := st.last })
    | (.accepted, st) => (tpmSuccess, ⟨st.out, st.parsedCount, st.last, true⟩)
    | (.finished, st) => (st.iter.errorState.code, ⟨st.out, st.parsedCount, st.last, false⟩)

end EntryLoop

/-- The inner loop of parse_algs over the query array, for the remaining slots. -/
def markAlgs (e : AlgEntry) : Nat → List TpmAlgQuery → List TpmAlgQuery
  | 0, query => query
  | _ + 1, [] => []
  | n + 1, q :: query =>
      if q.algId = tpmAlgNull then q :: query
      else (if q.algId = e.id then { q with enabled := true } else q) :: markAlgs e n query

/-- Three octets: memset with zero, then a copy of the octets of the bank. -/
def copySelect (select : List UInt8) : Vector UInt8 tpmPcrSelectSize.toNat :=
  Vector.ofFn (fun i => select.getD i 0)

def markPcrs (e : PcrEntry) : Nat → List TpmPcrBankQuery → List TpmPcrBankQuery
  | 0, query => query
  | _ + 1, [] => []
  | n + 1, q :: query =>
      if q.hashAlg = tpmAlgNull then q :: query
      else (if q.hashAlg = e.id then { q with pcrSelect := copySelect e.select } else q) ::
        markPcrs e n query

def parseAlgs : TpmCmd → ParseOut (List TpmAlgQuery) → Int × ParseOut (List TpmAlgQuery) :=
  parseQuery tpmCapAlgs readAlg AlgEntry.id (fun e query => markAlgs e tpmMaxAlgProperties query)

def parsePcrs : TpmCmd → ParseOut (List TpmPcrBankQuery) → Int × ParseOut (List TpmPcrBankQuery) :=
  parseQuery tpmCapPcrs readBank PcrEntry.id (fun e query => markPcrs e tpmMaxPcrSelections query)

section Find

variable {σ : Type}

/-- The masks of parse_algs_find and the callback behind them. -/
def visitAlg (mustSetMask mustClearMask : UInt32) (cb : UInt16 → UInt32 → σ → Bool × σ)
    (e : AlgEntry) (ctx : σ) : Bool × σ :=
  if e.props &&& mustSetMask = mustSetMask ∧ e.props &&& mustClearMask = 0 then cb e.id e.props ctx
  else (false, ctx)

def parseAlgsFind (mustSetMask mustClearMask : UInt32) (cb : UInt16 → UInt32 → σ → Bool × σ) :
    TpmCmd → ParseOut σ → Int × ParseOut σ :=
  parseFind tpmCapAlgs readAlg AlgEntry.id (visitAlg mustSetMask mustClearMask cb)

def parsePcrsFind (cb : UInt16 → List UInt8 → UInt8 → σ → Bool × σ) :
    TpmCmd → ParseOut σ → Int × ParseOut σ :=
  parseFind tpmCapPcrs readBank PcrEntry.id
    (fun e ctx => cb e.id e.select e.sizeofSelect ctx)

end Find

end LibTpm.Getcap
