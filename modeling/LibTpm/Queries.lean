import LibTpm.Getcap

namespace LibTpm.Queries

open LibTpm.Base.Process LibTpm.Command LibTpm.Constants LibTpm.Endian LibTpm.Platform
open LibTpm.Iterator LibTpm.Getcap

variable [Host] {W σ : Type} (interface : Interface W) (stack : TpmCmd)

structure PageState (σ : Type) where
  property : UInt32
  resp : TpmCmd
  moreData : Bool
  po : ParseOut σ

def PageState.init (out : σ) : PageState σ := ⟨0, stack, false, ⟨out, 0, 0, false⟩⟩

/-- The page loop of the four capability functions, for the remaining pages.
They differ in the capability, the parser and the second part of the loop condition. -/
def pageLoop (chip : Option ChipData) (cap : UInt32)
    (parse : TpmCmd → ParseOut σ → Int × ParseOut σ) (goOn : UInt16 → Bool) :
    Nat → PageState σ → Proc W (Int × σ)
  | 0, st => return (tpmErrIterationLimit, st.po.out)
  | pages + 1, st => do
      let (ret, resp, moreData) ← getcapRaw interface chip cap st.property tpmDefaultPageCount
        st.resp st.moreData
      if ret ≠ tpmSuccess then return (ret, st.po.out)
      let (ret, po) := parse resp st.po
      if ret ≠ tpmSuccess then return (ret, po.out)
      if po.found then return (tpmSuccess, po.out)
      if moreData ∧ po.parsedCount = 0 then return (tpmErrResponse, po.out)
      if moreData ∧ goOn po.last then
        pageLoop chip cap parse goOn pages ⟨po.last.toUInt32 + 1, resp, moreData, po⟩
      else return (tpmSuccess, po.out)

/-- What the first loop of a query finds: whether the terminator is there,
the largest id before it, and the number of items. -/
structure QueryScan (α : Type) where
  query : List α
  foundTerm : Bool
  maxId : UInt16
  itemCount : Nat

/-- The first loop of a query, for the remaining slots. It clears the outputs
of the entries before the terminator. -/
def scanQuery {α : Type} (id : α → UInt16) (clear : α → α) : Nat → List α → QueryScan α
  | 0, query => ⟨query, false, 0, 0⟩
  | _ + 1, [] => ⟨[], false, 0, 0⟩
  | n + 1, q :: query =>
      if id q = tpmAlgNull then ⟨q :: query, true, 0, 0⟩
      else
        let rest := scanQuery id clear n query
        ⟨clear q :: rest.query, rest.foundTerm, max (id q) rest.maxId, rest.itemCount + 1⟩

def tpmGetcapQueryAlgs (chip : Option ChipData) (query : Option (List TpmAlgQuery)) :
    Proc W (Int × Option (List TpmAlgQuery)) := do
  if chip.isNone then return (tpmInvalidParam, query)
  let some items := query | return (tpmInvalidParam, query)
  let scan := scanQuery TpmAlgQuery.algId (fun q => { q with enabled := false })
    tpmMaxAlgProperties items
  if ¬ scan.foundTerm then return (tpmInvalidParam, some scan.query)
  if scan.itemCount = 0 then return (tpmSuccess, some scan.query)
  let (ret, out) ← pageLoop interface chip tpmCapAlgs parseAlgs (fun last => last < scan.maxId)
    tpmMaxPages (PageState.init stack scan.query)
  return (ret, some out)

def tpmGetcapQueryPcrs (chip : Option ChipData) (query : Option (List TpmPcrBankQuery)) :
    Proc W (Int × Option (List TpmPcrBankQuery)) := do
  if chip.isNone then return (tpmInvalidParam, query)
  let some items := query | return (tpmInvalidParam, query)
  let scan := scanQuery TpmPcrBankQuery.hashAlg
    (fun q => { q with pcrSelect := Vector.replicate tpmPcrSelectSize.toNat 0 })
    tpmMaxPcrSelections items
  if ¬ scan.foundTerm then return (tpmInvalidParam, some scan.query)
  if scan.itemCount = 0 then return (tpmSuccess, some scan.query)
  let (ret, out) ← pageLoop interface chip tpmCapPcrs parsePcrs (fun last => last < scan.maxId)
    tpmMaxPages (PageState.init stack scan.query)
  return (ret, some out)

def tpmHasAlg (chip : Option ChipData) (algId : UInt16) (outSupported : Option Bool) :
    Proc W (Int × Option Bool) := do
  if outSupported.isNone then return (tpmInvalidParam, outSupported)
  let (ret, item) ← tpmGetcapQueryAlgs interface stack chip
    (some [⟨algId, false⟩, ⟨tpmAlgNull, false⟩])
  if ret ≠ tpmSuccess then return (ret, outSupported)
  return (tpmSuccess, (item.bind List.head?).map TpmAlgQuery.enabled)

structure AlgPropsOut where
  supported : Bool
  props : UInt32
  deriving DecidableEq, Repr

def tpmGetAlgProps (chip : Option ChipData) (algId : UInt16) (out : Option AlgPropsOut) :
    Proc W (Int × Option AlgPropsOut) := do
  if chip.isNone ∨ out.isNone then return (tpmInvalidParam, out)
  let (ret, resp, _) ← getcapRaw interface chip tpmCapAlgs algId.toUInt32 1 stack false
  if ret ≠ tpmSuccess then return (ret, out)
  let (ret, iter) := getcapPayloadStart resp tpmCapAlgs freshIter
  if ret ≠ tpmSuccess then return (ret, some ⟨false, 0⟩)
  let (_, _, iter) := iterReadU32Be iter 0
  let (_, alg, iter) := iterReadU16Be iter tpmAlgNull
  let (_, props, iter) := iterReadU32Be iter 0
  if iter.errorState ≠ .success then return (iter.errorState.code, some ⟨false, 0⟩)
  if alg = algId then return (tpmSuccess, some ⟨true, props⟩)
  return (tpmSuccess, some ⟨false, 0⟩)

/-- The callback is a function of its arguments and of the context it updates. -/
def tpmForEachAlgProps (chip : Option ChipData) (mustSetMask mustClearMask : UInt32)
    (cb : Option (UInt16 → UInt32 → σ → Bool × σ)) (ctx : σ) : Proc W (Int × σ) := do
  if chip.isNone then return (tpmInvalidParam, ctx)
  let some cb := cb | return (tpmInvalidParam, ctx)
  pageLoop interface chip tpmCapAlgs (parseAlgsFind mustSetMask mustClearMask cb) (fun _ => true)
    tpmMaxPages (PageState.init stack ctx)

def tpmForEachPcrBank (chip : Option ChipData)
    (cb : Option (UInt16 → List UInt8 → UInt8 → σ → Bool × σ)) (ctx : σ) : Proc W (Int × σ) := do
  if chip.isNone then return (tpmInvalidParam, ctx)
  let some cb := cb | return (tpmInvalidParam, ctx)
  pageLoop interface chip tpmCapPcrs (parsePcrsFind cb) (fun _ => true)
    tpmMaxPages (PageState.init stack ctx)

end LibTpm.Queries
