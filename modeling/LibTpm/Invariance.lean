import LibTpm.Base.Surfacing
import LibTpm.Commands
import LibTpm.PollRounds
import LibTpm.Queries

namespace LibTpm.Invariance

open LibTpm.Base.Process LibTpm.Base.Process.Proc LibTpm.Base.Polling LibTpm.Base.Surfacing LibTpm.Command
open LibTpm.Constants LibTpm.Endian LibTpm.Platform LibTpm.Fifo LibTpm.PollRounds LibTpm.Builder LibTpm.Getcap LibTpm.Commands LibTpm.Queries

variable {W : Type}

/-- The port preserves `I` as long as the registers it accesses satisfy `A`. -/
structure PortKeeps (A : UInt16 → Prop) (I : W → Prop) (port : FifoPort W) : Prop where
  timeoutInit (usec : UInt32) : Keeps I (liftM (port.timeoutInitUs usec))
  timeoutElapsed (cnt : UInt64) : Keeps I (liftM (port.timeoutElapsed cnt))
  write (reg : UInt16) (val : UInt8) : A reg → Keeps I (liftM (port.writeByte reg val))
  read (reg : UInt16) (dst : Dest) : A reg → Keeps I (liftM (port.readByte reg dst))
  readChunk (reg : UInt16) (len : UInt8) : A reg → Keeps I (liftM (port.readChunk reg len))

/-- A port that may also fail: it returns TPM_ERR_TRANSFER in a world that satisfies `S`. -/
structure PortSurfaces (A : UInt16 → Prop) (I S : W → Prop) (port : FifoPort W) : Prop where
  timeoutInit (usec : UInt32) : Keeps I (liftM (port.timeoutInitUs usec))
  timeoutElapsed (cnt : UInt64) : Keeps I (liftM (port.timeoutElapsed cnt))
  write (reg : UInt16) (val : UInt8) :
    A reg → Surfaces I S (fun err => err = tpmErrTransfer) (liftM (port.writeByte reg val))
  read (reg : UInt16) (dst : Dest) :
    A reg → Surfaces I S (fun r => r.1 = tpmErrTransfer) (liftM (port.readByte reg dst))
  readChunk (reg : UInt16) (len : UInt8) :
    A reg → Surfaces I S (fun r => r.1 = tpmErrTransfer) (liftM (port.readChunk reg len))

theorem PortKeeps.surfaces {A : UInt16 → Prop} {I S : W → Prop} {port : FifoPort W} (h : PortKeeps A I port) :
    PortSurfaces A I S port where
  timeoutInit := h.timeoutInit
  timeoutElapsed := h.timeoutElapsed
  write reg val hr := surfaces_of_keeps (h.write reg val hr)
  read reg dst hr := surfaces_of_keeps (h.read reg dst hr)
  readChunk reg len hr := surfaces_of_keeps (h.readChunk reg len hr)

def PageIn (A : UInt16 → Prop) (locality : UInt8) : Prop :=
  ∀ offset : UInt32, offset < 0x1000 → A (fifoReg (localityStartAddress locality) offset)

theorem pageIn_true (locality : UInt8) : PageIn (fun _ => True) locality := fun _ _ => trivial

theorem errTransfer_neg {err : Int} (h : err = tpmErrTransfer) : err < 0 := by
  rw [h]
  decide

theorem errTransfer_ne {err : Int} (h : err = tpmErrTransfer) : err ≠ tpmSuccess := by
  rw [h]
  decide

theorem stops_early {β : Type} {G : β → Prop} {err : Int} {b : β} {q : Proc W β} (he : err = tpmErrTransfer)
    (hb : G b) : Stops G (if err < 0 then pure b else q) := Stops.pos (errTransfer_neg he) (stops_pure hb)

section Fifo

variable {A : UInt16 → Prop} {I S : W → Prop} {port : FifoPort W} {fuel : Nat}

theorem waitRegBitsLoop_surfaces (h : PortSurfaces A I S port) {reg : UInt16} (hr : A reg) (set : UInt8)
    (delay : UInt64) (n : Nat) :
    Surfaces I S (fun r => r.1 = tpmErrTransfer) (waitRegBitsLoop port reg set delay n) := by
  rw [waitRegBitsLoop_eq]
  apply surfaces_poll
  apply Surfaces.bind (h.read _ _ hr)
  · rintro ⟨err, status⟩
    refine Surfaces.unless (Surfaces.unless ?_)
    exact Surfaces.after (h.timeoutElapsed delay) fun _ => Surfaces.unless (surfaces_pure _)
  · exact fun ⟨err, status⟩ he => stops_early he ⟨_, rfl, he⟩

theorem tpm2WaitRegBits_surfaces (h : PortSurfaces A I S port) {reg : UInt16} (hr : A reg) (set : UInt8)
    (timeout : UInt64) :
    Surfaces I S (fun r => r.1 = tpmErrTransfer) (tpm2WaitRegBits port fuel reg set timeout) :=
  Surfaces.after (h.timeoutInit _) fun _ => waitRegBitsLoop_surfaces h hr set _ fuel

theorem tpm2GetInfo_surfaces (h : PortSurfaces A I S port) (chip : ChipData) {locality : UInt8}
    (hp : PageIn A locality) : Surfaces I S (fun err => err = tpmErrTransfer) (tpm2GetInfo port chip locality) := by
  apply Surfaces.bind (h.readChunk _ _ (hp _ (by decide)))
  · rintro ⟨err, _⟩
    refine Surfaces.unless (Surfaces.bind (h.read _ _ (hp _ (by decide))) ?_ ?_)
    · exact fun ⟨err, _⟩ => Surfaces.unless (surfaces_pure _)
    · exact fun ⟨err, _⟩ he => stops_early he he
  · exact fun ⟨err, _⟩ he => stops_early he he

theorem tpm2FifoRequestAccess_surfaces (h : PortSurfaces A I S port) (chip : ChipData) {locality : UInt8}
    (hp : PageIn A locality) :
    Surfaces I S (fun r => r.1 = tpmErrTransfer) (tpm2FifoRequestAccess port fuel chip locality) := by
  apply Surfaces.bind (h.write _ _ (hp _ (by decide)))
  · intro err
    refine Surfaces.unless (Surfaces.bind (tpm2WaitRegBits_surfaces h (hp _ (by decide)) _ _) ?_ ?_)
    · exact fun ⟨err, _⟩ => Surfaces.unless (surfaces_pure _)
    · exact fun ⟨err, _⟩ he => Stops.neg (errTransfer_ne he) (stops_pure he)
  · exact fun err he => stops_early he he

theorem tpm2FifoReleaseLocality_surfaces (h : PortSurfaces A I S port) (chip : ChipData) {locality : UInt8}
    (hp : PageIn A locality) :
    Surfaces I S (fun err => err = tpmErrTransfer) (tpm2FifoReleaseLocality port chip locality) := by
  apply Surfaces.bind (h.read _ _ (hp _ (by decide)))
  · exact fun ⟨err, buf⟩ =>
      Surfaces.unless (Surfaces.ite (h.write _ _ (hp _ (by decide))) (surfaces_pure _))
  · exact fun ⟨err, buf⟩ he => stops_early he he

variable {chip : ChipData}

theorem tpm2FifoPrepare_surfaces (h : PortSurfaces A I S port) (hp : PageIn A chip.locality) :
    Surfaces I S (fun err => err = tpmErrTransfer) (tpm2FifoPrepare port fuel chip) := by
  apply Surfaces.bind (h.write _ _ (hp _ (by decide)))
  · intro err
    refine Surfaces.unless (Surfaces.bind (tpm2WaitRegBits_surfaces h (hp _ (by decide)) _ _) ?_ ?_)
    · exact fun ⟨err, _⟩ => Surfaces.unless (surfaces_pure _)
    · exact fun ⟨err, _⟩ he => stops_early he he
  · exact fun err he => stops_early he he

theorem getBurstcountLoop_surfaces (h : PortSurfaces A I S port) (hp : PageIn A chip.locality)
    (delay : UInt64) (n : Nat) : Surfaces I S (fun r => r.1 = tpmErrTransfer)
      (getBurstcountLoop port (localityStartAddress chip.locality) delay n) := by
  rw [getBurstcountLoop_eq]
  apply surfaces_poll
  apply Surfaces.bind (h.read _ _ (hp _ (by decide)))
  · rintro ⟨err, byte0⟩
    refine Surfaces.unless (Surfaces.bind (h.read _ _ (hp _ (by decide))) ?_ ?_)
    · rintro ⟨err, byte1⟩
      refine Surfaces.unless (Surfaces.unless ?_)
      exact Surfaces.after (h.timeoutElapsed delay) fun _ => Surfaces.unless (surfaces_pure _)
    · exact fun ⟨err, _⟩ he => stops_early he ⟨_, rfl, he⟩
  · exact fun ⟨err, _⟩ he => stops_early he ⟨_, rfl, he⟩

theorem tpm2FifoGetBurstcount_surfaces (h : PortSurfaces A I S port) (hp : PageIn A chip.locality) :
    Surfaces I S (fun r => r.1 = tpmErrTransfer) (tpm2FifoGetBurstcount port fuel chip) :=
  Surfaces.after (h.timeoutInit _) fun _ => getBurstcountLoop_surfaces h hp _ fuel

theorem writeHeader_surfaces (h : PortSurfaces A I S port) (hp : PageIn A chip.locality) (bs : List UInt8) :
    Surfaces I S (fun err => err = tpmErrTransfer) (writeHeader port (localityStartAddress chip.locality) bs) := by
  induction bs with
  | nil => exact surfaces_pure _
  | cons b bs ih =>
      apply Surfaces.bind (h.write _ _ (hp _ (by decide)))
      · exact fun _ => Surfaces.unless ih
      · exact fun err he => stops_early he he

theorem writeBurst_surfaces (h : PortSurfaces A I S port) (hp : PageIn A chip.locality) (buf : TpmCmd)
    (len burst index : Nat) : Surfaces I S (fun r => r.1 = tpmErrTransfer)
      (writeBurst port (localityStartAddress chip.locality) buf len burst index) := by
  induction burst generalizing index with
  | zero => exact surfaces_pure _
  | succ burst ih =>
      refine Surfaces.ite (Surfaces.bind (h.write _ _ (hp _ (by decide))) ?_ ?_) (surfaces_pure _)
      · exact fun _ => Surfaces.unless (ih _)
      · exact fun err he => stops_early he he

theorem writeData_surfaces (h : PortSurfaces A I S port) (hp : PageIn A chip.locality) (buf : TpmCmd)
    (len n index : Nat) : Surfaces I S (fun err => err = tpmErrTransfer)
      (writeData port fuel chip (localityStartAddress chip.locality) buf len n index) := by
  induction n generalizing index with
  | zero => exact Surfaces.ite surfaces_suspend (surfaces_pure _)
  | succ n ih =>
      refine Surfaces.ite (Surfaces.bind (tpm2FifoGetBurstcount_surfaces h hp) ?_ ?_) (surfaces_pure _)
      · rintro ⟨err, burst⟩
        refine Surfaces.unless (Surfaces.bind (writeBurst_surfaces h hp _ _ _ _) ?_ ?_)
        · exact fun ⟨err, index⟩ => Surfaces.unless (ih _)
        · exact fun ⟨err, index⟩ he => stops_early he he
      · exact fun ⟨err, burst⟩ he => stops_early he he

theorem readBurst_surfaces (h : PortSurfaces A I S port) (hp : PageIn A chip.locality) (dest : Nat → Dest)
    (readSize : Int) (burst : Nat) (st : ReadState) : Surfaces I S (fun r => r.1 = tpmErrTransfer)
      (readBurst port (localityStartAddress chip.locality) dest readSize burst st) := by
  induction burst generalizing st with
  | zero => exact surfaces_pure _
  | succ burst ih =>
      refine Surfaces.ite (Surfaces.bind (h.read _ _ (hp _ (by decide))) ?_ ?_) (surfaces_pure _)
      · exact fun ⟨err, val⟩ => Surfaces.unless (ih _)
      · exact fun ⟨err, val⟩ he => stops_early he he

theorem readLoop_surfaces (h : PortSurfaces A I S port) (hp : PageIn A chip.locality) (dest : Nat → Dest)
    (readSize : Int) (n : Nat) (st : ReadState) : Surfaces I S (fun r => r.1 = tpmErrTransfer)
      (readLoop port fuel chip (localityStartAddress chip.locality) dest readSize n st) := by
  induction n generalizing st with
  | zero => exact Surfaces.ite surfaces_suspend (surfaces_pure _)
  | succ n ih =>
      refine Surfaces.ite (Surfaces.bind (tpm2FifoGetBurstcount_surfaces h hp) ?_ ?_) (surfaces_pure _)
      · rintro ⟨err, burst⟩
        refine Surfaces.unless (Surfaces.bind (readBurst_surfaces h hp _ _ _ _) ?_ ?_)
        · exact fun ⟨err, st⟩ => Surfaces.unless (ih _)
        · exact fun ⟨err, st⟩ he => stops_early he he
      · exact fun ⟨err, burst⟩ he => stops_early he he

theorem tpm2FifoReadData_surfaces (h : PortSurfaces A I S port) (hp : PageIn A chip.locality) (buf : TpmCmd)
    (size expected : Int) : Surfaces I S (fun r => r.1 = tpmErrTransfer)
      (tpm2FifoReadData port fuel chip buf (localityStartAddress chip.locality) size expected) := by
  apply Surfaces.bind (tpm2WaitRegBits_surfaces h (hp _ (by decide)) _ _)
  · rintro ⟨err, _⟩
    refine Surfaces.unless (Surfaces.bind (readLoop_surfaces h hp _ _ _ _) ?_ ?_)
    · exact fun ⟨err, st⟩ => surfaces_pure _
    · exact fun ⟨err, st⟩ he => stops_pure he
  · exact fun ⟨err, _⟩ he => stops_early he he

variable [Host]

theorem sendBytes_surfaces (h : PortSurfaces A I S port) (hp : PageIn A chip.locality) (buf : TpmCmd) :
    Surfaces I S (fun err => err = tpmErrTransfer) (sendBytes port fuel chip buf) := by
  apply Surfaces.bind (writeHeader_surfaces h hp _)
  · intro err
    refine Surfaces.unless (Surfaces.unless (Surfaces.bind (writeData_surfaces h hp _ _ _ _) ?_ ?_))
    · intro err
      refine Surfaces.unless (Surfaces.bind (tpm2WaitRegBits_surfaces h (hp _ (by decide)) _ _) ?_ ?_)
      · rintro ⟨err, status⟩
        refine Surfaces.unless (Surfaces.unless (Surfaces.bind (h.write _ _ (hp _ (by decide))) ?_ ?_))
        · exact fun _ => Surfaces.unless (surfaces_pure _)
        · exact fun err he => stops_early he he
      · exact fun ⟨err, status⟩ he => stops_early he he
    · exact fun err he => stops_early he he
  · exact fun err he => stops_early he he

theorem tpm2FifoSend_surfaces (h : PortSurfaces A I S port) (hp : PageIn A chip.locality) (buf : TpmCmd) :
    Surfaces I S (fun err => err = tpmErrTransfer) (tpm2FifoSend port fuel chip buf) := by
  have hbytes : Surfaces I S (fun err => err = tpmErrTransfer) (sendBytes port fuel chip buf) :=
    sendBytes_surfaces h hp buf
  apply Surfaces.bind (h.read _ _ (hp _ (by decide)))
  · rintro ⟨err, status⟩
    refine Surfaces.unless (Surfaces.ite (Surfaces.bind (tpm2FifoPrepare_surfaces h hp) ?_ ?_) hbytes)
    · exact fun err => Surfaces.unless hbytes
    · exact fun err he => stops_early he he
  · exact fun ⟨err, status⟩ he => stops_early he he

theorem tpm2FifoReceive_surfaces (h : PortSurfaces A I S port) (hp : PageIn A chip.locality) (buf : TpmCmd) :
    Surfaces I S (fun r => r.1 = tpmErrTransfer) (tpm2FifoReceive port fuel chip buf) := by
  apply Surfaces.bind (tpm2FifoReadData_surfaces h hp _ _ _)
  · rintro ⟨err, size, buf⟩
    refine Surfaces.unless (Surfaces.unless (Surfaces.unless ?_))
    apply Surfaces.bind (tpm2FifoReadData_surfaces h hp _ _ _)
    · exact fun ⟨err, size, buf⟩ => Surfaces.unless (Surfaces.unless (surfaces_pure _))
    · exact fun ⟨err, size, buf⟩ he => stops_early he he
  · exact fun ⟨err, size, buf⟩ he => stops_early he he

end Fifo

structure InterfaceKeeps (I : W → Prop) (interface : Interface W) (chip : ChipData) : Prop where
  send (cmd : TpmCmd) : Keeps I (interface.send chip cmd)
  receive (buf : TpmCmd) : Keeps I (interface.receive chip buf)

structure InterfaceSurfaces (I S : W → Prop) (interface : Interface W) (chip : ChipData) : Prop where
  send (cmd : TpmCmd) : Surfaces I S (fun err => err = tpmErrTransfer) (interface.send chip cmd)
  receive (buf : TpmCmd) : Surfaces I S (fun r => r.1 = tpmErrTransfer) (interface.receive chip buf)

theorem InterfaceKeeps.surfaces {I S : W → Prop} {interface : Interface W} {chip : ChipData}
    (h : InterfaceKeeps I interface chip) : InterfaceSurfaces I S interface chip where
  send cmd := surfaces_of_keeps (h.send cmd)
  receive buf := surfaces_of_keeps (h.receive buf)

theorem fifoOps_surfaces [Host] {A : UInt16 → Prop} {I S : W → Prop} {port : FifoPort W} {fuel : Nat}
    {chip : ChipData} (h : PortSurfaces A I S port) (hp : PageIn A chip.locality) :
    InterfaceSurfaces I S (fifoOps port fuel) chip :=
  ⟨tpm2FifoSend_surfaces h hp, tpm2FifoReceive_surfaces h hp⟩

section Commands

variable [Host] {I S : W → Prop} {interface : Interface W} {chip : ChipData} {stack : TpmCmd}

omit [Host] in
theorem tpmXfer_surfaces (h : InterfaceSurfaces I S interface chip) (send receive : TpmCmd) :
    Surfaces I S (fun r => r.1 = tpmErrTransfer) (tpmXfer interface chip send receive) := by
  apply Surfaces.bind (h.send send)
  · intro ret
    refine Surfaces.unless (Surfaces.bind (h.receive receive) ?_ ?_)
    · exact fun ⟨ret, buf⟩ => Surfaces.unless (surfaces_pure _)
    · exact fun ⟨ret, buf⟩ he => stops_early he he
  · exact fun ret he => stops_early he he

theorem tpmStartup_surfaces (h : InterfaceSurfaces I S interface chip) (mode : UInt16) :
    Surfaces I S (fun ret => ret = tpmErrTransfer) (tpmStartup interface chip mode) := by
  refine Surfaces.unless (Surfaces.bind (tpmXfer_surfaces h _ _) ?_ ?_)
  · exact fun ⟨ret, resp⟩ =>
      Surfaces.unless (Surfaces.unless (Surfaces.unless (surfaces_pure _)))
  · exact fun ⟨ret, resp⟩ he => stops_early he he

theorem tpmPcrExtend_surfaces (h : InterfaceSurfaces I S interface chip) (index : UInt32) (algorithm : UInt16)
    (digest : Option (Nat → UInt8)) (digestLen : UInt32) : Surfaces I S (fun ret => ret = tpmErrTransfer)
      (tpmPcrExtend interface chip index algorithm digest digestLen) := by
  cases digest with
  | none => exact surfaces_pure _
  | some digest =>
      refine Surfaces.unless (Surfaces.bind (tpmXfer_surfaces h _ _) ?_ ?_)
      · exact fun ⟨ret, resp⟩ => Surfaces.unless (Surfaces.unless (surfaces_pure _))
      · exact fun ⟨ret, resp⟩ he => stops_early he he

theorem tpmPcrReadSingle_surfaces (h : InterfaceSurfaces I S interface chip) (index : UInt32)
    (algorithm : UInt16) (buf : Option (List UInt8)) : Surfaces I S (fun r => r.1 = tpmErrTransfer)
      (tpmPcrReadSingle interface stack chip index algorithm buf) := by
  refine Surfaces.unless ?_
  cases buf with
  | none => exact surfaces_pure _
  | some buf =>
      refine Surfaces.unless ?_
      apply Surfaces.bind (tpmXfer_surfaces h _ _)
      · rintro ⟨ret, resp⟩
        refine Surfaces.unless (Surfaces.unless ?_)
        refine Surfaces.unless (Surfaces.unless ?_)
        exact Surfaces.unless (surfaces_pure _)
      · exact fun ⟨ret, resp⟩ he => stops_early he he

theorem tpmPcrAllocateAuthPassword_surfaces {chip : Option ChipData}
    (h : ∀ c ∈ chip, InterfaceSurfaces I S interface c) (password : Option (Nat → UInt8)) (passwordLen : UInt16)
    (banks : Option (Nat → TpmPcrAllocateBank)) (out : Option AllocateOut) :
    Surfaces I S (fun r => r.1 = tpmErrTransfer)
      (tpmPcrAllocateAuthPassword interface chip password passwordLen banks out) := by
  rcases chip with _ | chip
  · exact surfaces_pure _
  rcases banks with _ | banks
  · exact surfaces_pure _
  rcases out with _ | out
  · exact surfaces_pure _
  refine Surfaces.unless (Surfaces.unless (Surfaces.unless ?_))
  refine Surfaces.unless ?_
  apply Surfaces.bind (tpmXfer_surfaces (h chip rfl) _ _)
  · rintro ⟨ret, resp⟩
    refine Surfaces.unless (Surfaces.unless (Surfaces.unless ?_))
    exact Surfaces.unless (Surfaces.unless (surfaces_pure _))
  · exact fun ⟨ret, resp⟩ he => stops_early he he

theorem getcapRaw_surfaces {chip : Option ChipData} (h : ∀ c ∈ chip, InterfaceSurfaces I S interface c)
    (cap property count : UInt32) (resp : TpmCmd) (more : Bool) : Surfaces I S (fun r => r.1 = tpmErrTransfer)
      (getcapRaw interface chip cap property count resp more) := by
  cases chip with
  | none => exact surfaces_pure _
  | some chip =>
      refine Surfaces.unless (Surfaces.bind (tpmXfer_surfaces (h chip rfl) _ _) ?_ ?_)
      · exact fun ⟨ret, resp⟩ => Surfaces.unless (Surfaces.unless (Surfaces.unless
          (Surfaces.unless (surfaces_pure _))))
      · exact fun ⟨ret, resp⟩ he => stops_early he he

variable {σ : Type}

theorem pageLoop_surfaces {chip : Option ChipData} (h : ∀ c ∈ chip, InterfaceSurfaces I S interface c)
    (cap : UInt32) (parse : TpmCmd → ParseOut σ → Int × ParseOut σ) (goOn : UInt16 → Bool) (n : Nat)
    (st : PageState σ) : Surfaces I S (fun r => r.1 = tpmErrTransfer)
      (pageLoop interface chip cap parse goOn n st) := by
  induction n generalizing st with
  | zero => exact surfaces_pure _
  | succ n ih =>
      apply Surfaces.bind (getcapRaw_surfaces h _ _ _ _ _)
      · exact fun ⟨ret, resp, more⟩ => Surfaces.unless (Surfaces.unless (Surfaces.unless
          (Surfaces.unless (Surfaces.ite (ih _) (surfaces_pure _)))))
      · exact fun ⟨ret, resp, more⟩ he => Stops.pos (errTransfer_ne he) (stops_pure he)

theorem tpmGetcapQueryAlgs_surfaces {chip : Option ChipData} (h : ∀ c ∈ chip, InterfaceSurfaces I S interface c)
    (query : Option (List TpmAlgQuery)) : Surfaces I S (fun r => r.1 = tpmErrTransfer)
      (tpmGetcapQueryAlgs interface stack chip query) := by
  refine Surfaces.unless ?_
  cases query with
  | none => exact surfaces_pure _
  | some query =>
      refine Surfaces.unless (Surfaces.unless (Surfaces.bind (pageLoop_surfaces h _ _ _ _ _) ?_ ?_))
      · exact fun _ => surfaces_pure _
      · exact fun _ he => stops_pure he

theorem tpmGetcapQueryPcrs_surfaces {chip : Option ChipData} (h : ∀ c ∈ chip, InterfaceSurfaces I S interface c)
    (query : Option (List TpmPcrBankQuery)) : Surfaces I S (fun r => r.1 = tpmErrTransfer)
      (tpmGetcapQueryPcrs interface stack chip query) := by
  refine Surfaces.unless ?_
  cases query with
  | none => exact surfaces_pure _
  | some query =>
      refine Surfaces.unless (Surfaces.unless (Surfaces.bind (pageLoop_surfaces h _ _ _ _ _) ?_ ?_))
      · exact fun _ => surfaces_pure _
      · exact fun _ he => stops_pure he

theorem tpmHasAlg_surfaces {chip : Option ChipData} (h : ∀ c ∈ chip, InterfaceSurfaces I S interface c)
    (algId : UInt16) (out : Option Bool) : Surfaces I S (fun r => r.1 = tpmErrTransfer)
      (tpmHasAlg interface stack chip algId out) := by
  refine Surfaces.unless (Surfaces.bind (tpmGetcapQueryAlgs_surfaces h _) ?_ ?_)
  · exact fun _ => Surfaces.unless (surfaces_pure _)
  · exact fun _ he => Stops.pos (errTransfer_ne he) (stops_pure he)

theorem tpmGetAlgProps_surfaces {chip : Option ChipData} (h : ∀ c ∈ chip, InterfaceSurfaces I S interface c)
    (algId : UInt16) (out : Option AlgPropsOut) : Surfaces I S (fun r => r.1 = tpmErrTransfer)
      (tpmGetAlgProps interface stack chip algId out) := by
  refine Surfaces.unless (Surfaces.bind (getcapRaw_surfaces h _ _ _ _ _) ?_ ?_)
  · exact fun ⟨ret, resp, more⟩ => Surfaces.unless (Surfaces.unless (Surfaces.unless
      (Surfaces.unless (surfaces_pure _))))
  · exact fun ⟨ret, resp, more⟩ he => Stops.pos (errTransfer_ne he) (stops_pure he)

theorem tpmForEachAlgProps_surfaces {chip : Option ChipData} (h : ∀ c ∈ chip, InterfaceSurfaces I S interface c)
    (mustSet mustClear : UInt32) (cb : Option (UInt16 → UInt32 → σ → Bool × σ)) (ctx : σ) :
    Surfaces I S (fun r => r.1 = tpmErrTransfer)
      (tpmForEachAlgProps interface stack chip mustSet mustClear cb ctx) := by
  refine Surfaces.unless ?_
  cases cb with
  | none => exact surfaces_pure _
  | some cb => exact pageLoop_surfaces h _ _ _ _ _

theorem tpmForEachPcrBank_surfaces {chip : Option ChipData} (h : ∀ c ∈ chip, InterfaceSurfaces I S interface c)
    (cb : Option (UInt16 → List UInt8 → UInt8 → σ → Bool × σ)) (ctx : σ) :
    Surfaces I S (fun r => r.1 = tpmErrTransfer) (tpmForEachPcrBank interface stack chip cb ctx) := by
  refine Surfaces.unless ?_
  cases cb with
  | none => exact surfaces_pure _
  | some cb => exact pageLoop_surfaces h _ _ _ _ _

end Commands

end LibTpm.Invariance
