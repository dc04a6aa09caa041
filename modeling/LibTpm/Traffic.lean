import LibTpm.Builder

namespace LibTpm.Traffic

open LibTpm.Base.Process LibTpm.Base.Process.Proc LibTpm.Command LibTpm.Constants LibTpm.Platform
open LibTpm.Builder

variable {W : Type}

/-- What passes through the interface pointer: a command handed to send, and
a buffer that receive has filled. -/
inductive Message
  | sent (cmd : TpmCmd)
  | received (resp : TpmCmd)
  deriving DecidableEq

def receivedEvent : Option (Int × TpmCmd) → List Message
  | some (_, resp) => [.received resp]
  | none => []

def logged (interface : Interface W) : Interface (W × List Message) where
  getInfo chip locality := observe (fun _ => []) (interface.getInfo chip locality)
  send chip cmd := observe (fun _ => [.sent cmd]) (interface.send chip cmd)
  receive chip buf := observe receivedEvent (interface.receive chip buf)
  requestAccess chip locality := observe (fun _ => []) (interface.requestAccess chip locality)
  releaseLocality chip locality := observe (fun _ => []) (interface.releaseLocality chip locality)

theorem logged_send (interface : Interface W) (chip : ChipData) (cmd : TpmCmd) :
    (logged interface).send chip cmd = observe (fun _ => [.sent cmd]) (interface.send chip cmd) := rfl

theorem logged_receive (interface : Interface W) (chip : ChipData) (buf : TpmCmd) :
    (logged interface).receive chip buf = observe receivedEvent (interface.receive chip buf) := rfl

def sentCommand : Message → Option TpmCmd
  | .sent cmd => some cmd
  | .received _ => none

def receivedBuffer : Message → Option TpmCmd
  | .sent _ => none
  | .received resp => some resp

def sentCommands (log : List Message) : List TpmCmd := log.filterMap sentCommand

def receivedBuffers (log : List Message) : List TpmCmd := log.filterMap receivedBuffer

theorem sentCommands_append (log log' : List Message) :
    sentCommands (log ++ log') = sentCommands log ++ sentCommands log' := List.filterMap_append

theorem receivedBuffers_append (log log' : List Message) :
    receivedBuffers (log ++ log') = receivedBuffers log ++ receivedBuffers log' :=
  List.filterMap_append

theorem tpmXfer_sends (interface : Interface W) (chip : ChipData) (cmd resp : TpmCmd)
    (s : W × List Message) :
    sentCommands (tpmXfer (logged interface) chip cmd resp s).2.2 = sentCommands s.2 ++ [cmd] := by
  rw [tpmXfer]
  apply world_bind (C := fun s' : W × List Message => sentCommands s'.2 = sentCommands s.2 ++ [cmd])
  · exact sentCommands_append _ _
  · intro ret
    refine Keeps.unless (Keeps.bind ?_ ?_)
    · intro s' hs
      change sentCommands (s'.2 ++ receivedEvent _) = _
      rw [sentCommands_append, hs]
      rcases (interface.receive chip resp s'.1).1 with _ | ⟨ret, buf⟩ <;> exact List.append_nil _
    · intro r
      exact Keeps.unless (keeps_pure _ _)

/-- A call of send or receive and its result, which is missing when the call
does not return. -/
inductive Transfer
  | sent (cmd : TpmCmd) (ret : Option Int)
  | received (result : Option (Int × TpmCmd))

def traced (interface : Interface W) : Interface (W × List Transfer) where
  getInfo chip locality := observe (fun _ => []) (interface.getInfo chip locality)
  send chip cmd := observe (fun ret => [.sent cmd ret]) (interface.send chip cmd)
  receive chip buf := observe (fun result => [.received result]) (interface.receive chip buf)
  requestAccess chip locality := observe (fun _ => []) (interface.requestAccess chip locality)
  releaseLocality chip locality := observe (fun _ => []) (interface.releaseLocality chip locality)

theorem traced_send (interface : Interface W) (chip : ChipData) (cmd : TpmCmd) :
    (traced interface).send chip cmd = observe (fun ret => [.sent cmd ret]) (interface.send chip cmd) := rfl

theorem traced_receive (interface : Interface W) (chip : ChipData) (buf : TpmCmd) :
    (traced interface).receive chip buf =
      observe (fun result => [.received result]) (interface.receive chip buf) := rfl

def handedOver : Transfer → Option TpmCmd
  | .sent cmd _ => some cmd
  | .received _ => none

def commandsSent (log : List Transfer) : List TpmCmd := log.filterMap handedOver

end LibTpm.Traffic
