/-
  NetworkingFinal.Client.Commands

  The commands of the client (src/client/commands.py), run one after another from
  one address.

  A command sends its request, waits for one datagram, and goes on to `upload_data`
  or `download_data` when it is a Response that is ok.  What a command reads and
  writes on the client's disk is left out: an upload is given the content it found.
-/
import NetworkingFinal.Client.Upload
import NetworkingFinal.Client.Download

namespace NetworkingFinal
namespace Client

open Py Ftp

/-- `Options`: who the client says it is. -/
structure Options where
  anonymous : Bool := true
  userName : Str := []
  password : Str := []
  deriving DecidableEq

def MAX_SEGMENT_SIZE : Nat := 1000

/-- The arguments of a command.  The content of an upload is that of the file, or the
    archive of the directory. -/
inductive Command where
  | upload (isFile : Bool) (content : Bytes) (destination : Str)
  | download (targetName : Str)
  | list (directoryPath : Str) (recursive : Bool)
  | delete (targetName : Str)
  deriving DecidableEq

namespace Command

/-- `struct.pack("?", isFile) + body` -/
def body : Command → Bytes
  | upload isFile content _ => (if isFile then 1 else 0) :: content
  | _ => []

def subType : Command → PocketSubType
  | upload .. => .upload
  | download .. => .download
  | list .. => .list
  | delete .. => .delete

/-- The pocket a command sends first. -/
def reqPocket (options : Options) (c : Command) : Pocket :=
  let req : Pocket :=
    { basicLayer := ⟨0, .request, c.subType⟩
      requestLayer := some ⟨c.body.length, MAX_SEGMENT_SIZE, options.anonymous, options.userName,
        options.password⟩ }
  match c with
  | upload _ _ destination => { req with uploadRequestLayer := some ⟨destination⟩ }
  | download targetName => { req with downloadRequestLayer := some ⟨targetName⟩ }
  | list directoryPath recursive =>
      { req with listRequestLayer := some ⟨directoryPath, recursive⟩ }
  | delete targetName => { req with deleteRequestLayer := some ⟨targetName⟩ }

theorem reqPocket_type (options : Options) (c : Command) :
    (c.reqPocket options).basicLayer.pocketType = .request := by
  cases c <;> rfl

end Command

/-- Where the running command is.  A command that is over rests; one that came to
    `upload_data` or `download_data` keeps their last state. -/
inductive CommandPhase where
  | resting
  | awaitResponse (c : Command)
  | uploading (resPocket : Pocket) (u : Upload)
  | downloading (d : Download)
  deriving DecidableEq

/-- `handle response`: what a command does with the pocket it got. -/
def Command.handleResponse (c : Command) (resPocket : Pocket) (now : Int) : CommandPhase :=
  match resPocket.responseLayer with
  | none => .resting
  | some layer =>
      if layer.ok = false then .resting
      else
        match c with
        | .upload .. =>
            match Upload.start resPocket c.body now with
            | .ok u => .uploading resPocket u
            | .error _ => .resting
        | .download _ =>
            match Download.start resPocket with
            | .ok d => .downloading d
            | .error _ => .resting
        | .list .. =>
            if layer.dataSize = 0 then .resting
            else
              match Download.start resPocket with
              | .ok d => .downloading d
              | .error _ => .resting
        | .delete _ => .resting

/-- The only `recvfrom` of a command itself.  A timeout, another error or a datagram
    that does not decode ends the command. -/
def Command.receive (c : Command) (input : Input) (clk : Readings) : CommandPhase :=
  match input with
  | .datagram data =>
      match Pocket.fromBytes data with
      | .ok resPocket => c.handleResponse resPocket clk.now
      | .error _ => .resting
  | .timeout => .resting
  | .osError => .resting

/-- What a command goes on to, when it goes on. -/
inductive Began (c : Command) (input : Input) : CommandPhase → Prop
  | ended : Began c input .resting
  | uploading {data : Bytes} {resPocket : Pocket} {layer : ResponseLayer} {now : Int}
      (received : input = .datagram data) (decoded : Pocket.fromBytes data = .ok resPocket)
      (responseLayer : resPocket.responseLayer = some layer) (ok : layer.ok = true) :
      Began c input (.uploading resPocket
        { requestID := resPocket.requestID, singleSegmentSize := layer.singleSegmentSize,
          segmentsAmount := layer.segmentsAmount, body := c.body,
          windowToSend := List.range layer.segmentsAmount, last := now })
  | downloading {data : Bytes} {resPocket : Pocket} {layer : ResponseLayer} {d : Download}
      (received : input = .datagram data) (decoded : Pocket.fromBytes data = .ok resPocket)
      (responseLayer : resPocket.responseLayer = some layer) (ok : layer.ok = true)
      (start : Download.start resPocket = .ok d) : Began c input (.downloading d)

theorem began_of_receive (c : Command) (input : Input) (clk : Readings) :
    Began c input (c.receive input clk) := by
  unfold Command.receive
  split
  · next data =>
      split
      · next resPocket hdecode =>
          unfold Command.handleResponse
          split
          · exact .ended
          · next layer hlayer =>
              split
              · exact .ended
              · next hok =>
                  rw [Bool.not_eq_false] at hok
                  split
                  · rw [Upload.start, hlayer]
                    exact .uploading rfl hdecode hlayer hok
                  · split
                    · next d hd => exact .downloading rfl hdecode hlayer hok hd
                    · exact .ended
                  · split
                    · exact .ended
                    · split
                      · next d hd => exact .downloading rfl hdecode hlayer hok hd
                      · exact .ended
                  · exact .ended
      · exact .ended
  · exact .ended
  · exact .ended

/-- The commands from one client address: the running one, and the datagrams sent
    before its transfer began. -/
structure Shell where
  phase : CommandPhase := .resting
  past : List Bytes := []
  deriving DecidableEq

namespace Shell

/-- Every datagram sent so far. -/
def sent (c : Shell) : List Bytes :=
  match c.phase with
  | .uploading _ u => c.past ++ u.sent
  | .downloading d => c.past ++ d.sent
  | _ => c.past

/-- A command begins: the one before is over, or was interrupted. -/
def begin (options : Options) (command : Command) (c : Shell) : Shell :=
  match (command.reqPocket options).toBytes with
  | .ok bs => { phase := .awaitResponse command, past := c.sent ++ [bs] }
  | .error _ => { phase := .resting, past := c.sent }

def step (growth : Int → Nat → Nat) (c : Shell) (m : Move) : Option Shell :=
  match c.phase with
  | .resting => none
  | .awaitResponse command =>
      match m with
      | .receive input clk => some { c with phase := command.receive input clk }
      | .proceed _ => none
  | .uploading resPocket u =>
      (u.step growth m).map fun u => { c with phase := .uploading resPocket u }
  | .downloading d => (d.step m).map fun d => { c with phase := .downloading d }

end Shell

end Client
end NetworkingFinal
