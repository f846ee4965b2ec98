/-
  NetworkingFinal.Client.Rudp

  The client's side of a transfer (src/client/rudp.py): `upload_data` and
  `download_data` as machines that stop at every `recvfrom` and at every turn of
  their loops.

  A machine takes a `Move`: it runs on to its next stop, or, when it is blocked in
  `recvfrom`, the socket hands it something.  `sent` collects the datagrams it
  has handed to the socket, to `options.appAddress`.
-/
import NetworkingFinal.Ftp.Transfer

namespace NetworkingFinal
namespace Client

open Py Ftp

/-- What a blocked `recvfrom` returns, or the exception it raises. -/
inductive Input where
  | datagram (data : Bytes)
  | timeout
  | osError

inductive Move where
  | proceed (now : Int)
  | receive (input : Input) (clk : Readings)

-- ============================================================================
-- upload_data
-- ============================================================================

inductive UploadPhase where
  | head
  | refresh
  | returned
  | failed (e : Exn)
  deriving DecidableEq

/-- `upload_data` with its local variables.  The variable `data` is unbound until
    the first datagram; `decoded` collects what `Pocket.from_bytes` is called on, `none`
    for the unbound variable. -/
structure Upload where
  requestID : Nat
  singleSegmentSize : Nat
  segmentsAmount : Nat
  body : Bytes
  windowToSend : List Nat
  windowSending : List Nat := []
  last : Int
  rtt : Int := SOCKET_TIMEOUT
  cwnd : Nat := CWND_START_VALUE
  cwndMax : Nat := CWND_START_VALUE
  uploading : Bool := true
  data : Option Bytes := none
  decoded : List (Option Bytes) := []
  phase : UploadPhase := .head
  sent : List Bytes := []
  deriving DecidableEq

namespace Upload

/-- The assignments before the loop. -/
def start (resPocket : Pocket) (body : Bytes) (now : Int) : Except Exn Upload :=
  match resPocket.responseLayer with
  | none => .error .assertionError
  | some layer => .ok
      { requestID := resPocket.requestID, singleSegmentSize := layer.singleSegmentSize,
        segmentsAmount := layer.segmentsAmount, body,
        windowToSend := List.range layer.segmentsAmount, last := now }

/-- The Segment with the slice of the body for an id. -/
def segmentPocket (u : Upload) (segmentID : Nat) : Pocket :=
  Ftp.segmentPocket u.requestID segmentID
    (segmentOf u.body u.body.length u.singleSegmentSize segmentID)

/-- `networkConnection.sendto(bytes(pocket), ..)` -/
def sendto (u : Upload) (pocket : Pocket) : Upload :=
  match pocket.toBytes with
  | .ok bs => { u with sent := u.sent ++ [bs] }
  | .error e => { u with phase := .failed e }

/-- The top of the loop: send a segment, or start refreshing the window. -/
def head (now : Int) (u : Upload) : Upload :=
  if u.uploading = false then { u with phase := .returned }
  else
    match u.windowToSend with
    | segmentID :: windowToSend =>
        if u.last + u.rtt > now ∧ u.windowSending.length < u.cwnd then
          { u with windowToSend, windowSending := u.windowSending ++ [segmentID] }.sendto
            (u.segmentPocket segmentID)
        else { u with phase := .refresh }
    | [] => { u with phase := .refresh }

variable (growth : Int → Nat → Nat)

/-- The end of a refresh: what was not acknowledged goes back to the front. -/
def leaveRefresh (clk : Readings) (u : Upload) : Upload :=
  let (cwnd, cwndMax) :=
    if u.windowSending ≠ [] then (max (u.cwnd / 2) 1, u.cwnd)
    else (max (growth u.rtt u.cwndMax) 1, u.cwndMax)
  { u with
    windowToSend := u.windowSending ++ u.windowToSend, windowSending := [], cwnd, cwndMax,
    rtt := clk.rttEnd - u.last, last := clk.lastEnd, phase := .head }

/-- What a pocket does to the windows; a Close pocket ends the upload. -/
def handlePocket (clk : Readings) (u : Upload) (pocket : Pocket) : Upload :=
  if pocket.basicLayer.pocketType = .close then
    leaveRefresh growth clk { u with uploading := false }
  else
    match pocket.akcLayer with
    | some layer =>
        { u with
          windowToSend := u.windowToSend.erase layer.segmentID
          windowSending := u.windowSending.erase layer.segmentID }
    | none => u

/-- `pocket = Pocket.from_bytes(data)` and what follows it. -/
def handleData (clk : Readings) (u : Upload) : Upload :=
  let v := { u with decoded := u.decoded ++ [u.data] }
  match u.data with
  | none => { v with phase := .failed .unboundLocalError }
  | some data =>
      match Pocket.fromBytes data with
      | .ok pocket => handlePocket growth clk v pocket
      | .error e => { v with phase := .failed e }

/-- One turn of the inner loop.  A timeout before the round trip time is over
    handles what the variable `data` holds. -/
def receive (input : Input) (clk : Readings) (u : Upload) : Upload :=
  match input with
  | .datagram data => handleData growth clk { u with data := some data }
  | .timeout =>
      if u.last + u.rtt < clk.now then leaveRefresh growth clk u else handleData growth clk u
  | .osError => { u with phase := .failed .osError }

def step (u : Upload) : Move → Option Upload
  | .proceed now => if u.phase = .head then some (head now u) else none
  | .receive input clk => if u.phase = .refresh then some (receive growth input clk u) else none

end Upload

-- ============================================================================
-- download_data
-- ============================================================================

inductive DownloadPhase where
  | sendReady
  | awaitFirst
  | collect
  | sendComplited
  | awaitClose
  | returned
  | failed (e : Exn)
  deriving DecidableEq

/-- `download_data` with its local variables. -/
structure Download where
  requestID : Nat
  segmentsAmount : Nat
  neededSegments : List Nat
  segments : List Bytes
  phase : DownloadPhase := .sendReady
  sent : List Bytes := []
  deriving DecidableEq

namespace Download

/-- The assignments before the first loop. -/
def start (resPocket : Pocket) : Except Exn Download :=
  match resPocket.responseLayer with
  | none => .error .assertionError
  | some layer => .ok
      { requestID := resPocket.requestID, segmentsAmount := layer.segmentsAmount,
        neededSegments := List.range layer.segmentsAmount,
        segments := List.replicate layer.segmentsAmount [] }

/-- `networkConnection.sendto(bytes(pocket), ..)`, and on to the next phase. -/
def sendto (d : Download) (pocket : Pocket) (next : DownloadPhase) : Download :=
  match pocket.toBytes with
  | .ok bs => { d with sent := d.sent ++ [bs], phase := next }
  | .error e => { d with phase := .failed e }

/-- Where the second loop goes on. -/
def collecting (d : Download) : DownloadPhase :=
  if d.neededSegments = [] then .sendComplited else .collect

/-- Keep a segment that is still needed. -/
def keep (d : Download) (segment : SegmentLayer) : Download :=
  if segment.segmentID ∈ d.neededSegments then
    { d with
      neededSegments := d.neededSegments.erase segment.segmentID
      segments := d.segments.set segment.segmentID segment.data }
  else d

/-- The body of the second loop: every segment is acknowledged. -/
def handlePocket (d : Download) (pocket : Pocket) : Download :=
  match pocket.segmentLayer with
  | none => { d with phase := d.collecting }
  | some segment =>
      if pocket.basicLayer.pocketType ≠ .segment then { d with phase := d.collecting }
      else
        let d := d.keep segment
        d.sendto (akcPocket d.requestID segment.segmentID) d.collecting

/-- What the first loop does with a pocket: the first segment is handled by the
    second loop, unless no segment is needed. -/
def handleFirst (d : Download) (pocket : Pocket) : Download :=
  if pocket.basicLayer.pocketType = .segment then
    if d.neededSegments = [] then { d with phase := .sendComplited } else d.handlePocket pocket
  else { d with phase := .sendReady }

def handleClose (d : Download) (pocket : Pocket) : Download :=
  if pocket.basicLayer.pocketType = .close then { d with phase := .returned }
  else { d with phase := .sendComplited }

/-- `recvfrom` and `Pocket.from_bytes` in a loop that passes over an OSError. -/
def receive (handle : Download → Pocket → Download) (again : DownloadPhase) (input : Input)
    (d : Download) : Download :=
  match input with
  | .datagram data =>
      match Pocket.fromBytes data with
      | .ok pocket => handle d pocket
      | .error e => { d with phase := .failed e }
  | .timeout => { d with phase := again }
  | .osError => { d with phase := again }

def step (d : Download) : Move → Option Download
  | .proceed _ =>
      match d.phase with
      | .sendReady => some (d.sendto (readyPocket d.requestID) .awaitFirst)
      | .sendComplited => some (d.sendto (complitedPocket d.requestID) .awaitClose)
      | _ => none
  | .receive input _ =>
      match d.phase with
      | .awaitFirst => some (d.receive handleFirst .sendReady input)
      | .collect => some (d.receive handlePocket .collect input)
      | .awaitClose => some (d.receive handleClose .sendComplited input)
      | _ => none

/-- What `download_data` returns. -/
def result (d : Download) : Bytes := d.segments.flatten

end Download

end Client
end NetworkingFinal
