/-
  NetworkingFinal.App.Controller

  The main loop of the storage application and its download workers
  (src/app/controller.py).

  - `createHandler`: authentication, choice of the storage root, and opening the
    request (`openRequest`).
  - `iteration`: one turn of `main_loop` on a received datagram.
  - `taskStep`: one step of a running `downloading_task`; a task is cut at every
    turn of its two loops, so that datagrams and other tasks run in between.
  - `step`: the process, with its two worker threads.

  A handler object is known by its key in `handlers`: the key of a task stays
  there until the task takes it out.  `clientAddress` is the local variable of
  `main_loop`, which the nested task function captures.
-/
import NetworkingFinal.App.Handlers

namespace NetworkingFinal
namespace App

open Py Py.Prog Py.Os Ftp

variable (env : Env)

-- ============================================================================
-- Opening a request
-- ============================================================================

def publicPath : Str := env.config.APP_STORAGE_PATH ++ STORAGE_PUBLIC ++ ['/']

/-- `config.APP_STORAGE_PATH + config.STORAGE_PRIVATE + "/" + id` -/
def userDirectory (id : Str) : Str :=
  env.config.APP_STORAGE_PATH ++ STORAGE_PRIVATE ++ ['/'] ++ id

def dataFile : Str := env.config.APP_STORAGE_PATH ++ STORAGE_DATA

/-- The first drawn identifier that names no directory yet. -/
def freshId : List Str → Prog FileTree Str
  | [] => throw .diverges
  | id :: ids => do
      let taken ← isdir env.cwd (userDirectory env id)
      if taken then freshId ids else return id

/-- Make the directory of a new user and write the account file. -/
def registerUser (amb : Ambient) (storageData : StorageData) (layer : RequestLayer) :
    Prog FileTree Str := do
  let id ← freshId env amb.uuids
  mkdir env.cwd amb.now (userDirectory env id)
  let users := storageData.users.set layer.userName ⟨id, layer.password⟩
  writeFile env.cwd amb.now (dataFile env) (env.dumpStorage ⟨users⟩)
  return id

/-- The first half of `create_handler`: whose files the request is about. -/
def chooseStorage (amb : Ambient) (layer : RequestLayer) (clientAddress : Addr) :
    Prog State (Option Str) := do
  if layer.anonymous then
    return some (publicPath env)
  else if layer.userName = [] then
    sendError "The user name cannot be empty".toList clientAddress
    return none
  else
    let content ← onFiles (readFile env.cwd (dataFile env))
    match env.loadStorage content with
    | none => throw .valueError
    | some storageData =>
        match storageData.users.get? layer.userName with
        | some userData =>
            if userData.password = layer.password then
              return some (userDirectory env userData.id ++ ['/'])
            else
              sendError "the password is incorrect".toList clientAddress
              return none
        | none =>
            let id ← onFiles (registerUser env amb storageData layer)
            return some (userDirectory env id ++ ['/'])

/-- `handler.route()` of the handler picked by the sub type; an unknown sub type
    leaves `handler` unbound. -/
def route (h : RequestHandler) : Prog State (Option Routed) :=
  match h.request.basicLayer.pocketSubType with
  | .upload => uploadRoute env h
  | .download => downloadRoute env h
  | .list => listRoute env h
  | .delete => deleteRoute env h
  | .unknown => throw .unboundLocalError

/-- The requested segment size, brought into the configured range. -/
def segmentSize (maxSingleSegmentSize : Nat) : Nat :=
  min env.config.SINGLE_SEGMENT_SIZE_MAX
    (max env.config.SINGLE_SEGMENT_SIZE_MIN maxSingleSegmentSize)

def okResponse (res : Pocket) (dataSize segmentsAmount singleSegmentSize : Nat) : Pocket :=
  { res with responseLayer := some ⟨true, [], dataSize, segmentsAmount, singleSegmentSize⟩ }

/-- The handler `create_handler` leaves behind for an accepted request. -/
def openedHandler (h : RequestHandler) (segmentsAmount : Nat) (data : Bytes) (res : Pocket) :
    Handler :=
  if h.request.basicLayer.pocketSubType = .upload then
    .upload { toRequestHandler := h, segmentsAmount }
  else
    .download { toRequestHandler := h, data, windowToSend := List.range segmentsAmount,
                response := some res }

/-- The second half of `create_handler`: route the request and answer it. -/
def openRequest (amb : Ambient) (request : Pocket) (layer : RequestLayer) (clientAddress : Addr)
    (storagePath : Str) : Prog State (Option (Handler × Pocket)) := do
  match ← route env { request, clientAddress, storagePath } with
  | none => return none
  | some routed =>
      let handler : RequestHandler :=
        { request, clientAddress, storagePath, requestID := routed.requestID }
      let isUpload := request.basicLayer.pocketSubType = .upload
      let data := routed.data.getD []
      let dataSize := if isUpload then layer.pocketFullSize else data.length
      if dataSize = 0 then
        sendto (okResponse routed.res 0 0 0) clientAddress
        when isUpload (postUpload env amb.now handler [])
        return none
      else
        let singleSegmentSize := segmentSize env layer.maxSingleSegmentSize
        let segmentsAmount := segmentsAmountOf dataSize singleSegmentSize
        let res := okResponse routed.res dataSize segmentsAmount singleSegmentSize
        sendto res clientAddress
        return some (openedHandler handler segmentsAmount data res, res)

/-- `create_handler` -/
def createHandler (amb : Ambient) (request : Pocket) (clientAddress : Addr) :
    Prog State (Option (Handler × Pocket)) :=
  match request.requestLayer with
  | none => throw .assertionError
  | some layer => do
      match ← chooseStorage env amb layer clientAddress with
      | none => return none
      | some storagePath => openRequest env amb request layer clientAddress storagePath

-- ============================================================================
-- The process
-- ============================================================================

inductive TaskPhase where
  | start
  | head
  | refresh
  | closing
  | leaving
  | ended
  | failed (e : Exn)
  deriving DecidableEq

/-- A submitted `downloading_task` with its local variables.  The clock is in
    microseconds. -/
structure Task where
  key : Nat
  phase : TaskPhase := .start
  singleSegmentSize : Nat := 0
  segmentsAmount : Nat := 0
  dataSize : Nat := 0
  rtt : Int := SOCKET_TIMEOUT
  last : Int := 0
  cwnd : Nat := CWND_START_VALUE
  cwndMax : Nat := CWND_START_VALUE
  downloading : Bool := true
  deriving DecidableEq

/-- The process: `notReady` and `clientAddress` are locals of `main_loop`. -/
structure Server where
  app : State
  handlers : Dict Nat Handler := Dict.empty
  notReady : Dict Nat Pocket := Dict.empty
  clientAddress : Option Addr := none
  tasks : List Task := []
  /-- the exception that ended the main loop -/
  stopped : Option Exn := none

def appLens : Lens Server State where
  get s := s.app
  put t s := { s with app := t }
  get_put _ _ := rfl

abbrev onApp {α : Type} (x : Prog State α) : Prog Server α := zoom appLens x

/-- `handlers[key]` -/
def getHandler (key : Nat) : Prog Server Handler := reads fun s =>
  match s.handlers.get? key with
  | some h => .ok h
  | none => .error .keyError

/-- `handlers[key] = h`, and every change of the object stored under the key. -/
def setHandler (key : Nat) (h : Handler) : Prog Server Unit :=
  modify fun s => { s with handlers := s.handlers.set key h }

/-- `handlers.pop(key)` -/
def popHandler (key : Nat) : Prog Server Unit := do
  let _ ← getHandler key
  modify fun s => { s with handlers := s.handlers.erase key }

/-- `notReady[key] = res` -/
def setNotReady (key : Nat) (res : Pocket) : Prog Server Unit :=
  modify fun s => { s with notReady := s.notReady.set key res }

/-- `notReady.pop(key)` -/
def popNotReady (key : Nat) : Prog Server Unit := writes fun s =>
  match s.notReady.get? key with
  | some _ => .ok { s with notReady := s.notReady.erase key }
  | none => .error .keyError

-- ============================================================================
-- main_loop
-- ============================================================================

/-- The segments collected so far, in the order of their ids. -/
def assembled (segments : Dict Nat Bytes) : Bytes :=
  (segments.keys.insertionSort (· ≤ ·)).flatMap fun key => (segments.get? key).getD []

/-- Keep a new segment; one that is there already stays. -/
def UploadRequestHandler.store (h : UploadRequestHandler) (segment : SegmentLayer) :
    UploadRequestHandler :=
  if segment.segmentID ∈ h.segments.keys then h
  else { h with segments := h.segments.set segment.segmentID segment.data }

/-- `handle_upload_pocket`, for the handler stored under `key`. -/
def handleUploadPocket (amb : Ambient) (key : Nat) (h : UploadRequestHandler) (pocket : Pocket) :
    Prog Server Bool :=
  match pocket.segmentLayer with
  | none => return true
  | some segment =>
      if pocket.basicLayer.pocketType ≠ .segment then return true
      else do
        let h := h.store segment
        setHandler key (.upload h)
        onApp (sendto (akcPocket h.requestID segment.segmentID) h.clientAddress)
        if h.segments.size = h.segmentsAmount then
          -- upload all
          onApp (sendClose h.clientAddress)
          onApp (postUpload env amb.now h.toRequestHandler (assembled h.segments))
          return false
        else
          return true

/-- Send the responses of unready requests again, but not of the request the
    datagram is about. -/
def resendNotReady (pocket : Pocket) : Prog Server Unit := do
  let s ← get
  each (fun (key, res) => do
    if key = pocket.requestID then return ()
    else
      let h ← getHandler key
      onApp (sendto res h.clientAddress)) s.notReady.entries

/-- `executor.submit(downloading_task, handler)` -/
def submit (key : Nat) : Prog Server Unit :=
  modify fun s => { s with tasks := s.tasks ++ [{ key }] }

def dispatch (amb : Ambient) (pocket : Pocket) (clientAddress : Addr) : Prog Server Unit := do
  if pocket.basicLayer.pocketType = .request then
    match ← onApp (createHandler env amb pocket clientAddress) with
    | none => return ()
    | some (handler, res) =>
        when handler.isDownload (setNotReady handler.requestID res)
        setHandler handler.requestID handler
  else
    let s ← get
    match s.handlers.get? pocket.requestID with
    | some (.upload h) =>
        let more ← handleUploadPocket env amb pocket.requestID h pocket
        when (!more) (popHandler h.requestID)
    | some (.download h) =>
        if h.ready = false then
          setHandler pocket.requestID (.download { h with ready := true })
          popNotReady h.requestID
          submit pocket.requestID
        else
          setHandler pocket.requestID (.download { h with pockets := h.pockets ++ [pocket] })
    | none => onApp (sendClose clientAddress)

/-- One turn of `main_loop` on a datagram; an empty one only sets the address. -/
def iteration (amb : Ambient) (data : Bytes) (clientAddress : Addr) : Prog Server Unit := do
  modify fun s => { s with clientAddress := some clientAddress }
  if data = [] then return ()
  else
    let pocket ← lift (Pocket.fromBytes data)
    resendNotReady pocket
    dispatch env amb pocket clientAddress

-- ============================================================================
-- downloading_task
-- ============================================================================

/-- The download handler of a task. -/
def getDownload (key : Nat) : Prog Server DownloadRequestHandler := do
  match ← getHandler key with
  | .download h => return h
  | .upload _ => throw .assertionError

/-- The assignments before the loop. -/
def taskStart (clk : Readings) (t : Task) : Prog Server Task := do
  let h ← getDownload t.key
  match h.response.bind Pocket.responseLayer with
  | none => throw .assertionError
  | some layer =>
      return { t with
        phase := .head, singleSegmentSize := layer.singleSegmentSize,
        segmentsAmount := layer.segmentsAmount, dataSize := h.data.length, last := clk.now }

/-- The top of the loop: send a segment, or start refreshing the window. -/
def taskHead (clk : Readings) (t : Task) : Prog Server Task := do
  if t.downloading = false then
    return { t with phase := .closing }
  else
    let h ← getDownload t.key
    match h.windowToSend with
    | segmentID :: windowToSend =>
        if t.last + t.rtt > clk.now ∧ h.windowSending.length < t.cwnd then
          let segment := segmentOf h.data t.dataSize t.singleSegmentSize segmentID
          setHandler t.key (.download
            { h with windowToSend, windowSending := h.windowSending ++ [segmentID] })
          -- the address is the variable of `main_loop`, not the handler's
          let s ← get
          match s.clientAddress with
          | none => throw .unboundLocalError
          | some clientAddress =>
              onApp (sendto (segmentPocket h.requestID segmentID segment) clientAddress)
              return t
        else
          return { t with phase := .refresh }
    | [] => return { t with phase := .refresh }

/-- What a queued pocket does to the windows. -/
def receivePocket (h : DownloadRequestHandler) (pocket : Pocket) : DownloadRequestHandler :=
  if pocket.basicLayer.pocketType = .downloadComplited then
    { h with pockets := [] }
  else
    match pocket.akcLayer with
    | some layer =>
        { h with
          windowToSend := h.windowToSend.erase layer.segmentID
          windowSending := h.windowSending.erase layer.segmentID }
    | none => h

/-- A DownloadComplited pocket ends the loop. -/
def Task.afterPocket (t : Task) (pocket : Pocket) : Task :=
  if pocket.basicLayer.pocketType = .downloadComplited then { t with downloading := false } else t

/-- The end of a refresh: what was not acknowledged goes back to the front. -/
def requeue (h : DownloadRequestHandler) : DownloadRequestHandler :=
  { h with windowToSend := h.windowSending ++ h.windowToSend, windowSending := [] }

/-- The window sizes after a refresh, as `(cwnd, cwndMax)`. -/
def nextWindow (t : Task) (lost : Bool) : Nat × Nat :=
  if lost then (max (t.cwnd / 2) 1, t.cwnd)
  else (max (env.growth t.rtt t.cwndMax) 1, t.cwndMax)

/-- One turn of the inner loop: take a queued pocket, or look whether the time is
    over and then requeue. -/
def taskRefresh (clk : Readings) (t : Task) : Prog Server Task := do
  let h ← getDownload t.key
  match h.pockets with
  | pocket :: pockets =>
      setHandler t.key (.download (receivePocket { h with pockets } pocket))
      return t.afterPocket pocket
  | [] =>
      if t.last + t.rtt < clk.now then
        let (cwnd, cwndMax) := nextWindow env t (!h.windowSending.isEmpty)
        setHandler t.key (.download (requeue h))
        return { t with
          phase := .head, cwnd, cwndMax, rtt := clk.rttEnd - t.last, last := clk.lastEnd }
      else
        return t

/-- `send_close(handler.get_client_address())` -/
def taskClose (t : Task) : Prog Server Task := do
  let h ← getDownload t.key
  onApp (sendClose h.clientAddress)
  return { t with phase := .leaving }

/-- `handlers.pop(handler.get_requestID())` -/
def taskLeave (t : Task) : Prog Server Task := do
  let h ← getDownload t.key
  popHandler h.requestID
  return { t with phase := .ended }

/-- One step of a running task. -/
def taskStep (clk : Readings) (t : Task) : Prog Server Task :=
  match t.phase with
  | .start => taskStart clk t
  | .head => taskHead clk t
  | .refresh => taskRefresh env clk t
  | .closing => taskClose t
  | .leaving => taskLeave t
  | .ended => return t
  | .failed _ => return t

-- ============================================================================
-- Steps of the process
-- ============================================================================

/-- `ThreadPoolExecutor(2)` -/
def workers : Nat := 2

def Task.live (t : Task) : Bool :=
  match t.phase with
  | .ended => false
  | .failed _ => false
  | _ => true

/-- What can happen next: `recvfrom` returns a datagram or times out, or a worker
    takes a step of the task at a position of the submission order. -/
inductive Event where
  | recv (data : Bytes) (source : Addr) (amb : Ambient)
  | timeout
  | task (i : Nat) (clk : Readings)

/-- The workers take tasks in the order of submission. -/
def running (s : Server) (i : Nat) : Bool :=
  match s.tasks[i]? with
  | some t => t.live && decide (((s.tasks.take i).filter Task.live).length < workers)
  | none => false

/-- The state after a receive: an exception ends the main loop. -/
def afterRecv : EStateM.Result Exn Server Unit → Server
  | .ok _ s => s
  | .error e s => { s with stopped := some e }

/-- The state after a step of the task at position `i`: an exception ends the task. -/
def afterTask (i : Nat) (t : Task) : EStateM.Result Exn Server Task → Server
  | .ok t' s => { s with tasks := s.tasks.set i t' }
  | .error e s => { s with tasks := s.tasks.set i { t with phase := .failed e } }

/-- One step of the process.  The main loop receives until an exception ends it;
    its workers go on. -/
def step (s : Server) : Event → Option Server
  | .recv data source amb =>
      if s.stopped = none then some (afterRecv (iteration env amb data source s)) else none
  | .timeout => if s.stopped = none then some s else none
  | .task i clk =>
      match s.tasks[i]? with
      | some t => if running s i then some (afterTask i t (taskStep env clk t s)) else none
      | none => none

/-- The process at the start of `main_loop`. -/
def Server.init (fs : FileTree) : Server := { app := { fs, lastRequestID := 0, log := [] } }

end App
end NetworkingFinal
