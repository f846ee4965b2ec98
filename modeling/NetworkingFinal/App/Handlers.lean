/-
  NetworkingFinal.App.Handlers

  The request handlers (src/app/handlers.py): the state each kind keeps, the four
  `route` methods that check a request and carry it out, and `postUpload`.

  Logging and the profiler are left out.
-/
import NetworkingFinal.App.Storage
import NetworkingFinal.Ftp.Blocks

namespace NetworkingFinal
namespace App

open Py Py.Prog Py.Os Py.PosixPath Py.Struct Ftp

-- ============================================================================
-- Handlers
-- ============================================================================

structure RequestHandler where
  request : Pocket
  clientAddress : Addr
  storagePath : Str
  requestID : Nat := 0
  deriving DecidableEq

structure UploadRequestHandler extends RequestHandler where
  segments : Dict Nat Bytes := Dict.empty
  segmentsAmount : Nat := 0
  deriving DecidableEq

/-- `response` is unset until the request is opened. -/
structure DownloadRequestHandler extends RequestHandler where
  data : Bytes := []
  windowToSend : List Nat := []
  windowSending : List Nat := []
  ready : Bool := false
  response : Option Pocket := none
  pockets : List Pocket := []
  deriving DecidableEq

/-- The handlers by the two classes the main loop tells apart; Download, List and
    Delete requests are all served by a download handler. -/
inductive Handler where
  | upload (h : UploadRequestHandler)
  | download (h : DownloadRequestHandler)
  deriving DecidableEq

namespace Handler

def base : Handler → RequestHandler
  | .upload h => h.toRequestHandler
  | .download h => h.toRequestHandler

/-- `isinstance(handler, DownloadRequestHandler)` -/
def isDownload : Handler → Bool
  | .upload _ => false
  | .download _ => true

/-- `get_requestID` -/
abbrev requestID (h : Handler) : Nat := h.base.requestID

/-- `get_client_address` -/
abbrev clientAddress (h : Handler) : Addr := h.base.clientAddress

end Handler

/-- What a `route` method hands back: the request id it drew, the Response
    without its response layer, and the data to download. -/
structure Routed where
  requestID : Nat
  res : Pocket
  data : Option Bytes

variable (env : Env)

/-- `self.send_error(..)`, then `return None`. -/
def refuse {α : Type} (h : RequestHandler) (errorMessage : Str) : Prog State (Option α) := do
  sendError errorMessage h.clientAddress
  return none

/-- `Pocket(BasicLayer(requestID, PocketType.Response, subType))` -/
def responsePocket (requestID : Nat) (subType : PocketSubType) : Pocket :=
  { basicLayer := ⟨requestID, .response, subType⟩ }

-- ============================================================================
-- Upload
-- ============================================================================

/-- `UploadFileRequestHandler.route` -/
def uploadRoute (h : RequestHandler) : Prog State (Option Routed) :=
  match h.request.uploadRequestLayer with
  | none => refuse h "This is not upload request".toList
  | some layer => do
      if layer.path.length > FILE_PATH_MAX_LENGTH then
        refuse h "The file path cannot be more then 256 chars".toList
      else
        let legal ← lift (inStorage env layer.path h.storagePath)
        if legal = false then
          refuse h ("The path ".toList ++ layer.path ++ " is not legal".toList)
        else
          let requestID ← createNewRequestID
          return some ⟨requestID, responsePocket requestID .upload, none⟩

/-- Save the uploaded file or directory.  The first byte of the data tells which it is. -/
def saveUpload (now : UInt64) (targetPath : Str) (data : Bytes) : Prog FileTree Unit := do
  let flag ← reads fun _ => unpackFrom .native [.bool] data 0
  let data := data.drop (calcsize .native [.bool])
  if flag ≠ [0] then
    writeFile env.cwd now targetPath data
  else
    match env.zipMembers data with
    | none => throw .badZipFile
    | some members => ZipFile.extractall env.cwd now targetPath members

/-- The file work of `post_upload`: replace what is at the path by what was uploaded. -/
def storeUpload (now : UInt64) (targetPath : Str) (data : Bytes) : Prog FileTree Unit := do
  let directoyPath := dirname targetPath
  -- delete the file / directory if already exists
  let file ← isfile env.cwd targetPath
  when file (remove env.cwd targetPath)
  let directory ← isdir env.cwd targetPath
  when directory (rmtree env.cwd targetPath)
  when (directoyPath ≠ []) do
    let there ← isdir env.cwd directoyPath
    when (!there) (makedirs env.cwd now directoyPath)
  saveUpload env now targetPath data

/-- `UploadFileRequestHandler.post_upload` -/
def postUpload (now : UInt64) (h : RequestHandler) (data : Bytes) : Prog State Unit := do
  record (.postUpload h.requestID data)
  match h.request.uploadRequestLayer with
  | none => throw .assertionError
  | some layer => onFiles (storeUpload env now (getPath env layer.path h.storagePath) data)

-- ============================================================================
-- Download
-- ============================================================================

/-- Whether the path is a file (True) or a directory (False), or nothing. -/
def probe (targetPath : Str) : Prog FileTree (Option Bool) := do
  let file ← isfile env.cwd targetPath
  if file then return some true
  else
    let directory ← isdir env.cwd targetPath
    return if directory then some false else none

def missingMessage (path : Str) : Str :=
  "The file / directory \"".toList ++ path ++ "\" dos not exists!".toList

/-- The archive of the files of a directory, under their paths from the storage
    root. -/
def archive (h : RequestHandler) (targetPath : Str) : Prog FileTree Bytes := do
  let fuel ← depthBound env.cwd targetPath
  let directories ← walkFiles env.cwd fuel targetPath
  let files := directories.flatMap fun (root, names) => names.map (join root)
  let start := join targetPath (getPath env ".".toList h.storagePath)
  let members ← collect (fun file => do
    let data ← readFile env.cwd file
    return (relpath env.cwd file start, data)) files
  return env.zipBytes members

/-- `DownloadFileRequestHandler.route` -/
def downloadRoute (h : RequestHandler) : Prog State (Option Routed) :=
  match h.request.downloadRequestLayer with
  | none => refuse h "This is not download request".toList
  | some layer => do
      let targetPath := getPath env layer.path h.storagePath
      match ← onFiles (probe env targetPath) with
      | none => refuse h (missingMessage layer.path)
      | some isFile =>
          let legal ← lift (inStorage env layer.path h.storagePath)
          if legal = false then
            refuse h (missingMessage layer.path)
          else
            let flag ← lift (pack .native [.bool] [isFile.toNat])
            let content ← onFiles
              (if isFile then readFile env.cwd targetPath else archive env h targetPath)
            let requestID ← createNewRequestID
            return some ⟨requestID, responsePocket requestID .download, some (flag ++ content)⟩

-- ============================================================================
-- List
-- ============================================================================

/-- `ListRequestHandler.load_directory` -/
def loadDirectory : Nat → Str → Str → Bool → Prog FileTree Bytes
  | 0, _, _, _ => throw .diverges
  | fuel + 1, directoryPath, parent, recursive => do
      let path := fun name => directoryPath ++ ['/'] ++ name
      let directoriesAndFiles ← listdir env.cwd directoryPath
      let directories ← select (fun name => isdir env.cwd (path name)) directoriesAndFiles
      let files ← select (fun name => isfile env.cwd (path name)) directoriesAndFiles
      let directoryBlocks ← collect (fun name => do
        let updatedAt ← getmtime env.cwd (path name)
        let block ← reads fun _ => packDirectoryBlock (parent ++ name) updatedAt
        if recursive then
          let content ← loadDirectory fuel (path name) (parent ++ name ++ ['/']) recursive
          return block ++ content
        else
          return block) (sortNames directories)
      let fileBlocks ← collect (fun name => do
        let updatedAt ← getmtime env.cwd (path name)
        let size ← fileSize env.cwd (path name)
        reads fun _ => packFileBlock (parent ++ name) updatedAt size) (sortNames files)
      return directoryBlocks.flatten ++ fileBlocks.flatten

def missingDirectoryMessage (path : Str) : Str :=
  "The directory \"".toList ++ path ++ "\" dos not exists!".toList

/-- `ListRequestHandler.route` -/
def listRoute (h : RequestHandler) : Prog State (Option Routed) :=
  match h.request.listRequestLayer with
  | none => refuse h "This is not list request".toList
  | some layer => do
      let directoryPath := getPath env layer.path h.storagePath
      let directory ← onFiles (isdir env.cwd directoryPath)
      if directory = false then
        refuse h (missingDirectoryMessage layer.path)
      else
        let legal ← lift (inStorage env layer.path h.storagePath)
        if legal = false then
          refuse h (missingDirectoryMessage layer.path)
        else
          let fuel ← onFiles (depthBound env.cwd directoryPath)
          let data ← onFiles (loadDirectory env fuel directoryPath [] layer.recursive)
          let requestID ← createNewRequestID
          return some ⟨requestID, responsePocket requestID .list, some data⟩

-- ============================================================================
-- Delete
-- ============================================================================

/-- One entry of the root folder goes. -/
def removeEntry (path : Str) : Prog FileTree Unit := do
  let file ← isfile env.cwd path
  if file then
    remove env.cwd path
  else
    let directory ← isdir env.cwd path
    when directory (rmtree env.cwd path)

/-- The file work of a Delete request for a directory: the root folder, told by
    its path string, only loses its content. -/
def deleteDirectory (h : RequestHandler) (targetPath : Str) : Prog FileTree Unit :=
  if targetPath = getPath env ".".toList h.storagePath then do
    let names ← listdir env.cwd targetPath
    each (fun name => removeEntry env (targetPath ++ ['/'] ++ name)) names
  else
    rmtree env.cwd targetPath

/-- `DeleteRequestHandler.route` -/
def deleteRoute (h : RequestHandler) : Prog State (Option Routed) :=
  match h.request.deleteRequestLayer with
  | none => refuse h "This is not delete request".toList
  | some layer => do
      let targetPath := getPath env layer.path h.storagePath
      match ← onFiles (probe env targetPath) with
      | none => refuse h (missingMessage layer.path)
      | some isFile =>
          let legal ← lift (inStorage env layer.path h.storagePath)
          if legal = false then
            refuse h (missingMessage layer.path)
          else
            onFiles
              (if isFile then remove env.cwd targetPath else deleteDirectory env h targetPath)
            let requestID ← createNewRequestID
            return some ⟨requestID,
              { responsePocket requestID .delete with deleteResponseLayer := some ⟨isFile⟩ },
              some []⟩

end App
end NetworkingFinal
