/-
  NetworkingFinal.Client.Files

  What the upload and the download command do on the client's disk
  (src/client/commands.py): the body an upload is made of, and where a download is
  saved.  Their paths are as the user typed them.
-/
import NetworkingFinal.Client.Commands
import NetworkingFinal.Py.Archive

namespace NetworkingFinal
namespace Client

open Py Py.Prog Py.Os Py.PosixPath Py.Struct Py.Archive Ftp

/-- What the client runs in: its working directory, and zipfile, as the storage
    application has them. -/
structure Host where
  cwd : Str
  cwd_abs : isabs cwd = true
  cwd_plain : ∀ c ∈ comps cwd, Plain c
  zipMembers : Bytes → Option (List ZipFile.Member)
  zipBytes : List (Str × Bytes) → Bytes

/-- What a path of the client leads to. -/
abbrev Host.place (host : Host) (p : Str) : Path := comps (abspath host.cwd p)

variable (host : Host)

/-- The first part of `upload_command`: load the file, or the archive of the directory.
    Nothing is sent when there is neither. -/
def loadUpload (targetName destination : Str) : Prog FileTree (Option Command) := do
  let file ← isfileTyped host.cwd targetName
  if file then
    let content ← readFile host.cwd targetName
    return some (.upload true content destination)
  else
    let directory ← isdir host.cwd targetName
    if directory then
      let members ← packFiles host.cwd targetName (join targetName ".".toList)
      return some (.upload false (host.zipBytes members) destination)
    else
      return none

/-- The first part of `download_command`: what is at the destination goes. -/
def clearDestination (now : UInt64) (destination : Str) : Prog FileTree Unit := do
  let file ← isfileTyped host.cwd destination
  when file (remove host.cwd destination)
  let directory ← isdir host.cwd destination
  when directory (rmtreeTyped host.cwd destination)
  let there ← isdir host.cwd (dirname destination)
  when (!there) (mkdir host.cwd now (dirname destination))

/-- `open(p, "ab").write(data)` -/
def appendFile (cwd : Str) (now : UInt64) (p : Str) (data : Bytes) : Prog FileTree Unit :=
  update cwd (fun t q => put (.file ((t.fileAt q).getD [] ++ data) now) t q) p

/-- The last part of `download_command`: save what was downloaded. -/
def saveDownload (now : UInt64) (destination : Str) (data : Bytes) : Prog FileTree Unit := do
  let flag ← reads fun _ => unpackFrom .native [.bool] data 0
  let data := data.drop (calcsize .native [.bool])
  if flag ≠ [0] then
    appendFile host.cwd now destination data
  else
    match host.zipMembers data with
    | none => throw .badZipFile
    | some members => ZipFile.extractall host.cwd now destination members

/-- How the network answers `download_command`: whether the request goes out, the one
    datagram it waits for, and what `download_data` ends with. -/
structure Network where
  sendto : Bytes → Except Exn Unit
  recvfrom : Except Exn Bytes
  downloadData : Pocket → Except Exn Bytes

/-- The middle part of `download_command`, which touches no file.  Without data the
    command has printed an error and returned. -/
def Network.exchange (net : Network) (options : Options) (targetName : Str) :
    Except Exn (Option Bytes) := do
  net.sendto (← ((Command.download targetName).reqPocket options).toBytes)
  let data ← net.recvfrom
  let resPocket ← Pocket.fromBytes data
  match resPocket.responseLayer with
  | none => return none
  | some layer =>
      if layer.ok = false then return none
      else return some (← net.downloadData resPocket)

/-- `download_command` -/
def downloadCommand (now now' : UInt64) (options : Options) (targetName destination : Str)
    (net : Network) : Prog FileTree Unit := do
  clearDestination host now destination
  match ← lift (net.exchange options targetName) with
  | none => return ()
  | some data => saveDownload host now' destination data

end Client
end NetworkingFinal
