/-
  NetworkingFinal.Ftp.Pocket

  The pockets of the storage application and of its client (src/lib/ftp.py):
  every layer with its length, its encoder and its decoder, and `Pocket`, which
  encodes by the layers present and decodes by the two type bytes.

  A layer object is always true in Python (its `__len__` is positive), so a test
  `if self.requestLayer:` asks whether the layer is there.
-/
import NetworkingFinal.Py.Struct

namespace NetworkingFinal
namespace Ftp

open Py Py.Struct

-- ============================================================================
-- Types
-- ============================================================================

/-- Type of packet of app -/
inductive PocketType where
  | unknown
  | request
  | response
  | readyForDownloading
  | segment
  | ack
  | downloadComplited
  | close
  deriving DecidableEq, Repr

def PocketType.code : PocketType → Nat
  | .unknown => 0
  | .request => 1
  | .response => 2
  | .readyForDownloading => 3
  | .segment => 4
  | .ack => 5
  | .downloadComplited => 6
  | .close => 7

/-- `PocketType(n)` -/
def PocketType.ofCode : Nat → Except Exn PocketType
  | 0 => .ok .unknown
  | 1 => .ok .request
  | 2 => .ok .response
  | 3 => .ok .readyForDownloading
  | 4 => .ok .segment
  | 5 => .ok .ack
  | 6 => .ok .downloadComplited
  | 7 => .ok .close
  | _ => .error .valueError

@[simp] theorem PocketType.ofCode_code (t : PocketType) : ofCode t.code = .ok t := by
  cases t <;> rfl

/-- Request type -/
inductive PocketSubType where
  | unknown
  | upload
  | download
  | list
  | delete
  deriving DecidableEq, Repr

def PocketSubType.code : PocketSubType → Nat
  | .unknown => 0
  | .upload => 1
  | .download => 2
  | .list => 3
  | .delete => 4

/-- `PocketSubType(n)` -/
def PocketSubType.ofCode : Nat → Except Exn PocketSubType
  | 0 => .ok .unknown
  | 1 => .ok .upload
  | 2 => .ok .download
  | 3 => .ok .list
  | 4 => .ok .delete
  | _ => .error .valueError

@[simp] theorem PocketSubType.ofCode_code (t : PocketSubType) : ofCode t.code = .ok t := by
  cases t <;> rfl

-- ============================================================================
-- RUDP level
-- ============================================================================

/-- The base layer of all the packets -/
structure BasicLayer where
  requestID : Nat
  pocketType : PocketType := .unknown
  pocketSubType : PocketSubType := .unknown
  deriving DecidableEq, Repr

namespace BasicLayer

def fromBytes (data : Bytes) (offset : Nat) : Except Exn BasicLayer := do
  match ← unpackFrom .native [.B, .B, .Q] data offset with
  | [pocketType, pocketSubType, requestID] =>
      return ⟨requestID, ← PocketType.ofCode pocketType, ← PocketSubType.ofCode pocketSubType⟩
  | _ => throw .structError

def len (_ : BasicLayer) : Nat := calcsize .native [.B, .B, .Q]

def toBytes (l : BasicLayer) : Except Exn Bytes :=
  pack .native [.B, .B, .Q] [l.pocketType.code, l.pocketSubType.code, l.requestID]

end BasicLayer

structure RequestLayer where
  pocketFullSize : Nat
  maxSingleSegmentSize : Nat
  anonymous : Bool
  userName : Str
  password : Str
  deriving DecidableEq, Repr

namespace RequestLayer

def fromBytes (data : Bytes) (offset : Nat) : Except Exn RequestLayer := do
  match ← unpackFrom .native [.Q, .Q, .bool, .I] data offset with
  | [pocketFullSize, maxSingleSegmentSize, anonymous, userNameLength] =>
      let offset := offset + calcsize .native [.Q, .Q, .bool, .I]
      if anonymous ≠ 0 then
        return ⟨pocketFullSize, maxSingleSegmentSize, true, [], []⟩
      else
        -- an empty slice decodes to the empty string
        let userName ← decode (slice data offset (offset + userNameLength))
        let offset := offset + userNameLength
        match ← unpackFrom .native [.I] data offset with
        | [passwordLength] =>
            let offset := offset + calcsize .native [.I]
            let password ← decode (slice data offset (offset + passwordLength))
            return ⟨pocketFullSize, maxSingleSegmentSize, false, userName, password⟩
        | _ => throw .structError
  | _ => throw .structError

/-- Lengths of strings count characters, not the bytes they are sent as. -/
def len (l : RequestLayer) : Nat :=
  calcsize .native [.Q, .Q, .bool, .I] + l.userName.length + calcsize .native [.I]
    + l.password.length

def toBytes (l : RequestLayer) : Except Exn Bytes := do
  let head ← pack .native [.Q, .Q, .bool, .I]
    [l.pocketFullSize, l.maxSingleSegmentSize, l.anonymous.toNat, l.userName.length]
  let mid ← pack .native [.I] [l.password.length]
  return head ++ encode l.userName ++ mid ++ encode l.password

end RequestLayer

structure ResponseLayer where
  ok : Bool
  errorMessage : Str
  dataSize : Nat
  segmentsAmount : Nat
  singleSegmentSize : Nat
  deriving DecidableEq, Repr

namespace ResponseLayer

def fromBytes (data : Bytes) (offset : Nat) : Except Exn ResponseLayer := do
  match ← unpackFrom .native [.bool, .B] data offset with
  | [ok, errorMessageLength] =>
      let offset := offset + calcsize .native [.bool, .B]
      let errorMessage ← decode (slice data offset (offset + errorMessageLength))
      let offset := offset + errorMessageLength
      match ← unpackFrom .native [.Q, .Q, .Q] data offset with
      | [dataSize, segmentsAmount, singleSegmentSize] =>
          return ⟨ok != 0, errorMessage, dataSize, segmentsAmount, singleSegmentSize⟩
      | _ => throw .structError
  | _ => throw .structError

def len (l : ResponseLayer) : Nat :=
  calcsize .native [.bool, .B] + l.errorMessage.length + calcsize .native [.Q, .Q, .Q]

def toBytes (l : ResponseLayer) : Except Exn Bytes := do
  let head ← pack .native [.bool, .B] [l.ok.toNat, l.errorMessage.length]
  let tail ← pack .native [.Q, .Q, .Q] [l.dataSize, l.segmentsAmount, l.singleSegmentSize]
  return head ++ encode l.errorMessage ++ tail

end ResponseLayer

structure SegmentLayer where
  segmentID : Nat
  data : Bytes
  deriving DecidableEq, Repr

namespace SegmentLayer

def fromBytes (data : Bytes) (offset : Nat) : Except Exn SegmentLayer := do
  match ← unpackFrom .native [.Q, .I] data offset with
  | [segmentID, segmentLength] =>
      let offset := offset + calcsize .native [.Q, .I]
      return ⟨segmentID, slice data offset (offset + segmentLength)⟩
  | _ => throw .structError

def len (l : SegmentLayer) : Nat := calcsize .native [.Q, .I] + l.data.length

def toBytes (l : SegmentLayer) : Except Exn Bytes := do
  let head ← pack .native [.Q, .I] [l.segmentID, l.data.length]
  return head ++ l.data

end SegmentLayer

/-- AKC for a segment -/
structure AKCLayer where
  segmentID : Nat
  deriving DecidableEq, Repr

namespace AKCLayer

def fromBytes (data : Bytes) (offset : Nat) : Except Exn AKCLayer := do
  match ← unpackFrom .native [.Q] data offset with
  | [segmentID] => return ⟨segmentID⟩
  | _ => throw .structError

def len (_ : AKCLayer) : Nat := calcsize .native [.Q]

def toBytes (l : AKCLayer) : Except Exn Bytes := pack .native [.Q] [l.segmentID]

end AKCLayer

-- ============================================================================
-- FTP level
-- ============================================================================

/-- The only field of the upload, download and delete layers: a length and that
    many bytes of path. -/
def unpackPath (data : Bytes) (offset : Nat) : Except Exn Str := do
  match ← unpackFrom .native [.I] data offset with
  | [length] =>
      let offset := offset + calcsize .native [.I]
      decode (slice data offset (offset + length))
  | _ => throw .structError

def packPath (path : Str) : Except Exn Bytes := do
  let head ← pack .native [.I] [path.length]
  return head ++ encode path

/-- Upload file Request Layer over RequestLayer -/
structure UploadRequestLayer where
  path : Str
  deriving DecidableEq, Repr

def UploadRequestLayer.fromBytes (data : Bytes) (offset : Nat) :
    Except Exn UploadRequestLayer := do
  return ⟨← unpackPath data offset⟩

def UploadRequestLayer.toBytes (l : UploadRequestLayer) : Except Exn Bytes := packPath l.path

/-- Download file Request layer over RequestLayer -/
structure DownloadRequestLayer where
  path : Str
  deriving DecidableEq, Repr

def DownloadRequestLayer.fromBytes (data : Bytes) (offset : Nat) :
    Except Exn DownloadRequestLayer := do
  return ⟨← unpackPath data offset⟩

def DownloadRequestLayer.toBytes (l : DownloadRequestLayer) : Except Exn Bytes := packPath l.path

/-- List Request layer over RequestLayer -/
structure ListRequestLayer where
  path : Str
  recursive : Bool
  deriving DecidableEq, Repr

def ListRequestLayer.fromBytes (data : Bytes) (offset : Nat) :
    Except Exn ListRequestLayer := do
  match ← unpackFrom .native [.I] data offset with
  | [directoryPathLength] =>
      let offset := offset + calcsize .native [.I]
      let directoryPath := slice data offset (offset + directoryPathLength)
      let offset := offset + directoryPathLength
      match ← unpackFrom .native [.bool] data offset with
      | [recursive] => return ⟨← decode directoryPath, recursive != 0⟩
      | _ => throw .structError
  | _ => throw .structError

def ListRequestLayer.toBytes (l : ListRequestLayer) : Except Exn Bytes := do
  let head ← packPath l.path
  let tail ← pack .native [.bool] [l.recursive.toNat]
  return head ++ tail

/-- Delete Request layer over RequestLayer -/
structure DeleteRequestLayer where
  path : Str
  deriving DecidableEq, Repr

def DeleteRequestLayer.fromBytes (data : Bytes) (offset : Nat) :
    Except Exn DeleteRequestLayer := do
  return ⟨← unpackPath data offset⟩

def DeleteRequestLayer.toBytes (l : DeleteRequestLayer) : Except Exn Bytes := packPath l.path

/-- Delete Response layer over ResponseLayer -/
structure DeleteResponseLayer where
  isFile : Bool
  deriving DecidableEq, Repr

def DeleteResponseLayer.fromBytes (data : Bytes) (offset : Nat) :
    Except Exn DeleteResponseLayer := do
  match ← unpackFrom .native [.bool] data offset with
  | [isFile] => return ⟨isFile != 0⟩
  | _ => throw .structError

def DeleteResponseLayer.len (_ : DeleteResponseLayer) : Nat := calcsize .native [.bool]

def DeleteResponseLayer.toBytes (l : DeleteResponseLayer) : Except Exn Bytes :=
  pack .native [.bool] [l.isFile.toNat]

-- ============================================================================
-- Pocket
-- ============================================================================

/-- Represent a single pocket -/
structure Pocket where
  basicLayer : BasicLayer
  requestLayer : Option RequestLayer := none
  responseLayer : Option ResponseLayer := none
  segmentLayer : Option SegmentLayer := none
  akcLayer : Option AKCLayer := none
  uploadRequestLayer : Option UploadRequestLayer := none
  downloadRequestLayer : Option DownloadRequestLayer := none
  listRequestLayer : Option ListRequestLayer := none
  deleteRequestLayer : Option DeleteRequestLayer := none
  deleteResponseLayer : Option DeleteResponseLayer := none
  deriving DecidableEq, Repr

namespace Pocket

/-- Load pocket from bytes -/
def fromBytes (data : Bytes) : Except Exn Pocket := do
  let basicLayer ← BasicLayer.fromBytes data 0
  let offset := basicLayer.len
  match basicLayer.pocketType with
  | .request =>
      let requestLayer ← RequestLayer.fromBytes data offset
      let offset := offset + requestLayer.len
      match basicLayer.pocketSubType with
      | .upload =>
          let layer ← UploadRequestLayer.fromBytes data offset
          return { basicLayer, requestLayer, uploadRequestLayer := layer }
      | .download =>
          let layer ← DownloadRequestLayer.fromBytes data offset
          return { basicLayer, requestLayer, downloadRequestLayer := layer }
      | .list =>
          let layer ← ListRequestLayer.fromBytes data offset
          return { basicLayer, requestLayer, listRequestLayer := layer }
      | .delete =>
          let layer ← DeleteRequestLayer.fromBytes data offset
          return { basicLayer, requestLayer, deleteRequestLayer := layer }
      | .unknown => return { basicLayer, requestLayer }
  | .response =>
      let responseLayer ← ResponseLayer.fromBytes data offset
      let offset := offset + responseLayer.len
      if basicLayer.pocketSubType = .delete then
        let layer ← DeleteResponseLayer.fromBytes data offset
        return { basicLayer, responseLayer, deleteResponseLayer := layer }
      else
        return { basicLayer, responseLayer }
  | .segment => return { basicLayer, segmentLayer := ← SegmentLayer.fromBytes data offset }
  | .ack => return { basicLayer, akcLayer := ← AKCLayer.fromBytes data offset }
  | _ => return { basicLayer }

/-- The layers behind the basic layer, picked by which are present. -/
def layerBytes (p : Pocket) : Except Exn Bytes :=
  match p.requestLayer, p.responseLayer, p.segmentLayer, p.akcLayer with
  | some requestLayer, _, _, _ => do
      let head ← requestLayer.toBytes
      match p.uploadRequestLayer, p.downloadRequestLayer, p.listRequestLayer,
          p.deleteRequestLayer with
      | some l, _, _, _ => return head ++ (← l.toBytes)
      | none, some l, _, _ => return head ++ (← l.toBytes)
      | none, none, some l, _ => return head ++ (← l.toBytes)
      | none, none, none, some l => return head ++ (← l.toBytes)
      | none, none, none, none => return head
  | none, some responseLayer, _, _ => do
      let head ← responseLayer.toBytes
      match p.deleteResponseLayer with
      | some l => return head ++ (← l.toBytes)
      | none => return head
  | none, none, some segmentLayer, _ => segmentLayer.toBytes
  | none, none, none, some akcLayer => akcLayer.toBytes
  | none, none, none, none => .ok []

/-- `bytes(pocket)` -/
def toBytes (p : Pocket) : Except Exn Bytes := do
  let head ← p.basicLayer.toBytes
  let tail ← p.layerBytes
  return head ++ tail

/-- The bytes of a pocket; none when it does not encode. -/
def datagram (p : Pocket) : Bytes := p.toBytes.toOption.getD []

/-- The request id every pocket carries. -/
abbrev requestID (p : Pocket) : Nat := p.basicLayer.requestID

end Pocket

-- ============================================================================
-- The pockets the two parties build
-- ============================================================================

/-- `Pocket(BasicLayer(requestID, PocketType.Segment))` with its segment layer. -/
def segmentPocket (requestID segmentID : Nat) (data : Bytes) : Pocket :=
  { basicLayer := ⟨requestID, .segment, .unknown⟩, segmentLayer := some ⟨segmentID, data⟩ }

/-- `Pocket(BasicLayer(requestID, PocketType.ACK))` with its ACK layer. -/
def akcPocket (requestID segmentID : Nat) : Pocket :=
  { basicLayer := ⟨requestID, .ack, .unknown⟩, akcLayer := some ⟨segmentID⟩ }

/-- The pocket that asks for the first segment.  It is given an ACK layer, which
    is sent but which no receiver decodes for this type. -/
def readyPocket (requestID : Nat) : Pocket :=
  { basicLayer := ⟨requestID, .readyForDownloading, .unknown⟩, akcLayer := some ⟨0⟩ }

def complitedPocket (requestID : Nat) : Pocket :=
  { basicLayer := ⟨requestID, .downloadComplited, .unknown⟩ }

/-- A Close pocket carries the request id 0. -/
def closePocket : Pocket := { basicLayer := ⟨0, .close, .unknown⟩ }

end Ftp
end NetworkingFinal
