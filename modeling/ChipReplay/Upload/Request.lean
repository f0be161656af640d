import ChipReplay.Bytes.Basic
import ChipReplay.Upload.Destination
/-!
# Control requests

The host steers the device by three vendor requests. A request is a setup stage of eight bytes
and, for opening an upload, eight bytes of data. `encode` writes a request and `decode` reads
one, refusing what is no request with the first rule it breaks.
-/

namespace ChipReplay

/-- The setup stage of a control transfer. -/
structure Setup where
  requestType : UInt8
  request : UInt8
  value : UInt16
  index : UInt16
  length : UInt16
deriving DecidableEq

namespace Setup

/-- Direction bit of a request type, and of a request code. -/
def directionIn : UInt8 := 0x80

/-- The setup of a vendor request to interface 0, with the direction of its code. -/
def vendor (request : UInt8) (value length : UInt16) : Setup where
  requestType := (request &&& directionIn) ||| 0x40 ||| 0x01
  request := request
  value := value
  index := 0
  length := length

/-- Whether the request is a vendor request. -/
def isVendor (s : Setup) : Bool := s.requestType &&& 0x60 == 0x40

/-- Whether data goes from the device to the host. -/
def isRead (s : Setup) : Bool := s.requestType &&& directionIn != 0

/-- Whether the request is addressed to interface 0. -/
def isInterfaceScoped (s : Setup) : Bool := s.index == 0 && s.requestType &&& 0x1F == 0x01

end Setup

/-- A vendor request. -/
inductive Request where
  | readStatus
  | startPlayback
  /-- Opens an upload of `length` bytes from `start` on. -/
  | openUpload (destination : Destination) (start length : UInt32)
deriving DecidableEq

namespace Request

/-- Request codes. -/
def openUploadCode : UInt8 := 0x00
@[inherit_doc openUploadCode]
def startPlaybackCode : UInt8 := 0x01
@[inherit_doc openUploadCode]
def readStatusCode : UInt8 := 0x80

/-- What the device answers when its status is read. -/
def statusData : ByteArray := ⟨#[0x55, 0xAA]⟩

/-- Bytes of data in a request to open an upload. -/
def payloadSize : Nat := 8

/-- The request to open an upload that has selector `value` and the given data. -/
def decodeOpenUpload (value : UInt16) (data : ByteArray) : Except UploadError Request := do
  let destination ← Destination.ofSelector value
  if data.size ≠ payloadSize then throw (.payloadLength data.size)
  let start ← (Bytes.word32At data 0).mapError fun _ => .payloadLength data.size
  let length ← (Bytes.word32At data 4).mapError fun _ => .payloadLength data.size
  if length = 0 then throw .zeroLength
  return .openUpload destination start length

/-- The request that `setup` and `data` make, none if it is no vendor request. -/
def decode (setup : Setup) (data : ByteArray) : Except UploadError (Option Request) :=
  if !setup.isVendor then .ok none
  else if (setup.requestType ^^^ setup.request) &&& Setup.directionIn ≠ 0 then
    .error (.directionMismatch setup.request)
  else if !setup.isInterfaceScoped then .error .notInterfaceScoped
  else if setup.request = readStatusCode then .ok (some .readStatus)
  else if setup.request = startPlaybackCode then .ok (some .startPlayback)
  else if setup.request = openUploadCode then (decodeOpenUpload setup.value data).map some
  else .error (.unknownRequest setup.request)

/-- The setup stage and the data of a request. -/
def encode : Request → Setup × ByteArray
  | readStatus => (.vendor readStatusCode 0 (UInt16.ofNat statusData.size), .empty)
  | startPlayback => (.vendor startPlaybackCode 0 0, .empty)
  | openUpload destination start length =>
    (.vendor openUploadCode destination.selector (UInt16.ofNat payloadSize),
      Bytes.le32 start ++ Bytes.le32 length)

end Request
end ChipReplay
