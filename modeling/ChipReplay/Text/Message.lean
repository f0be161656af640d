import ChipReplay.Bench
/-!
# The wording of errors

Each error has one text. An error that wraps another one lists the texts of both in `causes`,
the outer one first.
-/

namespace ChipReplay

/-- The text of a failed read. -/
def OutOfRange.message (e : OutOfRange) : String :=
  "offset out of range: 0x" ++ Hex.upper e.offset ++ " (needed " ++ toString e.needed
    ++ " bytes, available " ++ toString e.available ++ ")"

/-- The text of a header error. -/
def HeaderError.message : HeaderError → String
  | badIdent found => "VGM identity string not found (got " ++ Hex.byteList found ++ ")"
  | truncated cause => "VGM header truncated: " ++ cause.message

/-- The texts of a header error and of what caused it. -/
def HeaderError.causes : HeaderError → List String
  | badIdent found => [message (badIdent found)]
  | truncated cause => [message (truncated cause), cause.message]

/-- The text of a playback error. -/
def PlayError.message : PlayError → String
  | header cause => cause.message
  | startOutOfRange start =>
    "VGM data offset 0x" ++ Hex.upper start.toNat ++ " is outside the linear playback area"
  | unexpectedOpcode opcode offset =>
    "unsupported command 0x" ++ Hex.padTo 2 (Hex.upper opcode.toNat) ++ " at stream offset 0x"
      ++ Hex.upper offset.toNat
  | dataBlock offset =>
    "data block at stream offset 0x" ++ Hex.upper offset.toNat
      ++ ": blocks must be stripped before playback"
  | notStarted => "player used before initialization"

/-- The text of a refusal. -/
def UploadError.message : UploadError → String
  | overrun received remaining =>
    "received " ++ toString received ++ " bytes with only " ++ toString remaining
      ++ " remaining in the session"
  | unknownDestination selector => "unexpected write mode: 0x" ++ Hex.upper selector.toNat
  | payloadLength length => "expected 8 bytes of write mode payload (got " ++ toString length ++ ")"
  | zeroLength => "expected non-zero write length"
  | unknownRequest code => "unknown vendor request 0x" ++ Hex.padTo 2 (Hex.upper code.toNat)
  | directionMismatch code =>
    "request 0x" ++ Hex.padTo 2 (Hex.upper code.toNat) ++ " sent with the wrong direction"
  | notInterfaceScoped => "request is not addressed to interface 0"
  | outOfBounds offset length capacity =>
    "write of " ++ toString length ++ " bytes at 0x" ++ Hex.upper offset ++ " exceeds 0x"
      ++ Hex.upper capacity ++ " byte target"

/-- The text of a preparation error. -/
def PrepareError.message : PrepareError → String
  | truncated cause => "truncated VGM: " ++ cause.message
  | badIdent found => "invalid ident: " ++ Hex.byteList found
  | unknownCommand opcode offset =>
    "unrecognized command byte 0x" ++ Hex.padTo 2 (Hex.upper opcode.toNat) ++ " at offset 0x"
      ++ Hex.upper offset
  | unsupportedBlock type offset =>
    "unexpected data block type 0x" ++ Hex.padTo 2 (Hex.upper type.toNat) ++ " at offset 0x"
      ++ Hex.upper offset
  | emptyRom offset =>
    "data block at offset 0x" ++ Hex.upper offset ++ " declares a zero total ROM size"
  | badMarker marker offset =>
    "data block at offset 0x" ++ Hex.upper offset ++ " has marker 0x"
      ++ Hex.padTo 2 (Hex.upper marker.toNat) ++ ", expected 0x66"
  | blockOutOfRange romOffset length offset =>
    "data block at offset 0x" ++ Hex.upper offset ++ " covers ROM 0x" ++ Hex.upper romOffset
      ++ "+0x" ++ Hex.upper length ++ ", past the ADPCM address space"
  | memoryFull needed capacity =>
    "sample data needs 0x" ++ Hex.upper needed ++ " bytes, sample memory holds 0x"
      ++ Hex.upper capacity

/-- The texts of a preparation error and of what caused it. -/
def PrepareError.causes : PrepareError → List String
  | truncated cause => [message (truncated cause), cause.message]
  | e => [e.message]

/-- The text of a bench error. -/
def BenchError.message : BenchError → String
  | refused cause => "control request failed: " ++ cause.message
  | uploadStalled offset remaining =>
    "upload to 0x" ++ Hex.upper offset ++ " stalled with " ++ toString remaining
      ++ " bytes outstanding"

/-- The texts of a bench error and of what caused it. -/
def BenchError.causes : BenchError → List String
  | refused cause => [message (refused cause), cause.message]
  | e => [e.message]

end ChipReplay
