import PmWs.Lib.MachineInt
import PmWs.Wire.Lexical

/-!
# Engine.IO and Socket.IO framing

One WebSocket frame, one decoded frame. An engine message carries a Socket.IO
packet: a digit, an attachment count for the binary kinds, a namespace, an
acknowledgment id and a payload, each but the first optional.
-/

open MachineInt Fallible Utf8

namespace PmWs.Wire

/-! ## Packet kinds -/

inductive WebSocketOpcode where
  | continuation
  | text
  | binary
  | close
  | ping
  | pong
  deriving DecidableEq, Repr

def WebSocketOpcode.carriesApplicationPayload : WebSocketOpcode → Bool
  | text | binary => true
  | _ => false

inductive EngineIoPacket where
  | open
  | close
  | ping
  | pong
  | message
  | upgrade
  | noop
  deriving DecidableEq, Repr

def EngineIoPacket.fromWireDigit (digit : UInt8) : Option EngineIoPacket :=
  if digit = ascii '0' then some .open
  else if digit = ascii '1' then some .close
  else if digit = ascii '2' then some .ping
  else if digit = ascii '3' then some .pong
  else if digit = ascii '4' then some .message
  else if digit = ascii '5' then some .upgrade
  else if digit = ascii '6' then some .noop
  else none

inductive SocketIoPacket where
  | connect
  | disconnect
  | event
  | ack
  | connectError
  | binaryEvent
  | binaryAck
  deriving DecidableEq, Repr

namespace SocketIoPacket

def fromWireDigit (digit : UInt8) : Option SocketIoPacket :=
  if digit = ascii '0' then some .connect
  else if digit = ascii '1' then some .disconnect
  else if digit = ascii '2' then some .event
  else if digit = ascii '3' then some .ack
  else if digit = ascii '4' then some .connectError
  else if digit = ascii '5' then some .binaryEvent
  else if digit = ascii '6' then some .binaryAck
  else none

def carriesBinaryAttachments : SocketIoPacket → Bool
  | binaryEvent | binaryAck => true
  | _ => false

def carriesEventName : SocketIoPacket → Bool
  | event | binaryEvent => true
  | _ => false

end SocketIoPacket

/-! ## Frames -/

structure DecodedFrame where
  engineIo : Option EngineIoPacket
  socketIo : Option SocketIoPacket
  namespacePath : Option String
  acknowledgmentId : Option Nat
  binaryAttachments : Nat
  eventName : Option String
  payload : Option LexicalValue
  extraArguments : List LexicalValue

inductive FrameError where
  | emptyFrame
  | unknownEngineIoPacket
  | unknownSocketIoPacket
  | malformedFraming
  | malformedEventEnvelope
  | missingAttachmentCount
  | unexpectedControlPayload
  | lexical (error : LexicalError)
  deriving DecidableEq, Repr

/-- A frame of an engine packet, or of none, with nothing of Socket.IO in it. -/
def DecodedFrame.engine (engineIo : Option EngineIoPacket) (payload : Option LexicalValue) : DecodedFrame :=
  { engineIo, socketIo := none, namespacePath := none, acknowledgmentId := none, binaryAttachments := 0,
    eventName := none, payload, extraArguments := [] }

/-- `str::parse` of an unsigned integer of at most `max`: a leading `+` is taken, nothing else than digits. -/
def parseUnsigned (max : Nat) (text : List Char) : Option Nat :=
  let digits := match text with
    | '+' :: digits => digits
    | digits => digits
  if digits = [] ∨ ¬ digits.all Char.isDigit then none else fit max (Nat.ofDigitChars 10 digits 0)

/-- The UTF-8 text of some bytes as an unsigned integer. -/
def parseUnsignedBytes (max : Nat) (bytes : List UInt8) : Except FrameError Nat := do
  let text ← orError (fromUtf8 bytes) .malformedFraming
  orError (parseUnsigned max text.toList) .malformedFraming

/-- What stands in front of a separator, and what follows it. -/
def splitAt (separator : UInt8) (bytes : List UInt8) : Option (List UInt8 × List UInt8) :=
  (bytes.findIdx? (· = separator)).map fun index => (bytes.take index, bytes.drop (index + 1))

def attachmentCount (socketIo : SocketIoPacket) (rest : List UInt8) : Except FrameError (Nat × List UInt8) :=
  if socketIo.carriesBinaryAttachments then do
    let (digits, rest) ← orError (splitAt (ascii '-') rest) .missingAttachmentCount
    let count ← parseUnsignedBytes u16Max digits
    return (count, rest)
  else .ok (0, rest)

def namespaceOf (rest : List UInt8) : Except FrameError (Option String × List UInt8) :=
  if rest.head? = some (ascii '/') then do
    let (path, rest) ← orError (splitAt (ascii ',') rest) .malformedFraming
    let text ← orError (fromUtf8 path) .malformedFraming
    return (some text, rest)
  else .ok (none, rest)

def acknowledgmentOf (rest : List UInt8) : Except FrameError (Option Nat × List UInt8) :=
  let digits := rest.takeWhile isAsciiDigit
  if digits.length > 0 then do
    let id ← parseUnsignedBytes u64Max digits
    return (some id, rest.drop digits.length)
  else .ok (none, rest)

def payloadOf (rest : List UInt8) (limits : LexicalLimits) : Except FrameError (Option LexicalValue) :=
  if rest = [] then .ok none else ((parseLexical rest limits).mapError .lexical).map some

/-- The name, the argument and the further arguments of an event's envelope. -/
def eventEnvelope (payload : Option LexicalValue) :
    Except FrameError (String × Option LexicalValue × List LexicalValue) := do
  let values ← orError (payload.bind LexicalValue.asArray) .malformedEventEnvelope
  let name ← orError (values.head?.bind LexicalValue.asText) .malformedEventEnvelope
  return (name, values[1]?, values.drop 2)

def decodeSocketIo (engineIo : EngineIoPacket) (bytes : List UInt8) (limits : LexicalLimits) :
    Except FrameError DecodedFrame :=
  match bytes with
  | [] => .error .emptyFrame
  | first :: rest => do
    let socketIo ← orError (SocketIoPacket.fromWireDigit first) .unknownSocketIoPacket
    let (binaryAttachments, rest) ← attachmentCount socketIo rest
    let (namespacePath, rest) ← namespaceOf rest
    let (acknowledgmentId, rest) ← acknowledgmentOf rest
    let payload ← payloadOf rest limits
    if socketIo.carriesEventName then do
      let (name, argument, extraArguments) ← eventEnvelope payload
      return { engineIo := some engineIo, socketIo := some socketIo, namespacePath, acknowledgmentId, binaryAttachments,
               eventName := some name, payload := argument, extraArguments }
    else
      return { engineIo := some engineIo, socketIo := some socketIo, namespacePath, acknowledgmentId, binaryAttachments,
               eventName := none, payload, extraArguments := [] }

def decodeFrame (bytes : List UInt8) (opcode : WebSocketOpcode) (limits : LexicalLimits) :
    Except FrameError DecodedFrame :=
  if ¬ opcode.carriesApplicationPayload then .ok (.engine none none)
  else match bytes with
  | [] => .error .emptyFrame
  | first :: rest => do
    match ← orError (EngineIoPacket.fromWireDigit first) .unknownEngineIoPacket with
    | .open => return .engine (some .open) (some (← (parseLexical rest limits).mapError .lexical))
    | .message => decodeSocketIo .message rest limits
    | packet => if rest = [] then return .engine (some packet) none else .error .unexpectedControlPayload

end PmWs.Wire
