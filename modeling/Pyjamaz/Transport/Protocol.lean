import Mathlib.Data.List.Basic
import Pyjamaz.Library.Octets

/-!
# The messages of a stream

A message on a stream is a type byte, the length of its payload in four bytes, and the payload.  A
stream delivers the bytes of the messages in events, cut anywhere, and `quicEventReceived` puts them
together again: it keeps the bytes of an unfinished message in a buffer and hands a finished one to the
case of its type.

The server and the client run the same loop.  They differ in how they fill the buffer, in the messages
that they handle, and in what is left in the buffer when the handling of a message raises.  Whether
the handling raises (a block that cannot be decoded, a channel that is closed) is a parameter, which may
depend on the messages handled before.
-/

namespace Transport

open Octets

/-! ## Messages -/

/-- A message with a length that fits four bytes. -/
structure Message where
  type : UInt8
  payload : Octets
  length_lt : payload.length < 2 ^ 32

/-- The bytes of a message. -/
def Message.encode (m : Message) : Octets :=
  m.type :: (littleEndian 4 m.payload.length ++ m.payload)

/-- What reaches the case of a message: its type and its payload. -/
structure Dispatch where
  type : ℤ
  payload : Octets
  deriving DecidableEq

/-- A message as it should be handled. -/
def Message.dispatch (m : Message) : Dispatch := ⟨m.type.toNat, m.payload⟩

/-- `JAMNPS.MSG` -/
def up0Open : ℤ := 66

def up0BlockAnnouncement : ℤ := 0

def ce128BlockRequest : ℤ := 128

/-! ## The receiver -/

/-- What `JAMNPSProtocol` keeps of an unfinished message. -/
structure Connection where
  msgBuffer : Octets
  msgLen : ℤ
  msgType : ℤ
  msgOffset : ℤ
  deriving DecidableEq

/-- `_reset_msg`, and how a connection starts. -/
def resetMsg : Connection := ⟨[], -1, -1, -1⟩

/-- The place in a sequence of `n` bytes that an index of a slice stands for. -/
def sliceIndex (n : ℕ) (i : ℤ) : ℕ := if i < 0 then (i + n).toNat else min i.toNat n

/-- `data[:i]` -/
def sliceTo (data : Octets) (i : ℤ) : Octets := data.take (sliceIndex data.length i)

/-- `data[i:]` -/
def sliceFrom (data : Octets) (i : ℤ) : Octets := data.drop (sliceIndex data.length i)

/-- A new message begins: its type and length are read from the event. -/
def Connection.beginMessage (c : Connection) (byteData : Octets) : Connection :=
  if c.msgBuffer = [] then
    { c with
      msgType := ofLittleEndian (slice byteData 0 1)
      msgOffset := 5
      msgLen := ofLittleEndian (slice byteData 1 5) + 5 }
  else c

/-- The missing bytes of the message are taken from those that are left. -/
def Connection.fill (c : Connection) (bytesLeft : Octets) : Connection × Octets :=
  let nrBytesRemaining := c.msgLen - c.msgBuffer.length
  ({ c with msgBuffer := c.msgBuffer ++ sliceTo bytesLeft nrBytesRemaining },
    sliceFrom bytesLeft nrBytesRemaining)

/-- The server drops what is left when no bytes are missing. -/
def Connection.fillMissing (c : Connection) (bytesLeft : Octets) : Connection × Octets :=
  if 0 < c.msgLen - c.msgBuffer.length then c.fill bytesLeft else (c, [])

/-- What tells the two sides apart. -/
structure Protocol where
  fill : Connection → Octets → Connection × Octets
  /-- after these messages, this one has a case and its handling does not raise -/
  handles : List Dispatch → Dispatch → Bool
  /-- what is left of a message whose handling raises -/
  onRaise : Connection → Connection

/-- `ServerProtocol`; `serves` says which block requests it can answer. -/
def serverProtocol (serves : List Dispatch → Octets → Bool) : Protocol where
  fill := Connection.fillMissing
  handles log d :=
    if d.type = up0Open then true
    else if d.type = ce128BlockRequest then serves log d.payload
    else false
  onRaise c := c

/-- `ClientProtocol`; `accepts` says which payloads its channel takes. -/
def clientProtocol (accepts : List Dispatch → Octets → Bool) : Protocol where
  fill := Connection.fill
  handles log d :=
    if d.type = up0BlockAnnouncement then accepts log d.payload
    else if d.type = ce128BlockRequest then accepts log d.payload
    else false
  onRaise _ := resetMsg

/-- A connection, the bytes of the event that are left, and the messages handled so far. -/
structure Receiver where
  connection : Connection
  bytesLeft : Octets
  handled : List Dispatch

/-- The message that a full buffer holds. -/
def Connection.message (c : Connection) : Dispatch :=
  ⟨c.msgType, slice c.msgBuffer (sliceIndex c.msgBuffer.length c.msgOffset)
    (sliceIndex c.msgBuffer.length c.msgLen)⟩

/-- One iteration of the loop over the bytes of an event, and whether it raised. -/
def iteration (p : Protocol) (byteData : Octets) (r : Receiver) : Receiver × Bool :=
  let (c, bytesLeft) := p.fill (r.connection.beginMessage byteData) r.bytesLeft
  if 0 < c.msgLen ∧ c.msgLen = c.msgBuffer.length then
    if p.handles r.handled c.message then (⟨resetMsg, bytesLeft, r.handled ++ [c.message]⟩, false)
    else (⟨p.onRaise c, bytesLeft, r.handled⟩, true)
  else (⟨c, bytesLeft, r.handled⟩, false)

/-- The loop; `none` when it does not end within the given number of iterations. -/
def loop (p : Protocol) (byteData : Octets) : ℕ → Receiver → Option Receiver
  | fuel, r =>
    if r.bytesLeft = [] then some r
    else match fuel with
      | 0 => none
      | fuel + 1 =>
        let (r', raised) := iteration p byteData r
        if raised then some r' else loop p byteData fuel r'

/-- `quic_event_received` for an event with data.  Every iteration takes a byte at least. -/
def quicEventReceived (p : Protocol) (st : Connection × List Dispatch) (event : Octets) :
    Option (Connection × List Dispatch) := do
  let r ← loop p event event.length ⟨st.1, event, st.2⟩
  return (r.connection, r.handled)

/-- The events of a stream, from a new connection on. -/
def receive (p : Protocol) (events : List Octets) : Option (Connection × List Dispatch) :=
  events.foldlM (quicEventReceived p) (resetMsg, [])

end Transport
