import JxtaC.Message

/-
  The packet header in front of a message (jxta_tcp_message_packet_header.c): named headers, each
  with a value, and a zero byte behind them. A `WriteFunc` takes its stream along; the status it
  returns is ignored. Sizes are 64 bits, and are not negative. Allocations are served.
-/

namespace JxtaC

open Lib Lib.Stream

/-- A `write_func`, with what it does to its stream. -/
abbrev WriteFunc (σ : Type) : Type := σ → List Byte → σ × Status

namespace PacketHeader

/-- `APP_MSG`. -/
def appMsg : List Byte := text "application/x-jxta-msg"

def contentType : List Byte := text "content-type"

def contentLength : List Byte := text "content-length"

def srcEA : List Byte := text "srcEA"

/-- `MESSAGE_PACKET_HEADER`. -/
def messagePacketHeader : List (List Byte) := [contentType, contentLength, srcEA]

/-- `HEADER_BUFSIZE`. -/
def headerBufsize : Nat := 1024

/-- The number of headers of a packet. -/
def headerCount (isMulticast : Bool) : Nat := if isMulticast then 3 else 2

/-! ## writing -/

section Write
variable {σ : Type} (writeFunc : WriteFunc σ)

/-- One turn of the loop of `message_packet_header_write`. -/
def writeHeader (stream : σ) (name value : List Byte) : σ :=
  let stream := (writeFunc stream [UInt8.ofNat name.length]).1
  let stream := (writeFunc stream name).1
  let valueSize := value.length % 65536
  let stream := (writeFunc stream (bigEndian 2 valueSize)).1
  (writeFunc stream (value.take valueSize)).1

/-- `message_packet_header_write`. -/
def messagePacketHeaderWrite (stream : σ) (msgSize : Nat) (isMulticast : Bool) (srcAddr : CString) :
    σ × Status :=
  let stream := writeHeader writeFunc stream contentType appMsg
  let stream := writeHeader writeFunc stream contentLength (bigEndian 8 msgSize)
  let stream := if isMulticast then writeHeader writeFunc stream srcEA srcAddr.bytes else stream
  ((writeFunc stream [0]).1, .success)

end Write

/-! ## reading -/

/-- `tolower`, in the C locale. -/
def toLower (b : Byte) : Byte := if 65 ≤ b.toNat ∧ b.toNat ≤ 90 then b + 32 else b

/-- `strncasecmp` finds no difference. Behind the bytes that are given there is a NUL. -/
def sameName : (n : Nat) → (a b : List Byte) → Bool
  | 0, _, _ => true
  | n + 1, a, b =>
    if toLower (a.headD 0) ≠ toLower (b.headD 0) then false
    else if a.headD 0 = 0 then true
    else sameName n a.tail b.tail

/-- The header of this name: its place in `MESSAGE_PACKET_HEADER`. -/
def headerNumber (name : List Byte) : Option Nat :=
  messagePacketHeader.findIdx? fun h => sameName name.length name h

/-- The values that `message_packet_header_read` has read, of the three headers. -/
structure Headers where
  type : Option (List Byte)
  length : Option (List Byte)
  source : Option (List Byte)
  deriving DecidableEq

/-- The headers that have to be there are. -/
def Headers.complete (h : Headers) (isMulticast : Bool) : Bool :=
  h.type.isSome && h.length.isSome && (!isMulticast || h.source.isSome)

def Headers.value (h : Headers) : Nat → Option (List Byte)
  | 0 => h.type
  | 1 => h.length
  | _ => h.source

def Headers.set (h : Headers) (i : Nat) (value : List Byte) : Headers :=
  match i with
  | 0 => { h with type := some value }
  | 1 => { h with length := some value }
  | _ => { h with source := some value }

section Read
variable (P : Source Byte Status)

/-- What the `read_func` reads, or this status. -/
def readOr (e : Status) (n : Nat) : Action Byte Status (List Byte) := do
  match ← read P n with
  | some bytes => return bytes
  | none => leave e

/-- The values of the headers of a packet are freed. One that has not been read is not null, but what
was on the stack. -/
def freeValues (isMulticast : Bool) (h : Headers) : Action Byte Status Unit :=
  if (List.range (headerCount isMulticast)).all fun i => (h.value i).isSome then pure ()
  else crash .danglingPointer

/-- One turn of the loop of `message_packet_header_read`, for a name of this length. -/
def readHeader (isMulticast : Bool) (h : Headers) (nameLength : Nat) : Action Byte Status Headers :=
  if nameLength > headerBufsize then leave .failed
  else do
    let name ← readOr P .ioerr nameLength
    match headerNumber name with
    | none => leave .failed
    | some i =>
      if (h.value i).isSome then leave .failed
      else do
        let size ← readOr P .failed 2
        let value ← readOr P .failed (ofBigEndian size)
        if i + 1 > headerCount isMulticast then do
          freeValues isMulticast (h.set i value)
          leave .failed
        else return h.set i value

/-- The loop of `message_packet_header_read`. -/
def readHeaders (isMulticast : Bool) : (turns : Nat) → Headers → Action Byte Status Headers
  | 0, _ => crash .neverReturns
  | turns + 1, h => do
    let nameLength ← readOr P .ioerr 1
    if ofBigEndian nameLength = 0 then
      if h.complete isMulticast then return h else readHeaders isMulticast turns h
    else do
      let h ← readHeader P isMulticast h (ofBigEndian nameLength)
      readHeaders isMulticast turns h

/-- `message_packet_header_read`: the size, and the source address if there is one. Every turn reads
    at least a byte. -/
def messagePacketHeaderRead (isMulticast : Bool) : Action Byte Status (Nat × Option CString) :=
  fun s => (do
    let h ← readHeaders P isMulticast (s.length + 1) ⟨none, none, none⟩
    match h.length with
    | none => crash .outOfBounds
    | some value =>
      -- the value has a NUL behind it
      if value.length + 1 < 8 then crash .outOfBounds
      else do
        freeValues isMulticast h
        return (ofBigEndian ((value ++ [0]).take 8), h.source.map CString.ofBuffer)) s

end Read

end PacketHeader

end JxtaC
