import Jani.Lib.OnesComplement
import Mathlib.Data.Fintype.Basic

/-!
# UDP frames (`ethernet.zig`, `ipv4.zig`, `udp.zig`, `frame_encode.zig`, `frame_decode.zig`)

A UDP datagram travels in an IPv4 packet in an Ethernet frame.  The encoder writes the three headers
around the payload into a buffer and pads the frame to the Ethernet minimum; the decoder checks the
three headers and both checksums and returns where the payload lies in the frame.

The sums of words are natural numbers: as a datagram has at most `65535` bytes, they fit into the 32
bits of the source (`udpSum_lt`).
-/

namespace Jani

/-- The errors of the encoders and decoders. -/
inductive FrameError where
  | truncatedHeader
  | unsupportedFrameFormat
  | unsupportedHeader
  | invalidLength
  | invalidFlags
  | fragmentedPacket
  | expiredPacket
  | badChecksum
  | unsupportedEtherType
  | unsupportedProtocol
  | badUdpChecksum
  | bufferTooSmall
  | payloadTooLarge
  | invalidTimeToLive
  | datagramTooLarge
  | frameTooLarge
  | overlappingBuffers
deriving DecidableEq, Repr

abbrev MacAddress := Fin 6 → UInt8

abbrev Ipv4Address := Fin 4 → UInt8

/-- The bytes of an array in a buffer. -/
def arrayAt (n : Nat) (l : List UInt8) (off : Nat) : Fin n → UInt8 := fun i => l.getD (off + i) 0

/-! ### Ethernet -/

def ethernetHeaderSize : Nat := 14

structure EthernetHeader where
  destination : MacAddress
  source : MacAddress
  ethertype : UInt16

def ethernetDecodeHeader (frame : List UInt8) : Except FrameError EthernetHeader :=
  if frame.length < ethernetHeaderSize then .error .truncatedHeader
  else if be16At frame 12 < 0x0600 then .error .unsupportedFrameFormat
  else .ok ⟨arrayAt 6 frame 0, arrayAt 6 frame 6, be16At frame 12⟩

def ethernetEncodeHeader (frame : List UInt8) (header : EthernetHeader) :
    Except FrameError (List UInt8) :=
  if frame.length < ethernetHeaderSize then .error .bufferTooSmall
  else if header.ethertype < 0x0600 then .error .unsupportedFrameFormat
  else
    let frame := writeAt frame 0 (List.ofFn header.destination)
    let frame := writeAt frame 6 (List.ofFn header.source)
    .ok (writeAt frame 12 (be16 header.ethertype))

/-! ### IPv4 -/

def ipv4HeaderSize : Nat := 20

def ipv4MaximumPayloadSize : Nat := 65535 - ipv4HeaderSize

structure Ipv4Header where
  source : Ipv4Address
  destination : Ipv4Address
  protocol : UInt8
  payloadLength : Nat
  identification : UInt16
  ttl : UInt8

/-- The words of a header are added like those of a datagram, as a header has an even number of
bytes. -/
def computeHeaderChecksum (header : List UInt8) : UInt16 :=
  ~~~(UInt16.ofNat (foldCarry (sumWords header)))

def ipv4EncodeHeader (bytes : List UInt8) (header : Ipv4Header) : Except FrameError (List UInt8) :=
  if bytes.length < ipv4HeaderSize then .error .bufferTooSmall
  else if header.payloadLength > ipv4MaximumPayloadSize then .error .payloadTooLarge
  else if header.ttl = 0 then .error .invalidTimeToLive
  else
    let totalLength := UInt16.ofNat (ipv4HeaderSize + header.payloadLength)
    let bytes := writeAt bytes 0 (List.replicate ipv4HeaderSize 0)
    let bytes := writeAt bytes 0 [0x45]
    let bytes := writeAt bytes 2 (be16 totalLength)
    let bytes := writeAt bytes 4 (be16 header.identification)
    let bytes := writeAt bytes 6 (be16 0x4000)
    let bytes := writeAt bytes 8 [header.ttl]
    let bytes := writeAt bytes 9 [header.protocol]
    let bytes := writeAt bytes 12 (List.ofFn header.source)
    let bytes := writeAt bytes 16 (List.ofFn header.destination)
    .ok (writeAt bytes 10 (be16 (computeHeaderChecksum (bytes.take ipv4HeaderSize))))

def headerChecksumValid (header : List UInt8) : Bool :=
  if header.length < 20 ∨ header.length > 60 ∨ header.length % 4 ≠ 0 then false
  else foldCarry (sumWords header) = 0xffff

/-- A part of a frame: where it starts, and its bytes. -/
structure Slice where
  start : Nat
  bytes : List UInt8
deriving DecidableEq, Repr

/-- `bytes[first..last]` -/
def Slice.sub (s : Slice) (first last : Nat) : Slice :=
  ⟨s.start + first, (s.bytes.take last).drop first⟩

structure Ipv4Packet where
  source : Ipv4Address
  destination : Ipv4Address
  protocol : UInt8
  payload : Slice

def ipv4DecodePacket (s : Slice) : Except FrameError Ipv4Packet :=
  let bytes := s.bytes
  if bytes.length < 20 then .error .truncatedHeader
  else if bytes.getD 0 0 ≠ 0x45 then .error .unsupportedHeader
  else
    let totalLength := (be16At bytes 2).toNat
    if totalLength < 20 ∨ totalLength > bytes.length then .error .invalidLength
    else
      let flagsAndOffset := be16At bytes 6
      if flagsAndOffset &&& 0x8000 ≠ 0 then .error .invalidFlags
      else if flagsAndOffset &&& 0x3fff ≠ 0 then .error .fragmentedPacket
      else if bytes.getD 8 0 = 0 then .error .expiredPacket
      else if !headerChecksumValid (bytes.take 20) then .error .badChecksum
      else .ok ⟨arrayAt 4 bytes 12, arrayAt 4 bytes 16, bytes.getD 9 0, s.sub 20 totalLength⟩

/-! ### UDP -/

def udpHeaderSize : Nat := 8

def udpMaximumDatagramSize : Nat := 65535

structure UdpHeader where
  sourcePort : UInt16
  destinationPort : UInt16
  length : Nat
  checksum : UInt16

def udpDecodeHeader (bytes : List UInt8) : Except FrameError UdpHeader :=
  if bytes.length < udpHeaderSize then .error .truncatedHeader
  else
    let length := (be16At bytes 4).toNat
    if length < udpHeaderSize ∨ length ≠ bytes.length then .error .invalidLength
    else .ok ⟨be16At bytes 0, be16At bytes 2, length, be16At bytes 6⟩

structure UdpEncodeHeader where
  source : Ipv4Address
  destination : Ipv4Address
  sourcePort : UInt16
  destinationPort : UInt16

/-- The sum over the addresses, the protocol, the length and the datagram. -/
def udpSum (bytes : List UInt8) (source destination : Ipv4Address) : Nat :=
  sumWords (List.ofFn source) + sumWords (List.ofFn destination) + 17 + bytes.length +
    sumWords bytes

def udpEncodeHeader (bytes : List UInt8) (header : UdpEncodeHeader) :
    Except FrameError (List UInt8) :=
  if bytes.length < udpHeaderSize then .error .bufferTooSmall
  else if bytes.length > udpMaximumDatagramSize then .error .datagramTooLarge
  else
    let bytes := writeAt bytes 0 (List.replicate udpHeaderSize 0)
    let bytes := writeAt bytes 0 (be16 header.sourcePort)
    let bytes := writeAt bytes 2 (be16 header.destinationPort)
    let bytes := writeAt bytes 4 (be16 (UInt16.ofNat bytes.length))
    let checksum : UInt16 :=
      ~~~(UInt16.ofNat (foldCarry (udpSum bytes header.source header.destination)))
    -- a zero would say that there is no checksum
    let checksum := if checksum = 0 then 0xffff else checksum
    .ok (writeAt bytes 6 (be16 checksum))

def udpChecksumValid (bytes : List UInt8) (source destination : Ipv4Address) : Bool :=
  match udpDecodeHeader bytes with
  | .error _ => false
  | .ok _ =>
    if be16At bytes 6 = 0 then false else foldCarry (udpSum bytes source destination) = 0xffff

/-! ### Frames -/

def minimumFrameSize : Nat := 60

def maximumFrameSize : Nat := 1514

def frameHeaderSize : Nat := ethernetHeaderSize + ipv4HeaderSize + udpHeaderSize

def maximumPayloadSize : Nat := maximumFrameSize - frameHeaderSize

structure FrameFields where
  destinationMac : MacAddress
  sourceMac : MacAddress
  sourceIp : Ipv4Address
  destinationIp : Ipv4Address
  sourcePort : UInt16
  destinationPort : UInt16
  identification : UInt16
  ttl : UInt8

/-- Whether the frame and the payload share bytes, from the addresses of both. -/
def overlaps (outputStart frameLength payloadStart payloadLength : Nat) : Bool :=
  if payloadLength = 0 then false
  else if outputStart ≤ payloadStart then payloadStart - outputStart < frameLength
  else outputStart - payloadStart < payloadLength

/-- `encode_udp_frame` into a buffer: the length of the frame, and the buffer after it. -/
def encodeUdpFrame (output : List UInt8) (outputStart : Nat) (fields : FrameFields)
    (payload : List UInt8) (payloadStart : Nat) : Except FrameError (Nat × List UInt8) :=
  if payload.length > maximumPayloadSize then .error .frameTooLarge
  else
    let packetLength := frameHeaderSize + payload.length
    let frameLength := max minimumFrameSize packetLength
    if output.length < frameLength then .error .bufferTooSmall
    else if overlaps outputStart frameLength payloadStart payload.length then
      .error .overlappingBuffers
    else if fields.ttl = 0 then .error .invalidTimeToLive
    else
      let ipStart := ethernetHeaderSize
      let udpStart := ipStart + ipv4HeaderSize
      let output := writeAt output packetLength (List.replicate (frameLength - packetLength) 0)
      let datagram := writeAt ((output.take packetLength).drop udpStart) udpHeaderSize payload
      (udpEncodeHeader datagram
        ⟨fields.sourceIp, fields.destinationIp, fields.sourcePort, fields.destinationPort⟩).bind
      fun datagram =>
        let output := writeAt output udpStart datagram
        (ipv4EncodeHeader ((output.take packetLength).drop ipStart)
          ⟨fields.sourceIp, fields.destinationIp, 17, datagram.length, fields.identification,
            fields.ttl⟩).bind
        fun packet =>
          let output := writeAt output ipStart packet
          (ethernetEncodeHeader (output.take ethernetHeaderSize)
            ⟨fields.destinationMac, fields.sourceMac, 0x0800⟩).bind
          fun header => .ok (frameLength, writeAt output 0 header)

structure Datagram where
  source : Ipv4Address
  destination : Ipv4Address
  sourcePort : UInt16
  destinationPort : UInt16
  payload : Slice
deriving DecidableEq

def decodeUdpFrame (frame : List UInt8) : Except FrameError Datagram :=
  (ethernetDecodeHeader frame).bind fun eth =>
    if eth.ethertype ≠ 0x0800 then .error .unsupportedEtherType
    else
      (ipv4DecodePacket ((⟨0, frame⟩ : Slice).sub ethernetHeaderSize frame.length)).bind fun ip =>
        if ip.protocol ≠ 17 then .error .unsupportedProtocol
        else
          (udpDecodeHeader ip.payload.bytes).bind fun header =>
            if !udpChecksumValid ip.payload.bytes ip.source ip.destination then
              .error .badUdpChecksum
            else .ok
              ⟨ip.source, ip.destination, header.sourcePort, header.destinationPort,
                ip.payload.sub udpHeaderSize ip.payload.bytes.length⟩

end Jani
