import Jani.Lib.Bytes
import Jani.Lib.Crypto

/-!
# Authenticated sessions (`session.c`, `wire_validate.zig`)

A session joins a node to one pinned peer.  Each side sends a signed *hello* with a fresh exchange
key; once a side has accepted the hello of its peer it seals and opens data packets.  A packet is a
56-byte header, the locked body, the authenticator and a signature over all of it.

Output buffers are the lists the functions return them as; the capacity of a buffer is its length.
-/

namespace Jani

def netHelloBytes : Nat := 136

def netPacketHeader : Nat := 56

def netBodyMax : Nat := 1024

def netPacketMax : Nat := netPacketHeader + netBodyMax + 80

/-- The largest message number, `NET_MESSAGE_ACK`. -/
def netMessageAck : UInt32 := 5

/-- The bytes of `"JN5H"`. -/
def netHelloMagic : List UInt8 := [0x4A, 0x4E, 0x35, 0x48]

/-- The bytes of `"JN5D"`. -/
def netDataMagic : List UInt8 := [0x4A, 0x4E, 0x35, 0x44]

/-- The bytes of `"JANI5KDF"`. -/
def netKeyLabel : List UInt8 := [0x4A, 0x41, 0x4E, 0x49, 0x35, 0x4B, 0x44, 0x46]

/-- The bytes of `"JANI5SID"`. -/
def netSessionLabel : List UInt8 := [0x4A, 0x41, 0x4E, 0x49, 0x35, 0x53, 0x49, 0x44]

/-! ### The wire -/

structure NetWireView where
  kind : UInt32
  sequence : UInt64
  payloadLength : Nat
  signedLength : Nat
deriving DecidableEq, Repr

def netWireValidate (bytes : List UInt8) : Option NetWireView :=
  if bytes.length < 8 ∨ bytes.length > 1160 then none
  else if bytes.getD 4 0 ≠ 1 ∨ bytes.getD 6 0 ≠ 0 ∨ bytes.getD 7 0 ≠ 0 then none
  else if bytes.take 4 = netHelloMagic then
    if bytes.length ≠ 136 ∨ bytes.getD 5 0 ≠ 0 then none
    else some ⟨0, 0, 0, 72⟩
  else if bytes.take 4 ≠ netDataMagic ∨ bytes.length < 136 then none
  else if bytes.getD 5 0 < 1 ∨ bytes.getD 5 0 > 5 then none
  else
    let sequence := u64At bytes 40
    let payloadLength := ofLeBytes ((bytes.drop 48).take 2)
    if sequence = 0 ∨ payloadLength > 1024 ∨ bytes.length ≠ 136 + payloadLength then none
    else if (bytes.drop 50).take 6 ≠ List.replicate 6 0 then none
    else some ⟨(bytes.getD 5 0).toUInt32, sequence, payloadLength, bytes.length - 64⟩

/-! ### Sessions -/

structure NetIdentity where
  publicKey : Block 32
  secretKey : List UInt8

structure NetSession where
  identity : NetIdentity
  pinnedPeer : Block 32
  exchangeSecret : List UInt8
  localHello : List UInt8
  remoteHello : List UInt8
  sendKey : List UInt8
  receiveKey : List UInt8
  sessionId : List UInt8
  sendSequence : UInt64
  receiveSequence : UInt64
  active : Bool

def zero32 : List UInt8 := List.replicate 32 0

/-- Compare keys byte by byte. -/
def publicKeyLess : List UInt8 → List UInt8 → Bool
  | l :: left, r :: right => if l ≠ r then l < r else publicKeyLess left right
  | _, _ => false

/-- The signed part of a hello. -/
def helloSigned (crypto : Crypto) (publicKey : Block 32) (secret : List UInt8) : List UInt8 :=
  netHelloMagic ++ ([1, 0, 0, 0] ++ (publicKey.bytes ++ crypto.x25519PublicKey secret))

def netSessionInit (crypto : Crypto) (identity : NetIdentity) (peerKey : Block 32)
    (freshSecret : List UInt8) : Option NetSession :=
  if identity.publicKey = peerKey ∨ freshSecret = zero32 then none
  else
    let hello := helloSigned crypto identity.publicKey freshSecret
    some {
      identity := identity
      pinnedPeer := peerKey
      exchangeSecret := freshSecret
      localHello := hello ++ crypto.ed25519Sign identity.secretKey hello
      remoteHello := List.replicate netHelloBytes 0
      sendKey := zero32
      receiveKey := zero32
      sessionId := zero32
      sendSequence := 0
      receiveSequence := 0
      active := false }

/-- The two halves of the key material: the first half is the sending key of the side with the
smaller public key. -/
def keyHalf (first : Bool) (keys : List UInt8) : List UInt8 :=
  (keys.drop (if first then 0 else 32)).take 32

/-- What both sides of an exchange hash: the shared secret and the signed parts of both hellos,
that of the smaller public key first. -/
def sessionTranscript (s : NetSession) (shared hello : List UInt8) : List UInt8 :=
  let first := publicKeyLess s.identity.publicKey.bytes s.pinnedPeer.bytes
  shared ++ ((if first then s.localHello else hello).take 72 ++
    (if first then hello else s.localHello).take 72)

/-- The session once the peer's hello is accepted; the exchange secret is wiped. -/
def sessionEstablished (crypto : Crypto) (s : NetSession) (shared hello : List UInt8) :
    NetSession :=
  let first := publicKeyLess s.identity.publicKey.bytes s.pinnedPeer.bytes
  let transcript := sessionTranscript s shared hello
  let keys := crypto.blake2b 64 (netKeyLabel ++ transcript)
  { s with
    sendKey := keyHalf first keys
    receiveKey := keyHalf (!first) keys
    sessionId := crypto.blake2b 32 (netSessionLabel ++ transcript)
    remoteHello := hello
    active := true
    exchangeSecret := zero32 }

def netSessionAccept (crypto : Crypto) (s : NetSession) (hello : List UInt8) : Bool × NetSession :=
  if hello.length ≠ netHelloBytes then (false, s)
  else match netWireValidate hello with
  | none => (false, s)
  | some view =>
    if view.kind ≠ 0 ∨ (hello.drop 8).take 32 ≠ s.pinnedPeer.bytes ∨
        crypto.ed25519Check (hello.drop 72) s.pinnedPeer.bytes (hello.take 72) = false then
      (false, s)
    else if s.active then
      (decide ((hello.drop 8).take 64 = (s.remoteHello.drop 8).take 64), s)
    else
      let shared := crypto.x25519 s.exchangeSecret ((hello.drop 40).take 32)
      if shared = zero32 then (false, s)
      else (true, sessionEstablished crypto s shared hello)

/-- The header of packet number `sequence`. -/
def packetHeader (sessionId : List UInt8) (kind : UInt32) (sequence : UInt64) (length : Nat) :
    List UInt8 :=
  netDataMagic ++ ([1, kind.toUInt8, 0, 0] ++ (sessionId ++ (le64 sequence ++
    (leBytes 2 length ++ List.replicate 6 0))))

def packetNonce (sequence : UInt64) : List UInt8 := List.replicate 16 0 ++ le64 sequence

/-- The signed part of a packet: the header, the locked body and the authenticator. -/
def signedPacket (crypto : Crypto) (sessionId sendKey : List UInt8) (kind : UInt32)
    (sequence : UInt64) (body : List UInt8) : List UInt8 :=
  let header := packetHeader sessionId kind sequence body.length
  let locked := crypto.aeadLock sendKey (packetNonce sequence) header body
  header ++ (locked.1 ++ locked.2)

/-- What `net_session_seal` returns and leaves in the caller's buffer. -/
structure NetSealed where
  bytes : Nat
  session : NetSession
  output : List UInt8

def netSessionSeal (crypto : Crypto) (s : NetSession) (kind : UInt32) (body output : List UInt8) :
    NetSealed :=
  if s.active = false ∨ kind < 1 ∨ kind > netMessageAck ∨ body.length > netBodyMax ∨
      output.length < 136 + body.length ∨ s.sendSequence = 0xFFFFFFFFFFFFFFFF then
    ⟨0, s, output⟩
  else
    let sequence := s.sendSequence + 1
    let signed := signedPacket crypto s.sessionId s.sendKey kind sequence body
    let packet := signed ++ crypto.ed25519Sign s.identity.secretKey signed
    ⟨136 + body.length, { s with sendSequence := sequence }, writeAt output 0 packet⟩

/-- What `net_session_open` returns and leaves in the caller's variables. -/
structure NetOpened where
  accepted : Bool
  session : NetSession
  output : List UInt8
  kind : UInt32
  length : Nat

def netSessionOpen (crypto : Crypto) (s : NetSession) (packet output : List UInt8) (kind : UInt32)
    (length : Nat) : NetOpened :=
  let failure : NetOpened := ⟨false, s, output, kind, length⟩
  if s.active = false ∨ packet.length > netPacketMax then failure
  else match netWireValidate packet with
  | none => failure
  | some view =>
    if view.kind = 0 ∨ view.payloadLength > output.length ∨ view.sequence ≤ s.receiveSequence ∨
        (packet.drop 8).take 32 ≠ s.sessionId ∨
        crypto.ed25519Check (packet.drop view.signedLength) s.pinnedPeer.bytes
          (packet.take view.signedLength) = false then failure
    else
      let cipher := (packet.drop netPacketHeader).take view.payloadLength
      let authenticator := (packet.drop (netPacketHeader + view.payloadLength)).take 16
      match crypto.aeadUnlock authenticator s.receiveKey (packetNonce view.sequence)
        (packet.take netPacketHeader) cipher with
      | none => failure
      | some plain =>
        ⟨true, { s with receiveSequence := view.sequence },
          writeAt output 0 (plain.take view.payloadLength), view.kind, view.payloadLength⟩

end Jani
