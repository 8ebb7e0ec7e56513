import Jani.Obj.Equiv.DiskFormat
import Jani.Net.Session

/-!
# What one session call does

Each function of a session is inverted once: it either fails and leaves everything as it was, or
it passed all its checks.  `readsAs_signedPacket` says what a receiver reads of a packet whose
signed part its peer sealed.
-/

namespace Jani

/-! ### The wire -/

theorem netWireValidate_hello {bytes : List UInt8} {view : NetWireView}
    (h : netWireValidate bytes = some view) (hkind : view.kind = 0) :
    bytes.take 4 = netHelloMagic := by
  unfold netWireValidate at h
  dsimp only at h
  split_ifs at h with h1 h2 h3 h4 h5 h6 h7 h8
  · exact h3
  · cases h
    have hzero : bytes.getD 5 0 = 0 := by
      have hnat := congrArg UInt32.toNat hkind
      rw [UInt8.toNat_toUInt32] at hnat
      exact UInt8.toNat_inj.mp hnat
    exact absurd (.inl (by rw [hzero]; decide)) h6

theorem netWireValidate_data {packet : List UInt8} {view : NetWireView}
    (h : netWireValidate packet = some view) (hkind : view.kind ≠ 0) :
    packet.take 4 = netDataMagic ∧ packet.length = 136 + view.payloadLength ∧
      view = ⟨(packet.getD 5 0).toUInt32, u64At packet 40, ofLeBytes ((packet.drop 48).take 2),
        packet.length - 64⟩ := by
  unfold netWireValidate at h
  dsimp only at h
  split_ifs at h with h1 h2 h3 h4 h5 h6 h7 h8
  · cases h
    exact absurd rfl hkind
  · simp only [not_or, not_not] at h5 h7
    cases h
    exact ⟨h5.1, h7.2.2, rfl⟩

/-! ### What the functions do -/

section Functions

variable (crypto : Crypto) (s : NetSession)

/-- **One hello**: the session stays as it is, or it was waiting and is now established. -/
theorem netSessionAccept_cases (hello : List UInt8) :
    (∃ accepted, netSessionAccept crypto s hello = (accepted, s)) ∨
    (s.active = false ∧ hello.take 4 = netHelloMagic ∧
      crypto.ed25519Check (hello.drop 72) s.pinnedPeer.bytes (hello.take 72) = true ∧
      netSessionAccept crypto s hello = (true, sessionEstablished crypto s
        (crypto.x25519 s.exchangeSecret ((hello.drop 40).take 32)) hello)) := by
  unfold netSessionAccept
  by_cases hlen : hello.length = netHelloBytes
  · rw [if_neg (not_not.mpr hlen)]
    cases hview : netWireValidate hello with
    | none => exact .inl ⟨_, rfl⟩
    | some view =>
      dsimp only
      split_ifs with hbad hactive hzero
      · exact .inl ⟨_, rfl⟩
      · exact .inl ⟨_, rfl⟩
      · exact .inl ⟨_, rfl⟩
      · simp only [not_or, not_not, Bool.not_eq_false] at hbad
        exact .inr ⟨Bool.not_eq_true _ ▸ hactive, netWireValidate_hello hview hbad.1, hbad.2.2,
          rfl⟩
  · rw [if_pos hlen]
    exact .inl ⟨_, rfl⟩

/-- **One seal**: it fails and changes nothing, or it writes the next packet. -/
theorem netSessionSeal_cases (kind : UInt32) (body output : List UInt8) :
    netSessionSeal crypto s kind body output = ⟨0, s, output⟩ ∨
    (s.active = true ∧ 1 ≤ kind ∧ kind ≤ netMessageAck ∧ body.length ≤ netBodyMax ∧
      136 + body.length ≤ output.length ∧ s.sendSequence ≠ 0xFFFFFFFFFFFFFFFF ∧
      netSessionSeal crypto s kind body output =
        ⟨136 + body.length, { s with sendSequence := s.sendSequence + 1 },
          writeAt output 0
            (signedPacket crypto s.sessionId s.sendKey kind (s.sendSequence + 1) body ++
              crypto.ed25519Sign s.identity.secretKey
                (signedPacket crypto s.sessionId s.sendKey kind (s.sendSequence + 1) body))⟩) := by
  unfold netSessionSeal
  split_ifs with hbad
  · exact .inl rfl
  · simp only [not_or, Bool.not_eq_false, gt_iff_lt, Nat.not_lt] at hbad
    obtain ⟨hactive, hlow, hhigh, hbody, hcapacity, hsequence⟩ := hbad
    exact .inr ⟨hactive, UInt32.not_lt.mp hlow, UInt32.not_lt.mp hhigh, hbody, hcapacity,
      hsequence, rfl⟩

/-- **One packet**: it is refused and nothing changes, or it passed every check. -/
theorem netSessionOpen_cases (packet output : List UInt8) (kind : UInt32) (length : Nat) :
    netSessionOpen crypto s packet output kind length = ⟨false, s, output, kind, length⟩ ∨
    ∃ view plain, s.active = true ∧ netWireValidate packet = some view ∧ view.kind ≠ 0 ∧
      view.payloadLength ≤ output.length ∧ s.receiveSequence < view.sequence ∧
      (packet.drop 8).take 32 = s.sessionId ∧
      crypto.ed25519Check (packet.drop view.signedLength) s.pinnedPeer.bytes
        (packet.take view.signedLength) = true ∧
      crypto.aeadUnlock ((packet.drop (netPacketHeader + view.payloadLength)).take 16)
        s.receiveKey (packetNonce view.sequence) (packet.take netPacketHeader)
        ((packet.drop netPacketHeader).take view.payloadLength) = some plain ∧
      netSessionOpen crypto s packet output kind length =
        ⟨true, { s with receiveSequence := view.sequence },
          writeAt output 0 (plain.take view.payloadLength), view.kind, view.payloadLength⟩ := by
  unfold netSessionOpen
  dsimp only
  split_ifs with hbad
  · exact .inl rfl
  · simp only [not_or, Bool.not_eq_false] at hbad
    cases hview : netWireValidate packet with
    | none => exact .inl rfl
    | some view =>
      dsimp only
      split_ifs with hrefused
      · exact .inl rfl
      · simp only [not_or, not_not, Bool.not_eq_false] at hrefused
        obtain ⟨hkind, hroom, hlater, hid, hcheck⟩ := hrefused
        cases hunlock : crypto.aeadUnlock
            ((packet.drop (netPacketHeader + view.payloadLength)).take 16) s.receiveKey
            (packetNonce view.sequence) (packet.take netPacketHeader)
            ((packet.drop netPacketHeader).take view.payloadLength) with
        | none => exact .inl rfl
        | some plain =>
          exact .inr ⟨view, plain, hbad.1, rfl, hkind, Nat.not_lt.mp hroom,
            UInt64.not_le.mp hlater, hid, hcheck, hunlock, rfl⟩

end Functions

/-! ### Packets -/

@[simp]
theorem length_helloSigned (crypto : Crypto) (publicKey : Block 32) (secret : List UInt8) :
    (helloSigned crypto publicKey secret).length = 72 := by
  simp [helloSigned, netHelloMagic, publicKey.length_bytes, crypto.length_publicKey]

theorem helloSigned_exchange (crypto : Crypto) (publicKey : Block 32) (secret r : List UInt8) :
    ((helloSigned crypto publicKey secret ++ r).drop 40).take 32 =
      crypto.x25519PublicKey secret := by
  have hlen : (netHelloMagic ++ ([1, 0, 0, 0] ++ publicKey.bytes)).length = 40 := by
    simp [netHelloMagic, publicKey.length_bytes]
  rw [helloSigned, ← List.append_assoc [1, 0, 0, 0], ← List.append_assoc netHelloMagic,
    List.append_assoc _ _ r, List.drop_left' hlen, List.take_left' (crypto.length_publicKey secret)]

variable {sessionId : List UInt8}

@[simp]
theorem length_packetHeader (hid : sessionId.length = 32) (kind : UInt32) (sequence : UInt64)
    (length : Nat) : (packetHeader sessionId kind sequence length).length = netPacketHeader := by
  simp [packetHeader, netDataMagic, hid, netPacketHeader]

theorem length_signedPacket (crypto : Crypto) (hid : sessionId.length = 32) (sendKey : List UInt8)
    (kind : UInt32) (sequence : UInt64) (body : List UInt8) :
    (signedPacket crypto sessionId sendKey kind sequence body).length = 72 + body.length := by
  simp only [signedPacket, List.length_append, length_packetHeader hid, crypto.length_cipher,
    crypto.length_authenticator, netPacketHeader]
  omega

/-- What the receiver reads of a packet with a given signed part. -/
structure ReadsAs (packet id : List UInt8) (k : UInt32) (n : UInt64) (body : List UInt8)
    (locked : List UInt8 × List UInt8) : Prop where
  sessionId : (packet.drop 8).take 32 = id
  kind : packet.getD 5 0 = k.toUInt8
  sequence : u64At packet 40 = n
  payloadLength : ofLeBytes ((packet.drop 48).take 2) = body.length
  header : packet.take netPacketHeader = packetHeader id k n body.length
  cipher : (packet.drop netPacketHeader).take body.length = locked.1
  authenticator : (packet.drop (netPacketHeader + body.length)).take 16 = locked.2

/-- A sealed packet reads back as its parts. -/
theorem readsAs_signedPacket (crypto : Crypto) (hid : sessionId.length = 32) (sendKey : List UInt8)
    (kind : UInt32) (sequence : UInt64) {body : List UInt8} (hbody : body.length ≤ netBodyMax)
    (r : List UInt8) :
    ReadsAs (signedPacket crypto sessionId sendKey kind sequence body ++ r) sessionId kind sequence
      body (crypto.aeadLock sendKey (packetNonce sequence)
        (packetHeader sessionId kind sequence body.length) body) := by
  have hlength : body.length % 256 ^ 2 = body.length :=
    Nat.mod_eq_of_lt (lt_of_le_of_lt hbody (by decide))
  have hheader := length_packetHeader hid kind sequence body.length
  have hcipher := crypto.length_cipher sendKey (packetNonce sequence)
    (packetHeader sessionId kind sequence body.length) body
  have hauth := crypto.length_authenticator sendKey (packetNonce sequence)
    (packetHeader sessionId kind sequence body.length) body
  have h8 : (netDataMagic ++ [1, kind.toUInt8, 0, 0]).length = 8 := rfl
  have h40 : (netDataMagic ++ ([1, kind.toUInt8, 0, 0] ++ sessionId)).length = 40 := by
    simp [netDataMagic, hid]
  have h48 : (netDataMagic ++ ([1, kind.toUInt8, 0, 0] ++ (sessionId ++ le64 sequence))).length =
      48 := by
    simp [netDataMagic, hid]
  simp only [signedPacket, List.append_assoc]
  refine ⟨?_, rfl, ?_, ?_, List.take_left' hheader, ?_, ?_⟩
  · rw [packetHeader, ← List.append_assoc netDataMagic, List.append_assoc _ _ (_ ++ _),
      List.drop_left' h8, List.append_assoc sessionId, List.take_left' hid]
  · rw [packetHeader, ← List.append_assoc [1, kind.toUInt8, 0, 0],
      ← List.append_assoc netDataMagic, List.append_assoc _ _ (_ ++ _), u64At,
      List.drop_left' h40, List.append_assoc (le64 sequence), get64_le64_append]
  · rw [packetHeader, ← List.append_assoc sessionId, ← List.append_assoc [1, kind.toUInt8, 0, 0],
      ← List.append_assoc netDataMagic, List.append_assoc _ _ (_ ++ _), List.drop_left' h48,
      List.append_assoc (leBytes 2 _), List.take_left' (length_leBytes 2 _), ofLeBytes_leBytes,
      hlength]
  · rw [List.drop_left' hheader, List.take_left' hcipher]
  · rw [← List.drop_drop, List.drop_left' hheader, List.drop_left' hcipher, List.take_left' hauth]

end Jani
