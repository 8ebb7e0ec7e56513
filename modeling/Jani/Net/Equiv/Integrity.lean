import Jani.Net.Equiv.Session

/-!
# Session integrity

Two nodes, each with one identity, run any number of sessions with each other.  An adversary owns
the network: it presents any bytes as a hello or as a packet to any session, in any order and as
often as it likes.  The primitives are ideal in the sense of the run: a signature that verifies
was made by its owner (`NetWorld.Unforged`), the transcripts of different pairs of sessions hash
to different keys and identifiers (`IdealHash`), and exchange secrets are fresh (`Fresh`).

`NetInvariant` says what holds in every world such a run reaches; `session_integrity` reads off
what two sessions that accepted each other's hello deliver.
-/

namespace Jani

/-! ### Worlds -/

/-- The two nodes. -/
inductive Side where
  | left
  | right
deriving DecidableEq, Repr

def Side.other : Side → Side
  | left => right
  | right => left

@[simp] theorem Side.other_other (side : Side) : side.other.other = side := by cases side <;> rfl

theorem Side.eq_or_eq_other (side side' : Side) : side' = side ∨ side' = side.other := by
  cases side <;> cases side' <;> decide

/-- The sessions of both nodes, with what they have done so far: the messages each identity has
signed, the pairs of kind and body each session has sealed and opened, and the pairs of key and
nonce bodies have been locked with. -/
structure NetWorld (ι : Type) where
  sessions : Side × ι → NetSession
  signed : Side → Set (List UInt8)
  sealed : Side × ι → List (UInt32 × List UInt8)
  opened : Side × ι → List (UInt32 × List UInt8)
  used : List (List UInt8 × List UInt8)

/-- What the adversary makes a session do. -/
inductive NetAction (ι : Type) where
  | acceptHello (k : Side × ι) (hello : List UInt8)
  | sealBody (k : Side × ι) (kind : UInt32) (body output : List UInt8)
  | openPacket (k : Side × ι) (packet output : List UInt8) (kind : UInt32) (length : Nat)

section Run

variable {ι : Type} [DecidableEq ι]

def NetWorld.step (crypto : Crypto) (w : NetWorld ι) : NetAction ι → NetWorld ι
  | .acceptHello k hello =>
    { w with
      sessions := Function.update w.sessions k (netSessionAccept crypto (w.sessions k) hello).2 }
  | .sealBody k kind body output =>
    let result := netSessionSeal crypto (w.sessions k) kind body output
    let w' := { w with sessions := Function.update w.sessions k result.session }
    if result.bytes = 0 then w'
    else
      { w' with
        signed := Function.update w.signed k.1
          (insert (result.output.take (result.bytes - 64)) (w.signed k.1))
        sealed := Function.update w.sealed k (w.sealed k ++ [(kind, body)])
        used := w.used ++
          [((w.sessions k).sendKey, packetNonce result.session.sendSequence)] }
  | .openPacket k packet output kind length =>
    let result := netSessionOpen crypto (w.sessions k) packet output kind length
    let w' := { w with sessions := Function.update w.sessions k result.session }
    if result.accepted = false then w'
    else
      { w' with
        opened := Function.update w.opened k
          (w.opened k ++ [(result.kind, result.output.take result.length)]) }

/-- Ideal signatures: bytes that end in a valid signature of the pinned peer were signed by it. -/
def NetWorld.Unforged (crypto : Crypto) (w : NetWorld ι) : NetAction ι → Prop
  | .acceptHello k bytes | .openPacket k bytes _ _ _ => ∀ n,
    crypto.ed25519Check (bytes.drop n) (w.sessions k).pinnedPeer.bytes (bytes.take n) = true →
      bytes.take n ∈ w.signed k.1.other
  | .sealBody _ _ _ _ => True

inductive NetRun (crypto : Crypto) : NetWorld ι → NetWorld ι → Prop
  | refl (w : NetWorld ι) : NetRun crypto w w
  | step {w w' : NetWorld ι} (action : NetAction ι) :
      NetRun crypto w w' → w'.Unforged crypto action → NetRun crypto w (w'.step crypto action)

end Run

/-! ### The setup -/

/-- The identities of the two nodes and the exchange secrets of their sessions. -/
structure NetSetup (ι : Type) where
  identity : Side → NetIdentity
  secret : Side × ι → List UInt8

section Setup

variable {ι : Type} (crypto : Crypto) (setup : NetSetup ι)

namespace NetSetup

def publicKey (side : Side) : Block 32 := (setup.identity side).publicKey

/-- The signed part of the hello of session `k`. -/
def hello (k : Side × ι) : List UInt8 := helloSigned crypto (setup.publicKey k.1) (setup.secret k)

/-- Whether `side` has the smaller public key. -/
def first (side : Side) : Bool :=
  publicKeyLess (setup.publicKey side).bytes (setup.publicKey side.other).bytes

/-- What session `k` hashes when it accepts the hello of session `j` of its peer. -/
def transcript (k : Side × ι) (j : ι) : List UInt8 :=
  crypto.x25519 (setup.secret k) (crypto.x25519PublicKey (setup.secret (k.1.other, j))) ++
    (if setup.first k.1 then setup.hello crypto k ++ setup.hello crypto (k.1.other, j)
      else setup.hello crypto (k.1.other, j) ++ setup.hello crypto k)

def keys (k : Side × ι) (j : ι) : List UInt8 :=
  crypto.blake2b 64 (netKeyLabel ++ setup.transcript crypto k j)

def sessionId (k : Side × ι) (j : ι) : List UInt8 :=
  crypto.blake2b 32 (netSessionLabel ++ setup.transcript crypto k j)

/-- Ideal hashing: transcripts that give one identifier, or one key, are the same. -/
structure IdealHash : Prop where
  sessionId : ∀ k j k' j', setup.sessionId crypto k j = setup.sessionId crypto k' j' →
    setup.transcript crypto k j = setup.transcript crypto k' j'
  keys : ∀ k j half k' j' half',
    keyHalf half (setup.keys crypto k j) = keyHalf half' (setup.keys crypto k' j') →
      setup.transcript crypto k j = setup.transcript crypto k' j' ∧ half = half'

/-- Different sessions of a node have different exchange keys. -/
def Fresh : Prop := ∀ side i i',
  crypto.x25519PublicKey (setup.secret (side, i)) =
    crypto.x25519PublicKey (setup.secret (side, i')) → i = i'

/-- The world at the start: every session is initialised, and has signed its hello. -/
structure Starts (w : NetWorld ι) : Prop where
  sessions : ∀ k, netSessionInit crypto (setup.identity k.1) (setup.publicKey k.1.other)
    (setup.secret k) = some (w.sessions k)
  signed : ∀ side m, m ∈ w.signed side ↔ ∃ i, m = setup.hello crypto (side, i)
  sealed : ∀ k, w.sealed k = []
  opened : ∀ k, w.opened k = []
  used : w.used = []

end NetSetup

end Setup

/-! ### Transcripts -/

theorem publicKeyLess_not : ∀ {l r : List UInt8}, l.length = r.length → l ≠ r →
    publicKeyLess r l = !publicKeyLess l r
  | [], [], _, h => absurd rfl h
  | a :: l, b :: r, hlen, h => by
    by_cases hab : a = b
    · subst hab
      have htail : l ≠ r := fun hlr => h (by rw [hlr])
      simp only [publicKeyLess, ne_eq, not_true_eq_false, if_false]
      exact publicKeyLess_not (Nat.succ_injective hlen) htail
    · have hba : b ≠ a := fun hba => hab hba.symm
      simp only [publicKeyLess, ne_eq, hab, hba, not_false_eq_true, if_true]
      rcases UInt8.lt_or_lt_of_ne hab with hlt | hlt
      · simp [hlt, UInt8.lt_asymm hlt]
      · simp [hlt, UInt8.lt_asymm hlt]

section Transcripts

variable {ι : Type} {crypto : Crypto} {setup : NetSetup ι}
variable (hkeys : setup.publicKey .left ≠ setup.publicKey .right)

include hkeys in
theorem NetSetup.first_other (side : Side) : setup.first side.other = !setup.first side := by
  have hne : (setup.publicKey side).bytes ≠ (setup.publicKey side.other).bytes := by
    intro h
    cases side
    · exact hkeys (Block.ext h)
    · exact hkeys (Block.ext h.symm)
  have hlen : (setup.publicKey side).bytes.length = (setup.publicKey side.other).bytes.length := by
    rw [Block.length_bytes, Block.length_bytes]
  rw [NetSetup.first, Side.other_other, publicKeyLess_not hlen hne]
  rfl

include hkeys in
theorem NetSetup.transcript_comm (k : Side × ι) (j : ι) :
    setup.transcript crypto (k.1.other, j) k.2 = setup.transcript crypto k j := by
  have hfirst := NetSetup.first_other hkeys k.1
  unfold NetSetup.transcript
  simp only [Side.other_other, Prod.mk.eta, hfirst, crypto.x25519_comm (setup.secret k)]
  cases setup.first k.1 <;> rfl

theorem NetSetup.hello_inj (hfresh : setup.Fresh crypto) {side : Side} {i i' : ι}
    (h : setup.hello crypto (side, i) = setup.hello crypto (side, i')) : i = i' := by
  refine hfresh side i i' ?_
  have hexchange := congrArg (fun l => ((l ++ []).drop 40).take 32) h
  simpa only [NetSetup.hello, helloSigned_exchange] using hexchange

theorem NetSetup.transcript_inj (hfresh : setup.Fresh crypto) {side : Side} {i j i' j' : ι}
    (h : setup.transcript crypto (side, i) j = setup.transcript crypto (side, i') j') :
    i = i' ∧ j = j' := by
  have hlen : ∀ k : Side × ι, (setup.hello crypto k).length = 72 :=
    fun k => length_helloSigned crypto _ _
  unfold NetSetup.transcript at h
  obtain ⟨-, hhellos⟩ := List.append_inj h (by rw [crypto.length_shared, crypto.length_shared])
  split_ifs at hhellos
  · obtain ⟨h1, h2⟩ := List.append_inj hhellos (by rw [hlen, hlen])
    exact ⟨NetSetup.hello_inj hfresh h1, NetSetup.hello_inj hfresh h2⟩
  · obtain ⟨h1, h2⟩ := List.append_inj hhellos (by rw [hlen, hlen])
    exact ⟨NetSetup.hello_inj hfresh h2, NetSetup.hello_inj hfresh h1⟩

end Transcripts

/-! ### The invariant -/

section Invariant

variable {ι : Type} (crypto : Crypto) (setup : NetSetup ι)

/-- Session `k` accepted the hello of session `j` of its peer. -/
def NetWorld.Accepted (w : NetWorld ι) (k : Side × ι) (j : ι) : Prop :=
  (w.sessions k).active = true ∧
    (w.sessions k).remoteHello.take 72 = setup.hello crypto (k.1.other, j)

/-- The keys of session `k` are those of its exchange with session `j`. -/
structure NetSession.Keyed (s : NetSession) (k : Side × ι) (j : ι) : Prop where
  remote : s.remoteHello.take 72 = setup.hello crypto (k.1.other, j)
  sendKey : s.sendKey = keyHalf (setup.first k.1) (setup.keys crypto k j)
  receiveKey : s.receiveKey = keyHalf (!setup.first k.1) (setup.keys crypto k j)
  sessionId : s.sessionId = setup.sessionId crypto k j

/-- What holds of one session. -/
structure NetWorld.SessionOk (w : NetWorld ι) (k : Side × ι) : Prop where
  identity : (w.sessions k).identity = setup.identity k.1
  pinnedPeer : (w.sessions k).pinnedPeer = setup.publicKey k.1.other
  localHello : (w.sessions k).localHello.take 72 = setup.hello crypto k
  sendSequence : (w.sessions k).sendSequence.toNat = (w.sealed k).length
  waiting : (w.sessions k).active = false →
    (w.sessions k).exchangeSecret = setup.secret k ∧ w.opened k = []
  keyed : (w.sessions k).active = true → ∃ j, (w.sessions k).Keyed crypto setup k j

/-- `m` is the signed part of packet number `n + 1` of session `k`. -/
def NetWorld.IsPacket (w : NetWorld ι) (k : Side × ι) (n : Nat) (kind : UInt32)
    (body m : List UInt8) : Prop :=
  (w.sessions k).active = true ∧ (w.sealed k)[n]? = some (kind, body) ∧ kind ≤ netMessageAck ∧
    body.length ≤ netBodyMax ∧ ∃ sequence : UInt64, sequence.toNat = n + 1 ∧
      m = signedPacket crypto (w.sessions k).sessionId (w.sessions k).sendKey kind sequence body

structure NetInvariant (w : NetWorld ι) : Prop where
  session : ∀ k, w.SessionOk crypto setup k
  signed : ∀ side m, m ∈ w.signed side → (∃ i, m = setup.hello crypto (side, i)) ∨
    ∃ i n kind body, w.IsPacket crypto (side, i) n kind body m
  opened : ∀ k, w.opened k = [] ∨ ∃ j, w.Accepted crypto setup k j ∧
    w.Accepted crypto setup (k.1.other, j) k.2 ∧
    (w.opened k).Sublist
      ((w.sealed (k.1.other, j)).take (w.sessions k).receiveSequence.toNat)
  used : ∀ pair ∈ w.used, ∃ k n, (w.sessions k).active = true ∧ n < (w.sealed k).length ∧
    pair.1 = (w.sessions k).sendKey ∧ ∃ sequence : UInt64, sequence.toNat = n + 1 ∧
      pair.2 = packetNonce sequence
  nodup : w.used.Nodup

variable {crypto setup} {w w' : NetWorld ι} {k : Side × ι} {j : ι}
variable (hkeys : setup.publicKey .left ≠ setup.publicKey .right)
variable (hideal : setup.IdealHash crypto) (hfresh : setup.Fresh crypto)

theorem NetWorld.SessionOk.congr (h : w.SessionOk crypto setup k)
    (hs : w'.sessions k = w.sessions k) (hsealed : w'.sealed k = w.sealed k)
    (hopened : w'.opened k = w.opened k) : w'.SessionOk crypto setup k := by
  obtain ⟨h1, h2, h3, h4, h5, h6⟩ := h
  rw [← hs] at h1 h2 h3 h4 h5 h6
  rw [← hsealed] at h4
  rw [← hopened] at h5
  exact ⟨h1, h2, h3, h4, h5, h6⟩

theorem NetSession.Keyed.length_sessionId {s : NetSession} (h : s.Keyed crypto setup k j) :
    s.sessionId.length = 32 := by
  rw [h.sessionId, NetSetup.sessionId, crypto.length_blake2b]

theorem NetInvariant.length_sessionId (h : NetInvariant crypto setup w)
    (hactive : (w.sessions k).active = true) : (w.sessions k).sessionId.length = 32 := by
  obtain ⟨j, hj⟩ := (h.session k).keyed hactive
  exact hj.length_sessionId

/-! ### What never changes -/

/-- From `w` to `w'` established sessions keep their keys, and logs only grow. -/
structure NetWorld.Grows (w w' : NetWorld ι) : Prop where
  active : ∀ k, (w.sessions k).active = true → (w'.sessions k).active = true ∧
    (w'.sessions k).remoteHello = (w.sessions k).remoteHello ∧
    (w'.sessions k).sendKey = (w.sessions k).sendKey ∧
    (w'.sessions k).receiveKey = (w.sessions k).receiveKey ∧
    (w'.sessions k).sessionId = (w.sessions k).sessionId
  sealed : ∀ k, w.sealed k <+: w'.sealed k

theorem NetWorld.Accepted.grows (h : w.Accepted crypto setup k j) (hgrows : w.Grows w') :
    w'.Accepted crypto setup k j := by
  obtain ⟨hactive, hremote, -⟩ := hgrows.active k h.1
  exact ⟨hactive, by rw [hremote]; exact h.2⟩

theorem NetWorld.IsPacket.grows {n : Nat} {kind : UInt32} {body m : List UInt8}
    (h : w.IsPacket crypto k n kind body m) (hgrows : w.Grows w') :
    w'.IsPacket crypto k n kind body m := by
  obtain ⟨hactive, hsealed, hkind, hbody, sequence, hsequence, rfl⟩ := h
  obtain ⟨hactive', -, hsend, -, hid⟩ := hgrows.active k hactive
  obtain ⟨hn, -⟩ := List.getElem?_eq_some_iff.mp hsealed
  refine ⟨hactive', ?_, hkind, hbody, sequence, hsequence, by rw [hsend, hid]⟩
  obtain ⟨later, hlater⟩ := hgrows.sealed k
  rw [← hlater, List.getElem?_append_left hn]
  exact hsealed

section

variable (h : NetInvariant crypto setup w) (hgrows : w.Grows w')

include h hgrows

theorem NetInvariant.opened_grows (hopened : w'.opened k = w.opened k)
    (hreceive : (w'.sessions k).receiveSequence = (w.sessions k).receiveSequence) :
    w'.opened k = [] ∨ ∃ j, w'.Accepted crypto setup k j ∧
      w'.Accepted crypto setup (k.1.other, j) k.2 ∧
      (w'.opened k).Sublist
        ((w'.sealed (k.1.other, j)).take (w'.sessions k).receiveSequence.toNat) := by
  rw [hopened, hreceive]
  rcases h.opened k with hnil | ⟨j, hkj, hjk, hsub⟩
  · exact .inl hnil
  · refine .inr ⟨j, hkj.grows hgrows, hjk.grows hgrows, hsub.trans ?_⟩
    exact (List.IsPrefix.take (hgrows.sealed _) _).sublist

theorem NetInvariant.signed_grows {side : Side} {m : List UInt8} (hm : m ∈ w.signed side) :
    (∃ i, m = setup.hello crypto (side, i)) ∨
      ∃ i n kind body, w'.IsPacket crypto (side, i) n kind body m := by
  rcases h.signed side m hm with hhello | ⟨i, n, kind, body, hpacket⟩
  · exact .inl hhello
  · exact .inr ⟨i, n, kind, body, hpacket.grows hgrows⟩

theorem NetInvariant.used_grows {pair : List UInt8 × List UInt8} (hpair : pair ∈ w.used) :
    ∃ k n, (w'.sessions k).active = true ∧ n < (w'.sealed k).length ∧
      pair.1 = (w'.sessions k).sendKey ∧ ∃ sequence : UInt64, sequence.toNat = n + 1 ∧
        pair.2 = packetNonce sequence := by
  obtain ⟨k, n, hactive, hn, hkey, hnonce⟩ := h.used pair hpair
  obtain ⟨hactive', -, hsend, -, -⟩ := hgrows.active k hactive
  exact ⟨k, n, hactive', lt_of_lt_of_le hn (hgrows.sealed k).length_le, by rw [hsend]; exact hkey,
    hnonce⟩

end

/-! ### The steps -/

theorem NetInvariant.hello_signed (h : NetInvariant crypto setup w) {hello : List UInt8}
    (hmagic : hello.take 4 = netHelloMagic) (hsigned : hello.take 72 ∈ w.signed k.1.other) :
    ∃ j, hello.take 72 = setup.hello crypto (k.1.other, j) := by
  rcases h.signed _ _ hsigned with hhello | ⟨i, n, kind, body, -, -, -, -, sequence, -, hm⟩
  · exact hhello
  · -- packets start with other bytes
    have htake : (hello.take 72).take 4 = netHelloMagic := by rw [List.take_take]; exact hmagic
    rw [hm] at htake
    have hdata : netDataMagic = netHelloMagic := htake
    exact absurd hdata (by decide)

theorem NetInvariant.keyed_established (h : NetInvariant crypto setup w)
    (hwaiting : (w.sessions k).active = false) {hello : List UInt8}
    (hj : hello.take 72 = setup.hello crypto (k.1.other, j)) :
    (sessionEstablished crypto (w.sessions k) (crypto.x25519 (w.sessions k).exchangeSecret
      ((hello.drop 40).take 32)) hello).Keyed crypto setup k j := by
  obtain ⟨hsecret, -⟩ := (h.session k).waiting hwaiting
  have hexchange : (hello.drop 40).take 32 =
      crypto.x25519PublicKey (setup.secret (k.1.other, j)) := by
    rw [← List.take_append_drop 72 hello, hj, NetSetup.hello, helloSigned_exchange]
  have hfirst : publicKeyLess (w.sessions k).identity.publicKey.bytes
      (w.sessions k).pinnedPeer.bytes = setup.first k.1 := by
    rw [(h.session k).identity, (h.session k).pinnedPeer]
    rfl
  have htranscript : sessionTranscript (w.sessions k)
      (crypto.x25519 (w.sessions k).exchangeSecret ((hello.drop 40).take 32)) hello =
        setup.transcript crypto k j := by
    unfold sessionTranscript NetSetup.transcript
    rw [hexchange, hsecret, hfirst]
    cases setup.first k.1
    · simp only [Bool.false_eq_true, if_false, hj, (h.session k).localHello]
    · simp only [if_true, hj, (h.session k).localHello]
  refine ⟨hj, ?_, ?_, ?_⟩
  · simp only [sessionEstablished, hfirst, htranscript, NetSetup.keys]
  · simp only [sessionEstablished, hfirst, htranscript, NetSetup.keys]
  · simp only [sessionEstablished, htranscript, NetSetup.sessionId]

include hkeys hideal hfresh in
theorem NetInvariant.sendKey_inj (h : NetInvariant crypto setup w) {k' : Side × ι}
    (hk : (w.sessions k).active = true) (hk' : (w.sessions k').active = true)
    (hsend : (w.sessions k).sendKey = (w.sessions k').sendKey) : k = k' := by
  obtain ⟨j, hj⟩ := (h.session k).keyed hk
  obtain ⟨j', hj'⟩ := (h.session k').keyed hk'
  rw [hj.sendKey, hj'.sendKey] at hsend
  obtain ⟨htranscript, hfirst⟩ := hideal.keys _ _ _ _ _ _ hsend
  obtain ⟨side, i⟩ := k
  obtain ⟨side', i'⟩ := k'
  rcases Side.eq_or_eq_other side side' with rfl | rfl
  · obtain ⟨rfl, -⟩ := NetSetup.transcript_inj hfresh htranscript
    rfl
  · rw [NetSetup.first_other hkeys] at hfirst
    exact absurd hfirst (by cases setup.first side <;> decide)

include hkeys hideal hfresh in
/-- Sessions with one identifier accepted each other's hello, and one receives under the key the
other sends under. -/
theorem NetInvariant.partner (h : NetInvariant crypto setup w) {i : ι}
    (hk : (w.sessions k).active = true) (hi : (w.sessions (k.1.other, i)).active = true)
    (hid : (w.sessions k).sessionId = (w.sessions (k.1.other, i)).sessionId) :
    w.Accepted crypto setup k i ∧ w.Accepted crypto setup (k.1.other, i) k.2 ∧
      (w.sessions k).receiveKey = (w.sessions (k.1.other, i)).sendKey := by
  obtain ⟨j, hj⟩ := (h.session k).keyed hk
  obtain ⟨j', hj'⟩ := (h.session _).keyed hi
  rw [hj.sessionId, hj'.sessionId] at hid
  have htranscript := hideal.sessionId _ _ _ _ hid
  rw [← NetSetup.transcript_comm hkeys k j] at htranscript
  obtain ⟨rfl, rfl⟩ := NetSetup.transcript_inj hfresh htranscript
  refine ⟨⟨hk, hj.remote⟩, ⟨hi, hj'.remote⟩, ?_⟩
  rw [hj.receiveKey, hj'.sendKey, NetSetup.first_other hkeys, NetSetup.keys, NetSetup.keys,
    NetSetup.transcript_comm hkeys k j]

theorem NetInvariant.packet_signed (h : NetInvariant crypto setup w) {packet : List UInt8} {n : Nat}
    (hmagic : packet.take 4 = netDataMagic) (hn : 4 ≤ n)
    (hsigned : packet.take n ∈ w.signed k.1.other) :
    ∃ i n' kind body, w.IsPacket crypto (k.1.other, i) n' kind body (packet.take n) := by
  rcases h.signed _ _ hsigned with ⟨i, hhello⟩ | hpacket
  · -- a hello starts with other bytes
    have htake : (packet.take n).take 4 = netDataMagic := by
      rw [List.take_take, Nat.min_eq_left hn]
      exact hmagic
    rw [hhello] at htake
    have hdata : netHelloMagic = netDataMagic := htake
    exact absurd hdata (by decide)
  · exact hpacket

include hkeys hideal hfresh in
/-- **What an accepted packet carries**: a pair the partner sealed, at its place in the log. -/
theorem NetInvariant.opened_packet (h : NetInvariant crypto setup w) {packet plain : List UInt8}
    {view : NetWireView} (hactive : (w.sessions k).active = true)
    (hview : netWireValidate packet = some view) (hkind : view.kind ≠ 0)
    (hid : (packet.drop 8).take 32 = (w.sessions k).sessionId)
    (hsigned : packet.take view.signedLength ∈ w.signed k.1.other)
    (hunlock : crypto.aeadUnlock ((packet.drop (netPacketHeader + view.payloadLength)).take 16)
      (w.sessions k).receiveKey (packetNonce view.sequence) (packet.take netPacketHeader)
      ((packet.drop netPacketHeader).take view.payloadLength) = some plain) :
    ∃ i n, w.Accepted crypto setup k i ∧ w.Accepted crypto setup (k.1.other, i) k.2 ∧
      (w.sealed (k.1.other, i))[n]? = some (view.kind, plain) ∧ view.sequence.toNat = n + 1 ∧
      view.payloadLength = plain.length := by
  obtain ⟨hmagic, hlength, hfields⟩ := netWireValidate_data hview hkind
  have hsplit : view.signedLength = packet.length - 64 := by rw [hfields]
  obtain ⟨i, n, kind, body, hi, hsealed, hmax, hbody, sequence, hsequence, hm⟩ :=
    h.packet_signed hmagic (by omega) hsigned
  have hreads := readsAs_signedPacket crypto (h.length_sessionId hi)
    (w.sessions (k.1.other, i)).sendKey kind sequence hbody (packet.drop view.signedLength)
  rw [← hm, List.take_append_drop] at hreads
  have hpartner := h.partner hkeys hideal hfresh hactive hi (hid.symm.trans hreads.sessionId)
  obtain ⟨hki, hik, hkey⟩ := hpartner
  have hviewKind : view.kind = kind := by
    have hle : kind.toNat ≤ 5 := hmax
    rw [hfields, hreads.kind]
    apply UInt32.toNat_inj.mp
    rw [UInt8.toNat_toUInt32, UInt32.toNat_toUInt8, Nat.mod_eq_of_lt (by omega)]
  have hviewSequence : view.sequence = sequence := by rw [hfields]; exact hreads.sequence
  have hviewLength : view.payloadLength = body.length := by rw [hfields]; exact hreads.payloadLength
  have hplain : plain = body := by
    rw [hviewLength, hviewSequence, hreads.header, hreads.cipher, hreads.authenticator, hkey,
      crypto.unlock_lock] at hunlock
    exact (Option.some.inj hunlock).symm
  exact ⟨i, n, hki, hik, by rw [hviewKind, hplain]; exact hsealed,
    by rw [hviewSequence]; exact hsequence, by rw [hplain]; exact hviewLength⟩

theorem NetInvariant.start (hstarts : setup.Starts crypto w) : NetInvariant crypto setup w where
  session k := by
    have hinit := hstarts.sessions k
    unfold netSessionInit at hinit
    split_ifs at hinit
    have hs := (Option.some.inj hinit).symm
    refine ⟨by rw [hs], by rw [hs], ?_, ?_, fun _ => ⟨by rw [hs], hstarts.opened k⟩, ?_⟩
    · rw [hs]
      exact List.take_left' (length_helloSigned crypto _ _)
    · rw [hs, hstarts.sealed k]
      rfl
    · intro hactive
      rw [hs] at hactive
      cases hactive
  signed side m hm := .inl ((hstarts.signed side m).mp hm)
  opened k := .inl (hstarts.opened k)
  used pair hpair := by
    rw [hstarts.used] at hpair
    exact absurd hpair List.not_mem_nil
  nodup := by
    rw [hstarts.used]
    exact List.nodup_nil

theorem NetSetup.Starts.publicKey_ne (hstarts : setup.Starts crypto w) (i : ι) :
    setup.publicKey .left ≠ setup.publicKey .right := by
  intro heq
  have hinit := hstarts.sessions (.left, i)
  unfold netSessionInit at hinit
  rw [if_pos (.inl heq)] at hinit
  cases hinit

include hfresh in
theorem NetInvariant.opened_sublist (h : NetInvariant crypto setup w)
    (hkj : w.Accepted crypto setup k j) : (w.opened k).Sublist (w.sealed (k.1.other, j)) := by
  rcases h.opened k with hnil | ⟨j', hkj', -, hsub⟩
  · rw [hnil]
    exact List.nil_sublist _
  · obtain rfl := NetSetup.hello_inj hfresh (hkj.2.symm.trans hkj'.2)
    exact hsub.trans (List.take_sublist _ _)

include hkeys hideal hfresh in
/-- The keys of sessions that accepted each other's hello mirror each other. -/
theorem NetInvariant.mirror (h : NetInvariant crypto setup w) (hkj : w.Accepted crypto setup k j)
    (hjk : w.Accepted crypto setup (k.1.other, j) k.2) :
    (w.sessions k).sendKey = (w.sessions (k.1.other, j)).receiveKey ∧
      (w.sessions k).receiveKey = (w.sessions (k.1.other, j)).sendKey ∧
      (w.sessions k).sendKey ≠ (w.sessions k).receiveKey := by
  obtain ⟨j', hj'⟩ := (h.session k).keyed hkj.1
  obtain rfl := NetSetup.hello_inj hfresh (hkj.2.symm.trans hj'.remote)
  obtain ⟨k', hk'⟩ := (h.session _).keyed hjk.1
  have hremote : setup.hello crypto (k.1, k.2) = setup.hello crypto (k.1, k') := by
    have hboth := hjk.2.symm.trans hk'.remote
    simpa only [Side.other_other] using hboth
  obtain rfl := NetSetup.hello_inj hfresh hremote
  have hkeysEq : setup.keys crypto (k.1.other, j) k.2 = setup.keys crypto k j := by
    rw [NetSetup.keys, NetSetup.keys, NetSetup.transcript_comm hkeys k j]
  have hother := NetSetup.first_other hkeys k.1
  refine ⟨?_, ?_, fun hsame => ?_⟩
  · rw [hj'.sendKey, hk'.receiveKey, hkeysEq, hother, Bool.not_not]
  · rw [hj'.receiveKey, hk'.sendKey, hkeysEq, hother]
  · rw [hj'.sendKey, hj'.receiveKey] at hsame
    exact absurd (hideal.keys _ _ _ _ _ _ hsame).2 (by cases setup.first k.1 <;> decide)

/-- The step lets session `k` count on, and what happened to the other sessions stays. -/
structure NetWorld.Advances (w w' : NetWorld ι) (k : Side × ι) : Prop where
  self : ∃ send receive, w'.sessions k =
    { w.sessions k with sendSequence := send, receiveSequence := receive }
  sequence : (w'.sessions k).sendSequence.toNat = (w'.sealed k).length
  sealed : w.sealed k <+: w'.sealed k
  others : ∀ k', k' ≠ k → w'.sessions k' = w.sessions k' ∧ w'.sealed k' = w.sealed k' ∧
    w'.opened k' = w.opened k'

theorem NetWorld.Advances.grows (hadvances : w.Advances w' k) : w.Grows w' := by
  obtain ⟨send, receive, hself⟩ := hadvances.self
  refine ⟨fun k' hactive => ?_, fun k' => ?_⟩
  all_goals by_cases hk' : k' = k
  · subst hk'
    rw [hself]
    exact ⟨hactive, rfl, rfl, rfl, rfl⟩
  · rw [(hadvances.others k' hk').1]
    exact ⟨hactive, rfl, rfl, rfl, rfl⟩
  · exact hk' ▸ hadvances.sealed
  · rw [(hadvances.others k' hk').2.1]

/-- Counting on keeps an established session as it has to be. -/
theorem NetInvariant.session_advances (h : NetInvariant crypto setup w)
    (hactive : (w.sessions k).active = true) (hadvances : w.Advances w' k) (k' : Side × ι) :
    w'.SessionOk crypto setup k' := by
  by_cases hk' : k' = k
  · subst hk'
    have hsame := h.session k'
    obtain ⟨j, hj⟩ := hsame.keyed hactive
    have hsequence := hadvances.sequence
    obtain ⟨send, receive, hself⟩ := hadvances.self
    rw [hself] at hsequence
    refine ⟨?_, ?_, ?_, ?_, ?_, ?_⟩
    all_goals rw [hself]
    · exact hsame.identity
    · exact hsame.pinnedPeer
    · exact hsame.localHello
    · exact hsequence
    · exact fun hwaiting => absurd (hactive.symm.trans hwaiting) (by decide)
    · exact fun _ => ⟨j, hj.remote, hj.sendKey, hj.receiveKey, hj.sessionId⟩
  · obtain ⟨hsession, hsealed, hopened⟩ := hadvances.others k' hk'
    exact (h.session k').congr hsession hsealed hopened

variable [DecidableEq ι]

theorem NetWorld.grows_update {s : NetSession} (hwaiting : (w.sessions k).active = false) :
    w.Grows { w with sessions := Function.update w.sessions k s } := by
  refine ⟨fun k' hactive => ?_, fun _ => List.prefix_refl _⟩
  have hne : k' ≠ k := by
    rintro rfl
    rw [hwaiting] at hactive
    cases hactive
  dsimp only
  rw [Function.update_of_ne hne]
  exact ⟨hactive, rfl, rfl, rfl, rfl⟩

/-- **An accepted hello** gives the session the keys of its exchange with the peer that signed
it. -/
theorem NetInvariant.acceptHello (h : NetInvariant crypto setup w) {hello : List UInt8}
    (hunforged : w.Unforged crypto (.acceptHello k hello)) :
    NetInvariant crypto setup (w.step crypto (.acceptHello k hello)) := by
  rcases netSessionAccept_cases crypto (w.sessions k) hello with ⟨b, hcase⟩ |
    ⟨hwaiting, hmagic, hcheck, hcase⟩
  · rw [NetWorld.step, hcase, Function.update_eq_self]
    exact h
  rw [NetWorld.step, hcase]
  obtain ⟨j, hj⟩ := h.hello_signed hmagic (hunforged 72 hcheck)
  have hgrows := NetWorld.grows_update (s := sessionEstablished crypto (w.sessions k)
    (crypto.x25519 (w.sessions k).exchangeSecret ((hello.drop 40).take 32)) hello) hwaiting
  refine ⟨fun k' => ?_, fun side m hm => h.signed_grows hgrows hm,
    fun k' => h.opened_grows hgrows rfl ?_, fun pair hpair => h.used_grows hgrows hpair, h.nodup⟩
  · by_cases hk' : k' = k
    · subst hk'
      have hsame := h.session k'
      refine ⟨?_, ?_, ?_, ?_, ?_, ?_⟩
      all_goals dsimp only
      all_goals rw [Function.update_self]
      · exact hsame.identity
      · exact hsame.pinnedPeer
      · exact hsame.localHello
      · exact hsame.sendSequence
      · intro hactive
        cases hactive
      · exact fun _ => ⟨j, h.keyed_established hwaiting hj⟩
    · exact (h.session k').congr (Function.update_of_ne hk' _ _) rfl rfl
  · dsimp only
    by_cases hk' : k' = k
    · subst hk'
      rw [Function.update_self]
      rfl
    · rw [Function.update_of_ne hk']

theorem packetNonce_inj {n n' : UInt64} (h : packetNonce n = packetNonce n') : n = n' := by
  have htail := (List.append_inj h rfl).2
  have hword := congrArg (fun l => (get64 (l ++ [])).1) htail
  simpa only [get64_le64_append] using hword

/-- What a successful seal leaves in the caller's buffer starts with the signed part. -/
theorem take_sealed {crypto : Crypto} {sessionId sendKey : List UInt8} {kind : UInt32}
    {sequence : UInt64} {body output secretKey : List UInt8} (hid : sessionId.length = 32) :
    (writeAt output 0 (signedPacket crypto sessionId sendKey kind sequence body ++
      crypto.ed25519Sign secretKey
        (signedPacket crypto sessionId sendKey kind sequence body))).take
      (136 + body.length - 64) = signedPacket crypto sessionId sendKey kind sequence body := by
  have hlen := length_signedPacket crypto hid sendKey kind sequence body
  rw [writeAt, List.take_zero, List.nil_append, List.append_assoc, List.take_left' (by omega)]

/-- The world after session `k` sealed `body`. -/
def NetWorld.afterSeal (crypto : Crypto) (w : NetWorld ι) (k : Side × ι) (kind : UInt32)
    (body : List UInt8) : NetWorld ι :=
  { w with
    sessions := Function.update w.sessions k
      { w.sessions k with sendSequence := (w.sessions k).sendSequence + 1 }
    signed := Function.update w.signed k.1
      (insert (signedPacket crypto (w.sessions k).sessionId (w.sessions k).sendKey kind
        ((w.sessions k).sendSequence + 1) body) (w.signed k.1))
    sealed := Function.update w.sealed k (w.sealed k ++ [(kind, body)])
    used := w.used ++
      [((w.sessions k).sendKey, packetNonce ((w.sessions k).sendSequence + 1))] }

theorem NetInvariant.advances_afterSeal (h : NetInvariant crypto setup w) (kind : UInt32)
    (body : List UInt8) (hmax : (w.sessions k).sendSequence ≠ 0xFFFFFFFFFFFFFFFF) :
    w.Advances (w.afterSeal crypto k kind body) k := by
  refine ⟨⟨_, _, Function.update_self _ _ _⟩, ?_, ?_, fun k' hk' =>
    ⟨Function.update_of_ne hk' _ _, Function.update_of_ne hk' _ _, rfl⟩⟩
  all_goals dsimp only [NetWorld.afterSeal]
  · have hlt := (w.sessions k).sendSequence.toNat_lt
    have hne : (w.sessions k).sendSequence.toNat ≠ 2 ^ 64 - 1 := fun heq =>
      hmax (UInt64.toNat_inj.mp heq)
    rw [Function.update_self, Function.update_self, List.length_append,
      ← (h.session k).sendSequence, UInt64.toNat_add, UInt64.toNat_one,
      Nat.mod_eq_of_lt (by omega)]
    rfl
  · rw [Function.update_self]
    exact List.prefix_append _ _

include hkeys hideal hfresh in
/-- **A seal** signs the packet with the next number of its session, under a nonce that was not used
with its key. -/
theorem NetInvariant.sealBody (h : NetInvariant crypto setup w) (kind : UInt32)
    (body output : List UInt8) :
    NetInvariant crypto setup (w.step crypto (.sealBody k kind body output)) := by
  rcases netSessionSeal_cases crypto (w.sessions k) kind body output with hcase |
    ⟨hactive, -, hkind, hbody, -, hmax, hcase⟩
  · simp only [NetWorld.step, hcase, Function.update_eq_self, if_true]
    exact h
  have hbytes : 136 + body.length ≠ 0 := by omega
  have hstep : w.step crypto (.sealBody k kind body output) = w.afterSeal crypto k kind body := by
    simp only [NetWorld.step, hcase, hbytes, if_false, take_sealed (h.length_sessionId hactive),
      NetWorld.afterSeal]
  have hadvances := h.advances_afterSeal kind body hmax
  have hgrows := hadvances.grows
  obtain ⟨hactive', -, hsend', -, hid'⟩ := hgrows.active k hactive
  have hself : (w.afterSeal crypto k kind body).sessions k =
      { w.sessions k with sendSequence := (w.sessions k).sendSequence + 1 } :=
    Function.update_self _ _ _
  have hsealed : (w.afterSeal crypto k kind body).sealed k = w.sealed k ++ [(kind, body)] :=
    Function.update_self _ _ _
  have hsequence : ((w.sessions k).sendSequence + 1).toNat = (w.sealed k).length + 1 := by
    have hcounted := hadvances.sequence
    rwa [hself, hsealed, List.length_append] at hcounted
  rw [hstep]
  refine ⟨h.session_advances hactive hadvances, fun side m hm => ?_,
    fun k' => h.opened_grows hgrows rfl ?_, fun pair hpair => ?_, ?_⟩
  · -- the new message is the packet just sealed
    have hold : m ∈ w.signed side → _ := fun hm => h.signed_grows hgrows hm
    by_cases hside : side = k.1
    · subst hside
      dsimp only [NetWorld.afterSeal] at hm
      rw [Function.update_self] at hm
      rcases Set.mem_insert_iff.mp hm with rfl | hm
      · refine .inr ⟨k.2, (w.sealed k).length, kind, body, hactive', ?_, hkind, hbody,
          (w.sessions k).sendSequence + 1, hsequence, ?_⟩
        · rw [Prod.mk.eta, hsealed, List.getElem?_concat_length]
        · rw [Prod.mk.eta, hsend', hid']
      · exact hold hm
    · dsimp only [NetWorld.afterSeal] at hm
      rw [Function.update_of_ne hside] at hm
      exact hold hm
  · by_cases hk' : k' = k
    · subst hk'
      rw [hself]
    · exact congrArg _ (Function.update_of_ne hk' _ _)
  · rcases List.mem_append.mp hpair with hpair | hpair
    · exact h.used_grows hgrows hpair
    · rw [List.mem_singleton.mp hpair]
      refine ⟨k, (w.sealed k).length, hactive', ?_, hsend'.symm, _, hsequence, rfl⟩
      rw [hsealed, List.length_append, List.length_singleton]
      omega
  · refine List.nodup_append.mpr ⟨h.nodup, List.nodup_singleton _, ?_⟩
    rintro pair hpair _ hnew rfl
    rw [List.mem_singleton.mp hnew] at hpair
    -- an equal pair would be an earlier packet of the same session
    obtain ⟨k', n, hactive'', hn, hkey, sequence, hseq, hnonce⟩ := h.used _ hpair
    obtain rfl := h.sendKey_inj hkeys hideal hfresh hactive hactive'' hkey
    rw [← packetNonce_inj hnonce, hsequence] at hseq
    omega

include hkeys hideal hfresh in
/-- **A packet that is opened** is a later one than those opened before, of the same partner. -/
theorem NetInvariant.openPacket (h : NetInvariant crypto setup w) {packet output : List UInt8}
    {kind : UInt32} {length : Nat}
    (hunforged : w.Unforged crypto (.openPacket k packet output kind length)) :
    NetInvariant crypto setup (w.step crypto (.openPacket k packet output kind length)) := by
  rcases netSessionOpen_cases crypto (w.sessions k) packet output kind length with hcase |
    ⟨view, plain, hactive, hview, hkind, hroom, hlater, hid, hcheck, hunlock, hcase⟩
  · simp only [NetWorld.step, hcase, Function.update_eq_self, if_true]
    exact h
  obtain ⟨i, n, hki, hik, hsealed, hsequence, hlength⟩ := h.opened_packet hkeys hideal hfresh
    hactive hview hkind hid (hunforged _ hcheck) hunlock
  have hbody : (writeAt output 0 (plain.take view.payloadLength)).take view.payloadLength =
      plain := by
    rw [hlength, List.take_length, writeAt, List.take_zero, List.nil_append, List.take_left]
  simp only [NetWorld.step, hcase, Bool.true_eq_false, if_false, hbody]
  generalize hw' : NetWorld.mk _ _ _ _ _ = w'
  have hself : w'.sessions k = { w.sessions k with receiveSequence := view.sequence } := by
    rw [← hw']
    exact Function.update_self _ _ _
  have hopened : w'.opened k = w.opened k ++ [(view.kind, plain)] := by
    rw [← hw']
    exact Function.update_self _ _ _
  have hlog : w'.sealed = w.sealed := by rw [← hw']
  have hadvances : w.Advances w' k := by
    refine ⟨⟨_, _, hself⟩, ?_, by rw [hlog], fun k' hk' => ?_⟩
    · rw [hself, hlog]
      exact (h.session k).sendSequence
    · rw [← hw']
      exact ⟨Function.update_of_ne hk' _ _, rfl, Function.update_of_ne hk' _ _⟩
  have hgrows := hadvances.grows
  refine ⟨h.session_advances hactive hadvances,
    fun side m hm => h.signed_grows hgrows (by rw [← hw'] at hm; exact hm),
    fun k' => ?_, fun pair hpair => h.used_grows hgrows (by rw [← hw'] at hpair; exact hpair),
    by rw [← hw']; exact h.nodup⟩
  by_cases hk' : k' = k
  · subst hk'
    refine .inr ⟨i, hki.grows hgrows, hik.grows hgrows, ?_⟩
    -- everything opened before has a smaller number
    have hbefore : (w.opened k').Sublist ((w.sealed (k'.1.other, i)).take n) := by
      rcases h.opened k' with hnil | ⟨j, hkj, -, hsub⟩
      · rw [hnil]
        exact List.nil_sublist _
      · obtain rfl := NetSetup.hello_inj hfresh (hkj.2.symm.trans hki.2)
        have hlt := UInt64.lt_iff_toNat_lt.mp hlater
        exact hsub.trans (List.take_sublist_take_left (by omega))
    rw [hopened, hself, hlog, hsequence, List.take_add_one, hsealed]
    exact hbefore.append (List.Sublist.refl _)
  · obtain ⟨hsession, -, hopened'⟩ := hadvances.others k' hk'
    exact h.opened_grows hgrows hopened' (by rw [hsession])

/-! ### Runs -/

include hkeys hideal hfresh in
/-- **The invariant holds in every world a run reaches.** -/
theorem NetRun.invariant (hstarts : setup.Starts crypto w) (hrun : NetRun crypto w w') :
    NetInvariant crypto setup w' := by
  induction hrun with
  | refl => exact NetInvariant.start hstarts
  | step action _ hunforged ih =>
    cases action with
    | acceptHello k hello => exact ih.acceptHello hunforged
    | sealBody k kind body output => exact ih.sealBody hkeys hideal hfresh kind body output
    | openPacket k packet output kind length => exact ih.openPacket hkeys hideal hfresh hunforged

end Invariant

/-- **Session integrity.**  Whatever the network delivers, drops, repeats or forges: of two
sessions that accepted each other's hello, each opens a subsequence of what the other sealed, their
keys mirror each other and differ by direction, no key and nonce are used twice, and a call that
fails changes neither the session nor the caller's buffers. -/
theorem session_integrity {ι : Type} [DecidableEq ι] (crypto : Crypto) (setup : NetSetup ι)
    (w0 w : NetWorld ι) (hstarts : setup.Starts crypto w0) (hideal : setup.IdealHash crypto)
    (hfresh : setup.Fresh crypto) (hrun : NetRun crypto w0 w) (i j : ι)
    (hij : w.Accepted crypto setup (.left, i) j) (hji : w.Accepted crypto setup (.right, j) i) :
    (w.opened (.left, i)).Sublist (w.sealed (.right, j)) ∧
    (w.opened (.right, j)).Sublist (w.sealed (.left, i)) ∧
    (w.sessions (.left, i)).sendKey = (w.sessions (.right, j)).receiveKey ∧
    (w.sessions (.left, i)).receiveKey = (w.sessions (.right, j)).sendKey ∧
    (w.sessions (.left, i)).sendKey ≠ (w.sessions (.left, i)).receiveKey ∧
    w.used.Nodup ∧
    (∀ s hello, (netSessionAccept crypto s hello).1 = false →
      netSessionAccept crypto s hello = (false, s)) ∧
    (∀ s kind body output, (netSessionSeal crypto s kind body output).bytes = 0 →
      netSessionSeal crypto s kind body output = ⟨0, s, output⟩) ∧
    ∀ s packet output kind length,
      (netSessionOpen crypto s packet output kind length).accepted = false →
      netSessionOpen crypto s packet output kind length = ⟨false, s, output, kind, length⟩ := by
  have hkeys := hstarts.publicKey_ne i
  have hinv := hrun.invariant hkeys hideal hfresh hstarts
  obtain ⟨hsend, hreceive, hdiffer⟩ := hinv.mirror hkeys hideal hfresh hij hji
  refine ⟨hinv.opened_sublist hfresh hij, hinv.opened_sublist hfresh hji, hsend, hreceive, hdiffer,
    hinv.nodup, ?_, ?_, ?_⟩
  · intro s hello hfail
    rcases netSessionAccept_cases crypto s hello with ⟨b, hcase⟩ | ⟨-, -, -, hcase⟩
    · rw [hcase] at hfail ⊢
      rw [show b = false from hfail]
    · rw [hcase] at hfail
      cases hfail
  · intro s kind body output hfail
    rcases netSessionSeal_cases crypto s kind body output with hcase | ⟨-, -, -, -, -, -, hcase⟩
    · exact hcase
    · rw [hcase] at hfail
      dsimp only at hfail
      omega
  · intro s packet output kind length hfail
    rcases netSessionOpen_cases crypto s packet output kind length with hcase |
      ⟨view, plain, -, -, -, -, -, -, -, -, hcase⟩
    · exact hcase
    · rw [hcase] at hfail
      cases hfail

/-- Primitives that satisfy the laws and protect nothing, to run the sessions with. -/
def plainCrypto : Crypto where
  ed25519Sign _ _ := List.replicate 64 1
  ed25519Check signature _ _ := signature = List.replicate 64 1
  x25519PublicKey secret := (Block.ofBytes 32 secret).bytes
  x25519 _ _ := List.replicate 32 1
  blake2b size _ := (List.range size).map UInt8.ofNat
  aeadLock _ _ _ plain := (plain, List.replicate 16 0)
  aeadUnlock _ _ _ _ cipher := some cipher
  length_sign _ _ := List.length_replicate
  length_publicKey secret := Block.length_bytes _
  length_shared _ _ := List.length_replicate
  length_blake2b size _ := by rw [List.length_map, List.length_range]
  length_cipher _ _ _ _ := rfl
  length_authenticator _ _ _ _ := List.length_replicate
  unlock_lock _ _ _ _ := rfl
  x25519_comm _ _ := rfl

/-- Two nodes with one session each. -/
def pairSetup : NetSetup Unit where
  identity side := ⟨Block.ofBytes 32 (match side with | .left => [1] | .right => [2]), []⟩
  secret k := match k.1 with | .left => [3] | .right => [4]

def pairStart : NetWorld Unit where
  sessions k := ((netSessionInit plainCrypto (pairSetup.identity k.1)
    (pairSetup.publicKey k.1.other) (pairSetup.secret k)).getD
      ⟨pairSetup.identity k.1, Block.zero 32, [], [], [], [], [], [], 0, 0, false⟩)
  signed side := {m | ∃ i, m = pairSetup.hello plainCrypto (side, i)}
  sealed _ := []
  opened _ := []
  used := []

theorem pairStart_starts : pairSetup.Starts plainCrypto pairStart := by
  refine ⟨?_, fun _ _ => Iff.rfl, fun _ => rfl, fun _ => rfl, rfl⟩
  rintro ⟨_ | _, _⟩
  · rfl
  · rfl

theorem pairSetup_ideal : pairSetup.IdealHash plainCrypto := by
  have hsame : ∀ (k : Side × Unit) (j : Unit) (k' : Side × Unit) (j' : Unit),
      pairSetup.transcript plainCrypto k j = pairSetup.transcript plainCrypto k' j' := by
    rintro ⟨_ | _, _⟩ _ ⟨_ | _, _⟩ _
    all_goals rfl
  refine ⟨fun k j k' j' _ => hsame k j k' j', fun k j half k' j' half' h => ⟨hsame k j k' j', ?_⟩⟩
  have hkeys : keyHalf half ((List.range 64).map UInt8.ofNat) =
    keyHalf half' ((List.range 64).map UInt8.ofNat) := h
  cases half <;> cases half'
  · rfl
  · exact absurd hkeys (by decide)
  · exact absurd hkeys (by decide)
  · rfl

theorem plain_check {m : List UInt8} {publicKey : List UInt8} {n : Nat}
    (h : plainCrypto.ed25519Check ((m ++ List.replicate 64 1).drop n) publicKey
      ((m ++ List.replicate 64 1).take n) = true) : (m ++ List.replicate 64 1).take n = m := by
  have hdrop : (m ++ List.replicate 64 1).drop n = List.replicate 64 1 := of_decide_eq_true h
  have hall := List.take_append_drop n (m ++ List.replicate 64 1)
  rw [hdrop] at hall
  exact List.append_cancel_right hall

/-- The hello of a session, with its signature. -/
def pairHello (side : Side) : List UInt8 :=
  pairSetup.hello plainCrypto (side, ()) ++ List.replicate 64 1

/-- Both sides accept each other's hello. -/
def pairJoined : NetWorld Unit :=
  (pairStart.step plainCrypto (.acceptHello (.left, ()) (pairHello .right))).step plainCrypto
    (.acceptHello (.right, ()) (pairHello .left))

theorem pairJoined_run : NetRun plainCrypto pairStart pairJoined := by
  refine .step _ (.step _ (.refl _) ?_) ?_
  · intro n h
    exact ⟨(), plain_check h⟩
  · intro n h
    exact ⟨(), plain_check h⟩

/-- One body is sealed on the left. -/
def pairSealed : NetWorld Unit :=
  pairJoined.step plainCrypto (.sealBody (.left, ()) 2 [7] (List.replicate 140 0))

/-- Its packet is delivered twice on the right. -/
def pairDeliver : NetAction Unit :=
  .openPacket (.right, ()) (signedPacket plainCrypto (pairSealed.sessions (.left, ())).sessionId
    (pairSealed.sessions (.left, ())).sendKey 2 1 [7] ++ List.replicate 64 1) [0, 0] 0 0

def pairDelivered : NetWorld Unit :=
  (pairSealed.step plainCrypto pairDeliver).step plainCrypto pairDeliver

set_option maxRecDepth 10000 in
theorem pairDelivered_run : NetRun plainCrypto pairStart pairDelivered := by
  have hsealed : NetRun plainCrypto pairStart pairSealed :=
    NetRun.step (.sealBody (.left, ()) 2 [7] (List.replicate 140 0)) pairJoined_run trivial
  refine .step pairDeliver (.step pairDeliver hsealed ?_) ?_
  · intro n h
    rw [plain_check h]
    exact .inl (by decide +kernel)
  · intro n h
    rw [plain_check h]
    exact .inl (by decide +kernel)

set_option maxRecDepth 10000 in
theorem session_integrity_pair : pairDelivered.opened (.right, ()) = [(2, [7])] ∧
    (pairDelivered.opened (.right, ())).Sublist (pairDelivered.sealed (.left, ())) := by
  refine ⟨by decide +kernel, ?_⟩
  exact (session_integrity plainCrypto pairSetup pairStart pairDelivered pairStart_starts
    pairSetup_ideal (fun _ _ _ _ => rfl) pairDelivered_run () ()
    ⟨by decide +kernel, by decide +kernel⟩ ⟨by decide +kernel, by decide +kernel⟩).2.1

end Jani
