import Jani.Net.Equiv.Crdt
import Jani.Net.Replica

/-!
# What the replica functions do

Catalogs and messages are read back as they were written (`replicaCatalogDecode_bytes`,
`replicaMessageDecode_header`), and each function of a replica has an inversion lemma: the batch it
may have put, or that it changed nothing.
-/

namespace Jani

/-! ### Catalogs -/

/-- `scopesValid` as a proposition. -/
theorem scopesValid_iff : ∀ (c prior : List ReplicaScope), scopesValid prior c = true ↔
    (∀ s ∈ c, scopeValid s = true) ∧ (c.map (·.id)).Nodup ∧ ∀ s ∈ c, ∀ p ∈ prior, s.id ≠ p.id
  | [], _ => by simp [scopesValid]
  | s :: c, prior => by
    have ih := scopesValid_iff c (prior ++ [s])
    rw [scopesValid, List.forall_mem_cons, List.map_cons, List.nodup_cons, List.forall_mem_cons]
    by_cases hs : scopeValid s = true
    · rw [if_neg (by simp [hs])]
      split
      · rename_i hp
        obtain ⟨p, hmem, heq⟩ := hp
        refine iff_of_false Bool.false_ne_true fun h => ?_
        exact h.2.2.1 p hmem ((objectIdEqual_iff _ _).mp heq)
      · rename_i hp
        rw [ih]
        have hprior : ∀ p ∈ prior, s.id ≠ p.id := fun p hmem heq =>
          hp ⟨p, hmem, (objectIdEqual_iff _ _).mpr heq⟩
        constructor
        · rintro ⟨hvalid, hnodup, hne⟩
          refine ⟨⟨hs, hvalid⟩, ⟨fun hmem => ?_, hnodup⟩, hprior, fun t ht p hpmem =>
            hne t ht p (List.mem_append_left _ hpmem)⟩
          obtain ⟨t, ht, heq⟩ := List.mem_map.mp hmem
          exact hne t ht s (List.mem_append_right _ List.mem_cons_self) heq
        · rintro ⟨⟨-, hvalid⟩, ⟨hnot, hnodup⟩, -, hne⟩
          refine ⟨hvalid, hnodup, fun t ht p hpmem => ?_⟩
          rcases List.mem_append.mp hpmem with hpmem | hpmem
          · exact hne t ht p hpmem
          · rw [List.mem_singleton.mp hpmem]
            exact fun heq => hnot (List.mem_map.mpr ⟨t, ht, heq⟩)
    · rw [if_pos (by simp [hs])]
      exact iff_of_false Bool.false_ne_true fun h => hs h.1.1

/-- A valid catalog. -/
structure CatalogOk (c : ReplicaCatalog) : Prop where
  length_le : c.length ≤ replicaObjectsMax
  valid : ∀ s ∈ c, scopeValid s = true
  nodup : (c.map (·.id)).Nodup

variable {c : ReplicaCatalog} {s : ReplicaScope}

theorem catalogValid_iff : catalogValid c = true ↔ CatalogOk c := by
  unfold catalogValid
  by_cases h : c.length > replicaObjectsMax
  · rw [if_pos h]
    exact iff_of_false Bool.false_ne_true fun hok => Nat.not_lt.mpr hok.length_le h
  · rw [if_neg h, scopesValid_iff]
    exact ⟨fun hand => ⟨Nat.not_lt.mp h, hand.1, hand.2.1⟩, fun hok =>
      ⟨hok.valid, hok.nodup, fun _ _ p hp => absurd hp List.not_mem_nil⟩⟩

theorem CatalogOk.unique (h : CatalogOk c) {t : ReplicaScope} (hs : s ∈ c) (ht : t ∈ c)
    (hid : s.id = t.id) : s = t :=
  List.inj_on_of_nodup_map h.nodup hs ht hid

theorem scopeValid_iff : scopeValid s = true ↔
    s.id.high ≥ 0x8000000000000000 ∧ s.id.low ≠ 0 ∧ s.epoch ≠ 0 ∧ s.kind ≥ 1 ∧ s.kind ≤ 2 ∧
      s.rights ≤ 3 ∧ s.owned ≤ 1 ∧ s.reserved = 0 := by
  unfold scopeValid
  rw [decide_eq_true_eq]

theorem ReplicaScope.length_bytes (s : ReplicaScope) : s.bytes.length = 40 := by
  simp [ReplicaScope.bytes]

theorem ReplicaScope.ofBytes_bytes_append (h : s.reserved = 0) (r : List UInt8) :
    ReplicaScope.ofBytes (s.bytes ++ r) = s := by
  cases s
  subst h
  simp [ReplicaScope.ofBytes, ReplicaScope.bytes]

theorem reserved_of_mem_padded (h : CatalogOk c) {n : Nat}
    (hs : s ∈ c ++ List.replicate n zeroScope) : s.reserved = 0 := by
  rcases List.mem_append.mp hs with hs | hs
  · exact (scopeValid_iff.mp (h.valid s hs)).2.2.2.2.2.2.2
  · rw [List.eq_of_mem_replicate hs]
    rfl

/-- The part of a stored catalog before the scopes. -/
def catalogHead (localKey peerKey : Block 32) (count : UInt32) : List UInt8 :=
  replicaCatalogMagic ++ [1, 0, 0, 0] ++ localKey.bytes ++ peerKey.bytes ++ le32 count ++ le32 0

theorem length_catalogHead (localKey peerKey : Block 32) (count : UInt32) :
    (catalogHead localKey peerKey count).length = 80 := by
  simp [catalogHead, replicaCatalogMagic, localKey.length_bytes, peerKey.length_bytes]

theorem catalogHead_fields (localKey peerKey : Block 32) (count : UInt32) {b r : List UInt8}
    (hb : b = catalogHead localKey peerKey count ++ r) :
    b.take 4 = replicaCatalogMagic ∧ b.getD 4 0 = 1 ∧ (b.drop 5).take 3 = [0, 0, 0] ∧
      (b.drop 8).take 32 = localKey.bytes ∧ (b.drop 40).take 32 = peerKey.bytes ∧
      u32At b 72 = count ∧ u32At b 76 = 0 := by
  have hfront : b = 0x4A :: 0x43 :: 0x35 :: 0x41 :: 1 :: 0 :: 0 :: 0 :: (localKey.bytes ++
      (peerKey.bytes ++ (le32 count ++ (le32 0 ++ r)))) := by
    rw [hb]
    simp [catalogHead, replicaCatalogMagic]
  have hpeer : b.drop 40 = peerKey.bytes ++ (le32 count ++ (le32 0 ++ r)) := by
    rw [hfront]
    exact List.drop_left' localKey.length_bytes
  have hcount : b.drop 72 = le32 count ++ (le32 0 ++ r) := by
    rw [show 72 = 40 + 32 from rfl, ← List.drop_drop, hpeer]
    exact List.drop_left' peerKey.length_bytes
  refine ⟨?_, ?_, ?_, ?_, ?_, ?_, ?_⟩
  · rw [hfront]
    rfl
  · rw [hfront]
    rfl
  · rw [hfront]
    rfl
  · rw [hfront]
    exact List.take_left' localKey.length_bytes
  · rw [hpeer]
    exact List.take_left' peerKey.length_bytes
  · unfold u32At
    rw [hcount, get32_le32_append]
  · unfold u32At
    rw [show 76 = 72 + 4 from rfl, ← List.drop_drop, hcount, List.drop_left' (length_le32 _),
      get32_le32_append]

theorem catalogBytes_eq (localKey peerKey : Block 32) (c : ReplicaCatalog) :
    catalogBytes localKey peerKey c = catalogHead localKey peerKey (UInt32.ofNat c.length) ++
      (c ++ List.replicate (replicaObjectsMax - c.length) zeroScope).flatMap ReplicaScope.bytes :=
  rfl

theorem length_catalogBytes (localKey peerKey : Block 32) (h : c.length ≤ replicaObjectsMax) :
    (catalogBytes localKey peerKey c).length = replicaCatalogBytes := by
  have hsize : (c ++ List.replicate (replicaObjectsMax - c.length) zeroScope).length =
      replicaObjectsMax := by
    rw [List.length_append, List.length_replicate]
    omega
  rw [catalogBytes_eq, List.length_append, length_catalogHead, length_flatMap_const _
    ReplicaScope.length_bytes, hsize]
  rfl

variable {localKey peerKey : Block 32}

/-- **Round trip**: a valid catalog is read back from its stored form. -/
theorem replicaCatalogDecode_bytes (h : CatalogOk c) :
    replicaCatalogDecode (catalogBytes localKey peerKey c) localKey peerKey = some c := by
  have hlength := h.length_le
  have hsize : (c ++ List.replicate (replicaObjectsMax - c.length) zeroScope).length =
      replicaObjectsMax := by
    rw [List.length_append, List.length_replicate]
    omega
  have hhead := catalogBytes_eq localKey peerKey c
  have hbytes := length_catalogBytes localKey peerKey hlength
  obtain ⟨hmagic, hone, hzero, hlocal, hpeer, hcount, hreserved⟩ :=
    catalogHead_fields localKey peerKey _ hhead
  have hcount' : (u32At (catalogBytes localKey peerKey c) 72).toNat = c.length := by
    rw [hcount]
    refine UInt32.toNat_ofNat_of_lt' ?_
    unfold replicaObjectsMax at hlength
    change _ < 2 ^ 32
    omega
  have harray : ((List.range replicaObjectsMax).map fun i =>
      ReplicaScope.ofBytes ((catalogBytes localKey peerKey c).drop (80 + 40 * i))) =
        c ++ List.replicate (replicaObjectsMax - c.length) zeroScope := by
    refine List.ext_get (by rw [List.length_map, List.length_range, hsize]) fun i hi hi' => ?_
    rw [List.get_eq_getElem, List.getElem_map, List.getElem_range, hhead, ← List.drop_drop,
      List.drop_left' (length_catalogHead _ _ _)]
    obtain ⟨r, hr⟩ := drop_flatMap ReplicaScope.bytes ReplicaScope.length_bytes [] _ i hi'
    rw [List.append_nil] at hr
    rw [hr, ReplicaScope.ofBytes_bytes_append (reserved_of_mem_padded h (List.get_mem _ _))]
  have htail : ¬ (c.length > replicaObjectsMax ∨ u32At (catalogBytes localKey peerKey c) 76 ≠ 0 ∨
      ∃ s ∈ (c ++ List.replicate (replicaObjectsMax - c.length) zeroScope).drop c.length,
        s ≠ zeroScope) := by
    rw [List.drop_left, hreserved]
    refine not_or.mpr ⟨Nat.not_lt.mpr hlength, not_or.mpr ⟨fun hne => hne rfl, ?_⟩⟩
    rintro ⟨s, hs, hne⟩
    exact hne (List.eq_of_mem_replicate hs)
  unfold replicaCatalogDecode
  rw [if_neg (not_not.mpr hbytes), if_neg (not_or.mpr ⟨not_not.mpr hmagic,
    not_or.mpr ⟨not_not.mpr hone, not_or.mpr ⟨not_not.mpr hlocal, not_not.mpr hpeer⟩⟩⟩),
    if_neg (not_not.mpr hzero)]
  dsimp only
  rw [hcount', harray, if_neg htail, List.take_left]
  exact if_pos (catalogValid_iff.mpr h)

theorem CatalogOk.of_decode {bytes : List UInt8}
    (h : replicaCatalogDecode bytes localKey peerKey = some c) : CatalogOk c := by
  unfold replicaCatalogDecode at h
  dsimp only at h
  split_ifs at h with h1 h2 h3 h4 h5
  obtain rfl := Option.some.inj h
  exact catalogValid_iff.mp h5

theorem replicaCatalogEncode_some {bytes : List UInt8}
    (h : replicaCatalogEncode localKey peerKey c = some bytes) :
    CatalogOk c ∧ localKey ≠ peerKey ∧ bytes = catalogBytes localKey peerKey c := by
  unfold replicaCatalogEncode at h
  split_ifs at h with hif
  simp only [not_or, Bool.not_eq_true', Bool.not_eq_false] at hif
  exact ⟨catalogValid_iff.mp hif.1, hif.2, (Option.some.inj h).symm⟩

/-! ### Messages -/

theorem length_messageHeader (s : ReplicaScope) (kind : UInt32) :
    (messageHeader s kind).length = 32 := by
  simp [messageHeader, replicaMessageMagic]

theorem toUInt32_toUInt8 {x : UInt32} (h : x.toNat < 256) : x.toUInt8.toUInt32 = x := by
  rw [← UInt32.toNat_inj, UInt8.toNat_toUInt32, UInt32.toNat_toUInt8]
  exact Nat.mod_eq_of_lt h

/-- The eight bytes before the identifier. -/
def messageFront (s : ReplicaScope) (kind : UInt32) : List UInt8 :=
  [0x4A, 0x52, 0x35, 0x4F, 1, kind.toUInt8, s.kind.toUInt8,
    if kind = netMessageGrant then s.rights.toUInt8 else 0]

theorem length_messageFront (s : ReplicaScope) (kind : UInt32) :
    (messageFront s kind).length = 8 := rfl

theorem messageHeader_append (s : ReplicaScope) (kind : UInt32) (r : List UInt8) :
    messageHeader s kind ++ r = messageFront s kind ++ (leId s.id ++ (le64 s.epoch ++ r)) := by
  simp [messageHeader, messageFront, replicaMessageMagic]

theorem idAt_messageHeader (s : ReplicaScope) (kind : UInt32) (r : List UInt8) :
    idAt (messageHeader s kind ++ r) 8 = s.id := by
  unfold idAt
  rw [messageHeader_append, show 8 + 8 = 8 + (0 + 8) from rfl,
    u64At_append_right (length_messageFront s kind), show 8 = 8 + 0 from rfl,
    u64At_append_right (length_messageFront s kind)]
  exact idAt_leId_append _ s.id

theorem kind_of_messageLength {kind : UInt32} {n : Nat} (h : messageLength kind = some n) :
    kind = netMessageSummary ∨ kind = netMessageUpdate ∨ kind = netMessageGrant := by
  unfold messageLength at h
  split_ifs at h with h1 h2 h3
  · exact Or.inl h1
  · exact Or.inr (Or.inl h2)
  · exact Or.inr (Or.inr h3)

/-- **Round trip**: a message is read back as the scope it was made of. -/
theorem replicaMessageDecode_header {kind : UInt32} {r : List UInt8} (hs : scopeValid s = true)
    (hlength : messageLength kind = some (32 + r.length)) :
    ∃ message, replicaMessageDecode (messageHeader s kind ++ r) kind = some message ∧
      message.id = s.id ∧ message.epoch = s.epoch ∧ message.kind = s.kind ∧
      (kind = netMessageGrant → message.rights = s.rights) ∧
      (kind = netMessageSummary → message.vector = ![u64At r 0, u64At r 8]) := by
  obtain ⟨hhigh, hlow, hepoch, hkind1, hkind2, hrights, -⟩ := scopeValid_iff.mp hs
  generalize hb : messageHeader s kind ++ r = b
  have hfront := hb.symm.trans (messageHeader_append s kind r)
  have hlen8 := length_messageFront s kind
  have hblen : b.length = 32 + r.length := by
    rw [← hb, List.length_append, length_messageHeader]
  have hid : idAt b 8 = s.id := hb ▸ idAt_messageHeader s kind r
  have hat : ∀ k, u64At b (32 + k) = u64At r k := by
    intro k
    rw [hfront, show 32 + k = 8 + (k + 8 + 16) by omega, u64At_append_right hlen8,
      u64At_leId_append_add, u64At_le64_append_add]
  have hepochAt : u64At b 24 = s.epoch := by
    rw [hfront, show 24 = 8 + (0 + 16) from rfl, u64At_append_right hlen8, u64At_leId_append_add,
      u64At_le64_append]
  have h6 : b.getD 6 0 = s.kind.toUInt8 := by
    rw [hfront]
    rfl
  have h7 : b.getD 7 0 = if kind = netMessageGrant then s.rights.toUInt8 else 0 := by
    rw [hfront]
    rfl
  have hkindByte : s.kind.toUInt8.toUInt32 = s.kind := toUInt32_toUInt8 (by
    have := UInt32.le_iff_toNat_le.mp hkind2
    exact Nat.lt_of_le_of_lt this (by decide))
  have hrightsByte : s.rights.toUInt8.toUInt32 = s.rights := toUInt32_toUInt8 (by
    have := UInt32.le_iff_toNat_le.mp hrights
    exact Nat.lt_of_le_of_lt this (by decide))
  have hchecks : ¬ (b.take 4 ≠ replicaMessageMagic ∨ b.getD 4 0 ≠ 1 ∨
      (b.getD 5 0).toUInt32 ≠ kind ∨ b.getD 6 0 < 1 ∨ b.getD 6 0 > 2 ∨ b.getD 7 0 > 3 ∨
      (kind ≠ 3 ∧ b.getD 7 0 ≠ 0)) := by
    have h5 : b.getD 5 0 = kind.toUInt8 := by
      rw [hfront]
      rfl
    have htake : b.take 4 = replicaMessageMagic ∧ b.getD 4 0 = 1 := by
      rw [hfront]
      exact ⟨rfl, rfl⟩
    have hkindCases : s.kind = 1 ∨ s.kind = 2 := by
      have hge := UInt32.le_iff_toNat_le.mp hkind1
      have hle := UInt32.le_iff_toNat_le.mp hkind2
      rw [← UInt32.toNat_inj, ← UInt32.toNat_inj]
      have h1 : (1 : UInt32).toNat = 1 := rfl
      have h2 : (2 : UInt32).toNat = 2 := rfl
      omega
    have hkindOk : ¬ s.kind.toUInt8 < 1 ∧ ¬ s.kind.toUInt8 > 2 := by
      rcases hkindCases with hk | hk <;> rw [hk] <;> decide
    have hrightsOk : ¬ (if kind = netMessageGrant then s.rights.toUInt8 else 0) > 3 := by
      split_ifs
      · have hle := UInt32.le_iff_toNat_le.mp hrights
        have h3 : (3 : UInt32).toNat = 3 := rfl
        refine fun hgt => absurd (UInt8.lt_iff_toNat_lt.mp hgt) (Nat.not_lt.mpr ?_)
        rw [UInt32.toNat_toUInt8]
        exact (Nat.mod_le _ _).trans hle
      · decide
    rw [htake.1, htake.2, h5, h6, h7]
    refine not_or.mpr ⟨fun hne => hne rfl, not_or.mpr ⟨fun hne => hne rfl, not_or.mpr ⟨?_,
      not_or.mpr ⟨hkindOk.1, not_or.mpr ⟨hkindOk.2, not_or.mpr ⟨hrightsOk, ?_⟩⟩⟩⟩⟩⟩
    · rcases kind_of_messageLength hlength with hk | hk | hk <;> rw [hk] <;> decide
    · rintro ⟨hne, hnonzero⟩
      rw [if_neg (show ¬ kind = netMessageGrant from hne)] at hnonzero
      exact hnonzero rfl
  have hids : ¬ (s.id.high < 0x8000000000000000 ∨ s.id.low = 0 ∨ s.epoch = 0) :=
    not_or.mpr ⟨UInt64.not_lt.mpr hhigh, not_or.mpr ⟨hlow, hepoch⟩⟩
  unfold replicaMessageDecode
  rw [if_neg (by rw [hlength, hblen]; exact not_not.mpr rfl), if_neg hchecks]
  dsimp only
  rw [hid, hepochAt, if_neg hids]
  refine ⟨_, rfl, rfl, rfl, ?_, fun hgrant => ?_, fun hsummary => ?_⟩
  · exact (congrArg UInt8.toUInt32 h6).trans hkindByte
  · refine (congrArg UInt8.toUInt32 h7).trans ?_
    rw [if_pos hgrant, hrightsByte]
  · have h1 : kind = 1 := hsummary
    dsimp only
    rw [if_pos h1, ← hat 0, ← hat 8]

/-! ### Stored states -/

/-- The store holds the state of the scope. -/
structure StoredAs (m : ObjectMap) (scope : ReplicaScope) (state : NetCrdt) : Prop where
  stored : ∃ o, m.find scope.id = some o ∧ o.payload = state.bytes ∧
    o.typeId = ⟨0, replicaTypeBase + scope.kind.toUInt64⟩
  valid : state.valid = true
  kind_eq : state.kind = scope.kind

variable {scope : ReplicaScope} {m : ObjectMap} {state : NetCrdt} {readable : ObjectId → Bool}

section

variable (h : StoredAs m scope state)

include h

theorem StoredAs.congr {m' : ObjectMap} (hfind : m'.find scope.id = m.find scope.id) :
    StoredAs m' scope state :=
  ⟨hfind ▸ h.stored, h.valid, h.kind_eq⟩

theorem StoredAs.of_scope {scope' : ReplicaScope} (hid : scope'.id = scope.id)
    (hkind : scope'.kind = scope.kind) : StoredAs m scope' state :=
  ⟨by rw [hid, hkind]; exact h.stored, h.valid, h.kind_eq.trans hkind.symm⟩

theorem StoredAs.unique {scope' : ReplicaScope} {state' : NetCrdt} (h' : StoredAs m scope' state')
    (hid : scope.id = scope'.id) : state = state' := by
  obtain ⟨o, hfind, hpayload, -⟩ := h.stored
  obtain ⟨o', hfind', hpayload', -⟩ := h'.stored
  rw [hid, hfind'] at hfind
  obtain rfl := Option.some.inj hfind
  have hdecode := netCrdtDecode_bytes h.valid
  rw [← hpayload, hpayload', netCrdtDecode_bytes h'.valid] at hdecode
  exact (Option.some.inj hdecode).symm

theorem StoredAs.load (hm : m.requiresRecovery = false) (hread : readable scope.id = true) :
    loadState m readable scope = some state := by
  obtain ⟨o, hfind, hpayload, htype⟩ := h.stored
  unfold loadState
  rw [ObjectMap.get_of_readable hm hread, hfind]
  dsimp only
  rw [if_neg (by rw [htype]; simp), hpayload, netCrdtDecode_bytes h.valid]
  dsimp only
  rw [if_neg (not_not.mpr h.kind_eq)]

end

/-- The state that the object with an identifier holds. -/
def stateAt (m : ObjectMap) (id : ObjectId) : Option NetCrdt :=
  (m.find id).bind fun o => netCrdtDecode o.payload

theorem stateAt_congr {m' : ObjectMap} {id : ObjectId} (h : m'.find id = m.find id) :
    stateAt m' id = stateAt m id := by
  unfold stateAt
  rw [h]

theorem StoredAs.stateAt_eq (h : StoredAs m scope state) : stateAt m scope.id = some state := by
  obtain ⟨o, hfind, hpayload, -⟩ := h.stored
  unfold stateAt
  rw [hfind, Option.bind_some, hpayload]
  exact netCrdtDecode_bytes h.valid

/-- **Inversion** of `load_state`. -/
theorem loadState_some (h : loadState m readable scope = some state) :
    stateAt m scope.id = some state ∧ state.kind = scope.kind := by
  unfold loadState at h
  split at h
  · cases h
  rename_i o hget
  split_ifs at h with htype
  cases hdecode : netCrdtDecode o.payload with
  | none =>
    rw [hdecode] at h
    cases h
  | some state' =>
    rw [hdecode] at h
    dsimp only at h
    split_ifs at h with hkind
    obtain rfl := Option.some.inj h
    refine ⟨?_, not_not.mp hkind⟩
    unfold stateAt
    rw [ObjectMap.get_eq_some hget, Option.bind_some, hdecode]

theorem StoredAs.of_load {state' : NetCrdt} (h : StoredAs m scope state)
    (hload : loadState m readable scope = some state') : state' = state :=
  Option.some.inj ((loadState_some hload).1.symm.trans h.stateAt_eq)

/-- The stored catalog. -/
def storedCatalog (localKey peerKey : Block 32) (m : ObjectMap) : Option ReplicaCatalog :=
  (m.find replicaMetaId).bind fun o => replicaCatalogDecode o.payload localKey peerKey

theorem scopeValid.id_ne (h : scopeValid s = true) : s.id ≠ replicaMetaId ∧ s.id ≠ ⟨0, 0⟩ := by
  have hhigh := (scopeValid_iff.mp h).1
  constructor
  · intro heq
    rw [heq] at hhigh
    exact absurd hhigh (by decide)
  · intro heq
    rw [heq] at hhigh
    exact absurd hhigh (by decide)

/-! ### Publishing -/

/-- The batch of a publish is in the store: the catalog and the state it names are the stored ones,
everything else is as before. -/
structure Holds (r : Replica) (m m' : ObjectMap) (catalog : Option ReplicaCatalog)
    (state : Option (ReplicaScope × NetCrdt)) : Prop where
  catalog_ok : ∀ c ∈ catalog, CatalogOk c ∧ storedCatalog r.localKey r.peerKey m' = some c ∧
    ∃ o, m'.find replicaMetaId = some o ∧ o.typeId = ⟨0, replicaTypeBase⟩ ∧
      o.payload = catalogBytes r.localKey r.peerKey c
  catalog_kept : catalog = none → (∀ x ∈ state, x.1.id ≠ replicaMetaId) →
    m'.find replicaMetaId = m.find replicaMetaId
  state_valid : ∀ x ∈ state, x.2.valid = true
  state_stored : ∀ x ∈ state, x.2.kind = x.1.kind → x.1.id ≠ replicaMetaId → StoredAs m' x.1 x.2
  kept : ∀ id, id ≠ replicaMetaId → (∀ x ∈ state, x.1.id ≠ id) → m'.find id = m.find id

/-- **Inversion** of the batch of a publish. -/
theorem publishRequests_some {r : Replica} {catalog : Option ReplicaCatalog}
    {state : Option (ReplicaScope × NetCrdt)} {requests : List ObjectStorePutRequest}
    (h : publishRequests r catalog state = some requests) : requests = (catalog.toList.map fun c =>
        catalogRequest r (catalogBytes r.localKey r.peerKey c)) ++
      (state.toList.map fun x => stateRequest r x.1 x.2 x.2.bytes) ∧
    (∀ c ∈ catalog, CatalogOk c) ∧ ∀ x ∈ state, x.2.valid = true := by
  have hcatalog : ∀ first, catalogRequests r catalog = some first →
      first = (catalog.toList.map fun c =>
        catalogRequest r (catalogBytes r.localKey r.peerKey c)) ∧ ∀ c ∈ catalog, CatalogOk c := by
    intro first hfirst
    cases catalog with
    | none => exact ⟨(Option.some.inj hfirst).symm, fun c hc => by cases hc⟩
    | some c =>
      obtain ⟨payload, hpayload, rfl⟩ := Option.map_eq_some_iff.mp hfirst
      obtain ⟨hok, -, rfl⟩ := replicaCatalogEncode_some hpayload
      refine ⟨rfl, fun c' hc' => ?_⟩
      obtain rfl := Option.some.inj hc'
      exact hok
  have hstate : ∀ second, stateRequests r state = some second →
      second = (state.toList.map fun x => stateRequest r x.1 x.2 x.2.bytes) ∧
        ∀ x ∈ state, x.2.valid = true := by
    intro second hsecond
    cases state with
    | none => exact ⟨(Option.some.inj hsecond).symm, fun x hx => by cases hx⟩
    | some x =>
      obtain ⟨payload, hpayload, rfl⟩ := Option.map_eq_some_iff.mp hsecond
      obtain ⟨hvalid, rfl⟩ := netCrdtEncode_eq_some.mp hpayload
      refine ⟨rfl, fun x' hx' => ?_⟩
      obtain rfl := Option.some.inj hx'
      exact hvalid
  unfold publishRequests at h
  cases hfirst : catalogRequests r catalog with
  | none =>
    rw [hfirst] at h
    cases h
  | some first =>
    cases hsecond : stateRequests r state with
    | none =>
      rw [hfirst, hsecond] at h
      cases h
    | some second =>
      rw [hfirst, hsecond] at h
      obtain rfl := Option.some.inj h
      obtain ⟨rfl, hok⟩ := hcatalog first hfirst
      obtain ⟨rfl, hvalid⟩ := hstate second hsecond
      exact ⟨rfl, hok, hvalid⟩

/-- After a batch is written the store holds its catalog and state. -/
theorem publishRequests_holds {r : Replica} {catalog : Option ReplicaCatalog}
    {state : Option (ReplicaScope × NetCrdt)} {requests : List ObjectStorePutRequest}
    (h : publishRequests r catalog state = some requests) (m : ObjectMap)
    (hnodup : (requests.map (·.id)).Nodup) {m' : ObjectMap}
    (hm' : m'.entries = (m.write requests).entries) : Holds r m m' catalog state := by
  have hfind : ∀ id, m'.find id = (m.write requests).find id := ObjectMap.find_congr hm'
  have hmem := ObjectMap.find_write_of_mem requests m hnodup
  have hnot := @ObjectMap.find_write_of_notMem requests m
  obtain ⟨rfl, hok, hvalid⟩ := publishRequests_some h
  -- the identifiers of the batch
  have hids : ∀ id, id ≠ replicaMetaId → (∀ x ∈ state, x.1.id ≠ id) → m'.find id = m.find id := by
    intro id hmeta hstate
    rw [hfind]
    refine hnot fun request hrequest => ?_
    rcases List.mem_append.mp hrequest with hrequest | hrequest
    · obtain ⟨c, -, rfl⟩ := List.mem_map.mp hrequest
      exact Ne.symm hmeta
    · obtain ⟨x, hx, rfl⟩ := List.mem_map.mp hrequest
      exact hstate x (Option.mem_toList.mp hx)
  refine ⟨fun c hc => ?_, fun hnone hne => ?_, hvalid, fun x hx hkind hne => ?_, hids⟩
  · have hobject := hmem (catalogRequest r (catalogBytes r.localKey r.peerKey c))
      (List.mem_append_left _ (List.mem_map_of_mem (Option.mem_toList.mpr hc)))
    have hobject' : m'.find replicaMetaId = some
        (catalogRequest r (catalogBytes r.localKey r.peerKey c)).object :=
      (hfind replicaMetaId).trans hobject
    refine ⟨hok c hc, ?_, _, hobject', rfl, rfl⟩
    unfold storedCatalog
    rw [hobject']
    exact replicaCatalogDecode_bytes (hok c hc)
  · subst hnone
    rw [hfind]
    refine hnot fun request hrequest => ?_
    obtain ⟨x, hx, rfl⟩ := List.mem_map.mp hrequest
    exact hne x (Option.mem_toList.mp hx)
  · have hobject := hmem (stateRequest r x.1 x.2 x.2.bytes)
      (List.mem_append_right _ (List.mem_map.mpr ⟨x, Option.mem_toList.mpr hx, rfl⟩))
    exact ⟨⟨_, (hfind x.1.id).trans hobject, rfl, rfl⟩, hvalid x hx, hkind⟩

/-- The replica once its batch is committed. -/
def Replica.adopted (r : Replica) : Option ReplicaCatalog → Replica
  | none => r
  | some catalog => r.adopt catalog

/-- **Inversion** of a publish: the batch is committed, or nothing happened, or the replica is
halted and the store tells after a mount whether the batch took place. -/
theorem publish_cases (r : Replica) (m : ObjectMap) (catalog : Option ReplicaCatalog)
    (state : Option (ReplicaScope × NetCrdt)) (fate : CommitFate) :
    publish r m catalog state fate = (.rejected, r, m) ∨
    (∃ m', publish r m catalog state fate = (.accepted, r.adopted catalog, m') ∧
      m'.requiresRecovery = m.requiresRecovery ∧ Holds r m m' catalog state) ∨
    ∃ m', publish r m catalog state fate = (.remount, { r with halted := true }, m') ∧
      m'.requiresRecovery = true ∧
      (m'.entries = m.entries ∧ fate ≠ .tear true ∨
        fate = .tear true ∧ Holds r m m' catalog state) := by
  unfold publish
  split
  · exact Or.inl rfl
  rename_i requests hrequests
  unfold ObjectMap.putMany
  by_cases hok : m.batchOk requests = true
  · rw [if_pos hok]
    have hnodup := (ObjectMap.batchOk_iff.mp hok).2.2.2.2
    cases fate with
    | commit =>
      refine Or.inr (Or.inl ⟨m.write requests, ?_, rfl, publishRequests_holds hrequests m hnodup
        rfl⟩)
      cases catalog <;> rfl
    | reject => exact Or.inl rfl
    | tear applied =>
      cases applied with
      | true =>
        exact Or.inr (Or.inr ⟨_, rfl, rfl, Or.inr ⟨rfl, publishRequests_holds hrequests m hnodup
          rfl⟩⟩)
      | false => exact Or.inr (Or.inr ⟨_, rfl, rfl, Or.inl ⟨rfl, by decide⟩⟩)
  · rw [if_neg hok]
    exact Or.inl rfl

end Jani
