import Jani.Net.CatalogArray
import Jani.Net.Equiv.CrdtArray
import Jani.Net.Equiv.InService

/-!
# The codecs of a replica

What a replica stores, the states of its values and its catalog, has one stored form each: what is
encoded is decoded to the same, and what is decoded is encoded to the same bytes.  Nothing that the
functions of a replica return is refused by the encoders, so a call is never rejected because its
result could not be stored (`InService.create_accepted` and the like).
-/

namespace Jani

/-! ### Catalogs -/

variable {localKey peerKey : Block 32} {b : List UInt8}

namespace CatalogArray

/-- The array of the scopes of a catalog. -/
def ofList (c : ReplicaCatalog) : CatalogArray :=
  ⟨UInt32.ofNat c.length, 0, .ofUsed _ zeroScope c⟩

variable {c : ReplicaCatalog}

theorem toNat_count (h : c.length ≤ replicaObjectsMax) : (ofList c).count.toNat = c.length := by
  unfold replicaObjectsMax at h
  exact UInt32.toNat_ofNat_of_lt' (by change _ < 2 ^ 32; omega)

theorem entries_scopes (h : c.length ≤ replicaObjectsMax) :
    (ofList c).scopes.entries = pad replicaObjectsMax zeroScope c :=
  FixedArray.entries_ofUsed h

theorem push_ofList (h : c.length < replicaObjectsMax) (scope : ReplicaScope) :
    (ofList c).push scope = ofList (c ++ [scope]) := by
  have hlength : (c ++ [scope]).length = c.length + 1 := by
    rw [List.length_append, List.length_singleton]
  have hcount : (ofList c).count + 1 = (ofList (c ++ [scope])).count := by
    unfold ofList
    rw [hlength]
    exact (UInt32.ofNat_add _ _).symm
  have hscopes : ((ofList c).push scope).scopes = (ofList (c ++ [scope])).scopes := by
    apply FixedArray.ext
    change (ofList c).scopes.entries.set _ _ = _
    rw [entries_scopes h.le, toNat_count h.le, set_pad h, entries_scopes (by omega)]
  unfold push at hscopes ⊢
  rw [hcount]
  dsimp only at hscopes
  rw [hscopes]
  rfl

variable {a : CatalogArray}

/-- **Valid arrays** are the arrays of valid catalogs. -/
theorem valid_iff : a.valid = true ↔ ∃ c, CatalogOk c ∧ a = ofList c := by
  unfold valid
  constructor
  · intro h
    split_ifs at h with hrange hscopes htail
    rw [not_or, not_not, UInt32.not_lt] at hrange
    have hcount : a.count.toNat ≤ replicaObjectsMax := UInt32.le_iff_toNat_le.mp hrange.1
    have hlength : (a.scopes.entries.take a.count.toNat).length = a.count.toNat := by
      rw [List.length_take, a.scopes.length_entries]
      omega
    have hle : (a.scopes.entries.take a.count.toNat).length ≤ replicaObjectsMax := by omega
    refine ⟨a.scopes.entries.take a.count.toNat, catalogValid_iff.mp ?_, ?_⟩
    · unfold catalogValid
      rw [if_neg (by omega)]
      simpa using hscopes
    · have hpad := pad_take a.scopes.length_entries hcount
        fun s hs => by_contra fun hne => htail ⟨s, hs, hne⟩
      have harray : FixedArray.ofUsed replicaObjectsMax zeroScope
          (a.scopes.entries.take a.count.toNat) = a.scopes :=
        FixedArray.ext ((FixedArray.entries_ofUsed hle).trans hpad)
      unfold ofList
      rw [harray, hlength, UInt32.ofNat_toNat, ← hrange.2]
  · rintro ⟨c, hok, rfl⟩
    have hle := hok.length_le
    have hvalid := catalogValid_iff.mpr hok
    unfold catalogValid at hvalid
    rw [if_neg (Nat.not_lt.mpr hle)] at hvalid
    have hrange : ¬ ((ofList c).count > 8 ∨ (ofList c).reserved ≠ 0) := by
      rw [not_or, not_not, UInt32.not_lt, UInt32.le_iff_toNat_le, toNat_count hle]
      exact ⟨hle, rfl⟩
    rw [if_neg hrange, toNat_count hle, entries_scopes hle, take_pad, hvalid,
      Bool.not_true, if_neg Bool.false_ne_true, if_neg]
    rintro ⟨s, hs, hne⟩
    exact hne (eq_zero_of_mem_drop_pad hs)

theorem encode_ofList (localKey peerKey : Block 32) (h : CatalogOk c) :
    encode localKey peerKey (ofList c) = replicaCatalogEncode localKey peerKey c := by
  have hvalid : (ofList c).valid = catalogValid c :=
    (valid_iff.mpr ⟨c, h, rfl⟩).trans (catalogValid_iff.mpr h).symm
  unfold encode replicaCatalogEncode
  rw [hvalid, entries_scopes h.length_le]
  rfl

theorem encode_of_ne (hkeys : localKey ≠ peerKey) (h : CatalogOk c) :
    encode localKey peerKey (ofList c) = some (catalogBytes localKey peerKey c) := by
  rw [encode_ofList localKey peerKey h]
  unfold replicaCatalogEncode
  rw [catalogValid_iff.mpr h, if_neg]
  rintro (hfalse | heq)
  · cases hfalse
  · exact hkeys heq

/-- The check of the array is the check of the tail and that of the list. -/
theorem valid_eq_check (a : CatalogArray) : (if a.valid then some a else none) =
    (if a.count.toNat > replicaObjectsMax ∨ a.reserved ≠ 0 ∨
        (∃ s ∈ a.scopes.entries.drop a.count.toNat, s ≠ zeroScope) then none
      else if catalogValid (a.scopes.entries.take a.count.toNat) then
        some (a.scopes.entries.take a.count.toNat) else none).map ofList := by
  by_cases hvalid : a.valid = true
  · obtain ⟨c, hok, rfl⟩ := valid_iff.mp hvalid
    have hle := hok.length_le
    have hrange : ¬ ((ofList c).count.toNat > replicaObjectsMax ∨ (ofList c).reserved ≠ 0 ∨
        ∃ s ∈ (ofList c).scopes.entries.drop (ofList c).count.toNat, s ≠ zeroScope) := by
      rw [toNat_count hle, entries_scopes hle]
      rintro (hmany | hreserved | ⟨s, hs, hne⟩)
      · exact Nat.not_lt.mpr hle hmany
      · exact hreserved rfl
      · exact hne (eq_zero_of_mem_drop_pad hs)
    rw [if_pos hvalid, if_neg hrange, toNat_count hle, entries_scopes hle, take_pad,
      if_pos (catalogValid_iff.mpr hok), Option.map_some]
  · rw [if_neg hvalid]
    split_ifs with hrange hcatalog
    · rfl
    · -- the array of this catalog would be the given one
      exfalso
      obtain ⟨hcount, hreserved, htail⟩ := by
        simpa only [not_or, gt_iff_lt, Nat.not_lt, not_exists, not_and, not_not] using hrange
      apply hvalid
      unfold valid
      rw [if_neg, if_neg, if_neg]
      · rintro ⟨s, hs, hne⟩
        exact hne (htail s hs)
      · unfold catalogValid at hcatalog
        split_ifs at hcatalog
        rw [hcatalog]
        exact Bool.false_ne_true
      · rw [not_or, not_not, UInt32.not_lt, UInt32.le_iff_toNat_le]
        exact ⟨hcount, hreserved⟩
    · rfl

theorem decode_eq (b : List UInt8) (localKey peerKey : Block 32) :
    decode b localKey peerKey = (replicaCatalogDecode b localKey peerKey).map ofList := by
  unfold decode replicaCatalogDecode
  by_cases hlength : b.length ≠ replicaCatalogBytes
  · rw [if_pos hlength, if_pos hlength]
    rfl
  rw [if_neg hlength, if_neg hlength]
  by_cases hfront : b.take 4 ≠ replicaCatalogMagic ∨ b.getD 4 0 ≠ 1 ∨
      (b.drop 8).take 32 ≠ localKey.bytes ∨ (b.drop 40).take 32 ≠ peerKey.bytes
  · rw [if_pos hfront, if_pos hfront]
    rfl
  rw [if_neg hfront, if_neg hfront]
  by_cases hzero : (b.drop 5).take 3 ≠ [0, 0, 0]
  · rw [if_pos hzero, if_pos hzero]
    rfl
  rw [if_neg hzero, if_neg hzero]
  exact valid_eq_check _

/-- **Round trip**: a valid catalog is stored in 400 bytes and read back. -/
theorem decode_encode (hkeys : localKey ≠ peerKey) (h : a.valid = true) :
    ∃ b, encode localKey peerKey a = some b ∧
      b.length = replicaCatalogBytes ∧ decode b localKey peerKey = some a := by
  obtain ⟨c, hok, rfl⟩ := valid_iff.mp h
  refine ⟨catalogBytes localKey peerKey c, encode_of_ne hkeys hok,
    length_catalogBytes localKey peerKey hok.length_le, ?_⟩
  · rw [decode_eq, replicaCatalogDecode_bytes hok, Option.map_some]

/-- **Canonicity**: the bytes that are read as a catalog are those it is stored as. -/
theorem encode_decode (hkeys : localKey ≠ peerKey) (h : decode b localKey peerKey = some a) :
    encode localKey peerKey a = some b := by
  rw [decode_eq] at h
  obtain ⟨c, hc, rfl⟩ := Option.map_eq_some_iff.mp h
  rw [encode_of_ne hkeys (CatalogOk.of_decode hc), bytes_of_replicaCatalogDecode hc]

end CatalogArray

/-! ### Calls are not refused by the encoders -/

theorem namespaceFor_ge (crypto : Crypto) (key : Block 32) :
    namespaceFor crypto key ≥ 0x8000000000000000 := by
  unfold namespaceFor
  rw [ge_iff_le, UInt64.le_iff_toNat_le, UInt64.toNat_or]
  exact Nat.right_le_or

theorem CatalogOk.append {c : ReplicaCatalog} (h : CatalogOk c) {scope : ReplicaScope}
    (hroom : c.length < replicaObjectsMax) (hvalid : scopeValid scope = true)
    (hnew : ∀ s ∈ c, s.id ≠ scope.id) : CatalogOk (c ++ [scope]) := by
  refine ⟨?_, fun s hs => ?_, ?_⟩
  · rw [List.length_append, List.length_singleton]
    exact hroom
  · rcases List.mem_append.mp hs with hs | hs
    · exact h.valid s hs
    · rw [List.mem_singleton.mp hs]
      exact hvalid
  · rw [List.map_append, List.nodup_append]
    refine ⟨h.nodup, List.nodup_singleton _, fun a ha b hb => ?_⟩
    obtain ⟨s, hs, rfl⟩ := List.mem_map.mp ha
    rw [List.mem_singleton.mp hb]
    exact hnew s hs

theorem CatalogOk.setScope {c : ReplicaCatalog} (h : CatalogOk c) (id : ObjectId) {epoch : UInt64}
    {rights : UInt32} (hepoch : epoch ≠ 0) (hrights : rights ≤ 3) :
    CatalogOk (setScope id epoch rights c) := by
  refine ⟨(List.length_map _).trans_le h.length_le, fun s hs => ?_, ?_⟩
  · obtain ⟨t, ht, rfl⟩ := List.mem_map.mp hs
    have hvalid := h.valid t ht
    split_ifs
    · rw [scopeValid_iff] at hvalid ⊢
      exact ⟨hvalid.1, hvalid.2.1, hepoch, hvalid.2.2.2.1, hvalid.2.2.2.2.1, hrights,
        hvalid.2.2.2.2.2.2⟩
    · exact hvalid
  · have hids : (Jani.setScope id epoch rights c).map (·.id) = c.map (·.id) := by
      unfold Jani.setScope
      rw [List.map_map]
      refine List.map_congr_left fun s _ => ?_
      dsimp only [Function.comp]
      split_ifs <;> rfl
    rw [hids]
    exact h.nodup

/-- The commit of a catalog, and of the state of a scope with it, takes place if the device lets
it. -/
theorem publish_accepted {r : Replica} {m : ObjectMap} (hm : m.requiresRecovery = false)
    (hkeys : r.localKey ≠ r.peerKey) {c : ReplicaCatalog} (hok : CatalogOk c)
    {state : Option (ReplicaScope × NetCrdt)}
    (hstate : ∀ x ∈ state, scopeValid x.1 = true ∧ x.2.valid = true) :
    (publish r m (some c) state .commit).1 = .accepted := by
  have hcatalog : catalogRequests r (some c) =
      some [catalogRequest r (catalogBytes r.localKey r.peerKey c)] := by
    have hencode := CatalogArray.encode_of_ne hkeys hok
    rw [CatalogArray.encode_ofList _ _ hok] at hencode
    unfold catalogRequests
    dsimp only
    rw [hencode]
    rfl
  have hrequests : ∃ second, publishRequests r (some c) state =
      some (catalogRequest r (catalogBytes r.localKey r.peerKey c) :: second) ∧
        second.length ≤ 1 ∧ ∀ request ∈ second, request.id ≠ replicaMetaId ∧
          request.id ≠ ⟨0, 0⟩ ∧ request.typeId ≠ ⟨0, 0⟩ := by
    unfold publishRequests
    rw [hcatalog]
    cases state with
    | none => exact ⟨[], rfl, by simp, fun request hrequest => by cases hrequest⟩
    | some x =>
      obtain ⟨scope, state⟩ := x
      obtain ⟨hscope, hvalid⟩ := hstate (scope, state) rfl
      refine ⟨[stateRequest r scope state state.bytes], ?_, by simp, fun request hrequest => ?_⟩
      · unfold stateRequests
        dsimp only
        rw [netCrdtEncode_of_valid hvalid]
        rfl
      · rw [List.mem_singleton.mp hrequest]
        refine ⟨(scopeValid.id_ne hscope).1, (scopeValid.id_ne hscope).2, fun heq => ?_⟩
        -- the type of a state is above the base
        obtain ⟨-, -, -, hkind1, hkind2, -⟩ := scopeValid_iff.mp hscope
        have hlow : replicaTypeBase + scope.kind.toUInt64 = 0 := congrArg ObjectId.low heq
        have hle : scope.kind.toNat ≤ 2 := UInt32.le_iff_toNat_le.mp hkind2
        have hnat := congrArg UInt64.toNat hlow
        rw [UInt64.toNat_add, UInt32.toNat_toUInt64, show replicaTypeBase.toNat = 0x5000 from rfl,
          show (0 : UInt64).toNat = 0 from rfl] at hnat
        omega
  obtain ⟨second, heq, hlength, hsecond⟩ := hrequests
  have hbatch : m.batchOk (catalogRequest r (catalogBytes r.localKey r.peerKey c) :: second) =
      true := by
    refine ObjectMap.batchOk_iff.mpr ⟨by simp, ?_, hm, fun request hrequest => ?_, ?_⟩
    · rw [List.length_cons]
      unfold objectStorePutBatchMax
      omega
    · rcases List.mem_cons.mp hrequest with rfl | hrequest
      · exact ⟨show replicaMetaId ≠ ⟨0, 0⟩ by decide,
          show (⟨0, replicaTypeBase⟩ : ObjectId) ≠ ⟨0, 0⟩ by decide⟩
      · exact (hsecond request hrequest).2
    · rw [List.map_cons, List.nodup_cons]
      refine ⟨fun hmem => ?_, ?_⟩
      · obtain ⟨request, hrequest, hid⟩ := List.mem_map.mp hmem
        exact (hsecond request hrequest).1 hid
      · match second, hlength with
        | [], _ => exact List.nodup_nil
        | [request], _ => exact List.nodup_singleton _
  unfold publish
  rw [heq]
  dsimp only
  rw [ObjectMap.putMany, if_pos hbatch]
  rfl

variable {message : ReplicaMessage} {kind : UInt32}

/-- The checks a decoded message has passed. -/
theorem replicaMessageDecode_fields (h : replicaMessageDecode b kind = some message) :
    message.id.high ≥ 0x8000000000000000 ∧ message.id.low ≠ 0 ∧ message.epoch ≠ 0 ∧
      (message.kind = 1 ∨ message.kind = 2) ∧ message.rights ≤ 3 := by
  unfold replicaMessageDecode at h
  by_cases hlength : messageLength kind ≠ some b.length
  · rw [if_pos hlength] at h
    cases h
  rw [if_neg hlength] at h
  split at h
  · cases h
  rename_i hfront
  dsimp only at h
  generalize b.getD 6 0 = kindByte at h hfront
  generalize b.getD 7 0 = rightsByte at h hfront
  split at h
  · cases h
  rename_i hids
  obtain ⟨hhigh, hlow, hepoch⟩ := by simpa only [not_or] using hids
  obtain ⟨-, -, -, hkind1, hkind2, hrights, -⟩ := by
    simpa only [not_or, gt_iff_lt, UInt8.not_lt] using hfront
  obtain rfl := Option.some.inj h
  refine ⟨UInt64.not_lt.mp hhigh, hlow, hepoch, ?_, ?_⟩
  · have h1 : 1 ≤ kindByte.toNat := UInt8.le_iff_toNat_le.mp hkind1
    have h2 : kindByte.toNat ≤ 2 := UInt8.le_iff_toNat_le.mp hkind2
    dsimp only
    rw [← UInt32.toNat_inj, ← UInt32.toNat_inj, UInt8.toNat_toUInt32,
      show (1 : UInt32).toNat = 1 from rfl, show (2 : UInt32).toNat = 2 from rfl]
    omega
  · dsimp only
    rw [UInt32.le_iff_toNat_le, UInt8.toNat_toUInt32]
    exact UInt8.le_iff_toNat_le.mp hrights

section Accepted

variable {crypto : Crypto} {localKey peerKey : Block 32} {m : ObjectMap} {r : Replica}

theorem InService.keys_ne (h : InService crypto localKey peerKey m r) : r.localKey ≠ r.peerKey := by
  intro heq
  have hid := h.identified
  apply hid.namespace_ne
  rw [hid.localNamespace_eq, hid.peerNamespace_eq, ← hid.localKey_eq, ← hid.peerKey_eq, heq]

theorem InService.id_ne (h : InService crypto localKey peerKey m r) (hr : r.halted = false)
    (hm : m.requiresRecovery = false) {id : ObjectId} (hfree : m.find id = none) :
    ∀ s ∈ r.catalog, s.id ≠ id := by
  rintro s hs rfl
  obtain ⟨state, hstate⟩ := h.stored hr hm s hs
  obtain ⟨o, ho, -⟩ := hstate.stored
  rw [hfree] at ho
  cases ho

variable (h : InService crypto localKey peerKey m r) (hr : r.halted = false)
  (hm : m.requiresRecovery = false)

include h hr hm

theorem InService.created_ok {sequence : UInt64} (hsequence : sequence ≠ 0)
    (hroom : r.catalog.length < replicaObjectsMax)
    (hfree : m.find ⟨r.localNamespace, sequence⟩ = none) (hkind : kind = 1 ∨ kind = 2) :
    CatalogOk (r.catalog ++ [⟨⟨r.localNamespace, sequence⟩, 1, kind, 0, 1, 0⟩]) := by
  refine h.catalog_ok.append hroom ?_ (h.id_ne hr hm hfree)
  refine scopeValid_iff.mpr ⟨?_, hsequence, show (1 : UInt64) ≠ 0 by decide, ?_, ?_,
    show (0 : UInt32) ≤ 3 by decide, show (1 : UInt32) ≤ 1 by decide, rfl⟩
  · change r.localNamespace ≥ 0x8000000000000000
    rw [h.identified.localNamespace_eq]
    exact namespaceFor_ge crypto localKey
  · change kind ≥ 1
    rcases hkind with rfl | rfl <;> decide
  · change kind ≤ 2
    rcases hkind with rfl | rfl <;> decide

theorem InService.create_accepted {sequence : UInt64} (hsequence : sequence ≠ 0)
    (hroom : r.catalog.length < replicaObjectsMax)
    (hfree : m.find ⟨r.localNamespace, sequence⟩ = none) (hkind : kind = 1 ∨ kind = 2) :
    (replicaCreate r m sequence kind .commit).1 = .accepted := by
  have hok := h.created_ok hr hm hsequence hroom hfree hkind
  have hinit : netCrdtInit kind = some ⟨kind, fun _ => 0, 0, 0, [], []⟩ := by
    rcases hkind with rfl | rfl <;> rfl
  unfold replicaCreate
  dsimp only
  rw [checked_of_healthy hr hm, if_neg (by rw [hr]; exact Bool.false_ne_true), if_neg, if_neg,
    hinit]
  · refine publish_accepted hm h.keys_ne hok fun x hx => ?_
    obtain rfl := Option.some.inj hx
    exact ⟨hok.valid _ (List.mem_append_right _ List.mem_cons_self), (netCrdtInit_some hinit).1⟩
  · rw [hfree]
    exact Bool.false_ne_true
  · rintro (hzero | hfull)
    · exact hsequence hzero
    · omega

theorem InService.share_accepted {id : ObjectId} {rights : UInt32} {scope : ReplicaScope}
    (hfind : r.findScope id = some scope) (howned : scope.owned ≠ 0) (hrights : rights ≤ 3)
    (hepoch : scope.epoch ≠ 0xFFFFFFFFFFFFFFFF) :
    (replicaShare r m id rights .commit).1 = .accepted := by
  have hnonzero : scope.epoch + 1 ≠ 0 := by
    intro hzero
    have hnat := toNat_succ hepoch
    rw [hzero] at hnat
    exact absurd hnat (by simp)
  unfold replicaShare
  dsimp only
  rw [checked_of_healthy hr hm, if_neg (by rw [hr]; exact Bool.false_ne_true), hfind]
  dsimp only
  rw [if_neg]
  · split_ifs
    · rfl
    · exact publish_accepted hm h.keys_ne (h.catalog_ok.setScope id hnonzero hrights)
        fun x hx => by cases hx
  · rintro (hzero | hmany)
    · exact howned hzero
    · exact UInt32.not_le.mpr hmany hrights

theorem InService.granted_ok (hdecode : replicaMessageDecode b kind = some message)
    (hroom : r.catalog.length < replicaObjectsMax) (hfree : m.find message.id = none) :
    CatalogOk (r.catalog ++
      [⟨message.id, message.epoch, message.kind, message.rights, 0, 0⟩]) := by
  obtain ⟨hhigh, hlow, hepoch, hkinds, hrights⟩ := replicaMessageDecode_fields hdecode
  refine h.catalog_ok.append hroom ?_ (h.id_ne hr hm hfree)
  refine scopeValid_iff.mpr ⟨hhigh, hlow, hepoch, ?_, ?_, hrights,
    show (0 : UInt32) ≤ 1 by decide, rfl⟩
  · change message.kind ≥ 1
    rcases hkinds with heq | heq <;> rw [heq] <;> decide
  · change message.kind ≤ 2
    rcases hkinds with heq | heq <;> rw [heq] <;> decide

/-- A grant with a newer epoch, or of a new object with room, is accepted. -/
theorem InService.grant_accepted {packet : Packet} (hkind : packet.1 = netMessageGrant)
    (hdecode : replicaMessageDecode packet.2 packet.1 = some message)
    (hpeer : message.id.high = r.peerNamespace) (readable : ObjectId → Bool)
    (hscope : (∃ scope, r.findScope message.id = some scope ∧ scope.kind = message.kind ∧
        scope.epoch < message.epoch) ∨
      r.findScope message.id = none ∧ r.catalog.length < replicaObjectsMax ∧
        m.find message.id = none) :
    (replicaReceive crypto r m (some packet) readable .commit).1 = .accepted := by
  obtain ⟨-, -, hepoch, hkinds, hrights⟩ := replicaMessageDecode_fields hdecode
  have hreceive : (replicaReceive crypto r m (some packet) readable .commit).1 =
      (acceptGrant r m message .commit).1 := by
    obtain ⟨kind, body⟩ := packet
    dsimp only at hkind hdecode
    unfold replicaReceive
    dsimp only
    rw [checked_of_healthy hr hm, if_neg (by rw [hr]; exact Bool.false_ne_true), hdecode]
    dsimp only
    rw [if_pos hkind]
  rw [hreceive]
  unfold acceptGrant
  rw [if_neg (not_not.mpr hpeer)]
  rcases hscope with ⟨scope, hfind, hsame, hnewer⟩ | ⟨hfind, hroom, hfree⟩
  · obtain ⟨hmem, hid⟩ := Replica.findScope_some hfind
    have howned : scope.owned = 0 := by
      by_contra hne
      have howner := h.owner scope hmem
      rw [if_pos hne, hid, hpeer] at howner
      exact h.identified.namespace_ne howner.symm
    rw [hfind]
    dsimp only
    rw [if_neg, if_neg]
    · exact publish_accepted hm h.keys_ne (h.catalog_ok.setScope message.id hepoch hrights)
        fun x hx => by cases hx
    · exact (UInt64.ne_of_lt hnewer).symm
    · rintro (hne | hne | hlt)
      · exact hne howned
      · exact hne hsame
      · exact UInt64.lt_asymm hlt hnewer
  · have hok := h.granted_ok hr hm hdecode hroom hfree
    have hinit : netCrdtInit message.kind = some ⟨message.kind, fun _ => 0, 0, 0, [], []⟩ := by
      rcases hkinds with heq | heq <;> rw [heq] <;> rfl
    rw [hfind]
    dsimp only
    split_ifs with hnone hrefused
    · rfl
    · rcases hrefused with hfull | hsome
      · omega
      · rw [hfree] at hsome
        cases hsome
    · rw [hinit]
      refine publish_accepted hm h.keys_ne hok fun x hx => ?_
      obtain rfl := Option.some.inj hx
      exact ⟨hok.valid _ (List.mem_append_right _ List.mem_cons_self), (netCrdtInit_some hinit).1⟩

end Accepted

/-! ### Canonicity -/

/-- The catalog that a call makes is encoded, and the call is accepted if the device lets it. -/
structure CatalogsStored (crypto : Crypto) (m : ObjectMap) (r : Replica) : Prop where
  create : ∀ sequence kind, sequence ≠ 0 → r.catalog.length < replicaObjectsMax →
    m.find ⟨r.localNamespace, sequence⟩ = none → kind = 1 ∨ kind = 2 →
    (CatalogArray.encode r.localKey r.peerKey ((CatalogArray.ofList r.catalog).push
      ⟨⟨r.localNamespace, sequence⟩, 1, kind, 0, 1, 0⟩)).isSome = true ∧
      (replicaCreate r m sequence kind .commit).1 = .accepted
  share : ∀ id rights scope, r.findScope id = some scope → scope.owned ≠ 0 → rights ≤ 3 →
    scope.epoch ≠ 0xFFFFFFFFFFFFFFFF →
    (CatalogArray.encode r.localKey r.peerKey (CatalogArray.ofList
      (setScope id (scope.epoch + 1) rights r.catalog))).isSome = true ∧
      (replicaShare r m id rights .commit).1 = .accepted
  regrant : ∀ packet message readable scope, packet.1 = netMessageGrant →
    replicaMessageDecode packet.2 packet.1 = some message → message.id.high = r.peerNamespace →
    r.findScope message.id = some scope → scope.kind = message.kind →
    scope.epoch < message.epoch →
    (CatalogArray.encode r.localKey r.peerKey (CatalogArray.ofList
      (setScope message.id message.epoch message.rights r.catalog))).isSome = true ∧
      (replicaReceive crypto r m (some packet) readable .commit).1 = .accepted
  grant : ∀ packet message readable, packet.1 = netMessageGrant →
    replicaMessageDecode packet.2 packet.1 = some message → message.id.high = r.peerNamespace →
    r.findScope message.id = none → r.catalog.length < replicaObjectsMax →
    m.find message.id = none →
    (CatalogArray.encode r.localKey r.peerKey ((CatalogArray.ofList r.catalog).push
      ⟨message.id, message.epoch, message.kind, message.rights, 0, 0⟩)).isSome = true ∧
      (replicaReceive crypto r m (some packet) readable .commit).1 = .accepted

theorem InService.catalogsStored {crypto : Crypto} {m : ObjectMap} {r : Replica}
    (h : InService crypto localKey peerKey m r) (hr : r.halted = false)
    (hm : m.requiresRecovery = false) : CatalogsStored crypto m r := by
  have hencode : ∀ {c : ReplicaCatalog}, CatalogOk c →
      (CatalogArray.encode r.localKey r.peerKey (CatalogArray.ofList c)).isSome = true := by
    intro c hok
    rw [CatalogArray.encode_of_ne h.keys_ne hok]
    rfl
  refine ⟨fun sequence kind hsequence hroom hfree hkind => ⟨?_, ?_⟩,
    fun id rights scope hfind howned hrights hepoch => ⟨hencode ?_, ?_⟩,
    fun packet message readable scope hkind hdecode hpeer hfind hsame hnewer => ⟨hencode ?_, ?_⟩,
    fun packet message readable hkind hdecode hpeer hfind hroom hfree => ⟨?_, ?_⟩⟩
  · rw [CatalogArray.push_ofList hroom]
    exact hencode (h.created_ok hr hm hsequence hroom hfree hkind)
  · exact h.create_accepted hr hm hsequence hroom hfree hkind
  · refine h.catalog_ok.setScope id (fun hzero => ?_) hrights
    have hnat := toNat_succ hepoch
    rw [hzero] at hnat
    exact absurd hnat (by simp)
  · exact h.share_accepted hr hm hfind howned hrights hepoch
  · obtain ⟨-, -, hepoch, -, hrights⟩ := replicaMessageDecode_fields hdecode
    exact h.catalog_ok.setScope message.id hepoch hrights
  · exact h.grant_accepted hr hm hkind hdecode hpeer readable
      (Or.inl ⟨scope, hfind, hsame, hnewer⟩)
  · rw [CatalogArray.push_ofList hroom]
    exact hencode (h.granted_ok hr hm hdecode hroom hfree)
  · exact h.grant_accepted hr hm hkind hdecode hpeer readable (Or.inr ⟨hfind, hroom, hfree⟩)

/-- **The codecs are canonical.**  A valid state is stored in 680 bytes that are read back as that
state, the bytes that are read as a state are those it is stored as, and so two states are the same
if and only if their stored forms are; what the functions on states return can be stored.  The same
holds of catalogs, for two keys that differ, and in every run of a node the catalog of its replica,
and the one that the next create, share or grant makes of it, can be stored. -/
theorem codecs_canonical :
    (∀ s : NetCrdtArray, s.valid = true → ∃ b, s.encode = some b ∧ b.length = netCrdtBytes ∧
      NetCrdtArray.decode b = some s) ∧
    (∀ b s, NetCrdtArray.decode b = some s → s.encode = some b) ∧
    (∀ s s' b b' (crypto : Crypto), NetCrdtArray.encode s = some b →
      NetCrdtArray.encode s' = some b' →
      (s = s' ↔ b = b') ∧ (s = s' → crypto.blake2b 32 b = crypto.blake2b 32 b')) ∧
    (∀ s : NetCrdtArray, (∃ kind, NetCrdtArray.init kind = some s) ∨
      (∃ t node value, NetCrdtArray.set t node value = some s) ∨
      (∃ t node value, NetCrdtArray.add t node value = some s) ∨
      (∃ t node value, NetCrdtArray.remove t node value = some s) ∨
      (∃ t u, NetCrdtArray.merge t u = some s) → s.encode.isSome = true) ∧
    (∀ localKey peerKey : Block 32, localKey ≠ peerKey →
      (∀ c : CatalogArray, c.valid = true → ∃ b, CatalogArray.encode localKey peerKey c = some b ∧
        b.length = replicaCatalogBytes ∧ CatalogArray.decode b localKey peerKey = some c) ∧
      ∀ b c, CatalogArray.decode b localKey peerKey = some c →
        CatalogArray.encode localKey peerKey c = some b) ∧
    ∀ (crypto : Crypto) (localKey peerKey : Block 32) (start : ReplicaNode)
      (actions : List NodeAction) (n : ReplicaNode) (r : Replica), start.replica = none →
      nodeRun crypto localKey peerKey start actions = n → n.replica = some r →
      (CatalogArray.encode r.localKey r.peerKey (CatalogArray.ofList r.catalog)).isSome = true ∧
        (r.halted = false → n.store.requiresRecovery = false →
          CatalogsStored crypto n.store r) := by
  refine ⟨fun s => NetCrdtArray.decode_encode, fun b s => NetCrdtArray.encode_decode,
    fun s s' b b' crypto hs hs' => ⟨⟨?_, ?_⟩, ?_⟩, ?_, fun localKey peerKey hkeys =>
      ⟨fun c => CatalogArray.decode_encode hkeys, fun b c => CatalogArray.encode_decode hkeys⟩, ?_⟩
  · rintro rfl
    exact Option.some.inj (hs.symm.trans hs')
  · rintro rfl
    have hread : ∀ {s : NetCrdtArray}, s.encode = some b → NetCrdtArray.decode b = some s := by
      intro s hs
      have hvalid : s.valid = true := by
        by_contra hinvalid
        unfold NetCrdtArray.encode at hs
        rw [if_neg hinvalid] at hs
        cases hs
      obtain ⟨b', hb', -, hdecode⟩ := NetCrdtArray.decode_encode hvalid
      rwa [Option.some.inj (hb'.symm.trans hs)] at hdecode
    exact Option.some.inj ((hread hs).symm.trans (hread hs'))
  · rintro rfl
    rw [Option.some.inj (hs.symm.trans hs')]
  · rintro s (⟨kind, h⟩ | ⟨t, node, value, h⟩ | ⟨t, node, value, h⟩ | ⟨t, node, value, h⟩ |
      ⟨t, u, h⟩)
    · exact NetCrdtArray.encode_isSome (NetCrdtArray.init_valid h)
    · exact NetCrdtArray.encode_isSome (NetCrdtArray.set_valid h)
    · exact NetCrdtArray.encode_isSome (NetCrdtArray.add_valid h)
    · exact NetCrdtArray.encode_isSome (NetCrdtArray.remove_valid h)
    · exact NetCrdtArray.encode_isSome (NetCrdtArray.merge_valid h)
  · rintro crypto localKey peerKey start actions n r hclosed rfl hr
    have hservice := ReplicaNode.InService.run (n := start)
      (fun r0 hr0 => by rw [hclosed] at hr0; cases hr0) actions r hr
    refine ⟨?_, hservice.catalogsStored⟩
    rw [CatalogArray.encode_of_ne hservice.keys_ne hservice.catalog_ok]
    rfl

/-- A node that opens a replica, creates a register and shares it. -/
def sharingNode : ReplicaNode :=
  nodeRun mirrorCrypto (pairKey .left) (pairKey .right) ⟨ObjectMap.empty, none, fun _ => []⟩
    [.openReplica (fun _ => true) .commit, .create 1 netCrdtLww .commit,
      .share sharedId 3 .commit]

/-- A set with one addition, and the catalog of this node. -/
theorem codecs_canonical_sharing :
    (∃ s b, (NetCrdtArray.init netCrdtOrset).bind (·.add 0 7) = some s ∧ s.encode = some b ∧
      NetCrdtArray.decode b = some s) ∧
    ∃ r b, sharingNode.replica = some r ∧ r.catalog = [sharedScope 1] ∧
      CatalogArray.encode (pairKey .left) (pairKey .right) (.ofList r.catalog) = some b ∧
      CatalogArray.decode b (pairKey .left) (pairKey .right) = some (.ofList r.catalog) ∧
      CatalogsStored mirrorCrypto sharingNode.store r := by
  have hset : (((NetCrdtArray.init netCrdtOrset).bind (·.add 0 7)).map (·.valid)) = some true ∧
      (CatalogArray.ofList [sharedScope 1]).valid = true ∧
      (sharingNode.replica.map fun r => (r.catalog, r.halted)) = some ([sharedScope 1], false) ∧
      sharingNode.store.requiresRecovery = false ∧ pairKey .left ≠ pairKey .right := by
    decide +kernel
  obtain ⟨hset, hcatalog, hnode, hm, hkeys⟩ := hset
  obtain ⟨s, hs, hvalid⟩ := Option.map_eq_some_iff.mp hset
  obtain ⟨r, hr, heq⟩ := Option.map_eq_some_iff.mp hnode
  obtain ⟨hscopes, hhalted⟩ := Prod.mk.inj heq
  obtain ⟨hencode, -, -, -, hcatalogs, hnodes⟩ := codecs_canonical
  obtain ⟨b, hb, -, hdecode⟩ := hencode s hvalid
  rw [← hscopes] at hcatalog
  obtain ⟨b', hb', -, hdecode'⟩ := (hcatalogs _ _ hkeys).1 _ hcatalog
  exact ⟨⟨s, b, hs, hb, hdecode⟩, r, b', hr, hscopes, hb', hdecode',
    (hnodes _ _ _ _ _ _ _ rfl rfl hr).2 hhalted hm⟩

end Jani
