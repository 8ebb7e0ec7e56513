import Jani.Lib.Layout
import Jani.Lib.PaddedArray
import Jani.Net.Equiv.Replica

/-!
# Stored forms are canonical

`netCrdtDecode_bytes` and `replicaCatalogDecode_bytes` read a value back from its stored form.  Here
is the other direction: a byte string that is read is the stored form of what it is read as, so each
state and each catalog has one stored form only.
-/

namespace Jani

/-! ### States -/

theorem NetDot.bytes_ofBytes {l : List UInt8} (h : 24 ≤ l.length) :
    (NetDot.ofBytes l).bytes = l.take 24 := by
  have heq : (NetDot.ofBytes l).bytes ++ l.drop 24 = l := by
    simp only [NetDot.bytes, NetDot.ofBytes, List.append_assoc]
    rw [le64_u64At_append (by omega), le64_u64At_append (by omega), le32_u32At_append (by omega),
      show l.drop 4 = l.drop (0 + 4) from rfl, le32_u32At_append (by omega), List.drop_zero]
  conv_rhs => rw [← heq]
  rw [List.take_left' (length_dot_bytes _)]

variable {b : List UInt8}

theorem flatMap_dots (h : b.length = netCrdtBytes) :
    ((List.range netCrdtDotsMax).map fun i => NetDot.ofBytes (b.drop (296 + 24 * i))).flatMap
      NetDot.bytes = b.drop 296 := by
  unfold netCrdtBytes at h
  have hlength : (b.drop 296).length = 24 * netCrdtDotsMax := by
    rw [List.length_drop, h]
    rfl
  have hrecords := @flatMap_records _ NetDot.ofBytes NetDot.bytes 24 (b.drop 296) netCrdtDotsMax
    fun i hi => NetDot.bytes_ofBytes (by
      unfold netCrdtDotsMax at *
      rw [List.length_drop]
      omega)
  rw [← hlength, List.take_length] at hrecords
  simpa only [List.drop_drop] using hrecords

/-- **Canonicity**: the bytes that are read as a state are its stored form. -/
theorem bytes_of_netCrdtDecode {s : NetCrdt} (h : netCrdtDecode b = some s) : s.bytes = b := by
  unfold netCrdtDecode at h
  by_cases hlength : b.length = netCrdtBytes
  swap
  · rw [if_pos hlength] at h
    cases h
  rw [if_neg (not_not.mpr hlength)] at h
  split at h
  · cases h
  rename_i hfront
  dsimp only at h
  have hdots := flatMap_dots hlength
  have hvalueLength : ((b.drop 40).take netCrdtValueMax).length = netCrdtValueMax := by
    rw [List.length_take, List.length_drop, hlength]
    rfl
  have hvalue : (b.drop 40).take netCrdtValueMax ++ b.drop 296 = b.drop 40 := by
    rw [show 296 = 40 + netCrdtValueMax from rfl, ← List.drop_drop, List.take_append_drop]
  generalize (b.drop 40).take netCrdtValueMax = value at h hvalueLength hvalue
  have hdotsLength : ((List.range netCrdtDotsMax).map fun i =>
      NetDot.ofBytes (b.drop (296 + 24 * i))).length = netCrdtDotsMax := by
    rw [List.length_map, List.length_range]
  generalize ((List.range netCrdtDotsMax).map fun i =>
    NetDot.ofBytes (b.drop (296 + 24 * i))) = dots at h hdots hdotsLength
  split_ifs at h with htails hvalid
  obtain ⟨hcount, hsize, hvalueTail, hdotsTail⟩ := by
    simpa only [not_or, gt_iff_lt, Nat.not_lt, not_exists, not_and, not_not] using htails
  obtain rfl := Option.some.inj h
  -- the arrays, with their zero tails, are the last part of the bytes
  have harrays : pad netCrdtValueMax 0 (value.take (u32At b 36).toNat) ++
      (pad netCrdtDotsMax zeroDot (dots.take (ofLeBytes ((b.drop 6).take 2)))).flatMap
        NetDot.bytes = b.drop 40 := by
    rw [pad_take hvalueLength hsize hvalueTail, pad_take hdotsLength hcount hdotsTail, hdots,
      hvalue]
  -- and the header is what the fields were read from
  have hcountLength : (dots.take (ofLeBytes ((b.drop 6).take 2))).length =
      ofLeBytes ((b.drop 6).take 2) := by
    rw [List.length_take]
    omega
  have hsizeLength : (value.take (u32At b 36).toNat).length = (u32At b 36).toNat := by
    rw [List.length_take]
    omega
  unfold netCrdtBytes at hlength
  have htwo : leBytes 2 (ofLeBytes ((b.drop 6).take 2)) = (b.drop 6).take 2 := by
    have htake : ((b.drop 6).take 2).length = 2 := by
      rw [List.length_take, List.length_drop]
      omega
    have hbytes := leBytes_ofLeBytes ((b.drop 6).take 2)
    rwa [htake] at hbytes
  have hmagic : netCrdtMagic ++ [1, b.getD 5 0] = b.take 6 := by
    obtain ⟨hmagic, hone⟩ := not_or.mp hfront
    rw [← not_not.mp hmagic, ← not_not.mp hone]
    match b, hlength with
    | _ :: _ :: _ :: _ :: _ :: _ :: _, _ => rfl
  change NetCrdt.headerBytes _ ++ pad netCrdtValueMax 0 _ ++ List.flatMap NetDot.bytes
    (pad netCrdtDotsMax zeroDot _) = b
  rw [List.append_assoc, harrays]
  simp only [NetCrdt.headerBytes, List.append_assoc]
  rw [hsizeLength, UInt32.ofNat_toNat, hcountLength, htwo, UInt8.toUInt8_toUInt32]
  change netCrdtMagic ++ ([1, b.getD 5 0] ++ ((b.drop 6).take 2 ++ (le64 (u64At b 8) ++
    (le64 (u64At b 16) ++ (le64 (u64At b 24) ++ (le32 (u32At b 32) ++
      (le32 (u32At b 36) ++ b.drop 40))))))) = b
  rw [le32_u32At_append (by omega), le32_u32At_append (by omega), le64_u64At_append (by omega),
    le64_u64At_append (by omega), le64_u64At_append (by omega), ← List.append_assoc, hmagic,
    show 8 = 6 + 2 from rfl, ← List.drop_drop, List.take_append_drop, List.take_append_drop]

/-! ### Catalogs -/

theorem ReplicaScope.bytes_ofBytes {l : List UInt8} (h : 40 ≤ l.length)
    (hreserved : (ReplicaScope.ofBytes l).reserved = 0) :
    (ReplicaScope.ofBytes l).bytes = l.take 40 := by
  have hzero : u32At l 36 = 0 := hreserved
  have heq : (ReplicaScope.ofBytes l).bytes ++ l.drop 40 = l := by
    simp only [ReplicaScope.bytes, ReplicaScope.ofBytes, idAt, leId, List.append_assoc]
    rw [← hzero, le32_u32At_append (by omega), le32_u32At_append (by omega),
      le32_u32At_append (by omega), le32_u32At_append (by omega), le64_u64At_append (by omega),
      le64_u64At_append (by omega), le64_u64At_append (by omega), List.drop_zero]
  conv_rhs => rw [← heq]
  rw [List.take_left' (ReplicaScope.length_bytes _)]

theorem flatMap_scopes (h : b.length = replicaCatalogBytes)
    (hreserved : ∀ s ∈ (List.range replicaObjectsMax).map fun i =>
      ReplicaScope.ofBytes (b.drop (80 + 40 * i)), s.reserved = 0) :
    ((List.range replicaObjectsMax).map fun i =>
      ReplicaScope.ofBytes (b.drop (80 + 40 * i))).flatMap ReplicaScope.bytes = b.drop 80 := by
  unfold replicaCatalogBytes at h
  have hlength : (b.drop 80).length = 40 * replicaObjectsMax := by
    rw [List.length_drop, h]
    rfl
  have hrecords := @flatMap_records _ ReplicaScope.ofBytes ReplicaScope.bytes 40 (b.drop 80)
    replicaObjectsMax fun i hi => ReplicaScope.bytes_ofBytes (by
      unfold replicaObjectsMax at *
      rw [List.length_drop]
      omega) (by
      rw [List.drop_drop]
      exact hreserved _ (List.mem_map.mpr ⟨i, List.mem_range.mpr hi, rfl⟩))
  rw [← hlength, List.take_length] at hrecords
  simpa only [List.drop_drop] using hrecords

/-- **Canonicity**: the bytes that are read as a catalog are its stored form. -/
theorem bytes_of_replicaCatalogDecode {localKey peerKey : Block 32} {c : ReplicaCatalog}
    (h : replicaCatalogDecode b localKey peerKey = some c) :
    catalogBytes localKey peerKey c = b := by
  unfold replicaCatalogDecode at h
  by_cases hlength : b.length = replicaCatalogBytes
  swap
  · rw [if_pos hlength] at h
    cases h
  rw [if_neg (not_not.mpr hlength)] at h
  dsimp only at h
  have hscopes := flatMap_scopes hlength
  have hscopesLength : ((List.range replicaObjectsMax).map fun i =>
      ReplicaScope.ofBytes (b.drop (80 + 40 * i))).length = replicaObjectsMax := by
    rw [List.length_map, List.length_range]
  generalize ((List.range replicaObjectsMax).map fun i =>
    ReplicaScope.ofBytes (b.drop (80 + 40 * i))) = scopes at h hscopes hscopesLength
  split_ifs at h with hfront hzero htail hvalid
  obtain ⟨hmagic, hone, hlocal, hpeer⟩ := by
    simpa only [not_or, not_not] using hfront
  obtain ⟨hcount, hreserved, htail⟩ := by
    simpa only [not_or, gt_iff_lt, Nat.not_lt, not_exists, not_and, not_not] using htail
  obtain rfl := Option.some.inj h
  have hpad := pad_take hscopesLength hcount htail
  have harray : (pad replicaObjectsMax zeroScope (scopes.take (u32At b 72).toNat)).flatMap
      ReplicaScope.bytes = b.drop 80 := by
    rw [hpad]
    refine hscopes fun s hs => ?_
    rw [← hpad] at hs
    exact reserved_of_mem_padded (catalogValid_iff.mp hvalid) hs
  have hcountLength : (scopes.take (u32At b 72).toNat).length = (u32At b 72).toNat := by
    rw [List.length_take]
    omega
  unfold replicaCatalogBytes at hlength
  have hhead : replicaCatalogMagic ++ [1, 0, 0, 0] = b.take 8 := by
    rw [← not_not.mp hzero, ← hmagic, ← hone]
    match b, hlength with
    | _ :: _ :: _ :: _ :: _ :: _ :: _ :: _ :: _, _ => rfl
  change replicaCatalogMagic ++ [1, 0, 0, 0] ++ localKey.bytes ++ peerKey.bytes ++
    le32 (UInt32.ofNat (scopes.take (u32At b 72).toNat).length) ++ le32 0 ++
      List.flatMap ReplicaScope.bytes (pad replicaObjectsMax zeroScope _) = b
  rw [harray, hcountLength, UInt32.ofNat_toNat, hhead, ← hreserved, ← hlocal, ← hpeer]
  simp only [List.append_assoc]
  rw [le32_u32At_append (by omega), le32_u32At_append (by omega), show 72 = 40 + 32 from rfl,
    ← List.drop_drop, List.take_append_drop, show 40 = 8 + 32 from rfl, ← List.drop_drop,
    List.take_append_drop, List.take_append_drop]

end Jani
