import Jani.Cap.Equiv.DerivationArray
import Mathlib.Data.List.GetD

/-!
# The two validators of the lineage agree

`capability_lineage_validate` reads references as slices of the stored bytes and compares the
slices; `capability_derivation_table_is_valid` compares the fields of the records.  A slice is the
image of exactly one reference (`lineageParent_eq`, `lineageChild_eq`), so the loops of the two
validators take the same turns (`lineageWalk_eq`) and accept the same tables
(`capabilityLineageValidate_iff`).

It follows that a valid table is read back from its bytes, and that accepted bytes are written back
from their table (`lineage_validators_agree`).
-/

namespace Jani

variable {bytes : List UInt8}

/-! ### Slices and references -/

theorem lineageParent_eq (hlength : bytes.length = 3096) (index : Fin 64) :
    lineageParent bytes index = capabilityRefLayout.write
      ((DerivationArray.ofLineage bytes).records index).parent := by
  have hsize : capabilityRefLayout.size ≤ ((bytes.drop 24).drop (48 * index.val)).length := by
    have hlt := index.isLt
    change 24 ≤ _
    rw [List.length_drop, List.length_drop]
    omega
  refine Eq.trans ?_ (capabilityRefLayout.write_read_take hsize).symm
  rw [lineageParent, List.drop_drop, Nat.mul_comm]
  rfl

theorem lineageChild_eq (hlength : bytes.length = 3096) (index : Fin 64) :
    lineageChild bytes index = capabilityRefLayout.write
      ((DerivationArray.ofLineage bytes).records index).child := by
  have hsize : capabilityRefLayout.size ≤
      (((bytes.drop 24).drop (48 * index.val)).drop 24).length := by
    have hlt := index.isLt
    change 24 ≤ _
    rw [List.length_drop, List.length_drop, List.length_drop]
    omega
  refine Eq.trans ?_ (capabilityRefLayout.write_read_take hsize).symm
  rw [lineageChild, List.drop_drop, List.drop_drop, Nat.mul_comm]
  rfl

theorem capabilityRefLayout_write_inj {left right : CapabilityRef} :
    capabilityRefLayout.write left = capabilityRefLayout.write right ↔ left = right :=
  ⟨capabilityRefLayout.write_injective, fun h => h ▸ rfl⟩

theorem capabilityRefLayout_read (l : List UInt8) : capabilityRefLayout.read l =
    ⟨⟨u64At l 0, u64At l 8⟩, u32At l 16, u32At l 20⟩ := by
  have hdrop : l.drop 20 = (l.drop 16).drop 4 := by rw [List.drop_drop]
  unfold u64At u32At
  rw [hdrop]
  rfl

theorem lineageValidRef_write (reference : CapabilityRef) :
    lineageValidRef (capabilityRefLayout.write reference) = capabilityRefIsValid reference := by
  have hread := capabilityRefLayout_read (capabilityRefLayout.write reference)
  rw [capabilityRefLayout.read_write] at hread
  generalize capabilityRefLayout.write reference = l at hread
  subst hread
  rw [Bool.eq_iff_iff, lineageValidRef, decide_eq_true_eq, capabilityRefIsValid, Bool.and_eq_true,
    Bool.and_eq_true, decide_eq_true_eq, and_assoc]
  refine and_congr ?_ (and_congr ?_ Iff.rfl)
  · rw [objectIdIsZero, Bool.not_eq_true', decide_eq_false_iff_not,
      Decidable.not_and_iff_not_or_not]
  · rw [slotIndex, UInt32.lt_iff_toNat_lt]
    split_ifs with h
    · exact ⟨fun _ => rfl, fun _ => h⟩
    · exact ⟨fun h' => absurd h' h, fun h' => by cases h'⟩

/-! ### The loops -/

theorem map_val_indices {table : DerivationArray} (h : table.count.toNat ≤ capDerivationMax) :
    table.indices.map Fin.val = List.range table.count.toNat := by
  unfold capDerivationMax at h
  rw [DerivationArray.indices, List.map_take, List.map_coe_finRange_eq_range, List.take_range,
    Nat.min_eq_left h]

theorem lineageWalk_eq (hlength : bytes.length = 3096)
    (hcount : (DerivationArray.ofLineage bytes).count.toNat ≤ capDerivationMax)
    (child : CapabilityRef) : ∀ (depth : Nat) (current : CapabilityRef),
      lineageWalk bytes (DerivationArray.ofLineage bytes).count.toNat
          (capabilityRefLayout.write child) depth (capabilityRefLayout.write current) =
        (DerivationArray.ofLineage bytes).walkAvoids child depth current
  | 0, _ => rfl
  | depth + 1, current => by
    rw [lineageWalk, DerivationArray.walkAvoids]
    simp only [capabilityRefLayout_write_inj]
    have hfind : ((List.range (DerivationArray.ofLineage bytes).count.toNat).find? fun other =>
        capabilityRefLayout.write current = lineageChild bytes other) =
          ((DerivationArray.ofLineage bytes).findChildRecord current).map Fin.val := by
      rw [← map_val_indices hcount, List.find?_map, DerivationArray.findChildRecord]
      congr 2
      funext index
      rw [Function.comp_apply, lineageChild_eq hlength]
      exact decide_eq_decide.mpr (capabilityRefLayout_write_inj.trans eq_comm)
    rw [hfind]
    cases (DerivationArray.ofLineage bytes).findChildRecord current with
    | none => rfl
    | some index =>
      dsimp only [Option.map_some]
      rw [lineageParent_eq hlength, lineageWalk_eq hlength hcount child depth]

theorem lineageRecordIsValid_eq (hlength : bytes.length = 3096)
    (hcount : (DerivationArray.ofLineage bytes).count.toNat ≤ capDerivationMax) (index : Fin 64) :
    lineageRecordIsValid bytes (DerivationArray.ofLineage bytes).count.toNat index =
      (DerivationArray.ofLineage bytes).recordIsValid index := by
  rw [lineageRecordIsValid, DerivationArray.recordIsValid, lineageParent_eq hlength,
    lineageChild_eq hlength, lineageValidRef_write, lineageValidRef_write,
    lineageWalk_eq hlength hcount, Bool.eq_iff_iff]
  simp only [Bool.and_eq_true, decide_eq_true_eq, ne_eq, capabilityRefLayout_write_inj,
    List.all_eq_true, List.mem_range, and_assoc]
  refine and_congr_right fun _ => and_congr_right fun _ => and_congr_right fun _ =>
    and_congr_left fun _ => ?_
  constructor
  · intro h other hlt heq
    refine h other.val hlt ?_
    rw [lineageChild_eq hlength, heq]
  · intro h other hlt heq
    have hother : other < 64 := lt_trans hlt index.isLt
    rw [lineageChild_eq hlength ⟨other, hother⟩, capabilityRefLayout_write_inj] at heq
    exact h ⟨other, hother⟩ hlt heq.symm

/-! ### The unused records -/

theorem write_zero_derivation :
    capabilityDerivationLayout.write .zero = List.replicate 48 0 := by decide

theorem tail_eq_zero_iff (hlength : bytes.length = 3096) (count : Nat) :
    (∀ byte ∈ bytes.drop (24 + count * 48), byte = 0) ↔
      ∀ index : Fin 64, count ≤ index →
        (DerivationArray.ofLineage bytes).records index = .zero := by
  have hrecords : bytes.drop 24 = (List.ofFn (DerivationArray.ofLineage bytes).records).flatMap
      capabilityDerivationLayout.write :=
    (lineageRecordsLayout.write_read (bytes.drop 24) (by rw [List.length_drop, hlength]; rfl)).symm
  have hdrop : bytes.drop (24 + count * 48) =
      ((List.ofFn (DerivationArray.ofLineage bytes).records).drop count).flatMap
        capabilityDerivationLayout.write := by
    rw [← List.drop_drop, hrecords, Nat.mul_comm]
    exact drop_flatMap_const _ capabilityDerivationLayout.length_write _ _
  rw [hdrop]
  constructor
  · intro h index hindex
    apply capabilityDerivationLayout.write_injective
    rw [write_zero_derivation, List.eq_replicate_iff]
    refine ⟨capabilityDerivationLayout.length_write _, fun byte hbyte => h byte ?_⟩
    refine List.mem_flatMap.mpr ⟨_, List.mem_drop_iff_getElem.mpr ⟨index - count, ?_, ?_⟩, hbyte⟩
    · rw [List.length_ofFn]
      omega
    · rw [List.getElem_ofFn]
      congr
      omega
  · intro h byte hbyte
    obtain ⟨record, hrecord, hbyte⟩ := List.mem_flatMap.mp hbyte
    obtain ⟨i, hi, rfl⟩ := List.mem_drop_iff_getElem.mp hrecord
    rw [List.getElem_ofFn, h _ (Nat.le_add_right count i), write_zero_derivation] at hbyte
    exact List.eq_of_mem_replicate hbyte

/-! ### The agreement -/

theorem lineageHeaderLayout_read (l : List UInt8) : lineageHeaderLayout.read l =
    ⟨u64At l 0, u32At l 8, u32At l 12, u32At l 16, u32At l 20⟩ := by
  have h12 : l.drop 12 = (l.drop 8).drop 4 := by rw [List.drop_drop]
  have h16 : l.drop 16 = ((l.drop 8).drop 4).drop 4 := by rw [List.drop_drop, List.drop_drop]
  have h20 : l.drop 20 = (((l.drop 8).drop 4).drop 4).drop 4 := by
    rw [List.drop_drop, List.drop_drop, List.drop_drop]
  unfold u64At u32At
  rw [h12, h16, h20]
  rfl

/-- **`capability_lineage_validate` accepts the bytes whose header and check value are right and
whose table `capability_derivation_table_is_valid` accepts.** -/
theorem capabilityLineageValidate_iff (bytes : List UInt8) :
    capabilityLineageValidate bytes = true ↔
      bytes.length = 3096 ∧ lineageHeaderLayout.read bytes =
          ⟨capLineageMagic, 1, (DerivationArray.ofLineage bytes).count,
            objectCrc32c (bytes.drop 24), 0⟩ ∧
        (DerivationArray.ofLineage bytes).isValid = true := by
  have hcount : (DerivationArray.ofLineage bytes).count = u32At bytes 12 := by
    rw [DerivationArray.ofLineage, lineageHeaderLayout_read]
  unfold capabilityLineageValidate
  by_cases hlength : bytes.length = 3096
  · rw [if_neg (not_not.mpr hlength)]
    have hisValid : (DerivationArray.ofLineage bytes).isValid = true ↔
        (u32At bytes 12).toNat ≤ capDerivationMax ∧
          (∀ byte ∈ bytes.drop (24 + (u32At bytes 12).toNat * 48), byte = 0) ∧
          ∀ index ∈ List.range (u32At bytes 12).toNat,
            lineageRecordIsValid bytes (u32At bytes 12).toNat index = true := by
      rw [DerivationArray.isValid, decide_eq_true_eq, ← hcount]
      refine and_congr_right fun hle => and_congr ?_ ?_
      · simp only [derivationIsZero_iff]
        exact (tail_eq_zero_iff hlength _).symm
      · rw [← map_val_indices hle]
        simp only [List.forall_mem_map, lineageRecordIsValid_eq hlength hle]
    rw [hisValid, hcount, lineageHeaderLayout_read]
    simp only [LineageHeader.mk.injEq, Bool.if_false_left, Bool.and_eq_true, Bool.not_eq_true',
      decide_eq_false_iff_not, not_or, not_not, ne_eq, Bool.not_eq_true, List.any_eq_false,
      List.all_eq_true, Nat.not_lt, hlength, true_and]
    constructor
    · rintro ⟨⟨hmagic, hversion, hreserved⟩, hle, hcrc, htail, hall⟩
      exact ⟨⟨hmagic, hversion, hcrc.symm, hreserved⟩, hle, htail, hall⟩
    · rintro ⟨⟨hmagic, hversion, hcrc, hreserved⟩, hle, htail, hall⟩
      exact ⟨⟨hmagic, hversion, hreserved⟩, hle, hcrc.symm, htail, hall⟩
  · rw [if_pos hlength]
    exact ⟨fun h => (by cases h), fun h => absurd h.1 hlength⟩

theorem drop_lineageHeader (header : LineageHeader) (l : List UInt8) :
    (lineageHeaderLayout.write header ++ l).drop 24 = l :=
  List.drop_left' (lineageHeaderLayout.length_write header)

namespace DerivationArray

theorem ofLineage_append (table : DerivationArray) (crc : UInt32) :
    ofLineage (lineageHeaderLayout.write ⟨capLineageMagic, 1, table.count, crc, 0⟩ ++
      lineageRecordsLayout.write table.records) = table := by
  rw [ofLineage, lineageHeaderLayout.read_append, drop_lineageHeader,
    lineageRecordsLayout.read_write]

/-- **A valid table is read back from its bytes.** -/
theorem lineageDecode_encode {table : DerivationArray} (hvalid : table.isValid = true)
    {capacity : Nat} (hcapacity : 3096 ≤ capacity) :
    ∃ bytes, table.lineageEncode capacity = some bytes ∧ lineageDecode bytes = some table := by
  unfold lineageEncode
  rw [if_neg (by rw [hvalid]; simpa using hcapacity)]
  refine ⟨_, rfl, ?_⟩
  have harray := table.ofLineage_append (objectCrc32c (lineageRecordsLayout.write table.records))
  have haccept := (capabilityLineageValidate_iff
    (lineageHeaderLayout.write ⟨capLineageMagic, 1, table.count,
      objectCrc32c (lineageRecordsLayout.write table.records), 0⟩ ++
        lineageRecordsLayout.write table.records)).mpr ⟨?_, ?_, harray.symm ▸ hvalid⟩
  · rw [lineageDecode, haccept, if_neg (by decide), harray]
  · rw [List.length_append, lineageHeaderLayout.length_write, lineageRecordsLayout.length_write]
    rfl
  · rw [harray, lineageHeaderLayout.read_append, drop_lineageHeader]

/-- **Accepted bytes are written back from their table.** -/
theorem lineageEncode_decode {bytes : List UInt8} (haccept : capabilityLineageValidate bytes = true)
    {capacity : Nat} (hcapacity : 3096 ≤ capacity) : lineageDecode bytes = some (ofLineage bytes) ∧
      (ofLineage bytes).lineageEncode capacity = some bytes := by
  refine ⟨by rw [lineageDecode, haccept, if_neg (by decide)], ?_⟩
  obtain ⟨hlength, hheader, hvalid⟩ := (capabilityLineageValidate_iff bytes).mp haccept
  have hrecords : lineageRecordsLayout.write (ofLineage bytes).records = bytes.drop 24 :=
    lineageRecordsLayout.write_read _ (by rw [List.length_drop, hlength]; rfl)
  have hhead : lineageHeaderLayout.write (lineageHeaderLayout.read bytes) = bytes.take 24 :=
    lineageHeaderLayout.write_read_take (by rw [hlength]; decide)
  rw [lineageEncode, if_neg (by rw [hvalid]; simpa using hcapacity)]
  dsimp only
  rw [hrecords, ← hheader, hhead, List.take_append_drop]

end DerivationArray

/-- **The two validators agree.**  `capability_lineage_validate` accepts exactly the buffers whose
length, magic, version, reserved word and check value are right and whose count and records form a
table that `capability_derivation_table_is_valid` accepts.  Every valid table is read back from its
bytes, and every accepted buffer is written back from its table. -/
theorem lineage_validators_agree : (∀ bytes : List UInt8, capabilityLineageValidate bytes = true ↔
      bytes.length = 3096 ∧ (lineageHeaderLayout.read bytes).magic = capLineageMagic ∧
        (lineageHeaderLayout.read bytes).version = 1 ∧
        (lineageHeaderLayout.read bytes).reserved = 0 ∧
        (lineageHeaderLayout.read bytes).crc = objectCrc32c (bytes.drop 24) ∧
        (DerivationArray.ofLineage bytes).isValid = true) ∧
    (∀ (table : DerivationArray) (capacity : Nat), table.isValid = true → 3096 ≤ capacity →
      ∃ bytes, table.lineageEncode capacity = some bytes ∧
        DerivationArray.lineageDecode bytes = some table) ∧
    ∀ (bytes : List UInt8) (capacity : Nat), capabilityLineageValidate bytes = true →
      3096 ≤ capacity → ∃ table, DerivationArray.lineageDecode bytes = some table ∧
        table.lineageEncode capacity = some bytes := by
  refine ⟨fun bytes => ?_, fun table capacity hvalid hcapacity =>
    DerivationArray.lineageDecode_encode hvalid hcapacity, fun bytes capacity haccept hcapacity =>
    ⟨_, DerivationArray.lineageEncode_decode haccept hcapacity⟩⟩
  rw [capabilityLineageValidate_iff, DerivationArray.ofLineage]
  generalize lineageHeaderLayout.read bytes = header
  obtain ⟨magic, version, count, crc, reserved⟩ := header
  rw [LineageHeader.mk.injEq]
  constructor
  · rintro ⟨hlength, ⟨hmagic, hversion, -, hcrc, hreserved⟩, hvalid⟩
    exact ⟨hlength, hmagic, hversion, hreserved, hcrc, hvalid⟩
  · rintro ⟨hlength, hmagic, hversion, hreserved, hcrc, hvalid⟩
    exact ⟨hlength, ⟨hmagic, hversion, rfl, hcrc, hreserved⟩, hvalid⟩

/-- The lineage of a capability that was derived from another one and derived from once more. -/
def chainedLineage : DerivationArray where
  records := setRecord (setRecord (fun _ => .zero) 0 ⟨⟨⟨2, 1⟩, 0, 1⟩, ⟨⟨2, 1⟩, 2, 1⟩⟩) 1
    ⟨⟨⟨2, 1⟩, 2, 1⟩, ⟨⟨3, 1⟩, 1, 1⟩⟩
  count := 2

theorem lineage_validators_agree_chained : ∃ bytes, chainedLineage.lineageEncode 3096 = some bytes ∧
    DerivationArray.lineageDecode bytes = some chainedLineage ∧
    capabilityLineageValidate bytes = true ∧
    ∃ table, DerivationArray.lineageDecode bytes = some table ∧
      table.lineageEncode 3096 = some bytes := by
  have hvalid : chainedLineage.isValid = true := by decide +kernel
  obtain ⟨bytes, hencode, hdecode⟩ :=
    lineage_validators_agree.2.1 chainedLineage 3096 hvalid (le_refl _)
  have haccept : capabilityLineageValidate bytes = true := by
    by_contra hrefused
    rw [DerivationArray.lineageDecode, if_pos (by simpa using hrefused)] at hdecode
    cases hdecode
  exact ⟨bytes, hencode, hdecode, haccept,
    lineage_validators_agree.2.2 bytes 3096 haccept (le_refl _)⟩

/-! ### The table of the records in use -/

namespace DerivationArray

theorem used_eq_take (table : DerivationArray) :
    table.used = (List.ofFn table.records).take table.count.toNat := by
  rw [used, indices, List.map_take, List.ofFn_eq_map]

end DerivationArray

theorem capabilityLineageDecode_ok {bytes : List UInt8} {table : CapabilityDerivationTable}
    (h : capabilityLineageDecode bytes = some table) : LineageOk table := by
  unfold capabilityLineageDecode at h
  split_ifs at h with haccept
  cases h
  rw [Bool.not_eq_true, Bool.not_eq_false', capabilityLineageValidate_iff] at haccept
  have hused : lineageTable bytes = (DerivationArray.ofLineage bytes).used :=
    (DerivationArray.used_eq_take (DerivationArray.ofLineage bytes)).symm
  rw [hused]
  exact ((DerivationArray.isValid_iff _).mp haccept.2.2).2.2

end Jani
