import Jani.Obj.Equiv.Logical
import Jani.Obj.Equiv.Plan

/-!
# Stored objects

An object is written as its header and its payload, cut into sectors, the last one padded with
zeros.  Reading the sectors back gives the same bytes with the padding behind them
(`objectBytesOn_eq`, `flatMap_objectSectors`); they pass `object_header_validate`
(`objectHeaderValidate_putBytes`) and show the header and the payload that were written
(`objectViewOf_putBytes`).
-/

namespace Jani

/-! ### The bytes of a put -/

section PutBytes

variable (request : ObjectStorePutRequest) (version : UInt64) (pad : List UInt8)

theorem ofBytes_putBytes_append :
    ObjectHeader.ofBytes (putBytes request version ++ pad) = putHeader request version := by
  rw [putBytes, List.append_assoc]
  exact ObjectHeader.ofBytes_bytes_append _ _

theorem drop_putBytes_append :
    (putBytes request version ++ pad).drop objectHeaderSize = request.payload ++ pad := by
  rw [putBytes, List.append_assoc, List.drop_left' (ObjectHeader.length_bytes _)]

variable {request version}

/-- **Well-formed objects**: what a put writes is accepted by `object_header_validate`. -/
theorem objectHeaderValidate_putBytes (hid : request.id ≠ ⟨0, 0⟩)
    (htype : request.typeId ≠ ⟨0, 0⟩) (hversion : version ≠ 0)
    (hsize : request.payload.length < 2 ^ 64) :
    objectHeaderValidate (putBytes request version ++ pad) = true := by
  have hof := ofBytes_putBytes_append request version pad
  have hlen : (putBytes request version ++ pad).length =
      objectHeaderSize + request.payload.length + pad.length := by
    rw [List.length_append, length_putBytes]
  have hdrop := drop_putBytes_append request version pad
  generalize putBytes request version ++ pad = bytes at hof hlen hdrop ⊢
  have hmagic : u64At bytes 0 = objectHeaderMagic := congrArg ObjectHeader.magic hof
  have hformat : u32At bytes 8 = objectHeaderFormatVersion :=
    congrArg ObjectHeader.formatVersion hof
  have hids : idAt bytes 16 = request.id := congrArg ObjectHeader.id hof
  have htypes : idAt bytes 32 = request.typeId := congrArg ObjectHeader.typeId hof
  have hversions : u64At bytes 48 = version := congrArg ObjectHeader.version hof
  have hpayload : u64At bytes 56 = UInt64.ofNat request.payload.length :=
    congrArg ObjectHeader.payloadSize hof
  have hcrc : u32At bytes 64 = objectCrc32c request.payload :=
    congrArg ObjectHeader.payloadCrc32c hof
  have hflags : u32At bytes 68 = 0 := congrArg ObjectHeader.flags hof
  have hpadding : u64At bytes 112 = 0 := congrArg ObjectHeader.padding hof
  have hreserved : u64At bytes 120 = 0 := congrArg ObjectHeader.reserved hof
  have hnat : (UInt64.ofNat request.payload.length).toNat = request.payload.length :=
    UInt64.toNat_ofNat_of_lt' hsize
  unfold objectHeaderValidate
  rw [hmagic, hformat, hids, htypes, hversions, hpayload, hcrc, hflags, hpadding, hreserved, hdrop,
    hnat, hlen]
  dsimp only
  rw [List.take_left' rfl]
  simp [hversion, objectIdIsZero_iff, hid, htype]
  omega

theorem objectViewOf_putBytes (hsize : request.payload.length < 2 ^ 64) :
    objectViewOf (putBytes request version ++ pad) =
      ⟨putHeader request version, request.payload, UInt64.ofNat request.payload.length⟩ := by
  have hnat : (UInt64.ofNat request.payload.length).toNat = request.payload.length :=
    UInt64.toNat_ofNat_of_lt' hsize
  unfold objectViewOf
  dsimp only
  rw [ofBytes_putBytes_append, drop_putBytes_append]
  change (⟨putHeader request version, List.take (UInt64.ofNat request.payload.length).toNat _, _⟩ :
    ObjectView) = _
  rw [hnat, List.take_left' rfl]
  rfl

end PutBytes

/-! ### Sectors -/

/-- Cutting bytes into sectors only pads them with zeros. -/
theorem flatMap_sectors : ∀ (n : Nat) (bytes : List UInt8), bytes.length ≤ 512 * n →
    ((List.range n).map fun i =>
      Block.ofBytes objectStoreSectorSize (bytes.drop (512 * i))).flatMap (·.bytes) =
        bytes ++ List.replicate (512 * n - bytes.length) 0
  | 0, bytes, h => by
    have : bytes = [] := List.eq_nil_of_length_eq_zero (by omega)
    simp [this]
  | n + 1, bytes, h => by
    have ih := flatMap_sectors n (bytes.drop 512) (by rw [List.length_drop]; omega)
    have hshift : ∀ i, bytes.drop (512 * (i + 1)) = (bytes.drop 512).drop (512 * i) := by
      intro i
      rw [List.drop_drop]
      congr 1
      omega
    rw [List.range_succ_eq_map, List.map_cons, List.flatMap_cons, List.map_map]
    simp only [Function.comp_def, Nat.succ_eq_add_one, hshift]
    rw [ih, Nat.mul_zero, List.drop_zero, List.length_drop]
    rcases Nat.lt_or_ge bytes.length 512 with hlt | hge
    · -- the object ends in this sector
      rw [Block.bytes_ofBytes (by change _ ≤ 512; omega), List.drop_eq_nil_of_le (by omega)]
      rw [List.nil_append, List.append_assoc, List.replicate_append_replicate]
      have hcount : objectStoreSectorSize - bytes.length + (512 * n - (bytes.length - 512)) =
          512 * (n + 1) - bytes.length := by
        rw [objectStoreSectorSize]
        omega
      rw [hcount]
    · -- the sector is full
      have hfull : (Block.ofBytes objectStoreSectorSize bytes).bytes = bytes.take 512 := by
        change (bytes ++ _).take 512 = _
        rw [List.take_append_of_le_length hge]
      have hcount : 512 * n - (bytes.length - 512) = 512 * (n + 1) - bytes.length := by omega
      rw [hfull, ← List.append_assoc, List.take_append_drop, hcount]

theorem flatMap_objectSectors (bytes : List UInt8) :
    ∃ pad, (objectSectors bytes).flatMap (·.bytes) = bytes ++ pad :=
  ⟨_, flatMap_sectors _ bytes (by omega)⟩

theorem objectBytesOn_eq {io : ObjectStoreIo} {V : Content} : ∀ (count : Nat) (sector : UInt64),
    sector.toNat + count ≤ io.sectorCount.toNat →
      objectBytesOn io V count sector =
        some (((List.range count).map fun i => V (sector.toNat + i)).flatMap (·.bytes))
  | 0, _, _ => rfl
  | count + 1, sector, h => by
    have hlt : sector < io.sectorCount := UInt64.lt_iff_toNat_lt.mpr (by omega)
    have hnext := toNat_succ_of_lt hlt
    rw [objectBytesOn, sectorOn_of_lt hlt]
    dsimp only
    rw [objectBytesOn_eq count (sector + 1) (by omega), Option.map_some, hnext,
      List.range_succ_eq_map, List.map_cons, List.flatMap_cons, List.map_map]
    simp only [Function.comp_def, Nat.add_zero, Nat.succ_eq_add_one]
    congr 4
    funext i
    congr 1
    omega

end Jani
