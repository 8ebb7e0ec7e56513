import Jani.Lib.PaddedArray
import Jani.Net.Replica

/-!
# Catalogs with their arrays (`replica_validate.zig`)

The codec of a catalog on the structure it works on: an array of eight scopes, of which `count` are
in use and the rest is zero.  In `Net.Replica` a catalog is the list of the scopes in use.
-/

namespace Jani

structure CatalogArray where
  count : UInt32
  reserved : UInt32
  scopes : FixedArray ReplicaScope replicaObjectsMax
deriving DecidableEq

namespace CatalogArray

def valid (c : CatalogArray) : Bool :=
  if c.count > 8 ∨ c.reserved ≠ 0 then false
  else if !scopesValid [] (c.scopes.entries.take c.count.toNat) then false
  else if ∃ s ∈ c.scopes.entries.drop c.count.toNat, s ≠ zeroScope then false
  else true

def encode (localKey peerKey : Block 32) (c : CatalogArray) : Option (List UInt8) :=
  if !c.valid ∨ localKey = peerKey then none
  else some (replicaCatalogMagic ++ [1, 0, 0, 0] ++ localKey.bytes ++ peerKey.bytes ++
    le32 c.count ++ le32 0 ++ c.scopes.entries.flatMap ReplicaScope.bytes)

def decode (bytes : List UInt8) (localKey peerKey : Block 32) : Option CatalogArray :=
  if bytes.length ≠ replicaCatalogBytes then none
  else if bytes.take 4 ≠ replicaCatalogMagic ∨ bytes.getD 4 0 ≠ 1 ∨
      (bytes.drop 8).take 32 ≠ localKey.bytes ∨ (bytes.drop 40).take 32 ≠ peerKey.bytes then none
  else if (bytes.drop 5).take 3 ≠ [0, 0, 0] then none
  else
    let c : CatalogArray :=
      { count := u32At bytes 72
        reserved := u32At bytes 76
        scopes := ⟨(List.range replicaObjectsMax).map fun i =>
            ReplicaScope.ofBytes (bytes.drop (80 + 40 * i)), by
          rw [List.length_map, List.length_range]⟩ }
    if c.valid then some c else none

/-- `catalog.scopes[catalog.count++] = scope` -/
def push (c : CatalogArray) (scope : ReplicaScope) : CatalogArray :=
  { c with
    count := c.count + 1
    scopes := ⟨c.scopes.entries.set c.count.toNat scope, by
      rw [List.length_set, c.scopes.length_entries]⟩ }

end CatalogArray

end Jani
