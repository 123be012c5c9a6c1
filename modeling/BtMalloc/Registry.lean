import BtMalloc.State

/-!
# Owner table (`chunk.c`)

The table that maps a 2 MiB region to the word naming its owner: the base of a chunk, the base of a large
object with bit 0 set, or 0. A build has a two-level radix table, whose leaf arrays are mapped when they
are first written, or one flat array, which is mapped at start-up.
-/

namespace BtMalloc

/-- `BTM_CHUNK_SHIFT`. -/
def chunkShift : ℕ := 21

/-- `radix_i1`. -/
def radixI1 (key : ℕ) : ℕ := (key >>> 13) % 2 ^ 32 &&& (2 ^ 14 - 1)

/-- `radix_i2`. -/
def radixI2 (key : ℕ) : ℕ := key % 2 ^ 32 &&& (2 ^ 13 - 1)

/-- The owner word of a region in the radix table. -/
def radixAt (l1 : ℕ → Option (ℕ → ℕ)) (key : ℕ) : ℕ :=
  match l1 (radixI1 key) with
  | none => 0
  | some leaf => leaf (radixI2 key)

/-- `BTM_FLAT_SIZE`. -/
def flatSize : ℕ := 2 ^ (47 - chunkShift)

/-- `flat_set`. -/
def FlatTable.flatSet (owner : ℕ) (tbl : FlatTable) (region : ℕ) : FlatTable :=
  match tbl with
  | none => none
  | some a => if flatSize ≤ region then some a else some (Function.update a region owner)

/-- The owner word of a region in either table. -/
def ownerAt : OwnerTable → ℕ → ℕ
  | .radix l1, key => radixAt l1 key
  | .flat none, _ => 0
  | .flat (some a), key => if flatSize ≤ key then 0 else a key

/-- The threads of a build with this table have region caches. -/
def OwnerTable.cached : OwnerTable → Bool
  | .radix _ => true
  | .flat _ => false

/-- `btm_registry_lookup`. -/
def btmRegistryLookup (h : Heap) (ptr : ℕ) : ℕ := ownerAt h.owners (ptr >>> chunkShift)

/-- The store of `registry_set_locked`: if the leaf array cannot be mapped, it is dropped. -/
def radixSet (k : Kernel) (owner : ℕ) (l1 : ℕ → Option (ℕ → ℕ)) (key : ℕ) : ℕ → Option (ℕ → ℕ) :=
  let set (leaf : ℕ → ℕ) : ℕ → Option (ℕ → ℕ) :=
    Function.update l1 (radixI1 key) (some (Function.update leaf (radixI2 key) owner))
  match l1 (radixI1 key) with
  | some leaf => set leaf
  | none => if k.leaf (radixI1 key) then set fun _ => 0 else l1

/-- `registry_set_locked`, and `flat_set` in the flat engine. -/
def registrySetLocked (k : Kernel) (owner : ℕ) (h : Heap) (key : ℕ) : Heap :=
  match h.owners with
  | .radix l1 => { h with owners := .radix (radixSet k owner l1 key) }
  | .flat tbl => { h with owners := .flat (tbl.flatSet owner key) }

/-- A store to the table for region `key` is kept: the leaf array is mapped or can be mapped, or the flat
    array is there. -/
def LeafReady (k : Kernel) (T : OwnerTable) (key : ℕ) : Prop :=
  match T with
  | .radix l1 => l1 (radixI1 key) ≠ none ∨ k.leaf (radixI1 key) = true
  | .flat tbl => tbl ≠ none ∧ key < flatSize

instance (k : Kernel) (T : OwnerTable) (key : ℕ) : Decidable (LeafReady k T key) :=
  match T with
  | .radix _ => inferInstanceAs (Decidable (_ ∨ _))
  | .flat _ => inferInstanceAs (Decidable (_ ∧ _))

/-- The array of the flat engine could be mapped at start-up. -/
def OwnerTable.Mapped : OwnerTable → Prop
  | .radix _ => True
  | .flat tbl => tbl ≠ none

/-- The region keys `first .. last` of the `len` bytes at `base`; `base + len - 1` is a machine
    addition. -/
def regionKeys (base len : ℕ) : List ℕ :=
  let first := base >>> chunkShift
  let last := ((base + len + 2 ^ 64 - 1) % 2 ^ 64) >>> chunkShift
  List.range' first (last + 1 - first)

/-- `btm_registry_insert`. -/
def btmRegistryInsert (k : Kernel) (h : Heap) (base len owner : ℕ) : Heap :=
  (regionKeys base len).foldl (registrySetLocked k owner) h

/-- `btm_registry_remove`: clear the regions, then bump the generation. -/
def btmRegistryRemove (k : Kernel) (h : Heap) (base len : ℕ) : Heap :=
  let h := (regionKeys base len).foldl (registrySetLocked k 0) h
  { h with registryGen := h.registryGen + 1 }

end BtMalloc
