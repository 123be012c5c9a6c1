import BtMalloc.Registry

/-!
# The flat owner table, and both engines side by side (`chunk.c`)

`BTM_OWNER_ENGINE` selects the table behind `btm_registry_lookup`. `Registry.lean` has what the heap does
with either; here are the calls of the flat engine on its array alone, as its branch of `chunk.c` has them,
and what a sequence of calls leaves in either table.
-/

namespace BtMalloc

namespace FlatTable

/-- `btm_chunk_init` of the flat engine; `ok` says whether the array could be mapped. -/
def btmChunkInit (ok : Bool) : FlatTable := if ok then some fun _ => 0 else none

/-- `btm_registry_lookup` of the flat engine. -/
def btmRegistryLookup (tbl : FlatTable) (ptr : ℕ) : ℕ :=
  let region := ptr >>> chunkShift
  match tbl with
  | none => 0
  | some a => if flatSize ≤ region then 0 else a region

/-- `btm_registry_insert` of the flat engine. -/
def btmRegistryInsert (tbl : FlatTable) (base len owner : ℕ) : FlatTable :=
  (regionKeys base len).foldl (flatSet owner) tbl

/-- `btm_registry_remove` of the flat engine. -/
def btmRegistryRemove (tbl : FlatTable) (base len : ℕ) : FlatTable :=
  (regionKeys base len).foldl (flatSet 0) tbl

end FlatTable

/-! ## Sequences of calls -/

/-- A call that changes the owner table. -/
inductive RegistryOp where
  | insert (base len owner : ℕ)
  | remove (base len : ℕ)
  deriving DecidableEq

namespace RegistryOp

def base : RegistryOp → ℕ
  | insert b _ _ | remove b _ => b

def len : RegistryOp → ℕ
  | insert _ n _ | remove _ n => n

/-- The word the call leaves in the regions of its range. -/
def owner : RegistryOp → ℕ
  | insert _ _ o => o
  | remove _ _ => 0

/-- The range of the call is in the user address space. -/
def InRange (op : RegistryOp) : Prop := 0 < op.len ∧ op.base + op.len ≤ 2 ^ 47

/-- A byte of the call's range is in region `key`. -/
def Covers (op : RegistryOp) (key : ℕ) : Prop :=
  op.base < (key + 1) * chunkSize ∧ key * chunkSize < op.base + op.len

instance (op : RegistryOp) (key : ℕ) : Decidable (op.Covers key) :=
  inferInstanceAs (Decidable (_ ∧ _))

/-- The call in the radix engine. -/
def radix (k : Kernel) (h : Heap) : RegistryOp → Heap
  | insert b n o => btmRegistryInsert k h b n o
  | remove b n => btmRegistryRemove k h b n

/-- The call in the flat engine. -/
def flat (tbl : FlatTable) : RegistryOp → FlatTable
  | insert b n o => tbl.btmRegistryInsert b n o
  | remove b n => tbl.btmRegistryRemove b n

end RegistryOp

/-- The owner that the calls give a region: that of the last call covering it, where a removal gives
    0, and 0 if there is none. -/
def lastOwner (ops : List RegistryOp) (key : ℕ) : ℕ :=
  ops.foldl (fun o op => if op.Covers key then op.owner else o) 0

end BtMalloc
