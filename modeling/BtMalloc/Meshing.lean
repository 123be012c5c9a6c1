import BtMalloc.Effect

/-!
# Which slabs are meshed, and what undoing a mesh would mean

`btm_compact` picks pairs of sparse slabs and hands them to `mesh_pair`. Here is what it picks, read
off the state in which `mesh_pair` is called, and what the state after a failed remap would have to
look like for the attempt to have been undone.
-/

namespace BtMalloc

open LinkedList

/-- The slots on the freelist of slab `r`. -/
def freeSlots (cfg : Config) (h : Heap) (r : SlabRef) : List ℕ :=
  walk (flNext cfg h.mem) listFuel (ptr (h.slabs r).freeHead)

/-- The slabs on the partial list of pool `q`. -/
def partialSlabs (h : Heap) (q : PoolId) : List SlabRef :=
  walk (fun r => (h.slabs r).next) listFuel (h.pools q).partialHead

/-- `btm_compact` picks `R` as recipient and `D` as donor: two candidates that occupy no index
    both. -/
structure MeshChosen (cfg : Config) (h : Heap) (q : PoolId) (R D : SlabRef) : Prop where
  recipient : (R, buildOcc cfg h R) ∈ meshCands cfg h q
  donor : (D, buildOcc cfg h D) ∈ meshCands cfg h q
  ne : R ≠ D
  disjoint : ∀ i < (h.slabs R).nslots, ¬ (buildOcc cfg h R i = true ∧ buildOcc cfg h D i = true)

/-- `mesh_pair` as `btm_compact` calls it. -/
def meshChosen (cfg : Config) (k : Kernel) (h : Heap) (q : PoolId) (R D : SlabRef) : ℕ × Heap :=
  meshPair cfg k h q R D (buildOcc cfg h R) (buildOcc cfg h D)

/-- Heap `h'` and the byte count `n` are those of a mesh that was undone: the donor is still on the
    partial list and not retired, no free slot was lost, the client's bytes are what they were and
    nothing was reclaimed. -/
structure MeshUndone (cfg : Config) (h : Heap) (L : Ledger) (q : PoolId) (R D : SlabRef) (n : ℕ)
    (h' : Heap) : Prop where
  listed : D ∈ partialSlabs h' q
  retired : (h'.slabs D).retired = false
  recipient : ∀ s ∈ freeSlots cfg h R, s ∈ freeSlots cfg h' R
  donor : ∀ s ∈ freeSlots cfg h D, s ∈ freeSlots cfg h' D
  bytes : ∀ a len, L.Client a len → ∀ i < len, h'.mem.read (a + i) = h.mem.read (a + i)
  count : n = 0

end BtMalloc
