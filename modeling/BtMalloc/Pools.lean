import BtMalloc.PoolMachine
import BtMalloc.Meshing

/-!
# What a pool looks like between calls

The rules on the lists, counters and flags of one pool, read off the program's own state: which slabs
are carved, which list each of them is on, and how the chunks of the pool are divided into slabs.
-/

namespace BtMalloc

open LinkedList

/-- The chunks of pool `q`. -/
def chunkList (h : Heap) (q : PoolId) : List ℕ :=
  walk (fun c => (h.chunks c).next) listFuel (h.pools q).chunks

/-- Slab `r` was carved for pool `q`: the page table of one of the pool's chunks has it as an owner. -/
structure Carved (h : Heap) (q : PoolId) (r : SlabRef) : Prop where
  chunk : r.chunk ∈ chunkList h q
  page_ge : dataStartPage ≤ r.page
  page_lt : r.page < (h.chunks r.chunk).nextFreePage
  owner : (h.chunks r.chunk).pageOwner r.page = r.page

instance (h : Heap) (q : PoolId) (r : SlabRef) : Decidable (Carved h q r) :=
  decidable_of_iff (r.chunk ∈ chunkList h q ∧ dataStartPage ≤ r.page ∧
      r.page < (h.chunks r.chunk).nextFreePage ∧ (h.chunks r.chunk).pageOwner r.page = r.page)
    ⟨fun h => ⟨h.1, h.2.1, h.2.2.1, h.2.2.2⟩, fun h => ⟨h.chunk, h.page_ge, h.page_lt, h.owner⟩⟩

/-- A pool without a slab or a chunk. -/
structure Pool.Bare (P : Pool) : Prop where
  partialHead : P.partialHead = none
  emptyWarm : P.emptyWarm = none
  emptyCold : P.emptyCold = none
  chunks : P.chunks = none
  active : P.active = none

/-- Pool `q` as it should be between calls. -/
structure PoolInv (h : Heap) (q : PoolId) : Prop where
  /-- The partial list is doubly linked, without duplicates, and has the slabs that are neither full
      nor empty. -/
  partials : ∃ l, DList (fun r => (h.slabs r).next) (fun r => (h.slabs r).prev) none
      (h.pools q).partialHead l ∧
    Listing l fun r => Carved h q r ∧ 0 < (h.slabs r).freeCount ∧
      (h.slabs r).freeCount < (h.slabs r).nslots
  inPartial : ∀ {r}, Carved h q r → ((h.slabs r).inPartial = true ↔
    0 < (h.slabs r).freeCount ∧ (h.slabs r).freeCount < (h.slabs r).nslots)
  /-- The empty slabs are on the warm or on the cold list, the decommitted ones on the cold list. -/
  warm : ∃ l, Chain (fun r => (h.slabs r).next) (h.pools q).emptyWarm l ∧
    (Listing l fun r => Carved h q r ∧ (h.slabs r).freeCount = (h.slabs r).nslots ∧
      (h.slabs r).decommitted = false) ∧ (h.pools q).warmCount = l.length
  cold : ∃ l, Chain (fun r => (h.slabs r).next) (h.pools q).emptyCold l ∧
    Listing l fun r => Carved h q r ∧ (h.slabs r).freeCount = (h.slabs r).nslots ∧
      (h.slabs r).decommitted = true
  decommitted : ∀ {r}, Carved h q r → (h.slabs r).decommitted = true →
    (h.slabs r).freeCount = (h.slabs r).nslots
  warmCount : (h.pools q).warmCount ≤ keepWarmEmpty
  /-- A chunk counts its slabs that are not empty, and has one. -/
  live : ∀ {c}, c ∈ chunkList h q → ∃ l, (Listing l fun r => Carved h q r ∧ r.chunk = c ∧
      (h.slabs r).freeCount ≠ (h.slabs r).nslots) ∧ (h.chunks c).liveSlabs = l.length ∧
    0 < (h.chunks c).liveSlabs
  chunks : DList (fun c => (h.chunks c).next) (fun c => (h.chunks c).prev) none (h.pools q).chunks
    (chunkList h q)
  chunks_nodup : (chunkList h q).Nodup
  active : ∀ {c}, (h.pools q).active = some c → c ∈ chunkList h q
  /-- The slabs of a chunk tile its pages from the first data page on. -/
  top : ∀ {c}, c ∈ chunkList h q → dataStartPage ≤ (h.chunks c).nextFreePage ∧
    (h.chunks c).nextFreePage ≤ pagesPerChunk
  tiles : ∀ {c p}, c ∈ chunkList h q → dataStartPage ≤ p → p < (h.chunks c).nextFreePage →
    ∃ r, Carved h q r ∧ r.chunk = c ∧ (h.chunks c).pageOwner p = r.page ∧ r.page ≤ p ∧
      p < r.page + (h.slabs r).npages
  fits : ∀ {r j}, Carved h q r → j < (h.slabs r).npages →
    r.page + j < (h.chunks r.chunk).nextFreePage ∧ (h.chunks r.chunk).pageOwner (r.page + j) = r.page
  /-- Every address of a slot leads to its slab. -/
  slabOf : ∀ {r i b}, Carved h q r → i < (h.slabs r).nslots → b < btmScToSize q.sc →
    let p := btmSlabData h r + i * btmScToSize q.sc + b
    chunkOf p = r.chunk ∧ btmSlabOf h (chunkOf p) p = r

end BtMalloc
