import BtMalloc.Partition

/-!
# Cold-data tiering (`btm_pageout_cold`)

The walk over all carved slabs that hands the data pages of full and idle slabs to
`madvise(MADV_PAGEOUT)`. The kernel may evict those pages at leisure, and they fault back in with their
contents, so memory does not change; what matters is which ranges are passed on.
-/

namespace BtMalloc

open Word LinkedList

/-- The walk so far: `total`, the ranges passed to `madvise` (oldest first) and the heap. -/
structure Pageout where
  total : ℕ
  hints : List (ℕ × ℕ)
  heap : Heap

/-- The heap with other evicted flags and another epoch. -/
def Heap.repage (h : Heap) (f : SlabRef → Bool) (e : ℕ) : Heap :=
  { h with slabs := fun x => { h.slabs x with pagedOut := f x }, tierEpoch := e }

/-- `np` of the innermost loop: the pages of the slab at hand. -/
def pageoutStride (h : Heap) (r : SlabRef) : ℕ :=
  if (h.slabs r).npages = 0 then 1 else (h.slabs r).npages

/-- The test of the innermost loop: full, in use, not evicted yet and idle since before epoch `g`. -/
def pageoutCold (g : ℕ) (x : Slab) : Bool :=
  x.freeCount == 0 && !x.retired && !x.pagedOut && x.epoch.blt g

/-- The body of the innermost loop. -/
def pageoutSlab (g : ℕ) (r : SlabRef) (st : Pageout) : Pageout :=
  if pageoutCold g (st.heap.slabs r) then
    let len := pageoutStride st.heap r * pageSize
    { total := (st.total + len) % 2 ^ 64
      hints := st.hints ++ [(btmSlabData st.heap r, len)]
      heap := st.heap.modSlab r fun x => { x with pagedOut := true } }
  else st

/-- The loop over the slabs of chunk `c` from `page` on. It moves on by at least one page each time,
    which bounds it. -/
def pageoutChunk (g c : ℕ) : ℕ → ℕ → Pageout → Pageout
  | 0, _, st => st
  | n + 1, page, st =>
    if page < (st.heap.chunks c).nextFreePage then
      pageoutChunk g c n (page + pageoutStride st.heap ⟨c, page⟩) (pageoutSlab g ⟨c, page⟩ st)
    else st

/-- The loop over the chunks of pool `q`. -/
def pageoutPool (g : ℕ) (st : Pageout) (q : PoolId) : Pageout :=
  (walk (fun c => (st.heap.chunks c).next) listFuel (st.heap.pools q).chunks).foldl
    (fun st c => pageoutChunk g c (st.heap.chunks c).nextFreePage dataStartPage st) st

/-- `btm_pageout_cold`. -/
def btmPageoutCold (cfg : Config) (h : Heap) : Pageout :=
  let st := cfg.poolIds.foldl (pageoutPool h.tierEpoch) ⟨0, [], h⟩
  { st with heap := { st.heap with tierEpoch := (st.heap.tierEpoch + 1) % 2 ^ 32 } }

end BtMalloc
