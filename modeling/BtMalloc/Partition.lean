import BtMalloc.Background

/-!
# Slab pools (`partition.c`)

Per-(partition, size class) pools: the partial list, carving and recycling slabs, reclaim, refill and
flush of thread-cache bins, and mesh compaction.
-/

namespace BtMalloc

open Word LinkedList

/-- `BTM_KEEP_WARM_EMPTY`. -/
def keepWarmEmpty : ℕ := 2

/-- More links than any list of descriptors or slots in a 64-bit address space can have. -/
def listFuel : ℕ := 2 ^ 64

/-- `slab_touch`. -/
def slabTouch (h : Heap) (r : SlabRef) : Heap :=
  h.modSlab r fun x => { x with epoch := h.tierEpoch, pagedOut := false }

/-- `slab_decommit`. -/
def slabDecommit (cfg : Config) (h : Heap) (r : SlabRef) : Heap :=
  if (h.slabs r).decommitted then h
  else
    let off := (h.chunks r.chunk).memfdOff + (h.slabs r).firstPage * pageSize
    let h := btmReleasePages cfg h (btmSlabData h r) off ((h.slabs r).npages * pageSize)
    h.modSlab r fun x => { x with decommitted := true }

/-! ## The partial list -/

/-- `partial_push`. -/
def partialPush (h : Heap) (q : PoolId) (r : SlabRef) : Heap :=
  let head := (h.pools q).partialHead
  let h := h.modSlab r fun x => { x with prev := none, next := head }
  let h := match head with
    | some b => h.modSlab b fun x => { x with prev := some r }
    | none => h
  let h := h.modPool q fun P => { P with partialHead := some r }
  h.modSlab r fun x => { x with inPartial := true }

/-- `partial_remove`. -/
def partialRemove (h : Heap) (q : PoolId) (r : SlabRef) : Heap :=
  let next := (h.slabs r).next
  let prev := (h.slabs r).prev
  let h := match prev with
    | some b => h.modSlab b fun x => { x with next := next }
    | none => h.modPool q fun P => { P with partialHead := next }
  let h := match next with
    | some b => h.modSlab b fun x => { x with prev := prev }
    | none => h
  h.modSlab r fun x => { x with next := none, prev := none, inPartial := false }

/-! ## Formatting, recycling and carving -/

/-- The loop of `slab_format`: link slots `i - 1, ..., 0` in front of `next`. Returns the head. -/
def slabFormatLoop (cfg : Config) (data slot : ℕ) : ℕ → ℕ → Heap → ℕ × Heap
  | 0, next, h => (next, h)
  | i + 1, next, h =>
    let s := data + i * slot
    slabFormatLoop cfg data slot i s (btmFlSet cfg h s next)

/-- `slab_format`, for a descriptor whose `first_page` and `npages` are set. -/
def slabFormat (cfg : Config) (h : Heap) (r : SlabRef) (q : PoolId) : Heap :=
  let slot := btmScToSize q.sc
  let h := h.modSlab r fun x =>
    { x with
      partIdx := q.part, sc := q.sc, next := none, prev := none, inPartial := false,
      retired := false, decommitted := false, pagedOut := false, epoch := h.tierEpoch }
  let nslots := (h.slabs r).npages * pageSize / slot
  let h := h.modSlab r fun x => { x with nslots := nslots, freeCount := nslots }
  let (head, h) := slabFormatLoop cfg (btmSlabData h r) slot nslots 0 h
  h.modSlab r fun x => { x with freeHead := head }

/-- The recycled slab of `btm_slab_new`: an empty one, warm before cold. -/
def takeEmpty (h : Heap) (q : PoolId) : Option SlabRef × Heap :=
  let P := h.pools q
  match P.emptyWarm with
  | some r =>
    (some r, h.modPool q fun P =>
      { P with emptyWarm := (h.slabs r).next, warmCount := decr 32 P.warmCount })
  | none =>
    match P.emptyCold with
    | some r => (some r, h.modPool q fun P => { P with emptyCold := (h.slabs r).next })
    | none => (none, h)

/-- The pool takes a new chunk for carving. -/
def attachChunk (h : Heap) (q : PoolId) (c : ℕ) : Heap :=
  let head := (h.pools q).chunks
  let h := h.modChunk c fun x =>
    { x with sc := q.sc, partIdx := q.part, next := head, prev := none }
  let h := match head with
    | some b => h.modChunk b fun x => { x with prev := some c }
    | none => h
  h.modPool q fun P => { P with chunks := some c, active := some c }

/-- The active chunk exists and has room for `npages` more pages. -/
def activeRoom (h : Heap) (q : PoolId) (npages : ℕ) : Option ℕ :=
  (h.pools q).active.filter fun c => (h.chunks c).nextFreePage + npages ≤ pagesPerChunk

/-- Carve the next `npages` pages of chunk `c` into a slab. -/
def carve (cfg : Config) (h : Heap) (q : PoolId) (c : ℕ) (npages : ℕ) : SlabRef × Heap :=
  let page := (h.chunks c).nextFreePage
  let h := h.modChunk c fun x =>
    { x with
      nextFreePage := page + npages
      pageOwner := fun p => if page ≤ p ∧ p < page + npages then page else x.pageOwner p
      liveSlabs := x.liveSlabs + 1 }
  let r : SlabRef := ⟨c, page⟩
  let h := h.modSlab r fun x => { x with firstPage := page, npages := npages }
  (r, slabFormat cfg h r q)

/-- `btm_slab_new`. -/
def btmSlabNew (cfg : Config) (k : Kernel) (h : Heap) (q : PoolId) : Option SlabRef × Heap :=
  match takeEmpty h q with
  | (some r, h) =>
    let h := slabFormat cfg h r q
    (some r, h.modChunk r.chunk fun x => { x with liveSlabs := x.liveSlabs + 1 })
  | (none, h) =>
    let npages := btmScRunPages q.sc
    match activeRoom h q npages with
    | some c =>
      let (r, h) := carve cfg h q c npages
      (some r, h)
    | none =>
      match btmChunkObtain cfg k h q with
      | (none, h) => (none, h)
      | (some c, h) =>
        let (r, h) := carve cfg (attachChunk h q c) q c npages
        (some r, h)

/-! ## Reclaim -/

/-- `chunk_unlink`. -/
def chunkUnlink (h : Heap) (q : PoolId) (c : ℕ) : Heap :=
  let next := (h.chunks c).next
  let prev := (h.chunks c).prev
  let h := match prev with
    | some b => h.modChunk b fun x => { x with next := next }
    | none => h.modPool q fun P => { P with chunks := next }
  let h := match next with
    | some b => h.modChunk b fun x => { x with prev := prev }
    | none => h
  h.modChunk c fun x => { x with next := none, prev := none }

/-- Store the `next` links of an in-place filter back into the descriptors. -/
def withNext (h : Heap) (next : SlabRef → Option SlabRef) : Heap :=
  { h with slabs := fun r => { h.slabs r with next := next r } }

/-- `purge_empties_of_chunk`: both loops walk their list with a pointer to the current link. -/
def purgeEmptiesOfChunk (h : Heap) (q : PoolId) (c : ℕ) : Heap :=
  let inChunk (r : SlabRef) : Bool := r.chunk == c
  let w := unlinkWhere inChunk listFuel none ⟨(h.pools q).emptyWarm, fun r => (h.slabs r).next⟩
  let h := (withNext h w.1.next).modPool q fun P =>
    { P with emptyWarm := w.1.head, warmCount := subWrap 32 P.warmCount w.2 }
  let d := unlinkWhere inChunk listFuel none ⟨(h.pools q).emptyCold, fun r => (h.slabs r).next⟩
  (withNext h d.1.next).modPool q fun P => { P with emptyCold := d.1.head }

/-- Keep an empty slab with its pages. -/
def emptyWarmPush (h : Heap) (q : PoolId) (r : SlabRef) : Heap :=
  let h := h.modSlab r fun x => { x with next := (h.pools q).emptyWarm }
  h.modPool q fun P => { P with emptyWarm := some r, warmCount := P.warmCount + 1 }

/-- Keep an empty slab without its pages. -/
def emptyColdPush (cfg : Config) (h : Heap) (q : PoolId) (r : SlabRef) : Heap :=
  let h := slabDecommit cfg h r
  let h := h.modSlab r fun x => { x with next := (h.pools q).emptyCold }
  h.modPool q fun P => { P with emptyCold := some r }

/-- Give a chunk up that has no slab in use. -/
def chunkGiveUp (cfg : Config) (k : Kernel) (h : Heap) (q : PoolId) (c : ℕ) : Heap :=
  let h := purgeEmptiesOfChunk h q c
  let h := if (h.pools q).active = some c then h.modPool q fun P => { P with active := none } else h
  let h := chunkUnlink h q c
  btmChunkDispose cfg k h c

/-- `slab_became_free`. -/
def slabBecameFree (cfg : Config) (k : Kernel) (h : Heap) (q : PoolId) (r : SlabRef) : Heap :=
  let h := partialRemove h q r
  let h := h.modChunk r.chunk fun x => { x with liveSlabs := decr 32 x.liveSlabs }
  if (h.chunks r.chunk).liveSlabs = 0 then chunkGiveUp cfg k h q r.chunk
  else if (h.pools q).warmCount < keepWarmEmpty then emptyWarmPush h q r
  else emptyColdPush cfg h q r

/-! ## Refill and flush -/

/-- The locked loop of `btm_pool_refill`: move up to `want` slots from the slab's freelist to the
    list at `local`. Returns that list's head and the number of slots moved. -/
def refillLoop (cfg : Config) (r : SlabRef) : ℕ → ℕ → ℕ → Heap → ℕ × ℕ × Heap
  | 0, loc, n, h => (loc, n, h)
  | want + 1, loc, n, h =>
    let s := (h.slabs r).freeHead
    if s = 0 then (loc, n, h)
    else
      let next := btmFlGet cfg h s
      let h := (h.note (.get s)).modSlab r fun x => { x with freeHead := next }
      refillLoop cfg r want s (n + 1) (btmFlSet cfg h s loc)

/-- The unlocked walk of `btm_pool_refill` to the last slot of its list. -/
def refillTail (cfg : Config) : ℕ → ℕ → Heap → ℕ × Heap
  | 0, tail, h => (tail, h)
  | i + 1, tail, h => refillTail cfg i (btmFlGet cfg h tail) (h.note (.get tail))

/-- The slab `btm_pool_refill` takes slots from: the head of the partial list, or a new slab. -/
def refillSlab (cfg : Config) (k : Kernel) (h : Heap) (q : PoolId) : Option SlabRef × Heap :=
  match (h.pools q).partialHead with
  | some r => (some r, h)
  | none =>
    match btmSlabNew cfg k h q with
    | (none, h) => (none, h)
    | (some r, h) => (some r, partialPush h q r)

/-- `btm_pool_refill`: returns one slot (0 for `NULL`), the bin with the other slots moved, and the
    heap. -/
def btmPoolRefill (cfg : Config) (k : Kernel) (h : Heap) (q : PoolId) (bin : Bin) (want : ℕ) :
    ℕ × Bin × Heap :=
  match refillSlab cfg k h q with
  | (none, h) => (0, bin, h)
  | (some r, h) =>
    let (loc, n, h) := refillLoop cfg r want 0 0 h
    let h := h.modSlab r fun x => { x with freeCount := subWrap 32 x.freeCount n }
    let h := h.modPool q fun P => { P with outstanding := P.outstanding + n }
    let h := slabTouch h r
    let h := if (h.slabs r).freeCount = 0 then partialRemove h q r else h
    if n = 0 then (0, bin, h)
    else
      let p := loc
      let loc := btmFlGet cfg h p
      let h := h.note (.get p)
      if n - 1 = 0 then (p, bin, h)
      else
        let (tail, h) := refillTail cfg (n - 1 - 1) loc h
        let h := btmFlSet cfg h tail bin.freeHead
        (p, { bin with freeHead := loc, count := bin.count + (n - 1) }, h)

/-- Push a slot on its slab's freelist. -/
def slabPush (cfg : Config) (h : Heap) (r : SlabRef) (s : ℕ) : Heap :=
  let h := btmFlSet cfg h s (h.slabs r).freeHead
  let h := h.modSlab r fun x => { x with freeHead := s, freeCount := x.freeCount + 1 }
  slabTouch h r

/-- What `btm_pool_flush` and `btm_pool_free_one` do alike: push a slot on its slab's freelist, then
    reclaim the slab if it became fully free, or list it as partial. A retired slab stays inert. -/
def slabPut (cfg : Config) (k : Kernel) (h : Heap) (q : PoolId) (r : SlabRef) (s : ℕ) : Heap :=
  let h := slabPush cfg h r s
  if (h.slabs r).retired then h
  else if (h.slabs r).freeCount = (h.slabs r).nslots then slabBecameFree cfg k h q r
  else if !(h.slabs r).inPartial then partialPush h q r
  else h

/-- One iteration of the loop of `btm_pool_flush`, for a bin whose pool is `q`. -/
def flushOne (cfg : Config) (k : Kernel) (q : PoolId) (bin : Bin) (h : Heap) : Bin × Heap :=
  let s := bin.freeHead
  let bin := { bin with freeHead := btmFlGet cfg h s, count := decr 32 bin.count }
  let h := h.note (.get s)
  let h := h.modPool q fun P => { P with outstanding := decr 64 P.outstanding }
  (bin, slabPut cfg k h q (btmSlabOf h (chunkOf s) s) s)

/-- The loop of `btm_pool_flush`, with the number of iterations still allowed. -/
def flushLoop (cfg : Config) (k : Kernel) (q : PoolId) (keep : ℕ) : ℕ → Bin → Heap → Bin × Heap
  | 0, bin, h => (bin, h)
  | n + 1, bin, h =>
    if bin.count ≤ keep then (bin, h)
    else
      let (bin, h) := flushOne cfg k q bin h
      flushLoop cfg k q keep n bin h

/-- `btm_pool_flush`. Each iteration takes one off `bin->count`, which bounds the loop. -/
def btmPoolFlush (cfg : Config) (k : Kernel) (h : Heap) (bin : Bin) (keep : ℕ) : Bin × Heap :=
  match bin.pool with
  | none => (bin, h)
  | some q => flushLoop cfg k q keep bin.count bin h

/-- `btm_pool_free_one`. -/
def btmPoolFreeOne (cfg : Config) (k : Kernel) (h : Heap) (r : SlabRef) (s : ℕ) : Heap :=
  let q : PoolId := ⟨(h.slabs r).partIdx, (h.slabs r).sc⟩
  let h := h.modPool q fun P => { P with outstanding := P.outstanding - 1 }
  slabPut cfg k h q r s

/-! ## Compaction -/

/-- `BTM_OCC_MAXSLOTS`. -/
def occMaxSlots : ℕ := 1024

/-- A stored slot pointer, `none` for `NULL`. -/
def ptr (a : ℕ) : Option ℕ := if a = 0 then none else some a

/-- The freelist link as a pointer. -/
def flNext (cfg : Config) (m : Mem) (s : ℕ) : Option ℕ := ptr (flDecode cfg m s)

/-- `build_occ`: bit `k` is set when slot `k` is not on the freelist. -/
def buildOcc (cfg : Config) (h : Heap) (r : SlabRef) : ℕ → Bool :=
  let data := btmSlabData h r
  let slot := btmScToSize (h.slabs r).sc
  let free := walk (flNext cfg h.mem) listFuel (ptr (h.slabs r).freeHead)
  free.foldl (fun bm f => Function.update bm ((f - data) / slot) false)
    fun k => k.blt (h.slabs r).nslots

/-- The copy loop of `mesh_pair`: the donor's occupied slots, in increasing index order. -/
def meshCopy (Rd Dd slot : ℕ) (docc : ℕ → Bool) : ℕ → Mem → Mem
  | 0, m => m
  | n + 1, m =>
    let m := meshCopy Rd Dd slot docc n m
    if docc n then m.write (Rd + n * slot) slot fun i => m.read (Dd + n * slot + i) else m

/-- The loop of `mesh_pair` that rebuilds the recipient's freelist: the head, the number of slots
    linked and the heap. -/
def meshRebuild (cfg : Config) (Rd slot : ℕ) (rocc docc : ℕ → Bool) :
    ℕ → ℕ → ℕ → Heap → ℕ × ℕ × Heap
  | 0, head, cnt, h => (head, cnt, h)
  | n + 1, head, cnt, h =>
    if !rocc n && !docc n then
      let s := Rd + n * slot
      meshRebuild cfg Rd slot rocc docc n s (cnt + 1) (btmFlSet cfg h s head)
    else meshRebuild cfg Rd slot rocc docc n head cnt h

/-- `mesh_pair`: returns the bytes reclaimed. The donor is retired whether or not the remap
    succeeded. -/
def meshPair (cfg : Config) (k : Kernel) (h : Heap) (q : PoolId) (R D : SlabRef)
    (rocc docc : ℕ → Bool) : ℕ × Heap :=
  let slot := btmScToSize (h.slabs R).sc
  let Rd := btmSlabData h R
  let Dd := btmSlabData h D
  let h := { h with mem := meshCopy Rd Dd slot docc (h.slabs D).nslots h.mem }
  let (head, cnt, h) := meshRebuild cfg Rd slot rocc docc (h.slabs R).nslots 0 0 h
  let h := h.modSlab R fun x => { x with freeHead := head, freeCount := cnt }
  let (reclaimed, h) := btmMeshRemap k h D R
  let h := partialRemove h q D
  (reclaimed, h.modSlab D fun x => { x with retired := true })

/-- The candidates of one pool: the first 64 sparse slabs of the partial list that are not retired,
    each with its occupancy bitmap. -/
def meshCands (cfg : Config) (h : Heap) (q : PoolId) : List (SlabRef × (ℕ → Bool)) :=
  let sparse (r : SlabRef) : Bool :=
    let x := h.slabs r
    let used := x.nslots - x.freeCount
    !x.retired && x.nslots.ble occMaxSlots && used != 0 && (used * 2).ble x.nslots
  (((walk (fun r => (h.slabs r).next) listFuel (h.pools q).partialHead).filter sparse).take 64).map
    fun r => (r, buildOcc cfg h r)

/-- The first unused candidate `j` that can be the donor of candidate `i`: the same number of slots
    and no index occupied in both. -/
def meshPartner (h : Heap) (cand : List (SlabRef × (ℕ → Bool))) (used : ℕ → Bool) (i : ℕ)
    (R : SlabRef × (ℕ → Bool)) : Option (ℕ × (SlabRef × (ℕ → Bool))) :=
  (cand.zipIdx.map fun x => (x.2, x.1)).find? fun (j, D) =>
    i != j && !used j && (h.slabs R.1).nslots == (h.slabs D.1).nslots &&
    (List.range (h.slabs R.1).nslots).all fun w => !(R.2 w && D.2 w)

/-- The greedy loop of `btm_compact` over one pool's candidates, from candidate `i` on. -/
def meshLoop (cfg : Config) (k : Kernel) (q : PoolId) (cand : List (SlabRef × (ℕ → Bool))) :
    List (SlabRef × (ℕ → Bool)) → ℕ → (ℕ → Bool) → ℕ × Heap → ℕ × Heap
  | [], _, _, st => st
  | R :: rest, i, used, (reclaimed, h) =>
    if used i then meshLoop cfg k q cand rest (i + 1) used (reclaimed, h)
    else match meshPartner h cand used i R with
      | none => meshLoop cfg k q cand rest (i + 1) used (reclaimed, h)
      | some (j, D) =>
        let (n, h) := meshPair cfg k h q R.1 D.1 R.2 D.2
        meshLoop cfg k q cand rest (i + 1) (Function.update (Function.update used i true) j true)
          (reclaimed + n, h)

/-- `btm_compact` on one pool. -/
def compactPool (cfg : Config) (k : Kernel) (st : ℕ × Heap) (q : PoolId) : ℕ × Heap :=
  if btmScRunPages q.sc < 2 then st
  else
    let cand := meshCands cfg st.2 q
    meshLoop cfg k q cand cand 0 (fun _ => false) st

/-- The pools in the order `btm_compact` visits them. -/
def Config.poolIds (cfg : Config) : List PoolId :=
  (List.range cfg.nparts).flatMap fun p => (List.range numSizeClasses).map fun sc => ⟨p, sc⟩

/-- `btm_compact`: the bytes reclaimed and the heap. -/
def btmCompact (cfg : Config) (k : Kernel) (h : Heap) : ℕ × Heap :=
  if cfg.meshMode then cfg.poolIds.foldl (compactPool cfg k) (0, h) else (0, h)

end BtMalloc
