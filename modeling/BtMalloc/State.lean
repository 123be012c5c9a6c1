import BtMalloc.Lib.LinkedList
import BtMalloc.Lib.PagedMemory
import BtMalloc.Lib.Word
import BtMalloc.SizeClass

/-!
# Data model (`internal.h`)

Slab descriptors, chunk headers, pools, thread-cache bins and large-object headers are records under
the source's field names, kept in tables indexed by where they live: a descriptor by its chunk and
its index in the chunk's descriptor array, a header by the address of its mapping. The bytes of the
data pages, where the freelist links live, are a `PagedMemory`: in mesh mode two virtual pages can
show the same memfd page.

Virtual addresses are natural numbers, with 0 for `NULL`.
-/

namespace BtMalloc

open Word

/-- A `btm_slab_t *`: entry `page` of the descriptor array of the chunk at `chunk`. -/
@[ext]
structure SlabRef where
  /-- The chunk whose descriptor array holds the descriptor (`chunk_of` of its address). -/
  chunk : ℕ
  /-- The index in `btm_chunk_descs`, which is the slab's first data page. -/
  page : ℕ
  deriving DecidableEq, Repr

/-- The address of a descriptor, `&btm_chunk_descs(chunk)[page]`. -/
def SlabRef.descAddr (r : SlabRef) : ℕ := r.chunk + pageSize + r.page * slabDescSize

/-- A `btm_scpool_t *`: `&btm_partitions[part].pools[sc]`. -/
structure PoolId where
  /-- The partition index. -/
  part : ℕ
  /-- The size class. -/
  sc : ℕ
  deriving DecidableEq, Repr

/-- `btm_slab_t`. -/
structure Slab where
  freeHead : ℕ
  next : Option SlabRef
  prev : Option SlabRef
  nslots : ℕ
  freeCount : ℕ
  sc : ℕ
  npages : ℕ
  partIdx : ℕ
  firstPage : ℕ
  inPartial : Bool
  decommitted : Bool
  retired : Bool
  pagedOut : Bool
  epoch : ℕ

/-- A descriptor on a page that reads as zero. -/
def Slab.zeroed : Slab :=
  { freeHead := 0, next := none, prev := none, nslots := 0, freeCount := 0, sc := 0, npages := 0,
    partIdx := 0, firstPage := 0, inPartial := false, decommitted := false, retired := false,
    pagedOut := false, epoch := 0 }

/-- `btm_chunk_t`, without the magic word, which nothing reads. -/
structure Chunk where
  pool : PoolId
  sc : ℕ
  partIdx : ℕ
  next : Option ℕ
  prev : Option ℕ
  nextFreePage : ℕ
  liveSlabs : ℕ
  memfdOff : ℕ
  pageOwner : ℕ → ℕ

/-- A chunk header on a page that reads as zero. -/
def Chunk.zeroed : Chunk :=
  { pool := ⟨0, 0⟩, sc := 0, partIdx := 0, next := none, prev := none, nextFreePage := 0,
    liveSlabs := 0, memfdOff := 0, pageOwner := fun _ => 0 }

/-- `btm_scpool_t`, without its lock and the statistics counter `nslabs`. -/
structure Pool where
  partialHead : Option SlabRef
  emptyWarm : Option SlabRef
  emptyCold : Option SlabRef
  warmCount : ℕ
  chunks : Option ℕ
  active : Option ℕ
  outstanding : ℕ

/-- A pool of the freshly mapped partition table. -/
def Pool.zeroed : Pool :=
  { partialHead := none, emptyWarm := none, emptyCold := none, warmCount := 0, chunks := none,
    active := none, outstanding := 0 }

/-- `btm_tls_bin_t`. -/
structure Bin where
  freeHead : ℕ
  pool : Option PoolId
  count : ℕ

/-- A bin of a freshly mapped thread cache. -/
def Bin.zeroed : Bin := { freeHead := 0, pool := none, count := 0 }

/-- `btm_rcache_ent_t`. -/
structure RcacheEnt where
  region : ℕ
  owner : ℕ
  gen : ℕ

/-- `btm_large_hdr_t`, without the magic word. -/
structure LargeHdr where
  mapLen : ℕ
  userOff : ℕ
  reqSize : ℕ

/-- What backs a virtual page: private anonymous memory, or a page of the mesh-mode memfd. -/
inductive Frame where
  | anon (vpage : ℕ)
  | memfd (fpage : ℕ)
  deriving DecidableEq, Repr

/-- Data-page memory. -/
abbrev Mem := PagedMemory 4096 Frame

/-- What the allocator did to slots, pages and chunks. -/
inductive Event where
  /-- `btm_fl_get` decoded the link of this slot. -/
  | get (slot : ℕ)
  /-- `btm_fl_set` wrote the link of this slot. -/
  | set (slot : ℕ)
  /-- `n` pages from virtual page `page` on were released (`btm_release_pages`, or the batched
      `MADV_DONTNEED`). -/
  | release (page n : ℕ)
  /-- `n` pages from virtual page `page` on were unmapped. -/
  | unmap (page n : ℕ)
  /-- The pool gave this chunk up (`btm_chunk_dispose`). -/
  | dispose (chunk : ℕ) (pool : PoolId)
  deriving DecidableEq, Repr

/-- Build options, environment switches and the freelist secret, fixed once `btm_do_init` is done. -/
structure Config where
  /-- `BTM_HARDENING`: safe-linking is compiled in. -/
  hardening : Bool
  /-- `btm_fl_key`. -/
  flKey : ℕ
  flKey_lt : flKey < 2 ^ 64
  /-- `btm_fl_key |= 1`. -/
  flKey_odd : hardening = true → flKey % 2 = 1
  /-- `btm_harden_mode`: double-free detection. -/
  hardenMode : Bool
  /-- `btm_mesh_mode`. -/
  meshMode : Bool
  /-- `btm_intern_mode`. -/
  internMode : Bool
  /-- The binary logarithm of `btm_nparts`, which is a power of two up to 4096. -/
  npartsLog : ℕ
  npartsLog_le : npartsLog ≤ 12

/-- `btm_nparts`. -/
def Config.nparts (cfg : Config) : ℕ := 2 ^ cfg.npartsLog

/-- `intern_cap`: eight entries per partition, at least 1024. -/
def Config.internCap (cfg : Config) : ℕ := max 1024 (cfg.nparts * 8)

/-- One partition, without safe-linking, double-free detection, meshing or interning. -/
def Config.plain : Config :=
  { hardening := false, flKey := 0, flKey_lt := by decide, flKey_odd := by decide,
    hardenMode := false, meshMode := false, internMode := false, npartsLog := 0,
    npartsLog_le := by decide }

/-- The same in mesh mode. -/
def Config.mesh : Config := { Config.plain with meshMode := true }

/-- The kernel's answers during one call into the allocator. -/
structure Kernel where
  /-- The `mmap` of a thread cache succeeds. -/
  tls : Bool
  /-- The address returned for a chunk reservation, `none` for `MAP_FAILED`. -/
  chunk : Option ℕ
  /-- The `MAP_FIXED` mapping of a chunk succeeds. -/
  fixed : Bool
  /-- `ftruncate` of the memfd succeeds. -/
  trunc : Bool
  /-- The `mmap` of the radix leaf with this index succeeds. -/
  leaf : ℕ → Bool
  /-- The `mmap` of a larger memfd free stack, made while freeing this offset, succeeds. -/
  stack : ℕ → Bool
  /-- The address returned for the reservation of a large object. -/
  large : Option ℕ
  /-- The address returned by `mremap`. -/
  mremap : Option ℕ
  /-- The `MAP_FIXED` remap of this donor slab succeeds. -/
  remap : SlabRef → Bool

/-- A kernel that grants every mapping whose place it need not choose, and no other. -/
def Kernel.plain : Kernel :=
  { tls := true, chunk := none, fixed := true, trunc := true, leaf := fun _ => true,
    stack := fun _ => true, large := none, mremap := none, remap := fun _ => true }

/-- The same, with room for chunks at `a`. -/
def Kernel.grant (a : ℕ) : Kernel := { Kernel.plain with chunk := some a }

/-- `btm_owner_flat`, `none` for `NULL`. -/
abbrev FlatTable := Option (ℕ → ℕ)

/-- The owner table of `chunk.c`, as the engine of the build has it (`BTM_OWNER_ENGINE`). -/
inductive OwnerTable where
  /-- `radix_l1`: the leaf arrays that have been mapped. -/
  | radix (l1 : ℕ → Option (ℕ → ℕ))
  | flat (tbl : FlatTable)

/-- The allocator's shared state. -/
structure Heap where
  /-- The descriptor arrays of the chunks. -/
  slabs : SlabRef → Slab
  /-- The chunk headers. -/
  chunks : ℕ → Chunk
  /-- `btm_partitions[_].pools[_]`. -/
  pools : PoolId → Pool
  /-- `btm_partitions[_].sample_ra`. -/
  sampleRa : ℕ → ℕ
  /-- The headers of large objects, by base. -/
  larges : ℕ → LargeHdr
  /-- The bytes of data pages. -/
  mem : Mem
  /-- The virtual pages that are mapped. -/
  mapped : ℕ → Bool
  /-- Link, page and chunk operations so far, newest first. -/
  log : List Event
  /-- `radix_l1` or `btm_owner_flat`. -/
  owners : OwnerTable
  /-- `btm_registry_gen`, a 64-bit counter: a region cache takes a generation for a later one only after
      `2 ^ 64` removals, which the model does not count up to. The flat engine has no such counter, and
      nothing reads it there. -/
  registryGen : ℕ
  /-- `memfd_bump`. -/
  memfdBump : ℕ
  /-- `memfd_size`. -/
  memfdSize : ℕ
  /-- `memfd_free`, top of the stack first. -/
  memfdFree : List ℕ
  /-- `memfd_free_cap`. -/
  memfdFreeCap : ℕ
  /-- `warm_head`. -/
  warmHead : Option ℕ
  /-- `warm_count`. -/
  warmCount : ℤ
  /-- `dispose_head`. -/
  disposeHead : Option ℕ
  /-- `bg_async`. -/
  bgAsync : Bool
  /-- `btm_tier_epoch`. -/
  tierEpoch : ℕ
  /-- `intern_tbl`: the return address and id of each entry. -/
  internTbl : ℕ → ℕ × ℕ
  /-- `intern_next`. -/
  internNext : ℕ

/-- The heap right after `btm_do_init`. -/
def Heap.init : Heap :=
  { slabs := fun _ => Slab.zeroed, chunks := fun _ => Chunk.zeroed, pools := fun _ => Pool.zeroed,
    sampleRa := fun _ => 0, larges := fun _ => ⟨0, 0, 0⟩,
    mem := { pt := Frame.anon, bytes := fun _ _ => 0 }, mapped := fun _ => false, log := [],
    owners := .radix fun _ => none, registryGen := 0, memfdBump := 0, memfdSize := 0, memfdFree := [],
    memfdFreeCap := 0, warmHead := none, warmCount := 0, disposeHead := none, bgAsync := false,
    tierEpoch := 0, internTbl := fun _ => (0, 0), internNext := 0 }

namespace Heap

/-- Update one slab descriptor. -/
def modSlab (h : Heap) (r : SlabRef) (f : Slab → Slab) : Heap :=
  { h with slabs := Function.update h.slabs r (f (h.slabs r)) }

/-- Update one chunk header. -/
def modChunk (h : Heap) (c : ℕ) (f : Chunk → Chunk) : Heap :=
  { h with chunks := Function.update h.chunks c (f (h.chunks c)) }

/-- Update one pool. -/
def modPool (h : Heap) (q : PoolId) (f : Pool → Pool) : Heap :=
  { h with pools := Function.update h.pools q (f (h.pools q)) }

/-- Record an event. -/
def note (h : Heap) (e : Event) : Heap := { h with log := e :: h.log }

end Heap

/-! ## Kernel calls -/

/-- Page `p` lies in the `len` bytes at `a`. -/
def inPages (a len p : ℕ) : Bool := (a / pageSize).ble p && p.blt ((a + len) / pageSize)

/-- The anonymous pages in the `len` bytes at `a`. -/
def anonIn (a len : ℕ) : Frame → Bool
  | .anon v => inPages a len v
  | .memfd _ => false

/-- The pages of the memfd in the `len` bytes at offset `off`. -/
def fileIn (off len : ℕ) : Frame → Bool
  | .anon _ => false
  | .memfd v => inPages off len v

/-- A range the kernel may return from `mmap`: page-aligned, not empty, not at address 0, in the
    47-bit user address space and clear of every existing mapping. -/
def freshRange (h : Heap) (raw len : ℕ) : Bool :=
  raw % pageSize == 0 && (0).blt raw && (0).blt len && (raw + len).ble (2 ^ 47) &&
  (List.range' (raw / pageSize) (len / pageSize)).all fun p => !h.mapped p

/-- The result of an `mmap` of `len` bytes: the kernel's answer if it is one it can give. -/
def mmapResult (h : Heap) (answer : Option ℕ) (len : ℕ) : Option ℕ :=
  answer.filter fun raw => freshRange h raw len

namespace Heap

/-- `mmap` of anonymous memory at `a`: the pages are mapped and read as zero. -/
def mmapAnon (h : Heap) (a len : ℕ) : Heap :=
  { h with
    mapped := fun p => inPages a len p || h.mapped p
    mem := (h.mem.remap (a / pageSize) (len / pageSize) fun i => .anon (a / pageSize + i)).zero
      (anonIn a len) }

/-- `mmap` of the memfd at offset `off`, `MAP_SHARED | MAP_FIXED` at `a`. -/
def mmapMemfd (h : Heap) (a len off : ℕ) : Heap :=
  { h with
    mapped := fun p => inPages a len p || h.mapped p
    mem := h.mem.remap (a / pageSize) (len / pageSize) fun i => .memfd (off / pageSize + i) }

/-- `munmap`; a range that leaves the user address space is refused. -/
def munmap (h : Heap) (a len : ℕ) : Heap :=
  if a + len ≤ 2 ^ 47 then
    { h with mapped := fun p => !inPages a len p && h.mapped p }.note
      (.unmap (a / pageSize) (len / pageSize))
  else h

/-- `madvise(MADV_DONTNEED)` on anonymous memory: the pages read as zero again. Slab descriptors
    lying on the released pages are zeroed with them. -/
def madviseDontneed (h : Heap) (a len : ℕ) : Heap :=
  { h with
    mem := h.mem.zero (anonIn a len)
    slabs := fun r =>
      if inPages a len (r.descAddr / pageSize) &&
          inPages a len ((r.descAddr + slabDescSize - 1) / pageSize)
      then Slab.zeroed else h.slabs r }

/-- `fallocate(PUNCH_HOLE)` on the memfd: the file pages read as zero again. -/
def punchHole (h : Heap) (off len : ℕ) : Heap :=
  { h with mem := h.mem.zero (fileIn off len) }

end Heap

/-! ## Freelist links -/

/-- The link stored in a free slot, with safe-linking undone. -/
def flDecode (cfg : Config) (m : Mem) (slot : ℕ) : ℕ :=
  if cfg.hardening then m.readLE 8 slot ^^^ cfg.flKey ^^^ (slot >>> 12) else m.readLE 8 slot

/-- `btm_fl_get`: the link stored in a free slot. -/
def btmFlGet (cfg : Config) (h : Heap) (slot : ℕ) : ℕ := flDecode cfg h.mem slot

/-- `btm_fl_set`: store a link in a free slot. -/
def btmFlSet (cfg : Config) (h : Heap) (slot next : ℕ) : Heap :=
  { h with
    mem := h.mem.writeLE 8 slot
      (if cfg.hardening then next ^^^ cfg.flKey ^^^ (slot >>> 12) else next) }.note (.set slot)

/-- `btm_df_canary`. -/
def btmDfCanary (cfg : Config) (slot : ℕ) : ℕ := slot ^^^ cfg.flKey ^^^ 0xD0FF1EE5DEADC0DE

/-! ## Addresses of chunks and slabs -/

/-- `chunk_of`. -/
def chunkOf (p : ℕ) : ℕ := maskDown p chunkSize

/-- `btm_slab_data`. -/
def btmSlabData (h : Heap) (r : SlabRef) : ℕ := r.chunk + (h.slabs r).firstPage * pageSize

/-- `btm_slab_of`: the descriptor of the slab that owns the page of `ptr`. -/
def btmSlabOf (h : Heap) (c ptr : ℕ) : SlabRef :=
  { chunk := c, page := (h.chunks c).pageOwner ((ptr - c) >>> 12) }

end BtMalloc
