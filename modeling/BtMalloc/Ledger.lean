import BtMalloc.Api
import BtMalloc.Lib.Listing
import BtMalloc.Proofs.SizeClassProofs

/-!
# The ledger: where every slot, slab and chunk is

The abstract model of the allocator. It says what the intrusive lists, counters and flags of the
program stand for: who holds each chunk, where each slab stands in its pool, where each slot is, and
which physical slab the data of a slab live in. Every list of the program is a list here, tied to
these functions by a `Listing`.

`Sound` are the rules that hold at every point of the program, `Settled` those that hold between
calls.
-/

namespace BtMalloc

/-- Who holds a chunk. -/
inductive Holder where
  /-- Not mapped. -/
  | none
  /-- On the chunk list of a pool. -/
  | pool (q : PoolId)
  /-- On the warm stack. -/
  | stack
  /-- On the dispose queue. -/
  | queue
  /-- In the batch the maintenance thread took off the queue. -/
  | batch
  /-- In the hands of a thread that maps, unmaps or passes it on. -/
  | hand
  deriving DecidableEq

/-- Where a slab stands in its pool. -/
inductive Stage where
  | uncarved
  /-- On the partial list. -/
  | listed
  /-- On no list. -/
  | unlisted
  /-- On the list of empty slabs with their pages. -/
  | warm
  /-- On the list of empty slabs without pages. -/
  | cold
  /-- A donor of a mesh, out of use for good. -/
  | retired
  deriving DecidableEq

/-- The slab's own freelist is linked through its slots. -/
def Stage.intact : Stage → Bool
  | .listed | .unlisted | .warm => true
  | .uncarved | .cold | .retired => false

/-- The slab is counted in `live_slabs` of its chunk. -/
def Stage.counts : Stage → Bool
  | .listed | .unlisted | .retired => true
  | .uncarved | .warm | .cold => false

/-- Where a slot is. -/
inductive Place where
  /-- Not a slot, or one that is out of use since a mesh. -/
  | void
  /-- On its slab's freelist. -/
  | free
  /-- In bin `i` of thread `t`. -/
  | cached (t i : ℕ)
  /-- Handed out. -/
  | out
  deriving DecidableEq

/-- Cached or handed out. -/
def Place.busy : Place → Bool
  | .cached _ _ | .out => true
  | .void | .free => false

/-- Where everything is. -/
structure Ledger where
  /-- Who holds a chunk. -/
  holder : ℕ → Holder
  /-- The first page of a chunk that no slab has yet. -/
  top : ℕ → ℕ
  stage : SlabRef → Stage
  place : ℕ → Place
  /-- The slab whose own pages hold the data of a slab. -/
  target : SlabRef → SlabRef
  freeList : SlabRef → List ℕ
  bin : ℕ → ℕ → List ℕ
  /-- The busy slots of a pool. -/
  held : PoolId → List ℕ
  partials : PoolId → List SlabRef
  warm : PoolId → List SlabRef
  cold : PoolId → List SlabRef
  /-- The slabs counted in `live_slabs` of a chunk. -/
  counted : ℕ → List SlabRef
  chunks : PoolId → List ℕ
  active : PoolId → Option ℕ
  stack : List ℕ
  queue : List ℕ
  batch : List ℕ
  hand : List ℕ
  /-- The large objects, by base. -/
  large : ℕ → Option LargeHdr

/-- A pool of the partition table. -/
def PoolId.Valid (cfg : Config) (q : PoolId) : Prop := q.part < cfg.nparts ∧ q.sc < numSizeClasses

/-- The address of slot `i` of a slab of class `sc`. -/
def slotAddr (r : SlabRef) (sc i : ℕ) : ℕ := r.chunk + r.page * pageSize + i * btmScToSize sc

/-- All slots of a slab, in address order. -/
def slabSlotList (r : SlabRef) (sc : ℕ) : List ℕ :=
  (List.range (slabSlots sc)).map (slotAddr r sc)

namespace Ledger

/-- Slab `r` is carved and belongs to pool `q`. -/
def SlabIn (L : Ledger) (q : PoolId) (r : SlabRef) : Prop :=
  L.holder r.chunk = .pool q ∧ L.stage r ≠ .uncarved

/-- `s` is slot `i` of slab `r`, which belongs to pool `q`. -/
def SlotIn (L : Ledger) (q : PoolId) (r : SlabRef) (i : ℕ) (s : ℕ) : Prop :=
  L.SlabIn q r ∧ i < slabSlots q.sc ∧ s = slotAddr r q.sc i

/-- The rules on chunks and carving. -/
structure Carving (cfg : Config) (L : Ledger) : Prop where
  valid : ∀ {c q}, L.holder c = .pool q → q.Valid cfg
  aligned : ∀ {c}, L.holder c ≠ .none → c % chunkSize = 0 ∧ 0 < c ∧ c + chunkSize ≤ 2 ^ 47
  top_eq : ∀ {c q}, L.holder c = .pool q →
    (∃ n, L.top c = dataStartPage + n * btmScRunPages q.sc) ∧ L.top c ≤ pagesPerChunk
  /-- The carved slabs tile the pages below `top`. -/
  carved : ∀ r, L.stage r ≠ .uncarved ↔ ∃ q n, L.holder r.chunk = .pool q ∧
    r.page = dataStartPage + n * btmScRunPages q.sc ∧ r.page + btmScRunPages q.sc ≤ L.top r.chunk

/-- The lists of slabs and chunks hold what they should. -/
structure Lists (L : Ledger) : Prop where
  partials : ∀ q, Listing (L.partials q) fun r => L.holder r.chunk = .pool q ∧ L.stage r = .listed
  warm : ∀ q, Listing (L.warm q) fun r => L.holder r.chunk = .pool q ∧ L.stage r = .warm
  cold : ∀ q, Listing (L.cold q) fun r => L.holder r.chunk = .pool q ∧ L.stage r = .cold
  counted : ∀ c, Listing (L.counted c) fun r => r.chunk = c ∧ (L.stage r).counts = true
  chunks : ∀ q, Listing (L.chunks q) fun c => L.holder c = .pool q
  active : ∀ {q c}, L.active q = some c → L.holder c = .pool q
  stack : Listing L.stack fun c => L.holder c = .stack
  queue : Listing L.queue fun c => L.holder c = .queue
  batch : Listing L.batch fun c => L.holder c = .batch
  hand : Listing L.hand fun c => L.holder c = .hand

/-- The lists of slots hold what they should. -/
structure Slots (L : Ledger) : Prop where
  /-- Only slots of carved slabs are anywhere. -/
  slot : ∀ {s}, L.place s ≠ .void → ∃ q r i, L.SlotIn q r i s
  bin : ∀ t i, Listing (L.bin t i) fun s => L.place s = .cached t i
  /-- A cached slot is in the bin of its own pool. -/
  home : ∀ {s t i q r j}, L.place s = .cached t i → L.SlotIn q r j s → i = binIdx q
  freeList : ∀ {r}, L.stage r ≠ .uncarved → L.stage r ≠ .retired →
    Listing (L.freeList r) fun s => L.place s = .free ∧ ∃ q i, L.SlotIn q r i s
  /-- No slot of a retired slab is free. -/
  retired : ∀ {s q r i}, L.SlotIn q r i s → L.stage r = .retired → L.place s ≠ .free
  held : ∀ q, Listing (L.held q) fun s => (L.place s).busy = true ∧ ∃ r i, L.SlotIn q r i s

/-- The rules on meshed slabs. -/
structure Meshed (L : Ledger) : Prop where
  /-- Only retired slabs have their data elsewhere. -/
  self : ∀ {r}, L.stage r ≠ .retired → L.target r = r
  /-- The target is a slab of the same pool. -/
  pool : ∀ {q r}, L.SlabIn q r → L.SlabIn q (L.target r)
  /-- A recipient has a slot that is out of use, so it never drains. -/
  donated : ∀ {r}, L.stage r = .retired → L.target r ≠ r →
    ∃ q i s, L.SlotIn q (L.target r) i s ∧ L.place s = .void
  /-- No two slots in use have one physical place. -/
  apart : ∀ {s s' q q' r r' i}, L.place s ≠ .void → L.place s' ≠ .void → L.SlotIn q r i s →
    L.SlotIn q' r' i s' → L.target r = L.target r' → s = s'

/-- The rules that hold at every point of the program. -/
structure Sound (cfg : Config) (L : Ledger) : Prop where
  carving : L.Carving cfg
  lists : L.Lists
  slots : L.Slots
  meshed : L.Meshed

/-- Slab `r` of pool `q` stands where its number of free slots says. -/
def SlabSettled (L : Ledger) (q : PoolId) (r : SlabRef) : Prop :=
  match L.stage r with
  | .listed => (L.freeList r).length < slabSlots q.sc
  | .unlisted => L.freeList r = []
  | .warm | .cold => (L.freeList r).length = slabSlots q.sc
  | .uncarved | .retired => True

/-- The rules that hold between calls. -/
structure Settled (L : Ledger) : Prop where
  slab : ∀ {q r}, L.SlabIn q r → L.SlabSettled q r
  /-- A chunk without a slab in use is given up. -/
  chunk : ∀ {c q}, L.holder c = .pool q → L.counted c ≠ []
  warm : ∀ q, (L.warm q).length ≤ 2

/-- Every slab on a partial list has a free slot. -/
def Ready (L : Ledger) : Prop := ∀ ⦃r⦄, L.stage r = .listed → L.freeList r ≠ []

/-- No slab was ever meshed: every slot of a carved slab is somewhere. -/
structure Unmeshed (L : Ledger) : Prop where
  stage : ∀ r, L.stage r ≠ .retired
  place : ∀ {q r i s}, L.SlotIn q r i s → L.place s ≠ .void

/-- The mappings of large objects start at a region, which is so until `mremap` moves one elsewhere. -/
def Aligned (L : Ledger) : Prop := ∀ ⦃b hd⦄, L.large b = some hd → b % chunkSize = 0

end Ledger

end BtMalloc
