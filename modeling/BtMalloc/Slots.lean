import BtMalloc.Pools
import BtMalloc.SysRep

/-!
# Where the slots are

The places of a slot, read off the program's own data: the freelist of its slab, the bin of a thread,
and the objects of the client.
-/

namespace BtMalloc

open LinkedList

/-- The slots in bin `i` of thread `t`. -/
def cachedSlots (cfg : Config) (s : Sys) (t i : ℕ) : List ℕ :=
  walk (flNext cfg s.heap.mem) listFuel (ptr ((s.threads t).bins i).freeHead)

/-- `p` is slot `i` of slab `r`, which was carved for pool `q`. -/
structure SlotOf (h : Heap) (q : PoolId) (r : SlabRef) (i p : ℕ) : Prop where
  carved : Carved h q r
  lt : i < (h.slabs r).nslots
  eq : p = slotAddr r q.sc i

instance (h : Heap) (q : PoolId) (r : SlabRef) (i p : ℕ) : Decidable (SlotOf h q r i p) :=
  decidable_of_iff (Carved h q r ∧ i < (h.slabs r).nslots ∧ p = slotAddr r q.sc i)
    ⟨fun h => ⟨h.1, h.2.1, h.2.2⟩, fun h => ⟨h.carved, h.lt, h.eq⟩⟩

/-- Slot `p` of slab `r` is free: on the freelist of its slab, or its slab has no pages. -/
def SlotFree (cfg : Config) (w : World) (r : SlabRef) (p : ℕ) : Prop :=
  (w.sys.heap.slabs r).decommitted = true ∨ p ∈ freeSlots cfg w.sys.heap r

/-- Slot `p` is in the bin of some thread. -/
def SlotCached (cfg : Config) (w : World) (p : ℕ) : Prop := ∃ t i, p ∈ cachedSlots cfg w.sys t i

/-- The storage of an object of `size` bytes at `p`: a slot, or the part of a mapping behind its header. -/
inductive Extent (h : Heap) (p size : ℕ) : Prop where
  | slot {q : PoolId} {r : SlabRef} {i : ℕ} : SlotOf h q r i p → size ≤ btmScToSize q.sc → Extent h p size
  | large {b : ℕ} : b % pageSize = 0 → p = b + (h.larges b).userOff → largeHdrSize ≤ (h.larges b).userOff →
      (h.larges b).userOff + size ≤ (h.larges b).mapLen →
      (∀ j < (h.larges b).mapLen / pageSize, h.mapped (b / pageSize + j) = true) → Extent h p size

/-- Every slot is in one place, and the counters are right. -/
structure Conserved (cfg : Config) (w : World) : Prop where
  /-- A slot is free, cached or handed out, and only one of these. -/
  place : ∀ {q r i p}, SlotOf w.sys.heap q r i p →
    (SlotFree cfg w r p ∧ ¬ SlotCached cfg w p ∧ w.live p = none) ∨
    (¬ SlotFree cfg w r p ∧ SlotCached cfg w p ∧ w.live p = none) ∨
    (¬ SlotFree cfg w r p ∧ ¬ SlotCached cfg w p ∧ w.live p ≠ none)
  /-- The client's objects are slots, or are behind the header of a mapping of their own. -/
  live : ∀ {p size}, w.live p = some size → Extent w.sys.heap p size
  /-- A freelist has slots of its own slab, each once. -/
  free : ∀ {q r}, Carved w.sys.heap q r → (w.sys.heap.slabs r).decommitted = false →
    (freeSlots cfg w.sys.heap r).Nodup ∧
    (freeSlots cfg w.sys.heap r).length = (w.sys.heap.slabs r).freeCount ∧
    ∀ p ∈ freeSlots cfg w.sys.heap r, ∃ i, SlotOf w.sys.heap q r i p
  /-- A slab without pages has all its slots free. -/
  cold : ∀ {q r}, Carved w.sys.heap q r → (w.sys.heap.slabs r).decommitted = true →
    (w.sys.heap.slabs r).freeCount = (w.sys.heap.slabs r).nslots
  /-- A bin has slots of its own pool, each once and in no other bin. -/
  bin : ∀ t i, (cachedSlots cfg w.sys t i).Nodup ∧
    (cachedSlots cfg w.sys t i).length = ((w.sys.threads t).bins i).count ∧
    ∀ p ∈ cachedSlots cfg w.sys t i, (∃ q r j, SlotOf w.sys.heap q r j p ∧ i = binIdx q) ∧
      ∀ t' i', p ∈ cachedSlots cfg w.sys t' i' → t' = t ∧ i' = i
  outstanding : ∀ q, ∃ l, (Listing l fun p => (∃ r i, SlotOf w.sys.heap q r i p) ∧
      (SlotCached cfg w p ∨ w.live p ≠ none)) ∧ (w.sys.heap.pools q).outstanding = l.length
  /-- The slots the client has do not overlap. -/
  disjoint : ∀ {q r i p q' r' i' p'}, SlotOf w.sys.heap q r i p → SlotOf w.sys.heap q' r' i' p' →
    p ≠ p' → p + btmScToSize q.sc ≤ p' ∨ p' + btmScToSize q'.sc ≤ p

/-- What a call hands out was with nobody else: not with the client, and in no bin but the thread's own, where
    it is no longer. -/
structure Handed (cfg : Config) (t : ℕ) (w : World) (p : ℕ) (s' : Sys) : Prop where
  dead : w.live p = none
  uncached : ∀ t' i, p ∉ cachedSlots cfg s' t' i
  own : ∀ t' i, p ∈ cachedSlots cfg w.sys t' i → t' = t

/-- The `n` bytes at `p` are in use: an object of the client, or the whole of a slot that the client or a
    thread has. -/
inductive Occupied (cfg : Config) (w : World) (p : ℕ) : ℕ → Prop where
  | live {size : ℕ} : w.live p = some size → Occupied cfg w p size
  | slot {q : PoolId} {r : SlabRef} {i : ℕ} : SlotOf w.sys.heap q r i p → SlotCached cfg w p ∨ w.live p ≠ none →
      Occupied cfg w p (btmScToSize q.sc)

/-- No byte in use is on a page that was released or unmapped between two states. -/
def PagesClear (cfg : Config) (w w' : World) : Prop :=
  ∀ ev, w'.sys.heap.log = ev ++ w.sys.heap.log → ∀ e ∈ ev, ∀ pg n, e.drops = some (pg, n) →
    ∀ p m, Occupied cfg w' p m → ∀ b < m, ¬ inRun pg n ((p + b) / pageSize)

/-- Every object reads back what its owner stored last. -/
def ReadsBack (w : World) : Prop :=
  ∀ p size off b, w.live p = some size → w.shadow p off = some b →
    off < size ∧ w.sys.heap.mem.read (p + off) = b

/-- A regular step during which the tables of the registry can be mapped. -/
def World.Tame (pl : Placement) (w : World) (act : Action) : Prop :=
  w.Regular pl act ∧ ∀ i, act.kernel.leaf i = true

end BtMalloc
