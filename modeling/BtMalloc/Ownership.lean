import BtMalloc.Compaction

/-!
# Pointers and their owners

What the entry points make of a pointer, for pointers that the allocator did not hand out and for those
of the client; and what a client may expect of a pointer that it is given.
-/

namespace BtMalloc

/-- The entry points that take a pointer do nothing with `p`. -/
structure Ignored (cfg : Config) (s : Sys) (p : ℕ) : Prop where
  free : ∀ k t, btmFree cfg k t p s = .ok s
  realloc : ∀ k t n ra, 0 < n → btmReallocAt cfg k t p n ra s = .ok (0, s)
  usable : ∀ t, btmMallocUsableSize t p s = .ok 0

/-! ## The client's pointers -/

/-- The owner word of the object at `p`: the chunk of its slot, or the base of its own mapping with bit 0
    set. -/
inductive OwnerWord (h : Heap) (p : ℕ) : ℕ → Prop where
  | chunk {q : PoolId} {r : SlabRef} {i : ℕ} : SlotOf h q r i p → OwnerWord h p r.chunk
  | large {b : ℕ} : b % pageSize = 0 → p = b + (h.larges b).userOff →
      (∀ j < (h.larges b).mapLen / pageSize, h.mapped (b / pageSize + j) = true) → OwnerWord h p (b ||| 1)

/-- `btm_malloc_usable_size(p)` returns at least `size`, whoever asks. -/
def Usable (s : Sys) (p size : ℕ) : Prop := ∀ t, ∃ n, btmMallocUsableSize t p s = .ok n ∧ size ≤ n

/-- Every address of every object resolves to the object's own owner, and two objects have one owner only if
    they are slots of one chunk. -/
structure World.OwnersExact (w : World) : Prop where
  own : ∀ p size, w.live p = some size →
    btmRegistryLookup w.sys.heap p ≠ 0 ∧ OwnerWord w.sys.heap p (btmRegistryLookup w.sys.heap p)
  inside : ∀ p size t n i, w.live p = some size → btmMallocUsableSize t p w.sys = .ok n → i < n →
    btmRegistryLookup w.sys.heap (p + i) = btmRegistryLookup w.sys.heap p
  usable : ∀ p size, w.live p = some size → Usable w.sys p size
  alone : ∀ p p' size size', w.live p = some size → w.live p' = some size' → p' ≠ p →
    btmRegistryLookup w.sys.heap p' = btmRegistryLookup w.sys.heap p →
    ∃ q r i q' r' i', SlotOf w.sys.heap q r i p ∧ SlotOf w.sys.heap q' r' i' p' ∧ r.chunk = r'.chunk

/-- What a call of `btm_realloc(p, n)` by thread `t` did, up to the flush of an overfull bin: it got no storage,
    returned `NULL` and left the object alone, or the object goes on at `q`, and the old storage was kept, or
    given back in a state in which the object still was what it had been. -/
inductive Resizing (cfg : Config) (k : Kernel) (t ra : ℕ) (w : World) (p n : ℕ) (w' : World) : Prop where
  | refused : ResizeRefused cfg k t ra w.sys p n → w'.live = w.live → Unchanged w.sys w'.sys p →
      Resizing cfg k t ra w p n w'
  | done (q : ℕ) : w'.live = Function.update (Function.update w.live p none) q (some n) →
      Extent w'.sys.heap q n →
      (∀ t u i, btmMallocUsableSize t p w.sys = .ok u → i < min u n →
        w'.sys.heap.mem.read (q + i) = w.sys.heap.mem.read (p + i)) →
      (q = p ∨ ∃ s1, Unchanged w.sys s1 p ∧ GaveBack cfg k t s1.heap p w'.sys) → Resizing cfg k t ra w p n w'

/-- The object of `size` bytes at `p` is found: the table has its own owner, which every thread gets to,
    `btm_malloc_usable_size` reports the bytes asked for, `btm_free` gives it back and `btm_realloc` can resize
    it, unless its second word passes for a canary. -/
structure Found (cfg : Config) (pl : Placement) (w : World) (p size : ℕ) : Prop where
  owner : btmRegistryLookup w.sys.heap p ≠ 0 ∧ OwnerWord w.sys.heap p (btmRegistryLookup w.sys.heap p)
  resolve : ∀ t, (btmResolveOwner t p w.sys).1 = btmRegistryLookup w.sys.heap p
  usable : Usable w.sys p size
  release : ∀ t k, (w.sys.threads t).pc = .idle →
    (∃ w', step cfg w (.free t p k) = some w' ∧ GaveBack cfg k t w.sys.heap p w'.sys) ∨
      canarySet cfg w.sys.heap p = true
  resize : ∀ t n ra k, (w.sys.threads t).pc = .idle → 0 < n → n < 2 ^ 64 →
    Resizes k w.sys.heap p n → w.Places pl (.realloc t p n ra k) →
    (∃ w', step cfg w (.realloc t p n ra k) = some w' ∧ Resizing cfg k t ra w p n w') ∨
      canarySet cfg w.sys.heap p = true

/-- All objects of the client are found. -/
def World.AllFound (cfg : Config) (pl : Placement) (w : World) : Prop :=
  ∀ p size, w.live p = some size → Found cfg pl w p size

/-- The step returns the pointer `q`, with the heap `h`. -/
inductive Returned (cfg : Config) (w : World) (q : ℕ) (h : Heap) : Action → Prop where
  | alloc {t ra : ℕ} {c : Alloc} {k : Kernel} {s : Sys} : c.run cfg k t ra w.sys = .ok (q, s) → q ≠ 0 → h = s.heap →
      Returned cfg w q h (.alloc t c ra k)
  | realloc {t p size ra : ℕ} {k : Kernel} {fl : Option (ℕ × ℕ)} {s : Sys} : 0 < size →
      btmReallocHead cfg k t p size ra w.sys = .ok (q, fl, s) → q ≠ 0 → h = s.heap →
      Returned cfg w q h (.realloc t p size ra k)

/-- The table has an owner for the pointer that the step returns. -/
def World.Registers (cfg : Config) (w : World) (act : Action) : Prop :=
  ∀ q h, Returned cfg w q h act → btmRegistryLookup h q ≠ 0

/-- A step on a kernel that keeps to a placement, in which no size wraps and no donor of a compaction has lent
    its pages, and after which the table has an owner for what it returns. -/
def World.Resolving (cfg : Config) (pl : Placement) (w : World) (act : Action) : Prop :=
  w.Meshes cfg pl act ∧ w.Registers cfg act

/-! ## What a client is given -/

end BtMalloc
