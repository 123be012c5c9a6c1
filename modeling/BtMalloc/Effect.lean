import BtMalloc.Conditions
import BtMalloc.Rep
import BtMalloc.Lib.Units

/-!
# What an operation of the allocator leaves alone

`HeapRep` says that the heap stands for a ledger; `Effect` relates the heap and ledger before an
operation to those after it. Client data stay, pages are only released or unmapped where no busy unit
is, chunks leave their pool only by being disposed, and the owner table changes in ways that the
threads' region caches can live with. Effects compose.
-/

namespace BtMalloc

open PagedMemory

/-- What the client may look at: slots handed out, and large objects. -/
inductive Ledger.Client (L : Ledger) : ℕ → ℕ → Prop where
  | slot {q : PoolId} {r : SlabRef} {i s : ℕ} : L.place s = .out → L.SlotIn q r i s →
      L.Client s (btmScToSize q.sc)
  | large {b : ℕ} {hd : LargeHdr} : L.large b = some hd → L.Client b hd.mapLen

/-- Slots cached or handed out, and large objects. -/
inductive Ledger.Busy (L : Ledger) : ℕ → ℕ → Prop where
  | slot {q : PoolId} {r : SlabRef} {i s : ℕ} : (L.place s).busy = true → L.SlotIn q r i s →
      L.Busy s (btmScToSize q.sc)
  | large {b : ℕ} {hd : LargeHdr} : L.large b = some hd → L.Busy b hd.mapLen

/-- The pages an event releases or unmaps. -/
def Event.drops : Event → Option (ℕ × ℕ)
  | .release p n | .unmap p n => some (p, n)
  | .get _ | .set _ | .dispose _ _ => none

/-- No page that was released or unmapped has a byte of a unit in `B`. -/
def Clear (B : ℕ → ℕ → Prop) (ev : List Event) : Prop :=
  ∀ e ∈ ev, ∀ p n, e.drops = some (p, n) → ∀ ⦃a k i⦄, B a k → i < k → ¬ inRun p n ((a + i) / pageSize)

/-- The table names the owner of a region. -/
def Named (T : OwnerTable) (L : Ledger) (key : ℕ) : Prop := ∀ ⦃w⦄, L.Covers key w → ownerAt T key = w

/-- From table `T` to `T'` the engine is the same, no leaf array went, and none came but those the kernel
    granted. -/
inductive OwnerTable.Grows (k : Kernel) : OwnerTable → OwnerTable → Prop where
  | radix {l1 l1' : ℕ → Option (ℕ → ℕ)} : (∀ i, l1 i ≠ none → l1' i ≠ none) →
      (∀ i, l1' i ≠ none → l1 i ≠ none ∨ k.leaf i = true) → Grows k (.radix l1) (.radix l1')
  | flat {tbl tbl' : FlatTable} : (tbl' = none ↔ tbl = none) → Grows k (.flat tbl) (.flat tbl')

/-- An operation took heap `h` and ledger `L` to `h'` and `L'`. The units in `X` were given up, and
    the pages dropped are clear of `B`. -/
structure Effect (k : Kernel) (X : ℕ → Prop) (B : ℕ → ℕ → Prop) (h : Heap) (L : Ledger) (h' : Heap)
    (L' : Ledger) : Prop where
  client : ∀ ⦃a n⦄, L.Client a n → ¬ X a → L'.Client a n
  bytes : Keeps L.Client X h.mem h'.mem
  log : ∃ ev, h'.log = ev ++ h.log ∧ Clear B ev ∧
    ∀ c q, L.holder c = .pool q → L'.holder c = .pool q ∨ .dispose c q ∈ ev
  gen : h.registryGen ≤ h'.registryGen
  owner : h'.registryGen = h.registryGen → ∀ key < 2 ^ 27, ownerAt h.owners key ≠ 0 →
    ownerAt h'.owners key = ownerAt h.owners key
  named : ∀ ⦃key⦄, LeafReady k h.owners key → Named h.owners L key → Named h'.owners L' key
  leaves : h.owners.Grows k h'.owners
  /-- A chunk that came to be mapped is where the kernel answered. -/
  fresh : ∀ ⦃c⦄, L'.holder c ≠ .none → L.holder c ≠ .none ∨ k.chunk.map chunkBase = some c
  intern : h'.internTbl = h.internTbl ∧ h'.internNext = h.internNext

/-- What an operation did to slots handed out, to large objects, to bins and to chunks: only slots and
    objects in `X` came from or went to the client, only bins in `Y` changed, and only chunks in `Z`
    came to a pool. -/
structure Ledger.Moved (L L' : Ledger) (X : ℕ → Prop) (Y : ℕ → ℕ → Prop) (Z : ℕ → PoolId → Prop) :
    Prop where
  stay : ∀ ⦃q r i s⦄, L.place s = .out → ¬ X s → L.SlotIn q r i s →
    L'.place s = .out ∧ L'.SlotIn q r i s
  back : ∀ ⦃s⦄, L'.place s = .out → ¬ X s → L.place s = .out
  bin : ∀ ⦃t i⦄, ¬ Y t i → L'.bin t i = L.bin t i
  own : ∀ ⦃c q⦄, L'.holder c = .pool q → L.holder c = .pool q ∨ Z c q
  large : ∀ ⦃b⦄, ¬ X b → L'.large b = L.large b

/-- The operation meshed nothing, and slots that are out of use since a mesh stay so. -/
structure Ledger.Tidy (L L' : Ledger) : Prop where
  unmeshed : L.Unmeshed → L'.Unmeshed
  ready : L.Ready → L'.Ready
  lost : ∀ ⦃q r i s⦄, L.SlotIn q r i s → L.place s = .void → L'.SlotIn q r i s ∧ L'.place s = .void

/-- The operation left the maintenance thread's chunks alone. -/
structure Aside (h : Heap) (L : Ledger) (h' : Heap) (L' : Ledger) : Prop where
  batch : L'.batch = L.batch
  hand : L'.hand = L.hand
  link : ∀ c, c ∈ L.batch ∨ c ∈ L.hand → (h'.chunks c).next = (h.chunks c).next

/-- An operation as a whole: the heap and the bins after it stand for a sound and settled ledger, and
    the operation had the effects it may have. -/
structure Outcome (cfg : Config) (k : Kernel) (X : ℕ → Prop) (Y : ℕ → ℕ → Prop)
    (Z : ℕ → PoolId → Prop) (h : Heap) (L : Ledger) (h' : Heap) (bins' : ℕ → ℕ → Bin) (L' : Ledger) :
    Prop where
  sound : L'.Sound cfg
  settled : L'.Settled
  rep : HeapRep cfg h' bins' L'
  effect : Effect k X L'.Busy h L h' L'
  moved : L.Moved L' X Y Z
  tidy : L.Tidy L'

end BtMalloc
