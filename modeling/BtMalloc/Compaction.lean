import BtMalloc.Slots

/-!
# Conditions on compactions

Which pairs a call of `btm_compact` meshes, and what can be said about them before the call: whether the
pages of a donor are shown by another slab already, and whether a pair fills its recipient.
-/

namespace BtMalloc

open LinkedList

/-- The pairs that `meshLoop` meshes, recipient first. -/
def meshTrace (cfg : Config) (k : Kernel) (q : PoolId) (cand : List (SlabRef × (ℕ → Bool))) :
    List (SlabRef × (ℕ → Bool)) → ℕ → (ℕ → Bool) → ℕ × Heap → List (SlabRef × SlabRef)
  | [], _, _, _ => []
  | R :: rest, i, used, (reclaimed, h) =>
    if used i then meshTrace cfg k q cand rest (i + 1) used (reclaimed, h)
    else match meshPartner h cand used i R with
      | none => meshTrace cfg k q cand rest (i + 1) used (reclaimed, h)
      | some (j, D) =>
        let (n, h) := meshPair cfg k h q R.1 D.1 R.2 D.2
        (R.1, D.1) :: meshTrace cfg k q cand rest (i + 1)
          (Function.update (Function.update used i true) j true) (reclaimed + n, h)

/-- The pairs of one pool. -/
def compactPoolTrace (cfg : Config) (k : Kernel) (st : ℕ × Heap) (q : PoolId) :
    List (SlabRef × SlabRef) :=
  if btmScRunPages q.sc < 2 then []
  else meshTrace cfg k q (meshCands cfg st.2 q) (meshCands cfg st.2 q) 0 (fun _ => false) st

/-- The pairs of several pools, one after the other. -/
def compactTraceFrom (cfg : Config) (k : Kernel) : List PoolId → ℕ × Heap → List (SlabRef × SlabRef)
  | [], _ => []
  | q :: qs, st => compactPoolTrace cfg k st q ++ compactTraceFrom cfg k qs (compactPool cfg k st q)

/-- The pairs that `btm_compact` meshes. -/
def compactTrace (cfg : Config) (k : Kernel) (h : Heap) : List (SlabRef × SlabRef) :=
  if cfg.meshMode then compactTraceFrom cfg k cfg.poolIds (0, h) else []

/-- Another slab shows the file pages of slab `D`: `D` was the recipient of a mesh. -/
def Lent (h : Heap) (D : SlabRef) : Prop :=
  ∃ q x, Carved h q x ∧ x ≠ D ∧ h.mem.pt (x.chunk / pageSize + x.page) =
    .memfd ((h.chunks D.chunk).memfdOff / pageSize + D.page)

/-- No donor of a compaction has lent its pages, unless its remap fails. -/
def DonorsUnlent (cfg : Config) (k : Kernel) (h : Heap) : Prop :=
  ∀ R D, (R, D) ∈ compactTrace cfg k h → k.remap D = true → ¬ Lent h D

/-- Every recipient of a compaction keeps a free slot. -/
def RecipientsKeep (cfg : Config) (k : Kernel) (h : Heap) : Prop :=
  ∀ R D, (R, D) ∈ compactTrace cfg k h → ∃ i < (h.slabs R).nslots,
    buildOcc cfg h R i = false ∧ buildOcc cfg h D i = false

instance (cfg : Config) (k : Kernel) (h : Heap) : Decidable (RecipientsKeep cfg k h) :=
  decidable_of_iff (∀ x ∈ compactTrace cfg k h, ∃ i, i < (h.slabs x.1).nslots ∧
      buildOcc cfg h x.1 i = false ∧ buildOcc cfg h x.2 i = false)
    ⟨fun hx R D hRD => hx (R, D) hRD, fun hk x hx => hk x.1 x.2 hx⟩

/-- A step without a size that wraps, on a kernel that keeps to a placement, in which no donor of a
    compaction has lent its pages. -/
structure World.Meshes (cfg : Config) (pl : Placement) (w : World) (act : Action) : Prop where
  fitting : w.Fitting act
  places : w.Places pl act
  unlent : ∀ k, act = .compact k → DonorsUnlent cfg k w.sys.heap

/-- A step in which no recipient is filled up. -/
def World.Roomy (cfg : Config) (w : World) : Action → Prop
  | .compact k => RecipientsKeep cfg k w.sys.heap
  | _ => True

/-- A slot that a thread has cached or the client has. -/
def InUse (cfg : Config) (w : World) (p : ℕ) : Prop := SlotCached cfg w p ∨ w.live p ≠ none

/-- No byte of a slot in use has two owners, wherever the page table puts it. -/
structure Unaliased (cfg : Config) (w : World) : Prop where
  inUse : ∀ {q r i p q' r' i' p' b b'}, SlotOf w.sys.heap q r i p → SlotOf w.sys.heap q' r' i' p' →
    InUse cfg w p → InUse cfg w p' → b < btmScToSize q.sc → b' < btmScToSize q'.sc →
    w.sys.heap.mem.loc (p + b) = w.sys.heap.mem.loc (p' + b') → p = p' ∧ b = b'
  /-- A free slot of a slab that the pool still allocates from. -/
  free : ∀ {q r i p q' r' i' p' b b'}, SlotOf w.sys.heap q r i p → SlotOf w.sys.heap q' r' i' p' →
    (w.sys.heap.slabs r).retired = false → SlotFree cfg w r p → InUse cfg w p' →
    b < btmScToSize q.sc → b' < btmScToSize q'.sc →
    w.sys.heap.mem.loc (p + b) ≠ w.sys.heap.mem.loc (p' + b')

/-- Slot `p` of slab `r` is nowhere the pool or a thread could get it from. -/
def SlotLost (cfg : Config) (w : World) (r : SlabRef) (p : ℕ) : Prop :=
  ¬ InUse cfg w p ∧ ((w.sys.heap.slabs r).retired = true ∨ ¬ SlotFree cfg w r p)

end BtMalloc
