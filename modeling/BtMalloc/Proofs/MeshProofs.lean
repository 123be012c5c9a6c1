import BtMalloc.Proofs.MeshLoopProofs
import BtMalloc.Proofs.EffectProofs
import BtMalloc.Proofs.PartialListProofs
import BtMalloc.Proofs.ReleaseProofs

/-!
# Proofs: `mesh_pair`

A mesh in three moves. The recipient cedes the indices that the donor occupies, the donor goes out of
use with its free slots, and, if the remap succeeds, the donor's pages show the recipient's. Each move
keeps the rules of the ledger and keeps the heap standing for it. The last one does so only if no other
slab shows the donor's own pages.
-/

namespace BtMalloc

open LinkedList PagedMemory Word

variable {cfg : Config} {k : Kernel} {h : Heap} {bins : ℕ → ℕ → Bin} {L : Ledger} {q : PoolId}
  {R D r : SlabRef}

/-! ## The moves on the ledger -/

namespace Ledger

/-- Slabs `R` and `D` of pool `q` can be meshed: both are on the partial list, the donor `D` has an
    object and no index is occupied in both. -/
structure Meshable (L : Ledger) (q : PoolId) (R D : SlabRef) : Prop where
  recipient : L.holder R.chunk = .pool q ∧ L.stage R = .listed
  donor : L.holder D.chunk = .pool q ∧ L.stage D = .listed
  ne : R ≠ D
  used : ∃ i < slabSlots q.sc, slotAddr D q.sc i ∉ L.freeList D
  disjoint : ∀ i < slabSlots q.sc,
    slotAddr R q.sc i ∈ L.freeList R ∨ slotAddr D q.sc i ∈ L.freeList D

/-- Slot `i` of slab `r` is not on the freelist. -/
def occupied (L : Ledger) (q : PoolId) (r : SlabRef) (i : ℕ) : Bool :=
  decide (slotAddr r q.sc i ∉ L.freeList r)

/-- The slots of the recipient that are free in both slabs. -/
def meshFree (L : Ledger) (q : PoolId) (R D : SlabRef) : List ℕ :=
  bothFree (R.chunk + R.page * pageSize) (btmScToSize q.sc) (L.occupied q R) (L.occupied q D)
    (slabSlots q.sc)

/-- The recipient keeps only the slots that are free in the donor, too. -/
def cede (L : Ledger) (q : PoolId) (R D : SlabRef) : Ledger :=
  { L with
    place := fun s => if s ∈ L.freeList R ∧ s ∉ L.meshFree q R D then .void else L.place s
    freeList := Function.update L.freeList R (L.meshFree q R D) }

/-- A slab goes out of use, with its free slots. -/
def retire (L : Ledger) (r : SlabRef) : Ledger :=
  { L with
    stage := Function.update L.stage r .retired
    place := fun s => if s ∈ L.freeList r then .void else L.place s }

/-- The pages of slab `r` show those of slab `t`. -/
def redirect (L : Ledger) (r t : SlabRef) : Ledger :=
  { L with target := Function.update L.target r t }

/-- The ledger in which the donor is retired, before the remap. -/
def unpair (L : Ledger) (q : PoolId) (R D : SlabRef) : Ledger :=
  ((L.cede q R D).delist q D).retire D

/-- The ledger after a mesh; `ok` says whether the remap succeeded. -/
def mesh (L : Ledger) (q : PoolId) (R D : SlabRef) (ok : Bool) : Ledger :=
  if ok then (L.unpair q R D).redirect D R else L.unpair q R D

theorem Meshable.rIn (M : L.Meshable q R D) : L.SlabIn q R := ⟨M.recipient.1, by simp [M.recipient.2]⟩

theorem Meshable.dIn (M : L.Meshable q R D) : L.SlabIn q D := ⟨M.donor.1, by simp [M.donor.2]⟩

theorem Meshable.size_pos (M : L.Meshable q R D) (S : L.Sound cfg) : 0 < btmScToSize q.sc := by
  have := (S.carving.row M.recipient.1).size_ge
  omega

/-- A slot of a slab by its index. -/
theorem SlabIn.slot (hr : L.SlabIn q r) {i : ℕ} (hi : i < slabSlots q.sc) :
    L.SlotIn q r i (slotAddr r q.sc i) := ⟨hr, hi, rfl⟩

/-- The slots free in both slabs, by their index. -/
theorem mem_meshFree {s : ℕ} : s ∈ L.meshFree q R D ↔ ∃ i < slabSlots q.sc,
    slotAddr R q.sc i ∈ L.freeList R ∧ slotAddr D q.sc i ∈ L.freeList D ∧ s = slotAddr R q.sc i := by
  unfold meshFree
  rw [mem_bothFree]
  simp only [occupied, decide_eq_false_iff_not, not_not]
  rfl

theorem Meshable.sub (M : L.Meshable q R D) (S : L.Sound cfg) {s : ℕ} (hs : s ∈ L.freeList R) :
    L.place s = .free ∧ ∃ i, L.SlotIn q R i s :=
  S.free_of_mem M.rIn (by simp [M.recipient.2]) hs

/-- The ledgers differ in free slots that are out of use in `L'` only. -/
def Voids (L L' : Ledger) : Prop :=
  ∀ s, L'.place s = L.place s ∨ L.place s = .free ∧ L'.place s = .void

variable {L' : Ledger}

theorem Voids.trans {L'' : Ledger} (V : L.Voids L') (V' : L'.Voids L'') : L.Voids L'' := by
  intro s
  rcases V s with e | ⟨e, e'⟩
  · rcases V' s with e2 | ⟨e2, e2'⟩
    · exact Or.inl (e2.trans e)
    · exact Or.inr ⟨e ▸ e2, e2'⟩
  · rcases V' s with e2 | ⟨e2, -⟩
    · exact Or.inr ⟨e, e2.trans e'⟩
    · rw [e'] at e2
      cases e2

theorem Voids.busy (V : L.Voids L') (s : ℕ) : (L'.place s).busy = (L.place s).busy := by
  rcases V s with e | ⟨e, e'⟩
  · rw [e]
  · rw [e, e']
    rfl

theorem Voids.nonvoid (V : L.Voids L') {s : ℕ} (hs : L'.place s ≠ .void) : L'.place s = L.place s :=
  (V s).resolve_right fun e => hs e.2

theorem Voids.of_busy (V : L.Voids L') {s : ℕ} (hs : (L.place s).busy = true) :
    L'.place s = L.place s :=
  (V s).resolve_right fun e => by rw [e.1] at hs; cases hs

theorem Voids.cached (V : L.Voids L') {s t i : ℕ} :
    L'.place s = .cached t i ↔ L.place s = .cached t i := by
  constructor
  · intro e
    rw [← V.nonvoid (by simp [e]), e]
  · intro e
    rw [V.of_busy (by rw [e]; rfl), e]

theorem Voids.free (V : L.Voids L') {s : ℕ} (hs : L'.place s = .free) : L.place s = .free := by
  rw [← V.nonvoid (by simp [hs]), hs]

theorem Meshable.cede_voids (M : L.Meshable q R D) (S : L.Sound cfg) : L.Voids (L.cede q R D) := by
  intro s
  by_cases e : s ∈ L.freeList R ∧ s ∉ L.meshFree q R D
  · exact Or.inr ⟨(M.sub S e.1).1, if_pos e⟩
  · exact Or.inl (if_neg e)

theorem Sound.cede (S : L.Sound cfg) (M : L.Meshable q R D) : (L.cede q R D).Sound cfg := by
  have V := M.cede_voids S
  refine S.replace (fun s hs => ?_) (fun t i => ?_) (fun {s t i q' r' j} hs h => ?_)
    (fun {x} hx hx' => ?_) (fun {s q' x i} hs hx hp => ?_) (fun q' => ?_)
  · rw [← V.nonvoid hs]
    exact hs
  · exact (S.slots.bin t i).congr fun s => V.cached
  · exact S.slots.home (V.cached.mp hs) h
  · have hL := S.slots.freeList hx hx'
    by_cases e : x = R
    · subst e
      rw [show Function.update L.freeList x (L.meshFree q x D) x = L.meshFree q x D from
        Function.update_self ..]
      refine ⟨bothFree_nodup (M.size_pos S), fun s => ⟨fun hs => ?_, fun ⟨hp, hs⟩ => ?_⟩⟩
      · obtain ⟨i, hi, h1, h2, rfl⟩ := mem_meshFree.mp hs
        have h3 := hL.mem_iff.mp h1
        exact ⟨(if_neg fun h' => h'.2 hs).trans h3.1, h3.2⟩
      · by_contra hno
        have h1 : L.place s = .free := V.free hp
        have h2 : s ∈ L.freeList x := hL.mem_iff.mpr ⟨h1, hs⟩
        have h3 : (L.cede q x D).place s = .void := if_pos ⟨h2, hno⟩
        exact absurd (h3.symm.trans hp) (by simp)
    · rw [show Function.update L.freeList R (L.meshFree q R D) x = L.freeList x from
        Function.update_of_ne e ..]
      refine hL.congr fun s => and_congr_left fun ⟨q', i, hs⟩ => ?_
      have hno : s ∉ L.freeList R := fun hm => by
        obtain ⟨j, hj⟩ := (M.sub S hm).2
        exact e (S.carving.slotIn_inj hs hj).2.1
      exact Eq.congr_left (if_neg fun h' => hno h'.1)
  · exact S.slots.retired hs hx (V.free hp)
  · exact (S.slots.held q').congr fun s => and_congr_left fun _ => Eq.congr_left (V.busy s)

/-! ### Going out of use -/

theorem Sound.retire_voids (S : L.Sound cfg) (hr : L.SlabIn q r) (hst : L.stage r = .unlisted) :
    L.Voids (L.retire r) := by
  intro s
  by_cases e : s ∈ L.freeList r
  · exact Or.inr ⟨(S.free_of_mem hr (by simp [hst]) e).1, if_pos e⟩
  · exact Or.inl (if_neg e)

theorem retire_slab (hr : L.SlabIn q r) {q' : PoolId} {x : SlabRef} :
    (L.retire r).SlabIn q' x ↔ L.SlabIn q' x :=
  and_congr_right fun _ => update_stage_ne_uncarved hr.2 (by simp) x

theorem Sound.retire (S : L.Sound cfg) (hr : L.SlabIn q r) (hst : L.stage r = .unlisted) :
    (L.retire r).Sound cfg := by
  have V := S.retire_voids hr hst
  have hslab : ∀ {q' x}, (L.retire r).SlabIn q' x ↔ L.SlabIn q' x := retire_slab hr
  have hslot : ∀ {q' x i s}, (L.retire r).SlotIn q' x i s ↔ L.SlotIn q' x i s :=
    and_congr hslab Iff.rfl
  have hself : L.target r = r := S.meshed.self (by simp [hst])
  have hstage : ∀ {x}, x ≠ r → (L.retire r).stage x = L.stage x := fun e => Function.update_of_ne e ..
  refine ⟨⟨S.carving.valid, S.carving.aligned, S.carving.top_eq, fun x => ?_⟩,
    ⟨fun q => listing_other (S.lists.partials q) (by simp [hst]) (by simp),
      fun q => listing_other (S.lists.warm q) (by simp [hst]) (by simp),
      fun q => listing_other (S.lists.cold q) (by simp [hst]) (by simp),
      counted_same S.lists.counted (by simp [hst, Stage.counts]), S.lists.chunks, S.lists.active,
      S.lists.stack, S.lists.queue, S.lists.batch, S.lists.hand⟩,
    ⟨fun {s} hs => ?_, fun t i => (S.slots.bin t i).congr fun s => V.cached,
      fun hs h => S.slots.home (V.cached.mp hs) (hslot.mp h), fun {x} hx hx' => ?_,
      fun {s q' x i} hs hx hp => ?_, fun q' => ?_⟩,
    ⟨fun {x} hx => ?_, fun hx => hslab.mpr (S.meshed.pool (hslab.mp hx)), fun {x} hx hne => ?_,
      fun hs hs' h h' e => ?_⟩⟩
  · exact (update_stage_ne_uncarved hr.2 (by simp) x).trans (S.carving.carved x)
  · obtain ⟨q', x, i, h⟩ := S.slots.slot (s := s) (by rw [← V.nonvoid hs]; exact hs)
    exact ⟨q', x, i, hslot.mpr h⟩
  · have e : x ≠ r := by
      rintro rfl
      exact hx' (Function.update_self ..)
    rw [hstage e] at hx hx'
    refine (S.slots.freeList hx hx').congr fun s => ?_
    simp only [hslot]
    refine and_congr_left fun hx => ?_
    obtain ⟨q', i, hs⟩ := hx
    have hno : s ∉ L.freeList r := fun hm => by
      obtain ⟨j, hj⟩ := (S.free_of_mem hr (by simp [hst]) hm).2
      exact e (S.carving.slotIn_inj hs hj).2.1
    exact Eq.congr_left (if_neg hno)
  · have h1 : L.place s = .free := V.free hp
    by_cases e : x = r
    · subst e
      have hm := (S.slots.freeList hr.2 (by simp [hst])).mem_iff.mpr ⟨h1, q', i, hslot.mp hs⟩
      have h2 : (L.retire x).place s = .void := if_pos hm
      exact absurd (h2.symm.trans hp) (by simp)
    · rw [hstage e] at hx
      exact S.slots.retired (hslot.mp hs) hx h1
  · refine (S.slots.held q').congr fun s => ?_
    simp only [hslot, V.busy]
  · by_cases e : x = r
    · rw [e]
      exact hself
    · rw [hstage e] at hx
      exact S.meshed.self hx
  · have e : x ≠ r := by
      rintro rfl
      exact hne hself
    rw [hstage e] at hx
    obtain ⟨q', i, s, h, hv⟩ := S.meshed.donated hx hne
    refine ⟨q', i, s, hslot.mpr h, ?_⟩
    rcases V s with e' | e'
    · rw [e', hv]
    · exact e'.2
  · refine S.meshed.apart ?_ ?_ (hslot.mp h) (hslot.mp h') e
    · rw [← V.nonvoid hs]
      exact hs
    · rw [← V.nonvoid hs']
      exact hs'

/-! ### Showing another slab's pages -/

theorem Sound.redirect (S : L.Sound cfg) {t : SlabRef} (hr : L.SlabIn q r) (ht : L.SlabIn q t)
    (hst : L.stage r = .retired) (hself : L.target r = r) (hne : t ≠ r)
    (hvoid : ∃ i s, L.SlotIn q t i s ∧ L.place s = .void)
    (hfree : ∀ {s s' q' x i}, L.place s ≠ .void → L.place s' ≠ .void → L.SlotIn q r i s →
      L.SlotIn q' x i s' → L.target x ≠ t) : (L.redirect r t).Sound cfg := by
  have hother : ∀ {x}, x ≠ r → (L.redirect r t).target x = L.target x :=
    fun e => Function.update_of_ne e ..
  have hat : (L.redirect r t).target r = t := Function.update_self ..
  refine ⟨⟨S.carving.valid, S.carving.aligned, S.carving.top_eq, S.carving.carved⟩, ⟨S.lists.partials, S.lists.warm, S.lists.cold,
      S.lists.counted, S.lists.chunks, S.lists.active, S.lists.stack, S.lists.queue, S.lists.batch,
      S.lists.hand⟩, ⟨S.slots.slot, S.slots.bin, S.slots.home, S.slots.freeList, S.slots.retired,
      S.slots.held⟩, ⟨fun {x} hx => ?_, fun {q' x} hx => ?_, fun {x} hx hne' => ?_,
      fun {s s' q1 q2 x x' i} hs hs' h h' e => ?_⟩⟩
  · have e : x ≠ r := by
      rintro rfl
      exact hx hst
    rw [hother e]
    exact S.meshed.self hx
  · by_cases e : x = r
    · subst e
      rw [hat, hr.pool_unique hx]
      exact ht
    · rw [hother e]
      exact S.meshed.pool hx
  · by_cases e : x = r
    · subst e
      rw [hat]
      obtain ⟨i, s, hs⟩ := hvoid
      exact ⟨q, i, s, hs⟩
    · rw [hother e] at hne' ⊢
      exact S.meshed.donated hx hne'
  · by_cases e1 : x = r
    · subst e1
      have hq := hr.pool_unique h.1
      subst hq
      by_cases e2 : x' = x
      · subst e2
        have hq := hr.pool_unique h'.1
        subst hq
        exact h.2.2.trans h'.2.2.symm
      · rw [hat, hother e2] at e
        exact absurd e.symm (hfree hs hs' h h')
    · by_cases e2 : x' = r
      · subst e2
        have hq := hr.pool_unique h'.1
        subst hq
        rw [hat, hother e1] at e
        exact absurd e (hfree hs' hs h' h)
      · rw [hother e1, hother e2] at e
        exact S.meshed.apart hs hs' h h' e

end Ledger

/-! ## The moves on the heap -/

variable {rocc docc : ℕ → Bool}

/-- Copy the donor's objects and rebuild the recipient's freelist. -/
def meshGather (cfg : Config) (h : Heap) (R D : SlabRef) (rocc docc : ℕ → Bool) : Heap :=
  let h1 : Heap := { h with
    mem := meshCopy (btmSlabData h R) (btmSlabData h D) (btmScToSize (h.slabs R).sc) docc
      (h.slabs D).nslots h.mem }
  let b := meshRebuild cfg (btmSlabData h R) (btmScToSize (h.slabs R).sc) rocc docc (h.slabs R).nslots
    0 0 h1
  b.2.2.modSlab R fun x => { x with freeHead := b.1, freeCount := b.2.1 }

/-- Take the donor off the partial list for good. -/
def meshRetire (h : Heap) (q : PoolId) (D : SlabRef) : Heap :=
  (partialRemove h q D).modSlab D fun x => { x with retired := true }

theorem meshPair_eq : meshPair cfg k h q R D rocc docc =
    ((btmMeshRemap k (meshGather cfg h R D rocc docc) D R).1,
      meshRetire (btmMeshRemap k (meshGather cfg h R D rocc docc) D R).2 q D) := rfl

/-- What gathering does to the memory, the log and the recipient's descriptor. -/
structure Gathered (cfg : Config) (h : Heap) (L : Ledger) (q : PoolId) (R D : SlabRef) (m' : Mem)
    (log' : List Event) : Prop where
  pt : m'.pt = h.mem.pt
  keeps : Keeps L.Unit (fun s => s ∈ L.freeList R) h.mem m'
  /-- Every object of the donor is in the recipient, too. -/
  copied : ∀ {i s}, L.SlotIn q D i s → (L.place s).busy = true → ∀ b < btmScToSize q.sc,
    m'.read (slotAddr R q.sc i + b) = m'.read (s + b)
  chain : Chain (flNext cfg m') (ptr ((L.meshFree q R D).headD 0)) (L.meshFree q R D)
  log : LinkLog (fun _ => False) h.log log'
  fresh : ∀ s ∈ L.meshFree q R D, Fresh log' s

theorem bothFree_congr {Rd z n : ℕ} {rocc' docc' : ℕ → Bool} (hr : ∀ i < n, rocc i = rocc' i)
    (hd : ∀ i < n, docc i = docc' i) : bothFree Rd z rocc docc n = bothFree Rd z rocc' docc' n := by
  unfold bothFree
  congr 1
  refine List.filter_congr fun i hi => ?_
  have := List.mem_range.mp hi
  rw [hr i this, hd i this]

/-- The donor's slot of an index is not the recipient's slot of any. -/
theorem Ledger.Meshable.slot_ne (M : L.Meshable q R D) (S : L.Sound cfg) {i j : ℕ}
    (hi : i < slabSlots q.sc) (hj : j < slabSlots q.sc) : slotAddr D q.sc i ≠ slotAddr R q.sc j :=
  fun e => M.ne (S.carving.slotIn_inj (M.rIn.slot hj) (e ▸ M.dIn.slot hi)).2.1

theorem gather_spec (H : HeapRep cfg h bins L) (S : L.Sound cfg) (M : L.Meshable q R D)
    (hR : ∀ i < slabSlots q.sc, rocc i = L.occupied q R i)
    (hD : ∀ i < slabSlots q.sc, docc i = L.occupied q D i) :
    ∃ m' log', meshGather cfg h R D rocc docc = { h with
        mem := m', log := log'
        slabs := Function.update h.slabs R { h.slabs R with
          freeHead := (L.meshFree q R D).headD 0, freeCount := (L.meshFree q R D).length } } ∧
      Gathered cfg h L q R D m' log' := by
  have dR := H.desc q R M.rIn
  have dD := H.desc q D M.dIn
  have hz := M.size_pos S
  have hA := H.apart S
  have eR : btmSlabData h R = R.chunk + R.page * pageSize := by rw [btmSlabData, dR.firstPage]
  have eD : btmSlabData h D = D.chunk + D.page * pageSize := by rw [btmSlabData, dD.firstPage]
  have hfree : bothFree (R.chunk + R.page * pageSize) (btmScToSize q.sc) rocc docc (slabSlots q.sc) =
      L.meshFree q R D := bothFree_congr hR hD
  -- an occupied index of the donor is a free slot of the recipient
  have hslot : ∀ i < slabSlots q.sc, docc i = true → slotAddr R q.sc i ∈ L.freeList R := by
    intro i hi hd
    rw [hD i hi] at hd
    exact (M.disjoint i hi).resolve_right (of_decide_eq_true hd)
  have hu : ∀ i < slabSlots q.sc, docc i = true → L.Unit (slotAddr R q.sc i) (btmScToSize q.sc) := by
    intro i hi hd
    exact .slot (by simp [(M.sub S (hslot i hi hd)).1]) (M.rIn.slot hi)
  obtain ⟨hpt, hk⟩ := meshCopy_keeps hA (D.chunk + D.page * pageSize) hu
  set m1 := meshCopy (R.chunk + R.page * pageSize) (D.chunk + D.page * pageSize) (btmScToSize q.sc) docc
    (slabSlots q.sc) h.mem with hm1
  have hcell : ∀ s ∈ bothFree (R.chunk + R.page * pageSize) (btmScToSize q.sc) rocc docc
      (slabSlots q.sc), Cell L.Unit s := by
    intro s hs
    rw [hfree] at hs
    obtain ⟨i, hi, h1, -, rfl⟩ := Ledger.mem_meshFree.mp hs
    exact S.cell (by simp [(M.sub S h1).1])
  obtain ⟨head, m', log', he, hpt', hk', hch, hlog, hfr⟩ := meshRebuild_spec (c := 0)
    (h := { h with mem := m1 }) hz (hA.congr_pt hpt) hcell (by norm_num)
    (show Chain (flNext cfg m1) (ptr 0) [] from rfl) (by simp)
  rw [hfree] at he hk' hch hfr
  rw [List.append_nil] at hch
  have hhead := chain_ptr_head hch
  -- neither loop writes a slot of the donor that is in use
  have hsub : ∀ {s}, s ∈ L.meshFree q R D → s ∈ L.freeList R := by
    intro s hs
    obtain ⟨i, hi, h1, -, rfl⟩ := Ledger.mem_meshFree.mp hs
    exact h1
  have hkeeps : Keeps L.Unit (fun s => s ∈ L.freeList R) h.mem m' :=
    (hk.mono fun _ hs => by obtain ⟨i, hi, hd, e⟩ := hs; rw [e]; exact hslot i hi hd).trans
      (hk'.mono fun _ hs => hsub hs)
  refine ⟨m', log', ?_, hpt'.trans hpt, hkeeps, fun {i s} hs hb b hb' => ?_, by rwa [← hhead], hlog,
    hfr⟩
  · unfold meshGather
    rw [eR, eD, dR.sc, dR.nslots, dD.nslots, ← hm1]
    dsimp only
    rw [he, ← hhead, Nat.zero_add]
    rfl
  · have hi := hs.2.1
    have hno : s ∉ L.freeList D := fun hm => by
      rw [(S.free_of_mem M.dIn (by simp [M.donor.2]) hm).1] at hb
      cases hb
    have hu' : L.Unit s (btmScToSize q.sc) := .slot (fun e => by rw [e] at hb; cases hb) hs
    have hnR : s ∉ L.freeList R := fun hm => by
      rw [(M.sub S hm).1] at hb
      cases hb
    obtain rfl := hs.2.2
    have hd : docc i = true := by
      rw [hD i hi]
      exact decide_eq_true hno
    have h1 : m'.read (slotAddr R q.sc i + b) = m1.read (slotAddr R q.sc i + b) := by
      refine hk' (hu i hi hd) (fun hm => ?_) hb'
      obtain ⟨j, hj, -, h2, e⟩ := Ledger.mem_meshFree.mp hm
      have e' := addr_inj hz e
      subst e'
      exact hno h2
    have h2 := meshCopy_read hA (D.chunk + D.page * pageSize) hz hu hi hd hu'
      (fun j hj _ => M.slot_ne S hi hj) hb'
    rw [h1, hkeeps hu' hnR hb']
    exact h2

/-- Gathering keeps the heap standing for the ledger in which the recipient ceded its slots. -/
theorem gather_rep (H : HeapRep cfg h bins L) (S : L.Sound cfg) (M : L.Meshable q R D) {m' : Mem}
    {log' : List Event} (G : Gathered cfg h L q R D m' log') :
    HeapRep cfg { h with
      mem := m', log := log'
      slabs := Function.update h.slabs R { h.slabs R with
        freeHead := (L.meshFree q R D).headD 0, freeCount := (L.meshFree q R D).length } } bins
      (L.cede q R D) := by
  have hbusy : ∀ {t i}, ∀ s ∈ L.bin t i, s ∉ L.freeList R := by
    intro t i s hs hm
    have h1 := S.bin_place hs
    rw [(M.sub S hm).1] at h1
    cases h1
  refine H.replace G.pt (fun q' x hx => ?_) (fun q' => ?_) H.tally (fun _ => rfl) (fun _ => rfl)
    (fun q' x hx hi => ?_) (fun t i => ⟨?_, fun s hs => G.log.fresh (H.log.bin hs)⟩)
    (G.log.good H.log.good (fun _ hf => hf.elim))
  · have dx := H.desc q' x hx
    by_cases e : x = R
    · subst e
      simp only [Function.update_self]
      exact ⟨dx.firstPage, dx.npages, dx.nslots, dx.sc, dx.partIdx, dx.inPartial, dx.decommitted,
        dx.retired, fun _ => rfl⟩
    · simpa only [Function.update_of_ne e] using dx
  · exact (H.lists q').congr rfl rfl rfl rfl
      (fun x _ => ⟨update_proj Slab.next (by rfl) x, update_proj Slab.prev (by rfl) x⟩)
      (fun x _ => update_proj Slab.next (by rfl) x) (fun x _ => update_proj Slab.next (by rfl) x)
  · by_cases e : x = R
    · subst e
      simp only [Function.update_self]
      exact ⟨G.chain, G.fresh⟩
    · simp only [Function.update_of_ne e]
      have hx' := Stage.intact_ne_retired hi
      refine ⟨keeps_chain G.keeps (H.free q' x hx hi) (fun s hs => ⟨?_, fun hm => ?_⟩),
        fun s hs => G.log.fresh (H.log.free hx hi hs)⟩
      · exact S.cell (by simp [S.freeList_place hx hx' hs])
      · obtain ⟨i, h1⟩ := (S.free_of_mem hx hx' hs).2
        obtain ⟨j, h2⟩ := (M.sub S hm).2
        exact e (S.carving.slotIn_inj h1 h2).2.1
  · have hB := H.bins t i
    exact ⟨keeps_chain G.keeps hB.chain fun s hs =>
      ⟨S.cell (by simp [S.bin_place hs]), hbusy s hs⟩, hB.count, hB.pool⟩

/-- A slab that is on no list goes out of use. -/
theorem retire_rep (H : HeapRep cfg h bins L) (hr : L.SlabIn q r)
    (hst : L.stage r = .unlisted) :
    HeapRep cfg (h.modSlab r fun x => { x with retired := true }) bins (L.retire r) := by
  have hslab : ∀ {q' x}, (L.retire r).SlabIn q' x ↔ L.SlabIn q' x := Ledger.retire_slab hr
  have hstage : ∀ {x}, x ≠ r → (L.retire r).stage x = L.stage x := fun e => Function.update_of_ne e ..
  have hne : ∀ {x}, ((L.retire r).stage x).intact = true → x ≠ r := by
    rintro x hx rfl
    rw [show (L.retire x).stage x = .retired from Function.update_self ..] at hx
    cases hx
  have hnext : ∀ x, (Function.update h.slabs r { h.slabs r with retired := true } x).next =
      (h.slabs x).next := fun x => update_proj Slab.next (by rfl) x
  refine ⟨fun q' x hx => ?_, fun q' => (H.lists q').congr rfl rfl rfl rfl
      (fun x _ => ⟨hnext x, update_proj Slab.prev (by rfl) x⟩) (fun x _ => hnext x)
      (fun x _ => hnext x), H.tally, fun q' c hc => (H.header q' c hc).congr rfl rfl
      (fun x _ hx => (Ledger.update_stage_ne_uncarved hr.2 (by simp) x).mp hx), H.chunks,
    H.depot.congr rfl rfl, fun q' x hx hi => ?_, H.bins,
    H.frame.congr rfl rfl rfl (fun _ _ hx => hslab.mp hx), H.space.congr (fun _ hc => hc) rfl,
    H.owner.congr (fun _ hc => hc) rfl, ⟨H.log.good, fun {q' x} hx hi s hs => ?_, H.log.bin⟩⟩
  · have dx := H.desc q' x (hslab.mp hx)
    show Desc q' x ((L.retire r).stage x) _
      (Function.update h.slabs r { h.slabs r with retired := true } x)
    by_cases e : x = r
    · subst e
      rw [show (L.retire x).stage x = .retired from Function.update_self .., Function.update_self]
      rw [hst] at dx
      exact ⟨dx.firstPage, dx.npages, dx.nslots, dx.sc, dx.partIdx, dx.inPartial, dx.decommitted, rfl,
        fun h' => absurd rfl h'⟩
    · rw [hstage e, Function.update_of_ne e]
      exact dx
  · have e := hne hi
    show Chain _ (ptr (Function.update h.slabs r { h.slabs r with retired := true } x).freeHead) _
    rw [Function.update_of_ne e]
    rw [hstage e] at hi
    exact H.free q' x (hslab.mp hx) hi
  · have e := hne hi
    rw [hstage e] at hi
    exact H.log.free (hslab.mp hx) hi hs

/-! ### The remap -/

/-- The memory in which the pages of slab `D` show those of slab `R` and its own file pages read as
    zero. -/
def meshShow (h : Heap) (q : PoolId) (D R : SlabRef) : Mem :=
  (h.mem.remap (D.chunk / 4096 + D.page) (btmScRunPages q.sc) fun i =>
    .memfd ((h.chunks R.chunk).memfdOff / 4096 + R.page + i)).zero
    (fileIn ((h.chunks D.chunk).memfdOff + D.page * 4096) (btmScRunPages q.sc * 4096))

/-- The heap after a remap that succeeded. -/
def meshShown (h : Heap) (q : PoolId) (D R : SlabRef) : Heap :=
  { h with
    mapped := fun p => inPages (D.chunk + D.page * 4096) (btmScRunPages q.sc * 4096) p || h.mapped p
    mem := meshShow h q D R }

theorem btmMeshRemap_eq (H : HeapRep cfg h bins L) (S : L.Sound cfg) (hm : cfg.meshMode = true)
    (hD : L.SlabIn q D) (hR : L.SlabIn q R) : btmMeshRemap k h D R =
      if k.remap D then (btmScRunPages q.sc * 4096, meshShown h q D R) else (0, h) := by
  have dD := H.desc q D hD
  have dR := H.desc q R hR
  have hc := (S.carving.aligned hD.holder_ne).1
  have ho := H.frame.off_mod hm hR.holder_ne
  simp only [chunkSize_eq] at hc ho
  unfold btmMeshRemap meshShown meshShow Heap.mmapMemfd Heap.punchHole
  simp only [dD.npages, dD.firstPage, dR.firstPage, pageSize_eq]
  rw [show (D.chunk + D.page * 4096) / 4096 = D.chunk / 4096 + D.page by omega,
    show btmScRunPages q.sc * 4096 / 4096 = btmScRunPages q.sc by omega,
    show ((h.chunks R.chunk).memfdOff + R.page * 4096) / 4096 =
      (h.chunks R.chunk).memfdOff / 4096 + R.page by omega]

/-- The slabs in a redirect: `D` has its data in its own pages, so has `R`, and no other slab shows
    the pages of `D`. -/
structure Redirects (L : Ledger) (q : PoolId) (D R : SlabRef) : Prop where
  dIn : L.SlabIn q D
  rIn : L.SlabIn q R
  ne : R ≠ D
  dSelf : L.target D = D
  rSelf : L.target R = R
  other : ∀ {q' x}, L.SlabIn q' x → x ≠ D → L.target x ≠ D

/-- The page table after the remap. -/
theorem meshShow_pt : (∀ {j}, j < btmScRunPages q.sc →
      (meshShow h q D R).pt (D.chunk / 4096 + D.page + j) =
        .memfd ((h.chunks R.chunk).memfdOff / 4096 + R.page + j)) ∧
    ∀ {p}, ¬ inRun (D.chunk / 4096 + D.page) (btmScRunPages q.sc) p →
      (meshShow h q D R).pt p = h.mem.pt p := by
  have hpt : ∀ p, (meshShow h q D R).pt p = (h.mem.remap (D.chunk / 4096 + D.page)
      (btmScRunPages q.sc) fun i =>
        .memfd ((h.chunks R.chunk).memfdOff / 4096 + R.page + i)).pt p := fun _ => rfl
  constructor
  · intro j hj
    rw [hpt, remap_pt, if_pos (by omega), Nat.add_sub_cancel_left]
  · intro p hp
    rw [hpt, remap_pt, if_neg (show ¬ (_ ∧ _) from hp)]

/-- A byte that is not on the donor's own file pages. -/
theorem meshShow_read {a : ℕ} (hz : fileIn ((h.chunks D.chunk).memfdOff + D.page * 4096)
    (btmScRunPages q.sc * 4096) ((meshShow h q D R).pt (a / 4096)) = false) :
    (meshShow h q D R).read a = h.mem.bytes ((meshShow h q D R).pt (a / 4096)) (a % 4096) := by
  have e : ∀ f : Frame, f = (meshShow h q D R).pt (a / 4096) →
      (meshShow h q D R).read a = if fileIn ((h.chunks D.chunk).memfdOff + D.page * 4096)
        (btmScRunPages q.sc * 4096) f then 0 else h.mem.bytes f (a % 4096) := by
    rintro f rfl
    rfl
  rw [e _ rfl, hz]
  rfl

/-- A page of another slab is none of the donor's. -/
theorem Redirects.page_off (T : Redirects L q D R) (S : L.Sound cfg) {q' : PoolId} {x : SlabRef}
    (hx : L.SlabIn q' x) (hne : x ≠ D) {j : ℕ} (hj : j < btmScRunPages q'.sc) :
    ¬ inRun (D.chunk / 4096 + D.page) (btmScRunPages q.sc) (x.chunk / 4096 + x.page + j) := by
  intro hr
  have c1 := (S.carving.aligned T.dIn.holder_ne).1
  have c2 := (S.carving.aligned hx.holder_ne).1
  simp only [chunkSize_eq] at c1 c2
  have g1 := S.carving.slab_page T.dIn
  have g2 := S.carving.slab_page hx
  obtain ⟨h1, h2⟩ := hr
  have hc : x.chunk = D.chunk := by omega
  exact hne (S.carving.slab_page_inj hx T.dIn hj
    (show x.chunk / 4096 + x.page + j - (D.chunk / 4096 + D.page) < _ by omega) hc (by omega)).2.1

/-- A file page of another slab is none of the donor's. -/
theorem Redirects.file_off (T : Redirects L q D R) (F : FrameRep cfg h.mem.pt h.chunks h.memfdBump
    h.memfdFree L) (S : L.Sound cfg) (hm : cfg.meshMode = true) {q' : PoolId} {x : SlabRef}
    (hx : L.SlabIn q' x) (hne : x ≠ D) {j : ℕ} (hj : j < btmScRunPages q'.sc) :
    fileIn ((h.chunks D.chunk).memfdOff + D.page * 4096) (btmScRunPages q.sc * 4096)
      (.memfd ((h.chunks x.chunk).memfdOff / 4096 + x.page + j)) = false := by
  have o1 := F.off_mod hm T.dIn.holder_ne
  simp only [chunkSize_eq] at o1
  by_contra hz
  simp only [Bool.not_eq_false, fileIn, inPages_iff] at hz
  obtain ⟨h1, h2⟩ := hz
  exact hne (F.file_page_inj S.carving hm hx T.dIn hj (show (h.chunks x.chunk).memfdOff / 4096 + x.page +
    j - ((h.chunks D.chunk).memfdOff / 4096 + D.page) < _ by omega) (by omega)).2.1

/-- An anonymous page is none of the donor's. -/
theorem Redirects.anon_off (T : Redirects L q D R) (F : FrameRep cfg h.mem.pt h.chunks h.memfdBump
    h.memfdFree L) (hm : cfg.meshMode = true) {p v : ℕ} (hp : h.mem.pt p = .anon v) :
    ¬ inRun (D.chunk / 4096 + D.page) (btmScRunPages q.sc) p := by
  rintro ⟨h1, h2⟩
  have := F.slab hm T.dIn (j := p - (D.chunk / 4096 + D.page)) (by omega)
  simp only [pageSize_eq] at this
  rw [show D.chunk / 4096 + D.page + (p - (D.chunk / 4096 + D.page)) = p by omega, hp] at this
  cases this

/-- A remap keeps every byte in use, if the donor's objects are in the recipient. -/
theorem meshShow_keeps (T : Redirects L q D R) (H : HeapRep cfg h bins L) (S : L.Sound cfg)
    (hm : cfg.meshMode = true)
    (hcopy : ∀ {i s}, L.SlotIn q D i s → L.place s ≠ .void → ∀ b < btmScToSize q.sc,
      h.mem.read (slotAddr R q.sc i + b) = h.mem.read (s + b)) :
    Keeps L.Unit (fun _ => False) h.mem (meshShow h q D R) := by
  obtain ⟨hp1, hp2⟩ := meshShow_pt (h := h) (q := q) (D := D) (R := R)
  intro a n i hu _ hi
  cases hu with
  | @slot q' x i' _ hv hs =>
    obtain ⟨j, hj, hpage, hpos⟩ := (S.carving.slotPos hs).offset hi
    by_cases e : x = D
    · -- the recipient shows the byte at the same index
      subst e
      obtain rfl := T.dIn.pool_unique hs.1
      have hR := H.frame.slab hm T.rIn hj
      rw [T.rSelf] at hR
      simp only [pageSize_eq] at hR
      have hread := meshShow_read (h := h) (q := q') (D := x) (R := R) (a := a + i) (by
        rw [hpage, hp1 hj]
        exact T.file_off H.frame S hm T.rIn T.ne hj)
      rw [hread, hpage, hp1 hj, ← hcopy hs hv i hi]
      have c1 := (S.carving.aligned T.rIn.holder_ne).1
      have c2 := (S.carving.aligned T.dIn.holder_ne).1
      simp only [chunkSize_eq] at c1 c2
      have e1 := hs.2.2
      have e2 : slotAddr R q'.sc i' = R.chunk + R.page * 4096 + i' * btmScToSize q'.sc := rfl
      simp only [slotAddr, pageSize_eq] at e1
      have hpg : (slotAddr R q'.sc i' + i) / 4096 = R.chunk / 4096 + R.page + j := by omega
      have hof : (slotAddr R q'.sc i' + i) % 4096 = (a + i) % 4096 := by omega
      unfold PagedMemory.read
      rw [hpg, hof, hR]
    · have hoff := T.page_off S hs.1 e hj
      have hx := H.frame.slab hm hs.1 hj
      simp only [pageSize_eq] at hx
      have hread := meshShow_read (h := h) (q := q) (D := D) (R := R) (a := a + i) (by
        rw [hpage, hp2 hoff, hx]
        exact T.file_off H.frame S hm (S.meshed.pool hs.1) (T.other hs.1 e) hj)
      rw [hread, hpage, hp2 hoff, ← hpage]
      rfl
  | @large b hd hl =>
    have hf := (H.space.large hl).frame_byte hi
    have hoff := T.anon_off H.frame hm hf
    have hread := meshShow_read (h := h) (q := q) (D := D) (R := R) (a := a + i) (by
      rw [hp2 hoff, hf]
      rfl)
    rw [hread, hp2 hoff]
    rfl

theorem Redirects.frame (T : Redirects L q D R) (F : FrameRep cfg h.mem.pt h.chunks h.memfdBump
    h.memfdFree L) (S : L.Sound cfg) (hm : cfg.meshMode = true) :
    FrameRep cfg (meshShow h q D R).pt h.chunks h.memfdBump h.memfdFree (L.redirect D R) := by
  obtain ⟨hp1, hp2⟩ := meshShow_pt (h := h) (q := q) (D := D) (R := R)
  have hoff : ∀ {q' x}, (L.redirect D R).SlabIn q' x → L.SlabIn q' x := id
  refine ⟨fun h0 => absurd (hm.symm.trans h0) (by simp), fun _ {q' x} hx {j} hj => ?_,
    fun _ {c} hc {j} hf hj => ?_, F.off_mod, F.off_inj, F.off_lt, F.off_freed, F.freed_mod, F.freed_lt,
    F.freed_nodup, F.bump_mod⟩
  · by_cases e : x = D
    · subst e
      obtain rfl := T.dIn.pool_unique (hoff hx)
      rw [show (L.redirect x R).target x = R from Function.update_self ..]
      exact hp1 hj
    · rw [show (L.redirect D R).target x = L.target x from Function.update_of_ne e ..]
      simp only [pageSize_eq]
      rw [hp2 (T.page_off S (hoff hx) e hj)]
      have := F.slab hm (hoff hx) hj
      simpa only [pageSize_eq] using this
  · have hno : ¬ inRun (D.chunk / 4096 + D.page) (btmScRunPages q.sc) (c / 4096 + j) := by
      rintro ⟨h1, h2⟩
      have c1 := (S.carving.aligned T.dIn.holder_ne).1
      have c2 := (S.carving.aligned (c := c) hc).1
      simp only [chunkSize_eq] at c1 c2
      simp only [pagesPerChunk_eq] at hj
      have g := S.carving.slab_page T.dIn
      have e : c = D.chunk := by omega
      subst e
      rw [show (L.redirect D R).floor D.chunk = L.top D.chunk by
        simp only [Ledger.floor, Ledger.redirect, T.dIn.1]] at hf
      omega
    simp only [pageSize_eq]
    rw [hp2 hno]
    have := F.rest hm (c := c) hc hf hj
    simpa only [pageSize_eq] using this

/-- After a remap the heap stands for the ledger in which the donor has its data in the recipient. -/
theorem redirect_rep (T : Redirects L q D R) (H : HeapRep cfg h bins L) (S : L.Sound cfg)
    (hm : cfg.meshMode = true)
    (hcopy : ∀ {i s}, L.SlotIn q D i s → L.place s ≠ .void → ∀ b < btmScToSize q.sc,
      h.mem.read (slotAddr R q.sc i + b) = h.mem.read (s + b)) :
    HeapRep cfg (meshShown h q D R) bins (L.redirect D R) := by
  have hk := meshShow_keeps T H S hm hcopy
  have hmap : ∀ {p}, h.mapped p = true → (meshShown h q D R).mapped p = true := fun {p} hp => by
    show (inPages _ _ p || h.mapped p) = true
    rw [hp, Bool.or_true]
  refine ⟨H.desc, H.lists, H.tally, fun q' c hc => (H.header q' c hc).congr rfl rfl fun _ _ hx => hx,
    H.chunks, H.depot.congr rfl rfl, fun q' x hx hi => ?_, fun t i => ?_, T.frame H.frame S hm, ?_,
    H.owner.congr (fun _ hc => hc) rfl, ⟨H.log.good, H.log.free, H.log.bin⟩⟩
  · exact keeps_chain hk (H.free q' x hx hi) fun s hs =>
      ⟨S.cell (by simp [S.freeList_place hx (Stage.intact_ne_retired hi) hs]), id⟩
  · have hB := H.bins t i
    exact ⟨keeps_chain hk hB.chain fun s hs => ⟨S.cell (by simp [S.bin_place hs]), id⟩, hB.count,
      hB.pool⟩
  · refine ⟨fun hc j hj => hmap (H.space.chunk hc hj), fun {b hd} hb => ?_, H.space.header,
      fun h1 h2 => H.space.unique (h1.congr (fun _ hc => hc) rfl) (h2.congr (fun _ hc => hc) rfl)⟩
    have ho := H.space.large hb
    refine ⟨ho.base_mod, ho.base_pos, ho.len_mod, ho.le, ho.off_ge, ho.off_mod, ho.off_lt,
      fun hj => hmap (ho.mapped hj), fun {j} hj => ?_⟩
    show (meshShow h q D R).pt _ = _
    rw [meshShow_pt.2 (T.anon_off H.frame hm (ho.frame hj)), ho.frame hj]

/-! ## `mesh_pair` -/

namespace Ledger.Meshable

variable (M : L.Meshable q R D)

include M

theorem cede_dIn : (L.cede q R D).SlabIn q D := M.dIn

theorem delist_dIn : ((L.cede q R D).delist q D).SlabIn q D :=
  ⟨M.donor.1, (Ledger.update_stage_ne_uncarved M.cede_dIn.2 (by simp) D).mpr M.cede_dIn.2⟩

theorem unpair_slab {q' : PoolId} {x : SlabRef} : (L.unpair q R D).SlabIn q' x ↔ L.SlabIn q' x :=
  (Ledger.retire_slab M.delist_dIn).trans
    (and_congr_right fun _ => Ledger.update_stage_ne_uncarved M.cede_dIn.2 (by simp) x)

theorem unpair_slot {q' : PoolId} {x : SlabRef} {i s : ℕ} :
    (L.unpair q R D).SlotIn q' x i s ↔ L.SlotIn q' x i s := and_congr M.unpair_slab Iff.rfl

theorem unpair_sound (S : L.Sound cfg) : (L.unpair q R D).Sound cfg :=
  ((S.cede M).delist M.cede_dIn M.donor.2).retire M.delist_dIn (Function.update_self ..)

theorem unpair_voids (S : L.Sound cfg) : L.Voids (L.unpair q R D) :=
  (M.cede_voids S).trans
    (((S.cede M).delist M.cede_dIn M.donor.2).retire_voids M.delist_dIn (Function.update_self ..))

/-- The donor's slots that are still in use are those that were busy. -/
theorem unpair_busy (S : L.Sound cfg) {i s : ℕ} (hs : L.SlotIn q D i s)
    (hp : (L.unpair q R D).place s ≠ .void) : (L.place s).busy = true := by
  have hV := (M.unpair_voids S).nonvoid hp
  rw [hV] at hp
  cases hb : L.place s with
  | void => exact absurd hb hp
  | free =>
    -- a free slot of the donor went out of use
    have h1 : s ∈ L.freeList D :=
      (S.slots.freeList M.dIn.2 (by simp [M.donor.2])).mem_iff.mpr ⟨hb, q, i, hs⟩
    have h2 : s ∈ ((L.cede q R D).delist q D).freeList D := by
      rw [show ((L.cede q R D).delist q D).freeList D = L.freeList D from
        Function.update_of_ne (Ne.symm M.ne) ..]
      exact h1
    have h3 : (L.unpair q R D).place s = .void := if_pos h2
    rw [hV, hb] at h3
    cases h3
  | cached t j => rfl
  | out => rfl

/-- The recipient's slots at the donor's occupied indices go out of use. -/
theorem unpair_void (S : L.Sound cfg) {i : ℕ} (hi : i < slabSlots q.sc)
    (hd : slotAddr D q.sc i ∉ L.freeList D) : (L.unpair q R D).place (slotAddr R q.sc i) = .void := by
  have h1 : slotAddr R q.sc i ∈ L.freeList R := (M.disjoint i hi).resolve_right hd
  have h2 : (L.cede q R D).place (slotAddr R q.sc i) = .void := by
    refine if_pos ⟨h1, fun hm => ?_⟩
    obtain ⟨j, -, -, h3, e⟩ := Ledger.mem_meshFree.mp hm
    rw [addr_inj (M.size_pos S) e] at hd
    exact hd h3
  show (if _ then _ else _) = _
  split
  · rfl
  · exact h2

/-- The donor can show the recipient's pages unless another slab shows the donor's. -/
theorem redirects (S : L.Sound cfg) (hback : ∀ {q' x}, L.SlabIn q' x → x ≠ D → L.target x ≠ D) :
    Redirects (L.unpair q R D) q D R :=
  ⟨M.unpair_slab.mpr M.dIn, M.unpair_slab.mpr M.rIn, M.ne, S.meshed.self (by simp [M.donor.2]),
    S.meshed.self (by simp [M.recipient.2]), fun hx e => hback (M.unpair_slab.mp hx) e⟩

theorem redirect_sound (S : L.Sound cfg) : ((L.unpair q R D).redirect D R).Sound cfg := by
  have V := M.unpair_voids S
  refine (M.unpair_sound S).redirect (M.unpair_slab.mpr M.dIn) (M.unpair_slab.mpr M.rIn)
    (Function.update_self ..) (S.meshed.self (by simp [M.donor.2])) M.ne ?_ ?_
  · obtain ⟨i, hi, hd⟩ := M.used
    exact ⟨i, _, M.unpair_slot.mpr (M.rIn.slot hi), M.unpair_void S hi hd⟩
  · intro s s' q' x i hs hs' h h' e
    have h := M.unpair_slot.mp h
    have h' := M.unpair_slot.mp h'
    have hi := h.2.1
    have hd : slotAddr D q.sc i ∉ L.freeList D := fun hm => by
      have hb := M.unpair_busy S h hs
      rw [h.2.2, (S.free_of_mem M.dIn (by simp [M.donor.2]) hm).1] at hb
      cases hb
    have hR : slotAddr R q.sc i ∈ L.freeList R := (M.disjoint i hi).resolve_right hd
    -- the recipient's slot of that index was free, so nobody else had its place
    have e1 := S.meshed.apart (by rw [← V.nonvoid hs']; exact hs') (by simp [(M.sub S hR).1]) h'
      (M.rIn.slot hi) (e.trans (S.meshed.self (by simp [M.recipient.2])).symm)
    rw [e1] at hs'
    exact hs' (M.unpair_void S hi hd)

end Ledger.Meshable

/-- No other slab shows the pages of slab `D`. -/
def Ledger.Unshown (L : Ledger) (D : SlabRef) : Prop :=
  ∀ ⦃q x⦄, L.SlabIn q x → x ≠ D → L.target x ≠ D

/-- Retiring the donor and remapping its pages do not get in each other's way. -/
theorem meshRetire_shown : meshRetire (meshShown h q D R) q D = meshShown (meshRetire h q D) q D R := by
  unfold meshRetire
  rw [partialRemove_eq, partialRemove_eq]
  rfl

/-- A mesh took heap `h` and ledger `L` to `h'` and `L'`. -/
structure MeshDone (cfg : Config) (bins : ℕ → ℕ → Bin) (h : Heap) (L : Ledger) (h' : Heap)
    (L' : Ledger) : Prop where
  sound : L'.Sound cfg
  rep : HeapRep cfg h' bins L'
  bytes : Keeps L.Busy (fun _ => False) h.mem h'.mem
  voids : L.Voids L'

/-- `mesh_pair` of two slabs that can be meshed. A remap that succeeds must not take pages away that
    another slab shows. -/
theorem meshPair_spec (H : HeapRep cfg h bins L) (S : L.Sound cfg) (hm : cfg.meshMode = true)
    (M : L.Meshable q R D) (hR : ∀ i < slabSlots q.sc, rocc i = L.occupied q R i)
    (hD : ∀ i < slabSlots q.sc, docc i = L.occupied q D i) (hback : k.remap D = true → L.Unshown D) :
    (meshPair cfg k h q R D rocc docc).1 = (if k.remap D then btmScRunPages q.sc * 4096 else 0) ∧
      MeshDone cfg bins h L (meshPair cfg k h q R D rocc docc).2 (L.mesh q R D (k.remap D)) := by
  obtain ⟨m', log', he, G⟩ := gather_spec H S M hR hD
  have H1 := gather_rep H S M G
  rw [← he] at H1
  have hmem : (meshGather cfg h R D rocc docc).mem = m' := by rw [he]
  have H2 := retire_rep (partialRemove_rep H1 (S.cede M) M.cede_dIn M.donor.2) M.delist_dIn
    (Function.update_self ..)
  change HeapRep cfg (meshRetire (meshGather cfg h R D rocc docc) q D) bins (L.unpair q R D) at H2
  have hmem2 : (meshRetire (meshGather cfg h R D rocc docc) q D).mem = m' := by
    rw [← hmem, meshRetire, partialRemove_eq]
    rfl
  have hbusy : Keeps L.Busy (fun _ => False) h.mem m' := by
    intro a n i hb _ hi
    refine G.keeps hb.unit (fun hm => ?_) hi
    cases hb with
    | slot hb hs =>
      rw [(M.sub S hm).1] at hb
      cases hb
    | large hl =>
      obtain ⟨j, hj⟩ := (M.sub S hm).2
      exact H.space.large_ne_slot S hl hj rfl
  rw [meshPair_eq, btmMeshRemap_eq H1 (S.cede M) hm M.cede_dIn M.rIn]
  cases hk : k.remap D with
  | false =>
    exact ⟨rfl, M.unpair_sound S, H2, by rw [← hmem2] at hbusy; exact hbusy, M.unpair_voids S⟩
  | true =>
    have T := M.redirects S (fun hx e => hback hk hx e)
    have hcopy : ∀ {i s}, (L.unpair q R D).SlotIn q D i s → (L.unpair q R D).place s ≠ .void →
        ∀ b < btmScToSize q.sc, m'.read (slotAddr R q.sc i + b) = m'.read (s + b) :=
      fun hs hp => G.copied (M.unpair_slot.mp hs) (M.unpair_busy S (M.unpair_slot.mp hs) hp)
    rw [← hmem2] at hcopy
    have hk2 := meshShow_keeps T H2 (M.unpair_sound S) hm hcopy
    refine ⟨rfl, M.redirect_sound S, ?_, fun a n i hb _ hi => ?_, fun s => M.unpair_voids S s⟩
    · show HeapRep cfg (meshRetire (meshShown (meshGather cfg h R D rocc docc) q D R) q D) bins _
      rw [meshRetire_shown]
      exact redirect_rep T H2 (M.unpair_sound S) hm hcopy
    · show PagedMemory.read (meshRetire (meshShown (meshGather cfg h R D rocc docc) q D R) q D).mem _ = _
      rw [meshRetire_shown, ← hbusy hb id hi, ← hmem2]
      have hu : (L.unpair q R D).Unit a n := by
        cases hb with
        | slot hb hs =>
          refine .slot (fun e => ?_) (M.unpair_slot.mpr hs)
          rw [← (M.unpair_voids S).busy, e] at hb
          cases hb
        | large hl => exact .large hl
      exact hk2 hu id hi

end BtMalloc
