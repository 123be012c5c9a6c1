import BtMalloc.Meshing
import BtMalloc.Proofs.GiveUpProofs
import BtMalloc.Proofs.MeshProofs
import BtMalloc.Proofs.WorldProofs

/-!
# Proofs: what `btm_compact` picks, and a remap that fails
-/

namespace BtMalloc

open LinkedList PagedMemory Word

variable {cfg : Config} {k : Kernel} {h : Heap} {bins : ℕ → ℕ → Bin} {L : Ledger} {q : PoolId}
  {R D r : SlabRef}

/-- The occupancy bitmap of a slab that is linked. -/
theorem buildOcc_occupied (H : HeapRep cfg h bins L) (S : L.Sound cfg) (hr : L.SlabIn q r)
    (hi : (L.stage r).intact = true) {i : ℕ} :
    buildOcc cfg h r i = true ↔ i < slabSlots q.sc ∧ L.occupied q r i = true := by
  have d := H.desc q r hr
  have hst := Stage.intact_ne_retired hi
  have row := S.carving.row hr.1
  have hle := S.freeList_length_le hr hst
  have hdata : btmSlabData h r = r.chunk + r.page * pageSize := by rw [btmSlabData, d.firstPage]
  have hfuel : (L.freeList r).length ≤ listFuel := by
    have := row.slots_le
    have : 256 ≤ listFuel := by decide
    omega
  rw [buildOcc_eq (H.free q r hr hi) hfuel d.nslots (by rw [d.sc]) (by have := row.size_ge; omega)
    (fun s hs => ?_), hdata]
  · simp only [Ledger.occupied, decide_eq_true_eq]
    rfl
  · obtain ⟨-, j, hj⟩ := S.free_of_mem hr hst hs
    exact ⟨j, by rw [hdata]; exact hj.2.2⟩

/-- The walk along a partial list meets the slabs the ledger lists. -/
theorem partialSlabs_eq (H : HeapRep cfg h bins L) (S : L.Sound cfg) :
    partialSlabs h q = L.partials q := by
  refine (H.lists q).partials.chain.walk_eq (Nat.le_of_lt ?_)
  refine S.slabs_length_lt (S.lists.partials q).nodup fun x hx => ?_
  obtain ⟨h1, h2⟩ := (S.lists.partials q).mem_iff.mp hx
  exact ⟨q, h1, by simp [h2]⟩

/-- A candidate is on the partial list and has a slot in use. -/
theorem mem_meshCands (H : HeapRep cfg h bins L) (S : L.Sound cfg) {x : SlabRef × (ℕ → Bool)}
    (hx : x ∈ meshCands cfg h q) : L.holder x.1.chunk = .pool q ∧ L.stage x.1 = .listed ∧
      (L.freeList x.1).length < slabSlots q.sc ∧ x.2 = buildOcc cfg h x.1 := by
  unfold meshCands at hx
  obtain ⟨r, hr, rfl⟩ := List.mem_map.mp hx
  obtain ⟨hmem, hsparse⟩ := List.mem_filter.mp (List.mem_of_mem_take hr)
  rw [show walk (fun r => (h.slabs r).next) listFuel (h.pools q).partialHead = L.partials q from
    partialSlabs_eq H S] at hmem
  obtain ⟨h1, h2⟩ := (S.lists.partials q).mem_iff.mp hmem
  have d := H.desc q r ⟨h1, by simp [h2]⟩
  have hused := (Bool.and_eq_true_iff.mp (Bool.and_eq_true_iff.mp hsparse).1).2
  rw [d.nslots, d.freeCount (by simp [h2])] at hused
  refine ⟨h1, h2, ?_, rfl⟩
  have : slabSlots q.sc - (L.freeList r).length ≠ 0 := by simpa using hused
  show (L.freeList r).length < slabSlots q.sc
  omega

/-- A slab with fewer free slots than slots has one in use. -/
theorem Ledger.Sound.exists_occupied (S : L.Sound cfg) (hr : L.SlabIn q r)
    (hlt : (L.freeList r).length < slabSlots q.sc) :
    ∃ i < slabSlots q.sc, slotAddr r q.sc i ∉ L.freeList r := by
  by_contra hno
  push Not at hno
  have hsub : slabSlotList r q.sc ⊆ L.freeList r := by
    intro s hs
    obtain ⟨i, hi, rfl⟩ := Ledger.mem_slabSlotList.mp hs
    exact hno i hi
  have := (S.carving.slots_listing hr).nodup.length_le_of_subset hsub
  rw [Ledger.length_slabSlotList] at this
  omega

/-- What `btm_compact` picks can be meshed. -/
theorem MeshChosen.meshable (C : MeshChosen cfg h q R D) (H : HeapRep cfg h bins L) (S : L.Sound cfg) :
    L.Meshable q R D := by
  obtain ⟨r1, r2, -, -⟩ := mem_meshCands H S C.recipient
  obtain ⟨d1, d2, d3, -⟩ := mem_meshCands H S C.donor
  have hR : L.SlabIn q R := ⟨r1, by simp [r2]⟩
  have hD : L.SlabIn q D := ⟨d1, by simp [d2]⟩
  refine ⟨⟨r1, r2⟩, ⟨d1, d2⟩, C.ne, S.exists_occupied hD d3, fun i hi => ?_⟩
  by_contra hno
  push Not at hno
  refine C.disjoint i (by rwa [(H.desc q R hR).nslots]) ⟨?_, ?_⟩
  · exact (buildOcc_occupied H S hR (by simp [r2, Stage.intact])).mpr ⟨hi, decide_eq_true hno.1⟩
  · exact (buildOcc_occupied H S hD (by simp [d2, Stage.intact])).mpr ⟨hi, decide_eq_true hno.2⟩

theorem MeshChosen.occ (H : HeapRep cfg h bins L) (S : L.Sound cfg) (hr : L.SlabIn q r)
    (hst : L.stage r = .listed) : ∀ i < slabSlots q.sc, buildOcc cfg h r i = L.occupied q r i := by
  intro i hi
  rw [Bool.eq_iff_iff, buildOcc_occupied H S hr (by simp [hst, Stage.intact])]
  exact and_iff_right hi

/-- A mesh retires its donor, whatever the remap says. -/
theorem meshPair_retired {rocc docc : ℕ → Bool} :
    ((meshPair cfg k h q R D rocc docc).2.slabs D).retired = true := by
  simp [meshPair_eq, meshRetire, Heap.modSlab]

/-- A failed remap is not undone: the donor is retired and leaves the partial list all the same. What
    does hold is that the client's bytes stay and that nothing is counted as reclaimed. -/
theorem mesh_pair_undone_iff (H : HeapRep cfg h bins L) (S : L.Sound cfg) (hm : cfg.meshMode = true)
    (C : MeshChosen cfg h q R D) :
    ((k.remap D = false → MeshUndone cfg h L q R D (meshChosen cfg k h q R D).1
        (meshChosen cfg k h q R D).2) ↔ k.remap D = true) ∧
      (k.remap D = false → (meshChosen cfg k h q R D).1 = 0 ∧ ∀ a len, L.Client a len → ∀ i < len,
        (meshChosen cfg k h q R D).2.mem.read (a + i) = h.mem.read (a + i)) := by
  have M := C.meshable H S
  refine ⟨⟨fun hu => ?_, fun hk hk' => absurd (hk.symm.trans hk') (by simp)⟩, fun hk => ?_⟩
  · by_contra hk
    have U := hu (by simpa using hk)
    have := U.retired
    rw [show ((meshChosen cfg k h q R D).2.slabs D).retired = true from meshPair_retired] at this
    cases this
  · obtain ⟨h1, h2⟩ := meshPair_spec (k := k) H S hm M
      (MeshChosen.occ H S M.rIn M.recipient.2) (MeshChosen.occ H S M.dIn M.donor.2)
      (fun h' => absurd (hk.symm.trans h') (by simp))
    rw [hk] at h1
    exact ⟨h1, fun a len hc i hi => h2.bytes hc.busy id hi⟩

/-- Two slabs of class 35 are left with the slots 0..2 and 3..5 in use. The chunk is at 4 MiB, and four
    slots of a third slab stay in the bin. -/
def sparsePair : List Action :=
  let k := Kernel.grant 4194304
  let slot (i j : ℕ) := 4194304 + (7 + 32 * i) * 4096 + j * 16384
  let free (i : ℕ) (l : List ℕ) : List Action := l.map fun j => .free 0 (slot i j) k
  let flush : List Action := List.replicate 6 (.flush 0 k)
  List.replicate 20 (.malloc 0 16384 4096 k) ++ free 2 [0, 1, 2, 3] ++ free 0 [3, 4, 5, 6, 7] ++ flush ++
    free 1 [0, 1, 2, 6, 7] ++ flush

/-- The state it leads to. -/
def sparsePairWorld : World := Transition.finish (step Config.mesh) World.init sparsePair

/-- A small request or no request at all, and no compaction. -/
def Action.small : Action → Bool
  | .alloc _ c _ _ => c.large.isNone
  | .realloc _ _ _ _ _ | .compact _ => false
  | .free _ _ _ | .flush _ _ | .exit _ | .exitStep _ _ | .write _ _ _ | .bgStart | .bg _ _ => true

theorem Action.small_regular {w : World} {act : Action} {pl : Placement} (h : act.small = true) :
    w.Regular pl act := by
  cases act with
  | alloc t c ra k =>
    have hc : c.large = none := Option.isNone_iff_eq_none.mp h
    exact ⟨fun _ _ hl => by simp [hc] at hl, fun _ _ _ hl => by simp [hc] at hl, by simp⟩
  | compact k | realloc t p size ra k => cases h
  | _ => exact ⟨trivial, trivial, by simp⟩

theorem sparsePair_small : ∀ act ∈ sparsePair, act.small = true :=
  List.all_eq_true.mp (by decide +kernel : sparsePair.all Action.small = true)

set_option maxRecDepth 100000 in
theorem sparsePair_run (pl : Placement) :
    Transition.Run (step Config.mesh) (World.Regular pl) World.init sparsePair sparsePairWorld :=
  Transition.run_of_forall
    (Transition.exec_eq_finish
      (by decide +kernel : (Transition.exec (step Config.mesh) World.init sparsePair).isSome = true))
    fun act ha _ => Action.small_regular (sparsePair_small act ha)

set_option maxRecDepth 100000 in
/-- `btm_compact` picks the second slab as recipient of the first. -/
theorem sparsePair_chosen :
    MeshChosen Config.mesh sparsePairWorld.sys.heap ⟨0, 35⟩ ⟨4194304, 39⟩ ⟨4194304, 7⟩ where
  recipient := List.mem_map_of_mem (by decide +kernel)
  donor := List.mem_map_of_mem (by decide +kernel)
  ne := by decide
  disjoint := by decide +kernel

/-- The remap of every donor fails. -/
def noRemap : Kernel := { Kernel.plain with remap := fun _ => false }

set_option maxRecDepth 100000 in
/-- The donor leaves the partial list and is retired for good, and the recipient loses three of its five
    free slots. -/
theorem mesh_pair_not_undone :
    let h := sparsePairWorld.sys.heap
    let r := meshChosen Config.mesh noRemap h ⟨0, 35⟩ ⟨4194304, 39⟩ ⟨4194304, 7⟩
    Transition.Run (step Config.mesh) (World.Regular .aligned) World.init sparsePair sparsePairWorld ∧
      MeshChosen Config.mesh h ⟨0, 35⟩ ⟨4194304, 39⟩ ⟨4194304, 7⟩ ∧
      noRemap.remap ⟨4194304, 7⟩ = false ∧
      partialSlabs h ⟨0, 35⟩ = [⟨4194304, 39⟩, ⟨4194304, 7⟩, ⟨4194304, 71⟩] ∧
      partialSlabs r.2 ⟨0, 35⟩ = [⟨4194304, 39⟩, ⟨4194304, 71⟩] ∧
      (r.2.slabs ⟨4194304, 7⟩).retired = true ∧
      (freeSlots Config.mesh h ⟨4194304, 39⟩).length = 5 ∧
      (freeSlots Config.mesh r.2 ⟨4194304, 39⟩).length = 2 ∧ r.1 = 0 :=
  ⟨sparsePair_run .aligned, sparsePair_chosen, by decide +kernel⟩

/-- The same attempt as an instance: the mesh is not undone, but no byte of the client changes. -/
theorem mesh_pair_undone_refused :
    ∃ L, WorldRep Config.mesh sparsePairWorld L ∧
      ¬ MeshUndone Config.mesh sparsePairWorld.sys.heap L ⟨0, 35⟩ ⟨4194304, 39⟩ ⟨4194304, 7⟩
        (meshChosen Config.mesh noRemap sparsePairWorld.sys.heap ⟨0, 35⟩ ⟨4194304, 39⟩ ⟨4194304, 7⟩).1
        (meshChosen Config.mesh noRemap sparsePairWorld.sys.heap ⟨0, 35⟩ ⟨4194304, 39⟩ ⟨4194304, 7⟩).2 ∧
      ∀ a len, L.Client a len → ∀ i < len,
        (meshChosen Config.mesh noRemap sparsePairWorld.sys.heap ⟨0, 35⟩ ⟨4194304, 39⟩
          ⟨4194304, 7⟩).2.mem.read (a + i) = sparsePairWorld.sys.heap.mem.read (a + i) := by
  obtain ⟨L, W, -⟩ := world_run (sparsePair_run .aligned)
  obtain ⟨h1, h2⟩ := mesh_pair_undone_iff (k := noRemap) W.sys.rep W.sys.sound rfl sparsePair_chosen
  refine ⟨L, W, fun hu => ?_, (h2 rfl).2⟩
  have := h1.mp fun _ => hu
  cases this

end BtMalloc
