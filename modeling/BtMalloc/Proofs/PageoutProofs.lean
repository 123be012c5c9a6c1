import BtMalloc.Proofs.PoolProofs

/-!
# Proofs: the walk of `btm_pageout_cold`

The three nested loops visit every carved slab once, so the ranges passed to `madvise` are those of the
slabs that pass the test in the heap before the call, and nothing but their evicted flags and the epoch
is written.
-/

namespace BtMalloc

open LinkedList

variable {cfg : Config} {h : Heap} {bins : ℕ → ℕ → Bin} {L : Ledger} {q : PoolId} {r x : SlabRef}
  {g c : ℕ} {l l' : List SlabRef}

theorem HeapRep.repage (H : HeapRep cfg h bins L) {f : SlabRef → Bool} {e : ℕ} :
    HeapRep cfg (h.repage f e) bins L := by
  refine ⟨fun q r hr => ?_, fun q => ?_, H.tally, H.header, H.chunks, H.depot, H.free, H.bins, H.frame, H.space,
    H.owner, H.log⟩
  · have D := H.desc q r hr
    exact ⟨D.firstPage, D.npages, D.nslots, D.sc, D.partIdx, D.inPartial, D.decommitted, D.retired,
      D.freeCount⟩
  · have l := H.lists q
    exact ⟨l.partials, l.warm, l.cold, l.warmCount⟩

/-! ## The walk as a fold over slabs -/

/-- The slabs of a list that the walk of epoch `g` evicts. -/
def evicted (g : ℕ) (h : Heap) (l : List SlabRef) : List SlabRef :=
  l.filter fun r => pageoutCold g (h.slabs r)

/-- Where the walk is once it has visited the slabs of `l`. -/
def pageoutAt (g : ℕ) (h : Heap) (l : List SlabRef) : Pageout where
  total := ((evicted g h l).map fun r => pageoutStride h r * pageSize).sum % 2 ^ 64
  hints := (evicted g h l).map fun r => (btmSlabData h r, pageoutStride h r * pageSize)
  heap := h.repage (fun x => (h.slabs x).pagedOut || decide (x ∈ evicted g h l)) h.tierEpoch

theorem pageoutAt_nil : pageoutAt g h [] = ⟨0, [], h⟩ := by
  unfold pageoutAt evicted Heap.repage
  simp

theorem evicted_append : evicted g h (l ++ l') = evicted g h l ++ evicted g h l' :=
  List.filter_append ..

/-- Visiting one more slab. -/
theorem pageoutSlab_at (hr : r ∉ l) : pageoutSlab g r (pageoutAt g h l) = pageoutAt g h (l ++ [r]) := by
  have hno : r ∉ evicted g h l := fun hm => hr (List.mem_of_mem_filter hm)
  have htest : pageoutCold g ((pageoutAt g h l).heap.slabs r) = pageoutCold g (h.slabs r) := by
    simp [pageoutAt, Heap.repage, pageoutCold, hno]
  unfold pageoutSlab
  rw [htest]
  cases hc : pageoutCold g (h.slabs r) with
  | false =>
    have he : evicted g h (l ++ [r]) = evicted g h l := by
      rw [evicted_append]
      simp [evicted, hc]
    simp [pageoutAt, he]
  | true =>
    have he : evicted g h (l ++ [r]) = evicted g h l ++ [r] := by
      rw [evicted_append]
      simp [evicted, hc]
    have hheap : ((pageoutAt g h l).heap.modSlab r fun x => { x with pagedOut := true }) =
        (pageoutAt g h (l ++ [r])).heap := by
      simp only [pageoutAt, he, Heap.repage, Heap.modSlab, Heap.mk.injEq, and_true]
      funext x
      by_cases e : x = r
      · subst e
        simp
      · rw [Function.update_of_ne e]
        simp [e]
    rw [if_pos rfl, hheap]
    simp only [pageoutAt, he, Pageout.mk.injEq, and_true]
    refine ⟨?_, ?_⟩
    · rw [List.map_append, List.sum_append, List.map_singleton, List.sum_singleton, Nat.mod_add_mod]
      rfl
    · rw [List.map_append]
      rfl

/-! ## The slabs of a chunk, of a pool and of all pools -/

/-- The slabs of chunk `c` of pool `q`, by page. -/
def slabsOfChunk (L : Ledger) (q : PoolId) (c : ℕ) : List SlabRef :=
  (List.range ((L.top c - dataStartPage) / btmScRunPages q.sc)).map fun i =>
    ⟨c, dataStartPage + i * btmScRunPages q.sc⟩

/-- The carved slabs in the order of the walk. -/
def slabsOfPool (L : Ledger) (q : PoolId) : List SlabRef := (L.chunks q).flatMap (slabsOfChunk L q)

def allSlabs (cfg : Config) (L : Ledger) : List SlabRef := cfg.poolIds.flatMap (slabsOfPool L)

theorem mem_slabsOfChunk (S : L.Sound cfg) (hq : L.holder c = .pool q) :
    r ∈ slabsOfChunk L q c ↔ L.SlabIn q r ∧ r.chunk = c := by
  have hnp := (S.carving.row hq).pages_pos
  obtain ⟨⟨n, htop⟩, -⟩ := S.carving.top_eq hq
  have hn : (L.top c - dataStartPage) / btmScRunPages q.sc = n := by
    rw [htop, Nat.add_sub_cancel_left, Nat.mul_div_cancel _ hnp]
  unfold slabsOfChunk
  rw [hn, List.mem_map]
  constructor
  · rintro ⟨i, hi, rfl⟩
    rw [List.mem_range] at hi
    refine ⟨⟨hq, (S.carving.carved _).mpr ⟨q, i, hq, rfl, ?_⟩⟩, rfl⟩
    show dataStartPage + i * btmScRunPages q.sc + btmScRunPages q.sc ≤ L.top c
    rw [htop, Nat.add_assoc, ← Nat.succ_mul]
    exact Nat.add_le_add_left (Nat.mul_le_mul_right _ hi) _
  · rintro ⟨⟨-, hcar⟩, rfl⟩
    obtain ⟨q', i, hq', hp, hle⟩ := (S.carving.carved r).mp hcar
    obtain rfl : q' = q := Holder.pool.inj (hq'.symm.trans hq)
    refine ⟨i, List.mem_range.mpr ?_, SlabRef.ext rfl hp.symm⟩
    rw [hp, htop, Nat.add_assoc, ← Nat.succ_mul] at hle
    exact Nat.lt_of_mul_lt_mul_right (Nat.lt_of_lt_of_le (Nat.mul_lt_mul_of_pos_right (Nat.lt_succ_self i) hnp)
      (Nat.le_of_add_le_add_left hle))

theorem mem_slabsOfPool (S : L.Sound cfg) : r ∈ slabsOfPool L q ↔ L.SlabIn q r := by
  unfold slabsOfPool
  rw [List.mem_flatMap]
  constructor
  · rintro ⟨c, hc, hr⟩
    exact ((mem_slabsOfChunk S ((S.lists.chunks q).mem_iff.mp hc)).mp hr).1
  · intro hr
    exact ⟨r.chunk, (S.lists.chunks q).mem_iff.mpr hr.1, (mem_slabsOfChunk S hr.1).mpr ⟨hr, rfl⟩⟩

theorem mem_poolIds : q ∈ cfg.poolIds ↔ q.Valid cfg := by
  unfold Config.poolIds
  rw [List.mem_flatMap]
  constructor
  · rintro ⟨p, hp, hq⟩
    obtain ⟨sc, hsc, rfl⟩ := List.mem_map.mp hq
    exact ⟨List.mem_range.mp hp, List.mem_range.mp hsc⟩
  · rintro ⟨h1, h2⟩
    exact ⟨q.part, List.mem_range.mpr h1, List.mem_map.mpr ⟨q.sc, List.mem_range.mpr h2, rfl⟩⟩

theorem slabsOfChunk_nodup (hnp : 0 < btmScRunPages q.sc) : (slabsOfChunk L q c).Nodup := by
  refine List.nodup_range.map fun i j e => ?_
  have := Nat.add_left_cancel (SlabRef.mk.inj e).2
  exact Nat.eq_of_mul_eq_mul_right hnp this

theorem slabsOfPool_nodup (S : L.Sound cfg) : (slabsOfPool L q).Nodup := by
  have hq : ∀ {c}, c ∈ L.chunks q → L.holder c = .pool q := (S.lists.chunks q).mem_iff.mp
  refine List.nodup_flatMap.mpr ⟨fun c hc => slabsOfChunk_nodup (S.carving.row (hq hc)).pages_pos, ?_⟩
  refine (S.lists.chunks q).nodup.imp_of_mem fun {c c'} hc hc' hne x h1 h2 => hne ?_
  exact (((mem_slabsOfChunk S (hq hc)).mp h1).2).symm.trans ((mem_slabsOfChunk S (hq hc')).mp h2).2

theorem poolIds_nodup : cfg.poolIds.Nodup := by
  refine List.nodup_flatMap.mpr ⟨fun p _ => List.nodup_range.map fun i j e => (PoolId.mk.inj e).2, ?_⟩
  refine List.nodup_range.imp fun {p p'} hne x h1 h2 => hne ?_
  obtain ⟨i, -, rfl⟩ := List.mem_map.mp h1
  obtain ⟨j, -, e⟩ := List.mem_map.mp h2
  exact (PoolId.mk.inj e).1.symm

theorem allSlabs_listing (S : L.Sound cfg) : Listing (allSlabs cfg L) fun r => ∃ q, L.SlabIn q r := by
  refine ⟨List.nodup_flatMap.mpr ⟨fun q _ => slabsOfPool_nodup S, ?_⟩, fun r => ?_⟩
  · refine poolIds_nodup.imp fun {q q'} hne x h1 h2 => hne ?_
    have e1 := ((mem_slabsOfPool S).mp h1).1
    have e2 := ((mem_slabsOfPool S).mp h2).1
    exact Holder.pool.inj (e1.symm.trans e2)
  · unfold allSlabs
    rw [List.mem_flatMap]
    constructor
    · rintro ⟨q, -, hr⟩
      exact ⟨q, (mem_slabsOfPool S).mp hr⟩
    · rintro ⟨q, hr⟩
      exact ⟨q, mem_poolIds.mpr (S.carving.valid hr.1), (mem_slabsOfPool S).mpr hr⟩

/-! ## The loops -/

/-- The loop over the slabs of a chunk, from its `i`-th slab on. -/
theorem pageoutChunk_at (H : HeapRep cfg h bins L) (S : L.Sound cfg) (hq : L.holder c = .pool q) {m n i : ℕ}
    (htop : L.top c = dataStartPage + (i + m) * btmScRunPages q.sc) (hn : m ≤ n)
    (hl : (l ++ (List.range' i m).map fun i => (⟨c, dataStartPage + i * btmScRunPages q.sc⟩ : SlabRef)).Nodup) :
    pageoutChunk g c n (dataStartPage + i * btmScRunPages q.sc) (pageoutAt g h l) =
      pageoutAt g h (l ++ (List.range' i m).map fun i => ⟨c, dataStartPage + i * btmScRunPages q.sc⟩) := by
  have hnp := (S.carving.row hq).pages_pos
  have hnext : (h.chunks c).nextFreePage = L.top c := (H.header q c hq).nextFreePage
  induction m generalizing n i l with
  | zero =>
    have hge : ¬ dataStartPage + i * btmScRunPages q.sc < (h.chunks c).nextFreePage := by
      rw [hnext, htop, Nat.add_zero]
      exact lt_irrefl _
    rw [List.range'_zero, List.map_nil, List.append_nil]
    cases n with
    | zero => rfl
    | succ n => exact if_neg hge
  | succ m ih =>
    obtain ⟨n, rfl⟩ : ∃ k, n = k + 1 := ⟨n - 1, by omega⟩
    have hle : (i + 1) * btmScRunPages q.sc ≤ (i + (m + 1)) * btmScRunPages q.sc :=
      Nat.mul_le_mul_right _ (by omega)
    rw [Nat.succ_mul] at hle
    have hlt : dataStartPage + i * btmScRunPages q.sc < (h.chunks c).nextFreePage := by
      rw [hnext, htop]
      omega
    have hin : L.SlabIn q ⟨c, dataStartPage + i * btmScRunPages q.sc⟩ := by
      refine ⟨hq, (S.carving.carved _).mpr ⟨q, i, hq, rfl, ?_⟩⟩
      show dataStartPage + i * btmScRunPages q.sc + btmScRunPages q.sc ≤ L.top c
      rw [htop]
      omega
    have hstride : pageoutStride h ⟨c, dataStartPage + i * btmScRunPages q.sc⟩ = btmScRunPages q.sc := by
      unfold pageoutStride
      rw [(H.desc q _ hin).npages, if_neg (by omega)]
    have hr : (⟨c, dataStartPage + i * btmScRunPages q.sc⟩ : SlabRef) ∉ l := by
      rw [List.nodup_append] at hl
      exact fun hm => hl.2.2 _ hm _ (List.mem_map_of_mem (by simp)) rfl
    rw [List.range'_succ, List.map_cons, ← List.singleton_append, ← List.append_assoc] at hl ⊢
    have hgo := ih (n := n) (i := i + 1) (by rw [htop]; congr 2; omega) (by omega) hl
    rw [← pageoutSlab_at hr, Nat.succ_mul, ← Nat.add_assoc] at hgo
    rw [← hgo]
    refine (if_pos hlt).trans ?_
    show pageoutChunk g c n (_ + pageoutStride h _) _ = _
    rw [hstride]

theorem slabsOfChunk_eq {n : ℕ} (hnp : 0 < btmScRunPages q.sc)
    (htop : L.top c = dataStartPage + n * btmScRunPages q.sc) :
    slabsOfChunk L q c = (List.range' 0 n).map fun i => ⟨c, dataStartPage + i * btmScRunPages q.sc⟩ := by
  unfold slabsOfChunk
  rw [htop, Nat.add_sub_cancel_left, Nat.mul_div_cancel _ hnp, List.range_eq_range']

/-- The loop over the slabs of a chunk. -/
theorem pageoutChunk_all (H : HeapRep cfg h bins L) (S : L.Sound cfg) (hq : L.holder c = .pool q)
    (hl : (l ++ slabsOfChunk L q c).Nodup) :
    pageoutChunk g c (h.chunks c).nextFreePage dataStartPage (pageoutAt g h l) =
      pageoutAt g h (l ++ slabsOfChunk L q c) := by
  have hnp := (S.carving.row hq).pages_pos
  obtain ⟨⟨n, htop⟩, -⟩ := S.carving.top_eq hq
  rw [slabsOfChunk_eq hnp htop] at hl ⊢
  have hn : n ≤ (h.chunks c).nextFreePage := by
    rw [(H.header q c hq).nextFreePage, htop]
    have := Nat.le_mul_of_pos_right n hnp
    omega
  have := pageoutChunk_at (g := g) H S hq (i := 0) (by rw [htop, Nat.zero_add]) hn hl
  rwa [Nat.zero_mul, Nat.add_zero] at this

/-- The loop over the chunks of a pool. -/
theorem pageoutPool_all (H : HeapRep cfg h bins L) (S : L.Sound cfg) (hl : (l ++ slabsOfPool L q).Nodup) :
    pageoutPool g (pageoutAt g h l) q = pageoutAt g h (l ++ slabsOfPool L q) := by
  have key : ∀ (cs : List ℕ), (∀ c ∈ cs, L.holder c = .pool q) → ∀ {l}, (l ++ cs.flatMap (slabsOfChunk L q)).Nodup →
      cs.foldl (fun st c => pageoutChunk g c (st.heap.chunks c).nextFreePage dataStartPage st) (pageoutAt g h l) =
        pageoutAt g h (l ++ cs.flatMap (slabsOfChunk L q)) := by
    intro cs hcs
    induction cs with
    | nil =>
      intro l _
      rw [List.flatMap_nil, List.append_nil]
      rfl
    | cons c cs ih =>
      intro l hnd
      rw [List.flatMap_cons, ← List.append_assoc] at hnd ⊢
      rw [List.foldl_cons]
      have h1 := pageoutChunk_all (g := g) H S (hcs c (List.mem_cons_self ..)) (List.Nodup.of_append_left hnd)
      exact (congrArg (List.foldl _ · cs) h1).trans (ih (fun c' hc' => hcs c' (List.mem_cons_of_mem _ hc')) hnd)
  have hwalk : walk (fun c => ((pageoutAt g h l).heap.chunks c).next) listFuel
      ((pageoutAt g h l).heap.pools q).chunks = L.chunks q := (chunkList_eq (q := q) H S :)
  unfold pageoutPool
  rw [hwalk]
  exact key _ (fun c hc => (S.lists.chunks q).mem_iff.mp hc) hl

/-- The loops over partitions and size classes. -/
theorem pageoutPools_all (H : HeapRep cfg h bins L) (S : L.Sound cfg) (qs : List PoolId)
    (hl : (l ++ qs.flatMap (slabsOfPool L)).Nodup) :
    qs.foldl (pageoutPool g) (pageoutAt g h l) = pageoutAt g h (l ++ qs.flatMap (slabsOfPool L)) := by
  induction qs generalizing l with
  | nil => rw [List.flatMap_nil, List.append_nil]; rfl
  | cons q qs ih =>
    rw [List.flatMap_cons, ← List.append_assoc] at hl ⊢
    rw [List.foldl_cons, pageoutPool_all H S (List.Nodup.of_append_left hl)]
    exact ih hl

/-- `btm_pageout_cold` as one pass over the carved slabs. -/
theorem btmPageoutCold_eq (H : HeapRep cfg h bins L) (S : L.Sound cfg) :
    btmPageoutCold cfg h =
      { pageoutAt h.tierEpoch h (allSlabs cfg L) with
        heap := { (pageoutAt h.tierEpoch h (allSlabs cfg L)).heap with
          tierEpoch := (h.tierEpoch + 1) % 2 ^ 32 } } := by
  have := pageoutPools_all (g := h.tierEpoch) (l := []) H S cfg.poolIds (allSlabs_listing S).nodup
  rw [List.nil_append, pageoutAt_nil] at this
  unfold btmPageoutCold
  rw [this]
  rfl

end BtMalloc
