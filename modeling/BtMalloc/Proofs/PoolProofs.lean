import BtMalloc.Pools
import BtMalloc.Proofs.CompactProofs

/-!
# Proofs: the pools between calls

The representation gives the rules of `PoolInv`, every call of the pool machine keeps the
representation, and so the rules hold along every run.
-/

namespace BtMalloc

open LinkedList PagedMemory Word

variable {cfg : Config} {k : Kernel} {h : Heap} {bins : ℕ → ℕ → Bin} {L L' : Ledger} {q : PoolId}
  {r : SlabRef}

/-! ## Carved slabs -/

theorem Ledger.Sound.chunks_length_lt (S : L.Sound cfg) : (L.chunks q).length < listFuel := by
  have hsub : L.chunks q ⊆ List.range (2 ^ 47) := by
    intro c hc
    have hq := (S.lists.chunks q).mem_iff.mp hc
    obtain ⟨-, -, h3⟩ := S.carving.aligned (c := c) (by simp [hq])
    rw [chunkSize_eq] at h3
    rw [List.mem_range]
    omega
  have := ((S.lists.chunks q).nodup.subperm hsub).length_le
  rw [List.length_range] at this
  unfold listFuel
  omega

/-- The walk along a chunk list meets the chunks the ledger lists. -/
theorem chunkList_eq (H : HeapRep cfg h bins L) (S : L.Sound cfg) : chunkList h q = L.chunks q :=
  (H.chunks q).1.chain.walk_eq (Nat.le_of_lt S.chunks_length_lt)

theorem mem_chunkList (H : HeapRep cfg h bins L) (S : L.Sound cfg) {c : ℕ} :
    c ∈ chunkList h q ↔ L.holder c = .pool q := by
  rw [chunkList_eq H S]
  exact (S.lists.chunks q).mem_iff

/-- Every page below `top` belongs to a carved slab, and the page table names it. -/
theorem exists_slab_of_page (H : HeapRep cfg h bins L) (S : L.Sound cfg) {c p : ℕ}
    (hq : L.holder c = .pool q) (h1 : 7 ≤ p) (h2 : p < L.top c) :
    ∃ r, L.SlabIn q r ∧ r.chunk = c ∧ (h.chunks c).pageOwner p = r.page ∧ r.page ≤ p ∧
      p < r.page + btmScRunPages q.sc := by
  obtain ⟨⟨n, htop⟩, -⟩ := S.carving.top_eq hq
  rw [dataStartPage_eq] at htop
  have hnp := (S.carving.row hq).pages_pos
  have hdiv := Nat.div_add_mod (p - 7) (btmScRunPages q.sc)
  have hmod := Nat.mod_lt (p - 7) hnp
  generalize (p - 7) / btmScRunPages q.sc = m at hdiv
  generalize hj : (p - 7) % btmScRunPages q.sc = j at hdiv hmod
  rw [Nat.mul_comm] at hdiv
  have hmn : m < n := by
    by_contra hge
    have := Nat.mul_le_mul_right (btmScRunPages q.sc) (not_lt.mp hge)
    omega
  have hle := Nat.mul_le_mul_right (btmScRunPages q.sc) (Nat.succ_le_of_lt hmn)
  rw [Nat.succ_mul] at hle
  have hcar : L.stage ⟨c, 7 + m * btmScRunPages q.sc⟩ ≠ .uncarved := by
    refine (S.carving.carved _).mpr ⟨q, m, hq, rfl, ?_⟩
    show 7 + m * btmScRunPages q.sc + btmScRunPages q.sc ≤ L.top c
    omega
  have hown := (H.header q c hq).pageOwner (r := ⟨c, 7 + m * btmScRunPages q.sc⟩) rfl hcar hmod
  refine ⟨⟨c, 7 + m * btmScRunPages q.sc⟩, ⟨hq, hcar⟩, rfl, ?_, ?_, ?_⟩
  · rw [← hown]
    congr 1
    show p = 7 + m * btmScRunPages q.sc + j
    omega
  · show 7 + m * btmScRunPages q.sc ≤ p
    omega
  · show p < 7 + m * btmScRunPages q.sc + btmScRunPages q.sc
    omega

theorem carved_iff (H : HeapRep cfg h bins L) (S : L.Sound cfg) : Carved h q r ↔ L.SlabIn q r := by
  constructor
  · rintro ⟨h1, h2, h3, h4⟩
    have hq := (mem_chunkList H S).mp h1
    rw [(H.header q r.chunk hq).nextFreePage] at h3
    obtain ⟨x, hx, hc, hown, -, -⟩ := exists_slab_of_page H S hq h2 h3
    rw [h4] at hown
    rwa [SlabRef.ext hc.symm hown]
  · intro hr
    obtain ⟨⟨n, hp⟩, ht, -⟩ := S.carving.slab_page hr
    have hnp := (S.carving.row hr.1).pages_pos
    have hd := H.header q r.chunk hr.1
    refine ⟨(mem_chunkList H S).mpr hr.1, by rw [hp, dataStartPage_eq]; omega,
      by rw [hd.nextFreePage]; omega, ?_⟩
    have := hd.pageOwner (r := r) (j := 0) rfl hr.2 hnp
    rwa [Nat.add_zero] at this

/-! ## The rules -/

/-- Where a carved slab stands, told by its number of free slots. -/
theorem Ledger.Settled.stage_cases (T : L.Settled) (P : L.Plain) (hr : L.SlabIn q r) :
    (L.stage r = .listed ∧ 0 < (L.freeList r).length ∧ (L.freeList r).length < slabSlots q.sc) ∨
    (L.stage r = .unlisted ∧ (L.freeList r).length = 0) ∨
    ((L.stage r = .warm ∨ L.stage r = .cold) ∧ (L.freeList r).length = slabSlots q.sc) := by
  have hs := T.slab hr
  unfold Ledger.SlabSettled at hs
  cases hst : L.stage r with
  | uncarved => exact absurd hst hr.2
  | retired => exact absurd hst (P.unmeshed.stage r)
  | listed =>
    rw [hst] at hs
    exact Or.inl ⟨rfl, List.length_pos_of_ne_nil (P.ready hst), hs⟩
  | unlisted =>
    rw [hst] at hs
    exact Or.inr (Or.inl ⟨rfl, by rw [hs]; rfl⟩)
  | warm =>
    rw [hst] at hs
    exact Or.inr (Or.inr ⟨Or.inl rfl, hs⟩)
  | cold =>
    rw [hst] at hs
    exact Or.inr (Or.inr ⟨Or.inr rfl, hs⟩)

/-- The descriptor of a carved slab tells its stage. -/
structure StageTold (L : Ledger) (r : SlabRef) (x : Slab) : Prop where
  listed : L.stage r = .listed ↔ 0 < x.freeCount ∧ x.freeCount < x.nslots
  empty : (L.stage r = .warm ∨ L.stage r = .cold) ↔ x.freeCount = x.nslots
  inPartial : x.inPartial = true ↔ L.stage r = .listed
  decommitted : x.decommitted = true ↔ L.stage r = .cold
  counts : (L.stage r).counts = true ↔ x.freeCount ≠ x.nslots

theorem stageTold (H : HeapRep cfg h bins L) (S : L.Sound cfg) (T : L.Settled) (P : L.Plain)
    (hr : L.SlabIn q r) : StageTold L r (h.slabs r) := by
  have d := H.desc q r hr
  have h1 := d.freeCount (P.unmeshed.stage r)
  have h2 := d.nslots
  have h3 := (S.carving.row hr.1).slots_ge
  have hin : (h.slabs r).inPartial = true ↔ L.stage r = .listed := by
    rw [d.inPartial, decide_eq_true_eq]
  have hde : (h.slabs r).decommitted = true ↔ L.stage r = .cold := by
    rw [d.decommitted, decide_eq_true_eq]
  rcases T.stage_cases P hr with ⟨hst, h4, h5⟩ | ⟨hst, h4⟩ | ⟨hst, h4⟩
  · refine ⟨iff_of_true hst (by omega), iff_of_false (by simp [hst]) (by omega), hin, hde,
      iff_of_true (by simp [hst, Stage.counts]) (by omega)⟩
  · refine ⟨iff_of_false (by simp [hst]) (by omega), iff_of_false (by simp [hst]) (by omega), hin, hde,
      iff_of_true (by simp [hst, Stage.counts]) (by omega)⟩
  · refine ⟨iff_of_false (fun e => ?_) (by omega), iff_of_true hst (by omega), hin, hde,
      iff_of_false (fun e => ?_) (by omega)⟩
    · rcases hst with hst | hst <;> simp [hst] at e
    · rcases hst with hst | hst <;> simp [hst, Stage.counts] at e

/-- The rules hold wherever the heap stands for a settled ledger without meshes. -/
theorem poolInv_of_rep (H : HeapRep cfg h bins L) (S : L.Sound cfg) (T : L.Settled) (P : L.Plain) :
    PoolInv h q := by
  have hcar : ∀ {x}, Carved h q x ↔ L.SlabIn q x := carved_iff H S
  have hmem : ∀ {c}, c ∈ chunkList h q ↔ L.holder c = .pool q := mem_chunkList H S
  have told : ∀ {x}, L.SlabIn q x → StageTold L x (h.slabs x) := stageTold H S T P
  have hnp : ∀ {x}, L.SlabIn q x → (h.slabs x).npages = btmScRunPages q.sc := fun hx =>
    (H.desc q _ hx).npages
  constructor
  case partials =>
    refine ⟨L.partials q, (H.lists q).partials, (S.lists.partials q).congr fun x => ?_⟩
    rw [hcar]
    constructor
    · rintro ⟨hx, h1⟩
      exact ⟨hx.1, (told hx).listed.mpr h1⟩
    · rintro ⟨h1, h2⟩
      have hx : L.SlabIn q x := ⟨h1, by simp [h2]⟩
      exact ⟨hx, (told hx).listed.mp h2⟩
  case inPartial =>
    intro x hx
    have t := told (hcar.mp hx)
    exact t.inPartial.trans t.listed
  case warm =>
    refine ⟨L.warm q, (H.lists q).warm, (S.lists.warm q).congr fun x => ?_, (H.lists q).warmCount⟩
    rw [hcar]
    constructor
    · rintro ⟨hx, h1, h2⟩
      refine ⟨hx.1, ((told hx).empty.mpr h1).resolve_right fun h3 => ?_⟩
      rw [(told hx).decommitted.mpr h3] at h2
      cases h2
    · rintro ⟨h1, h2⟩
      have hx : L.SlabIn q x := ⟨h1, by simp [h2]⟩
      refine ⟨hx, (told hx).empty.mp (Or.inl h2), ?_⟩
      rw [Bool.eq_false_iff, ne_eq, (told hx).decommitted, h2]
      simp
  case cold =>
    refine ⟨L.cold q, (H.lists q).cold, (S.lists.cold q).congr fun x => ?_⟩
    rw [hcar]
    constructor
    · rintro ⟨hx, -, h2⟩
      exact ⟨hx.1, (told hx).decommitted.mp h2⟩
    · rintro ⟨h1, h2⟩
      have hx : L.SlabIn q x := ⟨h1, by simp [h2]⟩
      exact ⟨hx, (told hx).empty.mp (Or.inr h2), (told hx).decommitted.mpr h2⟩
  case decommitted =>
    intro x hx h1
    have t := told (hcar.mp hx)
    exact t.empty.mp (Or.inr (t.decommitted.mp h1))
  case warmCount =>
    rw [(H.lists q).warmCount]
    exact T.warm q
  case live =>
    intro c hc
    have hq := hmem.mp hc
    have hlive := (H.header q c hq).liveSlabs
    refine ⟨L.counted c, (S.lists.counted c).congr fun x => ?_, hlive, ?_⟩
    · rw [hcar]
      constructor
      · rintro ⟨hx, rfl, h1⟩
        exact ⟨rfl, (told hx).counts.mpr h1⟩
      · rintro ⟨rfl, h1⟩
        have hx : L.SlabIn q x := ⟨hq, fun e => by simp [e, Stage.counts] at h1⟩
        exact ⟨hx, rfl, (told hx).counts.mp h1⟩
    · rw [hlive]
      exact List.length_pos_of_ne_nil (T.chunk hq)
  case chunks =>
    rw [chunkList_eq H S]
    exact (H.chunks q).1
  case chunks_nodup =>
    rw [chunkList_eq H S]
    exact (S.lists.chunks q).nodup
  case active =>
    intro c hc
    rw [(H.chunks q).2] at hc
    exact hmem.mpr (S.lists.active hc)
  case top =>
    intro c hc
    have hq := hmem.mp hc
    rw [(H.header q c hq).nextFreePage]
    obtain ⟨⟨n, h1⟩, h2⟩ := S.carving.top_eq hq
    exact ⟨by omega, h2⟩
  case tiles =>
    intro c p hc h1 h2
    have hq := hmem.mp hc
    rw [(H.header q c hq).nextFreePage] at h2
    obtain ⟨x, hx, h3, h4, h5, h6⟩ := exists_slab_of_page H S hq h1 h2
    exact ⟨x, hcar.mpr hx, h3, h4, h5, by rwa [hnp hx]⟩
  case fits =>
    intro x j hx hj
    have hx' := hcar.mp hx
    rw [hnp hx'] at hj
    have hd := H.header q x.chunk hx'.1
    have := (S.carving.slab_page hx').2.1
    exact ⟨by rw [hd.nextFreePage]; omega, hd.pageOwner rfl hx'.2 hj⟩
  case slabOf =>
    intro x i b hx hi hb p
    have hx' := hcar.mp hx
    have d := H.desc q x hx'
    rw [d.nslots] at hi
    have hs : L.SlotIn q x i (slotAddr x q.sc i) := ⟨hx', hi, rfl⟩
    have hp : p = slotAddr x q.sc i + b := by
      show btmSlabData h x + i * btmScToSize q.sc + b = _
      rw [btmSlabData, d.firstPage]
      rfl
    rw [hp]
    exact btmSlabOf_eq H S hs hb

/-- A pool whose slots are all back in their slabs has no chunk. -/
theorem PoolInv.drained (I : PoolInv h q)
    (hfree : ∀ r, Carved h q r → (h.slabs r).freeCount = (h.slabs r).nslots) :
    (h.pools q).chunks = none := by
  have hnil : chunkList h q = [] := by
    rw [List.eq_nil_iff_forall_not_mem]
    intro c hc
    obtain ⟨l, hl, hlive, hpos⟩ := I.live hc
    rw [hlive] at hpos
    obtain ⟨x, hx⟩ := List.exists_mem_of_length_pos hpos
    obtain ⟨h1, -, h2⟩ := hl.mem_iff.mp hx
    exact h2 (hfree x h1)
  have := I.chunks
  rwa [hnil] at this

/-- Such a pool has nothing at all. -/
theorem PoolInv.bare (I : PoolInv h q)
    (hfree : ∀ r, Carved h q r → (h.slabs r).freeCount = (h.slabs r).nslots) : (h.pools q).Bare := by
  have hc := I.drained hfree
  have hnil : chunkList h q = [] := by
    unfold chunkList
    rw [hc]
    rfl
  have hno : ∀ {r}, ¬ Carved h q r := fun hr => by
    have := hr.chunk
    rw [hnil] at this
    cases this
  obtain ⟨l1, d1, e1⟩ := I.partials
  obtain ⟨l2, d2, e2, -⟩ := I.warm
  obtain ⟨l3, d3, e3⟩ := I.cold
  obtain rfl := e1.eq_nil fun r hr => hno hr.1
  obtain rfl := e2.eq_nil fun r hr => hno hr.1
  obtain rfl := e3.eq_nil fun r hr => hno hr.1
  refine ⟨d1, d2, d3, hc, ?_⟩
  cases ha : (h.pools q).active with
  | none => rfl
  | some c =>
    have := I.active ha
    rw [hnil] at this
    cases this

end BtMalloc
