import BtMalloc.Proofs.PutProofs

/-!
# Proofs: releasing pages

What releasing data pages of a chunk does to the units: in mesh mode the file pages behind them read
as zero, otherwise the pages themselves. Only slots whose data are there are affected, and no
descriptor of a carved slab is.
-/

namespace BtMalloc

open LinkedList PagedMemory

variable {cfg : Config} {h : Heap} {bins : ℕ → ℕ → Bin} {L : Ledger} {q : PoolId} {r : SlabRef}
  {c p n : ℕ}

theorem inPages_iff {a len v : ℕ} : inPages a len v = true ↔ a / 4096 ≤ v ∧ v < (a + len) / 4096 := by
  simp [inPages]

/-- The descriptor of a carved slab is on no data page. -/
theorem Ledger.Carving.desc_page (hC : L.Carving cfg) (hr : L.SlabIn q r) (hc : c % 2097152 = 0)
    (hp : 7 ≤ p) (hpn : p + n ≤ 512) :
    inPages (c + p * 4096) (n * 4096) (r.descAddr / 4096) = false := by
  obtain ⟨-, h1, h2⟩ := hC.slab_page hr
  have h3 := (hC.aligned hr.holder_ne).1
  have h4 := (hC.row hr.1).pages_pos
  rw [Bool.eq_false_iff, ne_eq, inPages_iff]
  simp only [SlabRef.descAddr, pageSize_eq, slabDescSize_eq, chunkSize_eq] at h3 ⊢
  have d1 : r.chunk / 2097152 * 512 + 1 ≤ (r.chunk + 4096 + r.page * 48) / 4096 := by omega
  have d2 : (r.chunk + 4096 + r.page * 48) / 4096 < r.chunk / 2097152 * 512 + 7 := by omega
  rcases lt_trichotomy (r.chunk / 2097152) (c / 2097152) with hlt | heq | hgt <;> omega

/-- The slots whose data are on the released pages. -/
structure ReleasedIn (L : Ledger) (c p n : ℕ) (S : ℕ → Prop) : Prop where
  slot : ∀ {q x i s}, L.place s ≠ .void → L.SlotIn q x i s →
    ∀ y, y = x ∨ y = L.target x → y.chunk = c → y.page < p + n →
      p < y.page + btmScRunPages q.sc → S s

/-- Zeroing file pages of a chunk. -/
theorem punch_keeps (F : FrameRep cfg h.mem.pt h.chunks h.memfdBump h.memfdFree L)
    (Sp : SpaceRep h.mem.pt h.mapped h.larges L) (S : L.Sound cfg) (hm : cfg.meshMode = true)
    (hc : L.holder c ≠ .none) (hpn : p + n ≤ 512) {T : ℕ → Prop} (hT : ReleasedIn L c p n T) :
    Keeps L.Unit T h.mem
      (h.mem.zero (fileIn ((h.chunks c).memfdOff + p * 4096) (n * 4096))) := by
  refine zero_keeps (fun {a k i} hu hne hi => ?_)
  cases hu with
  | large hl =>
    rw [(Sp.large hl).frame_byte hi]
    rfl
  | @slot q x j _ hv hs =>
    have pos := S.carving.slotPos hs
    obtain ⟨jp, hjp, hpage, -⟩ := pos.offset hi
    have f := F.slab hm hs.1 hjp
    simp only [pageSize_eq] at f
    rw [hpage, f]
    by_contra hz
    simp only [Bool.not_eq_false, fileIn, inPages_iff] at hz
    have ht := S.meshed.pool hs.1
    have o1 := F.off_mod hm ht.holder_ne
    have o2 := F.off_mod hm hc
    simp only [chunkSize_eq] at o1 o2
    obtain ⟨-, g1, g2⟩ := S.carving.slab_page ht
    have hoff : (h.chunks (L.target x).chunk).memfdOff = (h.chunks c).memfdOff := by omega
    have hcc := F.off_inj hm ht.holder_ne hc hoff
    exact hne (hT.slot hv hs (L.target x) (Or.inr rfl) hcc (by omega) (by omega))

/-- Zeroing anonymous pages of a chunk. -/
theorem madvise_keeps (F : FrameRep cfg h.mem.pt h.chunks h.memfdBump h.memfdFree L)
    (Sp : SpaceRep h.mem.pt h.mapped h.larges L) (S : L.Sound cfg) (hm : cfg.meshMode = false)
    (hc : L.holder c ≠ .none) (hpn : p + n ≤ 512) {T : ℕ → Prop} (hT : ReleasedIn L c p n T) :
    Keeps L.Unit T h.mem (h.mem.zero (anonIn (c + p * 4096) (n * 4096))) := by
  have hca := (S.carving.aligned hc).1
  simp only [chunkSize_eq] at hca
  refine zero_keeps (fun {a k i} hu hne hi => ?_)
  rw [F.anon hm]
  by_contra hz
  simp only [Bool.not_eq_false, anonIn, inPages_iff] at hz
  cases hu with
  | @large _ hd hl =>
    -- the page is in the region of the chunk, which no large object shares
    have hlo := Sp.large hl
    have c1 := hlo.covers hl hi
    have c2 : L.Covers ((a + i) / chunkSize) ((a + i) / chunkSize * chunkSize) := by
      refine .chunk ?_
      have : (a + i) / chunkSize * chunkSize = c := by
        simp only [chunkSize_eq]
        omega
      rwa [this]
    have := Sp.unique c1 c2
    rw [or_one_of_even hlo.even] at this
    have := hlo.even
    simp only [chunkSize_eq] at *
    omega
  | @slot q x j _ hv hs =>
    have pos := S.carving.slotPos hs
    obtain ⟨jp, hjp, hpage, -⟩ := pos.offset hi
    have hxm := pos.chunk_mod
    have hx1 := pos.page_le
    rw [hpage] at hz
    have hcc : x.chunk = c := by omega
    rw [hcc] at hz
    exact hne (hT.slot hv hs x (Or.inl rfl) hcc (by omega) (by omega))

/-- `btm_release_pages` on data pages `p .. p + n - 1` of a chunk. -/
theorem btmReleasePages_spec (F : FrameRep cfg h.mem.pt h.chunks h.memfdBump h.memfdFree L)
    (Sp : SpaceRep h.mem.pt h.mapped h.larges L) (S : L.Sound cfg)
    (hc : L.holder c ≠ .none) (hp : 7 ≤ p) (hpn : p + n ≤ 512) {T : ℕ → Prop}
    (hT : ReleasedIn L c p n T) :
    ∃ m' slabs', btmReleasePages cfg h (c + p * 4096) ((h.chunks c).memfdOff + p * 4096) (n * 4096) =
        { h with mem := m', slabs := slabs', log := .release (c / 4096 + p) n :: h.log } ∧
      m'.pt = h.mem.pt ∧ Keeps L.Unit T h.mem m' ∧
      ∀ q x, L.SlabIn q x → slabs' x = h.slabs x := by
  have hca := (S.carving.aligned hc).1
  simp only [chunkSize_eq] at hca
  have e1 : (c + p * 4096) / 4096 = c / 4096 + p := by omega
  have e2 : n * 4096 / 4096 = n := by omega
  cases hm : cfg.meshMode with
  | true =>
    refine ⟨h.mem.zero (fileIn ((h.chunks c).memfdOff + p * 4096) (n * 4096)), h.slabs, ?_, rfl,
      punch_keeps F Sp S hm hc hpn hT, fun _ _ _ => rfl⟩
    simp only [btmReleasePages, hm, if_true, Heap.punchHole, Heap.note, pageSize_eq, e1, e2]
  | false =>
    refine ⟨h.mem.zero (anonIn (c + p * 4096) (n * 4096)),
      (h.madviseDontneed (c + p * 4096) (n * 4096)).slabs, ?_, rfl, madvise_keeps F Sp S hm hc hpn hT,
      fun q x hx => ?_⟩
    · simp only [btmReleasePages, hm, Bool.false_eq_true, if_false, Heap.madviseDontneed, Heap.note,
        pageSize_eq, e1, e2]
    · simp only [Heap.madviseDontneed, pageSize_eq, S.carving.desc_page hx hca hp hpn,
        Bool.false_and, Bool.false_eq_true, if_false]

/-- Descriptors matter for carved slabs only. -/
theorem HeapRep.congr_slabs (H : HeapRep cfg h bins L) (S : L.Sound cfg)
    {slabs' : SlabRef → Slab} (hs : ∀ q x, L.SlabIn q x → slabs' x = h.slabs x) :
    HeapRep cfg { h with slabs := slabs' } bins L := by
  refine ⟨fun q x hx => ?_, fun q => ?_, H.tally, H.header, H.chunks, H.depot,
    fun q x hx hi => ?_, H.bins, H.frame, H.space, H.owner, H.log⟩
  · show Desc q x _ _ (slabs' x)
    rw [hs q x hx]
    exact H.desc q x hx
  · refine (H.lists q).congr rfl rfl rfl rfl (fun x hx => ?_) (fun x hx => ?_) (fun x hx => ?_)
    · obtain ⟨h1, h2⟩ := (S.lists.partials q).mem_iff.mp hx
      have e := hs q x ⟨h1, by simp [h2]⟩
      exact ⟨congrArg Slab.next e, congrArg Slab.prev e⟩
    · obtain ⟨h1, h2⟩ := (S.lists.warm q).mem_iff.mp hx
      exact congrArg Slab.next (hs q x ⟨h1, by simp [h2]⟩)
    · obtain ⟨h1, h2⟩ := (S.lists.cold q).mem_iff.mp hx
      exact congrArg Slab.next (hs q x ⟨h1, by simp [h2]⟩)
  · show Chain (flNext cfg h.mem) (ptr (slabs' x).freeHead) (L.freeList x)
    rw [hs q x hx]
    exact H.free q x hx hi

/-- A heap whose memory and log changed, without touching the links that are still in use. -/
theorem HeapRep.congr_mem (H : HeapRep cfg h bins L) (S : L.Sound cfg) {m' : Mem}
    {log' : List Event} {T : ℕ → Prop} (hpt : m'.pt = h.mem.pt) (hk : Keeps L.Unit T h.mem m')
    (hgood : Good log')
    (hfree : ∀ {q x s}, L.SlabIn q x → (L.stage x).intact = true → s ∈ L.freeList x →
      ¬ T s ∧ (Fresh h.log s → Fresh log' s))
    (hbin : ∀ {t i s}, s ∈ L.bin t i → ¬ T s ∧ (Fresh h.log s → Fresh log' s)) :
    HeapRep cfg { h with mem := m', log := log' } bins L := by
  refine ⟨H.desc, H.lists, H.tally, H.header, H.chunks, H.depot, fun q x hx hi => ?_,
    fun t i => ?_, ?_, ?_, H.owner, ⟨hgood, fun hx hi _ hs => ?_, fun hs => ?_⟩⟩
  · refine keeps_chain hk (H.free q x hx hi) (fun s hs => ⟨S.cell ?_, (hfree hx hi hs).1⟩)
    simp [S.freeList_place hx (Stage.intact_ne_retired hi) hs]
  · have hb := H.bins t i
    refine ⟨keeps_chain hk hb.chain (fun s hs => ⟨S.cell ?_, (hbin hs).1⟩), hb.count, hb.pool⟩
    simp [S.bin_place hs]
  · show FrameRep cfg m'.pt h.chunks h.memfdBump h.memfdFree L
    rw [hpt]
    exact H.frame
  · show SpaceRep m'.pt h.mapped h.larges L
    rw [hpt]
    exact H.space
  · exact (hfree hx hi hs).2 (H.log.free hx hi hs)
  · exact (hbin hs).2 (H.log.bin hs)

end BtMalloc
