import BtMalloc.Proofs.ReleaseProofs

/-!
# Proofs: keeping empty slabs

A slab whose last busy slot came back, in a chunk that has other slabs in use: it goes on the list of
empty slabs with pages, or gives its pages up and goes on the one without.
-/

namespace BtMalloc

open LinkedList PagedMemory Word

variable {cfg : Config} {h : Heap} {bins : ℕ → ℕ → Bin} {L : Ledger} {q : PoolId} {r : SlabRef}

/-- The header of the chunk with one live slab less. -/
def dropLive (h : Heap) (r : SlabRef) : Heap :=
  h.modChunk r.chunk fun x => { x with liveSlabs := decr 32 x.liveSlabs }

theorem Ledger.Sound.counted_pos (S : L.Sound cfg) (hst : (L.stage r).counts = true) :
    0 < (L.counted r.chunk).length :=
  List.length_pos_of_mem ((S.lists.counted r.chunk).mem_iff.mpr ⟨rfl, hst⟩)

/-- The headers after `live_slabs` was decremented for a slab that is no longer counted. -/
theorem dropLive_header (H : HeapRep cfg h bins L) (S : L.Sound cfg) (hr : L.SlabIn q r)
    (hst : (L.stage r).counts = true) {st : Stage} (hne : st ≠ .uncarved)
    {P W C : PoolId → List SlabRef} : HeaderRep (dropLive h r).chunks { L with
      stage := Function.update L.stage r st, partials := P, warm := W, cold := C,
      counted := Function.update L.counted r.chunk ((L.counted r.chunk).erase r) } := by
  intro q' c hc
  have hh := H.header q' c hc
  have hun := Ledger.update_stage_ne_uncarved (L := L) hr.2 hne
  by_cases e : c = r.chunk
  · subst e
    simp only [dropLive, Heap.modChunk, Function.update_self]
    refine ⟨hh.pool, hh.sc, hh.partIdx, hh.nextFreePage, ?_,
      fun hx hx' hj => hh.pageOwner hx ((hun _).mp hx') hj⟩
    have hpos := S.counted_pos hst
    have hlen := (S.lists.counted r.chunk).length_erase (a := r) ⟨rfl, hst⟩
    simp only [Function.update_self]
    rw [hh.liveSlabs, decr_of_pos hpos]
    omega
  · simp only [dropLive, Heap.modChunk, Function.update_of_ne e]
    exact hh.congr rfl (by simp [e]) (fun x _ hx => (hun x).mp hx)

theorem dropLive_same (c : ℕ) : SameChunk (h.chunks c) ((dropLive h r).chunks c) :=
  ⟨update_proj Chunk.next (by rfl) c, update_proj Chunk.prev (by rfl) c,
    update_proj Chunk.memfdOff (by rfl) c⟩

/-- A slab that is on no list is none of the members of the lists. -/
theorem Ledger.Sound.unlisted_not_mem (S : L.Sound cfg) (hst : L.stage r = .unlisted) (q : PoolId) :
    (∀ x ∈ L.partials q, x ≠ r) ∧ (∀ x ∈ L.warm q, x ≠ r) ∧ ∀ x ∈ L.cold q, x ≠ r := by
  refine ⟨?_, ?_, ?_⟩
  · rintro x hx rfl
    have := ((S.lists.partials q).mem_iff.mp hx).2
    rw [hst] at this
    cases this
  · rintro x hx rfl
    have := ((S.lists.warm q).mem_iff.mp hx).2
    rw [hst] at this
    cases this
  · rintro x hx rfl
    have := ((S.lists.cold q).mem_iff.mp hx).2
    rw [hst] at this
    cases this

/-- The empty slab goes on the list of those with pages. -/
theorem emptyWarmPush_rep (H : HeapRep cfg h bins L) (S : L.Sound cfg) (hr : L.SlabIn q r)
    (hst : L.stage r = .unlisted) :
    HeapRep cfg (emptyWarmPush (dropLive h r) q r) bins (L.shelve q r) := by
  have D := H.desc q r hr
  rw [hst] at D
  have heq : emptyWarmPush (dropLive h r) q r =
      { h with
        slabs := Function.update h.slabs r { h.slabs r with next := (h.pools q).emptyWarm }
        pools := Function.update h.pools q
          { h.pools q with emptyWarm := some r, warmCount := (h.pools q).warmCount + 1 }
        chunks := (dropLive h r).chunks } := rfl
  rw [heq]
  refine H.restage hr (by rw [hst]; rfl) (by simp) (by simp)
    (fun x => ⟨update_proj Slab.firstPage (by rfl) x, update_proj Slab.npages (by rfl) x,
      update_proj Slab.nslots (by rfl) x, update_proj Slab.sc (by rfl) x,
      update_proj Slab.partIdx (by rfl) x, update_proj Slab.freeCount (by rfl) x,
      update_proj Slab.freeHead (by rfl) x⟩)
    (fun x e => by simp [e]) (by simpa using D.inPartial) (by simpa using D.decommitted)
    (by simpa using D.retired)
    (fun q' => ⟨update_proj Pool.outstanding (by rfl) q', update_proj Pool.chunks (by rfl) q',
      update_proj Pool.active (by rfl) q'⟩) dropLive_same (fun q' => ?_)
    (dropLive_header H S hr (by rw [hst]; rfl) (by simp))
  obtain ⟨n1, n2, n3⟩ := S.unlisted_not_mem hst q'
  have hq := H.lists q'
  by_cases e : q' = q
  · subst e
    simp only [Function.update_self]
    refine ⟨hq.partials.congr (fun x hx => by simp [n1 x hx]) (fun x hx => by simp [n1 x hx]),
      hq.warm.push (by simp) (fun x hx => by simp [n2 x hx]),
      hq.cold.congr (fun x hx => by simp [n3 x hx]), ?_⟩
    simp [hq.warmCount]
  · simp only [Function.update_of_ne e]
    exact hq.congr rfl rfl rfl rfl (fun x hx => by simp [n1 x hx]) (fun x hx => by simp [n2 x hx])
      (fun x hx => by simp [n3 x hx])

/-- A slab all of whose slots are free is nobody's target. -/
theorem Ledger.Sound.not_target (S : L.Sound cfg) (hr : L.SlabIn q r)
    (hfree : ∀ {i s}, L.SlotIn q r i s → L.place s = .free) {x : SlabRef} (hx : L.target x = r) :
    x = r := by
  by_contra hne
  have hret : L.stage x = .retired := by
    by_contra h
    exact hne ((S.meshed.self h).symm.trans hx)
  obtain ⟨q', i, s, hs, hv⟩ := S.meshed.donated hret (by rw [hx]; exact fun e => hne e.symm)
  rw [hx] at hs
  have e := hr.pool_unique hs.1
  subst e
  rw [hfree hs] at hv
  cases hv

/-- Slots of other slabs are on other pages. -/
theorem Ledger.Carving.page_not_in {q' : PoolId} {x : SlabRef} {i s : ℕ} (hC : L.Carving cfg)
    (hr : L.SlabIn q r) (hs : L.SlotIn q' x i s) (hne : x ≠ r) :
    ¬ inRun (r.chunk / 4096 + r.page) (btmScRunPages q.sc) (s / 4096) := by
  rintro ⟨h1, h2⟩
  have p := hC.slotPos hs
  obtain ⟨j, hj, hpage, -⟩ := p.offset p.size_pos
  rw [Nat.add_zero] at hpage
  have a1 := (hC.aligned hr.holder_ne).1
  have a2 := p.chunk_mod
  have a3 := p.page_le
  obtain ⟨-, b1, b2⟩ := hC.slab_page hr
  simp only [chunkSize_eq] at a1
  have hc : x.chunk = r.chunk := by omega
  have hq : q' = q := by
    have := hs.1.1
    rw [hc, hr.1] at this
    exact (Holder.pool.inj this).symm
  subst hq
  have hpg := @Ledger.Carving.page_inj _ _ _ _ _ hC hs.1 hr j (s / 4096 - (r.chunk / 4096 + r.page)) hj
    (by omega) (by rw [hpage, hc]; omega)
  exact hne (SlabRef.ext hc hpg.1)

/-- The slots on the pages of a slab that is nobody's target are its own. -/
theorem Ledger.Sound.releasedIn_slab (S : L.Sound cfg) (hr : L.SlabIn q r)
    (hnt : ∀ x, L.target x = r → x = r) :
    ReleasedIn L r.chunk r.page (btmScRunPages q.sc) fun s => ∃ i, L.SlotIn q r i s := by
  refine ⟨fun {q' x i s} hv hs y hy hc h1 h2 => ?_⟩
  have hy' : L.SlabIn q' y := by
    rcases hy with rfl | rfl
    · exact hs.1
    · exact S.meshed.pool hs.1
  have hq : q' = q := by
    have := hy'.1
    rw [hc, hr.1] at this
    exact (Holder.pool.inj this).symm
  subst hq
  -- the two page ranges overlap, so the slabs are one
  have hpg : y.page = r.page := by
    rcases Nat.lt_or_ge y.page r.page with hlt | hge
    · exact (@Ledger.Carving.page_inj _ _ _ _ _ S.carving hy' hr (r.page - y.page) 0 (by omega)
        (S.carving.row hr.1).pages_pos (by omega)).1
    · exact (@Ledger.Carving.page_inj _ _ _ _ _ S.carving hy' hr 0 (y.page - r.page)
        (S.carving.row hr.1).pages_pos (by omega) (by omega)).1
  have hyr : y = r := SlabRef.ext hc hpg
  have hxr : x = r := by
    rcases hy with rfl | rfl
    · exact hyr
    · exact hnt x hyr
  rw [← hxr]
  exact ⟨i, hs⟩

/-- The lists, flags and counts of a slab that goes on the list of those without pages, with the pages
    still there. -/
theorem chill_rep (H : HeapRep cfg h bins L) (S : L.Sound cfg) (hr : L.SlabIn q r)
    (hst : L.stage r = .unlisted) : HeapRep cfg { h with
      slabs := Function.update h.slabs r
        { h.slabs r with decommitted := true, next := (h.pools q).emptyCold }
      pools := Function.update h.pools q { h.pools q with emptyCold := some r }
      chunks := (dropLive h r).chunks } bins (L.chill q r) := by
  have D := H.desc q r hr
  rw [hst] at D
  refine H.restage hr (by rw [hst]; rfl) (by simp) (by simp)
    (fun x => ⟨update_proj Slab.firstPage (by rfl) x, update_proj Slab.npages (by rfl) x,
      update_proj Slab.nslots (by rfl) x, update_proj Slab.sc (by rfl) x,
      update_proj Slab.partIdx (by rfl) x, update_proj Slab.freeCount (by rfl) x,
      update_proj Slab.freeHead (by rfl) x⟩)
    (fun x e => by simp [e]) (by simpa using D.inPartial) (by simp)
    (by simpa using D.retired)
    (fun q' => ⟨update_proj Pool.outstanding (by rfl) q', update_proj Pool.chunks (by rfl) q',
      update_proj Pool.active (by rfl) q'⟩) dropLive_same (fun q' => ?_)
    (dropLive_header H S hr (by rw [hst]; rfl) (by simp))
  obtain ⟨n1, n2, n3⟩ := S.unlisted_not_mem hst q'
  have hq := H.lists q'
  by_cases e : q' = q
  · subst e
    simp only [Function.update_self]
    exact ⟨hq.partials.congr (fun x hx => by simp [n1 x hx]) (fun x hx => by simp [n1 x hx]),
      hq.warm.congr (fun x hx => by simp [n2 x hx]),
      hq.cold.push (by simp) (fun x hx => by simp [n3 x hx]), hq.warmCount⟩
  · simp only [Function.update_of_ne e]
    exact hq.congr rfl rfl rfl rfl (fun x hx => by simp [n1 x hx])
      (fun x hx => by simp [n2 x hx]) (fun x hx => by simp [n3 x hx])

/-- What the pages of an empty slab going cold leave behind: only the slab's own free slots change. -/
theorem emptyColdPush_eq (H : HeapRep cfg h bins L) (S : L.Sound cfg) (hr : L.SlabIn q r)
    (hst : L.stage r = .unlisted) (hfree : ∀ {i s}, L.SlotIn q r i s → L.place s = .free) :
    ∃ m' slabs', emptyColdPush cfg (dropLive h r) q r = { h with
        mem := m'
        log := .release (r.chunk / 4096 + r.page) (btmScRunPages q.sc) :: h.log
        slabs := Function.update slabs' r
          { slabs' r with decommitted := true, next := (h.pools q).emptyCold }
        pools := Function.update h.pools q { h.pools q with emptyCold := some r }
        chunks := (dropLive h r).chunks } ∧ m'.pt = h.mem.pt ∧
      Keeps (L.chill q r).Unit (fun s => ∃ i, (L.chill q r).SlotIn q r i s) h.mem m' ∧
      ∀ q' x, (L.chill q r).SlabIn q' x → slabs' x = h.slabs x := by
  have D := H.desc q r hr
  rw [hst] at D
  have H3 := chill_rep H S hr hst
  have S3 : (L.chill q r).Sound cfg := S.chill hr hst
  have hr3 : (L.chill q r).SlabIn q r := ⟨hr.1, by simp [Ledger.chill]⟩
  have hnt : ∀ x, (L.chill q r).target x = r → x = r := fun x hx => S.not_target hr hfree hx
  obtain ⟨⟨n, hn⟩, ht, h512⟩ := S.carving.slab_page hr
  obtain ⟨m', slabs', heq, hpt, hk, hsl⟩ := btmReleasePages_spec (h := dropLive h r)
    H3.frame H3.space S3 hr3.holder_ne (p := r.page) (n := btmScRunPages q.sc) (by omega) (by omega)
    (S3.releasedIn_slab hr3 hnt)
  refine ⟨m', slabs', ?_, hpt, hk, hsl⟩
  have hdec : ((dropLive h r).slabs r).decommitted = false :=
    D.decommitted.trans (by simp)
  have hdata : btmSlabData (dropLive h r) r = r.chunk + r.page * 4096 := by
    simp only [btmSlabData, pageSize_eq]
    rw [show ((dropLive h r).slabs r).firstPage = r.page from D.firstPage]
  have hlen : ((dropLive h r).slabs r).npages * pageSize = btmScRunPages q.sc * 4096 := by
    rw [show ((dropLive h r).slabs r).npages = _ from D.npages, pageSize_eq]
  have hoff : ((dropLive h r).slabs r).firstPage * pageSize = r.page * 4096 := by
    rw [show ((dropLive h r).slabs r).firstPage = r.page from D.firstPage, pageSize_eq]
  simp only [emptyColdPush, slabDecommit, hdec, Bool.false_eq_true, if_false, hdata, hlen, hoff,
    heq, Heap.modSlab, Heap.modPool, Function.update_self, Function.update_idem]
  rfl

/-- The empty slab gives its pages up and goes on the list of those without. -/
theorem emptyColdPush_rep (H : HeapRep cfg h bins L) (S : L.Sound cfg) (hr : L.SlabIn q r)
    (hst : L.stage r = .unlisted) (hfree : ∀ {i s}, L.SlotIn q r i s → L.place s = .free) :
    HeapRep cfg (emptyColdPush cfg (dropLive h r) q r) bins (L.chill q r) := by
  have S3 : (L.chill q r).Sound cfg := S.chill hr hst
  have hr3 : (L.chill q r).SlabIn q r := ⟨hr.1, by simp [Ledger.chill]⟩
  have hslot : ∀ {q' x i s}, (L.chill q r).SlotIn q' x i s → L.SlotIn q' x i s :=
    fun hs => ⟨⟨hs.1.1, (Ledger.update_stage_ne_uncarved hr.2 (by simp) _).mp hs.1.2⟩, hs.2⟩
  have H3 := chill_rep H S hr hst
  obtain ⟨m', slabs', hheap, hpt, hk, hsl⟩ := emptyColdPush_eq H S hr hst hfree
  rw [hheap]
  have hfresh : ∀ {q' x i s}, (L.chill q r).SlotIn q' x i s → x ≠ r → Fresh h.log s →
      Fresh (.release (r.chunk / 4096 + r.page) (btmScRunPages q.sc) :: h.log) s :=
    fun hs hne hf => ⟨S.carving.page_not_in hr (hslot hs) hne, hf⟩
  have H4 := @HeapRep.congr_mem _ _ _ _ H3 S3 m'
    (.release (r.chunk / 4096 + r.page) (btmScRunPages q.sc) :: h.log) _ hpt hk H3.log.good
    (fun {q' x s} hx hi hs => ?_) (fun {t i s} hs => ?_)
  · refine H4.congr_slabs S3 (fun q' x hx => ?_)
    by_cases e : x = r
    · subst e
      simp [hsl q' x hx]
    · simp [e, hsl q' x hx]
  · -- a free slot of another slab
    obtain ⟨-, j, hj⟩ := S3.free_of_mem hx (Stage.intact_ne_retired hi) hs
    have hne : x ≠ r := by
      rintro rfl
      simp [Ledger.chill, Stage.intact] at hi
    refine ⟨?_, hfresh hj hne⟩
    rintro ⟨i, hi'⟩
    exact hne (S3.carving.slotIn_inj hj hi').2.1
  · -- a cached slot
    have hp := S3.bin_place hs
    obtain ⟨q', x, j, hj⟩ := S3.slots.slot (s := s) (by simp [hp])
    have hne : x ≠ r := by
      rintro rfl
      have e := hr3.pool_unique hj.1
      subst e
      have := hfree (hslot hj)
      have hp' : L.place s = .cached t i := hp
      rw [this] at hp'
      cases hp'
    refine ⟨?_, hfresh hj hne⟩
    rintro ⟨i', hi'⟩
    exact hne (S3.carving.slotIn_inj hj hi').2.1

end BtMalloc
