import BtMalloc.Proofs.FlushProofs

/-!
# Proofs: formatting a slab

`slab_format` writes a slab's descriptor and links all its slots. It is used on an empty slab that
is taken back into use and on a slab just carved from a chunk.
-/

namespace BtMalloc

open LinkedList PagedMemory Word

variable {cfg : Config} {k : Kernel} {X : ℕ → Prop} {B : ℕ → ℕ → Prop} {h : Heap}
  {bins : ℕ → ℕ → Bin} {L L' : Ledger} {q : PoolId} {r : SlabRef} {c : ℕ} {U : ℕ → ℕ → Prop}

/-- A slab after `slab_format`: its descriptor, and what happened to memory and the log. -/
structure Formatted (cfg : Config) (U : ℕ → ℕ → Prop) (q : PoolId) (r : SlabRef) (m : Mem)
    (log : List Event) (x : Slab) (m' : Mem) (log' : List Event) : Prop where
  desc : Desc q r .unlisted (slabSlots q.sc) x
  pt : m'.pt = m.pt
  keeps : Keeps U (fun s => s ∈ slabSlotList r q.sc) m m'
  chain : Chain (flNext cfg m') (ptr x.freeHead) (slabSlotList r q.sc)
  log : LinkLog (fun _ => False) log log'
  fresh : ∀ s ∈ slabSlotList r q.sc, Fresh log' s

theorem slabFormat_spec (hA : h.mem.Apart U) (hrow : ClassRow q.sc)
    (hcell : ∀ s ∈ slabSlotList r q.sc, Cell U s) (hfp : (h.slabs r).firstPage = r.page)
    (hnp : (h.slabs r).npages = btmScRunPages q.sc) :
    ∃ x m' log', slabFormat cfg h r q =
        { h with mem := m', log := log', slabs := Function.update h.slabs r x } ∧
      Formatted cfg U q r h.mem h.log x m' log' := by
  have hpos : 0 < btmScToSize q.sc := by
    have := hrow.size_ge
    omega
  have hmem : ∀ j < slabSlots q.sc, Cell U (r.chunk + r.page * pageSize + j * btmScToSize q.sc) :=
    fun j hj => hcell _ (Ledger.mem_slabSlotList.mpr ⟨j, hj, rfl⟩)
  obtain ⟨head, m', log', he, hpt, hk, hch, hlog, hfr⟩ := @slabFormatLoop_spec cfg U
    (r.chunk + r.page * pageSize) _ hpos (slabSlots q.sc) 0
    (h.modSlab r fun x =>
      { x with
        partIdx := q.part, sc := q.sc, next := none, prev := none, inPartial := false,
        retired := false, decommitted := false, pagedOut := false, epoch := h.tierEpoch,
        nslots := slabSlots q.sc, freeCount := slabSlots q.sc })
    [] hA hmem (by decide) rfl (by simp)
  rw [List.append_nil] at hch
  refine ⟨{ h.slabs r with
      partIdx := q.part, sc := q.sc, next := none, prev := none, inPartial := false,
      retired := false, decommitted := false, pagedOut := false, epoch := h.tierEpoch,
      nslots := slabSlots q.sc, freeCount := slabSlots q.sc, freeHead := head }, m', log', ?_,
    ⟨⟨hfp, hnp, rfl, rfl, rfl, rfl, rfl, rfl, fun _ => rfl⟩, hpt, ?_, hch, hlog, ?_⟩⟩
  · have hns : (h.slabs r).npages * pageSize / btmScToSize q.sc = slabSlots q.sc := by
      rw [hnp]
      rfl
    simp only [slabFormat, Heap.modSlab, Function.update_self, Function.update_idem, btmSlabData, hfp,
      hns] at he ⊢
    rw [he]
    simp
  · refine hk.mono (fun _ hs => ?_)
    obtain ⟨j, hj, e⟩ := hs
    exact Ledger.mem_slabSlotList.mpr ⟨j, hj, e⟩
  · intro s hs
    obtain ⟨j, hj, rfl⟩ := Ledger.mem_slabSlotList.mp hs
    exact hfr j hj

/-- Ledger `L'` is `L` with slab `r` of pool `q` in use, on no list and all free. -/
structure Ledger.Opens (L L' : Ledger) (q : PoolId) (r : SlabRef) : Prop where
  self : L'.SlabIn q r
  stage : L'.stage r = .unlisted
  freeList : L'.freeList r = slabSlotList r q.sc
  free : ∀ s ∈ slabSlotList r q.sc, L'.place s = .free
  slab : ∀ {q' x}, x ≠ r → (L'.SlabIn q' x ↔ L.SlabIn q' x)
  stage_other : ∀ {x}, x ≠ r → L'.stage x = L.stage x
  freeList_other : ∀ {x}, x ≠ r → L'.freeList x = L.freeList x
  place : ∀ {s}, s ∉ slabSlotList r q.sc → L'.place s = L.place s
  was : ∀ s ∈ slabSlotList r q.sc, L.place s = .free ∨
    L.place s = .void ∧ ∀ q' x i, ¬ L.SlotIn q' x i s
  bin : L'.bin = L.bin
  held : L'.held = L.held
  holder : L'.holder = L.holder
  large : L'.large = L.large

theorem Ledger.Opens.client (O : L.Opens L' q r) {a n : ℕ} (hc : L.Client a n) : L'.Client a n := by
  cases hc with
  | @slot q' x i _ ho hs =>
    have hm : a ∉ slabSlotList r q.sc := fun hm => by
      rcases O.was a hm with e | ⟨e, -⟩ <;> rw [ho] at e <;> cases e
    refine .slot (by rw [O.place hm, ho]) ⟨?_, hs.2⟩
    by_cases e : x = r
    · subst e
      have hq : q' = q := by
        have h1 := hs.1.1
        rw [← O.holder, O.self.1] at h1
        exact (Holder.pool.inj h1).symm
      subst hq
      exact O.self
    · exact (O.slab e).mpr hs.1
  | large hl => exact .large (by rwa [O.large])

/-- A slot on a list of `L` is none of the slots of the new slab. -/
theorem Ledger.Opens.not_mem (O : L.Opens L' q r) (S' : L'.Sound cfg) {q' : PoolId} {x : SlabRef}
    {i s : ℕ} (hx : x ≠ r) (hs : L'.SlotIn q' x i s) : s ∉ slabSlotList r q.sc := by
  intro hm
  obtain ⟨j, hj, e⟩ := Ledger.mem_slabSlotList.mp hm
  exact hx (S'.carving.slotIn_inj hs ⟨O.self, hj, e⟩).2.1

/-- A heap in which slab `r` was formatted stands for a ledger that opens `r`, given the parts that
    formatting does not touch. -/
theorem HeapRep.install (H : HeapRep cfg h bins L) (S' : L'.Sound cfg) (O : L.Opens L' q r) {x : Slab}
    {m' : Mem} {log' : List Event} (F : Formatted cfg L'.Unit q r h.mem h.log x m' log')
    {pools' : PoolId → Pool} {chunks' : ℕ → Chunk}
    (hlists : ListRep (Function.update h.slabs r x) pools' L')
    (hpools : ∀ q, (pools' q).outstanding = (h.pools q).outstanding)
    (hheader : HeaderRep chunks' L') (hchunks : ChunkRep chunks' pools' L')
    (hdepot : DepotRep chunks' h.warmHead h.warmCount h.disposeHead L')
    (hframe : FrameRep cfg h.mem.pt chunks' h.memfdBump h.memfdFree L')
    (hspace : SpaceRep h.mem.pt h.mapped h.larges L') (howner : OwnerRep h.owners L') :
    HeapRep cfg { h with
      mem := m', log := log', slabs := Function.update h.slabs r x, pools := pools',
      chunks := chunks' } bins L' := by
  have hbin : ∀ {t i s}, s ∈ L.bin t i → L'.place s = .cached t i ∧ s ∉ slabSlotList r q.sc := by
    intro t i s hm
    have hp : L'.place s = .cached t i := S'.bin_place (by rwa [O.bin])
    refine ⟨hp, fun hm => ?_⟩
    rw [O.free s hm] at hp
    cases hp
  refine ⟨fun q' y hy => ?_, hlists, fun q' => ?_, hheader, hchunks, hdepot, fun q' y hy hi => ?_,
    fun t i => ?_, by rw [F.pt]; exact hframe, by rw [F.pt]; exact hspace, howner,
    ⟨F.log.good H.log.good (fun _ hf => hf.elim), fun {q' y} hy hi s hm => ?_, fun {t i s} hm => ?_⟩⟩
  · by_cases e : y = r
    · subst e
      have hq := O.self.pool_unique hy
      subst hq
      simp only [Function.update_self]
      rw [O.stage, O.freeList, Ledger.length_slabSlotList]
      exact F.desc
    · simp only [Function.update_of_ne e]
      rw [O.stage_other e, O.freeList_other e]
      exact H.desc q' y ((O.slab e).mp hy)
  · rw [O.held]
    exact (hpools q').trans (H.tally q')
  · by_cases e : y = r
    · subst e
      simp only [Function.update_self]
      rw [O.freeList]
      exact F.chain
    · simp only [Function.update_of_ne e]
      have hret := Stage.intact_ne_retired hi
      have hch := H.free q' y ((O.slab e).mp hy) (by rwa [← O.stage_other e])
      rw [O.freeList_other e]
      refine keeps_chain F.keeps hch (fun s hs => ?_)
      obtain ⟨hp, j, hj⟩ := S'.free_of_mem hy hret (s := s) (by rwa [O.freeList_other e])
      exact ⟨S'.cell (by simp [hp]), O.not_mem S' e hj⟩
  · rw [O.bin]
    have hb := H.bins t i
    refine ⟨keeps_chain F.keeps hb.chain (fun s hs => ?_), hb.count, hb.pool⟩
    obtain ⟨hp, hn⟩ := hbin hs
    exact ⟨S'.cell (by simp [hp]), hn⟩
  · by_cases e : y = r
    · subst e
      rw [O.freeList] at hm
      exact F.fresh s hm
    · rw [O.freeList_other e] at hm
      exact F.log.fresh (H.log.free ((O.slab e).mp hy) (by rwa [← O.stage_other e]) hm)
  · rw [O.bin] at hm
    exact F.log.fresh (H.log.bin hm)

/-- Formatting a slab has no effect on the client. -/
theorem Formatted.effect (Sp : SpaceRep h.mem.pt h.mapped h.larges L') (S' : L'.Sound cfg)
    (O : L.Opens L' q r) {x : Slab} {m' : Mem} {log' : List Event}
    (F : Formatted cfg L'.Unit q r h.mem h.log x m' log') {slabs' : SlabRef → Slab}
    {pools' : PoolId → Pool} {chunks' : ℕ → Chunk} :
    Effect k X B h L { h with
      mem := m', log := log', slabs := slabs', pools := pools', chunks := chunks' } L' := by
  obtain ⟨ev, hev, hlink⟩ := F.log.ext
  refine Effect.quiet (fun a n i hc _ hi => F.keeps (O.client hc).unit (fun hm => ?_) hi)
    ⟨ev, hev, hlink⟩ (fun a n hc _ => O.client hc) O.holder O.large rfl rfl ⟨rfl, rfl⟩
  obtain ⟨j, hj, e⟩ := Ledger.mem_slabSlotList.mp hm
  cases O.client hc with
  | slot ho hs =>
    rw [O.free a hm] at ho
    cases ho
  | large hl => exact Sp.large_ne_slot S' hl ⟨O.self, hj, e⟩ rfl

/-! ## Taking an empty slab back into use -/

theorem Ledger.Sound.revive_opens (S : L.Sound cfg) (hr : L.SlabIn q r)
    (hfree : ∀ {i s}, L.SlotIn q r i s → L.place s = .free) : L.Opens (L.revive q r) q r := by
  have hall : ∀ s ∈ slabSlotList r q.sc, L.place s = .free := by
    intro s hs
    obtain ⟨q', i, h⟩ := (S.carving.slots_listing hr).mem_iff.mp hs
    have e := hr.pool_unique h.1
    subst e
    exact hfree h
  refine ⟨⟨hr.1, by simp [Ledger.revive]⟩, by simp [Ledger.revive], by simp [Ledger.revive], hall,
    fun {q' x} e => ?_, fun e => ?_, fun e => ?_, fun _ => rfl, fun s hs => Or.inl (hall s hs), rfl,
    rfl, rfl, rfl⟩
  · unfold Ledger.SlabIn
    simp [Ledger.revive, e]
  · simp [Ledger.revive, e]
  · simp [Ledger.revive, e]

/-- The header of the chunk with one live slab more. -/
def addLive (h : Heap) (c : ℕ) : Heap :=
  h.modChunk c fun x => { x with liveSlabs := x.liveSlabs + 1 }

theorem addLive_same (x : ℕ) : SameChunk (h.chunks x) ((addLive h c).chunks x) :=
  ⟨update_proj Chunk.next (by rfl) x, update_proj Chunk.prev (by rfl) x,
    update_proj Chunk.memfdOff (by rfl) x⟩

/-- The pool after its first empty slab was taken. -/
def Pool.takeEmpty (P : Pool) (next : Option SlabRef) : Pool :=
  match P.emptyWarm with
  | some _ => { P with emptyWarm := next, warmCount := decr 32 P.warmCount }
  | none => { P with emptyCold := next }

/-- The empty slab `btm_slab_new` takes is the first of its list. -/
theorem takeEmpty_some {h1 : Heap} (H : HeapRep cfg h bins L) (S : L.Sound cfg)
    (he : takeEmpty h q = (some r, h1)) : L.SlabIn q r ∧ (L.stage r = .warm ∨ L.stage r = .cold) ∧
      h1 = { h with pools :=
        Function.update h.pools q ((h.pools q).takeEmpty (h.slabs r).next) } ∧
      ListRep h.slabs h1.pools { L with
        warm := Function.update L.warm q ((L.warm q).erase r)
        cold := Function.update L.cold q ((L.cold q).erase r) } := by
  have hq := H.lists q
  unfold takeEmpty at he
  cases hw : (h.pools q).emptyWarm with
  | some r' =>
    simp only [hw, Prod.mk.injEq, Option.some.injEq] at he
    obtain ⟨rfl, rfl⟩ := he
    have hch := hq.warm
    cases hl : L.warm q with
    | nil =>
      rw [hl, hw] at hch
      cases hch
    | cons a rest =>
      rw [hl, hw] at hch
      obtain ⟨e, hrest⟩ := hch
      obtain rfl := Option.some.inj e
      obtain ⟨h1, h2⟩ := ((S.lists.warm q).2 r').mp (by rw [hl]; exact List.mem_cons_self ..)
      have hnc : r' ∉ L.cold q := fun hm => by
        have := ((S.lists.cold q).mem_iff.mp hm).2
        rw [h2] at this
        cases this
      refine ⟨⟨h1, by simp [h2]⟩, Or.inl h2, by simp [Pool.takeEmpty, hw, Heap.modPool], fun q' => ?_⟩
      by_cases eq : q' = q
      · subst eq
        simp only [Heap.modPool, Function.update_self, List.erase_cons_head,
          List.erase_of_not_mem hnc]
        refine ⟨hq.partials, hrest, hq.cold, ?_⟩
        have := hq.warmCount
        rw [hl, List.length_cons] at this
        show decr 32 (h.pools q').warmCount = rest.length
        rw [this, decr_of_pos (by omega)]
        omega
      · simp only [Heap.modPool, Function.update_of_ne eq]
        exact H.lists q'
  | none =>
    have hwn : L.warm q = [] := by
      have := hq.warm.head_eq
      rw [hw] at this
      exact List.head?_eq_none_iff.mp this.symm
    cases hc : (h.pools q).emptyCold with
    | none => simp [hw, hc] at he
    | some r' =>
      simp only [hw, hc, Prod.mk.injEq, Option.some.injEq] at he
      obtain ⟨rfl, rfl⟩ := he
      have hch := hq.cold
      cases hl : L.cold q with
      | nil =>
        rw [hl, hc] at hch
        cases hch
      | cons a rest =>
        rw [hl, hc] at hch
        obtain ⟨e, hrest⟩ := hch
        obtain rfl := Option.some.inj e
        obtain ⟨h1, h2⟩ := ((S.lists.cold q).2 r').mp (by rw [hl]; exact List.mem_cons_self ..)
        refine ⟨⟨h1, by simp [h2]⟩, Or.inr h2, by simp [Pool.takeEmpty, hw, Heap.modPool],
          fun q' => ?_⟩
        by_cases eq : q' = q
        · subst eq
          simp only [Heap.modPool, Function.update_self, List.erase_cons_head]
          refine ⟨hq.partials, ?_, hrest, ?_⟩
          · simpa [hwn] using hw
          · simpa [hwn] using hq.warmCount
        · simp only [Heap.modPool, Function.update_of_ne eq]
          exact H.lists q'

/-- The slots of a ledger's slab that are free can hold links. -/
theorem Ledger.Opens.cells (O : L.Opens L' q r) (S' : L'.Sound cfg) :
    ∀ s ∈ slabSlotList r q.sc, Cell L'.Unit s :=
  fun s hs => S'.cell (by simp [O.free s hs])

/-- An empty slab is taken back into use. -/
theorem revive_spec {h1 : Heap} (H : HeapRep cfg h bins L) (S : L.Sound cfg) (T : L.Settled)
    (he : takeEmpty h q = (some r, h1)) :
    (L.revive q r).Sound cfg ∧ L.Opens (L.revive q r) q r ∧ (L.revive q r).SettledBut r ∧
      HeapRep cfg (addLive (slabFormat cfg h1 r q) r.chunk) bins (L.revive q r) ∧
      Effect k X B h L (addLive (slabFormat cfg h1 r q) r.chunk) (L.revive q r) ∧
      Aside h L (addLive (slabFormat cfg h1 r q) r.chunk) (L.revive q r) := by
  obtain ⟨hr, hst, rfl, hlist⟩ := takeEmpty_some H S he
  set pools' := Function.update h.pools q ((h.pools q).takeEmpty (h.slabs r).next) with hpools'
  have hret : L.stage r ≠ .retired := by rcases hst with e | e <;> simp [e]
  have hncount : (L.stage r).counts = false := by rcases hst with e | e <;> rw [e] <;> rfl
  have hfree : ∀ {i s}, L.SlotIn q r i s → L.place s = .free := by
    intro i s hs
    have hT := T.slab hr
    unfold Ledger.SlabSettled at hT
    refine S.all_free hr hret ?_ hs
    rcases hst with e | e <;> rw [e] at hT <;> exact hT
  have S' := S.revive hr hst hfree
  have O := S.revive_opens hr hfree
  have D := H.desc q r hr
  have hframe : FrameRep cfg h.mem.pt h.chunks h.memfdBump h.memfdFree (L.revive q r) :=
    H.frame.congr rfl rfl rfl (fun q' x hx => by
      by_cases e : x = r
      · subst e
        exact ⟨hx.1, hr.2⟩
      · exact (O.slab e).mp hx)
  have hspace : SpaceRep h.mem.pt h.mapped h.larges (L.revive q r) := H.space.congr (fun _ => id) rfl
  obtain ⟨x, m', log', hfmt, F⟩ := (@slabFormat_spec cfg ({ h with pools := pools' }) q r)
    (units_apart S' hframe hspace) (S.carving.row hr.1) (O.cells S') D.firstPage D.npages
  have heq : addLive (slabFormat cfg { h with pools := pools' } r q) r.chunk = { h with
      mem := m', log := log', slabs := Function.update h.slabs r x
      pools := pools', chunks := (addLive h r.chunk).chunks } := by
    rw [hfmt]
    rfl
  have hother : ∀ {y : SlabRef} {v : Stage}, L.stage y = v → v ≠ .warm → v ≠ .cold → y ≠ r := by
    rintro y v hv h1 h2 rfl
    rcases hst with e | e
    · exact h1 (hv.symm.trans e)
    · exact h2 (hv.symm.trans e)
  have hpool : ∀ q', (pools' q').chunks = (h.pools q').chunks ∧
      (pools' q').active = (h.pools q').active ∧
      (pools' q').outstanding = (h.pools q').outstanding := by
    have hp : ∀ nx, ((h.pools q).takeEmpty nx).chunks = (h.pools q).chunks ∧
        ((h.pools q).takeEmpty nx).active = (h.pools q).active ∧
        ((h.pools q).takeEmpty nx).outstanding = (h.pools q).outstanding := by
      intro nx
      unfold Pool.takeEmpty
      split <;> exact ⟨rfl, rfl, rfl⟩
    exact fun q' => ⟨update_proj Pool.chunks (hp _).1 q', update_proj Pool.active (hp _).2.1 q',
      update_proj Pool.outstanding (hp _).2.2 q'⟩
  rw [heq]
  refine ⟨S', O, ⟨fun {q' y} hne hy => ?_, fun {c q'} hc => ?_, fun q' => ?_⟩, ?_,
    F.effect hspace S' O, ⟨rfl, rfl, fun c _ => (addLive_same c).next⟩⟩
  · have := T.slab ((O.slab hne).mp hy)
    unfold Ledger.SlabSettled at this ⊢
    rwa [O.stage_other hne, O.freeList_other hne]
  · show Function.update L.counted r.chunk (r :: L.counted r.chunk) c ≠ []
    by_cases e : c = r.chunk
    · subst e
      simp
    · rw [Function.update_of_ne e]
      exact T.chunk hc
  · show (Function.update L.warm q ((L.warm q).erase r) q').length ≤ 2
    by_cases e : q' = q
    · subst e
      rw [Function.update_self]
      exact (List.length_erase_le ..).trans (T.warm q')
    · rw [Function.update_of_ne e]
      exact T.warm q'
  · refine H.install S' O F (fun q' => ?_) (fun q' => (hpool q').2.2) (fun q' c hc => ?_)
      ((H.chunks.congr_chunks addLive_same).congr (fun q' => (hpool q').1) (fun q' => (hpool q').2.1)
        rfl rfl)
      ((H.depot.congr_chunks addLive_same).congr rfl rfl)
      (hframe.congr_chunks fun c => (addLive_same c).memfdOff) hspace (H.owner.congr (fun _ => id) rfl)
    · -- the slab taken is on no list any more
      have hn1 : ∀ y ∈ L.partials q', y ≠ r := fun y hy =>
        hother ((S.lists.partials q').mem_iff.mp hy).2 (by simp) (by simp)
      have hn2 : ∀ y ∈ (L.revive q r).warm q', y ≠ r := by
        rintro y hy rfl
        have := ((S'.lists.warm q').mem_iff.mp hy).2
        rw [O.stage] at this
        cases this
      have hn3 : ∀ y ∈ (L.revive q r).cold q', y ≠ r := by
        rintro y hy rfl
        have := ((S'.lists.cold q').mem_iff.mp hy).2
        rw [O.stage] at this
        cases this
      refine (hlist q').congr rfl rfl rfl rfl (fun y hy => ?_) (fun y hy => ?_) (fun y hy => ?_)
      · simp [hn1 y hy]
      · simp [hn2 y hy]
      · simp [hn3 y hy]
    · have hh := H.header q' c hc
      have hun : ∀ y, (L.revive q r).stage y ≠ .uncarved → L.stage y ≠ .uncarved := by
        intro y hy
        by_cases e : y = r
        · rw [e]
          exact hr.2
        · rwa [O.stage_other e] at hy
      by_cases e : c = r.chunk
      · subst e
        simp only [addLive, Heap.modChunk, Function.update_self]
        refine ⟨hh.pool, hh.sc, hh.partIdx, hh.nextFreePage, ?_,
          fun hy hy' hj => hh.pageOwner hy (hun _ hy') hj⟩
        simp [Ledger.revive, hh.liveSlabs]
      · simp only [addLive, Heap.modChunk, Function.update_of_ne e]
        exact hh.congr rfl (by simp [Ledger.revive, e]) (fun y _ hy => hun y hy)

end BtMalloc
