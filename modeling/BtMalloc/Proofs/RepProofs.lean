import BtMalloc.Rep
import BtMalloc.Proofs.StageProofs

/-!
# Proofs: what the parts of the representation depend on

Each part survives a change of the ledger or of the program's data that it does not look at.
-/

namespace BtMalloc

open LinkedList

/-- A field that an update does not change. -/
theorem update_proj {α β γ : Type*} [DecidableEq α] {f : α → β} {a : α} {v : β} (p : β → γ)
    (hp : p v = p (f a)) (x : α) : p (Function.update f a v x) = p (f x) := by
  by_cases e : x = a
  · subst e
    rw [Function.update_self, hp]
  · rw [Function.update_of_ne e]

variable {cfg : Config} {L L' : Ledger}

/-- Who covers a region depends on which chunks are mapped and on the large objects. -/
theorem Ledger.Covers.congr {key w : ℕ} (h : L.Covers key w)
    (hh : ∀ c, L.holder c ≠ .none → L'.holder c ≠ .none) (hl : L'.large = L.large) :
    L'.Covers key w := by
  cases h with
  | chunk hc => exact .chunk (hh _ hc)
  | large hb h1 h2 => exact .large (by rwa [hl]) h1 h2

theorem SpaceRep.congr {pt : ℕ → Frame} {mapped : ℕ → Bool} {larges : ℕ → LargeHdr}
    (h : SpaceRep pt mapped larges L) (hh : ∀ c, L'.holder c ≠ .none → L.holder c ≠ .none)
    (hl : L'.large = L.large) : SpaceRep pt mapped larges L' := by
  refine ⟨fun hc => h.chunk (hh _ hc), fun hb => h.large (by rwa [← hl]),
    fun hb => h.header (by rwa [← hl]), fun h1 h2 => ?_⟩
  exact h.unique (h1.congr hh hl.symm) (h2.congr hh hl.symm)

theorem OwnerRep.congr {T : OwnerTable} (h : OwnerRep T L)
    (hh : ∀ c, L.holder c ≠ .none → L'.holder c ≠ .none) (hl : L'.large = L.large) :
    OwnerRep T L' :=
  fun key hk hne => (h key hk hne).congr hh hl

theorem FrameRep.congr {pt : ℕ → Frame} {chunks : ℕ → Chunk} {bump : ℕ} {freed : List ℕ}
    (h : FrameRep cfg pt chunks bump freed L) (hh : L'.holder = L.holder)
    (ht : L'.target = L.target) (htop : L'.top = L.top)
    (hs : ∀ q r, L'.SlabIn q r → L.SlabIn q r) : FrameRep cfg pt chunks bump freed L' := by
  have hfl : L'.floor = L.floor := by
    funext c
    simp only [Ledger.floor, hh, htop]
  refine ⟨h.anon, fun hm q r hr j hj => ?_, fun hm c hc j hj => ?_,
    fun hm c hc => h.off_mod hm (by rwa [← hh]),
    fun hm c c' hc hc' => h.off_inj hm (by rwa [← hh]) (by rwa [← hh]),
    fun hm c hc => h.off_lt hm (by rwa [← hh]), fun hm c hc => h.off_freed hm (by rwa [← hh]),
    h.freed_mod, h.freed_lt, h.freed_nodup, h.bump_mod⟩
  · rw [ht]
    exact h.slab hm (hs q r hr) hj
  · exact h.rest hm (by rwa [← hh]) (by rwa [← hfl])

theorem DepotRep.congr {chunks : ℕ → Chunk} {warmHead disposeHead : Option ℕ} {warmCount : ℤ}
    (h : DepotRep chunks warmHead warmCount disposeHead L) (hs : L'.stack = L.stack)
    (hq : L'.queue = L.queue) : DepotRep chunks warmHead warmCount disposeHead L' :=
  ⟨by rw [hs]; exact h.stack, by rw [hs]; exact h.stack_count, by rw [hq]; exact h.queue⟩

theorem TallyRep.congr {pools pools' : PoolId → Pool} (h : TallyRep pools L)
    (hp : ∀ q, (pools' q).outstanding = (pools q).outstanding) (hL : L'.held = L.held) :
    TallyRep pools' L' :=
  fun q => by rw [hp, hL]; exact h q

theorem ChunkRep.congr {chunks : ℕ → Chunk} {pools pools' : PoolId → Pool}
    (h : ChunkRep chunks pools L) (hp : ∀ q, (pools' q).chunks = (pools q).chunks)
    (ha : ∀ q, (pools' q).active = (pools q).active) (hc : L'.chunks = L.chunks)
    (hL : L'.active = L.active) : ChunkRep chunks pools' L' :=
  fun q => by rw [hp, ha, hc, hL]; exact h q

/-- The lists of a pool depend on the links of their members. -/
theorem PoolLists.congr {slabs slabs' : SlabRef → Slab} {P P' : Pool} {lp lw lc : List SlabRef}
    (h : PoolLists slabs P lp lw lc) (h1 : P'.partialHead = P.partialHead)
    (h2 : P'.emptyWarm = P.emptyWarm) (h3 : P'.emptyCold = P.emptyCold)
    (h4 : P'.warmCount = P.warmCount)
    (hp : ∀ x ∈ lp, (slabs' x).next = (slabs x).next ∧ (slabs' x).prev = (slabs x).prev)
    (hw : ∀ x ∈ lw, (slabs' x).next = (slabs x).next)
    (hc : ∀ x ∈ lc, (slabs' x).next = (slabs x).next) : PoolLists slabs' P' lp lw lc :=
  ⟨by rw [h1]; exact h.partials.congr (fun x hx => (hp x hx).1) (fun x hx => (hp x hx).2),
    by rw [h2]; exact h.warm.congr hw, by rw [h3]; exact h.cold.congr hc, by rw [h4, h.warmCount]⟩

/-- The header of a chunk depends on the carved slabs of the chunk. -/
theorem Header.congr {q : PoolId} {c : ℕ} {x : Chunk} (h : Header L q c x)
    (ht : L'.top c = L.top c) (hk : (L'.counted c).length = (L.counted c).length)
    (hs : ∀ r, r.chunk = c → L'.stage r ≠ .uncarved → L.stage r ≠ .uncarved) : Header L' q c x :=
  ⟨h.pool, h.sc, h.partIdx, by rw [ht]; exact h.nextFreePage, by rw [hk]; exact h.liveSlabs,
    fun hc hr hj => h.pageOwner hc (hs _ hc hr) hj⟩

/-! ## Changing the stage of one slab -/

/-- Descriptors that differ in links, flags and tiering data only. -/
structure SameDesc (x y : Slab) : Prop where
  firstPage : y.firstPage = x.firstPage
  npages : y.npages = x.npages
  nslots : y.nslots = x.nslots
  sc : y.sc = x.sc
  partIdx : y.partIdx = x.partIdx
  freeCount : y.freeCount = x.freeCount
  freeHead : y.freeHead = x.freeHead

/-- Chunk headers that differ in the number of live slabs only. -/
structure SameChunk (x y : Chunk) : Prop where
  next : y.next = x.next
  prev : y.prev = x.prev
  memfdOff : y.memfdOff = x.memfdOff

theorem ChunkRep.congr_chunks {chunks chunks' : ℕ → Chunk} {pools : PoolId → Pool}
    (h : ChunkRep chunks pools L) (hc : ∀ c, SameChunk (chunks c) (chunks' c)) :
    ChunkRep chunks' pools L :=
  fun q => ⟨(h q).1.congr (fun c _ => (hc c).next) (fun c _ => (hc c).prev), (h q).2⟩

theorem DepotRep.congr_chunks {chunks chunks' : ℕ → Chunk} {warmHead disposeHead : Option ℕ}
    {warmCount : ℤ} (h : DepotRep chunks warmHead warmCount disposeHead L)
    (hc : ∀ c, SameChunk (chunks c) (chunks' c)) :
    DepotRep chunks' warmHead warmCount disposeHead L :=
  ⟨h.stack.congr (fun c _ => (hc c).next), h.stack_count, h.queue.congr (fun c _ => (hc c).next)⟩

theorem FrameRep.congr_chunks {pt : ℕ → Frame} {chunks chunks' : ℕ → Chunk} {bump : ℕ}
    {freed : List ℕ} (h : FrameRep cfg pt chunks bump freed L)
    (hc : ∀ c, (chunks' c).memfdOff = (chunks c).memfdOff) :
    FrameRep cfg pt chunks' bump freed L := by
  refine ⟨h.anon, fun hm q r hr j hj => ?_, fun hm c hc' j hj => ?_, fun hm c hc' => ?_,
    fun hm c c' hc1 hc2 => ?_, fun hm c hc' => ?_, fun hm c hc' => ?_, h.freed_mod, h.freed_lt,
    h.freed_nodup, h.bump_mod⟩
  · rw [hc]
    exact h.slab hm hr hj
  · rw [hc]
    exact h.rest hm hc' hj
  · rw [hc]
    exact h.off_mod hm hc'
  · rw [hc, hc]
    exact h.off_inj hm hc1 hc2
  · rw [hc]
    exact h.off_lt hm hc'
  · rw [hc]
    exact h.off_freed hm hc'

variable {h : Heap} {bins : ℕ → ℕ → Bin} {q : PoolId} {r : SlabRef} {st : Stage}

/-- A heap in which one slab changed its stage, and lists and counts with it, stands for the ledger
    with that stage. -/
theorem HeapRep.restage (H : HeapRep cfg h bins L) (hr : L.SlabIn q r)
    (hold : (L.stage r).intact = true) (hst : st ≠ .uncarved) (hst' : st ≠ .retired)
    {P W C : PoolId → List SlabRef} {K : ℕ → List SlabRef} {slabs' : SlabRef → Slab}
    {pools' : PoolId → Pool} {chunks' : ℕ → Chunk}
    (hsame : ∀ x, SameDesc (h.slabs x) (slabs' x))
    (hflag : ∀ x, x ≠ r → (slabs' x).inPartial = (h.slabs x).inPartial ∧
      (slabs' x).decommitted = (h.slabs x).decommitted ∧ (slabs' x).retired = (h.slabs x).retired)
    (hr1 : (slabs' r).inPartial = decide (st = .listed))
    (hr2 : (slabs' r).decommitted = decide (st = .cold)) (hr3 : (slabs' r).retired = false)
    (hpool : ∀ q, (pools' q).outstanding = (h.pools q).outstanding ∧
      (pools' q).chunks = (h.pools q).chunks ∧ (pools' q).active = (h.pools q).active)
    (hchunk : ∀ c, SameChunk (h.chunks c) (chunks' c))
    (hlist : ListRep slabs' pools' { L with
      stage := Function.update L.stage r st, partials := P, warm := W, cold := C, counted := K })
    (hhead : HeaderRep chunks' { L with
      stage := Function.update L.stage r st, partials := P, warm := W, cold := C, counted := K }) :
    HeapRep cfg { h with slabs := slabs', pools := pools', chunks := chunks' } bins { L with
      stage := Function.update L.stage r st, partials := P, warm := W, cold := C,
      counted := K } := by
  have hun := Ledger.update_stage_ne_uncarved (L := L) hr.2 hst
  set L' : Ledger := { L with
    stage := Function.update L.stage r st, partials := P, warm := W, cold := C, counted := K }
  have hslab : ∀ q' x, L'.SlabIn q' x → L.SlabIn q' x := fun q' x hx => ⟨hx.1, (hun x).mp hx.2⟩
  have hstage : ∀ x, x ≠ r → L'.stage x = L.stage x := fun x e => Function.update_of_ne e ..
  have hint : ∀ x, (L'.stage x).intact = true → (L.stage x).intact = true := by
    intro x hx
    by_cases e : x = r
    · rw [e]
      exact hold
    · rwa [hstage x e] at hx
  refine ⟨fun q' x hx => ?_, hlist, H.tally.congr (fun q => (hpool q).1) rfl, hhead,
    (H.chunks.congr_chunks hchunk).congr (fun q => (hpool q).2.1) (fun q => (hpool q).2.2) rfl rfl,
    (H.depot.congr_chunks hchunk).congr rfl rfl, fun q' x hx hi => ?_, H.bins,
    (H.frame.congr_chunks (fun c => (hchunk c).memfdOff)).congr rfl rfl rfl hslab,
    H.space.congr (fun _ hc => hc) rfl, H.owner.congr (fun _ hc => hc) rfl,
    ⟨H.log.good, fun hx hi => H.log.free (hslab _ _ hx) (hint _ hi), H.log.bin⟩⟩
  · have D := H.desc q' x (hslab q' x hx)
    have E := hsame x
    by_cases e : x = r
    · subst e
      have hs' : L'.stage x = st := Function.update_self ..
      rw [hs']
      refine ⟨E.firstPage.trans D.firstPage, E.npages.trans D.npages, E.nslots.trans D.nslots,
        E.sc.trans D.sc, E.partIdx.trans D.partIdx, hr1, hr2, by rw [hr3]; simp [hst'],
        fun _ => E.freeCount.trans (D.freeCount ?_)⟩
      intro e'
      rw [e'] at hold
      cases hold
    · obtain ⟨f1, f2, f3⟩ := hflag x e
      rw [hstage x e]
      exact ⟨E.firstPage.trans D.firstPage, E.npages.trans D.npages, E.nslots.trans D.nslots,
        E.sc.trans D.sc, E.partIdx.trans D.partIdx, f1.trans D.inPartial, f2.trans D.decommitted,
        f3.trans D.retired, fun h' => E.freeCount.trans (D.freeCount h')⟩
  · show Chain (flNext cfg h.mem) (ptr (slabs' x).freeHead) (L.freeList x)
    rw [(hsame x).freeHead]
    exact H.free q' x (hslab q' x hx) (hint x hi)

/-! ## Changing where slots are -/

/-- A heap in which slots moved, with the descriptors, links and bins that go with them, stands for
    the ledger with the slots moved. -/
theorem HeapRep.replace (H : HeapRep cfg h bins L) {place : ℕ → Place} {bin : ℕ → ℕ → List ℕ}
    {freeList : SlabRef → List ℕ} {held : PoolId → List ℕ} {m' : Mem} {log' : List Event}
    {slabs' : SlabRef → Slab} {pools' : PoolId → Pool} {bins' : ℕ → ℕ → Bin}
    (hpt : m'.pt = h.mem.pt)
    (hdesc : ∀ q x, L.SlabIn q x → Desc q x (L.stage x) (freeList x).length (slabs' x))
    (hlists : ListRep slabs' pools' L)
    (htally : ∀ q, (pools' q).outstanding = (held q).length)
    (hchunks : ∀ q, (pools' q).chunks = (h.pools q).chunks)
    (hactive : ∀ q, (pools' q).active = (h.pools q).active)
    (hfree : ∀ q x, L.SlabIn q x → (L.stage x).intact = true →
      Chain (flNext cfg m') (ptr (slabs' x).freeHead) (freeList x) ∧ ∀ s ∈ freeList x, Fresh log' s)
    (hbins : ∀ t i, BinOk cfg m' i (bins' t i) (bin t i) ∧ ∀ s ∈ bin t i, Fresh log' s)
    (hgood : Good log') :
    HeapRep cfg { h with mem := m', log := log', slabs := slabs', pools := pools' } bins' { L with
      place := place, bin := bin, freeList := freeList, held := held } := by
  refine ⟨hdesc, hlists, htally, fun q c hc => ?_, H.chunks.congr hchunks hactive rfl rfl,
    H.depot.congr rfl rfl, fun q x hx hi => (hfree q x hx hi).1, fun t i => (hbins t i).1, ?_, ?_,
    H.owner.congr (fun _ hc => hc) rfl, ⟨hgood, fun hx hi _ hs => (hfree _ _ hx hi).2 _ hs,
      fun hs => (hbins _ _).2 _ hs⟩⟩
  · exact (H.header q c hc).congr rfl rfl (fun _ _ hx => hx)
  · rw [hpt]
    exact H.frame.congr rfl rfl rfl (fun _ _ hx => hx)
  · rw [hpt]
    exact H.space.congr (fun _ hc => hc) rfl

end BtMalloc
