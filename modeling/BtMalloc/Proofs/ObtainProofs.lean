import BtMalloc.Proofs.CarveProofs
import BtMalloc.Proofs.MapProofs

/-!
# Proofs: a slab to allocate from

`btm_chunk_obtain`, `btm_slab_new` and the choice of `btm_pool_refill`: a listed slab of the pool, a
recycled one, the next one of the active chunk or the first one of a new chunk. They only fail when
the kernel refuses to back a new chunk.
-/

namespace BtMalloc

open LinkedList PagedMemory Word

variable {cfg : Config} {k : Kernel} {X : ℕ → Prop} {B : ℕ → ℕ → Prop} {h : Heap}
  {bins : ℕ → ℕ → Bin} {L L' : Ledger} {q : PoolId} {r : SlabRef} {c : ℕ}

/-! ## `btm_chunk_obtain` -/

/-- A chunk that nobody used was taken in hand. -/
structure InHand (cfg : Config) (k : Kernel) (X : ℕ → Prop) (bins : ℕ → ℕ → Bin) (h : Heap)
    (L : Ledger) (c : ℕ) (h' : Heap) : Prop where
  holder : L.holder c = .none ∨ L.holder c = .stack
  sound : (L.rehold c .hand).Sound cfg
  rep : HeapRep cfg h' bins (L.rehold c .hand)
  effect : Effect k X (fun a n => L.Unit a n ∨ c ≤ a ∧ a + n ≤ c + chunkSize) h L h'
    (L.rehold c .hand)
  link : ∀ x, (h'.chunks x).next = (h.chunks x).next
  next : nextChunk k h = some c

theorem InHand.not_pool {h' : Heap} (I : InHand cfg k X bins h L c h') (q : PoolId) :
    L.holder c ≠ .pool q := by
  rcases I.holder with e | e <;> simp [e]

theorem Mapped.inHand {h' : Heap} (M : Mapped cfg k X bins h L c h') (S : L.Sound cfg)
    (hw : h.warmHead = none) : InHand cfg k X bins h L c h' :=
  ⟨Or.inl M.holder, S.rehold (by simp [M.holder]) (by simp) (fun _ => ⟨M.mod, M.pos, M.le⟩), M.rep,
    M.effect, M.link, by rw [nextChunk, hw]; exact M.addr⟩

/-- `btm_chunk_obtain` takes a chunk off the warm stack or maps one. -/
theorem btmChunkObtain_spec (H : HeapRep cfg h bins L) (S : L.Sound cfg) :
    (∃ h', btmChunkObtain cfg k h q = (none, h') ∧ (h.warmHead = none ∧ MapRefused cfg k h) ∧ HeapRep cfg h' bins L ∧
      Effect k X L.Unit h L h' L ∧ h'.chunks = h.chunks) ∨
    ∃ c h', btmChunkObtain cfg k h q = (some c, chunkInitHeader h' c q) ∧
      InHand cfg k X bins h L c h' := by
  unfold btmChunkObtain
  cases hw : h.warmHead with
  | some c =>
    obtain ⟨hc, H'⟩ := stackPop_rep H S hw
    have hn : L.holder c ≠ .none := by simp [hc]
    have hold : ∀ q, L.holder c ≠ .pool q := by simp [hc]
    exact Or.inr ⟨c, _, rfl, Or.inr hc, S.rehold hold (by simp) (fun _ => S.carving.aligned hn), H',
      Effect.rehold hn hold (by simp), fun _ => rfl, by rw [nextChunk, hw]⟩
  | none =>
    rcases mapFresh_spec (k := k) (X := X) H S with ⟨h', e, h1⟩ | ⟨c, h', e, M⟩
    · exact Or.inl ⟨h', by simp only [e], ⟨rfl, h1.1⟩, h1.2⟩
    · exact Or.inr ⟨c, h', by simp only [e], M.inHand S hw⟩

/-! ## The ledger with a slab more -/

/-- Ledger `L'` is `L` with slab `r` more to allocate from, and the chunks in `Z` in a pool. -/
structure Ledger.Grown (L L' : Ledger) (r : SlabRef) (Z : ℕ → PoolId → Prop) : Prop where
  bin : L'.bin = L.bin
  held : L'.held = L.held
  large : L'.large = L.large
  place : ∀ s, L'.place s = L.place s ∨
    L.place s = .void ∧ (∀ q x i, ¬ L.SlotIn q x i s) ∧ L'.place s = .free
  slab : ∀ {q x}, L.SlabIn q x → L'.SlabIn q x
  slot : ∀ {q x i s}, L'.SlotIn q x i s → L.SlotIn q x i s ∨ L'.place s = .free
  stage : ∀ {x}, x ≠ r → L'.stage x = L.stage x
  freeList : ∀ {x}, x ≠ r → L'.freeList x = L.freeList x
  own : ∀ {c q}, L'.holder c = .pool q → L.holder c = .pool q ∨ Z c q

namespace Ledger

variable {Z : ℕ → PoolId → Prop}

theorem Grown.refl : L.Grown L r Z :=
  ⟨rfl, rfl, rfl, fun _ => Or.inl rfl, id, Or.inl, fun _ => rfl, fun _ => rfl, Or.inl⟩

/-- The slots in use, cached or handed out are those of before. -/
theorem Grown.busy (G : L.Grown L' r Z) {s : ℕ} (hb : (L'.place s).busy = true) :
    L'.place s = L.place s := by
  rcases G.place s with e | ⟨-, -, e⟩
  · exact e
  · rw [e] at hb
    cases hb

theorem Opens.slab_mono (O : L.Opens L' q r) {q' : PoolId} {x : SlabRef} (hx : L.SlabIn q' x) :
    L'.SlabIn q' x := by
  by_cases e : x = r
  · subst e
    have h1 := O.self.1
    rw [O.holder, hx.1] at h1
    rw [Holder.pool.inj h1]
    exact O.self
  · exact (O.slab e).mpr hx

theorem Opens.grown (O : L.Opens L' q r) : L.Grown L' r Z := by
  refine ⟨O.bin, O.held, O.large, fun s => ?_, O.slab_mono, fun {q' x i s} hs => ?_, O.stage_other,
    O.freeList_other, fun hc => Or.inl (by rwa [O.holder] at hc)⟩
  · by_cases hs : s ∈ slabSlotList r q.sc
    · rw [O.free s hs]
      rcases O.was s hs with e | ⟨e, hno⟩
      · exact Or.inl e.symm
      · exact Or.inr ⟨e, hno, rfl⟩
    · exact Or.inl (O.place hs)
  · by_cases e : x = r
    · subst e
      have hq := O.self.pool_unique hs.1
      subst hq
      exact Or.inr (O.free s (mem_slabSlotList.mpr ⟨i, hs.2⟩))
    · exact Or.inl ⟨(O.slab e).mp hs.1, hs.2⟩

/-- The slab opened is listed. -/
theorem Grown.enlist (G : L.Grown L' r Z) (hr : L'.SlabIn q r) : L.Grown (L'.enlist q r) r Z := by
  have hsl : ∀ {q' x}, (L'.enlist q r).SlabIn q' x ↔ L'.SlabIn q' x := by
    intro q' x
    exact and_congr_right fun _ => update_stage_ne_uncarved hr.2 (by simp) x
  exact ⟨G.bin, G.held, G.large, G.place, fun hx => hsl.mpr (G.slab hx),
    fun hs => G.slot ⟨hsl.mp hs.1, hs.2⟩, fun e => (Function.update_of_ne e ..).trans (G.stage e),
    G.freeList, G.own⟩

end Ledger

/-! ## `btm_slab_new` -/

/-- Slab `r` of pool `q` is in use, on no list and all free. -/
structure NewSlab (cfg : Config) (k : Kernel) (X : ℕ → Prop) (bins : ℕ → ℕ → Bin) (h : Heap)
    (L : Ledger) (q : PoolId) (r : SlabRef) (h' : Heap) (L' : Ledger) : Prop where
  sound : L'.Sound cfg
  settled : L'.SettledBut r
  rep : HeapRep cfg h' bins L'
  effect : Effect k X L'.Unit h L h' L'
  aside : Aside h L h' L'
  grown : L.Grown L' r fun c q' => q' = q ∧ ChunkTaken k h q c
  self : L'.SlabIn q r
  stage : L'.stage r = .unlisted
  freeList : L'.freeList r = slabSlotList r q.sc

/-- The active chunk, if it has room. -/
theorem activeRoom_some (H : HeapRep cfg h bins L) (S : L.Sound cfg) {np : ℕ}
    (he : activeRoom h q np = some c) : L.holder c = .pool q ∧ L.top c + np ≤ pagesPerChunk := by
  obtain ⟨ha, hroom⟩ := Option.filter_eq_some_iff.mp he
  rw [(H.chunks q).2] at ha
  have hc := S.lists.active ha
  rw [(H.header q c hc).nextFreePage] at hroom
  exact ⟨hc, of_decide_eq_true hroom⟩

/-- The first slab of a chunk in hand. -/
theorem carveNew_spec {h1 : Heap} (hw : wantsChunk h q = true) (S : L.Sound cfg) (T : L.Settled)
    (hq : q.Valid cfg) (I : InHand cfg k X bins h L c h1) :
    ∃ L', NewSlab cfg k X bins h L q
      (carve cfg (attachChunk (chunkInitHeader h1 c q) q c) q c (btmScRunPages q.sc)).1
      (carve cfg (attachChunk (chunkInitHeader h1 c q) q c) q c (btmScRunPages q.sc)).2 L' := by
  have hc1 : (L.rehold c .hand).holder c = .hand := Function.update_self ..
  have T1 := (@Ledger.Settled.rehold _ _ .hand) T I.not_pool (by simp)
  obtain ⟨S2, T2, H2, E2, A2⟩ := attach_spec (k := k) (X := X)
    (B := fun a n => L.Unit a n ∨ c ≤ a ∧ a + n ≤ c + chunkSize) I.rep I.sound T1 hc1 hq
  set L2 := (L.rehold c .hand).attach q c with hL2
  have hc2 : L2.holder c = .pool q := Function.update_self ..
  have htop : L2.top c = 7 := Function.update_self ..
  have hroom : L2.top c + btmScRunPages q.sc ≤ pagesPerChunk := by
    rw [htop]
    have := (classRow hq.2).pages_le
    simp only [pagesPerChunk_eq]
    omega
  obtain ⟨e3, S3, O3, T3, H3, E3, A3⟩ := carve_spec (k := k) (X := X)
    (B := fun a n => L.Unit a n ∨ c ≤ a ∧ a + n ≤ c + chunkSize) H2 S2 T2 hc2 hroom
  have hslab : ∀ {q' x}, L2.SlabIn q' x ↔ L.SlabIn q' x := fun {q' x} =>
    (Ledger.attach_slabIn I.sound hc1).trans (Ledger.rehold_slabIn I.not_pool (by simp))
  have G3 := O3.grown (Z := fun _ _ => False)
  have hb : c ∉ L.batch ∧ c ∉ L.hand := by
    constructor
    · intro hm
      have := S.lists.batch.mem_iff.mp hm
      rcases I.holder with e | e <;> rw [e] at this <;> cases this
    · intro hm
      have := S.lists.hand.mem_iff.mp hm
      rcases I.holder with e | e <;> rw [e] at this <;> cases this
  rw [e3]
  refine ⟨L2.carveSlab q c, S3, T3, H3, ?_, ?_, ?_, O3.self, O3.stage, O3.freeList⟩
  · refine ((I.effect.trans E2).trans E3).mono (fun {a n} hu => ?_)
    cases hu with
    | @slot q' x i _ hp hs =>
      by_cases e : x = L2.nextSlab c
      · -- the new slab lies in the chunk
        subst e
        have pos := S3.carving.slotPos hs
        have h1 := pos.lo
        have h2 := pos.hi
        have h3 := pos.page_le
        have h4 : (L2.nextSlab c).chunk = c := rfl
        have h5 : ((L2.nextSlab c).page + btmScRunPages q'.sc) * 4096 ≤ 512 * 4096 :=
          Nat.mul_le_mul_right _ h3
        rw [h4] at h1 h2
        simp only [chunkSize_eq]
        right
        constructor <;> omega
      · have hs' : L.SlotIn q' x i a := ⟨hslab.mp ((O3.slab e).mp hs.1), hs.2⟩
        refine Or.inl (.slot ?_ hs')
        rw [show L.place a = L2.place a from rfl, ← O3.place (O3.not_mem S3 e hs)]
        exact hp
    | large hl => exact Or.inl (.large hl)
  · refine ⟨A3.batch.trans ?_, A3.hand.trans ?_, fun x hx => ?_⟩
    · show (L.rehold c .hand).batch = L.batch
      simp [Ledger.rehold, List.erase_of_not_mem hb.1]
    · show (L.rehold c .hand).hand.erase c = L.hand
      simp [Ledger.rehold, List.erase_of_not_mem hb.2]
    · have hxc : x ≠ c := by
        rintro rfl
        exact hx.elim hb.1 hb.2
      have h1 : (L.rehold c .hand).holder x = L.holder x := Function.update_of_ne hxc ..
      rw [A3.link x, A2 x, I.link x]
      · rw [h1]
        rcases hx with hx | hx
        · exact Or.inl (S.lists.batch.mem_iff.mp hx)
        · exact Or.inr ⟨hxc, S.lists.hand.mem_iff.mp hx⟩
      · rcases hx with hx | hx
        · left
          show x ∈ (L.rehold c .hand).batch
          simpa [Ledger.rehold, List.erase_of_not_mem hb.1] using hx
        · right
          show x ∈ (L.rehold c .hand).hand.erase c
          simpa [Ledger.rehold, List.erase_of_not_mem hb.2] using hx
  · refine ⟨G3.bin, G3.held, G3.large, fun s => (G3.place s).imp id fun h => ⟨h.1,
        fun q' x i hs => h.2.1 q' x i ⟨hslab.mpr hs.1, hs.2⟩, h.2.2⟩,
      fun hx => G3.slab (hslab.mpr hx),
      fun hs => (G3.slot hs).imp (fun h => ⟨hslab.mp h.1, h.2⟩) id, G3.stage, G3.freeList,
      fun {c' q'} hc' => ?_⟩
    have h1 : L2.holder c' = .pool q' := (G3.own hc').resolve_right id
    by_cases e : c' = c
    · subst e
      rw [hc2] at h1
      exact Or.inr ⟨(Holder.pool.inj h1).symm, hw, I.next⟩
    · refine Or.inl ?_
      rwa [show L2.holder c' = (L.rehold c .hand).holder c' from Function.update_of_ne e ..,
        show (L.rehold c .hand).holder c' = L.holder c' from Function.update_of_ne e ..] at h1

/-- `btm_slab_new` opens a slab, or the kernel refused a chunk. -/
theorem btmSlabNew_spec (H : HeapRep cfg h bins L) (S : L.Sound cfg) (T : L.Settled)
    (hq : q.Valid cfg) (hp : (h.pools q).partialHead = none) :
    (∃ h', btmSlabNew cfg k h q = (none, h') ∧ ChunkRefused cfg k h q ∧ HeapRep cfg h' bins L ∧
      Effect k X L.Unit h L h' L ∧ h'.chunks = h.chunks) ∨
    ∃ r h' L', btmSlabNew cfg k h q = (some r, h') ∧ NewSlab cfg k X bins h L q r h' L' := by
  unfold btmSlabNew
  rcases he : takeEmpty h q with ⟨_ | r, h1⟩
  · obtain ⟨rfl, hew, hec⟩ : h1 = h ∧ (h.pools q).emptyWarm = none ∧ (h.pools q).emptyCold = none := by
      unfold takeEmpty at he
      dsimp only at he
      split at he
      next => cases he
      next hew =>
        split at he
        next => cases he
        next hec => exact ⟨by simpa using he.symm, hew, hec⟩
    dsimp only
    cases ha : activeRoom h1 q (btmScRunPages q.sc) with
    | some c =>
      obtain ⟨hc, hroom⟩ := activeRoom_some H S ha
      obtain ⟨e3, S3, O3, T3, H3, E3, A3⟩ := carve_spec (k := k) (X := X)
        (B := (L.carveSlab q c).Unit) H S T.bar hc hroom
      refine Or.inr ⟨_, _, L.carveSlab q c, rfl, ?_⟩
      rw [e3]
      exact ⟨S3, T3, H3, E3, A3, O3.grown, O3.self, O3.stage, O3.freeList⟩
    | none =>
      dsimp only
      have hw : wantsChunk h1 q = true := by simp [wantsChunk, hp, hew, hec, ha]
      rcases btmChunkObtain_spec (k := k) (X := X) (q := q) H S with ⟨h', e, h1⟩ | ⟨c, h', e, I⟩
      · exact Or.inl ⟨h', by rw [e], ⟨hw, h1.1⟩, h1.2⟩
      · rw [e]
        obtain ⟨L', N⟩ := carveNew_spec hw S T hq I
        exact Or.inr ⟨_, _, L', rfl, N⟩
  · obtain ⟨S1, O1, T1, H1, E1, A1⟩ := revive_spec (k := k) (X := X) (B := (L.revive q r).Unit) H S T he
    exact Or.inr ⟨r, _, L.revive q r, rfl, S1, T1, H1, E1, A1, O1.grown, O1.self, O1.stage,
      O1.freeList⟩

/-! ## The slab of a refill -/

/-- Slab `r` of pool `q` is on the partial list, to allocate from. -/
structure Pick (cfg : Config) (k : Kernel) (X : ℕ → Prop) (bins : ℕ → ℕ → Bin) (h : Heap)
    (L : Ledger) (q : PoolId) (r : SlabRef) (h' : Heap) (L' : Ledger) : Prop where
  sound : L'.Sound cfg
  settled : L'.SettledBut r
  rep : HeapRep cfg h' bins L'
  effect : Effect k X L'.Unit h L h' L'
  aside : Aside h L h' L'
  grown : L.Grown L' r fun c q' => q' = q ∧ ChunkTaken k h q c
  self : L'.SlabIn q r
  stage : L'.stage r = .listed
  /-- Only a slab that was listed already can be without a free slot. -/
  free : L'.freeList r ≠ [] ∨ L.stage r = .listed ∧ L.freeList r = []

theorem Ledger.Grown.moved {Z : ℕ → PoolId → Prop} (G : L.Grown L' r Z) {Y : ℕ → ℕ → Prop} :
    L.Moved L' X Y Z := by
  refine ⟨fun q' x i s ho _ hs => ⟨?_, G.slab hs.1, hs.2⟩, fun s ho _ => ?_, fun _ _ _ => by rw [G.bin],
    fun _ _ hc => G.own hc, fun _ _ => by rw [G.large]⟩
  · rcases G.place s with e | ⟨e, -⟩
    · rw [e, ho]
    · rw [e] at ho
      cases ho
  · rw [← G.busy (s := s) (by rw [ho]; rfl), ho]

theorem Pick.tidy {h' : Heap} (P : Pick cfg k X bins h L q r h' L') : L.Tidy L' := by
  refine ⟨fun U => ⟨fun x hx => ?_, fun {q' x i s} hs => ?_⟩, fun hR x hx => ?_,
    fun q' x i s hs hv => ⟨⟨P.grown.slab hs.1, hs.2⟩, ?_⟩⟩
  · by_cases e : x = r
    · subst e
      rw [P.stage] at hx
      cases hx
    · rw [P.grown.stage e] at hx
      exact U.stage x hx
  · rcases P.grown.slot hs with hs | e
    · rcases P.grown.place s with e | ⟨-, -, e⟩ <;> rw [e]
      · exact U.place hs
      · simp
    · simp [e]
  · by_cases e : x = r
    · subst e
      rcases P.free with h1 | ⟨h1, h2⟩
      · exact h1
      · exact absurd h2 (hR h1)
    · rw [P.grown.stage e] at hx
      rw [P.grown.freeList e]
      exact hR hx
  · rcases P.grown.place s with e | ⟨-, hno, -⟩
    · rw [e, hv]
    · exact absurd hs (hno q' x i)

theorem slabSlotList_ne_nil (hrow : ClassRow q.sc) : slabSlotList r q.sc ≠ [] := by
  intro e
  have := (@Ledger.length_slabSlotList r q.sc)
  rw [e, List.length_nil] at this
  have := hrow.slots_ge
  omega

/-- `btm_pool_refill` finds a slab, or the kernel refused a chunk. -/
theorem refillSlab_spec (H : HeapRep cfg h bins L) (S : L.Sound cfg) (T : L.Settled)
    (hq : q.Valid cfg) :
    (∃ h', refillSlab cfg k h q = (none, h') ∧ ChunkRefused cfg k h q ∧ HeapRep cfg h' bins L ∧
      Effect k X L.Unit h L h' L ∧ h'.chunks = h.chunks) ∨
    ∃ r h' L', refillSlab cfg k h q = (some r, h') ∧ Pick cfg k X bins h L q r h' L' := by
  unfold refillSlab
  cases hp : (h.pools q).partialHead with
  | some r =>
    rw [(H.lists q).partials.head_eq] at hp
    obtain ⟨hr, hst⟩ := (S.lists.partials q).mem_iff.mp (List.mem_of_mem_head? hp)
    refine Or.inr ⟨r, h, L, rfl, S, T.but, H, Effect.refl, Aside.refl, .refl, ⟨hr, by simp [hst]⟩, hst, ?_⟩
    by_cases e : L.freeList r = []
    · exact Or.inr ⟨hst, e⟩
    · exact Or.inl e
  | none =>
    dsimp only
    rcases btmSlabNew_spec (k := k) (X := X) H S T hq hp with ⟨h', e, h1⟩ | ⟨r, h1, L1, e, N⟩
    · exact Or.inl ⟨h', by rw [e], h1⟩
    · rw [e]
      refine Or.inr ⟨r, _, L1.enlist q r, rfl, N.sound.enlist N.self N.stage, ?_,
        partialPush_rep N.rep N.sound N.self N.stage, ?_,
        N.aside.trans (partialPush_aside N.rep N.sound N.stage), N.grown.enlist N.self,
        N.self.restage N.self.2 (by simp) rfl rfl, Function.update_self .., Or.inl ?_⟩
      · refine ⟨fun {q' x} hne hx => ?_, N.settled.chunk, N.settled.warm⟩
        have hx' : L1.SlabIn q' x :=
          ⟨hx.1, (Ledger.update_stage_ne_uncarved N.self.2 (by simp) x).mp hx.2⟩
        have := N.settled.slab hne hx'
        unfold Ledger.SlabSettled at this ⊢
        simpa only [Ledger.enlist, Function.update_of_ne hne] using this
      · refine (N.effect.trans (partialPush_effect N.rep N.sound N.self N.stage)).mono
          (fun {a n} hu => ?_)
        cases hu with
        | slot hv hs =>
          exact .slot hv ⟨⟨hs.1.1, (Ledger.update_stage_ne_uncarved N.self.2 (by simp) _).mp hs.1.2⟩,
            hs.2⟩
        | large hl => exact .large hl
      · show L1.freeList r ≠ []
        rw [N.freeList]
        exact slabSlotList_ne_nil (classRow hq.2)

end BtMalloc
