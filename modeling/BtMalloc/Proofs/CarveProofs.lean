import BtMalloc.Proofs.FormatProofs

/-!
# Proofs: carving slabs

A pool takes a chunk and carves the next slab of it.
-/

namespace BtMalloc

open LinkedList PagedMemory Word

variable {cfg : Config} {k : Kernel} {X : ℕ → Prop} {B : ℕ → ℕ → Prop} {h : Heap}
  {bins : ℕ → ℕ → Bin} {L L' : Ledger} {q : PoolId} {r : SlabRef} {c : ℕ}

/-- Settled, but for chunk `c`, which may have no slab in use yet. -/
structure Ledger.SettledBar (L : Ledger) (c : ℕ) : Prop where
  slab : ∀ {q x}, L.SlabIn q x → L.SlabSettled q x
  chunk : ∀ {c' q}, c' ≠ c → L.holder c' = .pool q → L.counted c' ≠ []
  warm : ∀ q, (L.warm q).length ≤ 2

theorem Ledger.Settled.bar (T : L.Settled) : L.SettledBar c :=
  ⟨T.slab, fun _ hc => T.chunk hc, T.warm⟩

theorem Ledger.Sound.carve_opens (S : L.Sound cfg) (hc : L.holder c = .pool q)
    (hroom : L.top c + btmScRunPages q.sc ≤ pagesPerChunk) :
    L.Opens (L.carveSlab q c) q (L.nextSlab c) := by
  have hC := S.carving.carveSlab hc hroom
  have hslab := Ledger.carveSlab_slabIn (L := L) hc
  have hself : (L.carveSlab q c).SlabIn q (L.nextSlab c) := (hslab ..).mpr (Or.inl ⟨rfl, rfl⟩)
  refine ⟨hself, Function.update_self .., Function.update_self .., fun s hs => if_pos hs,
    fun {q' x} e => ?_, fun e => Function.update_of_ne e .., fun e => Function.update_of_ne e ..,
    fun hs => if_neg hs, fun s hs => ?_, rfl, rfl, rfl, rfl⟩
  · rw [hslab]
    simp [e]
  · have hno : ∀ q' x i, ¬ L.SlotIn q' x i s := by
      intro q' x i hx
      obtain ⟨j, hj, e⟩ := Ledger.mem_slabSlotList.mp hs
      have hx' : (L.carveSlab q c).SlotIn q' x i s := ⟨(hslab ..).mpr (Or.inr hx.1), hx.2⟩
      have := (hC.slotIn_inj hx' ⟨hself, hj, e⟩).2.1
      subst this
      exact hx.1.2 S.carving.nextSlab_uncarved
    refine Or.inr ⟨?_, hno⟩
    by_contra hv
    obtain ⟨q', x, i, hx⟩ := S.slots.slot hv
    exact hno q' x i hx

/-- The page table of a chunk whose next slab was carved. -/
theorem FrameRep.carve {pt : ℕ → Frame} {chunks : ℕ → Chunk} {bump : ℕ} {freed : List ℕ}
    (F : FrameRep cfg pt chunks bump freed L) (S : L.Sound cfg) (hc : L.holder c = .pool q)
    (hroom : L.top c + btmScRunPages q.sc ≤ pagesPerChunk) :
    FrameRep cfg pt chunks bump freed (L.carveSlab q c) := by
  refine ⟨F.anon, fun hm q' x hx j hj => ?_, fun hm c' hc' j hj => F.rest hm hc' ?_, F.off_mod,
    F.off_inj, F.off_lt, F.off_freed, F.freed_mod, F.freed_lt, F.freed_nodup, F.bump_mod⟩
  · rcases (Ledger.carveSlab_slabIn hc ..).mp hx with ⟨rfl, rfl⟩ | hx
    · -- the new slab shows pages that no slab had
      have ht : L.target (L.nextSlab c) = L.nextSlab c :=
        S.meshed.self (by simp [S.carving.nextSlab_uncarved])
      have hfl : L.floor c ≤ L.top c + j := by
        simp only [Ledger.floor, hc]
        omega
      have := F.rest hm (c := c) (by simp [hc]) hfl (by omega)
      show pt (c / pageSize + L.top c + j) = .memfd ((chunks (L.target (L.nextSlab c)).chunk).memfdOff /
        pageSize + (L.target (L.nextSlab c)).page + j)
      rw [ht, Nat.add_assoc, this]
      simp only [Ledger.nextSlab, Nat.add_assoc]
    · exact F.slab hm hx hj
  · refine le_trans ?_ hj
    unfold Ledger.floor Ledger.carveSlab
    by_cases e : c' = c
    · subst e
      simp [hc]
    · simp [e]

theorem carve_eq {np : ℕ} (htop : (h.chunks c).nextFreePage = L.top c) :
    carve cfg h q c np = (L.nextSlab c, slabFormat cfg
      { h with
        slabs := Function.update h.slabs (L.nextSlab c)
          { h.slabs (L.nextSlab c) with firstPage := L.top c, npages := np }
        chunks := Function.update h.chunks c
          { h.chunks c with
            nextFreePage := L.top c + np
            pageOwner := fun p => if L.top c ≤ p ∧ p < L.top c + np then L.top c
              else (h.chunks c).pageOwner p
            liveSlabs := (h.chunks c).liveSlabs + 1 } } (L.nextSlab c) q) := by
  unfold carve
  rw [htop]
  rfl

/-- The headers after the next slab of `c` was carved. -/
theorem HeaderRep.carve {chunks : ℕ → Chunk} (hH : HeaderRep chunks L) (S : L.Sound cfg)
    (hc : L.holder c = .pool q) :
    HeaderRep (Function.update chunks c
      { chunks c with
        nextFreePage := L.top c + btmScRunPages q.sc
        pageOwner := fun p => if L.top c ≤ p ∧ p < L.top c + btmScRunPages q.sc then L.top c
          else (chunks c).pageOwner p
        liveSlabs := (chunks c).liveSlabs + 1 }) (L.carveSlab q c) := by
  intro q' c' hc'
  have hh := hH q' c' hc'
  by_cases e : c' = c
  · subst e
    have eq : q' = q := Holder.pool.inj (hc'.symm.trans hc)
    subst eq
    simp only [Function.update_self]
    refine ⟨hh.pool, hh.sc, hh.partIdx, by simp [Ledger.carveSlab], by
      simp [Ledger.carveSlab, hh.liveSlabs], fun {x j} hx hx' hj => ?_⟩
    rcases (Ledger.carveSlab_slabIn hc q' x).mp ⟨by rw [hx]; exact hc', hx'⟩ with ⟨e', -⟩ | hx'
    · subst e'
      exact if_pos ⟨Nat.le_add_right .., Nat.add_lt_add_left hj _⟩
    · -- an older slab lies below
      have := (S.carving.slab_page hx').2.1
      rw [hx] at this
      have hno : ¬ (L.top c' ≤ x.page + j ∧ x.page + j < L.top c' + btmScRunPages q'.sc) := by omega
      exact (if_neg hno).trans (hh.pageOwner hx hx'.2 hj)
  · simp only [Function.update_of_ne e]
    refine hh.congr (by simp [Ledger.carveSlab, e]) (by simp [Ledger.carveSlab, e]) (fun x hx hx' => ?_)
    have hne : x ≠ L.nextSlab c := fun e' => e (by rw [← hx, e']; rfl)
    simpa [Ledger.carveSlab, hne] using hx'

/-- The next slab of a chunk of the pool is carved. -/
theorem carve_spec (H : HeapRep cfg h bins L) (S : L.Sound cfg) (T : L.SettledBar c)
    (hc : L.holder c = .pool q) (hroom : L.top c + btmScRunPages q.sc ≤ pagesPerChunk) :
    (carve cfg h q c (btmScRunPages q.sc)).1 = L.nextSlab c ∧
      (L.carveSlab q c).Sound cfg ∧ L.Opens (L.carveSlab q c) q (L.nextSlab c) ∧
      (L.carveSlab q c).SettledBut (L.nextSlab c) ∧
      HeapRep cfg (carve cfg h q c (btmScRunPages q.sc)).2 bins (L.carveSlab q c) ∧
      Effect k X B h L (carve cfg h q c (btmScRunPages q.sc)).2 (L.carveSlab q c) ∧
      Aside h L (carve cfg h q c (btmScRunPages q.sc)).2 (L.carveSlab q c) := by
  have htop := (H.header q c hc).nextFreePage
  have S' := S.carveSlab hc hroom
  have O := S.carve_opens hc hroom
  have hframe := H.frame.carve S hc hroom
  have hspace : SpaceRep h.mem.pt h.mapped h.larges (L.carveSlab q c) :=
    H.space.congr (fun _ => id) rfl
  rw [carve_eq htop]
  set chunks' := Function.update h.chunks c
    { h.chunks c with
      nextFreePage := L.top c + btmScRunPages q.sc
      pageOwner := fun p => if L.top c ≤ p ∧ p < L.top c + btmScRunPages q.sc then L.top c
        else (h.chunks c).pageOwner p
      liveSlabs := (h.chunks c).liveSlabs + 1 } with hchunks'
  have hsame : ∀ x, SameChunk (h.chunks x) (chunks' x) := fun x =>
    ⟨update_proj Chunk.next (by rfl) x, update_proj Chunk.prev (by rfl) x,
      update_proj Chunk.memfdOff (by rfl) x⟩
  obtain ⟨x, m', log', hfmt, F⟩ := (@slabFormat_spec cfg ({ h with
      slabs := Function.update h.slabs (L.nextSlab c)
        { h.slabs (L.nextSlab c) with firstPage := L.top c, npages := btmScRunPages q.sc }
      chunks := chunks' }) q (L.nextSlab c)) (units_apart S' hframe hspace) (S.carving.row hc) (O.cells S')
    (by simp [Ledger.nextSlab]) (by simp)
  rw [hfmt]
  simp only [Function.update_idem]
  refine ⟨trivial, S', O, ⟨fun {q' y} hne hy => ?_, fun {c' q'} hc' => ?_, T.warm⟩, ?_,
    F.effect hspace S' O, ⟨rfl, rfl, fun y _ => (hsame y).next⟩⟩
  · have := T.slab ((O.slab hne).mp hy)
    unfold Ledger.SlabSettled at this ⊢
    rwa [O.stage_other hne, O.freeList_other hne]
  · show Function.update L.counted c (L.nextSlab c :: L.counted c) c' ≠ []
    by_cases e : c' = c
    · subst e
      simp
    · rw [Function.update_of_ne e]
      exact T.chunk e hc'
  · refine H.install S' O F (fun q' => ?_) (fun _ => rfl) (H.header.carve S hc)
      ((H.chunks.congr_chunks hsame).congr (fun _ => rfl) (fun _ => rfl) rfl rfl)
      ((H.depot.congr_chunks hsame).congr rfl rfl) (hframe.congr_chunks fun y => (hsame y).memfdOff)
      hspace (H.owner.congr (fun _ => id) rfl)
    -- the slab was not carved, so it is on no list
    have hun := S.carving.nextSlab_uncarved (c := c)
    have hn : ∀ {y : SlabRef} {v : Stage}, L.stage y = v → v ≠ .uncarved → y ≠ L.nextSlab c := by
      rintro y v hv hne rfl
      exact hne (hv.symm.trans hun)
    refine (H.lists q').congr rfl rfl rfl rfl (fun y hy => ?_) (fun y hy => ?_) (fun y hy => ?_)
    · simp [hn ((S.lists.partials q').mem_iff.mp hy).2 (by simp)]
    · simp [hn ((S.lists.warm q').mem_iff.mp hy).2 (by simp)]
    · simp [hn ((S.lists.cold q').mem_iff.mp hy).2 (by simp)]

/-! ## Taking a chunk -/

/-- The headers after the pool took chunk `c` in front of `head`. -/
def attachChunks (chunks : ℕ → Chunk) (q : PoolId) (head : Option ℕ) (c : ℕ) : ℕ → Chunk :=
  fun x =>
    if x = c then
      { chunks c with
        pool := q, sc := q.sc, partIdx := q.part, next := head, prev := none,
        nextFreePage := dataStartPage, liveSlabs := 0, pageOwner := fun _ => pageNone }
    else if head = some x then { chunks x with prev := some c } else chunks x

theorem attachChunk_eq (hne : (h.pools q).chunks ≠ some c) :
    attachChunk (chunkInitHeader h c q) q c = { h with
      chunks := attachChunks h.chunks q (h.pools q).chunks c
      pools := Function.update h.pools q { h.pools q with chunks := some c, active := some c } } := by
  unfold attachChunk chunkInitHeader
  cases hh : (h.pools q).chunks with
  | none =>
    simp only [Heap.modChunk, Heap.modPool, hh, Heap.mk.injEq, and_true, true_and]
    funext x
    by_cases e : x = c
    · subst e
      simp [attachChunks]
    · simp [attachChunks, e]
  | some b =>
    have hbc : b ≠ c := fun e => hne (by rw [hh, e])
    simp only [Heap.modChunk, Heap.modPool, hh, Heap.mk.injEq, and_true, true_and]
    funext x
    rcases eq_or_ne x c with rfl | e
    · simp [attachChunks, Ne.symm hbc]
    · rcases eq_or_ne x b with rfl | e'
      · simp [attachChunks, e]
      · simp [attachChunks, e, e', Ne.symm e']

theorem Ledger.attach_slabIn (S : L.Sound cfg) (hc : L.holder c = .hand) {q' : PoolId} {x : SlabRef} :
    (L.attach q c).SlabIn q' x ↔ L.SlabIn q' x := by
  unfold Ledger.SlabIn
  by_cases e : x.chunk = c
  · have h1 : L.stage x = .uncarved := S.carving.uncarved (by simp [hc]) e
    have h2 : (L.attach q c).stage x = .uncarved := h1
    simp [h1, h2]
  · simp [Ledger.attach, e]

/-- A chunk in hand has no counted slab. -/
theorem Ledger.Sound.counted_nil (S : L.Sound cfg) (hc : L.holder c = .hand) : L.counted c = [] := by
  refine (S.lists.counted c).eq_nil (fun x hx => ?_)
  have := S.carving.uncarved (by simp [hc]) hx.1
  rw [this] at hx
  exact absurd hx.2 (by simp [Stage.counts])

/-- The pool takes a chunk for carving. -/
theorem attach_spec (H : HeapRep cfg h bins L) (S : L.Sound cfg) (T : L.Settled)
    (hc : L.holder c = .hand) (hq : q.Valid cfg) :
    (L.attach q c).Sound cfg ∧ (L.attach q c).SettledBar c ∧
      HeapRep cfg (attachChunk (chunkInitHeader h c q) q c) bins (L.attach q c) ∧
      Effect k X B h L (attachChunk (chunkInitHeader h c q) q c) (L.attach q c) ∧
      ∀ x, L.holder x = .batch ∨ x ≠ c ∧ L.holder x = .hand →
        ((attachChunk (chunkInitHeader h c q) q c).chunks x).next = (h.chunks x).next := by
  have hne : (h.pools q).chunks ≠ some c := by
    intro e
    rw [(H.chunks q).1.head_eq] at e
    have := (S.lists.chunks q).mem_iff.mp (List.mem_of_mem_head? e)
    rw [hc] at this
    cases this
  have hhead : ∀ {x}, (h.pools q).chunks = some x → L.holder x = .pool q := by
    intro x e
    rw [(H.chunks q).1.head_eq] at e
    exact (S.lists.chunks q).mem_iff.mp (List.mem_of_mem_head? e)
  have hself : (L.attach q c).holder c = .pool q := Function.update_self ..
  have hhold : ∀ {x}, x ≠ c → (L.attach q c).holder x = L.holder x :=
    fun e => Function.update_of_ne e ..
  have hslab : ∀ {q' x}, (L.attach q c).SlabIn q' x ↔ L.SlabIn q' x := Ledger.attach_slabIn S hc
  have hnext : ∀ {x}, x ≠ c →
      (attachChunks h.chunks q (h.pools q).chunks c x).next = (h.chunks x).next := by
    intro x e
    unfold attachChunks
    rw [if_neg e]
    split <;> rfl
  have hoff : ∀ x, (attachChunks h.chunks q (h.pools q).chunks c x).memfdOff =
      (h.chunks x).memfdOff := by
    intro x
    unfold attachChunks
    split
    next e => rw [e]
    next => split <;> rfl
  have hnone : ∀ x, (L.attach q c).holder x ≠ .none ↔ L.holder x ≠ .none := by
    intro x
    by_cases e : x = c
    · rw [e, hself, hc]
      simp
    · rw [hhold e]
  have hfloor : (L.attach q c).floor = L.floor := by
    funext x
    unfold Ledger.floor
    by_cases e : x = c
    · rw [e, hself, hc]
      exact Function.update_self ..
    · rw [hhold e]
      simp [Ledger.attach, e]
  rw [attachChunk_eq hne]
  refine ⟨S.attach hc hq, ⟨fun {q' x} hx => T.slab (hslab.mp hx), fun {c' q'} e hc' => ?_, T.warm⟩,
    ⟨fun q' x hx => H.desc q' x (hslab.mp hx), fun q' => ?_, fun q' => ?_, fun q' x hx => ?_,
      fun q' => ?_, ⟨?_, H.depot.stack_count, ?_⟩, fun q' x hx hi => H.free q' x (hslab.mp hx) hi,
      H.bins, ?_, H.space.congr (fun x hx => (hnone x).mp hx) rfl,
      H.owner.congr (fun x hx => (hnone x).mpr hx) rfl,
      ⟨H.log.good, fun hx hi => H.log.free (hslab.mp hx) hi, H.log.bin⟩⟩, ?_, fun x hx => ?_⟩
  · rw [hhold e] at hc'
    exact T.chunk hc'
  · exact (H.lists.update_pool (q := q) (by rfl) (by rfl) (by rfl) (by rfl)) q'
  · exact (update_proj Pool.outstanding (by rfl) q').trans (H.tally q')
  · by_cases e : x = c
    · subst e
      rw [hself, Holder.pool.injEq] at hx
      subst hx
      simp only [attachChunks, if_true]
      refine ⟨rfl, rfl, rfl, by simp [Ledger.attach], ?_, fun {y j} hy hy' _ => ?_⟩
      · show 0 = (L.counted x).length
        rw [S.counted_nil hc]
        rfl
      · exact absurd (S.carving.uncarved (by simp [hc]) hy) hy'
    · rw [hhold e] at hx
      have hh := H.header q' x hx
      have hsame : ∃ v, attachChunks h.chunks q (h.pools q).chunks c x = { h.chunks x with prev := v } := by
        unfold attachChunks
        rw [if_neg e]
        split
        · exact ⟨_, rfl⟩
        · exact ⟨_, rfl⟩
      obtain ⟨v, hv⟩ := hsame
      simp only [hv]
      exact ⟨hh.pool, hh.sc, hh.partIdx, by simp [Ledger.attach, e, hh.nextFreePage], hh.liveSlabs,
        hh.pageOwner⟩
  · have hC := H.chunks q'
    have hmem : ∀ x ∈ L.chunks q', x ≠ c := by
      rintro x hx rfl
      have := (S.lists.chunks q').mem_iff.mp hx
      rw [hc] at this
      cases this
    by_cases e : q' = q
    · subst e
      simp only [Function.update_self, Ledger.attach]
      refine ⟨hC.1.push (S.lists.chunks q').nodup (by simp [attachChunks]) (by simp [attachChunks])
        (fun x hx => hnext (hmem x hx)) (fun x hx => ?_), trivial⟩
      unfold attachChunks
      rw [if_neg (hmem x hx)]
      split <;> rfl
    · simp only [Function.update_of_ne e, Ledger.attach]
      refine ⟨hC.1.congr (fun x hx => hnext (hmem x hx)) (fun x hx => ?_), hC.2⟩
      have hx' := (S.lists.chunks q').mem_iff.mp hx
      have : (h.pools q).chunks ≠ some x := fun e' =>
        e (Holder.pool.inj (hx'.symm.trans (hhead e')))
      simp [attachChunks, hmem x hx, this]
  · refine H.depot.stack.congr (fun x hx => hnext ?_)
    rintro rfl
    have := S.lists.stack.mem_iff.mp hx
    rw [hc] at this
    cases this
  · refine H.depot.queue.congr (fun x hx => hnext ?_)
    rintro rfl
    have := S.lists.queue.mem_iff.mp hx
    rw [hc] at this
    cases this
  · have hF := H.frame.congr_chunks hoff
    exact ⟨hF.anon, fun hm _ _ hx _ hj => hF.slab hm (hslab.mp hx) hj,
      fun hm _ hx _ hj => hF.rest hm ((hnone _).mp hx) (by rwa [← hfloor]),
      fun hm _ hx => hF.off_mod hm ((hnone _).mp hx),
      fun hm _ _ hx hx' => hF.off_inj hm ((hnone _).mp hx) ((hnone _).mp hx'),
      fun hm _ hx => hF.off_lt hm ((hnone _).mp hx), fun hm _ hx => hF.off_freed hm ((hnone _).mp hx),
      hF.freed_mod, hF.freed_lt, hF.freed_nodup, hF.bump_mod⟩
  · refine ⟨fun a n hcl _ => hcl.congr rfl (fun hx => hslab.mpr hx) rfl, Keeps.refl,
      ⟨[], rfl, Clear.nil, fun x q' hx => Or.inl ?_⟩, le_refl _, fun _ _ _ _ => rfl,
      fun _ _ hR => hR.congr (fun x hx => (hnone x).mp hx) rfl, .refl,
      fun x hx => Or.inl ((hnone x).mp hx), rfl, rfl⟩
    rwa [hhold]
    rintro rfl
    rw [hc] at hx
    cases hx
  · refine hnext ?_
    rcases hx with hx | hx
    · rintro rfl
      rw [hc] at hx
      cases hx
    · exact hx.1

end BtMalloc
