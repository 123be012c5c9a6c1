import BtMalloc.PoolMachine
import BtMalloc.Proofs.MapProofs
import BtMalloc.Proofs.RefillProofs

/-!
# Proofs: which descriptors a pool operation stamps

Cold tiering reads the epoch, the evicted flag and the free count of a descriptor. A refill stamps the
slab it takes slots from, a flush or a single free the slab it frees into, and every other descriptor
keeps these fields.
-/

namespace BtMalloc

open LinkedList PagedMemory Word

variable {cfg : Config} {k : Kernel} {h h' h'' : Heap} {q : PoolId} {r x : SlabRef} {c : ℕ}
  {T T' : SlabRef → Prop}

/-! ## Frames -/

/-- A descriptor in the descriptor array of a chunk. -/
def SlabRef.Tidy (r : SlabRef) : Prop := r.chunk % 2097152 = 0 ∧ r.page < 512

/-- The fields that tiering reads are the same. -/
structure Slab.Alike (x y : Slab) : Prop where
  epoch : y.epoch = x.epoch
  pagedOut : y.pagedOut = x.pagedOut
  freeCount : y.freeCount = x.freeCount
  firstPage : y.firstPage = x.firstPage
  npages : y.npages = x.npages

theorem Slab.Alike.refl {x : Slab} : x.Alike x := ⟨rfl, rfl, rfl, rfl, rfl⟩

theorem Slab.Alike.trans {x y z : Slab} (h1 : x.Alike y) (h2 : y.Alike z) : x.Alike z :=
  ⟨h2.epoch.trans h1.epoch, h2.pagedOut.trans h1.pagedOut, h2.freeCount.trans h1.freeCount,
    h2.firstPage.trans h1.firstPage, h2.npages.trans h1.npages⟩

/-- No descriptor was stamped. -/
structure Unstamped (h h' : Heap) : Prop where
  epoch : h'.tierEpoch = h.tierEpoch
  slab : ∀ ⦃x⦄, x.Tidy → (h.slabs x).Alike (h'.slabs x)

/-- The descriptors in `T` were stamped, and no others. -/
structure Stamped (T : SlabRef → Prop) (h h' : Heap) : Prop where
  epoch : h'.tierEpoch = h.tierEpoch
  old : ∀ ⦃x⦄, x.Tidy → ¬ T x → (h.slabs x).Alike (h'.slabs x)
  new : ∀ ⦃x⦄, x.Tidy → T x → (h'.slabs x).epoch = h.tierEpoch ∧ (h'.slabs x).pagedOut = false

theorem Unstamped.refl : Unstamped h h := ⟨rfl, fun _ _ => .refl⟩

theorem Unstamped.trans (h1 : Unstamped h h') (h2 : Unstamped h' h'') : Unstamped h h'' :=
  ⟨h2.epoch.trans h1.epoch, fun _ hx => (h1.slab hx).trans (h2.slab hx)⟩

theorem Unstamped.of_slabs (h1 : h'.slabs = h.slabs) (h2 : h'.tierEpoch = h.tierEpoch) :
    Unstamped h h' := ⟨h2, fun x _ => by rw [h1]; exact .refl⟩

/-- Fields that tiering does not read were written. -/
theorem Unstamped.modSlab {f : Slab → Slab} (hf : (h.slabs r).Alike (f (h.slabs r))) :
    Unstamped h (h.modSlab r f) := by
  refine ⟨rfl, fun x _ => ?_⟩
  show (h.slabs x).Alike (Function.update h.slabs r _ x)
  by_cases e : x = r
  · subst e
    rwa [Function.update_self]
  · rw [Function.update_of_ne e]
    exact .refl

theorem Stamped.then_un (h1 : Stamped T h h') (h2 : Unstamped h' h'') : Stamped T h h'' := by
  refine ⟨h2.epoch.trans h1.epoch, fun x hx hT => (h1.old hx hT).trans (h2.slab hx), fun x hx hT => ?_⟩
  obtain ⟨h3, h4⟩ := h1.new hx hT
  exact ⟨(h2.slab hx).epoch.trans h3, (h2.slab hx).pagedOut.trans h4⟩

theorem Unstamped.then (h1 : Unstamped h h') (h2 : Stamped T h' h'') : Stamped T h h'' := by
  refine ⟨h2.epoch.trans h1.epoch, fun x hx hT => (h1.slab hx).trans (h2.old hx hT), fun x hx hT => ?_⟩
  rw [← h1.epoch]
  exact h2.new hx hT

theorem Stamped.trans (h1 : Stamped T h h') (h2 : Stamped T' h' h'') :
    Stamped (fun x => T x ∨ T' x) h h'' := by
  refine ⟨h2.epoch.trans h1.epoch, fun x hx hT => ?_, fun x hx hT => ?_⟩
  · rw [not_or] at hT
    exact (h1.old hx hT.1).trans (h2.old hx hT.2)
  · by_cases hT' : T' x
    · rw [← h1.epoch]
      exact h2.new hx hT'
    · obtain ⟨h3, h4⟩ := h1.new hx (hT.resolve_right hT')
      exact ⟨(h2.old hx hT').epoch.trans h3, (h2.old hx hT').pagedOut.trans h4⟩

theorem Stamped.congr (h1 : Stamped T h h') (hT : ∀ x, T' x ↔ T x) : Stamped T' h h' := by
  obtain rfl : T' = T := funext fun x => propext (hT x)
  exact h1

theorem Unstamped.stamped (h1 : Unstamped h h') : Stamped (fun _ => False) h h' :=
  ⟨h1.epoch, fun _ hx _ => h1.slab hx, fun _ _ hT => hT.elim⟩

/-! ## Lists, links and chunks -/

theorem Unstamped.modPool {f : Pool → Pool} : Unstamped h (h.modPool q f) := .of_slabs rfl rfl

theorem Unstamped.modChunk {f : Chunk → Chunk} : Unstamped h (h.modChunk c f) := .of_slabs rfl rfl

theorem Unstamped.note {e : Event} : Unstamped h (h.note e) := .of_slabs rfl rfl

theorem partialPush_unstamped : Unstamped h (partialPush h q r) := by
  unfold partialPush
  cases (h.pools q).partialHead with
  | none =>
    exact (Unstamped.modSlab ⟨rfl, rfl, rfl, rfl, rfl⟩).trans (Unstamped.modPool.trans
      (Unstamped.modSlab ⟨rfl, rfl, rfl, rfl, rfl⟩))
  | some b =>
    exact (Unstamped.modSlab ⟨rfl, rfl, rfl, rfl, rfl⟩).trans
      ((Unstamped.modSlab ⟨rfl, rfl, rfl, rfl, rfl⟩).trans (Unstamped.modPool.trans
      (Unstamped.modSlab ⟨rfl, rfl, rfl, rfl, rfl⟩)))

theorem partialRemove_unstamped : Unstamped h (partialRemove h q r) := by
  unfold partialRemove
  refine Unstamped.trans ?_ (.modSlab ⟨rfl, rfl, rfl, rfl, rfl⟩)
  cases (h.slabs r).prev with
  | none =>
    cases (h.slabs r).next with
    | none => exact .modPool
    | some b => exact Unstamped.modPool.trans (.modSlab ⟨rfl, rfl, rfl, rfl, rfl⟩)
  | some a =>
    cases (h.slabs r).next with
    | none => exact .modSlab ⟨rfl, rfl, rfl, rfl, rfl⟩
    | some b => exact (Unstamped.modSlab ⟨rfl, rfl, rfl, rfl, rfl⟩).trans (.modSlab ⟨rfl, rfl, rfl, rfl, rfl⟩)

theorem btmFlSet_unstamped {s v : ℕ} : Unstamped h (btmFlSet cfg h s v) := .of_slabs rfl rfl

theorem slabFormatLoop_slabs (data slot i next : ℕ) (h : Heap) :
    (slabFormatLoop cfg data slot i next h).2.slabs = h.slabs := by
  induction i generalizing next h with
  | zero => rfl
  | succ i ih => exact ih _ (btmFlSet cfg h (data + i * slot) next)

theorem slabFormatLoop_epoch (data slot i next : ℕ) (h : Heap) :
    (slabFormatLoop cfg data slot i next h).2.tierEpoch = h.tierEpoch := by
  induction i generalizing next h with
  | zero => rfl
  | succ i ih => exact ih _ (btmFlSet cfg h (data + i * slot) next)

/-- A write to one descriptor that stamps it. -/
theorem Stamped.of_update (he : h'.tierEpoch = h.tierEpoch) (hne : ∀ x, x ≠ r → h'.slabs x = h.slabs x)
    (h1 : (h'.slabs r).epoch = h.tierEpoch) (h2 : (h'.slabs r).pagedOut = false) :
    Stamped (fun x => x = r) h h' := by
  refine ⟨he, fun x _ hT => ?_, fun x _ hT => ?_⟩
  · rw [hne x hT]
    exact .refl
  · subst hT
    exact ⟨h1, h2⟩

theorem modSlab_self {f : Slab → Slab} : (h.modSlab r f).slabs r = f (h.slabs r) :=
  Function.update_self ..

theorem modSlab_of_ne {f : Slab → Slab} (hx : x ≠ r) : (h.modSlab r f).slabs x = h.slabs x :=
  Function.update_of_ne hx ..

theorem modPool_slabs {f : Pool → Pool} : (h.modPool q f).slabs = h.slabs := rfl

/-- `slab_format` stamps its slab. -/
theorem slabFormat_stamped : Stamped (fun x => x = r) h (slabFormat cfg h r q) := by
  unfold slabFormat
  refine .of_update ?_ (fun x hx => ?_) ?_ ?_
  · exact slabFormatLoop_epoch ..
  · rw [modSlab_of_ne hx, slabFormatLoop_slabs, modSlab_of_ne hx, modSlab_of_ne hx]
  all_goals simp only [modSlab_self, slabFormatLoop_slabs]

/-! ## Obtaining a chunk -/

theorem registrySet_slabs {o key : ℕ} : (registrySetLocked k o h key).slabs = h.slabs ∧
    (registrySetLocked k o h key).tierEpoch = h.tierEpoch := by
  unfold registrySetLocked
  cases h.owners <;> exact ⟨rfl, rfl⟩

theorem registryFold_unstamped {o : ℕ} (l : List ℕ) : Unstamped h (l.foldl (registrySetLocked k o) h) := by
  induction l generalizing h with
  | nil => exact .refl
  | cons a l ih => exact (Unstamped.of_slabs registrySet_slabs.1 registrySet_slabs.2).trans ih

theorem munmap_unstamped {a len : ℕ} : Unstamped h (h.munmap a len) := by
  unfold Heap.munmap
  split
  · exact .of_slabs rfl rfl
  · exact .refl

theorem memfdFreeOff_unstamped {off : ℕ} : Unstamped h (memfdFreeOff k h off) := by
  obtain ⟨cap, freed, e, -⟩ := memfdFreeOff_spec k h off
  rw [e]
  exact .of_slabs rfl rfl

theorem memfdAllocOff_unstamped : Unstamped h (memfdAllocOff k h).2 := by
  unfold memfdAllocOff
  cases h.memfdFree with
  | cons off rest => exact .of_slabs rfl rfl
  | nil =>
    dsimp only
    split
    · split
      · exact .of_slabs rfl rfl
      · exact .refl
    · exact .of_slabs rfl rfl

theorem trimTo_unstamped {raw len b keep : ℕ} : Unstamped h (trimTo h raw len b keep) := by
  have hif : ∀ {g : Heap} {n a m : ℕ}, Unstamped g (if n = 0 then g else g.munmap a m) := by
    intro g n a m
    split
    · exact .refl
    · exact munmap_unstamped
  have h1 : Unstamped h (h.mmapAnon raw len) := .of_slabs rfl rfl
  unfold trimTo
  exact h1.trans (hif.trans hif)

theorem backed_unstamped {off : ℕ} : Unstamped h (backed cfg h c off) := by
  unfold backed
  split <;> exact .of_slabs rfl rfl

theorem mapAt_unstamped {off : ℕ} : Unstamped h (mapAt cfg k h off).2 := by
  have hback : ∀ {g : Heap}, Unstamped g (if cfg.meshMode then memfdFreeOff k g off else g) := by
    intro g
    split
    · exact memfdFreeOff_unstamped
    · exact .refl
  unfold mapAt
  generalize chunkSize * 2 = n
  cases mmapResult h k.chunk n with
  | none => exact hback
  | some raw =>
    dsimp only
    generalize chunkBase raw = c
    generalize chunkSize = m
    have h1 : Unstamped h (trimTo h raw n c m) := trimTo_unstamped
    by_cases hfix : k.fixed = true
    · rw [if_pos hfix]
      have h2 : Unstamped h (btmRegistryInsert k (backed cfg (trimTo h raw n c m) c off) c m c) :=
        h1.trans (backed_unstamped.trans (registryFold_unstamped _))
      exact h2.trans (Unstamped.modChunk (c := c) (f := fun x => { x with memfdOff := off }))
    · rw [if_neg hfix]
      exact h1.trans (munmap_unstamped.trans hback)

theorem mapFresh_unstamped : Unstamped h (mapFresh cfg k h).2 := by
  rw [mapFresh_eq]
  have h1 : Unstamped h (if cfg.meshMode then memfdAllocOff k h else (some 0, h)).2 := by
    split
    · exact memfdAllocOff_unstamped
    · exact .refl
  generalize (if cfg.meshMode then memfdAllocOff k h else (some 0, h)) = y at h1
  obtain ⟨_ | off, g⟩ := y
  · exact h1
  · exact h1.trans mapAt_unstamped

theorem btmChunkObtain_unstamped : Unstamped h (btmChunkObtain cfg k h q).2 := by
  unfold btmChunkObtain
  cases h.warmHead with
  | some c => exact .of_slabs rfl rfl
  | none =>
    have h1 : Unstamped h (mapFresh cfg k h).2 := mapFresh_unstamped
    dsimp only
    generalize mapFresh cfg k h = y at h1
    obtain ⟨_ | c, g⟩ := y
    · exact h1
    · have h2 : Unstamped g (chunkInitHeader g c q) := .modChunk
      exact h1.trans h2

theorem attachChunk_unstamped : Unstamped h (attachChunk h q c) := by
  unfold attachChunk
  cases (h.pools q).chunks <;> exact .of_slabs rfl rfl

theorem carve_stamped {n : ℕ} : Stamped (fun x => x = (carve cfg h q c n).1) h (carve cfg h q c n).2 := by
  unfold carve
  dsimp only
  have h1 := (@slabFormat_stamped cfg) (q := q) (r := ⟨c, (h.chunks c).nextFreePage⟩)
    (h := (h.modChunk c fun x =>
      { x with
        nextFreePage := (h.chunks c).nextFreePage + n
        pageOwner := fun p => if (h.chunks c).nextFreePage ≤ p ∧ p < (h.chunks c).nextFreePage + n
          then (h.chunks c).nextFreePage else x.pageOwner p
        liveSlabs := x.liveSlabs + 1 }).modSlab ⟨c, (h.chunks c).nextFreePage⟩
      fun x => { x with firstPage := (h.chunks c).nextFreePage, npages := n })
  refine ⟨h1.epoch, fun x hx hT => ?_, fun x hx hT => h1.new hx hT⟩
  have := h1.old hx hT
  rwa [modSlab_of_ne hT] at this

theorem takeEmpty_unstamped : Unstamped h (takeEmpty h q).2 := by
  unfold takeEmpty
  dsimp only
  cases (h.pools q).emptyWarm with
  | some r => exact .of_slabs rfl rfl
  | none =>
    cases (h.pools q).emptyCold with
    | some r => exact .of_slabs rfl rfl
    | none => exact .refl

/-- `btm_slab_new` stamps the slab it returns. -/
theorem btmSlabNew_stamped :
    Stamped (fun x => (btmSlabNew cfg k h q).1 = some x) h (btmSlabNew cfg k h q).2 := by
  have hsome : ∀ {r : SlabRef} {g : Heap}, Stamped (fun x => x = r) h g →
      Stamped (fun x => some r = some x) h g :=
    fun hg => hg.congr fun x => by rw [Option.some.injEq, eq_comm]
  have h1 : Unstamped h (takeEmpty h q).2 := takeEmpty_unstamped
  unfold btmSlabNew
  generalize takeEmpty h q = y at h1
  obtain ⟨_ | r, g⟩ := y
  · replace h1 : Unstamped h g := h1
    dsimp only
    cases activeRoom g q (btmScRunPages q.sc) with
    | some c => exact hsome (h1.then carve_stamped)
    | none =>
      have h2 : Unstamped g (btmChunkObtain cfg k g q).2 := btmChunkObtain_unstamped
      dsimp only
      generalize btmChunkObtain cfg k g q = z at h2
      obtain ⟨_ | c, g'⟩ := z
      · exact ((h1.trans h2).stamped).congr fun x => by simp
      · exact hsome ((h1.trans (h2.trans attachChunk_unstamped)).then carve_stamped)
  · replace h1 : Unstamped h g := h1
    dsimp only
    exact hsome ((h1.then slabFormat_stamped).then_un .modChunk)

/-! ## Giving pages up -/

/-- Releasing data pages reaches no descriptor. -/
theorem SlabRef.Tidy.desc_page (hx : x.Tidy) {p n : ℕ} (hc : c % 2097152 = 0) (hp : 7 ≤ p)
    (hpn : p + n ≤ 512) : inPages (c + p * 4096) (n * 4096) (x.descAddr / 4096) = false := by
  obtain ⟨h1, h2⟩ := hx
  rw [Bool.eq_false_iff, ne_eq, inPages_iff]
  simp only [SlabRef.descAddr, pageSize_eq, slabDescSize_eq]
  have d1 : x.chunk / 2097152 * 512 + 1 ≤ (x.chunk + 4096 + x.page * 48) / 4096 := by omega
  have d2 : (x.chunk + 4096 + x.page * 48) / 4096 < x.chunk / 2097152 * 512 + 7 := by omega
  rcases lt_trichotomy (x.chunk / 2097152) (c / 2097152) with hlt | heq | hgt <;> omega

theorem btmReleasePages_unstamped {p n off : ℕ} (hc : c % 2097152 = 0) (hp : 7 ≤ p)
    (hpn : p + n ≤ 512) : Unstamped h (btmReleasePages cfg h (c + p * 4096) off (n * 4096)) := by
  unfold btmReleasePages
  refine Unstamped.trans ?_ .note
  split
  · exact .of_slabs rfl rfl
  · refine ⟨rfl, fun x hx => ?_⟩
    show (h.slabs x).Alike (if _ then _ else _)
    rw [pageSize_eq, hx.desc_page hc hp hpn, Bool.false_and]
    exact .refl

theorem slabDecommit_unstamped (hc : r.chunk % 2097152 = 0) (hf : 7 ≤ (h.slabs r).firstPage)
    (hn : (h.slabs r).firstPage + (h.slabs r).npages ≤ 512) : Unstamped h (slabDecommit cfg h r) := by
  unfold slabDecommit
  split
  · exact .refl
  · refine .trans (btmReleasePages_unstamped (n := (h.slabs r).npages) hc hf hn) (.modSlab ?_)
    exact ⟨rfl, rfl, rfl, rfl, rfl⟩

theorem kDataOff_pages : kDataOff = 7 * 4096 := by simp [kDataOff]

theorem kData_pages : kData = 505 * 4096 := by simp [kData]

theorem chunkDecommit_unstamped (hc : c % 2097152 = 0) : Unstamped h (chunkDecommit cfg h c) := by
  unfold chunkDecommit
  rw [kDataOff_pages, kData_pages]
  exact btmReleasePages_unstamped (p := 7) (n := 505) hc (by decide) (by decide)

theorem Unstamped.registryGen {n : ℕ} : Unstamped h { h with registryGen := n } := .of_slabs rfl rfl

theorem btmRegistryRemove_unstamped {base len : ℕ} : Unstamped h (btmRegistryRemove k h base len) := by
  have h1 : Unstamped h ((regionKeys base len).foldl (registrySetLocked k 0) h) := registryFold_unstamped _
  unfold btmRegistryRemove
  exact h1.trans .registryGen

theorem chunkTrim_unstamped : Unstamped h (chunkTrim cfg k h c) := by
  unfold chunkTrim
  generalize chunkSize = n
  have h1 : Unstamped h ((btmRegistryRemove k h c n).munmap c n) :=
    btmRegistryRemove_unstamped.trans munmap_unstamped
  refine h1.trans ?_
  split
  · exact memfdFreeOff_unstamped
  · exact .refl

theorem btmChunkDispose_unstamped (hc : c % 2097152 = 0) : Unstamped h (btmChunkDispose cfg k h c) := by
  have h1 : Unstamped h (h.note (.dispose c (h.chunks c).pool)) := .note
  unfold btmChunkDispose
  dsimp only
  split
  · exact h1.trans (.of_slabs rfl rfl)
  · have h2 := h1.trans (@chunkDecommit_unstamped cfg _ _ hc)
    generalize chunkDecommit cfg (h.note (.dispose c (h.chunks c).pool)) c = g at h2
    split
    · exact h2.trans (.of_slabs rfl rfl)
    · exact h2.trans chunkTrim_unstamped

theorem withNext_unstamped {next : SlabRef → Option SlabRef} : Unstamped h (withNext h next) :=
  ⟨rfl, fun _ _ => ⟨rfl, rfl, rfl, rfl, rfl⟩⟩

theorem purgeEmptiesOfChunk_unstamped : Unstamped h (purgeEmptiesOfChunk h q c) := by
  unfold purgeEmptiesOfChunk
  exact withNext_unstamped.trans (Unstamped.modPool.trans (withNext_unstamped.trans .modPool))

theorem chunkUnlink_unstamped : Unstamped h (chunkUnlink h q c) := by
  unfold chunkUnlink
  cases (h.chunks c).prev <;> cases (h.chunks c).next <;> exact .of_slabs rfl rfl

theorem chunkGiveUp_unstamped (hc : c % 2097152 = 0) : Unstamped h (chunkGiveUp cfg k h q c) := by
  have h1 := purgeEmptiesOfChunk_unstamped (h := h) (q := q) (c := c)
  unfold chunkGiveUp
  generalize purgeEmptiesOfChunk h q c = g at h1
  have h2 : Unstamped g (if (g.pools q).active = some c
      then g.modPool q fun P => { P with active := none } else g) := by
    split
    · exact .modPool
    · exact .refl
  exact h1.trans (h2.trans (chunkUnlink_unstamped.trans (btmChunkDispose_unstamped hc)))

theorem Unstamped.setNext {next : Option SlabRef} :
    Unstamped h (h.modSlab r fun x => { x with next := next }) := .modSlab ⟨rfl, rfl, rfl, rfl, rfl⟩

theorem emptyWarmPush_unstamped : Unstamped h (emptyWarmPush h q r) := by
  unfold emptyWarmPush
  exact Unstamped.setNext.trans .modPool

theorem emptyColdPush_unstamped (hc : r.chunk % 2097152 = 0) (hf : 7 ≤ (h.slabs r).firstPage)
    (hn : (h.slabs r).firstPage + (h.slabs r).npages ≤ 512) : Unstamped h (emptyColdPush cfg h q r) := by
  unfold emptyColdPush
  exact (slabDecommit_unstamped hc hf hn).trans (Unstamped.setNext.trans .modPool)

theorem slabBecameFree_unstamped (hr : r.Tidy) (hf : 7 ≤ (h.slabs r).firstPage)
    (hn : (h.slabs r).firstPage + (h.slabs r).npages ≤ 512) :
    Unstamped h (slabBecameFree cfg k h q r) := by
  have h1 : Unstamped h ((partialRemove h q r).modChunk r.chunk fun x =>
      { x with liveSlabs := decr 32 x.liveSlabs }) := partialRemove_unstamped.trans .modChunk
  unfold slabBecameFree
  refine h1.trans ?_
  have e := h1.slab hr
  dsimp only
  split
  · exact chunkGiveUp_unstamped hr.1
  · split
    · exact emptyWarmPush_unstamped
    · refine emptyColdPush_unstamped hr.1 ?_ ?_
      · rw [e.firstPage]
        exact hf
      · rw [e.firstPage, e.npages]
        exact hn

/-! ## Refill, flush and single frees -/

theorem slabPush_slab {s : ℕ} : (slabPush cfg h r s).slabs r =
    { h.slabs r with
      freeHead := s, freeCount := (h.slabs r).freeCount + 1, epoch := h.tierEpoch, pagedOut := false } := by
  unfold slabPush slabTouch
  simp only [modSlab_self]
  rfl

theorem slabPush_stamped {s : ℕ} : Stamped (fun x => x = r) h (slabPush cfg h r s) := by
  refine .of_update rfl (fun x hx => ?_) ?_ ?_
  · unfold slabPush slabTouch
    rw [modSlab_of_ne hx, modSlab_of_ne hx]
    rfl
  all_goals rw [slabPush_slab]

/-- Freeing into a slab stamps it, and it has a free slot after. -/
theorem slabPut_stamped {s : ℕ} (hr : r.Tidy) (hf : 7 ≤ (h.slabs r).firstPage)
    (hn : (h.slabs r).firstPage + (h.slabs r).npages ≤ 512) :
    Stamped (fun x => x = r) h (slabPut cfg k h q r s) ∧
      ((slabPut cfg k h q r s).slabs r).freeCount ≠ 0 := by
  have h1 : Unstamped (slabPush cfg h r s) (slabPut cfg k h q r s) := by
    unfold slabPut
    dsimp only
    split
    · exact .refl
    split
    · refine slabBecameFree_unstamped hr ?_ ?_ <;> rw [slabPush_slab] <;> assumption
    split
    · exact partialPush_unstamped
    · exact .refl
  refine ⟨slabPush_stamped.then_un h1, ?_⟩
  rw [(h1.slab hr).freeCount, slabPush_slab]
  exact Nat.succ_ne_zero _

theorem flushOne_stamped {bin : Bin} (hr : btmSlabOf h (chunkOf bin.freeHead) bin.freeHead = r)
    (ht : r.Tidy) (hf : 7 ≤ (h.slabs r).firstPage)
    (hn : (h.slabs r).firstPage + (h.slabs r).npages ≤ 512) :
    Stamped (fun x => x = r) h (flushOne cfg k q bin h).2 ∧
      ((flushOne cfg k q bin h).2.slabs r).freeCount ≠ 0 := by
  subst hr
  obtain ⟨h1, h2⟩ := (@slabPut_stamped cfg) (k := k) (q := q) (s := bin.freeHead)
    (h := (h.note (.get bin.freeHead)).modPool q fun P => { P with outstanding := decr 64 P.outstanding })
    ht hf hn
  exact ⟨⟨h1.epoch, h1.old, h1.new⟩, h2⟩

theorem btmPoolFreeOne_stamped {s : ℕ} (hr : r.Tidy) (hf : 7 ≤ (h.slabs r).firstPage)
    (hn : (h.slabs r).firstPage + (h.slabs r).npages ≤ 512) :
    Stamped (fun x => x = r) h (btmPoolFreeOne cfg k h r s) ∧
      ((btmPoolFreeOne cfg k h r s).slabs r).freeCount ≠ 0 := by
  unfold btmPoolFreeOne
  obtain ⟨h1, h2⟩ := (@slabPut_stamped cfg) (k := k) (q := ⟨(h.slabs r).partIdx, (h.slabs r).sc⟩) (s := s)
    (h := h.modPool ⟨(h.slabs r).partIdx, (h.slabs r).sc⟩ fun P => { P with outstanding := P.outstanding - 1 })
    hr hf hn
  exact ⟨⟨h1.epoch, h1.old, h1.new⟩, h2⟩

theorem refillLoop_unstamped {want loc n : ℕ} : Unstamped h (refillLoop cfg r want loc n h).2.2 := by
  induction want generalizing loc n h with
  | zero => exact .refl
  | succ want ih =>
    rw [refillLoop]
    dsimp only
    split
    · exact .refl
    · have h1 : Unstamped h ((h.note (.get (h.slabs r).freeHead)).modSlab r fun x =>
          { x with freeHead := btmFlGet cfg h (h.slabs r).freeHead }) :=
        Unstamped.note.trans (.modSlab ⟨rfl, rfl, rfl, rfl, rfl⟩)
      exact (h1.trans btmFlSet_unstamped).trans ih

theorem refillTail_unstamped {n tail : ℕ} : Unstamped h (refillTail cfg n tail h).2 := by
  induction n generalizing tail h with
  | zero => exact .refl
  | succ n ih => exact Unstamped.note.trans ih

/-- Only the slab a refill takes slots from may be stamped when that slab is chosen. -/
theorem refillSlab_stamped : (refillSlab cfg k h q).2.tierEpoch = h.tierEpoch ∧
    ∀ x, x.Tidy → (refillSlab cfg k h q).1 ≠ some x →
      (h.slabs x).Alike ((refillSlab cfg k h q).2.slabs x) := by
  unfold refillSlab
  cases (h.pools q).partialHead with
  | some r => exact ⟨rfl, fun _ _ _ => .refl⟩
  | none =>
    have h1 : Stamped (fun x => (btmSlabNew cfg k h q).1 = some x) h (btmSlabNew cfg k h q).2 := btmSlabNew_stamped
    dsimp only
    generalize btmSlabNew cfg k h q = y at h1
    obtain ⟨_ | r, g⟩ := y
    · exact ⟨h1.epoch, fun x hx _ => h1.old hx nofun⟩
    · have h2 := h1.then_un (partialPush_unstamped (q := q) (r := r))
      exact ⟨h2.epoch, fun x hx hne => h2.old hx hne⟩

/-- `btm_pool_refill` stamps the slab it takes slots from. -/
theorem btmPoolRefill_stamped {bin : Bin} {want : ℕ} :
    Stamped (fun x => x ∈ refillTrace cfg k h q) h (btmPoolRefill cfg k h q bin want).2.2 := by
  obtain ⟨h1, h2⟩ := @refillSlab_stamped cfg k h q
  unfold btmPoolRefill refillTrace
  generalize refillSlab cfg k h q = y at h1 h2
  obtain ⟨_ | r, g⟩ := y
  · exact ⟨h1, fun x hx _ => h2 x hx nofun, fun x _ hT => by simp at hT⟩
  have h3 : Unstamped g (refillLoop cfg r want 0 0 g).2.2 := refillLoop_unstamped
  dsimp only
  generalize refillLoop cfg r want 0 0 g = z at h3
  obtain ⟨loc, n, g1⟩ := z
  dsimp only at h1 h2 h3 ⊢
  have h4 : Stamped (fun x => x = r) h (slabTouch ((g1.modSlab r fun x =>
      { x with freeCount := subWrap 32 x.freeCount n }).modPool q fun P =>
      { P with outstanding := P.outstanding + n }) r) := by
    have he : g1.tierEpoch = h.tierEpoch := h3.epoch.trans h1
    unfold slabTouch
    refine ⟨he, fun x hx hT => ?_, fun x _ hT => ?_⟩
    · rw [modSlab_of_ne hT]
      rw [modPool_slabs, modSlab_of_ne hT]
      exact (h2 x hx fun e => hT (Option.some.inj e).symm).trans (h3.slab hx)
    · subst hT
      rw [modSlab_self]
      exact ⟨he, rfl⟩
  have hT : ∀ x, x ∈ (some r).toList ↔ x = r := by simp
  refine Stamped.congr ?_ hT
  generalize slabTouch _ r = g2 at h4 ⊢
  have h5 : Unstamped g2 (if (g2.slabs r).freeCount = 0 then partialRemove g2 q r else g2) := by
    split
    · exact partialRemove_unstamped
    · exact .refl
  replace h5 := h4.then_un h5
  generalize (if (g2.slabs r).freeCount = 0 then partialRemove g2 q r else g2) = g3 at h5 ⊢
  split
  · exact h5
  split
  · exact h5.then_un .note
  · exact (h5.then_un .note).then_un (refillTail_unstamped.trans btmFlSet_unstamped)

end BtMalloc
