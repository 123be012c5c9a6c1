import BtMalloc.Machine
import BtMalloc.Proofs.MapProofs
import BtMalloc.Proofs.RegistryProofs

/-!
# Proofs: what becomes of owner words

Whatever the state, an owner word in the table goes only with a bump of the generation: nothing but
`btm_registry_remove` clears words. Region caches rely on this alone.
-/

namespace BtMalloc

open LinkedList PagedMemory Word

variable {cfg : Config} {k : Kernel} {h h' h'' : Heap} {q : PoolId} {r : SlabRef} {c o key base len : ℕ}
  {T : OwnerTable}

/-- The owner table and the generation. -/
def Heap.table (h : Heap) : OwnerTable × ℕ := (h.owners, h.registryGen)

/-- Words were cleared only if the generation was bumped. -/
structure WordsKept (h h' : Heap) : Prop where
  gen : h.registryGen ≤ h'.registryGen
  word : h'.registryGen = h.registryGen → ∀ ⦃key⦄, ownerAt h.owners key ≠ 0 → ownerAt h'.owners key ≠ 0

theorem WordsKept.refl : WordsKept h h := ⟨le_rfl, fun _ _ => id⟩

theorem WordsKept.trans (K : WordsKept h h') (K' : WordsKept h' h'') : WordsKept h h'' := by
  refine ⟨K.gen.trans K'.gen, fun e key h0 => ?_⟩
  have := K.gen
  have := K'.gen
  exact K'.word (by omega) (K.word (by omega) h0)

theorem WordsKept.of_table (e : h'.table = h.table) : WordsKept h h' := by
  obtain ⟨e1, e2⟩ := Prod.mk.inj e
  refine ⟨e2.ge, fun _ key h0 => ?_⟩
  rwa [e1]

/-! ## The table -/

theorem radixSet_kept {l1 : ℕ → Option (ℕ → ℕ)} {x : ℕ} (ho : o ≠ 0) (h0 : radixAt l1 x ≠ 0) :
    radixAt (radixSet k o l1 key) x ≠ 0 := by
  unfold radixAt at h0
  cases hx : l1 (radixI1 x) with
  | none =>
    rw [hx] at h0
    exact absurd rfl h0
  | some leaf =>
    rw [hx] at h0
    have hset : ∀ leaf', (l1 (radixI1 key) = some leaf' ∨ l1 (radixI1 key) = none) →
        radixAt (Function.update l1 (radixI1 key) (some (Function.update leaf' (radixI2 key) o))) x ≠ 0 := by
      intro leaf' hl
      unfold radixAt
      by_cases e1 : radixI1 x = radixI1 key
      · rw [e1] at hx
        obtain rfl : leaf' = leaf := by
          rcases hl with hl | hl
          · exact Option.some.inj (hl.symm.trans hx)
          · rw [hl] at hx
            cases hx
        rw [e1, Function.update_self]
        by_cases e2 : radixI2 x = radixI2 key
        · simpa only [e2, Function.update_self] using ho
        · simpa only [Function.update_of_ne e2] using h0
      · rw [Function.update_of_ne e1, hx]
        exact h0
    unfold radixSet
    cases hl : l1 (radixI1 key) with
    | some leaf' => exact hset leaf' (Or.inl hl)
    | none =>
      dsimp only
      split
      · exact hset _ (Or.inr hl)
      · unfold radixAt
        rwa [hx]

theorem flatSet_kept {tbl : FlatTable} {x : ℕ} (ho : o ≠ 0) (h0 : ownerAt (.flat tbl) x ≠ 0) :
    ownerAt (.flat (tbl.flatSet o key)) x ≠ 0 := by
  cases tbl with
  | none => exact absurd rfl h0
  | some a =>
    unfold FlatTable.flatSet
    dsimp only
    by_cases hkey : flatSize ≤ key
    · rwa [if_pos hkey]
    · rw [if_neg hkey]
      replace h0 : (if flatSize ≤ x then 0 else a x) ≠ 0 := h0
      show (if flatSize ≤ x then 0 else Function.update a key o x) ≠ 0
      by_cases hx : flatSize ≤ x
      · rw [if_pos hx] at h0
        exact absurd rfl h0
      · rw [if_neg hx] at h0 ⊢
        by_cases e : x = key
        · rwa [e, Function.update_self]
        · rwa [Function.update_of_ne e]

theorem registrySetLocked_gen : (registrySetLocked k o h key).registryGen = h.registryGen := by
  unfold registrySetLocked
  cases h.owners <;> rfl

theorem registrySetLocked_kept (ho : o ≠ 0) : WordsKept h (registrySetLocked k o h key) := by
  refine ⟨registrySetLocked_gen.ge, fun _ x h0 => ?_⟩
  unfold registrySetLocked
  cases hT : h.owners with
  | radix l1 =>
    rw [hT] at h0
    exact radixSet_kept ho h0
  | flat tbl =>
    rw [hT] at h0
    exact flatSet_kept ho h0

theorem btmRegistryInsert_kept (ho : o ≠ 0) : WordsKept h (btmRegistryInsert k h base len o) := by
  unfold btmRegistryInsert
  generalize regionKeys base len = l
  induction l generalizing h with
  | nil => exact .refl
  | cons key l ih => exact (registrySetLocked_kept ho).trans ih

theorem btmRegistryRemove_gen : (btmRegistryRemove k h base len).registryGen = h.registryGen + 1 := by
  have hfold : ∀ (l : List ℕ) (h : Heap), (l.foldl (registrySetLocked k 0) h).registryGen = h.registryGen := by
    intro l
    induction l with
    | nil => exact fun _ => rfl
    | cons key l ih => exact fun h => (ih _).trans registrySetLocked_gen
  exact congrArg (· + 1) (hfold _ _)

/-- The generation was bumped. -/
theorem WordsKept.of_lt (hlt : h.registryGen < h'.registryGen) : WordsKept h h' :=
  ⟨hlt.le, fun e => absurd e (by omega)⟩

theorem btmRegistryRemove_kept : WordsKept h (btmRegistryRemove k h base len) :=
  .of_lt (by rw [btmRegistryRemove_gen]; omega)

/-! ## Operations that leave the table alone -/

theorem modPool_table {f : Pool → Pool} : (h.modPool q f).table = h.table := rfl

theorem modChunk_table {f : Chunk → Chunk} : (h.modChunk c f).table = h.table := rfl

theorem note_table {e : Event} : (h.note e).table = h.table := rfl

theorem madviseDontneed_table {a n : ℕ} : (h.madviseDontneed a n).table = h.table := rfl

theorem withNext_table {next : SlabRef → Option SlabRef} : (withNext h next).table = h.table := rfl

theorem munmap_table {a n : ℕ} : (h.munmap a n).table = h.table := by
  unfold Heap.munmap
  split <;> rfl

theorem memfdFreeOff_table {off : ℕ} : (memfdFreeOff k h off).table = h.table := by
  obtain ⟨cap, freed, e, -⟩ := memfdFreeOff_spec k h off
  rw [e]
  rfl

theorem memfdAllocOff_table : (memfdAllocOff k h).2.table = h.table := by
  unfold memfdAllocOff
  cases h.memfdFree with
  | cons off rest => rfl
  | nil =>
    dsimp only
    split
    · split <;> rfl
    · rfl

theorem trimTo_table {raw n b keep : ℕ} : (trimTo h raw n b keep).table = h.table := by
  have hif : ∀ {g : Heap} {n a m : ℕ}, (if n = 0 then g else g.munmap a m).table = g.table := by
    intro g n a m
    split
    · rfl
    · exact munmap_table
  unfold trimTo
  exact hif.trans hif

theorem backed_table {off : ℕ} : (backed cfg h c off).table = h.table := by
  unfold backed
  split <;> rfl

theorem partialPush_table : (partialPush h q r).table = h.table := by
  unfold partialPush
  cases (h.pools q).partialHead <;> rfl

theorem partialRemove_table : (partialRemove h q r).table = h.table := by
  unfold partialRemove
  cases (h.slabs r).prev <;> cases (h.slabs r).next <;> rfl

theorem slabFormatLoop_table (data slot i next : ℕ) (h : Heap) :
    (slabFormatLoop cfg data slot i next h).2.table = h.table := by
  induction i generalizing next h with
  | zero => rfl
  | succ i ih => exact ih _ (btmFlSet cfg h (data + i * slot) next)

theorem slabFormat_table : (slabFormat cfg h r q).table = h.table := slabFormatLoop_table ..

theorem carve_table {n : ℕ} : (carve cfg h q c n).2.table = h.table := slabFormat_table

theorem attachChunk_table : (attachChunk h q c).table = h.table := by
  unfold attachChunk
  cases (h.pools q).chunks <;> rfl

theorem takeEmpty_table : (takeEmpty h q).2.table = h.table := by
  unfold takeEmpty
  dsimp only
  cases (h.pools q).emptyWarm with
  | some r => rfl
  | none => cases (h.pools q).emptyCold <;> rfl

theorem btmReleasePages_table {a off n : ℕ} : (btmReleasePages cfg h a off n).table = h.table := by
  unfold btmReleasePages
  split <;> rfl

theorem chunkDecommit_table : (chunkDecommit cfg h c).table = h.table := btmReleasePages_table

theorem slabDecommit_table : (slabDecommit cfg h r).table = h.table := by
  unfold slabDecommit
  split
  · rfl
  · exact btmReleasePages_table

theorem chunkUnlink_table : (chunkUnlink h q c).table = h.table := by
  unfold chunkUnlink
  cases (h.chunks c).prev <;> cases (h.chunks c).next <;> rfl

theorem purgeEmptiesOfChunk_table : (purgeEmptiesOfChunk h q c).table = h.table := by
  unfold purgeEmptiesOfChunk
  simp only [modPool_table, withNext_table]

theorem emptyWarmPush_table : (emptyWarmPush h q r).table = h.table := rfl

theorem emptyColdPush_table : (emptyColdPush cfg h q r).table = h.table := slabDecommit_table

theorem refillLoop_table (r : SlabRef) (want loc n : ℕ) (h : Heap) :
    (refillLoop cfg r want loc n h).2.2.table = h.table := by
  induction want generalizing loc n h with
  | zero => rfl
  | succ want ih =>
    unfold refillLoop
    dsimp only
    split
    · rfl
    · exact ih _ _ _

theorem refillTail_table (i tail : ℕ) (h : Heap) : (refillTail cfg i tail h).2.table = h.table := by
  induction i generalizing tail h with
  | zero => rfl
  | succ i ih => exact ih _ _

/-! ## Chunks -/

theorem mapAt_kept {off : ℕ} : WordsKept h (mapAt cfg k h off).2 := by
  have hback : ∀ {g : Heap}, (if cfg.meshMode then memfdFreeOff k g off else g).table = g.table := by
    intro g
    split
    · exact memfdFreeOff_table
    · rfl
  unfold mapAt
  cases hres : mmapResult h k.chunk (chunkSize * 2) with
  | none => exact .of_table hback
  | some raw =>
    have hbase : chunkBase raw ≠ 0 := by
      obtain ⟨-, hf⟩ := Option.filter_eq_some_iff.mp hres
      obtain ⟨-, h1, -, h2, -⟩ := freshRange_spec hf
      have hle : raw + 4194304 ≤ 2 ^ 47 := by rw [chunkSize_eq] at h2; omega
      have := (chunkBase_spec hle).2.1
      omega
    dsimp only
    generalize chunkBase raw = b at hbase
    generalize chunkSize = m
    by_cases hfix : k.fixed = true
    · rw [if_pos hfix]
      have h1 : WordsKept h (backed cfg (trimTo h raw (m * 2) b m) b off) := .of_table (backed_table.trans trimTo_table)
      have h2 : WordsKept h (btmRegistryInsert k (backed cfg (trimTo h raw (m * 2) b m) b off) b m b) :=
        h1.trans (btmRegistryInsert_kept hbase)
      exact h2.trans (.of_table modChunk_table)
    · rw [if_neg hfix]
      exact .of_table (hback.trans (munmap_table.trans trimTo_table))

theorem mapFresh_kept : WordsKept h (mapFresh cfg k h).2 := by
  rw [mapFresh_eq]
  have h1 : (if cfg.meshMode then memfdAllocOff k h else (some 0, h)).2.table = h.table := by
    split
    · exact memfdAllocOff_table
    · rfl
  generalize (if cfg.meshMode then memfdAllocOff k h else (some 0, h)) = y at h1
  obtain ⟨_ | off, g⟩ := y
  · exact .of_table h1
  · exact (WordsKept.of_table h1).trans mapAt_kept

theorem btmChunkObtain_kept : WordsKept h (btmChunkObtain cfg k h q).2 := by
  unfold btmChunkObtain
  cases h.warmHead with
  | some c => exact .of_table rfl
  | none =>
    have h1 : WordsKept h (mapFresh cfg k h).2 := mapFresh_kept
    dsimp only
    generalize mapFresh cfg k h = y at h1
    obtain ⟨_ | c, g⟩ := y
    · exact h1
    · exact h1.trans (.of_table rfl)

theorem chunkTrim_kept : WordsKept h (chunkTrim cfg k h c) := by
  unfold chunkTrim
  generalize chunkSize = n
  have h1 : WordsKept h ((btmRegistryRemove k h c n).munmap c n) :=
    btmRegistryRemove_kept.trans (.of_table munmap_table)
  dsimp only
  split
  · exact h1.trans (.of_table memfdFreeOff_table)
  · exact h1

theorem btmChunkDispose_kept : WordsKept h (btmChunkDispose cfg k h c) := by
  unfold btmChunkDispose
  dsimp only
  split
  · exact .of_table rfl
  · have h1 : WordsKept h (chunkDecommit cfg (h.note (.dispose c (h.chunks c).pool)) c) :=
      .of_table (chunkDecommit_table.trans note_table)
    split
    · exact h1.trans (.of_table rfl)
    · exact h1.trans chunkTrim_kept

theorem chunkGiveUp_kept : WordsKept h (chunkGiveUp cfg k h q c) := by
  have h1 : (purgeEmptiesOfChunk h q c).table = h.table := purgeEmptiesOfChunk_table
  unfold chunkGiveUp
  generalize purgeEmptiesOfChunk h q c = g at h1
  have h2 : (if (g.pools q).active = some c then g.modPool q fun P => { P with active := none } else g).table =
      g.table := by
    split <;> rfl
  exact (WordsKept.of_table (chunkUnlink_table.trans (h2.trans h1))).trans btmChunkDispose_kept

theorem decommitOne_table {ring : Bool} : (decommitOne cfg ring h c).table = h.table := by
  unfold decommitOne
  split
  · exact chunkDecommit_table
  · exact note_table.trans madviseDontneed_table

theorem bgStep_kept {ring : Bool} {pc pc' : BgPc} (he : bgStep cfg k ring h pc = some (h', pc')) :
    WordsKept h h' := by
  unfold bgStep at he
  split at he
  · split at he
    · cases he
      exact .of_table rfl
    · cases he
  · cases he
    exact .refl
  · cases he
    exact .of_table decommitOne_table
  · split at he
    all_goals
      cases he
      exact .of_table rfl
  · cases he
    exact .refl
  · cases he
    exact chunkTrim_kept
  · cases he
    exact .refl
  · split at he
    · cases he
      exact .refl
    · have h1 : WordsKept h (mapFresh cfg k h).2 := mapFresh_kept
      generalize mapFresh cfg k h = y at he h1
      obtain ⟨_ | c, g⟩ := y
      · cases he
        exact h1
      · cases he
        exact h1.trans (.of_table rfl)

/-! ## Pools -/

theorem btmSlabNew_kept : WordsKept h (btmSlabNew cfg k h q).2 := by
  have h1 : (takeEmpty h q).2.table = h.table := takeEmpty_table
  unfold btmSlabNew
  generalize takeEmpty h q = y at h1
  obtain ⟨_ | r, g⟩ := y
  · dsimp only
    cases activeRoom g q (btmScRunPages q.sc) with
    | some c => exact .of_table (carve_table.trans h1)
    | none =>
      have h2 : WordsKept g (btmChunkObtain cfg k g q).2 := btmChunkObtain_kept
      dsimp only
      generalize btmChunkObtain cfg k g q = z at h2
      obtain ⟨_ | c, g'⟩ := z
      · exact (WordsKept.of_table h1).trans h2
      · exact (WordsKept.of_table h1).trans (h2.trans (.of_table (carve_table.trans attachChunk_table)))
  · exact .of_table (slabFormat_table.trans h1)

theorem slabBecameFree_kept : WordsKept h (slabBecameFree cfg k h q r) := by
  have h1 : ∀ f, ((partialRemove h q r).modChunk r.chunk f).table = h.table := fun f =>
    modChunk_table.trans partialRemove_table
  unfold slabBecameFree
  dsimp only
  split
  · exact (WordsKept.of_table (h1 _)).trans chunkGiveUp_kept
  · split
    · exact .of_table (emptyWarmPush_table.trans (h1 _))
    · exact .of_table (emptyColdPush_table.trans (h1 _))

theorem slabPut_kept {s : ℕ} : WordsKept h (slabPut cfg k h q r s) := by
  have h1 : (slabPush cfg h r s).table = h.table := rfl
  unfold slabPut
  generalize slabPush cfg h r s = g at h1
  dsimp only
  split
  · exact .of_table h1
  · split
    · exact (WordsKept.of_table h1).trans slabBecameFree_kept
    · split
      · exact .of_table (partialPush_table.trans h1)
      · exact .of_table h1

theorem refillSlab_kept : WordsKept h (refillSlab cfg k h q).2 := by
  unfold refillSlab
  cases (h.pools q).partialHead with
  | some r => exact .refl
  | none =>
    have h1 : WordsKept h (btmSlabNew cfg k h q).2 := btmSlabNew_kept
    dsimp only
    generalize btmSlabNew cfg k h q = y at h1
    obtain ⟨_ | r, g⟩ := y
    · exact h1
    · exact h1.trans (.of_table partialPush_table)

theorem btmPoolRefill_kept {bin : Bin} {want : ℕ} : WordsKept h (btmPoolRefill cfg k h q bin want).2.2 := by
  have h1 : WordsKept h (refillSlab cfg k h q).2 := refillSlab_kept
  unfold btmPoolRefill
  generalize refillSlab cfg k h q = y at h1
  obtain ⟨_ | r, g⟩ := y
  · exact h1
  · have h2 : (refillLoop cfg r want 0 0 g).2.2.table = g.table := refillLoop_table r want 0 0 g
    dsimp only
    generalize refillLoop cfg r want 0 0 g = z at h2
    obtain ⟨loc, n, g'⟩ := z
    dsimp only
    have h3 : ∀ (g1 : Heap), g1.table = g'.table → (if (g1.slabs r).freeCount = 0 then partialRemove g1 q r else g1).table =
        g'.table := by
      intro g1 e
      split
      · exact partialRemove_table.trans e
      · exact e
    replace h3 := h3 (slabTouch ((g'.modSlab r fun x => { x with freeCount := subWrap 32 x.freeCount n }).modPool q
      fun P => { P with outstanding := P.outstanding + n }) r) rfl
    refine h1.trans (.of_table ?_)
    split
    · exact h3.trans h2
    · split
      · exact h3.trans h2
      · exact (refillTail_table ..).trans (h3.trans h2)

theorem flushOne_kept {bin : Bin} : WordsKept h (flushOne cfg k q bin h).2 := by
  unfold flushOne
  exact (WordsKept.of_table (by rfl)).trans slabPut_kept

theorem btmPoolFreeOne_kept {s : ℕ} : WordsKept h (btmPoolFreeOne cfg k h r s) := by
  unfold btmPoolFreeOne
  exact (WordsKept.of_table (by rfl)).trans slabPut_kept

/-! ## Compaction -/

theorem meshRebuild_table (Rd slot : ℕ) (rocc docc : ℕ → Bool) (n head cnt : ℕ) (h : Heap) :
    (meshRebuild cfg Rd slot rocc docc n head cnt h).2.2.table = h.table := by
  induction n generalizing head cnt h with
  | zero => rfl
  | succ n ih =>
    unfold meshRebuild
    split
    · exact ih _ _ _
    · exact ih _ _ _

theorem btmMeshRemap_table {D R : SlabRef} : (btmMeshRemap k h D R).2.table = h.table := by
  unfold btmMeshRemap
  dsimp only
  split <;> rfl

theorem meshPair_table {R D : SlabRef} {rocc docc : ℕ → Bool} :
    (meshPair cfg k h q R D rocc docc).2.table = h.table := by
  unfold meshPair
  dsimp only
  exact partialRemove_table.trans (btmMeshRemap_table.trans (meshRebuild_table ..))

theorem meshLoop_table {cand : List (SlabRef × (ℕ → Bool))} (l : List (SlabRef × (ℕ → Bool))) (i : ℕ)
    (used : ℕ → Bool) (st : ℕ × Heap) : (meshLoop cfg k q cand l i used st).2.table = st.2.table := by
  induction l generalizing i used st with
  | nil => rfl
  | cons R rest ih =>
    obtain ⟨n, h⟩ := st
    unfold meshLoop
    split
    · exact ih _ _ _
    · split
      · exact ih _ _ _
      · exact (ih _ _ _).trans meshPair_table

theorem compactPool_table {st : ℕ × Heap} : (compactPool cfg k st q).2.table = st.2.table := by
  unfold compactPool
  split
  · rfl
  · exact meshLoop_table ..

theorem btmCompact_table : (btmCompact cfg k h).2.table = h.table := by
  have hfold : ∀ (l : List PoolId) (st : ℕ × Heap), (l.foldl (compactPool cfg k) st).2.table = st.2.table := by
    intro l
    induction l with
    | nil => exact fun _ => rfl
    | cons q l ih => exact fun st => (ih _).trans compactPool_table
  unfold btmCompact
  split
  · exact hfold _ _
  · rfl

/-! ## Large objects -/

theorem or_one_ne_zero (b : ℕ) : b ||| 1 ≠ 0 := by
  have : 1 ≤ b ||| 1 := Nat.right_le_or
  omega

theorem btmLargeAlloc_kept {size alignment p : ℕ} (he : btmLargeAlloc k h size alignment = .ok (p, h')) :
    WordsKept h h' := by
  have hif : ∀ {g : Heap} {n a m : ℕ}, (if n = 0 then g else g.munmap a m).table = g.table := by
    intro g n a m
    split
    · rfl
    · exact munmap_table
  -- the end of the call, once the reservation is trimmed
  have hend : ∀ {g : Heap} {x b n : ℕ} {hd : LargeHdr}, g.table = h.table →
      (if g.mapped (b / pageSize) then
        Except.ok (x, btmRegistryInsert k { g with larges := Function.update g.larges b hd } b n (b ||| 1))
      else .error Trap.segv) = .ok (p, h') → WordsKept h h' := by
    intro g x b n hd hg hx
    split at hx
    · cases hx
      exact (WordsKept.of_table (by exact hg)).trans (btmRegistryInsert_kept (or_one_ne_zero b))
    · cases hx
  unfold btmLargeAlloc at he
  dsimp only at he
  cases hres : mmapResult h k.large (largeWant size alignment) with
  | none =>
    rw [hres] at he
    cases he
    exact .refl
  | some raw =>
    rw [hres] at he
    dsimp only at he
    refine hend ?_ he
    exact hif.trans hif

theorem btmLargeFree_gen {b : ℕ} (he : btmLargeFree k h b = .ok h') : h'.registryGen = h.registryGen + 1 := by
  unfold btmLargeFree at he
  cases hh : largeHeader h b with
  | error e =>
    rw [hh] at he
    cases he
  | ok hd =>
    rw [hh] at he
    cases he
    exact (congrArg Prod.snd munmap_table).trans btmRegistryRemove_gen

theorem btmLargeFree_kept {b : ℕ} (he : btmLargeFree k h b = .ok h') : WordsKept h h' :=
  .of_lt (by rw [btmLargeFree_gen he]; omega)

theorem mremap_table {b nb n m : ℕ} : (h.mremap b n nb m).table = h.table := by
  unfold Heap.mremap
  dsimp only
  split
  · exact munmap_table
  · split
    · exact munmap_table
    · rfl

theorem btmLargeRealloc_kept {b p size p' : ℕ} (he : btmLargeRealloc k h b p size = .ok (p', h')) :
    WordsKept h h' := by
  unfold btmLargeRealloc at he
  cases hh : largeHeader h b with
  | error e =>
    rw [hh] at he
    cases he
  | ok hd =>
    rw [hh] at he
    dsimp only at he
    split at he
    · cases he
      exact .of_table rfl
    · have h1 : WordsKept h (btmRegistryRemove k h b hd.mapLen) := btmRegistryRemove_kept
      generalize btmRegistryRemove k h b hd.mapLen = g at he h1
      split at he
      · cases he
        exact h1.trans (btmRegistryInsert_kept (or_one_ne_zero _))
      · cases he
        refine h1.trans (.trans ?_ (btmRegistryInsert_kept (or_one_ne_zero _)))
        exact .of_table mremap_table

end BtMalloc
