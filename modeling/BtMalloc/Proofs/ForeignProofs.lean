import BtMalloc.Proofs.ResolveProofs
import BtMalloc.Proofs.TableProofs

/-!
# Proofs: pointers that the allocator did not hand out

In every state of every run, an entry point ignores a pointer if and only if the table has no owner word for
the 2 MiB region of the pointer. A region in which nothing is mapped has none, as long as the table is right;
but a pointer next to a large object has one.
-/

namespace BtMalloc

open LinkedList PagedMemory Word

variable {cfg : Config} {k : Kernel} {w w' : World} {h h' : Heap} {s s' s'' : Sys} {t p q n ra size : ℕ}
  {e : RcacheEnt} {act : Action} {fl : Option (ℕ × ℕ)} {c : Alloc} {T : OwnerTable}

/-! ## Region caches -/

/-- An entry that passes the generation check is of a region with an owner. -/
structure EntryOk (h : Heap) (e : RcacheEnt) : Prop where
  gen : e.gen ≤ h.registryGen
  owner : e.gen = h.registryGen → e.owner ≠ 0 → ownerAt h.owners e.region ≠ 0

theorem EntryOk.kept (E : EntryOk h e) (K : WordsKept h h') : EntryOk h' e := by
  have hgen := E.gen
  have hle := K.gen
  exact ⟨by omega, fun he ho => K.word (by omega) (E.owner (by omega) ho)⟩

theorem EntryOk.zero : EntryOk h ⟨0, 0, 0⟩ := ⟨Nat.zero_le _, fun _ ho => absurd rfl ho⟩

/-- What a call by thread `t` does to owner words and region caches. -/
structure CacheKept (t : ℕ) (s s' : Sys) : Prop where
  heap : WordsKept s.heap s'.heap
  other : ∀ ⦃u⦄, u ≠ t → s'.threads u = s.threads u
  entry : (∀ i, EntryOk s.heap ((s.threads t).rcache i)) → ∀ i, EntryOk s'.heap ((s'.threads t).rcache i)

theorem CacheKept.refl : CacheKept t s s := ⟨.refl, fun _ _ => rfl, id⟩

theorem CacheKept.trans (K : CacheKept t s s') (K' : CacheKept t s' s'') : CacheKept t s s'' :=
  ⟨K.heap.trans K'.heap, fun _ hu => (K'.other hu).trans (K.other hu), fun E => K'.entry (K.entry E)⟩

theorem CacheKept.setHeap (K : WordsKept s.heap h) : CacheKept t s (s.setHeap h) :=
  ⟨K, fun _ _ => rfl, fun E i => (E i).kept K⟩

theorem CacheKept.modThread {f : Thread → Thread}
    (hf : ∀ i, (f (s.threads t)).rcache i = (s.threads t).rcache i ∨ EntryOk s.heap ((f (s.threads t)).rcache i)) :
    CacheKept t s (s.modThread t f) := by
  refine ⟨.refl, fun u hu => Function.update_of_ne hu .., fun E i => ?_⟩
  show EntryOk s.heap ((Function.update s.threads t (f (s.threads t)) t).rcache i)
  rw [Function.update_self]
  rcases hf i with e | h
  · rw [e]
    exact E i
  · exact h

theorem CacheKept.setBin {i : ℕ} {b : Bin} : CacheKept t s (s.setBin t i b) := .modThread fun _ => Or.inl rfl

theorem CacheKept.setPc {pc : Pc} : CacheKept t s (s.setPc t pc) := .modThread fun _ => Or.inl rfl

theorem CacheKept.startFlush : CacheKept t s (s.startFlush t fl) := by
  cases fl with
  | none => exact .refl
  | some x => exact .setPc

theorem btmTlsGet_kept (he : btmTlsGet k t s = some s') : CacheKept t s s' := by
  unfold btmTlsGet at he
  split_ifs at he
  · cases he
    exact .refl
  · cases he
    exact .modThread fun _ => Or.inr .zero

theorem btmResolveOwner_kept : CacheKept t s (btmResolveOwner t p s).2 := by
  unfold btmResolveOwner
  dsimp only
  split_ifs with h1 h2 h3
  · exact .refl
  · exact .refl
  · dsimp only
    refine .modThread fun i => ?_
    by_cases e : i = p >>> chunkShift % 2 ^ 32 &&& 15
    · right
      simp only [e, Function.update_self]
      exact ⟨le_rfl, fun _ _ => h3⟩
    · exact Or.inl (Function.update_of_ne e ..)
  · exact .refl

/-! ## The entry points -/

theorem btmPartitionOf_kept : CacheKept t s (btmPartitionOf cfg t ra s).2 := by
  have key : ∀ {part : ℕ} {g : Heap}, g.table = s.heap.table →
      CacheKept t s ((s.setHeap g).modThread t fun x => { x with internRa := ra, internPart := part }) := fun hg =>
    .trans (.setHeap (.of_table hg)) (.modThread fun _ => Or.inl rfl)
  unfold btmPartitionOf
  split
  · split
    · exact .refl
    · unfold btmInternSlow
      dsimp only
      split
      next id g he =>
        obtain ⟨tbl, m, rfl⟩ := internProbe_heap he
        exact key rfl
      next => exact key rfl
  · exact .refl

theorem clearCanary_table : (clearCanary cfg h p).table = h.table := by
  unfold clearCanary
  split <;> rfl

theorem mallocSmall_kept {sc : ℕ} : CacheKept t s (mallocSmall cfg k t sc ra s).2 := by
  have h1 : CacheKept t s (btmPartitionOf cfg t ra s).2 := btmPartitionOf_kept
  unfold mallocSmall
  generalize btmPartitionOf cfg t ra s = x at h1
  obtain ⟨part, s1⟩ := x
  dsimp only
  split
  · exact h1.trans (.trans (.setHeap (.of_table (clearCanary_table.trans note_table))) .setBin)
  · generalize ({ (s1.threads t).bins (binIdx ⟨part, sc⟩) with pool := some ⟨part, sc⟩ } : Bin) = bin
    generalize max (btmCacheMax sc / 2) 1 = want
    have h2 : ∀ g : Heap, g.table = s1.heap.table →
        WordsKept s1.heap (btmPoolRefill cfg k g ⟨part, sc⟩ bin want).2.2 := fun g hg =>
      (WordsKept.of_table hg).trans btmPoolRefill_kept
    generalize hg : (if s1.heap.sampleRa part = 0 then
      { s1.heap with sampleRa := Function.update s1.heap.sampleRa part ra } else s1.heap) = g
    replace h2 := h2 g (by subst hg; split <;> rfl)
    generalize btmPoolRefill cfg k g ⟨part, sc⟩ bin want = y at h2
    obtain ⟨p, bin', g'⟩ := y
    refine h1.trans (.trans (.setHeap (h2.trans (.of_table ?_))) .setBin)
    split
    · rfl
    · exact clearCanary_table

theorem largeAt_kept {alignment : ℕ} (he : largeAt k size alignment s = .ok (p, s')) : CacheKept t s s' := by
  unfold largeAt at he
  cases hl : btmLargeAlloc k s.heap size alignment with
  | error e =>
    rw [hl] at he
    cases he
  | ok x =>
    rw [hl] at he
    cases he
    exact .setHeap (btmLargeAlloc_kept hl)

theorem btmMallocAt_kept (he : btmMallocAt cfg k t size ra s = .ok (p, s')) : CacheKept t s s' := by
  cases hc : btmSizeToSc size with
  | none =>
    by_cases h0 : size = 0
    · rw [h0, btmMallocAt_zero] at he
      cases he
      exact .refl
    · rw [btmMallocAt_large hc h0] at he
      exact largeAt_kept he
  | some sc =>
    rw [btmMallocAt_class hc] at he
    cases ht : btmTlsGet k t s with
    | none =>
      rw [ht] at he
      cases he
      exact .refl
    | some s1 =>
      rw [ht] at he
      have e : (mallocSmall cfg k t sc ra s1).2 = s' := congrArg Prod.snd (Except.ok.inj he)
      rw [← e]
      exact (btmTlsGet_kept ht).trans mallocSmall_kept

theorem Alloc.finish_kept {x : ℕ × Sys} : CacheKept t x.2 (c.finish x).2 := by
  cases c with
  | calloc m n =>
    unfold Alloc.finish
    dsimp only
    split
    · exact .refl
    · exact .setHeap (.of_table rfl)
  | malloc n | realloc n | alignedAlloc al n | posixMemalign al n => exact .refl

theorem Alloc.run_kept (hw : c.Words) (he : c.run cfg k t ra s = .ok (p, s')) : CacheKept t s s' := by
  cases hr : c.request with
  | none =>
    rw [run_none hr] at he
    cases he
    exact .refl
  | some x =>
    obtain ⟨size, alignment⟩ := x
    cases hl : c.large with
    | some y =>
      rw [run_large hw hl] at he
      exact largeAt_kept he
    | none =>
      rw [run_small hw hr hl] at he
      cases hm : btmMallocAt cfg k t size ra s with
      | error e =>
        rw [hm] at he
        cases he
      | ok y =>
        rw [hm] at he
        have e : (c.finish y).2 = s' := congrArg Prod.snd (Except.ok.inj he)
        rw [← e]
        exact (btmMallocAt_kept hm).trans finish_kept

theorem cachePush_table : (cachePush cfg h p q).table = h.table := by
  unfold cachePush
  split <;> rfl

theorem freeSlot_kept {x : ℕ} (he : freeSlot cfg k t p x s = .ok (fl, s')) : CacheKept t s s' := by
  unfold freeSlot at he
  dsimp only at he
  cases ht : btmTlsGet k t s with
  | none =>
    rw [ht] at he
    cases he
    exact .setHeap btmPoolFreeOne_kept
  | some s1 =>
    rw [ht] at he
    dsimp only at he
    split at he
    · cases he
    · cases he
      exact (btmTlsGet_kept ht).trans (.trans (.setHeap (.of_table cachePush_table)) .setBin)

theorem btmFreeHead_kept (he : btmFreeHead cfg k t p s = .ok (fl, s')) : CacheKept t s s' := by
  by_cases hp : p = 0
  · rw [btmFreeHead, if_pos hp] at he
    cases he
    exact .refl
  · rw [btmFreeHead_eq hp] at he
    have h1 : CacheKept t s (btmResolveOwner t p s).2 := btmResolveOwner_kept
    generalize btmResolveOwner t p s = x at he h1
    obtain ⟨o, s1⟩ := x
    dsimp only at he h1
    split_ifs at he
    · cases he
      exact h1
    · cases hf : btmLargeFree k s1.heap (o - 1) with
      | error e =>
        rw [hf] at he
        cases he
      | ok g =>
        rw [hf] at he
        cases he
        exact h1.trans (.setHeap (btmLargeFree_kept hf))
    · exact h1.trans (freeSlot_kept he)

theorem memcpy_table {d : ℕ} : (h.memcpy d p n).table = h.table := rfl

theorem reallocMove_kept {np : ℕ} (he : reallocMove cfg k t p np n s = .ok (q, fl, s')) : CacheKept t s s' := by
  unfold reallocMove at he
  split at he
  · cases he
    exact .refl
  · cases hf : btmFreeHead cfg k t p (s.setHeap (s.heap.memcpy np p n)) with
    | error e =>
      rw [hf] at he
      cases he
    | ok x =>
      rw [hf] at he
      cases he
      exact (CacheKept.setHeap (.of_table memcpy_table)).trans (btmFreeHead_kept hf)

theorem reallocSmall_kept {x : ℕ} (he : reallocSmall cfg k t p size ra x s = .ok (q, fl, s')) : CacheKept t s s' := by
  unfold reallocSmall at he
  dsimp only at he
  split at he
  · cases he
    exact .refl
  · cases hm : btmMallocAt cfg k t size ra s with
    | error e =>
      rw [hm] at he
      cases he
    | ok y =>
      rw [hm] at he
      exact (btmMallocAt_kept hm).trans (reallocMove_kept he)

theorem reallocLarge_kept {b : ℕ} (he : reallocLarge cfg k t p size ra b s = .ok (q, fl, s')) : CacheKept t s s' := by
  unfold reallocLarge at he
  split at he
  · cases he
  · split at he
    · cases hm : btmMallocAt cfg k t size ra s with
      | error e =>
        rw [hm] at he
        cases he
      | ok y =>
        obtain ⟨np, s1⟩ := y
        rw [hm] at he
        dsimp only at he
        split at he
        · cases he
          exact btmMallocAt_kept hm
        · split at he
          · cases he
          next g hf =>
            cases he
            refine (btmMallocAt_kept hm).trans (.setHeap ?_)
            exact .trans (.of_table memcpy_table) (btmLargeFree_kept hf)
    · split at he
      · cases he
      next g hl =>
        cases he
        exact .setHeap (btmLargeRealloc_kept hl)

theorem btmReallocHead_kept (he : btmReallocHead cfg k t p size ra s = .ok (q, fl, s')) : CacheKept t s s' := by
  by_cases hp : p = 0
  · rw [btmReallocHead, if_pos hp] at he
    cases hm : btmMallocAt cfg k t size ra s with
    | error e =>
      rw [hm] at he
      cases he
    | ok x =>
      rw [hm] at he
      cases he
      exact btmMallocAt_kept hm
  · by_cases h0 : size = 0
    · subst h0
      rw [btmReallocHead_free hp] at he
      cases hf : btmFreeHead cfg k t p s with
      | error e =>
        rw [hf] at he
        cases he
      | ok x =>
        rw [hf] at he
        cases he
        exact btmFreeHead_kept hf
    · rw [btmReallocHead, if_neg hp, if_neg h0] at he
      have h1 : CacheKept t s (btmResolveOwner t p s).2 := btmResolveOwner_kept
      generalize btmResolveOwner t p s = x at he h1
      obtain ⟨o, s1⟩ := x
      dsimp only at he h1
      split_ifs at he
      · cases he
        exact h1
      · exact h1.trans (reallocSmall_kept he)
      · exact h1.trans (reallocLarge_kept he)

theorem flushBin_kept {i : ℕ} {q : PoolId} : CacheKept t s (flushBin cfg k t i q s) := by
  unfold flushBin
  have h1 : WordsKept s.heap (flushOne cfg k q ((s.threads t).bins i) s.heap).2 := flushOne_kept
  generalize flushOne cfg k q ((s.threads t).bins i) s.heap = x at h1
  obtain ⟨bin, g⟩ := x
  exact .trans (.setHeap h1) .setBin

/-- A step touches the cache of one thread only. -/
theorem step_kept (he : step cfg w act = some w') : ∃ t, CacheKept t w.sys w'.sys := by
  cases act with
  | alloc t c ra k =>
    simp only [step] at he
    split at he
    next hpre =>
      cases hr : c.run cfg k t ra w.sys with
      | error e =>
        simp only [hr] at he
        cases he
      | ok x =>
        simp only [hr] at he
        cases he
        rw [give_sys]
        exact ⟨t, Alloc.run_kept hpre.2 hr⟩
    next => cases he
  | realloc t p size ra k =>
    simp only [step] at he
    split at he
    next =>
      cases hr : btmReallocHead cfg k t p size ra w.sys with
      | error e =>
        simp only [hr] at he
        cases he
      | ok x =>
        simp only [hr] at he
        cases he
        exact ⟨t, (btmReallocHead_kept hr).trans .startFlush⟩
    next => cases he
  | free t p k =>
    simp only [step] at he
    split at he
    next =>
      cases hr : btmFreeHead cfg k t p w.sys with
      | error e =>
        simp only [hr] at he
        cases he
      | ok x =>
        simp only [hr] at he
        cases he
        exact ⟨t, (btmFreeHead_kept hr).trans .startFlush⟩
    next => cases he
  | flush t k =>
    simp only [step] at he
    split at he
    next =>
      split at he
      next => cases he
      next =>
        split at he
        · cases he
          exact ⟨t, flushBin_kept⟩
        · cases he
          exact ⟨t, .setPc⟩
    next => cases he
  | exit t =>
    simp only [step] at he
    split at he
    next =>
      cases he
      have K : CacheKept t w.sys (w.sys.modThread t fun x => { x with tls := false, pc := .exiting 0 }) :=
        .modThread fun _ => Or.inl rfl
      exact ⟨t, K⟩
    next => cases he
  | exitStep t k =>
    simp only [step] at he
    split at he
    next =>
      split at he
      next =>
        split at he
        next =>
          cases he
          exact ⟨t, .setPc⟩
        next =>
          split at he
          · cases he
            exact ⟨t, .setPc⟩
          · cases he
            exact ⟨t, flushBin_kept⟩
      next =>
        cases he
        exact ⟨t, .setPc⟩
    next => cases he
  | write p off b =>
    simp only [step] at he
    split at he
    next => cases he
    next =>
      split at he
      next =>
        cases he
        exact ⟨0, .setHeap (.of_table rfl)⟩
      next => cases he
  | compact k =>
    cases he
    exact ⟨0, .setHeap (.of_table btmCompact_table)⟩
  | bgStart =>
    cases he
    exact ⟨0, .setHeap (.of_table rfl)⟩
  | bg k ring =>
    simp only [step] at he
    split at he
    next =>
      split at he
      next g pc hb =>
        cases he
        exact ⟨0, .setHeap (bgStep_kept hb)⟩
      next => cases he
    next => cases he

/-! ## Runs -/

/-- What holds in every state: the region caches know of no region without owner, and some thread has not
    called the allocator. -/
structure CachesOk (s : Sys) : Prop where
  entry : ∀ t i, EntryOk s.heap ((s.threads t).rcache i)
  unused : ∃ N, ∀ t ≥ N, (s.threads t).tls = false

theorem CachesOk.step (C : CachesOk s) (K : CacheKept t s s') : CachesOk s' := by
  obtain ⟨N, hN⟩ := C.unused
  refine ⟨fun u i => ?_, max N (t + 1), fun u hu => ?_⟩
  · by_cases e : u = t
    · subst e
      exact K.entry (C.entry u) i
    · rw [K.other e]
      exact (C.entry u i).kept K.heap
  · rw [K.other (by omega)]
    exact hN u (by omega)

theorem caches_run {ok : World → Action → Prop} {acts : List Action}
    (hr : Transition.Run (step cfg) ok (World.start T) acts w) : CachesOk w.sys := by
  refine hr.invariant (fun w => CachesOk w.sys) (fun w act w' C _ he => ?_)
    ⟨fun _ _ => .zero, 0, fun _ _ => rfl⟩
  obtain ⟨t, K⟩ := step_kept he
  exact C.step K

/-! ## Pointers without an owner -/

theorem CachesOk.resolve_zero (C : CachesOk s) (h0 : btmRegistryLookup s.heap p = 0) :
    btmResolveOwner t p s = (0, s) := by
  unfold btmResolveOwner
  dsimp only
  split_ifs with htls hhit
  · obtain ⟨h1, h2, h3⟩ := hhit
    have := (C.entry t _).owner h2 h3
    rw [h1] at this
    exact absurd h0 this
  · rfl
  · rw [h0]

theorem CachesOk.ignored (C : CachesOk s) (hne : p ≠ 0) (h0 : btmRegistryLookup s.heap p = 0) :
    Ignored cfg s p := by
  refine ⟨fun k t => ?_, fun k t n ra hn => ?_, fun t => ?_⟩
  · rw [btmFree, btmFreeHead_eq hne, C.resolve_zero h0]
    rfl
  · rw [btmReallocAt, btmReallocHead, if_neg hne, if_neg (by omega), C.resolve_zero h0]
    rfl
  · rw [btmMallocUsableSize, if_neg hne, C.resolve_zero h0]
    rfl

/-- A flush does not take a thread's cache away. -/
theorem flushPending_tls : ((flushPending cfg k t s fl).threads t).tls = (s.threads t).tls := by
  cases fl with
  | none => rfl
  | some x =>
    obtain ⟨i, keep⟩ := x
    simp only [flushPending, Sys.setHeap, Sys.setBin, Sys.modThread, Function.update_self]

/-- `btm_free` of a pointer whose region has an owner, by a thread without a cache: the large object is
    unmapped, or the thread gets a cache. -/
theorem CachesOk.not_ignored (C : CachesOk s) (hne : p ≠ 0) (h0 : btmRegistryLookup s.heap p ≠ 0) :
    ∃ t, btmFree cfg Kernel.plain t p s ≠ .ok s := by
  obtain ⟨N, hN⟩ := C.unused
  have htls := hN N le_rfl
  have hres : btmResolveOwner N p s = (btmRegistryLookup s.heap p, s) := by
    rw [btmResolveOwner, if_neg (by rw [htls, Bool.and_false]; exact Bool.false_ne_true)]
  refine ⟨N, fun he => ?_⟩
  rw [btmFree, btmFreeHead_eq hne, hres] at he
  dsimp only at he
  rw [if_neg h0] at he
  generalize btmRegistryLookup s.heap p = o at he
  split_ifs at he with hodd
  · cases hf : btmLargeFree Kernel.plain s.heap (o - 1) with
    | error e =>
      rw [hf] at he
      cases he
    | ok g =>
      rw [hf] at he
      have hgen := btmLargeFree_gen hf
      have e : s.setHeap g = s := Except.ok.inj he
      have := congrArg (fun s : Sys => s.heap.registryGen) e
      simp only [Sys.setHeap] at this
      omega
  · have hget : btmTlsGet Kernel.plain N s = some (s.modThread N fun x =>
        { x with tls := true, bins := fun _ => Bin.zeroed, rcache := fun _ => ⟨0, 0, 0⟩ }) := by
      rw [btmTlsGet, if_neg (by rw [htls]; exact Bool.false_ne_true),
        if_pos (show Kernel.plain.tls = true from rfl)]
    rw [freeSlot, hget] at he
    dsimp only at he
    split_ifs at he
    all_goals
      have e := congrArg (fun s : Sys => (s.threads N).tls) (Except.ok.inj he)
      simp only [flushPending_tls, htls] at e
      simp [Sys.setBin, Sys.modThread, Sys.setHeap] at e

theorem SysRep.lookup_eq_zero {bg : BgPc} {L : Ledger} (R : SysRep cfg s bg L) (hp : p < 2 ^ 47)
    (hfree : RegionsFree s.heap p 1) : btmRegistryLookup s.heap p = 0 := by
  by_contra h0
  rw [btmRegistryLookup_eq] at h0
  have hkey : p / chunkSize < 2 ^ 27 := by
    rw [chunkSize_eq]
    omega
  exact R.rep.uncovered (hfree (p / chunkSize) (le_refl _) (le_refl _)) (R.rep.owner _ hkey h0)

/-- In every state of every run, with either table, a pointer is ignored if and only if the table has no owner
    for its 2 MiB region. It has none if nothing is mapped in the region, along every run on a kernel that keeps
    to a placement, in which no size wraps and no donor of a compaction has lent its pages. -/
theorem foreign_ignored {acts : List Action} (hT : T.Fresh) (hne : p ≠ 0)
    (hr : Transition.Run (step cfg) (fun _ _ => True) (World.start T) acts w) :
    (Ignored cfg w.sys p ↔ btmRegistryLookup w.sys.heap p = 0) ∧
      ∀ pl, Transition.Run (step cfg) (World.Meshes cfg pl) (World.start T) acts w → p < 2 ^ 47 →
        RegionsFree w.sys.heap p 1 → Ignored cfg w.sys p := by
  have C := caches_run hr
  refine ⟨⟨fun I => ?_, C.ignored hne⟩, fun pl hm hp hfree => ?_⟩
  · by_contra h0
    obtain ⟨t, ht⟩ : ∃ t, btmFree cfg Kernel.plain t p w.sys ≠ .ok w.sys := C.not_ignored hne h0
    exact ht (I.free Kernel.plain t)
  · obtain ⟨L, W, -⟩ := mesh_run hT hm
    exact C.ignored hne (W.sys.lookup_eq_zero hp hfree)

/-- The region behind the first one. -/
theorem foreign_ignored_next_region : Ignored Config.plain oneLargeWorld.sys 6291456 := by
  refine (foreign_ignored OwnerTable.fresh_radix (by decide) (oneLarge_run.mono fun _ _ _ => trivial)).2 .aligned
    (oneLarge_run.mono fun _ _ h => h.1) (by decide) fun key h1 h2 => ?_
  rw [chunkSize_eq] at h1 h2
  obtain rfl : key = 3 := by omega
  decide +kernel

/-- The object has the pages from 4 MiB on up to 4214784. A pointer at 5 MiB is in its region: `btm_free`
    of it unmaps the object, which its owner still has. -/
theorem foreign_frees_neighbour :
    Transition.exec (step Config.plain) World.init oneLarge = some oneLargeWorld ∧
      oneLargeWorld.sys.heap.mapped (5242880 / pageSize) = false ∧
      oneLargeWorld.live 4194336 = some 20000 ∧
      oneLargeWorld.sys.heap.mapped (4194336 / pageSize) = true ∧
      (∃ s, btmFree Config.plain Kernel.plain 0 5242880 oneLargeWorld.sys = .ok s ∧
        s.heap.mapped (4194336 / pageSize) = false) ∧
      btmMallocUsableSize 0 5242880 oneLargeWorld.sys ≠ .ok 0 := by
  have hrun : (Transition.exec (step Config.plain) World.init oneLarge).isSome = true ∧
      oneLargeWorld.sys.heap.mapped (5242880 / pageSize) = false ∧
      oneLargeWorld.live 4194336 = some 20000 ∧
      oneLargeWorld.sys.heap.mapped (4194336 / pageSize) = true ∧
      (btmFree Config.plain Kernel.plain 0 5242880 oneLargeWorld.sys).toOption.map
        (fun s => s.heap.mapped (4194336 / pageSize)) = some false ∧
      (btmMallocUsableSize 0 5242880 oneLargeWorld.sys).toOption ≠ some 0 := by decide +kernel
  obtain ⟨he, h1, h2, h3, h4, h5⟩ := hrun
  exact ⟨Transition.exec_eq_finish he, h1, h2, h3, ok_of_map h4, fun e => h5 (by rw [e]; rfl)⟩

end BtMalloc
