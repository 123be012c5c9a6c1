import BtMalloc.ForkLocks

/-!
# Proofs: mutexes across a fork

The allocator nests its sections in one order: the start lock, then a pool's lock, then the others.
A child in which every owner exists can therefore free every mutex from every state. The child's
handler leaves `registry_lock`, `memfd_lock` and `intern_lock` as they were, so the child has an
orphaned mutex exactly if one of them was taken.
-/

namespace BtMalloc.ForkLocks

open Locking Transition

variable {n : ℕ} {mesh : Bool} {s s' : State (Lock n)} {t : ℕ}

/-- The order in which sections nest. -/
def Lock.rank : Lock n → ℕ
  | bgStart => 1
  | pool _ => 2
  | bg | registry | memfd | intern => 3

theorem Lock.rank_le (l : Lock n) : l.rank ≤ 3 := by cases l <;> simp [rank]

theorem somePool_above {p : Fin n → Code n} {k : ℕ} (h : ∀ q, (p q).Above Lock.rank k) :
    (somePool p).Above Lock.rank k := by
  unfold somePool
  induction List.finRange n with
  | nil => trivial
  | cons q qs ih => exact ⟨h q, ih⟩

theorem eachPool_above {p : Fin n → Code n} {k : ℕ} (h : ∀ q, (p q).Above Lock.rank k) :
    (eachPool p).Above Lock.rank k := by
  unfold eachPool
  induction List.finRange n with
  | nil => trivial
  | cons q qs ih => exact ⟨h q, ih⟩

theorem mapFresh_above (mesh : Bool) : (mapFresh mesh : Code n).Above Lock.rank 2 := by
  cases mesh <;> simp [mapFresh, inMesh, opt, short, memfdAllocOff, memfdFreeOff, btmRegistryInsert,
    Prog.Above, Lock.rank]

theorem unmapChunk_above (mesh : Bool) : (unmapChunk mesh : Code n).Above Lock.rank 2 := by
  cases mesh <;> simp [unmapChunk, inMesh, short, memfdFreeOff, btmRegistryRemove, Prog.Above, Lock.rank]

theorem btmChunkObtain_above : (btmChunkObtain mesh : Code n).Above Lock.rank 2 := by
  have := mapFresh_above (n := n) mesh
  simp [btmChunkObtain, opt, short, bgSignal, Prog.Above, Lock.rank, this]

theorem btmChunkDispose_above : (btmChunkDispose mesh : Code n).Above Lock.rank 2 := by
  have := unmapChunk_above (n := n) mesh
  simp [btmChunkDispose, opt, short, Prog.Above, Lock.rank, this]

theorem btmPoolRefill_above (q : Fin n) : (btmPoolRefill mesh q).Above Lock.rank 1 :=
  ⟨by simp [Lock.rank], trivial, btmChunkObtain_above⟩

theorem btmPoolFlush_above (q : Fin n) : (btmPoolFlush mesh q).Above Lock.rank 1 :=
  ⟨by simp [Lock.rank], btmChunkDispose_above⟩

theorem btmPoolFreeOne_above (q : Fin n) : (btmPoolFreeOne mesh q).Above Lock.rank 1 :=
  ⟨by simp [Lock.rank], trivial, btmChunkDispose_above⟩

theorem btmMallocCached_above : (btmMallocCached mesh : Code n).Above Lock.rank 1 := by
  refine ⟨?_, ?_, trivial, somePool_above btmPoolRefill_above⟩ <;>
    simp [btmLargeAlloc, btmInternSlow, btmRegistryInsert, opt, short, Prog.Above, Lock.rank]

theorem btmFree_above : (btmFree mesh : Code n).Above Lock.rank 1 := by
  refine ⟨trivial, ?_, somePool_above btmPoolFlush_above, somePool_above btmPoolFreeOne_above⟩
  simp [btmLargeFree, btmRegistryRemove, short, Prog.Above, Lock.rank]

theorem btmMalloc_above : (btmMalloc mesh : Code n).Above Lock.rank 0 := by
  refine ⟨?_, ⟨trivial, trivial, ?_, btmMallocCached_above, btmFree_above⟩, ?_, trivial,
    somePool_above fun q => above_mono (by omega) (btmPoolRefill_above q)⟩ <;>
    simp [btmLargeAlloc, btmInternSlow, btmRegistryInsert, opt, short, Prog.Above, Lock.rank]

theorem Op.code_above (op : Op) : (op.code mesh : Code n).Above Lock.rank 0 := by
  have hfree : (btmFree mesh : Code n).Above Lock.rank 0 := above_mono (by omega) btmFree_above
  cases op with
  | malloc => exact btmMalloc_above
  | free => exact hfree
  | realloc =>
    refine ⟨⟨btmMalloc_above, hfree⟩, ⟨btmMalloc_above, trivial, hfree⟩, ?_⟩
    simp [btmLargeRealloc, btmRegistryInsert, btmRegistryRemove, opt, short, Prog.Above, Lock.rank]
  | compact => exact eachPool_above fun q => ⟨by simp [Lock.rank], trivial⟩
  | pageoutCold => exact eachPool_above fun q => ⟨by simp [Lock.rank], trivial⟩
  | tlsDestroy => exact eachPool_above fun q => ⟨trivial, above_mono (by omega) (btmPoolFlush_above q)⟩
  | bgMain =>
    have h1 := above_mono (k := 0) (by omega) (mapFresh_above (n := n) mesh)
    have h2 := above_mono (k := 0) (by omega) (unmapChunk_above (n := n) mesh)
    simp [Op.code, ForkLocks.bgMain, opt, short, Prog.Above, Lock.rank, h1, h2]

/-! ## Steps and runs -/

theorem owned_init : Owned Lock.rank (init : State (Lock n)) where
  ordered _ _ h := by cases h
  owner _ _ h := by cases h
  fresh _ _ := ⟨rfl, fun _ h => by cases h⟩

theorem step_cases {a : Action} (h : step mesh s a = some s') :
    (a = .spawn ∧ s' = s.spawn) ∨
    (∃ t, a = .exit t ∧ s.threads t = some [] ∧ s' = s.exit t) ∨
    (∃ t op, a = .call t op ∧ s.threads t = some [] ∧ s' = s.goto t [.run (op.code mesh)]) ∨
    (∃ t b, a = .next t b ∧ s.advance t b = some s') ∨
    ∃ t, a = .fork t ∧ s.threads t = some [] ∧ s' = s.fork t btmAtforkChild := by
  cases a with
  | spawn => exact Or.inl ⟨rfl, (Option.some.inj h).symm⟩
  | next t b => exact Or.inr (Or.inr (Or.inr (Or.inl ⟨t, b, rfl, h⟩)))
  | exit t =>
    simp only [step] at h
    split at h
    · exact Or.inr (Or.inl ⟨t, rfl, ‹_›, (Option.some.inj h).symm⟩)
    · cases h
  | call t op =>
    simp only [step] at h
    split at h
    · exact Or.inr (Or.inr (Or.inl ⟨t, op, rfl, ‹_›, (Option.some.inj h).symm⟩))
    · cases h
  | fork t =>
    simp only [step] at h
    split at h
    · exact Or.inr (Or.inr (Or.inr (Or.inr ⟨t, rfl, ‹_›, (Option.some.inj h).symm⟩)))
    · cases h

theorem owned_step {a : Action} (h : Owned Lock.rank s) (hst : step mesh s a = some s') :
    Owned Lock.rank s' := by
  obtain ⟨rfl, rfl⟩ | ⟨t, rfl, ht, rfl⟩ | ⟨t, op, rfl, ht, rfl⟩ | ⟨t, b, rfl, hst⟩ | ⟨t, rfl, ht, rfl⟩ :=
    step_cases hst
  · exact h.spawn
  · exact h.exit (h.lt_next ht)
  · exact h.goto ht ⟨op.code_above, trivial⟩ (by simp)
  · exact h.advance hst
  · exact h.fork ht _

theorem clean_iff : Clean s ↔ ∀ l, btmAtforkChild l = false → s.owner l = none := by
  constructor
  · rintro ⟨h1, h2, h3⟩ l hl
    cases l with
    | registry => exact h1
    | memfd => exact h2
    | intern => exact h3
    | _ => cases hl
  · exact fun h => ⟨h _ rfl, h _ rfl, h _ rfl⟩

theorem noOrphan_step {a : Action} (ho : Owned Lock.rank s) (h : NoOrphan s) (hok : ForksClean s a)
    (hst : step mesh s a = some s') : NoOrphan s' := by
  obtain ⟨rfl, rfl⟩ | ⟨t, rfl, ht, rfl⟩ | ⟨t, op, rfl, ht, rfl⟩ | ⟨t, b, rfl, hst⟩ | ⟨t, rfl, ht, rfl⟩ :=
    step_cases hst
  · intro l u hu
    by_cases e : u = s.next
    · simp [State.spawn, State.goto, e]
    · simpa [State.spawn, State.goto, e] using h l u hu
  · intro l u hu
    -- a thread outside of all sections owns nothing
    have hut : u ≠ t := by
      rintro rfl
      cases (ho.owner u [] ht l).mp hu
    simpa [State.exit, hut] using h l u hu
  · intro l u hu
    by_cases e : u = t
    · simp [State.goto, e]
    · simpa [State.goto, e] using h l u hu
  · exact h.advance hst
  · exact (ho.fork_noOrphan_iff ht _).mpr (clean_iff.mp hok)

/-- The steps of the threads alone are steps of the system. -/
theorem run_of_advances {ts : List ℕ}
    (h : Run (fun s t => State.advance s t false) (fun _ _ => True) s ts s') :
    Run (step mesh) (fun _ _ => True) s (ts.map (.next · false)) s' := by
  induction h with
  | nil s => exact .nil s
  | cons _ hst _ ih => exact .cons trivial hst ih

/-- In the child of a fork no mutex is owned by a thread that does not exist, and from every state the
    child reaches every mutex can become free, exactly if `registry_lock`, `memfd_lock` and
    `intern_lock` are free at the fork. -/
theorem fork_no_orphan_iff {as : List Action} (h : Run (step mesh) (fun _ _ => True) init as s)
    (ht : s.threads t = some []) :
    (NoOrphan (s.fork t btmAtforkChild) ∧
      ∀ bs s', Run (step mesh) ForksClean (s.fork t btmAtforkChild) bs s' →
        ∀ l, ∃ cs s'', Run (step mesh) (fun _ _ => True) s' cs s'' ∧ s''.owner l = none) ↔
      Clean s := by
  have hown : Owned Lock.rank s :=
    h.invariant (Owned Lock.rank) (fun _ _ _ I _ hst => owned_step I hst) owned_init
  have hiff := (hown.fork_noOrphan_iff ht btmAtforkChild).trans clean_iff.symm
  refine ⟨fun hc => hiff.mp hc.1, fun hc => ⟨hiff.mpr hc, fun bs s' hrun l => ?_⟩⟩
  have hs' : Owned Lock.rank s' ∧ NoOrphan s' :=
    hrun.invariant (fun s => Owned Lock.rank s ∧ NoOrphan s)
      (fun _ _ _ I hok hst => ⟨owned_step I.1 hst, noOrphan_step I.1 I.2 hok hst⟩)
      ⟨hown.fork ht _, hiff.mpr hc⟩
  obtain ⟨ts, s'', hr, hfree⟩ := exists_release Lock.rank_le hs'.1 hs'.2 l
  exact ⟨_, s'', run_of_advances hr, hfree⟩

/-! ## Two forks -/

/-- Thread 0 refills a bin and holds the pool's lock; thread 1 is in the client's code. -/
def refilling : List Action :=
  [.spawn, .spawn, .call 0 .malloc, .next 0 true, .next 0 false, .next 0 false, .next 0 false,
    .next 0 false, .next 0 false, .next 0 true, .next 0 false, .next 0 false]

/-- Thread 1 forks while thread 0 holds a pool's lock. -/
theorem fork_while_refilling :
    ∃ s, Run (step false) (fun _ _ => True) (init : State (Lock 1)) refilling s ∧
      s.owner (.pool 0) = some 0 ∧ NoOrphan (s.fork 1 btmAtforkChild) :=
  have hrun : Run (step false) (fun _ _ => True) (init : State (Lock 1)) refilling _ := run_of_exec rfl
  ⟨_, hrun, rfl, ((fork_no_orphan_iff (t := 1) hrun rfl).mpr ⟨rfl, rfl, rfl⟩).1⟩

/-- Thread 0 registers a large object. -/
def registering : List Action :=
  [.spawn, .spawn, .call 0 .malloc, .next 0 false, .next 0 true, .next 0 false]

theorem orphan_step {a : Action} {u : ℕ} (h : Owned Lock.rank s) (hr : s.owner .registry = some u)
    (hu : s.threads u = none) (hst : step mesh s a = some s') :
    s'.owner .registry = some u ∧ s'.threads u = none := by
  obtain ⟨rfl, rfl⟩ | ⟨t, rfl, ht, rfl⟩ | ⟨t, op, rfl, ht, rfl⟩ | ⟨t, b, rfl, hst⟩ | ⟨t, rfl, ht, rfl⟩ :=
    step_cases hst
  · have e : u ≠ s.next := fun e => (h.fresh u e.ge).2 _ hr
    exact ⟨hr, by simpa [State.spawn, State.goto, e] using hu⟩
  · refine ⟨hr, ?_⟩
    by_cases e : u = t
    · simp [State.exit, e]
    · simpa [State.exit, e] using hu
  · have e : u ≠ t := by rintro rfl; rw [hu] at ht; cases ht
    exact ⟨hr, by simpa [State.goto, e] using hu⟩
  · exact orphan_advance h hr hu hst
  · have e : u ≠ t := by rintro rfl; rw [hu] at ht; cases ht
    exact ⟨by simpa [State.fork, btmAtforkChild] using hr, by simp [State.fork, e]⟩

/-- Thread 1 forks while thread 0 holds `registry_lock`: the mutex stays taken in every run of the
    child, and a large allocation of the child waits for it. -/
theorem fork_while_registering :
    ∃ s, Run (step false) (fun _ _ => True) (init : State (Lock 1)) registering s ∧
      s.threads 1 = some [] ∧ ¬ NoOrphan (s.fork 1 btmAtforkChild) ∧
      (∀ bs s', Run (step false) (fun _ _ => True) (s.fork 1 btmAtforkChild) bs s' →
        s'.owner .registry = some 0) ∧
      ∃ s', Run (step false) (fun _ _ => True) (s.fork 1 btmAtforkChild)
          [.call 1 .malloc, .next 1 false, .next 1 true] s' ∧
        s'.threads 1 = some [.run (.withLock .registry .skip)] := by
  have hrun : Run (step false) (fun _ _ => True) (init : State (Lock 1)) registering _ :=
    run_of_exec rfl
  have hown := hrun.invariant (Owned Lock.rank) (fun _ _ _ I _ hst => owned_step I hst) owned_init
  refine ⟨_, hrun, rfl, fun h => h .registry 0 rfl rfl, fun bs s' h => ?_, _, run_of_exec rfl, rfl⟩
  have hinv := h.invariant
    (fun s => Owned Lock.rank s ∧ s.owner .registry = some 0 ∧ s.threads 0 = none)
    (fun _ _ _ I _ hst => ⟨owned_step I.1 hst, orphan_step I.1 I.2.1 I.2.2 hst⟩)
    ⟨hown.fork rfl _, rfl, rfl⟩
  exact hinv.2.1

end BtMalloc.ForkLocks
