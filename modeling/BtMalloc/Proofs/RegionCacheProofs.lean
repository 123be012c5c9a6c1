import BtMalloc.RegionCache
import BtMalloc.Proofs.OwnerEngineProofs

/-!
# Proofs: the region caches refine the owner table

An entry that carries the current generation names the owner the table has for its region, or a
removal has cleared the region and not bumped the generation yet. A call that no insertion or removal
of its region overlaps therefore answers as the table does.
-/

namespace BtMalloc.RegionCache

open Transition

variable {s s' : State} {t u : ℕ} {key : ℕ}

/-! ## The invariant -/

/-- The removal a thread is in has cleared region `key` and is not over. -/
def Pc.Dirty : Pc → ℕ → Prop
  | .bumping op, key => key ∈ regionKeys op.base op.len
  | .storing (.remove b n) keys, key => key ∈ regionKeys b n ∧ key ∉ keys
  | _, _ => False

def Dirty (s : State) (key : ℕ) : Prop := ∃ t, (s.threads t).pc.Dirty key

/-- What a thread knows when it has seen `owner` for `region` at generation `gen`. -/
def Valid (s : State) (region owner gen : ℕ) : Prop :=
  owner ≠ 0 → region < 2 ^ 27 ∧ gen ≤ s.heap.registryGen ∧
    (gen = s.heap.registryGen → ownerAt s.heap.owners region = owner ∨ Dirty s region)

/-- All regions of a call are ones that the table tells apart. -/
def Small (op : RegistryOp) : Prop := ∀ key ∈ regionKeys op.base op.len, key < 2 ^ 27

/-- What holds where thread `t` is. -/
def PcOk (s : State) (t : ℕ) : Pc → Prop
  | .idle => True
  | .done ptr _ => ptr >>> chunkShift < 2 ^ 27
  | .entered ptr | .direct ptr => ptr < 2 ^ 48
  | .loaded ptr gen | .missed ptr gen => ptr < 2 ^ 48 ∧ gen ≤ s.heap.registryGen
  | .found ptr gen owner => owner ≠ 0 ∧ Valid s (ptr >>> chunkShift) owner gen
  | .waiting op => Small op
  | .storing op keys => Small op ∧ s.lock = some t ∧ keys.Nodup ∧
      (∀ key ∈ keys, key ∈ regionKeys op.base op.len) ∧
      ∀ b n o, op = .insert b n o → ∀ key ∈ keys, ownerAt s.heap.owners key = 0 ∧ ¬ Dirty s key
  | .bumping op => Small op ∧ ∃ b n, op = .remove b n

/-- What holds of one thread. -/
structure ThreadOk (s : State) (t : ℕ) (x : Reader) : Prop where
  pc : PcOk s t x.pc
  entry : ∀ i, Valid s (x.rcache i).region (x.rcache i).owner (x.rcache i).gen

structure Inv (s : State) : Prop where
  gen : s.heap.registryGen = s.bumps
  thread : ∀ t, ThreadOk s t (s.threads t)

theorem Inv.init : Inv State.init :=
  ⟨rfl, fun _ => ⟨trivial, fun _ h => absurd rfl h⟩⟩

/-! ## What a step leaves to the other threads -/

/-- What the other threads rely on when thread `t` takes a step. -/
structure Frame (t : ℕ) (s s' : State) : Prop where
  other : ∀ u, u ≠ t → s'.threads u = s.threads u
  gen : s.heap.registryGen ≤ s'.heap.registryGen
  valid : ∀ {region owner gen}, Valid s region owner gen → Valid s' region owner gen
  storing : ∀ {u op keys}, u ≠ t → (s.threads u).pc = .storing op keys → s.lock = some u →
    s'.lock = some u ∧ s'.heap.owners = s.heap.owners ∧ ∀ key, Dirty s' key → Dirty s key

theorem Frame.inv (F : Frame t s s') (I : Inv s) (hg : s'.heap.registryGen = s'.bumps)
    (ht : ThreadOk s' t (s'.threads t)) : Inv s' := by
  refine ⟨hg, fun u => ?_⟩
  by_cases e : u = t
  · rw [e]
    exact ht
  · have old := I.thread u
    rw [F.other u e]
    refine ⟨?_, fun i => F.valid (old.entry i)⟩
    have hpc := old.pc
    cases h : (s.threads u).pc with
    | idle => trivial
    | done ptr owner => rw [h] at hpc; exact hpc
    | entered ptr => rw [h] at hpc; exact hpc
    | direct ptr => rw [h] at hpc; exact hpc
    | loaded ptr gen => rw [h] at hpc; exact ⟨hpc.1, hpc.2.trans F.gen⟩
    | missed ptr gen => rw [h] at hpc; exact ⟨hpc.1, hpc.2.trans F.gen⟩
    | found ptr gen owner => rw [h] at hpc; exact ⟨hpc.1, F.valid hpc.2⟩
    | waiting op => rw [h] at hpc; exact hpc
    | storing op keys =>
      rw [h] at hpc
      obtain ⟨h1, h2, h3, h4, h5⟩ := hpc
      obtain ⟨f1, f2, f3⟩ := F.storing e h h2
      refine ⟨h1, f1, h3, h4, fun b n o ho key hk => ?_⟩
      obtain ⟨g1, g2⟩ := h5 b n o ho key hk
      exact ⟨by rw [f2]; exact g1, fun hd => g2 (f3 key hd)⟩
    | bumping op => rw [h] at hpc; exact hpc

/-- The regions that are dirty change with the thread's own point only. -/
theorem dirty_iff (ho : ∀ u, u ≠ t → s'.threads u = s.threads u)
    (hd : (s'.threads t).pc.Dirty key ↔ (s.threads t).pc.Dirty key) : Dirty s' key ↔ Dirty s key := by
  constructor
  · rintro ⟨u, hu⟩
    by_cases e : u = t
    · subst e
      exact ⟨u, hd.mp hu⟩
    · rw [ho u e] at hu
      exact ⟨u, hu⟩
  · rintro ⟨u, hu⟩
    by_cases e : u = t
    · subst e
      exact ⟨u, hd.mpr hu⟩
    · rw [← ho u e] at hu
      exact ⟨u, hu⟩

theorem mod_other {f : Reader → Reader} (u : ℕ) (hu : u ≠ t) : (s.mod t f).threads u = s.threads u :=
  Function.update_of_ne hu ..

@[simp] theorem mod_self {f : Reader → Reader} : (s.mod t f).threads t = f (s.threads t) :=
  Function.update_self ..

theorem goto_self (s : State) (t : ℕ) (pc : Pc) :
    (s.goto t pc).threads t = { s.threads t with pc := pc } := mod_self

theorem goto_other (s : State) (t : ℕ) (pc : Pc) (u : ℕ) (hu : u ≠ t) :
    (s.goto t pc).threads u = s.threads u := mod_other u hu

/-- A step that changes nothing but the thread itself. -/
theorem frame_mod {f : Reader → Reader}
    (hd : ∀ key, (f (s.threads t)).pc.Dirty key ↔ (s.threads t).pc.Dirty key) :
    Frame t s (s.mod t f) := by
  have hdirty : ∀ key, Dirty (s.mod t f) key ↔ Dirty s key :=
    fun key => dirty_iff mod_other (by rw [mod_self]; exact hd key)
  refine ⟨mod_other, le_refl _, fun hv ho => ?_, fun _ _ hl => ⟨hl, rfl, fun key => (hdirty key).mp⟩⟩
  obtain ⟨h1, h2, h3⟩ := hv ho
  exact ⟨h1, h2, fun e => (h3 e).imp id (hdirty _).mpr⟩

/-- A step that only moves the thread on. -/
theorem Inv.goto (I : Inv s) {pc : Pc} (hd : ∀ key, pc.Dirty key ↔ (s.threads t).pc.Dirty key)
    (hpc : PcOk (s.goto t pc) t pc) : Inv (s.goto t pc) := by
  have F : Frame t s (s.goto t pc) := frame_mod hd
  refine F.inv I I.gen ?_
  rw [State.goto, mod_self]
  exact ⟨hpc, fun i => F.valid ((I.thread t).entry i)⟩

/-! ## The steps of `btm_resolve_owner` -/

theorem key_lt_of_ptr {ptr : ℕ} (h : ptr < 2 ^ 48) : ptr >>> chunkShift < 2 ^ 27 := by
  rw [show ptr >>> chunkShift = ptr / 2 ^ 21 from Nat.shiftRight_eq_div_pow ptr 21]
  omega

/-- A step of a call to `btm_resolve_owner` keeps the invariant. -/
theorem Inv.resolve (I : Inv s) {k : Kernel} (hst : advance k s t (s.threads t).pc = some s')
    (hop : (s.threads t).pc.op = none) : Inv s' := by
  have hpc := (I.thread t).pc
  cases h : (s.threads t).pc with
  | idle => rw [h] at hst; cases hst
  | entered ptr =>
    rw [h] at hst hpc
    simp only [advance, Option.some.injEq] at hst
    subst hst
    split_ifs
    · exact I.goto (by simp [h, Pc.Dirty]) ⟨hpc, le_refl _⟩
    · exact I.goto (by simp [h, Pc.Dirty]) hpc
  | direct ptr =>
    rw [h] at hst hpc
    simp only [advance, Option.some.injEq] at hst
    subst hst
    exact I.goto (by simp [h, Pc.Dirty]) (key_lt_of_ptr hpc)
  | loaded ptr gen =>
    rw [h] at hst hpc
    simp only [advance, Option.some.injEq] at hst
    subst hst
    split_ifs
    · exact I.goto (by simp [h, Pc.Dirty]) (key_lt_of_ptr hpc.1)
    · exact I.goto (by simp [h, Pc.Dirty]) hpc
  | missed ptr gen =>
    rw [h] at hst hpc
    simp only [advance, Option.some.injEq] at hst
    subst hst
    split_ifs with h0
    · exact I.goto (by simp [h, Pc.Dirty]) (key_lt_of_ptr hpc.1)
    · refine I.goto (by simp [h, Pc.Dirty]) ⟨h0, fun _ => ⟨key_lt_of_ptr hpc.1, hpc.2, fun _ => ?_⟩⟩
      exact Or.inl rfl
  | found ptr gen owner =>
    rw [h] at hst hpc
    simp only [advance, Option.some.injEq] at hst
    subst hst
    have F : Frame t s (s.mod t fun x => { x with
        rcache := Function.update x.rcache (entryIdx (ptr >>> chunkShift))
          ⟨ptr >>> chunkShift, owner, gen⟩
        pc := .done ptr owner }) := frame_mod (by simp [h, Pc.Dirty])
    refine F.inv I I.gen ?_
    rw [mod_self]
    refine ⟨(hpc.2 hpc.1).1, fun i => F.valid ?_⟩
    by_cases e : i = entryIdx (ptr >>> chunkShift)
    · subst e
      simpa using hpc.2
    · simpa [e] using (I.thread t).entry i
  | done ptr owner =>
    rw [h] at hst
    simp only [advance, Option.some.injEq] at hst
    subst hst
    exact I.goto (by simp [h, Pc.Dirty]) trivial
  | waiting op => rw [h] at hop; cases hop
  | storing op keys => rw [h] at hop; cases hop
  | bumping op => rw [h] at hop; cases hop

/-! ## The steps of insertions and removals -/

/-- A step that takes or drops the lock. -/
theorem frame_lock {s1 : State} (ho : ∀ u, u ≠ t → s1.threads u = s.threads u)
    (hh : s1.heap = s.heap) (hd : ∀ key, (s1.threads t).pc.Dirty key ↔ (s.threads t).pc.Dirty key)
    (hlock : ∀ u, u ≠ t → s.lock ≠ some u) : Frame t s s1 := by
  have hdirty : ∀ key, Dirty s1 key ↔ Dirty s key := fun key => dirty_iff ho (hd key)
  refine ⟨ho, by rw [hh], fun hv hne => ?_, fun hu _ hl => absurd hl (hlock _ hu)⟩
  obtain ⟨h1, h2, h3⟩ := hv hne
  rw [hh]
  exact ⟨h1, h2, fun e => (h3 e).imp id (hdirty _).mpr⟩

/-- The thread gets the lock. -/
theorem Inv.lock (I : Inv s) {op : RegistryOp} (h : (s.threads t).pc = .waiting op)
    (hfree : s.lock = none)
    (hok : ∀ b n o, op = .insert b n o → ∀ key ∈ regionKeys b n,
      ownerAt s.heap.owners key = 0 ∧ ¬ Unfinished s key) :
    Inv { s.goto t (.storing op (regionKeys op.base op.len)) with lock := some t } := by
  have hpc := (I.thread t).pc
  rw [h] at hpc
  have hnone : ∀ key, ¬ Pc.Dirty (.storing op (regionKeys op.base op.len)) key := by
    intro key
    cases op <;> simp [Pc.Dirty, RegistryOp.base, RegistryOp.len]
  -- nobody is in the loop, so what is dirty is a removal that has dropped the lock
  have hunf : ∀ key, Dirty s key → Unfinished s key := by
    rintro key ⟨u, hu⟩
    have hu' := (I.thread u).pc
    cases hp : (s.threads u).pc with
    | bumping op' =>
      rw [hp] at hu
      exact ⟨u, op', hp, hu⟩
    | storing op' keys =>
      rw [hp] at hu'
      have := hu'.2.1
      rw [hfree] at this
      cases this
    | _ => rw [hp] at hu; exact hu.elim
  have hself := goto_self s t (.storing op (regionKeys op.base op.len))
  have hother := goto_other s t (.storing op (regionKeys op.base op.len))
  have hdirty : ∀ key, Pc.Dirty (.storing op (regionKeys op.base op.len)) key ↔
      (s.threads t).pc.Dirty key := by
    intro key
    rw [h]
    exact ⟨fun hd => absurd hd (hnone key), fun hd => hd.elim⟩
  have F : Frame t s { s.goto t (.storing op (regionKeys op.base op.len)) with lock := some t } :=
    frame_lock hother rfl (by dsimp only; rw [hself]; exact hdirty) (by simp [hfree])
  refine F.inv I I.gen ?_
  dsimp only
  rw [hself]
  refine ⟨⟨hpc, rfl, List.nodup_range' .., fun _ hk => hk, fun b n o ho key hk => ?_⟩,
    fun i => F.valid ((I.thread t).entry i)⟩
  subst ho
  obtain ⟨g1, g2⟩ := hok b n o rfl key hk
  refine ⟨g1, fun hd => g2 (hunf key ?_)⟩
  exact (dirty_iff hother (by rw [hself]; exact hdirty key)).mp hd

/-- The thread drops the lock. -/
theorem Inv.unlock (I : Inv s) {op : RegistryOp} {pc : Pc} (h : (s.threads t).pc = .storing op [])
    (hd : ∀ key, pc.Dirty key ↔ (s.threads t).pc.Dirty key)
    (hpc : PcOk { s.goto t pc with lock := none } t pc) : Inv { s.goto t pc with lock := none } := by
  have hl := (I.thread t).pc
  rw [h] at hl
  have hself := goto_self s t pc
  have F : Frame t s { s.goto t pc with lock := none } := by
    refine frame_lock (goto_other s t pc) rfl (by dsimp only; rw [hself]; exact hd) (fun u hu e => ?_)
    rw [hl.2.1] at e
    exact hu (Option.some.inj e).symm
  refine F.inv I I.gen ?_
  dsimp only
  rw [hself]
  exact ⟨hpc, fun i => F.valid ((I.thread t).entry i)⟩

/-- The thread stores the owner of one region. -/
theorem Inv.store (I : Inv s) {op : RegistryOp} {keys : List ℕ} {k : Kernel}
    (h : (s.threads t).pc = .storing op (key :: keys)) :
    Inv { s.goto t (.storing op keys) with heap := registrySetLocked k op.owner s.heap key } := by
  have hpc := (I.thread t).pc
  rw [h] at hpc
  obtain ⟨hsmall, hlock, hnd, hsub, hfresh⟩ := hpc
  obtain ⟨hnot, hnd'⟩ := List.nodup_cons.mp hnd
  have hmem := hsub key (List.mem_cons_self ..)
  obtain ⟨T', e, hst⟩ := registrySetLocked_spec k s.heap op.owner (hsmall key hmem)
  rw [e]
  have hself := goto_self s t (.storing op keys)
  have hother := goto_other s t (.storing op keys)
  set s1 : State := { s.goto t (.storing op keys) with heap := { s.heap with owners := T' } } with hs1
  have hself1 : s1.threads t = { s.threads t with pc := .storing op keys } := hself
  have hdirty : ∀ x, Dirty s x → Dirty s1 x := by
    rintro x ⟨u, hu⟩
    by_cases eu : u = t
    · subst eu
      refine ⟨u, ?_⟩
      rw [hself1]
      rw [h] at hu
      cases op with
      | insert b n o => exact hu.elim
      | remove b n => exact ⟨hu.1, fun hx => hu.2 (List.mem_cons_of_mem _ hx)⟩
    · exact ⟨u, by rw [show s1.threads u = s.threads u from hother u eu]; exact hu⟩
  have hvalid : ∀ {region owner gen}, Valid s region owner gen → Valid s1 region owner gen := by
    intro region owner gen hv hne
    obtain ⟨h1, h2, h3⟩ := hv hne
    refine ⟨h1, h2, fun eg => ?_⟩
    by_cases er : region = key
    · subst er
      cases op with
      | insert b n o =>
        -- the region had no owner and was clean
        obtain ⟨g1, g2⟩ := hfresh b n o rfl region (List.mem_cons_self ..)
        rcases h3 eg with h3 | h3
        · exact absurd (h3.symm.trans g1) hne
        · exact absurd h3 g2
      | remove b n =>
        refine Or.inr ⟨t, ?_⟩
        rw [hself1]
        exact ⟨hmem, hnot⟩
    · refine (h3 eg).imp (fun hr => ?_) (hdirty region)
      exact (hst.other h1 (by simpa using er)).trans hr
  have F : Frame t s s1 := by
    refine ⟨hother, le_refl _, hvalid, fun hu _ hl => ?_⟩
    rw [hlock] at hl
    exact absurd (Option.some.inj hl).symm hu
  refine F.inv I I.gen ?_
  rw [hself1]
  refine ⟨⟨hsmall, hlock, hnd', fun x hx => hsub x (List.mem_cons_of_mem _ hx),
    fun b n o ho x hx => ?_⟩, fun i => F.valid ((I.thread t).entry i)⟩
  obtain ⟨g1, g2⟩ := hfresh b n o ho x (List.mem_cons_of_mem _ hx)
  have hne : x ≠ key := fun ex => hnot (ex ▸ hx)
  have hx27 : x < 2 ^ 27 := hsmall x (hsub x (List.mem_cons_of_mem _ hx))
  refine ⟨(hst.other hx27 (by simpa using hne)).trans g1, fun hd => g2 ?_⟩
  refine (dirty_iff hother ?_).mp hd
  rw [hself1, h, ho]
  exact Iff.rfl

/-- A removal bumps the generation, so nothing cached before counts any more. -/
theorem Inv.bump (I : Inv s) {op : RegistryOp} (h : (s.threads t).pc = .bumping op)
    (hb : s.bumps + 1 < 2 ^ 64) :
    Inv { s.goto t .idle with
      heap := { s.heap with registryGen := (s.heap.registryGen + 1) % 2 ^ 64 }
      bumps := s.bumps + 1 } := by
  have hgen : (s.heap.registryGen + 1) % 2 ^ 64 = s.heap.registryGen + 1 := by
    rw [I.gen]
    exact Nat.mod_eq_of_lt hb
  rw [hgen]
  have hself := goto_self s t .idle
  have hother := goto_other s t .idle
  set s1 : State := { s.goto t .idle with
    heap := { s.heap with registryGen := s.heap.registryGen + 1 }, bumps := s.bumps + 1 } with hs1
  have hself1 : s1.threads t = { s.threads t with pc := .idle } := hself
  have hvalid : ∀ {region owner gen}, Valid s region owner gen → Valid s1 region owner gen := by
    intro region owner gen hv hne
    obtain ⟨h1, h2, -⟩ := hv hne
    refine ⟨h1, h2.trans (Nat.le_succ _), fun eg => ?_⟩
    rw [show s1.heap.registryGen = s.heap.registryGen + 1 from rfl] at eg
    omega
  have F : Frame t s s1 := by
    refine ⟨hother, Nat.le_succ _, hvalid, fun hu _ hl => ⟨hl, rfl, ?_⟩⟩
    rintro x ⟨u, hu⟩
    by_cases eu : u = t
    · subst eu
      rw [hself1] at hu
      exact hu.elim
    · rw [show s1.threads u = s.threads u from hother u eu] at hu
      exact ⟨u, hu⟩
  refine F.inv I ?_ ?_
  · show s.heap.registryGen + 1 = s.bumps + 1
    rw [I.gen]
  · rw [hself1]
    exact ⟨trivial, fun i => F.valid ((I.thread t).entry i)⟩

/-! ## Every run -/

/-- The number of removals only grows. -/
theorem bumps_le {a : Action} (hst : step s a = some s') : s.bumps ≤ s'.bumps := by
  cases a with
  | call t ptr =>
    simp only [step] at hst
    split at hst <;> cases hst
    exact le_refl _
  | start t op =>
    simp only [step] at hst
    split at hst <;> cases hst
    exact le_refl _
  | attach t =>
    simp only [step] at hst
    split at hst
    · split at hst <;> cases hst
      exact le_refl _
    · cases hst
  | detach t =>
    simp only [step] at hst
    split at hst <;> cases hst
    exact le_refl _
  | next t k =>
    simp only [step] at hst
    unfold advance at hst
    split at hst <;> grind [State.goto, State.mod]

theorem Inv.advance (I : Inv s) {k : Kernel} (hok : InsertsFresh s (.next t k))
    (hst : advance k s t (s.threads t).pc = some s') (hb : s'.bumps < 2 ^ 64) : Inv s' := by
  cases h : (s.threads t).pc with
  | waiting op =>
    rw [h] at hst
    simp only [RegionCache.advance] at hst
    split at hst
    next hfree =>
      cases hst
      exact I.lock h hfree (fun b n o ho => hok b n o (by rw [h, ho]))
    next => cases hst
  | storing op keys =>
    rw [h] at hst
    cases keys with
    | cons key keys =>
      simp only [RegionCache.advance, Option.some.injEq] at hst
      subst hst
      exact I.store h
    | nil =>
      have hpc := (I.thread t).pc
      rw [h] at hpc
      cases op with
      | insert b n o =>
        simp only [RegionCache.advance, Option.some.injEq] at hst
        subst hst
        exact I.unlock h (by simp [h, Pc.Dirty]) trivial
      | remove b n =>
        simp only [RegionCache.advance, Option.some.injEq] at hst
        subst hst
        exact I.unlock h (by simp [h, Pc.Dirty, RegistryOp.base, RegistryOp.len]) ⟨hpc.1, b, n, rfl⟩
  | bumping op =>
    rw [h] at hst
    simp only [RegionCache.advance, Option.some.injEq] at hst
    subst hst
    exact I.bump h hb
  | _ => exact I.resolve hst (by rw [h]; rfl)

/-- Every step keeps the invariant. -/
theorem Inv.step {a : Action} (I : Inv s) (hok : InsertsFresh s a) (hd : Distinguished a)
    (hst : step s a = some s') (hb : s'.bumps < 2 ^ 64) : Inv s' := by
  cases a with
  | call t ptr =>
    simp only [RegionCache.step] at hst
    split at hst
    next h =>
      cases hst
      exact I.goto (by simp [h, Pc.Dirty]) hd
    next => cases hst
  | start t op =>
    simp only [RegionCache.step] at hst
    split at hst
    next h =>
      cases hst
      exact I.goto (by simp [h, Pc.Dirty]) hd
    next => cases hst
  | next t k => exact I.advance hok hst hb
  | attach t =>
    simp only [RegionCache.step] at hst
    split at hst
    next h =>
      split at hst
      next => cases hst
      next =>
        cases hst
        refine (frame_mod (by simp [h, Pc.Dirty])).inv I I.gen ?_
        rw [mod_self]
        exact ⟨by rw [h]; trivial, fun _ h0 => absurd rfl h0⟩
    next => cases hst
  | detach t =>
    simp only [RegionCache.step] at hst
    split at hst
    next h =>
      cases hst
      have F : Frame t s (s.mod t fun x => { x with tls := false }) := frame_mod (by simp [h, Pc.Dirty])
      refine F.inv I I.gen ?_
      rw [mod_self]
      exact ⟨by rw [h]; trivial, fun i => F.valid ((I.thread t).entry i)⟩
    next => cases hst

variable {ok : State → Action → Prop} {as : List Action}

theorem inv_of_run (h : Run step ok s as s') (hok : ∀ s a, ok s a → InsertsFresh s a ∧ Distinguished a)
    (I : Inv s) (hb : s'.bumps < 2 ^ 64) : Inv s' := by
  refine h.invariant (fun s => s.bumps < 2 ^ 64 → Inv s) (fun s a s1 hI ha hst hb1 => ?_)
    (fun _ => I) hb
  obtain ⟨h1, h2⟩ := hok s a ha
  exact (hI (lt_of_le_of_lt (bumps_le hst) hb1)).step h1 h2 hst hb1

/-! ## A call while its region is quiet -/

theorem Quiet.not_dirty (h : Quiet key s) : ¬ Dirty s key := by
  rintro ⟨t, hd⟩
  cases hp : (s.threads t).pc with
  | bumping op =>
    rw [hp] at hd
    exact h t op (by rw [hp]; rfl) hd
  | storing op keys =>
    rw [hp] at hd
    cases op with
    | insert b n o => exact hd
    | remove b n => exact h t (.remove b n) (by rw [hp]; rfl) hd.1
  | _ => rw [hp] at hd; exact hd

/-- What thread `t` has read of region `key` is what the table has. -/
def Seen (s : State) (key : ℕ) (x : Reader) : Pc → Prop
  | .loaded ptr gen => ptr >>> chunkShift = key → (x.rcache (entryIdx key)).region = key →
      (x.rcache (entryIdx key)).gen = gen → (x.rcache (entryIdx key)).owner ≠ 0 →
      (x.rcache (entryIdx key)).owner = ownerAt s.heap.owners key
  | .found ptr _ owner | .done ptr owner => ptr >>> chunkShift = key →
      owner = ownerAt s.heap.owners key
  | _ => True

/-- While a region is quiet its entry in the table stays. -/
theorem Quiet.radix {a : Action} (h : Quiet key s) (I : Inv s) (hk : key < 2 ^ 27)
    (hst : step s a = some s') : ownerAt s'.heap.owners key = ownerAt s.heap.owners key := by
  cases a with
  | next t k =>
    cases hp : (s.threads t).pc with
    | storing op keys =>
      simp only [step, hp] at hst
      cases keys with
      | cons x keys =>
        have hpc := (I.thread t).pc
        rw [hp] at hpc
        have hx := hpc.2.2.2.1 x (List.mem_cons_self ..)
        simp only [advance, Option.some.injEq] at hst
        subst hst
        obtain ⟨T', e, hs⟩ := registrySetLocked_spec k s.heap op.owner (hpc.1 x hx)
        have hne : key ≠ x := fun e => h t op (by rw [hp]; rfl) (e ▸ hx)
        show ownerAt (registrySetLocked k op.owner s.heap x).owners key = _
        rw [e]
        exact hs.other hk (by simpa using hne)
      | nil => cases op <;> cases hst <;> rfl
    | waiting op =>
      simp only [step, hp, advance] at hst
      split at hst <;> cases hst
      rfl
    | idle => simp only [step, hp, advance, reduceCtorEq] at hst
    | _ => simp only [step, hp, advance, Option.some.injEq] at hst; subst hst; rfl
  | attach t =>
    simp only [step] at hst
    split at hst
    · split at hst <;> cases hst
      rfl
    · cases hst
  | _ =>
    simp only [step] at hst
    split at hst <;> cases hst
    rfl

/-- A step changes one thread. -/
theorem step_threads {a : Action} (hst : step s a = some s') :
    ∃ x, s'.threads = Function.update s.threads a.thread x := by
  cases a with
  | next t k =>
    simp only [step] at hst
    cases hp : (s.threads t).pc with
    | idle => rw [hp] at hst; cases hst
    | waiting op =>
      simp only [hp, advance] at hst
      split at hst <;> cases hst
      exact ⟨_, rfl⟩
    | storing op keys =>
      rw [hp] at hst
      cases keys with
      | cons key keys => cases hst; exact ⟨_, rfl⟩
      | nil => cases op <;> cases hst <;> exact ⟨_, rfl⟩
    | _ => rw [hp] at hst; cases hst; exact ⟨_, rfl⟩
  | attach t =>
    simp only [step] at hst
    split at hst
    · split at hst <;> cases hst
      exact ⟨_, rfl⟩
    · cases hst
  | _ =>
    simp only [step] at hst
    split at hst <;> cases hst
    exact ⟨_, rfl⟩

theorem step_other {a : Action} (hst : step s a = some s') (hu : u ≠ a.thread) :
    s'.threads u = s.threads u := by
  obtain ⟨x, hx⟩ := step_threads hst
  rw [hx, Function.update_of_ne hu]

/-- A step of the thread itself keeps what it has seen. -/
theorem Seen.self {a : Action} (h : Seen s key (s.threads t) (s.threads t).pc) (I : Inv s)
    (hq : Quiet key s) (hr : ownerAt s'.heap.owners key = ownerAt s.heap.owners key)
    (hst : step s a = some s') (ha : a.thread = t) :
    Seen s' key (s'.threads t) (s'.threads t).pc := by
  subst ha
  cases a with
  | next t k =>
    simp only [Action.thread] at h ⊢
    simp only [step] at hst
    cases hp : (s.threads t).pc with
    | idle => rw [hp] at hst; cases hst
    | entered ptr =>
      simp only [hp, advance, Option.some.injEq] at hst
      subst hst
      rw [goto_self]
      dsimp only
      split_ifs
      · intro hk hreg hgen hne
        obtain ⟨-, -, hv⟩ := (I.thread t).entry (entryIdx key) hne
        rw [hreg] at hv
        exact ((hv hgen).resolve_right hq.not_dirty).symm
      · trivial
    | direct ptr =>
      simp only [hp, advance, Option.some.injEq] at hst
      subst hst
      rw [goto_self]
      intro hk
      rw [← hk]
      rfl
    | loaded ptr gen =>
      rw [hp] at h
      simp only [hp, advance, Option.some.injEq] at hst
      subst hst
      rw [goto_self]
      dsimp only
      split_ifs with hc
      · intro hk
        rw [hk] at hc ⊢
        exact h hk hc.1 hc.2.1 hc.2.2
      · trivial
    | missed ptr gen =>
      simp only [hp, advance, Option.some.injEq] at hst
      subst hst
      rw [goto_self]
      dsimp only
      split_ifs with hc
      · intro hk
        rw [← hk]
        exact hc.symm
      · intro hk
        rw [← hk]
        rfl
    | found ptr gen owner =>
      rw [hp] at h
      simp only [hp, advance, Option.some.injEq] at hst
      subst hst
      rw [mod_self]
      exact h
    | done ptr owner =>
      simp only [hp, advance, Option.some.injEq] at hst
      subst hst
      rw [goto_self]
      trivial
    | waiting op =>
      simp only [hp, advance] at hst
      split at hst <;> cases hst
      rw [show _ = _ from goto_self s t _]
      trivial
    | storing op keys =>
      rw [hp] at hst
      cases keys with
      | cons x keys =>
        cases hst
        rw [show _ = _ from goto_self s t (.storing op keys)]
        trivial
      | nil =>
        cases op with
        | insert b n o =>
          cases hst
          rw [show _ = _ from goto_self s t .idle]
          trivial
        | remove b n =>
          cases hst
          rw [show _ = _ from goto_self s t (.bumping (.remove b n))]
          trivial
    | bumping op =>
      rw [hp] at hst
      cases hst
      rw [show _ = _ from goto_self s t .idle]
      trivial
  | call t ptr =>
    simp only [step] at hst
    split at hst <;> cases hst
    rw [Action.thread, goto_self]
    trivial
  | start t op =>
    simp only [step] at hst
    split at hst <;> cases hst
    rw [Action.thread, goto_self]
    trivial
  | attach t =>
    simp only [step] at hst
    split at hst
    next hp =>
      split at hst <;> cases hst
      rw [Action.thread, mod_self, hp]
      trivial
    next => cases hst
  | detach t =>
    simp only [step] at hst
    split at hst
    next hp =>
      cases hst
      rw [Action.thread, mod_self, hp]
      trivial
    next => cases hst

theorem Seen.congr {x : Reader} {pc : Pc} (h : Seen s key x pc)
    (hr : ownerAt s'.heap.owners key = ownerAt s.heap.owners key) : Seen s' key x pc := by
  cases pc with
  | loaded ptr gen => exact fun h1 h2 h3 h4 => (h h1 h2 h3 h4).trans hr.symm
  | found ptr gen owner => exact fun h1 => (h h1).trans hr.symm
  | done ptr owner => exact fun h1 => (h h1).trans hr.symm
  | _ => trivial

/-- Any step keeps what a thread has seen of a quiet region. -/
theorem Seen.step {a : Action} (h : Seen s key (s.threads t) (s.threads t).pc) (I : Inv s)
    (hq : Quiet key s) (hk : key < 2 ^ 27) (hst : step s a = some s') :
    Seen s' key (s'.threads t) (s'.threads t).pc := by
  have hr := hq.radix I hk hst
  by_cases e : t = a.thread
  · exact h.self I hq hr hst e.symm
  · rw [step_other hst e]
    exact h.congr hr

/-- **The region cache refines the owner table.** A call of `btm_resolve_owner` that no insertion or
    removal covering the pointer's region overlaps returns what `btm_registry_lookup` returns, all
    through the call. -/
theorem resolve_owner_eq_lookup {s0 s1 : State} {as bs : List Action} {t ptr owner : ℕ}
    (h0 : Run step (fun s a => InsertsFresh s a ∧ Distinguished a) State.init as s0)
    (hidle : (s0.threads t).pc = .idle)
    (h1 : Run step (fun s a => (InsertsFresh s a ∧ Distinguished a) ∧ Quiet (ptr >>> chunkShift) s)
      s0 bs s1)
    (hdone : (s1.threads t).pc = .done ptr owner) (hb : s1.bumps < 2 ^ 64) :
    owner = btmRegistryLookup s1.heap ptr ∧
      btmRegistryLookup s1.heap ptr = btmRegistryLookup s0.heap ptr := by
  have hle : s0.bumps ≤ s1.bumps :=
    h1.invariant (fun s => s0.bumps ≤ s.bumps) (fun _ _ _ h _ hst => h.trans (bumps_le hst)) le_rfl
  have I0 : Inv s0 := inv_of_run h0 (fun _ _ h => h) Inv.init (lt_of_le_of_lt hle hb)
  have I1 : Inv s1 := inv_of_run h1 (fun _ _ h => h.1) I0 hb
  have hk : ptr >>> chunkShift < 2 ^ 27 := by
    have := (I1.thread t).pc
    rwa [hdone] at this
  have hseen := h1.invariant
    (fun s => s.bumps < 2 ^ 64 → Inv s ∧
      ownerAt s.heap.owners (ptr >>> chunkShift) = ownerAt s0.heap.owners (ptr >>> chunkShift) ∧
      Seen s (ptr >>> chunkShift) (s.threads t) (s.threads t).pc)
    (fun s a s' h ha hst hb' => by
      obtain ⟨I, hr, hs⟩ := h (lt_of_le_of_lt (bumps_le hst) hb')
      exact ⟨I.step ha.1.1 ha.1.2 hst hb', (ha.2.radix I hk hst).trans hr, hs.step I ha.2 hk hst⟩)
    (fun _ => ⟨I0, rfl, by rw [hidle]; trivial⟩) hb
  obtain ⟨-, hr, hs⟩ := hseen
  rw [hdone] at hs
  exact ⟨hs rfl, hr⟩

/-- The accesses of a call that nothing interrupts, taken together, are `btm_resolve_owner` of the
    thread-cache model. -/
theorem call_uninterrupted {σ : Sys} {ptr : ℕ} (k : Kernel) (hidle : (s.threads t).pc = .idle)
    (hcached : s.heap.owners.cached = true) (hheap : σ.heap = s.heap) (htls : (σ.threads t).tls = (s.threads t).tls)
    (hrc : (σ.threads t).rcache = (s.threads t).rcache) :
    ∃ n, (exec step s (.call t ptr :: List.replicate n (.next t k))).map
        (fun s1 => ((s1.threads t).pc, (s1.threads t).rcache, s1.heap)) =
      some (.done ptr (btmResolveOwner t ptr σ).1, ((btmResolveOwner t ptr σ).2.threads t).rcache,
        s.heap) := by
  unfold btmResolveOwner
  dsimp only
  rw [hheap, htls, hrc, hcached, Bool.true_and, show ptr >>> chunkShift % 2 ^ 32 &&& 15 = entryIdx (ptr >>> chunkShift) from rfl]
  by_cases ht : (s.threads t).tls = true
  · rw [if_pos ht]
    by_cases hc : ((s.threads t).rcache (entryIdx (ptr >>> chunkShift))).region = ptr >>> chunkShift ∧
        ((s.threads t).rcache (entryIdx (ptr >>> chunkShift))).gen = s.heap.registryGen ∧
        ((s.threads t).rcache (entryIdx (ptr >>> chunkShift))).owner ≠ 0
    · rw [if_pos hc]
      exact ⟨2, by simp [exec, step, hidle, advance, State.goto, State.mod, ht, hc, hrc]⟩
    · rw [if_neg hc]
      by_cases h0 : btmRegistryLookup s.heap ptr = 0
      · rw [if_pos h0]
        exact ⟨3, by simp [exec, step, hidle, advance, State.goto, State.mod, ht, hc, h0, hrc]⟩
      · rw [if_neg h0]
        exact ⟨4, by simp [exec, step, hidle, advance, State.goto, State.mod, ht, hc, h0, hrc,
          Sys.modThread]⟩
  · rw [if_neg ht]
    exact ⟨2, by simp [exec, step, hidle, advance, State.goto, State.mod, ht, hrc]⟩

/-! ## Two runs -/

/-- Only threads 0 and 1 are in a call. -/
def TwoBusy (s : State) : Prop := ∀ t, t ≠ 0 → t ≠ 1 → (s.threads t).pc = .idle

/-- `Quiet`, for threads 0 and 1. -/
def quietTwo (key : ℕ) (s : State) : Bool :=
  [0, 1].all fun t => match (s.threads t).pc.op with
    | none => true
    | some op => !(regionKeys op.base op.len).contains key

/-- `InsertsFresh` of threads 0 and 1, when no removal is about to bump the generation. -/
def freshTwo (s : State) : Action → Bool
  | .next t _ => (t == 0 || t == 1) && match (s.threads t).pc with
    | .waiting (.insert b n _) => (regionKeys b n).all (fun key => ownerAt s.heap.owners key == 0) &&
        [0, 1].all fun u => match (s.threads u).pc with
          | .bumping _ => false
          | _ => true
    | _ => true
  | a => a.thread == 0 || a.thread == 1

theorem TwoBusy.quiet (h : TwoBusy s) (hq : quietTwo key s = true) : Quiet key s := by
  intro t op hop hm
  have hin : t = 0 ∨ t = 1 := by
    by_contra hne
    rw [not_or] at hne
    rw [h t hne.1 hne.2] at hop
    cases hop
  simp only [quietTwo, List.all_cons, List.all_nil, Bool.and_true, Bool.and_eq_true] at hq
  rcases hin with rfl | rfl
  · rw [hop] at hq
    simp [hm] at hq
  · rw [hop] at hq
    simp [hm] at hq

theorem TwoBusy.fresh {a : Action} (h : TwoBusy s) (hf : freshTwo s a = true) : InsertsFresh s a := by
  cases a with
  | next t k =>
    intro b n o hp key hk
    simp only [freshTwo, hp, Bool.and_eq_true, List.all_eq_true, beq_iff_eq] at hf
    refine ⟨hf.2.1 key hk, ?_⟩
    rintro ⟨u, op, hu, -⟩
    have hin : u ∈ [0, 1] := by
      by_contra hne
      simp only [List.mem_cons, List.not_mem_nil, or_false, not_or] at hne
      rw [h u hne.1 hne.2] at hu
      cases hu
    have := hf.2.2 u hin
    rw [hu] at this
    cases this
  | _ => trivial

theorem TwoBusy.step {a : Action} (h : TwoBusy s) (hf : freshTwo s a = true)
    (hst : step s a = some s') : TwoBusy s' := by
  intro t h0 h1
  have ha : a.thread = 0 ∨ a.thread = 1 := by
    cases a with
    | next u k =>
      simp only [freshTwo, Bool.and_eq_true, Bool.or_eq_true, beq_iff_eq] at hf
      exact hf.1
    | _ => simpa [freshTwo] using hf
  rw [step_other hst (by rcases ha with e | e <;> rw [e] <;> assumption)]
  exact h t h0 h1

/-- A computed run of threads 0 and 1. -/
theorem run_two (ok : State → Action → Prop) (okb : State → Action → Bool) (as : List Action)
    (h : checks step okb s as = true) (hs : TwoBusy s)
    (hok : ∀ s a, okb s a = true → freshTwo s a = true)
    (hok' : ∀ s a, TwoBusy s → okb s a = true → ok s a) :
    Run step ok s as (finish step s as) ∧ TwoBusy (finish step s as) :=
  run_of_checks h hs hok' (fun s a _ hb ha hst => hb.step (hok s a ha) hst)

theorem twoBusy_init : TwoBusy State.init := fun _ _ _ => rfl

/-- Thread 0 registers the chunk at 2 MiB; thread 1 maps its cache and resolves `ptr`. -/
def cacheOwner (ptr : ℕ) : List Action :=
  .start 0 (.insert 2097152 2097152 2097152) :: List.replicate 3 (.next 0 Kernel.plain) ++
    .attach 1 :: .call 1 ptr :: List.replicate 5 (.next 1 Kernel.plain)

/-- Thread 1 resolves `ptr` from its cache. -/
def resolveCached (ptr : ℕ) : List Action := .call 1 ptr :: List.replicate 2 (.next 1 Kernel.plain)

/-- `Distinguished`, as a test. -/
def distinguished : Action → Bool
  | .call _ ptr => ptr.blt (2 ^ 48)
  | .start _ op => (regionKeys op.base op.len).all fun key => key.blt (2 ^ 27)
  | .next _ _ | .attach _ | .detach _ => true

theorem distinguished_spec {a : Action} (h : distinguished a = true) : Distinguished a := by
  cases a with
  | call t ptr => exact Nat.blt_eq.mp h
  | start t op => exact fun key hk => Nat.blt_eq.mp (List.all_eq_true.mp h key hk)
  | _ => trivial

set_option maxRecDepth 100000 in
/-- A chunk is registered and resolved twice; the second answer comes from the cache. -/
theorem resolve_owner_eq_lookup_cached :
    ∃ s1 : State, (s1.threads 1).pc = .done 2097200 2097152 ∧ btmRegistryLookup s1.heap 2097200 = 2097152 := by
  obtain ⟨r0, b0⟩ := run_two (fun s a => InsertsFresh s a ∧ Distinguished a)
    (fun s a => freshTwo s a && distinguished a) (cacheOwner 2097200) (by decide +kernel)
    twoBusy_init (fun s a h => (Bool.and_eq_true _ _ ▸ h).1)
    (fun s a hb h => ⟨hb.fresh (Bool.and_eq_true _ _ ▸ h).1,
      distinguished_spec (Bool.and_eq_true _ _ ▸ h).2⟩)
  obtain ⟨r1, -⟩ := run_two
    (fun s a => (InsertsFresh s a ∧ Distinguished a) ∧ Quiet (2097200 >>> chunkShift) s)
    (fun s a => (freshTwo s a && distinguished a) && quietTwo (2097200 >>> chunkShift) s)
    (resolveCached 2097200) (by decide +kernel) b0
    (fun s a h => by simp only [Bool.and_eq_true] at h; exact h.1.1)
    (fun s a hb h => by
      simp only [Bool.and_eq_true] at h
      exact ⟨⟨hb.fresh h.1.1, distinguished_spec h.1.2⟩, hb.quiet h.2⟩)
  have hdone : ((finish step (finish step State.init (cacheOwner 2097200))
    (resolveCached 2097200)).threads 1).pc = .done 2097200 2097152 := by decide +kernel
  exact ⟨_, hdone,
    (resolve_owner_eq_lookup r0 (by decide +kernel) r1 hdone (by decide +kernel)).1.symm⟩

/-- Thread 0 starts to remove the chunk and has cleared its region. -/
def clearOwner : List Action :=
  .start 0 (.remove 2097152 2097152) :: List.replicate 2 (.next 0 Kernel.plain)

set_option maxRecDepth 100000 in
/-- A pointer with bit 48 set resolves to the chunk, too, and is cached. While the chunk's removal has
    cleared the table and not bumped the generation, the cache still answers, although no call on the
    table covers the pointer's region. -/
theorem resolve_owner_stale_on_tagged : ∃ s0 s1 : State,
    Run step InsertsFresh State.init (cacheOwner (2 ^ 48 + 2097200) ++ clearOwner) s0 ∧
    (s0.threads 1).pc = .idle ∧
    Run step (fun s a => InsertsFresh s a ∧ Quiet ((2 ^ 48 + 2097200) >>> chunkShift) s) s0
      (resolveCached (2 ^ 48 + 2097200)) s1 ∧
    Quiet ((2 ^ 48 + 2097200) >>> chunkShift) s1 ∧ s1.bumps < 2 ^ 64 ∧
    (s1.threads 1).pc = .done (2 ^ 48 + 2097200) 2097152 ∧
    btmRegistryLookup s1.heap (2 ^ 48 + 2097200) = 0 := by
  obtain ⟨r0, b0⟩ := run_two InsertsFresh freshTwo
    (cacheOwner (2 ^ 48 + 2097200) ++ clearOwner) (by decide +kernel) twoBusy_init
    (fun _ _ h => h) (fun s a hb h => hb.fresh h)
  obtain ⟨r1, b1⟩ := run_two
    (fun s a => InsertsFresh s a ∧ Quiet ((2 ^ 48 + 2097200) >>> chunkShift) s)
    (fun s a => freshTwo s a && quietTwo ((2 ^ 48 + 2097200) >>> chunkShift) s)
    (resolveCached (2 ^ 48 + 2097200)) (by decide +kernel) b0
    (fun s a h => by simp only [Bool.and_eq_true] at h; exact h.1)
    (fun s a hb h => by
      simp only [Bool.and_eq_true] at h
      exact ⟨hb.fresh h.1, hb.quiet h.2⟩)
  exact ⟨_, _, r0, by decide +kernel, r1, b1.quiet (by decide +kernel), by decide +kernel,
    by decide +kernel, by decide +kernel⟩

end BtMalloc.RegionCache
