import BtMalloc.ChunkFlow
import BtMalloc.Proofs.MapProofs

/-!
# Proofs: chunks are conserved

A function says where every chunk is. Each step moves one chunk from one place to another, except the
one in which the maintenance thread takes the whole dispose queue. `View` has the parts of the state
that say where chunks are, so that a step is described by the few of them that it changes.
-/

namespace BtMalloc.ChunkFlow

open LinkedList Transition

/-- The links, list heads, hands, mappings and owner words of a state. -/
structure View where
  next : ℕ → Option ℕ
  prev : ℕ → Option ℕ
  pool : PoolId → Option ℕ
  head : Stack → Option ℕ
  count : ℤ
  hand : Who → Option ℕ
  mapped : ℕ → Bool
  owner : ℕ → ℕ

def State.view (s : State) : View where
  next x := (s.heap.chunks x).next
  prev x := (s.heap.chunks x).prev
  pool q := (s.heap.pools q).chunks
  head := s.head
  count := s.heap.warmCount
  hand := s.inHand
  mapped := s.heap.mapped
  owner := ownerAt s.heap.owners

variable {v v' : View} {place place' : ℕ → Option Place} {c : ℕ} {b : Option Place} {q : PoolId}
  {w : Who}

/-- The lists and hands are where `place` says. -/
structure Lists (v : View) (place : ℕ → Option Place) : Prop where
  pool : ∀ q, ∃ l, DList v.next v.prev none (v.pool q) l ∧ Listing l (place · = some (.pool q))
  stack : ∀ st, ∃ l, Chain v.next (v.head st) l ∧ Listing l (place · = some (.stack st)) ∧
    (st = .warm → v.count = l.length)
  hand : ∀ w x, place x = some (.hand w) ↔ v.hand w = some x

/-- The chunks that have a place are the mapped ones, and the registered ones. -/
structure Space (v : View) (place : ℕ → Option Place) : Prop where
  mapped : ∀ p, v.mapped p = true ↔ place (p / 512 * 2097152) ≠ none
  aligned : ∀ x, place x ≠ none → x % 2097152 = 0 ∧ 0 < x ∧ x + 2097152 ≤ 2 ^ 47
  owner : ∀ key < 2 ^ 27, v.owner key = if place (key * 2097152) = none then 0 else key * 2097152

/-! ## Moves -/

theorem update_eq_iff {P : Option Place} (hc : place c ≠ P) (hb : b ≠ P) (x : ℕ) :
    Function.update place c b x = P ↔ place x = P := by
  by_cases e : x = c
  · subst e
    simp [hc, hb]
  · rw [Function.update_of_ne e]

/-- A chunk moves between hands and stacks. -/
theorem Lists.move (R : Lists v place) (hfrom : ∀ q, place c ≠ some (.pool q))
    (hto : ∀ q, b ≠ some (.pool q)) (hnext : ∀ x, x ≠ c → v'.next x = v.next x)
    (hprev : ∀ x, x ≠ c → v'.prev x = v.prev x) (hpool : v'.pool = v.pool)
    (hpop : ∀ st, place c = some (.stack st) → b ≠ some (.stack st) ∧ v.head st = some c ∧
      v'.head st = v.next c ∧ (st = .warm → v'.count = v.count - 1))
    (hpush : ∀ st, b = some (.stack st) → v'.head st = some c ∧ v'.next c = v.head st ∧
      (st = .warm → v'.count = v.count + 1))
    (hrest : ∀ st, place c ≠ some (.stack st) → b ≠ some (.stack st) →
      v'.head st = v.head st ∧ (st = .warm → v'.count = v.count))
    (hin : ∀ w, b = some (.hand w) → v'.hand w = some c ∧ (v.hand w = none ∨ v.hand w = some c))
    (hout : ∀ w, place c = some (.hand w) → b ≠ some (.hand w) → v'.hand w = none)
    (hsame : ∀ w, place c ≠ some (.hand w) → b ≠ some (.hand w) → v'.hand w = v.hand w) :
    Lists v' (Function.update place c b) := by
  refine ⟨fun q => ?_, fun st => ?_, fun w x => ?_⟩
  · obtain ⟨l, hl, hP⟩ := R.pool q
    have hne : ∀ x ∈ l, x ≠ c := fun x hx e => hfrom q (e ▸ hP.mem_iff.mp hx)
    rw [hpool]
    exact ⟨l, hl.congr (fun x hx => hnext x (hne x hx)) (fun x hx => hprev x (hne x hx)),
      hP.congr (update_eq_iff (hfrom q) (hto q))⟩
  · obtain ⟨l, hl, hP, hn⟩ := R.stack st
    by_cases hs : place c = some (.stack st)
    · obtain ⟨hb, h1, h2, h3⟩ := hpop st hs
      rw [h1] at hl
      cases l with
      | nil => cases hl
      | cons a l =>
        obtain ⟨e, hl⟩ := hl
        cases e
        have hP' := hP.tail (Q := (Function.update place c b · = some (.stack st))) (fun x => by
          by_cases e : x = c
          · subst e
            simp [hb]
          · simp [e])
        refine ⟨l, ?_, hP', fun hst => ?_⟩
        · rw [h2]
          exact hl.congr (fun x hx => hnext x (fun e => (List.nodup_cons.mp hP.nodup).1 (e ▸ hx)))
        · rw [h3 hst, hn hst, List.length_cons]
          omega
    · have hne : ∀ x ∈ l, v'.next x = v.next x := fun x hx => hnext x (fun e => hs (e ▸ hP.mem_iff.mp hx))
      by_cases hd : b = some (.stack st)
      · obtain ⟨h1, h2, h3⟩ := hpush st hd
        refine ⟨c :: l, ?_, hP.cons hs (fun x => ?_), fun hst => ?_⟩
        · rw [h1]
          exact hl.push h2 hne
        · by_cases e : x = c
          · subst e
            simp [hd]
          · simp [e]
        · rw [h3 hst, hn hst, List.length_cons]
          omega
      · obtain ⟨h1, h2⟩ := hrest st hs hd
        refine ⟨l, by rw [h1]; exact hl.congr hne, hP.congr (update_eq_iff hs hd), fun hst => ?_⟩
        rw [h2 hst, hn hst]
  · by_cases e : x = c
    · subst e
      rw [Function.update_self]
      constructor
      · exact fun hb => (hin w hb).1
      · intro hw
        by_contra hb
        by_cases hs : place x = some (.hand w)
        · rw [hout w hs hb] at hw
          cases hw
        · rw [hsame w hs hb] at hw
          exact hs ((R.hand w x).mpr hw)
    · rw [Function.update_of_ne e, R.hand w x]
      by_cases hb : b = some (.hand w)
      · obtain ⟨h1, h2⟩ := hin w hb
        rw [h1]
        rcases h2 with h2 | h2 <;> simp [h2, Ne.symm e]
      · by_cases hs : place c = some (.hand w)
        · rw [hout w hs hb, (R.hand w c).mp hs]
          simp [Ne.symm e]
        · rw [hsame w hs hb]

/-- A chunk in hand is linked to a pool. -/
theorem Lists.attach (R : Lists v place) (hc : place c = some (.hand w)) (hself : v'.next c = v.pool q)
    (hnone : v'.prev c = none) (hnext : ∀ x, x ≠ c → v'.next x = v.next x)
    (hprev : ∀ x, x ≠ c → v'.prev x = if v.pool q = some x then some c else v.prev x)
    (hpool : v'.pool = Function.update v.pool q (some c)) (hhead : v'.head = v.head)
    (hcount : v'.count = v.count) (hhand : ∀ u, u ≠ w → v'.hand u = v.hand u)
    (hw : v'.hand w = none) : Lists v' (Function.update place c (some (.pool q))) := by
  refine ⟨fun q' => ?_, fun st => ?_, fun u x => ?_⟩
  · obtain ⟨l, hl, hP⟩ := R.pool q'
    have hne : ∀ x ∈ l, x ≠ c := by
      rintro x hx rfl
      have := hP.mem_iff.mp hx
      rw [hc] at this
      cases this
    by_cases eq : q' = q
    · subst eq
      refine ⟨c :: l, ?_, hP.cons (by simp [hc]) (fun x => ?_)⟩
      · rw [hpool, Function.update_self]
        exact hl.push hP.nodup hself hnone (fun x hx => hnext x (hne x hx))
          (fun x hx => hprev x (hne x hx))
      · by_cases e : x = c
        · subst e
          simp
        · simp [e]
    · refine ⟨l, ?_, hP.congr (update_eq_iff (by simp [hc]) (by simpa using Ne.symm eq))⟩
      rw [hpool, Function.update_of_ne eq]
      refine hl.congr (fun x hx => hnext x (hne x hx)) (fun x hx => ?_)
      -- the old head of the list is in pool `q`, not here
      have hhd : v.pool q ≠ some x := by
        obtain ⟨l0, hl0, hP0⟩ := R.pool q
        intro e
        rw [hl0.head_eq] at e
        have := (hP0.mem_iff.mp (List.mem_of_head? e)).symm.trans (hP.mem_iff.mp hx)
        exact eq (by simpa using this.symm)
      rw [hprev x (hne x hx), if_neg hhd]
  · obtain ⟨l, hl, hP, hn⟩ := R.stack st
    have hne : ∀ x ∈ l, x ≠ c := by
      rintro x hx rfl
      have := hP.mem_iff.mp hx
      rw [hc] at this
      cases this
    refine ⟨l, by rw [hhead]; exact hl.congr (fun x hx => hnext x (hne x hx)),
      hP.congr (update_eq_iff (by simp [hc]) (by simp)), fun hst => by rw [hcount]; exact hn hst⟩
  · by_cases e : x = c
    · subst e
      rw [Function.update_self]
      constructor
      · intro h
        cases h
      · intro h
        by_cases eu : u = w
        · rw [eu, hw] at h
          cases h
        · rw [hhand u eu, ← R.hand, hc] at h
          exact absurd (by simpa using h.symm) eu
    · rw [Function.update_of_ne e, R.hand]
      by_cases eu : u = w
      · rw [eu, hw, (R.hand w c).mp hc]
        simp [Ne.symm e]
      · rw [hhand u eu]

/-- A pool unlinks one of its chunks into a hand. -/
theorem Lists.unlink (R : Lists v place) (hc : place c = some (.pool q))
    (hnext : ∀ x, x ≠ c → v'.next x = if v.prev c = some x then v.next c else v.next x)
    (hprev : ∀ x, x ≠ c → v'.prev x = if v.next c = some x then v.prev c else v.prev x)
    (hpool : v'.pool = Function.update v.pool q (if v.prev c = none then v.next c else v.pool q))
    (hhead : v'.head = v.head) (hcount : v'.count = v.count)
    (hhand : ∀ u, u ≠ w → v'.hand u = v.hand u) (hempty : v.hand w = none) (hw : v'.hand w = some c) :
    Lists v' (Function.update place c (some (.hand w))) := by
  obtain ⟨l0, hl0, hP0⟩ := R.pool q
  have hc0 := hP0.mem_iff.mpr hc
  -- the neighbours are in the same pool
  have hnb : ∀ x, v.prev c = some x ∨ v.next c = some x → place x = some (.pool q) := by
    rintro x (e | e)
    · rcases hl0.prev_ne hc0 with e' | ⟨y, hy, e'⟩
      · rw [e'] at e
        cases e
      · rw [e'] at e
        cases e
        exact hP0.mem_iff.mp hy
    · exact hP0.mem_iff.mp (hl0.next_mem hc0 e)
  have far : ∀ x, place x ≠ some (.pool q) → v'.next x = v.next x ∧ v'.prev x = v.prev x := by
    intro x hx
    have hxc : x ≠ c := fun e => hx (e ▸ hc)
    rw [hnext x hxc, hprev x hxc, if_neg (fun e => hx (hnb x (Or.inl e))),
      if_neg (fun e => hx (hnb x (Or.inr e)))]
    exact ⟨rfl, rfl⟩
  refine ⟨fun q' => ?_, fun st => ?_, fun u x => ?_⟩
  · by_cases eq : q' = q
    · subst eq
      refine ⟨l0.erase c, ?_, hP0.erase (fun x => ?_)⟩
      · rw [hpool, Function.update_self]
        exact hl0.remove hP0.nodup (by simp) hc0 (fun x _ hx => hnext x hx) (fun x _ hx => hprev x hx)
      · by_cases e : x = c
        · subst e
          simp
        · simp [e]
    · obtain ⟨l, hl, hP⟩ := R.pool q'
      have hx : ∀ x ∈ l, place x ≠ some (.pool q) := by
        intro x hx e
        rw [hP.mem_iff.mp hx] at e
        exact eq (by simpa using e)
      refine ⟨l, ?_, hP.congr (update_eq_iff (by simpa [hc] using Ne.symm eq) (by simp))⟩
      rw [hpool, Function.update_of_ne eq]
      exact hl.congr (fun x h => (far x (hx x h)).1) (fun x h => (far x (hx x h)).2)
  · obtain ⟨l, hl, hP, hn⟩ := R.stack st
    refine ⟨l, ?_, hP.congr (update_eq_iff (by simp [hc]) (by simp)), fun hst => by
      rw [hcount]; exact hn hst⟩
    rw [hhead]
    refine hl.congr (fun x hx => (far x ?_).1)
    rw [hP.mem_iff.mp hx]
    simp
  · by_cases e : x = c
    · subst e
      rw [Function.update_self]
      by_cases eu : u = w
      · simp [eu, hw]
      · rw [hhand u eu, ← R.hand, hc]
        simpa using Ne.symm eu
    · rw [Function.update_of_ne e, R.hand]
      by_cases eu : u = w
      · rw [eu, hw, hempty]
        simp [Ne.symm e]
      · rw [hhand u eu]

/-- The maintenance thread takes the whole dispose queue. -/
theorem Lists.take (R : Lists v place) (hnone : v.head .batch = none)
    (hqueue : ∀ x, place x = some (.stack .queue) → place' x = some (.stack .batch))
    (hplace : ∀ x, place x ≠ some (.stack .queue) → place' x = place x)
    (hnext : v'.next = v.next) (hprev : v'.prev = v.prev) (hpool : v'.pool = v.pool)
    (hbatch : v'.head .batch = v.head .queue) (hempty : v'.head .queue = none)
    (hhead : ∀ st, st ≠ .batch → st ≠ .queue → v'.head st = v.head st)
    (hcount : v'.count = v.count) (hhand : v'.hand = v.hand) : Lists v' place' := by
  have hno : ∀ x, place x ≠ some (.stack .batch) := by
    obtain ⟨l, hl, hP, -⟩ := R.stack .batch
    rw [hnone] at hl
    cases l with
    | nil => exact fun x e => by cases hP.mem_iff.mpr e
    | cons a l => cases hl.1
  have hiff : ∀ P : Place, P ≠ .stack .queue → P ≠ .stack .batch →
      ∀ x, place' x = some P ↔ place x = some P := by
    intro P h1 h2 x
    by_cases e : place x = some (.stack .queue)
    · rw [hqueue x e, e]
      simp [Ne.symm h1, Ne.symm h2]
    · rw [hplace x e]
  refine ⟨fun q => ?_, fun st => ?_, fun w x => ?_⟩
  · obtain ⟨l, hl, hP⟩ := R.pool q
    rw [hpool, hnext, hprev]
    exact ⟨l, hl, hP.congr (hiff _ (by simp) (by simp))⟩
  · by_cases e1 : st = .batch
    · subst e1
      obtain ⟨l, hl, hP, -⟩ := R.stack .queue
      rw [hbatch, hnext]
      refine ⟨l, hl, hP.congr (fun x => ?_), by simp⟩
      by_cases e : place x = some (.stack .queue)
      · simp [hqueue x e, e]
      · rw [hplace x e]
        simp [e, hno x]
    · by_cases e2 : st = .queue
      · subst e2
        refine ⟨[], hempty, Listing.nil (fun x hx => ?_), by simp⟩
        by_cases e : place x = some (.stack .queue)
        · rw [hqueue x e] at hx
          simp at hx
        · rw [hplace x e] at hx
          exact e hx
      · obtain ⟨l, hl, hP, hn⟩ := R.stack st
        rw [hhead st e1 e2, hnext, hcount]
        exact ⟨l, hl, hP.congr (hiff _ (by simpa using e2) (by simpa using e1)), hn⟩
  · rw [hhand, ← R.hand w x]
    exact hiff _ (by simp) (by simp) x

/-! ## Mappings -/

theorem inPages_chunk (hc : c % 2097152 = 0) (p : ℕ) :
    inPages c chunkSize p = true ↔ p / 512 * 2097152 = c := by
  rw [inPages_iff]
  simp only [chunkSize_eq]
  omega

theorem Space.congr (S : Space v place) (hm : v'.mapped = v.mapped) (ho : v'.owner = v.owner)
    (hp : ∀ x, place' x = none ↔ place x = none) : Space v' place' := by
  refine ⟨fun p => ?_, fun x hx => S.aligned x (fun e => hx ((hp x).mpr e)), fun key hk => ?_⟩
  · rw [hm, S.mapped p, ne_eq, ne_eq, hp]
  · rw [ho, S.owner key hk]
    by_cases e : place (key * 2097152) = none
    · rw [if_pos e, if_pos ((hp _).mpr e)]
    · rw [if_neg e, if_neg (fun e' => e ((hp _).mp e'))]

/-- A chunk that stays mapped changes its place. -/
theorem Space.move (S : Space v place) (hm : v'.mapped = v.mapped) (ho : v'.owner = v.owner)
    (hc : place c ≠ none) (hb : b ≠ none) : Space v' (Function.update place c b) :=
  S.congr hm ho (fun x => update_eq_iff hc hb x)

theorem Space.map (S : Space v place) {P : Place} (hal : c % 2097152 = 0) (hpos : 0 < c)
    (hle : c + 2097152 ≤ 2 ^ 47) (hm : ∀ p, v'.mapped p = (inPages c chunkSize p || v.mapped p))
    (ho : ∀ key < 2 ^ 27, v'.owner key = if key * 2097152 = c then c else v.owner key) :
    Space v' (Function.update place c (some P)) := by
  refine ⟨fun p => ?_, fun x hx => ?_, fun key hk => ?_⟩
  · rw [hm, Bool.or_eq_true, inPages_chunk hal, S.mapped]
    by_cases e : p / 512 * 2097152 = c
    · simp [e]
    · simp [e]
  · by_cases e : x = c
    · subst e
      exact ⟨hal, hpos, hle⟩
    · exact S.aligned x (by simpa [e] using hx)
  · rw [ho key hk]
    by_cases e : key * 2097152 = c
    · simp [e]
    · rw [if_neg e, S.owner key hk, Function.update_of_ne e]

theorem Space.unmap (S : Space v place) (hc : place c ≠ none)
    (hm : ∀ p, v'.mapped p = (!inPages c chunkSize p && v.mapped p))
    (ho : ∀ key < 2 ^ 27, v'.owner key = if key * 2097152 = c then 0 else v.owner key) :
    Space v' (Function.update place c none) := by
  obtain ⟨hal, -, -⟩ := S.aligned c hc
  refine ⟨fun p => ?_, fun x hx => ?_, fun key hk => ?_⟩
  · rw [hm, Bool.and_eq_true, Bool.not_eq_true', Bool.eq_false_iff, ne_eq, inPages_chunk hal, S.mapped]
    by_cases e : p / 512 * 2097152 = c
    · simp [e]
    · simp [e]
  · by_cases e : x = c
    · subst e
      simp at hx
    · exact S.aligned x (by simpa [e] using hx)
  · rw [ho key hk]
    by_cases e : key * 2097152 = c
    · simp [e]
    · rw [if_neg e, S.owner key hk, Function.update_of_ne e]

/-! ## `map_fresh` -/

/-- Lists and headers are the same, up to the memfd offsets. -/
structure SameLists (h h' : Heap) : Prop where
  chunks : ∀ x, h'.chunks x = { h.chunks x with memfdOff := (h'.chunks x).memfdOff }
  pools : h'.pools = h.pools
  warmHead : h'.warmHead = h.warmHead
  warmCount : h'.warmCount = h.warmCount
  disposeHead : h'.disposeHead = h.disposeHead

variable {cfg : Config} {k : Kernel} {h h' h'' : Heap}

theorem SameLists.refl : SameLists h h := ⟨fun _ => rfl, rfl, rfl, rfl, rfl⟩

theorem SameLists.trans (h1 : SameLists h h') (h2 : SameLists h' h'') : SameLists h h'' := by
  refine ⟨fun x => ?_, h2.pools.trans h1.pools, h2.warmHead.trans h1.warmHead,
    h2.warmCount.trans h1.warmCount, h2.disposeHead.trans h1.disposeHead⟩
  rw [h2.chunks x, h1.chunks x]

/-- `SameLists`, and mappings and owners are the same. -/
structure Quiet (h h' : Heap) : Prop extends SameLists h h' where
  mapped : h'.mapped = h.mapped
  owners : h'.owners = h.owners

theorem Quiet.refl : Quiet h h := ⟨SameLists.refl, rfl, rfl⟩

theorem Quiet.trans (h1 : Quiet h h') (h2 : Quiet h' h'') : Quiet h h'' :=
  ⟨h1.toSameLists.trans h2.toSameLists, h2.mapped.trans h1.mapped, h2.owners.trans h1.owners⟩

/-- Only the memfd offsets change. -/
theorem Quiet.offsets {bump size cap : ℕ} {freed : List ℕ} : Quiet h { h with
    memfdBump := bump, memfdSize := size, memfdFree := freed, memfdFreeCap := cap } :=
  ⟨⟨fun _ => rfl, rfl, rfl, rfl, rfl⟩, rfl, rfl⟩

theorem memfdAllocOff_quiet : Quiet h (memfdAllocOff k h).2 := by
  have heq : ∃ r bump size freed, memfdAllocOff k h =
      (r, { h with memfdBump := bump, memfdSize := size, memfdFree := freed }) := by
    unfold memfdAllocOff
    split
    · exact ⟨_, h.memfdBump, h.memfdSize, _, rfl⟩
    · -- the kernel must not compute with the sizes
      generalize h.memfdBump + chunkSize = bump
      generalize 256 * chunkSize = n
      dsimp only
      split
      · split
        · exact ⟨_, _, _, h.memfdFree, rfl⟩
        · exact ⟨_, h.memfdBump, h.memfdSize, h.memfdFree, rfl⟩
      · exact ⟨_, _, h.memfdSize, h.memfdFree, rfl⟩
  obtain ⟨r, bump, size, freed, e⟩ := heq
  rw [e]
  exact Quiet.offsets

theorem giveBack_quiet {off : ℕ} : Quiet h (if cfg.meshMode then memfdFreeOff k h off else h) := by
  split_ifs
  · obtain ⟨cap', freed', e, -⟩ := memfdFreeOff_spec k h off
    rw [e]
    exact Quiet.offsets
  · exact Quiet.refl

theorem munmap_same {a m : ℕ} (h : Heap) : SameLists h (h.munmap a m) ∧
    (h.munmap a m).owners = h.owners := by
  unfold Heap.munmap
  split_ifs
  · exact ⟨⟨fun _ => rfl, rfl, rfl, rfl, rfl⟩, rfl⟩
  · exact ⟨SameLists.refl, rfl⟩

theorem munmap_mapped {a m : ℕ} (h : Heap) (hle : a + m ≤ 2 ^ 47) (p : ℕ) :
    (h.munmap a m).mapped p = (!inPages a m p && h.mapped p) := by
  rw [Heap.munmap, if_pos hle]
  rfl

/-- Mapping pages; the length is a variable, so that nothing is computed with it. -/
theorem mmap_frame (g : Heap) (a m off p : ℕ) :
    (SameLists g (g.mmapAnon a m) ∧ (g.mmapAnon a m).owners = g.owners ∧
      (g.mmapAnon a m).mapped p = (inPages a m p || g.mapped p)) ∧
    SameLists g (g.mmapMemfd a m off) ∧ (g.mmapMemfd a m off).owners = g.owners ∧
      (g.mmapMemfd a m off).mapped p = (inPages a m p || g.mapped p) :=
  ⟨⟨⟨fun _ => rfl, rfl, rfl, rfl, rfl⟩, rfl, rfl⟩, ⟨fun _ => rfl, rfl, rfl, rfl, rfl⟩, rfl, rfl⟩

/-- Unmapping what may be no page at all. -/
theorem munmapSome_frame (g : Heap) {a m : ℕ} (hle : a + m ≤ 2 ^ 47) :
    SameLists g (if m = 0 then g else g.munmap a m) ∧
      (if m = 0 then g else g.munmap a m).owners = g.owners ∧
      ∀ p, (if m = 0 then g else g.munmap a m).mapped p = (!inPages a m p && g.mapped p) := by
  split_ifs with h0
  · refine ⟨SameLists.refl, rfl, fun p => ?_⟩
    have : inPages a m p = false := by
      rw [Bool.eq_false_iff, ne_eq, inPages_iff]
      omega
    rw [this]
    rfl
  · exact ⟨(munmap_same g).1, (munmap_same g).2, munmap_mapped g hle⟩

/-- Trimming a fresh reservation leaves the kept part mapped. -/
theorem trimTo_frame {raw len b keep : ℕ} (hr : raw % 4096 = 0) (hl : len % 4096 = 0)
    (hb : b % 4096 = 0) (hk : keep % 4096 = 0) (h1 : raw ≤ b) (h2 : b + keep ≤ raw + len)
    (hle : raw + len ≤ 2 ^ 47) (hun : ∀ p, inPages raw len p = true → h.mapped p = false) :
    SameLists h (trimTo h raw len b keep) ∧ (trimTo h raw len b keep).owners = h.owners ∧
      ∀ p, (trimTo h raw len b keep).mapped p = (inPages b keep p || h.mapped p) := by
  unfold trimTo
  dsimp only
  have a0 : SameLists h (h.mmapAnon raw len) := (mmap_frame h raw len 0 0).1.1
  obtain ⟨a1, a2, a3⟩ := munmapSome_frame (h.mmapAnon raw len) (a := raw) (m := b - raw) (by omega)
  obtain ⟨b1, b2, b3⟩ := munmapSome_frame (if b - raw = 0 then h.mmapAnon raw len
    else (h.mmapAnon raw len).munmap raw (b - raw)) (a := b + keep) (m := len - (b - raw) - keep)
    (by omega)
  refine ⟨a0.trans (a1.trans b1), b2.trans a2, fun p => ?_⟩
  rw [b3, a3, (mmap_frame h raw len 0 p).1.2.2]
  rw [Bool.eq_iff_iff]
  simp only [Bool.and_eq_true, Bool.or_eq_true, Bool.not_eq_true', Bool.eq_false_iff, ne_eq,
    inPages_iff]
  have := hun p
  rw [inPages_iff] at this
  cases hm : h.mapped p with
  | false =>
    simp only [Bool.false_eq_true, or_false]
    omega
  | true =>
    have hout : ¬ (raw / 4096 ≤ p ∧ p < (raw + len) / 4096) := fun hin => by
      rw [this hin] at hm
      cases hm
    simp only [or_true, and_true, iff_true]
    omega

/-- `map_fresh` has mapped and registered the chunk at `c`. -/
structure NewChunk (k : Kernel) (h : Heap) (c : ℕ) (h' : Heap) : Prop where
  answer : ∃ raw, k.chunk = some raw ∧ c = chunkBase raw
  aligned : c % 2097152 = 0
  pos : 0 < c
  le : c + 2097152 ≤ 2 ^ 47
  fresh : ∀ p, inPages c chunkSize p = true → h.mapped p = false
  same : SameLists h h'
  mapped : ∀ p, h'.mapped p = (inPages c chunkSize p || h.mapped p)
  stored : Stored k c (regionKeys c chunkSize) h.owners h'.owners

theorem NewChunk.of_quiet (h1 : Quiet h h') (N : NewChunk k h' c h'') : NewChunk k h c h'' :=
  ⟨N.answer, N.aligned, N.pos, N.le, fun p hp => by rw [← h1.mapped]; exact N.fresh p hp,
    h1.toSameLists.trans N.same, fun p => by rw [N.mapped, h1.mapped], h1.owners ▸ N.stored⟩

theorem mapAt_frame (off : ℕ) :
    (∃ h', mapAt cfg k h off = (none, h') ∧ Quiet h h') ∨
    ∃ c h', mapAt cfg k h off = (some c, h') ∧ NewChunk k h c h' ∧ k.fixed = true ∧
      mmapResult h k.chunk (chunkSize * 2) ≠ none := by
  unfold mapAt
  dsimp only
  cases hres : mmapResult h k.chunk (chunkSize * 2) with
  | none => exact Or.inl ⟨_, rfl, giveBack_quiet⟩
  | some raw =>
    obtain ⟨hans, hfr⟩ := Option.filter_eq_some_iff.mp hres
    obtain ⟨hmod, hpos, -, hle, hun⟩ := freshRange_spec hfr
    have hle' : raw + 4194304 ≤ 2 ^ 47 := hle
    obtain ⟨b1, b2, b3⟩ := chunkBase_spec hle'
    have hun' : ∀ p, inPages raw (chunkSize * 2) p = true → h.mapped p = false := by
      intro p hp
      rw [inPages_iff] at hp
      exact hun ⟨hp.1, by simp only [chunkSize_eq] at hp ⊢; omega⟩
    obtain ⟨t1, t2, t3⟩ := (@trimTo_frame h _ _ (chunkBase raw) chunkSize) hmod (by simp)
      (by omega) (by simp) b2 (by simp only [chunkSize_eq]; omega) hle hun'
    have hnew : ∀ p, inPages (chunkBase raw) chunkSize p = true → h.mapped p = false := by
      intro p hp
      refine hun' p ?_
      simp only [inPages_iff, chunkSize_eq] at hp ⊢
      omega
    have hans' : ∃ raw', k.chunk = some raw' ∧ chunkBase raw = chunkBase raw' := ⟨raw, hans, rfl⟩
    dsimp only
    generalize chunkBase raw = c at b1 b2 b3 t1 t2 t3 hnew hans' ⊢
    generalize trimTo h raw (chunkSize * 2) c chunkSize = g at t1 t2 t3 ⊢
    by_cases hfix : k.fixed = true
    · rw [if_pos hfix]
      refine Or.inr ⟨c, _, rfl, ?_, hfix, by simp⟩
      have g1 : SameLists h (backed cfg g c off) ∧ (backed cfg g c off).owners = h.owners ∧
          ∀ p, (backed cfg g c off).mapped p = (inPages c chunkSize p || h.mapped p) := by
        have hor : ∀ p, (inPages c chunkSize p || g.mapped p) = (inPages c chunkSize p || h.mapped p) :=
          fun p => by rw [t3, ← Bool.or_assoc, Bool.or_self]
        have hmap := mmap_frame g c chunkSize off
        unfold backed
        split_ifs
        · exact ⟨t1.trans (hmap 0).2.1, (hmap 0).2.2.1.trans t2, fun p => (hmap p).2.2.2.trans (hor p)⟩
        · exact ⟨t1.trans (hmap 0).1.1, (hmap 0).1.2.1.trans t2, fun p => (hmap p).1.2.2.trans (hor p)⟩
      obtain ⟨u1, u2, u3⟩ := g1
      obtain ⟨l1, e1, hst⟩ := btmRegistryInsert_spec k (backed cfg g c off) c c chunkSize (by simp) (by rw [chunkSize_eq]; omega)
      rw [e1]
      refine ⟨hans', b1, by omega, by omega, hnew, u1.trans ⟨fun x => ?_, rfl, rfl, rfl, rfl⟩, u3, ?_⟩
      · by_cases e : x = c
        · subst e
          simp [Heap.modChunk]
        · simp [Heap.modChunk, e]
      · rw [← u2]
        exact hst
    · rw [if_neg hfix]
      refine Or.inl ⟨_, rfl, Quiet.trans ⟨t1.trans (munmap_same g).1, ?_, (munmap_same g).2.trans t2⟩
        giveBack_quiet⟩
      funext p
      rw [munmap_mapped g (by rw [chunkSize_eq]; omega), t3]
      cases hp : inPages c chunkSize p with
      | false => rfl
      | true => rw [hnew p hp]; rfl

theorem mapFresh_frame :
    (∃ h', mapFresh cfg k h = (none, h') ∧ Quiet h h') ∨
    ∃ c h', mapFresh cfg k h = (some c, h') ∧ NewChunk k h c h' ∧ ¬ MapRefused cfg k h := by
  rw [mapFresh_eq]
  have hq : Quiet h (if cfg.meshMode then memfdAllocOff k h else (some 0, h)).2 := by
    split_ifs
    · exact memfdAllocOff_quiet
    · exact Quiet.refl
  have hoff : (if cfg.meshMode then memfdAllocOff k h else (some 0, h)).1 ≠ none →
      ¬ (cfg.meshMode = true ∧ (memfdAllocOff k h).1 = none) := by
    rintro hne ⟨hm, e⟩
    rw [if_pos hm] at hne
    exact hne e
  generalize (if cfg.meshMode then memfdAllocOff k h else (some 0, h)) = x at hq hoff ⊢
  obtain ⟨_ | off, g⟩ := x
  · exact Or.inl ⟨g, rfl, hq⟩
  · have hres : mmapResult h k.chunk (chunkSize * 2) = mmapResult g k.chunk (chunkSize * 2) := by
      have hm : g.mapped = h.mapped := hq.mapped
      unfold mmapResult freshRange
      rw [hm]
    dsimp only
    rcases (@mapAt_frame cfg k g) off with ⟨h', e, hq'⟩ | ⟨c, h', e, N, hfix, hne⟩
    · exact Or.inl ⟨h', e, hq.trans hq'⟩
    · refine Or.inr ⟨c, h', e, N.of_quiet hq, ?_⟩
      rintro (hm | hm | hm)
      · exact hoff (by simp) hm
      · exact hne (hres ▸ hm)
      · rw [hfix] at hm
        cases hm

/-! ## Steps -/

structure Inv (s : State) (place : ℕ → Option Place) : Prop where
  lists : Lists s.view place
  space : Space s.view place
  ready : ∀ t q c, s.threads t = .ready q c → HeaderReset q (s.heap.chunks c)

variable {s s' : State} {t : ℕ}

theorem Lists.at_head (R : Lists v place) {st : Stack} (hh : v.head st = some c) :
    place c = some (.stack st) := by
  obtain ⟨l, hl, hP, -⟩ := R.stack st
  rw [hh] at hl
  cases l with
  | nil => cases hl
  | cons a l =>
    cases hl.1
    exact hP.mem_iff.mp (List.mem_cons_self ..)

theorem Inv.at_hand (I : Inv s place) (hc : (s.threads t).chunk = some c) :
    place c = some (.hand (.thread t)) := (I.lists.hand (.thread t) c).mpr hc

theorem goto_hand {pc : Pc} (u : Who) : (s.goto h t pc).inHand u =
    if u = .thread t then pc.chunk else s.inHand u := by
  cases u with
  | bg => rfl
  | thread u =>
    by_cases e : u = t
    · subst e
      simp [State.goto, State.inHand]
    · simp [State.goto, State.inHand, e]

theorem goto_head {pc : Pc} (st : Stack) : (s.goto h t pc).head st =
    match st with
    | .warm => h.warmHead
    | .queue => h.disposeHead
    | .batch | .trim => s.head st := by
  cases st <;> rfl

theorem SameLists.reset (hs : SameLists h h') {x : ℕ} (hr : HeaderReset q (h.chunks x)) :
    HeaderReset q (h'.chunks x) := by
  rw [hs.chunks x]
  exact ⟨hr.pool, hr.nextFreePage, hr.liveSlabs, hr.pageOwner⟩

theorem SameLists.links (hs : SameLists h h') (x : ℕ) :
    (h'.chunks x).next = (h.chunks x).next ∧ (h'.chunks x).prev = (h.chunks x).prev := by
  rw [hs.chunks x]
  exact ⟨rfl, rfl⟩

/-- A thread goes on with the same chunk in hand and nothing moves. -/
theorem Inv.quiet {pc : Pc} (I : Inv s place) (hq : Quiet s.heap h)
    (hc : pc.chunk = (s.threads t).chunk) (hpc : ∀ q c, pc ≠ .ready q c) :
    Inv (s.goto h t pc) place := by
  have hview : (s.goto h t pc).view = s.view := by
    have hh : (s.goto h t pc).head = s.head := by
      funext st
      rw [goto_head]
      cases st with
      | warm => exact hq.warmHead
      | queue => exact hq.disposeHead
      | _ => rfl
    have hw : (s.goto h t pc).inHand = s.inHand := by
      funext u
      rw [goto_hand]
      split_ifs with e
      · rw [e]
        exact hc
      · rfl
    unfold State.view
    rw [hh, hw]
    simp only [State.goto, hq.mapped, hq.owners, hq.pools, hq.warmCount, (hq.links _).1, (hq.links _).2]
  refine ⟨hview ▸ I.lists, hview ▸ I.space, fun u q x hu => ?_⟩
  by_cases e : u = t
  · subst e
    exact absurd (by simpa [State.goto] using hu) (hpc q x)
  · exact hq.reset (I.ready u q x (by simpa [State.goto, e] using hu))

/-- Headers other than that of `c` are the same, up to the memfd offsets. -/
def SameHeaders (c : ℕ) (h h' : Heap) : Prop :=
  ∀ x, x ≠ c → h'.chunks x = { h.chunks x with memfdOff := (h'.chunks x).memfdOff }

theorem SameHeaders.links (hs : SameHeaders c h h') {x : ℕ} (hx : x ≠ c) :
    (h'.chunks x).next = (h.chunks x).next ∧ (h'.chunks x).prev = (h.chunks x).prev := by
  rw [hs x hx]
  exact ⟨rfl, rfl⟩

theorem SameHeaders.reset (hs : SameHeaders c h h') {x : ℕ} (hx : x ≠ c)
    (hr : HeaderReset q (h.chunks x)) : HeaderReset q (h'.chunks x) := by
  rw [hs x hx]
  exact ⟨hr.pool, hr.nextFreePage, hr.liveSlabs, hr.pageOwner⟩

theorem SameHeaders.modChunk (f : Chunk → Chunk) : SameHeaders c h (h.modChunk c f) := by
  intro x hx
  simp [Heap.modChunk, hx]

/-- Somebody takes chunk `c` from a stack or the kernel, gives it away, or keeps it. -/
theorem Inv.carry (I : Inv s place) (hfrom : ∀ q, place c ≠ some (.pool q))
    (hto : ∀ q, b ≠ some (.pool q)) (hch : SameHeaders c s.heap s'.heap)
    (hpools : s'.heap.pools = s.heap.pools)
    (hpop : ∀ st, place c = some (.stack st) → b ≠ some (.stack st) ∧ s.head st = some c ∧
      s'.head st = (s.heap.chunks c).next ∧ (st = .warm → s'.heap.warmCount = s.heap.warmCount - 1))
    (hpush : ∀ st, b = some (.stack st) → s'.head st = some c ∧
      (s'.heap.chunks c).next = s.head st ∧ (st = .warm → s'.heap.warmCount = s.heap.warmCount + 1))
    (hrest : ∀ st, place c ≠ some (.stack st) → b ≠ some (.stack st) →
      s'.head st = s.head st ∧ (st = .warm → s'.heap.warmCount = s.heap.warmCount))
    (hothers : ∀ u, u ≠ w → s'.inHand u = s.inHand u)
    (hbefore : place c = some (.hand w) ∨ s.inHand w = none ∧ ∀ u, place c ≠ some (.hand u))
    (hafter : b = some (.hand w) ∧ s'.inHand w = some c ∨
      s'.inHand w = none ∧ ∀ u, b ≠ some (.hand u))
    (hspace : Space s'.view (Function.update place c b))
    (hready : ∀ u q x, s'.threads u = .ready q x →
      s.threads u = .ready q x ∧ w ≠ .thread u ∨ HeaderReset q (s'.heap.chunks x)) :
    Inv s' (Function.update place c b) := by
  have hold : s.inHand w = none ∨ s.inHand w = some c := by
    rcases hbefore with e | ⟨e, -⟩
    · exact Or.inr ((I.lists.hand _ _).mp e)
    · exact Or.inl e
  refine ⟨?_, hspace, fun u q x hx => ?_⟩
  · refine I.lists.move hfrom hto (fun x hx => (hch.links hx).1) (fun x hx => (hch.links hx).2) ?_
      hpop hpush hrest (fun u hb => ?_) (fun u hu hb => ?_) (fun u hu hb => ?_)
    · exact congrArg (fun P q => (P q).chunks) hpools
    · rcases hafter with ⟨e, hc⟩ | ⟨-, hno⟩
      · obtain rfl : u = w := by simpa using hb.symm.trans e
        exact ⟨hc, hold⟩
      · exact absurd hb (hno u)
    · rcases hbefore with e | ⟨-, hno⟩
      · obtain rfl : u = w := by simpa using hu.symm.trans e
        rcases hafter with ⟨e', -⟩ | ⟨hc, -⟩
        · exact absurd e' hb
        · exact hc
      · exact absurd hu (hno u)
    · by_cases e : u = w
      · subst e
        -- the chunk is not in this hand, before or after
        have h1 : s.inHand u = none := by
          rcases hbefore with e | ⟨e, -⟩
          · exact absurd e hu
          · exact e
        have h2 : s'.inHand u = none := by
          rcases hafter with ⟨e, -⟩ | ⟨e, -⟩
          · exact absurd e hb
          · exact e
        exact h2.trans h1.symm
      · exact hothers u e
  · rcases hready u q x hx with ⟨hx', hw⟩ | hr
    · have hpl := I.at_hand (t := u) (c := x) (by rw [hx']; rfl)
      refine hch.reset ?_ (I.ready u q x hx')
      rintro rfl
      rcases hbefore with e' | ⟨-, hno⟩
      · exact hw (by simpa using e'.symm.trans hpl)
      · exact hno _ hpl
    · exact hr

/-- `Inv.carry` for a step of thread `t`. -/
theorem Inv.carryThread {pc : Pc} (I : Inv s place) (hfrom : ∀ q, place c ≠ some (.pool q))
    (hto : ∀ q, b ≠ some (.pool q)) (hch : SameHeaders c s.heap h) (hpools : h.pools = s.heap.pools)
    (hpop : ∀ st, place c = some (.stack st) → b ≠ some (.stack st) ∧ s.head st = some c ∧
      (s.goto h t pc).head st = (s.heap.chunks c).next ∧
      (st = .warm → h.warmCount = s.heap.warmCount - 1))
    (hpush : ∀ st, b = some (.stack st) → (s.goto h t pc).head st = some c ∧
      (h.chunks c).next = s.head st ∧ (st = .warm → h.warmCount = s.heap.warmCount + 1))
    (hrest : ∀ st, place c ≠ some (.stack st) → b ≠ some (.stack st) →
      (s.goto h t pc).head st = s.head st ∧ (st = .warm → h.warmCount = s.heap.warmCount))
    (hbefore : place c = some (.hand (.thread t)) ∨
      (s.threads t).chunk = none ∧ ∀ w, place c ≠ some (.hand w))
    (hafter : b = some (.hand (.thread t)) ∧ pc.chunk = some c ∨
      pc.chunk = none ∧ ∀ w, b ≠ some (.hand w))
    (hspace : Space (s.goto h t pc).view (Function.update place c b))
    (hready : ∀ q x, pc = .ready q x → HeaderReset q (h.chunks x)) :
    Inv (s.goto h t pc) (Function.update place c b) := by
  have ht : (s.goto h t pc).inHand (.thread t) = pc.chunk := by rw [goto_hand, if_pos rfl]
  refine I.carry (w := .thread t) hfrom hto hch hpools hpop hpush hrest (fun u e => ?_) hbefore
    (ht ▸ hafter) hspace (fun u q x hx => ?_)
  · rw [goto_hand, if_neg e]
  · by_cases e : u = t
    · subst e
      exact Or.inr (hready q x (by simpa [State.goto] using hx))
    · exact Or.inl ⟨by simpa [State.goto, e] using hx, by simpa using Ne.symm e⟩

/-- What a thread does to the heap and the lists stays as it is. -/
theorem Inv.keep {pc : Pc} (I : Inv s place) (hc : place c = some (.hand (.thread t)))
    (hch : SameHeaders c s.heap h) (hpools : h.pools = s.heap.pools)
    (hwarm : h.warmHead = s.heap.warmHead) (hcount : h.warmCount = s.heap.warmCount)
    (hdisp : h.disposeHead = s.heap.disposeHead) (hm : h.mapped = s.heap.mapped)
    (hr : h.owners = s.heap.owners) (hpc : pc.chunk = some c)
    (hready : ∀ q x, pc = .ready q x → HeaderReset q (h.chunks x)) :
    Inv (s.goto h t pc) (Function.update place c (some (.hand (.thread t)))) := by
  refine I.carryThread (by simp [hc]) (by simp) hch hpools (by simp [hc]) (by simp) (fun st _ _ => ⟨?_, fun _ => hcount⟩)
    (Or.inl hc) (Or.inl ⟨rfl, hpc⟩) (I.space.move hm ?_ (by simp [hc]) (by simp)) hready
  · rw [goto_head]
    cases st with
    | warm => exact hwarm
    | queue => exact hdisp
    | _ => rfl
  · exact congrArg ownerAt hr

/-- A fresh chunk has had no place. -/
theorem Space.place_none (S : Space v place) (hc : c % 2097152 = 0)
    (hf : ∀ p, inPages c chunkSize p = true → v.mapped p = false) : place c = none := by
  by_contra hne
  have e : c / 4096 / 512 * 2097152 = c := by omega
  have hm := (S.mapped (c / 4096)).mpr (by rw [e]; exact hne)
  rw [hf _ ((inPages_chunk hc _).mpr e)] at hm
  cases hm

/-- The region of a chunk. -/
theorem chunk_key (hc : c % 2097152 = 0) {key : ℕ} (hk : key * 2097152 = c) : c >>> chunkShift = key := by
  rw [Nat.shiftRight_eq_div_pow, show 2 ^ chunkShift = 2097152 from rfl]
  omega

/-- The owner words after a chunk was mapped, if its leaf array is there. -/
theorem NewChunk.owner (N : NewChunk k h c h') (hl : LeafReady k h.owners (c >>> chunkShift)) :
    ∀ key < 2 ^ 27, ownerAt h'.owners key = if key * 2097152 = c then c else ownerAt h.owners key := by
  intro key hk
  have hle : c + chunkSize ≤ 2 ^ 47 := N.le
  have hmem := (@mem_regionKeys_chunk _ key) N.aligned hle
  rw [chunkSize_eq] at hmem
  split_ifs with e
  · refine N.stored.backed (hmem.mpr e) ?_
    rw [← chunk_key N.aligned e]
    exact hl
  · exact N.stored.other hk (fun hm => e (hmem.mp hm))

theorem Space.new (S : Space s.view place) (N : NewChunk k s.heap c h) {P : Place}
    (hl : LeafReady k s.heap.owners (c >>> chunkShift)) (hm : v'.mapped = h.mapped) (ho : v'.owner = ownerAt h.owners) :
    Space v' (Function.update place c (some P)) :=
  S.map N.aligned N.pos N.le (fun p => by rw [hm]; exact N.mapped p)
    (fun key hk => by rw [ho]; exact N.owner hl key hk)

/-- `LeafBacked` for the chunk that was mapped. -/
theorem NewChunk.leaf (N : NewChunk k h c h') (hg : ¬ MapRefused cfg k h) (hl : LeafBacked cfg k h) :
    LeafReady k h.owners (c >>> chunkShift) := by
  obtain ⟨raw, hraw, rfl⟩ := N.answer
  exact hl hg raw hraw

/-- What unmapping a chunk does. -/
theorem chunkTrim_frame (hc : c % 2097152 = 0) (hle : c + 2097152 ≤ 2 ^ 47) :
    SameLists h (chunkTrim cfg k h c) ∧
      (∀ p, (chunkTrim cfg k h c).mapped p = (!inPages c chunkSize p && h.mapped p)) ∧
      ∀ key < 2 ^ 27, ownerAt (chunkTrim cfg k h c).owners key =
        if key * 2097152 = c then 0 else ownerAt h.owners key := by
  obtain ⟨l1, cap, freed, e, hst, -⟩ := chunkTrim_eq cfg k h c hle
  rw [e]
  refine ⟨⟨fun _ => rfl, rfl, rfl, rfl, rfl⟩, fun _ => rfl, fun key hk => ?_⟩
  have hmem := (@mem_regionKeys_chunk _ key) hc hle
  rw [chunkSize_eq] at hmem
  dsimp only
  split_ifs with e
  · exact (hst.set (hmem.mpr e)).elim id id
  · exact hst.other hk (fun hm => e (hmem.mp hm))

theorem Inv.mapping (I : Inv s place) (ht : s.threads t = .mapping q) (hl : LeafBacked cfg k s.heap)
    (hst : threadStep cfg k s t = some s') : ∃ place', Inv s' place' := by
  have hnone : (s.threads t).chunk = none := by rw [ht]; rfl
  simp only [threadStep, ht] at hst
  rcases (@mapFresh_frame cfg k s.heap) with ⟨h', e, hq⟩ | ⟨c, h', e, N, hg⟩
  · rw [e] at hst
    cases hst
    exact ⟨place, I.quiet hq (by rw [hnone]; rfl) (by simp)⟩
  · rw [e] at hst
    cases hst
    have hp := I.space.place_none N.aligned N.fresh
    refine ⟨_, I.carryThread (c := c) (b := some (.hand (.thread t))) (by simp [hp]) (by simp)
      (fun x _ => N.same.chunks x) N.same.pools (by simp [hp]) (by simp)
      (fun st _ _ => ⟨?_, fun _ => N.same.warmCount⟩) (Or.inr ⟨hnone, by simp [hp]⟩)
      (Or.inl ⟨rfl, rfl⟩) (I.space.new N (N.leaf hg hl) rfl rfl) (by simp)⟩
    rw [goto_head]
    cases st with
    | warm => exact N.same.warmHead
    | queue => exact N.same.disposeHead
    | _ => rfl

theorem Inv.got (I : Inv s place) (ht : s.threads t = .got q c)
    (hst : threadStep cfg k s t = some s') : ∃ place', Inv s' place' := by
  simp only [threadStep, ht, Option.some.injEq] at hst
  subst hst
  refine ⟨_, I.keep (I.at_hand (by rw [ht]; rfl)) (SameHeaders.modChunk _) rfl rfl rfl rfl rfl rfl rfl ?_⟩
  rintro _ _ ⟨⟩
  simp only [chunkInitHeader, Heap.modChunk, Function.update_self]
  exact ⟨rfl, rfl, rfl, fun _ => rfl⟩

/-- What linking chunk `c` to a pool does. -/
theorem attachChunk_frame (hne : (h.pools q).chunks ≠ some c) :
    ((attachChunk h q c).chunks c).next = (h.pools q).chunks ∧
    ((attachChunk h q c).chunks c).prev = none ∧
    (∀ x, x ≠ c → (attachChunk h q c).chunks x = { h.chunks x with
      prev := if (h.pools q).chunks = some x then some c else (h.chunks x).prev }) ∧
    (attachChunk h q c).pools = Function.update h.pools q
      { h.pools q with chunks := some c, active := some c } ∧
    Quiet { h with chunks := (attachChunk h q c).chunks, pools := (attachChunk h q c).pools }
      (attachChunk h q c) := by
  unfold attachChunk
  cases hp : (h.pools q).chunks with
  | none =>
    refine ⟨by simp [Heap.modChunk, Heap.modPool], by simp [Heap.modChunk, Heap.modPool],
      fun x e => ?_, rfl, ⟨fun _ => rfl, rfl, rfl, rfl, rfl⟩, rfl, rfl⟩
    simp [Heap.modChunk, Heap.modPool, e]
  | some a =>
    have hca : c ≠ a := fun e => hne (by rw [hp, e])
    refine ⟨by simp [Heap.modChunk, Heap.modPool, hca], by simp [Heap.modChunk, Heap.modPool, hca],
      fun x e => ?_, rfl, ⟨fun _ => rfl, rfl, rfl, rfl, rfl⟩, rfl, rfl⟩
    by_cases e' : x = a
    · subst e'
      simp [Heap.modChunk, Heap.modPool, e]
    · simp [Heap.modChunk, Heap.modPool, e, e', Ne.symm e']

theorem Inv.attach (I : Inv s place) (ht : s.threads t = .ready q c)
    (hst : threadStep cfg k s t = some s') : ∃ place', Inv s' place' := by
  have hc := I.at_hand (t := t) (c := c) (by rw [ht]; rfl)
  have hne : (s.heap.pools q).chunks ≠ some c := by
    intro e
    obtain ⟨l, hl, hP⟩ := I.lists.pool q
    have hh := hl.head_eq
    change (s.heap.pools q).chunks = l.head? at hh
    have hm := hP.mem_iff.mp (List.mem_of_head? (hh.symm.trans e))
    rw [hc] at hm
    cases hm
  obtain ⟨en, ep, e1, e2, hq⟩ := attachChunk_frame hne
  simp only [threadStep, ht, Option.some.injEq] at hst
  subst hst
  refine ⟨Function.update place c (some (.pool q)), ?_, ?_, ?_⟩
  · refine I.lists.attach hc en ep (fun x hx => ?_) (fun x hx => ?_) ?_ ?_ hq.warmCount
      (fun u hu => ?_) ?_
    · show ((attachChunk s.heap q c).chunks x).next = _
      rw [e1 x hx]
      rfl
    · show ((attachChunk s.heap q c).chunks x).prev = _
      rw [e1 x hx]
      rfl
    · funext q'
      show ((attachChunk s.heap q c).pools q').chunks = _
      rw [e2]
      by_cases e : q' = q
      · subst e
        simp
      · simp [e, State.view]
    · funext st
      show (s.goto _ t .idle).head st = s.head st
      rw [goto_head]
      cases st with
      | warm => exact hq.warmHead
      | queue => exact hq.disposeHead
      | _ => rfl
    · show (s.goto _ t .idle).inHand u = s.inHand u
      rw [goto_hand, if_neg hu]
    · show (s.goto _ t .idle).inHand (.thread t) = none
      rw [goto_hand, if_pos rfl]
      rfl
  · exact I.space.move hq.mapped (congrArg ownerAt hq.owners) (by simp [hc]) (by simp)
  · intro u q' x hu
    by_cases e : u = t
    · subst e
      simp [State.goto] at hu
    · have hu' : s.threads u = .ready q' x := by simpa [State.goto, e] using hu
      have hx : x ≠ c := by
        rintro rfl
        have := (I.at_hand (t := u) (c := x) (by rw [hu']; rfl)).symm.trans hc
        exact e (by simpa using this)
      have hr := I.ready u q' x hu'
      show HeaderReset q' ((attachChunk s.heap q c).chunks x)
      rw [e1 x hx]
      exact ⟨hr.pool, hr.nextFreePage, hr.liveSlabs, hr.pageOwner⟩

/-- What a pool's walk finds is on its list. -/
theorem mem_of_walk {nx : ℕ → Option ℕ} {hd : Option ℕ} {l : List ℕ} (hl : Chain nx hd l) {fuel : ℕ}
    (hm : c ∈ walk nx fuel hd) : c ∈ l := by
  induction l generalizing hd fuel with
  | nil =>
    have hn : hd = none := hl
    subst hn
    cases fuel <;> cases hm
  | cons a l ih =>
    obtain ⟨rfl, hl⟩ := hl
    cases fuel with
    | zero => cases hm
    | succ fuel =>
      rcases List.mem_cons.mp hm with rfl | hm
      · exact List.mem_cons_self ..
      · exact List.mem_cons_of_mem _ (ih hl hm)

theorem Inv.at_pool (I : Inv s place) (hc : onPoolList s.heap q c = true) :
    place c = some (.pool q) := by
  obtain ⟨l, hl, hP⟩ := I.lists.pool q
  exact hP.mem_iff.mp (mem_of_walk hl.chain (List.contains_iff_mem.mp hc))

/-- A pool lets go of chunk `c`. -/
theorem leavePool_eq : (leavePool h q c).chunks = unlinkChunks h.chunks c ∧
    (∀ q', ((leavePool h q c).pools q').chunks = Function.update (fun q => (h.pools q).chunks) q
      (if (h.chunks c).prev = none then (h.chunks c).next else (h.pools q).chunks) q') ∧
    Quiet { h with chunks := (leavePool h q c).chunks, pools := (leavePool h q c).pools }
      (leavePool h q c) := by
  unfold leavePool
  by_cases e : (h.pools q).active = some c
  · rw [if_pos e, chunkUnlink_eq]
    refine ⟨rfl, fun q' => ?_, ⟨fun _ => rfl, rfl, rfl, rfl, rfl⟩, rfl, rfl⟩
    by_cases eq : q' = q
    · subst eq
      simp [Heap.modPool]
    · simp [Heap.modPool, eq]
  · rw [if_neg e, chunkUnlink_eq]
    refine ⟨rfl, fun q' => ?_, ⟨fun _ => rfl, rfl, rfl, rfl, rfl⟩, rfl, rfl⟩
    by_cases eq : q' = q
    · subst eq
      simp
    · simp [eq]

theorem Inv.dispose (I : Inv s place) (hst : step cfg s (.dispose t q c) = some s') :
    ∃ place', Inv s' place' := by
  simp only [step] at hst
  split at hst
  case h_2 => cases hst
  case h_1 ht hon =>
    cases hst
    have hc := I.at_pool hon
    obtain ⟨e1, e2, hq⟩ := leavePool_eq (h := s.heap) (q := q) (c := c)
    refine ⟨Function.update place c (some (.hand (.thread t))), ?_, ?_, ?_⟩
    · refine I.lists.unlink (w := .thread t) hc (fun x hx => ?_) (fun x hx => ?_) (funext e2) ?_ hq.warmCount
        (fun u hu => ?_) ?_ ?_
      · show ((leavePool s.heap q c).chunks x).next = _
        rw [e1]
        simp only [unlinkChunks, if_neg hx]
        by_cases hp : (s.heap.chunks c).prev = some x
        · exact (if_pos hp).trans (if_pos hp).symm
        · exact (if_neg hp).trans (if_neg hp).symm
      · show ((leavePool s.heap q c).chunks x).prev = _
        rw [e1]
        simp only [unlinkChunks, if_neg hx]
        by_cases hn : (s.heap.chunks c).next = some x
        · exact (if_pos hn).trans (if_pos hn).symm
        · exact (if_neg hn).trans (if_neg hn).symm
      · funext st
        show (s.goto _ t (.unlinked c)).head st = s.head st
        rw [goto_head]
        cases st with
        | warm => exact hq.warmHead
        | queue => exact hq.disposeHead
        | _ => rfl
      · show (s.goto _ t (.unlinked c)).inHand u = s.inHand u
        rw [goto_hand, if_neg hu]
      · show (s.threads t).chunk = none
        rw [ht]
        rfl
      · show (s.goto _ t (.unlinked c)).inHand (.thread t) = some c
        rw [goto_hand, if_pos rfl]
        rfl
    · exact I.space.move hq.mapped (congrArg ownerAt hq.owners) (by simp [hc]) (by simp)
    · intro u q' x hu
      by_cases e : u = t
      · subst e
        simp [State.goto] at hu
      · have hr := I.ready u q' x (by simpa [State.goto, e] using hu)
        show HeaderReset q' ((leavePool s.heap q c).chunks x)
        rw [e1]
        exact ⟨hr.pool, hr.nextFreePage, hr.liveSlabs, hr.pageOwner⟩

theorem Inv.obtain (I : Inv s place) (hst : step cfg s (.obtain t q) = some s') :
    ∃ place', Inv s' place' := by
  simp only [step] at hst
  split at hst
  case h_3 => cases hst
  case h_2 ht hw =>
    cases hst
    exact ⟨place, I.quiet Quiet.refl (by rw [ht]; rfl) (by simp)⟩
  case h_1 c ht hw =>
    cases hst
    have hc := (@Lists.at_head _ _ _ I.lists .warm) hw
    refine ⟨_, I.carryThread (c := c) (b := some (.hand (.thread t))) (by simp [hc]) (by simp)
      (fun x _ => rfl) rfl (fun st hs => ?_) (by simp) (fun st hs _ => ?_)
      (Or.inr ⟨by rw [ht]; rfl, by simp [hc]⟩) (Or.inl ⟨rfl, rfl⟩)
      (I.space.move rfl rfl (by simp [hc]) (by simp)) (by simp)⟩
    · obtain rfl : st = .warm := by simpa using hs.symm.trans hc
      exact ⟨by simp, hw, rfl, fun _ => rfl⟩
    · cases st with
      | warm => exact absurd hc hs
      | _ => exact ⟨rfl, by simp⟩

theorem warmPush_same : SameHeaders c h (warmPush h c) ∧ (warmPush h c).pools = h.pools ∧
    ((warmPush h c).chunks c).next = h.warmHead := by
  refine ⟨fun x hx => ?_, rfl, ?_⟩
  · simp [warmPush, Heap.modChunk, hx]
  · simp [warmPush, Heap.modChunk]

theorem btmReleasePages_quiet (vaddr off len : ℕ) : Quiet h (btmReleasePages cfg h vaddr off len) := by
  unfold btmReleasePages
  split_ifs <;> exact ⟨⟨fun _ => rfl, rfl, rfl, rfl, rfl⟩, rfl, rfl⟩

theorem madviseNote_quiet (a len : ℕ) (e : Event) : Quiet h ((h.madviseDontneed a len).note e) :=
  ⟨⟨fun _ => rfl, rfl, rfl, rfl, rfl⟩, rfl, rfl⟩

theorem decommitOne_quiet (ring : Bool) : Quiet h (decommitOne cfg ring h c) := by
  unfold decommitOne chunkDecommit
  split_ifs
  · exact btmReleasePages_quiet ..
  · exact madviseNote_quiet ..

theorem Inv.giveAway (I : Inv s place)
    (ht : s.threads t = .unlinked c ∨ s.threads t = .queueing c ∨ s.threads t = .warming c ∨
      s.threads t = .trimming c)
    (hst : threadStep cfg k s t = some s') : ∃ place', Inv s' place' := by
  have hch : (s.threads t).chunk = some c := by rcases ht with e | e | e | e <;> rw [e] <;> rfl
  have hc := I.at_hand hch
  have hfrom : ∀ q, place c ≠ some (.pool q) := by simp [hc]
  have hpop : ∀ st, place c ≠ some (.stack st) := by simp [hc]
  rcases ht with e | e | e | e
  · simp only [threadStep, e] at hst
    split_ifs at hst
    · cases hst
      exact ⟨place, I.quiet ⟨⟨fun _ => rfl, rfl, rfl, rfl, rfl⟩, rfl, rfl⟩ (by rw [hch]; rfl) (by simp)⟩
    · cases hst
      have hnote : Quiet s.heap (s.heap.note (.dispose c (s.heap.chunks c).pool)) :=
        ⟨⟨fun _ => rfl, rfl, rfl, rfl, rfl⟩, rfl, rfl⟩
      exact ⟨place, I.quiet (hnote.trans (btmReleasePages_quiet ..)) (by rw [hch]; rfl) (by simp)⟩
  · simp only [threadStep, e, Option.some.injEq] at hst
    subst hst
    refine ⟨_, I.carryThread (c := c) (b := some (.stack .queue)) hfrom (by simp)
      (SameHeaders.modChunk (h := s.heap) fun x => { x with next := s.heap.disposeHead }) rfl
      (fun st hs => absurd hs (hpop st)) (fun st hs => ?_) (fun st _ hs => ?_) (Or.inl hc)
      (Or.inr ⟨rfl, by simp⟩) (I.space.move rfl rfl (by simp [hc]) (by simp)) (by simp)⟩
    · obtain rfl : st = .queue := by simpa using hs.symm
      exact ⟨rfl, by simp [queuePush, Heap.modChunk, State.head], by simp⟩
    · cases st with
      | queue => exact absurd rfl hs
      | _ => exact ⟨rfl, fun _ => rfl⟩
  · simp only [threadStep, e] at hst
    split_ifs at hst
    · cases hst
      obtain ⟨w1, w2, w3⟩ := warmPush_same (h := s.heap) (c := c)
      refine ⟨_, I.carryThread (c := c) (b := some (.stack .warm)) hfrom (by simp) w1 w2
        (fun st hs => absurd hs (hpop st)) (fun st hs => ?_) (fun st _ hs => ?_) (Or.inl hc)
        (Or.inr ⟨rfl, by simp⟩) (I.space.move rfl rfl (by simp [hc]) (by simp)) (by simp)⟩
      · obtain rfl : st = .warm := by simpa using hs.symm
        exact ⟨rfl, w3, fun _ => rfl⟩
      · cases st with
        | warm => exact absurd rfl hs
        | _ => exact ⟨rfl, by simp⟩
    · cases hst
      exact ⟨place, I.quiet Quiet.refl (by rw [hch]; rfl) (by simp)⟩
  · simp only [threadStep, e, Option.some.injEq] at hst
    subst hst
    obtain ⟨a1, -, a3⟩ := I.space.aligned c (by simp [hc])
    obtain ⟨f1, f2, f3⟩ := (@chunkTrim_frame _ cfg k s.heap) a1 a3
    refine ⟨_, I.carryThread (c := c) (b := none) hfrom (by simp) (fun x _ => f1.chunks x) f1.pools
      (fun st hs => absurd hs (hpop st)) (by simp) (fun st _ _ => ⟨?_, fun _ => f1.warmCount⟩)
      (Or.inl hc) (Or.inr ⟨rfl, by simp⟩) (I.space.unmap (by simp [hc]) f2 f3) (by simp)⟩
    rw [goto_head]
    cases st with
    | warm => exact f1.warmHead
    | queue => exact f1.disposeHead
    | _ => rfl

/-! ## The maintenance thread -/

/-- A step in which no chunk moves. -/
theorem Inv.still (I : Inv s place) (hq : Quiet s.heap s'.heap) (hth : s'.threads = s.threads)
    (hb : s'.head .batch = s.head .batch) (ht : s'.head .trim = s.head .trim)
    (hh : s'.inHand .bg = s.inHand .bg) : Inv s' place := by
  have hview : s'.view = s.view := by
    have e1 : s'.head = s.head := by
      funext st
      cases st with
      | warm => exact hq.warmHead
      | queue => exact hq.disposeHead
      | batch => exact hb
      | trim => exact ht
    have e2 : s'.inHand = s.inHand := by
      funext u
      cases u with
      | bg => exact hh
      | thread u => simp only [State.inHand, hth]
    unfold State.view
    rw [e1, e2]
    simp only [hq.mapped, hq.owners, hq.pools, hq.warmCount, (hq.links _).1, (hq.links _).2]
  exact ⟨hview ▸ I.lists, hview ▸ I.space, fun u q x hu => hq.reset (I.ready u q x (hth ▸ hu))⟩

/-- `Inv.carry` for a step of the maintenance thread. -/
theorem Inv.carryBg (I : Inv s place) (hth : s'.threads = s.threads)
    (hfrom : ∀ q, place c ≠ some (.pool q))
    (hto : ∀ q, b ≠ some (.pool q)) (hch : SameHeaders c s.heap s'.heap)
    (hpools : s'.heap.pools = s.heap.pools)
    (hpop : ∀ st, place c = some (.stack st) → b ≠ some (.stack st) ∧ s.head st = some c ∧
      s'.head st = (s.heap.chunks c).next ∧ (st = .warm → s'.heap.warmCount = s.heap.warmCount - 1))
    (hpush : ∀ st, b = some (.stack st) → s'.head st = some c ∧
      (s'.heap.chunks c).next = s.head st ∧ (st = .warm → s'.heap.warmCount = s.heap.warmCount + 1))
    (hrest : ∀ st, place c ≠ some (.stack st) → b ≠ some (.stack st) →
      s'.head st = s.head st ∧ (st = .warm → s'.heap.warmCount = s.heap.warmCount))
    (hbefore : place c = some (.hand .bg) ∨ s.inHand .bg = none ∧ ∀ u, place c ≠ some (.hand u))
    (hafter : b = some (.hand .bg) ∧ s'.inHand .bg = some c ∨
      s'.inHand .bg = none ∧ ∀ u, b ≠ some (.hand u))
    (hspace : Space s'.view (Function.update place c b)) : Inv s' (Function.update place c b) := by
  refine I.carry (w := .bg) hfrom hto hch hpools hpop hpush hrest (fun u e => ?_) hbefore hafter hspace
    (fun u q x hx => Or.inl ⟨hth ▸ hx, by simp⟩)
  cases u with
  | bg => exact absurd rfl e
  | thread u => simp only [State.inHand, hth]

theorem Inv.premap {deficit : ℤ} {ring : Bool} (I : Inv s place)
    (hb : s.bg = some (.loop (.premap deficit)))
    (hl : 0 < deficit → LeafBacked cfg k s.heap) (hst : maintain cfg k ring s = some s') :
    ∃ place', Inv s' place' := by
  simp only [maintain, hb] at hst
  split_ifs at hst with hd
  · cases hst
    exact ⟨place, I.still Quiet.refl rfl (by simp [State.head, hb]) (by simp [State.head, hb])
      (by simp [State.inHand, hb])⟩
  · rcases (@mapFresh_frame cfg k s.heap) with ⟨h', e, hq⟩ | ⟨c, h', e, N, hg⟩
    · rw [e] at hst
      cases hst
      exact ⟨place, I.still hq rfl (by simp [State.head, hb]) (by simp [State.head, hb])
        (by simp [State.inHand, hb])⟩
    · rw [e] at hst
      cases hst
      have hp := I.space.place_none N.aligned N.fresh
      refine ⟨_, I.carryBg (c := c) (b := some (.hand .bg)) rfl (by simp [hp]) (by simp)
        (fun x _ => N.same.chunks x) N.same.pools (by simp [hp]) (by simp)
        (fun st _ _ => ⟨?_, fun _ => N.same.warmCount⟩)
        (Or.inr ⟨by simp [State.inHand, hb], by simp [hp]⟩) (Or.inl ⟨rfl, rfl⟩)
        (I.space.new N (N.leaf hg (hl (by omega))) rfl rfl)⟩
      cases st with
      | warm => exact N.same.warmHead
      | queue => exact N.same.disposeHead
      | batch => simp [State.head, hb]
      | trim => simp [State.head, hb]

theorem Inv.pushing {deficit : ℤ} {ring : Bool} (I : Inv s place)
    (hb : s.bg = some (.pushing c deficit)) (hst : maintain cfg k ring s = some s') :
    ∃ place', Inv s' place' := by
  simp only [maintain, hb, Option.some.injEq] at hst
  subst hst
  have hc : place c = some (.hand .bg) :=
    (I.lists.hand .bg c).mpr (by show s.inHand .bg = some c; simp [State.inHand, hb])
  obtain ⟨w1, w2, w3⟩ := warmPush_same (h := s.heap) (c := c)
  refine ⟨_, I.carryBg (c := c) (b := some (.stack .warm)) rfl (by simp [hc]) (by simp) w1 w2
    (by simp [hc]) (fun st hs => ?_) (fun st _ hs => ?_) (Or.inl hc) (Or.inr ⟨rfl, by simp⟩)
    (I.space.move rfl rfl (by simp [hc]) (by simp))⟩
  · obtain rfl : st = .warm := by simpa using hs.symm
    exact ⟨rfl, w3, fun _ => rfl⟩
  · cases st with
    | warm => exact absurd rfl hs
    | queue => exact ⟨rfl, by simp⟩
    | batch => exact ⟨by simp [State.head, hb], by simp⟩
    | trim => exact ⟨by simp [State.head, hb], by simp⟩

theorem Inv.loop {pc pc' : BgPc} {ring : Bool} (I : Inv s place) (hb : s.bg = some (.loop pc))
    (hpre : ∀ deficit, pc ≠ .premap deficit) (hst : bgStep cfg k ring s.heap pc = some (h, pc')) :
    ∃ place', Inv { s with heap := h, bg := some (.loop pc') } place' := by
  have hnone : s.inHand .bg = none := by simp [State.inHand, hb]
  cases pc with
  | premap deficit => exact absurd rfl (hpre deficit)
  | wait =>
    simp only [bgStep] at hst
    split_ifs at hst
    cases hst
    refine ⟨fun x => if place x = some (.stack .queue) then some (.stack .batch) else place x, ?_, ?_,
      I.ready⟩
    · refine I.lists.take ?_ (fun x e => if_pos e) (fun x e => if_neg e) rfl rfl rfl rfl rfl
        (fun st h1 h2 => ?_) rfl ?_
      · show s.head .batch = none
        simp [State.head, hb]
      · cases st with
        | warm => rfl
        | queue => exact absurd rfl h2
        | batch => exact absurd rfl h1
        | trim => show _ = s.head .trim; simp [State.head, hb, State.view]
      · funext u
        cases u with
        | thread u => rfl
        | bg => exact hnone.symm
    · refine I.space.congr rfl rfl (fun x => ?_)
      by_cases e : place x = some (.stack .queue)
      · simp [e]
      · simp [e]
  | release disp cur =>
    cases cur with
    | none =>
      simp only [bgStep, Option.some.injEq, Prod.mk.injEq] at hst
      obtain ⟨rfl, rfl⟩ := hst
      exact ⟨place, I.still Quiet.refl rfl (by simp [State.head, hb]) (by simp [State.head, hb]) hnone.symm⟩
    | some c =>
      simp only [bgStep, Option.some.injEq, Prod.mk.injEq] at hst
      obtain ⟨rfl, rfl⟩ := hst
      exact ⟨place, I.still (decommitOne_quiet ring) rfl (by simp [State.head, hb])
        (by simp [State.head, hb]) hnone.symm⟩
  | giveBack disp trim =>
    cases disp with
    | none =>
      simp only [bgStep, Option.some.injEq, Prod.mk.injEq] at hst
      obtain ⟨rfl, rfl⟩ := hst
      exact ⟨place, I.still Quiet.refl rfl (by simp [State.head, hb]) (by simp [State.head, hb]) hnone.symm⟩
    | some c =>
      have hc : place c = some (.stack .batch) :=
        I.lists.at_head (by show s.head .batch = some c; simp [State.head, hb])
      simp only [bgStep] at hst
      split_ifs at hst
      · simp only [Option.some.injEq, Prod.mk.injEq] at hst
        obtain ⟨rfl, rfl⟩ := hst
        obtain ⟨w1, w2, w3⟩ := warmPush_same (h := s.heap) (c := c)
        refine ⟨_, I.carryBg (c := c) (b := some (.stack .warm)) rfl (by simp [hc]) (by simp) w1 w2
          (fun st hs => ?_) (fun st hs => ?_) (fun st hs hs' => ?_) (Or.inr ⟨hnone, by simp [hc]⟩)
          (Or.inr ⟨rfl, by simp⟩) (I.space.move rfl rfl (by simp [hc]) (by simp))⟩
        · obtain rfl : st = .batch := by simpa using hs.symm.trans hc
          exact ⟨by simp, by simp [State.head, hb], rfl, by simp⟩
        · obtain rfl : st = .warm := by simpa using hs.symm
          exact ⟨rfl, w3, fun _ => rfl⟩
        · cases st with
          | warm => exact absurd rfl hs'
          | queue => exact ⟨rfl, by simp⟩
          | batch => exact absurd hc hs
          | trim => exact ⟨by simp [State.head, hb], by simp⟩
      · simp only [Option.some.injEq, Prod.mk.injEq] at hst
        obtain ⟨rfl, rfl⟩ := hst
        refine ⟨_, I.carryBg (c := c) (b := some (.stack .trim)) rfl (by simp [hc]) (by simp)
          (SameHeaders.modChunk (h := s.heap) fun x => { x with next := trim }) rfl
          (fun st hs => ?_) (fun st hs => ?_) (fun st hs hs' => ?_) (Or.inr ⟨hnone, by simp [hc]⟩)
          (Or.inr ⟨rfl, by simp⟩) (I.space.move rfl rfl (by simp [hc]) (by simp))⟩
        · obtain rfl : st = .batch := by simpa using hs.symm.trans hc
          exact ⟨by simp, by simp [State.head, hb], rfl, by simp⟩
        · obtain rfl : st = .trim := by simpa using hs.symm
          exact ⟨rfl, by simp [Heap.modChunk, State.head, hb], by simp⟩
        · cases st with
          | warm => exact ⟨rfl, fun _ => rfl⟩
          | queue => exact ⟨rfl, by simp⟩
          | batch => exact absurd hc hs
          | trim => exact absurd rfl hs'
  | trim cs deficit =>
    cases cs with
    | none =>
      simp only [bgStep, Option.some.injEq, Prod.mk.injEq] at hst
      obtain ⟨rfl, rfl⟩ := hst
      exact ⟨place, I.still Quiet.refl rfl (by simp [State.head, hb]) (by simp [State.head, hb]) hnone.symm⟩
    | some c =>
      have hc : place c = some (.stack .trim) :=
        I.lists.at_head (by show s.head .trim = some c; simp [State.head, hb])
      simp only [bgStep, Option.some.injEq, Prod.mk.injEq] at hst
      obtain ⟨rfl, rfl⟩ := hst
      obtain ⟨a1, -, a3⟩ := I.space.aligned c (by simp [hc])
      obtain ⟨f1, f2, f3⟩ := (@chunkTrim_frame _ cfg k s.heap) a1 a3
      refine ⟨_, I.carryBg (c := c) (b := none) rfl (by simp [hc]) (by simp) (fun x _ => f1.chunks x)
        f1.pools (fun st hs => ?_) (by simp) (fun st hs _ => ?_) (Or.inr ⟨hnone, by simp [hc]⟩)
        (Or.inr ⟨rfl, by simp⟩) (I.space.unmap (by simp [hc]) f2 f3)⟩
      · obtain rfl : st = .trim := by simpa using hs.symm.trans hc
        exact ⟨by simp, by simp [State.head, hb], rfl, by simp⟩
      · cases st with
        | warm => exact ⟨f1.warmHead, fun _ => f1.warmCount⟩
        | queue => exact ⟨f1.disposeHead, by simp⟩
        | batch => exact ⟨by simp [State.head, hb], by simp⟩
        | trim => exact absurd hc hs

theorem Inv.maintain {ring : Bool} (I : Inv s place) (hok : LeavesBacked cfg s (.bg k ring))
    (hst : maintain cfg k ring s = some s') : ∃ place', Inv s' place' := by
  cases hb : s.bg with
  | none => rw [ChunkFlow.maintain, hb] at hst; cases hst
  | some at' =>
    cases at' with
    | pushing c deficit => exact I.pushing hb hst
    | loop pc =>
      by_cases hp : ∃ deficit, pc = .premap deficit
      · obtain ⟨deficit, rfl⟩ := hp
        exact I.premap hb (hok deficit hb) hst
      · have hpre : ∀ deficit, pc ≠ .premap deficit := fun d e => hp ⟨d, e⟩
        cases hbg : bgStep cfg k ring s.heap pc with
        | none =>
          rw [ChunkFlow.maintain, hb] at hst
          cases pc <;> simp_all
        | some r =>
          obtain ⟨h, pc'⟩ := r
          have e : s' = { s with heap := h, bg := some (.loop pc') } := by
            rw [ChunkFlow.maintain, hb] at hst
            cases pc <;> simp_all
          rw [e]
          exact I.loop hb hpre hbg

theorem Inv.step {a : Action} (I : Inv s place) (hok : LeavesBacked cfg s a)
    (hst : step cfg s a = some s') : ∃ place', Inv s' place' := by
  cases a with
  | obtain t q => exact I.obtain hst
  | dispose t q c => exact I.dispose hst
  | next t k =>
    have hst : threadStep cfg k s t = some s' := hst
    cases ht : s.threads t with
    | idle => rw [threadStep, ht] at hst; cases hst
    | mapping q => exact I.mapping ht (hok q ht) hst
    | got q c => exact I.got ht hst
    | ready q c => exact I.attach ht hst
    | unlinked c => exact I.giveAway (Or.inl ht) hst
    | queueing c => exact I.giveAway (Or.inr (Or.inl ht)) hst
    | warming c => exact I.giveAway (Or.inr (Or.inr (Or.inl ht))) hst
    | trimming c => exact I.giveAway (Or.inr (Or.inr (Or.inr ht))) hst
  | carve q c nextFreePage liveSlabs pageOwner =>
    simp only [ChunkFlow.step] at hst
    split_ifs at hst with hon
    cases hst
    have hc := I.at_pool hon
    have hl : ∀ x, ((s.heap.modChunk c fun x => { x with nextFreePage, liveSlabs, pageOwner }).chunks x).next =
          (s.heap.chunks x).next ∧
        ((s.heap.modChunk c fun x => { x with nextFreePage, liveSlabs, pageOwner }).chunks x).prev =
          (s.heap.chunks x).prev := by
      intro x
      by_cases e : x = c
      · subst e
        simp [Heap.modChunk]
      · simp [Heap.modChunk, e]
    have hview : State.view { s with
        heap := s.heap.modChunk c fun x => { x with nextFreePage, liveSlabs, pageOwner } } = s.view := by
      unfold State.view
      dsimp only
      simp only [hl]
      rfl
    refine ⟨place, hview ▸ I.lists, hview ▸ I.space, fun u q' x hu => ?_⟩
    refine SameHeaders.reset (c := c) (h := s.heap)
      (SameHeaders.modChunk fun x => { x with nextFreePage, liveSlabs, pageOwner }) ?_ (I.ready u q' x hu)
    rintro rfl
    have := (I.at_hand (t := u) (c := x) (by rw [show s.threads u = _ from hu]; rfl)).symm.trans hc
    cases this
  | bgCreate =>
    simp only [ChunkFlow.step] at hst
    split at hst
    · cases hst
      exact ⟨place, I.still Quiet.refl rfl (by simp [State.head, *]) (by simp [State.head, *])
        (by simp [State.inHand, *])⟩
    · cases hst
  | bgAsync =>
    simp only [ChunkFlow.step] at hst
    split at hst
    · cases hst
    · cases hst
      exact ⟨place, I.still ⟨⟨fun _ => rfl, rfl, rfl, rfl, rfl⟩, rfl, rfl⟩ rfl rfl rfl rfl⟩
  | bg k ring => exact I.maintain hok hst

theorem Inv.init : Inv State.init (fun _ => none) := by
  refine ⟨⟨fun q => ⟨[], rfl, Listing.nil (by simp)⟩, fun st => ⟨[], ?_, Listing.nil (by simp), fun _ => rfl⟩,
    fun w x => ?_⟩, ⟨fun p => ?_, by simp, fun key _ => ?_⟩, fun t q c h => by cases h⟩
  · cases st <;> rfl
  · cases w <;> simp [State.view, State.init, State.inHand, Pc.chunk]
  · simp [State.view, State.init, Heap.init]
  · simp [State.view, State.init, Heap.init, ownerAt, radixAt]

theorem Inv.of_run {as : List Action} (h : Run (ChunkFlow.step cfg) (LeavesBacked cfg) State.init as s) :
    ∃ place, Inv s place :=
  h.invariant (fun s => ∃ place, Inv s place) (fun _ _ _ ⟨_, I⟩ hok hst => I.step hok hst)
    ⟨_, Inv.init⟩

/-! ## What every state satisfies -/

theorem Inv.at_iff (I : Inv s place) (p : Place) (c : ℕ) : s.At p c ↔ place c = some p := by
  cases p with
  | pool q =>
    obtain ⟨l, hl, hP⟩ := I.lists.pool q
    constructor
    · rintro ⟨l', hl', hc⟩
      rw [hl'.chain.unique hl.chain] at hc
      exact hP.mem_iff.mp hc
    · exact fun hc => ⟨l, hl, hP.mem_iff.mpr hc⟩
  | stack st =>
    obtain ⟨l, hl, hP, -⟩ := I.lists.stack st
    constructor
    · rintro ⟨l', hl', hc⟩
      rw [hl'.unique hl] at hc
      exact hP.mem_iff.mp hc
    · exact fun hc => ⟨l, hl, hP.mem_iff.mpr hc⟩
  | hand w => exact (I.lists.hand w c).symm

theorem Inv.chunkMapped_iff (I : Inv s place) (c : ℕ) : ChunkMapped s.heap c ↔ place c ≠ none := by
  simp only [ChunkMapped, chunkSize_eq, pageSize_eq, show pagesPerChunk = 512 from rfl]
  constructor
  · rintro ⟨hc, hm⟩
    have h := (I.space.mapped (c / 4096 + 0)).mp (hm 0 (by omega))
    rwa [show (c / 4096 + 0) / 512 * 2097152 = c by omega] at h
  · intro hne
    have hc := (I.space.aligned c hne).1
    refine ⟨hc, fun j hj => (I.space.mapped _).mpr ?_⟩
    rwa [show (c / 4096 + j) / 512 * 2097152 = c by omega]

theorem Inv.conserved (I : Inv s place) : Conserved s := by
  have lookup : ∀ ptr < 2 ^ 48, btmRegistryLookup s.heap ptr =
      if place (ptr / 2097152 * 2097152) = none then 0 else ptr / 2097152 * 2097152 := by
    intro ptr hp
    have e : ptr >>> chunkShift = ptr / 2097152 := Nat.shiftRight_eq_div_pow ptr 21
    rw [btmRegistryLookup, e]
    exact I.space.owner _ (by omega)
  refine ⟨fun c hc => ?_, fun p c hc => ?_, fun p hp => ?_, fun q => ?_, fun st => ?_,
    fun ptr hp hm => ?_, fun ptr hp hm => ?_, fun t q c ht => ⟨I.ready t q c ht, fun p hp => ?_⟩⟩
  · obtain ⟨p, hp⟩ := Option.ne_none_iff_exists'.mp ((I.chunkMapped_iff c).mp hc)
    refine ⟨p, (I.at_iff p c).mpr hp, fun p' hp' => ?_⟩
    exact Option.some.inj (((I.at_iff p' c).mp hp').symm.trans hp)
  · rw [I.chunkMapped_iff, (I.at_iff p c).mp hc]
    simp
  · rw [I.chunkMapped_iff]
    exact (I.space.mapped p).mp hp
  · obtain ⟨l, hl, -⟩ := I.lists.pool q
    exact ⟨l, hl⟩
  · obtain ⟨l, hl, -, hn⟩ := I.lists.stack st
    exact ⟨l, hl, hn⟩
  · rw [I.chunkMapped_iff, chunkSize_eq] at hm
    rw [lookup ptr hp, if_neg hm, chunkSize_eq]
  · rw [I.chunkMapped_iff, not_not, chunkSize_eq] at hm
    rw [lookup ptr hp, if_pos hm]
  · have := (I.at_iff p c).mp hp
    rw [I.at_hand (t := t) (by rw [ht]; rfl)] at this
    exact (Option.some.inj this).symm

/-- In a run in which the owner table can hold every new chunk, chunks are conserved. -/
theorem chunks_conserved {as : List Action}
    (h : Run (ChunkFlow.step cfg) (LeavesBacked cfg) State.init as s) : Conserved s := by
  obtain ⟨place, I⟩ := Inv.of_run h
  exact I.conserved

/-! ## Without interruption

A thread that is not interrupted does what the functions of the allocator do. -/

section Uninterrupted

variable {cfg : Config} {k : Kernel} {s : State} {t : ℕ}

theorem goto_goto (s : State) (h h' : Heap) (t : ℕ) (pc pc' : Pc) :
    (s.goto h t pc).goto h' t pc' = s.goto h' t pc' := by
  simp only [State.goto, Function.update_idem]

theorem threads_goto (s : State) (h : Heap) (t : ℕ) (pc : Pc) : (s.goto h t pc).threads t = pc :=
  Function.update_self ..

/-- Where `btm_chunk_obtain` leaves its thread. -/
def obtained (q : PoolId) : Option ℕ → Pc
  | none => .idle
  | some c => .ready q c

theorem obtain_uninterrupted (q : PoolId) (hidle : s.threads t = .idle) :
    ∃ n, exec (step cfg) s (.obtain t q :: List.replicate n (.next t k)) =
      some (s.goto (btmChunkObtain cfg k s.heap q).2 t
        (obtained q (btmChunkObtain cfg k s.heap q).1)) := by
  cases hw : s.heap.warmHead with
  | some c =>
    refine ⟨1, ?_⟩
    simp only [List.replicate, exec, step, hidle, hw, threadStep, threads_goto, goto_goto,
      btmChunkObtain, obtained]
    rfl
  | none =>
    cases hm : mapFresh cfg k s.heap with
    | mk r h =>
      cases r with
      | none =>
        refine ⟨1, ?_⟩
        have hheap : (s.goto s.heap t (.mapping q)).heap = s.heap := rfl
        simp only [List.replicate, exec, step, hidle, hw, threadStep, threads_goto, hheap, hm, goto_goto,
          btmChunkObtain, obtained]
      | some c =>
        refine ⟨2, ?_⟩
        have hheap : (s.goto s.heap t (.mapping q)).heap = s.heap := rfl
        have hheap' : (s.goto h t (.got q c)).heap = h := rfl
        simp only [List.replicate, exec, step, hidle, hw, threadStep, threads_goto, hheap, hheap', hm,
          goto_goto, btmChunkObtain, obtained]

theorem dispose_uninterrupted {c : ℕ} (hpc : s.threads t = .unlinked c) :
    ∃ n, exec (step cfg) s (List.replicate n (.next t k)) =
      some (s.goto (btmChunkDispose cfg k s.heap c) t .idle) := by
  have hheap : ∀ h pc, (s.goto h t pc).heap = h := fun _ _ => rfl
  unfold btmChunkDispose
  dsimp only
  -- what the queue and the warm stack hold is read after the note
  generalize hh : s.heap.note (.dispose c (s.heap.chunks c).pool) = h
  by_cases hasync : h.bgAsync = true
  · refine ⟨2, ?_⟩
    rw [if_pos hasync]
    simp only [List.replicate, exec, step, threadStep, hpc, hh, hasync, threads_goto, hheap, goto_goto,
      if_true, queuePush]
  · rw [if_neg hasync]
    have hfirst : step cfg s (.next t k) = some (s.goto (chunkDecommit cfg h c) t (.warming c)) := by
      simp only [step, threadStep, hpc, hh, hasync, if_false, Bool.false_eq_true]
    by_cases hwarm : (chunkDecommit cfg h c).warmCount < warmHigh
    · refine ⟨2, ?_⟩
      rw [if_pos hwarm]
      simp only [List.replicate, exec, hfirst]
      simp only [step, threadStep, threads_goto, hheap, goto_goto, if_pos hwarm]
    · refine ⟨3, ?_⟩
      rw [if_neg hwarm]
      simp only [List.replicate, exec, hfirst]
      simp only [step, threadStep, threads_goto, hheap, goto_goto, if_neg hwarm]

end Uninterrupted

/-! ## Two runs -/

/-- The kernel maps a chunk at 4 MiB; `leaf` says whether it maps leaf arrays. -/
def chunkAt (leaf : Bool) : Kernel := { Kernel.plain with chunk := some 4194304, leaf := fun _ => leaf }

/-- Thread 0 obtains a chunk that the kernel maps. -/
def obtainFresh (leaf : Bool) : List Action :=
  [.obtain 0 ⟨0, 0⟩, .next 0 (chunkAt leaf), .next 0 (chunkAt leaf)]

/-- The chunk is linked, used, disposed of, and obtained again from the warm stack. -/
def recycle : List Action :=
  [.next 0 (chunkAt true), .carve ⟨0, 0⟩ 4194304 8 0 (fun _ => 7), .dispose 0 ⟨0, 0⟩ 4194304,
    .next 0 (chunkAt true), .next 0 (chunkAt true), .obtain 0 ⟨0, 0⟩, .next 0 (chunkAt true)]

/-- `LeafBacked` for wherever the kernel would put a chunk. -/
def leafTest (s : State) : Action → Bool
  | .next _ k | .bg k _ => k.chunk.all fun raw => decide (LeafReady k s.heap.owners (chunkBase raw >>> chunkShift))
  | _ => true

theorem leafTest_backed {a : Action} (h : leafTest s a = true) : LeavesBacked cfg s a := by
  have backed : ∀ {k : Kernel}, (k.chunk.all fun raw =>
      decide (LeafReady k s.heap.owners (chunkBase raw >>> chunkShift))) = true → LeafBacked cfg k s.heap := by
    intro k hk _ raw hraw
    rw [hraw] at hk
    exact of_decide_eq_true hk
  cases a with
  | next t k => exact fun _ _ => backed h
  | bg k ring => exact fun _ _ _ => backed h
  | _ => trivial

set_option maxRecDepth 100000 in
/-- A chunk is used, recycled and obtained again. -/
theorem chunks_conserved_recycled :
    ∃ s, Run (ChunkFlow.step Config.plain) (LeavesBacked Config.plain) State.init
        (obtainFresh true ++ recycle) s ∧
      s.threads 0 = .ready ⟨0, 0⟩ 4194304 ∧ Conserved s := by
  have hchecks : checks (ChunkFlow.step Config.plain) leafTest State.init (obtainFresh true ++ recycle) = true := by
    decide +kernel
  have hrun : Run (ChunkFlow.step Config.plain) (LeavesBacked Config.plain) _ _ _ ∧ _ :=
    run_of_checks (P := fun _ => True) hchecks trivial (fun _ _ _ => leafTest_backed)
      (fun _ _ _ _ _ _ => trivial)
  exact ⟨_, hrun.1, by decide +kernel, chunks_conserved hrun.1⟩

set_option maxRecDepth 100000 in
/-- The leaf array cannot be mapped: the chunk that `btm_chunk_obtain` returns is mapped and not
    registered. -/
theorem obtained_unregistered :
    ∃ s, Run (ChunkFlow.step Config.plain) (fun _ _ => True) State.init (obtainFresh false) s ∧
      s.threads 0 = .ready ⟨0, 0⟩ 4194304 ∧ ChunkMapped s.heap 4194304 ∧
      btmRegistryLookup s.heap 4194304 = 0 := by
  refine ⟨_, run_of_exec (exec_eq_finish (by decide +kernel)), by decide +kernel, ⟨by decide, ?_⟩,
    by decide +kernel⟩
  decide +kernel

end BtMalloc.ChunkFlow
