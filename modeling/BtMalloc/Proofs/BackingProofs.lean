import BtMalloc.Backing
import BtMalloc.Proofs.SizeClassProofs

/-!
# The backing store: proofs

memfd offsets are never shared, and `decommit_batch` releases the data pages of its chunks exactly if
it does not use the ring.
-/

namespace BtMalloc.Backing

open LinkedList Transition

/-! ## The free stack -/

theorem copyLoop_lt (old : ℕ → ℕ) {n i : ℕ} (h : i < n) : copyLoop old n i = old i := by
  induction n with
  | zero => omega
  | succ n ih =>
    unfold copyLoop
    by_cases hi : i = n
    · rw [hi, Function.update_self]
    · rw [Function.update_of_ne hi, ih (by omega)]

/-- The stack grows by copying into a larger array, or stays as it is. -/
theorem growStack_cases (grow : Bool) (m : Memfd) :
    growStack grow m = m ∨
      ∃ cap, growStack grow m = { m with free := copyLoop m.free m.freeN, freeCap := cap } := by
  unfold growStack
  dsimp only
  generalize (if m.freeCap = 0 then 64 else m.freeCap * 2 % 2 ^ 32) = ncap
  split
  · split
    · exact Or.inr ⟨ncap, rfl⟩
    · exact Or.inl rfl
  · exact Or.inl rfl

/-- Growing the stack keeps what is on it. -/
theorem growStack_stack (grow : Bool) (m : Memfd) : (growStack grow m).stack = m.stack := by
  rcases growStack_cases grow m with e | ⟨cap, e⟩
  · rw [e]
  · rw [e]
    exact List.map_congr_left fun i hi => copyLoop_lt m.free (List.mem_range.mp hi)

theorem growStack_frame (grow : Bool) (m : Memfd) :
    (growStack grow m).bump = m.bump ∧ (growStack grow m).size = m.size := by
  rcases growStack_cases grow m with e | ⟨cap, e⟩
  · rw [e]
    exact ⟨rfl, rfl⟩
  · rw [e]
    exact ⟨rfl, rfl⟩

theorem stack_push (m : Memfd) (off : ℕ) :
    ({ m with free := Function.update m.free m.freeN off, freeN := m.freeN + 1 } : Memfd).stack =
      m.stack ++ [off] := by
  unfold Memfd.stack
  dsimp only
  rw [List.range_succ, List.map_append, List.map_singleton, Function.update_self]
  congr 1
  exact List.map_congr_left fun i hi =>
    Function.update_of_ne (by have := List.mem_range.mp hi; omega) ..

/-- `memfd_free_off` pushes the offset, or drops it. -/
theorem memfdFreeOff_stack (grow : Bool) (off : ℕ) (m : Memfd) :
    (memfdFreeOff grow off m).stack = m.stack ++ [off] ∨
      (memfdFreeOff grow off m).stack = m.stack := by
  unfold memfdFreeOff
  dsimp only
  split
  · left
    rw [stack_push, growStack_stack]
  · right
    exact growStack_stack grow m

theorem memfdFreeOff_frame (grow : Bool) (off : ℕ) (m : Memfd) :
    (memfdFreeOff grow off m).bump = m.bump ∧ (memfdFreeOff grow off m).size = m.size := by
  have h := growStack_frame grow m
  unfold memfdFreeOff
  dsimp only
  split
  · exact h
  · exact h

theorem stack_pop {m : Memfd} (h : 0 < m.freeN) :
    m.stack = ({ m with freeN := m.freeN - 1 } : Memfd).stack ++ [m.free (m.freeN - 1)] := by
  unfold Memfd.stack
  dsimp only
  obtain ⟨n, hn⟩ : ∃ n, m.freeN = n + 1 := ⟨m.freeN - 1, by omega⟩
  rw [hn, List.range_succ, List.map_append, List.map_singleton, Nat.add_sub_cancel]

/-! ## Offsets -/

/-- All offsets ever given out lie below `bump`, and `bump` inside the file. -/
structure Inv (s : State) : Prop where
  bump : s.memfd.bump % chunkSize = 0 ∧ s.memfd.bump ≤ s.memfd.size ∧ s.memfd.size < 2 ^ 63
  below : ∀ off ∈ s.allocated ++ s.memfd.stack, off % chunkSize = 0 ∧ off + chunkSize ≤ s.memfd.bump
  nodup : (s.allocated ++ s.memfd.stack).Nodup

theorem Inv.init : Inv State.init := ⟨⟨rfl, le_refl _, by decide⟩, by simp [State.init, Memfd.stack, Memfd.init],
  by simp [State.init, Memfd.stack, Memfd.init]⟩

theorem Inv.unshared {s : State} (I : Inv s) : Unshared s := by
  have hn := List.nodup_append.mp I.nodup
  refine ⟨hn.1, fun off ho => ?_, hn.2.1, fun off ho hs => hn.2.2 off ho off hs rfl⟩
  have h1 := I.below off (List.mem_append_left _ ho)
  have h2 := I.bump
  exact ⟨h1.1, by omega⟩

/-- With an empty stack `memfd_alloc_off` takes the next offset of the file; no sum wraps. -/
theorem memfdAllocOff_bump {m : Memfd} (hle : m.bump ≤ m.size) (hlt : m.size < 2 ^ 63)
    (hn : m.freeN = 0) (trunc : Bool) :
    memfdAllocOff trunc m =
      if m.size < m.bump + chunkSize then
        if trunc && (max (m.size + 256 * chunkSize) (m.bump + chunkSize)).blt (2 ^ 63) then
          (some m.bump, { m with
            bump := m.bump + chunkSize
            size := max (m.size + 256 * chunkSize) (m.bump + chunkSize) })
        else (none, m)
      else (some m.bump, { m with bump := m.bump + chunkSize }) := by
  have hbump : (m.bump + chunkSize) % 2 ^ 64 = m.bump + chunkSize :=
    Nat.mod_eq_of_lt (by rw [chunkSize_eq]; omega)
  have hwant : (m.size + 256 * chunkSize) % 2 ^ 64 = m.size + 256 * chunkSize :=
    Nat.mod_eq_of_lt (by rw [chunkSize_eq]; omega)
  have hback : (m.bump + chunkSize + 2 ^ 64 - chunkSize) % 2 ^ 64 = m.bump := by
    rw [chunkSize_eq]; omega
  have hmax : (if m.size + 256 * chunkSize < m.bump + chunkSize then m.bump + chunkSize
      else m.size + 256 * chunkSize) = max (m.size + 256 * chunkSize) (m.bump + chunkSize) := by
    split <;> omega
  unfold memfdAllocOff
  rw [if_neg (by omega)]
  dsimp only
  rw [hbump, hwant, hback, hmax]

/-- What `memfd_alloc_off` does: pop the stack, take the next offset of the file, or fail. -/
theorem memfdAllocOff_cases {m : Memfd} (hb : m.bump % chunkSize = 0 ∧ m.bump ≤ m.size ∧ m.size < 2 ^ 63)
    (trunc : Bool) :
    (0 < m.freeN ∧ memfdAllocOff trunc m =
      (some (m.free (m.freeN - 1)), { m with freeN := m.freeN - 1 })) ∨
    (m.freeN = 0 ∧ ∃ size, m.size ≤ size ∧ m.bump + chunkSize ≤ size ∧ size < 2 ^ 63 ∧
      memfdAllocOff trunc m =
        (some m.bump, { m with bump := m.bump + chunkSize, size := size })) ∨
    memfdAllocOff trunc m = (none, m) := by
  rcases Nat.eq_zero_or_pos m.freeN with hn | hn
  · right
    rw [memfdAllocOff_bump hb.2.1 hb.2.2 hn]
    split
    · split
      · rename_i ht
        rw [Bool.and_eq_true, Nat.blt_eq] at ht
        exact Or.inl ⟨hn, _, by omega, by omega, ht.2, rfl⟩
      · exact Or.inr rfl
    · exact Or.inl ⟨hn, m.size, le_refl _, by omega, hb.2.2, rfl⟩
  · exact Or.inl ⟨hn, if_pos hn⟩

/-- The same offsets are in use after one moved between the client and the stack. -/
theorem Inv.perm {s t : State} (I : Inv s)
    (hp : (t.allocated ++ t.memfd.stack).Perm (s.allocated ++ s.memfd.stack))
    (hb : t.memfd.bump = s.memfd.bump) (hs : t.memfd.size = s.memfd.size) : Inv t := by
  refine ⟨by rw [hb, hs]; exact I.bump, fun off ho => ?_, hp.nodup_iff.mpr I.nodup⟩
  rw [hb]
  exact I.below off (hp.mem_iff.mp ho)

theorem Inv.alloc {s t : State} {trunc : Bool} (I : Inv s) (h : step s (.alloc trunc) = some t) :
    Inv t := by
  dsimp only [Backing.step] at h
  rcases memfdAllocOff_cases I.bump trunc with ⟨hn, e⟩ | ⟨hn, size, hge, hbump, hlt, e⟩ | e
  · -- an offset comes off the stack
    rw [e] at h
    cases h
    refine I.perm ?_ rfl rfl
    rw [stack_pop hn, ← List.append_assoc]
    exact (List.perm_append_singleton _ _).symm
  · -- the next offset of the file: all others are below it
    rw [e] at h
    cases h
    have hstack : s.memfd.stack = [] := by rw [Memfd.stack, hn]; rfl
    have hb := I.bump
    have hmem : ∀ off ∈ s.allocated, off % chunkSize = 0 ∧ off + chunkSize ≤ s.memfd.bump :=
      fun off ho => I.below off (List.mem_append_left _ ho)
    have hnodup : s.allocated.Nodup := (List.nodup_append.mp I.nodup).1
    refine ⟨⟨?_, hbump, hlt⟩, fun off ho => ?_, ?_⟩
    · dsimp only
      rw [Nat.add_mod_right]
      exact hb.1
    · have ho : off ∈ s.memfd.bump :: s.allocated ++ s.memfd.stack := ho
      rw [hstack, List.append_nil] at ho
      rcases List.mem_cons.mp ho with rfl | ho
      · exact ⟨hb.1, le_refl _⟩
      · exact ⟨(hmem off ho).1, le_trans (hmem off ho).2 (Nat.le_add_right ..)⟩
    · show (s.memfd.bump :: s.allocated ++ s.memfd.stack).Nodup
      rw [hstack, List.append_nil, List.nodup_cons]
      refine ⟨fun ho => ?_, hnodup⟩
      have := (hmem _ ho).2
      rw [chunkSize_eq] at this
      omega
  · rw [e] at h
    cases h
    exact I

theorem Inv.free {s t : State} {off : ℕ} {grow : Bool} (I : Inv s)
    (h : step s (.free off grow) = some t) : Inv t := by
  dsimp only [Backing.step] at h
  split at h
  case isFalse => cases h
  rename_i ho
  cases h
  obtain ⟨hb, hs⟩ := memfdFreeOff_frame grow off s.memfd
  have hperm : (s.allocated.erase off ++ (s.memfd.stack ++ [off])).Perm
      (s.allocated ++ s.memfd.stack) := by
    rw [← List.append_assoc]
    refine (List.perm_append_singleton _ _).trans ?_
    exact (List.perm_cons_erase ho).symm.append_right _
  rcases memfdFreeOff_stack grow off s.memfd with e | e
  · refine I.perm ?_ hb hs
    dsimp only
    rw [e]
    exact hperm
  · -- the offset is dropped
    have hsub : List.Sublist (s.allocated.erase off ++ s.memfd.stack)
        (s.allocated ++ s.memfd.stack) := List.Sublist.append (List.erase_sublist ..) (List.Sublist.refl _)
    refine ⟨?_, fun x hx => ?_, ?_⟩
    · dsimp only
      rw [hb, hs]
      exact I.bump
    · dsimp only at hx ⊢
      rw [e] at hx
      rw [hb]
      exact I.below x (hsub.mem hx)
    · dsimp only
      rw [e]
      exact I.nodup.sublist hsub

theorem Inv.step {s t : State} {a : Action} (I : Inv s) (h : step s a = some t) : Inv t := by
  cases a with
  | alloc trunc => exact I.alloc h
  | free off grow => exact I.free h

/-- In every reachable state no offset is shared. A failing `memfd_alloc_off` changes nothing, and
    `memfd_free_off` keeps what is on the stack. -/
theorem memfd_offsets_unshared {as : List Action} {s : State}
    (h : Run step (fun _ _ => True) State.init as s) :
    Unshared s ∧
      (∀ trunc m, memfdAllocOff trunc s.memfd = (none, m) → m = s.memfd) ∧
      ∀ off grow, (memfdFreeOff grow off s.memfd).stack = s.memfd.stack ++ [off] ∨
        (memfdFreeOff grow off s.memfd).stack = s.memfd.stack := by
  have I : Inv s := h.invariant Inv (fun _ _ _ I _ hst => I.step hst) Inv.init
  refine ⟨I.unshared, fun trunc m hm => ?_, fun off grow => memfdFreeOff_stack grow off s.memfd⟩
  rcases memfdAllocOff_cases I.bump trunc with ⟨-, e⟩ | ⟨-, size, -, -, -, e⟩ | e
  · rw [e] at hm
    cases hm
  · rw [e] at hm
    cases hm
  · rw [e] at hm
    exact (Prod.mk.inj hm).2.symm

/-- Two offsets are given out, one comes back and is given out again. -/
theorem memfd_offsets_unshared_reused :
    ∃ s, Run step (fun _ _ => True) State.init
        [.alloc true, .alloc true, .free 0 true, .alloc true] s ∧
      s.allocated = [0, 2097152] ∧ Unshared s := by
  have hex : (exec step State.init [.alloc true, .alloc true, .free 0 true, .alloc true]).isSome := by
    decide +kernel
  have hrun := run_of_exec (exec_eq_finish hex)
  exact ⟨_, hrun, by decide +kernel, (memfd_offsets_unshared hrun).1⟩

/-! ## The stack as a list -/

/-- The heap's fields stand for the memfd. -/
structure Shows (m : Memfd) (h : Heap) : Prop where
  bump : h.memfdBump = m.bump
  size : h.memfdSize = m.size
  free : h.memfdFree = m.stack.reverse
  cap : h.memfdFreeCap = m.freeCap

/-- `memfd_alloc_off` on the heap is the one on words. -/
theorem memfdAllocOff_shows {m : Memfd} {h : Heap} (S : Shows m h) (hle : m.bump ≤ m.size)
    (hlt : m.size < 2 ^ 63) (k : Kernel) :
    (BtMalloc.memfdAllocOff k h).1 = (memfdAllocOff k.trunc m).1 ∧
      Shows (memfdAllocOff k.trunc m).2 (BtMalloc.memfdAllocOff k h).2 := by
  rcases Nat.eq_zero_or_pos m.freeN with hn | hn
  · have hstack : m.stack = [] := by rw [Memfd.stack, hn]; rfl
    have hfree : h.memfdFree = [] := by rw [S.free, hstack]; rfl
    have hrev : [] = m.stack.reverse := by rw [hstack]; rfl
    rw [memfdAllocOff_bump hle hlt hn]
    unfold BtMalloc.memfdAllocOff
    rw [hfree]
    dsimp only
    rw [S.bump, S.size]
    split
    · split
      · exact ⟨rfl, rfl, rfl, hrev, S.cap⟩
      · exact ⟨rfl, S⟩
    · exact ⟨rfl, rfl, rfl, hrev, S.cap⟩
  · have hfree := S.free
    rw [stack_pop hn, List.reverse_append, List.reverse_singleton, List.singleton_append] at hfree
    unfold BtMalloc.memfdAllocOff memfdAllocOff
    rw [hfree, if_pos hn]
    exact ⟨rfl, S.bump, S.size, rfl, S.cap⟩

theorem Shows.length {m : Memfd} {h : Heap} (S : Shows m h) : h.memfdFree.length = m.freeN := by
  rw [S.free, List.length_reverse, Memfd.stack, List.length_map, List.length_range]

/-- `memfd_free_off` on the heap is the one on words. -/
theorem memfdFreeOff_shows {m : Memfd} {h : Heap} (S : Shows m h) (k : Kernel) (off : ℕ) :
    Shows (memfdFreeOff (k.stack off) off m) (BtMalloc.memfdFreeOff k h off) := by
  unfold memfdFreeOff BtMalloc.memfdFreeOff
  dsimp only
  generalize hg : (if h.memfdFree.length = h.memfdFreeCap then _ else h : Heap) = h₁
  have S₁ : Shows (growStack (k.stack off) m) h₁ := by
    have hstack := growStack_stack (k.stack off) m
    unfold growStack at hstack ⊢
    dsimp only at hstack ⊢
    rw [S.length, S.cap] at hg
    rw [← hg]
    generalize (if m.freeCap = 0 then 64 else m.freeCap * 2 % 2 ^ 32) = ncap at hstack ⊢
    by_cases hfull : m.freeN = m.freeCap
    · rw [if_pos hfull] at hstack ⊢
      rw [if_pos hfull]
      by_cases hmap : (k.stack off && (0).blt ncap) = true
      · rw [if_pos hmap] at hstack ⊢
        rw [if_pos hmap]
        exact ⟨S.bump, S.size, by rw [hstack]; exact S.free, rfl⟩
      · rw [if_neg hmap, if_neg hmap]
        exact S
    · rw [if_neg hfull, if_neg hfull]
      exact S
  rw [S₁.length, S₁.cap]
  split
  · refine ⟨S₁.bump, S₁.size, ?_, rfl⟩
    rw [stack_push, List.reverse_append, ← S₁.free]
    rfl
  · exact S₁

/-! ## Releasing a batch -/

section Decommit

variable {cfg : Config} {ringOk : Bool} {sqe : ℕ → Bool × Bool}

/-- The chunk goes through the ring. -/
def viaRing (cfg : Config) (ringOk : Bool) (a : Bool × Bool) : Bool :=
  !cfg.meshMode && (ringOk && (a.1 || a.2))

/-- The release of chunk `c`: all but the metadata pages, or as many pages from page 1 on. -/
def releaseOf (ring : Bool) (c : ℕ) : Event :=
  .release (c / pageSize + if ring then 1 else dataStartPage) (pagesPerChunk - dataStartPage)

theorem btmReleasePages_log (cfg : Config) (h : Heap) (v off len : ℕ) :
    (btmReleasePages cfg h v off len).chunks = h.chunks ∧
      (btmReleasePages cfg h v off len).log = .release (v / pageSize) (len / pageSize) :: h.log := by
  unfold btmReleasePages
  cases cfg.meshMode <;> exact ⟨rfl, rfl⟩

theorem madviseDontneed_log (h : Heap) (v len : ℕ) (e : Event) :
    ((h.madviseDontneed v len).note e).chunks = h.chunks ∧
      ((h.madviseDontneed v len).note e).log = e :: h.log := ⟨rfl, rfl⟩

theorem decommitOne_spec (cfg : Config) (ringOk : Bool) (a : Bool × Bool) (h : Heap) (c : ℕ) :
    (decommitOne cfg (ringOk && (a.1 || a.2)) h c).chunks = h.chunks ∧
      (decommitOne cfg (ringOk && (a.1 || a.2)) h c).log =
        releaseOf (viaRing cfg ringOk a) c :: h.log := by
  have hdata : (c + kDataOff) / pageSize = c / pageSize + dataStartPage :=
    Nat.add_mul_div_right c dataStartPage (by decide)
  have hpage : (c + pageSize) / pageSize = c / pageSize + 1 := Nat.add_div_right c (by decide)
  have hlen : kData / pageSize = pagesPerChunk - dataStartPage := rfl
  unfold decommitOne chunkDecommit viaRing releaseOf
  generalize (ringOk && (a.1 || a.2)) = ring
  by_cases hsync : (cfg.meshMode || !ring) = true
  · have hring : (!cfg.meshMode && ring) = false := by
      rw [Bool.or_eq_true, Bool.not_eq_true'] at hsync
      rcases hsync with h | h <;> simp [h]
    rw [if_pos hsync, hring, if_neg Bool.false_ne_true, ← hdata, ← hlen]
    exact btmReleasePages_log ..
  · have hring : (!cfg.meshMode && ring) = true := by
      rw [Bool.not_eq_true, Bool.or_eq_false_iff, Bool.not_eq_false'] at hsync
      simp [hsync]
    rw [if_neg hsync, hring, if_pos rfl, hpage, hlen]
    exact madviseDontneed_log ..

/-- The releases of a batch, from its `i`-th chunk on. -/
def releases (cfg : Config) (ringOk : Bool) (sqe : ℕ → Bool × Bool) : ℕ → List ℕ → List Event
  | _, [] => []
  | i, c :: l => releaseOf (viaRing cfg ringOk (sqe i)) c :: releases cfg ringOk sqe (i + 1) l

theorem decommitBatch_log {fuel i : ℕ} {head : Option ℕ} {l : List ℕ} {h : Heap}
    (hc : Chain (fun c => (h.chunks c).next) head l) (hf : l.length ≤ fuel) :
    (decommitBatch cfg ringOk sqe fuel i head h).log =
      (releases cfg ringOk sqe i l).reverse ++ h.log := by
  induction l generalizing fuel i head h with
  | nil =>
    have hn : head = none := hc
    subst hn
    cases fuel <;> rfl
  | cons c l ih =>
    obtain ⟨rfl, hc⟩ := hc
    cases fuel with
    | zero => simp at hf
    | succ fuel =>
      obtain ⟨hchunks, hlog⟩ := decommitOne_spec cfg ringOk (sqe i) h c
      unfold decommitBatch
      dsimp only
      rw [hchunks, ih (by rw [hchunks]; exact hc) (by simpa using hf), hlog, releases,
        List.reverse_cons, List.append_assoc]
      rfl

theorem mem_releases {i : ℕ} {l : List ℕ} {e : Event} : e ∈ releases cfg ringOk sqe i l ↔
    ∃ j c, l[j]? = some c ∧ e = releaseOf (viaRing cfg ringOk (sqe (i + j))) c := by
  induction l generalizing i with
  | nil => simp [releases]
  | cons c l ih =>
    rw [releases, List.mem_cons, ih]
    constructor
    · rintro (rfl | ⟨j, c', hj, rfl⟩)
      · exact ⟨0, c, rfl, rfl⟩
      · exact ⟨j + 1, c', hj, by rw [Nat.add_right_comm, Nat.add_assoc]⟩
    · rintro ⟨j, c', hj, rfl⟩
      cases j with
      | zero =>
        obtain rfl : c = c' := Option.some.inj hj
        exact Or.inl rfl
      | succ j => exact Or.inr ⟨j, c', hj, by rw [Nat.add_right_comm, Nat.add_assoc]⟩

/-- Without the ring the releases are the data pages, chunk by chunk. -/
theorem releases_eq_map {i : ℕ} {l : List ℕ}
    (h : ∀ j < l.length, viaRing cfg ringOk (sqe (i + j)) = false) :
    releases cfg ringOk sqe i l = l.map (releaseOf false) := by
  induction l generalizing i with
  | nil => rfl
  | cons c l ih =>
    rw [releases, List.map_cons]
    have h0 : viaRing cfg ringOk (sqe i) = false := h 0 (by simp)
    rw [h0, ih fun j hj => by rw [Nat.add_right_comm, Nat.add_assoc]; exact h (j + 1) (by simpa using hj)]

theorem viaRing_false_iff {n : ℕ} :
    (∀ i < n, viaRing cfg ringOk (sqe i) = false) ↔ WithoutRing cfg ringOk sqe n := by
  unfold viaRing WithoutRing
  cases cfg.meshMode with
  | true => simp
  | false =>
    cases ringOk with
    | false => simp
    | true => simp [Prod.ext_iff]

theorem releaseOf_injOn {l : List ℕ} (hal : ∀ c ∈ l, c % chunkSize = 0) {c c' : ℕ} (hc : c ∈ l)
    (hc' : c' ∈ l) (h : releaseOf false c = releaseOf false c') : c = c' := by
  have h1 := hal c hc
  have h2 := hal c' hc'
  simp only [releaseOf, Event.release.injEq, and_true, chunkSize_eq, pageSize_eq] at h h1 h2
  omega

theorem dataReleased_of_map {l : List ℕ} (hal : ∀ c ∈ l, c % chunkSize = 0) (hnd : l.Nodup) :
    DataReleased l (l.map (releaseOf false)).reverse := by
  refine ⟨fun p => ?_, fun c hc => ?_⟩
  · constructor
    · rintro ⟨e, he, a, n, rfl, h1, h2⟩
      rw [List.mem_reverse, List.mem_map] at he
      obtain ⟨c, hc, he⟩ := he
      simp only [releaseOf, Event.release.injEq, pagesPerChunk_eq, dataStartPage_eq, Bool.false_eq_true, if_false] at he
      refine ⟨c, hc, ?_⟩
      rw [dataStartPage_eq, pagesPerChunk_eq]
      omega
    · rintro ⟨c, hc, h1, h2⟩
      refine ⟨releaseOf false c, ?_, _, _, rfl, h1, ?_⟩
      · rw [List.mem_reverse]
        exact List.mem_map_of_mem hc
      · simp only [dataStartPage_eq, pagesPerChunk_eq, Bool.false_eq_true, if_false] at h1 h2 ⊢
        omega
  · rw [List.count_reverse]
    have hinj : (l.map (releaseOf false)).Nodup :=
      hnd.map_on fun c hc c' hc' => releaseOf_injOn hal hc hc'
    exact List.count_eq_one_of_mem hinj (List.mem_map_of_mem hc)

/-- `decommit_batch` releases exactly the data pages of its chunks, each chunk once, if and only if no
    chunk goes through the ring. -/
theorem decommit_batch_iff {fuel : ℕ} {head : Option ℕ} {l : List ℕ} {h : Heap}
    (hc : Chain (fun c => (h.chunks c).next) head l) (hf : l.length ≤ fuel)
    (hal : ∀ c ∈ l, c % chunkSize = 0) (hnd : l.Nodup) :
    (∃ ev, (decommitBatch cfg ringOk sqe fuel 0 head h).log = ev ++ h.log ∧ DataReleased l ev) ↔
      WithoutRing cfg ringOk sqe l.length := by
  rw [decommitBatch_log hc hf, ← viaRing_false_iff]
  constructor
  · rintro ⟨ev, he, D⟩ i hi
    obtain rfl := List.append_cancel_right he
    by_contra hring
    rw [Bool.not_eq_false] at hring
    -- the first page behind the header of this chunk is released
    obtain ⟨c, hc⟩ : ∃ c, l[i]? = some c := ⟨_, List.getElem?_eq_getElem hi⟩
    obtain ⟨c', hc', h1, h2⟩ := (D.pages (c / pageSize + 1)).mp
      ⟨releaseOf true c, by
        rw [List.mem_reverse, mem_releases]
        exact ⟨i, c, hc, by rw [Nat.zero_add, hring]⟩,
        c / pageSize + 1, pagesPerChunk - dataStartPage, rfl, le_refl _,
        Nat.lt_add_of_pos_right (by decide)⟩
    have hal1 := hal c (List.mem_of_getElem? hc)
    have hal2 := hal c' hc'
    simp only [chunkSize_eq, pageSize_eq, dataStartPage_eq, pagesPerChunk_eq] at h1 h2 hal1 hal2
    omega
  · intro hno
    refine ⟨_, rfl, ?_⟩
    rw [releases_eq_map fun j hj => by rw [Nat.zero_add]; exact hno j hj]
    exact dataReleased_of_map hal hnd

/-- A heap whose dispose queue has the chunks at 4 MiB and 2 MiB. -/
def twoChunks : Heap :=
  { Heap.init.modChunk 4194304 fun x => { x with next := some 2097152 } with disposeHead := some 4194304 }

theorem twoChunks_chain :
    Chain (fun c => (twoChunks.chunks c).next) twoChunks.disposeHead [4194304, 2097152] := by
  have h1 : (twoChunks.chunks 4194304).next = some 2097152 := by decide +kernel
  have h2 : (twoChunks.chunks 2097152).next = none := by decide +kernel
  exact ⟨rfl, h1, h2⟩

/-- With a ring that has no entry left for either chunk, their data pages are released. -/
theorem decommit_batch_sync :
    ∃ ev, (decommitBatch Config.plain true (fun _ => (false, false)) 2 0 twoChunks.disposeHead
      twoChunks).log = ev ++ twoChunks.log ∧ DataReleased [4194304, 2097152] ev :=
  (decommit_batch_iff twoChunks_chain (le_refl _) (by decide) (by decide)).mpr
    (Or.inr (Or.inr fun _ _ => rfl))

/-- A heap whose dispose queue is the chunk at 2 MiB. -/
def oneChunk : Heap := { Heap.init with disposeHead := some 2097152 }

/-- Through the ring, the pages from 1 on are released: the descriptors are wiped, and the last six
    data pages stay. -/
theorem decommit_batch_ring :
    (decommitBatch Config.plain true (fun _ => (true, true)) 1 0 oneChunk.disposeHead oneChunk).log =
      [.release (512 + 1) 505] ∧ ¬ DataReleased [2097152] [.release (512 + 1) 505] := by
  refine ⟨by decide +kernel, fun D => ?_⟩
  obtain ⟨c, hc, h1, -⟩ := (D.pages 513).mp ⟨_, List.mem_singleton_self _, _, _, rfl, by decide, by decide⟩
  rw [List.mem_singleton.mp hc] at h1
  exact absurd h1 (by decide)

end Decommit

end BtMalloc.Backing
