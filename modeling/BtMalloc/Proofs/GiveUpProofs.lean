import BtMalloc.Proofs.EffectProofs

/-!
# Proofs: a chunk leaves its pool

When the last slab in use of a chunk drains, the pool takes the chunk's empty slabs off its lists,
forgets it as the active chunk and unlinks it. What is left is a chunk that is in no list.
-/

namespace BtMalloc

open LinkedList PagedMemory Word

variable {cfg : Config} {k : Kernel} {X : ℕ → Prop} {h : Heap} {bins : ℕ → ℕ → Bin} {L : Ledger}
  {q : PoolId} {r : SlabRef} {c : ℕ}

/-- A list of carved slabs is far shorter than the fuel of the loops over such lists. -/
theorem Ledger.Sound.slabs_length_lt (S : L.Sound cfg) {l : List SlabRef} (hnd : l.Nodup)
    (hl : ∀ x ∈ l, ∃ q, L.SlabIn q x) : l.length < listFuel := by
  have hbound : ∀ x ∈ l, x.chunk % 2097152 = 0 ∧ x.chunk < 2 ^ 47 ∧ x.page < 512 := by
    intro x hx
    obtain ⟨q, hq⟩ := hl x hx
    obtain ⟨h1, -, h3⟩ := S.carving.aligned hq.holder_ne
    obtain ⟨-, h4, h5⟩ := S.carving.slab_page hq
    have := (S.carving.row hq.1).pages_pos
    simp only [chunkSize_eq] at h1 h3
    exact ⟨h1, by omega, by omega⟩
  have hmap : (l.map fun x => x.chunk / 2097152 * 512 + x.page).Nodup := by
    refine List.Nodup.map_on (fun x hx y hy e => ?_) hnd
    obtain ⟨a1, a2, a3⟩ := hbound x hx
    obtain ⟨b1, b2, b3⟩ := hbound y hy
    exact SlabRef.ext (by omega) (by omega)
  have hsub : (l.map fun x => x.chunk / 2097152 * 512 + x.page) ⊆ List.range (2 ^ 35) := by
    intro v hv
    obtain ⟨x, hx, rfl⟩ := List.mem_map.mp hv
    obtain ⟨a1, a2, a3⟩ := hbound x hx
    rw [List.mem_range]
    omega
  have := (hmap.subperm hsub).length_le
  rw [List.length_map, List.length_range] at this
  unfold listFuel
  omega

/-- `purge_empties_of_chunk` filters both lists of empty slabs in place. -/
theorem purgeEmptiesOfChunk_spec {W C : List SlabRef}
    (hW : Chain (fun r => (h.slabs r).next) (h.pools q).emptyWarm W)
    (hC : Chain (fun r => (h.slabs r).next) (h.pools q).emptyCold C)
    (hcount : (h.pools q).warmCount = W.length) (hWn : W.Nodup) (hCn : C.Nodup)
    (hWC : ∀ x ∈ C, x ∉ W) (hWl : W.length < listFuel) (hCl : C.length < listFuel) :
    ∃ next' w' c', purgeEmptiesOfChunk h q c = { h with
        slabs := fun x => { h.slabs x with next := next' x }
        pools := Function.update h.pools q
          { h.pools q with
            emptyWarm := w', emptyCold := c',
            warmCount := (W.filter fun x => !(x.chunk == c)).length } } ∧
      Chain next' w' (W.filter fun x => !(x.chunk == c)) ∧
      Chain next' c' (C.filter fun x => !(x.chunk == c)) ∧
      ∀ x, x ∉ W → x ∉ C → next' x = (h.slabs x).next := by
  set p : SlabRef → Bool := fun x => x.chunk == c with hp
  obtain ⟨w1, w2, -, w4⟩ := (@unlinkWhere_spec _ _ p listFuel none
    ⟨(h.pools q).emptyWarm, fun r => (h.slabs r).next⟩) hW hWl hWn (by simp)
  set w := unlinkWhere p listFuel none ⟨(h.pools q).emptyWarm, fun r => (h.slabs r).next⟩ with hw
  have hC' : Chain w.1.next (h.pools q).emptyCold C :=
    hC.congr (fun x hx => w2 x (by simp) (hWC x hx))
  obtain ⟨d1, d2, -, -⟩ := (@unlinkWhere_spec _ _ p listFuel none
    ⟨(h.pools q).emptyCold, w.1.next⟩) hC' hCl hCn (by simp)
  set d := unlinkWhere p listFuel none ⟨(h.pools q).emptyCold, w.1.next⟩ with hd
  refine ⟨d.1.next, w.1.head, d.1.head, ?_, ?_, d1, fun x hx hx' => ?_⟩
  · have hcnt : subWrap 32 (h.pools q).warmCount w.2 =
        (W.filter fun x => !(x.chunk == c)).length := by
      have hlen := List.length_eq_countP_add_countP p (l := W)
      have hneg : W.countP (fun x => ¬ p x = true) = (W.filter fun x => !(x.chunk == c)).length := by
        rw [← List.countP_eq_length_filter]
        refine List.countP_congr (fun x _ => ?_)
        simp [hp]
      rw [hcount, w4, subWrap_of_le (by omega)]
      omega
    rw [← hcnt]
    simp [purgeEmptiesOfChunk, withNext, Heap.modPool, hw, hd, hp]
  · exact w1.congr (fun x hx => d2 x (by simp) (fun hm => hWC x hm (List.mem_of_mem_filter hx)))
  · exact (d2 x (by simp) hx').trans (w2 x (by simp) hx)

/-- The headers after `chunk_unlink` of `c`. -/
def unlinkChunks (chunks : ℕ → Chunk) (c : ℕ) : ℕ → Chunk :=
  fun x =>
    { chunks x with
      next := if x = c then none else if (chunks c).prev = some x then (chunks c).next
        else (chunks x).next
      prev := if x = c then none else if (chunks c).next = some x then (chunks c).prev
        else (chunks x).prev }

theorem chunkUnlink_eq : chunkUnlink h q c =
    { h with
      chunks := unlinkChunks h.chunks c
      pools := Function.update h.pools q
        { h.pools q with
          chunks := if (h.chunks c).prev = none then (h.chunks c).next
            else (h.pools q).chunks } } := by
  unfold chunkUnlink
  -- `prev` and `next` each name a neighbour or nothing
  cases hp : (h.chunks c).prev with
  | none =>
    cases hn : (h.chunks c).next with
    | none =>
      simp only [Heap.modChunk, Heap.modPool, Heap.mk.injEq, and_true, if_true, true_and]
      funext x
      by_cases e : x = c
      · subst e
        simp [unlinkChunks]
      · simp [unlinkChunks, e, hp, hn]
    | some b =>
      simp only [Heap.modChunk, Heap.modPool, Heap.mk.injEq, and_true, if_true, true_and]
      funext x
      rcases eq_or_ne x c with rfl | e
      · rcases eq_or_ne x b with rfl | e'
        · simp [unlinkChunks]
        · simp [unlinkChunks, e']
      · rcases eq_or_ne x b with rfl | e'
        · simp [unlinkChunks, e, hp, hn]
        · simp [unlinkChunks, e, e', hp, hn, Ne.symm e']
  | some a =>
    have hpool : ∀ v, Function.update h.pools q { h.pools q with
        chunks := if some a = (none : Option ℕ) then v else (h.pools q).chunks } = h.pools := by
      simp
    rw [hpool]
    cases hn : (h.chunks c).next with
    | none =>
      simp only [Heap.modChunk, Heap.mk.injEq, and_true, true_and]
      funext x
      rcases eq_or_ne x c with rfl | e
      · rcases eq_or_ne x a with rfl | e'
        · simp [unlinkChunks]
        · simp [unlinkChunks, e']
      · rcases eq_or_ne x a with rfl | e'
        · simp [unlinkChunks, e, hp, hn]
        · simp [unlinkChunks, e, e', hp, hn, Ne.symm e']
    | some b =>
      simp only [Heap.modChunk, Heap.mk.injEq, and_true, true_and]
      funext x
      rcases eq_or_ne x c with rfl | e
      · simp only [unlinkChunks, Function.update_self, if_true, Chunk.mk.injEq]
        rcases eq_or_ne a x with rfl | e'
        · rcases eq_or_ne b a with rfl | e''
          · simp
          · simp [Function.update_apply, Ne.symm e'']
        · rcases eq_or_ne b x with rfl | e''
          · simp [Ne.symm e']
          · simp [Function.update_apply, Ne.symm e', Ne.symm e'']
      · rcases eq_or_ne x a with rfl | e'
        · rcases eq_or_ne x b with rfl | e''
          · simp [unlinkChunks, e, hp, hn]
          · simp [unlinkChunks, e, hp, hn, e'', Ne.symm e'']
        · rcases eq_or_ne x b with rfl | e''
          · simp [unlinkChunks, e, hp, hn, e', Ne.symm e']
          · simp [unlinkChunks, e, hp, hn, e', Ne.symm e', e'', Ne.symm e'']

/-- What `slab_became_free` does with a chunk before it disposes it. -/
def chunkLeave (h : Heap) (q : PoolId) (c : ℕ) : Heap :=
  let h := purgeEmptiesOfChunk h q c
  let h := if (h.pools q).active = some c then h.modPool q fun P => { P with active := none } else h
  chunkUnlink h q c

theorem chunkGiveUp_eq : chunkGiveUp cfg k h q c = btmChunkDispose cfg k (chunkLeave h q c) c := rfl

/-- The pool after its chunk `c` left, with the lists of empty slabs it kept. -/
def Pool.without (P : Pool) (chunks : ℕ → Chunk) (c : ℕ) (w' c' : Option SlabRef) (n : ℕ) : Pool :=
  { P with
    emptyWarm := w', emptyCold := c', warmCount := n
    active := if P.active = some c then none else P.active
    chunks := if (chunks c).prev = none then (chunks c).next else P.chunks }

theorem chunkLeave_spec {W C : List SlabRef}
    (hW : Chain (fun r => (h.slabs r).next) (h.pools q).emptyWarm W)
    (hC : Chain (fun r => (h.slabs r).next) (h.pools q).emptyCold C)
    (hcount : (h.pools q).warmCount = W.length) (hWn : W.Nodup) (hCn : C.Nodup)
    (hWC : ∀ x ∈ C, x ∉ W) (hWl : W.length < listFuel) (hCl : C.length < listFuel) :
    ∃ next' w' c', chunkLeave h q c = { h with
        slabs := fun x => { h.slabs x with next := next' x }
        chunks := unlinkChunks h.chunks c
        pools := Function.update h.pools q ((h.pools q).without h.chunks c w' c'
          (W.filter fun x => !(x.chunk == c)).length) } ∧
      Chain next' w' (W.filter fun x => !(x.chunk == c)) ∧
      Chain next' c' (C.filter fun x => !(x.chunk == c)) ∧
      ∀ x, x ∉ W → x ∉ C → next' x = (h.slabs x).next := by
  obtain ⟨next', w', c', he, h1, h2, h3⟩ :=
    purgeEmptiesOfChunk_spec (c := c) hW hC hcount hWn hCn hWC hWl hCl
  refine ⟨next', w', c', ?_, h1, h2, h3⟩
  simp only [chunkLeave, he, Function.update_self]
  split_ifs with e
  · rw [chunkUnlink_eq]
    simp [Heap.modPool, Pool.without, e]
  · rw [chunkUnlink_eq]
    simp [Pool.without, e]

/-- No slab of the pools is in a chunk that was given up. -/
theorem Ledger.vacate_slabIn {q' : PoolId} {x : SlabRef} :
    (L.vacate q c).SlabIn q' x ↔ x.chunk ≠ c ∧ L.SlabIn q' x := by
  unfold Ledger.SlabIn
  by_cases e : x.chunk = c
  · simp [Ledger.vacate, e]
  · simp [Ledger.vacate, e]

/-- The data pages of a chunk with no meshed slab show the chunk's own file pages. -/
theorem FrameRep.own_pages {pt : ℕ → Frame} {chunks : ℕ → Chunk} {bump : ℕ} {freed : List ℕ}
    (F : FrameRep cfg pt chunks bump freed L) (S : L.Sound cfg) (hm : cfg.meshMode = true)
    (hc : L.holder c = .pool q) (hst : ∀ {x : SlabRef}, x.chunk = c → L.stage x ≠ .retired) {j : ℕ}
    (h7 : dataStartPage ≤ j) (h512 : j < pagesPerChunk) :
    pt (c / pageSize + j) = .memfd ((chunks c).memfdOff / pageSize + j) := by
  obtain ⟨⟨n, hn⟩, -⟩ := S.carving.top_eq hc
  have hpos := (S.carving.row hc).pages_pos
  by_cases hj : L.top c ≤ j
  · refine F.rest hm (by simp [hc]) ?_ h512
    simpa [Ledger.floor, hc] using hj
  · -- the slab that has the page
    set np := btmScRunPages q.sc
    have hdiv := Nat.div_add_mod (j - dataStartPage) np
    have hmod := Nat.mod_lt (j - dataStartPage) hpos
    set m := (j - dataStartPage) / np
    have hmn : m < n := by
      by_contra hge
      have := Nat.mul_le_mul_left np (Nat.le_of_not_lt hge)
      rw [Nat.mul_comm np n] at this
      omega
    have hx : L.SlabIn q ⟨c, dataStartPage + m * np⟩ := by
      refine ⟨hc, (S.carving.carved _).mpr ⟨q, m, hc, rfl, ?_⟩⟩
      have := Nat.mul_le_mul_right np (show m + 1 ≤ n from hmn)
      rw [Nat.succ_mul] at this
      show dataStartPage + m * np + np ≤ L.top c
      omega
    have hf := F.slab hm hx hmod
    rw [S.meshed.self (hst rfl)] at hf
    rw [Nat.mul_comm] at hdiv
    have e1 : c / pageSize + (dataStartPage + m * np) + (j - dataStartPage) % np =
        c / pageSize + j := by omega
    have e2 : (chunks c).memfdOff / pageSize + (dataStartPage + m * np) +
        (j - dataStartPage) % np = (chunks c).memfdOff / pageSize + j := by omega
    rw [← e1, hf, e2]

theorem FrameRep.vacate {pt : ℕ → Frame} {chunks : ℕ → Chunk} {bump : ℕ} {freed : List ℕ}
    (F : FrameRep cfg pt chunks bump freed L) (S : L.Sound cfg) (hc : L.holder c = .pool q)
    (hst : ∀ {x : SlabRef}, x.chunk = c → L.stage x ≠ .retired) :
    FrameRep cfg pt chunks bump freed (L.vacate q c) := by
  have hh : ∀ {c'}, (L.vacate q c).holder c' ≠ .none → L.holder c' ≠ .none := by
    intro c' h'
    by_cases e : c' = c
    · simp [e, hc]
    · simpa [Ledger.vacate, e] using h'
  refine ⟨F.anon, fun hm q' x hx j hj => F.slab hm (Ledger.vacate_slabIn.mp hx).2 hj,
    fun hm c' hc' j hj h512 => ?_, fun hm c' h' => F.off_mod hm (hh h'),
    fun hm c1 c2 h1 h2 => F.off_inj hm (hh h1) (hh h2), fun hm c' h' => F.off_lt hm (hh h'),
    fun hm c' h' => F.off_freed hm (hh h'), F.freed_mod, F.freed_lt, F.freed_nodup, F.bump_mod⟩
  by_cases e : c' = c
  · subst e
    refine F.own_pages S hm hc hst ?_ h512
    simpa [Ledger.floor, Ledger.vacate] using hj
  · refine F.rest hm (hh hc') ?_ h512
    simpa [Ledger.floor, Ledger.vacate, e] using hj

/-- The lists of the pools after the chunk's slabs were taken off. -/
theorem ListRep.vacate {slabs : SlabRef → Slab} {pools : PoolId → Pool} {chunks : ℕ → Chunk}
    {next' : SlabRef → Option SlabRef} {w' c' : Option SlabRef} (hl : ListRep slabs pools L)
    (S : L.Sound cfg) (h1 : Chain next' w' ((L.warm q).filter fun x => !(x.chunk == c)))
    (h2 : Chain next' c' ((L.cold q).filter fun x => !(x.chunk == c)))
    (h3 : ∀ x, x ∉ L.warm q → x ∉ L.cold q → next' x = (slabs x).next) :
    ListRep (fun x => { slabs x with next := next' x })
      (Function.update pools q ((pools q).without chunks c w' c'
        ((L.warm q).filter fun x => !(x.chunk == c)).length)) (L.vacate q c) := by
  -- a listed slab, and every slab of another pool, keeps its link
  have hkeep : ∀ {q' x v}, L.holder x.chunk = .pool q' ∧ L.stage x = v →
      (q' = q → v ≠ .warm ∧ v ≠ .cold) → next' x = (slabs x).next := by
    rintro q' x v ⟨hq', hv⟩ hne
    refine h3 x (fun hm => ?_) (fun hm => ?_)
    · obtain ⟨a1, a2⟩ := (S.lists.warm q).mem_iff.mp hm
      exact (hne (Holder.pool.inj (hq'.symm.trans a1))).1 (hv.symm.trans a2)
    · obtain ⟨a1, a2⟩ := (S.lists.cold q).mem_iff.mp hm
      exact (hne (Holder.pool.inj (hq'.symm.trans a1))).2 (hv.symm.trans a2)
  intro q'
  have hq := hl q'
  by_cases e : q' = q
  · subst e
    simp only [Function.update_self, Ledger.vacate]
    refine ⟨hq.partials.congr (fun x hx => ?_) (fun _ _ => rfl), h1, h2, rfl⟩
    exact hkeep ((S.lists.partials q').mem_iff.mp hx) (by simp)
  · simp only [Function.update_of_ne e, Ledger.vacate]
    refine hq.congr rfl rfl rfl rfl (fun x hx => ⟨?_, rfl⟩) (fun x hx => ?_) (fun x hx => ?_)
    · exact hkeep ((S.lists.partials q').mem_iff.mp hx) (fun e' => absurd e' e)
    · exact hkeep ((S.lists.warm q').mem_iff.mp hx) (fun e' => absurd e' e)
    · exact hkeep ((S.lists.cold q').mem_iff.mp hx) (fun e' => absurd e' e)

/-- A chunk's neighbours on its list are chunks of the same pool. -/
theorem ChunkRep.neighbours {chunks : ℕ → Chunk} {pools : PoolId → Pool} (hC : ChunkRep chunks pools L)
    (S : L.Sound cfg) (hc : L.holder c = .pool q) {x : ℕ}
    (hx : (chunks c).prev = some x ∨ (chunks c).next = some x) : L.holder x = .pool q := by
  have hm : c ∈ L.chunks q := (S.lists.chunks q).mem_iff.mpr hc
  refine (S.lists.chunks q).mem_iff.mp ?_
  rcases hx with hx | hx
  · rcases (hC q).1.prev_ne hm with e | ⟨b, hb, e⟩
    · rw [hx] at e
      cases e
    · rw [hx, Option.some.injEq] at e
      rwa [e]
  · exact (hC q).1.next_mem hm hx

/-- Unlinking a chunk of a pool leaves the links of chunks elsewhere. -/
theorem unlinkChunks_next {chunks : ℕ → Chunk} {pools : PoolId → Pool}
    (hC : ChunkRep chunks pools L) (S : L.Sound cfg) (hc : L.holder c = .pool q) {x : ℕ}
    (hx : L.holder x ≠ .pool q) : (unlinkChunks chunks c x).next = (chunks x).next ∧
      (unlinkChunks chunks c x).prev = (chunks x).prev := by
  have hxc : x ≠ c := fun e => hx (e ▸ hc)
  have h1 : (chunks c).prev ≠ some x := fun e => hx (hC.neighbours S hc (Or.inl e))
  have h2 : (chunks c).next ≠ some x := fun e => hx (hC.neighbours S hc (Or.inr e))
  simp [unlinkChunks, hxc, h1, h2]

theorem ChunkRep.vacate {chunks : ℕ → Chunk} {pools : PoolId → Pool} {w' c' : Option SlabRef} {n : ℕ}
    (hC : ChunkRep chunks pools L) (S : L.Sound cfg) (hc : L.holder c = .pool q) :
    ChunkRep (unlinkChunks chunks c)
      (Function.update pools q ((pools q).without chunks c w' c' n)) (L.vacate q c) := by
  intro q'
  have hq := hC q'
  by_cases e : q' = q
  · subst e
    have hm : c ∈ L.chunks q' := (S.lists.chunks q').mem_iff.mpr hc
    simp only [Function.update_self, Ledger.vacate, Pool.without]
    refine ⟨hq.1.remove (S.lists.chunks q').nodup (by simp) hm (fun b _ hb => ?_)
      (fun b _ hb => ?_), by rw [hq.2]⟩
    · simp [unlinkChunks, hb]
    · simp [unlinkChunks, hb]
  · have hother : ∀ x ∈ L.chunks q', L.holder x ≠ .pool q := fun x hx h' =>
      e (Holder.pool.inj (((S.lists.chunks q').mem_iff.mp hx).symm.trans h'))
    simp only [Function.update_of_ne e, Ledger.vacate]
    exact ⟨hq.1.congr (fun x hx => (unlinkChunks_next hC S hc (hother x hx)).1)
      (fun x hx => (unlinkChunks_next hC S hc (hother x hx)).2), hq.2⟩

/-- The conditions under which a pool gives chunk `c` up. -/
structure Ledger.Drained (L : Ledger) (q : PoolId) (c : ℕ) : Prop where
  holder : L.holder c = .pool q
  free : ∀ {r i s}, r.chunk = c → L.SlotIn q r i s → L.place s = .free
  stage : ∀ {r}, r.chunk = c → L.stage r ≠ .listed ∧ L.stage r ≠ .retired

/-- No slab elsewhere has its data in a drained chunk. -/
theorem Ledger.Drained.target (D : L.Drained q c) (S : L.Sound cfg) {x : SlabRef}
    (hx : (L.target x).chunk = c) : x.chunk = c := by
  by_contra hne
  have hret : L.stage x = .retired := by
    by_contra h
    rw [S.meshed.self h] at hx
    exact hne hx
  have htx : L.target x ≠ x := fun e => hne (e ▸ hx)
  obtain ⟨q', i, s, hs, hv⟩ := S.meshed.donated hret htx
  have e : q' = q := by
    have := hs.1.1
    rw [hx, D.holder] at this
    exact (Holder.pool.inj this).symm
  subst e
  rw [D.free hx hs] at hv
  cases hv

theorem Ledger.Drained.sound (D : L.Drained q c) (S : L.Sound cfg) : (L.vacate q c).Sound cfg :=
  S.vacate D.holder D.free D.stage (fun hx => D.target S hx)

/-- `chunkLeave` in terms of the heap before the last slab of the chunk drained. -/
theorem chunkLeave_eq (H : HeapRep cfg h bins L) (S : L.Sound cfg) :
    ∃ next' w' c', chunkLeave (dropLive h r) q r.chunk = { h with
        slabs := fun x => { h.slabs x with next := next' x }
        chunks := unlinkChunks (dropLive h r).chunks r.chunk
        pools := Function.update h.pools q ((h.pools q).without (dropLive h r).chunks r.chunk w' c'
          ((L.warm q).filter fun x => !(x.chunk == r.chunk)).length) } ∧
      Chain next' w' ((L.warm q).filter fun x => !(x.chunk == r.chunk)) ∧
      Chain next' c' ((L.cold q).filter fun x => !(x.chunk == r.chunk)) ∧
      ∀ x, x ∉ L.warm q → x ∉ L.cold q → next' x = (h.slabs x).next := by
  have hw : ∀ x ∈ L.warm q, L.holder x.chunk = .pool q ∧ L.stage x = .warm :=
    fun x hx => (S.lists.warm q).mem_iff.mp hx
  have hc : ∀ x ∈ L.cold q, L.holder x.chunk = .pool q ∧ L.stage x = .cold :=
    fun x hx => (S.lists.cold q).mem_iff.mp hx
  refine chunkLeave_spec (h := dropLive h r) (H.lists q).warm (H.lists q).cold (H.lists q).warmCount
    (S.lists.warm q).nodup (S.lists.cold q).nodup (fun x hx hx' => ?_)
    (S.slabs_length_lt (S.lists.warm q).nodup fun x hx => ⟨q, (hw x hx).1, by simp [(hw x hx).2]⟩)
    (S.slabs_length_lt (S.lists.cold q).nodup fun x hx => ⟨q, (hc x hx).1, by simp [(hc x hx).2]⟩)
  have := (hc x hx).2
  rw [(hw x hx').2] at this
  cases this

/-- A drained chunk leaves its pool. -/
theorem chunkLeave_rep (H : HeapRep cfg h bins L) (S : L.Sound cfg) (D : L.Drained q r.chunk) :
    HeapRep cfg (chunkLeave (dropLive h r) q r.chunk) bins (L.vacate q r.chunk) := by
  obtain ⟨next', w', c', he, h1, h2, h3⟩ := chunkLeave_eq (r := r) (q := q) H S
  rw [he]
  have hCR : ChunkRep (dropLive h r).chunks h.pools L := H.chunks.congr_chunks dropLive_same
  have hoff : ∀ x, (unlinkChunks (dropLive h r).chunks r.chunk x).memfdOff = (h.chunks x).memfdOff :=
    fun x => (dropLive_same x).memfdOff
  have hnext : ∀ x, L.holder x ≠ .pool q →
      (unlinkChunks (dropLive h r).chunks r.chunk x).next = (h.chunks x).next :=
    fun x hx => (unlinkChunks_next hCR S D.holder hx).1.trans (dropLive_same x).next
  have hhold : ∀ x, x ≠ r.chunk → (L.vacate q r.chunk).holder x = L.holder x :=
    fun x hx => Function.update_of_ne hx ..
  have hself : (L.vacate q r.chunk).holder r.chunk = .hand := Function.update_self ..
  refine ⟨fun q' x hx => ?_, H.lists.vacate S h1 h2 h3, fun q' => ?_, fun q' x hx => ?_,
    hCR.vacate S D.holder, ⟨?_, H.depot.stack_count, ?_⟩, fun q' x hx hi => ?_, H.bins,
    (H.frame.vacate S D.holder fun hx => (D.stage hx).2).congr_chunks hoff, ?_, ?_,
    ⟨H.log.good, fun {q' x} hx hi s hs => ?_, H.log.bin⟩⟩
  · obtain ⟨hne, hx⟩ := Ledger.vacate_slabIn.mp hx
    have hd := H.desc q' x hx
    have hs : (L.vacate q r.chunk).stage x = L.stage x := if_neg hne
    rw [hs]
    exact ⟨hd.firstPage, hd.npages, hd.nslots, hd.sc, hd.partIdx, hd.inPartial, hd.decommitted,
      hd.retired, hd.freeCount⟩
  · exact (update_proj Pool.outstanding (by rfl) q').trans (H.tally q')
  · have hne : x ≠ r.chunk := by
      rintro rfl
      rw [hself] at hx
      cases hx
    have hh := H.header q' x (by rwa [hhold x hne] at hx)
    have hd : (dropLive h r).chunks x = h.chunks x := Function.update_of_ne hne ..
    have e1 : (L.vacate q r.chunk).counted x = L.counted x := Function.update_of_ne hne ..
    refine ⟨?_, ?_, ?_, ?_, ?_, fun {y j} hy hy' hj => ?_⟩
    all_goals simp only [unlinkChunks, hd]
    · exact hh.pool
    · exact hh.sc
    · exact hh.partIdx
    · exact hh.nextFreePage
    · rw [e1]
      exact hh.liveSlabs
    · have : (L.vacate q r.chunk).stage y = L.stage y := if_neg (by rw [hy]; exact hne)
      rw [this] at hy'
      exact hh.pageOwner hy hy' hj
  · refine H.depot.stack.congr (fun x hx => hnext x ?_)
    rw [S.lists.stack.mem_iff.mp hx]
    simp
  · refine H.depot.queue.congr (fun x hx => hnext x ?_)
    rw [S.lists.queue.mem_iff.mp hx]
    simp
  · obtain ⟨hne, hx⟩ := Ledger.vacate_slabIn.mp hx
    have hs : (L.vacate q r.chunk).stage x = L.stage x := if_neg hne
    rw [hs] at hi
    exact H.free q' x hx hi
  · refine H.space.congr (fun x hx => ?_) rfl
    by_cases e : x = r.chunk
    · simp [e, D.holder]
    · rwa [hhold x e] at hx
  · refine H.owner.congr (fun x hx => ?_) rfl
    by_cases e : x = r.chunk
    · rw [e, hself]
      simp
    · rwa [hhold x e]
  · obtain ⟨hne, hx⟩ := Ledger.vacate_slabIn.mp hx
    have hs' : (L.vacate q r.chunk).stage x = L.stage x := if_neg hne
    rw [hs'] at hi
    exact H.log.free hx hi hs

end BtMalloc
