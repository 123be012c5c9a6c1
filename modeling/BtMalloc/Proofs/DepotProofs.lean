import BtMalloc.Proofs.GiveUpProofs
import BtMalloc.Proofs.RegistryProofs

/-!
# Proofs: chunks outside the pools

The dispose queue, the warm stack, and mapping and unmapping chunks. A chunk that no pool holds has
no slab, so releasing its pages or passing it on touches no slot.
-/

namespace BtMalloc

open LinkedList PagedMemory Word

variable {cfg : Config} {k : Kernel} {X : ℕ → Prop} {B : ℕ → ℕ → Prop} {h : Heap}
  {bins : ℕ → ℕ → Bin} {L : Ledger} {q : PoolId} {r : SlabRef} {c : ℕ} {dest : Holder}

/-! ## Moving a chunk -/

theorem Ledger.rehold_pool (hold : ∀ q, L.holder c ≠ .pool q) (hto : ∀ q, dest ≠ .pool q)
    {x : ℕ} : (L.rehold c dest).holder x = .pool q ↔ L.holder x = .pool q := by
  by_cases e : x = c
  · subst e
    simp [Ledger.rehold, hold, hto]
  · simp [Ledger.rehold, e]

theorem Ledger.rehold_slabIn (hold : ∀ q, L.holder c ≠ .pool q) (hto : ∀ q, dest ≠ .pool q)
    {x : SlabRef} : (L.rehold c dest).SlabIn q x ↔ L.SlabIn q x := by
  unfold Ledger.SlabIn
  rw [Ledger.rehold_pool hold hto]
  rfl

theorem Ledger.rehold_client (hold : ∀ q, L.holder c ≠ .pool q) (hto : ∀ q, dest ≠ .pool q)
    {a n : ℕ} (hc : L.Client a n) : (L.rehold c dest).Client a n :=
  hc.congr rfl (fun hx => (Ledger.rehold_slabIn hold hto).mpr hx) rfl

theorem Ledger.Settled.rehold (T : L.Settled) (hold : ∀ q, L.holder c ≠ .pool q)
    (hto : ∀ q, dest ≠ .pool q) : (L.rehold c dest).Settled :=
  ⟨fun hx => T.slab ((Ledger.rehold_slabIn hold hto).mp hx),
    fun hx => T.chunk ((Ledger.rehold_pool hold hto).mp hx), T.warm⟩

/-- Chunks that no pool holds change hands. -/
def Ledger.regroup (L : Ledger) (holder : ℕ → Holder) (stack queue batch hand : List ℕ) : Ledger :=
  { L with holder := holder, stack := stack, queue := queue, batch := batch, hand := hand }

/-- The same chunks are mapped, and the pools hold the same ones. -/
structure Ledger.Regroups (L : Ledger) (holder : ℕ → Holder) : Prop where
  pool : ∀ {x q}, holder x = .pool q ↔ L.holder x = .pool q
  mapped : ∀ {x}, holder x ≠ .none ↔ L.holder x ≠ .none

section Regroup

variable {holder : ℕ → Holder} {stk que bat hnd : List ℕ}

theorem Ledger.Regroups.slabIn (R : L.Regroups holder) {x : SlabRef} :
    (L.regroup holder stk que bat hnd).SlabIn q x ↔ L.SlabIn q x := and_congr_left fun _ => R.pool

theorem Ledger.Regroups.floor (R : L.Regroups holder) :
    (L.regroup holder stk que bat hnd).floor = L.floor := by
  funext x
  unfold Ledger.floor Ledger.regroup
  dsimp only
  cases hx : holder x with
  | pool q' => rw [R.pool.mp hx]
  | none | stack | queue | batch | hand =>
    cases hx' : L.holder x with
    | pool q' => rw [R.pool.mpr hx'] at hx; cases hx
    | none | stack | queue | batch | hand => rfl

/-- Only the links of chunks that no pool holds and the heads of the stack and the queue change. -/
theorem HeapRep.regroup (H : HeapRep cfg h bins L) (R : L.Regroups holder) {chunks' : ℕ → Chunk}
    (S : L.Sound cfg) (hsame : ∀ {x q}, L.holder x = .pool q → chunks' x = h.chunks x)
    (hoff : ∀ x, (chunks' x).memfdOff = (h.chunks x).memfdOff) {wh dh : Option ℕ} {wc : ℤ}
    (hdepot : DepotRep chunks' wh wc dh (L.regroup holder stk que bat hnd)) :
    HeapRep cfg { h with chunks := chunks', warmHead := wh, warmCount := wc, disposeHead := dh } bins
      (L.regroup holder stk que bat hnd) := by
  have hF := H.frame.congr_chunks hoff
  refine ⟨fun q x hx => H.desc q x (R.slabIn.mp hx), H.lists, H.tally, fun q x hx => ?_, fun q => ?_,
    hdepot, fun q x hx hi => H.free q x (R.slabIn.mp hx) hi, H.bins, ?_,
    H.space.congr (fun x hx => R.mapped.mp hx) rfl, H.owner.congr (fun x hx => R.mapped.mpr hx) rfl,
    ⟨H.log.good, fun hx hi => H.log.free (R.slabIn.mp hx) hi, H.log.bin⟩⟩
  · have hx' := R.pool.mp hx
    simp only [hsame hx']
    exact (H.header q x hx').congr rfl rfl (fun _ _ hy => hy)
  · have hq := H.chunks q
    have hne : ∀ x ∈ L.chunks q, chunks' x = h.chunks x :=
      fun x hx => hsame ((S.lists.chunks q).mem_iff.mp hx)
    exact ⟨hq.1.congr (fun x hx => by simp only [hne x hx]) (fun x hx => by simp only [hne x hx]), hq.2⟩
  · exact ⟨hF.anon, fun hm _ _ hx _ hj => hF.slab hm (R.slabIn.mp hx) hj,
      fun hm _ hx _ hj => hF.rest hm (R.mapped.mp hx) (by rwa [R.floor] at hj),
      fun hm _ hx => hF.off_mod hm (R.mapped.mp hx),
      fun hm _ _ hx hx' => hF.off_inj hm (R.mapped.mp hx) (R.mapped.mp hx'),
      fun hm _ hx => hF.off_lt hm (R.mapped.mp hx), fun hm _ hx => hF.off_freed hm (R.mapped.mp hx),
      hF.freed_mod, hF.freed_lt, hF.freed_nodup, hF.bump_mod⟩

/-- Passing chunks on has no effect on anybody else. -/
theorem Ledger.Regroups.effect (R : L.Regroups holder) {chunks' : ℕ → Chunk} {wh dh : Option ℕ}
    {wc : ℤ} : Effect k X B h L { h with
      chunks := chunks', warmHead := wh, warmCount := wc, disposeHead := dh }
      (L.regroup holder stk que bat hnd) :=
  ⟨fun _ _ hc _ => hc.congr rfl (fun hx => R.slabIn.mpr hx) rfl, Keeps.refl,
    ⟨[], rfl, Clear.nil, fun _ _ hx => Or.inl (R.pool.mpr hx)⟩, le_refl _, fun _ _ _ _ => rfl,
    fun _ _ hR => hR.congr (fun _ hx => R.mapped.mp hx) rfl, .refl,
    fun _ hx => Or.inl (R.mapped.mp hx), rfl, rfl⟩

end Regroup

theorem Ledger.regroups_rehold (hn : L.holder c ≠ .none) (hold : ∀ q, L.holder c ≠ .pool q)
    (hto : ∀ q, dest ≠ .pool q) (hdest : dest ≠ .none) :
    L.Regroups (L.rehold c dest).holder := by
  refine ⟨Ledger.rehold_pool hold hto, fun {x} => ?_⟩
  by_cases e : x = c
  · subst e
    simp [Ledger.rehold, hn, hdest]
  · simp [Ledger.rehold, e]

/-- A chunk that no pool holds is passed on: only its own link and the heads of the stack and the
    queue change. -/
theorem HeapRep.rehold (H : HeapRep cfg h bins L) (S : L.Sound cfg) (hn : L.holder c ≠ .none)
    (hold : ∀ q, L.holder c ≠ .pool q) (hto : ∀ q, dest ≠ .pool q) (hdest : dest ≠ .none)
    {v wh dh : Option ℕ} {wc : ℤ}
    (hdepot : DepotRep (Function.update h.chunks c { h.chunks c with next := v }) wh wc dh
      (L.rehold c dest)) :
    HeapRep cfg { h with
      chunks := Function.update h.chunks c { h.chunks c with next := v }
      warmHead := wh, warmCount := wc, disposeHead := dh } bins (L.rehold c dest) :=
  H.regroup (Ledger.regroups_rehold hn hold hto hdest) S
    (fun {x q} hx => Function.update_of_ne (fun e : x = c => hold q (e ▸ hx)) ..)
    (fun x => update_proj Chunk.memfdOff (by rfl) x) hdepot

/-- Passing a chunk on has no effect on anybody else. -/
theorem Effect.rehold (hn : L.holder c ≠ .none) (hold : ∀ q, L.holder c ≠ .pool q)
    (hto : ∀ q, dest ≠ .pool q)
    {chunks' : ℕ → Chunk} {wh dh : Option ℕ} {wc : ℤ} :
    Effect k X B h L { h with
      chunks := chunks', warmHead := wh, warmCount := wc, disposeHead := dh } (L.rehold c dest) := by
  have hsome : ∀ x, (L.rehold c dest).holder x ≠ .none → L.holder x ≠ .none := by
    intro x hx
    by_cases e : x = c
    · rwa [e]
    · simpa [Ledger.rehold, e] using hx
  refine ⟨fun a n hc _ => Ledger.rehold_client hold hto hc, Keeps.refl,
    ⟨[], rfl, Clear.nil, fun x q hx => Or.inl ((Ledger.rehold_pool hold hto).mpr hx)⟩, le_refl _,
    fun _ _ _ _ => rfl, fun _ _ hR => hR.congr (fun x hx => hsome x hx) rfl, .refl,
    fun x hx => Or.inl (hsome x hx), rfl, rfl⟩

/-- The links of the members of a list that `c` is not on. -/
theorem chain_update {chunks : ℕ → Chunk} {hd v : Option ℕ} {l : List ℕ}
    (hl : Chain (fun x => (chunks x).next) hd l) (hc : c ∉ l) :
    Chain (fun x => (Function.update chunks c { chunks c with next := v } x).next) hd l :=
  hl.congr (fun x hx => by
    have : x ≠ c := fun e => hc (e ▸ hx)
    simp [this])

/-- A chunk goes on the dispose queue. -/
theorem queuePush_rep (H : HeapRep cfg h bins L) (S : L.Sound cfg) (hc : L.holder c = .hand) :
    HeapRep cfg { h.modChunk c fun x => { x with next := h.disposeHead } with disposeHead := some c }
      bins (L.rehold c .queue) := by
  have hs : c ∉ L.stack := fun hm => by
    have := S.lists.stack.mem_iff.mp hm
    rw [hc] at this
    cases this
  have hq : c ∉ L.queue := fun hm => by
    have := S.lists.queue.mem_iff.mp hm
    rw [hc] at this
    cases this
  refine @HeapRep.rehold _ _ _ _ _ _ H S (by simp [hc]) (by simp [hc]) (by simp) (by simp) _ h.warmHead _
    h.warmCount ⟨?_, ?_, ?_⟩
  · simpa [Ledger.rehold, List.erase_of_not_mem hs] using chain_update H.depot.stack hs
  · simpa [Ledger.rehold, List.erase_of_not_mem hs] using H.depot.stack_count
  · have := chain_update (v := h.disposeHead) H.depot.queue hq
    simpa [Ledger.rehold, List.erase_of_not_mem hq] using this

/-- A chunk goes on the warm stack. -/
theorem warmPush_rep (H : HeapRep cfg h bins L) (S : L.Sound cfg)
    (hc : L.holder c = .hand ∨ L.holder c = .batch) :
    HeapRep cfg (warmPush h c) bins (L.rehold c .stack) := by
  have hs : c ∉ L.stack := fun hm => by
    have := S.lists.stack.mem_iff.mp hm
    rcases hc with hc | hc <;> rw [hc] at this <;> cases this
  have hq : c ∉ L.queue := fun hm => by
    have := S.lists.queue.mem_iff.mp hm
    rcases hc with hc | hc <;> rw [hc] at this <;> cases this
  refine @HeapRep.rehold _ _ _ _ _ _ H S (by rcases hc with hc | hc <;> simp [hc])
    (by rcases hc with hc | hc <;> simp [hc]) (by simp) (by simp) _ _ h.disposeHead _ ⟨?_, ?_, ?_⟩
  · have := chain_update (v := h.warmHead) H.depot.stack hs
    simpa [Ledger.rehold, List.erase_of_not_mem hs] using this
  · simp [Ledger.rehold, List.erase_of_not_mem hs, H.depot.stack_count]
  · simpa [Ledger.rehold, List.erase_of_not_mem hq] using chain_update H.depot.queue hq

/-- The top chunk of the warm stack is taken. -/
theorem stackPop_rep (H : HeapRep cfg h bins L) (S : L.Sound cfg) (hw : h.warmHead = some c) :
    L.holder c = .stack ∧
    HeapRep cfg { h with warmHead := (h.chunks c).next, warmCount := h.warmCount - 1 } bins
      (L.rehold c .hand) := by
  have hst := H.depot.stack
  have hcount := H.depot.stack_count
  cases hl : L.stack with
  | nil =>
    rw [hl, hw] at hst
    cases hst
  | cons c' rest =>
    rw [hl] at hst hcount
    obtain ⟨e, hrest⟩ := hst
    rw [hw, Option.some.injEq] at e
    subst e
    have hm : c ∈ L.stack := by rw [hl]; exact List.mem_cons_self ..
    have hc := S.lists.stack.mem_iff.mp hm
    have hnd := S.lists.stack.nodup
    rw [hl] at hnd
    have hcr := (List.nodup_cons.mp hnd).1
    have hq : c ∉ L.queue := fun hm => by
      have := S.lists.queue.mem_iff.mp hm
      rw [hc] at this
      cases this
    refine ⟨hc, ?_⟩
    have hupd : Function.update h.chunks c { h.chunks c with next := (h.chunks c).next } =
        h.chunks := Function.update_eq_self ..
    have := @HeapRep.rehold _ _ _ _ c .hand H S (by simp [hc]) (by simp [hc]) (by simp) (by simp)
      (h.chunks c).next (h.chunks c).next h.disposeHead (h.warmCount - 1) ⟨?_, ?_, ?_⟩
    · rwa [hupd] at this
    · rw [hupd]
      simpa [Ledger.rehold, hl] using hrest
    · simp [Ledger.rehold, hl, hcount]
    · rw [hupd]
      simpa [Ledger.rehold, List.erase_of_not_mem hq] using H.depot.queue

/-! ## Releasing the pages of a chunk -/

/-- No slot lives in a chunk that no pool holds. -/
theorem Ledger.Sound.releasedIn_chunk (S : L.Sound cfg) (hold : ∀ q, L.holder c ≠ .pool q)
    (p n : ℕ) : ReleasedIn L c p n fun _ => False := by
  refine ⟨fun {q x i s} _ hs y hy hc _ _ => ?_⟩
  rcases hy with rfl | rfl
  · exact hold q (hc ▸ hs.1.1)
  · exact hold q (hc ▸ (S.meshed.pool hs.1).1)

/-- The page of a slot is on no page of a chunk that no pool holds. -/
theorem Ledger.Sound.not_inRun_chunk (S : L.Sound cfg) (hold : ∀ q, L.holder c ≠ .pool q)
    (hal : c % 2097152 = 0) {p n : ℕ} (hpn : p + n ≤ 512) {s : ℕ} (hs : L.place s ≠ .void) :
    ¬ inRun (c / 4096 + p) n (s / 4096) := by
  rintro ⟨h1, h2⟩
  obtain ⟨q, x, i, hi⟩ := S.slots.slot hs
  have pos := S.carving.slotPos hi
  have hreg := pos.region pos.size_pos
  have : x.chunk = c := by omega
  exact hold q (this ▸ hi.1.1)

/-- Memory and descriptors change on pages of a chunk that no pool holds, and the drop is logged. -/
theorem HeapRep.dropPages (H : HeapRep cfg h bins L) (S : L.Sound cfg)
    (hold : ∀ q, L.holder c ≠ .pool q) (hal : c % 2097152 = 0) {p n : ℕ} (hpn : p + n ≤ 512)
    {m' : Mem} {slabs' : SlabRef → Slab} (hpt : m'.pt = h.mem.pt)
    (hk : Keeps L.Unit (fun _ => False) h.mem m')
    (hs : ∀ q x, L.SlabIn q x → slabs' x = h.slabs x) :
    HeapRep cfg { h with
      mem := m', slabs := slabs', log := .release (c / 4096 + p) n :: h.log } bins L := by
  have H1 := @HeapRep.congr_mem _ _ _ _ H S _ (.release (c / 4096 + p) n :: h.log) _ hpt hk H.log.good
    (fun {q x s} hx hi hm => ⟨id, fun hf => ⟨S.not_inRun_chunk hold hal hpn ?_, hf⟩⟩)
    (fun {t i s} hm => ⟨id, fun hf => ⟨S.not_inRun_chunk hold hal hpn ?_, hf⟩⟩)
  · exact H1.congr_slabs S hs
  · rw [S.freeList_place hx (Stage.intact_ne_retired hi) hm]
    simp
  · rw [S.bin_place hm]
    simp

/-- Dropping pages of a chunk that no pool holds touches no unit. -/
theorem Effect.dropPages (H : HeapRep cfg h bins L) (S : L.Sound cfg)
    (hold : ∀ q, L.holder c ≠ .pool q) (hn : L.holder c ≠ .none) {p n : ℕ} (hpn : p + n ≤ 512)
    {m' : Mem} {slabs' : SlabRef → Slab} (hk : Keeps L.Unit (fun _ => False) h.mem m') :
    Effect k X L.Unit h L { h with
      mem := m', slabs := slabs', log := .release (c / 4096 + p) n :: h.log } L := by
  refine ⟨fun a n hc _ => hc, fun a n i hc _ hi => hk hc.unit id hi,
    ⟨[.release (c / 4096 + p) n], rfl, ?_, fun _ _ hc => Or.inl hc⟩, le_refl _, fun _ _ _ _ => rfl,
    fun _ _ hR => hR, .refl, fun _ => Or.inl, rfl, rfl⟩
  exact ((S.releasedIn_chunk hold p n).clear H.space S hn hpn rfl).mono (fun hu => ⟨hu, id⟩)

/-- `chunk_decommit` of a chunk that no pool holds. -/
theorem chunkDecommit_spec (H : HeapRep cfg h bins L) (S : L.Sound cfg)
    (hold : ∀ q, L.holder c ≠ .pool q) (hn : L.holder c ≠ .none) :
    ∃ m' slabs', chunkDecommit cfg h c =
        { h with mem := m', slabs := slabs', log := .release (c / 4096 + 7) 505 :: h.log } ∧
      HeapRep cfg (chunkDecommit cfg h c) bins L ∧
      Effect k X L.Unit h L (chunkDecommit cfg h c) L := by
  obtain ⟨m', slabs', he, hpt, hk, hs⟩ := btmReleasePages_spec H.frame H.space S hn (p := 7) (n := 505)
    (by omega) (by omega) (S.releasedIn_chunk hold 7 505)
  have heq : chunkDecommit cfg h c =
      { h with mem := m', slabs := slabs', log := .release (c / 4096 + 7) 505 :: h.log } := he
  have hal := (S.carving.aligned hn).1
  refine ⟨m', slabs', heq, ?_, ?_⟩
  · rw [heq]
    exact H.dropPages S hold hal (by omega) hpt hk hs
  · rw [heq]
    exact Effect.dropPages H S hold hn (by omega) hk

/-! ## Unmapping a chunk -/

/-- `memfd_free_off` pushes the offset or drops it. -/
theorem memfdFreeOff_spec (k : Kernel) (h : Heap) (off : ℕ) : ∃ cap' freed', memfdFreeOff k h off =
    { h with memfdFreeCap := cap', memfdFree := freed' } ∧
      (freed' = off :: h.memfdFree ∨ freed' = h.memfdFree) := by
  have hpush : ∀ h1 : Heap, h1 = { h with memfdFreeCap := h1.memfdFreeCap } →
      ∃ cap' freed', (if h1.memfdFree.length < h1.memfdFreeCap then
          { h1 with memfdFree := off :: h1.memfdFree } else h1) =
        { h with memfdFreeCap := cap', memfdFree := freed' } ∧
          (freed' = off :: h.memfdFree ∨ freed' = h.memfdFree) := by
    intro h1 he
    rw [he]
    split
    · exact ⟨_, _, rfl, Or.inl rfl⟩
    · exact ⟨_, _, rfl, Or.inr rfl⟩
  unfold memfdFreeOff
  refine hpush _ ?_
  dsimp only
  split_ifs <;> rfl

/-- The frame part after chunk `c` is gone, with its offset recycled or dropped. -/
theorem FrameRep.unmap {pt : ℕ → Frame} {chunks : ℕ → Chunk} {bump : ℕ} {freed freed' : List ℕ}
    (F : FrameRep cfg pt chunks bump freed L) (hn : L.holder c ≠ .none)
    (hold : ∀ q, L.holder c ≠ .pool q)
    (hf : freed' = freed ∨ cfg.meshMode = true ∧ freed' = (chunks c).memfdOff :: freed) :
    FrameRep cfg pt chunks bump freed' (L.rehold c .none) := by
  have hslab : ∀ {q x}, (L.rehold c .none).SlabIn q x → L.SlabIn q x :=
    fun hx => (Ledger.rehold_slabIn hold (by simp)).mp hx
  have hh : ∀ {x}, (L.rehold c .none).holder x ≠ .none → x ≠ c ∧ L.holder x ≠ .none := by
    intro x hx
    by_cases e : x = c
    · simp [Ledger.rehold, e] at hx
    · exact ⟨e, by simpa [Ledger.rehold, e] using hx⟩
  have hfloor : ∀ {x}, x ≠ c → (L.rehold c .none).floor x = L.floor x := by
    intro x e
    have h1 : (L.rehold c .none).holder x = L.holder x := Function.update_of_ne e ..
    unfold Ledger.floor
    rw [h1]
    rfl
  have hmem : ∀ {o}, o ∈ freed' → o ∈ freed ∨ (cfg.meshMode = true ∧ o = (chunks c).memfdOff) := by
    intro o ho
    rcases hf with rfl | ⟨hm, rfl⟩
    · exact Or.inl ho
    · rcases List.mem_cons.mp ho with rfl | ho
      · exact Or.inr ⟨hm, rfl⟩
      · exact Or.inl ho
  refine ⟨F.anon, fun hm q x hx j hj => F.slab hm (hslab hx) hj, fun hm x hx j hj => ?_,
    fun hm x hx => F.off_mod hm (hh hx).2, fun hm x y hx hy => F.off_inj hm (hh hx).2 (hh hy).2,
    fun hm x hx => F.off_lt hm (hh hx).2, fun hm x hx ho => ?_, fun {o} ho => ?_, fun {o} ho => ?_,
    ?_, F.bump_mod⟩
  · exact F.rest hm (hh hx).2 (by rwa [← hfloor (hh hx).1])
  · rcases hmem ho with ho | ⟨-, ho⟩
    · exact F.off_freed hm (hh hx).2 ho
    · exact (hh hx).1 (F.off_inj hm (hh hx).2 hn ho)
  · rcases hmem ho with ho | ⟨hm, rfl⟩
    · exact F.freed_mod ho
    · exact F.off_mod hm hn
  · rcases hmem ho with ho | ⟨hm, rfl⟩
    · exact F.freed_lt ho
    · exact F.off_lt hm hn
  · rcases hf with rfl | ⟨hm, rfl⟩
    · exact F.freed_nodup
    · exact List.nodup_cons.mpr ⟨F.off_freed hm hn, F.freed_nodup⟩

/-- The address space without chunk `c`. -/
theorem SpaceRep.unmap {pt : ℕ → Frame} {mapped : ℕ → Bool} {larges : ℕ → LargeHdr}
    (Sp : SpaceRep pt mapped larges L) (S : L.Sound cfg) (hn : L.holder c ≠ .none) :
    SpaceRep pt (fun p => !inPages c chunkSize p && mapped p) larges (L.rehold c .none) := by
  have hal := (S.carving.aligned hn).1
  simp only [chunkSize_eq] at hal
  have hh : ∀ {x}, (L.rehold c .none).holder x ≠ .none → x ≠ c ∧ L.holder x ≠ .none := by
    intro x hx
    by_cases e : x = c
    · simp [Ledger.rehold, e] at hx
    · exact ⟨e, by simpa [Ledger.rehold, e] using hx⟩
  -- a page of `c` is in the region of `c`
  have hout : ∀ {p}, mapped p = true → p * 4096 / 2097152 * 2097152 ≠ c →
      (!inPages c chunkSize p && mapped p) = true := by
    intro p hp hne
    rw [hp, Bool.and_true, Bool.not_eq_true', Bool.eq_false_iff, ne_eq, inPages_iff]
    simp only [chunkSize_eq]
    rintro ⟨h1, h2⟩
    apply hne
    omega
  refine ⟨fun {x} hx j hj => ?_, fun {b hd} hb => ?_, fun hb => Sp.header hb, fun h1 h2 => ?_⟩
  · obtain ⟨hne, hx⟩ := hh hx
    have hxa := (S.carving.aligned hx).1
    simp only [chunkSize_eq, pagesPerChunk_eq, pageSize_eq] at hxa hj ⊢
    refine hout (Sp.chunk hx (by simpa using hj)) ?_
    have : (x / 4096 + j) * 4096 / 2097152 * 2097152 = x := by omega
    rwa [this]
  · have hb' : L.large b = some hd := hb
    have ho := Sp.large hb'
    refine ⟨ho.base_mod, ho.base_pos, ho.len_mod, ho.le, ho.off_ge, ho.off_mod, ho.off_lt,
      fun {j} hj => hout (ho.mapped hj) ?_, ho.frame⟩
    intro e
    have hbm := ho.base_mod
    have hlm := ho.len_mod
    simp only [pageSize_eq] at hbm hlm hj e
    have c1 := ho.covers hb' (i := j * 4096) (by omega)
    have c2 : L.Covers ((b + j * 4096) / chunkSize) ((b + j * 4096) / chunkSize * chunkSize) := by
      refine .chunk ?_
      have hb4 : b + j * 4096 = (b / 4096 + j) * 4096 := by omega
      simp only [chunkSize_eq]
      rwa [hb4, e]
    have := Sp.unique c1 c2
    rw [or_one_of_even ho.even] at this
    have := ho.even
    simp only [chunkSize_eq] at *
    omega
  · exact Sp.unique (h1.congr (fun x hx => (hh hx).2) rfl) (h2.congr (fun x hx => (hh hx).2) rfl)

/-- Who covers a region after chunk `c` is gone. -/
theorem Ledger.Covers.unmap {key w : ℕ} (hc : L.Covers key w) (hk : key * chunkSize ≠ c) :
    (L.rehold c .none).Covers key w := by
  cases hc with
  | chunk h =>
    refine .chunk ?_
    have : (L.rehold c .none).holder (key * chunkSize) = L.holder (key * chunkSize) :=
      Function.update_of_ne hk ..
    rwa [this]
  | large hb h1 h2 => exact .large hb h1 h2

/-- Regions that have an owner are in the user address space. -/
theorem Ledger.Covers.key_lt {key w : ℕ} {pt : ℕ → Frame} {mapped : ℕ → Bool} {larges : ℕ → LargeHdr}
    (hc : L.Covers key w) (S : L.Sound cfg) (Sp : SpaceRep pt mapped larges L) : key < 2 ^ 27 := by
  cases hc with
  | chunk h' =>
    have := (S.carving.aligned h').2.2
    simp only [chunkSize_eq] at this
    omega
  | large hb h1 h2 =>
    have := (Sp.large hb).le
    simp only [chunkSize_eq] at h2
    omega

/-- The one region of a chunk. -/
theorem mem_regionKeys_chunk {key : ℕ} (hal : c % 2097152 = 0) (hle : c + chunkSize ≤ 2 ^ 47) :
    key ∈ regionKeys c chunkSize ↔ key * chunkSize = c := by
  rw [mem_regionKeys (by decide) hle]
  simp only [chunkSize_eq] at hle ⊢
  omega

theorem chunkTrim_eq (cfg : Config) (k : Kernel) (h : Heap) (c : ℕ) (hle : c + chunkSize ≤ 2 ^ 47) :
    ∃ T' cap' freed', chunkTrim cfg k h c = { h with
        owners := T', registryGen := h.registryGen + 1
        mapped := fun p => !inPages c chunkSize p && h.mapped p
        log := .unmap (c / 4096) 512 :: h.log
        memfdFreeCap := cap', memfdFree := freed' } ∧
      Stored k 0 (regionKeys c chunkSize) h.owners T' ∧
      (freed' = h.memfdFree ∨ cfg.meshMode = true ∧ freed' = (h.chunks c).memfdOff :: h.memfdFree) := by
  obtain ⟨T', e1, s1⟩ := btmRegistryRemove_spec k h c chunkSize
    (by decide) hle
  have e2 : (btmRegistryRemove k h c chunkSize).munmap c chunkSize = { h with
      owners := T', registryGen := h.registryGen + 1
      mapped := fun p => !inPages c chunkSize p && h.mapped p
      log := .unmap (c / 4096) 512 :: h.log } := by
    rw [e1, Heap.munmap, if_pos hle]
    rfl
  cases hm : cfg.meshMode with
  | true =>
    obtain ⟨cap', freed', e3, hf⟩ := memfdFreeOff_spec k ((btmRegistryRemove k h c chunkSize).munmap c chunkSize) (h.chunks c).memfdOff
    refine ⟨T', cap', freed', ?_, s1, ?_⟩
    · simp only [chunkTrim, hm, if_true]
      rw [e3, e2]
    · rw [e2] at hf
      rcases hf with hf | hf
      · exact Or.inr ⟨rfl, hf⟩
      · exact Or.inl hf
  | false =>
    refine ⟨T', h.memfdFreeCap, h.memfdFree, ?_, s1, Or.inl rfl⟩
    simp only [chunkTrim, hm, Bool.false_eq_true, if_false]
    rw [e2]

/-- Unregistering and unmapping a chunk that is on no list. -/
theorem chunkTrim_rep (H : HeapRep cfg h bins L) (S : L.Sound cfg) (hc : L.holder c = .hand) :
    HeapRep cfg (chunkTrim cfg k h c) bins (L.rehold c .none) := by
  have hold : ∀ q, L.holder c ≠ .pool q := by simp [hc]
  have hn : L.holder c ≠ .none := by simp [hc]
  obtain ⟨hal, -, hle⟩ := S.carving.aligned hn
  obtain ⟨T', cap', freed', he, hst, hf⟩ := chunkTrim_eq cfg k h c hle
  rw [he]
  have hslab : ∀ {q x}, (L.rehold c .none).SlabIn q x → L.SlabIn q x :=
    fun hx => (Ledger.rehold_slabIn hold (by simp)).mp hx
  have hs : c ∉ L.stack := fun hm => by
    have := S.lists.stack.mem_iff.mp hm
    rw [hc] at this
    cases this
  have hq : c ∉ L.queue := fun hm => by
    have := S.lists.queue.mem_iff.mp hm
    rw [hc] at this
    cases this
  have hfresh : ∀ {s}, L.place s ≠ .void → Fresh h.log s → Fresh (.unmap (c / 4096) 512 :: h.log) s :=
    fun hv hf => ⟨S.not_inRun_chunk hold hal (p := 0) (n := 512) (by omega) hv, hf⟩
  refine ⟨fun q x hx => H.desc q x (hslab hx), H.lists, H.tally, fun q x hx => ?_, H.chunks,
    H.depot.congr (by simp [Ledger.rehold, List.erase_of_not_mem hs])
      (by simp [Ledger.rehold, List.erase_of_not_mem hq]),
    fun q x hx hi => H.free q x (hslab hx) hi, H.bins, H.frame.unmap hn hold hf, H.space.unmap S hn,
    fun key hk hne => ?_, ⟨H.log.good, fun {q x} hx hi s hm => ?_, fun {t i s} hm => ?_⟩⟩
  · exact (H.header q x ((Ledger.rehold_pool hold (by simp)).mp hx)).congr rfl rfl (fun _ _ hy => hy)
  · -- the regions of other chunks keep their owners
    have hkc : key * chunkSize ≠ c := by
      intro e
      have hm := (mem_regionKeys_chunk hal hle).mpr e
      rcases hst.set hm with h0 | h0 <;> exact hne h0
    have hr := hst.other hk (fun hm => hkc ((mem_regionKeys_chunk hal hle).mp hm))
    have hne' : ownerAt h.owners key ≠ 0 := by rwa [← hr]
    show (L.rehold c .none).Covers key (ownerAt T' key)
    rw [hr]
    exact (H.owner key hk hne').unmap hkc
  · refine hfresh ?_ (H.log.free (hslab hx) hi hm)
    rw [S.freeList_place (hslab hx) (Stage.intact_ne_retired hi) hm]
    simp
  · refine hfresh ?_ (H.log.bin hm)
    rw [S.bin_place hm]
    simp

theorem chunkTrim_effect (H : HeapRep cfg h bins L) (S : L.Sound cfg) (hc : L.holder c = .hand) :
    Effect k X L.Unit h L (chunkTrim cfg k h c) (L.rehold c .none) := by
  have hold : ∀ q, L.holder c ≠ .pool q := by simp [hc]
  have hn : L.holder c ≠ .none := by simp [hc]
  obtain ⟨hal, -, hle⟩ := S.carving.aligned hn
  obtain ⟨T', cap', freed', he, hst, -⟩ := chunkTrim_eq cfg k h c hle
  rw [he]
  have hsome : ∀ x, (L.rehold c .none).holder x ≠ .none → L.holder x ≠ .none := by
    intro x hx e
    by_cases ex : x = c
    · simp [Ledger.rehold, ex] at hx
    · simp [Ledger.rehold, ex, e] at hx
  refine ⟨fun a n hc _ => Ledger.rehold_client hold (by simp) hc, Keeps.refl,
    ⟨[.unmap (c / 4096) 512], rfl, ?_, fun x q hx =>
      Or.inl ((Ledger.rehold_pool hold (by simp)).mpr hx)⟩, Nat.le_succ _, fun hg => ?_,
    fun key _ hR w hw => ?_, hst.grows, fun x hx => Or.inl (hsome x hx), rfl, rfl⟩
  · exact ((S.releasedIn_chunk hold 0 512).clear H.space S hn (by omega) rfl).mono
      (fun hu => ⟨hu, id⟩)
  · exact absurd hg (Nat.succ_ne_self _)
  · -- a region that is still covered is not the chunk's
    have hcov : L.Covers key w := hw.congr hsome rfl
    have hkc : key * chunkSize ≠ c := by
      intro e
      have c2 : L.Covers key (key * chunkSize) := .chunk (by rwa [e])
      cases hw with
      | chunk h' => exact h' (by simp only [e]; exact Function.update_self ..)
      | large hb h1 h2 =>
        have := H.space.unique hcov c2
        rw [or_one_of_even (H.space.large hb).even] at this
        have := (H.space.large hb).even
        simp only [chunkSize_eq] at *
        omega
    rw [hst.other (hcov.key_lt S H.space) (fun hm => hkc ((mem_regionKeys_chunk hal hle).mp hm))]
    exact hR hcov

/-! ## Disposing a chunk -/

theorem HeapRep.note_dispose (H : HeapRep cfg h bins L) :
    HeapRep cfg (h.note (.dispose c q)) bins L :=
  ⟨H.desc, H.lists, H.tally, H.header, H.chunks, H.depot, H.free, H.bins, H.frame, H.space, H.owner,
    H.log.good, H.log.free, H.log.bin⟩

/-- `btm_chunk_dispose` after the note in the log. -/
def disposeRest (cfg : Config) (k : Kernel) (h : Heap) (c : ℕ) : Heap :=
  if h.bgAsync then
    { h.modChunk c fun x => { x with next := h.disposeHead } with disposeHead := some c }
  else
    let h := chunkDecommit cfg h c
    if h.warmCount < warmHigh then warmPush h c else chunkTrim cfg k h c

theorem btmChunkDispose_eq :
    btmChunkDispose cfg k h c = disposeRest cfg k (h.note (.dispose c (h.chunks c).pool)) c := rfl

/-- Where a disposed chunk ends up. -/
def Holder.idle : Holder → Bool
  | .queue | .stack | .none => true
  | .pool _ | .batch | .hand => false

theorem Holder.idle_ne_pool (hi : dest.idle = true) (q : PoolId) : dest ≠ .pool q := by
  rintro rfl
  cases hi

/-- A disposed chunk goes on the queue, or its pages are released and it goes on the stack or is
    unmapped. -/
theorem disposeRest_spec (H : HeapRep cfg h bins L) (S : L.Sound cfg) (hc : L.holder c = .hand) :
    ∃ dest : Holder, dest.idle = true ∧ HeapRep cfg (disposeRest cfg k h c) bins (L.rehold c dest) ∧
      Effect k X L.Unit h L (disposeRest cfg k h c) (L.rehold c dest) ∧
      ∀ x, x ≠ c → ((disposeRest cfg k h c).chunks x).next = (h.chunks x).next := by
  have hold : ∀ q, L.holder c ≠ .pool q := by simp [hc]
  have hn : L.holder c ≠ .none := by simp [hc]
  unfold disposeRest
  split
  next =>
    exact ⟨.queue, rfl, queuePush_rep H S hc, Effect.rehold hn hold (by simp),
      fun x hx => by simp [Heap.modChunk, hx]⟩
  next =>
    obtain ⟨m', slabs', he, H1, E1⟩ := chunkDecommit_spec (k := k) (X := X) H S hold hn
    have hch : (chunkDecommit cfg h c).chunks = h.chunks := by rw [he]
    dsimp only
    split
    next =>
      refine ⟨.stack, rfl, warmPush_rep H1 S (Or.inl hc), E1.trans ?_, fun x hx => ?_⟩
      · exact Effect.rehold hn hold (by simp)
      · simp [warmPush, Heap.modChunk, hx, hch]
    next =>
      refine ⟨.none, rfl, chunkTrim_rep H1 S hc, E1.trans (chunkTrim_effect H1 S hc), fun x hx => ?_⟩
      obtain ⟨-, -, hle⟩ := S.carving.aligned hn
      obtain ⟨T', cap', freed', he', -⟩ := chunkTrim_eq cfg k (chunkDecommit cfg h c) c hle
      rw [he', hch]

/-- A busy slot is in no drained chunk. -/
theorem Ledger.Drained.busy_ne (D : L.Drained q c) {q' : PoolId} {x : SlabRef} {i s : ℕ}
    (hb : (L.place s).busy = true) (hs : L.SlotIn q' x i s) : x.chunk ≠ c := by
  intro hx
  have e : q' = q := by
    have := hs.1.1
    rw [hx, D.holder] at this
    exact (Holder.pool.inj this).symm
  subst e
  rw [D.free hx hs] at hb
  cases hb

/-- Places outside a drained chunk stay. -/
theorem Ledger.Carving.vacate_place (hC : L.Carving cfg) {q' : PoolId} {x : SlabRef} {i s : ℕ}
    (hs : L.SlotIn q' x i s) (hx : x.chunk ≠ c) : (L.vacate q c).place s = L.place s := by
  simp only [Ledger.vacate]
  rw [hC.slot_region hs, if_neg hx]

theorem Ledger.Drained.unit (D : L.Drained q c) (hC : L.Carving cfg) {a n : ℕ} (hb : L.Busy a n) :
    (L.vacate q c).Unit a n := by
  cases hb with
  | slot hp hs =>
    have hx := D.busy_ne hp hs
    refine .slot ?_ ⟨Ledger.vacate_slabIn.mpr ⟨hx, hs.1⟩, hs.2⟩
    rw [hC.vacate_place hs hx]
    intro e
    rw [e] at hp
    cases hp
  | large hl => exact .large hl

/-- A drained chunk leaves its pool, and the log says so. -/
theorem chunkLeave_effect (H : HeapRep cfg h bins L) (S : L.Sound cfg) (D : L.Drained q r.chunk) :
    Effect k X B h L ((chunkLeave (dropLive h r) q r.chunk).note (.dispose r.chunk q))
      (L.vacate q r.chunk) := by
  obtain ⟨next', w', c', he, -⟩ := chunkLeave_eq (r := r) (q := q) H S
  rw [he]
  have hsome : ∀ x, (L.vacate q r.chunk).holder x ≠ .none → L.holder x ≠ .none := by
    intro x hx
    by_cases e : x = r.chunk
    · simp [e, D.holder]
    · simpa [Ledger.vacate, e] using hx
  refine ⟨fun a n hc _ => ?_, Keeps.refl, ⟨[.dispose r.chunk q], rfl, Clear.of_link ?_, ?_⟩, le_refl _,
    fun _ _ _ _ => rfl, fun _ _ hR => hR.congr hsome rfl, .refl,
    fun x hx => Or.inl (hsome x hx), rfl, rfl⟩
  · cases hc with
    | slot ho hs =>
      have hx := D.busy_ne (by simp [ho, Place.busy]) hs
      exact .slot (by rw [S.carving.vacate_place hs hx, ho])
        ⟨Ledger.vacate_slabIn.mpr ⟨hx, hs.1⟩, hs.2⟩
    | large hl => exact .large hl
  · intro e he
    rw [List.mem_singleton.mp he]
    rfl
  · intro x q' hx
    by_cases e : x = r.chunk
    · subst e
      rw [D.holder] at hx
      rw [Holder.pool.inj hx]
      exact Or.inr (List.mem_singleton_self _)
    · exact Or.inl (by simpa [Ledger.vacate, e] using hx)

/-- The header of a chunk still names the pool it leaves. -/
theorem chunkLeave_pool (H : HeapRep cfg h bins L) (S : L.Sound cfg) (D : L.Drained q r.chunk) :
    ((chunkLeave (dropLive h r) q r.chunk).chunks r.chunk).pool = q := by
  obtain ⟨next', w', c', he, -⟩ := chunkLeave_eq (r := r) (q := q) H S
  rw [he]
  simp only [unlinkChunks, if_true]
  rw [show ((dropLive h r).chunks r.chunk).pool = (h.chunks r.chunk).pool from
    update_proj Chunk.pool (by rfl) r.chunk]
  exact (H.header q r.chunk D.holder).pool

/-- A drained chunk is given up. -/
theorem chunkGiveUp_spec (H : HeapRep cfg h bins L) (S : L.Sound cfg) (D : L.Drained q r.chunk) :
    ∃ dest : Holder, dest.idle = true ∧ ((L.vacate q r.chunk).rehold r.chunk dest).Sound cfg ∧
      HeapRep cfg (chunkGiveUp cfg k (dropLive h r) q r.chunk) bins
        ((L.vacate q r.chunk).rehold r.chunk dest) ∧
      Effect k X L.Busy h L (chunkGiveUp cfg k (dropLive h r) q r.chunk)
        ((L.vacate q r.chunk).rehold r.chunk dest) ∧
      Aside h L (chunkGiveUp cfg k (dropLive h r) q r.chunk)
        ((L.vacate q r.chunk).rehold r.chunk dest) := by
  have S1 := D.sound S
  have hc1 : (L.vacate q r.chunk).holder r.chunk = .hand := Function.update_self ..
  obtain ⟨dest, hi, H2, E2, hnext⟩ := disposeRest_spec (k := k) (X := X)
    ((chunkLeave_rep H S D).note_dispose (c := r.chunk) (q := q)) S1 hc1
  have heq : chunkGiveUp cfg k (dropLive h r) q r.chunk = disposeRest cfg k
      ((chunkLeave (dropLive h r) q r.chunk).note (.dispose r.chunk q)) r.chunk := by
    rw [chunkGiveUp_eq, btmChunkDispose_eq, chunkLeave_pool H S D]
  rw [heq]
  refine ⟨dest, hi, S1.rehold (by simp [hc1]) (Holder.idle_ne_pool hi) (fun _ => ?_), H2,
    (chunkLeave_effect H S D).trans (E2.mono (fun hb => D.unit S.carving hb)), ?_, ?_, ?_⟩
  · exact S.carving.aligned (by simp [D.holder])
  · have hb : r.chunk ∉ L.batch := fun hm => by
      have := S.lists.batch.mem_iff.mp hm
      rw [D.holder] at this
      cases this
    have hd : dest ≠ .batch := by
      rintro rfl
      cases hi
    simp [Ledger.rehold, hd, Ledger.vacate, List.erase_of_not_mem hb]
  · have hd : dest ≠ .hand := by
      rintro rfl
      cases hi
    simp [Ledger.rehold, hd, Ledger.vacate]
  · intro x hx
    have hxp : L.holder x ≠ .pool q := by
      intro e
      rcases hx with hx | hx
      · rw [S.lists.batch.mem_iff.mp hx] at e
        cases e
      · rw [S.lists.hand.mem_iff.mp hx] at e
        cases e
    obtain ⟨next', w', c', he, -⟩ := chunkLeave_eq (r := r) (q := q) H S
    have hxc : x ≠ r.chunk := fun e => hxp (e ▸ D.holder)
    have h1 := hnext x hxc
    have h2 := (unlinkChunks_next (H.chunks.congr_chunks (dropLive_same (r := r))) S D.holder hxp).1
    rw [h1]
    simp only [Heap.note, he]
    rw [h2]
    exact (dropLive_same x).next

end BtMalloc
