import BtMalloc.Proofs.MapProofs

/-!
# Proofs: the maintenance thread

Every step of `bg_main` keeps the heap standing for a ledger. The thread only handles chunks that no
pool holds, so no slot moves, whichever range `decommit_batch` releases.
-/

namespace BtMalloc

open LinkedList PagedMemory Word

variable {cfg : Config} {k : Kernel} {X : ℕ → Prop} {Y : ℕ → ℕ → Prop} {Z : ℕ → PoolId → Prop}
  {h h' : Heap} {bins : ℕ → ℕ → Bin} {L L' : Ledger} {c : ℕ} {pc pc' : BgPc} {ring : Bool}

/-! ## Chunks that change hands -/

section Regroup

variable {holder : ℕ → Holder} {stk que bat hnd : List ℕ}

/-- Passing chunks on is the whole outcome when the heap stands for the new ledger. -/
theorem Ledger.Regroups.outcome (R : L.Regroups holder) (T : L.Settled)
    (S' : (L.regroup holder stk que bat hnd).Sound cfg)
    (H' : HeapRep cfg h' bins (L.regroup holder stk que bat hnd))
    (E : Effect k X L.Busy h L h' (L.regroup holder stk que bat hnd)) :
    Outcome cfg k X Y Z h L h' bins (L.regroup holder stk que bat hnd) := by
  have hslot : ∀ {q r i s}, (L.regroup holder stk que bat hnd).SlotIn q r i s ↔ L.SlotIn q r i s :=
    and_congr_left fun _ => R.slabIn
  refine ⟨S', ⟨fun hx => T.slab (R.slabIn.mp hx), fun hc => T.chunk (R.pool.mp hc), T.warm⟩, H',
    E.mono fun hb => ?_, ⟨fun _ _ _ _ ho _ hs => ⟨ho, hslot.mpr hs⟩, fun _ ho _ => ho, fun _ _ _ => rfl,
      fun _ _ hc => Or.inl (R.pool.mp hc), fun _ _ => rfl⟩,
    ⟨fun U => ⟨U.stage, fun hs => U.place (hslot.mp hs)⟩, fun hR => hR,
      fun _ _ _ _ hs hv => ⟨hslot.mpr hs, hv⟩⟩⟩
  cases hb with
  | slot hp hs => exact .slot hp (hslot.mp hs)
  | large hl => exact .large hl

end Regroup

/-- The thread takes all chunks of the queue. -/
def Ledger.takeQueue (L : Ledger) : Ledger :=
  L.regroup (fun c => if L.holder c = .queue then .batch else L.holder c) L.stack [] L.queue L.hand

theorem Ledger.regroups_takeQueue : L.Regroups L.takeQueue.holder := by
  refine ⟨fun {x q} => ?_, fun {x} => ?_⟩
  · show (if L.holder x = .queue then Holder.batch else L.holder x) = .pool q ↔ _
    split_ifs with e <;> simp [e]
  · show (if L.holder x = .queue then Holder.batch else L.holder x) ≠ .none ↔ _
    split_ifs with e <;> simp [e]

theorem Ledger.Sound.takeQueue (S : L.Sound cfg) (hb : L.batch = []) : L.takeQueue.Sound cfg := by
  have R := L.regroups_takeQueue
  have hnb : ∀ x, L.holder x ≠ .batch := fun x hx => by
    have := S.lists.batch.mem_iff.mpr hx
    rw [hb] at this
    cases this
  have hne : ∀ {x : ℕ} {D : Holder}, D ≠ .queue → D ≠ .batch →
      (L.takeQueue.holder x = D ↔ L.holder x = D) := by
    intro x D h1 h2
    show (if L.holder x = .queue then Holder.batch else L.holder x) = D ↔ _
    split_ifs with e
    · simp [e, Ne.symm h1, Ne.symm h2]
    · rfl
  refine S.rechunk rfl (fun q x => R.slabIn) ⟨fun hc => S.carving.valid (R.pool.mp hc),
    fun hc => S.carving.aligned (R.mapped.mp hc), fun hc => S.carving.top_eq (R.pool.mp hc), fun r => ?_⟩
    (fun q => (S.lists.chunks q).congr fun x => R.pool) (fun hc => R.pool.mpr (S.lists.active hc))
    (S.lists.stack.congr fun x => hne (by simp) (by simp)) (Listing.nil fun x hx => ?_)
    (S.lists.queue.congr fun x => ?_) (S.lists.hand.congr fun x => hne (by simp) (by simp))
  · simp only [R.pool]
    exact S.carving.carved r
  · have : (if L.holder x = .queue then Holder.batch else L.holder x) = .queue := hx
    split_ifs at this with e
    exact e this
  · show (if L.holder x = .queue then Holder.batch else L.holder x) = .batch ↔ _
    split_ifs with e
    · simp [e]
    · simp [e, hnb x]

/-! ## Releasing the pages of a batch -/

/-- The descriptor of a carved slab is in its own chunk. -/
theorem Ledger.Carving.desc_other {q : PoolId} {r : SlabRef} {p n : ℕ} (hC : L.Carving cfg)
    (hr : L.SlabIn q r) (hne : r.chunk ≠ c) (hc : c % 2097152 = 0) (hpn : p + n ≤ 512) :
    inPages (c + p * 4096) (n * 4096) (r.descAddr / 4096) = false := by
  obtain ⟨-, h1, h2⟩ := hC.slab_page hr
  have h3 := (hC.aligned hr.holder_ne).1
  have h4 := (hC.row hr.1).pages_pos
  rw [Bool.eq_false_iff, ne_eq, inPages_iff]
  simp only [SlabRef.descAddr, pageSize_eq, slabDescSize_eq, chunkSize_eq] at h3 ⊢
  omega

/-- `MADV_DONTNEED` on pages of a chunk that no pool holds. -/
theorem madvise_spec {p n : ℕ} (H : HeapRep cfg h bins L) (S : L.Sound cfg)
    (hm : cfg.meshMode = false) (hold : ∀ q, L.holder c ≠ .pool q) (hn : L.holder c ≠ .none)
    (hpn : p + n ≤ 512) :
    HeapRep cfg ((h.madviseDontneed (c + p * 4096) (n * 4096)).note (.release (c / 4096 + p) n)) bins L ∧
      Effect k X L.Unit h L
        ((h.madviseDontneed (c + p * 4096) (n * 4096)).note (.release (c / 4096 + p) n)) L ∧
      ((h.madviseDontneed (c + p * 4096) (n * 4096)).note (.release (c / 4096 + p) n)).chunks =
        h.chunks := by
  have hal : c % 2097152 = 0 := (S.carving.aligned hn).1
  have hk := madvise_keeps H.frame H.space S hm hn hpn (S.releasedIn_chunk hold p n)
  refine ⟨@HeapRep.dropPages _ _ _ _ _ H S hold hal _ _ hpn _
    (h.madviseDontneed (c + p * 4096) (n * 4096)).slabs rfl hk fun q x hx => ?_, Effect.dropPages H S hold hn hpn hk, rfl⟩
  have hne : x.chunk ≠ c := fun e => hold q (e ▸ hx.1)
  simp only [Heap.madviseDontneed, pageSize_eq, S.carving.desc_other hx hne hal hpn, Bool.false_and,
    Bool.false_eq_true, if_false]

theorem decommitOne_eq : decommitOne cfg ring h c =
    if cfg.meshMode || !ring then chunkDecommit cfg h c
    else (h.madviseDontneed (c + 1 * 4096) (505 * 4096)).note (.release (c / 4096 + 1) 505) := by
  have e0 : c + pageSize = c + 1 * 4096 := by simp
  have e1 : (c + 1 * 4096) / pageSize = c / 4096 + 1 := by simp only [pageSize_eq]; omega
  have e2 : kData = 505 * 4096 := by norm_num [kData]
  have e3 : 505 * 4096 / pageSize = 505 := by norm_num
  rw [decommitOne, e0, e1, e2, e3]

/-- Releasing one chunk of a batch. -/
theorem decommitOne_spec (H : HeapRep cfg h bins L) (S : L.Sound cfg)
    (hold : ∀ q, L.holder c ≠ .pool q) (hn : L.holder c ≠ .none) :
    HeapRep cfg (decommitOne cfg ring h c) bins L ∧
      Effect k X L.Unit h L (decommitOne cfg ring h c) L ∧
      (decommitOne cfg ring h c).chunks = h.chunks := by
  rw [decommitOne_eq]
  split
  next =>
    obtain ⟨m', slabs', he, H', E⟩ := chunkDecommit_spec (k := k) (X := X) H S hold hn
    exact ⟨H', E, by rw [he]⟩
  next hm =>
    have hmode : cfg.meshMode = false := by
      cases h1 : cfg.meshMode <;> simp_all
    exact madvise_spec (p := 1) (n := 505) H S hmode hold hn (by omega)

/-! ## The steps -/

/-- What a step of the maintenance thread leaves. -/
def BgDone (cfg : Config) (k : Kernel) (h : Heap) (bins : ℕ → ℕ → Bin) (L : Ledger) (h' : Heap)
    (pc' : BgPc) : Prop :=
  ∃ L', Outcome cfg k (fun _ => False) (fun _ _ => False) (fun _ _ => False) h L h' bins L' ∧
    BgRep h'.chunks L' pc'

/-- The pages of the next chunk of the batch are released. -/
theorem bgRelease_spec {disp : Option ℕ} (H : HeapRep cfg h bins L) (S : L.Sound cfg)
    (T : L.Settled) (G : BgRep h.chunks L (.release disp (some c))) :
    BgDone cfg k h bins L (decommitOne cfg ring h c) (.release disp (h.chunks c).next) := by
  obtain ⟨hh, hd, done, rest, he, hc⟩ := G
  cases rest with
  | nil => cases hc
  | cons x rest =>
    obtain ⟨hx, hc⟩ := hc
    obtain rfl : c = x := Option.some.inj hx
    have hb : L.holder c = .batch := S.lists.batch.mem_iff.mp (by rw [he]; simp)
    obtain ⟨H', E, hch⟩ := (@decommitOne_spec _ k (fun _ => False) _ _ _ c ring) H S
      (by simp [hb]) (by simp [hb])
    refine ⟨L, ⟨S, T, H', E.mono fun hu => hu.unit, .refl, .refl⟩, ?_⟩
    rw [hch]
    exact ⟨hh, hd, done ++ [c], rest, by rw [he]; simp, hc⟩

/-- The cleaned chunk at the head of the batch goes on the warm stack. -/
theorem bgGiveBack_spec {trim : Option ℕ} (H : HeapRep cfg h bins L) (S : L.Sound cfg)
    (T : L.Settled) (G : BgRep h.chunks L (.giveBack (some c) trim)) :
    BgDone cfg k h bins L (warmPush h c) (.giveBack (h.chunks c).next trim) := by
  obtain ⟨hd, ht⟩ := G
  cases hbat : L.batch with
  | nil => rw [hbat] at hd; cases hd
  | cons x rest =>
    rw [hbat] at hd
    obtain ⟨hx, hd⟩ := hd
    obtain rfl : c = x := Option.some.inj hx
    have hb : L.holder c = .batch := S.lists.batch.mem_iff.mp (by rw [hbat]; simp)
    have hhand : c ∉ L.hand := fun hm => by
      have := S.lists.hand.mem_iff.mp hm
      rw [hb] at this
      cases this
    have hrest : c ∉ rest := (List.nodup_cons.mp (hbat ▸ S.lists.batch.nodup)).1
    have R := (@Ledger.regroups_rehold L c .stack) (by simp [hb]) (by simp [hb])
      (by simp) (by simp)
    refine ⟨L.rehold c .stack, R.outcome T (S.rehold (by simp [hb]) (by simp) fun _ =>
      S.carving.aligned (by simp [hb])) (warmPush_rep H S (Or.inr hb)) R.effect, ?_, ?_⟩
    · have := chain_update (v := h.warmHead) hd hrest
      simpa [Ledger.rehold, hbat, warmPush, Heap.modChunk] using this
    · have := chain_update (v := h.warmHead) ht hhand
      simpa [Ledger.rehold, List.erase_of_not_mem hhand, warmPush, Heap.modChunk] using this

/-- The stack is full: the chunk is kept to be unmapped. -/
theorem bgKeep_spec {trim : Option ℕ} (H : HeapRep cfg h bins L) (S : L.Sound cfg) (T : L.Settled)
    (G : BgRep h.chunks L (.giveBack (some c) trim)) :
    BgDone cfg k h bins L (h.modChunk c fun x => { x with next := trim })
      (.giveBack (h.chunks c).next (some c)) := by
  obtain ⟨hd, ht⟩ := G
  cases hbat : L.batch with
  | nil => rw [hbat] at hd; cases hd
  | cons x rest =>
    rw [hbat] at hd
    obtain ⟨hx, hd⟩ := hd
    obtain rfl : c = x := Option.some.inj hx
    have hb : L.holder c = .batch := S.lists.batch.mem_iff.mp (by rw [hbat]; simp)
    have hne : ∀ {l : List ℕ} {D : Holder}, Listing l (fun x => L.holder x = D) → D ≠ .batch → c ∉ l :=
      fun hl hD hm => hD ((hl.mem_iff.mp hm).symm.trans hb)
    have hhand := hne S.lists.hand (by simp)
    have hs := hne S.lists.stack (by simp)
    have hq := hne S.lists.queue (by simp)
    have hrest : c ∉ rest := (List.nodup_cons.mp (hbat ▸ S.lists.batch.nodup)).1
    have R := (@Ledger.regroups_rehold L c .hand) (by simp [hb]) (by simp [hb])
      (by simp) (by simp)
    refine ⟨L.rehold c .hand, R.outcome T (S.rehold (by simp [hb]) (by simp) fun _ =>
      S.carving.aligned (by simp [hb])) (@HeapRep.rehold _ _ _ _ _ _ H S (by simp [hb]) (by simp [hb])
        (by simp) (by simp) trim h.warmHead h.disposeHead h.warmCount ⟨?_, ?_, ?_⟩) R.effect,
      ?_, ?_⟩
    · simpa [Ledger.rehold, List.erase_of_not_mem hs] using chain_update H.depot.stack hs
    · simpa [Ledger.rehold, List.erase_of_not_mem hs] using H.depot.stack_count
    · simpa [Ledger.rehold, List.erase_of_not_mem hq] using chain_update H.depot.queue hq
    · have := chain_update (v := trim) hd hrest
      simpa [Ledger.rehold, hbat, Heap.modChunk] using this
    · have := chain_update (v := trim) ht hhand
      simpa [Ledger.rehold, List.erase_of_not_mem hhand, Heap.modChunk] using this

/-- A chunk that was kept is unmapped. -/
theorem bgTrim_spec {deficit : ℤ} (H : HeapRep cfg h bins L) (S : L.Sound cfg) (T : L.Settled)
    (G : BgRep h.chunks L (.trim (some c) deficit)) :
    BgDone cfg k h bins L (chunkTrim cfg k h c) (.trim (h.chunks c).next deficit) := by
  obtain ⟨hb, ht⟩ := G
  cases hhand : L.hand with
  | nil => rw [hhand] at ht; cases ht
  | cons x rest =>
    rw [hhand] at ht
    obtain ⟨hx, ht⟩ := ht
    obtain rfl : c = x := Option.some.inj hx
    have hc : L.holder c = .hand := S.lists.hand.mem_iff.mp (by rw [hhand]; simp)
    have hold : ∀ q, L.holder c ≠ .pool q := by simp [hc]
    have hslot : ∀ {q r i s}, (L.rehold c .none).SlotIn q r i s ↔ L.SlotIn q r i s :=
      and_congr_left fun _ => Ledger.rehold_slabIn hold (by simp)
    obtain ⟨T', cap', freed', he, -, -⟩ := chunkTrim_eq cfg k h c
      (S.carving.aligned (by simp [hc])).2.2
    refine ⟨L.rehold c .none, ⟨S.rehold hold (by simp) (by simp), T.rehold hold (by simp),
      chunkTrim_rep H S hc, (chunkTrim_effect H S hc).mono fun hu => ?_,
      ⟨fun _ _ _ _ ho _ hs => ⟨ho, hslot.mpr hs⟩, fun _ ho _ => ho, fun _ _ _ => rfl,
        fun _ _ hx => Or.inl ((Ledger.rehold_pool hold (by simp)).mp hx), fun _ _ => rfl⟩,
      ⟨fun U => ⟨U.stage, fun hs => U.place (hslot.mp hs)⟩, fun hR => hR,
      fun _ _ _ _ hs hv => ⟨hslot.mpr hs, hv⟩⟩⟩, ?_, ?_⟩
    · cases hu.unit with
      | slot hv hs => exact .slot hv (hslot.mp hs)
      | large hl => exact .large hl
    · simp [Ledger.rehold, hb]
    · rw [he]
      simpa [Ledger.rehold, hhand] using ht

/-- A chunk is mapped ahead of demand. -/
theorem bgPremap_spec {deficit : ℤ} (S : L.Sound cfg) (T : L.Settled)
    (G : BgRep h.chunks L (.premap deficit)) (M : Mapped cfg k (fun _ => False) bins h L c h') :
    BgDone cfg k h bins L (warmPush h' c) (.premap (deficit - 1)) := by
  obtain ⟨hb, hh⟩ := G
  have hold : ∀ q, L.holder c ≠ .pool q := by simp [M.holder]
  have hc : (L.rehold c .hand).holder c = .hand := Function.update_self ..
  have hold' : ∀ q, (L.rehold c .hand).holder c ≠ .pool q := by simp [hc]
  have S1 := (@Ledger.Sound.rehold _ _ _ .hand) S hold (by simp) fun _ => ⟨M.mod, M.pos, M.le⟩
  have hslot : ∀ {q r i s}, ((L.rehold c .hand).rehold c .stack).SlotIn q r i s ↔ L.SlotIn q r i s :=
    and_congr_left fun _ => (Ledger.rehold_slabIn hold' (by simp)).trans
      (Ledger.rehold_slabIn hold (by simp))
  refine ⟨(L.rehold c .hand).rehold c .stack, ⟨S1.rehold hold' (by simp) fun _ => ⟨M.mod, M.pos, M.le⟩,
    (T.rehold hold (by simp)).rehold hold' (by simp), warmPush_rep M.rep S1 (Or.inl hc),
    (M.effect.mono fun hu => Or.inl ?_).trans (Effect.rehold (by simp [hc]) hold' (by simp)),
    ⟨fun _ _ _ _ ho _ hs => ⟨ho, hslot.mpr hs⟩, fun _ ho _ => ho, fun _ _ _ => rfl, fun _ _ hx => Or.inl
      ((Ledger.rehold_pool hold (by simp)).mp ((Ledger.rehold_pool hold' (by simp)).mp hx)),
      fun _ _ => rfl⟩, ⟨fun U => ⟨U.stage, fun hs => U.place (hslot.mp hs)⟩, fun hR => hR,
      fun _ _ _ _ hs hv => ⟨hslot.mpr hs, hv⟩⟩⟩, ?_, ?_⟩
  · cases hu.unit with
    | slot hv hs => exact .slot hv (hslot.mp hs)
    | large hl => exact .large hl
  · simp [Ledger.rehold, hb]
  · simp [Ledger.rehold, hh]

/-- One step of `bg_main`. -/
theorem bgStep_spec (H : HeapRep cfg h bins L) (S : L.Sound cfg) (T : L.Settled)
    (G : BgRep h.chunks L pc) (he : bgStep cfg k ring h pc = some (h', pc')) :
    BgDone cfg k h bins L h' pc' := by
  have stay : ∀ {pc'}, BgRep h.chunks L pc' → BgDone cfg k h bins L h pc' :=
    fun G' => ⟨L, ⟨S, T, H, Effect.refl, .refl, .refl⟩, G'⟩
  cases pc with
  | wait =>
    simp only [bgStep] at he
    split at he
    · cases he
      have R := L.regroups_takeQueue
      refine ⟨L.takeQueue, R.outcome T (S.takeQueue G.1) (H.regroup R S (fun _ => rfl) (fun _ => rfl)
        ⟨H.depot.stack, H.depot.stack_count, rfl⟩) R.effect, G.2, H.depot.queue, [], L.queue, rfl,
        H.depot.queue⟩
    · cases he
  | release disp cur =>
    cases cur with
    | none =>
      cases he
      obtain ⟨hh, hd, -⟩ := G
      exact stay ⟨hd, by rw [hh]; rfl⟩
    | some c =>
      cases he
      exact bgRelease_spec H S T G
  | giveBack disp trim =>
    cases disp with
    | none =>
      cases he
      obtain ⟨hd, ht⟩ := G
      refine stay ⟨?_, ht⟩
      cases hb : L.batch with
      | nil => rfl
      | cons x rest => rw [hb] at hd; cases hd.1
    | some c =>
      simp only [bgStep] at he
      split at he
      · cases he
        exact bgGiveBack_spec H S T G
      · cases he
        exact bgKeep_spec H S T G
  | trim trim deficit =>
    cases trim with
    | none =>
      cases he
      obtain ⟨hb, ht⟩ := G
      refine stay ⟨hb, ?_⟩
      cases hh : L.hand with
      | nil => rfl
      | cons x rest => rw [hh] at ht; cases ht.1
    | some c =>
      cases he
      exact bgTrim_spec H S T G
  | premap deficit =>
    simp only [bgStep] at he
    split at he
    · cases he
      exact stay G
    · rcases mapFresh_spec (k := k) (X := fun _ => False) H S with ⟨h1, e, -, H1, E1, hc⟩ | ⟨c, h1, e, M⟩
      · rw [e] at he
        cases he
        refine ⟨L, ⟨S, T, H1, E1.mono fun hu => hu.unit, .refl, .refl⟩, ?_⟩
        rw [hc]
        exact G
      · rw [e] at he
        cases he
        exact bgPremap_spec S T G M

end BtMalloc
