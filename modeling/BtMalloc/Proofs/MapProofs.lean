import BtMalloc.Conditions
import BtMalloc.Proofs.TouchProofs

/-!
# Proofs: mapping a chunk

`map_fresh` reserves memory, keeps the aligned chunk in it, backs it and registers it. Whatever the
kernel refuses on the way, the heap stands for its ledger, with the new chunk in hand if there is
one.
-/

namespace BtMalloc

open LinkedList PagedMemory Word

variable {cfg : Config} {k : Kernel} {X : ℕ → Prop} {B : ℕ → ℕ → Prop} {h : Heap}
  {bins : ℕ → ℕ → Bin} {L : Ledger} {c off : ℕ}

/-! ## Offsets of the memfd -/

/-- An offset that no chunk has and that is not on the stack of free ones. -/
structure NewOff (chunks : ℕ → Chunk) (L : Ledger) (bump : ℕ) (freed : List ℕ) (off : ℕ) :
    Prop where
  mod : off % chunkSize = 0
  lt : off < bump
  freed : off ∉ freed
  used : ∀ {c}, L.holder c ≠ .none → (chunks c).memfdOff ≠ off

/-- `memfd_alloc_off` gives out a new offset or leaves the heap alone. -/
theorem memfdAllocOff_spec (H : HeapRep cfg h bins L) (hm : cfg.meshMode = true) :
    memfdAllocOff k h = (none, h) ∨ ∃ off bump' size' freed',
      memfdAllocOff k h =
        (some off, { h with memfdBump := bump', memfdSize := size', memfdFree := freed' }) ∧
      FrameRep cfg h.mem.pt h.chunks bump' freed' L ∧ NewOff h.chunks L bump' freed' off := by
  have F := H.frame
  unfold memfdAllocOff
  cases hf : h.memfdFree with
  | cons off rest =>
    rw [hf] at F
    obtain ⟨hno, hnd⟩ := List.nodup_cons.mp F.freed_nodup
    refine Or.inr ⟨off, h.memfdBump, h.memfdSize, rest, rfl, ?_, ?_⟩
    · exact ⟨F.anon, F.slab, F.rest, F.off_mod, F.off_inj, F.off_lt,
        fun hm _ hc hm' => F.off_freed hm hc (List.mem_cons_of_mem _ hm'),
        fun ho => F.freed_mod (List.mem_cons_of_mem _ ho),
        fun ho => F.freed_lt (List.mem_cons_of_mem _ ho), hnd, F.bump_mod⟩
    · exact ⟨F.freed_mod (List.mem_cons_self ..), F.freed_lt (List.mem_cons_self ..), hno,
        fun {c} hc e => F.off_freed hm hc (e ▸ List.mem_cons_self ..)⟩
  | nil =>
    have hbump : FrameRep cfg h.mem.pt h.chunks (h.memfdBump + chunkSize) [] L ∧
        NewOff h.chunks L (h.memfdBump + chunkSize) [] h.memfdBump := by
      refine ⟨⟨F.anon, F.slab, F.rest, F.off_mod, F.off_inj,
        fun hm _ hc => (F.off_lt hm hc).trans (by simp), by simp, by simp, by simp, by simp, ?_⟩,
        ⟨F.bump_mod, by simp, by simp, fun {c} hc e => ?_⟩⟩
      · have := F.bump_mod
        simp only [chunkSize_eq] at this ⊢
        omega
      · have := F.off_lt hm hc
        omega
    dsimp only
    split
    next =>
      split
      next =>
        exact Or.inr ⟨h.memfdBump, _, _, [], by rw [← hf], hbump.1, hbump.2⟩
      next => exact Or.inl rfl
    next =>
      exact Or.inr ⟨h.memfdBump, _, h.memfdSize, [], by rw [← hf], hbump.1, hbump.2⟩

/-- Giving a new offset back. -/
theorem NewOff.giveBack {pt : ℕ → Frame} {chunks : ℕ → Chunk} {bump : ℕ} {freed freed' : List ℕ}
    (N : NewOff chunks L bump freed off) (F : FrameRep cfg pt chunks bump freed L)
    (hf : freed' = off :: freed ∨ freed' = freed) : FrameRep cfg pt chunks bump freed' L := by
  rcases hf with rfl | rfl
  · refine ⟨F.anon, F.slab, F.rest, F.off_mod, F.off_inj, F.off_lt, fun hm c hc hm' => ?_,
      fun {o} ho => ?_, fun {o} ho => ?_, List.nodup_cons.mpr ⟨N.freed, F.freed_nodup⟩, F.bump_mod⟩
    · rcases List.mem_cons.mp hm' with e | hm'
      · exact N.used hc e
      · exact F.off_freed hm hc hm'
    · rcases List.mem_cons.mp ho with rfl | ho
      · exact N.mod
      · exact F.freed_mod ho
    · rcases List.mem_cons.mp ho with rfl | ho
      · exact N.lt
      · exact F.freed_lt ho
  · exact F

/-- A heap whose frame part changed in the memfd offsets only. -/
theorem HeapRep.offsets (H : HeapRep cfg h bins L) {bump size cap : ℕ} {freed : List ℕ}
    (F : FrameRep cfg h.mem.pt h.chunks bump freed L) :
    HeapRep cfg { h with
      memfdBump := bump, memfdSize := size, memfdFree := freed, memfdFreeCap := cap } bins L :=
  ⟨H.desc, H.lists, H.tally, H.header, H.chunks, H.depot, H.free, H.bins, F, H.space, H.owner, H.log⟩

/-! ## The new chunk -/

/-- Nobody owns a region all of whose pages are vacant. -/
theorem HeapRep.not_covers (H : HeapRep cfg h bins L) {key w : ℕ}
    (hun : ∀ j < 512, h.mapped (key * 512 + j) = false) : ¬ L.Covers key w := by
  intro hc
  cases hc with
  | chunk hh =>
    have := H.space.chunk hh (j := 0) (by decide)
    simp only [chunkSize_eq, pageSize_eq] at this
    have e : key * 2097152 / 4096 + 0 = key * 512 + 0 := by omega
    rw [e, hun 0 (by omega)] at this
    cases this
  | @large b hd hb h1 h2 =>
    -- the first page of the object in the region
    have ho := H.space.large hb
    have hbm := ho.base_mod
    have hlm := ho.len_mod
    have hlt := ho.off_lt
    simp only [chunkSize_eq, pageSize_eq] at h1 h2 hbm hlm
    by_cases hle : key * 2097152 ≤ b
    · have := ho.mapped (j := 0) (by simp only [pageSize_eq]; omega)
      simp only [pageSize_eq] at this
      have e : b / 4096 + 0 = key * 512 + (b / 4096 - key * 512) := by omega
      rw [e, hun _ (by omega)] at this
      cases this
    · have := ho.mapped (j := key * 512 - b / 4096) (by simp only [pageSize_eq]; omega)
      simp only [pageSize_eq] at this
      have e : b / 4096 + (key * 512 - b / 4096) = key * 512 + 0 := by omega
      rw [e, hun 0 (by omega)] at this
      cases this

/-- Who covers a region once chunk `c` is mapped. -/
theorem Ledger.Covers.of_map {key w : ℕ} (hc : (L.rehold c .hand).Covers key w) :
    (key * chunkSize = c ∧ w = c) ∨ L.Covers key w := by
  cases hc with
  | chunk hh =>
    by_cases e : key * chunkSize = c
    · exact Or.inl ⟨e, e⟩
    · refine Or.inr (.chunk ?_)
      rwa [show (L.rehold c .hand).holder (key * chunkSize) = L.holder (key * chunkSize) from
        Function.update_of_ne e ..] at hh
  | large hb h1 h2 => exact Or.inr (.large hb h1 h2)

theorem Ledger.Covers.map {key w : ℕ} (hc : L.Covers key w) : (L.rehold c .hand).Covers key w := by
  refine hc.congr (fun x hx => ?_) rfl
  by_cases e : x = c
  · simp [Ledger.rehold, e]
  · simpa [Ledger.rehold, e] using hx

/-- The state in which a fresh chunk at `c` is mapped and backed, but not registered. -/
structure Backed (cfg : Config) (h h' : Heap) (c off : ℕ) : Prop where
  mod : c % 2097152 = 0
  pos : 0 < c
  le : c + chunkSize ≤ 2 ^ 47
  fresh : ∀ j < 512, h.mapped (c / 4096 + j) = false
  mapped : ∀ j < 512, h'.mapped (c / 4096 + j) = true
  pt : cfg.meshMode = true → ∀ j < 512, h'.mem.pt (c / 4096 + j) = .memfd (off / 4096 + j)

/-- A chunk that is mapped afresh was not mapped. -/
theorem Backed.holder {h' : Heap} (K : Backed cfg h h' c off) (H : HeapRep cfg h bins L) :
    L.holder c = .none := by
  by_contra hne
  have := H.space.chunk hne (j := 0) (by decide)
  simp only [pageSize_eq] at this
  rw [K.fresh 0 (by omega)] at this
  cases this

theorem Backed.not_covers {h' : Heap} (K : Backed cfg h h' c off) (H : HeapRep cfg h bins L)
    {key w : ℕ} (hk : key * chunkSize = c) : ¬ L.Covers key w := by
  refine H.not_covers (fun j hj => ?_)
  have := K.fresh j hj
  simp only [chunkSize_eq] at hk
  rwa [show c / 4096 = key * 512 by omega] at this

/-- The page table with a fresh chunk. -/
theorem FrameRep.map {pt : ℕ → Frame} {chunks chunks' : ℕ → Chunk} {bump : ℕ} {freed : List ℕ}
    (F : FrameRep cfg pt chunks bump freed L) (S : L.Sound cfg) (hcn : L.holder c = .none)
    (N : cfg.meshMode = true → NewOff chunks L bump freed off)
    (hpt : cfg.meshMode = true → ∀ j < 512, pt (c / 4096 + j) = .memfd (off / 4096 + j))
    (hself : (chunks' c).memfdOff = off) (hupd : ∀ x, x ≠ c → chunks' x = chunks x) :
    FrameRep cfg pt chunks' bump freed (L.rehold c .hand) := by
  have hold : ∀ q, L.holder c ≠ .pool q := by simp [hcn]
  have hslab : ∀ {q x}, (L.rehold c .hand).SlabIn q x → L.SlabIn q x :=
    fun hx => (Ledger.rehold_slabIn hold (by simp)).mp hx
  have hhold : ∀ {x}, (L.rehold c .hand).holder x ≠ .none → x = c ∨ x ≠ c ∧ L.holder x ≠ .none := by
    intro x hx
    by_cases e : x = c
    · exact Or.inl e
    · exact Or.inr ⟨e, by simpa [Ledger.rehold, e] using hx⟩
  refine ⟨F.anon, fun hm q x hx j hj => ?_, fun hm x hx j hj h512 => ?_, fun hm x hx => ?_,
    fun hm x y hx hy e => ?_, fun hm x hx => ?_, fun hm x hx => ?_, F.freed_mod, F.freed_lt,
    F.freed_nodup, F.bump_mod⟩
  · have ht := (S.meshed.pool (hslab hx)).holder_ne
    show pt _ = .memfd ((chunks' (L.target x).chunk).memfdOff / pageSize + (L.target x).page + j)
    rw [hupd _ (fun e => ht (by rw [e, hcn]))]
    exact F.slab hm (hslab hx) hj
  · rcases hhold hx with rfl | ⟨e, hx'⟩
    · rw [hself]
      exact hpt hm j h512
    · rw [hupd x e]
      refine F.rest hm hx' ?_ h512
      have : (L.rehold c .hand).floor x = L.floor x := by
        unfold Ledger.floor
        rw [show (L.rehold c .hand).holder x = L.holder x from Function.update_of_ne e ..]
        rfl
      rwa [← this]
  · rcases hhold hx with rfl | ⟨e, hx'⟩
    · rw [hself]
      exact (N hm).mod
    · rw [hupd x e]
      exact F.off_mod hm hx'
  · rcases hhold hx with rfl | ⟨ex, hx'⟩
    · rcases hhold hy with rfl | ⟨ey, hy'⟩
      · rfl
      · rw [hself, hupd y ey] at e
        exact absurd e.symm ((N hm).used hy')
    · rcases hhold hy with rfl | ⟨ey, hy'⟩
      · rw [hself, hupd x ex] at e
        exact absurd e ((N hm).used hx')
      · rw [hupd x ex, hupd y ey] at e
        exact F.off_inj hm hx' hy' e
  · rcases hhold hx with rfl | ⟨e, hx'⟩
    · rw [hself]
      exact (N hm).lt
    · rw [hupd x e]
      exact F.off_lt hm hx'
  · rcases hhold hx with rfl | ⟨e, hx'⟩
    · rw [hself]
      exact (N hm).freed
    · rw [hupd x e]
      exact F.off_freed hm hx'

/-- Registering a fresh chunk. -/
theorem mapChunk_rep {h' : Heap} (K : Backed cfg h h' c off) (H : HeapRep cfg h bins L)
    (H' : HeapRep cfg h' bins L) (S : L.Sound cfg)
    (N : cfg.meshMode = true → NewOff h'.chunks L h'.memfdBump h'.memfdFree off)
    {T' : OwnerTable}
    (hst : Stored k c (regionKeys c chunkSize) h'.owners T') :
    HeapRep cfg { h' with
      owners := T'
      chunks := Function.update h'.chunks c { h'.chunks c with memfdOff := off } } bins
      (L.rehold c .hand) := by
  have hcn := K.holder H
  have hold : ∀ q, L.holder c ≠ .pool q := by simp [hcn]
  have hslab : ∀ {q x}, (L.rehold c .hand).SlabIn q x → L.SlabIn q x :=
    fun hx => (Ledger.rehold_slabIn hold (by simp)).mp hx
  have hne : ∀ {x}, L.holder x ≠ .none → x ≠ c := fun hx e => hx (e ▸ hcn)
  have hupd : ∀ {x}, x ≠ c →
      Function.update h'.chunks c { h'.chunks c with memfdOff := off } x = h'.chunks x :=
    fun e => Function.update_of_ne e ..
  have hlist : ∀ {l : List ℕ} {D : Holder}, D ≠ .none → Listing l (fun x => L.holder x = D) →
      c ∉ l := by
    intro l D hD hl hm
    have := hl.mem_iff.mp hm
    exact hD (this.symm.trans hcn)
  have hs := hlist (by simp) S.lists.stack
  have hq := hlist (by simp) S.lists.queue
  have hhold : ∀ {x}, (L.rehold c .hand).holder x ≠ .none → x = c ∨ x ≠ c ∧ L.holder x ≠ .none := by
    intro x hx
    by_cases e : x = c
    · exact Or.inl e
    · exact Or.inr ⟨e, by simpa [Ledger.rehold, e] using hx⟩
  refine ⟨fun q x hx => H'.desc q x (hslab hx), H'.lists, H'.tally, fun q x hx => ?_, fun q => ?_,
    ⟨?_, ?_, ?_⟩, fun q x hx hi => H'.free q x (hslab hx) hi, H'.bins, ?_, ?_, fun key hk hr => ?_,
    ⟨H'.log.good, fun hx hi => H'.log.free (hslab hx) hi, H'.log.bin⟩⟩
  · have hx' := (Ledger.rehold_pool hold (by simp)).mp hx
    have e : x ≠ c := hne (by simp [hx'])
    simp only [hupd e]
    exact (H'.header q x hx').congr rfl rfl (fun _ _ hy => hy)
  · exact ⟨(H'.chunks q).1.congr (fun x _ => update_proj Chunk.next (by rfl) x)
      (fun x _ => update_proj Chunk.prev (by rfl) x), (H'.chunks q).2⟩
  · have : Chain (fun x => (h'.chunks x).next) h'.warmHead ((L.rehold c .hand).stack) := by
      simpa [Ledger.rehold, List.erase_of_not_mem hs] using H'.depot.stack
    exact this.congr (fun x _ => update_proj Chunk.next (by rfl) x)
  · simpa [Ledger.rehold, List.erase_of_not_mem hs] using H'.depot.stack_count
  · have : Chain (fun x => (h'.chunks x).next) h'.disposeHead ((L.rehold c .hand).queue) := by
      simpa [Ledger.rehold, List.erase_of_not_mem hq] using H'.depot.queue
    exact this.congr (fun x _ => update_proj Chunk.next (by rfl) x)
  · exact H'.frame.map S hcn N (K.pt) (by simp) (fun x e => by simp [e])
  · refine ⟨fun {x} hx j hj => ?_, fun hb => H'.space.large hb, fun hb => H'.space.header hb,
      fun {key w w'} h1 h2 => ?_⟩
    · rcases hhold hx with rfl | ⟨e, hx'⟩
      · exact K.mapped j hj
      · exact H'.space.chunk hx' hj
    · rcases h1.of_map with ⟨hk, e1⟩ | h1'
      · rcases h2.of_map with ⟨-, e2⟩ | h2'
        · exact e1.trans e2.symm
        · exact absurd h2' (K.not_covers H hk)
      · rcases h2.of_map with ⟨hk, -⟩ | h2'
        · exact absurd h1' (K.not_covers H hk)
        · exact H'.space.unique h1' h2'
  · show (L.rehold c .hand).Covers key (ownerAt T' key)
    by_cases e : key * chunkSize = c
    · rcases hst.set ((mem_regionKeys_chunk K.mod K.le).mpr e) with h0 | h0
      · rw [h0, ← e]
        exact .chunk (by rw [e]; simp [Ledger.rehold])
      · exact absurd h0 hr
    · have h1 := hst.other hk (fun hm => e ((mem_regionKeys_chunk K.mod K.le).mp hm))
      rw [h1]
      exact (H'.owner key hk (by rwa [← h1])).map

theorem mapChunk_effect {h' : Heap} (K : Backed cfg h h' c off) (H : HeapRep cfg h bins L)
    (H' : HeapRep cfg h' bins L) (S : L.Sound cfg) {T' : OwnerTable} {chunks' : ℕ → Chunk}
    (hst : Stored k c (regionKeys c chunkSize) h'.owners T')
    (haddr : k.chunk.map chunkBase = some c) :
    Effect k X B h' L { h' with owners := T', chunks := chunks' } (L.rehold c .hand) := by
  have hold : ∀ q, L.holder c ≠ .pool q := by simp [K.holder H]
  refine ⟨fun a n hc _ => Ledger.rehold_client hold (by simp) hc, Keeps.refl,
    ⟨[], rfl, Clear.nil, fun x q hx => Or.inl ((Ledger.rehold_pool hold (by simp)).mpr hx)⟩,
    le_refl _, fun _ key hk hr => ?_, fun key hl hR w hw => ?_, hst.grows, fun x hx => ?_, rfl, rfl⟩
  · have e : key * chunkSize ≠ c := fun e => K.not_covers H e (H'.owner key hk hr)
    exact hst.other hk (fun hm => e ((mem_regionKeys_chunk K.mod K.le).mp hm))
  · rcases hw.of_map with ⟨e, rfl⟩ | hw
    · exact hst.backed ((mem_regionKeys_chunk K.mod K.le).mpr e) hl
    · have e : key * chunkSize ≠ c := fun e => K.not_covers H e hw
      rw [hst.other (hw.key_lt S H'.space) (fun hm => e ((mem_regionKeys_chunk K.mod K.le).mp hm))]
      exact hR hw
  · by_cases e : x = c
    · exact Or.inr (e ▸ haddr)
    · exact Or.inl (by simpa [Ledger.rehold, e] using hx)

/-! ## The reservation -/

theorem chunkBase_spec {raw : ℕ} (hle : raw + 4194304 ≤ 2 ^ 47) :
    chunkBase raw % 2097152 = 0 ∧ raw ≤ chunkBase raw ∧ chunkBase raw < raw + 2097152 := by
  have e : chunkBase raw = (raw + 2097152 - 1) / 2 ^ 21 * 2 ^ 21 :=
    maskDown_eq (x := raw + 2097152 - 1) (k := 21) (by omega) (by omega)
  rw [e]
  omega

/-! ## `map_fresh` -/

/-- Backing the trimmed reservation. -/
def backed (cfg : Config) (h : Heap) (c off : ℕ) : Heap :=
  if cfg.meshMode then h.mmapMemfd c chunkSize off else h.mmapAnon c chunkSize

/-- The end of `map_fresh`, once the offset is known. -/
def mapAt (cfg : Config) (k : Kernel) (h : Heap) (off : ℕ) : Option ℕ × Heap :=
  let giveBack (h : Heap) : Heap := if cfg.meshMode then memfdFreeOff k h off else h
  match mmapResult h k.chunk (chunkSize * 2) with
  | none => (none, giveBack h)
  | some raw =>
    if k.fixed then
      (some (chunkBase raw),
        (btmRegistryInsert k (backed cfg (trimTo h raw (chunkSize * 2) (chunkBase raw) chunkSize) (chunkBase raw) off) (chunkBase raw)
          chunkSize (chunkBase raw)).modChunk (chunkBase raw) fun x => { x with memfdOff := off })
    else (none, giveBack ((trimTo h raw (chunkSize * 2) (chunkBase raw) chunkSize).munmap (chunkBase raw) chunkSize))

theorem mapFresh_eq : mapFresh cfg k h =
    match if cfg.meshMode then memfdAllocOff k h else (some 0, h) with
    | (none, h) => (none, h)
    | (some off, h) => mapAt cfg k h off := by
  unfold mapFresh mapAt trimTo backed chunkBase
  generalize (if cfg.meshMode then memfdAllocOff k h else (some 0, h)) = x
  obtain ⟨_ | off, h1⟩ := x
  · rfl
  · cases mmapResult h1 k.chunk (chunkSize * 2) with
    | none => rfl
    | some raw => rfl

theorem backed_spec {h' : Heap} {v : ℕ} (V : Vacant L h v 1024)
    (hun : ∀ {p}, inRun v 1024 p → h.mapped p = false) (T : Touched cfg L v 1024 h h')
    (hmod : c % 2097152 = 0) (hpos : 0 < c) (h1 : v * 4096 ≤ c) (h2 : c + 2097152 ≤ (v + 1024) * 4096)
    (hle : c + 2097152 ≤ 2 ^ 47) :
    Touched cfg L v 1024 h (backed cfg h' c off) ∧ Backed cfg h (backed cfg h' c off) c off ∧
      (backed cfg h' c off).log = h'.log := by
  have hfresh : ∀ j < 512, h.mapped (c / 4096 + j) = false :=
    fun j hj => hun ⟨by omega, by omega⟩
  have hin : ∀ j < 512, inPages c 2097152 (c / 4096 + j) = true := by
    intro j hj
    rw [inPages_iff]
    omega
  unfold backed
  simp only [chunkSize_eq]
  split_ifs with hm
  · refine ⟨T.mmapMemfd V hm h1 h2 (by omega) (by omega),
      ⟨hmod, hpos, hle, hfresh, fun j hj => ?_, fun _ j hj => ?_⟩, rfl⟩
    · show (inPages c 2097152 (c / 4096 + j) || h'.mapped (c / 4096 + j)) = true
      rw [hin j hj, Bool.true_or]
    · rw [show ∀ p, (h'.mmapMemfd c 2097152 off).mem.pt p =
        (h'.mem.remap (c / 4096) (2097152 / 4096) fun i => .memfd (off / 4096 + i)).pt p from
          fun _ => rfl, remap_pt, if_pos (by omega), Nat.add_sub_cancel_left]
  · refine ⟨T.mmapAnon V h1 h2 (by omega) (by omega),
      ⟨hmod, hpos, hle, hfresh, fun j hj => ?_, fun hm' => absurd hm' hm⟩, rfl⟩
    show (inPages c 2097152 (c / 4096 + j) || h'.mapped (c / 4096 + j)) = true
    rw [hin j hj, Bool.true_or]

/-- The offsets of the memfd are nobody else's business. -/
theorem Effect.offsets {bump size cap : ℕ} {freed : List ℕ} : Effect k X B h L { h with
    memfdBump := bump, memfdSize := size, memfdFree := freed, memfdFreeCap := cap } L :=
  Effect.quiet Keeps.refl ⟨[], rfl, by simp⟩ (fun _ _ hc _ => hc) rfl rfl rfl rfl ⟨rfl, rfl⟩

/-- `map_fresh` gives up: the offset goes back. -/
theorem giveBack_spec (H : HeapRep cfg h bins L)
    (N : cfg.meshMode = true → NewOff h.chunks L h.memfdBump h.memfdFree off) :
    ∃ h', (if cfg.meshMode then memfdFreeOff k h off else h) = h' ∧ HeapRep cfg h' bins L ∧
      Effect k X B h L h' L ∧ h'.chunks = h.chunks := by
  split_ifs with hm
  · obtain ⟨cap', freed', e, hf⟩ := memfdFreeOff_spec k h off
    exact ⟨_, e, H.offsets ((N hm).giveBack H.frame hf), Effect.offsets, rfl⟩
  · exact ⟨h, rfl, H, Effect.refl, rfl⟩

/-- A new chunk at `c` is mapped and in hand. -/
structure Mapped (cfg : Config) (k : Kernel) (X : ℕ → Prop) (bins : ℕ → ℕ → Bin) (h : Heap)
    (L : Ledger) (c : ℕ) (h' : Heap) : Prop where
  holder : L.holder c = .none
  mod : c % 2097152 = 0
  pos : 0 < c
  le : c + chunkSize ≤ 2 ^ 47
  rep : HeapRep cfg h' bins (L.rehold c .hand)
  effect : Effect k X (fun a n => L.Unit a n ∨ c ≤ a ∧ a + n ≤ c + chunkSize) h L h'
    (L.rehold c .hand)
  link : ∀ x, (h'.chunks x).next = (h.chunks x).next
  addr : k.chunk.map chunkBase = some c

theorem chunk_end (hmod : c % 2097152 = 0) : c + chunkSize ≤ (c / 4096 + 512) * 4096 := by
  rw [chunkSize_eq]
  omega

/-- Backing and registering the chunk at `c`. -/
theorem mapped_of_touched {h' : Heap} {v : ℕ} (H : HeapRep cfg h bins L) (S : L.Sound cfg)
    (N : cfg.meshMode = true → NewOff h.chunks L h.memfdBump h.memfdFree off)
    (V : Vacant L h v 1024) (hun : ∀ {p}, inRun v 1024 p → h.mapped p = false)
    (T : Touched cfg L v 1024 h h') (Sp : Spared (c / 4096) 512 h.log h'.log)
    (hmod : c % 2097152 = 0) (hpos : 0 < c) (h1 : v * 4096 ≤ c)
    (h2 : c + 2097152 ≤ (v + 1024) * 4096) (hle : c + 2097152 ≤ 2 ^ 47)
    (haddr : k.chunk.map chunkBase = some c) :
    Mapped cfg k X bins h L c ((btmRegistryInsert k (backed cfg h' c off) c chunkSize c).modChunk c
      fun x => { x with memfdOff := off }) := by
  obtain ⟨T', K, hlog⟩ := (@backed_spec _ _ _ _ off) V hun T hmod hpos h1 h2 hle
  have H' := T'.rep V H S
  have same := T'.same
  obtain ⟨l1, e1, hst⟩ := btmRegistryInsert_spec k (backed cfg h' c off) c c chunkSize (by simp) K.le
  have hE : Effect k X L.Unit h L _ _ := (T'.effect V).trans
    (@mapChunk_effect _ _ _ _ _ _ _ _ _ _ K H H' S _ (Function.update (backed cfg h' c off).chunks c
      { (backed cfg h' c off).chunks c with memfdOff := off }) hst haddr)
  rw [e1]
  refine ⟨K.holder H, hmod, hpos, hle, mapChunk_rep K H H' S (fun hm => ?_) hst, ?_, fun x => ?_,
    haddr⟩
  · have := N hm
    rw [same]
    exact this
  · obtain ⟨ev, hev, hU, -⟩ := hE.log
    exact hE.reclear hev (Sp.clear (a := c) (m := chunkSize) (hlog.symm.trans hev) hU
      (Nat.div_mul_le_self c 4096) (chunk_end hmod))
  · show (Function.update (backed cfg h' c off).chunks c
      { (backed cfg h' c off).chunks c with memfdOff := off } x).next = _
    rw [update_proj Chunk.next (by rfl), same]

theorem mapAt_spec (H : HeapRep cfg h bins L) (S : L.Sound cfg)
    (N : cfg.meshMode = true → NewOff h.chunks L h.memfdBump h.memfdFree off) :
    (∃ h', mapAt cfg k h off = (none, h') ∧
      (mmapResult h k.chunk (chunkSize * 2) = none ∨ k.fixed = false) ∧
      HeapRep cfg h' bins L ∧ Effect k X L.Unit h L h' L ∧ h'.chunks = h.chunks) ∨
    ∃ c h', mapAt cfg k h off = (some c, h') ∧ Mapped cfg k X bins h L c h' := by
  unfold mapAt
  dsimp only
  cases hres : mmapResult h k.chunk (chunkSize * 2) with
  | none =>
    obtain ⟨h', e, hr⟩ := giveBack_spec (k := k) (X := X) (B := L.Unit) H N
    exact Or.inl ⟨h', by rw [e], Or.inl rfl, hr⟩
  | some raw =>
    obtain ⟨hmod, hpos, -, hle, hun⟩ := freshRange_spec (Option.filter_eq_some_iff.mp hres).2
    have hle' : raw + 4194304 ≤ 2 ^ 47 := hle
    have V : Vacant L h (raw / 4096) 1024 := H.vacant S (fun hp => hun hp)
    obtain ⟨b1, b2, b3⟩ := chunkBase_spec hle'
    obtain ⟨T, Sp, -⟩ := (@trimTo_spec cfg _ _ _ _ (chunkBase raw) chunkSize) V hmod
      (by simp) (by omega) (by simp) b2 (by simp only [chunkSize_eq]; omega) hle
    rw [show chunkSize * 2 / 4096 = 1024 from rfl] at T
    rw [show chunkSize / 4096 = 512 from rfl] at Sp
    dsimp only
    have haddr : k.chunk.map chunkBase = some (chunkBase raw) := by
      rw [(Option.filter_eq_some_iff.mp hres).1]
      rfl
    generalize chunkBase raw = c at b1 b2 b3 T Sp haddr ⊢
    by_cases hfix : k.fixed = true
    · rw [if_pos hfix]
      exact Or.inr ⟨c, _, rfl, mapped_of_touched H S N V (fun hp => hun hp) T Sp b1 (by omega) (by omega) (by omega)
        (by omega) haddr⟩
    · rw [if_neg hfix]
      have T' := T.munmap (a := c) (m := chunkSize) (by omega) (by simp only [chunkSize_eq]; omega)
        (by omega) (by simp)
      have same := T'.same
      obtain ⟨h', e, hr, hE, hc⟩ := (@giveBack_spec _ k X L.Unit _ _ _ off)
        (T'.rep V H S) (fun hm => by have := N hm; rw [same]; exact this)
      refine Or.inl ⟨h', by rw [e], Or.inr (by simpa using hfix), hr, (T'.effect V).trans hE, ?_⟩
      rw [hc, same]

/-- `map_fresh` maps a chunk, or the kernel refused one and nothing changed. -/
theorem mapFresh_spec (H : HeapRep cfg h bins L) (S : L.Sound cfg) :
    (∃ h', mapFresh cfg k h = (none, h') ∧ MapRefused cfg k h ∧ HeapRep cfg h' bins L ∧
      Effect k X L.Unit h L h' L ∧ h'.chunks = h.chunks) ∨
    ∃ c h', mapFresh cfg k h = (some c, h') ∧ Mapped cfg k X bins h L c h' := by
  rw [mapFresh_eq]
  cases hm : cfg.meshMode with
  | false =>
    rw [if_neg (by simp)]
    rcases (@mapAt_spec _ k X _ _ _ 0) H S (by simp [hm]) with
      ⟨h', e, hr, h1⟩ | ⟨c, h', e, h1⟩
    · exact Or.inl ⟨h', e, Or.inr hr, h1⟩
    · exact Or.inr ⟨c, h', e, h1⟩
  | true =>
    rw [if_pos rfl]
    rcases memfdAllocOff_spec (k := k) H hm with e0 | ⟨off, bump', size', freed', e0, F, N⟩
    · rw [e0]
      exact Or.inl ⟨h, rfl, Or.inl ⟨hm, by rw [e0]⟩, H, Effect.refl, rfl⟩
    · rw [e0]
      have H0 := @HeapRep.offsets _ _ _ _ H _ size' h.memfdFreeCap _ F
      rcases (@mapAt_spec _ k X _ _ _ off) H0 S (fun _ => N) with
        ⟨h', e, hr, h1, h2, h3⟩ | ⟨c, h', e, h1⟩
      · exact Or.inl ⟨h', e, Or.inr hr, h1, Effect.offsets.trans h2, h3⟩
      · exact Or.inr ⟨c, h', e, h1.holder, h1.mod, h1.pos, h1.le, h1.rep,
          Effect.offsets.trans h1.effect, h1.link, h1.addr⟩

end BtMalloc
