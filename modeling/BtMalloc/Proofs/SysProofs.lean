import BtMalloc.Proofs.AllocProofs
import BtMalloc.Proofs.BackgroundProofs
import BtMalloc.Proofs.CacheProofs
import BtMalloc.Proofs.LargeProofs
import BtMalloc.SysRep

/-!
# Proofs: calls into the allocator

One specification for each entry point and each piece of a thread's program: the system still stands
for a ledger, and the ledger changed in the way the call is for.
-/

namespace BtMalloc

open LinkedList PagedMemory Word

variable {cfg : Config} {k : Kernel} {X : ℕ → Prop} {B : ℕ → ℕ → Prop} {Y : ℕ → ℕ → Prop}
  {Z : ℕ → PoolId → Prop} {h h' : Heap} {s s' : Sys} {bg : BgPc} {L L' : Ledger} {t p size ra : ℕ}

/-! ## What a call leaves alone -/

theorem RcacheOk.effect {e : RcacheEnt} (R : RcacheOk h e) (E : Effect k X B h L h' L') :
    RcacheOk h' e := by
  have hg := E.gen
  have he := R.gen
  refine ⟨he.trans hg, fun h1 h2 => ?_⟩
  obtain ⟨h3, h4⟩ := R.owner (by omega) h2
  exact ⟨h3, (E.owner (by omega) _ h3 (by rwa [h4])).trans h4⟩

theorem BgRep.aside {pc : BgPc} (G : BgRep h.chunks L pc) (A : Aside h L h' L') :
    BgRep h'.chunks L' pc := by
  have hbatch : ∀ {o l}, (∀ c ∈ l, c ∈ L.batch ∨ c ∈ L.hand) →
      Chain (fun c => (h.chunks c).next) o l → Chain (fun c => (h'.chunks c).next) o l :=
    fun hl hc => hc.congr fun c hm => A.link c (hl c hm)
  cases pc with
  | wait => exact ⟨A.batch.trans G.1, A.hand.trans G.2⟩
  | release disp cur =>
    obtain ⟨h1, h2, done, rest, he, h3⟩ := G
    refine ⟨A.hand.trans h1, ?_, done, rest, A.batch.trans he, hbatch (fun c hm => Or.inl ?_) h3⟩
    · rw [A.batch]
      exact hbatch (fun c hm => Or.inl hm) h2
    · rw [he]
      exact List.mem_append_right _ hm
  | giveBack disp trim =>
    obtain ⟨h1, h2⟩ := G
    refine ⟨?_, ?_⟩
    · rw [A.batch]
      exact hbatch (fun c hm => Or.inl hm) h1
    · rw [A.hand]
      exact hbatch (fun c hm => Or.inr hm) h2
  | trim trim deficit =>
    obtain ⟨h1, h2⟩ := G
    refine ⟨A.batch.trans h1, ?_⟩
    rw [A.hand]
    exact hbatch (fun c hm => Or.inr hm) h2
  | premap deficit => exact ⟨A.batch.trans G.1, A.hand.trans G.2⟩

theorem ThreadOk.congr {x : Thread} (T : ThreadOk cfg L t x) (hb : ∀ i, L'.bin t i = L.bin t i) :
    ThreadOk cfg L' t x :=
  ⟨fun h1 h2 i => (hb i).trans (T.idle h1 h2 i),
    fun h1 => ⟨(T.exiting h1).1, fun i hi => (hb i).trans ((T.exiting h1).2 i hi)⟩, T.flushing, T.part⟩

/-- A thread that has its cache and is not in a call may cache anything. -/
theorem ThreadOk.of_tls {x : Thread} (h1 : x.pc = .idle) (h2 : x.tls = true)
    (h3 : x.internPart < cfg.nparts) : ThreadOk cfg L t x := by
  refine ⟨fun _ e => ?_, fun e => ?_, fun _ => h2, h3⟩
  · rw [h2] at e
    cases e
  · rw [h1] at e
    cases e

/-- The system after a call. -/
theorem SysRep.next (R : SysRep cfg s bg L)
    (O : Outcome cfg k X Y Z s.heap L s'.heap s'.bins L') (A : Aside s.heap L s'.heap L')
    (hth : ∀ t, ThreadOk cfg L' t (s'.threads t))
    (hrc : ∀ t i, RcacheOk s.heap ((s'.threads t).rcache i)) : SysRep cfg s' bg L' :=
  ⟨O.sound, O.settled, O.rep, R.bg.aside A, hth, fun t i => (hrc t i).effect O.effect⟩

/-! ## Threads -/

theorem Sys.bins_setBin {i : ℕ} {b : Bin} : ((s.setHeap h).setBin t i b).bins = setBins s.bins t i b := by
  funext t' i'
  by_cases e : t' = t
  · subst e
    simp only [Sys.bins, Sys.setBin, Sys.modThread, Sys.setHeap, setBins, Function.update_self]
    rfl
  · simp only [Sys.bins, Sys.setBin, Sys.modThread, Sys.setHeap, setBins, Function.update_of_ne e]

/-- Two threads that differ in their bins at most. -/
structure Thread.Alike (x y : Thread) : Prop where
  tls : x.tls = y.tls
  pc : x.pc = y.pc
  rcache : x.rcache = y.rcache
  internRa : x.internRa = y.internRa
  internPart : x.internPart = y.internPart

theorem ThreadOk.alike {x y : Thread} (T : ThreadOk cfg L t y) (e : x.Alike y) : ThreadOk cfg L t x := by
  refine ⟨fun h1 h2 => T.idle (e.pc ▸ h1) (e.tls ▸ h2), fun h1 => ?_, fun h1 => ?_, e.internPart ▸ T.part⟩
  · rw [e.tls]
    exact T.exiting (e.pc ▸ h1)
  · rw [e.tls]
    exact T.flushing (e.pc ▸ h1)

theorem Sys.setBin_alike {i : ℕ} {b : Bin} (t' : ℕ) :
    (((s.setHeap h).setBin t i b).threads t').Alike (s.threads t') := by
  by_cases e : t' = t
  · subst e
    constructor <;> simp [Sys.setBin, Sys.modThread, Sys.setHeap]
  · constructor <;> simp [Sys.setBin, Sys.modThread, Sys.setHeap, e]

/-- The system after a call of thread `t` that replaced one of its bins. -/
theorem SysRep.next_bin {i : ℕ} {b : Bin} (R : SysRep cfg s bg L)
    (O : Outcome cfg k X (fun t' i' => t' = t ∧ i' = i) Z s.heap L h' (setBins s.bins t i b) L')
    (A : Aside s.heap L h' L') (hself : ThreadOk cfg L' t (s.threads t)) :
    SysRep cfg ((s.setHeap h').setBin t i b) bg L' := by
  rw [← Sys.bins_setBin (h := h')] at O
  refine R.next O A (fun t' => ?_) fun t' j => ?_
  · refine ThreadOk.alike ?_ (Sys.setBin_alike t')
    by_cases e : t' = t
    · subst e
      exact hself
    · exact (R.thread t').congr fun i' => O.moved.bin fun h => e h.1
  · rw [(Sys.setBin_alike t').rcache]
    exact R.rcache t' j

/-- The bins alone changed, and hold the same slots. -/
theorem HeapRep.rebin {bins bins' : ℕ → ℕ → Bin} (H : HeapRep cfg h bins L)
    (hb : ∀ t i, BinOk cfg h.mem i (bins' t i) (L.bin t i)) : HeapRep cfg h bins' L :=
  ⟨H.desc, H.lists, H.tally, H.header, H.chunks, H.depot, H.free, hb, H.frame, H.space, H.owner, H.log⟩

theorem binOk_zeroed {m : Mem} {i : ℕ} : BinOk cfg m i Bin.zeroed [] := ⟨rfl, rfl, fun h => absurd rfl h⟩

/-- `btm_tls_get` gives the thread an empty cache, unless it has one. -/
theorem btmTlsGet_spec (R : SysRep cfg s bg L) (hpc : (s.threads t).pc = .idle)
    (he : btmTlsGet k t s = some s') :
    SysRep cfg s' bg L ∧ s'.heap = s.heap ∧ (s'.threads t).tls = true ∧ (s'.threads t).pc = .idle ∧
      (s'.threads t).internRa = (s.threads t).internRa ∧
      (s'.threads t).internPart = (s.threads t).internPart := by
  unfold btmTlsGet at he
  split at he
  next htls =>
    cases he
    exact ⟨R, rfl, htls, hpc, rfl, rfl⟩
  next htls =>
    split at he
    · cases he
      have hempty := (R.thread t).idle hpc (by simpa using htls)
      refine ⟨⟨R.sound, R.settled, R.rep.rebin fun t' i => ?_, R.bg, fun t' => ?_, fun t' i => ?_⟩, rfl,
        by simp [Sys.modThread], by simpa [Sys.modThread] using hpc, by simp [Sys.modThread],
        by simp [Sys.modThread]⟩
      · by_cases e : t' = t
        · subst e
          rw [hempty i]
          simpa [Sys.bins, Sys.modThread] using binOk_zeroed
        · have := R.rep.bins t' i
          simpa [Sys.bins, Sys.modThread, e] using this
      · by_cases e : t' = t
        · subst e
          refine ThreadOk.of_tls ?_ ?_ ?_
          · simpa [Sys.modThread] using hpc
          · simp [Sys.modThread]
          · simpa [Sys.modThread] using (R.thread t').part
        · simpa [Sys.modThread, e] using R.thread t'
      · by_cases e : t' = t
        · subst e
          refine ⟨by simp [Sys.modThread], fun _ h0 => absurd ?_ h0⟩
          simp [Sys.modThread]
        · simpa [Sys.modThread, e] using R.rcache t' i
    · cases he

theorem btmTlsGet_none (he : btmTlsGet k t s = none) : (s.threads t).tls = false ∧ k.tls = false := by
  unfold btmTlsGet at he
  split_ifs at he with h1 h2
  exact ⟨Bool.eq_false_iff.mpr h1, Bool.eq_false_iff.mpr h2⟩

theorem btmTlsGet_pc (he : btmTlsGet k t s = some s') (t' : ℕ) :
    (s'.threads t').pc = (s.threads t').pc := by
  unfold btmTlsGet at he
  split_ifs at he
  · cases he
    rfl
  · cases he
    by_cases e : t' = t
    · subst e
      simp [Sys.modThread]
    · simp [Sys.modThread, e]

/-! ## Partitions -/

/-- The heap with another interning table. -/
def Heap.reintern (h : Heap) (tbl : ℕ → ℕ × ℕ) (n : ℕ) : Heap :=
  { h with internTbl := tbl, internNext := n }

theorem HeapRep.reintern {bins : ℕ → ℕ → Bin} (H : HeapRep cfg h bins L) {tbl : ℕ → ℕ × ℕ} {n : ℕ} :
    HeapRep cfg (h.reintern tbl n) bins L :=
  ⟨H.desc, H.lists, H.tally, H.header, H.chunks, H.depot, H.free, H.bins, H.frame, H.space, H.owner,
    H.log⟩

theorem internProbe_heap {key n i id : ℕ} (he : internProbe cfg key n i h = some (id, h')) :
    ∃ tbl m, h' = h.reintern tbl m := by
  induction n generalizing i with
  | zero => cases he
  | succ n ih =>
    unfold internProbe at he
    dsimp only at he
    split_ifs at he
    · cases he
      exact ⟨h.internTbl, h.internNext, rfl⟩
    · cases he
      exact ⟨_, _, rfl⟩
    · exact ih he

theorem and_nparts_lt (x : ℕ) : x &&& (cfg.nparts - 1) < cfg.nparts := by
  unfold Config.nparts
  rw [Nat.and_two_pow_sub_one_eq_mod]
  exact Nat.mod_lt _ (Nat.two_pow_pos _)

/-- What choosing a partition changes: the interning table and the thread's memory of its last call
    site. -/
structure Partitioned (cfg : Config) (s : Sys) (part : ℕ) (s' : Sys) : Prop where
  lt : part < cfg.nparts
  heap : ∃ tbl n, s'.heap = s.heap.reintern tbl n
  tls : ∀ t, (s'.threads t).tls = (s.threads t).tls
  pc : ∀ t, (s'.threads t).pc = (s.threads t).pc
  bins : s'.bins = s.bins
  rcache : ∀ t, (s'.threads t).rcache = (s.threads t).rcache
  part : ∀ t, (s'.threads t).internPart < cfg.nparts

theorem btmInternSlow_spec (R : SysRep cfg s bg L) :
    Partitioned cfg s (btmInternSlow cfg t ra s).1 (btmInternSlow cfg t ra s).2 := by
  have key : ∀ {part : ℕ} {h' : Heap}, part < cfg.nparts → (∃ tbl n, h' = s.heap.reintern tbl n) →
      Partitioned cfg s part ((s.setHeap h').modThread t fun x =>
        { x with internRa := ra, internPart := part }) := by
    intro part h' hlt hh
    refine ⟨hlt, hh, fun t' => ?_, fun t' => ?_, funext fun t' => funext fun i => ?_, fun t' => ?_,
      fun t' => ?_⟩
    all_goals
      by_cases e : t' = t
      · subst e
        simp [Sys.bins, Sys.modThread, Sys.setHeap, hlt]
      · have := (R.thread t').part
        simp [Sys.bins, Sys.modThread, Sys.setHeap, e, this]
  unfold btmInternSlow
  dsimp only
  split
  next id h' he => exact key (and_nparts_lt _) (internProbe_heap he)
  next => exact key (and_nparts_lt _) ⟨s.heap.internTbl, s.heap.internNext, rfl⟩

theorem btmPartitionOf_spec (t ra : ℕ) (R : SysRep cfg s bg L) :
    Partitioned cfg s (btmPartitionOf cfg t ra s).1 (btmPartitionOf cfg t ra s).2 := by
  have same : ∀ {part}, part < cfg.nparts → Partitioned cfg s part s := fun hlt =>
    ⟨hlt, ⟨s.heap.internTbl, s.heap.internNext, rfl⟩, fun _ => rfl, fun _ => rfl, rfl, fun _ => rfl,
      fun t => (R.thread t).part⟩
  unfold btmPartitionOf
  split_ifs
  · exact same (R.thread t).part
  · exact btmInternSlow_spec R
  · exact same (and_nparts_lt _)

/-- The partition depends on the interning table and on what the thread knows of its last call site. -/
theorem btmPartitionOf_congr (hh : s'.heap = s.heap)
    (h1 : (s'.threads t).internRa = (s.threads t).internRa)
    (h2 : (s'.threads t).internPart = (s.threads t).internPart) :
    (btmPartitionOf cfg t ra s').1 = (btmPartitionOf cfg t ra s).1 := by
  unfold btmPartitionOf btmInternSlow
  rw [hh, h1, h2]
  split_ifs <;> rfl

theorem Partitioned.rep {part : ℕ} (P : Partitioned cfg s part s') (R : SysRep cfg s bg L) :
    SysRep cfg s' bg L := by
  obtain ⟨tbl, n, he⟩ := P.heap
  refine ⟨R.sound, R.settled, ?_, ?_, fun t => ?_, fun t i => ?_⟩
  · rw [he, P.bins]
    exact R.rep.reintern
  · rw [he]
    exact R.bg
  · have T := R.thread t
    refine ⟨fun h1 h2 => T.idle (P.pc t ▸ h1) (P.tls t ▸ h2), fun h1 => ?_, fun h1 => ?_, P.part t⟩
    · rw [P.tls]
      exact T.exiting (P.pc t ▸ h1)
    · rw [P.tls]
      exact T.flushing (P.pc t ▸ h1)
  · rw [he, P.rcache]
    exact ⟨(R.rcache t i).gen, (R.rcache t i).owner⟩

/-! ## Allocation -/

/-- Writing into an object of the client concerns nobody else. -/
theorem Outcome.scribble {bins' : ℕ → ℕ → Bin} (O : Outcome cfg k X Y Z h L h' bins' L') {a n : ℕ}
    {m' : Mem} (hc : L'.Client a n) (hX : X a) (hpt : m'.pt = h'.mem.pt)
    (hk : Keeps L'.Unit (fun x => x = a) h'.mem m') :
    Outcome cfg k X Y Z h L { h' with mem := m' } bins' L' := by
  have hne : ∀ {x}, L'.place x ≠ .void → L'.place x ≠ .out → x ≠ a := by
    rintro x hv ho rfl
    cases hc with
    | slot h1 h2 => exact ho h1
    | large hl =>
      obtain ⟨q, r, i, hs⟩ := O.sound.slots.slot hv
      exact O.rep.space.large_ne_slot O.sound hl hs rfl
  refine ⟨O.sound, O.settled, ?_, O.effect.trans (Effect.quiet (fun b m i hb hx hi => ?_) ⟨[], rfl, by simp⟩
    (fun _ _ hb _ => hb) rfl rfl rfl rfl ⟨rfl, rfl⟩), O.moved, O.tidy⟩
  · refine @HeapRep.congr_mem _ _ _ _ O.rep O.sound _ h'.log _ hpt hk O.rep.log.good (fun {q x y} hx hi hy => ?_)
      fun {t i y} hy => ?_
    · have := O.sound.freeList_place hx (Stage.intact_ne_retired hi) hy
      exact ⟨hne (by simp [this]) (by simp [this]), id⟩
    · have := O.sound.bin_place hy
      exact ⟨hne (by simp [this]) (by simp [this]), id⟩
  · exact hk hb.unit (fun e => hx (e ▸ hX)) hi

/-- Whether the kernel refuses a chunk depends on the memfd and the address space only. -/
theorem MapRefused.congr (hr : MapRefused cfg k h) (h1 : h'.memfdFree = h.memfdFree)
    (h2 : h'.memfdBump = h.memfdBump) (h3 : h'.memfdSize = h.memfdSize) (h4 : h'.mapped = h.mapped) :
    MapRefused cfg k h' := by
  have e1 : (memfdAllocOff k h').1 = (memfdAllocOff k h).1 := by
    unfold memfdAllocOff
    rw [h1, h2, h3]
    cases h.memfdFree with
    | cons off rest => rfl
    | nil =>
      dsimp only
      split_ifs <;> rfl
  have e2 : mmapResult h' k.chunk (chunkSize * 2) = mmapResult h k.chunk (chunkSize * 2) := by
    unfold mmapResult freshRange
    rw [h4]
  unfold MapRefused at hr ⊢
  rwa [e1, e2]

theorem ChunkRefused.congr {q : PoolId} (hr : ChunkRefused cfg k h q) (h1 : h'.memfdFree = h.memfdFree)
    (h2 : h'.memfdBump = h.memfdBump) (h3 : h'.memfdSize = h.memfdSize) (h4 : h'.mapped = h.mapped)
    (h5 : h'.pools = h.pools) (h6 : h'.chunks = h.chunks) (h7 : h'.warmHead = h.warmHead) :
    ChunkRefused cfg k h' q := by
  obtain ⟨hw, ht, hm⟩ := hr
  refine ⟨?_, h7.trans ht, hm.congr h1 h2 h3 h4⟩
  unfold wantsChunk activeRoom at hw ⊢
  rw [h5, h6]
  exact hw

/-- The heap with another sample of call sites. -/
theorem HeapRep.resample {bins : ℕ → ℕ → Bin} (H : HeapRep cfg h bins L) {f : ℕ → ℕ} :
    HeapRep cfg { h with sampleRa := f } bins L :=
  ⟨H.desc, H.lists, H.tally, H.header, H.chunks, H.depot, H.free, H.bins, H.frame, H.space, H.owner,
    H.log⟩

/-- A refill ends with the canary cleared in the slot it hands out. -/
theorem refill_outcome {q : PoolId} {b want : ℕ} (R : SysRep cfg s bg L) (hq : q.Valid cfg)
    (hw : 0 < want) (hb : b = binIdx q) {f : ℕ → ℕ} :
    ∃ p bin h2 L', btmPoolRefill cfg k { s.heap with sampleRa := f } q
        { s.bins t b with pool := some q } want = (p, bin, h2) ∧
      Outcome cfg k (fun x => x = p) (fun t' i => t' = t ∧ i = b)
        (fun c q' => q' = q ∧ ChunkTaken k s.heap q c) s.heap L
        (if p = 0 then h2 else clearCanary cfg h2 p) (setBins s.bins t b bin) L' ∧
      Aside s.heap L (if p = 0 then h2 else clearCanary cfg h2 p) L' ∧
      Served cfg k s.heap L L' q p := by
  obtain ⟨p, bin, h2, L', he, O, A, V⟩ := btmPoolRefill_spec (t := t) (k := k)
    (R.rep.resample (f := f)) R.sound R.settled hq hw hb
  have E0 : Effect k (fun x => x = p) L'.Busy s.heap L { s.heap with sampleRa := f } L :=
    Effect.quiet Keeps.refl ⟨[], rfl, by simp⟩ (fun _ _ hc _ => hc) rfl rfl rfl rfl ⟨rfl, rfl⟩
  have O' : Outcome cfg k (fun x => x = p) (fun t' i => t' = t ∧ i = b)
      (fun c q' => q' = q ∧ ChunkTaken k s.heap q c) s.heap L h2 (setBins s.bins t b bin) L' :=
    ⟨O.sound, O.settled, O.rep, E0.trans O.effect, O.moved, O.tidy⟩
  refine ⟨p, bin, h2, L', he, ?_⟩
  rcases V with ⟨rfl, hV⟩ | ⟨hp, h1, h2', h3, r, i, hs⟩
  · rw [if_pos rfl]
    exact ⟨O', ⟨A.batch, A.hand, A.link⟩, Or.inl ⟨rfl, fun hR => (hV hR).congr rfl rfl rfl rfl rfl rfl rfl⟩⟩
  · rw [if_neg hp]
    obtain ⟨m', e, hpt, hk⟩ := (@clearCanary_spec cfg) (O.rep.apart O.sound)
      (O.sound.cell (s := p) (by simp [h3]))
    rw [e]
    exact ⟨O'.scribble (.slot h3 hs) rfl hpt hk, ⟨A.batch, A.hand, A.link⟩,
      Or.inr ⟨hp, h1, h2', h3, r, i, hs⟩⟩

/-- The small path of `btm_malloc` for a thread that has its cache. -/
theorem mallocSmall_spec {sc : ℕ} (k : Kernel) (ra : ℕ) (R : SysRep cfg s bg L) (hpc : (s.threads t).pc = .idle)
    (htls : (s.threads t).tls = true) (hsc : sc < 36) :
    ∃ p s' L' tbl n, mallocSmall cfg k t sc ra s = (p, s') ∧
      Outcome cfg k (fun x => x = p)
        (fun t' i => t' = t ∧ i = binIdx ⟨(btmPartitionOf cfg t ra s).1, sc⟩)
        (fun c q => q = ⟨(btmPartitionOf cfg t ra s).1, sc⟩ ∧
          ChunkTaken k s.heap ⟨(btmPartitionOf cfg t ra s).1, sc⟩ c)
        (s.heap.reintern tbl n) L s'.heap s'.bins L' ∧
      SysRep cfg s' bg L' ∧ Served cfg k s.heap L L' ⟨(btmPartitionOf cfg t ra s).1, sc⟩ p ∧
      (btmPartitionOf cfg t ra s).2.heap = s.heap.reintern tbl n ∧
      ∀ t', (s'.threads t').Alike ((btmPartitionOf cfg t ra s).2.threads t') := by
  have P := btmPartitionOf_spec t ra R
  unfold mallocSmall
  generalize hx : btmPartitionOf cfg t ra s = x at P ⊢
  obtain ⟨part, s1⟩ := x
  dsimp only at P ⊢
  obtain ⟨tbl, n, hh⟩ := P.heap
  have R1 := P.rep R
  have hpc1 : (s1.threads t).pc = .idle := (P.pc t).trans hpc
  have htls1 : (s1.threads t).tls = true := (P.tls t).trans htls
  have hq : PoolId.Valid cfg ⟨part, sc⟩ := ⟨P.lt, hsc⟩
  have hself : ∀ L', ThreadOk cfg L' t (s1.threads t) := fun L' => .of_tls hpc1 htls1 (P.part t)
  have hB := R1.rep.bins t (binIdx ⟨part, sc⟩)
  by_cases hp : ((s1.threads t).bins (binIdx ⟨part, sc⟩)).freeHead ≠ 0
  · -- a hit
    rw [if_pos hp]
    cases hl : L.bin t (binIdx ⟨part, sc⟩) with
    | nil =>
      rw [hl] at hB
      exact absurd (ptr_eq_none.mp hB.chain) hp
    | cons p rest =>
      obtain ⟨hhead, hplace, -, q, r, j, -, hi, hs⟩ := bin_head R1.rep R1.sound hl
      obtain rfl : q = ⟨part, sc⟩ := binIdx_inj (R1.sound.carving.valid hs.1.1).2 hsc hi.symm
      obtain ⟨O, A⟩ := binPop_spec (k := k)
        (Z := fun c q => q = ⟨part, sc⟩ ∧ ChunkTaken k s.heap ⟨part, sc⟩ c) R1.rep R1.sound R1.settled hl hs
      have R2 := R1.next_bin O A (hself _)
      have hhead' : ((s1.threads t).bins (binIdx ⟨part, sc⟩)).freeHead = p := hhead
      rw [hhead']
      refine ⟨p, _, L.move ⟨part, sc⟩ r p .out, tbl, n, rfl, ?_, R2, ?_, hh, fun t' => Sys.setBin_alike t'⟩
      · rw [Sys.bins_setBin, ← hh]
        exact O
      · exact Or.inr ⟨hhead' ▸ hp, by simp [hplace], R1.rep.space.large_none R1.sound hs,
          Function.update_self .., r, j, hs⟩
  · -- the bin is empty
    rw [if_neg hp]
    have hw : 0 < max (btmCacheMax sc / 2) 1 := by omega
    have hsample : (if s1.heap.sampleRa part = 0 then
        { s1.heap with sampleRa := Function.update s1.heap.sampleRa part ra } else s1.heap) =
        { s1.heap with sampleRa := if s1.heap.sampleRa part = 0 then
          Function.update s1.heap.sampleRa part ra else s1.heap.sampleRa } := by
      split_ifs <;> rfl
    rw [hsample]
    obtain ⟨p, bin, h2, L', he, O, A, V⟩ := refill_outcome (t := t) (k := k) R1 hq hw rfl
    rw [show (s1.threads t).bins (binIdx ⟨part, sc⟩) = s1.bins t (binIdx ⟨part, sc⟩) from rfl, he]
    refine ⟨p, _, L', tbl, n, rfl, ?_, R1.next_bin O A (hself _), ?_, hh, fun t' => Sys.setBin_alike t'⟩
    · rw [Sys.bins_setBin, ← hh]
      rw [hh] at O ⊢
      exact O
    · rw [hh] at V
      exact V.imp (fun ⟨h1, h2⟩ => ⟨h1, fun hR => (h2 hR).congr rfl rfl rfl rfl rfl rfl rfl⟩) id

/-- No unit is at address 0. -/
theorem SysRep.vacates_zero (R : SysRep cfg s bg L) : L.Vacates 0 := by
  intro p size ho
  cases ho with
  | slot h1 h2 h3 =>
    have pos := R.sound.carving.slotPos h2
    have := pos.chunk_pos
    have := pos.lo
    omega
  | large h1 h2 => exact absurd (R.rep.space.large h1).base_pos (lt_irrefl 0)

theorem Served.vacates {q : PoolId} (V : Served cfg k h L L' q p) (R : SysRep cfg s bg L) :
    L.Vacates p := by
  rcases V with ⟨rfl, -⟩ | ⟨-, h1, h2, -⟩
  · exact R.vacates_zero
  · intro p' size ho
    cases ho with
    | slot h3 _ _ => exact h1 h3
    | large h3 _ =>
      rw [h2] at h3
      cases h3

/-- A call for new storage by thread `t`, by the unit `a` it handed out. -/
structure MallocDone (cfg : Config) (k : Kernel) (t : ℕ) (s : Sys) (bg : BgPc) (L : Ledger)
    (size a p : ℕ) (s' : Sys) (L' : Ledger) : Prop where
  done : ∃ Y Z tbl n,
    Outcome cfg k (fun x => x = a) Y Z (s.heap.reintern tbl n) L s'.heap s'.bins L'
  rep : SysRep cfg s' bg L'
  vacates : L.Vacates a
  given : p = 0 ∧ a = 0 ∨ p ≠ 0 ∧ L'.Owned a p size
  bin : ∀ ⦃t' i⦄, t' ≠ t → L'.bin t' i = L.bin t' i
  aligned : ∀ {hd}, L'.large a = some hd → a % chunkSize = 0
  pc : ∀ t, (s'.threads t).pc = (s.threads t).pc

/-- Nothing happened. -/
theorem MallocDone.refl (R : SysRep cfg s bg L) : MallocDone cfg k t s bg L size 0 0 s L :=
  ⟨⟨fun _ _ => False, fun _ _ => False, s.heap.internTbl, s.heap.internNext, R.sound, R.settled, R.rep,
    Effect.refl, .refl, .refl⟩, R, R.vacates_zero, Or.inl ⟨rfl, rfl⟩, fun _ _ _ => rfl,
    fun _ => Nat.zero_mod _, fun _ => rfl⟩

theorem mallocSmall_done {sc : ℕ} (k : Kernel) (ra : ℕ) (R : SysRep cfg s bg L)
    (hpc : (s.threads t).pc = .idle) (htls : (s.threads t).tls = true) (hsc : sc < 36)
    (hle : size ≤ btmScToSize sc) :
    ∃ p s' L', mallocSmall cfg k t sc ra s = (p, s') ∧ MallocDone cfg k t s bg L size p p s' L' ∧
      (p = 0 → L.Ready → ChunkRefused cfg k s.heap ⟨(btmPartitionOf cfg t ra s).1, sc⟩) := by
  have P := btmPartitionOf_spec t ra R
  obtain ⟨p, s', L', tbl, n, he, O, R', V, -, ha⟩ := mallocSmall_spec k ra R hpc htls hsc
  refine ⟨p, s', L', he, ⟨⟨_, _, tbl, n, O⟩, R', V.vacates R, ?_, fun t' i ht => O.moved.bin fun h => ht h.1,
    fun hl => ?_, fun t' => (ha t').pc.trans (P.pc t')⟩, fun h0 hR => ?_⟩
  · rcases V with ⟨rfl, -⟩ | ⟨hp, -, -, ho, r, i, hs⟩
    · exact Or.inl ⟨rfl, rfl⟩
    · exact Or.inr ⟨hp, .slot ho hs hle⟩
  · rcases V with ⟨rfl, -⟩ | ⟨-, -, -, -, r, i, hs⟩
    · exact Nat.zero_mod _
    · rw [R'.rep.space.large_none R'.sound hs] at hl
      cases hl
  · rcases V with ⟨-, hV⟩ | ⟨hp, -⟩
    · exact hV hR
    · exact absurd h0 hp

/-- A large object was placed for a call. -/
theorem Placed.mallocDone {b total hdr : ℕ} (R : SysRep cfg s bg L)
    (P : Placed cfg k s.bins s.heap L b ⟨total, hdr, size⟩ h') (hle : hdr + size ≤ total)
    (hb : b % chunkSize = 0) :
    MallocDone cfg k t s bg L size b (b + hdr) (s.setHeap h') (L.setLarge b (some ⟨total, hdr, size⟩)) := by
  have hl : (L.setLarge b (some ⟨total, hdr, size⟩)).large b = some ⟨total, hdr, size⟩ :=
    Ledger.setLarge_self
  have hpos := (P.done.rep.space.large hl).base_pos
  refine ⟨⟨_, _, s.heap.internTbl, s.heap.internNext, P.done⟩, R.next P.done ⟨rfl, rfl, fun c _ => ?_⟩
    (fun t => (R.thread t).congr fun _ => rfl) R.rcache, fun p size' ho => ?_,
    Or.inr ⟨by omega, .large hl hle⟩, fun _ _ _ => rfl, fun _ => hb, fun _ => rfl⟩
  · show (h'.chunks c).next = _
    rw [P.chunks]
  · cases ho with
    | slot h1 h2 _ => exact P.done.rep.space.large_ne_slot R.sound.setLarge hl h2 rfl
    | large h1 _ =>
      rw [P.none] at h1
      cases h1

/-- `btm_large_alloc` of a request that fits or that the kernel refuses: the object is aligned and reads as
    zero. -/
theorem largeAt_done {e : ℕ} (t : ℕ) (R : SysRep cfg s bg L) (hpos : 0 < size)
    (hreq : Fits size (2 ^ e) ∨ mmapResult s.heap k.large (largeWant size (2 ^ e)) = none)
    (hun : ∀ raw, mmapResult s.heap k.large (largeWant size (2 ^ e)) = some raw →
      L.Unowned (largeBase raw (2 ^ e)) (largeTotal size (2 ^ e))) :
    ∃ b p s' L', largeAt k size (2 ^ e) s = .ok (p, s') ∧ MallocDone cfg k t s bg L size b p s' L' ∧
      (p ≠ 0 → 2 ^ e ∣ p ∧ ∀ i < size, s'.heap.mem.read (p + i) = 0) := by
  unfold largeAt
  have refused : mmapResult s.heap k.large (largeWant size (2 ^ e)) = none →
      btmLargeAlloc k s.heap size (2 ^ e) = .ok (0, s.heap) := by
    intro hres
    unfold btmLargeAlloc
    dsimp only
    rw [hres]
  rcases hreq with hf | hres
  · rcases btmLargeAlloc_spec (k := k) R.rep R.sound R.settled hf hpos with
      ⟨-, hres⟩ | ⟨raw, b, h', hres, rfl, he, hb, hdvd, hle, -, hP⟩
    · rw [refused hres]
      exact ⟨0, 0, s, L, rfl, .refl R, fun h => absurd rfl h⟩
    · have P := hP (hun raw hres)
      rw [he]
      refine ⟨_, _, _, _, rfl, P.mallocDone R hle hb, fun _ => ⟨Nat.dvd_add hdvd hf.sized.hdr_dvd, fun i hi => ?_⟩⟩
      rw [Nat.add_assoc]
      exact P.zero _ (by dsimp only; omega)
  · rw [refused hres]
    exact ⟨0, 0, s, L, rfl, .refl R, fun h => absurd rfl h⟩

/-- `btm_malloc` of a request that fits or that the kernel refuses. -/
theorem btmMallocAt_spec (k : Kernel) (ra : ℕ) (R : SysRep cfg s bg L) (hpc : (s.threads t).pc = .idle)
    (hsize : size < 2 ^ 64) (hreq : Requests k s.heap size)
    (hun : btmSizeToSc size = none → size ≠ 0 → ∀ raw,
      mmapResult s.heap k.large (largeWant size btmAlignment) = some raw →
      L.Unowned (largeBase raw btmAlignment) (largeTotal size btmAlignment)) :
    ∃ a p s' L', btmMallocAt cfg k t size ra s = .ok (p, s') ∧ MallocDone cfg k t s bg L size a p s' L' ∧
      (p = 0 → L.Ready → ∀ sc, btmSizeToSc size = some sc → SmallRefused cfg k t ra s sc) := by
  cases hc : btmSizeToSc size with
  | none =>
    by_cases h0 : size = 0
    · rw [h0]
      exact ⟨0, 0, s, L, btmMallocAt_zero, .refl R, by simp⟩
    · obtain ⟨b, p, s', L', he, D, -⟩ := largeAt_done (e := 4) t R (by omega) (hreq hc h0) (hun hc h0)
      rw [btmMallocAt_large hc h0, show btmAlignment = 2 ^ 4 from rfl, he]
      exact ⟨b, p, s', L', rfl, D, by simp⟩
  | some sc =>
    obtain ⟨-, -, hsc, hle⟩ := btmSizeToSc_some hsize hc
    rw [btmMallocAt_class hc]
    cases ht : btmTlsGet k t s with
    | none =>
      exact ⟨0, 0, s, L, rfl, .refl R, fun _ _ _ _ => Or.inl (btmTlsGet_none ht)⟩
    | some s1 =>
      obtain ⟨R1, hh, h1, h2, h3, h4⟩ := btmTlsGet_spec R hpc ht
      obtain ⟨p, s', L', he, D, hnull⟩ := mallocSmall_done k ra R1 h2 h1 hsc hle
      refine ⟨p, p, s', L', congrArg Except.ok he, ⟨?_, D.rep, D.vacates, D.given, D.bin, D.aligned,
        fun t' => ?_⟩, fun h0 hR sc' hsc' => ?_⟩
      · rw [← hh]
        exact D.done
      · rw [D.pc]
        exact btmTlsGet_pc ht t'
      · obtain rfl : sc = sc' := Option.some.inj hsc'
        have := hnull h0 hR
        rw [btmPartitionOf_congr hh h3 h4, hh] at this
        exact Or.inr this

/-! ## Owners -/

/-- A new entry of a region cache. -/
theorem rcacheOk_lookup (hp : p < 2 ^ 48) {owner : ℕ} (he : btmRegistryLookup h p = owner) :
    RcacheOk h ⟨p >>> chunkShift, owner, h.registryGen⟩ := by
  refine ⟨le_refl _, fun _ _ => ⟨?_, he⟩⟩
  simp only [chunkShift, Nat.shiftRight_eq_div_pow]
  omega

theorem Resolved.refl : Resolved s s := ⟨rfl, rfl, fun _ => rfl, fun _ => rfl, fun _ => rfl, fun _ => rfl⟩

theorem Resolved.trans {s1 s2 : Sys} (V : Resolved s s1) (V' : Resolved s1 s2) : Resolved s s2 :=
  ⟨V'.heap.trans V.heap, V'.bins.trans V.bins, fun t => (V'.tls t).trans (V.tls t), fun t => (V'.pc t).trans (V.pc t),
    fun t => (V'.internRa t).trans (V.internRa t), fun t => (V'.part t).trans (V.part t)⟩

/-- `btm_resolve_owner` finds what the table says. -/
theorem btmResolveOwner_spec (t : ℕ) (R : SysRep cfg s bg L) (hp : p < 2 ^ 48) :
    (btmResolveOwner t p s).1 = btmRegistryLookup s.heap p ∧ SysRep cfg (btmResolveOwner t p s).2 bg L ∧
      Resolved s (btmResolveOwner t p s).2 := by
  unfold btmResolveOwner
  dsimp only
  split_ifs with htls hhit h0
  · obtain ⟨h1, h2, h3⟩ := hhit
    have := ((R.rcache t _).owner h2 h3).2
    rw [h1] at this
    exact ⟨this.symm, R, .refl⟩
  · exact ⟨h0.symm, R, .refl⟩
  · refine ⟨rfl, ?_, ?_⟩
    · refine ⟨R.sound, R.settled, R.rep.rebin fun t' i => ?_, R.bg, fun t' => ?_, fun t' i => ?_⟩
      · by_cases e : t' = t
        · subst e
          have := R.rep.bins t' i
          simpa [Sys.bins, Sys.modThread] using this
        · have := R.rep.bins t' i
          simpa [Sys.bins, Sys.modThread, e] using this
      · by_cases e : t' = t
        · subst e
          have T := R.thread t'
          simp only [Sys.modThread, Function.update_self]
          exact ⟨T.idle, T.exiting, T.flushing, T.part⟩
        · simpa [Sys.modThread, e] using R.thread t'
      · by_cases e : t' = t
        · subst e
          simp only [Sys.modThread, Function.update_self]
          by_cases ei : i = (p >>> chunkShift) % 2 ^ 32 &&& 15
          · rw [ei, Function.update_self]
            exact rcacheOk_lookup hp rfl
          · rw [Function.update_of_ne ei]
            exact R.rcache t' i
        · simpa [Sys.modThread, e] using R.rcache t' i
    · refine ⟨rfl, funext fun t' => funext fun i => ?_, fun t' => ?_, fun t' => ?_, fun t' => ?_,
        fun t' => ?_⟩
      all_goals
        by_cases e : t' = t
        · subst e
          simp [Sys.bins, Sys.modThread]
        · simp [Sys.bins, Sys.modThread, e]
  · exact ⟨rfl, R, .refl⟩

/-- Where an object of the client is, and the word of its owner. -/
structure Ledger.At (L : Ledger) (p w : ℕ) : Prop where
  pos : 0 < p
  lt : p < 2 ^ 47
  covers : L.Covers (p / chunkSize) w

theorem SysRep.slot_at {q : PoolId} {r : SlabRef} {i : ℕ} (R : SysRep cfg s bg L)
    (hs : L.SlotIn q r i p) : L.At p r.chunk := by
  have pos := R.sound.carving.slotPos hs
  have h1 := pos.chunk_pos
  have h2 := pos.lo
  have h3 := pos.region pos.size_pos
  have h4 := pos.chunk_le
  have hc := pos.covers hs.1 pos.size_pos
  rw [Nat.add_zero] at h3 hc
  refine ⟨by omega, by omega, ?_⟩
  exact hc

theorem SysRep.large_at {b : ℕ} {hd : LargeHdr} (R : SysRep cfg s bg L) (hl : L.large b = some hd) :
    L.At (b + hd.userOff) (b ||| 1) := by
  have ho := R.rep.space.large hl
  have h1 := ho.base_pos
  have h2 := ho.le
  have h3 := ho.off_lt
  exact ⟨by omega, by omega, ho.covers hl h3⟩

theorem btmRegistryLookup_eq : btmRegistryLookup s.heap p = ownerAt s.heap.owners (p / chunkSize) := by
  unfold btmRegistryLookup
  rw [chunkShift, Nat.shiftRight_eq_div_pow]
  rfl

/-- The table has the owner of an object, or nothing. -/
theorem SysRep.lookup {w : ℕ} (R : SysRep cfg s bg L) (ha : L.At p w) :
    btmRegistryLookup s.heap p = 0 ∨ btmRegistryLookup s.heap p = w := by
  by_cases h0 : btmRegistryLookup s.heap p = 0
  · exact Or.inl h0
  · right
    have hlt := ha.lt
    have hc := R.rep.owner (p / chunkSize) (by rw [chunkSize_eq]; omega)
    rw [btmRegistryLookup_eq] at h0 ⊢
    exact R.rep.space.unique (hc h0) ha.covers

/-- The word of the owner tells the unit of an object. -/
theorem SysRep.owner_word {a n : ℕ} (R : SysRep cfg s bg L) (ho : L.Owned a p n) :
    ∃ w, L.At p w ∧ w ≠ 0 ∧ (a = p ∧ w % 2 = 0 ∨ w = a + 1 ∧ a % 2 = 0) := by
  cases ho with
  | slot h1 h2 _ =>
    have pos := R.sound.carving.slotPos h2
    have := pos.chunk_pos
    have := pos.chunk_mod
    exact ⟨_, R.slot_at h2, by omega, Or.inl ⟨rfl, by omega⟩⟩
  | large h1 _ =>
    have he := (R.rep.space.large h1).even
    refine ⟨_, R.large_at h1, ?_, Or.inr ⟨or_one_of_even he, he⟩⟩
    rw [or_one_of_even he]
    omega

/-- An object at a slot is the slot. -/
theorem SysRep.owned_slot {a n i : ℕ} {q : PoolId} {r : SlabRef} (R : SysRep cfg s bg L) (ho : L.Owned a p n)
    (hs : L.SlotIn q r i p) : a = p ∧ L.place p = .out := by
  have hat := R.slot_at hs
  have hm := (R.sound.carving.slotPos hs).chunk_mod
  cases ho with
  | slot h1 _ _ => exact ⟨rfl, h1⟩
  | large h1 _ =>
    have he := (R.rep.space.large h1).even
    have hw := R.rep.space.unique hat.covers (R.large_at h1).covers
    rw [or_one_of_even he] at hw
    omega

/-- Before the first call there is nothing to name. -/
theorem allNamed_empty {T : OwnerTable} (hT : T.Mapped) : AllNamed T Ledger.empty := by
  refine ⟨hT, fun key _ v hc => ?_⟩
  cases hc with
  | chunk h => exact absurd rfl h
  | large h => cases h

/-- A named owner is found. -/
theorem AllNamed.lookup {v : ℕ} (N : AllNamed s.heap.owners L) (ha : L.At p v) :
    btmRegistryLookup s.heap p = v := by
  have hlt := ha.lt
  have hkey : p / chunkSize < flatSize := by
    rw [chunkSize_eq, flatSize_eq]
    omega
  rw [btmRegistryLookup_eq]
  exact N.named hkey ha.covers

/-- An object whose region is named is found. -/
theorem SysRep.lookup_ne_zero {a n : ℕ} (R : SysRep cfg s bg L) (ho : L.Owned a p n)
    (N : AllNamed s.heap.owners L) : btmRegistryLookup s.heap p ≠ 0 := by
  obtain ⟨w, ha, hw, -⟩ := R.owner_word ho
  exact (N.lookup ha).trans_ne hw

/-- A pointer of the client is in one unit. -/
theorem SysRep.unit_eq {a a' n n' : ℕ} (R : SysRep cfg s bg L) (ho : L.Owned a p n) (ho' : L.Owned a' p n') :
    a = a' := by
  obtain ⟨w, ha, -, h1⟩ := R.owner_word ho
  obtain ⟨w', ha', -, h2⟩ := R.owner_word ho'
  obtain rfl : w = w' := R.rep.space.unique ha.covers ha'.covers
  omega

/-! ## Freeing -/

/-- A call of `btm_free` up to its flush gave the unit at `a` up, or the table does not know the
    object and nothing but a region cache changed. -/
structure FreeDone (cfg : Config) (k : Kernel) (s : Sys) (bg : BgPc) (L : Ledger) (t a p : ℕ)
    (fl : Option (ℕ × ℕ)) (s' : Sys) (L' : Ledger) : Prop where
  done : ∃ Y, Outcome cfg k (fun x => x = a) Y (fun _ _ => False) s.heap L s'.heap s'.bins L'
  rep : SysRep cfg s' bg L'
  back : L'.Vacates a ∧ GaveBack cfg k t s.heap p s' ∨
    btmRegistryLookup s.heap p = 0 ∧ s'.heap = s.heap ∧ L' = L
  busy : ∀ ⦃x n⦄, L'.Busy x n → L.Busy x n
  pc : ∀ t, (s'.threads t).pc = (s.threads t).pc
  flush : fl ≠ none → (s'.threads t).tls = true

/-- The part of `btm_free` for a slot whose chunk is `c`. -/
def freeSlot (cfg : Config) (k : Kernel) (t p c : ℕ) (s : Sys) :
    Except Trap (Option (ℕ × ℕ) × Sys) :=
  let sc := (s.heap.chunks c).sc
  let q : PoolId := ⟨(s.heap.chunks c).partIdx, sc⟩
  match btmTlsGet k t s with
  | none => .ok (none, s.setHeap (btmPoolFreeOne cfg k s.heap (btmSlabOf s.heap c p) p))
  | some s =>
    if canarySet cfg s.heap p then .error .doubleFree
    else
      let bin := (s.threads t).bins (binIdx q)
      .ok (if btmCacheMax sc < bin.count + 1 then some (binIdx q, btmCacheMax sc / 2) else none,
        (s.setHeap (cachePush cfg s.heap p bin.freeHead)).setBin t (binIdx q)
          { freeHead := p, pool := some (s.heap.chunks c).pool, count := bin.count + 1 })

theorem btmFreeHead_eq (hp : p ≠ 0) : btmFreeHead cfg k t p s =
    let x := btmResolveOwner t p s
    if x.1 = 0 then .ok (none, x.2)
    else if x.1 &&& 1 = 1 then (btmLargeFree k x.2.heap (x.1 - 1)).map fun h => (none, x.2.setHeap h)
    else freeSlot cfg k t p x.1 x.2 := by
  unfold btmFreeHead freeSlot cachePush canarySet
  refine (if_neg hp).trans ?_
  cases btmResolveOwner t p s with
  | mk o s1 =>
    dsimp only
    cases btmLargeFree k s1.heap (o - 1) <;> rfl

theorem Ledger.Busy.of_move {q : PoolId} {r : SlabRef} {pl : Place} {x n : ℕ}
    (hb : (L.move q r p pl).Busy x n) (hp : (L.place p).busy = true) : L.Busy x n := by
  cases hb with
  | @slot q' r' i _ h1 hs =>
    refine .slot ?_ hs
    by_cases e : x = p
    · rwa [e]
    · exact (congrArg Place.busy (Function.update_of_ne e ..)).symm.trans h1
  | large hl => exact .large hl

/-- Freeing a slot whose chunk was found, or a report of a double free. -/
theorem freeSlot_spec {q : PoolId} {r : SlabRef} {i : ℕ} (k : Kernel) (R : SysRep cfg s bg L)
    (hpc : (s.threads t).pc = .idle) (ho : L.place p = .out) (hs : L.SlotIn q r i p)
    (hlook : btmRegistryLookup s.heap p = r.chunk) :
    (∃ fl s' L', freeSlot cfg k t p r.chunk s = .ok (fl, s') ∧ FreeDone cfg k s bg L t p p fl s' L') ∨
      freeSlot cfg k t p r.chunk s = .error .doubleFree ∧ canarySet cfg s.heap p = true := by
  have hd := R.rep.header q r.chunk hs.1.1
  have hq : (⟨(s.heap.chunks r.chunk).partIdx, (s.heap.chunks r.chunk).sc⟩ : PoolId) = q := by
    rw [hd.partIdx, hd.sc]
  have gone : ∀ {L' : Ledger}, L'.place p ≠ .out → L'.large p = none → L'.Vacates p := by
    intro L' h1 h2 p' size hown
    cases hown with
    | slot h3 _ _ => exact h1 h3
    | large h3 _ =>
      rw [h2] at h3
      cases h3
  have hlarge := R.rep.space.large_none R.sound hs
  have hbusy : (L.place p).busy = true := by rw [ho]; rfl
  unfold freeSlot
  dsimp only
  rw [hq]
  cases ht : btmTlsGet k t s with
  | none =>
    obtain ⟨h1, h2⟩ := btmSlabOf_eq R.rep R.sound hs (R.sound.carving.slotPos hs).size_pos
    rw [Nat.add_zero] at h1 h2
    rw [h1] at h2
    dsimp only
    rw [h2]
    obtain ⟨L', O, A, C⟩ := btmPoolFreeOne_spec (k := k) R.rep R.sound R.settled hs ho
    have hout : L'.place p ≠ .out := by
      intro e
      have := C.place (s := p) (by rw [e]; rfl)
      rw [e] at this
      exact Ledger.rest_ne_out ((Function.update_self ..).symm.trans this.symm)
    refine Or.inl ⟨_, _, L', rfl, ⟨_, O⟩,
      R.next O A (fun t' => (R.thread t').congr fun i' => O.moved.bin id) R.rcache,
      Or.inl ⟨gone hout ?_, .slab r (by rw [hlook, h2]) rfl⟩, fun x n hb => (C.busy_of hb).of_move hbusy,
      fun _ => rfl, fun h => absurd rfl h⟩
    rw [C.large]
    exact hlarge
  | some s1 =>
    obtain ⟨R1, hh, h1, h2, -, -⟩ := btmTlsGet_spec R hpc ht
    dsimp only
    by_cases hcan : canarySet cfg s1.heap p = true
    · exact Or.inr ⟨if_pos hcan, by rwa [← hh]⟩
    rw [if_neg hcan, (R1.rep.header q r.chunk hs.1.1).pool]
    obtain ⟨O, A⟩ := binPush_spec (t := t) (k := k) (Z := fun _ _ => False) R1.rep R1.sound R1.settled
      hs ho rfl
    have R2 := R1.next_bin O A (.of_tls h2 h1 (R1.thread t).part)
    refine Or.inl ⟨_, _, _, rfl, ⟨fun t' i' => t' = t ∧ i' = binIdx q, ?_⟩, R2,
      Or.inl ⟨gone ?_ hlarge, .bin (binIdx q) ?_⟩, fun x n hb => hb.of_move hbusy, fun t' => ?_, fun _ => ?_⟩
    · rw [Sys.bins_setBin, ← hh]
      exact O
    · have : (L.move q r p (.cached t (binIdx q))).place p = .cached t (binIdx q) :=
        Function.update_self ..
      simp [this]
    · simp only [Sys.setBin, Sys.modThread, Function.update_self]
    · rw [(Sys.setBin_alike t').pc]
      exact btmTlsGet_pc ht t'
    · rw [(Sys.setBin_alike t).tls]
      exact h1

/-- The pages of an object that was freed are not mapped. -/
theorem btmLargeFree_unmaps {b : ℕ} {hd : LargeHdr} (R : SysRep cfg s bg L) (hl : L.large b = some hd)
    (he : btmLargeFree k s.heap b = .ok h') (j : ℕ) (hj : j < hd.mapLen / pageSize) :
    h'.mapped (b / pageSize + j) = false := by
  have ho := R.rep.space.large hl
  have hbm := ho.base_mod
  have hlm := ho.len_mod
  rw [btmLargeFree, R.rep.largeHeader hl] at he
  obtain rfl := Except.ok.inj he
  unfold Heap.munmap
  rw [if_pos ho.le]
  show (!inPages b hd.mapLen (b / pageSize + j) && _) = false
  have hin : inPages b hd.mapLen (b / pageSize + j) = true := by
    rw [pageSize_eq] at hbm hlm hj ⊢
    exact inPages_iff.mpr ⟨by omega, by omega⟩
  rw [hin]
  rfl

/-- `btm_large_free` of an object whose owner the table has. -/
theorem largeFree_done {b : ℕ} {hd : LargeHdr} (k : Kernel) (t : ℕ) (R : SysRep cfg s bg L)
    (hl : L.large b = some hd) (hlook : btmRegistryLookup s.heap (b + hd.userOff) = b ||| 1) :
    ∃ h' L', btmLargeFree k s.heap b = .ok h' ∧
      FreeDone cfg k s bg L t b (b + hd.userOff) none (s.setHeap h') L' := by
  have hhd := R.rep.space.header hl
  obtain ⟨h', hfree, O, hch⟩ := btmLargeFree_spec (k := k) R.rep R.sound R.settled hl
  refine ⟨h', _, hfree, ⟨_, O⟩, R.next O ⟨rfl, rfl, fun c _ => ?_⟩ (fun t' => (R.thread t').congr fun _ => rfl)
    R.rcache, Or.inl ⟨fun p' size' ho => ?_, .unmap b hlook (by rw [hhd]) fun j hj => ?_⟩, fun x n hb => ?_,
    fun _ => rfl, fun h => absurd rfl h⟩
  · show (h'.chunks c).next = _
    rw [hch]
  · cases ho with
    | slot h1 h2 _ => exact R.rep.space.large_ne_slot R.sound hl h2 rfl
    | large h1 _ =>
      rw [Ledger.setLarge_self] at h1
      cases h1
  · rw [hhd] at hj
    exact btmLargeFree_unmaps R hl hfree j hj
  · cases hb with
    | slot h1 hs => exact .slot h1 hs
    | large h1 =>
      have e : x ≠ b := by
        rintro rfl
        rw [Ledger.setLarge_self] at h1
        cases h1
      exact .large ((Ledger.setLarge_of_ne e).symm.trans h1)

/-- What the rest of a call did after the owner was looked up is what the call did. -/
theorem FreeDone.resolved {s1 : Sys} {a : ℕ} {fl : Option (ℕ × ℕ)} (D : FreeDone cfg k s1 bg L t a p fl s' L')
    (V : Resolved s s1) : FreeDone cfg k s bg L t a p fl s' L' := by
  have hd := D.done
  have hv := D.back
  rw [V.heap] at hd hv
  exact ⟨hd, D.rep, hv, D.busy, fun t' => (D.pc t').trans (V.pc t'), D.flush⟩

/-- `btm_free` of an object of the client, up to the flush of an overfull bin. -/
theorem btmFreeHead_spec {a n : ℕ} (k : Kernel) (R : SysRep cfg s bg L) (hpc : (s.threads t).pc = .idle)
    (hown : L.Owned a p n) :
    (∃ fl s' L', btmFreeHead cfg k t p s = .ok (fl, s') ∧ FreeDone cfg k s bg L t a p fl s' L') ∨
      btmFreeHead cfg k t p s = .error .doubleFree ∧ canarySet cfg s.heap p = true := by
  obtain ⟨w, ha⟩ : ∃ w, L.At p w := by
    cases hown with
    | slot h1 h2 _ => exact ⟨_, R.slot_at h2⟩
    | large h1 _ => exact ⟨_, R.large_at h1⟩
  have hlt := ha.lt
  have hpos := ha.pos
  rw [btmFreeHead_eq (by omega)]
  obtain ⟨e1, R1, V⟩ := btmResolveOwner_spec (p := p) t R (by omega)
  generalize btmResolveOwner t p s = x at e1 R1 V
  obtain ⟨o, s1⟩ := x
  dsimp only at e1 R1 V ⊢
  have hpc1 : (s1.threads t).pc = .idle := (V.pc t).trans hpc
  rcases R.lookup ha with h0 | h0
  · -- the table does not know the object
    rw [e1, if_pos h0]
    refine Or.inl ⟨_, _, L, rfl, ⟨fun _ _ => False, ?_⟩, R1, Or.inr ⟨h0, V.heap, rfl⟩, fun _ _ => id, V.pc,
      fun h => absurd rfl h⟩
    rw [V.heap, V.bins]
    exact ⟨R.sound, R.settled, R.rep, Effect.refl, .refl, .refl⟩
  · have h0' : btmRegistryLookup s1.heap p = w := by rw [V.heap, h0]
    rw [h0] at e1
    subst e1
    cases hown with
    | @slot q r i _ _ h1 h2 h3 =>
      have pos := R.sound.carving.slotPos h2
      have hw : o = r.chunk := R.rep.space.unique ha.covers (R.slot_at h2).covers
      subst hw
      have hm := pos.chunk_mod
      have hc := pos.chunk_pos
      rw [if_neg (by omega), if_neg (by rw [Nat.and_one_is_mod]; omega)]
      rcases freeSlot_spec k R1 hpc1 h1 h2 h0' with ⟨fl, s', L', he, D⟩ | ⟨he, hcan⟩
      · exact Or.inl ⟨fl, s', L', he, D.resolved V⟩
      · exact Or.inr ⟨he, by rwa [← V.heap]⟩
    | @large _ _ hd hl hle =>
      have hw : o = a ||| 1 := R.rep.space.unique ha.covers (R.large_at hl).covers
      have hev := (R.rep.space.large hl).even
      obtain ⟨h', L', hfree, D⟩ := largeFree_done k t R1 hl (h0'.trans hw)
      rw [or_one_of_even hev] at hw
      subst hw
      rw [if_neg (by omega), if_pos (by rw [Nat.and_one_is_mod]; omega), Nat.add_sub_cancel, hfree]
      exact Or.inl ⟨_, _, L', rfl, D.resolved V⟩

/-! ## Flushing -/

/-- A step of a thread's own program that leaves its caches alone. -/
theorem Sys.bins_modThread {f : Thread → Thread} (hb : (f (s.threads t)).bins = (s.threads t).bins) :
    (s.modThread t f).bins = s.bins := by
  funext t' i
  by_cases e : t' = t
  · subst e
    show (Function.update s.threads t' _ t').bins i = _
    rw [Function.update_self, hb]
    rfl
  · show (Function.update s.threads t _ t').bins i = _
    rw [Function.update_of_ne e]
    rfl

theorem SysRep.modThread {f : Thread → Thread} (R : SysRep cfg s bg L)
    (hb : (f (s.threads t)).bins = (s.threads t).bins)
    (hr : (f (s.threads t)).rcache = (s.threads t).rcache) (hT : ThreadOk cfg L t (f (s.threads t))) :
    SysRep cfg (s.modThread t f) bg L := by
  refine ⟨R.sound, R.settled, (Sys.bins_modThread hb).symm ▸ R.rep, R.bg, fun t' => ?_, fun t' i => ?_⟩
  · show ThreadOk cfg L t' (Function.update s.threads t _ t')
    by_cases e : t' = t
    · subst e
      rwa [Function.update_self]
    · rw [Function.update_of_ne e]
      exact R.thread t'
  · show RcacheOk s.heap ((Function.update s.threads t _ t').rcache i)
    by_cases e : t' = t
    · subst e
      rw [Function.update_self, hr]
      exact R.rcache t' i
    · rw [Function.update_of_ne e]
      exact R.rcache t' i

theorem Sys.bins_setPc {pc : Pc} : (s.setPc t pc).bins = s.bins := Sys.bins_modThread rfl

theorem SysRep.setPc {pc : Pc} (R : SysRep cfg s bg L)
    (hT : ThreadOk cfg L t { s.threads t with pc := pc }) : SysRep cfg (s.setPc t pc) bg L :=
  R.modThread rfl rfl hT

/-- The bin of a thread that flushes it may change. -/
theorem ThreadOk.rebin {x : Thread} {i : ℕ} (T : ThreadOk cfg L t x)
    (hb : ∀ i', i' ≠ i → L'.bin t i' = L.bin t i') (h1 : x.pc = .idle → x.tls = true)
    (h2 : ∀ {n}, x.pc = .exiting n → n ≤ i) : ThreadOk cfg L' t x := by
  refine ⟨fun h e => absurd (e.symm.trans (h1 h)) Bool.false_ne_true, fun {n} h => ⟨(T.exiting h).1, fun i' hi => ?_⟩, T.flushing, T.part⟩
  have := h2 h
  rw [hb i' (by omega)]
  exact (T.exiting h).2 i' hi

/-- One iteration of a flush loop on a bin that is not empty. -/
theorem flushBin_spec {q : PoolId} {i : ℕ} (R : SysRep cfg s bg L) (hpool : (s.bins t i).pool = some q)
    (hcount : 0 < (s.bins t i).count) (h1 : (s.threads t).pc = .idle → (s.threads t).tls = true)
    (h2 : ∀ {n}, (s.threads t).pc = .exiting n → n ≤ i) :
    ∃ L', Outcome cfg k (fun _ => False) (fun t' i' => t' = t ∧ i' = i) (fun _ _ => False) s.heap L
        (flushBin cfg k t i q s).heap (flushBin cfg k t i q s).bins L' ∧
      SysRep cfg (flushBin cfg k t i q s) bg L' ∧
      ∀ t', ((flushBin cfg k t i q s).threads t').Alike (s.threads t') := by
  have hB := R.rep.bins t i
  cases hl : L.bin t i with
  | nil =>
    rw [hl] at hB
    have := hB.count
    rw [List.length_nil] at this
    omega
  | cons x rest =>
    obtain ⟨-, -, -, q', r, j, hq', -, hs⟩ := bin_head R.rep R.sound hl
    obtain rfl : q = q' := Option.some.inj (hpool.symm.trans hq')
    obtain ⟨L', O, A, -⟩ := flushOne_spec (k := k) R.rep R.sound R.settled hl hs
    have R' := R.next_bin O A ((R.thread t).rebin (fun i' hi => O.moved.bin fun h => hi h.2) h1 h2)
    refine ⟨L', ?_, R', fun t' => Sys.setBin_alike t'⟩
    have e : (flushBin cfg k t i q s).bins = setBins s.bins t i (flushOne cfg k q (s.bins t i) s.heap).1 :=
      Sys.bins_setBin
    rw [e]
    exact O

/-- Bins beyond those of the partitions are never used. -/
theorem SysRep.bin_lt (R : SysRep cfg s bg L) {i : ℕ} (hi : cfg.nbins ≤ i) : L.bin t i = [] := by
  by_contra hne
  obtain ⟨q, ⟨h1, h2⟩, -, rfl⟩ := (R.rep.bins t i).pool hne
  simp only [Config.nbins, binIdx, numSizeClasses_eq] at hi h2
  have : (q.part + 1) * 36 ≤ cfg.nparts * 36 := Nat.mul_le_mul_right _ h1
  omega

/-- A bin without slots. -/
theorem SysRep.bin_nil (R : SysRep cfg s bg L) {i : ℕ}
    (h : (s.bins t i).pool = none ∨ (s.bins t i).count = 0) : L.bin t i = [] := by
  by_contra hne
  have hB := R.rep.bins t i
  rcases h with h | h
  · obtain ⟨q, -, hq, -⟩ := hB.pool hne
    rw [h] at hq
    cases hq
  · have := hB.count
    rw [h] at this
    exact hne (List.length_eq_zero_iff.mp this.symm)

end BtMalloc
