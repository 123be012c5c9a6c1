import BtMalloc.Proofs.RefillProofs

/-!
# Proofs: hits and pushes in a bin

`btm_malloc` takes the first slot of a bin, `btm_free` puts a slot in front of one. Both move a slot
between two busy places and write into that slot only.
-/

namespace BtMalloc

open LinkedList PagedMemory Word

variable {cfg : Config} {k : Kernel} {X : ℕ → Prop} {B : ℕ → ℕ → Prop} {h : Heap}
  {bins : ℕ → ℕ → Bin} {L : Ledger} {q : PoolId} {r : SlabRef} {s j t i : ℕ} {v : Place}
  {Z : ℕ → PoolId → Prop}

/-- The ledger with a busy slot moved to another busy place, up to the order of the busy slots. -/
theorem Ledger.length_held_move (S : L.Sound cfg) (hs : L.SlotIn q r j s)
    (hb : (L.place s).busy = true) (hv : v.busy = true) (q' : PoolId) :
    ((L.move q r s v).held q').length = (L.held q').length := by
  by_cases e : q' = q
  · subst e
    have := (S.slots.held q').length_erase (a := s) ⟨hb, r, j, hs⟩
    simp only [Ledger.move, Function.update_self, hv, if_true, List.length_cons]
    exact this
  · simp [Ledger.move, e]

/-- A busy slot moves to another busy place; only its own bytes change. -/
theorem HeapRep.rebusy (H : HeapRep cfg h bins L) (S : L.Sound cfg) (hs : L.SlotIn q r j s)
    (hb : (L.place s).busy = true) (hv : v.busy = true) {m' : Mem} {log' : List Event}
    {bins' : ℕ → ℕ → Bin} (hpt : m'.pt = h.mem.pt)
    (hkeep : Keeps L.Unit (fun x => x = s) h.mem m') (hgood : Good log')
    (hfresh : ∀ x, Fresh h.log x → Fresh log' x)
    (hbins : ∀ t i, BinOk cfg m' i (bins' t i) ((L.move q r s v).bin t i) ∧
      ∀ x ∈ (L.move q r s v).bin t i, Fresh log' x) :
    HeapRep cfg { h with mem := m', log := log' } bins' (L.move q r s v) := by
  have hnf : L.place s ≠ .free := fun e => by rw [e] at hb; cases hb
  have hvf : v ≠ .free := fun e => by rw [e] at hv; cases hv
  have hfl : ∀ {q' x}, L.SlabIn q' x → L.stage x ≠ .retired →
      (L.move q r s v).freeList x = L.freeList x := by
    intro q' x hx hx'
    by_cases e : x = r
    · subst e
      have hno : s ∉ L.freeList x := fun hm => hnf (S.freeList_place hx hx' hm)
      simp [Ledger.move, hvf, List.erase_of_not_mem hno]
    · simp [Ledger.move, e]
  refine H.replace hpt (fun q' x hx => ?_) H.lists (fun q' => ?_) (fun _ => rfl) (fun _ => rfl)
    (fun q' x hx hi => ?_) hbins hgood
  · have D := H.desc q' x hx
    refine ⟨D.firstPage, D.npages, D.nslots, D.sc, D.partIdx, D.inPartial, D.decommitted, D.retired,
      fun hx' => ?_⟩
    have := hfl hx hx'
    simp only [Ledger.move] at this
    rw [this]
    exact D.freeCount hx'
  · have := Ledger.length_held_move S hs hb hv q'
    simp only [Ledger.move] at this
    rw [this]
    exact H.tally q'
  · have hx' := Stage.intact_ne_retired hi
    have e := hfl hx hx'
    simp only [Ledger.move] at e
    rw [e]
    refine ⟨keeps_chain hkeep (H.free q' x hx hi) (fun y hy => ?_),
      fun y hy => hfresh y (H.log.free hx hi hy)⟩
    have hy' := S.freeList_place hx hx' hy
    exact ⟨S.cell (by simp [hy']), fun e => hnf (by rwa [← e])⟩

theorem Effect.rebusy (H : HeapRep cfg h bins L) (S : L.Sound cfg) (hs : L.SlotIn q r j s)
    (hX : L.place s = .out → X s) {m' : Mem} {log' : List Event}
    (hkeep : Keeps L.Unit (fun x => x = s) h.mem m')
    (hlog : ∃ ev, log' = ev ++ h.log ∧ ∀ e ∈ ev, e.isLink = true) :
    Effect k X B h L { h with mem := m', log := log' } (L.move q r s v) := by
  have hne : ∀ {a n}, L.Client a n → ¬ X a → a ≠ s := by
    rintro a n hc hx rfl
    cases hc with
    | slot ho hi => exact hx (hX ho)
    | large hl => exact H.space.large_ne_slot S hl hs rfl
  exact Effect.quiet (fun a n i hc hx hi => hkeep hc.unit (hne hc hx) hi) hlog
    (fun a n hc hx => hc.congr (Function.update_of_ne (hne hc hx) ..) (fun hx => hx) rfl) rfl rfl rfl
    rfl ⟨rfl, rfl⟩

theorem Ledger.move_tidy (hb : (L.place s).busy = true) (hv : v.busy = true) (S : L.Sound cfg)
    (hs : L.SlotIn q r j s) : L.Tidy (L.move q r s v) := by
  have hnf : L.place s ≠ .free := fun e => by rw [e] at hb; cases hb
  have hvf : v ≠ .free := fun e => by rw [e] at hv; cases hv
  have hvv : v ≠ .void := fun e => by rw [e] at hv; cases hv
  refine ⟨fun U => ⟨U.stage, fun {q' x i s'} hs' => ?_⟩, fun hR x hx => ?_,
    fun q' x i s' hs' hv' => ⟨hs', ?_⟩⟩
  · by_cases e : s' = s
    · subst e
      simpa [Ledger.move] using hvv
    · simpa [Ledger.move, e] using U.place hs'
  · have hx' : L.stage x = .listed := hx
    by_cases e : x = r
    · subst e
      have hno : s ∉ L.freeList x :=
        fun hm => hnf (S.freeList_place hs.1 (by simp [hx']) hm)
      simpa [Ledger.move, hvf, List.erase_of_not_mem hno] using hR hx'
    · simpa [Ledger.move, e] using hR hx'
  · have e : s' ≠ s := by
      rintro rfl
      rw [hv'] at hb
      cases hb
    exact (Function.update_of_ne e ..).trans hv'

/-- Busy slots count for no slab. -/
theorem Ledger.Settled.rebusy (T : L.Settled) (S : L.Sound cfg) (hs : L.SlotIn q r j s)
    (hb : (L.place s).busy = true) (hv : v.busy = true) : (L.move q r s v).Settled := by
  have hnf : L.place s ≠ .free := fun e => by rw [e] at hb; cases hb
  have hvf : v ≠ .free := fun e => by rw [e] at hv; cases hv
  refine ⟨fun {q' x} hx => ?_, T.chunk, T.warm⟩
  have hT := T.slab (q := q') (r := x) hx
  unfold Ledger.SlabSettled at hT ⊢
  by_cases e : x = r
  · subst e
    by_cases hret : L.stage x = .retired
    · have : (L.move q x s v).stage x = .retired := hret
      rw [this]
      trivial
    · have hno : s ∉ L.freeList x := fun hm => hnf (S.freeList_place hx hret hm)
      simpa [Ledger.move, hvf, List.erase_of_not_mem hno] using hT
  · simpa [Ledger.move, e] using hT

/-! ## Taking the first slot of a bin -/

/-- Writing the second word of a slot leaves the others and the link alone. -/
theorem writeSecond_spec {U : ℕ → ℕ → Prop} {m : Mem} (hA : m.Apart U) (hcell : Cell U s) (a : ℕ) :
    Keeps U (fun x => x = s) m (m.writeLE 8 (s + 8) a) ∧
      flNext cfg (m.writeLE 8 (s + 8) a) s = flNext cfg m s := by
  obtain ⟨n, hu, hn, -⟩ := hcell
  have hread : (m.writeLE 8 (s + 8) a).readLE 8 s = m.readLE 8 s :=
    readLE_congr fun i hi =>
      hA.write_outside (o := 8) (k := 8) hu (by omega) (by omega) (Or.inl (by omega))
  refine ⟨hA.write_keeps hu (by omega), ?_⟩
  unfold flNext flDecode
  rw [hread]

theorem clearCanary_spec (hA : h.mem.Apart L.Unit) (hcell : Cell L.Unit s) :
    ∃ m', clearCanary cfg h s = { h with mem := m' } ∧ m'.pt = h.mem.pt ∧
      Keeps L.Unit (fun x => x = s) h.mem m' := by
  unfold clearCanary
  split
  · exact ⟨_, rfl, rfl, ((@writeSecond_spec cfg) hA hcell 0).1⟩
  · exact ⟨h.mem, rfl, rfl, Keeps.refl⟩

/-- A hit: the first slot of the bin is handed out. -/
theorem binPop_spec (H : HeapRep cfg h bins L) (S : L.Sound cfg) (T : L.Settled) {rest : List ℕ}
    (hb : L.bin t i = s :: rest) (hs : L.SlotIn q r j s) :
    Outcome cfg k (fun x => x = s) (fun t' i' => t' = t ∧ i' = i) Z h L
        (clearCanary cfg (h.note (.get s)) s) (setBins bins t i
          { bins t i with freeHead := btmFlGet cfg h s, count := decr 32 (bins t i).count })
        (L.move q r s .out) ∧
      Aside h L (clearCanary cfg (h.note (.get s)) s) (L.move q r s .out) := by
  obtain ⟨-, hp, hfr, -⟩ := bin_head H S hb
  have hbusy : (L.place s).busy = true := by rw [hp]; rfl
  have hvoid : L.place s ≠ .void := by simp [hp]
  obtain ⟨m', he, hpt, hk⟩ := (@clearCanary_spec cfg (h.note (.get s)) L)
    (H.apart S) (S.cell hvoid)
  have hpop := binOk_pop H S hb
  have hbin : ∀ t' i', (L.move q r s .out).bin t' i' = (L.bin t' i').erase s := by
    intro t' i'
    simp [Ledger.move]
  rw [he]
  refine ⟨⟨S.move hs (fun _ => hvoid) (by simp) (by simp), ?_, ?_, ?_, ?_,
    Ledger.move_tidy hbusy rfl S hs⟩, rfl, rfl, fun _ _ => rfl⟩
  · exact T.rebusy S hs hbusy rfl
  · refine @HeapRep.rebusy _ _ _ _ _ _ _ _ _ H S hs hbusy rfl m' (.get s :: h.log) _ hpt hk
      ⟨hfr, H.log.good⟩ (fun x hx => hx) (fun t' i' => ?_)
    rw [hbin]
    have hB := hpop t' i'
    refine ⟨⟨keeps_chain hk hB.chain (fun y hy => ?_), hB.count, hB.pool⟩, fun y hy => ?_⟩
    · obtain ⟨hne, hy⟩ := (S.slots.bin t' i').nodup.mem_erase_iff.mp hy
      exact ⟨S.cell (by simp [S.bin_place hy]), hne⟩
    · exact H.log.bin (List.mem_of_mem_erase hy)
  · exact Effect.rebusy (X := fun x => x = s) H S hs (fun _ => rfl) hk
      ⟨[.get s], rfl, by simp [Event.isLink]⟩
  · refine ⟨fun q' x i' y ho hx hy => ⟨?_, hy⟩, fun y ho hx => ?_, fun t' i' hy => ?_,
      fun _ _ => Or.inl, fun _ _ => rfl⟩
    · simpa [Ledger.move, hx] using ho
    · simpa [Ledger.move, hx] using ho
    · rw [hbin]
      refine List.erase_of_not_mem (fun hm => hy ?_)
      have := S.bin_place hm
      rw [hp] at this
      simpa [eq_comm] using this

/-! ## Pushing a slot on a bin -/

/-- What `btm_free` does to the heap when it caches slot `s` in front of the list at `v`. -/
def cachePush (cfg : Config) (h : Heap) (s v : ℕ) : Heap :=
  if cfg.hardening && cfg.hardenMode then
    { btmFlSet cfg h s v with
      mem := (btmFlSet cfg h s v).mem.writeLE 8 (s + 8) (btmDfCanary cfg s) }
  else btmFlSet cfg h s v

theorem cachePush_spec {U : ℕ → ℕ → Prop} {a : ℕ} (hA : h.mem.Apart U) (hcell : Cell U s)
    (ha : a < 2 ^ 64) : ∃ m', cachePush cfg h s a = { h with mem := m', log := .set s :: h.log } ∧
      m'.pt = h.mem.pt ∧ Keeps U (fun x => x = s) h.mem m' ∧ flNext cfg m' s = ptr a := by
  obtain ⟨h1, h2⟩ := (@flSet_spec cfg) hA hcell ha
  unfold cachePush
  rw [btmFlSet_eq]
  split
  · obtain ⟨h3, h4⟩ := (@writeSecond_spec cfg _ _ (h.mem.writeLE 8 s (flEncode cfg s a))) (hA.congr_pt rfl) hcell (btmDfCanary cfg s)
    exact ⟨_, rfl, rfl, h2.trans h3, h4.trans h1⟩
  · exact ⟨_, rfl, rfl, h2, h1⟩

/-- A slot that is handed out goes in front of the bin of its pool. -/
theorem binPush_spec (H : HeapRep cfg h bins L) (S : L.Sound cfg) (T : L.Settled)
    (hs : L.SlotIn q r j s) (hp : L.place s = .out) (hi : i = binIdx q) :
    Outcome cfg k (fun x => x = s) (fun t' i' => t' = t ∧ i' = i) Z h L
        (cachePush cfg h s (bins t i).freeHead)
        (setBins bins t i { freeHead := s, pool := some q, count := (bins t i).count + 1 })
        (L.move q r s (.cached t i)) ∧
      Aside h L (cachePush cfg h s (bins t i).freeHead) (L.move q r s (.cached t i)) := by
  have hbusy : (L.place s).busy = true := by rw [hp]; rfl
  have hvoid : L.place s ≠ .void := by simp [hp]
  have hcell := S.cell hvoid
  have hB := H.bins t i
  have hno : ∀ {t' i'}, s ∉ L.bin t' i' := fun hm => by
    have := S.bin_place hm
    rw [hp] at this
    cases this
  have hlt : (bins t i).freeHead < 2 ^ 64 := by
    rw [chain_ptr_head hB.chain]
    cases hl : L.bin t i with
    | nil => simp
    | cons y l =>
      have hy := S.bin_place (t := t) (i := i) (x := y) (by rw [hl]; simp)
      exact (S.cell (s := y) (by simp [hy])).choose_spec.2.2.2
  obtain ⟨m', he, hpt, hk, hlink⟩ := (@cachePush_spec cfg) (H.apart S) hcell hlt
  have hbin : ∀ t' i', (L.move q r s (.cached t i)).bin t' i' =
      if t' = t ∧ i' = i then s :: L.bin t i else L.bin t' i' := by
    intro t' i'
    simp only [Ledger.move, List.erase_of_not_mem hno, Place.cached.injEq]
    by_cases e : t' = t ∧ i' = i
    · obtain ⟨rfl, rfl⟩ := e
      simp
    · rw [if_neg e, if_neg (fun e' => e ⟨e'.1.symm, e'.2.symm⟩)]
  have hkept : ∀ {t' i'}, ∀ y ∈ L.bin t' i', Cell L.Unit y ∧ y ≠ s := fun y hy =>
    ⟨S.cell (by simp [S.bin_place hy]), fun e => hno (e ▸ hy)⟩
  rw [he]
  refine ⟨⟨S.move hs (fun _ => hvoid) (fun t' i' e => ?_) (by simp), T.rebusy S hs hbusy rfl, ?_, ?_,
    ?_, Ledger.move_tidy hbusy rfl S hs⟩, rfl, rfl, fun _ _ => rfl⟩
  · obtain ⟨rfl, rfl⟩ : t = t' ∧ i = i' := by simpa using e
    exact hi
  · refine H.rebusy S hs hbusy rfl hpt hk H.log.good (fun x hx => Or.inr hx) (fun t' i' => ?_)
    rw [hbin]
    by_cases e : t' = t ∧ i' = i
    · obtain ⟨rfl, rfl⟩ := e
      rw [setBins_self, if_pos ⟨rfl, rfl⟩]
      refine ⟨⟨⟨ptr_of_pos hcell.choose_spec.2.2.1, ?_⟩, ?_, fun _ =>
        ⟨q, S.carving.valid hs.1.1, rfl, hi⟩⟩, fun y hy => ?_⟩
      · rw [hlink]
        exact keeps_chain hk hB.chain hkept
      · show (bins t' i').count + 1 = _
        rw [hB.count, List.length_cons]
      · rcases List.mem_cons.mp hy with rfl | hy
        · exact LinkLog.fresh_set
        · exact Or.inr (H.log.bin hy)
    · rw [setBins_of_ne (fun e' => e (by simpa using e')), if_neg e]
      have hB' := H.bins t' i'
      exact ⟨⟨keeps_chain hk hB'.chain hkept, hB'.count, hB'.pool⟩, fun y hy => Or.inr (H.log.bin hy)⟩
  · exact Effect.rebusy (X := fun x => x = s) H S hs (fun _ => rfl) hk
      ⟨[.set s], rfl, by simp [Event.isLink]⟩
  · refine ⟨fun q' x i' y ho hx hy => ⟨?_, hy⟩, fun y ho hx => ?_, fun t' i' hy => ?_,
      fun _ _ => Or.inl, fun _ _ => rfl⟩
    · simpa [Ledger.move, hx] using ho
    · simpa [Ledger.move, hx] using ho
    · rw [hbin, if_neg hy]

end BtMalloc
