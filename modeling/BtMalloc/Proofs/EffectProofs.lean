import BtMalloc.Effect
import BtMalloc.Proofs.ChunkLedgerProofs
import BtMalloc.Proofs.EmptySlabProofs
import BtMalloc.Proofs.RegistryProofs

/-!
# Proofs: effects

Effects compose. The operations on the lists of slabs and on free slots have an effect that is easy
to state: no page is dropped and no byte of the client changes.
-/

namespace BtMalloc

open PagedMemory LinkedList

variable {cfg : Config} {k : Kernel} {X : ℕ → Prop} {B B' : ℕ → ℕ → Prop} {h h' h'' : Heap}
  {bins : ℕ → ℕ → Bin} {L L' L'' : Ledger} {q : PoolId} {r : SlabRef}

theorem Ledger.Client.unit {a n : ℕ} (h : L.Client a n) : L.Unit a n := by
  cases h with
  | slot hp hs => exact .slot (by simp [hp]) hs
  | large hl => exact .large hl

theorem Ledger.Client.busy {a n : ℕ} (h : L.Client a n) : L.Busy a n := by
  cases h with
  | slot hp hs => exact .slot (by simp [hp, Place.busy]) hs
  | large hl => exact .large hl

theorem Ledger.Busy.unit {a n : ℕ} (h : L.Busy a n) : L.Unit a n := by
  cases h with
  | slot hp hs => exact .slot (fun e => by rw [e] at hp; cases hp) hs
  | large hl => exact .large hl

theorem Clear.nil : Clear B [] := by
  intro e he
  cases he

theorem Clear.append {ev ev' : List Event} (h : Clear B ev) (h' : Clear B ev') :
    Clear B (ev ++ ev') := by
  intro e he
  rcases List.mem_append.mp he with he | he
  · exact h e he
  · exact h' e he

theorem Clear.mono {ev : List Event} (h : Clear B ev) (hb : ∀ {a n}, B' a n → B a n) : Clear B' ev :=
  fun e he p n hd _ _ _ hu hi => h e he p n hd (hb hu) hi

/-- Link operations drop no page. -/
theorem Clear.of_link {ev : List Event} (h : ∀ e ∈ ev, e.drops = none) : Clear B ev := by
  intro e he p n hd
  rw [h e he] at hd
  cases hd

theorem Event.drops_of_isLink {e : Event} (h : e.isLink = true) : e.drops = none := by
  cases e <;> first | rfl | cases h

theorem Effect.refl : Effect k X B h L h L :=
  ⟨fun _ _ hc _ => hc, Keeps.refl, ⟨[], rfl, Clear.nil, fun _ _ hc => Or.inl hc⟩, le_refl _,
    fun _ _ _ _ => rfl, fun _ _ hn => hn, .refl, fun _ => Or.inl, rfl, rfl⟩

theorem Effect.trans (h1 : Effect k X B h L h' L') (h2 : Effect k X B h' L' h'' L'') :
    Effect k X B h L h'' L'' := by
  obtain ⟨ev, e1, c1, d1⟩ := h1.log
  obtain ⟨ev', e2, c2, d2⟩ := h2.log
  refine ⟨fun a n hc hx => h2.client (h1.client hc hx) hx, fun a n i hc hx hi => ?_,
    ⟨ev' ++ ev, by rw [e2, e1, List.append_assoc], c2.append c1, fun c q hc => ?_⟩, h1.gen.trans h2.gen,
    fun hg key hk hne => ?_,
    fun key hl hn => h2.named (h1.leaves.ready.mpr hl) (h1.named hl hn),
    h1.leaves.trans h2.leaves, fun c hc => (h2.fresh hc).elim (fun h => h1.fresh h) Or.inr,
    h2.intern.1.trans h1.intern.1, h2.intern.2.trans h1.intern.2⟩
  · exact (h2.bytes (h1.client hc hx) hx hi).trans (h1.bytes hc hx hi)
  · rcases d1 c q hc with hc | hc
    · rcases d2 c q hc with hc | hc
      · exact Or.inl hc
      · exact Or.inr (List.mem_append_left _ hc)
    · exact Or.inr (List.mem_append_right _ hc)
  · have g1 := h1.gen
    have g2 := h2.gen
    have r1 := h1.owner (by omega) key hk hne
    rw [h2.owner (by omega) key hk (by rwa [r1]), r1]

theorem Effect.mono (h1 : Effect k X B h L h' L') (hb : ∀ {a n}, B' a n → B a n) :
    Effect k X B' h L h' L' := by
  obtain ⟨ev, e1, c1, d1⟩ := h1.log
  exact ⟨h1.client, h1.bytes, ⟨ev, e1, c1.mono hb, d1⟩, h1.gen, h1.owner,
    h1.named, h1.leaves, h1.fresh, h1.intern⟩

theorem Effect.weaken {X' : ℕ → Prop} (h1 : Effect k X B h L h' L') (hX : ∀ {a}, X a → X' a) :
    Effect k X' B h L h' L' :=
  ⟨fun _ _ hc hx => h1.client hc fun h => hx (hX h), fun _ _ _ hc hx hi => h1.bytes hc (fun h => hx (hX h)) hi,
    h1.log, h1.gen, h1.owner, h1.named, h1.leaves, h1.fresh, h1.intern⟩

/-- What is clear of the pages dropped can be said from the log alone. -/
theorem Effect.reclear (h1 : Effect k X B h L h' L') {ev : List Event} (he : h'.log = ev ++ h.log)
    (hc : Clear B' ev) : Effect k X B' h L h' L' := by
  obtain ⟨ev', hev', -, hd⟩ := h1.log
  obtain rfl : ev' = ev := List.append_cancel_right (hev'.symm.trans he)
  exact ⟨h1.client, h1.bytes, ⟨ev', hev', hc, hd⟩, h1.gen, h1.owner, h1.named, h1.leaves, h1.fresh,
    h1.intern⟩

theorem Named.congr {T : OwnerTable} {key : ℕ} (hr : Named T L key)
    (hh : ∀ c, L'.holder c ≠ .none → L.holder c ≠ .none) (hl : L'.large = L.large) :
    Named T L' key :=
  fun _ hc => hr (hc.congr hh hl.symm)

/-- An operation that only changes descriptors, headers, pools, links of free slots and the ledger's
    lists. -/
theorem Effect.quiet (hmem : Keeps L.Client X h.mem h'.mem)
    (hlog : ∃ ev, h'.log = ev ++ h.log ∧ ∀ e ∈ ev, e.isLink = true)
    (hclient : ∀ ⦃a n⦄, L.Client a n → ¬ X a → L'.Client a n) (hh : L'.holder = L.holder)
    (hl : L'.large = L.large) (hr : h'.owners = h.owners) (hg : h'.registryGen = h.registryGen)
    (hi : h'.internTbl = h.internTbl ∧ h'.internNext = h.internNext) :
    Effect k X B h L h' L' := by
  obtain ⟨ev, he, hlink⟩ := hlog
  refine ⟨hclient, hmem, ⟨ev, he, Clear.of_link fun e hm => Event.drops_of_isLink (hlink e hm),
    fun c q hc => Or.inl (by rwa [hh])⟩, le_of_eq hg.symm,
    fun _ key _ _ => by rw [hr], fun key _ hR => ?_, hr ▸ .refl,
    fun c hc => Or.inl (by rwa [← hh]), hi⟩
  rw [hr]
  exact hR.congr (fun c => by rw [hh]; exact id) hl

theorem Aside.refl : Aside h L h L := ⟨rfl, rfl, fun _ _ => rfl⟩

theorem Aside.trans (h1 : Aside h L h' L') (h2 : Aside h' L' h'' L'') : Aside h L h'' L'' := by
  refine ⟨h2.batch.trans h1.batch, h2.hand.trans h1.hand, fun c hc => ?_⟩
  rw [h2.link c (by rwa [h1.batch, h1.hand]), h1.link c hc]

variable {Y : ℕ → ℕ → Prop} {Z : ℕ → PoolId → Prop}

theorem Ledger.Moved.refl : L.Moved L X Y Z :=
  ⟨fun _ _ _ _ ho _ hs => ⟨ho, hs⟩, fun _ ho _ => ho, fun _ _ _ => rfl, fun _ _ => Or.inl,
    fun _ _ => rfl⟩

theorem Ledger.Moved.trans (h1 : L.Moved L' X Y Z) (h2 : L'.Moved L'' X Y Z) : L.Moved L'' X Y Z := by
  refine ⟨fun q r i s ho hx hs => ?_, fun s ho hx => h1.back (h2.back ho hx) hx,
    fun t i hy => (h2.bin hy).trans (h1.bin hy),
    fun c q hc => (h2.own hc).elim (fun hc => h1.own hc) Or.inr,
    fun b hx => (h2.large hx).trans (h1.large hx)⟩
  obtain ⟨ho', hs'⟩ := h1.stay ho hx hs
  exact h2.stay ho' hx hs'

theorem Ledger.Moved.mono {X' : ℕ → Prop} {Y' : ℕ → ℕ → Prop} {Z' : ℕ → PoolId → Prop}
    (h1 : L.Moved L' X Y Z) (hX : ∀ {s}, X s → X' s) (hY : ∀ {t i}, Y t i → Y' t i)
    (hZ : ∀ {c q}, Z c q → Z' c q) : L.Moved L' X' Y' Z' :=
  ⟨fun _ _ _ _ ho hx hs => h1.stay ho (fun h => hx (hX h)) hs,
    fun _ ho hx => h1.back ho (fun h => hx (hX h)), fun _ _ hy => h1.bin (fun h => hy (hY h)),
    fun _ _ hc => (h1.own hc).imp id hZ, fun _ hx => h1.large fun h => hx (hX h)⟩

theorem Ledger.Tidy.refl : L.Tidy L := ⟨id, id, fun _ _ _ _ hs hv => ⟨hs, hv⟩⟩

theorem Ledger.Tidy.trans (h1 : L.Tidy L') (h2 : L'.Tidy L'') : L.Tidy L'' :=
  ⟨fun h => h2.unmeshed (h1.unmeshed h), fun h => h2.ready (h1.ready h),
    fun _ _ _ _ hs hv => h2.lost (h1.lost hs hv).1 (h1.lost hs hv).2⟩

/-- Slots handed out and large objects survive a change of anything else. -/
theorem Ledger.Client.congr {a n : ℕ} (hc : L.Client a n) (hp : L'.place a = L.place a)
    (hs : ∀ {q x}, L.SlabIn q x → L'.SlabIn q x) (hl : L'.large = L.large) : L'.Client a n := by
  cases hc with
  | slot ho hi => exact .slot (by rw [hp, ho]) ⟨hs hi.1, hi.2⟩
  | large hb => exact .large (by rwa [hl])

/-- Changing the stage of a carved slab leaves the slabs of the pools. -/
theorem Ledger.SlabIn.restage {st : Stage} {q' : PoolId} {x : SlabRef} (hx : L.SlabIn q' x)
    (hr : L.stage r ≠ .uncarved) (hst : st ≠ .uncarved)
    (hh : L'.holder = L.holder) (hs : L'.stage = Function.update L.stage r st) : L'.SlabIn q' x := by
  refine ⟨by rw [hh]; exact hx.1, ?_⟩
  rw [hs]
  exact (Ledger.update_stage_ne_uncarved hr hst x).mpr hx.2

theorem partialPush_effect (H : HeapRep cfg h bins L) (S : L.Sound cfg) (hr : L.SlabIn q r)
    (hst : L.stage r = .unlisted) : Effect k X B h L (partialPush h q r) (L.enlist q r) := by
  have hne : (h.pools q).partialHead ≠ some r := by
    intro hh
    rw [(H.lists q).partials.head_eq] at hh
    have := ((S.lists.partials q).mem_iff.mp (List.mem_of_mem_head? hh)).2
    rw [hst] at this
    cases this
  rw [partialPush_eq hne]
  refine Effect.quiet Keeps.refl ⟨[], rfl, by simp⟩ (fun a n hc _ => ?_) rfl rfl rfl rfl
    ⟨rfl, rfl⟩
  exact hc.congr rfl (fun hx => hx.restage hr.2 (by simp) rfl rfl) rfl

theorem partialRemove_effect (hr : L.SlabIn q r) :
    Effect k X B h L (partialRemove h q r) (L.delist q r) := by
  rw [partialRemove_eq]
  refine Effect.quiet Keeps.refl ⟨[], rfl, by simp⟩ (fun a n hc _ => ?_) rfl rfl rfl rfl
    ⟨rfl, rfl⟩
  exact hc.congr rfl (fun hx => hx.restage hr.2 (by simp) rfl rfl) rfl

theorem emptyWarmPush_effect (hr : L.SlabIn q r) :
    Effect k X B h L (emptyWarmPush (dropLive h r) q r) (L.shelve q r) := by
  refine Effect.quiet Keeps.refl ⟨[], rfl, by simp⟩ (fun a n hc _ => ?_) rfl rfl rfl rfl
    ⟨rfl, rfl⟩
  exact hc.congr rfl (fun hx => hx.restage hr.2 (by simp) rfl rfl) rfl

/-- A large object is in no chunk. -/
theorem SpaceRep.large_ne_slot {pt : ℕ → Frame} {mapped : ℕ → Bool} {larges : ℕ → LargeHdr}
    (Sp : SpaceRep pt mapped larges L) (S : L.Sound cfg) {b i s : ℕ} {hd : LargeHdr}
    (hl : L.large b = some hd) (hs : L.SlotIn q r i s) : b ≠ s := by
  rintro rfl
  have ho := Sp.large hl
  have p := S.carving.slotPos hs
  have c1 := ho.covers hl (i := 0) (by have := ho.off_lt; omega)
  have e := Sp.unique c1 (p.covers hs.1 p.size_pos)
  rw [or_one_of_even ho.even] at e
  have := p.chunk_mod
  have := ho.even
  omega

/-- Dropping data pages of a chunk touches the slots there and no other unit. -/
theorem ReleasedIn.clear {c p n : ℕ} {T : ℕ → Prop} {pt : ℕ → Frame} {mapped : ℕ → Bool}
    {larges : ℕ → LargeHdr} (hT : ReleasedIn L c p n T) (Sp : SpaceRep pt mapped larges L)
    (S : L.Sound cfg) (hc : L.holder c ≠ .none) (hpn : p + n ≤ 512) {e : Event}
    (he : e.drops = some (c / 4096 + p, n)) : Clear (fun a m => L.Unit a m ∧ ¬ T a) [e] := by
  intro e' he' p' n' hd a m i hu hi
  rw [List.mem_singleton] at he'
  rw [he', he, Option.some.injEq, Prod.mk.injEq] at hd
  obtain ⟨rfl, rfl⟩ := hd
  rintro ⟨h1, h2⟩
  have hal := (S.carving.aligned hc).1
  simp only [chunkSize_eq, pageSize_eq] at hal h1 h2
  obtain ⟨hu, hne⟩ := hu
  have hreg : (a + i) / 2097152 * 2097152 = c := by omega
  cases hu with
  | @slot q x j _ hv hs =>
    have pos := S.carving.slotPos hs
    have hxc := pos.region hi
    have hpg := pos.page hi
    have hcc : x.chunk = c := hxc.symm.trans hreg
    rw [hcc] at hpg
    exact hne (hT.slot hv hs x (Or.inl rfl) hcc (by omega) (by omega))
  | large hl =>
    have ho := Sp.large hl
    have c2 : L.Covers ((a + i) / chunkSize) ((a + i) / chunkSize * chunkSize) :=
      .chunk (by simp only [chunkSize_eq]; rwa [hreg])
    have e := Sp.unique (ho.covers hl hi) c2
    rw [or_one_of_even ho.even] at e
    have := ho.even
    simp only [chunkSize_eq] at e
    omega

/-- The slot pushed is no longer handed out. -/
theorem slabPush_effect {s j : ℕ} (H : HeapRep cfg h bins L) (S : L.Sound cfg)
    (hs : L.SlotIn q r j s) (hbusy : (L.place s).busy = true) (hX : L.place s = .out → X s)
    {log1 ev : List Event} (hlog : log1 = ev ++ h.log) (hev : ∀ e ∈ ev, e.isLink = true)
    {pools' : PoolId → Pool} :
    Effect k X B h L (slabPush cfg { h with log := log1, pools := pools' } r s)
      (L.move q r s (L.rest r)) := by
  have hvoid : L.place s ≠ .void := fun e => by rw [e] at hbusy; cases hbusy
  have hkeep : Keeps L.Unit (fun x => x = s) h.mem
      (h.mem.writeLE 8 s (flEncode cfg s (h.slabs r).freeHead)) := by
    obtain ⟨n, hu, hn, -⟩ := S.cell hvoid
    have := (H.apart S).write_keeps (f := leByte (flEncode cfg s (h.slabs r).freeHead)) (o := 0)
      (k := 8) hu (by omega)
    rwa [Nat.add_zero] at this
  have hne : ∀ {a n}, L.Client a n → ¬ X a → a ≠ s := by
    rintro a n hc hx rfl
    cases hc with
    | slot ho hi => exact hx (hX ho)
    | large hl => exact H.space.large_ne_slot S hl hs rfl
  rw [slabPush_eq, Ledger.move_rest]
  refine Effect.quiet (fun a n i hc hx hi => hkeep hc.unit (hne hc hx) hi)
    ⟨.set s :: ev, by simp [hlog], ?_⟩ (fun a n hc hx => ?_) rfl rfl rfl rfl ⟨rfl, rfl⟩
  · intro e he
    rcases List.mem_cons.mp he with rfl | he
    · rfl
    · exact hev e he
  · exact hc.congr (by simp [hne hc hx]) (fun hx => hx) rfl

/-- The pages an empty slab gives up are clear of busy slots. -/
theorem emptyColdPush_effect (H : HeapRep cfg h bins L) (S : L.Sound cfg) (hr : L.SlabIn q r)
    (hst : L.stage r = .unlisted) (hfree : ∀ {i s}, L.SlotIn q r i s → L.place s = .free) :
    Effect k X L.Busy h L (emptyColdPush cfg (dropLive h r) q r) (L.chill q r) := by
  obtain ⟨m', slabs', hheap, hpt, hk, -⟩ := emptyColdPush_eq H S hr hst hfree
  have hclient : ∀ {a n}, L.Client a n → (L.chill q r).Client a n := fun hc =>
    hc.congr rfl (fun hx => hx.restage hr.2 (by simp) rfl rfl) rfl
  have hslot : ∀ {i s}, (L.chill q r).SlotIn q r i s → L.SlotIn q r i s := fun hs => ⟨hr, hs.2⟩
  rw [hheap]
  refine ⟨fun a n hc _ => hclient hc, fun a n i hc _ hi => hk (hclient hc).unit ?_ hi,
    ⟨[.release (r.chunk / 4096 + r.page) (btmScRunPages q.sc)], rfl, ?_, fun _ _ hc => Or.inl hc⟩,
    le_refl _, fun _ _ _ _ => rfl,
    fun _ _ hR => hR.congr (fun _ => id) rfl, .refl, fun _ => Or.inl, rfl, rfl⟩
  · rintro ⟨j, hj⟩
    cases hc with
    | slot ho hs =>
      rw [hfree (hslot hj)] at ho
      cases ho
    | large hl => exact H.space.large_ne_slot S hl (hslot hj) rfl
  · obtain ⟨-, ht, h512⟩ := S.carving.slab_page hr
    refine ((S.releasedIn_slab hr (fun x hx => S.not_target hr hfree hx)).clear H.space S hr.holder_ne
      (by omega) rfl).mono (fun {a m} hb => ⟨hb.unit, ?_⟩)
    rintro ⟨j, hj⟩
    cases hb with
    | slot hp hs =>
      rw [hfree hj] at hp
      cases hp
    | large hl => exact H.space.large_ne_slot S hl hj rfl

end BtMalloc
