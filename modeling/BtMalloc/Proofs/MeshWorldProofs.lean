import BtMalloc.Proofs.CompactRunProofs
import BtMalloc.Proofs.DataRunProofs

/-!
# Proofs: the machine with compactions

`mesh_step` extends `world_step` to compactions whose donors have not lent their pages: objects keep their
bytes, and slots that fell out of use stay out of use.
-/

namespace BtMalloc

open LinkedList PagedMemory Word

variable {cfg : Config} {k : Kernel} {w w' : World} {L L' : Ledger} {q : PoolId} {r : SlabRef} {i p : ℕ}
  {act : Action} {pl : Placement}

/-! ## A step -/

/-- A slot on no freelist and in no bin that the client does not have: out of use since a mesh, or never
    taken back. -/
def World.Gone (w : World) (L : Ledger) (p : ℕ) : Prop :=
  L.place p = .void ∨ L.place p = .out ∧ w.live p = none

/-- A step kept the representation, and slots that were gone are gone. -/
structure MeshStepped (cfg : Config) (w : World) (L : Ledger) (act : Action) (w' : World) (L' : Ledger) :
    Prop where
  rep : WorldRep cfg w' L'
  gone : ∀ ⦃q r i p⦄, L.SlotIn q r i p → w.Gone L p → L'.SlotIn q r i p ∧ w'.Gone L' p
  ready : w.Roomy cfg act → L.Ready → L'.Ready
  named : (∀ i, act.kernel.leaf i = true) → AllNamed w.sys.heap.owners L → AllNamed w'.sys.heap.owners L'
  place : ∀ ⦃b hd⦄, L'.large b = some hd → L.large b ≠ none ∨ b % chunkSize = 0 ∨ act.remaps = some b
  /-- An object that the table knows is known as long as it is there. -/
  listed : ∀ ⦃a p n a' n'⦄, L.Owned a p n → L'.Owned a' p n' → btmRegistryLookup w.sys.heap p ≠ 0 →
    btmRegistryLookup w'.sys.heap p ≠ 0

theorem Stepped.mesh (W : WorldRep cfg w L) (D : Stepped cfg w L act w' L') : MeshStepped cfg w L act w' L' := by
  obtain ⟨X, Y, Z, tbl, n, O⟩ := D.done
  refine ⟨D.rep, fun q r i p hs hg => ?_, fun _ => O.tidy.ready, O.effect.allNamed, D.place,
    fun a p n a' n' ho ho' => O.effect.lookup_ne_zero rfl W.sys D.rep.sys ho ho'⟩
  rcases hg with hv | ⟨ho, hl⟩
  · obtain ⟨hs', hv'⟩ := O.tidy.lost hs hv
    exact ⟨hs', Or.inl hv'⟩
  · obtain ⟨hs', ho', hl'⟩ := D.leak hs ho hl
    exact ⟨hs', Or.inr ⟨ho', hl'⟩⟩

theorem MeshRun.sys {bg : BgPc} {s : Sys} {h : Heap} {T : SlabRef → Prop}
    (I : MeshRun cfg s.bins s.heap L T h L') (R : SysRep cfg s bg L) : SysRep cfg (s.setHeap h) bg L' := by
  refine ⟨I.sound, I.settled, I.rep, ?_, fun t => ?_, fun t i => ?_⟩
  · have hbg := R.bg
    show BgRep h.chunks L' bg
    rw [I.heap.chunks]
    unfold BgRep at hbg ⊢
    rw [I.frame.batch, I.frame.hand]
    exact hbg
  · have hT := R.thread t
    refine ⟨fun h1 h2 i => ?_, fun {n} h1 => ?_, hT.flushing, hT.part⟩
    · rw [I.frame.bin]
      exact hT.idle h1 h2 i
    · rw [I.frame.bin]
      exact hT.exiting h1
  · obtain ⟨h1, h2⟩ := R.rcache t i
    refine ⟨h1.trans_eq I.heap.registryGen.symm, fun e ho => ?_⟩
    show _ ∧ ownerAt h.owners _ = _
    rw [I.heap.owners]
    exact h2 (e.trans I.heap.registryGen) ho

theorem MeshRun.owned {h h' : Heap} {bins : ℕ → ℕ → Bin} {T : SlabRef → Prop}
    (I : MeshRun cfg bins h L T h' L') {a p n : ℕ} (ho : L.Owned a p n) : L'.Owned a p n := by
  cases ho with
  | slot h1 h2 h3 =>
    refine .slot ?_ ⟨I.slab.mpr h2.1, h2.2⟩ h3
    rw [I.voids.of_busy (by rw [h1]; rfl), h1]
  | large h1 h2 => exact .large (by rw [I.frame.large]; exact h1) h2

theorem MeshRun.named {h h' : Heap} {bins : ℕ → ℕ → Bin} {T : SlabRef → Prop}
    (I : MeshRun cfg bins h L T h' L') (N : AllNamed h.owners L) : AllNamed h'.owners L' := by
  rw [I.heap.owners]
  refine ⟨N.mapped, fun key hkey v hc => N.named hkey ?_⟩
  cases hc with
  | chunk h1 => exact .chunk (by rwa [I.frame.holder] at h1)
  | large h1 h2 h3 => exact .large (by rwa [I.frame.large] at h1) h2 h3

/-- A compaction moves objects between pages and changes no byte of theirs. -/
theorem compact_step (W : WorldRep cfg w L) (hun : DonorsUnlent cfg k w.sys.heap)
    (he : step cfg w (.compact k) = some w') : ∃ L', MeshStepped cfg w L (.compact k) w' L' := by
  cases he
  obtain ⟨T, L', I, hr⟩ := btmCompact_spec W.sys.rep W.sys.sound W.sys.settled hun
  refine ⟨L', ⟨I.sys W.sys, fun {p size} hp => ?_, fun {p size off b} hp hb => ?_⟩,
    fun q r i p hs hg => ⟨⟨I.slab.mpr hs.1, hs.2⟩, ?_⟩, hr, fun _ N => I.named N, fun b hd hb => ?_,
    fun a p n a' n' _ _ h0 => ?_⟩
  · obtain ⟨a, ho⟩ := W.live hp
    exact ⟨a, I.owned ho⟩
  · obtain ⟨h1, h2⟩ := W.shadow hp hb
    obtain ⟨a, ho⟩ := W.live hp
    obtain ⟨m, o, hc, rfl, hm⟩ := ho.client
    refine ⟨h1, ?_⟩
    have := I.bytes hc.busy id (i := o + off) (by omega)
    rw [← h2, Nat.add_assoc]
    exact this
  · rcases hg with hv | ⟨ho, hl⟩
    · rcases I.voids p with h1 | ⟨-, h1⟩
      · exact Or.inl (h1.trans hv)
      · exact Or.inl h1
    · exact Or.inr ⟨(I.voids.of_busy (by rw [ho]; rfl)).trans ho, hl⟩
  · rw [I.frame.large] at hb
    exact Or.inl (by simp [hb])
  · rw [btmRegistryLookup_eq] at h0 ⊢
    show ownerAt (btmCompact cfg k w.sys.heap).2.owners _ ≠ 0
    rwa [I.heap.owners]

theorem mesh_step (W : WorldRep cfg w L) (hA : L.Follows pl) (hok : w.Meshes cfg pl act)
    (he : step cfg w act = some w') : ∃ L', MeshStepped cfg w L act w' L' ∧ L'.Follows pl := by
  by_cases hc : ∃ k, act = .compact k
  · obtain ⟨k, rfl⟩ := hc
    obtain ⟨L', D⟩ := compact_step W (hok.unlent k rfl) he
    refine ⟨L', D, fun e b hd hb => ?_⟩
    rcases D.place hb with h | h | h
    · obtain ⟨hd', h⟩ := Option.ne_none_iff_exists'.mp h
      exact hA e h
    · exact h
    · cases h
  · obtain ⟨L', D⟩ := world_step W hA ⟨hok.fitting, hok.places, fun k e => hc ⟨k, e⟩⟩ he
    exact ⟨L', D.mesh W, D.follows hA hok.places⟩

theorem World.Regular.meshes (hok : w.Regular pl act) : w.Meshes cfg pl act ∧ w.Roomy cfg act := by
  refine ⟨⟨hok.fitting, hok.places, fun k e => absurd e (hok.uncompacted k)⟩, ?_⟩
  cases act with
  | compact k => exact absurd rfl (hok.uncompacted k)
  | _ => trivial

/-- Before the first mesh no slab has lent its pages. -/
theorem donorsUnlent_of_unmeshed (W : WorldRep cfg w L) (U : L.Unmeshed) :
    DonorsUnlent cfg k w.sys.heap := by
  intro R D hRD _
  have hself : ∀ x, L.target x = x := fun x => W.sys.sound.meshed.self (U.stage x)
  unfold compactTrace at hRD
  split at hRD
  next hm =>
    have hun : ∀ D, L.Unshown D := fun D q x _ hne e => hne ((hself x).symm.trans e)
    obtain ⟨-, -, -, hp, -⟩ := compactFrom_run cfg.poolIds poolIds_nodup hm
      (.refl W.sys.rep W.sys.sound W.sys.settled) (fun _ _ _ _ => id) (k := k) (n := 0) fun _ D _ _ => hun D
    obtain ⟨q, -, -, hD, -⟩ := hp R D hRD
    rintro ⟨q', x, hx, hne, e⟩
    have hx := (carved_iff W.sys.rep W.sys.sound).mp hx
    have h1 := (W.sys.sound.carving.row hx.1).pages_pos
    have h2 := (W.sys.sound.carving.row hD.1).pages_pos
    have h3 := W.sys.rep.frame.slab hm hx (j := 0) h1
    rw [Nat.add_zero, Nat.add_zero, hself x, e] at h3
    exact hne (W.sys.rep.frame.file_page_inj W.sys.sound.carving hm hx hD h1 h2
      (by rw [Nat.add_zero, Nat.add_zero]; exact (Frame.memfd.inj h3).symm)).2.1
  next => cases hRD

/-! ## Runs -/

theorem mesh_run {T : OwnerTable} {acts : List Action} (hT : T.Fresh)
    (hr : Transition.Run (step cfg) (World.Meshes cfg pl) (World.start T) acts w) :
    ∃ L, WorldRep cfg w L ∧ L.Follows pl := by
  refine hr.invariant (fun w => ∃ L, WorldRep cfg w L ∧ L.Follows pl) (fun w act w' hW hok he => ?_)
    ⟨_, worldRep_start hT, Ledger.empty_follows⟩
  obtain ⟨L, W, hA⟩ := hW
  obtain ⟨L', D, hA'⟩ := mesh_step W hA hok he
  exact ⟨L', D.rep, hA'⟩

/-- The slots in use are busy in the ledger. -/
theorem WorldRep.busy_of_inUse (W : WorldRep cfg w L) (hs : L.SlotIn q r i p) (hu : InUse cfg w p) :
    (L.place p).busy = true := by
  rcases hu with hc | hl
  · obtain ⟨t, j, hp⟩ := (slotCached_iff W).mp hc
    rw [hp]
    rfl
  · rw [W.live_out hs hl]
    rfl

theorem WorldRep.retired_iff (W : WorldRep cfg w L) (hr : L.SlabIn q r) :
    (w.sys.heap.slabs r).retired = true ↔ L.stage r = .retired := by
  rw [(W.sys.rep.desc q r hr).retired, decide_eq_true_eq]

theorem WorldRep.unaliased (W : WorldRep cfg w L) : Unaliased cfg w := by
  have A := W.sys.rep.apart W.sys.sound
  have unit : ∀ {q r i p}, L.SlotIn q r i p → InUse cfg w p → L.Unit p (btmScToSize q.sc) := by
    intro q r i p hs hu
    have hb := W.busy_of_inUse hs hu
    refine .slot (fun e => ?_) hs
    rw [e] at hb
    cases hb
  constructor
  · intro q r i p q' r' i' p' b b' hs hs' hu hu' hb hb' e
    exact A (unit ((slotOf_iff W).mp hs) hu) (unit ((slotOf_iff W).mp hs') hu') hb hb' e
  · intro q r i p q' r' i' p' b b' hs hs' hret hf hu hb hb' e
    have hs := (slotOf_iff W).mp hs
    have hs' := (slotOf_iff W).mp hs'
    have hst : L.stage r ≠ .retired := fun h => by simp [(W.retired_iff hs.1).mpr h] at hret
    have hp := (slotFree_iff W hst hs).mp hf
    obtain ⟨rfl, -⟩ := A (.slot (by simp [hp]) hs) (unit hs' hu) hb hb' e
    have hbusy := W.busy_of_inUse hs' hu
    rw [hp] at hbusy
    cases hbusy

/-- A slot of a carved slab is lost exactly if it is gone in the ledger. -/
theorem WorldRep.lost_iff (W : WorldRep cfg w L) (hs : L.SlotIn q r i p) :
    SlotLost cfg w r p ↔ w.Gone L p := by
  have hret := W.retired_iff hs.1
  constructor
  · rintro ⟨hu, hf⟩
    have hc : ∀ t j, L.place p ≠ .cached t j := fun t j e => hu (Or.inl ((slotCached_iff W).mpr ⟨t, j, e⟩))
    have hl : w.live p = none := by
      by_contra hl
      exact hu (Or.inr hl)
    have hfree : L.place p ≠ .free := by
      intro e
      have hst : L.stage r ≠ .retired := fun h => W.sys.sound.slots.retired hs h e
      exact hf.elim (fun h => hst (hret.mp h)) fun h => h ((slotFree_iff W hst hs).mpr e)
    cases hp : L.place p with
    | void => exact Or.inl hp
    | free => exact absurd hp hfree
    | cached t j => exact absurd hp (hc t j)
    | out => exact Or.inr ⟨hp, hl⟩
  · intro hg
    have hfree : L.place p ≠ .free := by
      rcases hg with e | ⟨e, -⟩ <;> simp [e]
    refine ⟨?_, ?_⟩
    · rintro (hc | hl)
      · obtain ⟨t, j, hp⟩ := (slotCached_iff W).mp hc
        rcases hg with e | ⟨e, -⟩ <;> rw [e] at hp <;> cases hp
      · rcases hg with e | ⟨-, e⟩
        · rw [W.live_out hs hl] at e
          cases e
        · exact hl e
    · by_cases hst : L.stage r = .retired
      · exact Or.inl (hret.mpr hst)
      · exact Or.inr fun h => hfree ((slotFree_iff W hst hs).mp h)

/-! ## What holds along runs -/

/-- Slots of slabs of class 35 in the chunk at 4 MiB, by slab and index. -/
def slot35 (x : ℕ × ℕ) : ℕ := 4194304 + (7 + 32 * x.1) * 4096 + x.2 * 16384

/-- Free slots, with the iterations of a flush to follow. -/
def freeSlots35 (l : List (ℕ × ℕ)) (n : ℕ) : List Call :=
  l.map (fun x => .free (slot35 x)) ++ List.replicate n .flush

/-- The calls as steps, on a kernel that grants everything. -/
def Call.steps (cs : List Call) : List Action := cs.map (Call.action (Kernel.grant 4194304))

/-- The owner of a slot of the sparser slab stores into it. -/
def storedPair : List Action := sparsePair ++ [.write (slot35 (0, 0)) 5 77]

def storedPairWorld : World := Transition.finish (step Config.mesh) World.init storedPair

theorem storedPair_small : ∀ act ∈ storedPair, act.small = true :=
  List.all_eq_true.mp (by decide +kernel : storedPair.all Action.small = true)

set_option maxRecDepth 100000 in
theorem storedPair_run (pl : Placement) :
    Transition.Run (step Config.mesh) (World.Regular pl) World.init storedPair storedPairWorld :=
  Transition.run_of_forall
    (Transition.exec_eq_finish
      (by decide +kernel : (Transition.exec (step Config.mesh) World.init storedPair).isSome = true))
    fun act ha _ => Action.small_regular (storedPair_small act ha)

/-- A compaction meshes the two sparse slabs. -/
def meshedPairWorld : World :=
  storedPairWorld.setSys
    (storedPairWorld.sys.setHeap (btmCompact Config.mesh (Kernel.grant 4194304) storedPairWorld.sys.heap).2)

set_option maxRecDepth 100000 in
/-- The first compaction of a run meets the conditions on donors, and here the recipient keeps two slots. -/
theorem meshedPair_run (pl : Placement) : Transition.Run (step Config.mesh)
    (fun w act => w.Meshes Config.mesh pl act ∧ w.Roomy Config.mesh act) World.init
    (storedPair ++ [.compact (Kernel.grant 4194304)]) meshedPairWorld := by
  obtain ⟨L, W, -, P⟩ := world_run (storedPair_run pl)
  refine ((storedPair_run pl).mono fun _ _ => World.Regular.meshes).snoc ⟨⟨trivial, trivial, fun k hk => ?_⟩, ?_⟩ rfl
  · cases hk
    exact donorsUnlent_of_unmeshed W P.unmeshed
  · unfold World.Roomy
    decide +kernel

/-- Along every run in which no donor of a compaction has lent its pages and no size wraps, objects read
    back what their owners stored last. -/
theorem compact_keeps_contents {acts : List Action}
    (hr : Transition.Run (step cfg) (World.Meshes cfg pl) World.init acts w) : ReadsBack w := by
  obtain ⟨L, W, -⟩ := mesh_run OwnerTable.fresh_radix hr
  exact fun _ _ _ _ => W.shadow

set_option maxRecDepth 100000 in
/-- The page of the byte that was stored is one that the compaction moved. -/
theorem compact_keeps_meshed_pair :
    meshedPairWorld.live (slot35 (0, 0)) = some 16384 ∧ meshedPairWorld.shadow (slot35 (0, 0)) 5 = some 77 ∧
      meshedPairWorld.sys.heap.mem.pt (slot35 (0, 0) / 4096) ≠ storedPairWorld.sys.heap.mem.pt (slot35 (0, 0) / 4096) ∧
      meshedPairWorld.sys.heap.mem.read (slot35 (0, 0) + 5) = 77 := by
  have hfacts : meshedPairWorld.live (slot35 (0, 0)) = some 16384 ∧
      meshedPairWorld.shadow (slot35 (0, 0)) 5 = some 77 ∧
      meshedPairWorld.sys.heap.mem.pt (slot35 (0, 0) / 4096) ≠
        storedPairWorld.sys.heap.mem.pt (slot35 (0, 0) / 4096) := by decide +kernel
  obtain ⟨h1, h2, h3⟩ := hfacts
  exact ⟨h1, h2, h3, (compact_keeps_contents ((meshedPair_run .aligned).mono fun _ _ h => h.1) _ _ _ _ h1 h2).2⟩

/-- Of the first slab the slots 0 to 2 stay, of the second the slots 3 to 5; four of the last are cached. -/
def thinOut : List Call :=
  freeSlots35 [(3, 0), (3, 1), (3, 2), (3, 3)] 0 ++ freeSlots35 [(0, 3), (0, 4), (0, 5), (0, 6), (0, 7)] 6 ++
    freeSlots35 [(1, 0), (1, 1), (1, 2), (1, 6), (1, 7)] 6

/-- Then none of the second stay, and slot 3 of the third. -/
def thinOutAgain : List Call :=
  freeSlots35 [(1, 3), (1, 4), (1, 5), (2, 0), (2, 1)] 6 ++ freeSlots35 [(2, 2), (2, 4), (2, 5), (2, 6), (2, 7)] 6

/-- The first slab is meshed into the second. The second is thinned out and meshed into the third, which
    drops the pages that the first slab shows. -/
def meshedAgain : List Action :=
  Call.steps (List.replicate 32 (.malloc 16384)) ++ [.write (slot35 (0, 0)) 5 77] ++
    Call.steps thinOut ++ [.compact (Kernel.grant 4194304)] ++
    Call.steps thinOutAgain ++ [.compact (Kernel.grant 4194304)]

def meshedAgainWorld : World := Transition.finish (step Config.mesh) World.init meshedAgain

set_option maxRecDepth 100000 in
theorem compact_loses_lent : Transition.exec (step Config.mesh) World.init meshedAgain = some meshedAgainWorld ∧
    ¬ ReadsBack meshedAgainWorld := by
  have hrun : (Transition.exec (step Config.mesh) World.init meshedAgain).isSome = true ∧
      meshedAgainWorld.live (slot35 (0, 0)) = some 16384 ∧ meshedAgainWorld.shadow (slot35 (0, 0)) 5 = some 77 ∧
      meshedAgainWorld.sys.heap.mem.read (slot35 (0, 0) + 5) = 0 := by decide +kernel
  obtain ⟨he, h1, h2, h3⟩ := hrun
  refine ⟨Transition.exec_eq_finish he, fun h => ?_⟩
  have h4 := (h _ _ _ _ h1 h2).2
  rw [h3] at h4
  cases h4

/-- Along the same runs no two slots in use share a byte, no free slot has a byte of a slot in use, and a
    slot that was lost is lost for good. -/
theorem mesh_unaliased {acts : List Action}
    (hr : Transition.Run (step cfg) (World.Meshes cfg pl) World.init acts w) :
    Unaliased cfg w ∧ ∀ act w', w.Meshes cfg pl act → step cfg w act = some w' →
      ∀ q r i p, SlotOf w.sys.heap q r i p → SlotLost cfg w r p →
        SlotOf w'.sys.heap q r i p ∧ SlotLost cfg w' r p := by
  obtain ⟨L, W, hA⟩ := mesh_run OwnerTable.fresh_radix hr
  refine ⟨W.unaliased, fun act w' hok he q r i p hs hlost => ?_⟩
  obtain ⟨L', D, -⟩ := mesh_step W hA hok he
  have hs := (slotOf_iff W).mp hs
  obtain ⟨hs', hg⟩ := D.gone hs ((W.lost_iff hs).mp hlost)
  exact ⟨(slotOf_iff D.rep).mpr hs', (D.rep.lost_iff hs').mpr hg⟩

theorem mesh_unaliased_meshed_pair : Unaliased Config.mesh meshedPairWorld :=
  (mesh_unaliased ((meshedPair_run .aligned).mono fun _ _ h => h.1)).1

/-- A key under which a zeroed link in slot 0 of the first slab reads as slot 3 of the third. -/
def Config.keyed : Config :=
  { Config.mesh with
    hardening := true
    flKey := slot35 (2, 3) ^^^ (slot35 (0, 0) >>> 12)
    flKey_lt := by decide
    flKey_odd := by decide }

/-- The pages that the first slab shows are dropped while one of its slots is cached; the flush of the bin
    then follows the link that was in it. -/
def meshedCached : List Action :=
  Call.steps (List.replicate 32 (.malloc 16384) ++ thinOut) ++ [.compact (Kernel.grant 4194304)] ++
    Call.steps (thinOutAgain ++ freeSlots35 [(3, 4), (3, 5), (3, 6), (0, 0)] 0) ++
    [.compact (Kernel.grant 4194304)] ++ Call.steps (freeSlots35 [(3, 7)] 3)

def meshedCachedWorld : World := Transition.finish (step Config.keyed) World.init meshedCached

set_option maxRecDepth 100000 in
theorem mesh_aliases_lent : Transition.exec (step Config.keyed) World.init meshedCached = some meshedCachedWorld ∧
    ¬ Unaliased Config.keyed meshedCachedWorld := by
  have hrun : (Transition.exec (step Config.keyed) World.init meshedCached).isSome = true ∧
      SlotOf meshedCachedWorld.sys.heap ⟨0, 35⟩ ⟨4194304, 71⟩ 3 (slot35 (2, 3)) ∧
      (meshedCachedWorld.sys.heap.slabs ⟨4194304, 71⟩).retired = false ∧
      slot35 (2, 3) ∈ freeSlots Config.keyed meshedCachedWorld.sys.heap ⟨4194304, 71⟩ ∧
      meshedCachedWorld.live (slot35 (2, 3)) ≠ none := by decide +kernel
  obtain ⟨he, hs, h1, h2, h3⟩ := hrun
  refine ⟨Transition.exec_eq_finish he, fun h => ?_⟩
  have h0 : 0 < btmScToSize 35 := by decide
  exact h.free hs hs h1 (Or.inr h2) (Or.inr h3) h0 h0 rfl

theorem ready_run {acts : List Action}
    (hr : Transition.Run (step cfg) (fun w act => w.Meshes cfg pl act ∧ w.Roomy cfg act) World.init acts w) :
    ∃ L, WorldRep cfg w L ∧ L.Follows pl ∧ L.Ready := by
  refine hr.invariant (fun w => ∃ L, WorldRep cfg w L ∧ L.Follows pl ∧ L.Ready) (fun w act w' hW hok he => ?_)
    ⟨_, worldRep_init, Ledger.empty_follows, Ledger.empty_ready⟩
  obtain ⟨L, W, hA, hR⟩ := hW
  obtain ⟨L', D, hA'⟩ := mesh_step W hA hok.1 he
  exact ⟨L', D.rep, hA', D.ready hok.2 hR⟩

/-- Along every run in which moreover every recipient keeps a free slot, the slabs on the partial lists
    have free slots, and a small request fails only if the kernel refuses what it needs. -/
theorem malloc_null_refused {acts : List Action}
    (hr : Transition.Run (step cfg) (fun w act => w.Meshes cfg pl act ∧ w.Roomy cfg act) World.init acts w) :
    (∀ q r, r ∈ partialSlabs w.sys.heap q → freeSlots cfg w.sys.heap r ≠ []) ∧
      ∀ k t size ra sc s, (w.sys.threads t).pc = .idle → size < 2 ^ 64 → btmSizeToSc size = some sc →
        btmMallocAt cfg k t size ra w.sys = .ok (0, s) → SmallRefused cfg k t ra w.sys sc := by
  obtain ⟨L, W, -, hR⟩ := ready_run hr
  constructor
  · intro q r hmem
    rw [partialSlabs_eq W.sys.rep W.sys.sound] at hmem
    obtain ⟨h1, h2⟩ := (W.sys.sound.lists.partials q).mem_iff.mp hmem
    rw [freeSlots_eq W (q := q) ⟨h1, by simp [h2]⟩ (by rw [h2]; rfl)]
    exact hR h2
  · intro k t size ra sc s hpc hsize hc he
    obtain ⟨a, p, s', L', hm, -, hnull⟩ := btmMallocAt_spec k ra W.sys hpc hsize
      (fun h => absurd (hc.symm.trans h) (by simp)) fun h => absurd (hc.symm.trans h) (by simp)
    rw [he] at hm
    exact hnull (congrArg Prod.fst (Except.ok.inj hm)).symm hR sc hc

set_option maxRecDepth 100000 in
/-- The recipient of the pair is on the partial list of its pool. -/
theorem malloc_null_meshed_pair : ⟨4194304, 39⟩ ∈ partialSlabs meshedPairWorld.sys.heap ⟨0, 35⟩ ∧
    freeSlots Config.mesh meshedPairWorld.sys.heap ⟨4194304, 39⟩ ≠ [] := by
  have hmem : ⟨4194304, 39⟩ ∈ partialSlabs meshedPairWorld.sys.heap ⟨0, 35⟩ := by decide +kernel
  exact ⟨hmem, (malloc_null_refused (meshedPair_run .aligned)).1 _ _ hmem⟩

/-- Slots 0 to 3 of one slab and 4 to 7 of another: the mesh fills its recipient, which stays on the
    partial list. The cached slots and those of a third slab are used up. -/
def meshedFull : List Action :=
  Call.steps (List.replicate 24 (.malloc 16384) ++ freeSlots35 [(2, 0), (2, 1), (2, 2), (2, 3)] 0 ++
      freeSlots35 [(0, 4), (0, 5), (0, 6), (0, 7), (1, 0)] 6 ++
      freeSlots35 [(1, 1), (1, 2), (1, 3), (2, 4), (2, 5)] 6) ++ [.compact (Kernel.grant 4194304)] ++
    Call.steps (List.replicate 6 (.malloc 16384))

def meshedFullWorld : World := Transition.finish (step Config.mesh) World.init meshedFull

set_option maxRecDepth 100000 in
/-- The next request gets nothing, though the thread has its cache and the pool needs no chunk. -/
theorem malloc_null_full_recipient :
    Transition.exec (step Config.mesh) World.init meshedFull = some meshedFullWorld ∧
      (∃ s, btmMallocAt Config.mesh (Kernel.grant 4194304) 0 16384 4096 meshedFullWorld.sys = .ok (0, s)) ∧
      (meshedFullWorld.sys.threads 0).tls = true ∧ wantsChunk meshedFullWorld.sys.heap ⟨0, 35⟩ = false := by
  have hrun : (Transition.exec (step Config.mesh) World.init meshedFull).isSome = true ∧
      (btmMallocAt Config.mesh (Kernel.grant 4194304) 0 16384 4096 meshedFullWorld.sys).toOption.map Prod.fst =
        some 0 ∧
      (meshedFullWorld.sys.threads 0).tls = true ∧ wantsChunk meshedFullWorld.sys.heap ⟨0, 35⟩ = false := by
    decide +kernel
  obtain ⟨he, h, hfacts⟩ := hrun
  refine ⟨Transition.exec_eq_finish he, ?_, hfacts⟩
  cases he : btmMallocAt Config.mesh (Kernel.grant 4194304) 0 16384 4096 meshedFullWorld.sys with
  | error e =>
    rw [he] at h
    cases h
  | ok x =>
    rw [he] at h
    obtain ⟨p, s⟩ := x
    obtain rfl : p = 0 := Option.some.inj h
    exact ⟨s, rfl⟩

end BtMalloc
