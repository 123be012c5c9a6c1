import BtMalloc.Ownership
import BtMalloc.Proofs.MeshWorldProofs

/-!
# Proofs: which pointers resolve

The objects of the client are found as long as the table has an owner for each pointer that a call returns,
and that is so if the arrays of the table can be mapped.
-/

namespace BtMalloc

open LinkedList PagedMemory Word

variable {cfg : Config} {k : Kernel} {w w' : World} {L L' : Ledger} {s s' : Sys} {bg bg' : BgPc}
  {a p q t n size ra : ℕ} {act : Action} {pl : Placement} {fl : Option (ℕ × ℕ)} {T : OwnerTable}

/-! ## An object that the table knows -/

theorem SysRep.usable_le (R : SysRep cfg s bg L) (ho : L.Owned a p n) (h0 : btmRegistryLookup s.heap p ≠ 0) :
    Usable s p n := by
  obtain ⟨u, -, hmax, hu⟩ := R.usable ho h0
  exact fun t => ⟨u, hu t, hmax ho⟩

/-- The owner word of an object is its own. -/
theorem WorldRep.ownerWord (W : WorldRep cfg w L) (ho : L.Owned a p n)
    (h0 : btmRegistryLookup w.sys.heap p ≠ 0) : OwnerWord w.sys.heap p (btmRegistryLookup w.sys.heap p) := by
  rcases W.sys.lookup_word ho h0 with ⟨q, r, i, hs, -, e⟩ | ⟨hd, hl, hp, e⟩
  · rw [e]
    exact .chunk ((slotOf_iff W).mpr hs)
  · have ok := W.sys.rep.space.large hl
    have hhd := W.sys.rep.space.header hl
    rw [e]
    exact .large ok.base_mod (by rw [hhd, hp]) fun j hj => ok.mapped (by rwa [hhd] at hj)

/-! ## Releasing and resizing it -/

theorem startFlush_heap : (s.startFlush t fl).heap = s.heap := by
  cases fl <;> rfl

theorem startFlush_bins (i : ℕ) : ((s.startFlush t fl).threads t).bins i = (s.threads t).bins i := by
  cases fl with
  | none => rfl
  | some x => simp only [Sys.startFlush, Sys.setPc, Sys.modThread, Function.update_self]

/-- Storage that was given back stays so while a flush is still to come. -/
theorem GaveBack.startFlush {h : Heap} (G : GaveBack cfg k t h p s) : GaveBack cfg k t h p (s.startFlush t fl) := by
  cases G with
  | bin i hi => exact .bin i (by rw [startFlush_bins, hi])
  | slab r h1 h2 => exact .slab r h1 (by rw [startFlush_heap, h2])
  | unmap b h1 h2 h3 => exact .unmap b h1 h2 fun j hj => by rw [startFlush_heap, h3 j hj]

theorem WorldRep.release (W : WorldRep cfg w L) (hl : w.live p = some size) (ho : L.Owned a p size)
    (h0 : btmRegistryLookup w.sys.heap p ≠ 0) (hpc : (w.sys.threads t).pc = .idle) :
    (∃ w', step cfg w (.free t p k) = some w' ∧ GaveBack cfg k t w.sys.heap p w'.sys) ∨
      canarySet cfg w.sys.heap p = true := by
  rcases btmFreeHead_spec k W.sys hpc ho with ⟨fl, s', L', hf, D⟩ | ⟨-, hcan⟩
  · obtain ⟨-, hgave⟩ := D.back.resolve_right fun h => h0 h.1
    refine Or.inl ⟨(w.take p).setSys (s'.startFlush t fl), ?_, hgave.startFlush⟩
    simp only [step]
    rw [if_pos ⟨hpc, by rw [hl]; rfl⟩, hf]
  · exact Or.inr hcan

theorem WorldRep.resize (W : WorldRep cfg w L) (hA : L.Follows pl) (hl : w.live p = some size)
    (ho : L.Owned a p size) (h0 : btmRegistryLookup w.sys.heap p ≠ 0) (hpc : (w.sys.threads t).pc = .idle)
    (hpos : 0 < n) (hn : n < 2 ^ 64) (hf : Resizes k w.sys.heap p n)
    (hpl : w.Places pl (.realloc t p n ra k)) :
    (∃ w', step cfg w (.realloc t p n ra k) = some w' ∧ Resizing cfg k t ra w p n w') ∨
      canarySet cfg w.sys.heap p = true := by
  rcases btmReallocHead_spec k ra W.sys hpc ho hpos hn hf (W.sys.retakes hA hpos hf hpl.1 hpl.2) with
    ⟨q, fl, s', L', hr, D⟩ | ⟨-, hcan⟩
  · refine Or.inl ⟨(w.resize p q n).setSys (s'.startFlush t fl), ?_, ?_⟩
    · simp only [step]
      rw [if_pos ⟨hpc, by rw [hl]; rfl, hn⟩, hr]
    · rcases D with ⟨rfl, rfl, hwhy, hstay, hback⟩ | ⟨hq, a', D⟩
      · refine .refused (hwhy.resolve_left h0) (by rw [World.resize, if_neg (by omega), if_pos rfl]; rfl) ?_
        exact W.sys.unchanged_of_stay ho h0 hstay hback
      · have W' := (W.resized (.realloc t p n ra k) hl ho D fun _ => id).rep
        have e : (w.resize p q n).setSys (s'.startFlush t fl) = w.renew p q n (s'.startFlush t fl) := by
          rw [World.resize, if_neg (by omega), if_neg hq]
          rfl
        rw [e]
        have hheap : (w.renew p q n (s'.startFlush t fl)).sys.heap = s'.heap := startFlush_heap
        refine .done q rfl (W'.extent D.own) ?_ ?_
        · intro t' m i hm hi
          obtain ⟨u, hou, -, hu⟩ := W.sys.usable ho h0
          obtain rfl : m = u := Except.ok.inj (hm.symm.trans (hu t'))
          rw [hheap]
          exact D.bytes hou i hi
        · rcases D.back with ⟨-, e1⟩ | ⟨-, s1, U, hgave⟩
          · exact Or.inl e1
          · exact Or.inr ⟨s1, U, hgave.startFlush⟩
  · exact Or.inr hcan

theorem WorldRep.found (W : WorldRep cfg w L) (hA : L.Follows pl) (hl : w.live p = some size)
    (h0 : btmRegistryLookup w.sys.heap p ≠ 0) : Found cfg pl w p size := by
  obtain ⟨a, ho⟩ := W.live hl
  obtain ⟨v, ha, -, -⟩ := W.sys.owner_word ho
  have hlt := ha.lt
  exact ⟨⟨h0, W.ownerWord ho h0⟩, fun t => (btmResolveOwner_spec t W.sys (by omega)).1, W.sys.usable_le ho h0,
    fun t k hpc => W.release hl ho h0 hpc,
    fun t n ra k hpc hpos hn hf hpl => W.resize hA hl ho h0 hpc hpos hn hf hpl⟩

/-! ## Runs -/

/-- The table has an owner for every object of the client. -/
def World.Listed (w : World) : Prop := ∀ ⦃p size⦄, w.live p = some size → btmRegistryLookup w.sys.heap p ≠ 0

theorem give_live (hp : p ≠ 0) : ((w.setSys s').give p size).live = Function.update w.live p (some size) := by
  rw [World.give, if_neg hp]
  rfl

theorem give_sys : ((w.setSys s').give p size).sys = s' := by
  unfold World.give
  split <;> rfl

theorem resize_live (hn : 0 < n) (hq : q ≠ 0) :
    (w.resize p q n).live = Function.update (Function.update w.live p none) q (some n) := by
  rw [World.resize, if_neg (by omega), if_neg hq]

/-- The client has what a step returned. -/
theorem Returned.live {h : Heap} (hr : Returned cfg w q h act) (he : step cfg w act = some w') :
    h = w'.sys.heap ∧ ∃ size, w'.live q = some size := by
  cases hr with
  | alloc hrun hq hh =>
    simp only [step] at he
    split at he
    next =>
      rw [hrun] at he
      cases he
      rw [give_sys, give_live hq, Function.update_self]
      exact ⟨hh, _, rfl⟩
    next => cases he
  | @realloc t p size ra k fl s hn hrun hq hh =>
    simp only [step] at he
    split at he
    next =>
      rw [hrun] at he
      cases he
      refine ⟨hh.trans startFlush_heap.symm, size, ?_⟩
      show (w.resize p q size).live q = some size
      rw [resize_live hn hq, Function.update_self]
    next => cases he

/-- What the machine keeps while every pointer is registered. -/
def Registered (cfg : Config) (pl : Placement) (w : World) : Prop :=
  w.Listed ∧ ∃ L, WorldRep cfg w L ∧ L.Follows pl

theorem Registered.start (hT : T.Fresh) : Registered cfg pl (World.start T) :=
  ⟨fun _ _ h => (by cases h), _, worldRep_start hT, Ledger.empty_follows⟩

theorem Registered.found (I : Registered cfg pl w) : w.AllFound cfg pl := by
  obtain ⟨hlist, L, W, hA⟩ := I
  exact fun p size hl => W.found hA hl (hlist hl)

/-- With a table whose arrays can be mapped, every step registers what it returns, and the table names every
    owner. -/
theorem registers_run {acts : List Action} (hT : T.Fresh) (hM : T.Mapped)
    (hr : Transition.Run (step cfg) (fun w act => w.Meshes cfg pl act ∧ ∀ i, act.kernel.leaf i = true)
      (World.start T) acts w) :
    Transition.Run (step cfg) (World.Resolving cfg pl) (World.start T) acts w ∧
      ∃ L, WorldRep cfg w L ∧ L.Follows pl ∧ AllNamed w.sys.heap.owners L := by
  refine hr.strengthen (fun w => ∃ L, WorldRep cfg w L ∧ L.Follows pl ∧ AllNamed w.sys.heap.owners L)
    (fun w act w' hW hok he => ?_) ⟨_, worldRep_start hT, Ledger.empty_follows, allNamed_empty hM⟩
  obtain ⟨L, W, hA, N⟩ := hW
  obtain ⟨L', D, hA'⟩ := mesh_step W hA hok.1 he
  have N' := D.named hok.2 N
  refine ⟨⟨hok.1, fun q h hret => ?_⟩, L', D.rep, hA', N'⟩
  obtain ⟨rfl, size, hl⟩ := hret.live he
  obtain ⟨a, ho⟩ := D.rep.live hl
  exact D.rep.sys.lookup_ne_zero ho N'

theorem SysRep.inside_at {i : ℕ} (R : SysRep cfg s bg L) (ho : L.Owned a p n) (hi : i < n) :
    ∃ v, L.At p v ∧ L.At (p + i) v := by
  cases ho with
  | @slot q r j _ _ _ hs hle =>
    have pos := R.sound.carving.slotPos hs
    have ha := R.slot_at hs
    have h1 := ha.pos
    have h2 := pos.hi
    have h3 := pos.page_le
    have h4 := pos.chunk_le
    exact ⟨_, ha, by omega, by omega, pos.covers hs.1 (by omega)⟩
  | @large _ _ hd hl hle =>
    have ok := R.rep.space.large hl
    have ha := R.large_at hl
    have h1 := ha.pos
    have h2 := ok.le
    have hc := ok.covers hl (i := hd.userOff + i) (by omega)
    rw [← Nat.add_assoc] at hc
    exact ⟨_, ha, by omega, by omega, hc⟩

/-- If the table names every owner, it tells objects apart. -/
theorem WorldRep.ownersExact (W : WorldRep cfg w L) (N : AllNamed w.sys.heap.owners L) : w.OwnersExact := by
  have h0 : ∀ {p size}, w.live p = some size → btmRegistryLookup w.sys.heap p ≠ 0 := by
    intro p size hl
    obtain ⟨a, ho⟩ := W.live hl
    exact W.sys.lookup_ne_zero ho N
  refine ⟨fun p size hl => ?_, fun p size t n i hl hn hi => ?_, fun p size hl => ?_, fun p p' size size' hl hl' hne e => ?_⟩
  · obtain ⟨a, ho⟩ := W.live hl
    exact ⟨h0 hl, W.ownerWord ho (h0 hl)⟩
  · obtain ⟨a, ho⟩ := W.live hl
    obtain ⟨u, hou, -, hu⟩ := W.sys.usable ho (h0 hl)
    obtain rfl : n = u := Except.ok.inj (hn.symm.trans (hu t))
    obtain ⟨v, ha, ha'⟩ := W.sys.inside_at hou hi
    rw [N.lookup ha, N.lookup ha']
  · obtain ⟨a, ho⟩ := W.live hl
    exact W.sys.usable_le ho (h0 hl)
  · obtain ⟨a, ho⟩ := W.live hl
    obtain ⟨a', ho'⟩ := W.live hl'
    have hodd : ∀ {r : SlabRef} {q i x b}, L.SlotIn q r i x → b % 2 = 0 → r.chunk ≠ b ||| 1 := by
      intro r q i x b hs hb e
      have := (W.sys.sound.carving.slotPos hs).chunk_mod
      rw [or_one_of_even hb] at e
      omega
    rcases W.sys.lookup_word ho (h0 hl) with ⟨q, r, i, hs, -, e1⟩ | ⟨hd, hlg, -, e1⟩
    · rcases W.sys.lookup_word ho' (h0 hl') with ⟨q', r', i', hs', -, e2⟩ | ⟨hd', hlg', -, e2⟩
      · exact ⟨q, r, i, q', r', i', (slotOf_iff W).mpr hs, (slotOf_iff W).mpr hs', by rw [← e1, ← e2, e]⟩
      · exact absurd (by rw [← e1, ← e2, e]) (hodd hs (W.sys.rep.space.large hlg').even)
    · have hev := (W.sys.rep.space.large hlg).even
      rcases W.sys.lookup_word ho' (h0 hl') with ⟨q', r', i', hs', -, e2⟩ | ⟨hd', hlg', -, e2⟩
      · exact absurd (by rw [← e1, ← e2, e]) (hodd hs' hev)
      · have hev' := (W.sys.rep.space.large hlg').even
        rw [e1, e2, or_one_of_even hev, or_one_of_even hev'] at e
        obtain rfl : a' = a := by omega
        exact absurd (ho'.inj ho W.sys.sound W.sys.rep.space) hne

/-- Along every run on a kernel that keeps to a placement and can map the arrays of the table, in which no size
    wraps and no donor of a compaction has lent its pages, owner resolution is exact. -/
theorem owners_exact {acts : List Action} (hT : T.Fresh) (hM : T.Mapped)
    (hr : Transition.Run (step cfg) (fun w act => w.Meshes cfg pl act ∧ ∀ i, act.kernel.leaf i = true)
      (World.start T) acts w) : w.OwnersExact := by
  obtain ⟨-, L, W, -, N⟩ := registers_run hT hM hr
  exact W.ownersExact N

/-! ## Two large objects -/

/-- A call that was evaluated to a value of what it returns. -/
theorem ok_of_map {α β : Type} {x : Except Trap α} {f : α → β} {b : β} (h : x.toOption.map f = some b) :
    ∃ a, x = .ok a ∧ f a = b := by
  cases x with
  | error e => cases h
  | ok a => exact ⟨a, rfl, Option.some.inj h⟩

/-- `btm_malloc(20000)`, for which the kernel has room at 4 MiB. -/
def oneLarge : List Action := [.malloc 0 20000 4096 { Kernel.plain with large := some 4194304 }]

def oneLargeWorld : World := Transition.finish (step Config.plain) World.init oneLarge

theorem fits_20000 : Fits 20000 btmAlignment := by
  unfold Fits
  decide

theorem meshes_20000 : w.Meshes Config.plain .aligned (.malloc 0 20000 4096 k) := by
  refine ⟨fun size alignment h => ?_, fun h => ?_, fun k h => ?_⟩
  · obtain ⟨rfl, rfl⟩ : 20000 = size ∧ btmAlignment = alignment := by
      have hl : (Alloc.malloc 20000).large = some (20000, btmAlignment) := by decide +kernel
      rw [hl] at h
      exact ⟨congrArg Prod.fst (Option.some.inj h), congrArg Prod.snd (Option.some.inj h)⟩
    exact Or.inl fits_20000
  · cases h
  · cases h

theorem oneLarge_run : Transition.Run (step Config.plain)
    (fun w act => w.Meshes Config.plain .aligned act ∧ ∀ i, act.kernel.leaf i = true) World.init oneLarge
    oneLargeWorld := by
  refine Transition.run_of_forall (Transition.exec_eq_finish (by decide +kernel)) fun act ha w => ?_
  obtain rfl := List.mem_singleton.mp ha
  exact ⟨meshes_20000, fun _ => rfl⟩

/-- Then `btm_realloc` of it to 3 MiB, which `mremap` moves to 8 MiB. -/
def oneGrown : Action := .realloc 0 4194336 3145728 4096 { Kernel.plain with mremap := some 8388608 }

def oneGrownWorld : World := Transition.finish (step Config.plain) oneLargeWorld [oneGrown]

theorem oneGrown_run : Transition.Run (step Config.plain)
    (fun w act => w.Meshes Config.plain .aligned act ∧ ∀ i, act.kernel.leaf i = true) World.init
    (oneLarge ++ [oneGrown]) oneGrownWorld := by
  have hown : largeOwner oneLargeWorld.sys.heap 4194336 = some 4194304 := by decide +kernel
  have hoff : (oneLargeWorld.sys.heap.larges 4194304).userOff = 32 := by decide +kernel
  have hstep : step Config.plain oneLargeWorld oneGrown = some oneGrownWorld :=
    Transition.step_eq_finish (by decide +kernel)
  refine oneLarge_run.snoc ⟨⟨⟨fun h => ?_, fun b hb _ => Or.inl ?_⟩, ⟨fun _ nb h => ?_, fun h => ?_⟩,
    fun k h => ?_⟩, fun _ => rfl⟩ hstep
  · rw [hown] at h
    cases h
  · rw [hown] at hb
    cases hb
    rw [hoff]
    decide
  · cases h
    decide
  · cases h
  · cases h

/-- Then a second object where the first one was. -/
def twoLarge : Action := .malloc 0 20000 4096 { Kernel.plain with large := some 4194304 }

def twoLargeWorld : World := Transition.finish (step Config.plain) oneGrownWorld [twoLarge]

theorem owners_exact_two_large : twoLargeWorld.live 8388640 = some 3145728 ∧
    twoLargeWorld.live 4194336 = some 20000 ∧ twoLargeWorld.OwnersExact := by
  have hstep : step Config.plain oneGrownWorld twoLarge = some twoLargeWorld :=
    Transition.step_eq_finish (by decide +kernel)
  exact ⟨by decide +kernel, by decide +kernel,
    owners_exact OwnerTable.fresh_radix trivial (oneGrown_run.snoc ⟨meshes_20000, fun _ => rfl⟩ hstep)⟩

/-- `btm_malloc(20000)` at 4 MiB and at 8 MiB; then the second object grows and `mremap` moves it to 5 MiB, where
    nothing is mapped. -/
def sharedRegion : List Action :=
  oneLarge ++ [.malloc 0 20000 4096 { Kernel.plain with large := some 8388608 },
    .realloc 0 8388640 40000 4096 { Kernel.plain with mremap := some 5242880 }]

def sharedRegionWorld : World := Transition.finish (step Config.plain) World.init sharedRegion

/-- The first object now resolves to the second: `btm_free` of the first unmaps the second. -/
theorem owners_exact_shared :
    Transition.exec (step Config.plain) World.init sharedRegion = some sharedRegionWorld ∧
      sharedRegionWorld.live 4194336 = some 20000 ∧ sharedRegionWorld.live 5242912 = some 40000 ∧
      btmRegistryLookup sharedRegionWorld.sys.heap 4194336 = 5242880 ||| 1 ∧
      ∃ s, btmFree Config.plain Kernel.plain 0 4194336 sharedRegionWorld.sys = .ok s ∧
        s.heap.mapped (4194336 / pageSize) = true ∧ s.heap.mapped (5242912 / pageSize) = false := by
  have hrun : (Transition.exec (step Config.plain) World.init sharedRegion).isSome = true ∧
      sharedRegionWorld.live 4194336 = some 20000 ∧ sharedRegionWorld.live 5242912 = some 40000 ∧
      btmRegistryLookup sharedRegionWorld.sys.heap 4194336 = 5242880 ||| 1 ∧
      (btmFree Config.plain Kernel.plain 0 4194336 sharedRegionWorld.sys).toOption.map
        (fun s => (s.heap.mapped (4194336 / pageSize), s.heap.mapped (5242912 / pageSize))) =
          some (true, false) := by decide +kernel
  obtain ⟨he, h1, h2, h3, h4⟩ := hrun
  obtain ⟨s, hs, hm⟩ := ok_of_map h4
  exact ⟨Transition.exec_eq_finish he, h1, h2, h3, s, hs, congrArg Prod.fst hm, congrArg Prod.snd hm⟩

end BtMalloc
