import BtMalloc.Proofs.RepProofs

/-!
# Proofs: the partial list

`partial_push` and `partial_remove` write two or three descriptors and the list head. The equations
below say what they leave in every field; from them, the heap keeps standing for the ledger with the
slab moved.
-/

namespace BtMalloc

open LinkedList

variable {cfg : Config} {h : Heap} {bins : ℕ → ℕ → Bin} {L : Ledger} {q : PoolId} {r : SlabRef}

/-- The descriptors after `partial_push` of `r` in front of `head`. -/
def pushSlabs (slabs : SlabRef → Slab) (head : Option SlabRef) (r : SlabRef) : SlabRef → Slab :=
  fun x =>
    { slabs x with
      next := if x = r then head else (slabs x).next
      prev := if x = r then none else if head = some x then some r else (slabs x).prev
      inPartial := if x = r then true else (slabs x).inPartial }

/-- The descriptors after `partial_remove` of `r`. -/
def removeSlabs (slabs : SlabRef → Slab) (r : SlabRef) : SlabRef → Slab :=
  fun x =>
    { slabs x with
      next := if x = r then none else if (slabs r).prev = some x then (slabs r).next
        else (slabs x).next
      prev := if x = r then none else if (slabs r).next = some x then (slabs r).prev
        else (slabs x).prev
      inPartial := if x = r then false else (slabs x).inPartial }

theorem partialPush_eq (hne : (h.pools q).partialHead ≠ some r) : partialPush h q r =
    { h with
      slabs := pushSlabs h.slabs (h.pools q).partialHead r
      pools := Function.update h.pools q { h.pools q with partialHead := some r } } := by
  unfold partialPush
  cases hh : (h.pools q).partialHead with
  | none =>
    simp only [Heap.modSlab, Heap.modPool, Heap.mk.injEq, and_true]
    funext x
    by_cases e : x = r
    · subst e
      simp [pushSlabs]
    · simp [pushSlabs, e]
  | some b =>
    have hbr : b ≠ r := fun e => hne (by rw [hh, e])
    simp only [Heap.modSlab, Heap.modPool, Heap.mk.injEq, and_true]
    funext x
    by_cases e : x = r
    · subst e
      simp [pushSlabs, Ne.symm hbr]
    · by_cases e' : x = b
      · subst e'
        simp [pushSlabs, e]
      · simp [pushSlabs, e, e', Ne.symm e']

theorem partialRemove_eq : partialRemove h q r =
    { h with
      slabs := removeSlabs h.slabs r
      pools := Function.update h.pools q
        { h.pools q with
          partialHead := if (h.slabs r).prev = none then (h.slabs r).next
            else (h.pools q).partialHead } } := by
  unfold partialRemove
  -- `prev` and `next` each name a neighbour or nothing
  cases hp : (h.slabs r).prev with
  | none =>
    cases hn : (h.slabs r).next with
    | none =>
      simp only [Heap.modSlab, Heap.modPool, Heap.mk.injEq, and_true, if_true]
      funext x
      by_cases e : x = r
      · subst e
        simp [removeSlabs]
      · simp [removeSlabs, e, hp, hn]
    | some b =>
      simp only [Heap.modSlab, Heap.modPool, Heap.mk.injEq, and_true, if_true]
      funext x
      by_cases e : x = r
      · subst e
        by_cases e' : x = b
        · subst e'
          simp [removeSlabs]
        · simp [removeSlabs, e']
      · by_cases e' : x = b
        · subst e'
          simp [removeSlabs, e, hp, hn]
        · simp [removeSlabs, e, e', hp, hn, Ne.symm e']
  | some a =>
    have hpool : Function.update h.pools q { h.pools q with
        partialHead := if some a = (none : Option SlabRef) then (h.slabs r).next
          else (h.pools q).partialHead } = h.pools := by simp
    cases hn : (h.slabs r).next with
    | none =>
      rw [hn] at hpool
      rw [hpool]
      simp only [Heap.modSlab, Heap.mk.injEq, and_true]
      funext x
      by_cases e : x = r
      · subst e
        by_cases e' : x = a
        · subst e'
          simp [removeSlabs]
        · simp [removeSlabs, e']
      · by_cases e' : x = a
        · subst e'
          simp [removeSlabs, e, hp, hn]
        · simp [removeSlabs, e, e', hp, hn, Ne.symm e']
    | some b =>
      rw [hn] at hpool
      rw [hpool]
      simp only [Heap.modSlab, Heap.mk.injEq, and_true]
      funext x
      by_cases e : x = r
      · subst e
        simp only [removeSlabs, Function.update_self, if_true, Slab.mk.injEq]
        rcases eq_or_ne a x with rfl | e'
        · rcases eq_or_ne b a with rfl | e''
          · simp
          · simp [Function.update_apply, Ne.symm e'']
        · rcases eq_or_ne b x with rfl | e''
          · simp [Ne.symm e']
          · simp [Function.update_apply, Ne.symm e', Ne.symm e'']
      · rcases eq_or_ne x a with rfl | e'
        · rcases eq_or_ne x b with rfl | e''
          · simp [removeSlabs, e, hp, hn]
          · simp [removeSlabs, e, hp, hn, e'', Ne.symm e'']
        · rcases eq_or_ne x b with rfl | e''
          · simp [removeSlabs, e, hp, hn, e', Ne.symm e']
          · simp [removeSlabs, e, hp, hn, e', Ne.symm e', e'', Ne.symm e'']

/-! ## The heap stands for the ledger with the slab moved -/

/-- A slab of one pool is on no list of another. -/
theorem partials_other (S : L.Sound cfg) {q' : PoolId} {x : SlabRef} (hr : L.SlabIn q r)
    (hq : q' ≠ q) (hx : x ∈ L.partials q') : x ≠ r := by
  rintro rfl
  have := ((S.lists.partials q').mem_iff.mp hx).1
  exact hq (Holder.pool.inj (hr.1.symm.trans this)).symm

theorem partialPush_lists (hP : ListRep h.slabs h.pools L) (S : L.Sound cfg) (hr : L.SlabIn q r)
    (hst : L.stage r = .unlisted) :
    ListRep (pushSlabs h.slabs (h.pools q).partialHead r)
      (Function.update h.pools q { h.pools q with partialHead := some r }) (L.enlist q r) := by
  have hnw : ∀ q' x, x ∈ L.warm q' → x ≠ r := by
    rintro q' x hx rfl
    have := ((S.lists.warm q').mem_iff.mp hx).2
    rw [hst] at this
    cases this
  have hnc : ∀ q' x, x ∈ L.cold q' → x ≠ r := by
    rintro q' x hx rfl
    have := ((S.lists.cold q').mem_iff.mp hx).2
    rw [hst] at this
    cases this
  have hnp : ∀ q' x, x ∈ L.partials q' → x ≠ r := by
    rintro q' x hx rfl
    have := ((S.lists.partials q').mem_iff.mp hx).2
    rw [hst] at this
    cases this
  have hnext : ∀ x, x ≠ r → (pushSlabs h.slabs (h.pools q).partialHead r x).next =
      (h.slabs x).next := fun x hx => by simp [pushSlabs, hx]
  intro q'
  by_cases e : q' = q
  · subst e
    have hq := hP q'
    simp only [Function.update_self, Ledger.enlist]
    refine ⟨hq.partials.push (S.lists.partials q').nodup (by simp [pushSlabs])
      (by simp [pushSlabs]) (fun b hb => hnext b (hnp q' b hb)) (fun b hb => ?_),
      hq.warm.congr (fun b hb => hnext b (hnw q' b hb)),
      hq.cold.congr (fun b hb => hnext b (hnc q' b hb)), hq.warmCount⟩
    simp [pushSlabs, hnp q' b hb]
  · have hq := hP q'
    simp only [Function.update_of_ne e, Ledger.enlist]
    refine hq.congr rfl rfl rfl rfl (fun x hx => ⟨hnext x (hnp q' x hx), ?_⟩)
      (fun x hx => hnext x (hnw q' x hx)) (fun x hx => hnext x (hnc q' x hx))
    -- the old head of the pool's list is no member of another pool's list
    have hhd : (h.pools q).partialHead ≠ some x := by
      intro hh
      rw [(hP q).partials.head_eq] at hh
      have h1 := ((S.lists.partials q).mem_iff.mp (List.mem_of_mem_head? hh)).1
      have h2 := ((S.lists.partials q').mem_iff.mp hx).1
      exact e (Holder.pool.inj (h1.symm.trans h2)).symm
    simp [pushSlabs, hnp q' x hx, hhd]

/-- `partial_push` of a slab that is on no list. -/
theorem partialPush_rep (H : HeapRep cfg h bins L) (S : L.Sound cfg) (hr : L.SlabIn q r)
    (hst : L.stage r = .unlisted) : HeapRep cfg (partialPush h q r) bins (L.enlist q r) := by
  have hne : (h.pools q).partialHead ≠ some r := by
    intro hh
    rw [(H.lists q).partials.head_eq] at hh
    have := ((S.lists.partials q).mem_iff.mp (List.mem_of_mem_head? hh)).2
    rw [hst] at this
    cases this
  have D := H.desc q r hr
  rw [hst] at D
  rw [partialPush_eq hne]
  refine H.restage hr (by rw [hst]; rfl) (by simp) (by simp)
    (fun x => ⟨rfl, rfl, rfl, rfl, rfl, rfl, rfl⟩) (fun x e => ⟨by simp [pushSlabs, e], rfl, rfl⟩)
    (by simp [pushSlabs]) (by simpa [pushSlabs] using D.decommitted)
    (by simpa [pushSlabs] using D.retired)
    (fun q' => ⟨update_proj Pool.outstanding (by rfl) q', update_proj Pool.chunks (by rfl) q',
      update_proj Pool.active (by rfl) q'⟩)
    (fun c => ⟨rfl, rfl, rfl⟩) (partialPush_lists H.lists S hr hst) (fun q' c hc => ?_)
  exact (H.header q' c hc).congr rfl rfl
    (fun x _ hx => (Ledger.update_stage_ne_uncarved hr.2 (by simp) x).mp hx)

theorem partialRemove_lists (hP : ListRep h.slabs h.pools L) (S : L.Sound cfg) (hr : L.SlabIn q r)
    (hst : L.stage r = .listed) :
    ListRep (removeSlabs h.slabs r)
      (Function.update h.pools q
        { h.pools q with
          partialHead := if (h.slabs r).prev = none then (h.slabs r).next
            else (h.pools q).partialHead }) (L.delist q r) := by
  have hrm : r ∈ L.partials q := (S.lists.partials q).mem_iff.mpr ⟨hr.1, hst⟩
  -- the neighbours of `r` are members of the same list
  have hprev : ∀ x, (h.slabs r).prev = some x → x ∈ L.partials q := by
    intro x hx
    rcases (hP q).partials.prev_ne hrm with e | ⟨b, hb, e⟩
    · rw [hx] at e
      cases e
    · rw [hx, Option.some.injEq] at e
      rwa [e]
  have hnxt : ∀ x, (h.slabs r).next = some x → x ∈ L.partials q :=
    fun x hx => (hP q).partials.next_mem hrm hx
  have hnext : ∀ x, x ≠ r → x ∉ L.partials q →
      (removeSlabs h.slabs r x).next = (h.slabs x).next := by
    intro x hx hx'
    have : (h.slabs r).prev ≠ some x := fun e => hx' (hprev x e)
    simp [removeSlabs, hx, this]
  have hother : ∀ x v, L.stage x = v → v ≠ .listed → x ≠ r ∧ x ∉ L.partials q := by
    rintro x v hx hv
    refine ⟨?_, fun hm => ?_⟩
    · rintro rfl
      exact hv (hx.symm.trans hst)
    · exact hv (hx.symm.trans ((S.lists.partials q).mem_iff.mp hm).2)
  intro q'
  have hq := hP q'
  have hw : ∀ x ∈ L.warm q', (removeSlabs h.slabs r x).next = (h.slabs x).next := by
    intro x hx
    have := hother x _ ((S.lists.warm q').mem_iff.mp hx).2 (by simp)
    exact hnext x this.1 this.2
  have hc : ∀ x ∈ L.cold q', (removeSlabs h.slabs r x).next = (h.slabs x).next := by
    intro x hx
    have := hother x _ ((S.lists.cold q').mem_iff.mp hx).2 (by simp)
    exact hnext x this.1 this.2
  by_cases e : q' = q
  · subst e
    simp only [Function.update_self, Ledger.delist]
    refine ⟨hq.partials.remove (S.lists.partials q').nodup (by simp) hrm (fun b _ hb => ?_)
      (fun b _ hb => ?_), hq.warm.congr hw, hq.cold.congr hc, hq.warmCount⟩
    · simp [removeSlabs, hb]
    · simp [removeSlabs, hb]
  · simp only [Function.update_of_ne e, Ledger.delist]
    refine hq.congr rfl rfl rfl rfl (fun x hx => ?_) hw hc
    have hxq : x ∉ L.partials q := fun hm => by
      have h1 := ((S.lists.partials q).mem_iff.mp hm).1
      have h2 := ((S.lists.partials q').mem_iff.mp hx).1
      exact e (Holder.pool.inj (h1.symm.trans h2)).symm
    have hxr : x ≠ r := partials_other S hr e hx
    refine ⟨hnext x hxr hxq, ?_⟩
    have : (h.slabs r).next ≠ some x := fun e => hxq (hnxt x e)
    simp [removeSlabs, hxr, this]

/-- `partial_remove` of a listed slab. -/
theorem partialRemove_rep (H : HeapRep cfg h bins L) (S : L.Sound cfg) (hr : L.SlabIn q r)
    (hst : L.stage r = .listed) : HeapRep cfg (partialRemove h q r) bins (L.delist q r) := by
  have D := H.desc q r hr
  rw [hst] at D
  rw [partialRemove_eq]
  refine H.restage hr (by rw [hst]; rfl) (by simp) (by simp)
    (fun x => ⟨rfl, rfl, rfl, rfl, rfl, rfl, rfl⟩) (fun x e => ⟨by simp [removeSlabs, e], rfl, rfl⟩)
    (by simp [removeSlabs]) (by simpa [removeSlabs] using D.decommitted)
    (by simpa [removeSlabs] using D.retired)
    (fun q' => ⟨update_proj Pool.outstanding (by rfl) q', update_proj Pool.chunks (by rfl) q',
      update_proj Pool.active (by rfl) q'⟩)
    (fun c => ⟨rfl, rfl, rfl⟩) (partialRemove_lists H.lists S hr hst) (fun q' c hc => ?_)
  exact (H.header q' c hc).congr rfl rfl
    (fun x _ hx => (Ledger.update_stage_ne_uncarved hr.2 (by simp) x).mp hx)

end BtMalloc
