import BtMalloc.Proofs.SlotProofs

/-!
# Proofs: chunks in the ledger

A pool gives a chunk up, takes one and carves a slab from it; between pools, chunks move between the
warm stack, the dispose queue and the threads that work on them. All of it keeps the ledger sound.
-/

namespace BtMalloc

namespace Ledger

variable {cfg : Config} {L : Ledger} {q : PoolId} {c : ℕ} {dest : Holder}

/-- A pool gives a chunk up that has no busy slot. -/
def vacate (L : Ledger) (q : PoolId) (c : ℕ) : Ledger :=
  { L with
    holder := Function.update L.holder c .hand
    stage := fun x => if x.chunk = c then .uncarved else L.stage x
    place := fun s => if s / chunkSize * chunkSize = c then .void else L.place s
    warm := Function.update L.warm q ((L.warm q).filter fun x => !(x.chunk == c))
    cold := Function.update L.cold q ((L.cold q).filter fun x => !(x.chunk == c))
    counted := Function.update L.counted c []
    chunks := Function.update L.chunks q ((L.chunks q).erase c)
    active := Function.update L.active q (if L.active q = some c then none else L.active q)
    hand := c :: L.hand }

/-- A chunk that no pool holds goes somewhere else. -/
def rehold (L : Ledger) (c : ℕ) (dest : Holder) : Ledger :=
  { L with
    holder := Function.update L.holder c dest
    stack := if dest = .stack then c :: L.stack.erase c else L.stack.erase c
    queue := if dest = .queue then c :: L.queue.erase c else L.queue.erase c
    batch := if dest = .batch then c :: L.batch.erase c else L.batch.erase c
    hand := if dest = .hand then c :: L.hand.erase c else L.hand.erase c }

/-- A pool takes a chunk for carving. -/
def attach (L : Ledger) (q : PoolId) (c : ℕ) : Ledger :=
  { L with
    holder := Function.update L.holder c (.pool q)
    top := Function.update L.top c dataStartPage
    chunks := Function.update L.chunks q (c :: L.chunks q)
    active := Function.update L.active q (some c)
    hand := L.hand.erase c }

/-- The next slab of chunk `c` of pool `q`. -/
def nextSlab (L : Ledger) (c : ℕ) : SlabRef := ⟨c, L.top c⟩

/-- A pool carves the next slab of a chunk. -/
def carveSlab (L : Ledger) (q : PoolId) (c : ℕ) : Ledger :=
  { L with
    top := Function.update L.top c (L.top c + btmScRunPages q.sc)
    stage := Function.update L.stage (L.nextSlab c) .unlisted
    place := fun s => if s ∈ slabSlotList (L.nextSlab c) q.sc then .free else L.place s
    freeList := Function.update L.freeList (L.nextSlab c) (slabSlotList (L.nextSlab c) q.sc)
    counted := Function.update L.counted c (L.nextSlab c :: L.counted c) }

theorem Carving.slot_region (h : L.Carving cfg) {r : SlabRef} {i s : ℕ} (hs : L.SlotIn q r i s) :
    s / chunkSize * chunkSize = r.chunk := by
  have p := h.slotPos hs
  have := p.region p.size_pos
  simpa using this

/-- Giving a chunk up: its slots are all free, none of its slabs is listed or retired, and no slab
    elsewhere has its data there. -/
theorem Sound.vacate (S : L.Sound cfg) (hc : L.holder c = .pool q)
    (hfree : ∀ {r i s}, r.chunk = c → L.SlotIn q r i s → L.place s = .free)
    (hst : ∀ {r}, r.chunk = c → L.stage r ≠ .listed ∧ L.stage r ≠ .retired)
    (hnt : ∀ {x}, (L.target x).chunk = c → x.chunk = c) : (L.vacate q c).Sound cfg := by
  have hhold : ∀ c' q', (L.vacate q c).holder c' = .pool q' ↔ c' ≠ c ∧ L.holder c' = .pool q' := by
    intro c' q'
    by_cases e : c' = c
    · subst e
      simp [Ledger.vacate]
    · simp [Ledger.vacate, e]
  have hstage : ∀ x, x.chunk ≠ c → (L.vacate q c).stage x = L.stage x :=
    fun x hx => by simp [Ledger.vacate, hx]
  have hun : ∀ x, x.chunk = c → (L.vacate q c).stage x = .uncarved :=
    fun x hx => by simp [Ledger.vacate, hx]
  have hslab : ∀ q' x, (L.vacate q c).SlabIn q' x ↔ x.chunk ≠ c ∧ L.SlabIn q' x := by
    intro q' x
    unfold Ledger.SlabIn
    rw [hhold, and_assoc]
    refine and_congr_right (fun hx => ?_)
    rw [hstage x hx]
  have hslot : ∀ q' x i s, (L.vacate q c).SlotIn q' x i s ↔ x.chunk ≠ c ∧ L.SlotIn q' x i s := by
    intro q' x i s
    unfold Ledger.SlotIn
    rw [hslab, and_assoc]
  have hplace : ∀ {q' x i s}, x.chunk ≠ c → L.SlotIn q' x i s →
      (L.vacate q c).place s = L.place s := by
    intro q' x i s hx hs
    have := S.carving.slot_region hs
    simp only [Ledger.vacate]
    rw [this, if_neg hx]
  -- a slot of the chunk is free, so it is on no list of busy slots
  have hfree' : ∀ {q' x i s}, L.SlotIn q' x i s → L.place s ≠ .free → x.chunk ≠ c := by
    intro q' x i s hs hp hx
    have hq : q' = q := by
      have := hs.1.1
      rw [hx, hc] at this
      exact (Holder.pool.inj this).symm
    subst hq
    exact hp (hfree hx hs)
  have hnv : ∀ {s}, (L.vacate q c).place s ≠ .void → s / chunkSize * chunkSize ≠ c ∧
      L.place s ≠ .void := by
    intro s hs
    simp only [Ledger.vacate] at hs
    split_ifs at hs with e
    · exact absurd rfl hs
    · exact ⟨e, hs⟩
  refine ⟨⟨?_, ?_, ?_, ?_⟩, ⟨?_, ?_, ?_, ?_, ?_, ?_, ?_, ?_, ?_, ?_⟩, ⟨?_, ?_, ?_, ?_, ?_, ?_⟩,
    ⟨?_, ?_, ?_, ?_⟩⟩
  · intro c' q' h'
    exact S.carving.valid ((hhold _ _).mp h').2
  · intro c' h'
    by_cases e : c' = c
    · subst e
      exact S.carving.aligned (by rw [hc]; simp)
    · exact S.carving.aligned (by simpa [Ledger.vacate, e] using h')
  · intro c' q' h'
    exact S.carving.top_eq ((hhold _ _).mp h').2
  · intro x
    by_cases e : x.chunk = c
    · simp only [hun x e, ne_eq, not_true_eq_false, false_iff]
      rintro ⟨q', n, h', -⟩
      exact ((hhold _ _).mp h').1 e
    · rw [hstage x e, S.carving.carved x]
      simp only [hhold, e, ne_eq, not_false_eq_true, true_and]
      rfl
  · intro q'
    refine (S.lists.partials q').congr (fun x => ?_)
    by_cases e : x.chunk = c
    · simp [hhold, e, (hst e).1]
    · simp [hhold, e, hstage x e]
  · intro q'
    by_cases eq : q' = q
    · subst eq
      simp only [Ledger.vacate, Function.update_self]
      refine (S.lists.warm q').filter _ (fun x => ?_)
      by_cases e : x.chunk = c <;> simp [e]
    · simp only [Ledger.vacate, Function.update_of_ne eq]
      refine (S.lists.warm q').congr (fun x => ?_)
      by_cases e : x.chunk = c
      · simp [e, hc, Ne.symm eq]
      · simp [e]
  · intro q'
    by_cases eq : q' = q
    · subst eq
      simp only [Ledger.vacate, Function.update_self]
      refine (S.lists.cold q').filter _ (fun x => ?_)
      by_cases e : x.chunk = c <;> simp [e]
    · simp only [Ledger.vacate, Function.update_of_ne eq]
      refine (S.lists.cold q').congr (fun x => ?_)
      by_cases e : x.chunk = c
      · simp [e, hc, Ne.symm eq]
      · simp [e]
  · intro c'
    by_cases e : c' = c
    · subst e
      simp only [Ledger.vacate, Function.update_self]
      refine Listing.nil (fun x hx => ?_)
      simp [hx.1, Stage.counts] at hx
    · simp only [Ledger.vacate, Function.update_of_ne e]
      refine (S.lists.counted c').congr (fun x => and_congr_right (fun hx => ?_))
      rw [if_neg (by rw [hx]; exact e)]
  · intro q'
    by_cases eq : q' = q
    · subst eq
      simp only [Ledger.vacate, Function.update_self]
      refine (S.lists.chunks q').erase (fun x => ?_)
      by_cases e : x = c
      · simp [e]
      · simp [e]
    · simp only [Ledger.vacate, Function.update_of_ne eq]
      refine (S.lists.chunks q').congr (fun x => ?_)
      by_cases e : x = c
      · simp [e, hc, Ne.symm eq]
      · simp [e]
  · intro q' c' h'
    rw [hhold]
    by_cases eq : q' = q
    · subst eq
      simp only [Ledger.vacate, Function.update_self] at h'
      by_cases e : L.active q' = some c
      · simp [e] at h'
      · rw [if_neg e] at h'
        exact ⟨fun e' => e (by rw [h', e']), S.lists.active h'⟩
    · simp only [Ledger.vacate, Function.update_of_ne eq] at h'
      have := S.lists.active h'
      refine ⟨?_, this⟩
      rintro rfl
      rw [hc] at this
      exact eq (Holder.pool.inj this).symm
  · refine S.lists.stack.congr (fun x => ?_)
    by_cases e : x = c
    · simp [Ledger.vacate, e, hc]
    · simp [Ledger.vacate, e]
  · refine S.lists.queue.congr (fun x => ?_)
    by_cases e : x = c
    · simp [Ledger.vacate, e, hc]
    · simp [Ledger.vacate, e]
  · refine S.lists.batch.congr (fun x => ?_)
    by_cases e : x = c
    · simp [Ledger.vacate, e, hc]
    · simp [Ledger.vacate, e]
  · refine S.lists.hand.cons (by simp [hc]) (fun x => ?_)
    by_cases e : x = c
    · simp [Ledger.vacate, e]
    · simp [Ledger.vacate, e]
  · intro s hs
    obtain ⟨hreg, hv⟩ := hnv hs
    obtain ⟨q', x, i, h'⟩ := S.slots.slot hv
    exact ⟨q', x, i, (hslot ..).mpr ⟨by rwa [← S.carving.slot_region h'], h'⟩⟩
  · intro t i
    refine (S.slots.bin t i).congr (fun s => ⟨fun h' => ?_, fun h' => ?_⟩)
    · simp only [Ledger.vacate] at h'
      split_ifs at h' with e
      exact h'
    · obtain ⟨q', x, j, hs⟩ := S.slots.slot (s := s) (by simp [h'])
      rw [hplace (hfree' hs (by simp [h'])) hs, h']
  · intro s t i q' x j hs h'
    obtain ⟨hx, h'⟩ := (hslot ..).mp h'
    rw [hplace hx h'] at hs
    exact S.slots.home hs h'
  · intro x hx hx'
    have e : x.chunk ≠ c := fun e => hx (hun x e)
    rw [hstage x e] at hx hx'
    refine (S.slots.freeList hx hx').congr (fun s => ?_)
    constructor
    · rintro ⟨hp, q', i, h'⟩
      obtain ⟨-, h'⟩ := (hslot ..).mp h'
      exact ⟨by rwa [hplace e h'] at hp, q', i, h'⟩
    · rintro ⟨hp, q', i, h'⟩
      exact ⟨by rwa [hplace e h'], q', i, (hslot ..).mpr ⟨e, h'⟩⟩
  · intro s q' x i h' hx
    obtain ⟨e, h'⟩ := (hslot ..).mp h'
    rw [hstage x e] at hx
    rw [hplace e h']
    exact S.slots.retired h' hx
  · intro q'
    refine (S.slots.held q').congr (fun s => ?_)
    constructor
    · rintro ⟨hp, x, i, h'⟩
      obtain ⟨e, h'⟩ := (hslot ..).mp h'
      exact ⟨by rwa [hplace e h'] at hp, x, i, h'⟩
    · rintro ⟨hp, x, i, h'⟩
      have e := hfree' h' (by rintro e; rw [e] at hp; cases hp)
      exact ⟨by rwa [hplace e h'], x, i, (hslot ..).mpr ⟨e, h'⟩⟩
  · intro x hx
    by_cases e : x.chunk = c
    · exact S.meshed.self (hst e).2
    · exact S.meshed.self (by rwa [hstage x e] at hx)
  · intro q' x hx
    obtain ⟨e, hx⟩ := (hslab ..).mp hx
    exact (hslab ..).mpr ⟨fun e' => e (hnt e'), S.meshed.pool hx⟩
  · intro x hx hne
    by_cases e : x.chunk = c
    · rw [hun x e] at hx
      cases hx
    · rw [hstage x e] at hx
      obtain ⟨q', i, s, hs, hv⟩ := S.meshed.donated hx hne
      have e' : (L.target x).chunk ≠ c := fun e' => e (hnt e')
      exact ⟨q', i, s, (hslot ..).mpr ⟨e', hs⟩, by rw [hplace e' hs, hv]⟩
  · intro s s' q' q'' x x' i hs hs' h' h''
    exact S.meshed.apart (hnv hs).2 (hnv hs').2 ((hslot ..).mp h').2 ((hslot ..).mp h'').2

/-- Two ledgers that differ in who holds the chunks, but not in the slabs of the pools. -/
theorem Sound.rechunk {L' : Ledger} (S : L.Sound cfg)
    (he : L' = { L with
      holder := L'.holder, top := L'.top, chunks := L'.chunks, active := L'.active
      stack := L'.stack, queue := L'.queue, batch := L'.batch, hand := L'.hand })
    (hslab : ∀ q x, L'.SlabIn q x ↔ L.SlabIn q x) (hcarv : L'.Carving cfg)
    (hchunks : ∀ q, Listing (L'.chunks q) fun c => L'.holder c = .pool q)
    (hactive : ∀ {q c}, L'.active q = some c → L'.holder c = .pool q)
    (hstack : Listing L'.stack fun c => L'.holder c = .stack)
    (hqueue : Listing L'.queue fun c => L'.holder c = .queue)
    (hbatch : Listing L'.batch fun c => L'.holder c = .batch)
    (hhand : Listing L'.hand fun c => L'.holder c = .hand) : L'.Sound cfg := by
  have hst : L'.stage = L.stage := by rw [he]
  have hpl : L'.place = L.place := by rw [he]
  have hfl : L'.freeList = L.freeList := by rw [he]
  have htg : L'.target = L.target := by rw [he]
  have hslot : ∀ q' x i s, L'.SlotIn q' x i s ↔ L.SlotIn q' x i s := by
    intro q' x i s
    unfold Ledger.SlotIn
    rw [hslab]
  have hat : ∀ {st : Stage} (q' : PoolId) (x : SlabRef), st ≠ .uncarved →
      (L'.holder x.chunk = .pool q' ∧ L'.stage x = st ↔
        L.holder x.chunk = .pool q' ∧ L.stage x = st) := by
    intro st q' x hne
    have := hslab q' x
    unfold Ledger.SlabIn at this
    rw [hst] at this ⊢
    constructor
    · rintro ⟨h1, h2⟩
      exact ⟨(this.mp ⟨h1, h2 ▸ hne⟩).1, h2⟩
    · rintro ⟨h1, h2⟩
      exact ⟨(this.mpr ⟨h1, h2 ▸ hne⟩).1, h2⟩
  refine ⟨hcarv, ⟨?_, ?_, ?_, ?_, hchunks, hactive, hstack, hqueue, hbatch, hhand⟩,
    ⟨?_, ?_, ?_, ?_, ?_, ?_⟩, ⟨?_, ?_, ?_, ?_⟩⟩
  · intro q'
    have e : L'.partials = L.partials := by rw [he]
    rw [e]
    exact (S.lists.partials q').congr (fun x => hat q' x (by simp))
  · intro q'
    have e : L'.warm = L.warm := by rw [he]
    rw [e]
    exact (S.lists.warm q').congr (fun x => hat q' x (by simp))
  · intro q'
    have e : L'.cold = L.cold := by rw [he]
    rw [e]
    exact (S.lists.cold q').congr (fun x => hat q' x (by simp))
  · rw [he]
    exact S.lists.counted
  · intro s hs
    rw [hpl] at hs
    obtain ⟨q', x, i, h'⟩ := S.slots.slot hs
    exact ⟨q', x, i, (hslot ..).mpr h'⟩
  · rw [he]
    exact S.slots.bin
  · intro s t i q' x j hs h'
    rw [hpl] at hs
    exact S.slots.home hs ((hslot ..).mp h')
  · intro x hx hx'
    rw [hst] at hx hx'
    simp only [hslot, hpl, hfl]
    exact S.slots.freeList hx hx'
  · intro s q' x i h' hx
    rw [hst] at hx
    rw [hpl]
    exact S.slots.retired ((hslot ..).mp h') hx
  · intro q'
    have hh : L'.held = L.held := by rw [he]
    simp only [hslot, hpl, hh]
    exact S.slots.held q'
  · rw [hst, htg]
    exact S.meshed.self
  · intro q' x hx
    rw [htg]
    exact (hslab ..).mpr (S.meshed.pool ((hslab ..).mp hx))
  · intro x hx hne
    rw [hst] at hx
    rw [htg] at hne ⊢
    simp only [hslot, hpl]
    exact S.meshed.donated hx hne
  · intro s s' q' q'' x x' i hs hs' h' h'' ht
    rw [hpl] at hs hs'
    rw [htg] at ht
    exact S.meshed.apart hs hs' ((hslot ..).mp h') ((hslot ..).mp h'') ht

/-- Moving a chunk that no pool holds touches no slab. -/
theorem Sound.rehold (S : L.Sound cfg) (hold : ∀ q, L.holder c ≠ .pool q)
    (hto : ∀ q, dest ≠ .pool q)
    (hal : dest ≠ .none → c % chunkSize = 0 ∧ 0 < c ∧ c + chunkSize ≤ 2 ^ 47) :
    (L.rehold c dest).Sound cfg := by
  have hhold : ∀ c' q', (L.rehold c dest).holder c' = .pool q' ↔ L.holder c' = .pool q' := by
    intro c' q'
    by_cases e : c' = c
    · subst e
      simp [Ledger.rehold, hold, hto]
    · simp [Ledger.rehold, e]
  -- the four lists of chunks without a pool, each by its holder
  have hlist : ∀ {l : List ℕ} {H : Holder}, Listing l (fun x => L.holder x = H) →
      Listing (if dest = H then c :: l.erase c else l.erase c)
        (fun x => (L.rehold c dest).holder x = H) := by
    intro l H hl
    have he : Listing (l.erase c) (fun x => L.holder x = H ∧ x ≠ c) := hl.erase (fun x => Iff.rfl)
    split_ifs with e
    · refine he.cons (by simp) (fun x => ?_)
      by_cases ex : x = c
      · simp [Ledger.rehold, ex, e]
      · simp [Ledger.rehold, ex]
    · refine he.congr (fun x => ?_)
      by_cases ex : x = c
      · simp [Ledger.rehold, ex, e]
      · simp [Ledger.rehold, ex]
  refine S.rechunk rfl (fun q' x => ?_) ⟨?_, ?_, ?_, ?_⟩ ?_ ?_ (hlist S.lists.stack)
    (hlist S.lists.queue) (hlist S.lists.batch) (hlist S.lists.hand)
  · unfold Ledger.SlabIn
    rw [hhold]
    rfl
  · intro c' q' h'
    exact S.carving.valid ((hhold ..).mp h')
  · intro c' h'
    by_cases e : c' = c
    · subst e
      exact hal (by simpa [Ledger.rehold] using h')
    · exact S.carving.aligned (by simpa [Ledger.rehold, e] using h')
  · intro c' q' h'
    exact S.carving.top_eq ((hhold ..).mp h')
  · intro x
    simp only [hhold]
    exact S.carving.carved x
  · intro q'
    simp only [hhold]
    exact S.lists.chunks q'
  · intro q' c' h'
    exact (hhold ..).mpr (S.lists.active h')

/-- A slab of a chunk that no pool holds is not carved. -/
theorem Carving.uncarved (h : L.Carving cfg) (hc : ∀ q, L.holder c ≠ .pool q) {r : SlabRef}
    (hr : r.chunk = c) : L.stage r = .uncarved := by
  by_contra hne
  obtain ⟨q, -, hq, -⟩ := (h.carved r).mp hne
  exact hc q (hr ▸ hq)

/-- Taking a chunk for carving: no slab is there yet. -/
theorem Sound.attach (S : L.Sound cfg) (hc : L.holder c = .hand) (hq : q.Valid cfg) :
    (L.attach q c).Sound cfg := by
  have hne : ∀ q', L.holder c ≠ .pool q' := by simp [hc]
  have hun : ∀ {x : SlabRef}, x.chunk = c → (L.attach q c).stage x = .uncarved :=
    fun e => S.carving.uncarved hne e
  have hhold : ∀ {c'}, c' ≠ c → (L.attach q c).holder c' = L.holder c' :=
    fun e => by simp [Ledger.attach, e]
  have hself : (L.attach q c).holder c = .pool q := by simp [Ledger.attach]
  have hother : ∀ {l : List ℕ} {H : Holder}, H ≠ .hand → (∀ q', H ≠ .pool q') →
      Listing l (fun x => L.holder x = H) →
      Listing l (fun x => (L.attach q c).holder x = H) := by
    intro l H hH hH' hl
    refine hl.congr (fun x => ?_)
    by_cases e : x = c
    · subst e
      simp [hself, hc, Ne.symm hH, Ne.symm (hH' q)]
    · rw [hhold e]
  refine S.rechunk rfl (fun q' x => ?_) ⟨?_, ?_, ?_, ?_⟩ ?_ ?_ (hother (by simp) (by simp) S.lists.stack)
    (hother (by simp) (by simp) S.lists.queue) (hother (by simp) (by simp) S.lists.batch) ?_
  · unfold Ledger.SlabIn
    by_cases e : x.chunk = c
    · simp [hun e, S.carving.uncarved hne e]
    · rw [hhold e]
      rfl
  · intro c' q' h'
    by_cases e : c' = c
    · rw [e, hself] at h'
      cases h'
      exact hq
    · exact S.carving.valid (by rwa [hhold e] at h')
  · intro c' h'
    by_cases e : c' = c
    · subst e
      exact S.carving.aligned (by simp [hc])
    · exact S.carving.aligned (by rwa [hhold e] at h')
  · intro c' q' h'
    by_cases e : c' = c
    · subst e
      simp only [Ledger.attach, Function.update_self]
      exact ⟨⟨0, by simp⟩, by decide⟩
    · simp only [Ledger.attach, Function.update_of_ne e]
      exact S.carving.top_eq (by rwa [hhold e] at h')
  · intro x
    by_cases e : x.chunk = c
    · simp only [hun e, ne_eq, not_true_eq_false, false_iff]
      rintro ⟨q', n, h', hp, hle⟩
      rw [e, hself] at h'
      cases h'
      have := (classRow hq.2).pages_pos
      simp only [Ledger.attach, e, Function.update_self] at hle
      omega
    · rw [hhold e]
      simp only [Ledger.attach, Function.update_of_ne e]
      exact S.carving.carved x
  · intro q'
    by_cases eq : q' = q
    · subst eq
      simp only [Ledger.attach, Function.update_self]
      refine (S.lists.chunks q').cons (hne q') (fun x => ?_)
      by_cases e : x = c
      · simp [e]
      · simp [e]
    · simp only [Ledger.attach, Function.update_of_ne eq]
      refine (S.lists.chunks q').congr (fun x => ?_)
      by_cases e : x = c
      · simp [e, hc, Ne.symm eq]
      · simp [e]
  · intro q' c' h'
    by_cases eq : q' = q
    · subst eq
      simp only [Ledger.attach, Function.update_self, Option.some.injEq] at h'
      rw [← h', hself]
    · simp only [Ledger.attach, Function.update_of_ne eq] at h'
      have := S.lists.active h'
      rwa [hhold]
      rintro rfl
      exact hne _ this
  · refine S.lists.hand.erase (fun x => ?_)
    by_cases e : x = c
    · simp [e, hself]
    · simp [e, hhold]

/-- The slabs of the pools after the next slab of `c` was carved. -/
theorem carveSlab_slabIn (hc : L.holder c = .pool q) (q' : PoolId) (x : SlabRef) :
    (L.carveSlab q c).SlabIn q' x ↔ (x = L.nextSlab c ∧ q' = q) ∨ L.SlabIn q' x := by
  by_cases e : x = L.nextSlab c
  · subst e
    simp only [Ledger.SlabIn, Ledger.carveSlab, Function.update_self, nextSlab, hc,
      Holder.pool.injEq]
    constructor
    · rintro ⟨rfl, -⟩
      exact Or.inl ⟨trivial, rfl⟩
    · rintro (⟨-, rfl⟩ | ⟨rfl, -⟩) <;> simp
  · simp [Ledger.SlabIn, Ledger.carveSlab, e]

theorem Carving.carveSlab (h : L.Carving cfg) (hc : L.holder c = .pool q)
    (hroom : L.top c + btmScRunPages q.sc ≤ pagesPerChunk) : (L.carveSlab q c).Carving cfg := by
  obtain ⟨⟨n, hn⟩, htop⟩ := h.top_eq hc
  have hpos := (h.row hc).pages_pos
  refine ⟨h.valid, h.aligned, ?_, ?_⟩
  · intro c' q' h'
    by_cases e : c' = c
    · subst e
      have eq : q' = q := Holder.pool.inj (h'.symm.trans hc)
      subst eq
      simp only [Ledger.carveSlab, Function.update_self]
      exact ⟨⟨n + 1, by rw [hn, Nat.succ_mul, Nat.add_assoc]⟩, hroom⟩
    · simp only [Ledger.carveSlab, Function.update_of_ne e]
      exact h.top_eq h'
  · intro x
    show Function.update L.stage (L.nextSlab c) .unlisted x ≠ .uncarved ↔ ∃ q' n',
      L.holder x.chunk = .pool q' ∧ x.page = dataStartPage + n' * btmScRunPages q'.sc ∧
      x.page + btmScRunPages q'.sc ≤ Function.update L.top c (L.top c + btmScRunPages q.sc) x.chunk
    by_cases e : x.chunk = c
    · subst e
      simp only [Function.update_self]
      by_cases e' : x = L.nextSlab x.chunk
      · have hp : x.page = L.top x.chunk := congrArg SlabRef.page e'
        rw [← e', Function.update_self]
        simp only [ne_eq, reduceCtorEq, not_false_eq_true, true_iff]
        exact ⟨q, n, hc, hp.trans hn, by rw [hp]⟩
      · rw [Function.update_of_ne e', h.carved x]
        constructor
        · rintro ⟨q', n', h1, h2, h3⟩
          exact ⟨q', n', h1, h2, by omega⟩
        · rintro ⟨q', n', h1, h2, h3⟩
          refine ⟨q', n', h1, h2, ?_⟩
          have eq : q' = q := Holder.pool.inj (h1.symm.trans hc)
          subst eq
          have hne : x.page ≠ L.top x.chunk := fun e => e' (SlabRef.ext rfl e)
          -- both are whole numbers of slabs from the first data page
          have hlt : n' < n := by
            have hle : n' ≤ n := by
              by_contra hgt
              have := Nat.mul_le_mul_right (btmScRunPages q'.sc)
                (show n + 1 ≤ n' by omega)
              rw [Nat.succ_mul] at this
              omega
            refine lt_of_le_of_ne hle ?_
            rintro rfl
            omega
          have := Nat.mul_le_mul_right (btmScRunPages q'.sc) (show n' + 1 ≤ n by omega)
          rw [Nat.succ_mul] at this
          omega
    · have e' : x ≠ L.nextSlab c := fun h' => e (by rw [h']; rfl)
      rw [Function.update_of_ne e', Function.update_of_ne e]
      exact h.carved x

/-- The next slab of a chunk is not carved yet. -/
theorem Carving.nextSlab_uncarved (h : L.Carving cfg) :
    L.stage (L.nextSlab c) = .uncarved := by
  by_contra hne
  obtain ⟨q', n, h1, h2, h3⟩ := (h.carved _).mp hne
  have := (h.row h1).pages_pos
  simp only [nextSlab] at h2 h3
  omega

/-- Carving the next slab of a chunk: its slots come into use, all of them free. -/
theorem Sound.carveSlab (S : L.Sound cfg) (hc : L.holder c = .pool q)
    (hroom : L.top c + btmScRunPages q.sc ≤ pagesPerChunk) : (L.carveSlab q c).Sound cfg := by
  have hC := S.carving.carveSlab hc hroom
  have hun : L.stage (L.nextSlab c) = .uncarved := S.carving.nextSlab_uncarved
  have hslab := carveSlab_slabIn (L := L) hc
  have hself : (L.carveSlab q c).SlabIn q (L.nextSlab c) := (hslab ..).mpr (Or.inl ⟨rfl, rfl⟩)
  have hlift : ∀ {q' x i s}, L.SlotIn q' x i s → (L.carveSlab q c).SlotIn q' x i s :=
    fun h => ⟨(hslab ..).mpr (Or.inr h.1), h.2⟩
  have hne : ∀ {q' x}, L.SlabIn q' x → x ≠ L.nextSlab c := by
    rintro q' x hx rfl
    exact hx.2 hun
  have hdrop : ∀ {q' x i s}, x ≠ L.nextSlab c → (L.carveSlab q c).SlotIn q' x i s →
      L.SlotIn q' x i s := by
    intro q' x i s hx h
    refine ⟨?_, h.2⟩
    rcases (hslab ..).mp h.1 with h' | h'
    · exact absurd h'.1 hx
    · exact h'
  have hmem : ∀ {s}, s ∈ slabSlotList (L.nextSlab c) q.sc ↔
      ∃ i, (L.carveSlab q c).SlotIn q (L.nextSlab c) i s := by
    intro s
    rw [mem_slabSlotList]
    constructor
    · rintro ⟨i, hi, e⟩
      exact ⟨i, hself, hi, e⟩
    · rintro ⟨i, -, hi, e⟩
      exact ⟨i, hi, e⟩
  -- a slot of the new slab was nowhere before, and a slot of another slab is none of its slots
  have hother : ∀ {q' x i s}, x ≠ L.nextSlab c → (L.carveSlab q c).SlotIn q' x i s →
      s ∉ slabSlotList (L.nextSlab c) q.sc := by
    intro q' x i s hx h hm
    obtain ⟨i', h'⟩ := hmem.mp hm
    exact hx (hC.slotIn_inj h h').2.1
  have hvoid : ∀ {s}, s ∈ slabSlotList (L.nextSlab c) q.sc → L.place s = .void := by
    intro s hm
    by_contra hv
    obtain ⟨q', x, i, h⟩ := S.slots.slot hv
    exact hother (hne h.1) (hlift h) hm
  have hold : ∀ {s}, s ∉ slabSlotList (L.nextSlab c) q.sc →
      (L.carveSlab q c).place s = L.place s := fun hm => if_neg hm
  have hnew : ∀ {s}, s ∈ slabSlotList (L.nextSlab c) q.sc →
      (L.carveSlab q c).place s = .free := fun hm => if_pos hm
  have hplace : ∀ {s v}, v ≠ .void → v ≠ .free → ((L.carveSlab q c).place s = v ↔ L.place s = v) := by
    intro s v h1 h2
    by_cases hm : s ∈ slabSlotList (L.nextSlab c) q.sc
    · rw [hnew hm, hvoid hm]
      exact ⟨fun e => absurd e.symm h2, fun e => absurd e.symm h1⟩
    · rw [hold hm]
  have hstage : ∀ {x}, x ≠ L.nextSlab c → (L.carveSlab q c).stage x = L.stage x :=
    fun e => Function.update_of_ne e ..
  have hsself : (L.carveSlab q c).stage (L.nextSlab c) = .unlisted := Function.update_self ..
  have hret : ∀ {x}, (L.carveSlab q c).stage x = .retired ↔ L.stage x = .retired := by
    intro x
    by_cases e : x = L.nextSlab c
    · rw [e, hsself, hun]
      simp
    · rw [hstage e]
  have htar : ∀ {q' x}, L.SlabIn q' x → L.target x ≠ L.nextSlab c :=
    fun hx => hne (S.meshed.pool hx)
  have htself : L.target (L.nextSlab c) = L.nextSlab c := S.meshed.self (by simp [hun])
  have hskip : ∀ {l : List SlabRef} {v : Stage} {P : SlabRef → Prop}, v ≠ .uncarved → v ≠ .unlisted →
      Listing l (fun x => P x ∧ L.stage x = v) →
      Listing l (fun x => P x ∧ (L.carveSlab q c).stage x = v) :=
    fun h1 h2 hl => listing_other hl (by rw [hun]; exact h1.symm) h2.symm
  refine ⟨hC, ⟨fun q' => hskip (by simp) (by simp) (S.lists.partials q'),
    fun q' => hskip (by simp) (by simp) (S.lists.warm q'),
    fun q' => hskip (by simp) (by simp) (S.lists.cold q'),
    counted_cons (r := L.nextSlab c) S.lists.counted (by rw [hun]; rfl)
      (show Stage.counts .unlisted = true from rfl), S.lists.chunks, S.lists.active,
    S.lists.stack, S.lists.queue, S.lists.batch, S.lists.hand⟩,
    ⟨?_, ?_, ?_, ?_, ?_, ?_⟩, ⟨?_, ?_, ?_, ?_⟩⟩
  · intro s hs
    by_cases hm : s ∈ slabSlotList (L.nextSlab c) q.sc
    · obtain ⟨i, h⟩ := hmem.mp hm
      exact ⟨q, _, i, h⟩
    · rw [hold hm] at hs
      obtain ⟨q', x, i, h⟩ := S.slots.slot hs
      exact ⟨q', x, i, hlift h⟩
  · exact fun t i => (S.slots.bin t i).congr (fun s => hplace (by simp) (by simp))
  · intro s t i q' x j hs h
    have hs' := (hplace (by simp) (by simp)).mp hs
    obtain ⟨q'', x', j', h'⟩ := S.slots.slot (s := s) (by simp [hs'])
    obtain ⟨rfl, rfl, rfl⟩ := hC.slotIn_inj (hlift h') h
    exact S.slots.home hs' h'
  · intro x hx hx'
    by_cases e : x = L.nextSlab c
    · subst e
      simp only [Ledger.carveSlab, Function.update_self]
      refine (hC.slots_listing hself).congr (fun s => ?_)
      constructor
      · exact fun h => h.2
      · rintro ⟨q', i, h⟩
        have e := hself.pool_unique h.1
        subst e
        exact ⟨hnew (hmem.mpr ⟨i, h⟩), q', i, h⟩
    · rw [hstage e] at hx hx'
      have : (L.carveSlab q c).freeList x = L.freeList x := Function.update_of_ne e ..
      rw [this]
      refine (S.slots.freeList hx hx').congr (fun s => ?_)
      constructor
      · rintro ⟨hp, q', i, h⟩
        rw [hold (hother e h)] at hp
        exact ⟨hp, q', i, hdrop e h⟩
      · rintro ⟨hp, q', i, h⟩
        rw [hold (hother e (hlift h))]
        exact ⟨hp, q', i, hlift h⟩
  · intro s q' x i h hx
    have hx' := hret.mp hx
    have e : x ≠ L.nextSlab c := by
      rintro rfl
      rw [hun] at hx'
      cases hx'
    rw [hold (hother e h)]
    exact S.slots.retired (hdrop e h) hx'
  · intro q'
    refine (S.slots.held q').congr (fun s => ?_)
    constructor
    · rintro ⟨hb, x, i, h⟩
      have hm : s ∉ slabSlotList (L.nextSlab c) q.sc := fun hm => by
        rw [hnew hm] at hb
        cases hb
      have e : x ≠ L.nextSlab c := by
        rintro rfl
        have e := hself.pool_unique h.1
        subst e
        exact hm (hmem.mpr ⟨i, h⟩)
      exact ⟨by rwa [hold hm] at hb, x, i, hdrop e h⟩
    · rintro ⟨hb, x, i, h⟩
      exact ⟨by rwa [hold (hother (hne h.1) (hlift h))], x, i, hlift h⟩
  · exact fun hx => S.meshed.self (fun e => hx (hret.mpr e))
  · intro q' x hx
    rcases (hslab ..).mp hx with ⟨rfl, rfl⟩ | hx
    · exact htself.symm ▸ hself
    · exact (hslab ..).mpr (Or.inr (S.meshed.pool hx))
  · intro x hx hne'
    obtain ⟨q', i, s, h, hv⟩ := S.meshed.donated (hret.mp hx) hne'
    refine ⟨q', i, s, hlift h, ?_⟩
    rw [hold (hother (hne h.1) (hlift h)), hv]
  · intro s s' q' q'' x x' i hs hs' h h' ht
    have ht' : L.target x = L.target x' := ht
    by_cases e : x = L.nextSlab c
    · -- both slots are the new slab's, at one index
      by_cases e' : x' = L.nextSlab c
      · subst e e'
        have e1 := hself.pool_unique h.1
        have e2 := hself.pool_unique h'.1
        subst e1 e2
        rw [h.2.2, h'.2.2]
      · rw [e, htself] at ht'
        exact absurd ht'.symm (htar (hdrop e' h').1)
    · by_cases e' : x' = L.nextSlab c
      · rw [e', htself] at ht'
        exact absurd ht' (htar (hdrop e h).1)
      · rw [hold (hother e h)] at hs
        rw [hold (hother e' h')] at hs'
        exact S.meshed.apart hs hs' (hdrop e h) (hdrop e' h') ht'

end Ledger

end BtMalloc
