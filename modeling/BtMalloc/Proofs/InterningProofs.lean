import BtMalloc.Interning
import BtMalloc.Lib.Probing
import Mathlib.Data.Finset.Card

/-!
# Proofs: interning is stable and injective

The table is one of linear probing whose slots are set once, under the lock. What a call has seen on
its way stays true, so a return address never gets a second entry, and the partition that a call
returns is determined by the table for good: by the entry, or, once the table is full without one, by
the hash.
-/

namespace BtMalloc.Interning

open Probing Transition

variable {cfg : Config} {s s' : State} {t u : ℕ} {ra part : ℕ}

/-! ## The invariant -/

/-- The table as a table of linear probing. -/
def keys (tbl : ℕ → ℕ × ℕ) (i : ℕ) : Option ℕ := if (tbl i).1 = 0 then none else some (tbl i).1

/-- The search for `ra` has come to slot `i` after passing `n` slots of other keys. -/
structure At (cfg : Config) (s : State) (ra n i : ℕ) : Prop where
  slot : i = slot cfg.internCap (start cfg) ra n
  lt : n < cfg.internCap
  passed : ra ≠ 0 → Passed cfg.internCap (start cfg) (keys s.tbl) ra n

/-- The partition of `ra` is settled. -/
def Assigned (cfg : Config) (tbl : ℕ → ℕ × ℕ) (ra part : ℕ) : Prop :=
  (∃ i < cfg.internCap, (tbl i).1 = ra ∧ part = (tbl i).2 &&& (cfg.nparts - 1)) ∨
    (∀ i < cfg.internCap, (tbl i).1 ≠ 0 ∧ (tbl i).1 ≠ ra) ∧ part = hash ra &&& (cfg.nparts - 1)

/-- Thread `t` holds the lock and fills the empty slot `i`, which the search for `ra` has come to. -/
structure Filling (cfg : Config) (s : State) (t ra i : ℕ) : Prop where
  lock : s.lock = some t
  pos : ra ≠ 0
  empty : (s.tbl i).1 = 0
  at_slot : ∃ n, At cfg s ra n i

/-- What holds where thread `t` is. -/
def PcOk (cfg : Config) (s : State) (t : ℕ) : Pc → Prop
  | .idle | .called _ => True
  | .probing ra n i => At cfg s ra n i
  | .matched ra i => ra ≠ 0 → i < cfg.internCap ∧ (s.tbl i).1 = ra
  | .empty ra n i => ra ≠ 0 ∧ At cfg s ra n i
  | .locked ra n i => s.lock = some t ∧ ra ≠ 0 ∧ At cfg s ra n i
  | .claiming ra i => Filling cfg s t ra i
  | .numbered ra i id => Filling cfg s t ra i ∧ s.claims[id]? = some ra
  | .publishing ra i id => Filling cfg s t ra i ∧ s.claims[id]? = some ra ∧ (s.tbl i).2 = id
  | .claimed ra id => s.lock = some t ∧ ∃ i < cfg.internCap, s.tbl i = (ra, id)
  | .beaten ra n i e => s.lock = some t ∧ ra ≠ 0 ∧ e ≠ 0 ∧ (s.tbl i).1 = e ∧ At cfg s ra n i
  | .done ra part => ra ≠ 0 → Assigned cfg s.tbl ra part

/-- The thread that holds the lock has an id for `ra` and has not published it yet. -/
def Pending (s : State) (ra : ℕ) : Prop :=
  ∃ t i id, (s.threads t).pc = .numbered ra i id ∨ (s.threads t).pc = .publishing ra i id

structure Inv (cfg : Config) (s : State) : Prop where
  placed : Placed cfg.internCap (start cfg) (keys s.tbl)
  pc : ∀ t, PcOk cfg s t (s.threads t).pc
  cache : ∀ t, (s.threads t).internRa ≠ 0 →
    Assigned cfg s.tbl (s.threads t).internRa (s.threads t).internPart
  ids : ∀ i < cfg.internCap, (s.tbl i).1 ≠ 0 → s.claims[(s.tbl i).2]? = some (s.tbl i).1
  nodup : s.claims.Nodup
  listed : ∀ ra ∈ s.claims, ra ≠ 0 ∧ ((∃ i < cfg.internCap, (s.tbl i).1 = ra) ∨ Pending s ra)
  next : s.next = s.claims.length
  card : (claimedEntries cfg s).card = s.claims.length
  returned : ∀ ra part, (ra, part) ∈ s.returned → ra ≠ 0 → Assigned cfg s.tbl ra part

/-! ## Sizes -/

theorem internCap_eq (cfg : Config) : cfg.internCap = 2 ^ max 10 (cfg.npartsLog + 3) := by
  unfold Config.internCap Config.nparts
  rw [show (1024 : ℕ) = 2 ^ 10 from rfl, show (8 : ℕ) = 2 ^ 3 from rfl, ← pow_add]
  exact (Monotone.map_max (pow_right_mono₀ (one_le_two (α := ℕ)))).symm

theorem internCap_pos (cfg : Config) : 0 < cfg.internCap := by
  rw [internCap_eq]
  exact Nat.two_pow_pos _

theorem internCap_lt (cfg : Config) : cfg.internCap < 2 ^ 32 := by
  rw [internCap_eq]
  refine Nat.pow_lt_pow_right (by omega) ?_
  have := cfg.npartsLog_le
  omega

theorem and_cap (cfg : Config) (x : ℕ) : x &&& (cfg.internCap - 1) = x % cfg.internCap := by
  rw [internCap_eq]
  exact Nat.and_two_pow_sub_one_eq_mod x _

theorem start_lt (cfg : Config) (ra : ℕ) : start cfg ra < cfg.internCap := by
  unfold start
  rw [and_cap]
  exact Nat.mod_lt _ (internCap_pos cfg)

theorem slot_zero (cfg : Config) (ra : ℕ) : slot cfg.internCap (start cfg) ra 0 = start cfg ra := by
  unfold Probing.slot
  rw [Nat.add_zero, Nat.mod_eq_of_lt (start_lt cfg ra)]

/-! ## What a step leaves to the other threads -/

/-- Entries with a return address stay. -/
def Grows (tbl tbl' : ℕ → ℕ × ℕ) : Prop := ∀ i, (tbl i).1 ≠ 0 → tbl' i = tbl i

theorem Grows.refl {tbl : ℕ → ℕ × ℕ} : Grows tbl tbl := fun _ _ => rfl

theorem keys_eq_some {tbl : ℕ → ℕ × ℕ} {i x : ℕ} : keys tbl i = some x ↔ (tbl i).1 = x ∧ x ≠ 0 := by
  unfold keys
  split_ifs with h
  · constructor
    · intro e
      cases e
    · rintro ⟨rfl, hx⟩
      exact absurd h hx
  · rw [Option.some.injEq]
    exact ⟨fun e => ⟨e, e ▸ h⟩, fun e => e.1⟩

theorem keys_eq_none {tbl : ℕ → ℕ × ℕ} {i : ℕ} : keys tbl i = none ↔ (tbl i).1 = 0 := by
  unfold keys
  split_ifs with h <;> simp [h]

theorem Grows.extends {tbl tbl' : ℕ → ℕ × ℕ} (h : Grows tbl tbl') : Extends (keys tbl) (keys tbl') := by
  intro i x hx
  rw [keys_eq_some] at hx ⊢
  rw [h i (by rw [hx.1]; exact hx.2)]
  exact hx

theorem Grows.assigned {tbl tbl' : ℕ → ℕ × ℕ} (h : Grows tbl tbl') (hra : ra ≠ 0)
    (ha : Assigned cfg tbl ra part) : Assigned cfg tbl' ra part := by
  rcases ha with ⟨i, hi, he, hp⟩ | ⟨hall, hp⟩
  · refine Or.inl ⟨i, hi, ?_⟩
    rw [h i (by rw [he]; exact hra)]
    exact ⟨he, hp⟩
  · refine Or.inr ⟨fun i hi => ?_, hp⟩
    rw [h i (hall i hi).1]
    exact hall i hi

theorem At.grow {n i : ℕ} (h : At cfg s ra n i) (hg : Grows s.tbl s'.tbl) : At cfg s' ra n i :=
  ⟨h.slot, h.lt, fun hra => (h.passed hra).extend hg.extends⟩

/-- What the other threads rely on when thread `t` takes a step. -/
structure Frame (t : ℕ) (s s' : State) : Prop where
  other : ∀ u, u ≠ t → s'.threads u = s.threads u
  grows : Grows s.tbl s'.tbl
  claims : s.claims <+: s'.claims
  lock : ∀ u, u ≠ t → s.lock = some u → s'.lock = some u ∧ s'.tbl = s.tbl

theorem Filling.frame {i : ℕ} (h : Filling cfg s u ra i) (F : Frame t s s') (hu : u ≠ t) :
    Filling cfg s' u ra i := by
  obtain ⟨h1, h2⟩ := F.lock u hu h.lock
  obtain ⟨n, hn⟩ := h.at_slot
  exact ⟨h1, h.pos, by rw [h2]; exact h.empty, n, hn.grow F.grows⟩

theorem claims_getElem {l l' : List ℕ} {id x : ℕ} (h : l <+: l') (hx : l[id]? = some x) :
    l'[id]? = some x := by
  obtain ⟨m, rfl⟩ := h
  rw [List.getElem?_append_left (List.getElem?_eq_some_iff.mp hx).1]
  exact hx

theorem PcOk.frame {pc : Pc} (h : PcOk cfg s u pc) (F : Frame t s s') (hu : u ≠ t) :
    PcOk cfg s' u pc := by
  cases pc with
  | idle => trivial
  | called ra => trivial
  | probing ra n i => exact At.grow h F.grows
  | matched ra i =>
    intro hra
    obtain ⟨h1, h2⟩ := h hra
    exact ⟨h1, by rw [F.grows i (by rw [h2]; exact hra)]; exact h2⟩
  | empty ra n i => exact ⟨h.1, h.2.grow F.grows⟩
  | locked ra n i => exact ⟨(F.lock u hu h.1).1, h.2.1, h.2.2.grow F.grows⟩
  | claiming ra i => exact Filling.frame h F hu
  | numbered ra i id => exact ⟨h.1.frame F hu, claims_getElem F.claims h.2⟩
  | publishing ra i id =>
    exact ⟨h.1.frame F hu, claims_getElem F.claims h.2.1, by rw [(F.lock u hu h.1.lock).2]; exact h.2.2⟩
  | claimed ra id =>
    obtain ⟨h1, i, hi, he⟩ := h
    exact ⟨(F.lock u hu h1).1, i, hi, by rw [(F.lock u hu h1).2]; exact he⟩
  | beaten ra n i e =>
    obtain ⟨h1, h2, h3, h4, h5⟩ := h
    exact ⟨(F.lock u hu h1).1, h2, h3, by rw [(F.lock u hu h1).2]; exact h4, h5.grow F.grows⟩
  | done ra part => exact fun hra => F.grows.assigned hra (h hra)

/-- A step of thread `t` outside of a claim: the table and the ids stay. -/
structure Calm (t : ℕ) (s s' : State) : Prop where
  other : ∀ u, u ≠ t → s'.threads u = s.threads u
  tbl : s'.tbl = s.tbl
  claims : s'.claims = s.claims
  next : s'.next = s.next
  idle : (s.threads t).pc.filling = none
  idle' : (s'.threads t).pc.filling = none
  lock : s'.lock = s.lock ∨ (s.lock = none ∨ s.lock = some t) ∧ (s'.lock = none ∨ s'.lock = some t)

theorem Calm.frame (C : Calm t s s') : Frame t s s' := by
  refine ⟨C.other, by rw [C.tbl]; exact Grows.refl, by rw [C.claims], fun u hu hl => ⟨?_, C.tbl⟩⟩
  rcases C.lock with h | ⟨h, -⟩
  · rw [h, hl]
  · rw [hl] at h
    rcases h with h | h
    · cases h
    · exact absurd (Option.some.inj h) hu

/-- Nobody starts or ends filling a slot in such a step. -/
theorem Calm.filling (C : Calm t s s') : s'.lock.bind (fun u => (s'.threads u).pc.filling) =
    s.lock.bind (fun u => (s.threads u).pc.filling) := by
  have hthread : ∀ u, (s'.threads u).pc.filling = (s.threads u).pc.filling := by
    intro u
    by_cases e : u = t
    · rw [e, C.idle, C.idle']
    · rw [C.other u e]
  rcases C.lock with h | ⟨h1, h2⟩
  · rw [h]
    cases s.lock with
    | none => rfl
    | some u => exact hthread u
  · have e1 : s.lock.bind (fun u => (s.threads u).pc.filling) = none := by
      rcases h1 with h1 | h1 <;> rw [h1]
      · rfl
      · exact C.idle
    have e2 : s'.lock.bind (fun u => (s'.threads u).pc.filling) = none := by
      rcases h2 with h2 | h2 <;> rw [h2]
      · rfl
      · exact C.idle'
    rw [e1, e2]

theorem Calm.pending (C : Calm t s s') (h : Pending s ra) : Pending s' ra := by
  obtain ⟨u, i, id, hu⟩ := h
  have hne : u ≠ t := by
    rintro rfl
    have := C.idle
    rcases hu with hu | hu <;> rw [hu] at this <;> cases this
  exact ⟨u, i, id, by rw [C.other u hne]; exact hu⟩

theorem Calm.inv (C : Calm t s s') (I : Inv cfg s) (hpc : PcOk cfg s' t (s'.threads t).pc)
    (hcache : (s'.threads t).internRa ≠ 0 →
      Assigned cfg s.tbl (s'.threads t).internRa (s'.threads t).internPart)
    (hret : ∀ ra part, (ra, part) ∈ s'.returned → ra ≠ 0 →
      (ra, part) ∈ s.returned ∨ Assigned cfg s.tbl ra part) : Inv cfg s' := by
  refine ⟨by rw [C.tbl]; exact I.placed, fun u => ?_, fun u => ?_, ?_, by rw [C.claims]; exact I.nodup, ?_,
    by rw [C.next, C.claims]; exact I.next, ?_, fun ra part hm hra => ?_⟩
  · by_cases e : u = t
    · rw [e]
      exact hpc
    · rw [C.other u e]
      exact (I.pc u).frame C.frame e
  · by_cases e : u = t
    · rw [e, C.tbl]
      exact hcache
    · rw [C.other u e, C.tbl]
      exact I.cache u
  · rw [C.tbl, C.claims]
    exact I.ids
  · rw [C.tbl, C.claims]
    exact fun ra hra => ⟨(I.listed ra hra).1, (I.listed ra hra).2.imp id C.pending⟩
  · rw [C.claims, ← I.card]
    unfold claimedEntries
    rw [C.tbl, C.filling]
  · rw [C.tbl]
    rcases hret ra part hm hra with h | h
    · exact I.returned ra part h hra
    · exact h

/-! ## The steps outside of a claim -/

theorem goto_self (s : State) (t : ℕ) (pc : Pc) :
    (s.goto t pc).threads t = { s.threads t with pc := pc } := Function.update_self ..

theorem goto_other (s : State) (t : ℕ) (pc : Pc) (u : ℕ) (hu : u ≠ t) :
    (s.goto t pc).threads u = s.threads u := Function.update_of_ne hu ..

/-- A step that only moves the thread on. -/
theorem Inv.goto (I : Inv cfg s) {pc : Pc} (h1 : (s.threads t).pc.filling = none)
    (h2 : pc.filling = none) (hpc : PcOk cfg (s.goto t pc) t pc) : Inv cfg (s.goto t pc) := by
  have hself := goto_self s t pc
  refine Calm.inv ⟨goto_other s t pc, rfl, rfl, rfl, h1, by rw [hself]; exact h2, Or.inl rfl⟩ I
    (by rw [hself]; exact hpc) (by rw [hself]; exact I.cache t) (fun _ _ hm _ => Or.inl hm)

/-- The fallback, once every slot was seen to belong to another return address. -/
theorem assigned_of_passed {tbl : ℕ → ℕ × ℕ} (h : Passed cfg.internCap (start cfg) (keys tbl) ra cfg.internCap) :
    Assigned cfg tbl ra (hash ra &&& (cfg.nparts - 1)) := by
  refine Or.inr ⟨fun i hi => ?_, rfl⟩
  obtain ⟨y, hy, hk⟩ := h.full hi
  rw [keys_eq_some] at hk
  exact ⟨by rw [hk.1]; exact hk.2, by rw [hk.1]; exact hy⟩

/-- Going on to the next slot after one that belongs to `e`. -/
theorem At.next {n i e : ℕ} (h : At cfg s ra n i) (he : e ≠ 0) (hne : e ≠ ra) (hs : (s.tbl i).1 = e)
    (htbl : s'.tbl = s.tbl) : PcOk cfg s' t (nextProbe cfg ra n i) := by
  have hpass : ra ≠ 0 → Passed cfg.internCap (start cfg) (keys s.tbl) ra (n + 1) := by
    intro hra
    refine (h.passed hra).succ hne ?_
    rw [← h.slot, keys_eq_some]
    exact ⟨hs, he⟩
  unfold nextProbe
  split_ifs with hn
  · refine ⟨?_, hn, by rw [htbl]; exact hpass⟩
    rw [and_cap, h.slot]
    unfold Probing.slot
    rw [Nat.mod_add_mod, Nat.add_assoc]
  · intro hra
    rw [htbl]
    have : n + 1 = cfg.internCap := by
      have := h.lt
      omega
    exact assigned_of_passed (this ▸ hpass hra)

theorem nextProbe_filling {n i : ℕ} : (nextProbe cfg ra n i).filling = none := by
  unfold nextProbe
  split_ifs <;> rfl

/-- The steps of a call outside of a claim keep the invariant. -/
theorem Inv.search (I : Inv cfg s) (hst : advance cfg s t (s.threads t).pc = some s')
    (hf : (s.threads t).pc.filling = none) (hc : ∀ ra i, (s.threads t).pc ≠ .claiming ra i) :
    Inv cfg s' := by
  have hpc := I.pc t
  cases h : (s.threads t).pc with
  | idle => rw [h] at hst; cases hst
  | called ra =>
    simp only [h, advance] at hst
    split_ifs at hst with hra
    · cases hst
      have hself := goto_self s t .idle
      refine Calm.inv ⟨goto_other s t .idle, rfl, rfl, rfl, hf, by dsimp only; rw [hself]; rfl,
        Or.inl rfl⟩ I (by dsimp only; rw [hself]; trivial) (by dsimp only; rw [hself]; exact I.cache t)
        (fun ra' part hm hne => ?_)
      rcases List.mem_cons.mp hm with e | hm
      · obtain ⟨rfl, rfl⟩ := Prod.mk.inj e
        right
        rw [hra] at hne ⊢
        exact I.cache t hne
      · exact Or.inl hm
    · cases hst
      exact I.goto hf rfl ⟨(slot_zero cfg ra).symm, internCap_pos cfg, fun _ => Passed.zero⟩
  | probing ra n i =>
    rw [h] at hpc
    simp only [h, advance, Option.some.injEq] at hst
    subst hst
    split_ifs with h1 h2
    · refine I.goto hf rfl (fun _ => ⟨?_, h1⟩)
      rw [hpc.slot]
      exact slot_lt (internCap_pos cfg)
    · exact I.goto hf rfl ⟨fun e => h1 (h2.trans e.symm), hpc.grow Grows.refl⟩
    · exact I.goto hf nextProbe_filling (hpc.next h2 h1 rfl rfl)
  | matched ra i =>
    rw [h] at hpc
    simp only [h, advance, Option.some.injEq] at hst
    subst hst
    refine I.goto hf rfl (fun hra => Or.inl ?_)
    obtain ⟨h1, h2⟩ := hpc hra
    exact ⟨i, h1, h2, rfl⟩
  | empty ra n i =>
    rw [h] at hpc
    simp only [h, advance] at hst
    split_ifs at hst with hl
    cases hst
    have hself := goto_self s t (.locked ra n i)
    exact Calm.inv ⟨goto_other s t _, rfl, rfl, rfl, hf, by dsimp only; rw [hself]; rfl,
      Or.inr ⟨Or.inl hl, Or.inr rfl⟩⟩ I
      (by dsimp only; rw [hself]; exact ⟨rfl, hpc.1, hpc.2.grow Grows.refl⟩)
      (by dsimp only; rw [hself]; exact I.cache t) (fun _ _ hm _ => Or.inl hm)
  | locked ra n i =>
    rw [h] at hpc
    simp only [h, advance, Option.some.injEq] at hst
    subst hst
    obtain ⟨h1, h2, h3⟩ := hpc
    split_ifs with he
    · exact I.goto hf rfl ⟨h1, h2, he, n, h3.grow Grows.refl⟩
    · exact I.goto hf rfl ⟨h1, h2, he, rfl, h3.grow Grows.refl⟩
  | claiming ra i => exact absurd h (hc ra i)
  | numbered ra i id => rw [h] at hf; cases hf
  | publishing ra i id => rw [h] at hf; cases hf
  | claimed ra id =>
    rw [h] at hpc
    simp only [h, advance, Option.some.injEq] at hst
    subst hst
    obtain ⟨h1, i, hi, he⟩ := hpc
    have hself := goto_self s t (.done ra (id &&& (cfg.nparts - 1)))
    exact Calm.inv ⟨goto_other s t _, rfl, rfl, rfl, hf, by dsimp only; rw [hself]; rfl,
      Or.inr ⟨Or.inr h1, Or.inl rfl⟩⟩ I
      (by dsimp only; rw [hself]; exact fun _ => Or.inl ⟨i, hi, by rw [State.goto, he], by
        rw [State.goto, he]⟩)
      (by dsimp only; rw [hself]; exact I.cache t) (fun _ _ hm _ => Or.inl hm)
  | beaten ra n i e =>
    rw [h] at hpc
    simp only [h, advance, Option.some.injEq] at hst
    subst hst
    obtain ⟨h1, h2, h3, h4, h5⟩ := hpc
    have hself := goto_self s t (if e = ra then .matched ra i else nextProbe cfg ra n i)
    refine Calm.inv ⟨goto_other s t _, rfl, rfl, rfl, hf, ?_, Or.inr ⟨Or.inr h1, Or.inl rfl⟩⟩ I ?_
      (by dsimp only; rw [hself]; exact I.cache t) (fun _ _ hm _ => Or.inl hm)
    · dsimp only
      rw [hself]
      split_ifs
      · rfl
      · exact nextProbe_filling
    · dsimp only
      rw [hself]
      split_ifs with he
      · refine fun _ => ⟨?_, h4.trans he⟩
        rw [h5.slot]
        exact slot_lt (internCap_pos cfg)
      · exact h5.next h3 he h4 rfl
  | done ra part =>
    rw [h] at hpc
    simp only [h, advance, Option.some.injEq] at hst
    subst hst
    have hself : Function.update s.threads t { pc := .idle, internRa := ra, internPart := part } t =
      { pc := .idle, internRa := ra, internPart := part } := Function.update_self ..
    refine Calm.inv ⟨fun u hu => Function.update_of_ne hu .., rfl, rfl, rfl, hf,
      by dsimp only; rw [hself]; rfl, Or.inl rfl⟩ I (by dsimp only; rw [hself]; trivial)
      (by dsimp only; rw [hself]; exact hpc) (fun ra' part' hm hne => ?_)
    rcases List.mem_cons.mp hm with e | hm
    · obtain ⟨rfl, rfl⟩ := Prod.mk.inj e
      exact Or.inr (hpc hne)
    · exact Or.inl hm

/-! ## The steps of a claim -/

/-- A step of the thread that holds the lock and fills a slot. -/
theorem Filling.step_frame {i : ℕ} (h : Filling cfg s t ra i)
    (ho : ∀ u, u ≠ t → s'.threads u = s.threads u) (hg : Grows s.tbl s'.tbl)
    (hc : s.claims <+: s'.claims) : Frame t s s' := by
  refine ⟨ho, hg, hc, fun u hu hl => ?_⟩
  rw [h.lock] at hl
  exact absurd (Option.some.inj hl).symm hu

/-- Only the holder of the lock has an id pending. -/
theorem Inv.pending (I : Inv cfg s) (hl : s.lock = some t) (h : Pending s ra) :
    ∃ i id, (s.threads t).pc = .numbered ra i id ∨ (s.threads t).pc = .publishing ra i id := by
  obtain ⟨u, i, id, hu⟩ := h
  have hpc := I.pc u
  have hlock : s.lock = some u := by
    rcases hu with hu | hu <;> rw [hu] at hpc
    · exact hpc.1.lock
    · exact hpc.1.lock
  rw [hl] at hlock
  obtain rfl := Option.some.inj hlock
  exact ⟨i, id, hu⟩

theorem Filling.lt {i : ℕ} (h : Filling cfg s t ra i) : i < cfg.internCap := by
  obtain ⟨n, hn⟩ := h.at_slot
  rw [hn.slot]
  exact slot_lt (internCap_pos cfg)

/-- The parts of the invariant that follow thread by thread. -/
theorem Frame.pcs (F : Frame t s s') (I : Inv cfg s) (ht : PcOk cfg s' t (s'.threads t).pc) (u : ℕ) :
    PcOk cfg s' u (s'.threads u).pc := by
  by_cases e : u = t
  · rw [e]
    exact ht
  · rw [F.other u e]
    exact (I.pc u).frame F e

theorem Frame.caches (F : Frame t s s') (I : Inv cfg s)
    (h1 : (s'.threads t).internRa = (s.threads t).internRa)
    (h2 : (s'.threads t).internPart = (s.threads t).internPart) (u : ℕ)
    (hne : (s'.threads u).internRa ≠ 0) :
    Assigned cfg s'.tbl (s'.threads u).internRa (s'.threads u).internPart := by
  by_cases e : u = t
  · subst e
    rw [h1] at hne ⊢
    rw [h2]
    exact F.grows.assigned hne (I.cache u hne)
  · rw [F.other u e] at hne ⊢
    exact F.grows.assigned hne (I.cache u hne)

/-- The thread gets its id. -/
theorem Inv.claim (I : Inv cfg s) {i : ℕ} (h : (s.threads t).pc = .claiming ra i) :
    Inv cfg { s.goto t (.numbered ra i s.next) with
      next := (s.next + 1) % 2 ^ 32, claims := s.claims ++ [ra] } := by
  have hpc := I.pc t
  rw [h] at hpc
  obtain ⟨n, hn⟩ := hpc.at_slot
  have hpend : ∀ ra', ¬ Pending s ra' := by
    intro ra' hp
    obtain ⟨j, id, hj⟩ := I.pending hpc.lock hp
    rw [h] at hj
    rcases hj with hj | hj <;> cases hj
  have hself := goto_self s t (.numbered ra i s.next)
  have F : Frame t s { s.goto t (.numbered ra i s.next) with
      next := (s.next + 1) % 2 ^ 32, claims := s.claims ++ [ra] } :=
    hpc.step_frame (goto_other s t _) Grows.refl (List.prefix_append ..)
  -- the slot joins the claimed ones
  have hset : claimedEntries cfg { s.goto t (.numbered ra i s.next) with
      next := (s.next + 1) % 2 ^ 32, claims := s.claims ++ [ra] } = insert i (claimedEntries cfg s) := by
    ext j
    have hl : (s.goto t (.numbered ra i s.next)).lock = some t := hpc.lock
    simp only [claimedEntries, Finset.mem_filter, Finset.mem_range, Finset.mem_insert, hl, hpc.lock,
      Option.bind_some, hself, h, Pc.filling, reduceCtorEq, or_false, Option.some.injEq]
    constructor
    · rintro ⟨hj, hk | rfl⟩
      · exact Or.inr ⟨hj, hk⟩
      · exact Or.inl rfl
    · rintro (rfl | ⟨hj, hk⟩)
      · exact ⟨hpc.lt, Or.inr rfl⟩
      · exact ⟨hj, Or.inl hk⟩
  have hnot : i ∉ claimedEntries cfg s := by
    simp [claimedEntries, hpc.empty, hpc.lock, h, Pc.filling]
  have hcard : (insert i (claimedEntries cfg s)).card = s.claims.length + 1 := by
    rw [Finset.card_insert_of_notMem hnot, I.card]
  have hle : s.claims.length + 1 ≤ cfg.internCap := by
    rw [← hcard, ← hset]
    refine (Finset.card_le_card (Finset.filter_subset _ _)).trans ?_
    rw [Finset.card_range]
  have hnotin : ra ∉ s.claims := by
    intro hm
    rcases (I.listed ra hm).2 with ⟨j, hj, e⟩ | hp
    · refine I.placed.absent (hn.passed hpc.pos) ?_ hj (keys_eq_some.mpr ⟨e, hpc.pos⟩)
      rw [← hn.slot, keys_eq_none]
      exact hpc.empty
    · exact hpend ra hp
  refine ⟨I.placed, F.pcs I ?_, F.caches I ?_ ?_, fun j hj hne => ?_, ?_, fun ra' hm => ?_, ?_, ?_,
    fun ra' part hm hra => I.returned ra' part hm hra⟩
  · dsimp only
    rw [hself]
    refine ⟨⟨hpc.lock, hpc.pos, hpc.empty, n, hn.grow Grows.refl⟩, ?_⟩
    simp [I.next]
  · dsimp only
    rw [hself]
  · dsimp only
    rw [hself]
  · exact claims_getElem (List.prefix_append ..) (I.ids j hj hne)
  · exact List.Nodup.append I.nodup (List.nodup_singleton _) (by simpa using hnotin)
  · rcases List.mem_append.mp hm with hm | hm
    · obtain ⟨h0, hr⟩ := I.listed ra' hm
      exact ⟨h0, hr.imp id (fun hp => absurd hp (hpend ra'))⟩
    · obtain rfl := List.mem_singleton.mp hm
      exact ⟨hpc.pos, Or.inr ⟨t, i, s.next, Or.inl (by dsimp only; rw [hself])⟩⟩
  · show (s.next + 1) % 2 ^ 32 = (s.claims ++ [ra]).length
    have := internCap_lt cfg
    rw [List.length_append, List.length_singleton, I.next]
    exact Nat.mod_eq_of_lt (by omega)
  · rw [hset, hcard]
    simp

/-- The thread stores its id in the slot. -/
theorem Inv.number (I : Inv cfg s) {i id : ℕ} (h : (s.threads t).pc = .numbered ra i id) :
    Inv cfg { s.goto t (.publishing ra i id) with
      tbl := Function.update s.tbl i ((s.tbl i).1, id) } := by
  have hpc := I.pc t
  rw [h] at hpc
  obtain ⟨hfill, hid⟩ := hpc
  obtain ⟨n, hn⟩ := hfill.at_slot
  have hself := goto_self s t (.publishing ra i id)
  have hfst : ∀ j, (Function.update s.tbl i ((s.tbl i).1, id) j).1 = (s.tbl j).1 := by
    intro j
    by_cases e : j = i
    · rw [e, Function.update_self]
    · rw [Function.update_of_ne e]
  have hgrow : Grows s.tbl (Function.update s.tbl i ((s.tbl i).1, id)) := by
    intro j hj
    have e : j ≠ i := fun e => hj (e ▸ hfill.empty)
    rw [Function.update_of_ne e]
  have hkeys : keys (Function.update s.tbl i ((s.tbl i).1, id)) = keys s.tbl := by
    funext j
    unfold keys
    rw [hfst]
  have F : Frame t s { s.goto t (.publishing ra i id) with
      tbl := Function.update s.tbl i ((s.tbl i).1, id) } :=
    hfill.step_frame (goto_other s t _) hgrow (List.prefix_refl _)
  refine ⟨by dsimp only; rw [hkeys]; exact I.placed, F.pcs I ?_, F.caches I ?_ ?_, fun j hj hne => ?_,
    I.nodup, fun ra' hm => ?_, I.next, ?_, fun ra' part hm hra => hgrow.assigned hra (I.returned ra' part hm hra)⟩
  · dsimp only
    rw [hself]
    refine ⟨⟨hfill.lock, hfill.pos, (hfst i).trans hfill.empty, n, hn.grow hgrow⟩, hid, ?_⟩
    dsimp only
    rw [Function.update_self]
  · dsimp only
    rw [hself]
  · dsimp only
    rw [hself]
  · dsimp only at hne ⊢
    rw [hfst] at hne
    rw [hgrow j hne]
    exact I.ids j hj hne
  · obtain ⟨h0, hr⟩ := I.listed ra' hm
    refine ⟨h0, ?_⟩
    rcases hr with ⟨j, hj, e⟩ | hp
    · exact Or.inl ⟨j, hj, (hfst j).trans e⟩
    · obtain ⟨j, id', hj⟩ := I.pending hfill.lock hp
      rw [h] at hj
      rcases hj with hj | hj
      · cases hj
        exact Or.inr ⟨t, i, id, Or.inr (by dsimp only; rw [hself])⟩
      · cases hj
  · rw [show ({ s.goto t (.publishing ra i id) with
      tbl := Function.update s.tbl i ((s.tbl i).1, id) } : State).claims = s.claims from rfl, ← I.card]
    unfold claimedEntries
    have hl : (s.goto t (.publishing ra i id)).lock = some t := hfill.lock
    simp only [hfst, hl, hfill.lock, Option.bind_some, hself, h, Pc.filling]

/-- The thread publishes its return address. -/
theorem Inv.publish (I : Inv cfg s) {i id : ℕ} (h : (s.threads t).pc = .publishing ra i id) :
    Inv cfg { s.goto t (.claimed ra id) with tbl := Function.update s.tbl i (ra, (s.tbl i).2) } := by
  have hpc := I.pc t
  rw [h] at hpc
  obtain ⟨hfill, hid, hsnd⟩ := hpc
  obtain ⟨n, hn⟩ := hfill.at_slot
  have hself := goto_self s t (.claimed ra id)
  have hgrow : Grows s.tbl (Function.update s.tbl i (ra, (s.tbl i).2)) := by
    intro j hj
    have e : j ≠ i := fun e => hj (e ▸ hfill.empty)
    rw [Function.update_of_ne e]
  have hkeys : keys (Function.update s.tbl i (ra, (s.tbl i).2)) =
      Function.update (keys s.tbl) i (some ra) := by
    funext j
    by_cases e : j = i
    · subst e
      simp [keys, hfill.pos]
    · simp [keys, e]
  have F : Frame t s { s.goto t (.claimed ra id) with
      tbl := Function.update s.tbl i (ra, (s.tbl i).2) } :=
    hfill.step_frame (goto_other s t _) hgrow (List.prefix_refl _)
  refine ⟨?_, F.pcs I ?_, F.caches I ?_ ?_, fun j hj hne => ?_, I.nodup, fun ra' hm => ?_, I.next, ?_,
    fun ra' part hm hra => hgrow.assigned hra (I.returned ra' part hm hra)⟩
  · dsimp only
    rw [hkeys, hn.slot]
    refine I.placed.insert hn.lt (hn.passed hfill.pos) ?_
    rw [← hn.slot, keys_eq_none]
    exact hfill.empty
  · dsimp only
    rw [hself]
    refine ⟨hfill.lock, i, hfill.lt, ?_⟩
    dsimp only
    rw [Function.update_self, hsnd]
  · dsimp only
    rw [hself]
  · dsimp only
    rw [hself]
  · dsimp only at hne ⊢
    by_cases e : j = i
    · subst e
      rw [Function.update_self, hsnd]
      exact hid
    · rw [Function.update_of_ne e] at hne ⊢
      exact I.ids j hj hne
  · obtain ⟨h0, hr⟩ := I.listed ra' hm
    refine ⟨h0, Or.inl ?_⟩
    rcases hr with ⟨j, hj, e⟩ | hp
    · exact ⟨j, hj, by dsimp only; rw [hgrow j (by rw [e]; exact h0)]; exact e⟩
    · obtain ⟨j, id', hj⟩ := I.pending hfill.lock hp
      rw [h] at hj
      rcases hj with hj | hj
      · cases hj
      · cases hj
        exact ⟨i, hfill.lt, by simp⟩
  · rw [show ({ s.goto t (.claimed ra id) with tbl := Function.update s.tbl i (ra, (s.tbl i).2) } :
      State).claims = s.claims from rfl, ← I.card]
    congr 1
    ext j
    have hl : (s.goto t (.claimed ra id)).lock = some t := hfill.lock
    simp only [claimedEntries, Finset.mem_filter, Finset.mem_range, hl, hfill.lock, Option.bind_some,
      hself, h, Pc.filling, reduceCtorEq, or_false, Option.some.injEq]
    by_cases e : j = i
    · subst e
      simp [hfill.pos]
    · simp [e, Ne.symm e]

/-! ## Every run -/

theorem Inv.init : Inv cfg State.init where
  placed := fun i _ x hx => by cases hx
  pc := fun _ => trivial
  cache := fun _ h => absurd rfl h
  ids := fun _ _ h => absurd rfl h
  nodup := List.nodup_nil
  listed := by simp [State.init]
  next := rfl
  card := by simp [claimedEntries, State.init]
  returned := by simp [State.init]

/-- Every step keeps the invariant. -/
theorem Inv.step {a : Action} (I : Inv cfg s) (hst : step cfg s a = some s') : Inv cfg s' := by
  cases a with
  | call t ra =>
    simp only [Interning.step] at hst
    split at hst
    next h =>
      cases hst
      exact I.goto (by rw [h]; rfl) rfl trivial
    next => cases hst
  | next t =>
    simp only [Interning.step] at hst
    cases h : (s.threads t).pc with
    | claiming ra i =>
      rw [h] at hst
      cases hst
      exact I.claim h
    | numbered ra i id =>
      rw [h] at hst
      cases hst
      exact I.number h
    | publishing ra i id =>
      rw [h] at hst
      cases hst
      exact I.publish h
    | _ => exact I.search hst (by rw [h]; rfl) (by simp [h])

/-- Two settled partitions of one return address are the same. -/
theorem Assigned.unique (I : Inv cfg s) {p p' : ℕ} (hra : ra ≠ 0) (h : Assigned cfg s.tbl ra p)
    (h' : Assigned cfg s.tbl ra p') : p = p' := by
  rcases h with ⟨i, hi, e, rfl⟩ | ⟨hall, rfl⟩
  · rcases h' with ⟨j, hj, e', rfl⟩ | ⟨hall, -⟩
    · rw [I.placed.unique hi hj (keys_eq_some.mpr ⟨e, hra⟩) (keys_eq_some.mpr ⟨e', hra⟩)]
    · exact absurd e (hall i hi).2
  · rcases h' with ⟨j, hj, e', -⟩ | ⟨-, rfl⟩
    · exact absurd e' (hall j hj).2
    · rfl

/-- A settled partition of a return address with an entry comes from its id. -/
theorem Assigned.of_claim (I : Inv cfg s) {n : ℕ} (h : Assigned cfg s.tbl ra part)
    (hn : s.claims[n]? = some ra) : part = n &&& (cfg.nparts - 1) := by
  have hmem := List.mem_of_getElem? hn
  obtain ⟨h0, hr⟩ := I.listed ra hmem
  rcases h with ⟨i, hi, e, rfl⟩ | ⟨hall, -⟩
  · have hid := I.ids i hi (by rw [e]; exact h0)
    rw [e] at hid
    obtain ⟨l1, e1⟩ := List.getElem?_eq_some_iff.mp hid
    obtain ⟨l2, e2⟩ := List.getElem?_eq_some_iff.mp hn
    rw [(List.Nodup.getElem_inj_iff I.nodup).mp (e1.trans e2.symm)]
  · rcases hr with ⟨i, hi, e⟩ | ⟨u, i, id, hu⟩
    · exact absurd e (hall i hi).2
    · -- a slot that is being filled is still empty
      have hpc := I.pc u
      have hf : Filling cfg s u ra i := by
        rcases hu with hu | hu <;> rw [hu] at hpc
        · exact hpc.1
        · exact hpc.1
      exact absurd hf.empty (hall i hf.lt).1

/-- **Interning is stable and injective.** In every state of every run, a return address has at most
    one entry, `intern_next` counts the claimed entries, the calls with one return address have all
    returned the same partition, and the first `btm_nparts` return addresses that claimed an entry
    have different ones. -/
theorem interning_stable_injective (cfg : Config) (as : List Action) (s : State)
    (h : Run (step cfg) (fun _ _ => True) State.init as s) :
    (∀ i < cfg.internCap, ∀ j < cfg.internCap, (s.tbl i).1 ≠ 0 → (s.tbl i).1 = (s.tbl j).1 → i = j) ∧
    s.next = (claimedEntries cfg s).card ∧ s.next = s.claims.length ∧
    (∀ ra p p', ra ≠ 0 → (ra, p) ∈ s.returned → (ra, p') ∈ s.returned → p = p') ∧
    ∀ m < cfg.nparts, ∀ n < cfg.nparts, ∀ ra ra' p p', s.claims[m]? = some ra →
      s.claims[n]? = some ra' → ra ≠ ra' → (ra, p) ∈ s.returned → (ra', p') ∈ s.returned → p ≠ p' := by
  have I : Inv cfg s := h.invariant (Inv cfg) (fun _ _ _ I _ hst => I.step hst) Inv.init
  refine ⟨fun i hi j hj h0 e => ?_, by rw [I.next, I.card], I.next, fun ra p p' h0 hp hp' => ?_,
    fun m hm n hn ra ra' p p' hc hc' hne hp hp' e => ?_⟩
  · exact I.placed.unique hi hj (keys_eq_some.mpr ⟨rfl, h0⟩) (keys_eq_some.mpr ⟨e.symm, h0⟩)
  · exact Assigned.unique I h0 (I.returned ra p hp h0) (I.returned ra p' hp' h0)
  · have e1 := (I.returned ra p hp (I.listed ra (List.mem_of_getElem? hc)).1).of_claim I hc
    have e2 := (I.returned ra' p' hp' (I.listed ra' (List.mem_of_getElem? hc')).1).of_claim I hc'
    have hand : ∀ x < cfg.nparts, x &&& (cfg.nparts - 1) = x := fun x hx => by
      rw [Config.nparts, Nat.and_two_pow_sub_one_eq_mod]
      exact Nat.mod_eq_of_lt hx
    rw [hand m hm] at e1
    rw [hand n hn] at e2
    rw [← e1, e, e2, hc'] at hc
    exact hne (Option.some.inj hc).symm

/-! ## Two runs -/

/-- Intern mode with two partitions. -/
def twoParts : Config :=
  { Config.plain with internMode := true, npartsLog := 1, npartsLog_le := by decide }

/-- Thread `t` calls `btm_partition_of(ra)` and makes `n` accesses. -/
def calls (t ra n : ℕ) : List Action := .call t ra :: List.replicate n (.next t)

/-- A computed run. -/
theorem run_calls {as : List Action} (h : checks (step twoParts) (fun _ _ => true) State.init as = true) :
    Run (step twoParts) (fun _ _ => True) State.init as (finish (step twoParts) State.init as) :=
  (run_of_checks (P := fun _ => True) h trivial (fun _ _ _ _ => trivial) (fun _ _ _ _ _ _ => trivial)).1

set_option maxRecDepth 100000 in
/-- Two threads intern one call site, and one of them a second one. -/
theorem interning_two_sites :
    (claimedEntries twoParts (finish (step twoParts) State.init
      (calls 0 0x402000 9 ++ calls 1 0x402000 4 ++ calls 0 0x403000 9))).card = 2 := by
  rw [← (interning_stable_injective twoParts _ _ ((@run_calls
    (calls 0 0x402000 9 ++ calls 1 0x402000 4 ++ calls 0 0x403000 9)) (by decide +kernel))).2.1]
  decide +kernel

set_option maxRecDepth 100000 in
/-- For return address 0, which marks an empty slot, the partition depends on a claim that is under
    way: thread 2 gets partition 0 from its fresh cache, and thread 1 gets the id that thread 0 has
    stored in slot 0 and not published yet. -/
theorem interning_zero_unstable : ∃ s : State,
    Run (step twoParts) (fun _ _ => True) State.init
      (calls 2 0 1 ++ calls 1 0x402000 9 ++ calls 0 0x4024f0 6 ++ calls 1 0 4) s ∧
    (0, 0) ∈ s.returned ∧ (0, 1) ∈ s.returned :=
  ⟨_, run_calls (by decide +kernel), by decide +kernel, by decide +kernel⟩

end BtMalloc.Interning
