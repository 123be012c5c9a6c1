import BtMalloc.Lib.Transition
import BtMalloc.Proofs.ReallocProofs

/-!
# Proofs: runs of the machine

Every step other than a compaction keeps the representation of the whole system, and its outcome is
one of those the ledger knows. The invariants of whole runs follow by the run rule.
-/

namespace BtMalloc

open LinkedList PagedMemory Word

variable {cfg : Config} {k : Kernel} {X : ℕ → Prop} {Y : ℕ → ℕ → Prop} {Z : ℕ → PoolId → Prop}
  {h : Heap} {s' : Sys} {bg : BgPc} {w w' : World} {L L' : Ledger} {a p n : ℕ} {act : Action}
  {pl : Placement}

/-! ## What a step leaves -/

/-- The world after a step: the objects that stay are outside `X`, and the others hold what they should. -/
theorem WorldRep.next (W : WorldRep cfg w L) (O : Outcome cfg k X Y Z h L s'.heap s'.bins L')
    (hmem : h.mem = w.sys.heap.mem) (R : SysRep cfg s' bg L') {live : ℕ → Option ℕ}
    {shadow : ℕ → ℕ → Option UInt8}
    (hlive : ∀ {p size}, live p = some size →
      (w.live p = some size ∧ shadow p = w.shadow p ∧ ∀ {a n}, L.Owned a p n → ¬ X a) ∨
      (∃ a, L'.Owned a p size) ∧ ∀ off b, shadow p off = some b → off < size ∧ s'.heap.mem.read (p + off) = b) :
    WorldRep cfg ⟨s', bg, live, shadow⟩ L' := by
  refine ⟨R, fun {p size} hp => ?_, fun {p size off b} hp hb => ?_⟩
  · rcases hlive hp with ⟨h1, -, h2⟩ | ⟨h1, -⟩
    · obtain ⟨a, ho⟩ := W.live h1
      exact ⟨a, ho.moved O.moved (h2 ho)⟩
    · exact h1
  · replace hb : shadow p off = some b := hb
    rcases hlive hp with ⟨h1, h2, h3⟩ | ⟨-, h2⟩
    · rw [h2] at hb
      obtain ⟨a, ho⟩ := W.live h1
      obtain ⟨h4, h5⟩ := W.shadow h1 hb
      refine ⟨h4, ?_⟩
      have := O.effect.read ho (h3 ho) h4
      rw [hmem] at this
      exact this.trans h5
    · exact h2 off b hb

/-- A step that neither takes from nor gives to the client. -/
theorem WorldRep.same (W : WorldRep cfg w L)
    (O : Outcome cfg k (fun _ => False) Y Z w.sys.heap L s'.heap s'.bins L')
    (R : SysRep cfg s' bg L') : WorldRep cfg { w with sys := s', bg := bg } L' :=
  W.next O rfl R fun hp => Or.inl ⟨hp, rfl, fun _ => id⟩

/-! ## The steps -/

/-- Nothing comes to the client but through `X`. -/
theorem Ledger.Owned.back (ho : L'.Owned a p n) (S : L.Sound cfg) (M : L.Moved L' X Y Z) (hx : ¬ X a) :
    L.Owned a p 0 := by
  cases ho with
  | slot h1 h2 h3 =>
    have h4 := M.back h1 hx
    obtain ⟨q, r, i, hs⟩ := S.slots.slot (s := a) (by simp [h4])
    exact .slot h4 hs (Nat.zero_le _)
  | large h1 h2 => exact .large ((M.large hx).symm.trans h1) (by omega)

/-- The answer of `mremap` in a step that may call it. -/
def Action.remaps : Action → Option ℕ
  | .realloc _ _ _ _ k => k.mremap
  | .alloc _ _ _ _ | .free _ _ _ | .flush _ _ | .exit _ | .exitStep _ _ | .write _ _ _ | .compact _ | .bgStart
  | .bg _ _ => none

/-- A step kept the representation, and its outcome is one of those the ledger knows. -/
structure Stepped (cfg : Config) (w : World) (L : Ledger) (act : Action) (w' : World) (L' : Ledger) :
    Prop where
  rep : WorldRep cfg w' L'
  done : ∃ X Y Z tbl n, Outcome cfg act.kernel X Y Z (w.sys.heap.reintern tbl n) L w'.sys.heap
    w'.sys.bins L'
  kept : AllNamed w.sys.heap.owners L → w.Kept L → w'.Kept L'
  /-- A slot that `btm_free` did not find the owner of never comes back. -/
  leak : ∀ ⦃q r i p⦄, L.SlotIn q r i p → L.place p = .out → w.live p = none →
    L'.SlotIn q r i p ∧ L'.place p = .out ∧ w'.live p = none
  /-- Where large objects come to be. -/
  place : ∀ ⦃b hd⦄, L'.large b = some hd → L.large b ≠ none ∨ b % chunkSize = 0 ∨ act.remaps = some b

theorem Stepped.follows (D : Stepped cfg w L act w' L') (hA : L.Follows pl) (hpl : w.Places pl act) :
    L'.Follows pl := by
  intro e b hd hl
  rcases D.place hl with h | h | h
  · obtain ⟨hd', h⟩ := Option.ne_none_iff_exists'.mp h
    exact hA e h
  · exact h
  · cases act with
    | realloc t p size ra k => exact hpl.1 e b h
    | _ => cases h

/-- A step that neither takes from nor gives to the client. -/
theorem WorldRep.stepped (W : WorldRep cfg w L)
    (O : Outcome cfg act.kernel (fun _ => False) Y Z w.sys.heap L s'.heap s'.bins L')
    (R : SysRep cfg s' bg L') : Stepped cfg w L act { w with sys := s', bg := bg } L' :=
  ⟨W.same O R, ⟨_, _, _, w.sys.heap.internTbl, w.sys.heap.internNext, O⟩,
    fun _ K _ _ _ ho => K (ho.back W.sys.sound O.moved id), fun _ _ _ _ hs ho hl =>
      ⟨(O.moved.stay ho id hs).2, (O.moved.stay ho id hs).1, hl⟩,
    fun b hd hl => Or.inl (by rw [← O.moved.large id, hl]; simp)⟩

/-- A step of a thread's own program that leaves its caches alone. -/
theorem WorldRep.moveThread {t : ℕ} {f : Thread → Thread} (W : WorldRep cfg w L)
    (hb : (f (w.sys.threads t)).bins = (w.sys.threads t).bins)
    (hr : (f (w.sys.threads t)).rcache = (w.sys.threads t).rcache)
    (hT : ThreadOk cfg L t (f (w.sys.threads t))) :
    Stepped cfg w L act (w.setSys (w.sys.modThread t f)) L := by
  have R := W.sys.modThread hb hr hT
  exact W.stepped (Y := fun _ _ => False) (Z := fun _ _ => False)
    ⟨R.sound, R.settled, R.rep, Effect.refl, .refl, .refl⟩ R

/-! ## Calls for new storage -/

/-- The client gets what a call for new storage handed out. -/
theorem WorldRep.given {t size : ℕ} (W : WorldRep cfg w L)
    (D : MallocDone cfg k t w.sys w.bg L size a p s' L') : WorldRep cfg ((w.setSys s').give p size) L' := by
  obtain ⟨Y, Z, tbl, n, O⟩ := D.done
  have hold : ∀ {p' size'}, w.live p' = some size' → ∀ {a' n}, L.Owned a' p' n → a' ≠ a :=
    fun _ _ _ ho e => D.vacates (e ▸ ho)
  rcases D.given with ⟨rfl, -⟩ | ⟨hp, hown⟩
  · exact W.next O rfl D.rep fun hp => Or.inl ⟨hp, rfl, fun ho => hold hp ho⟩
  · rw [World.give, if_neg hp]
    refine W.next O rfl D.rep fun {p' size'} hp' => ?_
    replace hp' : Function.update w.live p (some size) p' = some size' := hp'
    by_cases e : p' = p
    · subst e
      rw [Function.update_self] at hp'
      cases hp'
      exact Or.inr ⟨⟨a, hown⟩, fun off b hb => by simp at hb⟩
    · rw [Function.update_of_ne e] at hp'
      exact Or.inl ⟨hp', Function.update_of_ne e .., fun ho => hold hp' ho⟩

/-- It was not live. -/
theorem WorldRep.given_fresh {t size : ℕ} (W : WorldRep cfg w L)
    (D : MallocDone cfg k t w.sys w.bg L size a p s' L') (hp : p ≠ 0) : w.live p = none := by
  obtain ⟨Y, Z, tbl, n, O⟩ := D.done
  obtain ⟨-, hown⟩ := D.given.resolve_left fun h => hp h.1
  cases hl : w.live p with
  | none => rfl
  | some n =>
    obtain ⟨a', ho⟩ := W.live hl
    have hne : a' ≠ a := fun e => D.vacates (e ▸ ho)
    exact absurd (D.rep.unit_eq (ho.moved O.moved hne) hown) hne

theorem alloc_step {t ra : ℕ} {c : Alloc} (W : WorldRep cfg w L) (hA : L.Follows pl)
    (hf : w.Fitting (.alloc t c ra k)) (hpl : w.Places pl (.alloc t c ra k))
    (he : step cfg w (.alloc t c ra k) = some w') : ∃ L', Stepped cfg w L (.alloc t c ra k) w' L' := by
  simp only [step] at he
  split at he
  next hpre =>
    obtain ⟨hpc, hw⟩ := hpre
    obtain ⟨a, p, s', L', hm, D, -⟩ := Alloc.run_spec k ra W.sys hpc hw hf (W.sys.takes_alloc hA hw hf hpl)
    rw [hm] at he
    cases he
    have W' := W.given D
    obtain ⟨Y, Z, tbl, n, O⟩ := D.done
    refine ⟨L', W', ⟨_, _, _, tbl, n, by unfold World.give; split <;> exact O⟩, fun _ K a' p' n' ho => ?_,
      fun q r i x hs ho hl => ?_, fun b hd hl => ?_⟩
    · have hback : a' ≠ a → (w.live p').isSome = true := fun hne =>
        K (ho.back W.sys.sound O.moved hne)
      rcases D.given with ⟨rfl, rfl⟩ | ⟨hp, hown⟩
      · exact hback fun e => D.rep.vacates_zero (e ▸ ho)
      · rw [World.give, if_neg hp]
        show (Function.update w.live p (some c.bytes) p').isSome = true
        by_cases e : p' = p
        · rw [e, Function.update_self]
          rfl
        · rw [Function.update_of_ne e]
          exact hback fun e' => e ((e' ▸ ho).inj hown D.rep.sound D.rep.rep.space)
    · have hne : x ≠ a := fun e => D.vacates (e ▸ hs.owned ho)
      obtain ⟨ho', hs'⟩ := O.moved.stay ho hne hs
      refine ⟨hs', ho', ?_⟩
      rcases D.given with ⟨rfl, -⟩ | ⟨hp, hown⟩
      · exact hl
      · rw [World.give, if_neg hp]
        have e : x ≠ p := by
          rintro rfl
          exact hne (D.rep.unit_eq (hs'.owned ho') hown)
        exact (Function.update_of_ne e ..).trans hl
    · by_cases e : b = a
      · subst e
        exact Or.inr (Or.inl (D.aligned hl))
      · rw [O.moved.large e] at hl
        exact Or.inl (by simp [hl])
  next => cases he

/-! ## Releasing and resizing -/

/-- The flush of an overfull bin is still to come. -/
theorem SysRep.startFlush {s : Sys} {t : ℕ} {fl : Option (ℕ × ℕ)} (R : SysRep cfg s bg L)
    (hf : fl ≠ none → (s.threads t).tls = true) :
    SysRep cfg (s.startFlush t fl) bg L ∧ (s.startFlush t fl).heap = s.heap ∧
      (s.startFlush t fl).bins = s.bins := by
  cases fl with
  | none => exact ⟨R, rfl, rfl⟩
  | some x =>
    obtain ⟨i, keep⟩ := x
    exact ⟨R.setPc ⟨by simp, by simp, fun _ => hf (by simp), (R.thread t).part⟩, rfl, Sys.bins_setPc⟩

/-- The client gave an object up. -/
theorem WorldRep.freed {t size : ℕ} {fl : Option (ℕ × ℕ)} (W : WorldRep cfg w L) (hl : w.live p = some size)
    (ho : L.Owned a p n) (D : FreeDone cfg act.kernel w.sys w.bg L t a p fl s' L') :
    Stepped cfg w L act ((w.take p).setSys (s'.startFlush t fl)) L' := by
  obtain ⟨Y, O⟩ := D.done
  obtain ⟨R2, hh, hb⟩ := D.rep.startFlush D.flush
  rw [← hh, ← hb] at O
  refine ⟨W.next O rfl R2 fun {p' size'} hp' => ?_, ⟨_, _, _, w.sys.heap.internTbl,
    w.sys.heap.internNext, O⟩, fun N K a' p' n' ho' => ?_, fun q r i x hs hout hx => ?_, fun b hd hb => ?_⟩
  · replace hp' : Function.update w.live p none p' = some size' := hp'
    by_cases e : p' = p
    · subst e
      rw [Function.update_self] at hp'
      cases hp'
    · rw [Function.update_of_ne e] at hp'
      exact Or.inl ⟨hp', rfl, fun ho' e' => e ((e' ▸ ho').inj ho W.sys.sound W.sys.rep.space)⟩
  · have hv : L'.Vacates a := (D.back.resolve_right fun hz => W.sys.lookup_ne_zero ho N hz.1).1
    have hne : a' ≠ a := fun e => hv (e ▸ ho')
    have hb := ho'.back W.sys.sound O.moved hne
    show (Function.update w.live p none p').isSome = true
    have e : p' ≠ p := fun e => hne (W.sys.unit_eq hb (e ▸ ho))
    rw [Function.update_of_ne e]
    exact K hb
  · have e : x ≠ p := by
      rintro rfl
      rw [hl] at hx
      cases hx
    have hne : x ≠ a := by
      rintro rfl
      exact e ((hs.owned hout).inj ho W.sys.sound W.sys.rep.space)
    obtain ⟨ho', hs'⟩ := O.moved.stay hout hne hs
    exact ⟨hs', ho', (Function.update_of_ne e ..).trans hx⟩
  · by_cases e : b = a
    · subst e
      rcases D.back with ⟨hv, -⟩ | ⟨-, -, rfl⟩
      · have := (D.rep.rep.space.large hb).off_lt
        have ho' : L'.Owned b (b + hd.userOff) 0 := .large hb (by omega)
        exact absurd ho' fun h => hv h
      · exact Or.inl (by simp [hb])
    · rw [O.moved.large e] at hb
      exact Or.inl (by simp [hb])

theorem free_step {t : ℕ} (W : WorldRep cfg w L) (he : step cfg w (.free t p k) = some w') :
    ∃ L', Stepped cfg w L (.free t p k) w' L' := by
  simp only [step] at he
  split at he
  next hpre =>
    obtain ⟨hpc, hlive⟩ := hpre
    obtain ⟨size, hsize⟩ := Option.isSome_iff_exists.mp hlive
    obtain ⟨a, hown⟩ := W.live hsize
    rcases btmFreeHead_spec k W.sys hpc hown with ⟨fl, s', L', hf, D⟩ | ⟨hf, -⟩
    · rw [hf] at he
      cases he
      exact ⟨L', W.freed hsize hown D⟩
    · rw [hf] at he
      cases he
  next => cases he

section Resize

variable {t a' q size : ℕ} {fl : Option (ℕ × ℕ)}

/-- The client's objects other than the one that is resized. -/
theorem WorldRep.resized_other {p' a1 n1 : ℕ} (W : WorldRep cfg w L) (ho : L.Owned a p n)
    (D : Resized cfg k w.sys w.bg L t a p a' q size fl s' L') (hne : p' ≠ p) (ho1 : L.Owned a1 p' n1) :
    ¬ (a1 = a ∨ a1 = a') := by
  have h1 : a1 ≠ a := fun e => hne ((e ▸ ho1).inj ho W.sys.sound W.sys.rep.space)
  rintro (e | e)
  · exact h1 e
  · rcases D.new with e' | hv
    · exact h1 (e.trans e')
    · exact hv (e ▸ ho1)

/-- The world with the object at `p` as `size` bytes at `q`. -/
def World.renew (w : World) (p q size : ℕ) (s : Sys) : World :=
  { w with
    sys := s
    live := Function.update (Function.update w.live p none) q (some size)
    shadow := Function.update w.shadow q fun off => if off < size then w.shadow p off else none }

/-- An object of the client goes on elsewhere, or under another size. -/
theorem WorldRep.renewed {s2 : Sys} (W : WorldRep cfg w L) (hl : w.live p = some n) (ho : L.Owned a p n)
    (D : Resized cfg k w.sys w.bg L t a p a' q size fl s' L') (R2 : SysRep cfg s2 w.bg L')
    (hh : s2.heap = s'.heap) (hb : s2.bins = s'.bins) : WorldRep cfg (w.renew p q size s2) L' := by
  obtain ⟨Y, Z, tbl, m, O⟩ := D.done
  rw [← hh, ← hb] at O
  refine W.next O rfl R2 fun {p' size'} hp' => ?_
  replace hp' : Function.update (Function.update w.live p none) q (some size) p' = some size' := hp'
  by_cases e : p' = q
  · subst e
    rw [Function.update_self, Option.some.injEq] at hp'
    subst hp'
    refine Or.inr ⟨⟨a', D.own⟩, fun off b hb => ?_⟩
    rw [Function.update_self] at hb
    split at hb
    next hlt =>
      obtain ⟨h1, h2⟩ := W.shadow hl hb
      refine ⟨hlt, ?_⟩
      rw [hh, D.bytes ho off (by omega), h2]
    next => cases hb
  · rw [Function.update_of_ne e] at hp'
    have e' : p' ≠ p := by
      rintro rfl
      rw [Function.update_self] at hp'
      cases hp'
    rw [Function.update_of_ne e'] at hp'
    exact Or.inl ⟨hp', Function.update_of_ne e .., fun ho1 => W.resized_other ho D e' ho1⟩

theorem WorldRep.resized (act : Action) (W : WorldRep cfg w L) (hl : w.live p = some n) (ho : L.Owned a p n)
    (D : Resized cfg act.kernel w.sys w.bg L t a p a' q size fl s' L')
    (hpl : ∀ b, act.kernel.mremap = some b → act.remaps = some b) :
    Stepped cfg w L act (w.renew p q size (s'.startFlush t fl)) L' := by
  obtain ⟨R2, hh, hb⟩ := D.rep.startFlush D.flush
  have W' := W.renewed hl ho D R2 hh hb
  obtain ⟨Y, Z, tbl, m, O⟩ := D.done
  rw [← hh, ← hb] at O
  refine ⟨W', ⟨_, _, _, tbl, m, O⟩, fun _ K a1 p' n' ho' => ?_, fun q' r i x hs hout hx => ?_, fun b hd hb => ?_⟩
  · show (Function.update (Function.update w.live p none) q (some size) p').isSome = true
    by_cases e : p' = q
    · rw [e, Function.update_self]
      rfl
    · rw [Function.update_of_ne e]
      have h1 : a1 ≠ a' := fun e1 => e ((e1 ▸ ho').inj D.own D.rep.sound D.rep.rep.space)
      have h2 : a1 ≠ a := by
        rintro rfl
        rcases D.back with ⟨e1, -⟩ | ⟨hv, -⟩
        · exact h1 e1.symm
        · exact hv ho'
      have hback := ho'.back W.sys.sound O.moved (not_or.mpr ⟨h2, h1⟩)
      rw [Function.update_of_ne fun e1 => h2 (W.sys.unit_eq hback (e1 ▸ ho))]
      exact K hback
  · have e : x ≠ p := by
      rintro rfl
      rw [hl] at hx
      cases hx
    have h1 : x ≠ a := by
      rintro rfl
      exact e ((hs.owned hout).inj ho W.sys.sound W.sys.rep.space)
    have h2 : x ≠ a' := by
      rintro rfl
      rcases D.new with e1 | hv
      · exact h1 e1
      · exact hv (hs.owned hout)
    obtain ⟨ho', hs'⟩ := O.moved.stay hout (not_or.mpr ⟨h1, h2⟩) hs
    refine ⟨hs', ho', ?_⟩
    have h3 : x ≠ q := by
      rintro rfl
      exact h2 (D.rep.unit_eq (hs'.owned ho') D.own)
    exact (Function.update_of_ne h3 ..).trans ((Function.update_of_ne e ..).trans hx)
  · exact (D.place hb).imp_right fun h => h.imp_right (hpl b)

/-- `btm_realloc` returned `NULL`. -/
theorem renew_self (hl : w.live p = some n) (hsh : ∀ off b, w.shadow p off = some b → off < n) {s : Sys} :
    w.renew p p n s = w.setSys s := by
  have h1 : Function.update (Function.update w.live p none) p (some n) = w.live := by
    rw [Function.update_idem, ← hl, Function.update_eq_self]
  have h2 : (fun off => if off < n then w.shadow p off else none) = w.shadow p := by
    funext off
    cases hb : w.shadow p off with
    | none => split <;> rfl
    | some b => rw [if_pos (hsh off b hb)]
  rw [World.renew, h1, h2, Function.update_eq_self]
  rfl

end Resize

theorem realloc_step {t size ra : ℕ} (W : WorldRep cfg w L) (hA : L.Follows pl)
    (hf : w.Fitting (.realloc t p size ra k)) (hpl : w.Places pl (.realloc t p size ra k))
    (he : step cfg w (.realloc t p size ra k) = some w') :
    ∃ L', Stepped cfg w L (.realloc t p size ra k) w' L' := by
  simp only [step] at he
  split at he
  next hpre =>
    obtain ⟨hpc, hlive, hsize⟩ := hpre
    obtain ⟨n, hn⟩ := Option.isSome_iff_exists.mp hlive
    obtain ⟨a, hown⟩ := W.live hn
    by_cases h0 : size = 0
    · -- `btm_realloc(p, 0)` frees the object
      subst h0
      obtain ⟨v, ha, -⟩ := W.sys.owner_word hown
      rw [btmReallocHead_free (by have := ha.pos; omega)] at he
      rcases btmFreeHead_spec k W.sys hpc hown with ⟨fl, s', L', hfree, D⟩ | ⟨hfree, -⟩
      · rw [hfree] at he
        cases he
        exact ⟨L', W.freed hn hown D⟩
      · rw [hfree] at he
        cases he
    · rcases btmReallocHead_spec k ra W.sys hpc hown (Nat.pos_of_ne_zero h0) hsize hf
        (W.sys.retakes hA (Nat.pos_of_ne_zero h0) hf hpl.1 hpl.2) with ⟨q, fl, s', L', hr, D⟩ | ⟨hr, -⟩
      · rw [hr] at he
        cases he
        refine ⟨L', ?_⟩
        rcases D with ⟨rfl, rfl, -, hstay, -⟩ | ⟨hq, a', D⟩
        · have := W.resized (.realloc t p size ra k) hn hown (hstay n hown) fun _ => id
          rw [renew_self hn fun off b hb => (W.shadow hn hb).1] at this
          rw [World.resize, if_neg h0, if_pos rfl]
          exact this
        · rw [World.resize, if_neg h0, if_neg hq]
          exact W.resized (.realloc t p size ra k) hn hown D fun _ => id
      · rw [hr] at he
        cases he
  next => cases he

/-! ## The other steps -/

theorem flush_step {t : ℕ} (W : WorldRep cfg w L) (he : step cfg w (.flush t k) = some w') :
    ∃ L', Stepped cfg w L (.flush t k) w' L' := by
  simp only [step] at he
  split at he
  next i keep hpc =>
    have hT := W.sys.thread t
    cases hpool : ((w.sys.threads t).bins i).pool with
    | none => simp [hpool] at he
    | some q =>
      simp only [hpool] at he
      split at he
      next hkeep =>
        cases he
        obtain ⟨L', O, R', -⟩ := flushBin_spec (k := k) (t := t) (i := i) (q := q) W.sys hpool
          (show 0 < ((w.sys.threads t).bins i).count by omega) (by simp [hpc]) (by simp [hpc])
        exact ⟨L', W.stepped O R'⟩
      next =>
        cases he
        exact ⟨L, W.moveThread rfl rfl (.of_tls rfl (hT.flushing hpc) hT.part)⟩
  next => cases he

theorem exit_step {t : ℕ} (W : WorldRep cfg w L) (he : step cfg w (.exit t) = some w') :
    ∃ L', Stepped cfg w L (.exit t) w' L' := by
  simp only [step] at he
  split at he
  next hpre =>
    cases he
    exact ⟨L, W.moveThread rfl rfl
      ⟨by simp, fun h => by cases h; exact ⟨rfl, by simp⟩, by simp, (W.sys.thread t).part⟩⟩
  next => cases he

/-- `btm_tls_destroy` passes a bin that it has emptied. -/
theorem WorldRep.passBin {t i : ℕ} (W : WorldRep cfg w L) (hpc : (w.sys.threads t).pc = .exiting i)
    (hempty : (w.sys.bins t i).pool = none ∨ (w.sys.bins t i).count = 0) :
    Stepped cfg w L act (w.setSys (w.sys.setPc t (.exiting (i + 1)))) L := by
  have hT := W.sys.thread t
  obtain ⟨htls, hb⟩ := hT.exiting hpc
  refine W.moveThread rfl rfl ⟨by simp, fun {n} h => ⟨htls, fun i' hi => ?_⟩, by simp, hT.part⟩
  cases h
  rcases Nat.lt_succ_iff_lt_or_eq.mp hi with hi | rfl
  · exact hb i' hi
  · exact W.sys.bin_nil hempty

theorem exitStep_step {t : ℕ} (W : WorldRep cfg w L) (he : step cfg w (.exitStep t k) = some w') :
    ∃ L', Stepped cfg w L (.exitStep t k) w' L' := by
  simp only [step] at he
  split at he
  next i hpc =>
    obtain ⟨htls, hb⟩ := (W.sys.thread t).exiting hpc
    split at he
    next hi =>
      cases hpool : ((w.sys.threads t).bins i).pool with
      | none =>
        simp only [hpool] at he
        cases he
        exact ⟨L, W.passBin hpc (Or.inl hpool)⟩
      | some q =>
        simp only [hpool] at he
        split at he
        next hz =>
          cases he
          exact ⟨L, W.passBin hpc (Or.inr hz)⟩
        next hz =>
          cases he
          obtain ⟨L', O, R', -⟩ := flushBin_spec (k := k) (t := t) (i := i) (q := q) W.sys hpool
            (Nat.pos_of_ne_zero hz) (by simp [hpc]) (fun {n} h => by rw [hpc] at h; cases h; exact le_rfl)
          exact ⟨L', W.stepped O R'⟩
    next hi =>
      cases he
      refine ⟨L, W.moveThread rfl rfl
        ⟨fun _ _ i' => ?_, by simp, by simp, (W.sys.thread t).part⟩⟩
      rcases Nat.lt_or_ge i' i with h | h
      · exact hb i' h
      · exact W.sys.bin_lt (by omega)
  next => cases he

theorem bgStart_step (W : WorldRep cfg w L) (he : step cfg w .bgStart = some w') :
    ∃ L', Stepped cfg w L .bgStart w' L' := by
  cases he
  have H := W.sys.rep
  have R : SysRep cfg (w.sys.setHeap { w.sys.heap with bgAsync := true }) w.bg L :=
    ⟨W.sys.sound, W.sys.settled, ⟨H.desc, H.lists, H.tally, H.header, H.chunks, H.depot, H.free, H.bins,
      H.frame, H.space, H.owner, H.log⟩, W.sys.bg, W.sys.thread, fun t i =>
      ⟨(W.sys.rcache t i).gen, (W.sys.rcache t i).owner⟩⟩
  have E : Effect Kernel.plain (fun _ => False) L.Busy w.sys.heap L { w.sys.heap with bgAsync := true } L :=
    Effect.quiet Keeps.refl ⟨[], rfl, by simp⟩ (fun _ _ hc _ => hc) rfl rfl rfl rfl ⟨rfl, rfl⟩
  exact ⟨L, W.stepped (Y := fun _ _ => False) (Z := fun _ _ => False)
    ⟨R.sound, R.settled, R.rep, E, .refl, .refl⟩ R⟩

theorem bg_step {ring : Bool} (W : WorldRep cfg w L) (he : step cfg w (.bg k ring) = some w') :
    ∃ L', Stepped cfg w L (.bg k ring) w' L' := by
  simp only [step] at he
  split at he
  next =>
    cases hb : bgStep cfg k ring w.sys.heap w.bg with
    | none =>
      rw [hb] at he
      cases he
    | some r =>
      obtain ⟨h', pc'⟩ := r
      rw [hb] at he
      cases he
      obtain ⟨L', O, G⟩ := bgStep_spec W.sys.rep W.sys.sound W.sys.settled W.sys.bg hb
      refine ⟨L', W.stepped O ⟨O.sound, O.settled, O.rep, G, fun t => ?_, fun t i => ?_⟩⟩
      · exact (W.sys.thread t).congr fun i => O.moved.bin id
      · exact (W.sys.rcache t i).effect O.effect
  next => cases he

/-- The owner of an object stores into it. -/
theorem WorldRep.store {size off m : ℕ} {f : ℕ → UInt8} {sh : ℕ → Option UInt8} (W : WorldRep cfg w L)
    (hl : w.live p = some size) (hle : off + m ≤ size)
    (hsh : ∀ {o b}, sh o = some b →
      off ≤ o ∧ o < off + m ∧ f (o - off) = b ∨ (o < off ∨ off + m ≤ o) ∧ w.shadow p o = some b) :
    Stepped cfg w L act
      { w with
        sys := w.sys.setHeap (w.sys.heap.store (p + off) m f)
        shadow := Function.update w.shadow p sh } L := by
  obtain ⟨a, ho⟩ := W.live hl
  have O := (W.sys.outcome (k := act.kernel) (X := fun y => y = a) (Y := fun _ _ => False)
    (Z := fun _ _ => False)).store (f := f) ho rfl hle
  refine ⟨W.next O rfl (W.sys.store ho hle) fun {p' size'} hp => ?_,
    ⟨_, _, _, w.sys.heap.internTbl, w.sys.heap.internNext, O⟩, fun _ K => K,
    fun _ _ _ _ hs ho hl => ⟨hs, ho, hl⟩, fun b hd hb => Or.inl (by simp [hb])⟩
  by_cases e : p' = p
  · subst e
    obtain rfl : size = size' := Option.some.inj (hl.symm.trans hp)
    refine Or.inr ⟨⟨a, ho⟩, fun o b hb => ?_⟩
    rw [Function.update_self] at hb
    show o < size ∧ (w.sys.heap.store (p' + off) m f).mem.read (p' + o) = b
    rcases hsh hb with ⟨h1, h2, h3⟩ | ⟨h1, h2⟩
    · refine ⟨by omega, ?_⟩
      have := W.sys.store_hit (o := off) (m := m) (i := o - off) (f := f) ho hle (by omega)
      rw [show p' + off + (o - off) = p' + o by omega] at this
      exact this.trans h3
    · obtain ⟨h4, h5⟩ := W.shadow hl h2
      obtain ⟨len, x, hc, rfl, hm⟩ := ho.client
      have := (W.sys.rep.apart W.sys.sound).write_outside hc.unit (o := x + off) (k := m) (f := f) (by omega)
        (i := x + o) (by omega) (by omega)
      rw [← Nat.add_assoc, ← Nat.add_assoc] at this
      exact ⟨h4, this.trans h5⟩
  · exact Or.inl ⟨hp, Function.update_of_ne e .., fun ho' e' =>
      e ((e' ▸ ho').inj ho W.sys.sound W.sys.rep.space)⟩

theorem write_step {off : ℕ} {b : UInt8} (W : WorldRep cfg w L)
    (he : step cfg w (.write p off b) = some w') : ∃ L', Stepped cfg w L (.write p off b) w' L' := by
  simp only [step] at he
  split at he
  next => cases he
  next size hl =>
    split at he
    next hpre =>
      cases he
      refine ⟨L, W.store hl hpre.1 fun {o b'} hb => ?_⟩
      by_cases e : o = off
      · subst e
        rw [Function.update_self, Option.some.injEq] at hb
        exact Or.inl ⟨le_rfl, by omega, hb⟩
      · rw [Function.update_of_ne e] at hb
        exact Or.inr ⟨by omega, hb⟩
    next => cases he

/-- Every step but a compaction. -/
theorem world_step (W : WorldRep cfg w L) (hA : L.Follows pl) (hok : w.Regular pl act)
    (he : step cfg w act = some w') : ∃ L', Stepped cfg w L act w' L' := by
  cases act with
  | alloc t c ra k => exact alloc_step W hA hok.fitting hok.places he
  | realloc t p size ra k => exact realloc_step W hA hok.fitting hok.places he
  | free t p k => exact free_step W he
  | flush t k => exact flush_step W he
  | exit t => exact exit_step W he
  | exitStep t k => exact exitStep_step W he
  | write p off b => exact write_step W he
  | compact k => exact absurd rfl (hok.uncompacted k)
  | bgStart => exact bgStart_step W he
  | bg k ring => exact bg_step W he

/-! ## Runs -/

theorem Ledger.empty_slabIn {q : PoolId} {r : SlabRef} : ¬ Ledger.empty.SlabIn q r := fun h => h.2 rfl

theorem Ledger.empty_sound : Ledger.empty.Sound cfg where
  carving := by
    refine ⟨fun h => ?_, fun h => absurd rfl h, fun h => ?_, fun r => ⟨fun h => absurd rfl h, ?_⟩⟩
    · cases h
    · cases h
    · rintro ⟨q, n, h, -⟩
      cases h
  lists := by
    refine ⟨fun q => .nil fun r h => ?_, fun q => .nil fun r h => ?_, fun q => .nil fun r h => ?_,
      fun c => .nil fun r h => ?_, fun q => .nil fun c h => ?_, fun h => ?_, .nil fun c h => ?_,
      .nil fun c h => ?_, .nil fun c h => ?_, .nil fun c h => ?_⟩
    · cases h.1
    · cases h.1
    · cases h.1
    · cases h.2
    all_goals cases h
  slots := by
    refine ⟨fun h => absurd rfl h, fun t i => .nil fun s h => ?_, fun h => ?_, fun h => absurd rfl h,
      fun hs => absurd hs.1 empty_slabIn, fun q => .nil fun s h => ?_⟩
    · cases h
    · cases h
    · cases h.1
  meshed := ⟨fun _ => rfl, fun h => absurd h empty_slabIn, fun h => (by cases h), fun h => absurd rfl h⟩

theorem Ledger.empty_settled : Ledger.empty.Settled where
  slab h := absurd h empty_slabIn
  chunk h := by cases h
  warm _ := Nat.zero_le _

theorem Ledger.empty_unmeshed : Ledger.empty.Unmeshed where
  stage _ h := by cases h
  place h := absurd h.1 empty_slabIn

theorem Ledger.empty_ready : Ledger.empty.Ready := fun _ h => by cases h

theorem Ledger.empty_follows : Ledger.empty.Follows pl := fun _ _ _ h => by cases h

/-- A table before the first store. -/
def OwnerTable.Fresh (T : OwnerTable) : Prop := ∀ key, ownerAt T key = 0

theorem OwnerTable.fresh_radix : (OwnerTable.radix fun _ => none).Fresh := fun _ => rfl

theorem heapRep_start {T : OwnerTable} (hT : T.Fresh) :
    HeapRep cfg { Heap.init with owners := T } (fun _ _ => Bin.zeroed) Ledger.empty where
  desc _ _ h := absurd h Ledger.empty_slabIn
  lists _ := ⟨rfl, rfl, rfl, rfl⟩
  tally _ := rfl
  header _ _ h := by cases h
  chunks _ := ⟨rfl, rfl⟩
  depot := ⟨rfl, rfl, rfl⟩
  free _ _ h := absurd h Ledger.empty_slabIn
  bins _ _ := binOk_zeroed
  frame := by
    refine ⟨fun _ _ => rfl, fun _ _ _ h => absurd h Ledger.empty_slabIn, fun _ _ h => absurd rfl h,
      fun _ _ h => absurd rfl h, fun _ _ _ h => absurd rfl h, fun _ _ h => absurd rfl h,
      fun _ _ h => absurd rfl h, fun h => ?_, fun h => ?_, List.nodup_nil, rfl⟩
    all_goals cases h
  space := by
    refine ⟨fun h => absurd rfl h, fun h => ?_, fun h => ?_, fun h => ?_⟩
    · cases h
    · cases h
    · cases h with
      | chunk h => exact absurd rfl h
      | large h => cases h
  owner key _ h := absurd (hT key) h
  log := ⟨trivial, fun h => absurd h Ledger.empty_slabIn, fun h => by cases h⟩

/-- Before the first call nothing is anywhere. -/
theorem worldRep_start {T : OwnerTable} (hT : T.Fresh) : WorldRep cfg (World.start T) Ledger.empty where
  sys :=
    { sound := Ledger.empty_sound
      settled := Ledger.empty_settled
      rep := heapRep_start hT
      bg := ⟨rfl, rfl⟩
      thread := fun _ => ⟨fun _ _ _ => rfl, fun h => (by cases h), fun h => (by cases h),
        Nat.two_pow_pos _⟩
      rcache := fun _ _ => ⟨le_rfl, fun _ h => absurd rfl h⟩ }
  live h := by cases h
  shadow h := by cases h

theorem worldRep_init : WorldRep cfg World.init Ledger.empty := worldRep_start OwnerTable.fresh_radix

/-- What holds of the ledger along runs without a compaction. -/
structure Ledger.Plain (L : Ledger) : Prop where
  unmeshed : L.Unmeshed
  ready : L.Ready

/-- Every regular run keeps the representation, and nothing is ever meshed. -/
theorem world_run {acts : List Action}
    (hr : Transition.Run (step cfg) (World.Regular pl) World.init acts w) :
    ∃ L, WorldRep cfg w L ∧ L.Follows pl ∧ L.Plain := by
  refine hr.invariant (fun w => ∃ L, WorldRep cfg w L ∧ L.Follows pl ∧ L.Plain)
    (fun w act w' ⟨L, W, hA, P⟩ hok he => ?_)
    ⟨_, worldRep_init, Ledger.empty_follows, Ledger.empty_unmeshed, Ledger.empty_ready⟩
  obtain ⟨L', D⟩ := world_step W hA hok he
  obtain ⟨X, Y, Z, tbl, n, O⟩ := D.done
  exact ⟨L', D.rep, D.follows hA hok.places, O.tidy.unmeshed P.unmeshed, O.tidy.ready P.ready⟩

end BtMalloc
