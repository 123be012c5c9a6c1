import BtMalloc.Lib.Transition
import Mathlib.Algebra.Order.BigOperators.Ring.Finset

/-!
# Threads that take locks

Code is described by the locks it takes: `Prog` has sequences, branches, loops and critical sections.
A thread is a stack of programs to run and locks to give back. Threads only give back the locks that
they took, so a lock whose owner does not exist stays taken. If nested sections follow an order of the
locks and every owner exists, every lock that is taken can be given back.
-/

namespace Locking

open Transition

/-- What a piece of code does with locks. -/
inductive Prog (L : Type*) where
  | skip
  | seq (p q : Prog L)
  | alt (p q : Prog L)
  | star (p : Prog L)
  | withLock (l : L) (p : Prog L)

inductive Item (L : Type*) where
  | run (p : Prog L)
  | unlock (l : L)

structure State (L : Type*) where
  owner : L → Option ℕ
  /-- The stack of every thread that exists. -/
  threads : ℕ → Option (List (Item L))
  /-- The threads from here on have not been created yet. -/
  next : ℕ

variable {L : Type*} {s s' : State L} {t : ℕ} {l : L}

def State.goto (s : State L) (t : ℕ) (st : List (Item L)) : State L :=
  { s with threads := Function.update s.threads t (some st) }

/-- A new thread. -/
def State.spawn (s : State L) : State L := { s.goto s.next [] with next := s.next + 1 }

/-- Thread `t` goes away. -/
def State.exit (s : State L) (t : ℕ) : State L :=
  { s with threads := Function.update s.threads t none }

/-- Only thread `t` is left, and the locks in `free` are initialised again. -/
def State.fork (s : State L) (t : ℕ) (free : L → Bool) : State L :=
  { s with
    owner := fun l => if free l then none else s.owner l
    threads := fun u => if u = t then s.threads t else none }

/-- One step of thread `t`. The flag chooses the branch, and whether a loop goes on. A thread whose
    next lock is taken has no step. -/
def State.advance [DecidableEq L] (s : State L) (t : ℕ) (b : Bool) : Option (State L) :=
  match s.threads t with
  | none | some [] => none
  | some (.run .skip :: st) => some (s.goto t st)
  | some (.run (.seq p q) :: st) => some (s.goto t (.run p :: .run q :: st))
  | some (.run (.alt p q) :: st) => some (s.goto t (.run (if b then q else p) :: st))
  | some (.run (.star p) :: st) => some (s.goto t (if b then .run p :: .run (.star p) :: st else st))
  | some (.run (.withLock l p) :: st) => match s.owner l with
    | some _ => none
    | none => some
      { s.goto t (.run p :: .unlock l :: st) with owner := Function.update s.owner l (some t) }
  | some (.unlock l :: st) => some { s.goto t st with owner := Function.update s.owner l none }

/-! ## The order of the locks -/

section Rank

variable (rank : L → ℕ)

/-- All locks the program takes come after `n`, and nested sections follow the order. -/
def Prog.Above : Prog L → ℕ → Prop
  | skip, _ => True
  | seq p q, n | alt p q, n => p.Above n ∧ q.Above n
  | star p, n => p.Above n
  | withLock l p, n => n < rank l ∧ p.Above (rank l)

/-- The rank of the next lock that a stack gives back. -/
def bound : List (Item L) → ℕ
  | [] => 0
  | .run _ :: st => bound st
  | .unlock l :: _ => rank l

def Ordered : List (Item L) → Prop
  | [] => True
  | .run p :: st => p.Above rank (bound rank st) ∧ Ordered st
  | .unlock l :: st => bound rank st < rank l ∧ Ordered st

/-- The stacks of the threads and the owners of the locks agree. -/
structure Owned (s : State L) : Prop where
  ordered : ∀ t st, s.threads t = some st → Ordered rank st
  owner : ∀ t st, s.threads t = some st → ∀ l, s.owner l = some t ↔ Item.unlock l ∈ st
  fresh : ∀ t, s.next ≤ t → s.threads t = none ∧ ∀ l, s.owner l ≠ some t

/-- Every lock that is taken is owned by a thread that exists. -/
def NoOrphan (s : State L) : Prop := ∀ l t, s.owner l = some t → s.threads t ≠ none

variable {rank}

theorem above_mono {p : Prog L} {k m : ℕ} (hkm : k ≤ m) (h : p.Above rank m) : p.Above rank k := by
  induction p generalizing k m with
  | skip => trivial
  | seq p q ihp ihq => exact ⟨ihp hkm h.1, ihq hkm h.2⟩
  | alt p q ihp ihq => exact ⟨ihp hkm h.1, ihq hkm h.2⟩
  | star p ih => exact ih hkm h
  | withLock l p ih => exact ⟨lt_of_le_of_lt hkm h.1, h.2⟩

theorem Ordered.rank_le {st : List (Item L)} (h : Ordered rank st) (hl : Item.unlock l ∈ st) :
    rank l ≤ bound rank st := by
  induction st with
  | nil => cases hl
  | cons i st ih =>
    cases i with
    | run p =>
      rcases List.mem_cons.mp hl with e | hl
      · cases e
      · exact ih h.2 hl
    | unlock m =>
      rcases List.mem_cons.mp hl with e | hl
      · cases e
        exact le_rfl
      · exact (ih h.2 hl).trans h.1.le

theorem Owned.lt_next (h : Owned rank s) {st : List (Item L)} (ht : s.threads t = some st) :
    t < s.next := by
  by_contra hn
  rw [(h.fresh t (by omega)).1] at ht
  cases ht

/-! ## Steps -/

/-- A step of thread `t` that changes no other thread's locks. -/
theorem Owned.update (h : Owned rank s) {o : Option (List (Item L))} {owner' : L → Option ℕ}
    {next' : ℕ} (hord : ∀ st, o = some st → Ordered rank st)
    (hown : ∀ st, o = some st → ∀ l, owner' l = some t ↔ Item.unlock l ∈ st)
    (hother : ∀ u, u ≠ t → ∀ l, owner' l = some u ↔ s.owner l = some u)
    (hnext : s.next ≤ next') (ht : t < next') :
    Owned rank { owner := owner', threads := Function.update s.threads t o, next := next' } := by
  refine ⟨fun u su hsu => ?_, fun u su hsu l => ?_, fun u hn => ?_⟩
  · by_cases e : u = t
    · subst e
      exact hord su (by simpa using hsu)
    · exact h.ordered u su (by simpa [e] using hsu)
  · by_cases e : u = t
    · subst e
      exact hown su (by simpa using hsu) l
    · rw [hother u e l]
      exact h.owner u su (by simpa [e] using hsu) l
  · dsimp only at hn
    have e : u ≠ t := by omega
    refine ⟨?_, fun l => ?_⟩
    · dsimp only
      rw [Function.update_of_ne e]
      exact (h.fresh u (by omega)).1
    · rw [ne_eq, hother u e l]
      exact (h.fresh u (by omega)).2 l

/-- A thread moves on without touching a lock. -/
theorem Owned.goto (h : Owned rank s) {st st' : List (Item L)} (ht : s.threads t = some st)
    (ho : Ordered rank st') (hu : ∀ l, Item.unlock l ∈ st' ↔ Item.unlock l ∈ st) :
    Owned rank (s.goto t st') := by
  refine h.update (fun _ e => ?_) (fun _ e l => ?_) (fun _ _ _ => Iff.rfl) le_rfl (h.lt_next ht)
  · cases e
    exact ho
  · cases e
    rw [hu l]
    exact h.owner t st ht l

theorem Owned.spawn (h : Owned rank s) : Owned rank s.spawn := by
  refine h.update (fun _ e => ?_) (fun _ e l => ?_) (fun _ _ _ => Iff.rfl) (Nat.le_succ _)
    (Nat.lt_succ_self _)
  · cases e
    trivial
  · cases e
    simpa [State.goto] using (h.fresh _ le_rfl).2 l

theorem Owned.exit (h : Owned rank s) (ht : t < s.next) : Owned rank (s.exit t) := by
  refine h.update (fun _ e => ?_) (fun _ e => ?_) (fun _ _ _ => Iff.rfl) le_rfl ht
  · cases e
  · cases e

section Advance

variable [DecidableEq L]

theorem Owned.lock (h : Owned rank s) {p : Prog L} {st : List (Item L)}
    (ht : s.threads t = some (.run (.withLock l p) :: st)) (hl : s.owner l = none) :
    Owned rank { s.goto t (.run p :: .unlock l :: st) with
      owner := Function.update s.owner l (some t) } := by
  obtain ⟨⟨ho1, ho2⟩, ho3⟩ := h.ordered t _ ht
  refine h.update (fun _ e => ?_) (fun _ e m => ?_) (fun u hu m => ?_) le_rfl (h.lt_next ht)
  · cases e
    exact ⟨ho2, ho1, ho3⟩
  · cases e
    by_cases em : m = l
    · simp [em]
    · rw [Function.update_of_ne em, h.owner t _ ht m]
      simp [em]
  · by_cases em : m = l
    · subst em
      rw [Function.update_self, hl]
      simp [hu.symm]
    · rw [Function.update_of_ne em]

theorem Owned.unlock (h : Owned rank s) {st : List (Item L)}
    (ht : s.threads t = some (.unlock l :: st)) :
    Owned rank { s.goto t st with owner := Function.update s.owner l none } := by
  obtain ⟨ho1, ho2⟩ := h.ordered t _ ht
  have hown : s.owner l = some t := (h.owner t _ ht l).mpr (List.mem_cons_self ..)
  -- by the order, the rest of the stack does not give the lock back again
  have hnot : Item.unlock l ∉ st := fun hm => absurd (ho2.rank_le hm) (by omega)
  refine h.update (fun _ e => ?_) (fun _ e m => ?_) (fun u hu m => ?_) le_rfl (h.lt_next ht)
  · cases e
    exact ho2
  · cases e
    by_cases em : m = l
    · subst em
      simp [hnot]
    · rw [Function.update_of_ne em, h.owner t _ ht m]
      simp [em]
  · by_cases em : m = l
    · subst em
      rw [Function.update_self, hown]
      simp [hu.symm]
    · rw [Function.update_of_ne em]

theorem Owned.advance {b : Bool} (h : Owned rank s) (hst : s.advance t b = some s') :
    Owned rank s' := by
  unfold State.advance at hst
  cases ht : s.threads t with
  | none => rw [ht] at hst; cases hst
  | some st =>
    have ho := h.ordered t st ht
    cases st with
    | nil => rw [ht] at hst; cases hst
    | cons i st =>
      cases i with
      | unlock l =>
        simp only [ht, Option.some.injEq] at hst
        subst hst
        exact h.unlock ht
      | run p =>
        obtain ⟨hp, ho⟩ := ho
        cases p with
        | skip =>
          simp only [ht, Option.some.injEq] at hst
          subst hst
          exact h.goto ht ho (by simp)
        | seq p q =>
          simp only [ht, Option.some.injEq] at hst
          subst hst
          exact h.goto ht ⟨hp.1, hp.2, ho⟩ (by simp)
        | alt p q =>
          simp only [ht, Option.some.injEq] at hst
          subst hst
          refine h.goto ht ⟨?_, ho⟩ (by simp)
          cases b
          · exact hp.1
          · exact hp.2
        | star p =>
          simp only [ht, Option.some.injEq] at hst
          subst hst
          cases b
          · exact h.goto ht ho (by simp)
          · exact h.goto ht ⟨hp, hp, ho⟩ (by simp)
        | withLock l p =>
          simp only [ht] at hst
          cases hl : s.owner l with
          | some u => rw [hl] at hst; cases hst
          | none =>
            simp only [hl, Option.some.injEq] at hst
            subst hst
            exact h.lock ht hl

/-- What a step of a thread leaves alone. -/
theorem advance_frame {b : Bool} (hst : s.advance t b = some s') :
    s'.next = s.next ∧ (∀ u, u ≠ t → s'.threads u = s.threads u) ∧
      (s.threads t ≠ none ∧ s'.threads t ≠ none) ∧
      ∀ l u, u ≠ t → (s'.owner l = some u → s.owner l = some u) := by
  have upd : ∀ o : L → Option ℕ, ∀ st : List (Item L), s.threads t ≠ none →
      (∀ l u, u ≠ t → (o l = some u → s.owner l = some u)) →
      s' = { s.goto t st with owner := o } →
      s'.next = s.next ∧ (∀ u, u ≠ t → s'.threads u = s.threads u) ∧
        (s.threads t ≠ none ∧ s'.threads t ≠ none) ∧
        ∀ l u, u ≠ t → (s'.owner l = some u → s.owner l = some u) := by
    rintro o st hex ho rfl
    exact ⟨rfl, fun u hu => Function.update_of_ne hu _ _, ⟨hex, by simp [State.goto]⟩, ho⟩
  unfold State.advance at hst
  have hsome : s.threads t ≠ none := by
    intro e
    rw [e] at hst
    cases hst
  split at hst
  case h_7 l p st ht =>
    cases hl : s.owner l with
    | some u => rw [hl] at hst; cases hst
    | none =>
      simp only [hl, Option.some.injEq] at hst
      refine upd _ _ hsome (fun m u hu e => ?_) hst.symm
      by_cases em : m = l
      · subst em
        simp [hu.symm] at e
      · simpa [em] using e
  case h_8 l st ht =>
    cases hst
    refine upd _ _ hsome (fun m u hu e => ?_) rfl
    by_cases em : m = l
    · subst em
      simp at e
    · simpa [em] using e
  all_goals
    cases hst <;> exact upd s.owner _ hsome (fun _ _ _ e => e) rfl

theorem NoOrphan.advance {b : Bool} (h : NoOrphan s) (hst : s.advance t b = some s') :
    NoOrphan s' := by
  obtain ⟨-, hth, ⟨-, hex⟩, hown⟩ := advance_frame hst
  intro l u hu
  by_cases e : u = t
  · rw [e]
    exact hex
  · rw [hth u e]
    exact h l u (hown l u e hu)

/-- A lock whose owner does not exist stays taken. -/
theorem orphan_advance {b : Bool} {u : ℕ} (h : Owned rank s) (hl : s.owner l = some u)
    (hu : s.threads u = none) (hst : s.advance t b = some s') :
    s'.owner l = some u ∧ s'.threads u = none := by
  obtain ⟨-, hth, ⟨hex, -⟩, -⟩ := advance_frame hst
  have hut : u ≠ t := fun e => hex (e ▸ hu)
  refine ⟨?_, by rw [hth u hut]; exact hu⟩
  unfold State.advance at hst
  split at hst
  case h_7 m p st ht =>
    cases hm : s.owner m with
    | some u => rw [hm] at hst; cases hst
    | none =>
      simp only [hm, Option.some.injEq] at hst
      subst hst
      have hne : l ≠ m := by rintro rfl; rw [hl] at hm; cases hm
      dsimp only
      rw [Function.update_of_ne hne]
      exact hl
  case h_8 m st ht =>
    cases hst
    have hne : l ≠ m := by
      rintro rfl
      rw [(h.owner t _ ht l).mpr (List.mem_cons_self ..)] at hl
      exact hut (Option.some.inj hl).symm
    dsimp only
    rw [Function.update_of_ne hne]
    exact hl
  all_goals cases hst <;> exact hl

end Advance

/-! ## Forks -/

/-- The child of a thread outside of all sections. -/
theorem Owned.fork (h : Owned rank s) (ht : s.threads t = some []) (free : L → Bool) :
    Owned rank (s.fork t free) := by
  have only : ∀ {u su}, (s.fork t free).threads u = some su → u = t ∧ su = [] := by
    intro u su hsu
    unfold State.fork at hsu
    dsimp only at hsu
    split_ifs at hsu with e
    rw [ht] at hsu
    cases hsu
    exact ⟨e, rfl⟩
  have hno : ∀ m, s.owner m ≠ some t := fun m e => by cases (h.owner t [] ht m).mp e
  have hsub : ∀ m u, (s.fork t free).owner m = some u → s.owner m = some u := by
    intro m u e
    unfold State.fork at e
    dsimp only at e
    split_ifs at e
    exact e
  refine ⟨fun u su hsu => ?_, fun u su hsu m => ?_, fun u hn => ⟨?_, fun m e => ?_⟩⟩
  · rw [(only hsu).2]
    trivial
  · obtain ⟨rfl, rfl⟩ := only hsu
    exact ⟨fun e => absurd (hsub m _ e) (hno m), fun hm => by cases hm⟩
  · unfold State.fork
    dsimp only
    split_ifs with e
    · subst e
      exact (h.fresh _ hn).1
    · rfl
  · exact (h.fresh u hn).2 m (hsub m u e)

/-- The child has a lock whose owner does not exist, unless the locks that are not initialised again
    were free. -/
theorem Owned.fork_noOrphan_iff (h : Owned rank s) (ht : s.threads t = some []) (free : L → Bool) :
    NoOrphan (s.fork t free) ↔ ∀ l, free l = false → s.owner l = none := by
  have hno : ∀ m, s.owner m ≠ some t := fun m e => by cases (h.owner t [] ht m).mp e
  constructor
  · intro hc l hl
    cases ho : s.owner l with
    | none => rfl
    | some u =>
      have hex := hc l u (by simp [State.fork, hl, ho])
      have hut : u ≠ t := fun e => hno l (by rw [ho, e])
      simp [State.fork, hut] at hex
  · intro hfree l u hu
    cases hl : free l with
    | true => simp [State.fork, hl] at hu
    | false =>
      have := hfree l hl
      simp [State.fork, hl, this] at hu

/-! ## Every lock can be given back -/

def Prog.size : Prog L → ℕ
  | skip => 1
  | seq p q | alt p q => p.size + q.size + 1
  | star p => p.size + 1
  | withLock _ p => p.size + 2

def Item.size : Item L → ℕ
  | run p => p.size
  | unlock _ => 1

def stackSize (o : Option (List (Item L))) : ℕ := ((o.getD []).map Item.size).sum

/-- The work that is left if every loop stops. -/
def State.work (s : State L) : ℕ := ∑ t ∈ Finset.range s.next, stackSize (s.threads t)

variable [DecidableEq L]

/-- A thread that stops its loops comes closer to its end. -/
theorem stackSize_advance (hst : s.advance t false = some s') :
    stackSize (s'.threads t) < stackSize (s.threads t) := by
  have upd : ∀ o : L → Option ℕ, ∀ i : Item L, ∀ st st' : List (Item L),
      s.threads t = some (i :: st) → (st'.map Item.size).sum < i.size + (st.map Item.size).sum →
      s' = { s.goto t st' with owner := o } → stackSize (s'.threads t) < stackSize (s.threads t) := by
    rintro o i st st' ht hlt rfl
    simpa [ht, stackSize, State.goto] using hlt
  unfold State.advance at hst
  split at hst
  case h_3 st ht => cases hst; exact upd s.owner _ _ _ ht (by simp [Item.size, Prog.size]) rfl
  case h_4 p q st ht =>
    cases hst
    exact upd s.owner _ _ _ ht (by simp only [List.map_cons, List.sum_cons, Item.size, Prog.size]; omega) rfl
  case h_5 p q st ht =>
    cases hst
    exact upd s.owner _ _ _ ht
      (by simp only [List.map_cons, List.sum_cons, Item.size, Prog.size, Bool.false_eq_true, if_false]; omega) rfl
  case h_6 p st ht =>
    cases hst
    exact upd s.owner _ _ _ ht (by simp [Item.size, Prog.size]) rfl
  case h_7 l p st ht =>
    cases hl : s.owner l with
    | some u => rw [hl] at hst; cases hst
    | none =>
      simp only [hl, Option.some.injEq] at hst
      exact upd _ _ _ _ ht (by simp only [List.map_cons, List.sum_cons, Item.size, Prog.size]; omega) hst.symm
  case h_8 l st ht => cases hst; exact upd _ _ _ _ ht (by simp [Item.size]) rfl
  all_goals cases hst

theorem work_advance (h : Owned rank s) (hst : s.advance t false = some s') : s'.work < s.work := by
  obtain ⟨hnext, hth, ⟨hex, -⟩, -⟩ := advance_frame hst
  obtain ⟨st, ht⟩ := Option.ne_none_iff_exists'.mp hex
  unfold State.work
  rw [hnext]
  refine Finset.sum_lt_sum (fun u _ => ?_)
    ⟨t, Finset.mem_range.mpr (h.lt_next ht), stackSize_advance hst⟩
  by_cases e : u = t
  · rw [e]
    exact (stackSize_advance hst).le
  · rw [hth u e]

/-- If a lock is taken, some thread has a step: the owner of a lock waits for later locks only. -/
theorem exists_advance {N : ℕ} (hN : ∀ l, rank l ≤ N) (h : Owned rank s) (ho : NoOrphan s) :
    ∀ l t, s.owner l = some t → ∃ u s', s.advance u false = some s' := by
  suffices key : ∀ n l t, s.owner l = some t → N - rank l < n → ∃ u s', s.advance u false = some s' from
    fun l t hl => key _ l t hl (Nat.lt_succ_self _)
  intro n
  induction n with
  | zero => intro l t _ hn; omega
  | succ n ih =>
    intro l t hl hn
    obtain ⟨st, ht⟩ := Option.ne_none_iff_exists'.mp (ho l t hl)
    have hmem := (h.owner t st ht l).mp hl
    have hord := h.ordered t st ht
    cases st with
    | nil => cases hmem
    | cons i st =>
      cases i with
      | unlock m => exact ⟨t, _, by simp only [State.advance, ht]; rfl⟩
      | run p =>
        cases p with
        | withLock m p =>
          cases hm : s.owner m with
          | none => exact ⟨t, _, by simp only [State.advance, ht, hm]; rfl⟩
          | some u =>
            have hin : Item.unlock l ∈ st := by simpa using hmem
            have hlt : rank l < rank m := lt_of_le_of_lt (hord.2.rank_le hin) hord.1.1
            have := hN m
            exact ih m u hm (by omega)
        | _ => exact ⟨t, _, by simp only [State.advance, ht]; rfl⟩

/-- From a state in which every owner exists, the threads can go on so that a given lock is free. -/
theorem exists_release {N : ℕ} (hN : ∀ l, rank l ≤ N) (h : Owned rank s) (ho : NoOrphan s) (l : L) :
    ∃ ts s', Run (fun s t => State.advance s t false) (fun _ _ => True) s ts s' ∧
      s'.owner l = none := by
  induction hw : s.work using Nat.strong_induction_on generalizing s with
  | _ w ih =>
    cases hl : s.owner l with
    | none => exact ⟨[], s, .nil s, hl⟩
    | some t =>
      obtain ⟨u, s1, hst⟩ := exists_advance hN h ho l t hl
      obtain ⟨ts, s', hrun, hfree⟩ :=
        ih s1.work (hw ▸ work_advance h hst) (h.advance hst) (ho.advance hst) rfl
      exact ⟨u :: ts, s', .cons trivial hst hrun, hfree⟩

end Rank

end Locking
