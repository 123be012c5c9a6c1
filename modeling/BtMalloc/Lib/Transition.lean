import Mathlib.Data.List.Basic

/-!
# Runs of a transition system

A system is a partial step function on states. `exec` runs a list of actions; `Run` is a run in which
every step also meets a condition `ok` on the state before it and its action. The invariant rule
proves a property of every state such a run reaches.
-/

namespace Transition

variable {σ α : Type*}

/-- The state after a list of actions, if all of them are enabled. -/
def exec (step : σ → α → Option σ) : σ → List α → Option σ
  | s, [] => some s
  | s, a :: as =>
    match step s a with
    | none => none
    | some t => exec step t as

/-- A run in which every step meets the condition `ok`. -/
inductive Run (step : σ → α → Option σ) (ok : σ → α → Prop) : σ → List α → σ → Prop
  | nil (s : σ) : Run step ok s [] s
  | cons {s t u : σ} {a : α} {as : List α} :
      ok s a → step s a = some t → Run step ok t as u → Run step ok s (a :: as) u

variable {step : σ → α → Option σ} {ok : σ → α → Prop}

/-- A property that every step keeps holds at the end of every run. -/
theorem Run.invariant {s t : σ} {as : List α} (h : Run step ok s as t) (I : σ → Prop)
    (hstep : ∀ s a t, I s → ok s a → step s a = some t → I t) (hs : I s) : I t := by
  induction h with
  | nil => exact hs
  | cons hok hst _ ih => exact ih (hstep _ _ _ hs hok hst)

/-- What `exec` computes is a run, if its actions meet the condition in every state. -/
theorem run_of_forall {s t : σ} {as : List α} (h : exec step s as = some t)
    (hok : ∀ a ∈ as, ∀ s, ok s a) : Run step ok s as t := by
  induction as generalizing s with
  | nil =>
    simp only [exec, Option.some.injEq] at h
    subst h
    exact .nil s
  | cons a as ih =>
    unfold exec at h
    cases hst : step s a with
    | none => rw [hst] at h; cases h
    | some u =>
      rw [hst] at h
      exact .cons (hok a (List.mem_cons_self ..) s) hst
        (ih h fun b hb => hok b (List.mem_cons_of_mem _ hb))

/-- A run of the whole system is what `exec` computes. -/
theorem run_of_exec {s t : σ} {as : List α} (h : exec step s as = some t) :
    Run step (fun _ _ => True) s as t := run_of_forall h fun _ _ _ => trivial

theorem Run.mono {ok' : σ → α → Prop} {s t : σ} {as : List α} (h : Run step ok s as t)
    (hok : ∀ s a, ok s a → ok' s a) : Run step ok' s as t := by
  induction h with
  | nil s => exact .nil s
  | cons ha hst _ ih => exact .cons (hok _ _ ha) hst ih

/-- A run meets a condition that follows from its own and from an invariant. -/
theorem Run.strengthen {ok' : σ → α → Prop} {s t : σ} {as : List α} (h : Run step ok s as t) (I : σ → Prop)
    (hstep : ∀ s a t, I s → ok s a → step s a = some t → ok' s a ∧ I t) (hs : I s) :
    Run step ok' s as t ∧ I t := by
  induction h with
  | nil s => exact ⟨.nil s, hs⟩
  | cons hok hst _ ih =>
    obtain ⟨hok', hI⟩ := hstep _ _ _ hs hok hst
    obtain ⟨hr, hI⟩ := ih hI
    exact ⟨.cons hok' hst hr, hI⟩

/-- One more step. -/
theorem Run.snoc {s t u : σ} {as : List α} {a : α} (h : Run step ok s as t) (ha : ok t a)
    (hst : step t a = some u) : Run step ok s (as ++ [a]) u := by
  induction h with
  | nil s => exact .cons ha hst (.nil u)
  | cons hb hsb _ ih => exact .cons hb hsb (ih ha hst)

/-! ## Runs that are computed -/

/-- Every action of the list is enabled and passes the test `okb` when its turn comes. -/
def checks (step : σ → α → Option σ) (okb : σ → α → Bool) : σ → List α → Bool
  | _, [] => true
  | s, a :: as => okb s a &&
    match step s a with
    | none => false
    | some t => checks step okb t as

/-- Where a list of actions leads. -/
def finish (step : σ → α → Option σ) (s : σ) (as : List α) : σ := (exec step s as).getD s

theorem exec_eq_finish {s : σ} {as : List α} (h : (exec step s as).isSome = true) :
    exec step s as = some (finish step s as) := by
  obtain ⟨t, ht⟩ := Option.isSome_iff_exists.mp h
  rw [finish, ht]
  rfl

theorem step_eq_finish {s : σ} {a : α} (h : (step s a).isSome = true) : step s a = some (finish step s [a]) := by
  obtain ⟨t, ht⟩ := Option.isSome_iff_exists.mp h
  rw [finish, exec, ht]
  rfl

/-- A list of actions that passes the test is a run. The test may rely on a property `P` that the
    actions it admits keep. -/
theorem run_of_checks {P : σ → Prop} {okb : σ → α → Bool} {s : σ} {as : List α}
    (h : checks step okb s as = true) (hs : P s) (hok : ∀ s a, P s → okb s a = true → ok s a)
    (hP : ∀ s a t, P s → okb s a = true → step s a = some t → P t) :
    Run step ok s as (finish step s as) ∧ P (finish step s as) := by
  have key : ∃ t, exec step s as = some t ∧ Run step ok s as t ∧ P t := by
    induction as generalizing s with
    | nil => exact ⟨s, rfl, .nil s, hs⟩
    | cons a as ih =>
      unfold checks at h
      rw [Bool.and_eq_true] at h
      obtain ⟨ha, h⟩ := h
      cases hst : step s a with
      | none => rw [hst] at h; cases h
      | some t =>
        rw [hst] at h
        obtain ⟨u, e, hr, hu⟩ := ih h (hP s a t hs ha hst)
        refine ⟨u, ?_, .cons (hok s a hs ha) hst hr, hu⟩
        unfold exec
        rw [hst]
        exact e
  obtain ⟨t, e, hr, ht⟩ := key
  rw [finish, e]
  exact ⟨hr, ht⟩

end Transition
