import BtMalloc.Ring
import Mathlib.Data.List.Nodup
import Mathlib.Data.List.Perm.Basic

/-!
# Proofs: no release outlives a disposal

As long as no wait fails, `pending` counts the requests that are queued, with the kernel or completed
and not consumed. The thread leaves `decommit_batch` with `pending` at 0, so nothing is under way when
it hands the batch back.
-/

namespace BtMalloc.Ring

open Transition

variable {s s' : State} {a : Action} {c : ℕ}

/-- The source's counter, and the batch it counts for. -/
def Pc.count : Pc → Option (List ℕ × ℕ)
  | visit disp _ p | flush disp _ _ p | drainFull disp _ _ p | retry disp _ _ p | submit disp p
  | drain disp p => some (disp, p)
  | wait | sync _ _ | giveBack _ _ | trim _ _ | premap _ => none

/-- The chunk that the thread is busy with and the chunks to visit are in the batch. -/
def Pc.Within : Pc → Prop
  | visit disp rest _ => ∀ c ∈ rest, c ∈ disp
  | flush disp c rest _ | drainFull disp c rest _ | retry disp c rest _ =>
    c ∈ disp ∧ ∀ x ∈ rest, x ∈ disp
  | _ => True

structure Inv (s : State) : Prop where
  /-- Every chunk is in one place. -/
  once : ∀ x, s.chunks.count x ≤ 1
  within : s.pc.Within
  /-- Requests are about chunks of the batch, and `pending` counts them. -/
  batch : ∀ disp p, s.pc.count = some (disp, p) →
    (∀ c, c ∈ s.sq ∨ c ∈ s.flight → c ∈ disp) ∧ s.sq.length + s.flight.length + s.cq = p
  quiet : s.pc.count = none → s.sq = [] ∧ s.flight = [] ∧ s.cq = 0

theorem Inv.init (b : Bool) : Inv (State.init b) where
  once := by simp [State.init, State.chunks, Pc.chunks]
  within := trivial
  batch := by simp [State.init, Pc.count]
  quiet := fun _ => ⟨rfl, rfl, rfl⟩

/-- Submitting moves requests from the queue to the kernel. -/
theorem submit_mem {n : ℕ} (h : c ∈ s.sq.drop n ∨ c ∈ s.sq.take n ++ s.flight) :
    c ∈ s.sq ∨ c ∈ s.flight := by
  rcases h with h | h
  · exact Or.inl (List.mem_of_mem_drop h)
  · rcases List.mem_append.mp h with h | h
    · exact Or.inl (List.mem_of_mem_take h)
    · exact Or.inr h

theorem submit_length (n : ℕ) : (s.sq.drop n).length + (s.sq.take n ++ s.flight).length =
    s.sq.length + s.flight.length := by
  rw [List.length_append, List.length_drop, List.length_take]
  omega

theorem idle_of_pending {sq flight : List ℕ} {cq : ℕ} (h : sq.length + flight.length + cq = 0) :
    sq = [] ∧ flight = [] ∧ cq = 0 :=
  ⟨List.length_eq_zero_iff.mp (by omega), List.length_eq_zero_iff.mp (by omega), by omega⟩

/-- The steps in which requests are prepared, submitted and waited for. -/
theorem Inv.request {o : Outcome} {disp : List ℕ} {p : ℕ} (I : Inv s) (hw : WaitsSucceed s (.bg o))
    (hst : bgStep s o = some s') (hc : s.pc.count = some (disp, p)) : Inv s' := by
  have h1 := I.once
  have h2 := I.within
  obtain ⟨h3, h4⟩ := I.batch disp p hc
  unfold State.chunks at h1
  cases hp : s.pc with
  | visit d rest pending =>
    simp only [hp, Pc.count, Option.some.injEq, Prod.mk.injEq] at hc
    obtain ⟨rfl, rfl⟩ := hc
    rw [hp] at h1 h2
    cases rest with
    | cons c rest =>
      simp only [bgStep, hp] at hst
      have hc : c ∈ d := h2 c (List.mem_cons_self ..)
      have hrest : ∀ x ∈ rest, x ∈ d := fun x hx => h2 x (List.mem_cons_of_mem _ hx)
      split_ifs at hst
      · cases hst
        refine ⟨h1, hrest, ?_, fun h => by cases h⟩
        rintro _ _ ⟨⟩
        refine ⟨fun x hx => ?_, ?_⟩
        · simp only [List.mem_append, List.mem_singleton] at hx
          rcases hx with (hx | rfl) | hx
          · exact h3 x (Or.inl hx)
          · exact hc
          · exact h3 x (Or.inr hx)
        · dsimp only
          rw [List.length_append, List.length_singleton]
          omega
      · cases hst
        exact ⟨h1, ⟨hc, hrest⟩, by rintro _ _ ⟨⟩; exact ⟨h3, h4⟩, fun h => by cases h⟩
    | nil =>
      simp only [bgStep, hp, Option.some.injEq] at hst
      subst hst
      unfold lastSubmit
      split_ifs with h0
      · refine ⟨by simpa [State.chunks, Pc.chunks] using h1, trivial, by simp [Pc.count], fun _ => ?_⟩
        exact idle_of_pending (h4.trans h0)
      · exact ⟨h1, trivial, by rintro _ _ ⟨⟩; exact ⟨h3, h4⟩, fun h => by cases h⟩
  | flush d c rest pending =>
    simp only [hp, Pc.count, Option.some.injEq, Prod.mk.injEq] at hc
    obtain ⟨rfl, rfl⟩ := hc
    rw [hp] at h1 h2
    simp only [bgStep, hp, Option.some.injEq] at hst
    subst hst
    refine ⟨h1, h2, ?_, fun h => by cases h⟩
    rintro _ _ ⟨⟩
    exact ⟨fun x hx => h3 x (submit_mem hx), by rw [submit_length]; exact h4⟩
  | drainFull d c rest pending =>
    simp only [hp, Pc.count, Option.some.injEq, Prod.mk.injEq] at hc
    obtain ⟨rfl, rfl⟩ := hc
    rw [hp] at h1 h2
    simp only [bgStep, hp] at hst
    -- a failed wait only ends this loop: the requests stay counted
    have stay : Inv { s with pc := .retry d c rest pending } :=
      ⟨h1, h2, by rintro _ _ ⟨⟩; exact ⟨h3, h4⟩, fun h => by cases h⟩
    split_ifs at hst with h0 ho hq
    · cases hst
      exact stay
    · cases hst
      refine ⟨h1, h2, ?_, fun h => by cases h⟩
      rintro _ _ ⟨⟩
      exact ⟨h3, by dsimp only; omega⟩
    · cases hst
      exact stay
  | retry d c rest pending =>
    simp only [hp, Pc.count, Option.some.injEq, Prod.mk.injEq] at hc
    obtain ⟨rfl, rfl⟩ := hc
    rw [hp] at h1 h2
    simp only [bgStep, hp] at hst
    split_ifs at hst
    · cases hst
      refine ⟨h1, h2.2, ?_, fun h => by cases h⟩
      rintro _ _ ⟨⟩
      refine ⟨fun x hx => ?_, ?_⟩
      · simp only [List.mem_append, List.mem_singleton] at hx
        rcases hx with (hx | rfl) | hx
        · exact h3 x (Or.inl hx)
        · exact h2.1
        · exact h3 x (Or.inr hx)
      · dsimp only
        rw [List.length_append, List.length_singleton]
        omega
    · cases hst
      exact ⟨h1, h2.2, by rintro _ _ ⟨⟩; exact ⟨h3, h4⟩, fun h => by cases h⟩
  | submit d pending =>
    simp only [hp, Pc.count, Option.some.injEq, Prod.mk.injEq] at hc
    obtain ⟨rfl, rfl⟩ := hc
    rw [hp] at h1
    simp only [bgStep, hp, Option.some.injEq] at hst
    subst hst
    refine ⟨h1, trivial, ?_, fun h => by cases h⟩
    rintro _ _ ⟨⟩
    exact ⟨fun x hx => h3 x (submit_mem hx), by rw [submit_length]; exact h4⟩
  | drain d pending =>
    simp only [hp, Pc.count, Option.some.injEq, Prod.mk.injEq] at hc
    obtain ⟨rfl, rfl⟩ := hc
    rw [hp] at h1
    simp only [bgStep, hp] at hst
    split_ifs at hst with h0 ho hq
    · cases hst
      refine ⟨by simpa [State.chunks, Pc.chunks] using h1, trivial, by simp [Pc.count], fun _ => ?_⟩
      exact idle_of_pending (h4.trans h0)
    · cases hst
      refine ⟨h1, trivial, ?_, fun h => by cases h⟩
      rintro _ _ ⟨⟩
      exact ⟨h3, by dsimp only; omega⟩
    · exact absurd (hw _ _ hp h0) ho
  | _ => rw [hp] at hc; cases hc

/-- The steps in which no request is under way. -/
theorem Inv.handOver {o : Outcome} (I : Inv s) (hst : bgStep s o = some s') (hc : s.pc.count = none) :
    Inv s' := by
  have h1 := I.once
  obtain ⟨q1, q2, q3⟩ := I.quiet hc
  unfold State.chunks at h1
  have quiet : ∀ pc : Pc, pc.count = none → pc.Within → ∀ queue warm held,
      (∀ x, (queue ++ warm ++ held ++ pc.chunks).count x ≤ 1) →
      Inv { s with queue := queue, warm := warm, held := held, pc := pc } := by
    intro pc e hin queue warm held h
    exact ⟨h, hin, (fun disp p hp => by rw [show _ = none from e] at hp; cases hp), fun _ => ⟨q1, q2, q3⟩⟩
  cases hp : s.pc with
  | wait =>
    rw [hp] at h1
    simp only [bgStep, hp] at hst
    split_ifs at hst
    · cases hst
      refine ⟨fun x => ?_, fun x hx => hx, ?_, fun h => by cases h⟩
      · have := h1 x
        simp only [State.chunks, Pc.chunks, List.count_append, List.count_nil] at this ⊢
        omega
      · rintro _ _ ⟨⟩
        simp [q1, q2, q3]
    · cases hst
      refine quiet (.sync s.queue s.queue) rfl trivial [] s.warm s.held (fun x => ?_)
      have := h1 x
      simp only [Pc.chunks, List.count_append, List.count_nil] at this ⊢
      omega
  | sync disp rest =>
    rw [hp] at h1
    cases rest with
    | cons c rest =>
      simp only [bgStep, hp, Option.some.injEq] at hst
      subst hst
      exact quiet (.sync disp rest) rfl trivial _ _ _ h1
    | nil =>
      simp only [bgStep, hp, Option.some.injEq] at hst
      subst hst
      exact quiet (.giveBack disp []) rfl trivial _ _ _ (by simpa [Pc.chunks] using h1)
  | giveBack disp trim =>
    rw [hp] at h1
    cases disp with
    | cons c disp =>
      simp only [bgStep, hp] at hst
      split_ifs at hst
      · cases hst
        refine quiet (.giveBack disp trim) rfl trivial _ (c :: s.warm) _ (fun x => ?_)
        have := h1 x
        simp only [Pc.chunks, List.count_append, List.count_cons] at this ⊢
        omega
      · cases hst
        refine quiet (.giveBack disp (c :: trim)) rfl trivial _ _ _ (fun x => ?_)
        have := h1 x
        simp only [Pc.chunks, List.count_append, List.count_cons] at this ⊢
        omega
    | nil =>
      simp only [bgStep, hp, Option.some.injEq] at hst
      subst hst
      exact quiet (.trim trim _) rfl trivial _ _ _ (by simpa [Pc.chunks] using h1)
  | trim cs deficit =>
    rw [hp] at h1
    cases cs with
    | cons c cs =>
      simp only [bgStep, hp, Option.some.injEq] at hst
      subst hst
      refine quiet (.trim cs deficit) rfl trivial _ _ _ (fun x => ?_)
      have := h1 x
      simp only [Pc.chunks, List.count_append, List.count_cons] at this ⊢
      omega
    | nil =>
      simp only [bgStep, hp, Option.some.injEq] at hst
      subst hst
      exact quiet (.premap deficit) rfl trivial _ _ _ h1
  | premap deficit =>
    rw [hp] at h1
    simp only [bgStep, hp] at hst
    split_ifs at hst
    · cases hst
      exact quiet .wait rfl trivial _ _ _ h1
    · cases hm : o.map with
      | none =>
        simp only [hm, Option.some.injEq] at hst
        subst hst
        exact quiet .wait rfl trivial _ _ _ h1
      | some c =>
        simp only [hm] at hst
        split_ifs at hst with hn
        cases hst
        refine quiet (.premap (deficit - 1)) rfl trivial _ (c :: s.warm) _ (fun x => ?_)
        have := h1 x
        have h0 : s.chunks.count c = 0 := List.count_eq_zero.mpr hn
        simp only [State.chunks, hp, Pc.chunks, List.count_append, List.count_cons] at h0 this ⊢
        by_cases e : c = x
        · subst e
          simp only [beq_self_eq_true, if_true]
          omega
        · simp only [beq_iff_eq, e, if_false]
          omega
  | _ => rw [hp] at hc; cases hc

theorem Inv.bgStep {o : Outcome} (I : Inv s) (hw : WaitsSucceed s (.bg o))
    (hst : bgStep s o = some s') : Inv s' := by
  cases hc : s.pc.count with
  | none => exact I.handOver hst hc
  | some d => exact I.request hw hst hc

/-- The kernel finishes a request: it is still counted, as a completion. -/
theorem Inv.complete (I : Inv s) (hc : c ∈ s.flight) :
    Inv { s with flight := s.flight.erase c, cq := s.cq + 1 } := by
  have hlen := List.length_erase_of_mem hc
  have hpos := List.length_pos_of_mem hc
  refine ⟨I.once, I.within, fun disp p hp => ?_, fun hp => ?_⟩
  · obtain ⟨hmem, hsum⟩ := I.batch disp p hp
    refine ⟨fun x hx => hmem x (hx.imp_right List.mem_of_mem_erase), ?_⟩
    dsimp only
    omega
  · rw [(I.quiet hp).2.1] at hc
    cases hc

theorem Inv.step {a : Action} (I : Inv s) (hw : WaitsSucceed s a) (hst : step s a = some s') :
    Inv s' := by
  cases a with
  | bg o => exact I.bgStep hw hst
  | complete x =>
    simp only [Ring.step] at hst
    split_ifs at hst with hx
    cases hst
    exact I.complete hx
  | chunkObtain x =>
    have h1 := I.once
    simp only [Ring.step] at hst
    cases hwm : s.warm with
    | cons w warm =>
      simp only [hwm, Option.some.injEq] at hst
      subst hst
      refine ⟨fun y => ?_, I.within, I.batch, I.quiet⟩
      have := h1 y
      simp only [State.chunks, hwm, List.count_append, List.count_cons] at this ⊢
      omega
    | nil =>
      simp only [hwm] at hst
      split_ifs at hst with hn
      cases hst
      refine ⟨fun y => ?_, I.within, I.batch, I.quiet⟩
      have := h1 y
      have h0 : s.chunks.count x = 0 := List.count_eq_zero.mpr hn
      simp only [State.chunks, hwm, List.count_append, List.count_cons] at h0 this ⊢
      by_cases e : x = y
      · subst e
        simp only [beq_self_eq_true, if_true]
        omega
      · simp only [beq_iff_eq, e, if_false]
        omega
  | chunkDispose x =>
    simp only [Ring.step] at hst
    split_ifs at hst with hx
    cases hst
    refine ⟨fun y => ?_, I.within, I.batch, I.quiet⟩
    have := I.once y
    have hpos := List.count_pos_iff.mpr hx
    simp only [State.chunks, List.count_append, List.count_cons, List.count_erase] at this ⊢
    by_cases e : x = y
    · subst e
      simp only [beq_self_eq_true, if_true]
      omega
    · simp only [beq_iff_eq, e, if_false]
      omega

theorem Inv.of_run {b : Bool} {as : List Action} (h : Run Ring.step WaitsSucceed (State.init b) as s) :
    Inv s :=
  h.invariant Inv (fun _ _ _ I hw hst => I.step hw hst) (Inv.init b)

/-- A chunk with a request is in the maintenance thread's batch and nowhere else. -/
theorem Inv.only_batch (I : Inv s) (hc : c ∈ s.sq ∨ c ∈ s.flight) :
    c ∉ s.queue ∧ c ∉ s.warm ∧ c ∉ s.held := by
  have hin : c ∈ s.pc.chunks := by
    cases hp : s.pc.count with
    | none =>
      obtain ⟨h1, h2, -⟩ := I.quiet hp
      rw [h1, h2] at hc
      simp at hc
    | some d =>
      obtain ⟨disp, p⟩ := d
      have hd := (I.batch disp p hp).1 c hc
      cases hpc : s.pc <;> rw [hpc] at hp <;> cases hp <;> exact hd
  have h1 := I.once c
  have hpos := List.count_pos_iff.mpr hin
  simp only [State.chunks, List.count_append] at h1
  refine ⟨?_, ?_, ?_⟩ <;> rw [← List.count_eq_zero] <;> omega

/-- In a run whose last waits succeed, a chunk is offered again or unmapped only when no request for
    it is prepared or under way, and no pool has a chunk that a request is about. -/
theorem release_before_offer {b : Bool} {as : List Action}
    (h : Run Ring.step WaitsSucceed (State.init b) as s) :
    (∀ a c, Offers s a c → c ∉ s.flight ∧ c ∉ s.sq) ∧
      ∀ c ∈ s.flight, c ∉ s.warm ∧ c ∉ s.held := by
  have I := Inv.of_run h
  refine ⟨fun a c hoff => ?_, fun c hc => (I.only_batch (Or.inr hc)).2⟩
  have hnone : s.pc.count = none := by
    rcases hoff.2 with ⟨disp, trim, e, -⟩ | ⟨trim, deficit, e⟩ <;> rw [e] <;> rfl
  obtain ⟨h1, h2, -⟩ := I.quiet hnone
  rw [h1, h2]
  exact ⟨List.not_mem_nil, List.not_mem_nil⟩

/-! ## Two runs -/

/-- The ring has an entry, takes what it is given and the wait returns `wait`. -/
def answer (wait : Bool) : Action := .bg { sqe := true, accepted := 1, wait := wait, map := none }

/-- A pool disposes of the chunk at 2 MiB and the maintenance thread submits its release. -/
def submitRelease : List Action :=
  [.chunkObtain 2097152, .chunkDispose 2097152] ++ List.replicate 4 (answer true)

/-- The kernel finishes the release and the thread consumes the completion. -/
def awaitRelease : List Action := [.complete 2097152, answer true, answer true]

/-- `WaitsSucceed`, as a test that does not look at the state. -/
def waitsSucceed (_ : State) : Action → Bool
  | .bg o => o.wait
  | .complete _ | .chunkObtain _ | .chunkDispose _ => true

/-- A released chunk is about to go back on the warm stack. -/
theorem release_before_offer_one :
    ∃ s, Run Ring.step WaitsSucceed (State.init true) (submitRelease ++ awaitRelease) s ∧
      Offers s (answer true) 2097152 ∧ 2097152 ∉ s.flight ∧ 2097152 ∉ s.sq := by
  have hchecks : checks Ring.step waitsSucceed (State.init true) (submitRelease ++ awaitRelease) = true := by
    decide
  have hrun : Run Ring.step WaitsSucceed _ _ _ ∧ _ := run_of_checks (P := fun _ => True) hchecks trivial
    (fun s a _ ha => by cases a with
      | bg o => exact fun _ _ _ _ => ha
      | _ => trivial)
    (fun _ _ _ _ _ _ => trivial)
  have hoff : Offers (finish Ring.step (State.init true) (submitRelease ++ awaitRelease))
      (answer true) 2097152 := ⟨⟨_, rfl⟩, Or.inl ⟨[], [], rfl, by decide⟩⟩
  exact ⟨_, hrun.1, hoff, (release_before_offer hrun.1).1 _ _ hoff⟩

/-- The wait fails: the chunk goes back on the warm stack and to a pool while its release is under
    way. -/
theorem release_outlives_offer :
    (∃ s, Run Ring.step (fun _ _ => True) (State.init true) (submitRelease ++ [answer false]) s ∧
      Offers s (answer true) 2097152 ∧ 2097152 ∈ s.flight) ∧
    ∃ s, Run Ring.step (fun _ _ => True) (State.init true)
        (submitRelease ++ [answer false, answer true, .chunkObtain 4194304]) s ∧
      2097152 ∈ s.held ∧ 2097152 ∈ s.flight :=
  ⟨⟨_, run_of_exec rfl, ⟨⟨_, rfl⟩, Or.inl ⟨[], [], rfl, by decide⟩⟩, by decide⟩,
    ⟨_, run_of_exec rfl, by decide, by decide⟩⟩

end BtMalloc.Ring
