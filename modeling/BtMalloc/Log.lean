import BtMalloc.State

/-!
# The log of link and page operations

What it means that freelist links are only decoded from slots whose link is still there: `Fresh` says
that a slot's link was written and its page not released since, `Good` that every link decoded so far
was fresh at that point. The log is newest first.
-/

namespace BtMalloc

/-- Page `v` is one of the `n` pages from `p` on. -/
def inRun (p n v : ℕ) : Prop := p ≤ v ∧ v < p + n

instance (p n v : ℕ) : Decidable (inRun p n v) := inferInstanceAs (Decidable (_ ∧ _))

/-- The link of slot `s` was written, and the page of `s` not released or unmapped since. -/
def Fresh : List Event → ℕ → Prop
  | [], _ => False
  | .set x :: log, s => x = s ∨ Fresh log s
  | .release p n :: log, s => ¬ inRun p n (s / pageSize) ∧ Fresh log s
  | .unmap p n :: log, s => ¬ inRun p n (s / pageSize) ∧ Fresh log s
  | .get _ :: log, s => Fresh log s
  | .dispose _ _ :: log, s => Fresh log s

/-- Every link was fresh when it was decoded. -/
def Good : List Event → Prop
  | [] => True
  | .get s :: log => Fresh log s ∧ Good log
  | .set _ :: log => Good log
  | .release _ _ :: log => Good log
  | .unmap _ _ :: log => Good log
  | .dispose _ _ :: log => Good log

/-- A link operation. -/
def Event.isLink : Event → Bool
  | .get _ | .set _ => true
  | .release _ _ | .unmap _ _ | .dispose _ _ => false

/-- Only link operations were logged, and every link decoded was fresh if those of the slots `S` were
    fresh before. -/
structure LinkLog (S : ℕ → Prop) (log log' : List Event) : Prop where
  ext : ∃ ev, log' = ev ++ log ∧ ∀ e ∈ ev, e.isLink = true
  good : Good log → (∀ s, S s → Fresh log s) → Good log'

namespace LinkLog

variable {S T : ℕ → Prop} {log log' log'' : List Event} {s : ℕ}

theorem refl : LinkLog S log log := ⟨⟨[], rfl, by simp⟩, fun h _ => h⟩

/-- Link operations never spoil a link. -/
theorem fresh (h : LinkLog S log log') (hs : Fresh log s) : Fresh log' s := by
  obtain ⟨ev, rfl, he⟩ := h.ext
  clear h
  induction ev with
  | nil => exact hs
  | cons e ev ih =>
    have h1 := he e (List.mem_cons_self ..)
    have h2 := ih (fun x hx => he x (List.mem_cons_of_mem _ hx))
    cases e with
    | get x => exact h2
    | set x => exact Or.inr h2
    | release p n => cases h1
    | unmap p n => cases h1
    | dispose c q => cases h1

theorem trans (h : LinkLog S log log') (h' : LinkLog T log' log'')
    (hT : ∀ s, T s → S s ∨ Fresh log' s) : LinkLog S log log'' := by
  obtain ⟨ev, rfl, he⟩ := h.ext
  obtain ⟨ev', rfl, he'⟩ := h'.ext
  refine ⟨⟨ev' ++ ev, by simp, fun e hm => ?_⟩, fun hg hf => ?_⟩
  · rcases List.mem_append.mp hm with hm | hm
    · exact he' e hm
    · exact he e hm
  · refine h'.good (h.good hg hf) (fun s hs => ?_)
    rcases hT s hs with hs | hs
    · exact h.fresh (hf s hs)
    · exact hs

theorem mono (h : LinkLog S log log') (hs : ∀ s, S s → T s) : LinkLog T log log' :=
  ⟨h.ext, fun hg hf => h.good hg (fun s hS => hf s (hs s hS))⟩

theorem get : LinkLog (fun x => x = s) log (.get s :: log) :=
  ⟨⟨[.get s], rfl, by simp [Event.isLink]⟩, fun hg hf => ⟨hf s rfl, hg⟩⟩

theorem set : LinkLog (fun _ => False) log (.set s :: log) :=
  ⟨⟨[.set s], rfl, by simp [Event.isLink]⟩, fun hg _ => hg⟩

theorem fresh_set : Fresh (.set s :: log) s := Or.inl rfl

end LinkLog

end BtMalloc
