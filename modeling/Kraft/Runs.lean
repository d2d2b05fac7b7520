/-
# Runs of a deterministic machine

A machine is a function `step : σ → ε → σ` that takes a state and an event to the next
state.  A run is a list of events.  `AllSteps` says that every step of a run meets a
condition on the state before the step and the event, and the rules below derive facts
about the state a run ends in from facts about single steps:

* `AllSteps.invariant` : an invariant kept by every admissible step holds at the end;
* `allSteps_congr` : conditions that agree under an invariant admit the same runs;
* `AllSteps.related` : a preorder respected by every admissible step relates the two ends;
* `allSteps_iff_segments` : a preorder holds across every part of a run exactly if every step
  respects it;
* `AllSteps.always_iff` : a property holds all along a run exactly if every step keeps it.

A run all of whose steps are admissible has only prefixes of that kind, so a fact proved
for the end of every such run holds in every state on the way.
-/
import Mathlib.Order.Basic

namespace Runs

variable {σ ε : Type*}

/-- The state a run ends in. -/
def run (step : σ → ε → σ) (s : σ) (events : List ε) : σ := events.foldl step s

/-- Every step of the run meets the condition. -/
def AllSteps (step : σ → ε → σ) (ok : σ → ε → Prop) : σ → List ε → Prop
  | _, [] => True
  | s, e :: rest => ok s e ∧ AllSteps step ok (step s e) rest

instance (step : σ → ε → σ) (ok : σ → ε → Prop) [∀ s e, Decidable (ok s e)] :
    ∀ (s : σ) (events : List ε), Decidable (AllSteps step ok s events)
  | _, [] => inferInstanceAs (Decidable True)
  | s, e :: rest =>
    have := instDecidableAllSteps step ok (step s e) rest
    inferInstanceAs (Decidable (ok s e ∧ AllSteps step ok (step s e) rest))

variable {step : σ → ε → σ} {ok : σ → ε → Prop}

@[simp] theorem run_nil (s : σ) : run step s [] = s := rfl

@[simp] theorem run_cons (s : σ) (e : ε) (rest : List ε) :
    run step s (e :: rest) = run step (step s e) rest := rfl

theorem run_append (s : σ) (events₁ events₂ : List ε) :
    run step s (events₁ ++ events₂) = run step (run step s events₁) events₂ :=
  List.foldl_append

theorem allSteps_append (s : σ) (events₁ events₂ : List ε) :
    AllSteps step ok s (events₁ ++ events₂) ↔
      AllSteps step ok s events₁ ∧ AllSteps step ok (run step s events₁) events₂ := by
  induction events₁ generalizing s with
  | nil => simp [AllSteps]
  | cons e rest ih => simp [AllSteps, ih, and_assoc]

/-- Every run meets the trivial condition. -/
theorem allSteps_true (s : σ) (events : List ε) :
    AllSteps step (fun _ _ => True) s events := by
  induction events generalizing s with
  | nil => trivial
  | cons e rest ih => exact ⟨trivial, ih _⟩

/-- A weaker condition admits every run that a stronger one admits. -/
theorem AllSteps.mono {ok' : σ → ε → Prop} (himp : ∀ s e, ok s e → ok' s e) {s : σ}
    {events : List ε} (h : AllSteps step ok s events) : AllSteps step ok' s events := by
  induction events generalizing s with
  | nil => trivial
  | cons e rest ih => exact ⟨himp s e h.1, ih h.2⟩

/-- A condition on all events of a run can be added to a condition on its steps. -/
theorem AllSteps.and_forall_mem {p : ε → Prop} {s : σ} {events : List ε}
    (h : AllSteps step ok s events) (hp : ∀ e ∈ events, p e) :
    AllSteps step (fun s e => ok s e ∧ p e) s events := by
  induction events generalizing s with
  | nil => trivial
  | cons e rest ih =>
    exact ⟨⟨h.1, hp e (by simp)⟩, ih h.2 fun e' he' => hp e' (by simp [he'])⟩

/-- **The invariant rule.** -/
theorem AllSteps.invariant (inv : σ → Prop)
    (hstep : ∀ s e, inv s → ok s e → inv (step s e)) {s : σ} {events : List ε}
    (hinit : inv s) (h : AllSteps step ok s events) : inv (run step s events) := by
  induction events generalizing s with
  | nil => exact hinit
  | cons e rest ih => exact ih (hstep s e hinit h.1) h.2

/-- Two conditions that agree as long as an invariant holds admit the same runs. -/
theorem allSteps_congr {ok' : σ → ε → Prop} {p : ε → Prop} (inv : σ → Prop)
    (hstep : ∀ s e, inv s → p e → ok s e → inv (step s e))
    (hiff : ∀ s e, inv s → p e → (ok s e ↔ ok' s e)) {events : List ε}
    (hp : ∀ e ∈ events, p e) : ∀ {s : σ}, inv s →
      (AllSteps step ok s events ↔ AllSteps step ok' s events) := by
  induction events with
  | nil => exact fun _ => Iff.rfl
  | cons e rest ih =>
    intro s hinv
    have he := hp e (by simp)
    have hrest := fun e' he' => hp e' (List.mem_cons_of_mem _ he')
    rw [AllSteps, AllSteps]
    constructor
    · rintro ⟨hok, hall⟩
      exact ⟨(hiff s e hinv he).mp hok, (ih hrest (hstep s e hinv he hok)).mp hall⟩
    · rintro ⟨hok', hall⟩
      have hok := (hiff s e hinv he).mpr hok'
      exact ⟨hok, (ih hrest (hstep s e hinv he hok)).mpr hall⟩

/-- **The preorder rule**, with an invariant to prove the single steps from. -/
theorem AllSteps.related (inv : σ → Prop) (r : σ → σ → Prop) (hrefl : ∀ s, r s s)
    (htrans : ∀ s₁ s₂ s₃, r s₁ s₂ → r s₂ s₃ → r s₁ s₃)
    (hinv : ∀ s e, inv s → ok s e → inv (step s e))
    (hstep : ∀ s e, inv s → ok s e → r s (step s e)) {s : σ} {events : List ε}
    (hinit : inv s) (h : AllSteps step ok s events) : r s (run step s events) := by
  induction events generalizing s with
  | nil => exact hrefl s
  | cons e rest ih =>
    exact htrans _ _ _ (hstep s e hinit h.1) (ih (hinv s e hinit h.1) h.2)

/-- A preorder relates the two ends of every part of a run exactly if it relates the two ends of
every step. -/
theorem allSteps_iff_segments (r : σ → σ → Prop) (hrefl : ∀ s, r s s)
    (htrans : ∀ s₁ s₂ s₃, r s₁ s₂ → r s₂ s₃ → r s₁ s₃) (events : List ε) : ∀ s : σ,
    ((∀ before between after, events = before ++ between ++ after →
      r (run step s before) (run step s (before ++ between))) ↔
        AllSteps step (fun s e => r s (step s e)) s events) := by
  intro s
  constructor
  · intro h
    induction events generalizing s with
    | nil => trivial
    | cons e rest ih =>
      refine ⟨h [] [e] rest rfl, ih (step s e) fun before between after heq => ?_⟩
      exact h (e :: before) between after (by rw [heq]; rfl)
  · rintro h before between after rfl
    rw [allSteps_append, allSteps_append] at h
    rw [run_append]
    exact h.1.2.related (fun _ => True) r hrefl htrans (fun _ _ _ _ => trivial)
      (fun _ _ _ hstep => hstep) trivial

/-- A property holds all along a run exactly if every step of the run meets the condition under
which the step keeps it. -/
theorem AllSteps.always_iff {keeps : σ → ε → Prop} (inv p : σ → Prop)
    (hinv : ∀ s e, inv s → p s → ok s e → inv (step s e))
    (hiff : ∀ s e, inv s → p s → ok s e → (p (step s e) ↔ keeps s e)) {events : List ε} :
    ∀ {s : σ}, inv s → p s → AllSteps step ok s events →
      ((∀ before after, events = before ++ after → p (run step s before)) ↔
        AllSteps step keeps s events) := by
  induction events with
  | nil =>
    intro s _ hp _
    refine ⟨fun _ => trivial, fun _ before after heq => ?_⟩
    rw [(List.append_eq_nil_iff.mp heq.symm).1]
    exact hp
  | cons e rest ih =>
    intro s hs hp hok
    have hnext := hiff s e hs hp hok.1
    constructor
    · intro h
      have hp' : p (step s e) := h [e] rest rfl
      refine ⟨hnext.mp hp', (ih (hinv s e hs hp hok.1) hp' hok.2).mp fun before after heq => ?_⟩
      exact h (e :: before) after (by rw [heq]; rfl)
    · rintro ⟨hkeeps, hall⟩ before after heq
      cases before with
      | nil => exact hp
      | cons e' before =>
        obtain ⟨rfl, hrest⟩ := List.cons.inj heq
        exact (ih (hinv s e hs hp hok.1) (hnext.mpr hkeeps) hok.2).mpr hall before after hrest

end Runs
