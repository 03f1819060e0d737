import Mathlib.Tactic

/-!
# Runs of a partial step function

A component is a state type, an action type and a step function that answers the next state
and an output, or `none` where the code has no defined behaviour (a null dereference, an
index out of range). A *run* is a finite sequence of steps from a start state, together with
its trace of actions and outputs.

`RunIf step ok` are the runs in which every step is taken from a state that admits it; the
invariant rules are stated for those, and `Run` is the case without a side condition.
-/

namespace Refk.Lib

variable {σ α β : Type}

/-- The runs of `step` from `s₀` all of whose steps satisfy `ok`, with trace and last state. -/
inductive RunIf (step : σ → α → Option (σ × β)) (ok : σ → α → Prop) (s₀ : σ) :
    List (α × β) → σ → Prop
  | start : RunIf step ok s₀ [] s₀
  | snoc {tr : List (α × β)} {s s' : σ} {a : α} {b : β} (run : RunIf step ok s₀ tr s)
      (guard : ok s a) (step_eq : step s a = some (s', b)) :
      RunIf step ok s₀ (tr ++ [(a, b)]) s'

/-- Every run. -/
abbrev Run (step : σ → α → Option (σ × β)) (s₀ : σ) : List (α × β) → σ → Prop :=
  RunIf step (fun _ _ => True) s₀

namespace RunIf

variable {step : σ → α → Option (σ × β)} {ok : σ → α → Prop} {s₀ s : σ} {tr : List (α × β)}

/-- **The invariant rule**, over state and trace together. -/
theorem invariant (Inv : List (α × β) → σ → Prop) (h₀ : Inv [] s₀)
    (hstep : ∀ tr s a s' b, Inv tr s → ok s a → step s a = some (s', b) →
      Inv (tr ++ [(a, b)]) s') (h : RunIf step ok s₀ tr s) : Inv tr s := by
  induction h with
  | start => exact h₀
  | snoc _ hok hs ih => exact hstep _ _ _ _ _ ih hok hs

/-- The invariant rule for a property of states. -/
theorem invariant_state (Inv : σ → Prop) (h₀ : Inv s₀)
    (hstep : ∀ s a s' b, Inv s → ok s a → step s a = some (s', b) → Inv s')
    (h : RunIf step ok s₀ tr s) : Inv s :=
  h.invariant (fun _ s => Inv s) h₀ fun _ s a s' b => hstep s a s' b

theorem mono {ok' : σ → α → Prop} (himp : ∀ s a, ok s a → ok' s a)
    (h : RunIf step ok s₀ tr s) : RunIf step ok' s₀ tr s := by
  induction h with
  | start => exact .start
  | snoc _ hok hs ih => exact ih.snoc (himp _ _ hok) hs

theorem toRun (h : RunIf step ok s₀ tr s) : Run step s₀ tr s :=
  h.mono fun _ _ _ => trivial

/-- The trace decides the last state. -/
theorem state_unique {ok' : σ → α → Prop} {s' : σ} (h : RunIf step ok s₀ tr s)
    (h' : RunIf step ok' s₀ tr s') : s = s' := by
  induction h generalizing s' with
  | start =>
    generalize htr : ([] : List (α × β)) = tr at h'
    cases h' with
    | start => rfl
    | snoc _ _ _ => simp at htr
  | @snoc tr₁ s₁ s₂ a b run hok hs ih =>
    generalize htr : tr₁ ++ [(a, b)] = tr at h'
    cases h' with
    | start => simp at htr
    | @snoc tr₂ s₃ _ a' b' run' hok' hs' =>
      simp only [List.append_singleton_inj, Prod.mk.injEq] at htr
      obtain ⟨rfl, rfl, rfl⟩ := htr
      rw [ih run', hs'] at hs
      simpa using hs.symm

end RunIf

/-- Executes a list of actions, as far as they are admitted and defined. -/
def exec (step : σ → α → Option (σ × β)) (ok : σ → α → Prop) [∀ s a, Decidable (ok s a)] :
    σ → List α → Option (List (α × β) × σ)
  | s, [] => some ([], s)
  | s, a :: as =>
    if ok s a then do
      let (s', b) ← step s a
      let (tr, s'') ← exec step ok s' as
      return ((a, b) :: tr, s'')
    else none

theorem RunIf.append_exec {step : σ → α → Option (σ × β)} {ok : σ → α → Prop}
    [∀ s a, Decidable (ok s a)] {s₀ s s' : σ} {tr₀ tr : List (α × β)} {as : List α}
    (h : RunIf step ok s₀ tr₀ s) (hexec : exec step ok s as = some (tr, s')) :
    RunIf step ok s₀ (tr₀ ++ tr) s' := by
  induction as generalizing s tr₀ tr with
  | nil =>
    obtain ⟨rfl, rfl⟩ : [] = tr ∧ s = s' := by simpa [exec] using hexec
    simpa using h
  | cons a as ih =>
    rw [exec] at hexec
    split_ifs at hexec with hok
    simp only [Option.bind_eq_bind, Option.bind_eq_some_iff, Prod.exists, Option.pure_def,
      Option.some.injEq, Prod.mk.injEq] at hexec
    obtain ⟨s₁, b, hs, tr', s₂, htr', rfl, rfl⟩ := hexec
    simpa using ih (h.snoc hok hs) htr'

/-- What executes is a run. -/
theorem RunIf.of_exec (step : σ → α → Option (σ × β)) (ok : σ → α → Prop)
    [∀ s a, Decidable (ok s a)] (s₀ : σ) (as : List α) {s : σ} {tr : List (α × β)}
    (hexec : exec step ok s₀ as = some (tr, s)) : RunIf step ok s₀ tr s :=
  RunIf.start.append_exec hexec

/-! ## Properties of every step of a run -/

/-- Every step of the trace satisfies `P`, as a relation between the state it is taken from,
    the action, the output and the state it leads to. -/
def Along (step : σ → α → Option (σ × β)) (s₀ : σ) (P : σ → α → β → σ → Prop)
    (tr : List (α × β)) : Prop :=
  ∀ tr₁ a b tr₂ s s', tr = tr₁ ++ (a, b) :: tr₂ → Run step s₀ tr₁ s →
    step s a = some (s', b) → P s a b s'

namespace Along

variable {step : σ → α → Option (σ × β)} {ok : σ → α → Prop} {s₀ s s' : σ}
  {P Q : σ → α → β → σ → Prop} {tr : List (α × β)} {a : α} {b : β}

theorem nil : Along step s₀ P [] := fun tr₁ a b tr₂ s s' h => by simp at h

theorem snoc_iff (h : RunIf step ok s₀ tr s) (hs : step s a = some (s', b)) :
    Along step s₀ P (tr ++ [(a, b)]) ↔ Along step s₀ P tr ∧ P s a b s' := by
  constructor
  · intro hall
    refine ⟨fun tr₁ a₁ b₁ tr₂ s₁ s₂ htr hrun hs₁ => ?_, hall tr a b [] s s' rfl h.toRun hs⟩
    exact hall tr₁ a₁ b₁ (tr₂ ++ [(a, b)]) s₁ s₂ (by simp [htr]) hrun hs₁
  · rintro ⟨hall, hlast⟩ tr₁ a₁ b₁ tr₂ s₁ s₂ htr hrun hs₁
    rcases List.eq_nil_or_concat tr₂ with rfl | ⟨tr₂, x, rfl⟩
    · simp only [List.append_singleton_inj, Prod.mk.injEq] at htr
      obtain ⟨rfl, rfl, rfl⟩ := htr
      obtain rfl := h.state_unique hrun
      obtain rfl : s' = s₂ := by simpa [hs] using hs₁
      exact hlast
    · rw [List.concat_eq_append, ← List.cons_append, ← List.append_assoc,
        List.append_singleton_inj] at htr
      exact hall tr₁ a₁ b₁ tr₂ s₁ s₂ htr.1 hrun hs₁

/-- **Two step properties that agree as long as an invariant holds**, one of which keeps it,
    hold along the same runs, and the invariant holds at the end of these. -/
theorem iff_and_invariant (Inv : σ → Prop) (h₀ : Inv s₀)
    (hstep : ∀ s a s' b, Inv s → ok s a → step s a = some (s', b) →
      (P s a b s' ↔ Q s a b s') ∧ (Q s a b s' → Inv s'))
    (h : RunIf step ok s₀ tr s) :
    (Along step s₀ P tr ↔ Along step s₀ Q tr) ∧ (Along step s₀ Q tr → Inv s) := by
  induction h with
  | start => exact ⟨⟨fun _ => nil, fun _ => nil⟩, fun _ => h₀⟩
  | snoc run hok hs ih =>
    rw [snoc_iff run hs, snoc_iff run hs, ih.1]
    refine ⟨and_congr_right fun hQ => (hstep _ _ _ _ (ih.2 hQ) hok hs).1, fun hQ => ?_⟩
    exact (hstep _ _ _ _ (ih.2 hQ.1) hok hs).2 hQ.2

theorem iff_of_invariant (Inv : σ → Prop) (h₀ : Inv s₀)
    (hstep : ∀ s a s' b, Inv s → ok s a → step s a = some (s', b) →
      (P s a b s' ↔ Q s a b s') ∧ (Q s a b s' → Inv s'))
    (h : RunIf step ok s₀ tr s) : Along step s₀ P tr ↔ Along step s₀ Q tr :=
  (iff_and_invariant Inv h₀ hstep h).1

end Along

end Refk.Lib
