import Mathlib.Data.List.Basic

/-!
# Deterministic machines with outputs

A machine answers each input with an output and a next state. A run collects the outputs. Two
rules are all the developments above need: an invariant of one step is an invariant of a run, and
two machines that answer alike from related states answer alike for ever.
-/

namespace BenchmarkPlatform.Lib

variable {σ σ' ι ο : Type*}

/-- Feed a list of inputs to a machine: the last state and the outputs in order. -/
def mealyRun (step : σ → ι → σ × ο) : σ → List ι → σ × List ο
  | s, [] => (s, [])
  | s, i :: is =>
    let r := mealyRun step (step s i).1 is
    (r.1, (step s i).2 :: r.2)

@[simp] theorem mealyRun_nil (step : σ → ι → σ × ο) (s : σ) : mealyRun step s [] = (s, []) := rfl

theorem mealyRun_cons (step : σ → ι → σ × ο) (s : σ) (i : ι) (is : List ι) :
    mealyRun step s (i :: is)
      = ((mealyRun step (step s i).1 is).1, (step s i).2 :: (mealyRun step (step s i).1 is).2) :=
  rfl

theorem mealyRun_append (step : σ → ι → σ × ο) (s : σ) (is js : List ι) :
    mealyRun step s (is ++ js) = ((mealyRun step (mealyRun step s is).1 js).1,
      (mealyRun step s is).2 ++ (mealyRun step (mealyRun step s is).1 js).2) := by
  induction is generalizing s with
  | nil => rfl
  | cons i is ih => rw [List.cons_append, mealyRun_cons, ih, mealyRun_cons, List.cons_append]

/-- Each output of a run is that of a step from where the inputs before it lead. -/
theorem exists_of_mealyRun_eq {step : σ → ι → σ × ο} {s : σ} {is : List ι} {os os' : List ο} {o : ο}
    (h : (mealyRun step s is).2 = os ++ o :: os') : ∃ is₁ i is₂, is = is₁ ++ i :: is₂ ∧
      (mealyRun step s is₁).2 = os ∧ (step (mealyRun step s is₁).1 i).2 = o ∧
      (mealyRun step (step (mealyRun step s is₁).1 i).1 is₂).2 = os' := by
  induction os generalizing s is with
  | nil =>
    cases is with
    | nil => simp at h
    | cons i is =>
      rw [mealyRun_cons, List.nil_append, List.cons.injEq] at h
      exact ⟨[], i, is, rfl, rfl, h.1, h.2⟩
  | cons o' os ih =>
    cases is with
    | nil => simp at h
    | cons i is =>
      rw [mealyRun_cons, List.cons_append, List.cons.injEq] at h
      obtain ⟨is₁, j, is₂, rfl, rfl, ho, hos⟩ := ih h.2
      exact ⟨i :: is₁, j, is₂, rfl, congrArg (· :: _) h.1, ho, hos⟩

/-- **Invariants.** What every step preserves, every run preserves. -/
theorem mealyRun_invariant {step : σ → ι → σ × ο} {P : σ → Prop} {is : List ι}
    (hstep : ∀ s, ∀ i ∈ is, P s → P (step s i).1) {s : σ} (hs : P s) :
    P (mealyRun step s is).1 := by
  induction is generalizing s with
  | nil => exact hs
  | cons i is ih =>
    exact ih (fun s j hj ↦ hstep s j (List.mem_cons_of_mem i hj)) (hstep s i List.mem_cons_self hs)

/-- **Lock step.** Machines that answer alike from related states, and stay related, produce the
same outputs on every list of inputs. -/
theorem mealyRun_simulation {step : σ → ι → σ × ο} {step' : σ' → ι → σ' × ο}
    {R : σ → σ' → Prop} {is : List ι}
    (hstep : ∀ s s', ∀ i ∈ is, R s s' →
      (step s i).2 = (step' s' i).2 ∧ R (step s i).1 (step' s' i).1)
    {s : σ} {s' : σ'} (hs : R s s') :
    (mealyRun step s is).2 = (mealyRun step' s' is).2 ∧
      R (mealyRun step s is).1 (mealyRun step' s' is).1 := by
  induction is generalizing s s' with
  | nil => exact ⟨rfl, hs⟩
  | cons i is ih =>
    obtain ⟨hout, hrel⟩ := hstep s s' i List.mem_cons_self hs
    obtain ⟨houts, hrels⟩ := ih (fun s s' j hj ↦ hstep s s' j (List.mem_cons_of_mem i hj)) hrel
    rw [mealyRun_cons, mealyRun_cons, hout, houts]
    exact ⟨rfl, hrels⟩

end BenchmarkPlatform.Lib
