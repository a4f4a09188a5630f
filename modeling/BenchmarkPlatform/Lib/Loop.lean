import Mathlib.Data.List.Basic

/-!
# Loops

The body of a loop either goes round again with a new state or leaves with a result. `loop` runs it
for a bounded number of rounds, and `Returns` says that some number of rounds is enough. What holds
of the result of a loop is proved by `Returns.rec_on_body`, which looks at one round. `after` is the
state in which a round begins.
-/

namespace BenchmarkPlatform.Lib

variable {σ β : Type*} {body : σ → σ ⊕ β} {s t : σ} {b b' : β}

/-- At most `n` rounds of the loop, `none` when they are not enough. -/
def loop (body : σ → σ ⊕ β) : ℕ → σ → Option β
  | 0, _ => none
  | n + 1, s => (body s).elim (loop body n) some

theorem loop_of_inr (h : body s = .inr b) (n : ℕ) : loop body (n + 1) s = some b := by
  rw [loop, h, Sum.elim_inr]

theorem loop_of_inl (h : body s = .inl t) (n : ℕ) : loop body (n + 1) s = loop body n t := by
  rw [loop, h, Sum.elim_inl]

/-- The loop ends, and with this result. -/
def Returns (body : σ → σ ⊕ β) (s : σ) (b : β) : Prop :=
  ∃ n, loop body n s = some b

theorem returns_iff_of_inr (h : body s = .inr b) : Returns body s b' ↔ b = b' := by
  constructor
  · rintro ⟨n, hn⟩
    induction n with
    | zero => cases hn
    | succ n _ => exact Option.some_inj.mp ((loop_of_inr h n).symm.trans hn)
  · rintro rfl
    exact ⟨1, loop_of_inr h 0⟩

theorem returns_iff_of_inl (h : body s = .inl t) : Returns body s b ↔ Returns body t b := by
  constructor
  · rintro ⟨n, hn⟩
    induction n with
    | zero => cases hn
    | succ n _ => exact ⟨n, (loop_of_inl h n).symm.trans hn⟩
  · rintro ⟨n, hn⟩
    exact ⟨n + 1, (loop_of_inl h n).trans hn⟩

/-- What holds when the loop is left, and of a state when it holds of the next, holds of every
result. -/
theorem Returns.rec_on_body {motive : σ → β → Prop} (h : Returns body s b)
    (leave : ∀ s b, body s = .inr b → motive s b)
    (again : ∀ s t b, body s = .inl t → motive t b → motive s b) : motive s b := by
  obtain ⟨n, hn⟩ := h
  induction n generalizing s with
  | zero => cases hn
  | succ n ih =>
    cases hb : body s with
    | inl t => exact again s t b hb (ih ((loop_of_inl hb n).symm.trans hn))
    | inr b' =>
      rw [loop_of_inr hb, Option.some_inj] at hn
      exact hn ▸ leave s b' hb

/-- A loop has one result. -/
theorem Returns.unique (h : Returns body s b) : Returns body s b' → b = b' :=
  h.rec_on_body (motive := fun s b ↦ Returns body s b' → b = b')
    (fun _ _ hb h' ↦ (returns_iff_of_inr hb).mp h')
    fun _ _ _ hb ih h' ↦ ih ((returns_iff_of_inl hb).mp h')

/-! ## The states a loop goes through -/

/-- The state after `n` rounds, `none` when the loop has been left. -/
def after (body : σ → σ ⊕ β) : ℕ → σ → Option σ
  | 0, s => some s
  | n + 1, s => (body s).elim (after body n) fun _ ↦ none

@[simp] theorem after_zero (body : σ → σ ⊕ β) (s : σ) : after body 0 s = some s := rfl

theorem after_succ_of_inl (h : body s = .inl t) (n : ℕ) :
    after body (n + 1) s = after body n t := by
  rw [after, h, Sum.elim_inl]

theorem after_succ_of_inr (h : body s = .inr b) (n : ℕ) : after body (n + 1) s = none := by
  rw [after, h, Sum.elim_inr]

/-- One more round, at the end. -/
theorem after_succ_eq_some_iff {n : ℕ} :
    after body (n + 1) s = some t ↔ ∃ u, after body n s = some u ∧ body u = .inl t := by
  induction n generalizing s with
  | zero =>
    cases hb : body s with
    | inl u => simp [after_succ_of_inl hb, hb]
    | inr b => simp [after_succ_of_inr hb, hb]
  | succ n ih =>
    cases hb : body s with
    | inl u => rw [after_succ_of_inl hb, ih, after_succ_of_inl hb]
    | inr b => simp [after_succ_of_inr hb]

/-- The rounds are enough unless the loop is still going after them. -/
theorem loop_eq_none_iff {n : ℕ} : loop body n s = none ↔ ∃ t, after body n s = some t := by
  induction n generalizing s with
  | zero => exact iff_of_true rfl ⟨s, rfl⟩
  | succ n ih =>
    cases hb : body s with
    | inl t => rw [loop_of_inl hb, after_succ_of_inl hb, ih]
    | inr b => simp [loop_of_inr hb, after_succ_of_inr hb]

/-- A loop that is still going was going before. -/
theorem exists_after_of_le {m n : ℕ} (hle : m ≤ n) (h : after body n s = some t) :
    ∃ u, after body m s = some u := by
  induction hle generalizing t with
  | refl => exact ⟨t, h⟩
  | step _ ih =>
    obtain ⟨u, hu, -⟩ := after_succ_eq_some_iff.mp h
    exact ih hu

end BenchmarkPlatform.Lib
