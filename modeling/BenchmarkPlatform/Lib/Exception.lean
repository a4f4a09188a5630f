import Mathlib.Init

/-!
# Programs that change a state and may throw

What a program has changed before it throws stays changed, and whoever catches the exception finds
it so. `outcome` is the result of a program together with the state it leaves; there is one rule for
each way of building programs.

A program `Meets` a precondition and two postconditions, one for what it returns and one for what it
throws, when they hold of its outcome. These have a rule for each way of building programs, too.
-/

namespace BenchmarkPlatform.Lib

universe u

variable {σ ε α β : Type u} {s : σ}

/-- The value or the exception of a program, and the state it leaves. -/
def outcome (m : ExceptT ε (StateM σ) α) (s : σ) : Except ε α × σ := m.run.run s

@[simp] theorem outcome_pure (a : α) (s : σ) :
    outcome (pure a : ExceptT ε (StateM σ) α) s = (.ok a, s) := rfl

@[simp] theorem outcome_throw (e : ε) (s : σ) :
    outcome (throw e : ExceptT ε (StateM σ) α) s = (.error e, s) := rfl

@[simp] theorem outcome_modify (f : σ → σ) (s : σ) :
    outcome (modify f : ExceptT ε (StateM σ) PUnit) s = (.ok ⟨⟩, f s) := rfl

@[simp] theorem outcome_get (s : σ) :
    outcome (get : ExceptT ε (StateM σ) σ) s = (.ok s, s) := rfl

/-- A program goes on with the value of its first part, if that has one. -/
theorem outcome_bind (m : ExceptT ε (StateM σ) α) (f : α → ExceptT ε (StateM σ) β) (s : σ) :
    outcome (m >>= f) s = match outcome m s with
      | (.ok a, t) => outcome (f a) t
      | (.error e, t) => (.error e, t) := by
  have hbind : outcome (m >>= f) s =
      (fun r : Except ε α × σ ↦ outcome (ExceptT.mk (ExceptT.bindCont f r.1)) r.2) (outcome m s) :=
    rfl
  rw [hbind]
  rcases outcome m s with ⟨a | e, t⟩ <;> rfl

theorem outcome_bind_of_ok {m : ExceptT ε (StateM σ) α} {a : α} {t : σ}
    (h : outcome m s = (.ok a, t)) (f : α → ExceptT ε (StateM σ) β) :
    outcome (m >>= f) s = outcome (f a) t := by
  rw [outcome_bind, h]

theorem outcome_bind_of_error {m : ExceptT ε (StateM σ) α} {e : ε} {t : σ}
    (h : outcome m s = (.error e, t)) (f : α → ExceptT ε (StateM σ) β) :
    outcome (m >>= f) s = (.error e, t) := by
  rw [outcome_bind, h]

/-- An exception is handled in the state in which it is thrown. -/
theorem outcome_tryCatch (m : ExceptT ε (StateM σ) α) (handler : ε → ExceptT ε (StateM σ) α)
    (s : σ) : outcome (tryCatch m handler) s = match outcome m s with
      | (.ok a, t) => (.ok a, t)
      | (.error e, t) => outcome (handler e) t := by
  have hcatch : outcome (tryCatch m handler) s = (fun r : Except ε α × σ ↦ outcome
      (match r.1 with
        | .ok a => pure a
        | .error e => handler e) r.2) (outcome m s) := by
    change (ExceptT.tryCatch m handler).run.run s = _
    rw [ExceptT.tryCatch]
    change (fun r : Except ε α × σ ↦ StateT.run
      (match r.1 with
        | .ok a => pure (Except.ok a)
        | .error e => handler e) r.2) (outcome m s) = _
    rcases outcome m s with ⟨a | e, t⟩ <;> rfl
  rw [hcatch]
  rcases outcome m s with ⟨a | e, t⟩ <;> rfl

theorem outcome_observing (m : ExceptT ε (StateM σ) α) (s : σ) :
    outcome (observing m) s = (.ok (outcome m s).1, (outcome m s).2) := by
  rw [observing, outcome_tryCatch, outcome_bind]
  rcases outcome m s with ⟨a | e, t⟩ <;> rfl

/-! ## Pre- and postconditions -/

/-- From a state with `p` the program returns with `q`, or it throws with `r`. -/
def Meets (p : σ → Prop) (m : ExceptT ε (StateM σ) α) (q : α → σ → Prop) (r : ε → σ → Prop) :
    Prop :=
  ∀ s, p s → match outcome m s with
    | (.ok a, t) => q a t
    | (.error e, t) => r e t

namespace Meets

variable {p : σ → Prop} {q : α → σ → Prop} {r r' : ε → σ → Prop} {q' : β → σ → Prop}
variable {m : ExceptT ε (StateM σ) α}

theorem pure {a : α} (h : ∀ s, p s → q a s) : Meets p (pure a) q r := h

theorem throw {e : ε} (h : ∀ s, p s → r e s) : Meets p (throw e) q r := h

theorem modify {f : σ → σ} {q : PUnit → σ → Prop} (h : ∀ s, p s → q ⟨⟩ (f s)) :
    Meets p (modify f) q r := h

/-- What is read is the state. -/
theorem get : Meets p get (fun a s ↦ p s ∧ a = s) r := fun _ h ↦ ⟨h, rfl⟩

/-- The state may be fixed. -/
theorem of_state (h : ∀ s, p s → Meets (· = s) m q r) : Meets p m q r :=
  fun s hs ↦ h s hs s rfl

/-- Weaker postconditions will do. -/
theorem imp {q₁ : α → σ → Prop} (hm : Meets p m q r) (hq : ∀ a s, q a s → q₁ a s)
    (hr : ∀ e s, r e s → r' e s) : Meets p m q₁ r' := by
  intro s hs
  have hmeets := hm s hs
  rcases houtcome : outcome m s with ⟨e | a, t⟩
  · rw [houtcome] at hmeets
    exact hr e t hmeets
  · rw [houtcome] at hmeets
    exact hq a t hmeets

theorem imp_throws (hm : Meets p m q r) (h : ∀ e s, r e s → r' e s) : Meets p m q r' :=
  hm.imp (fun _ _ ha ↦ ha) h

/-- What holds however the program ends holds of the state it leaves. -/
theorem state {q : σ → Prop} (hm : Meets p m (fun _ ↦ q) fun _ ↦ q) (hs : p s) :
    q (outcome m s).2 := by
  have hmeets := hm s hs
  rcases houtcome : outcome m s with ⟨e | a, t⟩
  · rw [houtcome] at hmeets
    exact hmeets
  · rw [houtcome] at hmeets
    exact hmeets

/-- The first part throws as the whole does, and the rest starts from what it returns. -/
theorem bind {f : α → ExceptT ε (StateM σ) β} (hm : Meets p m q r)
    (hf : ∀ a, Meets (q a) (f a) q' r) : Meets p (m >>= f) q' r := by
  intro s hs
  rw [outcome_bind]
  have hfirst := hm s hs
  rcases houtcome : outcome m s with ⟨e | a, t⟩
  · rw [houtcome] at hfirst
    exact hfirst
  · rw [houtcome] at hfirst
    exact hf a t hfirst

/-- The handler starts from what the program throws. -/
theorem tryCatch {handler : ε → ExceptT ε (StateM σ) α} (hm : Meets p m q r)
    (hhandler : ∀ e, Meets (r e) (handler e) q r') : Meets p (tryCatch m handler) q r' := by
  intro s hs
  rw [outcome_tryCatch]
  have hfirst := hm s hs
  rcases houtcome : outcome m s with ⟨e | a, t⟩
  · rw [houtcome] at hfirst
    exact hhandler e t hfirst
  · rw [houtcome] at hfirst
    exact hfirst

/-- What is thrown is returned, too. -/
theorem observing (hm : Meets p m q r) : Meets p (observing m)
    (fun a s ↦ match a with
      | .ok a => q a s
      | .error e => r e s) r' := by
  intro s hs
  rw [outcome_observing]
  have hfirst := hm s hs
  rcases houtcome : outcome m s with ⟨e | a, t⟩
  · rw [houtcome] at hfirst
    exact hfirst
  · rw [houtcome] at hfirst
    exact hfirst

end Meets

end BenchmarkPlatform.Lib
