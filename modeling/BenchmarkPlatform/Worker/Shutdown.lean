import BenchmarkPlatform.Lib.Transition
import Mathlib.Tactic.Basic

/-!
# The shutdown of a worker

`Worker::stop` clears `running_`, wakes the timers, joins the consumer thread, and then joins the
timer threads one after the other while it holds `timer_mu_`. A timer needs that mutex for its first
lock, and again whenever it comes back from `wait_for`. Here every lock, wait, wake-up, creation,
exit and join is a step of its own; fleets and their mutex are left out, since `timer_mu_` is never
held while they are touched.

A run in which no timer needs the mutex at the moment `stop` takes it keeps clear of the deadlock.
Where one does, the run can go on to the join that never returns.
-/

namespace BenchmarkPlatform.Worker.Shutdown

open Lib

/-! ## The threads -/

/-- A timer thread, from its creation to its exit. `timedOut` is what `wait_until` returns. -/
inductive TimerPc
  | starting
  | holding (timedOut : Bool)
  | keeping (timedOut : Bool)
  | quitting
  | waiting
  | waking (timedOut : Bool)
  | stopping
  | returning
  | exited
  deriving DecidableEq, Repr

/-- Who has locked `timer_mu_`. -/
inductive Owner
  | consumer
  | timer (i : ℕ)
  | stop
  deriving DecidableEq, Repr

/-- The timer has yet to lock the mutex before it can finish. -/
def TimerPc.NeedsMutex : TimerPc → Prop
  | .starting | .waiting | .waking _ => True
  | _ => False

instance : DecidablePred TimerPc.NeedsMutex
  | .starting | .waiting | .waking _ => isTrue trivial
  | .holding _ | .keeping _ | .quitting | .stopping | .returning | .exited => isFalse not_false

def TimerPc.Holds : TimerPc → Prop
  | .holding _ | .keeping _ | .quitting => True
  | _ => False

inductive TimerEvent
  | lock
  | evaluate
  | release
  | wake (timedOut : Bool)
  | finish
  deriving DecidableEq, Repr

/-- The body of timer thread `i`: `wait_for` with the predicate `!running_`, and what follows. -/
def advanceTimer (running : Bool) (owner : Option Owner) (i : ℕ) :
    TimerEvent → TimerPc → Option (Option Owner × TimerPc)
  | .lock, .starting => if owner = none then some (some (.timer i), .holding false) else none
  | .lock, .waking timedOut =>
    if owner = none then some (some (.timer i), .holding timedOut) else none
  | .evaluate, .holding timedOut =>
    some (owner, if running then .keeping timedOut else .quitting)
  -- the predicate is false: wait again, or give up the lock and stop the fleet
  | .release, .keeping false => some (none, .waiting)
  | .release, .keeping true => some (none, .stopping)
  | .release, .quitting => some (none, .returning)
  | .wake timedOut, .waiting => some (owner, .waking timedOut)
  | .finish, .stopping => some (owner, .exited)
  | .finish, .returning => some (owner, .exited)
  | _, _ => none

/-- The consumer thread. It is `handling` an assignment until it locks `timer_mu_` for the timer. -/
inductive ConsumerPc
  | idle
  | polling
  | handling
  | arming
  | armed
  | exited
  deriving DecidableEq, Repr

def ConsumerPc.Holds : ConsumerPc → Prop
  | .arming | .armed => True
  | _ => False

inductive ConsumerEvent
  | test
  | empty
  | receive
  | skip
  | lock
  | create
  | fail
  | unlock
  deriving DecidableEq, Repr

/-- The third component says whether a timer thread is created. -/
def advanceConsumer (running : Bool) (owner : Option Owner) :
    ConsumerEvent → ConsumerPc → Option (Option Owner × ConsumerPc × Bool)
  | .test, .idle => some (owner, if running then .polling else .exited, false)
  | .empty, .polling => some (owner, .idle, false)
  | .receive, .polling => some (owner, .handling, false)
  -- a stop command, no duration, or an exception
  | .skip, .handling => some (owner, .idle, false)
  | .lock, .handling => if owner = none then some (some .consumer, .arming, false) else none
  | .create, .arming => some (owner, .armed, true)
  -- no thread could be created, and the guard unlocks
  | .fail, .arming => some (none, .idle, false)
  | .unlock, .armed => some (none, .idle, false)
  | _, _ => none

/-- The thread in `Worker::stop`. -/
inductive StopPc
  | outside
  | setting
  | notifying
  | joiningConsumer
  | locking
  | joining (i : ℕ)
  | returned
  deriving DecidableEq, Repr

/-- `timers` are the threads of `timer_threads_`, in their order. -/
structure State where
  running : Bool
  owner : Option Owner
  consumer : ConsumerPc
  timers : List TimerPc
  stop : StopPc
  deriving DecidableEq, Repr

/-- After `Worker::run`. -/
def State.initial : State := ⟨true, none, .idle, [], .outside⟩

/-- `notify_all` -/
def TimerPc.notified : TimerPc → TimerPc
  | .waiting => .waking false
  | t => t

inductive Event
  | consumer (e : ConsumerEvent)
  | timer (i : ℕ) (e : TimerEvent)
  | stop
  deriving DecidableEq, Repr

def stepStop (s : State) : Option State :=
  match s.stop with
  | .outside => some { s with stop := if s.running then .setting else .returned }
  | .setting => some { s with running := false, stop := .notifying }
  | .notifying =>
    some { s with timers := s.timers.map TimerPc.notified, stop := .joiningConsumer }
  | .joiningConsumer => if s.consumer = .exited then some { s with stop := .locking } else none
  | .locking =>
    if s.owner = none then some { s with owner := some .stop, stop := .joining 0 } else none
  | .joining i =>
    match s.timers[i]? with
    | none => some { s with owner := none, stop := .returned }
    | some t => if t = .exited then some { s with stop := .joining (i + 1) } else none
  | .returned => none

def step (s : State) : Event → Option State
  | .consumer e => (advanceConsumer s.running s.owner e s.consumer).map fun r ↦
    { s with owner := r.1, consumer := r.2.1,
             timers := if r.2.2 then s.timers ++ [.starting] else s.timers }
  | .timer i e => s.timers[i]?.bind fun t ↦ (advanceTimer s.running s.owner i e t).map fun r ↦
    { s with owner := r.1, timers := s.timers.set i r.2 }
  | .stop => stepStop s

/-- `stop` holds the mutex and joins a timer that needs it. -/
def State.Deadlocked (s : State) : Prop :=
  s.owner = some .stop ∧ ∃ i t, s.stop = .joining i ∧ s.timers[i]? = some t ∧ t.NeedsMutex

/-- `stop` takes the mutex when no timer needs it any more. -/
def NoTimerNeedsMutex (s : State) : Event → Prop
  | .stop => s.stop = .locking → ∀ t ∈ s.timers, ¬t.NeedsMutex
  | _ => True

/-! ## What each step does -/

variable {s s' : State}

/-- A timer takes the mutex that it needs, gives it back, or leaves it as it is. -/
theorem advanceTimer_cases {running : Bool} {owner owner' : Option Owner} {i : ℕ} {e : TimerEvent}
    {t t' : TimerPc} (h : advanceTimer running owner i e t = some (owner', t')) :
    (owner = none ∧ owner' = some (.timer i) ∧ t.NeedsMutex ∧ t'.Holds) ∨
    (owner' = none ∧ t.Holds ∧ ¬t'.Holds) ∨
    (owner' = owner ∧ (t'.Holds ↔ t.Holds) ∧ (t'.NeedsMutex ↔ t.NeedsMutex)) := by
  cases e with
  | lock =>
    cases t <;> simp only [advanceTimer, Option.ite_none_right_eq_some, reduceCtorEq] at h
    all_goals
      obtain ⟨hfree, h⟩ := h
      cases h
      exact .inl ⟨hfree, rfl, trivial, trivial⟩
  | evaluate =>
    cases t <;> simp only [advanceTimer, reduceCtorEq] at h
    cases h
    cases running <;> exact .inr (.inr ⟨rfl, Iff.rfl, Iff.rfl⟩)
  | release =>
    cases t with
    | keeping timedOut =>
      cases timedOut <;> cases h <;> exact .inr (.inl ⟨rfl, trivial, not_false⟩)
    | quitting =>
      cases h
      exact .inr (.inl ⟨rfl, trivial, not_false⟩)
    | _ => simp [advanceTimer] at h
  | wake timedOut =>
    cases t <;> simp only [advanceTimer, reduceCtorEq] at h
    cases h
    exact .inr (.inr ⟨rfl, Iff.rfl, Iff.rfl⟩)
  | finish =>
    cases t <;> simp only [advanceTimer, reduceCtorEq] at h
    all_goals
      cases h
      exact .inr (.inr ⟨rfl, Iff.rfl, Iff.rfl⟩)

theorem step_timer {i : ℕ} {e : TimerEvent} (h : step s (.timer i e) = some s') :
    ∃ t owner' t', s.timers[i]? = some t ∧
      advanceTimer s.running s.owner i e t = some (owner', t') ∧
      s' = { s with owner := owner', timers := s.timers.set i t' } := by
  obtain ⟨t, ht, h⟩ := Option.bind_eq_some_iff.mp h
  obtain ⟨⟨owner', t'⟩, hadvance, rfl⟩ := Option.map_eq_some_iff.mp h
  exact ⟨t, owner', t', ht, hadvance, rfl⟩

/-- The consumer takes the mutex, gives it back, or leaves it as it is; it creates a timer only
while it holds the mutex. -/
theorem advanceConsumer_cases {running : Bool} {owner owner' : Option Owner} {e : ConsumerEvent}
    {c c' : ConsumerPc} {creates : Bool}
    (h : advanceConsumer running owner e c = some (owner', c', creates)) :
    c ≠ .exited ∧ (creates = true → c.Holds) ∧
      ((owner = none ∧ owner' = some .consumer) ∨ (owner' = none ∧ c.Holds ∧ ¬c'.Holds) ∨
        (owner' = owner ∧ (c'.Holds ↔ c.Holds))) := by
  cases e with
  | test =>
    cases c <;> simp only [advanceConsumer, reduceCtorEq] at h
    cases h
    cases running <;> exact ⟨by simp, by simp, .inr (.inr ⟨rfl, Iff.rfl⟩)⟩
  | empty | receive | skip =>
    cases c <;> simp only [advanceConsumer, reduceCtorEq] at h
    cases h
    exact ⟨by simp, by simp, .inr (.inr ⟨rfl, Iff.rfl⟩)⟩
  | lock =>
    cases c <;> simp only [advanceConsumer, Option.ite_none_right_eq_some, reduceCtorEq] at h
    obtain ⟨hfree, h⟩ := h
    cases h
    exact ⟨by simp, by simp, .inl ⟨hfree, rfl⟩⟩
  | create =>
    cases c <;> simp only [advanceConsumer, reduceCtorEq] at h
    cases h
    exact ⟨by simp, fun _ ↦ trivial, .inr (.inr ⟨rfl, Iff.rfl⟩)⟩
  | fail | unlock =>
    cases c <;> simp only [advanceConsumer, reduceCtorEq] at h
    cases h
    exact ⟨by simp, by simp, .inr (.inl ⟨rfl, trivial, not_false⟩)⟩

theorem step_consumer {e : ConsumerEvent} (h : step s (.consumer e) = some s') :
    ∃ owner' c' creates,
      advanceConsumer s.running s.owner e s.consumer = some (owner', c', creates) ∧
      s' = { s with owner := owner', consumer := c',
                    timers := if creates then s.timers ++ [.starting] else s.timers } := by
  obtain ⟨⟨owner', c', creates⟩, hadvance, rfl⟩ := Option.map_eq_some_iff.mp h
  exact ⟨owner', c', creates, hadvance, rfl⟩

@[simp] theorem TimerPc.holds_notified (t : TimerPc) : t.notified.Holds ↔ t.Holds := by
  cases t <;> exact Iff.rfl

/-- `stop` is on its way to the mutex, takes it, or joins with it. -/
theorem step_stop_cases (h : step s .stop = some s') :
    ((∀ i, s'.stop ≠ .joining i) ∧ (s'.stop = .locking → s.consumer = .exited) ∧
      s.stop ≠ .locking ∧ (∀ i, s.stop ≠ .joining i) ∧ s'.owner = s.owner ∧
      s'.consumer = s.consumer ∧
      (s'.timers = s.timers ∨ s'.timers = s.timers.map TimerPc.notified)) ∨
    (s.stop = .locking ∧ s.owner = none ∧
      s' = { s with owner := some .stop, stop := .joining 0 }) ∨
    (∃ i, s.stop = .joining i ∧ s.timers[i]? = none ∧
      s' = { s with owner := none, stop := .returned }) ∨
    ∃ i, s.stop = .joining i ∧ s.timers[i]? = some .exited ∧
      s' = { s with stop := .joining (i + 1) } := by
  rw [step, stepStop] at h
  split at h
  · rename_i hpc
    cases h
    cases hrun : s.running <;> simp [hpc]
  · rename_i hpc
    cases h
    simp [hpc]
  · rename_i hpc
    cases h
    simp [hpc]
  · rename_i hpc
    split_ifs at h with hexited
    cases h
    simp [hpc, hexited]
  · rename_i hpc
    split_ifs at h with hfree
    cases h
    exact .inr (.inl ⟨hpc, hfree, rfl⟩)
  · rename_i i hpc
    split at h
    · rename_i hlast
      cases h
      exact .inr (.inr (.inl ⟨i, hpc, hlast, rfl⟩))
    · rename_i t ht
      split_ifs at h with hexited
      cases h
      exact .inr (.inr (.inr ⟨i, hpc, hexited ▸ ht, rfl⟩))
  · cases h

/-! ## The mutex -/

/-- Whoever holds the mutex owns it, and once `stop` has joined the consumer there are no more
assignments. -/
structure State.Inv (s : State) : Prop where
  consumer : s.consumer.Holds → s.owner = some .consumer
  timers : ∀ i t, s.timers[i]? = some t → t.Holds → s.owner = some (.timer i)
  locking : s.stop = .locking → s.consumer = .exited
  joining : ∀ i, s.stop = .joining i → s.consumer = .exited ∧ s.owner = some .stop

theorem State.inv_initial : State.initial.Inv where
  consumer h := h.elim
  timers i t h := by simp [initial] at h
  locking h := by cases h
  joining i h := by cases h

theorem State.Inv.next_consumer (h : s.Inv) {e : ConsumerEvent}
    (hstep : step s (.consumer e) = some s') : s'.Inv := by
  obtain ⟨owner', c', creates, hadvance, rfl⟩ := step_consumer hstep
  obtain ⟨hexited, -, hcases⟩ := advanceConsumer_cases hadvance
  refine ⟨fun hholds ↦ ?_, fun i t ht hholds ↦ ?_, fun hlocking ↦ ?_, fun i hjoining ↦ ?_⟩
  · obtain ⟨-, hown⟩ | ⟨-, -, hnot⟩ | ⟨hown, hiff⟩ := hcases
    · exact hown
    · exact absurd hholds hnot
    · exact hown.trans (h.consumer (hiff.mp hholds))
  · -- a timer that is created holds nothing yet
    have hold : s.timers[i]? = some t := by
      dsimp only at ht
      split_ifs at ht
      · rw [List.getElem?_append] at ht
        split_ifs at ht with hi
        · exact ht
        · rw [List.getElem?_singleton] at ht
          split_ifs at ht
          cases ht
          exact hholds.elim
      · exact ht
    have howner := h.timers i t hold hholds
    obtain ⟨hfree, -⟩ | ⟨-, hc, -⟩ | ⟨hown, -⟩ := hcases
    · rw [hfree] at howner
      cases howner
    · rw [h.consumer hc] at howner
      cases howner
    · exact hown.trans howner
  · exact absurd (h.locking hlocking) hexited
  · exact absurd (h.joining i hjoining).1 hexited

theorem State.Inv.next_timer (h : s.Inv) {i : ℕ} {e : TimerEvent}
    (hstep : step s (.timer i e) = some s') : s'.Inv := by
  obtain ⟨t, owner', t', ht, hadvance, rfl⟩ := step_timer hstep
  -- an owner that is not this timer stays the owner
  have hother : ∀ o, s.owner = some o → o ≠ .timer i → owner' = some o := by
    intro o ho hne
    obtain ⟨hfree, -⟩ | ⟨-, hholds, -⟩ | ⟨hown, -⟩ := advanceTimer_cases hadvance
    · rw [hfree] at ho
      cases ho
    · rw [h.timers i t ht hholds, Option.some_inj] at ho
      exact absurd ho.symm hne
    · exact hown.trans ho
  refine ⟨fun hholds ↦ hother _ (h.consumer hholds) (by simp), fun j u hu hholds ↦ ?_, h.locking,
    fun j hjoining ↦ ⟨(h.joining j hjoining).1, hother _ (h.joining j hjoining).2 (by simp)⟩⟩
  dsimp only at hu
  rcases eq_or_ne i j with rfl | hne
  · rw [Pool.getElem?_set ht, Option.some_inj] at hu
    subst hu
    obtain ⟨-, hown, -⟩ | ⟨-, -, hnot⟩ | ⟨hown, hiff, -⟩ := advanceTimer_cases hadvance
    · exact hown
    · exact absurd hholds hnot
    · exact hown.trans (h.timers i t ht (hiff.mp hholds))
  · rw [List.getElem?_set_ne hne] at hu
    exact hother _ (h.timers j u hu hholds) (by simpa using hne.symm)

theorem State.Inv.next_stop (h : s.Inv) (hstep : step s .stop = some s') : s'.Inv := by
  rcases step_stop_cases hstep with ⟨hjoining, hlocking, -, -, howner, hconsumer, htimers⟩ |
    ⟨hpc, hfree, rfl⟩ | ⟨i, hpc, -, rfl⟩ | ⟨i, hpc, -, rfl⟩
  · refine ⟨fun hholds ↦ ?_, fun i t ht hholds ↦ ?_, fun hpc ↦ hconsumer.trans (hlocking hpc),
      fun i hpc ↦ absurd hpc (hjoining i)⟩
    · rw [hconsumer] at hholds
      exact howner.trans (h.consumer hholds)
    · rcases htimers with heq | heq
      · rw [heq] at ht
        exact howner.trans (h.timers i t ht hholds)
      · rw [heq, List.getElem?_map] at ht
        obtain ⟨u, hu, rfl⟩ := Option.map_eq_some_iff.mp ht
        exact howner.trans (h.timers i u hu (u.holds_notified.mp hholds))
  · have hexited := h.locking hpc
    refine ⟨fun hholds ↦ ?_, fun i t ht hholds ↦ ?_, fun hlocking ↦ ?_, fun i _ ↦ ⟨hexited, rfl⟩⟩
    · rw [hexited] at hholds
      exact hholds.elim
    · have howner := h.timers i t ht hholds
      rw [hfree] at howner
      cases howner
    · cases hlocking
  · obtain ⟨hexited, howner⟩ := h.joining i hpc
    refine ⟨fun hholds ↦ ?_, fun j t ht hholds ↦ ?_, fun hlocking ↦ ?_, fun j hjoining ↦ ?_⟩
    · rw [hexited] at hholds
      exact hholds.elim
    · have howner' := h.timers j t ht hholds
      rw [howner] at howner'
      cases howner'
    · cases hlocking
    · cases hjoining
  · exact ⟨h.consumer, h.timers, by simp, fun _ _ ↦ h.joining i hpc⟩

theorem State.Inv.next (h : s.Inv) {e : Event} (hstep : step s e = some s') : s'.Inv := by
  cases e with
  | consumer e => exact h.next_consumer hstep
  | timer i e => exact h.next_timer hstep
  | stop => exact h.next_stop hstep

/-! ## Runs without the deadlock -/

/-- Once `stop` has the mutex, every timer has let go of it for good. -/
def State.Released (s : State) : Prop :=
  ∀ i, s.stop = .joining i → ∀ t ∈ s.timers, ¬t.NeedsMutex

theorem State.Released.not_deadlocked (h : s.Released) : ¬s.Deadlocked := by
  rintro ⟨-, i, t, hpc, ht, hneeds⟩
  exact h i hpc t (List.mem_of_getElem? ht) hneeds

theorem State.Released.next (hinv : s.Inv) (h : s.Released) {e : Event}
    (hguard : NoTimerNeedsMutex s e) (hstep : step s e = some s') : s'.Released := by
  cases e with
  | consumer e =>
    obtain ⟨owner', c', creates, hadvance, rfl⟩ := step_consumer hstep
    intro i hpc
    exact absurd (hinv.joining i hpc).1 (advanceConsumer_cases hadvance).1
  | timer j e =>
    obtain ⟨t, owner', t', ht, hadvance, rfl⟩ := step_timer hstep
    intro i hpc u hu
    have howner := (hinv.joining i hpc).2
    have hreleased := h i hpc
    rcases List.mem_or_eq_of_mem_set hu with hu | rfl
    · exact hreleased u hu
    · obtain ⟨hfree, -⟩ | ⟨-, hholds, -⟩ | ⟨-, -, hiff⟩ := advanceTimer_cases hadvance
      · rw [hfree] at howner
        cases howner
      · rw [hinv.timers j t ht hholds] at howner
        cases howner
      · exact fun hneeds ↦ hreleased t (List.mem_of_getElem? ht) (hiff.mp hneeds)
  | stop =>
    rcases step_stop_cases hstep with ⟨hjoining, -⟩ | ⟨hpc, -, rfl⟩ | ⟨i, -, -, rfl⟩ |
      ⟨i, hpc, -, rfl⟩
    · exact fun i hpc ↦ absurd hpc (hjoining i)
    · exact fun _ _ ↦ hguard hpc
    · exact fun _ hjoining ↦ by cases hjoining
    · exact fun _ _ ↦ h i hpc

/-! ## The deadlock -/

theorem TimerPc.cases_of_not {t : TimerPc} (hneeds : ¬t.NeedsMutex) (hholds : ¬t.Holds) :
    t = .exited ∨
      ∀ running owner i, advanceTimer running owner i .finish t = some (owner, .exited) := by
  cases t with
  | starting | waiting | waking _ => exact absurd trivial hneeds
  | holding _ | keeping _ | quitting => exact absurd trivial hholds
  | stopping | returning => exact .inr fun _ _ _ ↦ rfl
  | exited => exact .inl rfl

/-- A timer that does not need the mutex can be joined. -/
theorem State.Inv.join {i : ℕ} {t : TimerPc} (h : s.Inv) (hpc : s.stop = .joining i)
    (ht : s.timers[i]? = some t) (hneeds : ¬t.NeedsMutex) :
    ∃ events, exec step s events =
      some { s with timers := s.timers.set i .exited, stop := .joining (i + 1) } := by
  have hjoin : ∀ u : State, u.stop = .joining i → u.timers[i]? = some .exited →
      step u .stop = some { u with stop := .joining (i + 1) } := by
    intro u hu hexited
    simp [step, stepStop, hu, hexited]
  have hholds : ¬t.Holds := by
    intro hholds
    have howner := h.timers i t ht hholds
    rw [(h.joining i hpc).2] at howner
    cases howner
  obtain rfl | hfinish := TimerPc.cases_of_not hneeds hholds
  · have hset : s.timers.set i .exited = s.timers := by
      obtain ⟨hi, hget⟩ := List.getElem?_eq_some_iff.mp ht
      rw [← hget, List.set_getElem_self]
    refine ⟨[.stop], ?_⟩
    rw [exec_cons, hjoin s hpc ht, Option.bind_some, exec_nil, hset]
  · have hstep : step s (.timer i .finish) =
        some { s with timers := s.timers.set i .exited } := by
      simp [step, ht, hfinish]
    refine ⟨[.timer i .finish, .stop], ?_⟩
    have hexited := hjoin { s with timers := s.timers.set i .exited } hpc (Pool.getElem?_set ht)
    rw [exec_cons, hstep, Option.bind_some, exec_cons, hexited, Option.bind_some, exec_nil]

/-- As long as some timer that is still to be joined needs the mutex, the joins lead to it. -/
theorem State.Inv.exists_deadlocked (h : s.Inv) {i n : ℕ} {t : TimerPc}
    (hpc : s.stop = .joining i) (ht : s.timers[i + n]? = some t) (hneeds : t.NeedsMutex) :
    ∃ events s', exec step s events = some s' ∧ s'.Deadlocked := by
  induction n generalizing s i with
  | zero => exact ⟨[], s, rfl, (h.joining i hpc).2, i, t, hpc, ht, hneeds⟩
  | succ n ih =>
    obtain ⟨u, hu⟩ : ∃ u, s.timers[i]? = some u := by
      have hlt := (List.getElem?_eq_some_iff.mp ht).1
      exact ⟨_, List.getElem?_eq_getElem (by omega)⟩
    by_cases hu' : u.NeedsMutex
    · exact ⟨[], s, rfl, (h.joining i hpc).2, i, u, hpc, hu, hu'⟩
    · obtain ⟨events, hexec⟩ := h.join hpc hu hu'
      have hinv := exec_invariant (fun _ _ _ hs hstep ↦ State.Inv.next hs hstep) h hexec
      have ht' : (s.timers.set i .exited)[i + 1 + n]? = some t := by
        rw [List.getElem?_set_ne (by omega), ← ht]
        congr 1
        omega
      obtain ⟨events', s', hexec', hdead⟩ := ih hinv rfl ht'
      refine ⟨events ++ events', s', ?_, hdead⟩
      rw [exec_append, hexec, Option.bind_some, hexec']

/-- The deadlock is final: no thread can take a step that ends it. -/
theorem State.Deadlocked.next (hinv : s.Inv) (h : s.Deadlocked) {e : Event}
    (hstep : step s e = some s') : s'.Deadlocked := by
  obtain ⟨howner, i, t, hpc, ht, hneeds⟩ := h
  cases e with
  | consumer e =>
    obtain ⟨owner', c', creates, hadvance, rfl⟩ := step_consumer hstep
    exact absurd (hinv.joining i hpc).1 (advanceConsumer_cases hadvance).1
  | timer j e =>
    obtain ⟨u, owner', u', hu, hadvance, rfl⟩ := step_timer hstep
    obtain ⟨hfree, -⟩ | ⟨-, hholds, -⟩ | ⟨hown, -, hiff⟩ := advanceTimer_cases hadvance
    · rw [hfree] at howner
      cases howner
    · rw [hinv.timers j u hu hholds] at howner
      cases howner
    · rcases eq_or_ne j i with rfl | hne
      · rw [hu, Option.some_inj] at ht
        subst ht
        exact ⟨hown.trans howner, j, u', hpc, Pool.getElem?_set hu, hiff.mpr hneeds⟩
      · refine ⟨hown.trans howner, i, t, hpc, ?_, hneeds⟩
        exact (List.getElem?_set_ne hne).trans ht
  | stop =>
    rcases step_stop_cases hstep with ⟨-, -, -, hnot, -⟩ | ⟨hlocking, -⟩ | ⟨j, hjoining, hnone, -⟩ |
      ⟨j, hjoining, hexited, -⟩
    · exact absurd hpc (hnot i)
    · rw [hpc] at hlocking
      cases hlocking
    · rw [hpc, StopPc.joining.injEq] at hjoining
      rw [← hjoining, ht] at hnone
      cases hnone
    · rw [hpc, StopPc.joining.injEq] at hjoining
      rw [← hjoining, ht, Option.some_inj] at hexited
      rw [hexited] at hneeds
      exact hneeds.elim

/-- A worker in the deadlock never comes back from `stop`. -/
theorem deadlock_final {events later : List Event} (hexec : exec step .initial events = some s)
    (hdead : s.Deadlocked) (hlater : exec step s later = some s') : s'.stop ≠ .returned := by
  have hinv := exec_invariant (fun _ _ _ h hstep ↦ State.Inv.next h hstep) State.inv_initial hexec
  obtain ⟨-, -, i, -, hpc, -⟩ := exec_invariant (P := fun u ↦ u.Inv ∧ u.Deadlocked)
    (fun _ _ _ h hstep ↦ ⟨h.1.next hstep, h.2.next h.1 hstep⟩) ⟨hinv, hdead⟩ hlater
  rw [hpc]
  simp

/-- `stop` has taken the mutex, which it does once. -/
def State.PastLocking (s : State) : Prop := s.stop = .returned ∨ ∃ i, s.stop = .joining i

theorem State.PastLocking.next (h : s.PastLocking) {e : Event} (hstep : step s e = some s') :
    s'.PastLocking ∧ NoTimerNeedsMutex s e := by
  cases e with
  | consumer e =>
    obtain ⟨-, -, -, -, rfl⟩ := step_consumer hstep
    exact ⟨h, trivial⟩
  | timer i e =>
    obtain ⟨-, -, -, -, -, rfl⟩ := step_timer hstep
    exact ⟨h, trivial⟩
  | stop =>
    rcases h with hreturned | ⟨i, hjoining⟩
    · rw [step, stepStop, hreturned] at hstep
      cases hstep
    · have hlocking : s.stop ≠ .locking := by
        rw [hjoining]
        exact StopPc.noConfusion
      refine ⟨?_, fun hpc ↦ absurd hpc hlocking⟩
      rcases step_stop_cases hstep with ⟨-, -, -, hnot, -⟩ | ⟨hpc, -⟩ | ⟨j, -, -, rfl⟩ |
        ⟨j, -, -, rfl⟩
      · exact absurd hjoining (hnot i)
      · exact absurd hpc hlocking
      · exact .inl rfl
      · exact .inr ⟨j + 1, rfl⟩

/-- Where `stop` has taken the mutex from timers that do not need it, it is never deadlocked. -/
theorem State.Released.not_deadlocked_of_exec (hinv : s.Inv) (h : s.Released)
    (hpast : s.PastLocking) {later : List Event} (hexec : exec step s later = some s') :
    ¬s'.Deadlocked := by
  have hall := exec_invariant (P := fun u : State ↦ u.Inv ∧ u.Released ∧ u.PastLocking)
    (fun u e u' hu hstep ↦ by
      obtain ⟨hinv, hreleased, hpast⟩ := hu
      obtain ⟨hpast', hguard⟩ := hpast.next hstep
      exact ⟨hinv.next hstep, hreleased.next hinv hguard hstep, hpast'⟩) ⟨hinv, h, hpast⟩ hexec
  exact hall.2.1.not_deadlocked

/-- **When the shutdown deadlocks.** If no timer needs the mutex at the moment `stop` takes it, no
state of the run is deadlocked. Whenever `stop` takes it, no timer needs it at that moment if and
only if the run cannot go on to the deadlock. -/
theorem shutdown_deadlocks_iff (events : List Event) :
    (∀ s, exec step .initial events = some s →
      Guarded step NoTimerNeedsMutex .initial events → ¬s.Deadlocked) ∧
    ∀ s s', exec step .initial events = some s → s.stop = .locking → step s .stop = some s' →
      (NoTimerNeedsMutex s .stop ↔
        ∀ later s'', exec step s' later = some s'' → ¬s''.Deadlocked) := by
  constructor
  · intro s hexec hguard
    have hboth := hguard.invariant (P := fun u ↦ u.Inv ∧ u.Released)
      (fun _ _ _ h hg hstep ↦ ⟨h.1.next hstep, h.2.next h.1 hg hstep⟩)
      ⟨State.inv_initial, fun i h ↦ by cases h⟩ hexec
    exact hboth.2.not_deadlocked
  · intro s s' hexec hpc hstep
    have hinv := exec_invariant (fun _ _ _ h hstep ↦ State.Inv.next h hstep) State.inv_initial hexec
    have hinv' := hinv.next hstep
    obtain rfl : s' = { s with owner := some .stop, stop := .joining 0 } := by
      rcases step_stop_cases hstep with ⟨-, -, hnot, -⟩ | ⟨-, -, heq⟩ | ⟨j, hjoining, -⟩ |
        ⟨j, hjoining, -⟩
      · exact absurd hpc hnot
      · exact heq
      · rw [hpc] at hjoining
        cases hjoining
      · rw [hpc] at hjoining
        cases hjoining
    constructor
    · intro hguard later s'' hlater
      have hreleased : State.Released { s with owner := some .stop, stop := .joining 0 } :=
        fun _ _ ↦ hguard hpc
      exact hreleased.not_deadlocked_of_exec hinv' (.inr ⟨0, rfl⟩) hlater
    · intro hsafe _ t ht hneeds
      obtain ⟨i, hi⟩ := List.getElem?_of_mem ht
      have hi' : s.timers[0 + i]? = some t := (Nat.zero_add i).symm ▸ hi
      obtain ⟨later, s'', hlater, hdead⟩ := hinv'.exists_deadlocked rfl hi' hneeds
      exact hsafe later s'' hlater hdead

/-- The timer of an assignment waits, and the shutdown takes the mutex before it comes back. -/
def lockedOut : List Event :=
  [.consumer .test, .consumer .receive, .consumer .lock, .consumer .create, .consumer .unlock,
    .timer 0 .lock, .timer 0 .evaluate, .timer 0 .release, .stop, .stop, .stop, .consumer .test,
    .stop, .stop]

theorem lockedOut_deadlocks :
    ¬∀ events s, exec step .initial events = some s → ¬s.Deadlocked := by
  intro h
  have hexec : exec step .initial lockedOut =
      some ⟨false, some .stop, .exited, [.waking false], .joining 0⟩ := by decide
  exact h _ _ hexec ⟨rfl, 0, .waking false, rfl, rfl, trivial⟩

end BenchmarkPlatform.Worker.Shutdown
