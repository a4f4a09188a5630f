import Mathlib.Algebra.BigOperators.Group.Multiset.Basic
import Mathlib.Tactic.Abel
import BenchmarkPlatform.Lib.Transition

/-!
# The telemetry reporter

`Reporter` of the bot worker: any number of threads call `record`, which appends to a buffer and
flushes it when it is full, one thread flushes it every 100 ms, and `stop` joins that thread and
flushes once more. A flush swaps the buffer out under the lock and then serialises and produces the
events one by one.

Each entry carries whether serialising or producing it throws. One `try` block surrounds the loop of
a flush, so an entry that throws takes the entries behind it with it. The number of an entry is its
place among all that were recorded; the lists of the entries recorded and lost are kept for the
statements only.
-/

namespace BenchmarkPlatform.Reporter

open Lib

/-! ## The model -/

structure Entry (ε : Type) where
  number : ℕ
  event : ε
  throws : Bool
  deriving DecidableEq

structure Shared (ε : Type) where
  buffer : List (Entry ε)
  running : Bool
  flusherExited : Bool
  /-- What the producer was handed, in order. -/
  handed : List (Entry ε)
  /-- The entries whose flush an exception ended before they were handed over. -/
  lost : List (Entry ε)
  recorded : List (Entry ε)
  stopCalled : Bool
  /-- How many entries were recorded when `stop` was called. -/
  recordedBefore : ℕ

/-- Who flushes. -/
inductive Caller where
  | record
  | flusher
  | stop
  deriving DecidableEq

inductive Pc (ε : Type) where
  /-- `record`: the entry is appended next. -/
  | push (event : ε) (throws : Bool)
  /-- `flush`: the buffer is swapped out next. -/
  | swap (caller : Caller)
  | produce (caller : Caller) (events : List (Entry ε))
  /-- `while (running_)`. -/
  | flusherTest
  | stopBegin
  | stopJoin
  /-- `stop` has flushed; it returns after a flush of the producer. -/
  | stopReturn
  | done
  deriving DecidableEq

inductive Call (ε : Type) where
  | record (event : ε) (throws : Bool)
  | stop

variable {ε : Type}

def Call.entry : Call ε → Pc ε
  | .record event throws => .push event throws
  | .stop => .stopBegin

/-- Where a flush returns to. -/
def Caller.next : Caller → Pc ε
  | .record => .done
  | .flusher => .flusherTest
  | .stop => .stopReturn

def maxBatch : ℕ := 500

/-- The next step of a thread. `stop` is called once. -/
def advance (s : Shared ε) (_ : Unit) : Pc ε → Option (Shared ε × Pc ε)
  | .push event throws =>
    let entry := ⟨s.recorded.length, event, throws⟩
    some ({ s with buffer := s.buffer ++ [entry], recorded := s.recorded ++ [entry] },
      if maxBatch ≤ (s.buffer ++ [entry]).length then .swap .record else .done)
  | .swap caller =>
    if s.buffer.isEmpty then some (s, caller.next)
    else some ({ s with buffer := [] }, .produce caller s.buffer)
  | .produce caller [] => some (s, caller.next)
  | .produce caller (e :: es) =>
    if e.throws then some ({ s with lost := s.lost ++ e :: es }, caller.next)
    else some ({ s with handed := s.handed ++ [e] }, .produce caller es)
  | .flusherTest =>
    if s.running then some (s, .swap .flusher) else some ({ s with flusherExited := true }, .done)
  | .stopBegin =>
    if s.stopCalled then none
    else
      some ({ s with
        running := false, stopCalled := true, recordedBefore := s.recorded.length }, .stopJoin)
  | .stopJoin => if s.flusherExited then some (s, .swap .stop) else none
  | .stopReturn => some (s, .done)
  | .done => none

abbrev State (ε : Type) := Pool (Shared ε) (Pc ε)

/-- The reporter as `run` leaves it. -/
def State.initial : State ε := ⟨⟨[], true, false, [], [], [], false, 0⟩, [.flusherTest]⟩

def step : State ε → PoolEvent (Call ε) Unit → Option (State ε) := Pool.next Call.entry advance

/-! ## Where the entries are -/

/-- The entries a thread has taken out of the buffer and not yet handed over. -/
def Pc.batch : Pc ε → List (Entry ε)
  | .produce _ events => events
  | _ => []

@[simp] theorem Pc.batch_swap (caller : Caller) : (swap caller : Pc ε).batch = [] := rfl

@[simp] theorem Pc.batch_produce (caller : Caller) (events : List (Entry ε)) :
    (produce caller events).batch = events := rfl

/-- The thread is in `stop`. -/
def Pc.InStop : Pc ε → Prop
  | .swap .stop | .produce .stop _ | .stopJoin | .stopReturn => True
  | _ => False

/-- The thread is in `stop` and has swapped the buffer out. -/
def Pc.Swept : Pc ε → Prop
  | .produce .stop _ | .stopReturn => True
  | _ => False

def pending (threads : List (Pc ε)) : Multiset (Entry ε) := (threads.map fun pc ↦ ↑pc.batch).sum

structure Inv (s : Shared ε) (threads : List (Pc ε)) : Prop where
  account : (s.recorded : Multiset (Entry ε)) = s.buffer + pending threads + s.handed + s.lost
  numbered : s.recorded.map Entry.number = List.range s.recorded.length
  before : s.recordedBefore ≤ s.recorded.length
  inStop : ∀ pc ∈ threads, pc.InStop → s.stopCalled = true
  swept : ∀ pc ∈ threads, pc.Swept → ∀ d ∈ s.buffer, s.recordedBefore ≤ d.number

theorem pending_split (l r : List (Pc ε)) (pc : Pc ε) :
    pending (l ++ pc :: r) = pending l + pc.batch + pending r := by
  simp [pending, add_assoc]

theorem inv_initial : Inv (ε := ε) State.initial.shared State.initial.threads where
  account := rfl
  numbered := rfl
  before := Nat.le_refl 0
  inStop pc hpc h := by
    obtain rfl := List.mem_singleton.mp hpc
    exact h.elim
  swept pc hpc h := by
    obtain rfl := List.mem_singleton.mp hpc
    exact h.elim

theorem Pc.Swept.inStop {pc : Pc ε} (h : pc.Swept) : pc.InStop := by
  cases pc with
  | produce caller events => cases caller <;> trivial
  | stopReturn => trivial
  | _ => exact h.elim

/-- One thread moves on, and the entries it gives up are where it has put them. -/
theorem Inv.replace {s s' : Shared ε} {l r : List (Pc ε)} {pc pc' : Pc ε}
    (h : Inv s (l ++ pc :: r))
    (haccount : (s'.recorded + (s.buffer + pc.batch + s.handed + s.lost) : Multiset (Entry ε)) =
      s.recorded + (s'.buffer + pc'.batch + s'.handed + s'.lost))
    (hnumbered : s'.recorded.map Entry.number = List.range s'.recorded.length)
    (hbefore : s'.recordedBefore ≤ s'.recorded.length)
    (hstop : s.stopCalled = true → s'.stopCalled = true ∧ s'.recordedBefore = s.recordedBefore)
    (hbuffer : ∀ d ∈ s'.buffer, d ∈ s.buffer ∨ s'.recordedBefore ≤ d.number)
    (hin : pc'.InStop → s'.stopCalled = true)
    (hswept : pc'.Swept → ∀ d ∈ s'.buffer, s'.recordedBefore ≤ d.number) :
    Inv s' (l ++ pc' :: r) := by
  have hother : ∀ q ∈ l ++ pc' :: r, q = pc' ∨ q ∈ l ++ pc :: r := by
    intro q hq
    simp only [List.mem_append, List.mem_cons] at hq ⊢
    tauto
  refine ⟨?_, hnumbered, hbefore, fun q hq hqin ↦ ?_, fun q hq hqswept d hd ↦ ?_⟩
  -- cancel what this thread had in hand on both sides of the account
  · apply add_right_cancel (b := (s.buffer + pc.batch + s.handed + s.lost : Multiset (Entry ε)))
    rw [haccount, h.account, pending_split, pending_split]
    abel
  · rcases hother q hq with rfl | hq
    · exact hin hqin
    · exact (hstop (h.inStop q hq hqin)).1
  · rcases hother q hq with rfl | hq
    · exact hswept hqswept d hd
    · rcases hbuffer d hd with hd | hd
      · rw [(hstop (h.inStop q hq hqswept.inStop)).2]
        exact h.swept q hq hqswept d hd
      · exact hd

@[simp] theorem Caller.batch_next (caller : Caller) : (caller.next : Pc ε).batch = [] := by
  cases caller <;> rfl

theorem Caller.inStop_next {caller : Caller} (h : (caller.next : Pc ε).InStop) :
    caller = .stop := by
  cases caller <;> first | rfl | exact h.elim

/-- **The step lemma.** -/
theorem Inv.advance {s s' : Shared ε} {l r : List (Pc ε)} {pc pc' : Pc ε}
    (h : Inv s (l ++ pc :: r)) (hstep : advance s () pc = some (s', pc')) :
    Inv s' (l ++ pc' :: r) := by
  have hin : pc.InStop → s.stopCalled = true := h.inStop pc (by simp)
  have hswept : pc.Swept → ∀ d ∈ s.buffer, s.recordedBefore ≤ d.number := h.swept pc (by simp)
  have hsame : ∀ d ∈ s.buffer, d ∈ s.buffer ∨ s.recordedBefore ≤ d.number := fun d hd ↦ Or.inl hd
  cases pc with
  | push event throws =>
    simp only [Reporter.advance, Option.some_inj, Prod.mk.injEq] at hstep
    obtain ⟨rfl, rfl⟩ := hstep
    refine h.replace ?_ ?_ ?_ (fun hcalled ↦ ⟨hcalled, rfl⟩) ?_ ?_ ?_
    · split_ifs <;> simp only [Pc.batch, ← Multiset.coe_add] <;> abel
    -- the entry takes the next number
    · rw [List.map_append, h.numbered, List.length_append, List.length_singleton,
        List.range_succ]
      rfl
    · exact h.before.trans (by simp)
    · intro d hd
      rcases List.mem_append.mp hd with hd | hd
      · exact Or.inl hd
      -- a late entry: its number is not below what `stop` found recorded
      · obtain rfl := List.mem_singleton.mp hd
        exact Or.inr h.before
    · split_ifs <;> exact fun hf ↦ hf.elim
    · split_ifs <;> exact fun hf ↦ hf.elim
  | swap caller =>
    simp only [Reporter.advance] at hstep
    split at hstep
    all_goals simp only [Option.some_inj, Prod.mk.injEq] at hstep
    all_goals obtain ⟨rfl, rfl⟩ := hstep
    · rename_i hempty
      refine h.replace (by simp) h.numbered h.before (fun hcalled ↦ ⟨hcalled, rfl⟩)
        hsame (fun hnext ↦ ?_) fun _ d hd ↦ ?_
      · obtain rfl := Caller.inStop_next hnext
        exact hin trivial
      · rw [List.isEmpty_iff.mp hempty] at hd
        simp at hd
    · refine h.replace (by simp) h.numbered h.before (fun hcalled ↦ ⟨hcalled, rfl⟩)
        (by simp) (fun hnext ↦ ?_) (by simp)
      cases caller with
      | stop => exact hin trivial
      | _ => exact hnext.elim
  | produce caller events =>
    -- a flush that ends returns to its caller, and only `stop` goes on inside `stop`
    have hnext : (caller.next : Pc ε).InStop → s.stopCalled = true := fun hnext ↦ by
      obtain rfl := Caller.inStop_next hnext
      exact hin trivial
    have hnextSwept : (caller.next : Pc ε).Swept → ∀ d ∈ s.buffer, s.recordedBefore ≤ d.number :=
      fun hnext ↦ by
        obtain rfl := Caller.inStop_next hnext.inStop
        exact hswept trivial
    cases events with
    | nil =>
      obtain ⟨rfl, rfl⟩ := Option.some_inj.mp hstep
      exact h.replace (by simp) h.numbered h.before (fun hcalled ↦ ⟨hcalled, rfl⟩) hsame
        hnext hnextSwept
    | cons e es =>
      simp only [Reporter.advance] at hstep
      split at hstep
      all_goals simp only [Option.some_inj, Prod.mk.injEq] at hstep
      all_goals obtain ⟨rfl, rfl⟩ := hstep
      -- the exception: what is left of the batch is lost
      · refine h.replace ?_ h.numbered h.before (fun hcalled ↦ ⟨hcalled, rfl⟩) hsame hnext
          hnextSwept
        rw [Caller.batch_next, Pc.batch_produce, ← Multiset.coe_add, Multiset.coe_nil]
        abel
      · refine h.replace ?_ h.numbered h.before (fun hcalled ↦ ⟨hcalled, rfl⟩) hsame ?_ ?_
        · have hsplit : ((e :: es : List (Entry ε)) : Multiset (Entry ε)) = ↑[e] + ↑es := rfl
          rw [Pc.batch_produce, Pc.batch_produce, hsplit, ← Multiset.coe_add]
          abel
        · cases caller with
          | stop => exact hin
          | _ => exact fun hf ↦ hf.elim
        · cases caller with
          | stop => exact hswept
          | _ => exact fun hf ↦ hf.elim
  | flusherTest =>
    simp only [Reporter.advance] at hstep
    split at hstep
    all_goals simp only [Option.some_inj, Prod.mk.injEq] at hstep
    all_goals obtain ⟨rfl, rfl⟩ := hstep
    · exact h.replace rfl h.numbered h.before (fun hcalled ↦ ⟨hcalled, rfl⟩) hsame
        (fun hf ↦ hf.elim) fun hf ↦ hf.elim
    · exact h.replace rfl h.numbered h.before (fun hcalled ↦ ⟨hcalled, rfl⟩) hsame
        (fun hf ↦ hf.elim) fun hf ↦ hf.elim
  | stopBegin =>
    obtain ⟨hcalled, hstep⟩ := Option.ite_none_left_eq_some.mp hstep
    obtain ⟨rfl, rfl⟩ := Option.some_inj.mp hstep
    exact h.replace rfl h.numbered (Nat.le_refl _) (fun hcalled' ↦ absurd hcalled' hcalled)
      (fun d hd ↦ Or.inl hd) (fun _ ↦ rfl) fun hf ↦ hf.elim
  | stopJoin =>
    obtain ⟨-, hstep⟩ := Option.ite_none_right_eq_some.mp hstep
    obtain ⟨rfl, rfl⟩ := Option.some_inj.mp hstep
    exact h.replace rfl h.numbered h.before (fun hcalled ↦ ⟨hcalled, rfl⟩) hsame
      (fun _ ↦ hin trivial) fun hf ↦ hf.elim
  | stopReturn =>
    obtain ⟨rfl, rfl⟩ := Option.some_inj.mp hstep
    exact h.replace rfl h.numbered h.before (fun hcalled ↦ ⟨hcalled, rfl⟩) hsame
      (fun hf ↦ hf.elim) fun hf ↦ hf.elim
  | done => simp [Reporter.advance] at hstep

/-- A thread is started. -/
theorem Inv.start {s : Shared ε} {threads : List (Pc ε)} (h : Inv s threads) (call : Call ε) :
    Inv s (threads ++ [call.entry]) where
  account := by
    have hbatch : (call.entry.batch : Multiset (Entry ε)) = 0 := by cases call <;> rfl
    rw [pending_split, hbatch, add_zero, h.account]
    simp [pending]
  numbered := h.numbered
  before := h.before
  inStop := by
    refine Pool.forall_start h.inStop fun hin ↦ ?_
    cases call <;> exact hin.elim
  swept := by
    refine Pool.forall_start h.swept fun hswept ↦ ?_
    cases call <;> exact hswept.elim

theorem inv_step {s s' : State ε} {e : PoolEvent (Call ε) Unit} (h : Inv s.shared s.threads)
    (hstep : step s e = some s') : Inv s'.shared s'.threads := by
  cases e with
  | start call =>
    obtain rfl := Option.some_inj.mp hstep
    exact h.start call
  | run i u =>
    obtain ⟨l, pc, r, t, pc', hthreads, -, hadvance, rfl⟩ := Pool.next_run hstep
    rw [hthreads] at h
    exact h.advance hadvance

/-! ## Whether an entry is owed -/

/-- An entry that can be produced and was recorded before `stop` was called. -/
def Shared.Owed (s : Shared ε) (d : Entry ε) : Prop :=
  d.throws = false ∧ (s.stopCalled = true → d.number < s.recordedBefore)

instance (s : Shared ε) : DecidablePred s.Owed := fun d ↦
  inferInstanceAs
    (Decidable (d.throws = false ∧ (s.stopCalled = true → d.number < s.recordedBefore)))

/-- An owed entry has gone the way of another one's exception. -/
def LosesOwed (s : State ε) : Prop := ∃ d ∈ s.shared.lost, s.shared.Owed d

/-- If an exception ends a flush, then no owed entry stands behind the one that threw. -/
def Spared (s : State ε) : PoolEvent (Call ε) Unit → Prop
  | .start _ => True
  | .run i _ =>
    match s.threads[i]? with
    | some (.produce _ (e :: es)) => e.throws = true → ∀ d ∈ es, ¬s.shared.Owed d
    | _ => True

theorem Inv.number_lt {s : Shared ε} {threads : List (Pc ε)} (h : Inv s threads) {d : Entry ε}
    (hd : d ∈ s.recorded) : d.number < s.recorded.length := by
  have := List.mem_map_of_mem (f := Entry.number) hd
  rw [h.numbered, List.mem_range] at this
  exact this

theorem mem_pending {threads : List (Pc ε)} {d : Entry ε} :
    d ∈ pending threads ↔ ∃ pc ∈ threads, d ∈ pc.batch := by
  induction threads with
  | nil => simp [pending]
  | cons pc threads ih =>
    have hcons : pending (pc :: threads) = pc.batch + pending threads := by simp [pending]
    rw [hcons, Multiset.mem_add, ih]
    simp

theorem Inv.mem_recorded {s : Shared ε} {threads : List (Pc ε)} (h : Inv s threads) (d : Entry ε) :
    d ∈ s.recorded ↔
      d ∈ s.buffer ∨ (∃ pc ∈ threads, d ∈ pc.batch) ∨ d ∈ s.handed ∨ d ∈ s.lost := by
  rw [← Multiset.mem_coe, h.account]
  simp [mem_pending, or_assoc]

/-- What a step does to what is lost and to what is owed. -/
theorem advance_shared {s s' : Shared ε} {pc pc' : Pc ε}
    (hstep : advance s () pc = some (s', pc')) :
    (∃ caller e es, pc = .produce caller (e :: es) ∧ e.throws = true ∧
      s' = { s with lost := s.lost ++ e :: es }) ∨
    (s'.lost = s.lost ∧ (∀ caller e es, pc = .produce caller (e :: es) → ¬e.throws = true) ∧
      (s'.stopCalled = s.stopCalled ∧ s'.recordedBefore = s.recordedBefore ∨
        ¬s.stopCalled = true ∧ s'.recordedBefore = s.recorded.length)) := by
  cases pc with
  | push event throws =>
    obtain ⟨rfl, -⟩ := Option.some_inj.mp hstep
    exact Or.inr ⟨rfl, by simp, Or.inl ⟨rfl, rfl⟩⟩
  | produce caller events =>
    cases events with
    | nil =>
      obtain ⟨rfl, -⟩ := Option.some_inj.mp hstep
      exact Or.inr ⟨rfl, by simp, Or.inl ⟨rfl, rfl⟩⟩
    | cons e es =>
      simp only [advance] at hstep
      split at hstep
      all_goals obtain ⟨rfl, -⟩ := Option.some_inj.mp hstep
      · exact Or.inl ⟨caller, e, es, rfl, ‹_›, rfl⟩
      -- the entry was handed over, so it is not one that throws
      · refine Or.inr ⟨rfl, ?_, Or.inl ⟨rfl, rfl⟩⟩
        rintro _ _ _ ⟨⟩
        assumption
  | stopBegin =>
    obtain ⟨hcalled, hstep⟩ := Option.ite_none_left_eq_some.mp hstep
    obtain ⟨rfl, -⟩ := Option.some_inj.mp hstep
    exact Or.inr ⟨rfl, by simp, Or.inr ⟨hcalled, rfl⟩⟩
  | stopJoin =>
    obtain ⟨-, hstep⟩ := Option.ite_none_right_eq_some.mp hstep
    obtain ⟨rfl, -⟩ := Option.some_inj.mp hstep
    exact Or.inr ⟨rfl, by simp, Or.inl ⟨rfl, rfl⟩⟩
  | stopReturn =>
    obtain ⟨rfl, -⟩ := Option.some_inj.mp hstep
    exact Or.inr ⟨rfl, by simp, Or.inl ⟨rfl, rfl⟩⟩
  | done => simp [advance] at hstep
  | _ =>
    simp only [advance] at hstep
    split at hstep
    all_goals obtain ⟨rfl, -⟩ := Option.some_inj.mp hstep
    all_goals exact Or.inr ⟨rfl, by simp, Or.inl ⟨rfl, rfl⟩⟩

/-- Calling `stop` does not change what is owed of the entries recorded so far. -/
theorem owed_advance {s s' : Shared ε} {pc pc' : Pc ε} (hstep : advance s () pc = some (s', pc'))
    {d : Entry ε} (hd : d.number < s.recorded.length) : s'.Owed d ↔ s.Owed d := by
  rcases advance_shared hstep with ⟨caller, e, es, -, -, rfl⟩ | ⟨-, -, hflag | ⟨hcalled, hbefore⟩⟩
  · rfl
  · rw [Shared.Owed, Shared.Owed, hflag.1, hflag.2]
  · rw [Shared.Owed, Shared.Owed, hbefore]
    simp [hcalled, hd]

/-- An owed entry that is lost stays owed and lost. -/
theorem losesOwed_step {s s' : State ε} {e : PoolEvent (Call ε) Unit}
    (h : Inv s.shared s.threads) (hloses : LosesOwed s) (hstep : step s e = some s') :
    LosesOwed s' := by
  obtain ⟨d, hd, howed⟩ := hloses
  have hnumber := h.number_lt ((h.mem_recorded d).mpr (by simp [hd]))
  cases e with
  | start call =>
    obtain rfl := Option.some_inj.mp hstep
    exact ⟨d, hd, howed⟩
  | run i u =>
    obtain ⟨l, pc, r, t, pc', -, -, hadvance, rfl⟩ := Pool.next_run hstep
    refine ⟨d, ?_, (owed_advance hadvance hnumber).mpr howed⟩
    rcases advance_shared hadvance with ⟨caller, e, es, -, -, rfl⟩ | ⟨hlost, -⟩
    · exact List.mem_append_left _ hd
    · exact hlost ▸ hd

/-- A step loses an owed entry exactly if it is not spared. -/
theorem spared_iff {s s' : State ε} {e : PoolEvent (Call ε) Unit} (h : Inv s.shared s.threads)
    (hgood : ¬LosesOwed s) (hstep : step s e = some s') : Spared s e ↔ ¬LosesOwed s' := by
  cases e with
  | start call =>
    obtain rfl := Option.some_inj.mp hstep
    exact iff_of_true trivial hgood
  | run i u =>
    obtain ⟨l, pc, r, t, pc', hthreads, hi, hadvance, rfl⟩ := Pool.next_run hstep
    have hpc : s.threads[i]? = some pc := by
      rw [hthreads, ← hi]
      simp
    simp only [Spared, hpc]
    rcases advance_shared hadvance with ⟨caller, e, es, rfl, hthrows, rfl⟩ | ⟨hlost, hnot, -⟩
    · constructor
      · rintro hspared ⟨d, hd, howed⟩
        rcases List.mem_append.mp hd with hd | hd
        · exact hgood ⟨d, hd, howed⟩
        -- the entry that threw is not owed; those behind it are spared
        · rcases List.mem_cons.mp hd with rfl | hd
          · exact Bool.false_ne_true (howed.1.symm.trans hthrows)
          · exact hspared hthrows d hd howed
      · intro hnone _ d hd howed
        exact hnone ⟨d, by simp [hd], howed⟩
    -- nothing is lost in this step
    · have hspared : ¬LosesOwed ⟨t, l ++ pc' :: r⟩ := by
        rintro ⟨d, hd, howed⟩
        rw [hlost] at hd
        have hnumber := h.number_lt ((h.mem_recorded d).mpr (by simp [hd]))
        exact hgood ⟨d, hd, (owed_advance hadvance hnumber).mp howed⟩
      refine iff_of_true ?_ hspared
      split
      · rename_i heq
        intro hthrows
        exact absurd hthrows (hnot _ _ _ (Option.some_inj.mp heq))
      · trivial

/-! ## What is handed over -/

/-- Every owed entry has been handed to the producer, once. -/
def Shared.AllHanded [DecidableEq ε] (s : Shared ε) : Prop :=
  ∀ d ∈ s.recorded, s.Owed d → s.handed.count d = 1

instance [DecidableEq ε] : DecidablePred (Shared.AllHanded (ε := ε)) := fun s ↦
  inferInstanceAs (Decidable (∀ d ∈ s.recorded, s.Owed d → s.handed.count d = 1))

/-- No thread is in the middle of a flush of an owed entry. -/
def NoneLeft (s : State ε) : Prop := ∀ pc ∈ s.threads, ∀ d ∈ pc.batch, ¬s.shared.Owed d

/-- An entry is in one place. -/
theorem Inv.count_eq_one [DecidableEq ε] {s : Shared ε} {threads : List (Pc ε)} (h : Inv s threads)
    {d : Entry ε} (hd : d ∈ s.recorded) :
    s.buffer.count d + (pending threads).count d + s.handed.count d + s.lost.count d = 1 := by
  have hnodup : s.recorded.Nodup := by
    apply List.Nodup.of_map Entry.number
    rw [h.numbered]
    exact List.nodup_range
  have hcount := congrArg (Multiset.count d) h.account
  rw [Multiset.count_add, Multiset.count_add, Multiset.count_add, Multiset.coe_count,
    Multiset.coe_count, Multiset.coe_count, Multiset.coe_count,
    List.count_eq_one_of_mem hnodup hd] at hcount
  exact hcount.symm

/-- Once `stop` has swept the buffer, what is owed has been handed over, or it is lost or about to
be produced. -/
theorem Inv.allHanded_iff [DecidableEq ε] {s : State ε} (h : Inv s.shared s.threads)
    (hreturn : .stopReturn ∈ s.threads) :
    s.shared.AllHanded ↔ ¬LosesOwed s ∧ NoneLeft s := by
  -- every recorded entry is counted once over buffer, batches, handed and lost
  constructor
  · refine fun hall ↦ ⟨?_, ?_⟩
    · rintro ⟨d, hd, howed⟩
      have hmem := (h.mem_recorded d).mpr (by simp [hd])
      have := h.count_eq_one hmem
      have := List.count_pos_iff.mpr hd
      have := hall d hmem howed
      omega
    · intro pc hpc d hd howed
      have hmem := (h.mem_recorded d).mpr (Or.inr (Or.inl ⟨pc, hpc, hd⟩))
      have := h.count_eq_one hmem
      have := Multiset.count_pos.mpr (mem_pending.mpr ⟨pc, hpc, hd⟩)
      have := hall d hmem howed
      omega
  · rintro ⟨hkept, hnone⟩ d hd howed
    have hcalled := h.inStop _ hreturn trivial
    -- swept: only late entries are left in the buffer
    have hbuffer : s.shared.buffer.count d = 0 := List.count_eq_zero.mpr fun hmem ↦
      Nat.not_lt_of_le (h.swept _ hreturn trivial d hmem) (howed.2 hcalled)
    have hpending : (pending s.threads).count d = 0 := Multiset.count_eq_zero.mpr fun hmem ↦ by
      obtain ⟨pc, hpc, hmem⟩ := mem_pending.mp hmem
      exact hnone pc hpc d hmem howed
    have hlost : s.shared.lost.count d = 0 :=
      List.count_eq_zero.mpr fun hmem ↦ hkept ⟨d, hmem, howed⟩
    have := h.count_eq_one hd
    omega

/-- **What the producer has been handed when `stop` returns**: all that is owed, if and only if no
exception so far has ended a flush with an owed entry behind the one that threw, and no other thread
is still flushing an owed entry. -/
theorem stop_allHanded_iff [DecidableEq ε] {es : List (PoolEvent (Call ε) Unit)} {s s' : State ε}
    {i : ℕ} (h : exec step State.initial es = some s) (hreturn : s.threads[i]? = some .stopReturn)
    (hstep : step s (.run i ()) = some s') :
    s'.shared.AllHanded ↔ Guarded step Spared State.initial es ∧ NoneLeft s := by
  have hinv : Inv s.shared s.threads := exec_invariant
    (P := fun s : State ε ↦ Inv s.shared s.threads) (fun _ _ _ hs ↦ inv_step hs) inv_initial h
  have hgood : ¬LosesOwed (State.initial : State ε) := by
    rintro ⟨d, hd, -⟩
    simp [State.initial] at hd
  have hshared : s'.shared = s.shared := by
    obtain ⟨l, pc, r, t, pc', hthreads, hi, hadvance, rfl⟩ := Pool.next_run hstep
    have hpc : pc = .stopReturn := by
      rw [hthreads, ← hi] at hreturn
      simpa using hreturn
    subst hpc
    obtain ⟨rfl, -⟩ := Option.some_inj.mp hadvance
    rfl
  rw [hshared, hinv.allHanded_iff (List.mem_of_getElem? hreturn),
    guarded_iff_not (fun _ _ _ hs ↦ inv_step hs) (fun _ _ _ hs ↦ losesOwed_step hs)
      (fun _ _ _ hs ↦ spared_iff hs) inv_initial hgood h]

/-- Two entries are recorded, the first of which can or cannot be produced, and `stop` is called and
goes up to its return. -/
def twoEntries (throws : Bool) : List (PoolEvent (Call String) Unit) :=
  [.start (.record "first" throws), .run 1 (), .start (.record "second" false), .run 2 (),
    .start .stop, .run 3 (), .run 0 (), .run 3 (), .run 3 (), .run 3 ()]
      ++ if throws then [] else [.run 3 (), .run 3 ()]

theorem stop_allHanded_twoEntries : ∃ s s' : State String,
    exec step State.initial (twoEntries false) = some s ∧ step s (.run 3 ()) = some s' ∧
      (s'.shared.AllHanded ↔
        Guarded step Spared State.initial (twoEntries false) ∧ NoneLeft s) := by
  have hrun : ((exec step State.initial (twoEntries false)).any fun s ↦
      decide (s.threads[3]? = some .stopReturn) && (step s (.run 3 ())).isSome) = true := by
    decide +kernel
  obtain ⟨s, hs, h⟩ := (Option.any_eq_true _ _).mp hrun
  simp only [Bool.and_eq_true, decide_eq_true_eq] at h
  obtain ⟨s', hs'⟩ := Option.isSome_iff_exists.mp h.2
  exact ⟨s, s', hs, hs', stop_allHanded_iff hs h.1 hs'⟩

/-- The entry behind the one that throws is never handed over. -/
theorem throwing_entry_erases_next : ∃ s s' : State String,
    exec step State.initial (twoEntries true) = some s ∧ s.threads[3]? = some .stopReturn ∧
      step s (.run 3 ()) = some s' ∧ ⟨1, "second", false⟩ ∈ s'.shared.recorded ∧
      s'.shared.recordedBefore = 2 ∧ s'.shared.handed = [] ∧ ¬s'.shared.AllHanded := by
  have hrun : ((exec step State.initial (twoEntries true)).any fun s ↦
      decide (s.threads[3]? = some .stopReturn) && (step s (.run 3 ())).any fun s' ↦
        decide (⟨1, "second", false⟩ ∈ s'.shared.recorded ∧ s'.shared.recordedBefore = 2 ∧
          s'.shared.handed = [] ∧ ¬s'.shared.AllHanded)) = true := by decide +kernel
  obtain ⟨s, hs, h⟩ := (Option.any_eq_true _ _).mp hrun
  rw [Bool.and_eq_true, decide_eq_true_eq] at h
  obtain ⟨s', hs', h'⟩ := (Option.any_eq_true _ _).mp h.2
  exact ⟨s, s', hs, h.1, hs', of_decide_eq_true h'⟩

end BenchmarkPlatform.Reporter
