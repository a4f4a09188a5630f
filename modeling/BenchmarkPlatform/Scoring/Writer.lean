import BenchmarkPlatform.Lib.Transition
import BenchmarkPlatform.Scoring.Scorer

/-!
# The database writer

`Ingest` pushes events into a channel, and `run_timescale_db_writer` takes them out in batches and
inserts them, until the stop flag is set. `shutdown` sets the flag and closes the channel. The steps
are the critical sections of the channel and the accesses to the flag. Every insert succeeds.

The writer looks at the flag before each batch, and what it flushes after its loop is the batch it
has popped before, which is empty by then. So what is in the channel when the writer finds the flag
set is never inserted.
-/

namespace BenchmarkPlatform.Scoring

open Lib

/-! ## The model -/

structure Channel where
  writeBuf : List TelemetryEvent
  closed : Bool

inductive WriterPc where
  /-- `while (!g_stop_flag)`. -/
  | test
  | popBatch
  | flush
  /-- The flush after the loop. -/
  | lastFlush
  | returned
  deriving DecidableEq

inductive ShutdownPc where
  | notCalled
  | setFlag
  | close
  | returned
  deriving DecidableEq

structure WriterState where
  channel : Channel
  stopFlag : Bool
  batch : List TelemetryEvent
  /-- The rows of the table, in the order of their insertion. -/
  inserted : List TelemetryEvent
  writer : WriterPc
  shutdown : ShutdownPc
  /-- All events pushed so far, for the statements only. -/
  pushed : List TelemetryEvent
  /-- How many there were when `shutdown` was called. -/
  pushedBefore : ℕ

inductive WriterEvent where
  | push (event : TelemetryEvent)
  /-- The writer takes a step; a wait may end because its time is over. -/
  | writer (timeout : Bool)
  | shutdown

def WriterState.initial : WriterState := ⟨⟨[], false⟩, false, [], [], .test, .notCalled, [], 0⟩

/-- `flush`. -/
def WriterState.flushBatch (s : WriterState) (next : WriterPc) : WriterState :=
  { s with inserted := s.inserted ++ s.batch, batch := [], writer := next }

/-- `pop_batch`, once its wait is over. An empty channel leaves the batch as it is. -/
def WriterState.swap (s : WriterState) : WriterState :=
  if s.channel.writeBuf = [] then { s with writer := .flush }
  else
    { s with channel := ⟨s.batch, s.channel.closed⟩, batch := s.channel.writeBuf, writer := .flush }

def WriterState.step (s : WriterState) : WriterEvent → Option WriterState
  | .push event =>
    some { s with
      channel := ⟨s.channel.writeBuf ++ [event], s.channel.closed⟩
      pushed := s.pushed ++ [event] }
  | .writer timeout =>
    match s.writer with
    | .test => some { s with writer := if s.stopFlag then .lastFlush else .popBatch }
    | .popBatch =>
      if timeout ∨ 1000 ≤ s.channel.writeBuf.length ∨ s.channel.closed then some s.swap else none
    | .flush => some (s.flushBatch .test)
    | .lastFlush => some (s.flushBatch .returned)
    | .returned => none
  | .shutdown =>
    match s.shutdown with
    | .notCalled => some { s with shutdown := .setFlag, pushedBefore := s.pushed.length }
    | .setFlag => some { s with stopFlag := true, shutdown := .close }
    | .close => some { s with channel := ⟨s.channel.writeBuf, true⟩, shutdown := .returned }
    | .returned => none

/-! ## What is where -/

/-- The writer has left its loop. -/
def WriterPc.Exited (pc : WriterPc) : Prop := pc = .lastFlush ∨ pc = .returned

/-- The events that the channel has not handed out are the last ones pushed. -/
structure WriterState.Inv (s : WriterState) : Prop where
  events : s.inserted ++ s.batch ++ s.channel.writeBuf = s.pushed
  batch : s.writer ≠ .flush → s.batch = []
  called : s.stopFlag = true → s.shutdown ≠ .notCalled
  exited : s.writer.Exited → s.stopFlag = true
  before : s.pushedBefore ≤ s.pushed.length

theorem WriterState.inv_initial : initial.Inv where
  events := rfl
  batch _ := rfl
  called h := by simp [initial] at h
  exited h := by simp [initial, WriterPc.Exited] at h
  before := Nat.le_refl 0

theorem WriterState.Inv.swap {s : WriterState} (h : s.Inv) (hpc : s.writer = .popBatch) :
    s.swap.Inv := by
  have hbatch : s.batch = [] := h.batch (by simp [hpc])
  have hevents := h.events
  rw [WriterState.swap]
  split_ifs with hempty
  · exact ⟨hevents, fun hne ↦ absurd rfl hne, h.called, by simp [WriterPc.Exited], h.before⟩
  · refine ⟨?_, fun hne ↦ absurd rfl hne, h.called, by simp [WriterPc.Exited], h.before⟩
    rw [hbatch, List.append_nil] at hevents ⊢
    exact hevents

theorem WriterState.Inv.flushBatch {s : WriterState} (h : s.Inv) {next : WriterPc}
    (hnext : next.Exited → s.stopFlag = true) : (s.flushBatch next).Inv where
  events := by
    rw [WriterState.flushBatch, List.append_nil]
    exact h.events
  batch _ := rfl
  called := h.called
  exited := hnext
  before := h.before

theorem WriterState.Inv.step {s s' : WriterState} {e : WriterEvent} (h : s.Inv)
    (hstep : s.step e = some s') : s'.Inv := by
  cases e with
  | push event =>
    obtain rfl := Option.some_inj.mp hstep
    refine ⟨?_, h.batch, h.called, h.exited, h.before.trans (by simp)⟩
    rw [← List.append_assoc, h.events]
  | writer timeout =>
    simp only [WriterState.step] at hstep
    split at hstep
    · rename_i hpc
      obtain rfl := Option.some_inj.mp hstep
      refine ⟨h.events, fun _ ↦ h.batch (by simp [hpc]), h.called, fun hexit ↦ ?_, h.before⟩
      -- the loop is left only where the flag was set
      by_contra hflag
      simp [hflag, WriterPc.Exited] at hexit
    · rename_i hpc
      obtain ⟨-, hs'⟩ := Option.ite_none_right_eq_some.mp hstep
      obtain rfl := Option.some_inj.mp hs'
      exact h.swap hpc
    · obtain rfl := Option.some_inj.mp hstep
      exact h.flushBatch (by simp [WriterPc.Exited])
    · rename_i hpc
      obtain rfl := Option.some_inj.mp hstep
      exact h.flushBatch fun _ ↦ h.exited (Or.inl hpc)
    · simp at hstep
  | shutdown =>
    simp only [WriterState.step] at hstep
    split at hstep
    · obtain rfl := Option.some_inj.mp hstep
      exact ⟨h.events, h.batch, by simp, h.exited, Nat.le_refl _⟩
    · obtain rfl := Option.some_inj.mp hstep
      exact ⟨h.events, h.batch, by simp, fun _ ↦ rfl, h.before⟩
    · obtain rfl := Option.some_inj.mp hstep
      exact ⟨h.events, h.batch, by simp, h.exited, h.before⟩
    · simp at hstep

/-- How many events the channel has handed out. -/
def WriterState.handedOut (s : WriterState) : ℕ := s.inserted.length + s.batch.length

theorem WriterState.Inv.handedOut_add {s : WriterState} (h : s.Inv) :
    s.handedOut + s.channel.writeBuf.length = s.pushed.length := by
  have := congrArg List.length h.events
  rw [List.length_append, List.length_append] at this
  exact this

/-- The writer has left its loop and events pushed before `shutdown` was called behind. -/
def WriterState.Leaves (s : WriterState) : Prop :=
  s.writer.Exited ∧ s.handedOut < s.pushedBefore

/-- A writer that has left its loop takes nothing more out of the channel. -/
theorem WriterState.Inv.step_leaves {s s' : WriterState} {e : WriterEvent} (h : s.Inv)
    (hleaves : s.Leaves) (hstep : s.step e = some s') : s'.Leaves := by
  obtain ⟨hexit, hlt⟩ := hleaves
  cases e with
  | push event =>
    obtain rfl := Option.some_inj.mp hstep
    exact ⟨hexit, hlt⟩
  | writer timeout =>
    -- the last flush only moves the batch to the rows
    rcases hexit with hpc | hpc
    · simp only [WriterState.step, hpc] at hstep
      obtain rfl := Option.some_inj.mp hstep
      exact ⟨Or.inr rfl, by simpa [handedOut, WriterState.flushBatch] using hlt⟩
    · simp [WriterState.step, hpc] at hstep
  | shutdown =>
    have hcalled := h.called (h.exited hexit)
    simp only [WriterState.step] at hstep
    split at hstep
    · contradiction
    all_goals simp only [Option.some_inj, reduceCtorEq] at hstep
    all_goals subst hstep
    all_goals exact ⟨hexit, hlt⟩

/-! ## What is inserted -/

/-- The rows are the first events pushed, in order, and include those pushed before `shutdown` was
called. -/
def WriterState.Complete (s : WriterState) : Prop :=
  s.inserted <+: s.pushed ∧ s.pushed.take s.pushedBefore <+: s.inserted

instance : DecidablePred WriterState.Complete := fun s ↦
  inferInstanceAs
    (Decidable (s.inserted <+: s.pushed ∧ s.pushed.take s.pushedBefore <+: s.inserted))

/-- A writer that finds the flag set finds no event in the channel that was pushed before `shutdown`
was called. -/
def WriterState.Drained (s : WriterState) : WriterEvent → Prop
  | .writer _ => s.writer = .test → s.stopFlag = true →
      s.pushedBefore + s.channel.writeBuf.length ≤ s.pushed.length
  | _ => True

/-- The look at the flag is the one step that can leave events behind. -/
theorem WriterState.Inv.drained_iff {s s' : WriterState} {e : WriterEvent} (h : s.Inv)
    (hgood : ¬s.Leaves) (hstep : s.step e = some s') : s.Drained e ↔ ¬s'.Leaves := by
  have hsum := h.handedOut_add
  cases e with
  | push event =>
    obtain rfl := Option.some_inj.mp hstep
    exact iff_of_true trivial hgood
  | writer timeout =>
    simp only [WriterState.step] at hstep
    split at hstep
    · rename_i hpc
      obtain rfl := Option.some_inj.mp hstep
      -- the loop is left here: what the channel still holds is what is left behind
      by_cases hflag : s.stopFlag = true
      · simp only [Drained, Leaves, WriterPc.Exited, handedOut, hpc, hflag] at hsum ⊢
        simp
        omega
      · exact iff_of_true (fun _ h ↦ absurd h hflag) (by simp [Leaves, WriterPc.Exited, hflag])
    · rename_i hpc
      obtain ⟨-, hs'⟩ := Option.ite_none_right_eq_some.mp hstep
      obtain rfl := Option.some_inj.mp hs'
      refine iff_of_true (by simp [Drained, hpc]) ?_
      rw [Leaves, WriterState.swap]
      split_ifs <;> simp [WriterPc.Exited]
    · rename_i hpc
      obtain rfl := Option.some_inj.mp hstep
      exact iff_of_true (by simp [Drained, hpc])
        (by simp [Leaves, WriterState.flushBatch, WriterPc.Exited])
    · rename_i hpc
      obtain rfl := Option.some_inj.mp hstep
      refine iff_of_true (by simp [Drained, hpc]) fun hleaves ↦ hgood ⟨Or.inl hpc, ?_⟩
      simpa [handedOut, WriterState.flushBatch] using hleaves.2
    · simp at hstep
  | shutdown =>
    refine iff_of_true trivial ?_
    simp only [WriterState.step] at hstep
    split at hstep
    · rename_i hpc
      obtain rfl := Option.some_inj.mp hstep
      -- a writer that has left the loop has seen the flag, so `shutdown` has begun
      exact fun hleaves ↦ h.called (h.exited hleaves.1) hpc
    · obtain rfl := Option.some_inj.mp hstep
      exact hgood
    · obtain rfl := Option.some_inj.mp hstep
      exact hgood
    · simp at hstep

theorem WriterState.Inv.complete_iff {s : WriterState} (h : s.Inv) (hdone : s.writer.Exited) :
    s.Complete ↔ s.pushedBefore ≤ s.handedOut := by
  have hbatch : s.batch = [] := h.batch (by rcases hdone with hpc | hpc <;> simp [hpc])
  have hevents := h.events
  rw [hbatch, List.append_nil] at hevents
  rw [Complete, handedOut, hbatch, List.length_nil, Nat.add_zero, ← hevents]
  constructor
  · rintro ⟨-, hpre⟩
    have hlen := hpre.length_le
    rw [List.length_take, hevents, Nat.min_eq_left h.before] at hlen
    exact hlen
  · intro hle
    refine ⟨List.prefix_append _ _, ?_⟩
    rw [List.take_append_of_le_length hle]
    exact List.take_prefix _ _

/-- **What the writer leaves behind.** When it returns, the rows include all events pushed before
`shutdown` was called, if and only if it found the flag set after it had popped the last of them. -/
theorem writer_complete_iff {es : List WriterEvent} {s : WriterState}
    (h : exec WriterState.step .initial es = some s) (hreturned : s.writer = .returned) :
    s.Complete ↔ Guarded WriterState.step WriterState.Drained .initial es := by
  have hinv : s.Inv := exec_invariant (fun _ _ _ hs ↦ hs.step) WriterState.inv_initial h
  have hgood : ¬WriterState.initial.Leaves := fun hleaves ↦ Nat.not_lt_zero _ hleaves.2
  have hexit : s.writer.Exited := Or.inr hreturned
  rw [hinv.complete_iff hexit,
    guarded_iff_not (fun _ _ _ hs ↦ hs.step) (fun _ _ _ hs ↦ hs.step_leaves)
      (fun _ _ _ hs ↦ hs.drained_iff) WriterState.inv_initial hgood h,
    WriterState.Leaves, and_iff_right hexit, not_lt]

def sampleEvent : TelemetryEvent := ⟨"r", "b", "o", "limit", "S", 0, 5, 5, true, ""⟩

/-- The event is pushed while the writer is between a batch and its next look at the flag. -/
def lateEvent : List WriterEvent :=
  [.writer false, .writer true, .push sampleEvent, .shutdown, .shutdown, .shutdown, .writer false,
    .writer false, .writer false]

theorem writer_complete_lateEvent :
    ∃ s, exec WriterState.step .initial lateEvent = some s ∧ s.writer = .returned ∧
      (s.Complete ↔ Guarded WriterState.step WriterState.Drained .initial lateEvent) := by
  have hrun : ((exec WriterState.step .initial lateEvent).any fun s ↦
      decide (s.writer = .returned)) = true := by decide +kernel
  obtain ⟨s, hs, h⟩ := (Option.any_eq_true _ _).mp hrun
  exact ⟨s, hs, of_decide_eq_true h, writer_complete_iff hs (of_decide_eq_true h)⟩

theorem lateEvent_lost :
    ∃ s, exec WriterState.step .initial lateEvent = some s ∧ s.writer = .returned ∧
      s.pushed.take s.pushedBefore = [sampleEvent] ∧ s.inserted = [] ∧ ¬s.Complete := by
  have hrun : ((exec WriterState.step .initial lateEvent).any fun s ↦
      decide (s.writer = .returned ∧ s.pushed.take s.pushedBefore = [sampleEvent] ∧
        s.inserted = [] ∧ ¬s.Complete)) = true := by decide +kernel
  obtain ⟨s, hs, h⟩ := (Option.any_eq_true _ _).mp hrun
  exact ⟨s, hs, of_decide_eq_true h⟩

end BenchmarkPlatform.Scoring
