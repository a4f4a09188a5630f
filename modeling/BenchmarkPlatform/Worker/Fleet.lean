import Mathlib.Data.Finmap
import Mathlib.Data.Rat.Defs
import BenchmarkPlatform.Lib.Transition

/-!
# The fleets of a bot worker

`Worker` of `services/bot-worker`: the consumer thread that handles assignments, the timer threads
it starts, and the shutdown. One step is one critical section, one bot started or one group of bots
joined. Assignments are numbered in the order they are handled; the numbers, and the record of which
fleet was stopped by whom, are there for the statements only and no step reads them.

A fleet is stopped by whoever takes it out of `fleets_`; joining its bots comes later. One that
cannot be completed is stopped by its destructor.
-/

namespace BenchmarkPlatform.Worker

open Lib

/-! ## Data -/

structure BotAssignment where
  runId : String
  endpointUrl : String
  botCount : ℤ
  phase : String
  durationMs : ℤ
  ordersPerSec : ℤ
  limitRatio : ℚ
  marketRatio : ℚ
  cancelRatio : ℚ
  symbols : List String
  deriving DecidableEq

structure BotConfig where
  botId : String
  runId : String
  endpointUrl : String
  ordersPerSec : ℤ
  limitRatio : ℚ
  marketRatio : ℚ
  cancelRatio : ℚ
  symbols : List String
  durationMs : ℤ
  deriving DecidableEq

structure Config where
  workerId : String
  maxBotsPerWorker : ℤ

/-- A fleet, with the number of the assignment it was created for. -/
structure BotFleet where
  runId : String
  bots : List BotConfig
  owner : ℕ
  deriving DecidableEq

/-- The number of bots `handle_assignment` starts. -/
def Config.botCount (cfg : Config) (a : BotAssignment) : ℤ :=
  if cfg.maxBotsPerWorker < a.botCount then cfg.maxBotsPerWorker else a.botCount

/-- The configuration of the `i`-th bot. -/
def Config.bot (cfg : Config) (a : BotAssignment) (i : ℕ) : BotConfig where
  botId := cfg.workerId ++ "-" ++ toString i
  runId := a.runId
  endpointUrl := a.endpointUrl
  ordersPerSec := a.ordersPerSec
  limitRatio := a.limitRatio
  marketRatio := a.marketRatio
  cancelRatio := a.cancelRatio
  symbols := a.symbols
  durationMs := a.durationMs

/-! ## Threads -/

/-- Where the consumer thread is, and in handling which assignment number `n`. -/
inductive Consumer where
  /-- About to test `running_`. -/
  | idle
  | polling
  /-- `stop_fleet(a.run_id)` has taken `old` out and is joining its bots. -/
  | replacing (n : ℕ) (a : BotAssignment) (old : Option BotFleet)
  /-- The bots of `fleet` are running; it is not in `fleets_` yet. -/
  | spawning (n : ℕ) (a : BotAssignment) (fleet : BotFleet)
  /-- The fleet is in `fleets_`; its timer is not started yet. -/
  | arming (n : ℕ) (a : BotAssignment)
  | exited
  deriving DecidableEq

/-- Where a timer thread is. -/
inductive TimerPc where
  | waiting
  /-- `wait_for` has returned false: `stop_fleet` comes next, whatever `running_` says now. -/
  | expired
  /-- `stop_fleet` has taken `old` out and is joining its bots. -/
  | stopping (old : Option BotFleet)
  deriving DecidableEq

structure Timer where
  runId : String
  pc : TimerPc
  deriving DecidableEq

/-- Who took a fleet out of `fleets_`. -/
inductive Cause where
  /-- The timer started for an assignment. -/
  | timer (n : ℕ)
  | assignment (n : ℕ) (a : BotAssignment)
  /-- The fleet was not in `fleets_` yet: the handling of its assignment has failed. -/
  | unfinished (n : ℕ)
  /-- `Worker::wait`. -/
  | shutdown
  deriving DecidableEq

structure Stop where
  fleet : BotFleet
  cause : Cause
  deriving DecidableEq

structure State where
  running : Bool
  fleets : Finmap fun _ : String ↦ BotFleet
  consumer : Consumer
  /-- The timer threads, by the number of the assignment they were started for. -/
  timers : Finmap fun _ : ℕ ↦ Timer
  received : ℕ
  stops : Multiset Stop

/-- The worker after `run`. -/
def State.initial : State := ⟨true, ∅, .idle, ∅, 0, 0⟩

inductive Event where
  | test
  | empty
  | receive (a : BotAssignment)
  | joined
  | spawn
  | store
  | arm
  | fail
  | timeout (n : ℕ)
  | quit (n : ℕ)
  | expire (n : ℕ)
  | finish (n : ℕ)
  | halt
  | wait

/-- The critical section of `stop_fleet`. -/
def State.takeFleet (s : State) (cause : Cause) (runId : String) : State :=
  match s.fleets.lookup runId with
  | none => s
  | some fleet =>
    { s with fleets := s.fleets.erase runId, stops := ⟨fleet, cause⟩ ::ₘ s.stops }

def step (cfg : Config) (s : State) : Event → Option State
  | .test =>
    match s.consumer with
    | .idle => some { s with consumer := if s.running then .polling else .exited }
    | _ => none
  -- `poll` returns no message, or one that is not an assignment
  | .empty =>
    match s.consumer with
    | .polling => some { s with consumer := .idle }
    | _ => none
  -- `handle_assignment` is entered and calls `stop_fleet` first
  | .receive a =>
    match s.consumer with
    | .polling =>
      some { s.takeFleet (.assignment s.received a) a.runId with
        consumer := .replacing s.received a (s.fleets.lookup a.runId)
        received := s.received + 1 }
    | _ => none
  | .joined =>
    match s.consumer with
    | .replacing n a _ =>
      some { s with
        consumer := if a.phase = "stop" then .idle else .spawning n a ⟨a.runId, [], n⟩ }
    | _ => none
  | .spawn =>
    match s.consumer with
    | .spawning n a fleet =>
      if (fleet.bots.length : ℤ) < cfg.botCount a then
        let fleet := { fleet with bots := fleet.bots ++ [cfg.bot a fleet.bots.length] }
        some { s with consumer := .spawning n a fleet }
      else none
    | _ => none
  -- `fleets_[a.run_id] = std::move(fleet)`: a fleet already there would be destroyed
  | .store =>
    match s.consumer with
    | .spawning n a fleet =>
      if (fleet.bots.length : ℤ) < cfg.botCount a then none
      else
        let s' := s.takeFleet (.assignment n a) a.runId
        some { s' with
          fleets := s'.fleets.insert a.runId fleet
          consumer := if 0 < a.durationMs then .arming n a else .idle }
    | _ => none
  | .arm =>
    match s.consumer with
    | .arming n a =>
      some { s with timers := s.timers.insert n ⟨a.runId, .waiting⟩, consumer := .idle }
    | _ => none
  -- a sender, a bot or a thread cannot be made: `handle_assignment` throws, the consumer goes on
  | .fail =>
    match s.consumer with
    | .spawning n _ fleet =>
      some { s with consumer := .idle, stops := ⟨fleet, .unfinished n⟩ ::ₘ s.stops }
    | .arming _ _ => some { s with consumer := .idle }
    | _ => none
  | .timeout n =>
    match s.timers.lookup n with
    | some ⟨runId, .waiting⟩ =>
      if s.running then some { s with timers := s.timers.insert n ⟨runId, .expired⟩ } else none
    | _ => none
  | .quit n =>
    match s.timers.lookup n with
    | some ⟨_, .waiting⟩ =>
      if s.running then none else some { s with timers := s.timers.erase n }
    | _ => none
  | .expire n =>
    match s.timers.lookup n with
    | some ⟨runId, .expired⟩ =>
      some { s.takeFleet (.timer n) runId with
        timers := s.timers.insert n ⟨runId, .stopping (s.fleets.lookup runId)⟩ }
    | _ => none
  | .finish n =>
    match s.timers.lookup n with
    | some ⟨_, .stopping _⟩ => some { s with timers := s.timers.erase n }
    | _ => none
  | .halt => some { s with running := false }
  -- `Worker::stop` has joined every thread before `main` calls `wait`
  | .wait =>
    if s.consumer = .exited ∧ s.timers.keys = ∅ then
      some { s with
        fleets := ∅
        stops := s.stops + s.fleets.entries.map fun e ↦ ⟨e.2, .shutdown⟩ }
    else none

end BenchmarkPlatform.Worker
