import Mathlib.Algebra.Order.BigOperators.Group.List
import Mathlib.Algebra.Order.Ring.Nat
import Mathlib.Data.Rat.Floor
import BenchmarkPlatform.Lib.Spacing
import BenchmarkPlatform.Worker.Fleet

/-!
# The load that bots make

`Bot::run` starts a thread that sends one order in each round of a loop, and sleeps for what is left
of the interval. Times are nanoseconds of the steady clock, which all threads read; what it shows at
each step comes from outside, and never goes back. A sleep ends when its time is over or later, and
`send_order` takes as long as it takes. A bot may be stopped at any moment.

An order may be late, but none is early: the rounds of a bot begin at least `gapNs` apart, before
its deadline, and when it has been stopped it begins one more at most. Of a fleet this bounds the
load on the contestant, whatever the scheduler does.
-/

namespace BenchmarkPlatform.Worker

open Lib

/-! ## The loop of a bot -/

/-- Where the thread of a bot is. -/
inductive LoopPc where
  /-- About to read `start_time`. -/
  | starting
  /-- About to test `running_`. -/
  | testing
  /-- About to read `loop_start`. -/
  | reading
  /-- In `send_order`, of the round that began at `loopStart`. -/
  | sending (loopStart : ℕ)
  | sleeping (wakeTime : ℕ)
  | exited
  deriving DecidableEq, Repr

/-- A bot with its thread. `starts` records when its rounds began, and is not read. -/
structure BotThread where
  cfg : BotConfig
  running : Bool
  startTime : ℕ
  pc : LoopPc
  starts : List ℕ

/-- `Bot::run`. -/
def BotConfig.run (cfg : BotConfig) : BotThread := ⟨cfg, true, 0, .starting, []⟩

def BotConfig.ops (cfg : BotConfig) : ℚ :=
  if (cfg.ordersPerSec : ℚ) ≤ 0 then 10 else cfg.ordersPerSec

def BotConfig.intervalUs (cfg : BotConfig) : ℚ := 1000000 / cfg.ops

/-- The deadline of a bot, if it has one. -/
def BotThread.deadline (b : BotThread) : ℤ := b.startTime + b.cfg.durationMs * 1000000

inductive BotEvent where
  /-- The thread takes its next step when the clock shows `now`; `send_order` may throw. -/
  | step (now : ℕ) (throws : Bool)
  /-- `Bot::stop` clears `running_`. -/
  | stop

def BotThread.advance (clock : ℕ) (e : BotEvent) (b : BotThread) : Option (ℕ × BotThread) :=
  match e with
  | .stop => some (clock, { b with running := false })
  | .step now throws =>
    if now < clock then none else
    match b.pc with
    | .starting => some (now, { b with startTime := now, pc := .testing })
    | .testing => some (now, { b with pc := if b.running then .reading else .exited })
    | .reading =>
      if 0 < b.cfg.durationMs ∧ b.deadline ≤ now then
        some (now, { b with running := false, pc := .exited })
      else some (now, { b with pc := .sending now, starts := b.starts ++ [now] })
    | .sending loopStart =>
      if throws then some (now, { b with running := false, pc := .exited }) else
      let elapsedUs := (now - loopStart) / 1000
      if (elapsedUs : ℚ) < b.cfg.intervalUs then
        some (now,
          { b with pc := .sleeping (now + 1000 * ⌊b.cfg.intervalUs - elapsedUs⌋.toNat) })
      else some (now, { b with pc := .testing })
    | .sleeping wakeTime => if wakeTime ≤ now then some (now, { b with pc := .testing }) else none
    | .exited => none

/-- The steady clock, and the bots that have been started. -/
abbrev Bots := Pool ℕ BotThread

abbrev BotsEvent := PoolEvent BotConfig BotEvent

def Bots.step : Bots → BotsEvent → Option Bots := Pool.next BotConfig.run BotThread.advance

def Bots.initial (clock : ℕ) : Bots := ⟨clock, []⟩

/-! ## Rounds -/

/-- The rounds of a bot are at least so far apart. -/
def BotConfig.gapNs (cfg : BotConfig) : ℕ := 1000 * ⌊cfg.intervalUs⌋.toNat

/-- What holds of the rounds begun so far at each place of the loop: the next comes late enough. -/
def LoopPc.Ready (gap clock : ℕ) (starts : List ℕ) : LoopPc → Prop
  | .starting => starts = []
  | .testing | .reading => ∀ t ∈ starts, t + gap ≤ clock
  | .sending loopStart => loopStart ≤ clock ∧ ∀ t ∈ starts, t ≤ loopStart
  | .sleeping wakeTime => ∀ t ∈ starts, t + gap ≤ wakeTime
  | .exited => True

structure BotThread.Paced (clock : ℕ) (b : BotThread) : Prop where
  spaced : Spaced b.cfg.gapNs b.starts
  ready : b.pc.Ready b.cfg.gapNs clock b.starts
  begun : b.startTime ≤ clock
  after : ∀ t ∈ b.starts, b.startTime ≤ t
  before : 0 < b.cfg.durationMs → ∀ t ∈ b.starts, (t : ℤ) < b.deadline

/-- A sleep, and the time that has passed before it, make up the interval. -/
theorem gapNs_le_sleep {cfg : BotConfig} {elapsedUs : ℕ} (h : (elapsedUs : ℚ) < cfg.intervalUs) :
    cfg.gapNs ≤ 1000 * elapsedUs + 1000 * ⌊cfg.intervalUs - elapsedUs⌋.toNat := by
  have hle : (elapsedUs : ℤ) ≤ ⌊cfg.intervalUs⌋ := Int.le_floor.mpr (by exact_mod_cast h.le)
  rw [BotConfig.gapNs, Int.floor_sub_natCast]
  omega

/-- Where there is no sleep the interval has passed. -/
theorem gapNs_le_elapsed {cfg : BotConfig} {elapsedUs : ℕ} (h : ¬(elapsedUs : ℚ) < cfg.intervalUs) :
    cfg.gapNs ≤ 1000 * elapsedUs := by
  have hle : ⌊cfg.intervalUs⌋ ≤ (elapsedUs : ℤ) :=
    Int.floor_le_iff.mpr ((not_lt.mp h).trans_lt (by exact_mod_cast Nat.lt_succ_self _))
  rw [BotConfig.gapNs]
  omega

variable {clock clock' : ℕ} {b b' : BotThread} {e : BotEvent}

/-- What each step does to the clock and to the configuration. -/
theorem BotThread.advance_clock (h : b.advance clock e = some (clock', b')) :
    clock ≤ clock' ∧ b'.cfg = b.cfg := by
  rw [advance.eq_def] at h
  grind

theorem LoopPc.Ready.mono {gap : ℕ} {starts : List ℕ} {pc : LoopPc} (hle : clock ≤ clock')
    (h : pc.Ready gap clock starts) : pc.Ready gap clock' starts := by
  cases pc with
  | testing => exact fun t ht ↦ (h t ht).trans hle
  | reading => exact fun t ht ↦ (h t ht).trans hle
  | sending loopStart => exact ⟨h.1.trans hle, h.2⟩
  | _ => exact h

theorem BotThread.Paced.mono (hle : clock ≤ clock') (h : b.Paced clock) : b.Paced clock' :=
  ⟨h.spaced, h.ready.mono hle, h.begun.trans hle, h.after, h.before⟩

theorem BotThread.paced_run (cfg : BotConfig) : cfg.run.Paced clock := by
  refine ⟨List.Pairwise.nil, rfl, Nat.zero_le _, ?_, fun _ ↦ ?_⟩
  · exact fun t ht ↦ absurd ht List.not_mem_nil
  · exact fun t ht ↦ absurd ht List.not_mem_nil

/-- A step that begins no round and moves the thread to a place it is ready for. -/
theorem BotThread.Paced.move {pc : LoopPc} {running : Bool} (h : b.Paced clock)
    (hle : clock ≤ clock') (hpc : pc.Ready b.cfg.gapNs clock' b.starts) :
    BotThread.Paced clock' { b with running := running, pc := pc } :=
  ⟨h.spaced, hpc, h.begun.trans hle, h.after, h.before⟩

/-- **One step keeps the pace.** -/
theorem BotThread.Paced.advance (h : b.Paced clock)
    (hstep : b.advance clock e = some (clock', b')) : b'.Paced clock' := by
  rw [BotThread.advance.eq_def] at hstep
  split at hstep
  · obtain ⟨rfl, rfl⟩ := Prod.mk.inj (Option.some_inj.mp hstep)
    exact h.move le_rfl h.ready
  · rename_i now throws
    by_cases hclock : now < clock
    · rw [if_pos hclock] at hstep
      simp at hstep
    rw [if_neg hclock] at hstep
    have hle : clock ≤ now := not_lt.mp hclock
    have hready := h.ready
    split at hstep
    · rename_i hpc
      obtain ⟨rfl, rfl⟩ := Prod.mk.inj (Option.some_inj.mp hstep)
      rw [hpc] at hready
      have hnone : ∀ t, t ∉ b.starts := fun t ht ↦ by simp [show b.starts = [] from hready] at ht
      exact ⟨h.spaced, fun t ht ↦ absurd ht (hnone t), le_rfl, fun t ht ↦ absurd ht (hnone t),
        fun _ t ht ↦ absurd ht (hnone t)⟩
    · rename_i hpc
      obtain ⟨rfl, rfl⟩ := Prod.mk.inj (Option.some_inj.mp hstep)
      rw [hpc] at hready
      refine h.move hle ?_
      split_ifs
      · exact fun t ht ↦ (hready t ht).trans hle
      · trivial
    · rename_i hpc
      rw [hpc] at hready
      split_ifs at hstep with hdeadline
      · obtain ⟨rfl, rfl⟩ := Prod.mk.inj (Option.some_inj.mp hstep)
        exact h.move hle trivial
      · -- the round that begins now is later than all before it, and before the deadline
        obtain ⟨rfl, rfl⟩ := Prod.mk.inj (Option.some_inj.mp hstep)
        have hlast : ∀ t ∈ b.starts, t + b.cfg.gapNs ≤ now := fun t ht ↦ (hready t ht).trans hle
        refine ⟨h.spaced.concat hlast, ⟨le_rfl, ?_⟩, h.begun.trans hle, ?_, fun hduration ↦ ?_⟩
        · intro t ht
          rcases List.mem_append.mp ht with ht | ht
          · exact (Nat.le_add_right _ _).trans (hlast t ht)
          · exact (List.mem_singleton.mp ht).le
        · intro t ht
          rcases List.mem_append.mp ht with ht | ht
          · exact h.after t ht
          · exact h.begun.trans (hle.trans (List.mem_singleton.mp ht).ge)
        · intro t ht
          rcases List.mem_append.mp ht with ht | ht
          · exact h.before hduration t ht
          · rw [List.mem_singleton.mp ht]
            exact not_le.mp fun hlate ↦ hdeadline ⟨hduration, hlate⟩
    · rename_i loopStart hpc
      rw [hpc] at hready
      obtain ⟨hstart, hlast⟩ := hready
      have helapsed := Nat.mul_div_le (now - loopStart) 1000
      dsimp only at hstep
      split_ifs at hstep with hthrows hsleep
      · obtain ⟨rfl, rfl⟩ := Prod.mk.inj (Option.some_inj.mp hstep)
        exact h.move hle trivial
      · obtain ⟨rfl, rfl⟩ := Prod.mk.inj (Option.some_inj.mp hstep)
        have hgap := gapNs_le_sleep hsleep
        refine h.move hle fun t ht ↦ ?_
        have := hlast t ht
        omega
      · obtain ⟨rfl, rfl⟩ := Prod.mk.inj (Option.some_inj.mp hstep)
        have hgap := gapNs_le_elapsed hsleep
        refine h.move hle fun t ht ↦ ?_
        have := hlast t ht
        omega
    · rename_i wakeTime hpc
      rw [hpc] at hready
      split_ifs at hstep with hover
      obtain ⟨rfl, rfl⟩ := Prod.mk.inj (Option.some_inj.mp hstep)
      exact h.move hle fun t ht ↦ (hready t ht).trans hover
    · simp at hstep

/-! ## The load of a fleet -/

theorem Bots.step_paced {p q : Bots} {e : BotsEvent} (h : ∀ b ∈ p.threads, b.Paced p.shared)
    (hstep : p.step e = some q) : ∀ b ∈ q.threads, b.Paced q.shared := by
  cases e with
  | start cfg =>
    obtain rfl := Option.some_inj.mp hstep
    exact Pool.forall_start h (BotThread.paced_run cfg)
  | run i e =>
    obtain ⟨l, b, r, clock', b', hsplit, -, hadvance, rfl⟩ := Pool.next_run hstep
    rw [hsplit] at h
    have hle := (BotThread.advance_clock hadvance).1
    exact Pool.forall_run h (fun c hc ↦ hc.mono hle) ((h b (by simp)).advance hadvance)

/-- What holds of the configurations that bots are started with holds of those that run. -/
theorem Bots.step_cfg {Q : BotConfig → Prop} {p q : Bots} {e : BotsEvent}
    (h : ∀ b ∈ p.threads, Q b.cfg) (he : ∀ cfg, e.started = some cfg → Q cfg)
    (hstep : p.step e = some q) : ∀ b ∈ q.threads, Q b.cfg := by
  cases e with
  | start cfg =>
    obtain rfl := Option.some_inj.mp hstep
    exact Pool.forall_start h (he cfg rfl)
  | run i e =>
    obtain ⟨l, b, r, clock', b', hsplit, -, hadvance, rfl⟩ := Pool.next_run hstep
    rw [hsplit] at h
    have hcfg := (BotThread.advance_clock hadvance).2
    exact Pool.forall_run h (fun c hc ↦ hc) (hcfg ▸ h b (by simp))

/-- The rounds that the bots have begun in a window. -/
def Bots.load (p : Bots) (lo window : ℕ) : ℕ :=
  (p.threads.map fun b ↦ (b.starts.filter fun t ↦ lo ≤ t ∧ t < lo + window).length).sum

/-- All rounds that the bots have begun. -/
def Bots.total (p : Bots) : ℕ := (p.threads.map fun b ↦ b.starts.length).sum

/-- The bots that are started are those of one assignment. -/
def FleetOf (cfg : Config) (a : BotAssignment) (es : List BotsEvent) : Prop :=
  ∀ e ∈ es, ∀ bcfg, e.started = some bcfg → ∃ i, bcfg = cfg.bot a i

/-- The distance between two rounds of the bots of an assignment. -/
def BotAssignment.gapNs (a : BotAssignment) : ℕ :=
  1000 * ⌊1000000 / (if (a.ordersPerSec : ℚ) ≤ 0 then 10 else (a.ordersPerSec : ℚ))⌋.toNat

theorem BotAssignment.gapNs_mul {a : BotAssignment} (hpos : 0 < a.ordersPerSec)
    (hdvd : a.ordersPerSec ∣ 1000000) : a.gapNs * a.ordersPerSec.toNat = 1000000000 := by
  obtain ⟨k, hk⟩ := hdvd
  have hne : (a.ordersPerSec : ℚ) ≠ 0 := by exact_mod_cast hpos.ne'
  have hquotient : (1000000 / (a.ordersPerSec : ℚ)) = (k : ℤ) := by
    rw [div_eq_iff hne, mul_comm]
    exact_mod_cast hk
  have hrate : ¬(a.ordersPerSec : ℚ) ≤ 0 := not_le.mpr (by exact_mod_cast hpos)
  have hk0 : 0 ≤ k := by nlinarith
  rw [gapNs, if_neg hrate, hquotient, Int.floor_intCast]
  zify [hpos.le, hk0]
  rw [Int.toNat_of_nonneg hk0, Int.toNat_of_nonneg hpos.le]
  linarith

/-- **The load is bounded.** Let the bots of an assignment be started, one after the other, and let
everything interleave, with sends, sleeps and stops that take any time. In no window of the clock do
they begin more rounds than a bot has room for, times the number of bots; when the rate divides a
million, these are at most `orders_per_sec` for each bot and second. And if the assignment has a
duration, that bounds all rounds in the same way. -/
theorem load_bounded {cfg : Config} {a : BotAssignment} (hgap : 0 < a.gapNs) {clock : ℕ}
    {es : List BotsEvent} (hfleet : FleetOf cfg a es) {p : Bots}
    (h : exec Bots.step (.initial clock) es = some p) :
    (∀ lo window, p.load lo window ≤ p.threads.length * ((window + a.gapNs - 1) / a.gapNs)) ∧
    (0 < a.ordersPerSec → a.ordersPerSec ∣ 1000000 → ∀ lo seconds,
      p.load lo (seconds * 1000000000) ≤ p.threads.length * (seconds * a.ordersPerSec.toNat)) ∧
    (0 < a.durationMs →
      p.total ≤ p.threads.length * ((a.durationMs.toNat * 1000000 + a.gapNs - 1) / a.gapNs)) := by
  have hlast : ∀ b ∈ p.threads, b.Paced p.shared ∧
      b.cfg.gapNs = a.gapNs ∧ b.cfg.durationMs = a.durationMs := by
    refine Guarded.invariant
      (P := fun p : Bots ↦ ∀ b ∈ p.threads, b.Paced p.shared ∧
        b.cfg.gapNs = a.gapNs ∧ b.cfg.durationMs = a.durationMs)
      (fun p e q hp he hstep b hb ↦ ?_) (guarded_of_forall_mem _ hfleet _)
      (fun b hb ↦ absurd hb List.not_mem_nil) h
    refine ⟨Bots.step_paced (fun c hc ↦ (hp c hc).1) hstep b hb, ?_⟩
    refine Bots.step_cfg (Q := fun bcfg ↦ bcfg.gapNs = a.gapNs ∧ bcfg.durationMs = a.durationMs)
      (fun c hc ↦ (hp c hc).2) (fun bcfg hbcfg ↦ ?_) hstep b hb
    obtain ⟨i, rfl⟩ := he bcfg hbcfg
    exact ⟨rfl, rfl⟩
  have hwindow : ∀ lo window,
      p.load lo window ≤ p.threads.length * ((window + a.gapNs - 1) / a.gapNs) := by
    intro lo window
    have hbound := List.sum_le_card_nsmul
      (p.threads.map fun b ↦ (b.starts.filter fun t ↦ lo ≤ t ∧ t < lo + window).length)
      ((window + a.gapNs - 1) / a.gapNs) (fun n hn ↦ by
        obtain ⟨b, hb, rfl⟩ := List.mem_map.mp hn
        obtain ⟨hpaced, hsame, -⟩ := hlast b hb
        have hspaced : Spaced a.gapNs b.starts := hsame ▸ hpaced.spaced
        refine hspaced.filter.length_le lo window hgap fun t ht ↦ ?_
        exact of_decide_eq_true (List.mem_filter.mp ht).2)
    rwa [List.length_map, Nat.nsmul_eq_mul] at hbound
  refine ⟨hwindow, fun hpos hdvd lo seconds ↦ ?_, fun hduration ↦ ?_⟩
  · -- a second has room for as many rounds as the rate says
    refine (hwindow lo _).trans (Nat.mul_le_mul_left _ ?_)
    have hsecond := BotAssignment.gapNs_mul hpos hdvd
    refine Nat.le_of_lt_succ ((Nat.div_lt_iff_lt_mul hgap).mpr ?_)
    rw [← hsecond]
    calc seconds * (a.gapNs * a.ordersPerSec.toNat) + a.gapNs - 1
        < seconds * (a.gapNs * a.ordersPerSec.toNat) + a.gapNs := Nat.sub_lt (by omega) one_pos
      _ = (seconds * a.ordersPerSec.toNat + 1) * a.gapNs := by ring
  · have hbound := List.sum_le_card_nsmul (p.threads.map fun b ↦ b.starts.length)
      ((a.durationMs.toNat * 1000000 + a.gapNs - 1) / a.gapNs) (fun n hn ↦ by
        obtain ⟨b, hb, rfl⟩ := List.mem_map.mp hn
        obtain ⟨hpaced, hsame, hsameDuration⟩ := hlast b hb
        have hpos : 0 < b.cfg.durationMs := hsameDuration.symm ▸ hduration
        have hspaced : Spaced a.gapNs b.starts := hsame ▸ hpaced.spaced
        refine hspaced.length_le b.startTime _ hgap fun t ht ↦ ?_
        have hbefore := hpaced.before hpos t ht
        rw [BotThread.deadline, hsameDuration] at hbefore
        exact ⟨hpaced.after t ht, by omega⟩)
    rwa [List.length_map, Nat.nsmul_eq_mul] at hbound

/-- Two bots for half a minute, at the rate of five orders per second. -/
def steadyPhase : BotAssignment :=
  ⟨"run-1", "http://localhost:31000", 2, "steady", 30000, 5, 3/5, 3/10, 1/10, ["AAPL", "GOOG"]⟩

/-- The first bot sends two orders, of which one takes 3 ms, and the other bot one. -/
def threeRounds : List BotsEvent :=
  [.start (Config.bot ⟨"worker-1", 100⟩ steadyPhase 0),
    .start (Config.bot ⟨"worker-1", 100⟩ steadyPhase 1),
    .run 0 (.step 0 false), .run 0 (.step 0 false), .run 1 (.step 400 false),
    .run 0 (.step 1000 false), .run 1 (.step 1500 false), .run 1 (.step 2000 false),
    .run 0 (.step 3001000 false), .run 0 (.step 200001000 false), .run 0 (.step 200001000 false),
    .run 0 (.step 200002000 false)]

theorem load_bounded_threeRounds : ∃ p : Bots, exec Bots.step (.initial 0) threeRounds = some p ∧
    p.load 0 (1 * 1000000000) = 3 ∧
    p.load 0 (1 * 1000000000) ≤ p.threads.length * (1 * 5) := by
  have hrun : ((exec Bots.step (.initial 0) threeRounds).any fun p ↦
      decide (p.load 0 (1 * 1000000000) = 3)) = true := by decide +kernel
  obtain ⟨p, hp, hload⟩ := (Option.any_eq_true _ _).mp hrun
  have hgap : 0 < steadyPhase.gapNs := by decide +kernel
  have hfleet : FleetOf ⟨"worker-1", 100⟩ steadyPhase threeRounds := by
    intro e he bcfg hbcfg
    simp only [threeRounds, List.mem_cons, List.not_mem_nil, or_false] at he
    rcases he with rfl | rfl | rfl | rfl | rfl | rfl | rfl | rfl | rfl | rfl | rfl | rfl
    · exact ⟨0, (Option.some_inj.mp hbcfg).symm⟩
    · exact ⟨1, (Option.some_inj.mp hbcfg).symm⟩
    all_goals exact absurd hbcfg (by simp [PoolEvent.started])
  have hbounds := load_bounded hgap hfleet hp
  exact ⟨p, hp, of_decide_eq_true hload, hbounds.2.1 (by decide) (by decide) 0 1⟩

/-! ## A bot that has been stopped -/

/-- The steps that the thread of a stopped bot still takes, and the rounds it still begins. -/
def LoopPc.stepsLeft : LoopPc → ℕ
  | .reading => 4
  | .sending _ => 3
  | .sleeping _ => 2
  | .starting => 2
  | .testing => 1
  | .exited => 0

def LoopPc.roundsLeft : LoopPc → ℕ
  | .reading => 1
  | _ => 0

theorem BotThread.advance_stopped {clock clock' now : ℕ} {throws : Bool} {b b' : BotThread}
    (hstopped : b.running = false) (h : b.advance clock (.step now throws) = some (clock', b')) :
    b'.running = false ∧ b'.pc.stepsLeft + 1 ≤ b.pc.stepsLeft ∧
      b'.starts.length + b'.pc.roundsLeft ≤ b.starts.length + b.pc.roundsLeft := by
  rw [advance.eq_def] at h
  grind [LoopPc.stepsLeft, LoopPc.roundsLeft]

/-- The steps that the thread at place `i` takes. -/
def stepsOf (i : ℕ) (es : List BotsEvent) : ℕ :=
  es.countP fun
    | .run j (.step _ _) => i = j
    | _ => false

theorem stepsOf_cons (i : ℕ) (e : BotsEvent) (es : List BotsEvent) :
    stepsOf i (e :: es) = stepsOf i [e] + stepsOf i es := by
  rw [← List.singleton_append, stepsOf, List.countP_append]
  rfl

theorem Bots.step_stopped {p q : Bots} {e : BotsEvent} {i : ℕ} {b : BotThread}
    (hb : p.threads[i]? = some b) (hstopped : b.running = false) (h : p.step e = some q) :
    ∃ b', q.threads[i]? = some b' ∧ b'.running = false ∧
      stepsOf i [e] + b'.pc.stepsLeft ≤ b.pc.stepsLeft ∧
      b'.starts.length + b'.pc.roundsLeft ≤ b.starts.length + b.pc.roundsLeft := by
  cases e with
  | start cfg =>
    obtain rfl := Option.some_inj.mp h
    refine ⟨b, ?_, hstopped, Nat.le_of_eq (Nat.zero_add _), le_rfl⟩
    rw [List.getElem?_append_left (List.getElem?_eq_some_iff.mp hb).1]
    exact hb
  | run j e =>
    rw [step, Pool.next] at h
    split at h
    · simp at h
    rename_i c hc
    obtain ⟨⟨clock', c'⟩, hadvance, rfl⟩ := Option.map_eq_some_iff.mp h
    by_cases hij : i = j
    · -- the bot itself takes the step
      subst hij
      obtain rfl := Option.some_inj.mp (hb.symm.trans hc)
      refine ⟨c', Pool.getElem?_set hb, ?_⟩
      cases e with
      | stop =>
        obtain ⟨rfl, rfl⟩ := Prod.mk.inj (Option.some_inj.mp hadvance)
        exact ⟨rfl, Nat.le_of_eq (Nat.zero_add _), le_rfl⟩
      | step now throws =>
        obtain ⟨hrunning, hsteps, hrounds⟩ := BotThread.advance_stopped hstopped hadvance
        refine ⟨hrunning, ?_, hrounds⟩
        have hone : stepsOf i [.run i (.step now throws)] = 1 := by simp [stepsOf]
        omega
    · refine ⟨b, ?_, hstopped, ?_, le_rfl⟩
      · rw [List.getElem?_set_ne (Ne.symm hij)]
        exact hb
      · have hnone : stepsOf i [.run j e] = 0 := by
          cases e <;> simp [stepsOf, hij]
        omega

/-- A thread that has not exited can go on, later if not now. -/
theorem BotThread.advance_enabled (b : BotThread) (clock : ℕ) (h : b.pc ≠ .exited) :
    ∃ now, (b.advance clock (.step now false)).isSome = true := by
  cases hpc : b.pc with
  | sleeping wakeTime =>
    refine ⟨clock + wakeTime, ?_⟩
    simp [advance, hpc]
  | exited => exact absurd hpc h
  | _ =>
    refine ⟨clock, ?_⟩
    simp only [advance, hpc, lt_self_iff_false, if_false]
    grind

/-- **A stopped bot comes to rest.** From the moment `Bot::stop` has cleared `running_`, whatever
the bots do and however long it takes, the thread of the bot takes four more steps at most, of which
one at most begins a round, and until it has exited it can take the next, so that a join returns. -/
theorem stopped_bot_rests {p q : Bots} {i : ℕ} {b : BotThread} (hb : p.threads[i]? = some b)
    (hstopped : b.running = false) {es : List BotsEvent} (h : exec Bots.step p es = some q) :
    stepsOf i es ≤ 4 ∧ ∃ b', q.threads[i]? = some b' ∧
      b'.starts.length ≤ b.starts.length + 1 ∧
      (b'.pc ≠ .exited → ∃ now, (b'.advance q.shared (.step now false)).isSome = true) := by
  have hrun : ∃ b', q.threads[i]? = some b' ∧ stepsOf i es + b'.pc.stepsLeft ≤ b.pc.stepsLeft ∧
      b'.starts.length + b'.pc.roundsLeft ≤ b.starts.length + b.pc.roundsLeft := by
    induction es generalizing p b with
    | nil =>
      obtain rfl := Option.some_inj.mp h
      exact ⟨b, hb, Nat.le_of_eq (Nat.zero_add _), le_rfl⟩
    | cons e es ih =>
      obtain ⟨t, ht, hrest⟩ := exec_cons_eq_some.mp h
      obtain ⟨c, hc, hcstopped, hsteps, hrounds⟩ := Bots.step_stopped hb hstopped ht
      obtain ⟨b', hb', hsteps', hrounds'⟩ := ih hc hcstopped hrest
      refine ⟨b', hb', ?_, hrounds'.trans hrounds⟩
      rw [stepsOf_cons]
      omega
  obtain ⟨b', hb', hsteps, hrounds⟩ := hrun
  have hfour : b.pc.stepsLeft ≤ 4 := by cases b.pc <;> simp [LoopPc.stepsLeft]
  have hone : b.pc.roundsLeft ≤ 1 := by cases b.pc <;> simp [LoopPc.roundsLeft]
  exact ⟨by omega, b', hb', by omega, fun hpc ↦ b'.advance_enabled q.shared hpc⟩

/-- The first bot is stopped while it sends, and waits for the rest of the interval. -/
theorem stopped_bot_rests_sending : ∃ p q : Bots, ∃ b, p.threads[0]? = some b ∧
    b.running = false ∧ b.pc = .sending 200002000 ∧
    ∃ b', q.threads[0]? = some b' ∧ b'.pc = .exited ∧ b'.starts.length ≤ b.starts.length + 1 := by
  have hrun : ((exec Bots.step (.initial 0) (threeRounds ++ [.run 0 .stop])).any fun p ↦
      (exec Bots.step p [.run 0 (.step 300000000 false), .run 0 (.step 400002000 false),
        .run 0 (.step 400003000 false)]).any fun q ↦
      p.threads[0]?.any fun b ↦ q.threads[0]?.any fun b' ↦
        decide (b.running = false ∧ b.pc = .sending 200002000 ∧ b'.pc = .exited)) = true := by
    decide +kernel
  obtain ⟨p, -, hp⟩ := (Option.any_eq_true _ _).mp hrun
  obtain ⟨q, hq, hp⟩ := (Option.any_eq_true _ _).mp hp
  obtain ⟨b, hb, hp⟩ := (Option.any_eq_true _ _).mp hp
  obtain ⟨c, hc, hp⟩ := (Option.any_eq_true _ _).mp hp
  obtain ⟨hstopped, hpc, hexited⟩ := of_decide_eq_true hp
  obtain ⟨-, b', hb', hstarts, -⟩ := stopped_bot_rests hb hstopped hq
  obtain rfl := Option.some_inj.mp (hc.symm.trans hb')
  exact ⟨p, q, b, hb, hstopped, hpc, c, hc, hexited, hstarts⟩

end BenchmarkPlatform.Worker
