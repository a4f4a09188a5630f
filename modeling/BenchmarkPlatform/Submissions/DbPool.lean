import BenchmarkPlatform.Lib.Transition

/-!
# The pool of database connections

`DbPool` of `submission-svc`. `acquire` takes a connection out of the pool, reconnects if it finds
it closed, and wraps it in a handle that gives it back when it is destroyed. A handle can be moved
from.

Each call holds the mutex from its first access to the pool to its end, so it is one step; a call of
`acquire` that waits for a connection is not enabled. The connections are opaque, and whether one is
open is read from outside.

The first reconnect stands in a `try` block, the second in its handler. If both throw, the
connection is neither in the pool nor in a handle.
-/

namespace BenchmarkPlatform.DbPool

open Lib

/-- A handle. A moved-from handle has neither a pool nor a connection. -/
structure Connection (γ : Type) where
  pool : Bool
  conn : Option γ
  owned : conn.isSome → pool = true

/-- What a call of `acquire` reads from outside: whether its connection is open, and what the two
attempts to make a new one return or throw. -/
structure Env (γ : Type) where
  isOpen : Bool
  first : Except String γ
  second : Except String γ

structure State (γ : Type) where
  /-- The vector `conns_`; its back is the end of the list. -/
  conns : List γ
  /-- The handles in the order of their construction; `none` is one that has been destroyed. -/
  handles : List (Option (Connection γ))

inductive Event (γ : Type) where
  | acquire (env : Env γ)
  /-- A handle is constructed from handle `i`. -/
  | move (i : ℕ)
  /-- Handle `i` is destroyed. -/
  | destroy (i : ℕ)

variable {γ : Type}

/-- The pool as its constructor leaves it. -/
def State.initial (conns : List γ) : State γ := ⟨conns, []⟩

def Connection.new (conn : γ) : Connection γ := ⟨true, some conn, fun _ ↦ rfl⟩

def Connection.movedFrom : Connection γ := ⟨false, none, by simp⟩

/-- The connection `acquire` goes on with once it has taken `conn` out of the pool, or what it
throws. -/
def Env.reconnect (env : Env γ) (conn : γ) : Except String γ :=
  if env.isOpen then .ok conn
  else
    match env.first with
    | .ok conn => .ok conn
    | .error _ => env.second

/-- The result of `acquire` and the pool it leaves; `none` while it waits. -/
def acquire (env : Env γ) (conns : List γ) : Option (Except String (Connection γ) × List γ) :=
  match conns.getLast? with
  | none => none
  | some conn => some ((env.reconnect conn).map .new, conns.dropLast)

/-- What the destructor of a handle gives back. -/
def Connection.released (h : Connection γ) : List γ := if h.pool then h.conn.toList else []

def step (s : State γ) : Event γ → Option (State γ)
  | .acquire env =>
    match acquire env s.conns with
    | none => none
    | some (.ok h, conns) => some ⟨conns, s.handles ++ [some h]⟩
    | some (.error _, conns) => some ⟨conns, s.handles⟩
  | .move i =>
    match s.handles[i]? with
    | some (some h) => some ⟨s.conns, s.handles.set i (some .movedFrom) ++ [some h]⟩
    | _ => none
  | .destroy i =>
    match s.handles[i]? with
    | some (some h) => some ⟨s.conns ++ h.released, s.handles.set i none⟩
    | _ => none

/-! ## Slots -/

def Holds (h : Option (Connection γ)) : Bool := h.any fun h ↦ h.conn.isSome

/-- The number of live handles with a connection. -/
def State.held (s : State γ) : ℕ := s.handles.countP Holds

def State.slots (s : State γ) : ℕ := s.conns.length + s.held

/-- `acquire` finds its connection closed, and both reconnects throw. -/
def Event.Loses : Event γ → Bool
  | .acquire env => !env.isOpen && !env.first.isOk && !env.second.isOk
  | _ => false

theorem Connection.length_released (h : Connection γ) :
    h.released.length = if Holds (some h) then 1 else 0 := by
  cases hc : h.conn with
  | none => simp [Connection.released, Holds, hc]
  | some conn =>
    have hpool : h.pool = true := h.owned (by rw [hc]; rfl)
    simp [Connection.released, Holds, hc, hpool]

theorem held_set {hs : List (Option (Connection γ))} {i : ℕ} {h : Option (Connection γ)}
    (hi : hs[i]? = some h) (h' : Option (Connection γ)) :
    (hs.set i h').countP Holds + (if Holds h then 1 else 0) =
      hs.countP Holds + if Holds h' then 1 else 0 := by
  obtain ⟨hlt, rfl⟩ := List.getElem?_eq_some_iff.mp hi
  have hpos : Holds hs[i] = true → 0 < hs.countP Holds := fun hh ↦
    List.countP_pos_iff.mpr ⟨_, List.getElem_mem hlt, hh⟩
  rw [List.countP_set hlt]
  split_ifs with h₁ h₂ <;> grind

/-- `acquire` throws exactly when it loses its connection. -/
theorem loses_eq (env : Env γ) (conn : γ) :
    (Event.acquire env).Loses = !(env.reconnect conn).isOk := by
  rw [Env.reconnect, Event.Loses]
  cases env.isOpen with
  | true => rfl
  | false =>
    cases env.first with
    | ok conn' => rfl
    | error what => cases env.second <;> rfl

/-- **What `acquire` does.** It takes a connection from the pool, and hands one out unless it
throws. -/
theorem step_acquire {env : Env γ} {s s' : State γ} (h : step s (.acquire env) = some s') :
    s'.conns.length + 1 = s.conns.length ∧
      s'.held = s.held + if (Event.acquire env).Loses then 0 else 1 := by
  rw [step, acquire] at h
  cases hlast : s.conns.getLast? with
  | none => rw [hlast] at h; exact absurd h (by simp)
  | some conn =>
    have hlength : s.conns.dropLast.length + 1 = s.conns.length := by
      have hne : s.conns ≠ [] := by
        rintro hnil
        rw [hnil] at hlast
        exact absurd hlast (by simp)
      rw [List.length_dropLast]
      have := List.length_pos_iff.mpr hne
      omega
    have hloses := loses_eq env conn
    rw [hlast] at h
    dsimp only at h
    cases hr : env.reconnect conn with
    | ok conn' =>
      rw [hr] at h hloses
      rw [← Option.some_inj.mp h]
      refine ⟨hlength, ?_⟩
      rw [hloses, State.held, List.countP_append]
      rfl
    | error what =>
      rw [hr] at h hloses
      rw [← Option.some_inj.mp h]
      refine ⟨hlength, ?_⟩
      rw [hloses]
      rfl

/-- **What a step does to the slots**: it keeps them, unless it is an `acquire` whose reconnects
both throw, which loses one. -/
theorem step_slots {s s' : State γ} {e : Event γ} (h : step s e = some s') :
    s'.slots + (if e.Loses then 1 else 0) = s.slots := by
  cases e with
  | acquire env =>
    obtain ⟨hconns, hheld⟩ := step_acquire h
    rw [State.slots, State.slots, hheld]
    split_ifs <;> omega
  | move i =>
    rw [step] at h
    split at h
    · rename_i c hc
      -- the connection leaves the one handle and is held by the other
      have hset := held_set hc (some .movedFrom)
      have hnew : (([some c] : List (Option (Connection γ))).countP Holds)
          = if Holds (some c) then 1 else 0 := List.countP_singleton
      rw [← Option.some_inj.mp h]
      simp only [State.slots, State.held, Event.Loses, List.countP_append, hnew,
        Bool.false_eq_true, if_false]
      have hmoved : Holds (some (Connection.movedFrom : Connection γ)) = false := rfl
      rw [hmoved] at hset
      simp only [Bool.false_eq_true, if_false] at hset
      omega
    · exact absurd h (by simp)
  | destroy i =>
    rw [step] at h
    split at h
    · rename_i c hc
      -- the connection leaves the handle and goes back to the pool
      have hset := held_set hc none
      have hreleased := c.length_released
      rw [← Option.some_inj.mp h]
      simp only [State.slots, State.held, Event.Loses, List.length_append, hreleased,
        Bool.false_eq_true, if_false]
      have hnone : Holds (none : Option (Connection γ)) = false := rfl
      rw [hnone] at hset
      simp only [Bool.false_eq_true, if_false] at hset
      omega
    · exact absurd h (by simp)

/-! ## Runs -/

/-- **What a run does to the slots.** -/
theorem run_slots {s s' : State γ} {es : List (Event γ)} (h : exec step s es = some s') :
    s'.slots + es.countP Event.Loses = s.slots := by
  induction es generalizing s with
  | nil =>
    rw [exec_nil, Option.some_inj] at h
    rw [h]
    rfl
  | cons e es ih =>
    obtain ⟨t, hstep, hexec⟩ := exec_cons_eq_some.mp h
    rw [List.countP_cons, ← Nat.add_assoc, ih hexec, step_slots hstep]

/-- With all handles gone and a slot left, `acquire` does not wait. -/
theorem acquire_enabled {s : State γ} (hheld : s.held = 0) (hslots : 0 < s.slots) (env : Env γ) :
    ∃ s', step s (.acquire env) = some s' := by
  have hne : s.conns ≠ [] := by
    rw [← List.length_pos_iff]
    rw [State.slots] at hslots
    omega
  rw [step, acquire, List.getLast?_eq_some_getLast hne]
  dsimp only
  cases env.reconnect (s.conns.getLast hne) with
  | ok conn => exact ⟨_, rfl⟩
  | error what => exact ⟨_, rfl⟩

/-- **When the pool keeps its slots.** The pool and the live handles have as many connections as the
pool was made with if and only if no `acquire` of the run has found its connection closed and thrown
from both reconnects. As long as they have, `acquire` succeeds again once the handles are gone and
the database is back; an `acquire` that throws takes its slot along. -/
theorem slots_kept_iff {conns : List γ} {es : List (Event γ)} {s : State γ}
    (hexec : exec step (.initial conns) es = some s) :
    (s.slots = conns.length ↔ ∀ e ∈ es, e.Loses = false) ∧
    (s.slots = conns.length → conns ≠ [] → s.held = 0 → ∀ env : Env γ,
      (env.isOpen = true ∨ env.first.isOk = true ∨ env.second.isOk = true) →
      ∃ s', step s (.acquire env) = some s' ∧ s'.held = 1) ∧
    ∀ env s', step s (.acquire env) = some s' → (Event.acquire env).Loses = true →
      s'.slots + 1 = s.slots := by
  refine ⟨?_, fun hslots hne hheld env hback ↦ ?_, fun env s' hstep hloses ↦ ?_⟩
  -- each losing acquire takes one slot, and none comes back
  · have hrun := run_slots hexec
    have hinitial : (State.initial conns).slots = conns.length := by
      simp [State.initial, State.slots, State.held]
    rw [hinitial] at hrun
    have hnone : es.countP Event.Loses = 0 ↔ ∀ e ∈ es, e.Loses = false := by
      simp [List.countP_eq_zero]
    rw [← hnone]
    omega
  · obtain ⟨s', hstep⟩ := acquire_enabled hheld
      (by rw [hslots]; exact List.length_pos_iff.mpr hne) env
    refine ⟨s', hstep, ?_⟩
    have hloses : (Event.acquire env).Loses = false := by
      rw [Event.Loses]
      rcases hback with h | h | h <;> simp [h]
    rw [(step_acquire hstep).2, hheld, hloses]
    rfl
  · have h := step_slots hstep
    rwa [if_pos hloses] at h

/-! ## An outage -/

/-- The database is down: the connection is closed and cannot be made again. -/
def outage : Env ℕ := ⟨false, .error "could not connect", .error "could not connect"⟩

/-- The database is back. -/
def recovered : Env ℕ := ⟨false, .ok 1, .ok 1⟩

/-- A connection is made again; its handle is moved, and both handles are destroyed. -/
theorem slots_kept_iff_recovered : ∃ s, exec step (.initial [0, 2])
    [.acquire recovered, .move 0, .destroy 0, .destroy 1] = some s ∧ s.slots = 2 := by
  have hexec : exec step (.initial [0, 2])
      [.acquire recovered, .move 0, .destroy 0, .destroy 1] = some ⟨[0, 1], [none, none]⟩ := rfl
  refine ⟨_, hexec, (slots_kept_iff hexec).1.mpr ?_⟩
  decide

/-- A pool of one connection is empty after one `acquire`, and every later one waits. -/
theorem outage_loses_slot : ∃ s, exec step (.initial [0]) [.acquire outage] = some s ∧
    s.slots ≠ 1 ∧ ∀ env, step s (.acquire env) = none :=
  ⟨⟨[], []⟩, rfl, by decide, fun _ ↦ rfl⟩

end BenchmarkPlatform.DbPool
