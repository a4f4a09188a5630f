import Mathlib.Algebra.GroupWithZero.Nat
import BenchmarkPlatform.Leaderboard.Board
import BenchmarkPlatform.Lib.Transition

/-!
# The leaderboard stream

A change of the leaderboard is announced on `leaderboard_updates`; the subscriber sets `has_update`;
the broadcaster, which looks at the flag twice a second, takes it down, fetches the leaderboard and
sends it to all clients. A new client is sent a snapshot by the handler of its connection, which
fetches for itself.

The flag is down before the fetch has succeeded, so a fetch that fails loses the update; and the
snapshot of a handler can be sent after a broadcast that is newer. Apart from these two, every
client converges to the current leaderboard. What carries this is `State.Served`: each client has
the leaderboard, or is about to get a snapshot, or an update is on its way. An update on its way
reaches all clients that are listed, because what the broadcaster holds is current or another update
is coming (`State.Inv.fresh`).
-/

namespace BenchmarkPlatform.Leaderboard

open Lib

variable {json : JsonNumbers}

/-! ## Fetching and sending -/

structure LeaderboardUpdate where
  type : String
  entries : List LeaderboardEntry
  updatedAt : String

/-- What the broadcaster and the handlers have in common. -/
inductive Task
  | fetch (f : Fetch)
  | send (update : LeaderboardUpdate)

/-- How a step goes: at a time of the clock, or it throws. -/
inductive Outcome
  | ok (now : String)
  | throws

namespace Task

def start : Task := .fetch .zrevrange

/-- After the next command of the fetch. -/
def next (json : JsonNumbers) (store : Store) (now : String) (f : Fetch) : Task :=
  match f.advance json store with
  | .inl f' => .fetch f'
  | .inr entries => .send ⟨"full", entries, now⟩

/-- What has been read is still so. -/
def Fresh (json : JsonNumbers) (store : Store) : Task → Prop
  | .fetch f => f.Fresh store
  | .send update => update.entries = fetchLeaderboard json store

theorem fresh_next {store : Store} {f : Fetch} (h : f.Fresh store) (now : String) :
    (next json store now f).Fresh json store := by
  have hadvance := h.advance json
  rw [next]
  rcases hnext : f.advance json store with f' | entries
  · rw [hnext] at hadvance
    exact hadvance
  · rw [hnext] at hadvance
    exact hadvance

end Task

/-! ## The clients -/

/-- `handleNewConnection`. -/
inductive Handler
  | insert
  | task (t : Task)
  | done

structure Client where
  connected : Bool
  /-- It is in the set `clients`. -/
  listed : Bool
  /-- The last leaderboard message it has received. -/
  last : Option LeaderboardUpdate
  handler : Handler

namespace Client

def new : Client := ⟨true, false, none, .insert⟩

/-- `send` does nothing once the connection is gone. -/
def receive (c : Client) (update : LeaderboardUpdate) : Client :=
  if c.connected then { c with last := some update } else c

/-- The loop of `broadcast_update` at one client. A client that is gone is erased. -/
def visit (update : LeaderboardUpdate) (c : Client) : Client :=
  if c.listed then if c.connected then c.receive update else { c with listed := false } else c

/-- The next step of `handleNewConnection`. What is thrown from the fetch on is caught. -/
def handle (json : JsonNumbers) (store : Store) (o : Outcome) (c : Client) : Option Client :=
  match c.handler, o with
  | .insert, _ => some { c with listed := true, handler := .task .start }
  | .task _, .throws => some { c with handler := .done }
  | .task (.fetch f), .ok now => some { c with handler := .task (Task.next json store now f) }
  | .task (.send update), .ok _ => some { c.receive update with handler := .done }
  | .done, _ => none

/-- Its handler is under way. -/
def Connecting (c : Client) : Prop :=
  match c.handler with
  | .done => False
  | _ => True

instance (c : Client) : Decidable c.Connecting :=
  match hc : c.handler with
  | .done => isFalse (by simp [Connecting, hc])
  | .insert => isTrue (by simp [Connecting, hc])
  | .task _ => isTrue (by simp [Connecting, hc])

/-- The last message it has received is the current leaderboard. -/
def UpToDate (json : JsonNumbers) (store : Store) (c : Client) : Prop :=
  c.last.map LeaderboardUpdate.entries = some (fetchLeaderboard json store)

instance (json : JsonNumbers) (store : Store) (c : Client) : Decidable (c.UpToDate json store) :=
  inferInstanceAs (Decidable (_ = _))

/-- If the step ends the handler, it leaves the client with the current leaderboard. -/
def EndsWell (json : JsonNumbers) (store : Store) (c : Client) (o : Outcome) : Prop :=
  match c.handler, o with
  | .task (.send update), .ok _ => update.entries = fetchLeaderboard json store
  | .task _, .throws => c.UpToDate json store
  | _, _ => True

end Client

/-- The lock is held from the first client to the last. -/
def broadcastUpdate (clients : List Client) (update : LeaderboardUpdate) : List Client :=
  clients.map (Client.visit update)

/-! ## The service -/

structure State where
  store : Store
  /-- The writers that have changed something and not yet published, each with what it will still
  change. -/
  writers : List (List Command)
  /-- The messages on `leaderboard_updates` that have not reached the subscriber. -/
  undelivered : ℕ
  hasUpdate : Bool
  /-- The broadcaster, unless it is asleep. -/
  broadcaster : Option Task
  clients : List Client

inductive Event
  | change (cmd : Command) (rest : List Command)
  | write (i : ℕ)
  | deliver
  | broadcaster (o : Outcome)
  | connect
  | handler (i : ℕ) (o : Outcome)
  | disconnect (i : ℕ)
  | closed (i : ℕ)

/-- What `FinalizeRun` writes begins with ZADD, and PUBLISH is next after HMSET. -/
def Event.finalizeRun (team : String) (score : ℚ) (fields : List (String × String)) : Event :=
  .change (.zadd team score) [.hmset team fields]

/-- What the deletion of a team writes. -/
def Event.deleteTeam (team : String) : Event := .change (.zrem team) [.del team]

/-- It is a step of a writer or of the subscriber. -/
def Event.Announces : Event → Prop
  | .change _ _ | .write _ | .deliver => True
  | _ => False

namespace State

def initial (store : Store) : State := ⟨store, [], 0, false, none, []⟩

/-- The next step of the broadcaster. What is thrown from the fetch on is caught. -/
def broadcast (json : JsonNumbers) (s : State) (o : Outcome) : State :=
  match s.broadcaster, o with
  | none, _ =>
    if s.hasUpdate then { s with hasUpdate := false, broadcaster := some .start } else s
  | some _, .throws => { s with broadcaster := none }
  | some (.fetch f), .ok now => { s with broadcaster := some (Task.next json s.store now f) }
  | some (.send update), .ok _ =>
    { s with broadcaster := none, clients := broadcastUpdate s.clients update }

def onClient (s : State) (i : ℕ) (f : Client → Option Client) : Option State :=
  ((s.clients[i]?).bind f).map fun c ↦ { s with clients := s.clients.set i c }

def step (json : JsonNumbers) (s : State) : Event → Option State
  | .change cmd rest => some { s with store := s.store.run cmd, writers := s.writers ++ [rest] }
  | .write i =>
    match s.writers[i]? with
    | none => none
    | some [] => some { s with writers := s.writers.eraseIdx i, undelivered := s.undelivered + 1 }
    | some (cmd :: rest) =>
      some { s with store := s.store.run cmd, writers := s.writers.set i rest }
  | .deliver =>
    match s.undelivered with
    | 0 => none
    | n + 1 => some { s with undelivered := n, hasUpdate := true }
  | .broadcaster o => some (s.broadcast json o)
  | .connect => some { s with clients := s.clients ++ [.new] }
  | .handler i o => s.onClient i (Client.handle json s.store o)
  | .disconnect i => s.onClient i fun c ↦ some { c with connected := false }
  | .closed i => s.onClient i fun c ↦ if c.connected then none else some { c with listed := false }

/-! ## The law -/

/-- No publish is undelivered, the flag is down, and no broadcaster or handler is under way. -/
structure Quiescent (s : State) : Prop where
  published : s.writers = []
  delivered : s.undelivered = 0
  flag : s.hasUpdate = false
  broadcaster : s.broadcaster = none
  handlers : ∀ c ∈ s.clients, ¬c.Connecting

def Converged (json : JsonNumbers) (s : State) : Prop :=
  ∀ c ∈ s.clients, c.connected = true → c.UpToDate json s.store

/-- The flag is up, or will be. -/
def Due (s : State) : Prop := s.writers ≠ [] ∨ 0 < s.undelivered ∨ s.hasUpdate = true

/-- An update is on its way to the clients. -/
def Pending (s : State) : Prop := s.Due ∨ s.broadcaster ≠ none

/-- The broadcaster throws only when the flag will be up again, or when no client needs the update.
A handler ends without having sent the current leaderboard only when an update is on its way, or
when the client has it already or is gone. -/
def Harmless (json : JsonNumbers) (s : State) : Event → Prop
  | .broadcaster .throws => s.broadcaster ≠ none → s.Due ∨
      ∀ c ∈ s.clients, c.connected = true → c.Connecting ∨ c.UpToDate json s.store
  | .handler i o => ∀ c, s.clients[i]? = some c → c.connected = true →
      s.Pending ∨ c.EndsWell json s.store o
  | _ => True

/-- From here on the clients converge, as long as all failures and late snapshots are harmless. -/
def Converges (json : JsonNumbers) (s : State) : Prop :=
  ∀ es t, Guarded (step json) (Harmless json) s es → exec (step json) s es = some t →
    t.Quiescent → t.Converged json

/-! ## The invariants -/

/-- The client has the leaderboard, or a snapshot or an update is on its way to it. -/
def Serves (json : JsonNumbers) (s : State) (c : Client) : Prop :=
  c.connected = true → s.Pending ∨ c.Connecting ∨ c.UpToDate json s.store

def Served (json : JsonNumbers) (s : State) : Prop := ∀ c ∈ s.clients, s.Serves json c

end State

/-- A client is listed from the first step of its handler until it is gone. -/
def Client.Listed (c : Client) : Prop :=
  c.connected = true → c.handler ≠ .insert → c.listed = true

structure State.Inv (json : JsonNumbers) (s : State) : Prop where
  /-- What the broadcaster holds is current, or another update is coming. -/
  fresh : ∀ t, s.broadcaster = some t → t.Fresh json s.store ∨ s.Due
  listed : ∀ c ∈ s.clients, c.Listed

namespace State

variable {s s' : State} {e : Event}

theorem inv_initial (store : Store) : (initial store).Inv json where
  fresh := by simp [initial]
  listed := by simp [initial]

theorem served_initial (store : Store) : (initial store).Served json := by
  simp [Served, initial]

theorem not_pending_iff :
    ¬s.Pending ↔ s.writers = [] ∧ s.undelivered = 0 ∧ s.hasUpdate = false ∧
      s.broadcaster = none := by
  simp [Pending, Due, and_assoc]

theorem onClient_eq_some {i : ℕ} {f : Client → Option Client} :
    s.onClient i f = some s' ↔ ∃ c c', s.clients[i]? = some c ∧ f c = some c' ∧
      s' = { s with clients := s.clients.set i c' } := by
  simp only [onClient, Option.map_eq_some_iff, Option.bind_eq_some_iff]
  constructor
  · rintro ⟨c', ⟨c, hc, hf⟩, rfl⟩
    exact ⟨c, c', hc, hf, rfl⟩
  · rintro ⟨c, c', hc, hf, rfl⟩
    exact ⟨c', ⟨c, hc, hf⟩, rfl⟩

/-! ## What a step does -/

/-- A writer and the subscriber bring an update on its way, and touch neither the broadcaster nor
the clients. -/
theorem step_announces (he : e.Announces) (hstep : s.step json e = some s') :
    s'.Due ∧ s'.broadcaster = s.broadcaster ∧ s'.clients = s.clients := by
  cases e with
  | change cmd rest =>
    obtain rfl := Option.some_inj.mp hstep
    exact ⟨Or.inl (by simp), rfl, rfl⟩
  | write i =>
    rw [step] at hstep
    split at hstep
    · exact absurd hstep (by simp)
    · obtain rfl := Option.some_inj.mp hstep
      exact ⟨Or.inr (Or.inl (Nat.succ_pos _)), rfl, rfl⟩
    · rename_i cmd rest hwriter
      obtain rfl := Option.some_inj.mp hstep
      refine ⟨Or.inl fun hnil ↦ ?_, rfl, rfl⟩
      rw [List.set_eq_nil_iff] at hnil
      rw [hnil] at hwriter
      exact absurd hwriter (by simp)
  | deliver =>
    rw [step] at hstep
    split at hstep
    · exact absurd hstep (by simp)
    · obtain rfl := Option.some_inj.mp hstep
      exact ⟨Or.inr (Or.inr rfl), rfl, rfl⟩
  | _ => exact he.elim

/-- **What the broadcaster can do.** -/
theorem broadcast_cases (json : JsonNumbers) (s : State) (o : Outcome) :
    (s.broadcaster = none ∧ s.broadcast json o = s) ∨
    (s.broadcaster = none ∧
      s.broadcast json o = { s with hasUpdate := false, broadcaster := some .start }) ∨
    (s.broadcaster ≠ none ∧ o = .throws ∧ s.broadcast json o = { s with broadcaster := none }) ∨
    (∃ f now, s.broadcaster = some (.fetch f) ∧ o = .ok now ∧
      s.broadcast json o = { s with broadcaster := some (Task.next json s.store now f) }) ∨
    (∃ update now, s.broadcaster = some (.send update) ∧ o = .ok now ∧ s.broadcast json o =
      { s with broadcaster := none, clients := broadcastUpdate s.clients update }) := by
  rcases hbroadcaster : s.broadcaster with _ | f | update
  · by_cases hflag : s.hasUpdate = true
    · exact Or.inr (Or.inl ⟨rfl, by simp [broadcast, hbroadcaster, hflag]⟩)
    · exact Or.inl ⟨rfl, by simp [broadcast, hbroadcaster, hflag]⟩
  · cases o with
    | throws => exact Or.inr (Or.inr (Or.inl ⟨by simp, rfl, by simp [broadcast, hbroadcaster]⟩))
    | ok now =>
      refine Or.inr (Or.inr (Or.inr (Or.inl ⟨f, now, rfl, rfl, ?_⟩)))
      simp [broadcast, hbroadcaster]
  · cases o with
    | throws => exact Or.inr (Or.inr (Or.inl ⟨by simp, rfl, by simp [broadcast, hbroadcaster]⟩))
    | ok now =>
      refine Or.inr (Or.inr (Or.inr (Or.inr ⟨update, now, rfl, rfl, ?_⟩)))
      simp [broadcast, hbroadcaster]

end State

namespace Client

variable {c c' : Client} {store : Store} {o : Outcome}

@[simp] theorem connected_receive (update : LeaderboardUpdate) :
    (c.receive update).connected = c.connected := by
  rw [receive]
  split_ifs <;> rfl

@[simp] theorem listed_receive (update : LeaderboardUpdate) :
    (c.receive update).listed = c.listed := by
  rw [receive]
  split_ifs <;> rfl

@[simp] theorem handler_receive (update : LeaderboardUpdate) :
    (c.receive update).handler = c.handler := by
  rw [receive]
  split_ifs <;> rfl

theorem last_receive (hconnected : c.connected = true) (update : LeaderboardUpdate) :
    (c.receive update).last = some update := by
  rw [receive, if_pos hconnected]

theorem connecting_iff : c.Connecting ↔ c.handler ≠ .done := by
  rw [Connecting]
  split <;> simp_all

/-- **What a handler can do.** -/
theorem handle_cases (hstep : c.handle json store o = some c') :
    (c.handler = .insert ∧ c' = { c with listed := true, handler := .task .start }) ∨
    (∃ t, c.handler = .task t ∧ o = .throws ∧ c' = { c with handler := .done }) ∨
    (∃ f now, c.handler = .task (.fetch f) ∧ o = .ok now ∧
      c' = { c with handler := .task (Task.next json store now f) }) ∨
    (∃ update now, c.handler = .task (.send update) ∧ o = .ok now ∧
      c' = { c.receive update with handler := .done }) := by
  rcases hhandler : c.handler with _ | (f | update) | _
  · simp only [handle, hhandler, Option.some_inj] at hstep
    exact Or.inl ⟨rfl, hstep.symm⟩
  · cases o with
    | throws =>
      simp only [handle, hhandler, Option.some_inj] at hstep
      exact Or.inr (Or.inl ⟨_, rfl, rfl, hstep.symm⟩)
    | ok now =>
      simp only [handle, hhandler, Option.some_inj] at hstep
      exact Or.inr (Or.inr (Or.inl ⟨f, now, rfl, rfl, hstep.symm⟩))
  · cases o with
    | throws =>
      simp only [handle, hhandler, Option.some_inj] at hstep
      exact Or.inr (Or.inl ⟨_, rfl, rfl, hstep.symm⟩)
    | ok now =>
      simp only [handle, hhandler, Option.some_inj] at hstep
      exact Or.inr (Or.inr (Or.inr ⟨update, now, rfl, rfl, hstep.symm⟩))
  · simp [handle, hhandler] at hstep

theorem Listed.handle (h : c.Listed) (hstep : c.handle json store o = some c') : c'.Listed := by
  obtain ⟨-, rfl⟩ | ⟨t, ht, -, rfl⟩ | ⟨f, now, hf, -, rfl⟩ | ⟨update, now, hupdate, -, rfl⟩ :=
    handle_cases hstep
  · exact fun _ _ ↦ rfl
  · exact fun hconnected _ ↦ h hconnected (by simp [ht])
  · exact fun hconnected _ ↦ h hconnected (by simp [hf])
  · intro hconnected _
    rw [connected_receive] at hconnected
    exact (listed_receive update).trans (h hconnected (by simp [hupdate]))

@[simp] theorem connected_visit (update : LeaderboardUpdate) :
    (c.visit update).connected = c.connected := by
  rw [visit]
  split_ifs <;> simp

@[simp] theorem handler_visit (update : LeaderboardUpdate) :
    (c.visit update).handler = c.handler := by
  rw [visit]
  split_ifs <;> simp

theorem Listed.visit (h : c.Listed) (update : LeaderboardUpdate) : (c.visit update).Listed := by
  intro hconnected hhandler
  rw [connected_visit] at hconnected
  rw [handler_visit] at hhandler
  have hlisted := h hconnected hhandler
  rw [Client.visit, if_pos hlisted, if_pos hconnected, listed_receive, hlisted]

/-- A broadcast of the current leaderboard serves all clients that are listed. -/
theorem Listed.upToDate_visit (h : c.Listed) (hconnected : c.connected = true)
    (hhandler : c.handler ≠ .insert) {update : LeaderboardUpdate}
    (hcurrent : update.entries = fetchLeaderboard json store) :
    (c.visit update).UpToDate json store := by
  rw [UpToDate, Client.visit, if_pos (h hconnected hhandler), if_pos hconnected,
    last_receive hconnected, Option.map_some, hcurrent]

/-- A handler that ends well leaves a client that is served, and one that does not end leaves a
client that it will serve. -/
theorem endsWell_iff (hstep : c.handle json store o = some c') (pending : Prop) :
    (c.connected = true → pending ∨ c.EndsWell json store o) ↔
      (c'.connected = true → pending ∨ c'.Connecting ∨ c'.UpToDate json store) := by
  obtain ⟨hhandler, rfl⟩ | ⟨t, hhandler, rfl, rfl⟩ | ⟨f, now, hhandler, rfl, rfl⟩ |
    ⟨update, now, hhandler, rfl, rfl⟩ := handle_cases hstep
  · simp [EndsWell, hhandler, Connecting]
  · have hends : c.EndsWell json store .throws ↔ c.UpToDate json store := by
      cases t <;> simp [EndsWell, hhandler]
    simp [hends, Connecting, UpToDate]
  · simp [EndsWell, hhandler, Connecting]
  · have hends : c.EndsWell json store (.ok now) ↔
        update.entries = fetchLeaderboard json store := by
      simp [EndsWell, hhandler]
    rw [connected_receive, hends]
    refine imp_congr_right fun hconnected ↦ or_congr_right ?_
    simp [Connecting, UpToDate, last_receive hconnected]

end Client

namespace State

variable {s s' : State} {e : Event}

/-! ## The invariant -/

theorem Inv.onClient (h : s.Inv json) {i : ℕ} {f : Client → Option Client}
    (hf : ∀ c c', c.Listed → f c = some c' → c'.Listed) (hstep : s.onClient i f = some s') :
    s'.Inv json := by
  obtain ⟨c, c', hc, hfc, rfl⟩ := onClient_eq_some.mp hstep
  refine ⟨h.fresh, fun d hd ↦ ?_⟩
  rcases List.mem_or_eq_of_mem_set hd with hd | rfl
  · exact h.listed d hd
  · exact hf c d (h.listed c (List.mem_of_getElem? hc)) hfc

theorem Inv.broadcast (h : s.Inv json) (o : Outcome) : (s.broadcast json o).Inv json := by
  obtain ⟨-, hnext⟩ | ⟨-, hnext⟩ | ⟨-, -, hnext⟩ | ⟨f, now, hf, -, hnext⟩ |
    ⟨update, now, hupdate, -, hnext⟩ := broadcast_cases json s o
  · rw [hnext]
    exact h
  · rw [hnext]
    refine ⟨fun t ht ↦ Or.inl ?_, h.listed⟩
    obtain rfl := Option.some_inj.mp ht
    exact trivial
  · rw [hnext]
    exact ⟨fun t ht ↦ absurd ht (by simp), h.listed⟩
  · rw [hnext]
    refine ⟨fun t ht ↦ ?_, h.listed⟩
    obtain rfl := Option.some_inj.mp ht
    exact (h.fresh _ hf).imp (fun hfresh ↦ Task.fresh_next hfresh now) id
  · rw [hnext]
    refine ⟨fun t ht ↦ absurd ht (by simp), fun c' hc' ↦ ?_⟩
    obtain ⟨c, hc, rfl⟩ := List.mem_map.mp hc'
    exact (h.listed c hc).visit update

theorem Inv.next (h : s.Inv json) (hstep : s.step json e = some s') : s'.Inv json := by
  by_cases he : e.Announces
  · obtain ⟨hdue, -, hclients⟩ := step_announces he hstep
    exact ⟨fun _ _ ↦ Or.inr hdue, hclients ▸ h.listed⟩
  cases e with
  | broadcaster o => exact Option.some_inj.mp hstep ▸ h.broadcast o
  | connect =>
    obtain rfl := Option.some_inj.mp hstep
    exact ⟨h.fresh, Pool.forall_start h.listed fun _ hhandler ↦ absurd rfl hhandler⟩
  | handler i o => exact h.onClient (fun _ _ hc ↦ hc.handle) hstep
  | disconnect i =>
    refine h.onClient (fun c c' _ hc' ↦ ?_) hstep
    obtain rfl := Option.some_inj.mp hc'
    exact fun hconnected ↦ absurd hconnected (by simp)
  | closed i =>
    refine h.onClient (fun c c' _ hc' ↦ ?_) hstep
    split_ifs at hc' with hconnected
    obtain rfl := Option.some_inj.mp hc'
    exact fun hconnected' ↦ absurd hconnected' hconnected
  | _ => exact absurd trivial he

/-! ## Harmless steps are those that leave all clients served -/

theorem Pending.served (h : s.Pending) : s.Served json := fun _ _ _ ↦ Or.inl h

theorem served_set (h : s.Served json) {i : ℕ} {c c' : Client} (hc : s.clients[i]? = some c) :
    ({ s with clients := s.clients.set i c' } : State).Served json ↔ s.Serves json c' := by
  constructor
  · intro hserved
    exact hserved c' (List.mem_set (List.getElem?_eq_some_iff.mp hc).1 c')
  · intro hserves d hd
    rcases List.mem_or_eq_of_mem_set hd with hd | rfl
    · exact h d hd
    · exact hserves

theorem harmless_of_asleep (h : s.broadcaster = none) (o : Outcome) :
    s.Harmless json (.broadcaster o) := by
  cases o with
  | ok now => exact trivial
  | throws => exact fun hawake ↦ absurd h hawake

theorem harmless_broadcaster_iff (hinv : s.Inv json) (h : s.Served json) (o : Outcome) :
    s.Harmless json (.broadcaster o) ↔ (s.broadcast json o).Served json := by
  obtain ⟨hasleep, hnext⟩ | ⟨hasleep, hnext⟩ | ⟨hawake, rfl, hnext⟩ | ⟨f, now, -, rfl, hnext⟩ |
    ⟨update, now, hupdate, rfl, hnext⟩ := broadcast_cases json s o
  · rw [hnext]
    exact iff_of_true (harmless_of_asleep hasleep o) h
  · rw [hnext]
    exact iff_of_true (harmless_of_asleep hasleep o) (Pending.served (Or.inr (by simp)))
  · rw [hnext]
    constructor
    · intro hharmless c hc hconnected
      rcases hharmless hawake with hdue | hall
      · exact Or.inl (Or.inl hdue)
      · exact Or.inr (hall c hc hconnected)
    · intro hserved _
      by_cases hdue : s.Due
      · exact Or.inl hdue
      · refine Or.inr fun c hc hconnected ↦ (hserved c hc hconnected).resolve_left ?_
        exact not_or.mpr ⟨hdue, fun hne ↦ hne rfl⟩
  · rw [hnext]
    exact iff_of_true trivial (Pending.served (Or.inr (by simp)))
  · rw [hnext]
    refine iff_of_true trivial fun c' hc' hconnected ↦ ?_
    obtain ⟨c, hc, rfl⟩ := List.mem_map.mp hc'
    rw [Client.connected_visit] at hconnected
    rcases hinv.fresh _ hupdate with hcurrent | hdue
    · by_cases hhandler : c.handler = .insert
      · exact Or.inr (Or.inl (by simp [Client.connecting_iff, hhandler]))
      · exact Or.inr (Or.inr ((hinv.listed c hc).upToDate_visit hconnected hhandler hcurrent))
    · exact Or.inl (Or.inl hdue)

theorem harmless_handler_iff (h : s.Served json) {i : ℕ} {o : Outcome}
    (hstep : s.step json (.handler i o) = some s') :
    s.Harmless json (.handler i o) ↔ s'.Served json := by
  obtain ⟨c, c', hc, hhandle, rfl⟩ := onClient_eq_some.mp hstep
  rw [served_set h hc, Serves, ← Client.endsWell_iff hhandle, Harmless]
  constructor
  · exact fun hharmless ↦ hharmless c hc
  · intro hends d hd
    obtain rfl := Option.some_inj.mp (hc.symm.trans hd)
    exact hends

/-- **A step is harmless if and only if** it leaves all clients served. -/
theorem harmless_iff_served (hinv : s.Inv json) (h : s.Served json)
    (hstep : s.step json e = some s') : s.Harmless json e ↔ s'.Served json := by
  by_cases he : e.Announces
  · obtain ⟨hdue, -, -⟩ := step_announces he hstep
    refine iff_of_true ?_ (Pending.served (Or.inl hdue))
    cases e with
    | change | write | deliver => exact trivial
    | _ => exact he.elim
  cases e with
  | broadcaster o => exact Option.some_inj.mp hstep ▸ harmless_broadcaster_iff hinv h o
  | connect =>
    obtain rfl := Option.some_inj.mp hstep
    exact iff_of_true trivial (Pool.forall_start h fun _ ↦ Or.inr (Or.inl trivial))
  | handler i o => exact harmless_handler_iff h hstep
  | disconnect i =>
    obtain ⟨c, c', hc, hc', rfl⟩ := onClient_eq_some.mp hstep
    obtain rfl := Option.some_inj.mp hc'
    exact iff_of_true trivial ((served_set h hc).mpr fun hconnected ↦ absurd hconnected (by simp))
  | closed i =>
    obtain ⟨c, c', hc, hc', rfl⟩ := onClient_eq_some.mp hstep
    split_ifs at hc' with hconnected
    obtain rfl := Option.some_inj.mp hc'
    exact iff_of_true trivial ((served_set h hc).mpr fun h' ↦ absurd h' hconnected)
  | _ => exact absurd trivial he

end State

/-! ## A client that nobody serves -/

/-- The steps that are left to a handler, one that throws as soon as it can. -/
def Handler.rank : Handler → ℕ
  | .insert => 2
  | .task _ => 1
  | .done => 0

theorem Client.exists_throws (json : JsonNumbers) (store : Store) {c : Client} (h : c.Connecting) :
    ∃ c', c.handle json store .throws = some c' ∧ c'.handler.rank < c.handler.rank := by
  rcases hhandler : c.handler with _ | t | _
  · exact ⟨{ c with listed := true, handler := .task .start }, by simp [handle, hhandler],
      Nat.lt_succ_self 1⟩
  · exact ⟨{ c with handler := .done }, by cases t <;> simp [handle, hhandler],
      Nat.lt_succ_self 0⟩
  · exact absurd hhandler (connecting_iff.mp h)

namespace State

variable {s s' : State} {e : Event}

/-- The steps that are left to the handlers. -/
def remaining (s : State) : ℕ := (s.clients.map fun c ↦ c.handler.rank).sum

/-- A client goes away, and its handler takes a step and throws. -/
theorem exists_closer (json : JsonNumbers) {j : ℕ} {d : Client} (hd : s.clients[j]? = some d)
    (h : d.Connecting) :
    ∃ es d', Guarded (step json) (Harmless json) s es ∧
      exec (step json) s es = some { s with clients := s.clients.set j d' } ∧
      d'.handler.rank < d.handler.rank := by
  set d₁ : Client := { d with connected := false } with hd₁
  obtain ⟨d₂, hthrows, hrank⟩ := Client.exists_throws json s.store (c := d₁) h
  set s₁ : State := { s with clients := s.clients.set j d₁ } with hs₁
  have hget : s₁.clients[j]? = some d₁ := Pool.getElem?_set hd
  have hgone : s.step json (.disconnect j) = some s₁ :=
    onClient_eq_some.mpr ⟨d, d₁, hd, rfl, rfl⟩
  have hstep : s₁.step json (.handler j .throws) =
      some { s with clients := s.clients.set j d₂ } := by
    refine onClient_eq_some.mpr ⟨d₁, d₂, hget, hthrows, ?_⟩
    simp [hs₁, List.set_set]
  have hharmless : s₁.Harmless json (.handler j .throws) := by
    intro c hc hconnected
    obtain rfl := Option.some_inj.mp (hget.symm.trans hc)
    exact absurd hconnected (by simp [hd₁])
  refine ⟨[.disconnect j, .handler j .throws], d₂, ?_, ?_, hrank⟩
  · rw [guarded_cons hgone, guarded_cons hstep]
    exact ⟨trivial, hharmless, trivial⟩
  · rw [exec_cons, hgone, Option.bind_some, exec_cons, hstep]
    rfl

/-- When all others go away, a client that is not served is left with what it has. -/
theorem exists_left (json : JsonNumbers) {i : ℕ} {c : Client} (hc : s.clients[i]? = some c)
    (hpending : ¬s.Pending) (hconnecting : ¬c.Connecting) :
    ∃ es t, Guarded (step json) (Harmless json) s es ∧ exec (step json) s es = some t ∧
      (t.clients[i]? = some c ∧ ¬t.Pending ∧ t.store = s.store) ∧
      ∀ d ∈ t.clients, ¬d.Connecting := by
  refine exists_guarded_exec remaining (fun t ⟨hget, hpendingt, hstore⟩ hbusy ↦ ?_)
    ⟨hc, hpending, rfl⟩
  obtain ⟨d, hd, hdconnecting⟩ : ∃ d ∈ t.clients, d.Connecting := by
    by_contra hnone
    exact hbusy fun d hd hdconnecting ↦ hnone ⟨d, hd, hdconnecting⟩
  obtain ⟨j, hj⟩ := List.getElem?_of_mem hd
  obtain ⟨es, d', hguarded, hexec, hrank⟩ := exists_closer json hj hdconnecting
  have hremaining := sum_map_set (fun c : Client ↦ c.handler.rank) d' hj
  refine ⟨es, _, hguarded, hexec, ⟨?_, hpendingt, hstore⟩, ?_⟩
  · have hne : j ≠ i := by
      rintro rfl
      obtain rfl := Option.some_inj.mp (hj.symm.trans hget)
      exact hconnecting hdconnecting
    rw [List.getElem?_set_ne hne, hget]
  · rw [remaining, remaining]
    dsimp only
    omega

theorem served_of_converges (h : s.Converges json) : s.Served json := by
  intro c hc hconnected
  by_contra hserves
  obtain ⟨hpending, hserves⟩ := not_or.mp hserves
  obtain ⟨hconnecting, hstale⟩ := not_or.mp hserves
  obtain ⟨i, hi⟩ := List.getElem?_of_mem hc
  obtain ⟨es, t, hguarded, hexec, ⟨hget, hpendingt, hstore⟩, hdone⟩ :=
    exists_left json hi hpending hconnecting
  obtain ⟨hwriters, hundelivered, hflag, hbroadcaster⟩ := not_pending_iff.mp hpendingt
  have hconverged := h es t hguarded hexec ⟨hwriters, hundelivered, hflag, hbroadcaster, hdone⟩
  exact hstale (hstore ▸ hconverged c (List.mem_of_getElem? hget) hconnected)

theorem Served.converged (h : s.Served json) (hquiescent : s.Quiescent) : s.Converged json := by
  intro c hc hconnected
  have hpending : ¬s.Pending := not_pending_iff.mpr
    ⟨hquiescent.published, hquiescent.delivered, hquiescent.flag, hquiescent.broadcaster⟩
  exact ((h c hc hconnected).resolve_left hpending).resolve_left (hquiescent.handlers c hc)

theorem served_iff_converges (hinv : s.Inv json) : s.Served json ↔ s.Converges json := by
  refine ⟨fun hserved es t hguarded hexec hquiescent ↦ ?_, served_of_converges⟩
  have hall := hguarded.invariant (P := fun s ↦ s.Inv json ∧ s.Served json)
    (fun s e s' h hharmless hstep ↦
      ⟨h.1.next hstep, (harmless_iff_served h.1 h.2 hstep).mp hharmless⟩) ⟨hinv, hserved⟩ hexec
  exact hall.2.converged hquiescent

end State

open State

/-- **When every client converges.** In all quiescent states of a run, and of every run that goes
on from one of its states with harmless steps, every connected client has the current leaderboard,
if and only if every step of the run is harmless. -/
theorem converges_iff {store : Store} {es : List Event} {s : State}
    (h : exec (step json) (initial store) es = some s) :
    (∀ es', es' <+: es → ∀ s', exec (step json) (initial store) es' = some s' →
        s'.Converges json) ↔ Guarded (step json) (Harmless json) (initial store) es := by
  rw [guarded_iff_prefixes_good (P := Inv json)
    (fun _ _ _ hinv hstep ↦ hinv.next hstep)
    (fun _ _ _ hinv hserved hstep ↦ harmless_iff_served hinv hserved hstep)
    (inv_initial store) (served_initial store) h]
  refine forall_congr' fun es' ↦ imp_congr_right fun _ ↦ forall_congr' fun s' ↦
    imp_congr_right fun hexec ↦ ?_
  have hinv : s'.Inv json :=
    exec_invariant (fun _ _ _ hinv hstep ↦ hinv.next hstep) (inv_initial store) hexec
  exact (served_iff_converges hinv).symm

/-! ## Two ways to lose an update -/

instance (s : State) : Decidable s.Quiescent :=
  decidable_of_iff (s.writers = [] ∧ s.undelivered = 0 ∧ s.hasUpdate = false ∧
      s.broadcaster.isNone ∧ ∀ c ∈ s.clients, ¬c.Connecting)
    ⟨fun ⟨hw, hu, hf, hb, hc⟩ ↦ ⟨hw, hu, hf, Option.isNone_iff_eq_none.mp hb, hc⟩,
      fun h ↦ ⟨h.published, h.delivered, h.flag, Option.isNone_iff_eq_none.mpr h.broadcaster,
        h.handlers⟩⟩

instance (json : JsonNumbers) (s : State) : Decidable (s.Converged json) :=
  inferInstanceAs (Decidable (∀ c ∈ s.clients, c.connected = true → c.UpToDate json s.store))

def sampleJson : JsonNumbers where
  int str := [("120", 120), ("180", 180), ("240", 240), ("900", 900)].lookup str
  double str := [("1.000000", 1)].lookup str

/-- A run of team `alpha` is finalized, and announced. -/
def announced : List Event :=
  [.finalizeRun "alpha" 50 [("latency_p50", "120"), ("latency_p90", "180"), ("latency_p99", "240"),
    ("max_tps", "900"), ("correctness", "1.000000")], .write 0, .write 0, .deliver]

/-- A client connects and is sent the leaderboard, which is empty. -/
def snapshotSent : List Event :=
  [.connect, .handler 0 (.ok "09:00"), .handler 0 (.ok "09:00"), .handler 0 (.ok "09:00")]

/-- The update is broadcast. -/
def broadcastSent : List Event := List.replicate 5 (.broadcaster (.ok "09:01"))

theorem exists_run {es : List Event} {P : State → Prop} [DecidablePred P]
    (h : (exec (step sampleJson) (initial .empty) es).any (fun s ↦ decide (P s)) = true) :
    ∃ s, exec (step sampleJson) (initial .empty) es = some s ∧ P s := by
  obtain ⟨s, hs, hP⟩ := (Option.any_eq_true _ _).mp h
  exact ⟨s, hs, of_decide_eq_true hP⟩

theorem converges_iff_broadcastSent :
    ∃ s, exec (step sampleJson) (initial .empty) (snapshotSent ++ announced ++ broadcastSent) =
        some s ∧ s.Quiescent ∧
      ((∀ es', es' <+: snapshotSent ++ announced ++ broadcastSent → ∀ s',
          exec (step sampleJson) (initial .empty) es' = some s' → s'.Converges sampleJson) ↔
        Guarded (step sampleJson) (Harmless sampleJson) (initial .empty)
          (snapshotSent ++ announced ++ broadcastSent)) := by
  obtain ⟨s, hs, hquiescent⟩ := @exists_run (snapshotSent ++ announced ++ broadcastSent) Quiescent _
    (by decide)
  exact ⟨s, hs, hquiescent, converges_iff hs⟩

/-- Redis does not answer the broadcaster when the flag is down already. -/
def failedFetch : List Event :=
  snapshotSent ++ announced ++ [.broadcaster (.ok "09:01"), .broadcaster .throws]

theorem failedFetch_not_converged :
    ∃ s, exec (step sampleJson) (initial .empty) failedFetch = some s ∧ s.Quiescent ∧
      ¬s.Converged sampleJson :=
  exists_run (by decide)

/-- The update is broadcast between the fetch of a handler and what it sends. -/
def lateSnapshot : List Event :=
  snapshotSent.take 3 ++ announced ++ broadcastSent ++ [.handler 0 (.ok "09:00")]

example : ∃ s, exec (step sampleJson) (initial .empty) lateSnapshot = some s ∧ s.Quiescent ∧
    ¬s.Converged sampleJson :=
  exists_run (by decide)

end BenchmarkPlatform.Leaderboard
