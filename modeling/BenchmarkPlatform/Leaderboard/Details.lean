import BenchmarkPlatform.Lib.Json
import BenchmarkPlatform.Lib.Transition
import Mathlib.Data.Finset.Dedup
import Mathlib.Data.List.TakeWhile

/-!
# Detail subscriptions

A client of the leaderboard stream can subscribe to the details of one submission. Twice a second
the broadcaster collects the subscriptions under the lock, and then, for one submission after the
other, reads the hash without the lock and sends an update under it. Subscriptions change and
connections close meanwhile, so the broadcaster looks again before it sends.

Whatever happens in between, a client that stays subscribed through a round gets one update in it,
or none because the hash could not be read or was empty; no client gets two updates of a submission
in a round; and a client that is gone gets nothing more.
-/

namespace BenchmarkPlatform.Leaderboard

open Lib

/-! ## Messages -/

/-- `std::isspace`. -/
def isSpace (c : Char) : Bool :=
  c = ' ' || c = '\t' || c = '\n' || c = '\r' || c.toNat = 11 || c.toNat = 12

/-- `std::stoll`: space and a sign are skipped, and as many digits read as there are. It throws
where there is no digit, and where the number does not fit. -/
def stoll (str : String) : Option ℤ :=
  let digits (cs : List Char) : Option ℤ :=
    if cs.takeWhile Char.isDigit = [] then none
    else some (Nat.ofDigitChars 10 (cs.takeWhile Char.isDigit) 0)
  let number : Option ℤ :=
    match str.toList.dropWhile isSpace with
    | '-' :: cs => (digits cs).map fun n ↦ -n
    | '+' :: cs => digits cs
    | cs => digits cs
  number.filter fun n ↦ -2 ^ 63 ≤ n && n < 2 ^ 63

/-- A number that is written in decimal is read back. -/
theorem stoll_toString {n : ℕ} (hn : n < 2 ^ 63) : stoll (toString n) = some (n : ℤ) := by
  have htoList : (toString n).toList = Nat.toDigits 10 n := String.toList_ofList
  have hdigits : ∀ c ∈ Nat.toDigits 10 n, c.isDigit = true := fun c hc ↦
    Nat.isDigit_of_mem_toDigits (by decide) (by decide) hc
  have hfits : (-2 ^ 63 ≤ (n : ℤ) && (n : ℤ) < 2 ^ 63) = true := by
    rw [Bool.and_eq_true, decide_eq_true_iff, decide_eq_true_iff]
    omega
  have hvalue := Nat.ofDigitChars_ten_toDigits (n := n)
  have hne : Nat.toDigits 10 n ≠ [] := Nat.toDigits_ne_nil
  rw [stoll, htoList]
  dsimp only
  generalize Nat.toDigits 10 n = cs at hdigits hvalue hne
  cases cs with
  | nil => exact absurd rfl hne
  | cons c cs =>
    have hc := hdigits c List.mem_cons_self
    have hspace : ¬isSpace c = true := by
      have hrange := Char.isDigit_iff_toNat.mp hc
      have hzero : '0'.toNat = 48 := rfl
      simp only [isSpace, Bool.or_eq_true, decide_eq_true_iff]
      rintro (((((rfl | rfl) | rfl) | rfl) | h) | h)
      · exact absurd hc (by decide)
      · exact absurd hc (by decide)
      · exact absurd hc (by decide)
      · exact absurd hc (by decide)
      · omega
      · omega
    have hall : (c :: cs).takeWhile Char.isDigit = c :: cs :=
      List.takeWhile_eq_self_iff.mpr hdigits
    rw [List.dropWhile_cons_of_neg hspace]
    split
    · rename_i heq
      obtain rfl := (List.cons.inj heq).1
      exact absurd hc (by decide)
    · rename_i heq
      obtain rfl := (List.cons.inj heq).1
      exact absurd hc (by decide)
    · rw [hall, if_neg (List.cons_ne_nil c cs), hvalue, Option.filter_some, if_pos hfits]

structure DetailUpdate where
  submissionId : String
  latencyP50Us : ℤ
  latencyP90Us : ℤ
  latencyP99Us : ℤ
  currentTps : ℤ
  buckets : Option Json

/-- `get_i`. -/
def getI (details : List (String × String)) (k : String) : ℤ :=
  ((details.lookup k).bind stoll).getD 0

/-- The update that is made of a hash. `parse` is that of the JSON library. -/
def DetailUpdate.make (parse : String → Option Json) (subId : String)
    (details : List (String × String)) : DetailUpdate where
  submissionId := subId
  latencyP50Us := getI details "latency_p50"
  latencyP90Us := getI details "latency_p90"
  latencyP99Us := getI details "latency_p99"
  currentTps := getI details "current_tps"
  buckets := (details.lookup "histogram").bind parse

/-- The submission that a text message subscribes to. -/
def subscription (j : Json) : Option String :=
  match j.find? "type", j.find? "submission_id" with
  | some (.string type), some id => if type = "subscribe_detail" then id.getString else none
  | _, _ => none

/-! ## The broadcaster and the clients -/

structure Subscriber where
  connected : Bool
  /-- Its entry in `detail_subs`. -/
  sub : Option String
  deriving DecidableEq

/-- Where the broadcaster is in a round: before it reads the hash of the next submission, or before
it sends. `conns` are the connections that had a subscription when the round began. -/
inductive Round
  | read (todo : List String) (conns : List ℕ)
  | send (update : DetailUpdate) (todo : List String) (conns : List ℕ)

structure DetailState where
  subscribers : List Subscriber
  round : Option Round

inductive DetailEvent
  | connect
  /-- A text message of a client that is JSON. -/
  | message (i : ℕ) (j : Json)
  | disconnect (i : ℕ)
  /-- `handleConnectionClosed`. -/
  | closed (i : ℕ)
  /-- A round begins; `order` is the order in which the set `active_subs` is gone through. -/
  | collect (order : List String)
  /-- HGETALL gives the hash, or throws. -/
  | read (reply : Option (List (String × String)))
  | send

namespace DetailState

def onSubscriber (s : DetailState) (i : ℕ) (f : Subscriber → Option Subscriber) :
    Option DetailState :=
  ((s.subscribers[i]?).bind f).map fun c ↦ { s with subscribers := s.subscribers.set i c }

/-- The connections that have a subscription. -/
def conns (s : DetailState) : List ℕ :=
  (List.range s.subscribers.length).filter fun i ↦ (s.subscribers[i]?.bind Subscriber.sub).isSome

/-- The submissions that have a subscription. -/
def activeSubs (s : DetailState) : Finset String :=
  (s.subscribers.filterMap Subscriber.sub).toFinset

def step (parse : String → Option Json) (s : DetailState) : DetailEvent → Option DetailState
  | .connect => some { s with subscribers := s.subscribers ++ [⟨true, none⟩] }
  | .message i j => s.onSubscriber i fun c ↦
    if c.connected then some { c with sub := (subscription j).or c.sub } else none
  | .disconnect i => s.onSubscriber i fun c ↦ some { c with connected := false }
  | .closed i => s.onSubscriber i fun c ↦ if c.connected then none else some { c with sub := none }
  | .collect order =>
    if s.round.isNone ∧ order.Nodup ∧ order.toFinset = s.activeSubs then
      some { s with round := some (.read order s.conns) }
    else none
  | .read reply =>
    match s.round with
    | some (.read [] _) => some { s with round := none }
    | some (.read (subId :: todo) conns) =>
      match reply with
      | none | some [] => some { s with round := some (.read todo conns) }
      | some details => some { s with round := some (.send (.make parse subId details) todo conns) }
    | _ => none
  | .send =>
    match s.round with
    | some (.send _ todo conns) => some { s with round := some (.read todo conns) }
    | _ => none

/-- The client gets updates of the submission. -/
def Takes (s : DetailState) (subId : String) (i : ℕ) : Prop :=
  s.subscribers[i]? = some ⟨true, some subId⟩

instance (s : DetailState) (subId : String) : DecidablePred (s.Takes subId) :=
  fun i ↦ inferInstanceAs (Decidable (s.subscribers[i]? = some ⟨true, some subId⟩))

end DetailState

/-- What comes of a step of the broadcaster. -/
inductive Outgoing
  | delivered (i : ℕ) (update : DetailUpdate)
  /-- The hash of the submission could not be read, or was empty. -/
  | skipped (subId : String)

def DetailState.outgoing (s : DetailState) : DetailEvent → List Outgoing
  | .read none | .read (some []) =>
    match s.round with
    | some (.read (subId :: _) _) => [.skipped subId]
    | _ => []
  | .send =>
    match s.round with
    | some (.send update _ conns) =>
      (conns.filter (s.Takes update.submissionId)).map fun i ↦ .delivered i update
    | _ => []
  | _ => []

/-- The updates that a client gets. -/
def Outgoing.update (i : ℕ) : Outgoing → Option DetailUpdate
  | .delivered j update => if j = i then some update else none
  | .skipped _ => none

def updatesOf (i : ℕ) (log : List Outgoing) : List DetailUpdate :=
  log.filterMap (Outgoing.update i)

/-! ## A round -/

/-- The event begins a round. -/
def DetailEvent.Collects : DetailEvent → Prop
  | .collect _ => True
  | _ => False

/-- The event is about the client. -/
def DetailEvent.Concerns (i : ℕ) : DetailEvent → Prop
  | .message j _ => j = i
  | .disconnect j => j = i
  | .closed j => j = i
  | _ => False

/-- The submissions whose update is still to come in the round. -/
def Round.pending : Round → List String
  | .read todo _ => todo
  | .send update todo _ => update.submissionId :: todo

def Round.conns : Round → List ℕ
  | .read _ conns => conns
  | .send _ _ conns => conns

/-- The updates for the client are of different submissions, and none is of one that is to come. -/
structure Distinct (i : ℕ) (log : List Outgoing) (pending : List String) : Prop where
  nodup : pending.Nodup
  updates : ((updatesOf i log).map DetailUpdate.submissionId).Nodup
  disjoint : ∀ subId ∈ pending, subId ∉ (updatesOf i log).map DetailUpdate.submissionId

/-- The client has got one update, of its submission, or none because the submission was
skipped. -/
def Served (i : ℕ) (subId : String) (log : List Outgoing) : Prop :=
  (∃ update, updatesOf i log = [update] ∧ update.submissionId = subId) ∨
    updatesOf i log = [] ∧ .skipped subId ∈ log

/-- The client is served, or its submission is to come. -/
def Awaits (i : ℕ) (subId : String) (log : List Outgoing) (pending : List String) : Prop :=
  subId ∈ pending ∧ updatesOf i log = [] ∨ subId ∉ pending ∧ Served i subId log

section

variable {parse : String → Option Json} {s t : DetailState} {e : DetailEvent} {i : ℕ}
  {log : List Outgoing} {subId : String}

theorem updatesOf_append (log log' : List Outgoing) :
    updatesOf i (log ++ log') = updatesOf i log ++ updatesOf i log' := List.filterMap_append

/-- Of one message to several clients, each of them gets one. -/
theorem updatesOf_delivered {conns : List ℕ} (hnodup : conns.Nodup) (update : DetailUpdate) :
    updatesOf i (conns.map fun j ↦ .delivered j update) = if i ∈ conns then [update] else [] := by
  induction conns with
  | nil => rfl
  | cons j conns ih =>
    rw [List.nodup_cons] at hnodup
    have hrest := ih hnodup.2
    rw [updatesOf] at hrest ⊢
    rw [List.map_cons, List.filterMap_cons, hrest]
    by_cases hj : j = i
    · subst hj
      simp [Outgoing.update, hnodup.1]
    · simp [Outgoing.update, hj, Ne.symm hj]

theorem DetailState.nodup_conns (s : DetailState) : s.conns.Nodup := List.nodup_range.filter _

/-- **What a step does to a round**: it leaves it as it is, ends it, skips a submission, prepares
the update of a submission, or sends it. -/
theorem DetailState.step_round (hround : ¬e.Collects) (h : s.step parse e = some t) :
    t.round = s.round ∧ s.outgoing e = [] ∨
    (∃ conns, s.round = some (.read [] conns) ∧ t.round = none ∧ s.outgoing e = []) ∨
    (∃ x todo conns, s.round = some (.read (x :: todo) conns) ∧
      t.round = some (.read todo conns) ∧ s.outgoing e = [.skipped x]) ∨
    (∃ x todo conns details, s.round = some (.read (x :: todo) conns) ∧
      t.round = some (.send (.make parse x details) todo conns) ∧ s.outgoing e = []) ∨
    ∃ update todo conns, s.round = some (.send update todo conns) ∧
      t.round = some (.read todo conns) ∧
      s.outgoing e = (conns.filter (s.Takes update.submissionId)).map fun i ↦
        .delivered i update := by
  cases e with
  | connect =>
    obtain rfl := Option.some_inj.mp h
    exact Or.inl ⟨rfl, rfl⟩
  | message j m | disconnect j | closed j =>
    obtain ⟨c, -, rfl⟩ := Option.map_eq_some_iff.mp h
    exact Or.inl ⟨rfl, rfl⟩
  | collect order => exact absurd trivial hround
  | read reply =>
    rw [step] at h
    split at h
    · rename_i conns hread
      obtain rfl := Option.some_inj.mp h
      refine Or.inr (Or.inl ⟨conns, hread, rfl, ?_⟩)
      rw [outgoing.eq_def, hread]
      split <;> simp_all
    · rename_i x todo conns hread
      split at h
      · obtain rfl := Option.some_inj.mp h
        refine Or.inr (Or.inr (Or.inl ⟨x, todo, conns, hread, rfl, ?_⟩))
        rw [outgoing, hread]
      · obtain rfl := Option.some_inj.mp h
        refine Or.inr (Or.inr (Or.inl ⟨x, todo, conns, hread, rfl, ?_⟩))
        rw [outgoing, hread]
      · rename_i details hne
        obtain rfl := Option.some_inj.mp h
        refine Or.inr (Or.inr (Or.inr (Or.inl ⟨x, todo, conns, details, hread, rfl, ?_⟩)))
        cases details with
        | nil => exact absurd rfl hne
        | cons field details => rfl
    · simp at h
  | send =>
    rw [step] at h
    split at h
    · rename_i update todo conns hsend
      obtain rfl := Option.some_inj.mp h
      refine Or.inr (Or.inr (Or.inr (Or.inr ⟨update, todo, conns, hsend, rfl, ?_⟩)))
      rw [outgoing, hsend]
    · simp at h

/-- A client that an event is not about stays as it is. -/
theorem DetailState.subscriber_step {c : Subscriber} (h : s.step parse e = some t)
    (hconcerns : ¬e.Concerns i) (hc : s.subscribers[i]? = some c) :
    t.subscribers[i]? = some c := by
  have hother : ∀ {j : ℕ} {f : Subscriber → Option Subscriber}, j ≠ i →
      s.onSubscriber j f = some t → t.subscribers[i]? = some c := by
    intro j f hj hon
    obtain ⟨c', -, rfl⟩ := Option.map_eq_some_iff.mp hon
    rw [List.getElem?_set_ne hj]
    exact hc
  cases e with
  | connect =>
    obtain rfl := Option.some_inj.mp h
    rw [List.getElem?_append_left (List.getElem?_eq_some_iff.mp hc).1]
    exact hc
  | message j m | disconnect j | closed j => exact hother hconcerns h
  | collect order =>
    rw [step] at h
    split_ifs at h
    obtain rfl := Option.some_inj.mp h
    exact hc
  | read reply =>
    rw [step] at h
    split at h
    · obtain rfl := Option.some_inj.mp h
      exact hc
    · split at h
      all_goals
        obtain rfl := Option.some_inj.mp h
        exact hc
    · simp at h
  | send =>
    rw [step] at h
    split at h
    · obtain rfl := Option.some_inj.mp h
      exact hc
    · simp at h

/-- The connection of the client has been closed, and its subscription erased. -/
def DetailState.Gone (s : DetailState) (i : ℕ) : Prop := s.subscribers[i]? = some ⟨false, none⟩

theorem DetailState.Gone.step (hgone : s.Gone i) (h : s.step parse e = some t) : t.Gone i := by
  by_cases hconcerns : e.Concerns i
  · have hlt := (List.getElem?_eq_some_iff.mp hgone).1
    cases e with
    | message j m =>
      obtain rfl : j = i := hconcerns
      rw [DetailState.step, onSubscriber, hgone] at h
      simp at h
    | disconnect j | closed j =>
      obtain rfl : j = i := hconcerns
      rw [DetailState.step, onSubscriber, hgone] at h
      obtain rfl := Option.some_inj.mp h
      exact List.getElem?_set_self hlt
    | _ => exact hconcerns.elim
  · exact subscriber_step h hconcerns hgone

/-! ## What a step keeps -/

def DetailState.pending (s : DetailState) : List String := s.round.elim [] Round.pending

/-- The round has got so far without a mistake for the client. -/
structure DetailState.Orderly (i : ℕ) (log : List Outgoing) (s : DetailState) : Prop where
  distinct : Distinct i log s.pending
  conns : ∀ r ∈ s.round, r.conns.Nodup

theorem DetailState.pending_of_round {r : Round} (h : s.round = some r) :
    s.pending = r.pending := by
  rw [pending, h, Option.elim_some]

theorem Distinct.tail {x : String} {todo : List String} (h : Distinct i log (x :: todo)) :
    Distinct i log todo where
  nodup := (List.nodup_cons.mp h.nodup).2
  updates := h.updates
  disjoint y hy := h.disjoint y (List.mem_cons_of_mem _ hy)

theorem updatesOf_skipped (x : String) : updatesOf i (log ++ [.skipped x]) = updatesOf i log := by
  rw [updatesOf_append]
  exact List.append_nil _

theorem Distinct.skipped {pending : List String} (h : Distinct i log pending) (x : String) :
    Distinct i (log ++ [.skipped x]) pending := by
  refine ⟨h.nodup, ?_, ?_⟩
  · rw [updatesOf_skipped]
    exact h.updates
  · rw [updatesOf_skipped]
    exact h.disjoint

theorem Distinct.delivered {update : DetailUpdate} {todo : List String} {conns : List ℕ}
    (h : Distinct i log (update.submissionId :: todo)) (hconns : conns.Nodup) :
    Distinct i (log ++ conns.map fun j ↦ .delivered j update) todo := by
  have hnew := (List.nodup_cons.mp h.nodup).1
  have hupdates := updatesOf_delivered (i := i) hconns update
  by_cases hi : i ∈ conns
  · rw [if_pos hi] at hupdates
    have hconcat : (updatesOf i (log ++ conns.map fun j ↦ .delivered j update)).map
        DetailUpdate.submissionId
          = (updatesOf i log).map DetailUpdate.submissionId ++ [update.submissionId] := by
      rw [updatesOf_append, hupdates, List.map_append, List.map_singleton]
    refine ⟨h.tail.nodup, ?_, fun y hy ↦ ?_⟩
    · rw [hconcat]
      exact List.nodup_append.mpr ⟨h.updates, List.nodup_singleton _, fun a ha b hb heq ↦
        h.disjoint _ List.mem_cons_self (List.mem_singleton.mp hb ▸ heq ▸ ha)⟩
    · rw [hconcat, List.mem_append, List.mem_singleton]
      rintro (hmem | rfl)
      · exact h.tail.disjoint y hy hmem
      · exact hnew hy
  · rw [if_neg hi] at hupdates
    have hsame : updatesOf i (log ++ conns.map fun j ↦ .delivered j update) = updatesOf i log := by
      rw [updatesOf_append, hupdates, List.append_nil]
    refine ⟨h.tail.nodup, ?_, ?_⟩
    · rw [hsame]
      exact h.updates
    · rw [hsame]
      exact h.tail.disjoint

theorem DetailState.Orderly.step (h : s.Orderly i log) (hround : ¬e.Collects)
    (hstep : s.step parse e = some t) : t.Orderly i (log ++ s.outgoing e) := by
  rcases step_round hround hstep with ⟨hsame, hnil⟩ | ⟨conns, hs, ht, hnil⟩ |
      ⟨x, todo, conns, hs, ht, hskip⟩ | ⟨x, todo, conns, details, hs, ht, hnil⟩ |
      ⟨update, todo, conns, hs, ht, hsend⟩
  · rw [hnil, List.append_nil]
    refine ⟨?_, fun r hr ↦ h.conns r (hsame ▸ hr)⟩
    rw [pending, hsame]
    exact h.distinct
  · rw [hnil, List.append_nil]
    refine ⟨?_, fun r hr ↦ by simp [ht] at hr⟩
    have hdistinct := h.distinct
    rw [pending_of_round hs] at hdistinct
    rw [pending, ht]
    exact hdistinct
  · have hdistinct := h.distinct
    rw [pending_of_round hs] at hdistinct
    have hconns : conns.Nodup := h.conns _ hs
    refine ⟨?_, fun r hr ↦ ?_⟩
    · rw [hskip, pending_of_round ht]
      exact hdistinct.tail.skipped x
    · obtain rfl := Option.some_inj.mp (ht.symm.trans hr)
      exact hconns
  · rw [hnil, List.append_nil]
    have hdistinct := h.distinct
    rw [pending_of_round hs] at hdistinct
    have hconns : conns.Nodup := h.conns _ hs
    refine ⟨?_, fun r hr ↦ ?_⟩
    · rw [pending_of_round ht]
      exact hdistinct
    · obtain rfl := Option.some_inj.mp (ht.symm.trans hr)
      exact hconns
  · have hdistinct := h.distinct
    rw [pending_of_round hs] at hdistinct
    have hconns : conns.Nodup := h.conns _ hs
    refine ⟨?_, fun r hr ↦ ?_⟩
    · rw [hsend, pending_of_round ht]
      exact hdistinct.delivered (hconns.filter _)
    · obtain rfl := Option.some_inj.mp (ht.symm.trans hr)
      exact hconns

/-- A client that keeps its subscription through the round. -/
structure DetailState.Steady (i : ℕ) (subId : String) (log : List Outgoing) (s : DetailState) :
    Prop where
  takes : s.Takes subId i
  conns : ∀ r ∈ s.round, i ∈ r.conns
  awaits : Awaits i subId log s.pending

theorem Awaits.skipped {x : String} {todo : List String} (h : Awaits i subId log (x :: todo))
    (hnodup : (x :: todo).Nodup) : Awaits i subId (log ++ [.skipped x]) todo := by
  have hnew := (List.nodup_cons.mp hnodup).1
  rw [Awaits, Served, updatesOf_skipped]
  rcases h with ⟨hmem, hnone⟩ | ⟨hmem, hserved⟩
  · rcases List.mem_cons.mp hmem with rfl | hmem
    · exact Or.inr ⟨hnew, Or.inr ⟨hnone, List.mem_append_right _ List.mem_cons_self⟩⟩
    · exact Or.inl ⟨hmem, hnone⟩
  · refine Or.inr ⟨fun htodo ↦ hmem (List.mem_cons_of_mem _ htodo), ?_⟩
    rcases hserved with hone | ⟨hnone, hskip⟩
    · exact Or.inl hone
    · exact Or.inr ⟨hnone, List.mem_append_left _ hskip⟩

theorem Awaits.delivered {update : DetailUpdate} {todo : List String} {conns : List ℕ}
    (h : Awaits i subId log (update.submissionId :: todo))
    (hnodup : (update.submissionId :: todo).Nodup) (hconns : conns.Nodup)
    (hi : i ∈ conns ↔ update.submissionId = subId) :
    Awaits i subId (log ++ conns.map fun j ↦ .delivered j update) todo := by
  have hnew := (List.nodup_cons.mp hnodup).1
  have hupdates := updatesOf_delivered (i := i) hconns update
  rw [Awaits, Served, updatesOf_append, hupdates]
  rcases h with ⟨hmem, hnone⟩ | ⟨hmem, hserved⟩
  · rcases List.mem_cons.mp hmem with heq | hmem
    · -- the update is for the client
      rw [if_pos (hi.mpr heq.symm), hnone, List.nil_append]
      exact Or.inr ⟨heq ▸ hnew, Or.inl ⟨update, rfl, heq.symm⟩⟩
    · have hother : update.submissionId ≠ subId := by
        rintro rfl
        exact hnew hmem
      rw [if_neg fun hin ↦ hother (hi.mp hin), List.append_nil]
      exact Or.inl ⟨hmem, hnone⟩
  · have hother : update.submissionId ≠ subId := by
      rintro rfl
      exact hmem List.mem_cons_self
    rw [if_neg fun hin ↦ hother (hi.mp hin), List.append_nil]
    refine Or.inr ⟨fun htodo ↦ hmem (List.mem_cons_of_mem _ htodo), ?_⟩
    rcases hserved with hone | ⟨hnone, hskip⟩
    · exact Or.inl hone
    · exact Or.inr ⟨hnone, List.mem_append_left _ hskip⟩

theorem DetailState.Steady.step (h : s.Steady i subId log) (horderly : s.Orderly i log)
    (hround : ¬e.Collects) (hconcerns : ¬e.Concerns i) (hstep : s.step parse e = some t) :
    t.Steady i subId (log ++ s.outgoing e) := by
  have htakes : t.Takes subId i := subscriber_step hstep hconcerns h.takes
  have hawaits := h.awaits
  have hnodup := horderly.distinct.nodup
  rcases step_round hround hstep with ⟨hsame, hnil⟩ | ⟨conns, hs, ht, hnil⟩ |
      ⟨x, todo, conns, hs, ht, hskip⟩ | ⟨x, todo, conns, details, hs, ht, hnil⟩ |
      ⟨update, todo, conns, hs, ht, hsend⟩
  · rw [hnil, List.append_nil]
    refine ⟨htakes, fun r hr ↦ h.conns r (hsame ▸ hr), ?_⟩
    rw [pending, hsame]
    exact hawaits
  · rw [hnil, List.append_nil]
    refine ⟨htakes, fun r hr ↦ by simp [ht] at hr, ?_⟩
    rw [pending_of_round hs] at hawaits
    rw [pending, ht]
    exact hawaits
  · rw [pending_of_round hs] at hawaits hnodup
    have hconns : i ∈ conns := h.conns _ hs
    refine ⟨htakes, fun r hr ↦ ?_, ?_⟩
    · obtain rfl := Option.some_inj.mp (ht.symm.trans hr)
      exact hconns
    · rw [hskip, pending_of_round ht]
      exact hawaits.skipped hnodup
  · rw [hnil, List.append_nil]
    rw [pending_of_round hs] at hawaits
    have hconns : i ∈ conns := h.conns _ hs
    refine ⟨htakes, fun r hr ↦ ?_, ?_⟩
    · obtain rfl := Option.some_inj.mp (ht.symm.trans hr)
      exact hconns
    · rw [pending_of_round ht]
      exact hawaits
  · rw [pending_of_round hs] at hawaits hnodup
    have hconns : i ∈ conns := h.conns _ hs
    refine ⟨htakes, fun r hr ↦ ?_, ?_⟩
    · obtain rfl := Option.some_inj.mp (ht.symm.trans hr)
      exact hconns
    · rw [hsend, pending_of_round ht]
      refine hawaits.delivered hnodup ((horderly.conns _ hs).filter _) ?_
      rw [List.mem_filter, decide_eq_true_iff]
      constructor
      · rintro ⟨-, hother⟩
        have hsub := Option.some_inj.mp (hother.symm.trans h.takes)
        exact Option.some_inj.mp (congrArg Subscriber.sub hsub)
      · intro heq
        exact ⟨hconns, heq ▸ h.takes⟩

/-- A client that is gone gets nothing. -/
theorem DetailState.Gone.outgoing (hgone : s.Gone i) (hround : ¬e.Collects)
    (hstep : s.step parse e = some t) : updatesOf i (s.outgoing e) = [] := by
  rcases step_round hround hstep with ⟨-, hnil⟩ | ⟨conns, -, -, hnil⟩ |
      ⟨x, todo, conns, -, -, hskip⟩ | ⟨x, todo, conns, details, -, -, hnil⟩ |
      ⟨update, todo, conns, -, -, hsend⟩
  · rw [hnil]
    rfl
  · rw [hnil]
    rfl
  · rw [hskip]
    rfl
  · rw [hnil]
    rfl
  · rw [hsend, updatesOf, List.filterMap_eq_nil_iff]
    intro out hout
    obtain ⟨j, hj, rfl⟩ := List.mem_map.mp hout
    have htakes := of_decide_eq_true (List.mem_filter.mp hj).2
    refine if_neg ?_
    rintro rfl
    exact absurd (Option.some_inj.mp (hgone.symm.trans htakes)) (by simp)

/-- A client that is gone gets nothing for the rest of the round, and stays gone. -/
theorem DetailState.Gone.exec {es : List DetailEvent} (hgone : s.Gone i)
    (hround : ∀ e ∈ es, ¬e.Collects) (hexec : exec (DetailState.step parse) s es = some t) :
    updatesOf i (emitted (DetailState.step parse) DetailState.outgoing s es) = [] ∧ t.Gone i :=
  (guarded_of_forall_mem _ hround s).exec_emitted
    (P := fun log s ↦ updatesOf i log = [] ∧ DetailState.Gone s i) (l := [])
    (fun log s e t hs he hstep ↦ by
      rw [updatesOf_append, hs.1, List.nil_append]
      exact ⟨hs.2.outgoing he hstep, hs.2.step hstep⟩) ⟨rfl, hgone⟩ hexec

end

/-! ## Rounds -/

variable {parse : String → Option Json}

/-- **Once per round.** Between the beginning of a round and the next, whatever clients do and
however Redis answers: no client gets two updates of one submission; a client that is subscribed to
a submission when the round begins, and stays so, has got exactly one update when the round is over,
of that submission, or none because the hash could not be read or was empty; and a client whose
connection has been closed, before the round or while it goes on, gets nothing from then on. -/
theorem updates_once_per_round {s t u : DetailState} {order : List String} {es : List DetailEvent}
    (hcollect : s.step parse (.collect order) = some t) (hround : ∀ e ∈ es, ¬e.Collects)
    (hexec : exec (DetailState.step parse) t es = some u) :
    let log := emitted (DetailState.step parse) DetailState.outgoing t es
    (∀ i, ((updatesOf i log).map DetailUpdate.submissionId).Nodup) ∧
    (∀ i subId, s.Takes subId i → (∀ e ∈ es, ¬e.Concerns i) → u.round = none →
      Served i subId log) ∧
    (∀ i, s.Gone i → updatesOf i log = [] ∧ u.Gone i) ∧
    ∀ i es₁ es₂ v, es = es₁ ++ es₂ → exec (DetailState.step parse) t es₁ = some v → v.Gone i →
      updatesOf i log = updatesOf i (emitted (DetailState.step parse) DetailState.outgoing t es₁) ∧
        u.Gone i := by
  rw [DetailState.step] at hcollect
  split_ifs at hcollect with hbegin
  obtain rfl := Option.some_inj.mp hcollect
  have horderly : ∀ i, DetailState.Orderly i [] { s with round := some (.read order s.conns) } := by
    intro i
    refine ⟨⟨hbegin.2.1, List.nodup_nil, fun _ _ ↦ List.not_mem_nil⟩, fun r hr ↦ ?_⟩
    obtain rfl := Option.some_inj.mp hr
    exact s.nodup_conns
  have hguard : Guarded (DetailState.step parse) (fun _ e ↦ ¬e.Collects)
      { s with round := some (.read order s.conns) } es :=
    guarded_of_forall_mem _ hround _
  refine ⟨fun i ↦ ?_, fun i subId htakes hconcerns hover ↦ ?_, fun i hgone ↦ ?_,
    fun i es₁ es₂ v hsplit hbefore hgone ↦ ?_⟩
  · have hlast := hguard.exec_emitted
      (P := fun log s ↦ DetailState.Orderly i log s)
      (fun log s e t hs he hstep ↦ hs.step he hstep) (horderly i) hexec
    exact hlast.distinct.updates
  · have hmem : subId ∈ order := by
      rw [← List.mem_toFinset, hbegin.2.2, DetailState.activeSubs, List.mem_toFinset]
      exact List.mem_filterMap.mpr ⟨_, List.mem_of_getElem? htakes, rfl⟩
    have hconns : i ∈ s.conns := by
      refine List.mem_filter.mpr ⟨List.mem_range.mpr (List.getElem?_eq_some_iff.mp htakes).1, ?_⟩
      rw [htakes]
      rfl
    have hsteady : DetailState.Steady i subId []
        { s with round := some (.read order s.conns) } := by
      refine ⟨htakes, fun r hr ↦ ?_, Or.inl ⟨hmem, rfl⟩⟩
      obtain rfl := Option.some_inj.mp hr
      exact hconns
    have hallowed : ∀ e ∈ es, ¬e.Collects ∧ ¬e.Concerns i := fun e he ↦
      ⟨hround e he, hconcerns e he⟩
    have hlast := (guarded_of_forall_mem _ hallowed _).exec_emitted
      (P := fun log s ↦ DetailState.Orderly i log s ∧ DetailState.Steady i subId log s)
      (fun log s e t hs he hstep ↦
        ⟨hs.1.step he.1 hstep, hs.2.step hs.1 he.1 he.2 hstep⟩) ⟨horderly i, hsteady⟩ hexec
    rcases hlast.2.awaits with ⟨hpending, -⟩ | ⟨-, hserved⟩
    · rw [DetailState.pending, hover] at hpending
      exact absurd hpending List.not_mem_nil
    · exact hserved
  · exact DetailState.Gone.exec hgone hround hexec
  · subst hsplit
    rw [exec_append, hbefore, Option.bind_some] at hexec
    have hlater : ∀ e ∈ es₂, ¬e.Collects := fun e he ↦ hround e (List.mem_append_right _ he)
    obtain ⟨hnothing, hstays⟩ := hgone.exec hlater hexec
    rw [emitted_append es₂ hbefore, updatesOf_append, hnothing, List.append_nil]
    exact ⟨rfl, hstays⟩

/-- Three clients: one stays subscribed, one turns to another submission during the round, after
which its connection is closed, and the connection of one has been closed before. -/
def watched : DetailState :=
  ⟨[⟨true, some "a"⟩, ⟨true, some "b"⟩, ⟨false, none⟩], none⟩

def watchedRound : List DetailEvent :=
  [.read (some [("latency_p50", "7")]), .message 1 (.object
      [("type", .string "subscribe_detail"), ("submission_id", .string "a")]),
    .send, .disconnect 1, .closed 1, .read none, .read none]

theorem updates_once_per_round_watched : ∃ t u,
    watched.step (fun _ ↦ none) (.collect ["a", "b"]) = some t ∧
    exec (DetailState.step fun _ ↦ none) t watchedRound = some u ∧
    let log := emitted (DetailState.step fun _ ↦ none) DetailState.outgoing t watchedRound
    (∀ i, ((updatesOf i log).map DetailUpdate.submissionId).Nodup) ∧
    (∀ i subId, watched.Takes subId i → (∀ e ∈ watchedRound, ¬e.Concerns i) → u.round = none →
      Served i subId log) ∧
    (∀ i, watched.Gone i → updatesOf i log = [] ∧ u.Gone i) ∧
    ∀ i es₁ es₂ v, watchedRound = es₁ ++ es₂ →
      exec (DetailState.step fun _ ↦ none) t es₁ = some v → v.Gone i →
      updatesOf i log =
          updatesOf i (emitted (DetailState.step fun _ ↦ none) DetailState.outgoing t es₁) ∧
        u.Gone i := by
  have hround : ∀ e ∈ watchedRound, ¬e.Collects := by
    simp [watchedRound, DetailEvent.Collects]
  obtain ⟨t, ht⟩ := Option.isSome_iff_exists.mp
    (show (watched.step (fun _ ↦ none) (.collect ["a", "b"])).isSome = true by decide +kernel)
  have hrun : ((watched.step (fun _ ↦ none) (.collect ["a", "b"])).bind fun t ↦
      exec (DetailState.step fun _ ↦ none) t watchedRound).isSome = true := by
    decide +kernel
  rw [ht, Option.bind_some] at hrun
  obtain ⟨u, hu⟩ := Option.isSome_iff_exists.mp hrun
  exact ⟨t, u, ht, hu, updates_once_per_round ht hround hu⟩

end BenchmarkPlatform.Leaderboard
