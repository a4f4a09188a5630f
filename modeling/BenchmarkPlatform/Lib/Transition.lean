import Mathlib.Algebra.BigOperators.Group.List.Basic
import Mathlib.Data.List.Basic

/-!
# Labelled transition systems

Threads that share state are modelled by a partial step function: `step s i` is the state after the
step `i`, or `none` when the step is not enabled in `s`. A list of labels is then one interleaving,
and `exec` follows it as long as each step is enabled.

Some laws hold only of the interleavings in which no step is taken in an unlucky state. `Guarded`
says that every step of a run was taken in a state that meets a condition, and the invariant rule
comes in that generality.
-/

namespace BenchmarkPlatform.Lib

variable {σ ι : Type*} {step : σ → ι → Option σ}

/-- Take the steps of a list in order, if they are all enabled. -/
def exec (step : σ → ι → Option σ) : σ → List ι → Option σ
  | s, [] => some s
  | s, i :: is => (step s i).bind fun s' ↦ exec step s' is

@[simp] theorem exec_nil (s : σ) : exec step s [] = some s := rfl

theorem exec_cons (s : σ) (i : ι) (is : List ι) :
    exec step s (i :: is) = (step s i).bind fun s' ↦ exec step s' is := rfl

theorem exec_cons_eq_some {s s' : σ} {i : ι} {is : List ι} :
    exec step s (i :: is) = some s' ↔ ∃ t, step s i = some t ∧ exec step t is = some s' := by
  rw [exec_cons, Option.bind_eq_some_iff]

theorem exec_append (s : σ) (is js : List ι) :
    exec step s (is ++ js) = (exec step s is).bind fun t ↦ exec step t js := by
  induction is generalizing s with
  | nil => rfl
  | cons i is ih =>
    rw [List.cons_append, exec_cons, exec_cons, Option.bind_assoc]
    simp only [ih]

/-- Every step of a run is taken in a state that meets the guard. -/
def Guarded (step : σ → ι → Option σ) (guard : σ → ι → Prop) : σ → List ι → Prop
  | _, [] => True
  | s, i :: is => guard s i ∧ ∀ s', step s i = some s' → Guarded step guard s' is

instance Guarded.decidable {guard : σ → ι → Prop} [∀ s i, Decidable (guard s i)] :
    ∀ s is, Decidable (Guarded step guard s is)
  | _, [] => isTrue trivial
  | s, i :: is =>
    match h : step s i with
    | none => decidable_of_iff (guard s i)
        ⟨fun hg ↦ ⟨hg, fun t ht ↦ by simp [h] at ht⟩, fun hg ↦ hg.1⟩
    | some t =>
      have : Decidable (Guarded step guard t is) := Guarded.decidable t is
      decidable_of_iff (guard s i ∧ Guarded step guard t is)
        ⟨fun hg ↦ ⟨hg.1, fun t' ht' ↦ Option.some_inj.mp (h.symm.trans ht') ▸ hg.2⟩,
          fun hg ↦ ⟨hg.1, hg.2 t h⟩⟩

theorem guarded_append {guard : σ → ι → Prop} (s : σ) (is js : List ι) :
    Guarded step guard s (is ++ js) ↔
      Guarded step guard s is ∧ ∀ s', exec step s is = some s' → Guarded step guard s' js := by
  induction is generalizing s with
  | nil => simp [Guarded]
  | cons i is ih =>
    simp only [List.cons_append, Guarded, ih, exec_cons_eq_some]
    constructor
    · rintro ⟨hg, h⟩
      exact ⟨⟨hg, fun t ht ↦ (h t ht).1⟩, fun s' ⟨t, ht, hexec⟩ ↦ (h t ht).2 s' hexec⟩
    · rintro ⟨⟨hg, h⟩, h'⟩
      exact ⟨hg, fun t ht ↦ ⟨h t ht, fun s' hexec ↦ h' s' ⟨t, ht, hexec⟩⟩⟩

/-- **Invariants of guarded runs.** What each step preserves from states that meet the guard, a
guarded run preserves. -/
theorem Guarded.invariant {guard : σ → ι → Prop} {P : σ → Prop}
    (hstep : ∀ s i s', P s → guard s i → step s i = some s' → P s') {s s' : σ} {is : List ι}
    (hguard : Guarded step guard s is) (hs : P s) (hexec : exec step s is = some s') : P s' := by
  induction is generalizing s with
  | nil =>
    rw [exec_nil, Option.some_inj] at hexec
    exact hexec ▸ hs
  | cons i is ih =>
    obtain ⟨t, ht, hrest⟩ := exec_cons_eq_some.mp hexec
    exact ih (hguard.2 t ht) (hstep s i t hs hguard.1 ht) hrest

/-- A guard that does not look at the state is met when all labels meet it. -/
theorem guarded_of_forall_mem (allowed : ι → Prop) {is : List ι} (h : ∀ i ∈ is, allowed i) (s : σ) :
    Guarded step (fun _ i ↦ allowed i) s is := by
  induction is generalizing s with
  | nil => trivial
  | cons i is ih =>
    exact ⟨h i List.mem_cons_self, fun s' _ ↦ ih (fun j hj ↦ h j (List.mem_cons_of_mem i hj)) s'⟩

/-- **Invariants.** What every step preserves, every run preserves. -/
theorem exec_invariant {P : σ → Prop} (hstep : ∀ s i s', P s → step s i = some s' → P s')
    {s s' : σ} {is : List ι} (hs : P s) (hexec : exec step s is = some s') : P s' :=
  (guarded_of_forall_mem (fun _ ↦ True) (fun _ _ ↦ trivial) s).invariant
    (fun s i s' hP _ ↦ hstep s i s' hP) hs hexec

theorem guarded_cons {guard : σ → ι → Prop} {s t : σ} {i : ι} {is : List ι}
    (ht : step s i = some t) :
    Guarded step guard s (i :: is) ↔ guard s i ∧ Guarded step guard t is := by
  simp [Guarded, ht]

/-- **Exact guards.** If a fault is never repaired, and the guard says of each step from a state
without fault whether it brings one about, then the guarded runs are those that end without
fault. -/
theorem guarded_iff_not {guard : σ → ι → Prop} {P fault : σ → Prop}
    (hinv : ∀ s i s', P s → step s i = some s' → P s')
    (hmono : ∀ s i s', P s → fault s → step s i = some s' → fault s')
    (hguard : ∀ s i s', P s → ¬fault s → step s i = some s' → (guard s i ↔ ¬fault s'))
    {s s' : σ} {is : List ι} (hs : P s) (hgood : ¬fault s) (hexec : exec step s is = some s') :
    Guarded step guard s is ↔ ¬fault s' := by
  induction is generalizing s with
  | nil =>
    obtain rfl := Option.some_inj.mp hexec
    exact iff_of_true trivial hgood
  | cons i is ih =>
    obtain ⟨t, ht, hrest⟩ := exec_cons_eq_some.mp hexec
    rw [guarded_cons ht, hguard s i t hs hgood ht]
    by_cases hfault : fault t
    · have hkeep : ∀ u j u', P u ∧ fault u → step u j = some u' → P u' ∧ fault u' :=
        fun u j u' h hstep ↦ ⟨hinv u j u' h.1 hstep, hmono u j u' h.1 h.2 hstep⟩
      have hlast := exec_invariant hkeep ⟨hinv s i t hs ht, hfault⟩ hrest
      exact iff_of_false (fun h ↦ h.1 hfault) fun h ↦ h hlast.2
    · rw [ih (hinv s i t hs ht) hfault hrest]
      exact and_iff_right hfault

/-- **Exact guards, for laws that can be restored.** If the guard says of each step from a good
state whether it leads to a good state, then the guarded runs are those all of whose states are
good. -/
theorem guarded_iff_prefixes_good {guard : σ → ι → Prop} {P good : σ → Prop}
    (hinv : ∀ s i s', P s → step s i = some s' → P s')
    (hguard : ∀ s i s', P s → good s → step s i = some s' → (guard s i ↔ good s'))
    {s s' : σ} {is : List ι} (hs : P s) (hgood : good s) (hexec : exec step s is = some s') :
    Guarded step guard s is ↔
      ∀ js, js <+: is → ∀ t, exec step s js = some t → good t := by
  induction is generalizing s with
  | nil =>
    refine iff_of_true trivial fun js hjs t ht ↦ ?_
    obtain rfl := List.prefix_nil.mp hjs
    exact Option.some_inj.mp ht ▸ hgood
  | cons i is ih =>
    obtain ⟨u, hu, hrest⟩ := exec_cons_eq_some.mp hexec
    rw [guarded_cons hu, hguard s i u hs hgood hu]
    constructor
    · rintro ⟨hgoodu, hg⟩ js hjs t ht
      rcases List.prefix_cons_iff.mp hjs with rfl | ⟨js, rfl, htail⟩
      · exact Option.some_inj.mp ht ▸ hgood
      · rw [exec_cons, hu, Option.bind_some] at ht
        exact (ih (hinv s i u hs hu) hgoodu hrest).mp hg js htail t ht
    · intro hall
      have hgoodu : good u :=
        hall [i] (List.prefix_cons_inj i |>.mpr List.nil_prefix) u (by rw [exec_cons, hu]; rfl)
      refine ⟨hgoodu, (ih (hinv s i u hs hu) hgoodu hrest).mpr fun js hjs t ht ↦ ?_⟩
      exact hall (i :: js) ((List.prefix_cons_inj i).mpr hjs) t (by rw [exec_cons, hu]; exact ht)

/-- **Driving a system.** If from every state that is not done a guarded run leads closer, one leads
to a state that is done. -/
theorem exists_guarded_exec {guard : σ → ι → Prop} {P done : σ → Prop} (distance : σ → ℕ)
    (hcloser : ∀ s, P s → ¬done s → ∃ is t, Guarded step guard s is ∧ exec step s is = some t ∧
      P t ∧ distance t < distance s) {s : σ} (hs : P s) :
    ∃ is t, Guarded step guard s is ∧ exec step s is = some t ∧ P t ∧ done t := by
  induction hn : distance s using Nat.strongRecOn generalizing s with
  | ind n ih =>
    by_cases hdone : done s
    · exact ⟨[], s, trivial, exec_nil s, hs, hdone⟩
    · obtain ⟨is, t, hguard, hexec, ht, hlt⟩ := hcloser s hs hdone
      obtain ⟨js, u, hguard', hexec', hu⟩ := ih (distance t) (hn ▸ hlt) ht rfl
      refine ⟨is ++ js, u, (guarded_append s is js).mpr ⟨hguard, fun t' ht' ↦ ?_⟩, ?_, hu⟩
      · exact Option.some_inj.mp (hexec.symm.trans ht') ▸ hguard'
      · rw [exec_append, hexec, Option.bind_some, hexec']

/-! ## What the steps of a run emit -/

section Emitted

variable {ο : Type*} {emit : σ → ι → List ο}

/-- What the steps of a run emit, in order. -/
def emitted (step : σ → ι → Option σ) (emit : σ → ι → List ο) : σ → List ι → List ο
  | _, [] => []
  | s, i :: is => emit s i ++ (step s i).elim [] fun t ↦ emitted step emit t is

theorem emitted_append {s t : σ} {is : List ι} (js : List ι) (h : exec step s is = some t) :
    emitted step emit s (is ++ js) = emitted step emit s is ++ emitted step emit t js := by
  induction is generalizing s with
  | nil =>
    obtain rfl := Option.some_inj.mp h
    rfl
  | cons i is ih =>
    obtain ⟨u, hu, hrest⟩ := exec_cons_eq_some.mp h
    rw [List.cons_append, emitted, emitted, hu, Option.elim_some, Option.elim_some, ih hrest,
      List.append_assoc]

/-- **Invariants of what was emitted.** What every step from a state that meets the guard preserves,
of the state and of all that was emitted up to it, a guarded run preserves. -/
theorem Guarded.exec_emitted {guard : σ → ι → Prop} {P : List ο → σ → Prop}
    (hstep : ∀ l s i t, P l s → guard s i → step s i = some t → P (l ++ emit s i) t)
    {l : List ο} {s s' : σ} {is : List ι} (hguard : Guarded step guard s is) (hs : P l s)
    (hexec : exec step s is = some s') : P (l ++ emitted step emit s is) s' := by
  induction is generalizing l s with
  | nil =>
    obtain rfl := Option.some_inj.mp hexec
    rw [emitted, List.append_nil]
    exact hs
  | cons i is ih =>
    obtain ⟨t, ht, hrest⟩ := exec_cons_eq_some.mp hexec
    rw [emitted, ht, Option.elim_some, ← List.append_assoc]
    exact ih (hguard.2 t ht) (hstep l s i t hs hguard.1 ht) hrest

/-- The same of all runs. -/
theorem exec_emitted {P : List ο → σ → Prop}
    (hstep : ∀ l s i t, P l s → step s i = some t → P (l ++ emit s i) t) {l : List ο} {s s' : σ}
    {is : List ι} (hs : P l s) (hexec : exec step s is = some s') :
    P (l ++ emitted step emit s is) s' :=
  (guarded_of_forall_mem (fun _ ↦ True) (fun _ _ ↦ trivial) s).exec_emitted
    (fun l s i t hP _ ↦ hstep l s i t hP) hs hexec

/-- Every entry of a log was right when it was made, going by the entries before it. -/
def Justified (right : List ο → ο → Prop) (log : List ο) : Prop :=
  ∀ past e future, log = past ++ e :: future → right past e

theorem justified_nil (right : List ο → ο → Prop) : Justified right [] := by
  intro past e future heq
  simp at heq

/-- One more entry, right going by all before it. -/
theorem Justified.concat {right : List ο → ο → Prop} {log : List ο} {e : ο}
    (h : Justified right log) (he : right log e) : Justified right (log ++ [e]) := by
  intro past e' future heq
  rcases List.eq_nil_or_concat' future with rfl | ⟨future, last, rfl⟩
  · obtain ⟨rfl, hlast⟩ := List.append_inj' heq rfl
    obtain rfl := List.singleton_inj.mp hlast
    exact he
  · rw [← List.cons_append, ← List.append_assoc] at heq
    exact h past e' future (List.append_inj_left' heq rfl)

theorem Justified.append {right : List ο → ο → Prop} {log new : List ο} (h : Justified right log)
    (hmono : ∀ past later e, right past e → right (past ++ later) e)
    (hnew : ∀ e ∈ new, right log e) : Justified right (log ++ new) := by
  intro past e future heq
  rcases List.append_eq_append_iff.mp heq with ⟨later, rfl, hlater⟩ | ⟨rest, hlog, hrest⟩
  · refine hmono log later e (hnew e ?_)
    rw [hlater]
    exact List.mem_append_right later List.mem_cons_self
  · cases rest with
    | nil =>
      rw [List.append_nil] at hlog
      rw [List.nil_append] at hrest
      rw [← hlog]
      refine hnew e ?_
      rw [← hrest]
      exact List.mem_cons_self
    | cons e' rest =>
      rw [List.cons_append, List.cons.injEq] at hrest
      exact h past e rest (by rw [hlog, hrest.1])

/-- **Conservation.** If no step loses anything or makes it up, what goes in over a run is what
comes out, but for the change of what is in store. -/
theorem exec_conserves {M : Type*} [AddCommMonoid M] (input : ι → M) (stock : σ → M)
    (output : ο → M)
    (hstep : ∀ s i t, step s i = some t →
      input i + stock s = ((emit s i).map output).sum + stock t) {s s' : σ} {is : List ι}
    (hexec : exec step s is = some s') :
    (is.map input).sum + stock s = ((emitted step emit s is).map output).sum + stock s' := by
  induction is generalizing s with
  | nil =>
    obtain rfl := Option.some_inj.mp hexec
    rfl
  | cons i is ih =>
    obtain ⟨t, ht, hrest⟩ := exec_cons_eq_some.mp hexec
    rw [emitted, ht, Option.elim_some, List.map_append, List.sum_append, List.map_cons,
      List.sum_cons, add_assoc, add_comm (is.map input).sum, ← add_assoc, hstep s i t ht, add_assoc,
      add_comm (stock t), ih hrest, ← add_assoc]

end Emitted

/-! ## Runs that come to an end -/

/-- **Bounded runs.** If every step of an allowed kind lowers a measure, the measure bounds how many
of them can be taken. -/
theorem exec_length_le (allowed : ι → Prop) (measure : σ → ℕ)
    (hstep : ∀ s i t, allowed i → step s i = some t → measure t < measure s) {s s' : σ}
    {is : List ι} (hallowed : ∀ i ∈ is, allowed i) (hexec : exec step s is = some s') :
    is.length + measure s' ≤ measure s := by
  induction is generalizing s with
  | nil =>
    obtain rfl := Option.some_inj.mp hexec
    exact Nat.le_of_eq (Nat.zero_add _)
  | cons i is ih =>
    obtain ⟨t, ht, hrest⟩ := exec_cons_eq_some.mp hexec
    have hlower := hstep s i t (hallowed i List.mem_cons_self) ht
    have htail := ih (fun j hj ↦ hallowed j (List.mem_cons_of_mem i hj)) hrest
    rw [List.length_cons]
    omega

/-! ## What a run can still bring about

Some laws hold from a state on as long as the steps are of an allowed kind. `Breakable` says that
such a law can still be broken. -/

/-- Some run of allowed steps takes a step against the law. -/
def Breakable (step : σ → ι → Option σ) (allowed law : σ → ι → Prop) (s : σ) : Prop :=
  ∃ is, Guarded step allowed s is ∧ ¬Guarded step law s is

theorem Breakable.now {allowed law : σ → ι → Prop} {s : σ} {i : ι} (ha : allowed s i)
    (hl : ¬law s i) : Breakable step allowed law s :=
  ⟨[i], ⟨ha, fun _ _ ↦ trivial⟩, fun h ↦ hl h.1⟩

theorem Breakable.later {allowed law : σ → ι → Prop} {s t : σ} {i : ι} (ha : allowed s i)
    (ht : step s i = some t) (h : Breakable step allowed law t) : Breakable step allowed law s := by
  obtain ⟨is, hallowed, hlaw⟩ := h
  refine ⟨i :: is, (guarded_cons ht).mpr ⟨ha, hallowed⟩, fun h ↦ hlaw ?_⟩
  exact ((guarded_cons ht).mp h).2

/-- A law that an invariant of the allowed steps implies cannot be broken. -/
theorem not_breakable {allowed law : σ → ι → Prop} {P : σ → Prop}
    (hinv : ∀ s i s', P s → allowed s i → step s i = some s' → P s')
    (hlaw : ∀ s i, P s → allowed s i → law s i) {s : σ} (hs : P s) :
    ¬Breakable step allowed law s := by
  rintro ⟨is, hallowed, hbroken⟩
  refine hbroken ?_
  clear hbroken
  induction is generalizing s with
  | nil => trivial
  | cons i is ih =>
    refine ⟨hlaw s i hs hallowed.1, fun t ht ↦ ?_⟩
    exact ih (hinv s i t hs hallowed.1 ht) (hallowed.2 t ht)

/-! ## One place of a list

What changes one entry of a list of parties changes a sum over the parties by what that entry
contributes. -/

section Place

variable {α : Type*}

theorem exists_split {l : List α} {i : ℕ} {a : α} (h : l[i]? = some a) :
    ∃ l₁ l₂, l = l₁ ++ a :: l₂ ∧ l₁.length = i ∧ ∀ a', l.set i a' = l₁ ++ a' :: l₂ := by
  obtain ⟨hi, hget⟩ := List.getElem?_eq_some_iff.mp h
  refine ⟨l.take i, l.drop (i + 1), ?_, ?_, fun a' ↦ ?_⟩
  · rw [← hget, List.getElem_cons_drop, List.take_append_drop]
  · rw [List.length_take, Nat.min_eq_left (Nat.le_of_lt hi)]
  · rw [List.set_eq_take_append_cons_drop, if_pos hi]

variable {M : Type*} [AddCommMonoid M]

/-- A sum over a list, seen from one of its entries. -/
theorem sum_map_split (f : α → M) (l₁ l₂ : List α) (a : α) :
    ((l₁ ++ a :: l₂).map f).sum = f a + ((l₁ ++ l₂).map f).sum := by
  rw [List.map_append, List.map_append, List.sum_append, List.sum_append, List.map_cons,
    List.sum_cons]
  exact add_left_comm _ _ _

/-- One part of a sum is replaced. -/
theorem sum_map_set (f : α → M) {l : List α} {i : ℕ} {a : α} (b : α) (ha : l[i]? = some a) :
    ((l.set i b).map f).sum + f a = (l.map f).sum + f b := by
  obtain ⟨l₁, l₂, hsplit, -, hset⟩ := exists_split ha
  rw [hset b, hsplit, sum_map_split, sum_map_split, add_right_comm, add_right_comm (f a),
    add_comm (f b)]

end Place

/-! ## Threads over a shared state

A pool is a shared state and a list of threads, each at its own program counter. A thread is added
at the end of the list and stays at its place, so a place is the name of a thread. -/

/-- A shared state and the program counters of the threads that work on it. -/
structure Pool (σ π : Type*) where
  shared : σ
  threads : List π

/-- A thread is started, or the thread at a place takes its next step. What a step reads from
outside is `ε`. -/
inductive PoolEvent (κ ε : Type*) where
  | start (k : κ)
  | run (i : ℕ) (e : ε)

/-- The thread that the event starts, if it starts one. -/
def PoolEvent.started {κ ε : Type*} : PoolEvent κ ε → Option κ
  | .start k => some k
  | .run _ _ => none

variable {π κ ε : Type*} {entry : κ → π} {advance : σ → ε → π → Option (σ × π)}

def Pool.next (entry : κ → π) (advance : σ → ε → π → Option (σ × π)) (p : Pool σ π) :
    PoolEvent κ ε → Option (Pool σ π)
  | .start k => some ⟨p.shared, p.threads ++ [entry k]⟩
  | .run i e =>
    match p.threads[i]? with
    | none => none
    | some pc => (advance p.shared e pc).map fun r ↦ ⟨r.1, p.threads.set i r.2⟩

/-- **What a step of a thread does**: the other threads keep their places. -/
theorem Pool.next_run {p q : Pool σ π} {i : ℕ} {e : ε}
    (h : p.next entry advance (.run i e) = some q) : ∃ l pc r s' pc',
      p.threads = l ++ pc :: r ∧ l.length = i ∧ advance p.shared e pc = some (s', pc') ∧
        q = ⟨s', l ++ pc' :: r⟩ := by
  rw [Pool.next] at h
  split at h
  · simp at h
  · rename_i pc hpc
    obtain ⟨⟨s', pc'⟩, hadvance, rfl⟩ := Option.map_eq_some_iff.mp h
    obtain ⟨l, r, hsplit, hi, hset⟩ := exists_split hpc
    exact ⟨l, pc, r, s', pc', hsplit, hi, hadvance, by rw [← hset]⟩

/-- What holds of all threads, and of a thread that is added, holds of all. -/
theorem Pool.forall_start {P : π → Prop} {threads : List π} {pc : π} (h : ∀ q ∈ threads, P q)
    (hpc : P pc) : ∀ q ∈ threads ++ [pc], P q := by
  intro q hq
  rcases List.mem_append.mp hq with hq | hq
  · exact h q hq
  · exact List.mem_singleton.mp hq ▸ hpc

/-- What holds of all threads before a step holds of them after it, if it holds of the one that took
the step and the others keep it. -/
theorem Pool.forall_run {P Q : π → Prop} {l r : List π} {pc pc' : π}
    (h : ∀ q ∈ l ++ pc :: r, P q) (hkeep : ∀ q, P q → Q q) (hpc' : Q pc') :
    ∀ q ∈ l ++ pc' :: r, Q q := by
  intro q hq
  rcases List.mem_append.mp hq with hq | hq
  · exact hkeep q (h q (List.mem_append_left _ hq))
  · rcases List.mem_cons.mp hq with rfl | hq
    · exact hpc'
    · exact hkeep q (h q (List.mem_append_right _ (List.mem_cons_of_mem _ hq)))

theorem Pool.run_eq_some {p : Pool σ π} {i : ℕ} {e : ε} {pc pc' : π} {s' : σ}
    (hpc : p.threads[i]? = some pc) (h : advance p.shared e pc = some (s', pc')) :
    p.next entry advance (.run i e : PoolEvent κ ε) = some ⟨s', p.threads.set i pc'⟩ := by
  rw [Pool.next, hpc]
  simp [h]

/-- Threads can be started one after the other before any of them takes a step. -/
theorem Pool.exec_start (p : Pool σ π) (ks : List κ) :
    exec (fun q ↦ q.next entry advance) p (ks.map (.start : κ → PoolEvent κ ε))
      = some ⟨p.shared, p.threads ++ ks.map entry⟩ := by
  induction ks generalizing p with
  | nil => rw [List.map_nil, List.map_nil, List.append_nil, exec_nil]
  | cons k ks ih =>
    have hstart : p.next entry advance (.start k : PoolEvent κ ε)
        = some ⟨p.shared, p.threads ++ [entry k]⟩ := rfl
    rw [List.map_cons, exec_cons, hstart, Option.bind_some, ih, List.append_assoc]
    rfl

/-- The event, for a pool with `n` more threads in front. -/
def PoolEvent.shift {κ ε : Type*} (n : ℕ) : PoolEvent κ ε → PoolEvent κ ε
  | .start k => .start k
  | .run i e => .run (n + i) e

/-- **Threads that do not run are a frame.** What some threads do in a pool of their own they also
do behind others that wait. -/
theorem Pool.exec_frame (front : List π) {p q : Pool σ π} {es : List (PoolEvent κ ε)}
    (h : exec (fun r : Pool σ π ↦ r.next entry advance) p es = some q) :
    exec (fun r : Pool σ π ↦ r.next entry advance) ⟨p.shared, front ++ p.threads⟩
        (es.map (PoolEvent.shift front.length))
      = some ⟨q.shared, front ++ q.threads⟩ := by
  induction es generalizing p with
  | nil =>
    obtain rfl := Option.some_inj.mp h
    rfl
  | cons e es ih =>
    obtain ⟨t, ht, hrest⟩ := exec_cons_eq_some.mp h
    refine exec_cons_eq_some.mpr ⟨⟨t.shared, front ++ t.threads⟩, ?_, ih hrest⟩
    cases e with
    | start k =>
      obtain rfl := Option.some_inj.mp ht
      simp only [PoolEvent.shift, Pool.next, List.append_assoc]
    | run i e =>
      obtain ⟨l, pc, r, s', pc', hsplit, hi, hadvance, rfl⟩ := Pool.next_run ht
      have hpc : (front ++ p.threads)[front.length + i]? = some pc := by
        rw [hsplit, ← hi, List.getElem?_append_right (Nat.le_add_right _ _),
          Nat.add_sub_cancel_left, List.getElem?_append_right (Nat.le_refl _), Nat.sub_self]
        rfl
      have hset : (front ++ p.threads).set (front.length + i) pc' = front ++ (l ++ pc' :: r) := by
        rw [hsplit, ← hi, List.set_append_right _ _ (Nat.le_add_right _ _),
          Nat.add_sub_cancel_left, List.set_append_right _ _ (Nat.le_refl _), Nat.sub_self]
        rfl
      have hrun : Pool.next entry advance ⟨p.shared, front ++ p.threads⟩
          (.run (front.length + i) e) = some ⟨s', (front ++ p.threads).set _ pc'⟩ :=
        Pool.run_eq_some hpc hadvance
      rw [hset] at hrun
      exact hrun

theorem Pool.getElem?_set {threads : List π} {i : ℕ} {pc pc' : π} (hpc : threads[i]? = some pc) :
    (threads.set i pc')[i]? = some pc' := by
  rw [List.getElem?_set_self (List.getElem?_eq_some_iff.mp hpc).1]

/-- A thread that runs while all others wait. -/
theorem Pool.exec_solo {threads : List π} {i : ℕ} {s s' : σ} {pc pc' : π} {es : List ε}
    (hpc : threads[i]? = some pc)
    (h : exec (fun (q : σ × π) e ↦ advance q.1 e q.2) (s, pc) es = some (s', pc')) :
    exec (fun r : Pool σ π ↦ r.next entry advance) ⟨s, threads⟩
        (es.map fun e ↦ (.run i e : PoolEvent κ ε))
      = some ⟨s', threads.set i pc'⟩ := by
  induction es generalizing s pc threads with
  | nil =>
    obtain ⟨rfl, rfl⟩ := Option.some_inj.mp h
    obtain ⟨hi, hget⟩ := List.getElem?_eq_some_iff.mp hpc
    rw [← hget, List.set_getElem_self]
    rfl
  | cons e es ih =>
    obtain ⟨⟨t, q⟩, hstep, hrest⟩ := exec_cons_eq_some.mp h
    have hset := ih (Pool.getElem?_set hpc) hrest
    rw [List.set_set] at hset
    have hrun : Pool.next entry advance ⟨s, threads⟩ (.run i e : PoolEvent κ ε)
        = some ⟨t, threads.set i q⟩ := Pool.run_eq_some hpc hstep
    exact exec_cons_eq_some.mpr ⟨_, hrun, hset⟩

end BenchmarkPlatform.Lib
