import Mathlib.Algebra.Order.Ring.Rat
import Mathlib.Data.List.Sort
import Mathlib.Data.Prod.Lex
import Mathlib.Data.String.Basic
import BenchmarkPlatform.Lib.Loop

/-!
# The leaderboard in Redis

The scoring engine and the submission service keep the leaderboard in Redis: a sorted set of teams
by composite score, and a hash for each team with the details of its run. The leaderboard service
reads it with `fetchLeaderboard`, one command at a time, while others write. What it returns is the
leaderboard of no moment in particular, unless nothing was written while it read (`Fetch.Fresh`).
-/

namespace BenchmarkPlatform.Leaderboard

open Lib

/-! ## The sorted set -/

/-- ZREVRANGE goes by descending score, and by descending name among equal scores. -/
def rankKey (e : String × ℚ) : ℚ ×ₗ String := toLex (e.2, e.1)

def Outranks (a b : String × ℚ) : Prop := rankKey b ≤ rankKey a

instance : DecidableRel Outranks := fun a b ↦ inferInstanceAs (Decidable (rankKey b ≤ rankKey a))

instance : Std.Total Outranks := ⟨fun a b ↦ le_total (rankKey b) (rankKey a)⟩

instance : IsTrans (String × ℚ) Outranks := ⟨fun _ _ _ hab hbc ↦ le_trans hbc hab⟩

/-- A sorted set, in the order of ZREVRANGE. -/
structure SortedSet where
  entries : List (String × ℚ)
  ranked : entries.Pairwise Outranks
  unique : (entries.map Prod.fst).Nodup

namespace SortedSet

def empty : SortedSet := ⟨[], List.Pairwise.nil, List.nodup_nil⟩

def zrem (z : SortedSet) (team : String) : SortedSet where
  entries := z.entries.filter fun e ↦ e.1 ≠ team
  ranked := z.ranked.filter _
  unique := z.unique.sublist (List.filter_sublist.map Prod.fst)

theorem notMem_zrem (z : SortedSet) (team : String) :
    team ∉ (z.zrem team).entries.map Prod.fst := by
  simp [zrem]

/-- A team that is in the set gets a new score, and its new place. -/
def zadd (z : SortedSet) (team : String) (score : ℚ) : SortedSet where
  entries := (z.zrem team).entries.orderedInsert Outranks (team, score)
  ranked := (z.zrem team).ranked.orderedInsert _ _
  unique := by
    have hperm := List.perm_orderedInsert Outranks (team, score) (z.zrem team).entries
    refine (hperm.map Prod.fst).nodup_iff.mpr ?_
    exact List.nodup_cons.mpr ⟨z.notMem_zrem team, (z.zrem team).unique⟩

end SortedSet

/-! ## The store and the commands that change it -/

/-- The fields of a hash. A key that is not there reads as a hash without fields. -/
abbrev Details := String → Option String

structure Store where
  /-- The sorted set `leaderboard`. -/
  leaderboard : SortedSet
  /-- The hash `scores:<team>`. -/
  scores : String → Details

inductive Command
  | zadd (team : String) (score : ℚ)
  | hmset (team : String) (fields : List (String × String))
  | zrem (team : String)
  | del (team : String)

namespace Store

def empty : Store := ⟨.empty, fun _ _ ↦ none⟩

def run (s : Store) : Command → Store
  | .zadd team score => { s with leaderboard := s.leaderboard.zadd team score }
  | .hmset team fields =>
    { s with scores := Function.update s.scores team fun key ↦
        (fields.lookup key).or (s.scores team key) }
  | .zrem team => { s with leaderboard := s.leaderboard.zrem team }
  | .del team => { s with scores := Function.update s.scores team fun _ ↦ none }

/-- `ZREVRANGE leaderboard 0 49 WITHSCORES`. -/
def zrevrange (s : Store) : List (String × ℚ) := s.leaderboard.entries.take 50

end Store

/-! ## The entries -/

structure LeaderboardEntry where
  rank : ℕ
  teamId : String
  compositeScore : ℚ
  latencyP50Us : ℤ
  latencyP90Us : ℤ
  latencyP99Us : ℤ
  maxTps : ℤ
  correctness : ℚ
  deriving DecidableEq

/-- `nlohmann::json::parse(str).get<T>()` for the two types of numbers, `none` where it throws. -/
structure JsonNumbers where
  int : String → Option ℤ
  double : String → Option ℚ

variable {json : JsonNumbers} {store : Store}

def JsonNumbers.parseJsonNumberInt (json : JsonNumbers) (str : String) : ℤ := (json.int str).getD 0

def JsonNumbers.parseJsonNumberDouble (json : JsonNumbers) (str : String) : ℚ :=
  (json.double str).getD 0

def makeEntry (json : JsonNumbers) (rank : ℕ) (result : String × ℚ) (details : Details) :
    LeaderboardEntry where
  rank := rank
  teamId := result.1
  compositeScore := result.2
  latencyP50Us := (details "latency_p50").elim 0 json.parseJsonNumberInt
  latencyP90Us := (details "latency_p90").elim 0 json.parseJsonNumberInt
  latencyP99Us := (details "latency_p99").elim 0 json.parseJsonNumberInt
  maxTps := (details "max_tps").elim 0 json.parseJsonNumberInt
  correctness := (details "correctness").elim 0 json.parseJsonNumberDouble

/-- The loop over the results and the replies. -/
def makeEntries (json : JsonNumbers) :
    ℕ → List (String × ℚ) → List Details → List LeaderboardEntry
  | rank, result :: results, details :: replies =>
    makeEntry json rank result details :: makeEntries json (rank + 1) results replies
  | _, _, _ => []

/-- The current leaderboard: what `fetchLeaderboard` returns while nothing is written. -/
def fetchLeaderboard (json : JsonNumbers) (store : Store) : List LeaderboardEntry :=
  makeEntries json 1 store.zrevrange (store.zrevrange.map fun r ↦ store.scores r.1)

theorem map_makeEntries {α : Type*} {f : LeaderboardEntry → α} {g : String × ℚ → α}
    (hfg : ∀ rank result details, f (makeEntry json rank result details) = g result)
    {h : String × ℚ → Details} {rank : ℕ} {results : List (String × ℚ)} :
    (makeEntries json rank results (results.map h)).map f = results.map g := by
  induction results generalizing rank with
  | nil => rfl
  | cons result results ih =>
    rw [List.map_cons, makeEntries, List.map_cons, List.map_cons, ih, hfg]

theorem map_rank_makeEntries {h : String × ℚ → Details} {rank : ℕ}
    {results : List (String × ℚ)} :
    (makeEntries json rank results (results.map h)).map LeaderboardEntry.rank =
      List.range' rank results.length := by
  induction results generalizing rank with
  | nil => rfl
  | cons result results ih =>
    rw [List.map_cons, makeEntries, List.map_cons, ih, List.length_cons, List.range'_succ]
    rfl

/-- The ranks count from one. -/
theorem map_rank_fetchLeaderboard :
    (fetchLeaderboard json store).map LeaderboardEntry.rank =
      List.range' 1 store.zrevrange.length :=
  map_rank_makeEntries

/-- The scores do not increase along the leaderboard. -/
theorem pairwise_fetchLeaderboard :
    ((fetchLeaderboard json store).map LeaderboardEntry.compositeScore).Pairwise (· ≥ ·) := by
  rw [fetchLeaderboard, map_makeEntries (g := Prod.snd) fun _ _ _ ↦ rfl]
  refine List.pairwise_map.mpr ((store.leaderboard.ranked.take).imp fun hab ↦ ?_)
  exact (Prod.Lex.monotone_fst _ _ hab)

/-! ## Reading command by command -/

/-- `fetchLeaderboard` before its next command: the range, then the hash of each team in it. -/
inductive Fetch
  | zrevrange
  | hgetall (results : List (String × ℚ)) (replies : List Details)

namespace Fetch

/-- The next command. After the last reply the entries are made. -/
def advance (json : JsonNumbers) (store : Store) : Fetch → Fetch ⊕ List LeaderboardEntry
  | .zrevrange =>
    if store.zrevrange = [] then .inr [] else .inl (.hgetall store.zrevrange [])
  | .hgetall results replies =>
    match results[replies.length]? with
    | some result => .inl (.hgetall results (replies ++ [store.scores result.1]))
    | none => .inr (makeEntries json 1 results replies)

/-- All that has been read is still so. -/
def Fresh (store : Store) : Fetch → Prop
  | .zrevrange => True
  | .hgetall results replies =>
    results = store.zrevrange ∧ replies <+: results.map fun r ↦ store.scores r.1

/-- While the store does not change, a fetch stays fresh until it returns the leaderboard. -/
theorem Fresh.advance (json : JsonNumbers) {f : Fetch} (h : f.Fresh store) :
    match f.advance json store with
    | .inl f' => f'.Fresh store
    | .inr entries => entries = fetchLeaderboard json store := by
  cases f with
  | zrevrange =>
    rw [Fetch.advance]
    split_ifs with hempty
    · simp [fetchLeaderboard, hempty, makeEntries]
    · exact ⟨rfl, List.nil_prefix⟩
  | hgetall results replies =>
    obtain ⟨rfl, hreplies⟩ := h
    rw [Fetch.advance]
    rcases hnext : store.zrevrange[replies.length]? with _ | result
    · -- all hashes have been read
      have hlength : (store.zrevrange.map fun r ↦ store.scores r.1).length ≤ replies.length := by
        rw [List.length_map]
        exact List.getElem?_eq_none_iff.mp hnext
      have hall := hreplies.eq_of_length_le hlength
      simp [fetchLeaderboard, hall]
    · refine ⟨rfl, ?_⟩
      obtain ⟨rest, hrest⟩ := hreplies
      have hhead : rest[0]? = some (store.scores result.1) := by
        have hget := congrArg (fun l : List Details ↦ l[replies.length]?) hrest
        simp only [List.getElem?_append_right (Nat.le_refl _), Nat.sub_self] at hget
        simpa [hnext] using hget
      cases rest with
      | nil => simp at hhead
      | cons details rest =>
        obtain rfl := Option.some_inj.mp hhead
        exact ⟨rest, by rw [← hrest, List.append_assoc]; rfl⟩

/-- **A fetch of an unchanged store** returns the leaderboard. -/
theorem returns_fetchLeaderboard (json : JsonNumbers) (store : Store) :
    Returns (advance json store) .zrevrange (fetchLeaderboard json store) := by
  -- from the replies that are still missing
  have hloop : ∀ n replies, (hgetall store.zrevrange replies).Fresh store →
      n + replies.length = store.zrevrange.length →
      Returns (advance json store) (.hgetall store.zrevrange replies)
        (fetchLeaderboard json store) := by
    intro n
    induction n with
    | zero =>
      intro replies hfresh hn
      have hnone : store.zrevrange[replies.length]? = none :=
        List.getElem?_eq_none (by omega)
      have hentries := hfresh.advance json
      have hbody : advance json store (.hgetall store.zrevrange replies) =
          .inr (makeEntries json 1 store.zrevrange replies) := by
        rw [advance, hnone]
      rw [hbody] at hentries
      exact (returns_iff_of_inr hbody).mpr hentries
    | succ n ih =>
      intro replies hfresh hn
      have hsome := List.getElem?_eq_getElem (l := store.zrevrange) (i := replies.length) (by omega)
      have hnext := hfresh.advance json
      have hbody : advance json store (.hgetall store.zrevrange replies) = .inl (.hgetall
          store.zrevrange (replies ++ [store.scores store.zrevrange[replies.length].1])) := by
        rw [advance, hsome]
      rw [hbody] at hnext
      refine (returns_iff_of_inl hbody).mpr (ih _ hnext ?_)
      rw [List.length_append, List.length_singleton]
      omega
  by_cases hempty : store.zrevrange = []
  · have hbody : advance json store .zrevrange = .inr [] := by rw [advance, if_pos hempty]
    refine (returns_iff_of_inr hbody).mpr ?_
    simp [fetchLeaderboard, hempty, makeEntries]
  · have hbody : advance json store .zrevrange = .inl (.hgetall store.zrevrange []) := by
      rw [advance, if_neg hempty]
    refine (returns_iff_of_inl hbody).mpr ?_
    exact hloop store.zrevrange.length [] ⟨rfl, List.nil_prefix⟩ (Nat.add_zero _)

end Fetch

end BenchmarkPlatform.Leaderboard
