import BenchmarkPlatform.Gateway.Server
import Mathlib.Data.List.Forall2

/-!
# What passes the gateway

Whatever the order of the requests and of the answers of the services, a request that passes the
advice is sent to the service of its route once, with its own method, path and body and all of its
headers but five; a request that does not pass is sent to none. The answer of the service goes to
the client that has asked, with the id under which the service knows the request.

What carries this is `Attends`: each thread is where its own request has brought it, and what the
services were sent and have answered is what the threads say.
-/

namespace BenchmarkPlatform.Gateway

open Lib

/-! ## What a request is turned into -/

/-- The request is no preflight and, in production, has the API key. -/
structure Config.Admits (cfg : Config) (req : HttpRequest) : Prop where
  method : req.method ≠ .options
  key : cfg.devMode = false → req.headers.get "x-api-key" = cfg.apiKey

/-- The message is a copy of the request. It has the id of the request, or a new one. -/
structure HttpRequest.Copied (req message : HttpRequest) : Prop where
  method : message.method = req.method
  target : message.targetPath = req.targetPath
  body : message.body = req.body
  header : ∀ name, name ∉ notProxied → name ≠ "x-request-id" →
    message.headers.lookup name = req.headers.lookup name
  dropped : ∀ name ∈ notProxied, message.headers.lookup name = none
  id : message.headers.get "x-request-id" ≠ [] ∧ (req.headers.get "x-request-id" ≠ [] →
    message.headers.get "x-request-id" = req.headers.get "x-request-id")

/-- The headers of an answer in which the gateway has a say. -/
def ownHeaders : List String :=
  ["access-control-allow-origin", "vary", "access-control-allow-methods",
    "access-control-allow-headers", "access-control-expose-headers", "access-control-max-age",
    "x-request-id", "content-length", "transfer-encoding"]

/-- The client is given the answer of the service, or is told that there is none. -/
structure Call.Answers (call : Call) (resp : HttpResponse) : Prop where
  replied : ∀ reply ∈ call.result, resp.status = reply.status ∧
    resp.contentType = reply.contentType ∧ resp.body = reply.body ∧
    ∀ name, name ∉ ownHeaders → resp.headers.lookup name = reply.headers.lookup name
  failed : call.result = none → resp.status = 502
  id : resp.headers.get "x-request-id" = call.message.headers.get "x-request-id"

/-- The request is for the service. -/
def Framework.Targets (framework : Framework) (req : HttpRequest) (b : Backend) : Prop :=
  ∃ route, framework.route req = some route ∧ route.endpoint = .proxy b

/-- The gateway answers the request by itself. -/
def Refuses (framework : Framework) (cfg : Config) (req : HttpRequest) (resp : HttpResponse) :
    Prop :=
  match framework.route req with
  | none => resp = framework.refuse req
  | some route => (cfg.Admits req → route.endpoint = .health ∧ resp.status = 200) ∧
    (¬cfg.Admits req → resp.status = 204 ∧ req.method = .options ∨
      resp.status = 401 ∧ req.headers.get "x-api-key" = [] ∨
      resp.status = 403 ∧ req.headers.get "x-api-key" ≠ [])

/-- Where the request may be. -/
def HttpRequest.At (framework : Framework) (cfg : Config) (req : HttpRequest) : Pc → Prop
  | .received r => r = req
  | .waiting r b => cfg.Admits req ∧ framework.Targets req b ∧ req.Copied r.forwarded
  | .answered none resp => Refuses framework cfg req resp
  | .answered (some call) resp => cfg.Admits req ∧ framework.Targets req call.backend ∧
    req.Copied call.message ∧ call.Answers resp

/-! ## Headers -/

theorem lookup_foldl_insert (entries : List (Sigma fun _ : String ↦ Bytes))
    (hnodup : entries.NodupKeys) (headers : Headers) (name : String) :
    (entries.foldl (fun headers e ↦
        if e.1 ∉ notProxied then headers.insert e.1 e.2 else headers) headers).lookup name
      = if name ∈ notProxied then headers.lookup name
        else (entries.dlookup name).or (headers.lookup name) := by
  induction entries generalizing headers with
  | nil => simp
  | cons e entries ih =>
    rw [List.nodupKeys_cons] at hnodup
    rw [List.foldl_cons, ih hnodup.2]
    by_cases hname : name ∈ notProxied
    · rw [if_pos hname, if_pos hname]
      split_ifs with he
      · rfl
      · exact AList.lookup_insert_ne fun heq ↦ he (heq ▸ hname)
    · rw [if_neg hname, if_neg hname]
      by_cases heq : name = e.1
      · subst heq
        have hlater : entries.dlookup e.1 = none := List.dlookup_eq_none.mpr hnodup.1
        rw [if_pos hname, hlater, List.dlookup_cons_eq, AList.lookup_insert]
        rfl
      · rw [List.dlookup_cons_ne _ _ heq]
        split_ifs
        · rfl
        · rw [AList.lookup_insert_ne heq]

theorem HttpRequest.lookup_forwarded (req : HttpRequest) (name : String) :
    req.forwarded.headers.lookup name
      = if name ∈ notProxied then none else req.headers.lookup name := by
  have hfold := lookup_foldl_insert req.headers.entries req.headers.nodupKeys ∅ name
  rw [AList.lookup_empty, Option.or_none] at hfold
  exact hfold

theorem HttpRequest.lookup_addHeader (req : HttpRequest) (name name' : String) (value : Bytes) :
    (req.addHeader name' value).headers.lookup name
      = if name = name' then some value else req.headers.lookup name := by
  split_ifs with h
  · rw [h]
    exact AList.lookup_insert _
  · exact AList.lookup_insert_ne h

theorem HttpResponse.lookup_addHeader (resp : HttpResponse) (name name' : String) (value : Bytes) :
    (resp.addHeader name' value).headers.lookup name
      = if name = name' then some value else resp.headers.lookup name := by
  split_ifs with h
  · rw [h]
    exact AList.lookup_insert _
  · exact AList.lookup_insert_ne h

/-- What the gateway adds to an answer are headers of its own. -/
theorem Config.lookup_addCors (cfg : Config) (req : HttpRequest) (resp : HttpResponse)
    {name : String} (hname : name ∉ ownHeaders) :
    (cfg.addCors req resp).headers.lookup name = resp.headers.lookup name := by
  have hne : ∀ own ∈ ownHeaders, name ≠ own := fun own hown heq ↦ hname (heq ▸ hown)
  rw [addCors]
  simp only [HttpResponse.lookup_addHeader]
  rw [if_neg (hne _ (by decide)), if_neg (hne _ (by decide)), if_neg (hne _ (by decide)),
    if_neg (hne _ (by decide))]
  split_ifs
  · rw [HttpResponse.lookup_addHeader, if_neg (hne _ (by decide))]
  · rfl
  · rw [HttpResponse.lookup_addHeader, HttpResponse.lookup_addHeader,
      if_neg (hne _ (by decide)), if_neg (hne _ (by decide))]

/-- The advice behind the handler leaves the answer itself as it is. -/
theorem Config.postHandling_same (cfg : Config) (req : HttpRequest) (resp : HttpResponse) :
    (cfg.postHandling req resp).status = resp.status ∧
      (cfg.postHandling req resp).contentType = resp.contentType ∧
      (cfg.postHandling req resp).body = resp.body := by
  rw [postHandling, addCors]
  split_ifs <;> exact ⟨rfl, rfl, rfl⟩

theorem Config.lookup_postHandling (cfg : Config) (req : HttpRequest) (resp : HttpResponse)
    {name : String} (hname : name ∉ ownHeaders) :
    (cfg.postHandling req resp).headers.lookup name = resp.headers.lookup name := by
  rw [postHandling]
  split_ifs with hid
  · exact cfg.lookup_addCors req resp hname
  · have hne : name ≠ "x-request-id" := fun heq ↦ hname (heq ▸ by decide)
    rw [HttpResponse.lookup_addHeader, if_neg hne, cfg.lookup_addCors req resp hname]

theorem Config.id_postHandling (cfg : Config) {req : HttpRequest} (resp : HttpResponse)
    (hid : req.headers.get "x-request-id" ≠ []) :
    (cfg.postHandling req resp).headers.get "x-request-id" = req.headers.get "x-request-id" := by
  rw [postHandling, if_neg hid, Headers.get, HttpResponse.lookup_addHeader, if_pos rfl]
  rfl

/-! ## The steps of a request -/

section

variable {framework : Framework} {cfg : Config} {s s' : Shared} {env : Env} {pc pc' : Pc}
  {req r : HttpRequest} {resp : HttpResponse} {b : Backend}

theorem Config.preHandling_ok {uuid : Bytes} (h : cfg.preHandling uuid req = .ok r) :
    cfg.Admits req ∧
      r = if req.headers.get "x-request-id" = [] then req.addHeader "x-request-id" uuid
        else req := by
  rw [preHandling] at h
  split_ifs at h with hmethod hmissing hinvalid hid
  · obtain rfl := Except.ok.inj h
    refine ⟨⟨hmethod, fun hdev ↦ ?_⟩, (if_pos hid).symm⟩
    by_contra hkey
    exact hinvalid ⟨hdev, Bool.eq_false_iff.mpr fun heq ↦ hkey
      ((constantTimeCompare_iff _ _).mp heq)⟩
  · obtain rfl := Except.ok.inj h
    refine ⟨⟨hmethod, fun hdev ↦ ?_⟩, (if_neg hid).symm⟩
    by_contra hkey
    exact hinvalid ⟨hdev, Bool.eq_false_iff.mpr fun heq ↦ hkey
      ((constantTimeCompare_iff _ _).mp heq)⟩

theorem Config.preHandling_error {uuid : Bytes} (h : cfg.preHandling uuid req = .error resp) :
    ¬cfg.Admits req ∧ (resp.status = 204 ∧ req.method = .options ∨
      resp.status = 401 ∧ req.headers.get "x-api-key" = [] ∨
      resp.status = 403 ∧ req.headers.get "x-api-key" ≠ []) := by
  rw [preHandling] at h
  split_ifs at h with hmethod hmissing hinvalid hid
  · obtain rfl := Except.error.inj h
    exact ⟨fun hadmits ↦ hadmits.method hmethod, Or.inl ⟨rfl, hmethod⟩⟩
  · obtain rfl := Except.error.inj h
    refine ⟨fun hadmits ↦ cfg.apiKey_ne hmissing.1 ?_, Or.inr (Or.inl ⟨rfl, hmissing.2⟩)⟩
    rw [← hadmits.key hmissing.1, hmissing.2]
  · obtain rfl := Except.error.inj h
    refine ⟨fun hadmits ↦ ?_, Or.inr (Or.inr ⟨rfl, fun hnone ↦ hmissing ⟨hinvalid.1, hnone⟩⟩)⟩
    have hsame := (constantTimeCompare_iff _ _).mpr (hadmits.key hinvalid.1)
    exact Bool.false_ne_true (hinvalid.2.symm.trans hsame)

/-- The copy has the id that the advice has seen to. -/
theorem HttpRequest.id_forwarded (req : HttpRequest) :
    req.forwarded.headers.get "x-request-id" = req.headers.get "x-request-id" := by
  rw [Headers.get, Headers.get, lookup_forwarded, if_neg (by decide)]

theorem HttpRequest.copied_forwarded (uuid : {id : Bytes // id.length = 36})
    (hr : r = if req.headers.get "x-request-id" = [] then req.addHeader "x-request-id" uuid
      else req) : req.Copied r.forwarded := by
  have huuid : (uuid : Bytes) ≠ [] := List.ne_nil_of_length_pos (by rw [uuid.2]; decide)
  have hother : ∀ name, name ≠ "x-request-id" →
      r.headers.lookup name = req.headers.lookup name := by
    intro name hname
    rw [hr]
    split_ifs
    · rw [lookup_addHeader, if_neg hname]
    · rfl
  have hsame : r.method = req.method ∧ r.targetPath = req.targetPath ∧ r.body = req.body := by
    rw [hr]
    split_ifs <;> exact ⟨rfl, rfl, rfl⟩
  refine ⟨hsame.1, hsame.2.1, hsame.2.2, fun name hname hid ↦ ?_, fun name hname ↦ ?_, ?_⟩
  · rw [lookup_forwarded, if_neg hname, hother name hid]
  · rw [lookup_forwarded, if_pos hname]
  · rw [id_forwarded, hr]
    split_ifs with hid
    · have hget : (req.addHeader "x-request-id" uuid).headers.get "x-request-id" = uuid := by
        rw [Headers.get, lookup_addHeader, if_pos rfl]
        rfl
      exact ⟨hget ▸ huuid, fun hne ↦ absurd hid hne⟩
    · exact ⟨hid, fun _ ↦ rfl⟩

/-- **What a step of a request does.** -/
theorem advance_cases (h : advance framework cfg s env pc = some (s', pc')) :
    (∃ req, pc = .received req ∧ framework.route req = none ∧ s' = s ∧
      pc' = .answered none (framework.refuse req)) ∨
    (∃ req route resp, pc = .received req ∧ framework.route req = some route ∧
      cfg.preHandling env.uuid req = .error resp ∧ s' = s ∧ pc' = .answered none resp) ∨
    (∃ req route r, pc = .received req ∧ framework.route req = some route ∧
      cfg.preHandling env.uuid req = .ok r ∧ route.endpoint = .health ∧ s' = s ∧
      pc' = .answered none (cfg.postHandling r health)) ∨
    (∃ req route r b, pc = .received req ∧ framework.route req = some route ∧
      cfg.preHandling env.uuid req = .ok r ∧ route.endpoint = .proxy b ∧
      s' = { s with sent := s.sent ++ [(b, r.forwarded)] } ∧ pc' = .waiting r b) ∨
    ∃ r b call, pc = .waiting r b ∧ call = ⟨b, r.forwarded, env.result⟩ ∧
      s' = { s with replies := s.replies ++ call.reply.toList } ∧
      pc' = .answered (some call) (cfg.postHandling r (b.relay env.result)) := by
  cases pc with
  | received req =>
    rw [advance] at h
    split at h
    · rename_i hroute
      obtain ⟨rfl, rfl⟩ := Prod.mk.inj (Option.some_inj.mp h)
      exact Or.inl ⟨req, rfl, hroute, rfl, rfl⟩
    rename_i route hroute
    split at h
    · rename_i resp hrefused
      obtain ⟨rfl, rfl⟩ := Prod.mk.inj (Option.some_inj.mp h)
      exact Or.inr (Or.inl ⟨req, route, resp, rfl, hroute, hrefused, rfl, rfl⟩)
    rename_i r hpassed
    split at h
    · rename_i hhealth
      obtain ⟨rfl, rfl⟩ := Prod.mk.inj (Option.some_inj.mp h)
      exact Or.inr (Or.inr (Or.inl ⟨req, route, r, rfl, hroute, hpassed, hhealth, rfl, rfl⟩))
    · rename_i b hproxy
      obtain ⟨rfl, rfl⟩ := Prod.mk.inj (Option.some_inj.mp h)
      exact Or.inr (Or.inr (Or.inr (Or.inl
        ⟨req, route, r, b, rfl, hroute, hpassed, hproxy, rfl, rfl⟩)))
  | waiting r b =>
    obtain ⟨rfl, rfl⟩ := Prod.mk.inj (Option.some_inj.mp h)
    exact Or.inr (Or.inr (Or.inr (Or.inr ⟨r, b, _, rfl, rfl, rfl, rfl⟩)))
  | answered call resp => exact absurd h (by simp [advance])

theorem Backend.answers_relay (b : Backend) (result : Option HttpResponse)
    (hid : r.headers.get "x-request-id" ≠ []) :
    Call.Answers ⟨b, r.forwarded, result⟩ (cfg.postHandling r (b.relay result)) := by
  obtain ⟨hstatus, htype, hbody⟩ := cfg.postHandling_same r (b.relay result)
  refine ⟨fun reply hreply ↦ ?_, fun hnone ↦ ?_, ?_⟩
  · obtain rfl : result = some reply := hreply
    refine ⟨hstatus, htype, hbody, fun name hname ↦ ?_⟩
    have hlength : name ≠ "content-length" := fun heq ↦ hname (heq ▸ by decide)
    have hencoding : name ≠ "transfer-encoding" := fun heq ↦ hname (heq ▸ by decide)
    rw [cfg.lookup_postHandling _ _ hname]
    exact (AList.lookup_erase_ne hencoding).trans (AList.lookup_erase_ne hlength)
  · obtain rfl : result = none := hnone
    exact hstatus
  · exact (cfg.id_postHandling _ hid).trans r.id_forwarded.symm

/-- A step brings a request to where it may be. -/
theorem HttpRequest.At.advance (hat : req.At framework cfg pc)
    (h : advance framework cfg s env pc = some (s', pc')) : req.At framework cfg pc' := by
  rcases advance_cases h with ⟨r, rfl, hroute, -, rfl⟩ |
      ⟨r, route, resp, rfl, hroute, hrefused, -, rfl⟩ |
      ⟨r, route, r', rfl, hroute, hpassed, hhealth, -, rfl⟩ |
      ⟨r, route, r', b, rfl, hroute, hpassed, hproxy, -, rfl⟩ | ⟨r, b, call, rfl, rfl, -, rfl⟩
  · obtain rfl : r = req := hat
    rw [At, Refuses, hroute]
  · obtain rfl : r = req := hat
    obtain ⟨hadmits, hstatus⟩ := Config.preHandling_error hrefused
    rw [At, Refuses, hroute]
    exact ⟨fun h ↦ absurd h hadmits, fun _ ↦ hstatus⟩
  · obtain rfl : r = req := hat
    obtain ⟨hadmits, -⟩ := Config.preHandling_ok hpassed
    rw [At, Refuses, hroute]
    exact ⟨fun _ ↦ ⟨hhealth, (cfg.postHandling_same r' health).1⟩, fun h ↦ absurd hadmits h⟩
  · obtain rfl : r = req := hat
    obtain ⟨hadmits, hid⟩ := Config.preHandling_ok hpassed
    exact ⟨hadmits, ⟨route, hroute, hproxy⟩, HttpRequest.copied_forwarded env.uuid hid⟩
  · obtain ⟨hadmits, htargets, hcopied⟩ := hat
    have hid : r.headers.get "x-request-id" ≠ [] := r.id_forwarded ▸ hcopied.id.1
    exact ⟨hadmits, htargets, hcopied, b.answers_relay env.result hid⟩

end

/-! ## All requests -/

/-- What the request has been sent on as. -/
def Pc.message : Pc → Option (Backend × HttpRequest)
  | .received _ => none
  | .waiting r b => some (b, r.forwarded)
  | .answered call _ => call.map fun c ↦ (c.backend, c.message)

/-- The answer of a service that the client has been given. -/
def Pc.reply : Pc → Option (Backend × HttpRequest × HttpResponse)
  | .answered (some call) _ => call.reply
  | _ => none

/-- The requests that have come in, in order. -/
def requests (es : List Event) : List HttpRequest := es.filterMap PoolEvent.started

/-- Each thread is where its request may be, the services were sent what the threads have sent on,
each copy once, and each answer of a service is with one thread. -/
structure Attends (framework : Framework) (cfg : Config) (reqs : List HttpRequest) (s : State) :
    Prop where
  threads : List.Forall₂ (HttpRequest.At framework cfg) reqs s.threads
  sent : s.shared.sent.Perm (s.threads.filterMap Pc.message)
  replies : s.shared.replies.Perm (s.threads.filterMap Pc.reply)

section

variable {framework : Framework} {cfg : Config}

theorem forall₂_middle {α β : Type*} {R : α → β → Prop} {as : List α} {l r : List β} {b : β}
    (h : List.Forall₂ R as (l ++ b :: r)) : ∃ la a ra, as = la ++ a :: ra ∧
      List.Forall₂ R la l ∧ R a b ∧ List.Forall₂ R ra r := by
  have hleft := List.forall₂_take_append _ _ _ h
  have hright := List.forall₂_drop_append _ _ _ h
  obtain ⟨a, ra, hab, hra, hdrop⟩ := List.forall₂_cons_right_iff.mp hright
  exact ⟨as.take l.length, a, ra, by rw [← hdrop, List.take_append_drop], hleft, hab, hra⟩

/-- What one thread adds to what all have. -/
theorem perm_filterMap_middle {α β : Type*} {f : α → Option β} {got : List β} {l r : List α}
    {a a' : α} {new : List β} (h : got.Perm ((l ++ a :: r).filterMap f))
    (hnew : (f a').toList = (f a).toList ++ new) :
    (got ++ new).Perm ((l ++ a' :: r).filterMap f) := by
  have hcons : ∀ b, (l ++ b :: r).filterMap f
      = l.filterMap f ++ ((f b).toList ++ r.filterMap f) := by
    intro b
    rw [List.filterMap_append, List.filterMap_cons]
    cases f b <;> rfl
  rw [hcons] at h ⊢
  rw [hnew]
  refine (h.append_right new).trans ?_
  simp only [List.append_assoc]
  exact (List.perm_append_comm.append_left _).append_left _

/-- What a step sends, and what it is answered, is the thread's own. -/
theorem advance_message {s s' : Shared} {env : Env} {pc pc' : Pc}
    (h : advance framework cfg s env pc = some (s', pc')) : ∃ sent replies,
      s' = ⟨s.sent ++ sent, s.replies ++ replies⟩ ∧
      pc'.message.toList = pc.message.toList ++ sent ∧
      pc'.reply.toList = pc.reply.toList ++ replies := by
  rcases advance_cases h with ⟨r, rfl, -, rfl, rfl⟩ | ⟨r, route, resp, rfl, -, -, rfl, rfl⟩ |
      ⟨r, route, r', rfl, -, -, -, rfl, rfl⟩ | ⟨r, route, r', b, rfl, -, -, -, rfl, rfl⟩ |
      ⟨r, b, call, rfl, rfl, rfl, rfl⟩
  · exact ⟨[], [], by simp, rfl, rfl⟩
  · exact ⟨[], [], by simp, rfl, rfl⟩
  · exact ⟨[], [], by simp, rfl, rfl⟩
  · exact ⟨[(b, r'.forwarded)], [], by simp, rfl, rfl⟩
  · exact ⟨[], (Call.reply ⟨b, r.forwarded, env.result⟩).toList, by simp, rfl, rfl⟩

theorem Attends.step {reqs : List HttpRequest} {s t : State} {e : Event}
    (h : Attends framework cfg reqs s) (hstep : step framework cfg s e = some t) :
    Attends framework cfg (reqs ++ e.started.toList) t := by
  cases e with
  | start req =>
    obtain rfl := Option.some_inj.mp hstep
    refine ⟨List.rel_append h.threads (.cons rfl .nil), ?_, ?_⟩
    · rw [List.filterMap_append]
      exact h.sent.trans (.of_eq (List.append_nil _).symm)
    · rw [List.filterMap_append]
      exact h.replies.trans (.of_eq (List.append_nil _).symm)
  | run i env =>
    obtain ⟨l, pc, r, s', pc', hthreads, -, hadvance, rfl⟩ := Pool.next_run hstep
    obtain ⟨hat, hsent, hreplies⟩ := h
    rw [hthreads] at hat hsent hreplies
    obtain ⟨sent, replies, rfl, hmessage, hreply⟩ := advance_message hadvance
    obtain ⟨before, req, after, rfl, hbefore, hreq, hafter⟩ := forall₂_middle hat
    have hnone : (PoolEvent.run i env : Event).started.toList = [] := rfl
    refine ⟨?_, perm_filterMap_middle hsent hmessage, perm_filterMap_middle hreplies hreply⟩
    rw [hnone, List.append_nil]
    exact List.rel_append hbefore (.cons (hreq.advance hadvance) hafter)

theorem Attends.exec {reqs : List HttpRequest} {s t : State} {es : List Event}
    (h : Attends framework cfg reqs s) (hexec : exec (Gateway.step framework cfg) s es = some t) :
    Attends framework cfg (reqs ++ requests es) t := by
  induction es generalizing reqs s with
  | nil =>
    obtain rfl := Option.some_inj.mp hexec
    exact (List.append_nil reqs).symm ▸ h
  | cons e es ih =>
    obtain ⟨u, hu, hrest⟩ := exec_cons_eq_some.mp hexec
    have hlater := ih (h.step hu) hrest
    have hsplit : requests (e :: es) = e.started.toList ++ requests es := by
      rw [requests, List.filterMap_cons]
      cases e <;> rfl
    rw [hsplit, ← List.append_assoc]
    exact hlater

/-- A request that has no answer yet can go on, whatever the others do. -/
theorem advance_enabled (s : Shared) (env : Env) {pc : Pc}
    (h : ∀ call resp, pc ≠ .answered call resp) :
    (advance framework cfg s env pc).isSome = true := by
  cases pc with
  | received req =>
    rw [advance]
    split
    · rfl
    · split
      · rfl
      · split <;> rfl
  | waiting r b => rfl
  | answered call resp => exact absurd rfl (h call resp)

end

def sampleEnv (result : Option HttpResponse) : Env where
  uuid := ⟨text "7f0c2a52-9a57-4a43-8b5e-0d8c6f1f9b1e", by decide⟩
  result := result

end BenchmarkPlatform.Gateway
