import BenchmarkPlatform.Exchange.Account
import BenchmarkPlatform.OrderBook.Depth
import BenchmarkPlatform.OrderBook.Uncrossed

/-!
# Every book has one history

Requests interleave at their critical sections, and a book's calls are made under the book's own
lock. So whatever the interleaving, the calls made on the book of a symbol form one sequence, the
book is what that sequence makes of an empty book, and every report a client receives is that of a
call in the sequence. What was proved of an order book under a sequence of calls therefore holds of
the books of the exchange at every moment.

The readers of `GET /orderbook` are among the interleaved requests: they create the book of a
symbol that has none, and show it at some later moment.
-/

namespace BenchmarkPlatform

open Lib

/-- A call made on the book of a symbol, and what the book answered. -/
structure Executed where
  symbol : String
  call : Call
  result : CallResult

/-- The calls made on the book of a symbol. -/
def callsOn (symbol : String) (log : List Executed) : List Call :=
  (log.filter fun e ↦ e.symbol = symbol).map Executed.call

/-- What that book answered. -/
def resultsOn (symbol : String) (log : List Executed) : List CallResult :=
  (log.filter fun e ↦ e.symbol = symbol).map Executed.result

/-- A request of the handlers modelled so far takes a step, or the handler of `GET /orderbook` gets
or creates the book it is about to show. -/
inductive ExchangeEvent where
  | request (event : ServerEvent)
  | getOrderbook (symbol : String)

variable {τ : Type} [AddGroupWithOne τ]

/-- The call that the next critical section of a request makes, if it makes one. -/
def Exchange.executes (x : Exchange τ) (env : CallEnv) : RequestPc → List Executed
  | .postAdd o orderId =>
    let c := Call.addOrder env (o.toOrder orderId (env.now 0))
    [⟨o.symbol, c, ((x.book o.symbol).call c).2⟩]
  | .deleteCancel orderId t =>
    let c := Call.cancelOrder orderId
    [⟨t.symbol, c, ((x.book t.symbol).call c).2⟩]
  | _ => []

namespace Server

def visit (s : Server τ) : ExchangeEvent → Option (Server τ)
  | .request event => s.step event
  | .getOrderbook symbol => some ⟨s.shared.getOrCreateBook (upperCase symbol), s.threads⟩

/-- The calls made by a step of the server. -/
def executes (s : Server τ) : ExchangeEvent → List Executed
  | .request (.run i env) => (s.threads[i]?).elim [] (s.shared.executes env)
  | .request (.start _) => []
  | .getOrderbook _ => []

/-- All calls that a run makes on any book, in order. -/
def calls (s : Server τ) (events : List ExchangeEvent) : List Executed :=
  emitted visit executes s events

/-- What the second half of the handler of `GET /orderbook` shows. -/
def orderbook (s : Server τ) (now : TimePoint) (symbol : String) : OrderBookSnapshot τ :=
  (s.shared.book (upperCase symbol)).getSnapshot now

end Server

/-- The book of the order's symbol answered its `add_order` with these fills. -/
def Posted (log : List Executed) (o : NewOrder) (orderId : String) (fills : List Fill) : Prop :=
  ∃ env, ⟨o.symbol, .addOrder env (o.toOrder orderId (env.now 0)), .fills fills⟩ ∈ log

/-- The book that the tracker names has cancelled the order. -/
def Cancelled (log : List Executed) (orderId : String) (t : OrderTracker) : Prop :=
  ⟨t.symbol, .cancelOrder orderId, .cancelled true⟩ ∈ log

/-- What a request holds of a book's answer, and what it reports, some call on that book has
answered. -/
def RequestPc.Backed (log : List Executed) : RequestPc → Prop
  | .postMakers o orderId fills _ => Posted log o orderId fills
  | .deleteErase orderId t => Cancelled log orderId t
  | .done response => ∀ report, response.body = .report report →
    (∃ (o : NewOrder) (orderId : String) (fills : List Fill) (now : TimePoint),
      report = o.report orderId fills now ∧ Posted log o orderId fills) ∨
    ∃ (t : OrderTracker) (orderId : String) (now : TimePoint),
      report = t.cancelReport orderId now ∧ Cancelled log orderId t
  | _ => True

theorem Posted.mono {log log' : List Executed} (hsub : log ⊆ log') {o : NewOrder}
    {orderId : String} {fills : List Fill} (h : Posted log o orderId fills) :
    Posted log' o orderId fills := by
  obtain ⟨env, hmem⟩ := h
  exact ⟨env, hsub hmem⟩

theorem RequestPc.Backed.mono {log log' : List Executed} (hsub : log ⊆ log') {pc : RequestPc}
    (h : pc.Backed log) : pc.Backed log' := by
  cases pc with
  | postMakers o orderId fills todo => exact Posted.mono hsub h
  | deleteErase orderId t => exact hsub h
  | done response =>
    intro report hreport
    rcases h report hreport with ⟨o, orderId, fills, now, heq, hp⟩ | ⟨t, orderId, now, heq, hc⟩
    · exact Or.inl ⟨o, orderId, fills, now, heq, hp.mono hsub⟩
    · exact Or.inr ⟨t, orderId, now, heq, hsub hc⟩
  | _ => trivial

/-! ## One critical section -/

omit [AddGroupWithOne τ] in
theorem Exchange.book_congr {x x' : Exchange τ} (h : x'.orderbooks = x.orderbooks)
    (symbol : String) : x'.book symbol = x.book symbol := by
  rw [Exchange.book, h, Exchange.book]

theorem cancelOrder_of_false {b b' : OrderBook τ} {id : String}
    (h : b.cancelOrder id = (false, b')) : b' = b := by
  rw [OrderBook.cancelOrder] at h
  split at h
  · exact (Prod.mk.inj h).2.symm
  · split at h <;> simp at h

theorem callsOn_singleton (symbol : String) (e : Executed) :
    callsOn symbol [e] = if e.symbol = symbol then [e.call] else [] := by
  rw [callsOn, List.filter_singleton]
  by_cases h : e.symbol = symbol <;> simp [h]

theorem resultsOn_singleton (symbol : String) (e : Executed) :
    resultsOn symbol [e] = if e.symbol = symbol then [e.result] else [] := by
  rw [resultsOn, List.filter_singleton]
  by_cases h : e.symbol = symbol <;> simp [h]

/-- A call on the book of one symbol, with the other books as they were. -/
theorem mealyRun_executed {x x' : Exchange τ} {e : Executed}
    (hself : (x.book e.symbol).call e.call = (x'.book e.symbol, e.result))
    (hother : ∀ symbol, symbol ≠ e.symbol → x'.book symbol = x.book symbol) (symbol : String) :
    mealyRun OrderBook.call (x.book symbol) (callsOn symbol [e])
      = (x'.book symbol, resultsOn symbol [e]) := by
  rw [callsOn_singleton, resultsOn_singleton]
  by_cases h : e.symbol = symbol
  · subst h
    rw [if_pos rfl, if_pos rfl, mealyRun_cons, hself]
    rfl
  · rw [if_neg h, if_neg h, hother symbol fun heq ↦ h heq.symm]
    rfl

/-- **What a critical section does to the books**: nothing, or the call it makes. -/
theorem advance_book {x x' : Exchange τ} {env : CallEnv} {pc pc' : RequestPc}
    (h : x.advance env pc = some (x', pc')) (symbol : String) :
    mealyRun OrderBook.call (x.book symbol) (callsOn symbol (x.executes env pc))
      = (x'.book symbol, resultsOn symbol (x.executes env pc)) := by
  have hnone : x.executes env pc = [] → x'.book symbol = x.book symbol →
      mealyRun OrderBook.call (x.book symbol) (callsOn symbol (x.executes env pc))
        = (x'.book symbol, resultsOn symbol (x.executes env pc)) := by
    intro hnil hbook
    rw [hnil, hbook]
    rfl
  cases pc with
  | postBook o =>
    obtain ⟨rfl, -⟩ := Prod.mk.inj (Option.some_inj.mp h)
    exact hnone rfl (x.book_getOrCreateBook o.symbol symbol)
  | postNumber o =>
    obtain ⟨rfl, -⟩ := Prod.mk.inj (Option.some_inj.mp h)
    exact hnone rfl (Exchange.book_congr rfl symbol)
  | postAdd o orderId =>
    have hcall : ∀ r, (x.book o.symbol).call
        (.addOrder env (o.toOrder orderId (env.now 0))) = r → r.1 = x'.book o.symbol →
        (∀ symbol', symbol' ≠ o.symbol → x'.book symbol' = x.book symbol') →
        mealyRun OrderBook.call (x.book symbol)
            (callsOn symbol (x.executes env (.postAdd o orderId)))
          = (x'.book symbol, resultsOn symbol (x.executes env (.postAdd o orderId))) := by
      intro r hr hself hother
      refine mealyRun_executed (e := ⟨o.symbol, _, _⟩) ?_ hother symbol
      dsimp only
      rw [hr, ← hself]
    rw [Exchange.advance] at h
    split at h
    · rename_i what herror
      obtain ⟨rfl, -⟩ := Prod.mk.inj (Option.some_inj.mp h)
      refine hcall (x.book o.symbol, .threw what) ?_ rfl fun _ _ ↦ rfl
      rw [OrderBook.call, herror]
    · rename_i fills b hok
      obtain ⟨rfl, -⟩ := Prod.mk.inj (Option.some_inj.mp h)
      refine hcall (b, .fills fills) ?_ ?_ fun symbol' hne ↦ ?_
      · rw [OrderBook.call, hok]
      · rw [Exchange.book_insert, if_pos rfl]
      · rw [Exchange.book_insert, if_neg hne]
  | postMakers o orderId fills todo =>
    cases todo with
    | nil =>
      obtain ⟨rfl, -⟩ := Prod.mk.inj (Option.some_inj.mp h)
      refine hnone rfl (Exchange.book_congr ?_ symbol)
      split_ifs <;> rfl
    | cons fill todo =>
      obtain ⟨rfl, -⟩ := Prod.mk.inj (Option.some_inj.mp h)
      exact hnone rfl (x.book_updateMaker fill symbol)
  | deleteLookup orderId =>
    rw [Exchange.advance] at h
    split at h
    · obtain ⟨rfl, -⟩ := Prod.mk.inj (Option.some_inj.mp h)
      exact hnone rfl rfl
    · obtain ⟨rfl, -⟩ := Prod.mk.inj (Option.some_inj.mp h)
      exact hnone rfl rfl
  | deleteBook orderId t =>
    obtain ⟨rfl, -⟩ := Prod.mk.inj (Option.some_inj.mp h)
    exact hnone rfl (x.book_getOrCreateBook t.symbol symbol)
  | deleteCancel orderId t =>
    rw [Exchange.advance] at h
    split at h
    · rename_i b hcancel
      obtain ⟨rfl, -⟩ := Prod.mk.inj (Option.some_inj.mp h)
      refine mealyRun_executed (e := ⟨t.symbol, .cancelOrder orderId, _⟩) ?_ (fun _ _ ↦ rfl) symbol
      dsimp only
      rw [OrderBook.call, hcancel, cancelOrder_of_false hcancel]
    · rename_i b hcancel
      obtain ⟨rfl, -⟩ := Prod.mk.inj (Option.some_inj.mp h)
      refine mealyRun_executed (e := ⟨t.symbol, .cancelOrder orderId, _⟩) ?_
        (fun symbol' hne ↦ ?_) symbol
      · dsimp only
        rw [OrderBook.call, hcancel, Exchange.book_insert, if_pos rfl]
      · rw [Exchange.book_insert, if_neg hne]
  | deleteErase orderId t =>
    obtain ⟨rfl, -⟩ := Prod.mk.inj (Option.some_inj.mp h)
    exact hnone rfl (Exchange.book_congr rfl symbol)
  | done response => simp [Exchange.advance] at h

/-- A request that answers from what a book has answered stays backed. -/
theorem advance_backed {x x' : Exchange τ} {env : CallEnv} {pc pc' : RequestPc}
    {log : List Executed} (hpc : pc.Backed log) (h : x.advance env pc = some (x', pc')) :
    pc'.Backed (log ++ x.executes env pc) := by
  cases pc with
  | postBook o =>
    obtain ⟨-, rfl⟩ := Prod.mk.inj (Option.some_inj.mp h)
    trivial
  | postNumber o =>
    obtain ⟨-, rfl⟩ := Prod.mk.inj (Option.some_inj.mp h)
    trivial
  | postAdd o orderId =>
    rw [Exchange.advance] at h
    split at h
    · obtain ⟨-, rfl⟩ := Prod.mk.inj (Option.some_inj.mp h)
      intro report hreport
      simp at hreport
    · rename_i fills b hok
      obtain ⟨-, rfl⟩ := Prod.mk.inj (Option.some_inj.mp h)
      refine ⟨env, List.mem_append_right log (List.mem_singleton.mpr ?_)⟩
      rw [OrderBook.call, hok]
  | postMakers o orderId fills todo =>
    cases todo with
    | nil =>
      obtain ⟨-, rfl⟩ := Prod.mk.inj (Option.some_inj.mp h)
      intro report hreport
      refine Or.inl ⟨o, orderId, fills, env.now 0, (ResponseBody.report.inj hreport).symm, ?_⟩
      exact Posted.mono (List.subset_append_left _ _) hpc
    | cons fill todo =>
      obtain ⟨-, rfl⟩ := Prod.mk.inj (Option.some_inj.mp h)
      exact Posted.mono (List.subset_append_left _ _) hpc
  | deleteLookup orderId =>
    rw [Exchange.advance] at h
    split at h
    · obtain ⟨-, rfl⟩ := Prod.mk.inj (Option.some_inj.mp h)
      intro report hreport
      simp at hreport
    · obtain ⟨-, rfl⟩ := Prod.mk.inj (Option.some_inj.mp h)
      trivial
  | deleteBook orderId t =>
    obtain ⟨-, rfl⟩ := Prod.mk.inj (Option.some_inj.mp h)
    trivial
  | deleteCancel orderId t =>
    rw [Exchange.advance] at h
    split at h
    · obtain ⟨-, rfl⟩ := Prod.mk.inj (Option.some_inj.mp h)
      intro report hreport
      simp at hreport
    · rename_i b hcancel
      obtain ⟨-, rfl⟩ := Prod.mk.inj (Option.some_inj.mp h)
      refine List.mem_append_right log (List.mem_singleton.mpr ?_)
      rw [OrderBook.call, hcancel]
  | deleteErase orderId t =>
    obtain ⟨-, rfl⟩ := Prod.mk.inj (Option.some_inj.mp h)
    intro report hreport
    refine Or.inr ⟨t, orderId, env.now 0, (ResponseBody.report.inj hreport).symm, ?_⟩
    exact List.subset_append_left _ _ hpc
  | done response => simp [Exchange.advance] at h

/-! ## Runs -/

/-- The books are what the calls made of empty ones, and the requests go by their answers. -/
structure Linear (log : List Executed) (s : Server τ) : Prop where
  books : ∀ symbol, mealyRun OrderBook.call (OrderBook.new symbol) (callsOn symbol log)
    = (s.shared.book symbol, resultsOn symbol log)
  backed : ∀ pc ∈ s.threads, pc.Backed log

omit [AddGroupWithOne τ] in
theorem callsOn_append (symbol : String) (log log' : List Executed) :
    callsOn symbol (log ++ log') = callsOn symbol log ++ callsOn symbol log' := by
  rw [callsOn, List.filter_append, List.map_append]
  rfl

theorem entry_backed (request : Request) (log : List Executed) : request.entry.Backed log := by
  cases request with
  | delete orderId => trivial
  | post body =>
    cases body with
    | error what =>
      intro report hreport
      simp at hreport
    | ok body =>
      rw [Request.entry]
      split
      · intro report hreport
        simp at hreport
      · trivial

omit [AddGroupWithOne τ] in
theorem initial_book (symbol : String) :
    (Exchange.initial : Exchange τ).book symbol = OrderBook.new symbol := by
  simp only [Exchange.initial, List.foldl_cons, List.foldl_nil, Exchange.book_getOrCreateBook]
  rfl

theorem linear_initial : Linear [] (Server.initial : Server τ) where
  books symbol := by
    rw [Server.initial, initial_book]
    rfl
  backed pc hpc := absurd hpc List.not_mem_nil

/-- **One step**, of any request or of a reader. -/
theorem Linear.visit {log : List Executed} {s t : Server τ} {event : ExchangeEvent}
    (h : Linear log s) (ht : s.visit event = some t) : Linear (log ++ s.executes event) t := by
  cases event with
  | getOrderbook symbol =>
    obtain rfl := Option.some_inj.mp ht
    rw [Server.executes, List.append_nil]
    refine ⟨fun symbol' ↦ ?_, h.backed⟩
    rw [h.books, Exchange.book_getOrCreateBook]
  | request event =>
    cases event with
    | start request =>
      obtain rfl := Option.some_inj.mp ht
      rw [Server.executes, List.append_nil]
      exact ⟨h.books, Pool.forall_start h.backed (entry_backed request log)⟩
    | run i env =>
      have hrun : s.step (.run i env) = some t := ht
      obtain ⟨l, pc, r, x', pc', hsplit, hi, hadvance, rfl⟩ := Pool.next_run hrun
      have hpc : s.threads[i]? = some pc := by
        rw [hsplit, ← hi, List.getElem?_append_right le_rfl, Nat.sub_self]
        rfl
      have hexecutes : s.executes (.request (.run i env)) = s.shared.executes env pc := by
        rw [Server.executes, hpc]
        rfl
      rw [hexecutes]
      refine ⟨fun symbol ↦ ?_, ?_⟩
      · rw [callsOn_append, mealyRun_append, h.books, advance_book hadvance]
        refine Prod.ext rfl ?_
        simp only [resultsOn, List.filter_append, List.map_append]
      · have hbacked : ∀ q ∈ l ++ pc :: r, q.Backed log := by
          rw [← hsplit]
          exact h.backed
        exact Pool.forall_run hbacked (fun q hq ↦ hq.mono (List.subset_append_left _ _))
          (advance_backed (hbacked pc (by simp)) hadvance)

theorem linear_run {events : List ExchangeEvent} {s : Server τ}
    (hexec : exec Server.visit (Server.initial : Server τ) events = some s) :
    Linear ((Server.initial : Server τ).calls events) s :=
  exec_emitted (P := Linear) (fun _ _ _ _ h ht ↦ h.visit ht) linear_initial hexec

/-- **The exchange is a book for each symbol.** Whatever the interleaving of its requests, the calls
made on the book of a symbol are one history of that book alone, whatever happens under other
symbols: from an empty book they lead to the book the exchange has, with the answers its requests
were given. And every report given to a client, of an order or of a cancel, tells of such a call. -/
theorem server_linearizes (events : List ExchangeEvent) (s : Server τ)
    (hexec : exec Server.visit (Server.initial : Server τ) events = some s) :
    let log := (Server.initial : Server τ).calls events
    (∀ symbol, mealyRun OrderBook.call (OrderBook.new symbol) (callsOn symbol log)
      = (s.shared.book symbol, resultsOn symbol log)) ∧
    ∀ pc ∈ s.threads, pc.Backed log :=
  ⟨(linear_run hexec).books, (linear_run hexec).backed⟩

/-- A sell order, then a reader in small letters, then a buy order that trades with it, the one
overtaking the other. -/
def readInBetween : List ExchangeEvent :=
  [.request (.start (.post (.ok ⟨none, some "sell", some "limit", some 10, some 100, none⟩))),
    .request (.run 0 default), .request (.run 0 default), .request (.run 0 default),
    .getOrderbook "aapl",
    .request (.start (.post (.ok ⟨none, some "buy", some "limit", some 4, some 100, none⟩))),
    .request (.run 1 default), .request (.run 1 default), .request (.run 1 default)]

theorem exec_readInBetween : ∃ s : Server (BitVec 64),
    exec Server.visit Server.initial readInBetween = some s ∧
      (s.orderbook 0 "aapl").asks = [⟨100, 6, 1⟩] := by
  have hrun : ((exec Server.visit (Server.initial : Server (BitVec 64)) readInBetween).any fun s ↦
      (s.orderbook 0 "aapl").asks = [⟨100, 6, 1⟩]) = true := by decide +kernel
  obtain ⟨s, hs, h⟩ := (Option.any_eq_true _ _).mp hrun
  exact ⟨s, hs, of_decide_eq_true h⟩

theorem server_linearizes_readInBetween : ∃ s : Server (BitVec 64),
    let log := (Server.initial : Server (BitVec 64)).calls readInBetween
    mealyRun OrderBook.call (OrderBook.new "AAPL") (callsOn "AAPL" log)
      = (s.shared.book "AAPL", resultsOn "AAPL" log) ∧ (resultsOn "AAPL" log).length = 2 := by
  obtain ⟨s, hs, -⟩ := exec_readInBetween
  exact ⟨s, (server_linearizes readInBetween s hs).1 "AAPL", by decide +kernel⟩

/-! ## What a reader sees -/

section Readers

/-- No order names an account. -/
theorem advance_anonymous {x : Exchange τ} {env : CallEnv} {pc : RequestPc} :
    ∀ e ∈ x.executes env pc, ∀ env' ord, e.call = .addOrder env' ord → ord.accountId = "" := by
  intro e he env' ord hcall
  cases pc with
  | postAdd o orderId =>
    obtain rfl := List.mem_singleton.mp he
    obtain ⟨-, rfl⟩ := Call.addOrder.inj hcall
    rfl
  | deleteCancel orderId t =>
    obtain rfl := List.mem_singleton.mp he
    simp at hcall
  | _ => exact absurd he List.not_mem_nil

theorem run_anonymous {events : List ExchangeEvent} {s : Server τ}
    (hexec : exec Server.visit (Server.initial : Server τ) events = some s) :
    ∀ e ∈ (Server.initial : Server τ).calls events, ∀ env ord,
      e.call = .addOrder env ord → ord.accountId = "" := by
  refine exec_emitted (l := []) (P := fun (log : List Executed) (_ : Server τ) ↦
    ∀ e ∈ log, ∀ env ord, e.call = .addOrder env ord → ord.accountId = "") ?_ (by simp) hexec
  intro log s event t hlog _ e he
  rcases List.mem_append.mp he with he | he
  · exact hlog e he
  · cases event with
    | getOrderbook symbol => exact absurd he List.not_mem_nil
    | request event =>
      cases event with
      | start request => exact absurd he List.not_mem_nil
      | run i env =>
        rw [Server.executes] at he
        cases hpc : s.threads[i]? with
        | none =>
          rw [hpc] at he
          exact absurd he List.not_mem_nil
        | some pc =>
          rw [hpc] at he
          exact advance_anonymous e he

theorem call_symbol {b : OrderBook τ} (h : b.WF) (c : Call) : (b.call c).1.symbol = b.symbol := by
  cases c with
  | addOrder env ord =>
    rw [OrderBook.call]
    rcases b.addOrder_cases env ord with ⟨message, hthrow, -⟩ | ⟨-, hok⟩
    · rw [hthrow]
    · rw [hok]
      exact accept_symbol h env _
  | cancelOrder id =>
    rw [OrderBook.call]
    rcases cancelOrder_spec h id with ⟨-, hnone⟩ | ⟨n, -, -, -, spec⟩
    · rw [hnone]
    · exact spec.symbol

theorem run_symbol (symbol : String) (calls : List Call) :
    (OrderBook.run symbol calls : OrderBook τ).symbol = symbol :=
  (mealyRun_invariant (P := fun b : OrderBook τ ↦ b.WF ∧ b.symbol = symbol)
    (fun _ c _ h ↦ ⟨call_wf h.1 c, (call_symbol h.1 c).trans h.2⟩)
    ⟨OrderBook.wf_new symbol, rfl⟩).2

/-- Without accounts, bids stay below asks. -/
theorem run_bid_lt_ask (symbol : String) {calls : List Call}
    (hanon : ∀ env ord, Call.addOrder env ord ∈ calls → ord.accountId = "") :
    ∀ bid ∈ (OrderBook.run symbol calls : OrderBook τ).nodes .buy,
      ∀ ask ∈ (OrderBook.run symbol calls : OrderBook τ).nodes .sell,
        bid.order.price < ask.order.price := by
  intro bid hbid ask hask
  by_contra hle
  obtain ⟨-, hne⟩ := run_uncrossed symbol calls bid hbid ask hask (not_lt.mp hle)
  refine hne (run_forall_resting (P := fun ord ↦ ord.accountId = "") symbol
    (fun env ord hmem ↦ ?_) bid (OrderBook.mem_resting.mpr ⟨_, hbid⟩))
  rw [ord.resolve_eq env]
  exact hanon env ord hmem

/-- The book that a reader is shown, at any moment. -/
theorem exec_book {events : List ExchangeEvent} {s : Server τ}
    (hexec : exec Server.visit (Server.initial : Server τ) events = some s) (symbol : String) :
    ∃ calls, s.shared.book symbol = OrderBook.run symbol calls ∧
      ∀ env ord, Call.addOrder env ord ∈ calls → ord.accountId = "" := by
  refine ⟨callsOn symbol ((Server.initial : Server τ).calls events), ?_, fun env ord hmem ↦ ?_⟩
  · exact (congrArg Prod.fst ((linear_run hexec).books symbol)).symm
  · obtain ⟨e, he, hcall⟩ := List.mem_map.mp hmem
    exact run_anonymous hexec e (List.mem_filter.mp he).1 env ord hcall

end Readers

/-- A level of a well-formed book, as it is shown: it stands for orders that rest there, and its
total is theirs as long as an `int64_t` can hold it. -/
theorem OrderBook.WF.shown_level {b : OrderBook64} (h : b.WF) {s : Side}
    {level : PriceLevel (BitVec 64)} (hlevel : level ∈ snapshotLevels (b.side s)) :
    0 < level.price ∧ (∃ n ∈ b.nodes s, n.order.price = level.price) ∧
      0 < b.restingAt s level.price ∧ (b.restingAt s level.price < 2 ^ 63 →
        level.quantity.toInt = b.restingAt s level.price) := by
  rw [h.snapshotLevels_eq] at hlevel
  obtain ⟨e, he, rfl⟩ := List.mem_map.mp hlevel
  obtain ⟨n, hn⟩ := List.exists_mem_of_ne_nil _ (h.levels s e he).nonempty
  have hpos := h.restingAt_pos he
  refine ⟨?_, ⟨n, mem_flat.mpr ⟨e, he, hn⟩, h.price_eq he n hn⟩, hpos, fun hfits ↦ ?_⟩
  · rw [← h.price_eq he n hn]
    exact ((h.levels s e he).resting n hn).2.2.1
  · rw [h.total_eq he]
    exact (toInt_intCast_eq_iff hpos.le).mpr hfits

/-- **What `GET /orderbook` shows**, at any moment of any interleaving: the book of the symbol in
capitals, bids from the highest price down, asks from the lowest up, every bid below every ask. Each
level stands for orders that rest at its positive price, and shows how much they are for as long as
that is below `2 ^ 63`. The spread is the positive difference of the best prices, so the case of
`spread` for a negative one never arises here. -/
theorem orderbook_ordered (events : List ExchangeEvent) (s : Server (BitVec 64))
    (hexec : exec Server.visit (Server.initial : Server (BitVec 64)) events = some s)
    (now : TimePoint) (symbol : String) :
    let snapshot := s.orderbook now symbol
    let book := s.shared.book (upperCase symbol)
    snapshot.symbol = upperCase symbol ∧
    snapshot.bids.Pairwise (fun l l' ↦ l'.price < l.price) ∧
    snapshot.asks.Pairwise (fun l l' ↦ l.price < l'.price) ∧
    (∀ bid ∈ snapshot.bids, ∀ ask ∈ snapshot.asks, bid.price < ask.price) ∧
    (∀ bid ∈ snapshot.bids, 0 < bid.price ∧ 0 < book.restingAt .buy bid.price ∧
      (book.restingAt .buy bid.price < 2 ^ 63 →
        bid.quantity.toInt = book.restingAt .buy bid.price)) ∧
    (∀ ask ∈ snapshot.asks, 0 < ask.price ∧ 0 < book.restingAt .sell ask.price ∧
      (book.restingAt .sell ask.price < 2 ^ 63 →
        ask.quantity.toInt = book.restingAt .sell ask.price)) ∧
    ∀ p q, book.bestBid = (p, true) → book.bestAsk = (q, true) →
      p < q ∧ book.spread = (q - p, true) := by
  obtain ⟨calls, hbook, hanon⟩ := exec_book hexec (upperCase symbol)
  have hwf : (OrderBook.run (upperCase symbol) calls : OrderBook64).WF := run_wf _ _
  have hlt := run_bid_lt_ask (τ := BitVec 64) (upperCase symbol) hanon
  have hsymbol := run_symbol (τ := BitVec 64) (upperCase symbol) calls
  dsimp only
  rw [Server.orderbook, hbook]
  generalize (OrderBook.run (upperCase symbol) calls : OrderBook64) = b at hwf hlt hsymbol ⊢
  have hbids : (b.getSnapshot now).bids = snapshotLevels (b.side .buy) := rfl
  have hasks : (b.getSnapshot now).asks = snapshotLevels (b.side .sell) := rfl
  rw [hbids, hasks]
  refine ⟨hsymbol, ?_, ?_, ?_, ?_, ?_, fun p q ↦ spread_of_uncrossed hwf hlt⟩
  · rw [hwf.snapshotLevels_eq, List.pairwise_map]
    exact b.sorted_side .buy
  · rw [hwf.snapshotLevels_eq, List.pairwise_map]
    exact b.sorted_side .sell
  · intro bid hbid ask hask
    obtain ⟨-, ⟨n, hn, hprice⟩, -⟩ := hwf.shown_level hbid
    obtain ⟨-, ⟨n', hn', hprice'⟩, -⟩ := hwf.shown_level hask
    have hbelow := hlt n hn n' hn'
    rwa [hprice, hprice'] at hbelow
  · intro bid hbid
    obtain ⟨hprice, -, htotal⟩ := hwf.shown_level hbid
    exact ⟨hprice, htotal⟩
  · intro ask hask
    obtain ⟨hprice, -, htotal⟩ := hwf.shown_level hask
    exact ⟨hprice, htotal⟩

theorem orderbook_ordered_readInBetween : ∃ s : Server (BitVec 64),
    exec Server.visit Server.initial readInBetween = some s ∧
      (s.orderbook 0 "aapl").asks = [⟨100, 6, 1⟩] ∧ (s.orderbook 0 "aapl").symbol = "AAPL" := by
  obtain ⟨s, hs, hasks⟩ := exec_readInBetween
  exact ⟨s, hs, hasks, (orderbook_ordered readInBetween s hs 0 "aapl").1.trans (by decide)⟩

end BenchmarkPlatform
