import SchemaMigration.Proofs.BufferedTransactions
/-! # Staying with an endpoint

A client of ClickHouse has a list of endpoints, and speaks to one of them.  Two things are
remembered: the connection knows whether a ping has succeeded, and the client knows the number of
its endpoint.  Here they stand beside the world of the endpoints, in which every request is noted
with its answer (`Line`).

A run of a connection (`Line.Ran`) is any sequence of pings, statements and calls of transactions,
between which the world changes as it likes.  A ping before the first success goes through the
endpoints from the first one on, up to one that answers (`Line.perform_search`); no other call
changes the endpoint, and what they post goes to it (`Line.act_stands`).  So everything is decided
by the first ping that succeeds (`Line.chosen?`), of which the connection remembers the endpoint
(`Line.Remembers`): one call is followed by `Line.turn_follows`, and a run by
`Line.Ran.turns_follow`. -/
namespace SchemaMigration.ClickHouse

variable {σ α β : Type}

/-- A connection's memory: its client and whether a ping has succeeded; the world around it, and
what has been sent. -/
structure Line (σ : Type) where
  world : σ
  client : Client
  reached : Bool
  posts : List (Post σ)

/-- The request of a probe. -/
def probeOf (endpoint : String) : Request := ⟨endpoint, "/ping", none⟩

/-- How a probe goes for the one who waits for it under a token: an endpoint answers if it answers
with anything but an error. -/
def Post.reply (token : Token σ) (p : Post σ) : Except Failure Unit :=
  if token.isRaised p.after then .error .cancelled
  else p.answer >>= fun r => if r.isError then .error .http else .ok ()

namespace Line

/-- The parts of a line. -/
def clientPart : Part (Line σ) Client where
  get := client
  set c l := { l with client := c }
def reachedPart : Part (Line σ) Bool where
  get := reached
  set b l := { l with reached := b }

/-- A token of the world. -/
def token (t : Token σ) : Token (Line σ) where
  isRaised l := t.isRaised l.world
  raise l := { l with world := t.raise l.world }

/-- The state after a request. -/
def noting (l : Line σ) (p : Post σ) : Line σ :=
  { l with world := p.after, posts := l.posts ++ [p] }

/-- The way to the endpoints, with a note of every request. -/
def transport (net : Transport σ) : Transport (Line σ) where
  send r := .ofStep fun l =>
    let (answer, after) := (net.send r).perform l.world
    (answer, l.noting ⟨r, answer, after⟩)

/-- The connection of a client on a line. -/
def connection (d : Dsn) (s : Settings) (net : Transport σ) : Connection (Line σ) :=
  ⟨d, Client.backend s (transport net) clientPart, reachedPart⟩

/-! ### Runs -/

/-- What can be asked of a connection and of its transactions.  A statement may belong to a
transaction, which has a number and was opened under a token. -/
inductive Errand (σ : Type) where
  | ping (token : Token σ)
  | query (token : Token σ) (inside : Option (Token σ × Nat)) (text : String) (args : List Value)
  | exec (token : Token σ) (inside : Option (Token σ × Nat)) (text : String) (args : List Value)
  | begin (token : Token σ)
  | commit (opened : Token σ) (id : Nat)
  | rollback (opened : Token σ) (id : Nat)

/-- What was asked, the line before it, how it ended, and the line after it with what was posted
meanwhile. -/
structure Turn (σ : Type) where
  errand : Errand σ
  before : Line σ
  answer : Except Failure Unit
  after : Line σ

/-- What was posted in a turn. -/
def Turn.posts (t : Turn σ) : List (Post σ) := t.after.posts

/-- The context of a statement. -/
def context (c : Connection (Line σ)) (token : Token σ) (inside : Option (Token σ × Nat)) :
    Context (Line σ) :=
  ⟨Line.token token, inside.map fun (opened, id) => c.backend.transaction (Line.token opened) id⟩

/-- The call of an errand. -/
def Errand.act (c : Connection (Line σ)) : Errand σ → Action (Line σ) Unit
  | ping token => c.ping (context c token none)
  | query token inside text args => do
    let _ ← c.query (context c token inside) text args
  | exec token inside text args => do
    let _ ← c.exec (context c token inside) text args
  | begin token => do
    let _ ← c.backend.begin (Line.token token)
  | commit opened id => (c.backend.transaction (Line.token opened) id).commit
  | rollback opened id => (c.backend.transaction (Line.token opened) id).rollback

/-- The call of an errand as a turn, watched from the start of it. -/
def Errand.turn (c : Connection (Line σ)) (e : Errand σ) (l : Line σ) : Turn σ :=
  let before := { l with posts := [] }
  ⟨e, before, ((e.act c).perform before).1, ((e.act c).perform before).2⟩

/-- A run of a connection: any errands in any order, and between them the world changes. -/
inductive Ran (c : Connection (Line σ)) : List (Turn σ) → Line σ → Prop
  | start (world : σ) : Ran c [] ⟨world, .start, false, []⟩
  | turn {turns : List (Turn σ)} {l : Line σ} (h : Ran c turns l) (e : Errand σ) :
      Ran c (turns ++ [e.turn c l]) (e.turn c l).after
  | elsewhere {turns : List (Turn σ)} {l : Line σ} (h : Ran c turns l) (world : σ) :
      Ran c turns { l with world }

/-- The number of the endpoint that a ping has found. -/
def Turn.found? (t : Turn σ) : Option Nat :=
  match t.errand, t.answer with
  | .ping _, .ok () => some (t.posts.length - 1)
  | _, _ => none

/-- The number of the endpoint that the first successful ping has found. -/
def chosen? (turns : List (Turn σ)) : Option Nat := turns.findSome? Turn.found?

theorem chosen?_concat (turns : List (Turn σ)) (t : Turn σ) :
    chosen? (turns ++ [t]) = (chosen? turns).or t.found? := by
  rw [chosen?, List.findSome?_append, List.findSome?_singleton]
  rfl

/-! ### What is said of a turn -/

/-- Endpoints are probed in their order, from the first on: every probe but the last goes wrong, and
the last one decides.  If it goes wrong too, it was that of the last endpoint, unless the search
was cancelled; a search under a raised token sends nothing. -/
structure Searched (token : Token σ) (endpoints : List String) (before : σ)
    (posts : List (Post σ)) (r : Except Failure Unit) : Prop where
  requests : posts.map (·.request) = (endpoints.take posts.length).map probeOf
  refused : ∀ p ∈ posts.dropLast, ∃ e, p.reply token = .error e ∧ e ≠ .cancelled
  ending : match posts.getLast? with
    | none => token.isRaised before = true ∧ r = .error .cancelled
    | some p => r = p.reply token ∧
        ∀ e, p.reply token = .error e → e ≠ .cancelled → posts.length = endpoints.length

/-- The client after a search: it changes only if an endpoint has answered. -/
def settled (c : Client) (posts : List (Post σ)) (r : Except Failure Unit) : Client :=
  if r.isOk then { c with active := posts.length - 1 } else c

/-- The statement that an errand sends at once when its token is down, outside of transactions. -/
def Errand.direct? : Errand σ → Option (Token σ × String)
  | query token none text args => (bind text args).toOption.map fun sql => (token, withFormat sql)
  | exec token none text args => (bind text args).toOption.map fun sql => (token, sql)
  | _ => none

namespace Turn

/-- A ping that searches. -/
structure Probes (t : Turn σ) (token : Token σ) (endpoints : List String) : Prop where
  searched : Searched token endpoints t.before.world t.posts t.answer
  client : t.after.client = settled t.before.client t.posts t.answer
  reached : t.after.reached = t.answer.isOk

/-- A turn in which nothing but statements is posted, all of them to one endpoint, while the choice
of the endpoint stays as it is. -/
structure SpeaksTo (t : Turn σ) (s : Settings) (endpoint : String) : Prop where
  active : t.after.client.active = t.before.client.active
  reached : t.after.reached = t.before.reached
  requests : ∃ sqls : List String, t.posts.map (·.request) = sqls.map (statementTo s endpoint)
  direct : ∀ token sql, t.errand.direct? = some (token, sql) →
    token.isRaised t.before.world = false → t.posts.map (·.request) = [statementTo s endpoint sql]

/-- What a turn does when a ping has found the endpoint of a number, or none has found one yet. -/
def Follows (t : Turn σ) (s : Settings) (found : Option Nat) : Prop :=
  match t.errand, found with
  | .ping token, none => t.Probes token s.endpoints
  | .ping _, some _ => t.posts = [] ∧ t.answer = .ok () ∧ t.after = t.before
  | _, _ => ∃ endpoint, s.endpoints[found.getD 0]? = some endpoint ∧ t.SpeaksTo s endpoint

end Turn

/-! ### Probes -/

/-- Whoever is told of a failure other than a cancellation waits under a token that is down. -/
theorem down_of_reply {token : Token σ} {p : Post σ} {e : Failure} (h : p.reply token = .error e)
    (he : e ≠ .cancelled) : token.isRaised p.after = false := by
  rw [Bool.eq_false_iff]
  intro hraised
  rw [Post.reply, if_pos hraised] at h
  exact he (Except.error.inj h).symm

namespace Searched

variable {token : Token σ} {endpoint : String} {endpoints : List String} {before : σ}
  {p : Post σ} {posts : List (Post σ)} {r : Except Failure Unit} {e : Failure}

theorem unsent (h : token.isRaised before = true) :
    Searched token endpoints before [] (.error .cancelled) :=
  ⟨rfl, nofun, h, rfl⟩

theorem single (hp : p.request = probeOf endpoint)
    (hlast : ∀ e, p.reply token = .error e → e ≠ .cancelled → endpoints = []) :
    Searched token (endpoint :: endpoints) before [p] (p.reply token) := by
  refine ⟨congrArg (fun request => [request]) hp, nofun, rfl, fun e hr he => ?_⟩
  rw [hlast e hr he]
  rfl

/-- A search under a token that is down sends something. -/
theorem exists_cons (h : Searched token endpoints before posts r)
    (hdown : token.isRaised before = false) : ∃ q qs, posts = q :: qs := by
  cases posts with
  | nil => exact absurd h.ending.1 (Bool.eq_false_iff.mp hdown)
  | cons q qs => exact ⟨q, qs, rfl⟩

/-- After an endpoint that does not answer the search goes on with the next. -/
theorem next (hp : p.request = probeOf endpoint) (hr : p.reply token = .error e)
    (he : e ≠ .cancelled) (h : Searched token endpoints p.after posts r) :
    Searched token (endpoint :: endpoints) before (p :: posts) r := by
  obtain ⟨q, qs, rfl⟩ := h.exists_cons (down_of_reply hr he)
  have hending := h.ending
  refine ⟨?_, ?_, ?_⟩
  · rw [List.map_cons, h.requests, hp]
    rfl
  · rw [List.dropLast_cons_cons, List.forall_mem_cons]
    exact ⟨⟨e, hr, he⟩, h.refused⟩
  · rw [List.getLast?_cons_cons]
    cases hlast : (q :: qs).getLast? with
    | none => exact absurd (List.getLast?_eq_none_iff.mp hlast) (List.cons_ne_nil _ _)
    | some last =>
      rw [hlast] at hending
      exact ⟨hending.1, fun e hr he => congrArg (· + 1) (hending.2 e hr he)⟩

end Searched

section Search

variable (net : Transport σ) (t : Token σ)

/-- A probe sends one request, unless the token is raised. -/
theorem perform_probe (endpoint : String) (l : Line σ) :
    ∃ p : Post σ, p.request = probeOf endpoint ∧
      (Client.probe (transport net) (token t) endpoint).perform l =
        if t.isRaised l.world then (.error .cancelled, l) else (p.reply t, l.noting p) := by
  let p : Post σ := ⟨probeOf endpoint, ((net.send (probeOf endpoint)).perform l.world).1,
    ((net.send (probeOf endpoint)).perform l.world).2⟩
  have hsend : ((transport net).send ⟨endpoint, "/ping", none⟩).perform l =
      (p.answer, l.noting p) := rfl
  refine ⟨p, rfl, ?_⟩
  rw [Client.probe, Token.perform_guard, Post.reply]
  by_cases ht : t.isRaised l.world
  · exact (if_pos ht).trans (if_pos ht).symm
  · refine (if_neg ht).trans (Eq.trans ?_ (if_neg ht).symm)
    cases hanswer : p.answer with
    | error e =>
      rw [Action.perform_bind_error (by rw [hsend, hanswer])]
      rfl
    | ok r =>
      rw [Action.perform_bind_ok (by rw [hsend, hanswer])]
      show _ = (if t.isRaised p.after then _ else if r.isError then _ else _, _)
      by_cases hr : r.isError
      · rw [if_pos hr, if_pos hr]
        rfl
      · rw [if_neg hr, if_neg hr]
        rfl

section Step

variable {number : Nat} {endpoint : String} {others : List String} {l l' : Line σ}

/-- A probe ends the search if it succeeds or is cancelled, or if it is the last one. -/
theorem perform_search_last {r : Except Failure Unit}
    (h : (Client.probe (transport net) (token t) endpoint).perform l = (r, l'))
    (hlast : ∀ e, r = .error e → e ≠ .cancelled → others = []) :
    (Client.search (transport net) (token t) number endpoint others).perform l =
      (r.map fun _ => number, l') := by
  cases others with
  | nil => rw [Client.search, Action.perform_bind_pure, h]
  | cons next others =>
    rw [Client.search, Action.perform_outcome_bind, h]
    cases r with
    | ok _ => rfl
    | error e =>
      obtain rfl : e = .cancelled := Classical.byContradiction fun he =>
        List.cons_ne_nil _ _ (hlast e rfl he)
      rfl

/-- After any other probe the search goes on with the next endpoint. -/
theorem perform_search_next {next : String} {e : Failure}
    (h : (Client.probe (transport net) (token t) endpoint).perform l = (.error e, l'))
    (he : e ≠ .cancelled) :
    (Client.search (transport net) (token t) number endpoint (next :: others)).perform l =
      (Client.search (transport net) (token t) (number + 1) next others).perform l' := by
  rw [Client.search, Action.perform_outcome_bind, h]
  dsimp only
  split
  · contradiction
  · exact absurd (Except.error.inj ‹_›) he
  · rfl

/-- A search that comes to its end with the first probe, or is cancelled before it. -/
theorem perform_search_single {p : Post σ} (hp : p.request = probeOf endpoint)
    (hprobe : (Client.probe (transport net) (token t) endpoint).perform l =
      if t.isRaised l.world then (.error .cancelled, l) else (p.reply t, l.noting p))
    (hlast : t.isRaised l.world = true ∨
      ∀ e, p.reply t = .error e → e ≠ .cancelled → others = []) :
    ∃ r world ps, (Client.search (transport net) (token t) number endpoint others).perform l =
        (r.map fun _ => number + (ps.length - 1), { l with world, posts := l.posts ++ ps }) ∧
      Searched t (endpoint :: others) l.world ps r := by
  by_cases ht : t.isRaised l.world
  · refine ⟨.error .cancelled, l.world, [], ?_, .unsent ht⟩
    rw [if_pos ht] at hprobe
    rw [perform_search_last net t hprobe fun _ h he => absurd (Except.error.inj h).symm he,
      List.append_nil]
    rfl
  · rw [if_neg ht] at hprobe
    have hlast := hlast.resolve_left ht
    exact ⟨p.reply t, p.after, [p], perform_search_last net t hprobe hlast, .single hp hlast⟩

end Step

/-- A search goes through the endpoints and answers with the number of the last that it has
probed. -/
theorem perform_search (number : Nat) (endpoint : String) (others : List String) (l : Line σ) :
    ∃ r world ps, (Client.search (transport net) (token t) number endpoint others).perform l =
        (r.map fun _ => number + (ps.length - 1), { l with world, posts := l.posts ++ ps }) ∧
      Searched t (endpoint :: others) l.world ps r := by
  -- on the endpoints that are left, from any state
  induction others generalizing number endpoint l with
  | nil =>
    obtain ⟨p, hp, hprobe⟩ := perform_probe net t endpoint l
    exact perform_search_single net t hp hprobe (.inr fun _ _ _ => rfl)
  | cons next others ih =>
    obtain ⟨p, hp, hprobe⟩ := perform_probe net t endpoint l
    by_cases hlast : t.isRaised l.world = true ∨
        ∀ e, p.reply t = .error e → e ≠ .cancelled → next :: others = []
    · exact perform_search_single net t hp hprobe hlast
    · simp only [not_or, Classical.not_forall] at hlast
      obtain ⟨ht, e, hr, he, -⟩ := hlast
      rw [if_neg ht, hr] at hprobe
      obtain ⟨r, world, ps, hsearch, hsearched⟩ := ih (number + 1) next (l.noting p)
      obtain ⟨q, qs, rfl⟩ := hsearched.exists_cons (down_of_reply hr he)
      refine ⟨r, world, p :: q :: qs, ?_, .next hp hr he hsearched⟩
      have hnumber : number + 1 + ((q :: qs).length - 1) =
          number + ((p :: q :: qs).length - 1) := by
        simp only [List.length_cons]
        omega
      rw [perform_search_next net t hprobe he, hsearch, hnumber]
      show (_, { l with world, posts := l.posts ++ [p] ++ q :: qs }) = _
      rw [List.append_assoc]
      rfl

/-- A ping of the client settles on the endpoint that answered. -/
theorem perform_client_ping (s : Settings) (l : Line σ) :
    ∃ r world ps, (Client.ping s (transport net) clientPart (token t)).perform l =
        (r, { l with world, posts := l.posts ++ ps, client := settled l.client ps r }) ∧
      Searched t s.endpoints l.world ps r := by
  obtain ⟨r, world, ps, hsearch, hsearched⟩ := perform_search net t 0 s.first s.others l
  refine ⟨r, world, ps, ?_, hsearched⟩
  rw [Nat.zero_add] at hsearch
  cases r with
  | error e => exact Action.perform_bind_error hsearch
  | ok _ => exact (Action.perform_bind_ok hsearch).trans (Part.perform_change _ _ _)

variable (s : Settings) (d : Dsn)

theorem perform_reached {l : Line σ} {b : Bool} (hl : l.reached = b) :
    (connection d s net).reached.read.perform l = (.ok b, l) := by
  subst hl
  rfl

/-- A ping of a connection searches as long as no ping has succeeded. -/
theorem perform_ping {l : Line σ} (hl : l.reached = false) :
    ∃ r world ps, ((connection d s net).ping (context (connection d s net) t none)).perform l =
        (r, ⟨world, settled l.client ps r, r.isOk, l.posts ++ ps⟩) ∧
      Searched t s.endpoints l.world ps r := by
  obtain ⟨r, world, ps, hping, hsearched⟩ := perform_client_ping net t s l
  refine ⟨r, world, ps, ?_, hsearched⟩
  rw [Connection.ping, Action.perform_bind_ok (perform_reached net s d hl)]
  cases r with
  | error e =>
    refine (Action.perform_bind_error hping).trans ?_
    rw [hl]
    rfl
  | ok _ => exact (Action.perform_bind_ok hping).trans (Part.perform_write _ _ _)

/-- After that it does nothing. -/
theorem perform_ping_reached {l : Line σ} (hl : l.reached = true) :
    ((connection d s net).ping (context (connection d s net) t none)).perform l = (.ok (), l) := by
  rw [Connection.ping, Action.perform_bind_ok (perform_reached net s d hl)]
  rfl

end Search

/-! ### Statements -/

/-- Only statements were posted between two states, to the endpoint of the client, which is the same
in both. -/
structure Stands (s : Settings) (l l' : Line σ) : Prop where
  active : l'.client.active = l.client.active
  reached : l'.reached = l.reached
  posts : ∃ sqls : List String, l'.posts.map (·.request) =
    l.posts.map (·.request) ++ sqls.map (statementTo s (s.endpoint l.client.active))

namespace Stands

variable {s : Settings} {l l' : Line σ}

instance : IsPreorder (Line σ) (Stands s) where
  refl _ := ⟨rfl, rfl, [], (List.append_nil _).symm⟩
  trans l l' l'' h h' := by
    obtain ⟨sqls, hposts⟩ := h.posts
    obtain ⟨sqls', hposts'⟩ := h'.posts
    refine ⟨h'.active.trans h.active, h'.reached.trans h.reached, sqls ++ sqls', ?_⟩
    rw [hposts', hposts, h.active, List.map_append, List.append_assoc]

/-- What the client remembers of its transactions does not matter. -/
theorem of_client {c : Client} (h : c.active = l.client.active) :
    Stands s l { l with client := c } :=
  ⟨h, rfl, [], (List.append_nil _).symm⟩

end Stands

section Statements

variable (s : Settings) (net : Transport σ)

/-- Posting a statement notes one request, to the endpoint of the client. -/
theorem perform_post (sql : String) (l : Line σ) :
    ∃ p : Post σ, p.request = statementTo s (s.endpoint l.client.active) sql ∧
      (Client.post s (transport net) clientPart sql).perform l =
        (p.answer >>= Client.judge, l.noting p) := by
  let request := statementTo s (s.endpoint l.client.active) sql
  let p : Post σ := ⟨request, ((net.send request).perform l.world).1,
    ((net.send request).perform l.world).2⟩
  exact ⟨p, rfl, Client.perform_post rfl⟩

theorem post_stands (sql : String) :
    (Client.post s (transport net) clientPart sql).Within (Stands s) := by
  intro l
  obtain ⟨p, hp, hpost⟩ := perform_post s net sql l
  rw [hpost]
  refine ⟨rfl, rfl, [sql], ?_⟩
  show (l.posts ++ [p]).map (·.request) = _
  rw [List.map_append, List.map_singleton, hp]
  rfl

theorem query_stands (text : String) (args : List Value) :
    (Client.query s (transport net) clientPart text args).Within (Stands s) :=
  .bind (.ofExcept _) fun _ => .bind (post_stands s net _) fun _ => .ofExcept _

theorem exec_stands (text : String) (args : List Value) :
    (Client.exec s (transport net) clientPart text args).Within (Stands s) :=
  .bind (.ofExcept _) fun _ => .bind (post_stands s net _) fun _ => .pure _

theorem kept_stands (id : Nat) :
    Action.Within (Stands s) (Client.kept (clientPart : Part (Line σ) Client) id) := by
  refine .bind (.read _) fun c => ?_
  split
  · exact .pure _
  · exact .throw _

theorem keep_stands (id : Nat) (kept : Option (List String)) :
    Action.Within (Stands s) (Client.keep (clientPart : Part (Line σ) Client) id kept) :=
  fun _ => .of_client rfl

theorem begin_stands :
    Action.Within (Stands s) (Client.begin (clientPart : Part (Line σ) Client)) :=
  fun _ => .of_client rfl

section Transactions

variable (opened : Token (Line σ)) (id : Nat)

theorem transaction_query_stands (t : Token (Line σ)) (text : String) (args : List Value) :
    ((Client.transaction s (transport net) clientPart opened id).query t text args).Within
      (Stands s) :=
  .bind (kept_stands s id) fun _ => .guard t (query_stands s net text args)

/-- An insert is kept, and any other statement is posted at once. -/
theorem transaction_exec_stands (t : Token (Line σ)) (text : String) (args : List Value) :
    ((Client.transaction s (transport net) clientPart opened id).exec t text args).Within
      (Stands s) := by
  refine .bind (kept_stands s id) fun inserts => ?_
  split
  · exact .bind (.ofExcept _) fun sql => .bind (keep_stands s id _) fun _ => .pure _
  · exact .guard t (exec_stands s net text args)

theorem commit_stands :
    (Client.transaction s (transport net) clientPart opened id).commit.Within (Stands s) := by
  refine .bind (.check opened) fun _ => .bind (kept_stands s id) fun inserts => ?_
  refine .bind (keep_stands s id none) fun _ => .forM fun sql => .guard opened ?_
  exact .bind (post_stands s net sql) fun _ => .pure _

theorem rollback_stands :
    (Client.transaction s (transport net) clientPart opened id).rollback.Within (Stands s) :=
  .bind (kept_stands s id) fun _ => keep_stands s id none

end Transactions

variable (d : Dsn)

/-- The same of a statement, in a transaction or outside of one. -/
theorem connection_query_stands (t : Token σ) (inside : Option (Token σ × Nat)) (text : String)
    (args : List Value) : ((connection d s net).query (context (connection d s net) t inside) text
      args).Within (Stands s) := by
  refine .bind (.check _) fun _ => ?_
  cases inside with
  | none => exact .guard _ (query_stands s net text args)
  | some inside => exact transaction_query_stands s net _ _ _ text args

theorem connection_exec_stands (t : Token σ) (inside : Option (Token σ × Nat)) (text : String)
    (args : List Value) : ((connection d s net).exec (context (connection d s net) t inside) text
      args).Within (Stands s) := by
  refine .bind (.check _) fun _ => ?_
  cases inside with
  | none => exact .guard _ (exec_stands s net text args)
  | some inside => exact transaction_exec_stands s net _ _ _ text args

/-- **Every call but a ping** leaves the choice of the endpoint alone, and what it posts goes to the
endpoint of the client. -/
theorem act_stands (e : Errand σ) (he : ∀ t, e ≠ .ping t) :
    (e.act (connection d s net)).Within (Stands s) := by
  cases e with
  | ping t => exact absurd rfl (he t)
  | query t inside text args =>
    exact .bind (connection_query_stands s net d t inside text args) fun _ => .pure _
  | exec t inside text args =>
    exact .bind (connection_exec_stands s net d t inside text args) fun _ => .pure _
  | begin t => exact .bind (.bind (.check _) fun _ => begin_stands s) fun _ => .pure _
  | commit opened id => exact commit_stands s net _ id
  | rollback opened id => exact rollback_stands s net _ id

theorem token_down {t : Token σ} {l : Line σ} (ht : t.isRaised l.world = false) :
    ¬(token t).isRaised l = true := by
  show ¬t.isRaised l.world = true
  rw [ht]
  exact Bool.false_ne_true

/-- A statement that is bound and posted under a token that is down goes to the endpoint of the
client. -/
theorem perform_guard_post {t : Token σ} {l : Line σ} (ht : t.isRaised l.world = false)
    {bound : Except Failure String} {sql : String} (hsql : bound.toOption = some sql)
    (form : String → String) {g : String → Action (Line σ) α}
    (hg : ∀ body l, ((g body).perform l).2 = l) :
    ∃ p : Post σ, p.request = statementTo s (s.endpoint l.client.active) (form sql) ∧
      (((token t).guard (.ofExcept bound >>= fun sql =>
        Client.post s (transport net) clientPart (form sql) >>= g)).perform l).2 = l.noting p := by
  obtain rfl := Failure.ok_of_toOption hsql
  obtain ⟨p, hp, hpost⟩ := perform_post s net (form sql) l
  refine ⟨p, hp, ?_⟩
  rw [Token.perform_guard, if_neg (token_down ht), Action.perform_ofExcept_ok_bind]
  cases hbody : p.answer >>= Client.judge with
  | error e => rw [Action.perform_bind_error (by rw [hpost, hbody])]
  | ok body =>
    rw [Action.perform_bind_ok (by rw [hpost, hbody])]
    exact hg body _

theorem perform_query (text : String) (args : List Value) {t : Token σ} {l : Line σ}
    (ht : t.isRaised l.world = false) :
    ((connection d s net).query (context (connection d s net) t none) text args).perform l =
      ((token t).guard (Client.query s (transport net) clientPart text args)).perform l := by
  rw [Connection.perform_query]
  exact if_neg (token_down ht)

theorem perform_exec (text : String) (args : List Value) {t : Token σ} {l : Line σ}
    (ht : t.isRaised l.world = false) :
    ((connection d s net).exec (context (connection d s net) t none) text args).perform l =
      ((token t).guard (Client.exec s (transport net) clientPart text args)).perform l := by
  rw [Connection.perform_exec]
  exact if_neg (token_down ht)

/-- A statement outside of transactions is sent at once. -/
theorem act_direct {e : Errand σ} {t : Token σ} {sql : String} (he : e.direct? = some (t, sql))
    {l : Line σ} (ht : t.isRaised l.world = false) :
    ∃ p : Post σ, p.request = statementTo s (s.endpoint l.client.active) sql ∧
      ((e.act (connection d s net)).perform l).2 = l.noting p := by
  unfold Errand.direct? at he
  split at he
  case h_1 t' text args =>
    obtain ⟨bound, hbound, heq⟩ := Option.map_eq_some_iff.mp he
    obtain ⟨rfl, rfl⟩ := Prod.mk.inj heq
    obtain ⟨p, hp, hpost⟩ := perform_guard_post s net ht hbound withFormat
      (g := fun body => .ofExcept (readTable body)) fun _ _ => by rw [Action.perform_ofExcept]
    refine ⟨p, hp, ?_⟩
    rw [Errand.act, Action.perform_bind_pure, perform_query s net d text args ht]
    exact hpost
  case h_2 t' text args =>
    obtain ⟨bound, hbound, heq⟩ := Option.map_eq_some_iff.mp he
    obtain ⟨rfl, rfl⟩ := Prod.mk.inj heq
    obtain ⟨p, hp, hpost⟩ := perform_guard_post s net ht hbound id
      (g := fun _ => pure ExecResult.unsupported) fun _ _ => rfl
    refine ⟨p, hp, ?_⟩
    rw [Errand.act, Action.perform_bind_pure, perform_exec s net d text args ht]
    exact hpost
  case h_3 => cases he

end Statements

/-! ### What the calls before have left -/

/-- The hosts of the data source name come first, and then those of its option `alt_hosts`. -/
theorem endpoints_of_ofDsn {d : Dsn} {s : Settings} (h : Settings.ofDsn d = .ok s) :
    (d.hosts ++ Settings.alternatives d).mapM (Settings.baseUrl (Settings.isSecure d)) =
      .ok s.endpoints := by
  rw [Dsn.hosts, List.cons_append, List.mapM_cons]
  rw [Settings.ofDsn] at h
  cases hfirst : Settings.baseUrl (Settings.isSecure d) d.primary with
  | error e =>
    rw [hfirst] at h
    cases h
  | ok first =>
    rw [hfirst] at h
    change List.mapM (Settings.baseUrl (Settings.isSecure d)) _ >>= _ = _ at h
    cases hothers : (d.others ++ Settings.alternatives d).mapM
        (Settings.baseUrl (Settings.isSecure d)) with
    | error e =>
      rw [hothers] at h
      cases h
    | ok others =>
      rw [hothers] at h
      cases h
      rfl

/-- A number within the list is that of an endpoint. -/
theorem endpoint_of_lt {s : Settings} {i : Nat} (h : i < s.endpoints.length) :
    s.endpoints[i]? = some (s.endpoint i) := by
  rw [Settings.endpoint, List.getElem?_eq_getElem h]
  rfl

/-- A search probes no more endpoints than there are. -/
theorem Searched.length_le {t : Token σ} {endpoints : List String} {before : σ}
    {posts : List (Post σ)} {r : Except Failure Unit}
    (h : Searched t endpoints before posts r) : posts.length ≤ endpoints.length := by
  have hlength := congrArg List.length h.requests
  rw [List.length_map, List.length_map, List.length_take] at hlength
  omega

namespace Turn

variable {t : Turn σ} {s : Settings} {found : Option Nat}

theorem follows_of_ne_ping (h : ∀ token, t.errand ≠ .ping token) : t.Follows s found ↔
    ∃ endpoint, s.endpoints[found.getD 0]? = some endpoint ∧ t.SpeaksTo s endpoint := by
  unfold Follows
  split
  · exact absurd ‹_› (h _)
  · exact absurd ‹_› (h _)
  · rfl

theorem found?_of_ne_ping (h : ∀ token, t.errand ≠ .ping token) : t.found? = none := by
  unfold found?
  split
  · exact absurd ‹_› (h _)
  · rfl

end Turn

/-- What a connection remembers of the pings before. -/
structure Remembers (s : Settings) (found : Option Nat) (l : Line σ) : Prop where
  reached : l.reached = found.isSome
  active : l.client.active = found.getD 0
  within : found.getD 0 < s.endpoints.length

section Turns

variable {d : Dsn} {s : Settings} {net : Transport σ} {found : Option Nat} {l : Line σ}

theorem turn_of_perform {e : Errand σ} {r : Except Failure Unit} {l' : Line σ}
    (h : (e.act (connection d s net)).perform { l with posts := [] } = (r, l')) :
    e.turn (connection d s net) l = ⟨e, { l with posts := [] }, r, l'⟩ := by
  rw [Errand.turn, h]

/-- A ping before the first success. -/
theorem ping_turn (h : Remembers s none l) (t : Token σ) :
    ((Errand.ping t).turn (connection d s net) l).Follows s none ∧
      Remembers s ((Errand.ping t).turn (connection d s net) l).found?
        ((Errand.ping t).turn (connection d s net) l).after := by
  obtain ⟨r, world, ps, hping, hsearched⟩ :=
    perform_ping net t s d (l := { l with posts := [] }) h.reached
  rw [turn_of_perform (e := .ping t) hping]
  refine ⟨⟨hsearched, rfl, rfl⟩, ?_⟩
  cases r with
  | error e => exact ⟨rfl, h.active, h.within⟩
  | ok _ =>
    have hle := hsearched.length_le
    refine ⟨rfl, rfl, ?_⟩
    show ps.length - 1 < s.endpoints.length
    have hpos := h.within
    omega

/-- **One call**, and what the connection remembers after it. -/
theorem turn_follows (h : Remembers s found l) (e : Errand σ) :
    (e.turn (connection d s net) l).Follows s found ∧
      Remembers s (found.or (e.turn (connection d s net) l).found?)
        (e.turn (connection d s net) l).after := by
  by_cases he : ∃ t, e = .ping t
  · obtain ⟨t, rfl⟩ := he
    cases found with
    | none => exact ping_turn h t
    | some n =>
      have hping := perform_ping_reached net t s d (l := { l with posts := [] }) h.reached
      rw [turn_of_perform (e := .ping t) hping]
      exact ⟨⟨rfl, rfl, rfl⟩, h.reached, h.active, h.within⟩
  · have hne : ∀ t, e ≠ .ping t := fun t ht => he ⟨t, ht⟩
    have hstands := act_stands s net d e hne { l with posts := [] }
    obtain ⟨sqls, hposts⟩ := hstands.posts
    rw [Turn.follows_of_ne_ping hne, Turn.found?_of_ne_ping hne, Option.or_none]
    refine ⟨⟨s.endpoint l.client.active, ?_, hstands.active, hstands.reached, ⟨sqls, hposts⟩, ?_⟩,
      hstands.reached.trans h.reached, hstands.active.trans h.active, h.within⟩
    · rw [h.active]
      exact endpoint_of_lt h.within
    · intro t sql hdirect ht
      obtain ⟨p, hp, hperform⟩ := act_direct s net d hdirect (l := { l with posts := [] }) ht
      have hposts : (e.turn (connection d s net) l).posts = [p] := congrArg posts hperform
      rw [hposts, List.map_singleton, hp]

namespace Ran

variable {turns earlier : List (Turn σ)} {t : Turn σ}

/-- The connection remembers the endpoint that was found first. -/
theorem remembers (h : Ran (connection d s net) turns l) : Remembers s (chosen? turns) l := by
  induction h with
  | start world => exact ⟨rfl, rfl, Nat.succ_pos _⟩
  | elsewhere _ world ih => exact ⟨ih.reached, ih.active, ih.within⟩
  | turn _ e ih =>
    rw [chosen?_concat]
    exact (turn_follows ih e).2

/-- **Every call of a connection**, whatever the calls before it were and however the world changed
meanwhile.  The endpoints are the hosts of the data source name and then those of `alt_hosts`, and
the number of the one in use is always within the list.

* As long as no ping has succeeded, a ping probes the endpoints in their order from the first on,
  and stops at the first that answers, which becomes that of the client.  If none answers, it ends
  with the failure of the last one; if its token is raised, it is cancelled.  Either way the
  endpoint of the client stays what it was.
* After the first ping that has succeeded, a ping succeeds without sending anything.
* All other calls send nothing but statements, and all of these go to the endpoint that the first
  successful ping has found, or to the first endpoint if there was none.  A statement outside of
  transactions is sent at once. -/
theorem turns_follow (hs : Settings.ofDsn d = .ok s) (h : Ran (connection d s net) turns l)
    (ht : earlier ++ [t] <+: turns) :
    (d.hosts ++ Settings.alternatives d).mapM (Settings.baseUrl (Settings.isSecure d)) =
        .ok s.endpoints ∧
      t.before.client.active = (chosen? earlier).getD 0 ∧
      (chosen? earlier).getD 0 < s.endpoints.length ∧
      t.Follows s (chosen? earlier) := by
  refine ⟨endpoints_of_ofDsn hs, ?_⟩
  induction h with
  | start _ => exact absurd ht.length_le (by simp)
  | elsewhere _ _ ih => exact ih ht
  | @turn turns l h e ih =>
    -- either the last turn, which follows what the connection remembers, or one of those before it
    rcases List.prefix_concat_iff.mp ht with hlast | hbefore
    · obtain ⟨rfl, hturn⟩ := List.append_inj' hlast rfl
      obtain rfl := List.singleton_inj.mp hturn
      exact ⟨h.remembers.active, h.remembers.within, (turn_follows h.remembers e).1⟩
    · exact ih hbefore

/-- Two hosts and an alternative one. -/
def threeHosts : Dsn :=
  ⟨.clickHouse, "a", ["b:9000"], "", "", "", [("alt_hosts", ["c"])], "ch://a,b:9000?alt_hosts=c"⟩

def threeEndpoints : Settings :=
  ⟨"http://a:8123", ["http://b:9000", "http://c:8123"], "default", "default", ""⟩

/-- Endpoints of which some answer. -/
def answering : Transport (List String) where
  send r := .ofStep fun up =>
    (if up.contains r.endpoint then .ok ⟨200, none, "Ok.\n"⟩ else .error .http, up)

/-- Nobody answers the first ping, and the second of three endpoints answers the second ping.  When
the first endpoint is back, nobody searches any more. -/
theorem turns_follow_second :
    ∃ (earlier : List (Turn (List String))) (t : Turn (List String)) (l : Line (List String)),
      Settings.ofDsn threeHosts = .ok threeEndpoints ∧
      Ran (connection threeHosts threeEndpoints answering) (earlier ++ [t]) l ∧
      earlier.map (fun t => (t.posts.length, t.answer.isOk)) = [(3, false), (2, true), (0, true)] ∧
      t.errand = .exec .never none "A" [] ∧ t.before.client.active = 1 ∧
      t.Follows threeEndpoints (some 1) ∧
      t.posts.map (·.request) = [statementTo threeEndpoints "http://b:9000" "A"] := by
  have hs : Settings.ofDsn threeHosts = .ok threeEndpoints :=
    Failure.ok_of_toOption (by decide +kernel)
  have hnone := (Ran.start (c := connection threeHosts threeEndpoints answering) []).turn
    (.ping .never)
  have hsecond := (hnone.elsewhere ["http://b:9000"]).turn (.ping .never)
  have hthird := (hsecond.elsewhere ["http://a:8123", "http://b:9000"]).turn (.ping .never)
  have hrun := hthird.turn (.exec .never none "A" [])
  obtain ⟨-, hactive, -, hfollows⟩ := turns_follow hs hrun (List.prefix_refl _)
  exact ⟨_, _, _, hs, hrun, rfl, rfl, hactive, hfollows, rfl⟩

end Ran

end Turns

end Line

end SchemaMigration.ClickHouse
