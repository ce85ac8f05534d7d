import SchemaMigration.ClickHouse.Client
import SchemaMigration.Proofs.ActionFrames
/-! # Transactions that keep their inserts

The server knows nothing of a transaction: what is sent takes effect at once, and what is not to
take effect must not be sent.  Here the way to the endpoints is watched (`Wired`), so that every
request is noted with its answer and with the world after it.  A token looks at the world, which
the other side changes as it likes; so a token can be raised at every request, and between two
calls.

A run of one transaction (`Held`) is what any sequence of calls makes of it, with anything that
leaves its inserts alone in between.  Each call of it is a `Turn`: what was asked, the world at that
moment, how it ended, and what was posted meanwhile.  One call is followed from what the transaction
keeps (`Operation.turn_open`, `Operation.turn_closed`), and a run by what the turns before a call
have left of it (`Held.turns_obey`). -/
namespace SchemaMigration.ClickHouse

variable {σ α : Type}

/-- The request of a statement to an endpoint. -/
def statementTo (s : Settings) (endpoint sql : String) : Request :=
  ⟨endpoint, Client.statementPath s, some (s.username, s.password, sql)⟩

/-- Posting a statement sends one request, to the endpoint that is the client's at the start. -/
theorem Client.perform_post {s : Settings} {net : Transport σ} {place : Part σ Client}
    {sql : String} {w w' : σ} {answer : Except Failure Response}
    (hsend : (net.send (statementTo s (s.endpoint (place.get w).active) sql)).perform w =
      (answer, w')) : (post s net place sql).perform w = (answer >>= judge, w') := by
  rw [post, Action.perform_bind_ok (Part.perform_read place w)]
  cases answer with
  | error e => exact Action.perform_bind_error hsend
  | ok r => exact (Action.perform_bind_ok hsend).trans (Action.perform_ofExcept _ _)

/-! ### The way to the endpoints, watched -/

/-- A request that was sent, what came back, and the world after it. -/
structure Post (σ : Type) where
  request : Request
  answer : Except Failure Response
  after : σ

/-- The statement in the body of a request. -/
def Post.sql? (p : Post σ) : Option String := p.request.post.map fun (_, _, sql) => sql

/-- How a post goes for the one who waits for it under a token. -/
def Post.verdict (opened : Token σ) (p : Post σ) : Except Failure Unit :=
  if opened.isRaised p.after then .error .cancelled
  else (p.answer >>= Client.judge).map fun _ => ()

/-- A client, the world around it, and what has been posted. -/
structure Wired (σ : Type) where
  world : σ
  client : Client
  posts : List (Post σ)

namespace Wired

/-- The client in a watched state. -/
def clientPart : Part (Wired σ) Client where
  get := client
  set c w := { w with client := c }

/-- A token of the world. -/
def token (t : Token σ) : Token (Wired σ) where
  isRaised w := t.isRaised w.world
  raise w := { w with world := t.raise w.world }

/-- The state after a post. -/
def noting (w : Wired σ) (p : Post σ) : Wired σ :=
  { w with world := p.after, posts := w.posts ++ [p] }

/-- The way to the endpoints, with a note of every request. -/
def transport (net : Transport σ) : Transport (Wired σ) where
  send r := .ofStep fun w =>
    let (answer, after) := (net.send r).perform w.world
    (answer, w.noting ⟨r, answer, after⟩)

/-- The backend of a client that is watched. -/
def backend (s : Settings) (net : Transport σ) : Backend (Wired σ) :=
  Client.backend s (transport net) clientPart

/-- The inserts that a transaction keeps, or nothing once it is closed. -/
def slot (w : Wired σ) (id : Nat) : Option (Option (List String)) := w.client.transactions[id]?

/-- The state after what a transaction keeps was replaced. -/
def keeping (w : Wired σ) (id : Nat) (kept : Option (List String)) : Wired σ :=
  { w with client := { w.client with transactions := w.client.transactions.set id kept } }

theorem slot_keeping {w : Wired σ} {id : Nat} {old : Option (List String)}
    (h : w.slot id = some old) (kept : Option (List String)) :
    (w.keeping id kept).slot id = some kept := by
  show (w.client.transactions.set id kept)[id]? = some kept
  rw [List.getElem?_set_self', show w.client.transactions[id]? = some old from h]
  rfl

end Wired

/-! ### Calls of a transaction -/

/-- What can be asked of a transaction. -/
inductive Operation (σ : Type) where
  | query (token : Token σ) (text : String) (args : List Value)
  | exec (token : Token σ) (text : String) (args : List Value)
  | commit
  | rollback

/-- A call: what was asked, the world when it was, how it ended, and what was posted for it. -/
structure Turn (σ : Type) where
  operation : Operation σ
  before : σ
  answer : Except Failure Unit
  posts : List (Post σ)

namespace Turn

/-- A call after which the transaction is closed, if it was open: one that rolls back, and one that
commits unless the token is raised when it starts. -/
def closes (opened : Token σ) (t : Turn σ) : Bool :=
  match t.operation with
  | .query .. | .exec .. => false
  | .commit => !opened.isRaised t.before
  | .rollback => true

/-- The insert that a call adds to those that an open transaction keeps. -/
def keeps (t : Turn σ) : List String :=
  match t.operation with
  | .exec _ text args => if isInsert text then (bind text args).toOption.toList else []
  | _ => []

/-- What a transaction keeps after some calls, or nothing once one of them has closed it. -/
def left (opened : Token σ) (turns : List (Turn σ)) : Option (List String) :=
  if turns.any (closes opened) then none else some (turns.flatMap keeps)

/-- A statement is posted at once, and just once, unless the token of its call is raised or its
arguments do not fit. -/
def SendsAtOnce (t : Turn σ) (token : Token σ) (bound : Except Failure String) : Prop :=
  if token.isRaised t.before then t.posts = [] ∧ t.answer = .error .cancelled
  else match bound with
    | .error e => t.posts = [] ∧ t.answer = .error e
    | .ok sql => ∃ p, t.posts = [p] ∧ p.sql? = some sql

/-- Statements are posted one after another until one goes wrong. -/
inductive Flushes (opened : Token σ) : List String → List (Post σ) → Except Failure Unit → Prop
  | done : Flushes opened [] [] (.ok ())
  | stopped {sql rest p e} (hsql : p.sql? = some sql) (hp : p.verdict opened = .error e) :
      Flushes opened (sql :: rest) [p] (.error e)
  | next {sql rest p ps r} (hsql : p.sql? = some sql) (hp : p.verdict opened = .ok ())
      (h : Flushes opened rest ps r) : Flushes opened (sql :: rest) (p :: ps) r

/-- What a call of an open transaction does. -/
def Obeys (opened : Token σ) (kept : List String) (t : Turn σ) : Prop :=
  match t.operation with
  | .query token text args => t.SendsAtOnce token ((bind text args).map withFormat)
  | .exec token text args =>
    if isInsert text then t.posts = [] ∧ t.answer = (bind text args).map fun _ => ()
    else t.SendsAtOnce token (bind text args)
  | .commit =>
    if opened.isRaised t.before then t.posts = [] ∧ t.answer = .error .cancelled
    else Flushes opened kept t.posts t.answer ∧
      t.posts.map Post.sql? <+: kept.map some ∧
      (t.answer = .ok () → t.posts.map Post.sql? = kept.map some)
  | .rollback => t.posts = [] ∧ t.answer = .ok ()

/-- What a call of a closed transaction does: nothing is posted.  Only a commit looks at its token
before it finds out. -/
def Refused (opened : Token σ) (t : Turn σ) : Prop :=
  t.posts = [] ∧ t.answer = .error
    (match t.operation with
      | .commit => if opened.isRaised t.before then .cancelled else .transactionAlreadyClosed
      | _ => .transactionAlreadyClosed)

/-- What is posted of the statements is a first part of them, each once. -/
theorem Flushes.sent_prefix {opened : Token σ} {kept : List String} {ps : List (Post σ)}
    {r : Except Failure Unit} (h : Flushes opened kept ps r) :
    ps.map Post.sql? <+: kept.map some := by
  induction h with
  | done => exact List.prefix_refl _
  | stopped hsql _ =>
    rw [List.map_cons, List.map_cons, hsql, List.prefix_cons_inj]
    exact List.nil_prefix
  | next hsql _ _ ih =>
    rw [List.map_cons, List.map_cons, hsql, List.prefix_cons_inj]
    exact ih

/-- Statements that went well were all posted. -/
theorem Flushes.sent_all {opened : Token σ} {kept : List String} {ps : List (Post σ)}
    (h : Flushes opened kept ps (.ok ())) : ps.map Post.sql? = kept.map some := by
  generalize hr : (Except.ok () : Except Failure Unit) = r at h
  induction h with
  | done => rfl
  | stopped _ _ => cases hr
  | next hsql _ _ ih => rw [List.map_cons, List.map_cons, hsql, ih hr]

end Turn

section Calls

variable (s : Settings) (net : Transport σ) (opened : Token σ) (id : Nat)

namespace Operation

/-- The call of a transaction that was opened under a token. -/
def act (o : Operation σ) : Action (Wired σ) Unit :=
  let t := (Wired.backend s net).transaction (Wired.token opened) id
  match o with
  | query token text args => do
    let _ ← t.query (Wired.token token) text args
  | exec token text args => do
    let _ ← t.exec (Wired.token token) text args
  | commit => t.commit
  | rollback => t.rollback

/-- Makes the call, watched from the start of it. -/
def perform (o : Operation σ) (w : Wired σ) : Except Failure Unit × Wired σ :=
  (o.act s net opened id).perform { w with posts := [] }

/-- The call as a turn. -/
def turn (o : Operation σ) (w : Wired σ) : Turn σ :=
  ⟨o, w.world, (o.perform s net opened id w).1, (o.perform s net opened id w).2.posts⟩

end Operation

/-- A run of a transaction: it was opened, then called, and meanwhile anything happened that left its
inserts alone. -/
inductive Held : List (Turn σ) → Wired σ → Prop
  | start {w w' : Wired σ}
      (h : ((Wired.backend s net).begin (Wired.token opened)).perform w = (.ok id, w')) : Held [] w'
  | turn {turns : List (Turn σ)} {w : Wired σ} (h : Held turns w) (o : Operation σ) :
      Held (turns ++ [o.turn s net opened id w]) (o.perform s net opened id w).2
  | elsewhere {turns : List (Turn σ)} {w w' : Wired σ} (h : Held turns w)
      (hw : w'.slot id = w.slot id) : Held turns w'

/-! ### What one call does -/

variable {opened id}

namespace Wired

variable {w : Wired σ}

/-- Posting a statement notes one post, whose answer decides how it goes on. -/
theorem perform_post (sql : String) {f : String → Except Failure α}
    {g : String → Action (Wired σ) α} (hg : ∀ body w, (g body).perform w = (f body, w))
    (w : Wired σ) :
    ∃ p : Post σ, p.sql? = some sql ∧
      (Client.post s (transport net) clientPart sql >>= g).perform w =
        ((p.answer >>= Client.judge) >>= f, w.noting p) := by
  let request := statementTo s (s.endpoint w.client.active) sql
  let p : Post σ := ⟨request, ((net.send request).perform w.world).1,
    ((net.send request).perform w.world).2⟩
  have hpost : (Client.post s (transport net) clientPart sql).perform w =
      (p.answer >>= Client.judge, w.noting p) := Client.perform_post rfl
  refine ⟨p, rfl, ?_⟩
  cases hbody : p.answer >>= Client.judge with
  | error e => exact Action.perform_bind_error (by rw [hpost, hbody])
  | ok body =>
    rw [Action.perform_bind_ok (by rw [hpost, hbody])]
    exact hg body _

/-- The inserts of a transaction are there as long as it is open. -/
theorem perform_kept {left : Option (List String)} (h : w.slot id = some left) :
    (Client.kept clientPart id).perform w =
      (left.elim (.error .transactionAlreadyClosed) .ok, w) := by
  have hread : (clientPart.get w).transactions[id]? = some left := h
  rw [Client.kept, Action.perform_bind_ok (Part.perform_read clientPart w), hread]
  cases left <;> rfl

theorem check_of_raised {t : Token σ} (ht : t.isRaised w.world = true) :
    (token t).check.perform w = (.error .cancelled, w) :=
  (Token.perform_check (token t) w).trans (congrArg (·, w) (if_pos ht))

theorem check_of_down {t : Token σ} (ht : t.isRaised w.world = false) :
    (token t).check.perform w = (.ok (), w) :=
  (Token.perform_check (token t) w).trans (congrArg (·, w) (if_neg (Bool.eq_false_iff.mp ht)))

/-- Under a token of the world that is down, an action ends as it does by itself, unless the token
is raised meanwhile. -/
theorem perform_guard {t : Token σ} {a : Action (Wired σ) α} {r : Except Failure α} {w' : Wired σ}
    (ht : t.isRaised w.world = false) (ha : a.perform w = (r, w')) :
    ((token t).guard a).perform w = (if t.isRaised w'.world then .error .cancelled else r, w') := by
  have hdown : ¬(token t).isRaised w = true := by
    show ¬t.isRaised w.world = true
    rw [ht]
    exact Bool.false_ne_true
  rw [Token.perform_guard, if_neg hdown, ha]
  rfl

/-- What is bound, posted and read under a token is posted at once. -/
theorem perform_guard_bound (t : Token σ) (bound : Except Failure String)
    {f : String → Except Failure α} {g : String → Action (Wired σ) α}
    (hg : ∀ body w, (g body).perform w = (f body, w)) (hw : w.posts = []) :
    ∃ r w', ((token t).guard (.ofExcept bound >>= fun sql =>
        Client.post s (transport net) clientPart sql >>= g)).perform w = (r, w') ∧
      w'.client = w.client ∧
      ∀ o : Operation σ, Turn.SendsAtOnce ⟨o, w.world, r.map fun _ => (), w'.posts⟩ t bound := by
  cases ht : t.isRaised w.world with
  | true =>
    refine ⟨_, _, (Token.perform_guard (token t) _ w).trans (if_pos ht), rfl, fun o => ?_⟩
    show if t.isRaised w.world then _ else _
    rw [if_pos ht]
    exact ⟨hw, rfl⟩
  | false =>
    have hdown : ¬t.isRaised w.world = true := Bool.eq_false_iff.mp ht
    cases bound with
    | error e =>
      refine ⟨_, _, perform_guard ht (Action.perform_bind_error (Action.perform_ofExcept _ _)),
        rfl, fun o => ?_⟩
      show if t.isRaised w.world then _ else _
      rw [if_neg hdown, if_neg hdown]
      exact ⟨hw, rfl⟩
    | ok sql =>
      obtain ⟨p, hsql, hp⟩ := perform_post s net sql hg w
      refine ⟨_, _, perform_guard ht hp, rfl, fun o => ?_⟩
      show if t.isRaised w.world then _ else ∃ q, w.posts ++ [p] = [q] ∧ q.sql? = some sql
      rw [if_neg hdown, hw, List.nil_append]
      exact ⟨p, rfl, hsql⟩

/-- A statement that is posted under a token goes as its post does. -/
theorem perform_guard_post (ht : opened.isRaised w.world = false) (sql : String) :
    ∃ p : Post σ, p.sql? = some sql ∧
      ((token opened).guard (Client.post s (transport net) clientPart sql >>= fun _ =>
        pure ())).perform w = (p.verdict opened, w.noting p) := by
  obtain ⟨p, hsql, hp⟩ := perform_post s net sql (f := fun _ => .ok ())
    (g := fun _ => pure ()) (fun _ _ => rfl) w
  have hanswer : ((p.answer >>= Client.judge) >>= fun _ => .ok ()) =
      (p.answer >>= Client.judge).map fun _ => () := by
    cases p.answer >>= Client.judge <;> rfl
  refine ⟨p, hsql, ?_⟩
  rw [perform_guard ht hp, hanswer]
  rfl

/-- What a commit sends, one statement after another. -/
theorem perform_forM_post (kept : List String) (ht : opened.isRaised w.world = false) :
    ∃ r w' ps, (kept.forM fun sql => (token opened).guard
        (Client.post s (transport net) clientPart sql >>= fun _ => pure ())).perform w = (r, w') ∧
      w'.client = w.client ∧ w'.posts = w.posts ++ ps ∧ Turn.Flushes opened kept ps r := by
  -- on what is kept, from any state in which the token is down
  induction kept generalizing w with
  | nil => exact ⟨.ok (), w, [], rfl, rfl, (List.append_nil _).symm, .done⟩
  | cons sql rest ih =>
    obtain ⟨p, hsql, hp⟩ := perform_guard_post s net ht sql
    cases hverdict : p.verdict opened with
    | error e =>
      rw [hverdict] at hp
      exact ⟨_, _, [p], Action.perform_bind_error hp, rfl, rfl, .stopped hsql hverdict⟩
    | ok u =>
      rw [hverdict] at hp
      -- the token is still down, or the post would have been cancelled
      have ht' : opened.isRaised (w.noting p).world = false := by
        rw [Post.verdict] at hverdict
        split at hverdict
        · cases hverdict
        · exact Bool.eq_false_iff.mpr ‹_›
      obtain ⟨r, w', ps, hrest, hclient, hps, hflush⟩ := ih ht'
      refine ⟨r, w', p :: ps, (Action.perform_bind_ok hp).trans hrest, hclient, ?_,
        .next hsql hverdict hflush⟩
      rw [hps]
      exact List.append_assoc w.posts [p] ps

/-- A transaction that is opened keeps nothing yet. -/
theorem slot_of_begin {w' : Wired σ}
    (h : ((backend s net).begin (token opened)).perform w = (.ok id, w')) :
    w'.slot id = some (some []) := by
  cases ht : opened.isRaised w.world with
  | true =>
    have hbegin : ((backend s net).begin (token opened)).perform w = (.error .cancelled, w) :=
      Action.perform_bind_error (check_of_raised ht)
    rw [hbegin] at h
    cases h
  | false =>
    have hbegin : ((backend s net).begin (token opened)).perform w =
        (Client.begin clientPart).perform w := Action.perform_bind_ok (check_of_down ht)
    rw [hbegin] at h
    cases h
    exact List.getElem?_concat_length

end Wired

namespace Operation

variable (opened) {w : Wired σ} {kept : List String}

theorem turn_of_perform {o : Operation σ} {r : Except Failure Unit} {w' : Wired σ}
    (h : o.perform s net opened id w = (r, w')) :
    o.turn s net opened id w = ⟨o, w.world, r, w'.posts⟩ := by
  rw [turn, h]

/-- A call of a closed transaction changes nothing. -/
theorem perform_closed (h : w.slot id = some none) (o : Operation σ) :
    ∃ e, o.perform s net opened id w = (.error e, { w with posts := [] }) ∧
      Turn.Refused opened ⟨o, w.world, .error e, []⟩ := by
  have hkept := Wired.perform_kept (w := { w with posts := [] }) h
  cases o with
  | query token text args =>
    refine ⟨_, ?_, rfl, rfl⟩
    exact Action.perform_bind_error (Action.perform_bind_error hkept)
  | exec token text args =>
    refine ⟨_, ?_, rfl, rfl⟩
    exact Action.perform_bind_error (Action.perform_bind_error hkept)
  | rollback =>
    refine ⟨_, ?_, rfl, rfl⟩
    exact Action.perform_bind_error hkept
  | commit =>
    cases ht : opened.isRaised w.world with
    | true =>
      refine ⟨.cancelled, ?_, rfl, congrArg Except.error (if_pos ht).symm⟩
      exact Action.perform_bind_error (Wired.check_of_raised ht)
    | false =>
      refine ⟨.transactionAlreadyClosed, ?_, rfl,
        congrArg Except.error (if_neg (Bool.eq_false_iff.mp ht)).symm⟩
      have hcheck := Wired.check_of_down (w := { w with posts := [] }) ht
      exact (Action.perform_bind_ok hcheck).trans (Action.perform_bind_error hkept)

/-- A call that binds and posts under its token, once the transaction was found open. -/
theorem sent_open (h : w.slot id = some (some kept)) {o : Operation σ} {t : Token σ}
    {bound : Except Failure String} {f : String → Except Failure α}
    {g : String → Action (Wired σ) α} (hg : ∀ body w, (g body).perform w = (f body, w))
    (hact : o.act s net opened id =
      (Client.kept Wired.clientPart id >>= fun _ => (Wired.token t).guard
        (.ofExcept bound >>= fun sql =>
          Client.post s (Wired.transport net) Wired.clientPart sql >>= g)) >>= fun _ => pure ()) :
    ∃ r w', o.perform s net opened id w = (r, w') ∧ w'.slot id = some (some kept) ∧
      Turn.SendsAtOnce ⟨o, w.world, r, w'.posts⟩ t bound := by
  have hkept := Wired.perform_kept (w := { w with posts := [] }) h
  obtain ⟨r, w', hrun, hclient, hsends⟩ :=
    Wired.perform_guard_bound s net (w := { w with posts := [] }) t bound hg rfl
  refine ⟨r.map fun _ => (), w', ?_, (congrArg (·.transactions[id]?) hclient).trans h, hsends o⟩
  rw [perform, hact, Action.perform_bind_pure, Action.perform_bind_ok hkept, hrun]

/-- A query of an open transaction is sent at once. -/
theorem query_open (h : w.slot id = some (some kept)) (t : Token σ) (text : String)
    (args : List Value) :
    ∃ r w', (query t text args).perform s net opened id w = (r, w') ∧
      w'.slot id = some (some kept) ∧
      Turn.SendsAtOnce ⟨query t text args, w.world, r, w'.posts⟩ t
        ((bind text args).map withFormat) := by
  -- the statement with its format is bound as any other is
  have hquery : Client.query s (Wired.transport net) Wired.clientPart text args =
      .ofExcept ((bind text args).map withFormat) >>= fun sql =>
        Client.post s (Wired.transport net) Wired.clientPart sql >>= fun body =>
          .ofExcept (readTable body) := by
    rw [Client.query]
    cases bind text args <;> rfl
  refine sent_open s net opened h (fun body w => Action.perform_ofExcept (readTable body) w) ?_
  rw [← hquery]
  rfl

/-- So is a statement that is no insert. -/
theorem exec_open (h : w.slot id = some (some kept)) (t : Token σ) {text : String}
    (htext : isInsert text = false) (args : List Value) :
    ∃ r w', (exec t text args).perform s net opened id w = (r, w') ∧
      w'.slot id = some (some kept) ∧
      Turn.SendsAtOnce ⟨exec t text args, w.world, r, w'.posts⟩ t (bind text args) := by
  refine sent_open s net opened h (f := fun _ => .ok ExecResult.unsupported)
    (g := fun _ => pure .unsupported) (fun _ _ => rfl) ?_
  show (Client.kept Wired.clientPart id >>= fun inserts => if isInsert text then _ else _) >>= _ = _
  rw [htext]
  rfl

/-- An insert is bound and kept; nothing is sent. -/
theorem exec_insert_open (h : w.slot id = some (some kept)) (t : Token σ) {text : String}
    (htext : isInsert text = true) (args : List Value) :
    ∃ w', (exec t text args).perform s net opened id w =
        ((bind text args).map fun _ => (), w') ∧
      w'.slot id = some (some (kept ++ (bind text args).toOption.toList)) ∧ w'.posts = [] := by
  have hcall : (((Wired.backend s net).transaction (Wired.token opened) id).exec (Wired.token t)
      text args).perform { w with posts := [] } = _ :=
    Action.perform_bind_ok (Wired.perform_kept (w := { w with posts := [] }) h)
  have hperform : (exec t text args).perform s net opened id w = _ :=
    Action.perform_bind_pure _ _ _
  rw [hperform, hcall, if_pos htext]
  cases bind text args with
  | error e =>
    refine ⟨_, rfl, ?_, rfl⟩
    show w.slot id = some (some (kept ++ []))
    rw [h, List.append_nil]
  | ok sql => exact ⟨_, rfl, Wired.slot_keeping (w := { w with posts := [] }) h _, rfl⟩

/-- A commit that starts under a raised token leaves the transaction open. -/
theorem commit_cancelled (id : Nat) (ht : opened.isRaised w.world = true) :
    commit.perform s net opened id w = (.error .cancelled, { w with posts := [] }) :=
  Action.perform_bind_error (Wired.check_of_raised ht)

/-- Any other commit closes it and sends what was kept. -/
theorem commit_open (h : w.slot id = some (some kept)) (ht : opened.isRaised w.world = false) :
    ∃ r w', commit.perform s net opened id w = (r, w') ∧ w'.slot id = some none ∧
      Turn.Flushes opened kept w'.posts r := by
  have hcheck := Wired.check_of_down (w := { w with posts := [] }) ht
  have hkept := Wired.perform_kept (w := { w with posts := [] }) h
  -- it is closed before anything is sent, so a failure on the way does not open it again
  have hclosed := Wired.slot_keeping (w := { w with posts := [] }) h none
  obtain ⟨r, w', ps, hrun, hclient, hps, hflush⟩ := Wired.perform_forM_post s net kept
    (w := Wired.keeping { w with posts := [] } id none) ht
  refine ⟨r, w', ?_, (congrArg (·.transactions[id]?) hclient).trans hclosed, ?_⟩
  · exact (Action.perform_bind_ok hcheck).trans ((Action.perform_bind_ok hkept).trans hrun)
  · rw [hps]
    exact hflush

/-- A rollback closes the transaction and sends nothing. -/
theorem rollback_open (h : w.slot id = some (some kept)) :
    ∃ w', rollback.perform s net opened id w = (.ok (), w') ∧ w'.slot id = some none ∧
      w'.posts = [] :=
  ⟨_, Action.perform_bind_ok (Wired.perform_kept (w := { w with posts := [] }) h),
    Wired.slot_keeping (w := { w with posts := [] }) h none, rfl⟩

/-- **One call of an open transaction**: what is sent for it, and what the transaction keeps after
it. -/
theorem turn_open (h : w.slot id = some (some kept)) (o : Operation σ) :
    (o.turn s net opened id w).Obeys opened kept ∧
      (o.perform s net opened id w).2.slot id =
        some (if (o.turn s net opened id w).closes opened then none
          else some (kept ++ (o.turn s net opened id w).keeps)) := by
  cases o with
  | query token text args =>
    obtain ⟨r, w', hperform, hslot, hsends⟩ := query_open s net opened h token text args
    rw [turn_of_perform s net opened hperform, hperform]
    refine ⟨hsends, ?_⟩
    simpa [Turn.closes, Turn.keeps] using hslot
  | exec token text args =>
    cases htext : isInsert text with
    | false =>
      obtain ⟨r, w', hperform, hslot, hsends⟩ := exec_open s net opened h token htext args
      rw [turn_of_perform s net opened hperform, hperform]
      refine ⟨?_, ?_⟩
      · simpa [Turn.Obeys, htext] using hsends
      · simpa [Turn.closes, Turn.keeps, htext] using hslot
    | true =>
      obtain ⟨w', hperform, hslot, hposts⟩ := exec_insert_open s net opened h token htext args
      rw [turn_of_perform s net opened hperform, hperform]
      refine ⟨?_, ?_⟩
      · simp [Turn.Obeys, htext, hposts]
      · simpa [Turn.closes, Turn.keeps, htext] using hslot
  | commit =>
    cases ht : opened.isRaised w.world with
    | true =>
      have hperform := commit_cancelled s net opened id ht
      rw [turn_of_perform s net opened hperform, hperform]
      refine ⟨?_, ?_⟩
      · simp [Turn.Obeys, ht]
      · show w.slot id = _
        simpa [Turn.closes, Turn.keeps, ht] using h
    | false =>
      obtain ⟨r, w', hperform, hslot, hflush⟩ := commit_open s net opened h ht
      rw [turn_of_perform s net opened hperform, hperform]
      have hall : r = .ok () → w'.posts.map Post.sql? = kept.map some := by
        rintro rfl
        exact hflush.sent_all
      refine ⟨?_, ?_⟩
      · simpa [Turn.Obeys, ht] using ⟨hflush, hflush.sent_prefix, hall⟩
      · simpa [Turn.closes, ht] using hslot
  | rollback =>
    obtain ⟨w', hperform, hslot, hposts⟩ := rollback_open s net opened h
    rw [turn_of_perform s net opened hperform, hperform]
    exact ⟨⟨hposts, rfl⟩, hslot⟩

/-- **One call of a closed transaction** sends nothing, and leaves it closed. -/
theorem turn_closed (h : w.slot id = some none) (o : Operation σ) :
    (o.turn s net opened id w).Refused opened ∧
      (o.perform s net opened id w).2.slot id = some none := by
  obtain ⟨e, hperform, hrefused⟩ := perform_closed s net opened h o
  rw [turn_of_perform s net opened hperform, hperform]
  exact ⟨hrefused, h⟩

end Operation

/-! ### What a run does -/

variable {s net}

/-- What is left after one more call. -/
theorem Turn.left_concat (turns : List (Turn σ)) (t : Turn σ) :
    left opened (turns ++ [t]) = (left opened turns).bind fun kept =>
      if t.closes opened then none else some (kept ++ t.keeps) := by
  unfold left
  cases hturns : turns.any (closes opened) <;> cases ht : t.closes opened <;>
    simp [hturns, ht]

namespace Held

variable {turns earlier : List (Turn σ)} {t : Turn σ} {w : Wired σ}

/-- The client keeps what the turns have left. -/
theorem slot_eq (h : Held s net opened id turns w) :
    w.slot id = some (Turn.left opened turns) := by
  induction h with
  | start hbegin => exact Wired.slot_of_begin s net hbegin
  | elsewhere h hw ih => exact hw.trans ih
  | @turn turns w h o ih =>
    rw [Turn.left_concat]
    cases hleft : Turn.left opened turns with
    | none =>
      rw [hleft] at ih
      exact (Operation.turn_closed s net opened ih o).2
    | some kept =>
      rw [hleft] at ih
      exact (Operation.turn_open s net opened ih o).2

/-- **Every call of a transaction**, whatever the calls before it were, does what is said of the
inserts that these have left of it:

* A transaction that was rolled back, or whose commit started before its token was raised, is closed.
  It refuses every call and sends nothing more.
* Until then a statement that is no insert is sent when it is asked for, or never; an insert is bound
  and kept, and nothing is sent for it.
* A commit sends what the calls before it have kept, in their order and each once, up to the first
  that goes wrong; all of it if it succeeds.  A commit that starts under a raised token sends nothing,
  and the transaction stays open.
* A rollback sends nothing. -/
theorem turns_obey (h : Held s net opened id turns w) (ht : earlier ++ [t] <+: turns) :
    match Turn.left opened earlier with
    | none => t.Refused opened
    | some kept => t.Obeys opened kept := by
  induction h with
  | start _ => exact absurd ht.length_le (by simp)
  | elsewhere _ _ ih => exact ih ht
  | @turn turns w h o ih =>
    -- either the last turn, which is a call of what the turns before it have left, or one of those
    rcases List.prefix_concat_iff.mp ht with hlast | hbefore
    · obtain ⟨rfl, hturn⟩ := List.append_inj' hlast rfl
      obtain rfl := List.singleton_inj.mp hturn
      have hslot := h.slot_eq
      cases hleft : Turn.left opened earlier with
      | none =>
        rw [hleft] at hslot
        exact (Operation.turn_closed s net opened hslot o).1
      | some kept =>
        rw [hleft] at hslot
        exact (Operation.turn_open s net opened hslot o).1
    · exact ih hbefore

/-- Two inserts are kept, and the token is raised while the first of them is sent by a commit. -/
theorem turns_obey_stopped :
    let net : Transport Nat := ⟨fun _ => .ofStep fun n => (.ok ⟨200, none, ""⟩, n + 1)⟩
    let opened : Token Nat := ⟨fun n => decide (2 ≤ n), fun _ => 2⟩
    let s : Settings := ⟨"http://localhost:8123", [], "default", "default", ""⟩
    let first := Operation.exec opened "INSERT INTO t VALUES (1)" []
    let other := Operation.exec opened "OPTIMIZE TABLE t" []
    let second := Operation.exec opened "INSERT INTO t VALUES (2)" []
    ∃ (earlier : List (Turn Nat)) (t : Turn Nat) (w : Wired Nat),
      Held s net opened 0 (earlier ++ [t]) w ∧
      earlier.map Turn.operation = [first, other, second] ∧ t.operation = .commit ∧
      t.Obeys opened ["INSERT INTO t VALUES (1)", "INSERT INTO t VALUES (2)"] ∧
      t.posts.map Post.sql? = [some "INSERT INTO t VALUES (1)"] ∧ t.answer = .error .cancelled := by
  intro net opened s first other second
  have hstart : Held s net opened 0 [] ⟨0, ⟨0, [some []]⟩, []⟩ := .start (w := ⟨0, .start, []⟩) rfl
  have hrun := (((hstart.turn first).turn other).turn second).turn .commit
  refine ⟨_, _, _, hrun, rfl, rfl, ?_, ?_, ?_⟩
  · exact turns_obey hrun (List.prefix_refl _)
  · rfl
  · rfl

end Held

end Calls

end SchemaMigration.ClickHouse
