import SchemaMigration.Proofs.LinkExchanges
/-! # Transactions in their streams

The server tells the transactions on one link apart by the stream that each packet names; a packet
in the wrong stream escapes its transaction. Here the client is watched through calls in any order:
some outside of all transactions, some that open one, and some of the transactions that were handed
out. The world around the client is free: servers answer what they like, links fail, tokens are
raised at any time.

What a call writes is at most its own request, behind what opens the link (`sends_through`). From
this, one call after another, comes what the client knows of its streams (`Ledger`, `Ran.ledger`),
and from that what stands in the packets of all calls (`Ran.streams_apart`). -/
namespace SchemaMigration.Tarantool

variable {σ α : Type}

/-! ### What a packet carries -/

/-- The number under a key in the header of a packet. -/
def carried? (key : UInt64) (packet : List UInt8) : Option UInt64 :=
  match takePacket packet with
  | (.ok payload, _) =>
    match Msgpack.read payload with
    | some (.map header, _) => field? key header
    | _ => none
  | _ => none

/-- A packet is a request of a kind, and names a stream unless that is zero. -/
structure Carries (code stream : UInt64) (packet : List UInt8) : Prop where
  code : carried? requestKey packet = some code
  stream : carried? streamKey packet = if stream = 0 then none else some stream

/-- A request that was written carries what is in its header. -/
theorem carries_of_encode {code own stream : UInt64} {body : Entries} {packet : List UInt8}
    (h : encodeRequest code own stream body = .ok packet) : Carries code stream packet := by
  have hfield (key : UInt64) :
      carried? key packet = field? key (requestHeader code own stream) := by
    rcases encodeRequest_cases code own stream body with herror | ⟨_, hok, hframed⟩
    · cases herror.symm.trans h
    · obtain rfl := Except.ok.inj (hok.symm.trans h)
      have htake := takePacket_framed hframed []
      rw [List.append_nil] at htake
      rw [carried?, htake]
      simp only [read_requestHeader]
  refine ⟨?_, ?_⟩
  · rw [hfield]
    simp [field?, lookup, requestHeader, Msgpack.natural?, requestKey]
  · rw [hfield]
    by_cases hstream : stream = 0 <;>
      simp [field?, lookup, requestHeader, Msgpack.natural?, requestKey, syncKey, streamKey,
        hstream]

/-- The kinds of the packets in a stream. -/
def codesIn (n : UInt64) (packets : List (List UInt8)) : List UInt64 :=
  packets.filterMap fun p => if carried? streamKey p = some n then carried? requestKey p else none

theorem codesIn_append (n : UInt64) (ps qs : List (List UInt8)) :
    codesIn n (ps ++ qs) = codesIn n ps ++ codesIn n qs := List.filterMap_append

/-! ### A client that is watched -/

/-- A client, the world around it, and the packets that were written. -/
structure Watched (σ : Type) where
  world : σ
  client : Client
  packets : List (List UInt8)

namespace Watched

/-- The client in a watched state. -/
def clientPart : Part (Watched σ) Client where
  get := client
  set c w := { w with client := c }

/-- A server of the world, with a note of every packet it gets. -/
def peer (p : Peer σ) : Peer (Watched σ) where
  receive packet w := ((p.receive packet w.world).1,
    { w with world := (p.receive packet w.world).2, packets := w.packets ++ [packet] })

/-- The servers of the world, with a note of every packet. -/
def network (net : Network σ) : Network (Watched σ) where
  connect host port := .ofStep fun w =>
    (((net.connect host port).perform w.world).1,
      { w with world := ((net.connect host port).perform w.world).2 })
  peer number := peer (net.peer number)

/-- Some packets were written, and the client is as it was. -/
def Wrote (w : Watched σ) (packets : List (List UInt8)) (w' : Watched σ) : Prop :=
  ∃ world, w' = { w with world, packets := w.packets ++ packets }

theorem wrote_nil (w : Watched σ) : w.Wrote [] w := ⟨w.world, by rw [List.append_nil]⟩

end Watched

/-! ### One request -/

/-- A request on a link writes its packet, or nothing if that does not fit. -/
theorem Link.request_watched (p : Peer σ) (code stream : UInt64) (body : Entries)
    (l : Link (Watched σ)) :
    ∃ own, (own = [] ∧ (l.request (Watched.peer p) code stream body).1.isOk = false ∨
        ∃ packet, own = [packet] ∧ Carries code stream packet) ∧
      l.server.Wrote own (l.request (Watched.peer p) code stream body).2.server := by
  cases hpacket : encodeRequest code (l.sync + 1) stream body with
  | error f =>
    simp only [Link.request, hpacket]
    exact ⟨[], .inl ⟨rfl, rfl⟩, l.server.wrote_nil⟩
  | ok packet =>
    simp only [Link.request, hpacket]
    exact ⟨[packet], .inr ⟨packet, rfl, carries_of_encode hpacket⟩, _, rfl⟩

/-- The handshake writes at most the proof of the identity, which is in no stream. -/
theorem Link.handshake_watched (p : Peer σ) (user password : String) (l : Link (Watched σ)) :
    ∃ opening, (∀ q ∈ opening, Carries authCode 0 q) ∧
      l.server.Wrote opening (l.handshake (Watched.peer p) user password).2.server := by
  unfold Link.handshake
  rcases takeExact greetingSize l.incoming with ⟨greeting, rest⟩
  dsimp only
  split
  · exact ⟨[], nofun, l.server.wrote_nil⟩
  · rename_i salt _
    split
    · exact ⟨[], nofun, l.server.wrote_nil⟩
    · obtain ⟨own, hown, hwrote⟩ := Link.request_watched p authCode 0
        [(.natural userKey, .ofText user), (.natural tupleKey, .array [.ofText "chap-sha1",
          .binary (scramble salt (Text.Utf8.encodeString password))])]
        { l with incoming := rest }
      refine ⟨own, fun q hq => ?_, hwrote⟩
      rcases hown with ⟨rfl, -⟩ | ⟨packet, rfl, hcarries⟩
      · cases hq
      · exact List.mem_singleton.mp hq ▸ hcarries

section Calls

variable (net : Network σ) (target : Target)

/-- Opening a link writes no more than its handshake. -/
theorem Client.connect_watched (w : Watched σ) :
    ∃ opening, (∀ q ∈ opening, Carries authCode 0 q) ∧
      w.Wrote opening ((Client.connect (Watched.network net) target).perform w).2 := by
  let reached : Watched σ :=
    { w with world := ((net.connect target.host target.port).perform w.world).2 }
  have hconnect : ((Watched.network net).connect target.host target.port).perform w =
      (((net.connect target.host target.port).perform w.world).1, reached) := rfl
  cases hanswer : ((net.connect target.host target.port).perform w.world).1 with
  | error e =>
    rw [hanswer] at hconnect
    rw [Client.connect, Action.perform_bind_error hconnect]
    exact ⟨[], nofun, reached.world, by rw [List.append_nil]⟩
  | ok link =>
    obtain ⟨number, greeting⟩ := link
    rw [hanswer] at hconnect
    rw [Client.connect, Action.perform_bind_ok hconnect]
    obtain ⟨opening, hopening, world, hwrote⟩ := Link.handshake_watched (net.peer number)
      target.username target.password ⟨0, greeting, reached⟩
    refine ⟨opening, hopening, world, ?_⟩
    rcases hlink : Link.handshake (Watched.peer (net.peer number)) target.username
      target.password ⟨0, greeting, reached⟩ with ⟨answer, after⟩
    have honlink : (Client.onLink (Watched.network net)
        (fun peer l => l.handshake peer target.username target.password)
        ⟨number, 0, greeting⟩).perform reached =
          (.ok (answer, ⟨number, after.sync, after.incoming⟩), after.server) :=
      Client.perform_onLink hlink
    rw [hlink] at hwrote
    dsimp only
    rw [Action.perform_bind_ok honlink, Action.perform_bind_pure, Action.perform_ofExcept]
    exact hwrote

/-- What a request by way of a client comes to: what opens the link, if there is none, and then at
most the packet of the request.  Without that there is no answer. -/
structure Sends (r : Request) (w : Watched σ) (answered : Bool) (opening own : List (List UInt8))
    (w' : Watched σ) : Prop where
  packets : w'.packets = w.packets ++ (opening ++ own)
  handshake : ∀ p ∈ opening, Carries authCode 0 p
  own : own = [] ∧ answered = false ∨ ∃ p, own = [p] ∧ Carries r.code r.stream p
  linked : w.client.session ≠ none → opening = []
  session : w.client.session ≠ none ∨ answered = true → w'.client.session ≠ none
  nextStream : w'.client.nextStream = w.client.nextStream
  closed : w'.client.closed = w.client.closed

/-- A call that is given up at the start sends nothing. -/
theorem sends_of_raised (r : Request) {token : Token (Watched σ)} {w : Watched σ}
    (h : token.isRaised w = true) :
    (r.through (Watched.network net) target Watched.clientPart token).perform w =
        (.error .cancelled, w) ∧
      Sends r w false [] [] w := by
  rw [r.through_eq]
  refine ⟨Client.perform_request_of_raised h _, ?_⟩
  exact ⟨by simp, nofun, .inl ⟨rfl, rfl⟩, fun _ => rfl, fun h => h.resolve_right nofun, rfl, rfl⟩

/-- A call that has its link sends its packet. -/
theorem sends_of_session (r : Request) (token : Token (Watched σ)) {w : Watched σ}
    {session : Session} (h : w.client.session = some session) :
    ∃ own, Sends r w
      ((r.through (Watched.network net) target Watched.clientPart token).perform w).1.isOk [] own
      ((r.through (Watched.network net) target Watched.clientPart token).perform w).2 := by
  have hne : w.client.session ≠ none := by
    rw [h]
    exact Option.some_ne_none session
  cases hraised : token.isRaised w with
  | true =>
    obtain ⟨hperform, hsends⟩ := sends_of_raised net target r hraised
    rw [hperform]
    exact ⟨[], hsends⟩
  | false =>
    have hsession : (sessionPart Watched.clientPart).get w = some session := h
    rw [r.through_eq, Client.perform_request_of_session hraised hsession, r.perform_eq]
    obtain ⟨own, hown, world, hwrote⟩ := Link.request_watched (net.peer session.number)
      r.code r.stream r.body ⟨session.sync, session.incoming, w⟩
    dsimp only [Watched.network]
    rw [hwrote]
    refine ⟨own, rfl, nofun, hown.imp_left fun ⟨hnone, hfailed⟩ => ⟨hnone, ?_⟩, fun _ => rfl,
      fun _ => Option.some_ne_none _, rfl, rfl⟩
    -- what fails on the link fails for the client as well
    rcases hanswer : (Link.request (Watched.peer (net.peer session.number)) r.code r.stream r.body
      ⟨session.sync, session.incoming, w⟩).1 with e | body
    · rfl
    · rw [hanswer] at hfailed
      cases hfailed

/-- **A request by way of a client**: its packet is written at most once, behind what opens the
link. -/
theorem sends_through (r : Request) (token : Token (Watched σ)) (w : Watched σ) :
    ∃ opening own, Sends r w
      ((r.through (Watched.network net) target Watched.clientPart token).perform w).1.isOk
      opening own
      ((r.through (Watched.network net) target Watched.clientPart token).perform w).2 := by
  cases hsession : w.client.session with
  | some session =>
    obtain ⟨own, hsends⟩ := sends_of_session net target r token hsession
    exact ⟨[], own, hsends⟩
  | none =>
    cases hraised : token.isRaised w with
    | true =>
      obtain ⟨hperform, hsends⟩ := sends_of_raised net target r hraised
      rw [hperform]
      exact ⟨[], [], hsends⟩
    | false =>
      obtain ⟨opening, hopening, world, hwrote⟩ := Client.connect_watched net target w
      have hnone : (sessionPart Watched.clientPart).get w = none := hsession
      have hopened := @Client.perform_request_opening _ (Watched.network net) target
        Watched.clientPart _ token w hraised hnone fun peer l => r.perform peer l
      rw [← r.through_eq] at hopened
      rcases hopened with ⟨e, hfailed⟩ | ⟨session, t, hconnect, -, hgoes⟩
      · rw [hfailed, hwrote]
        exact ⟨opening, [], by simp, hopening, .inl ⟨rfl, rfl⟩, fun h => absurd hsession h,
          fun h => absurd (h.resolve_right nofun) (not_not.mpr hsession), rfl, rfl⟩
      · -- the link is open now, and the call goes on as any other
        rw [hconnect] at hwrote
        dsimp only at hwrote
        obtain ⟨own, hsends⟩ := sends_of_session net target r token
          (w := (sessionPart Watched.clientPart).set (some session) t) rfl
        rw [hgoes]
        refine ⟨opening, own, ?_, hopening, hsends.own, fun h => absurd hsession h,
          fun _ => hsends.session (.inl (Option.some_ne_none session)), ?_, ?_⟩
        · rw [hsends.packets, hwrote]
          exact List.append_assoc _ _ _
        · rw [hsends.nextStream, hwrote]
          rfl
        · rw [hsends.closed, hwrote]
          rfl

end Calls

/-! ### Calls -/

/-- What is asked of a transaction. -/
inductive Step (σ : Type) where
  | query (token : Token (Watched σ)) (text : String) (args : List Value)
  | exec (token : Token (Watched σ)) (text : String) (args : List Value)
  | commit
  | rollback

namespace Step

/-- A commit or a rollback. -/
def ends : Step σ → Bool
  | commit | rollback => true
  | _ => false

/-- The token that the step goes by; nothing stops an end. -/
def token : Step σ → Token (Watched σ)
  | query token .. => token
  | exec token .. => token
  | _ => .never

/-- The request of the step in a stream. -/
def request (stream : UInt64) : Step σ → Request
  | query _ text args => .eval text args stream
  | exec _ text args => .eval text args stream
  | commit => .control commitCode stream
  | rollback => .control rollbackCode stream

/-- The step of a transaction. -/
def act (t : Transaction (Watched σ)) : Step σ → Action (Watched σ) Unit
  | query token text args => do
    let _ ← t.query token text args
  | exec token text args => do
    let _ ← t.exec token text args
  | commit => t.commit
  | rollback => t.rollback

end Step

/-- What a client is asked. -/
inductive Operation (σ : Type) where
  | ping (token : Token (Watched σ))
  | query (token : Token (Watched σ)) (text : String) (args : List Value)
  | exec (token : Token (Watched σ)) (text : String) (args : List Value)
  | begin (token : Token (Watched σ))
  | within (id : Nat) (step : Step σ)

namespace Operation

/-- What is asked outside of all transactions. -/
def isPlain : Operation σ → Bool
  | ping .. | query .. | exec .. => true
  | _ => false

def isBegin : Operation σ → Bool
  | begin _ => true
  | _ => false

/-- The stream that an operation closes for all further calls. -/
def closes? : Operation σ → Option UInt64
  | within id step => if step.ends then some (UInt64.ofNat id) else none
  | _ => none

def token : Operation σ → Token (Watched σ)
  | ping token => token
  | query token .. => token
  | exec token .. => token
  | begin token => token
  | within _ step => step.token

/-- The request of an operation, when the next transaction is to have a stream. -/
def request (next : UInt64) : Operation σ → Request
  | ping _ => .ping
  | query _ text args => .eval text args 0
  | exec _ text args => .eval text args 0
  | begin _ => .control beginCode next
  | within id step => step.request (UInt64.ofNat id)

/-- What a client remembers of an operation before its request. -/
def prepared (c : Client) (o : Operation σ) : Client :=
  { c with
    nextStream := if o.isBegin then c.nextStream + 1 else c.nextStream
    closed := o.closes?.toList ++ c.closed }

/-- The number of the transaction that an operation opens. -/
def opens? (next : UInt64) (o : Operation σ) : Option Nat :=
  if o.isBegin then some next.toNat else none

variable (net : Network σ) (target : Target)

/-- The operation; a begin answers with the number of its transaction. -/
def act (o : Operation σ) : Action (Watched σ) (Option Nat) :=
  let b := Client.backend (Watched.network net) target Watched.clientPart
  match o with
  | ping token => do
    b.ping token
    return none
  | query token text args => do
    let _ ← b.query token text args
    return none
  | exec token text args => do
    let _ ← b.exec token text args
    return none
  | begin token => do
    let id ← b.begin token
    return some id
  | within id step => do
    step.act (b.transaction .never id)
    return none

end Operation

/-- A call: what was asked, the request that it is, how it ended and what was written. -/
structure Turn (σ : Type) where
  operation : Operation σ
  request : Request
  answer : Except Failure (Option Nat)
  packets : List (List UInt8)

section Turns

variable (net : Network σ) (target : Target)

/-- Makes a call, watched from the start of it. -/
def Operation.perform (o : Operation σ) (w : Watched σ) :
    Except Failure (Option Nat) × Watched σ :=
  (o.act net target).perform { w with packets := [] }

/-- The call as a turn. -/
def Operation.turn (o : Operation σ) (w : Watched σ) : Turn σ :=
  ⟨o, o.request w.client.nextStream, (o.perform net target w).1, (o.perform net target w).2.packets⟩

theorem perform_checkOpen (stream : UInt64) (w : Watched σ) :
    (Client.checkOpen Watched.clientPart stream).perform w =
      (if w.client.closed.contains stream then .error .transactionAlreadyClosed else .ok (),
        w) := by
  rw [Client.checkOpen, Action.perform_bind_ok (Part.perform_read Watched.clientPart w)]
  show (if w.client.closed.contains stream then _ else _ : Action (Watched σ) Unit).perform w = _
  split <;> rfl

theorem perform_checkOpen_open {stream : UInt64} {w : Watched σ}
    (h : stream ∉ w.client.closed) :
    (Client.checkOpen Watched.clientPart stream).perform w = (.ok (), w) := by
  rw [perform_checkOpen, if_neg (mt List.contains_iff_mem.mp h)]

theorem map_map {β γ : Type} (r : Except Failure α) (f : α → β) (g : β → γ) :
    (r.map f).map g = r.map fun a => g (f a) := by
  cases r <;> rfl

/-- In a closed transaction a step is refused, and nothing happens. -/
theorem Operation.perform_act_closed {id : Nat} {w : Watched σ}
    (h : UInt64.ofNat id ∈ w.client.closed) (step : Step σ) :
    ((Operation.within id step).act net target).perform w =
      (.error .transactionAlreadyClosed, w) := by
  have hcheck : (Client.checkOpen Watched.clientPart (UInt64.ofNat id)).perform w =
      (.error .transactionAlreadyClosed, w) := by
    rw [perform_checkOpen, List.contains_iff_mem.mpr h]
    rfl
  cases step with
  | query | exec =>
    exact Action.perform_bind_error (Action.perform_bind_error (Action.perform_bind_error hcheck))
  | commit | rollback =>
    exact Action.perform_bind_error (Action.perform_bind_error hcheck)

/-- An evaluation is its request, up to what is made of the results. -/
theorem perform_eval (token : Token (Watched σ)) (text : String) (args : List Value)
    (stream : UInt64) (w : Watched σ) :
    (Client.eval (Watched.network net) target Watched.clientPart token text args stream).perform w =
      ((((Request.eval text args stream).through (Watched.network net) target Watched.clientPart
          token).perform w).1.map rowsOfResults,
        (((Request.eval text args stream).through (Watched.network net) target Watched.clientPart
          token).perform w).2) :=
  Action.perform_bind_pure _ _ w

/-- What opens or ends a transaction is its request, up to the answer. -/
theorem perform_control {β : Type} (token : Token (Watched σ)) (code stream : UInt64) (x : β)
    (w : Watched σ) :
    (((Client.control (Watched.network net) target Watched.clientPart token code stream).perform
          w).1.map fun _ => x,
        ((Client.control (Watched.network net) target Watched.clientPart token code stream).perform
          w).2) =
      ((((Request.control code stream).through (Watched.network net) target Watched.clientPart
          token).perform w).1.map fun _ => x,
        (((Request.control code stream).through (Watched.network net) target Watched.clientPart
          token).perform w).2) := by
  rw [Request.through, Action.perform_bind_pure, map_map]

/-- An end that is not refused closes its transaction, and then is its request. -/
theorem perform_finish {β : Type} (code : UInt64) {stream : UInt64} {w : Watched σ}
    (h : stream ∉ w.client.closed) (x : β) :
    let ended := { w with client := { w.client with closed := stream :: w.client.closed } }
    (((Client.finish (Watched.network net) target Watched.clientPart code stream).perform
          w).1.map fun _ => x,
        ((Client.finish (Watched.network net) target Watched.clientPart code stream).perform
          w).2) =
      ((((Request.control code stream).through (Watched.network net) target Watched.clientPart
          .never).perform ended).1.map fun _ => x,
        (((Request.control code stream).through (Watched.network net) target Watched.clientPart
          .never).perform ended).2) := by
  rw [Client.finish, Action.perform_bind_ok (perform_checkOpen_open h),
    Action.perform_bind_ok (Part.perform_change Watched.clientPart _ w)]
  exact perform_control net target .never code stream x _

/-- An operation that is not refused is its request, after the client has remembered it. -/
theorem Operation.perform_act_open (o : Operation σ) {w : Watched σ}
    (h : ∀ id step, o = .within id step → UInt64.ofNat id ∉ w.client.closed) :
    (o.act net target).perform w =
      ((((o.request w.client.nextStream).through (Watched.network net) target Watched.clientPart
          o.token).perform { w with client := o.prepared w.client }).1.map
            fun _ => o.opens? w.client.nextStream,
        (((o.request w.client.nextStream).through (Watched.network net) target Watched.clientPart
          o.token).perform { w with client := o.prepared w.client }).2) := by
  cases o with
  | ping token =>
    refine (Action.perform_bind_pure _ _ w).trans ?_
    rw [request, Request.through, Action.perform_bind_pure, map_map]
    rfl
  | query token text args =>
    refine (Action.perform_bind_pure _ _ w).trans ?_
    dsimp only [Client.backend]
    rw [perform_eval, map_map]
    rfl
  | exec token text args =>
    refine (Action.perform_bind_pure _ _ w).trans ?_
    dsimp only [Client.backend]
    rw [Action.perform_bind_pure, map_map, perform_eval, map_map]
    rfl
  | begin token =>
    refine (Action.perform_bind_pure _ _ w).trans ?_
    dsimp only [Client.backend]
    rw [Client.begin, Action.perform_bind_ok (Part.perform_read Watched.clientPart w),
      Action.perform_bind_ok (Part.perform_change Watched.clientPart _ w),
      Action.perform_bind_pure]
    dsimp only
    rw [map_map]
    exact perform_control net target token beginCode w.client.nextStream _ _
  | within id step =>
    have hid : UInt64.ofNat id ∉ w.client.closed := h id step rfl
    have hcheck := perform_checkOpen_open hid
    refine (Action.perform_bind_pure _ _ w).trans ?_
    cases step with
    | query token text args =>
      rw [Step.act, Action.perform_bind_pure, map_map]
      dsimp only [Client.backend, Client.transaction]
      rw [Action.perform_bind_ok hcheck, perform_eval, map_map]
      rfl
    | exec token text args =>
      rw [Step.act, Action.perform_bind_pure, map_map]
      dsimp only [Client.backend, Client.transaction]
      rw [Action.perform_bind_ok hcheck, Action.perform_bind_pure, map_map, perform_eval,
        map_map]
      rfl
    | commit => exact perform_finish net target commitCode hid none
    | rollback => exact perform_finish net target rollbackCode hid none

/-- A step of a closed transaction is refused, and nothing is written. -/
theorem Operation.perform_closed {id : Nat} {w : Watched σ}
    (h : UInt64.ofNat id ∈ w.client.closed) (step : Step σ) :
    (Operation.within id step).perform net target w =
      (.error .transactionAlreadyClosed, { w with packets := [] }) :=
  Operation.perform_act_closed net target (w := { w with packets := [] }) h step

/-- Any other call sends its request, and a begin that is answered hands out its stream. -/
theorem Operation.perform_open (o : Operation σ) {w : Watched σ}
    (h : ∀ id step, o = .within id step → UInt64.ofNat id ∉ w.client.closed) :
    (∃ opening own, Sends (o.request w.client.nextStream)
        { w with client := o.prepared w.client, packets := [] }
        (o.perform net target w).1.isOk opening own (o.perform net target w).2) ∧
      ∀ id, (o.perform net target w).1 = .ok (some id) →
        o.isBegin = true ∧ id = w.client.nextStream.toNat := by
  rw [Operation.perform, Operation.perform_act_open net target o (w := { w with packets := [] }) h]
  obtain ⟨opening, own, hsends⟩ := sends_through net target (o.request w.client.nextStream) o.token
    { w with client := o.prepared w.client, packets := [] }
  dsimp only
  cases hanswer : (((o.request w.client.nextStream).through (Watched.network net) target
      Watched.clientPart o.token).perform
        { w with client := o.prepared w.client, packets := [] }).1 with
  | error e =>
    rw [hanswer] at hsends
    exact ⟨⟨opening, own, hsends⟩, nofun⟩
  | ok items =>
    rw [hanswer] at hsends
    refine ⟨⟨opening, own, hsends⟩, fun id hid => ?_⟩
    have hopens : o.opens? w.client.nextStream = some id := Except.ok.inj hid
    rw [Operation.opens?] at hopens
    split at hopens
    · rename_i hbegin
      exact ⟨hbegin, (Option.some.inj hopens).symm⟩
    · cases hopens

end Turns

/-! ### Runs -/

namespace Turn

/-- The packets of a run. -/
def written (turns : List (Turn σ)) : List (List UInt8) := turns.flatMap packets

/-- The stream that a begin takes, also if it fails. -/
def takes? (t : Turn σ) : Option UInt64 :=
  if t.operation.isBegin then some t.request.stream else none

/-- The streams that were taken. -/
def taken (turns : List (Turn σ)) : List UInt64 := turns.filterMap takes?

/-- A transaction was handed out. -/
def Opened (turns : List (Turn σ)) (id : Nat) : Prop := ∃ t ∈ turns, t.answer = .ok (some id)

end Turn

instance (turns : List (Turn σ)) (id : Nat) : Decidable (Turn.Opened turns id) :=
  decidable_of_iff (∃ t ∈ turns, t.answer.toOption.join = some id) <| by
    refine exists_congr fun t => and_congr_right fun _ => ?_
    rcases t.answer with _ | _ | _ <;> simp [Except.toOption]

/-- A call that can be made: of a transaction only once it was handed out. -/
def Operation.Possible (o : Operation σ) (turns : List (Turn σ)) : Prop :=
  ∀ id step, o = .within id step → Turn.Opened turns id

theorem Operation.possible_within {turns : List (Turn σ)} {id : Nat} (h : Turn.Opened turns id)
    (step : Step σ) : (Operation.within id step).Possible turns := by
  rintro _ _ ⟨⟩
  exact h

section Runs

variable (net : Network σ) (target : Target)

/-- A run of a client from its start: calls one after another, and meanwhile anything can happen in
the world around it. -/
inductive Ran : List (Turn σ) → Watched σ → Prop
  | start (world : σ) : Ran [] ⟨world, .start, []⟩
  | turn {turns : List (Turn σ)} {w : Watched σ} (h : Ran turns w) (o : Operation σ)
      (ho : o.Possible turns) :
      Ran (turns ++ [o.turn net target w]) (o.perform net target w).2
  | elsewhere {turns : List (Turn σ)} {w : Watched σ} (h : Ran turns w) (world : σ) :
      Ran turns { w with world }

end Runs

/-! ### What a run has written -/

/-- The numbers of as many streams, from the first. -/
def streams (n : Nat) : List UInt64 := (List.range n).map fun k => UInt64.ofNat (k + 1)

theorem streams_succ (n : Nat) : streams (n + 1) = streams n ++ [UInt64.ofNat (n + 1)] := by
  rw [streams, List.range_succ, List.map_append]
  rfl

theorem toNat_of_mem_streams {n : Nat} (h : n < 2 ^ 64) {stream : UInt64}
    (hmem : stream ∈ streams n) : 0 < stream.toNat ∧ stream.toNat ≤ n := by
  obtain ⟨k, hk, rfl⟩ := List.mem_map.mp hmem
  rw [List.mem_range] at hk
  rw [UInt64.toNat_ofNat', Nat.mod_eq_of_lt (by omega)]
  omega

/-- No stream is given out twice as long as there are numbers. -/
theorem next_notMem_streams {n : Nat} (h : n + 1 < 2 ^ 64) : UInt64.ofNat (n + 1) ∉ streams n := by
  intro hmem
  have hle := (toNat_of_mem_streams (by omega) hmem).2
  rw [UInt64.toNat_ofNat', Nat.mod_eq_of_lt h] at hle
  omega

theorem nodup_streams {n : Nat} (h : n < 2 ^ 64) : (streams n).Nodup := by
  induction n with
  | zero => exact List.nodup_nil
  | succ n ih =>
    rw [streams_succ]
    refine List.nodup_append.mpr ⟨ih (by omega), by simp, fun a ha b hb => ?_⟩
    rw [List.mem_singleton.mp hb]
    exact ne_of_mem_of_not_mem ha (next_notMem_streams h)

/-- What can end a stream. -/
def IsEnding (codes : List UInt64) : Prop :=
  codes = [] ∨ codes = [commitCode] ∨ codes = [rollbackCode]

/-- How far a stream has come in a run. -/
inductive Stage (turns : List (Turn σ)) (closed : List UInt64) (n : UInt64) : Prop
  /-- Nothing was written in it, and no transaction has it. -/
  | unused (hcodes : codesIn n (Turn.written turns) = []) (hopened : ¬Turn.Opened turns n.toNat)
  /-- It was begun, and evaluations have followed. -/
  | running {k : Nat} (htaken : n ∈ Turn.taken turns) (hclosed : n ∉ closed)
      (hcodes : codesIn n (Turn.written turns) = beginCode :: List.replicate k evalCode)
  /-- It was ended. -/
  | ended {k : Nat} {ending : List UInt64} (htaken : n ∈ Turn.taken turns) (hclosed : n ∈ closed)
      (hending : IsEnding ending)
      (hcodes : codesIn n (Turn.written turns) =
        beginCode :: List.replicate k evalCode ++ ending)

/-- What the client knows of a run. -/
structure Ledger (turns : List (Turn σ)) (w : Watched σ) : Prop where
  taken : Turn.taken turns = streams (Turn.taken turns).length
  next : w.client.nextStream = UInt64.ofNat ((Turn.taken turns).length + 1)
  opened : ∀ id, Turn.Opened turns id → ∃ n ∈ Turn.taken turns, id = n.toNat
  linked : (∃ id, Turn.Opened turns id) → w.client.session ≠ none
  closed : ∀ n, n ∈ w.client.closed ↔ ∃ t ∈ turns, t.operation.closes? = some n
  closedTaken : ∀ n ∈ w.client.closed, n ∈ Turn.taken turns
  stage : ∀ n, n ≠ 0 → Stage turns w.client.closed n

/-! ### What one call adds -/

/-- The packets that open a link are in no stream. -/
theorem codesIn_handshake {n : UInt64} {opening : List (List UInt8)}
    (h : ∀ p ∈ opening, Carries authCode 0 p) : codesIn n opening = [] := by
  refine List.filterMap_eq_nil_iff.mpr fun p hp => ?_
  rw [(h p hp).stream, if_pos rfl, if_neg (Option.some_ne_none n).symm]

/-- The packet of a request is in the stream of the request. -/
theorem codesIn_request {n code stream : UInt64} (hn : n ≠ 0) {packet : List UInt8}
    (h : Carries code stream packet) :
    codesIn n [packet] = if stream = n then [code] else [] := by
  rw [codesIn, List.filterMap_cons, List.filterMap_nil, h.stream, h.code]
  by_cases hstream : stream = n
  · subst hstream
    simp only [if_neg hn, if_true]
  · have hne : ¬(if stream = 0 then none else some stream) = some n := by
      split
      · exact nofun
      · exact fun h => hstream (Option.some.inj h)
    rw [if_neg hne, if_neg hstream]

/-- What a request adds to a stream: nothing to a stream of others, and to its own at most its kind,
without which it has no answer. -/
theorem Sends.codesIn {r : Request} {w w' : Watched σ} {answered : Bool}
    {opening own : List (List UInt8)} (h : Sends r w answered opening own w')
    (hw : w.packets = []) {n : UInt64} (hn : n ≠ 0) :
    Tarantool.codesIn n w'.packets = [] ∧ (answered = true → r.stream ≠ n) ∨
      r.stream = n ∧ Tarantool.codesIn n w'.packets = [r.code] := by
  rw [h.packets, hw, List.nil_append, codesIn_append, codesIn_handshake h.handshake,
    List.nil_append]
  rcases h.own with ⟨rfl, hfailed⟩ | ⟨p, rfl, hcarries⟩
  · exact .inl ⟨rfl, fun hok => by rw [hfailed] at hok; cases hok⟩
  · rw [codesIn_request hn hcarries]
    by_cases hstream : r.stream = n
    · exact .inr ⟨hstream, if_pos hstream⟩
    · exact .inl ⟨if_neg hstream, fun _ => hstream⟩

section Steps

variable {net : Network σ} {target : Target} {turns : List (Turn σ)} {w : Watched σ}

theorem Turn.written_concat (turns : List (Turn σ)) (t : Turn σ) :
    written (turns ++ [t]) = written turns ++ t.packets := by
  rw [written, List.flatMap_append, List.flatMap_singleton, written]

theorem Turn.taken_concat (turns : List (Turn σ)) (t : Turn σ) :
    taken (turns ++ [t]) = taken turns ++ t.takes?.toList := by
  rw [taken, List.filterMap_append, taken]
  cases ht : t.takes? <;> simp [ht]

theorem Turn.opened_concat {turns : List (Turn σ)} {t : Turn σ} {id : Nat} :
    Opened (turns ++ [t]) id ↔ Opened turns id ∨ t.answer = .ok (some id) := by
  simp only [Opened, List.mem_append, List.mem_singleton, or_and_right, exists_or, exists_eq_left]

theorem Turn.mem_taken_concat {turns : List (Turn σ)} {n : UInt64} (h : n ∈ taken turns)
    (t : Turn σ) : n ∈ taken (turns ++ [t]) := by
  rw [Turn.taken_concat]
  exact List.mem_append_left _ h

namespace Stage

variable {closed closed' : List UInt64} {n : UInt64} {t : Turn σ}

/-- A call that writes nothing in a stream, and neither opens nor closes it, leaves it as it was. -/
theorem of_silent (h : Stage turns closed n) (hsilent : codesIn n t.packets = [])
    (hanswer : t.answer ≠ .ok (some n.toNat)) (hclosed : n ∈ closed' ↔ n ∈ closed) :
    Stage (turns ++ [t]) closed' n := by
  have hwritten : codesIn n (Turn.written (turns ++ [t])) = codesIn n (Turn.written turns) := by
    rw [Turn.written_concat, codesIn_append, hsilent, List.append_nil]
  cases h with
  | unused hcodes hopened =>
    exact .unused (hwritten.trans hcodes)
      fun h => (Turn.opened_concat.mp h).elim hopened hanswer
  | running htaken hopen hcodes =>
    exact .running (Turn.mem_taken_concat htaken t) (mt hclosed.mp hopen) (hwritten.trans hcodes)
  | ended htaken hended hending hcodes =>
    exact .ended (Turn.mem_taken_concat htaken t) (hclosed.mpr hended) hending
      (hwritten.trans hcodes)

/-- A begin starts a stream that was not taken before, or it fails without a packet in it. -/
theorem of_begin (h : Stage turns closed n) (hfresh : n ∉ Turn.taken turns)
    (htaken : n ∈ Turn.taken (turns ++ [t])) (hclosed : n ∉ closed)
    (hpackets : codesIn n t.packets = [] ∧ t.answer ≠ .ok (some n.toNat) ∨
      codesIn n t.packets = [beginCode]) : Stage (turns ++ [t]) closed n := by
  cases h with
  | unused hcodes hopened =>
    rcases hpackets with ⟨hsilent, hanswer⟩ | hbegun
    · exact (Stage.unused hcodes hopened).of_silent hsilent hanswer Iff.rfl
    · refine .running (k := 0) htaken hclosed ?_
      rw [Turn.written_concat, codesIn_append, hcodes, hbegun]
      rfl
  | running h | ended h => exact absurd h hfresh

/-- Only a stream that runs has a transaction that is not closed. -/
theorem running_of_opened (h : Stage turns closed n) (hopened : Turn.Opened turns n.toNat)
    (hclosed : n ∉ closed) : n ∈ Turn.taken turns ∧
      ∃ k, codesIn n (Turn.written turns) = beginCode :: List.replicate k evalCode := by
  cases h with
  | unused _ h => exact absurd hopened h
  | running htaken _ hcodes => exact ⟨htaken, _, hcodes⟩
  | ended _ h => exact absurd h hclosed

/-- An evaluation in an open transaction leaves its stream running. -/
theorem of_eval (h : Stage turns closed n) (hopened : Turn.Opened turns n.toNat)
    (hclosed : n ∉ closed)
    (hpackets : codesIn n t.packets = [] ∨ codesIn n t.packets = [evalCode]) :
    Stage (turns ++ [t]) closed n := by
  obtain ⟨htaken, k, hcodes⟩ := h.running_of_opened hopened hclosed
  have htaken' := Turn.mem_taken_concat htaken t
  rcases hpackets with hsilent | heval
  · refine .running (k := k) htaken' hclosed ?_
    rw [Turn.written_concat, codesIn_append, hcodes, hsilent, List.append_nil]
  · refine .running (k := k + 1) htaken' hclosed ?_
    rw [Turn.written_concat, codesIn_append, hcodes, heval, List.replicate_succ', List.cons_append]

/-- The end of an open transaction ends its stream. -/
theorem of_end (h : Stage turns closed n) (hopened : Turn.Opened turns n.toNat)
    (hclosed : n ∉ closed) (hclosed' : n ∈ closed') (hpackets : IsEnding (codesIn n t.packets)) :
    Stage (turns ++ [t]) closed' n := by
  obtain ⟨htaken, k, hcodes⟩ := h.running_of_opened hopened hclosed
  refine .ended (k := k) (Turn.mem_taken_concat htaken t) hclosed' hpackets ?_
  rw [Turn.written_concat, codesIn_append, hcodes]

end Stage

/-- A refused call leaves what the client knows as it was. -/
theorem Ledger.turn_closed (h : Ledger turns w) {id : Nat} (hid : UInt64.ofNat id ∈ w.client.closed)
    (step : Step σ) :
    Ledger (turns ++ [(Operation.within id step).turn net target w])
      ((Operation.within id step).perform net target w).2 := by
  have hperform := Operation.perform_closed net target hid step
  set t := (Operation.within id step).turn net target w with ht
  have hanswer : t.answer = .error .transactionAlreadyClosed := congrArg Prod.fst hperform
  have hpackets : t.packets = [] := congrArg (fun r => r.2.packets) hperform
  have htaken : Turn.taken (turns ++ [t]) = Turn.taken turns := by
    rw [Turn.taken_concat]
    exact List.append_nil _
  have hopened (id : Nat) : Turn.Opened (turns ++ [t]) id ↔ Turn.Opened turns id := by
    rw [Turn.opened_concat, hanswer]
    simp
  rw [hperform]
  refine ⟨by rw [htaken]; exact h.taken, by rw [htaken]; exact h.next, ?_, ?_, ?_, ?_, ?_⟩
  · intro id hid
    rw [htaken]
    exact h.opened id ((hopened id).mp hid)
  · rintro ⟨id, hid⟩
    exact h.linked ⟨id, (hopened id).mp hid⟩
  · intro n
    refine ⟨fun hn => ?_, ?_⟩
    · obtain ⟨u, hu, hcloses⟩ := (h.closed n).mp hn
      exact ⟨u, List.mem_append_left _ hu, hcloses⟩
    · rintro ⟨u, hu, hcloses⟩
      rcases List.mem_append.mp hu with hu | hu
      · exact (h.closed n).mpr ⟨u, hu, hcloses⟩
      · -- the refused call closes what is closed
        rw [List.mem_singleton.mp hu] at hcloses
        have hn : (if step.ends then some (UInt64.ofNat id) else none) = some n := hcloses
        split at hn
        · exact Option.some.inj hn ▸ hid
        · cases hn
  · rw [htaken]
    exact h.closedTaken
  · intro n hn
    refine (h.stage n hn).of_silent ?_ ?_ Iff.rfl
    · rw [hpackets]
      rfl
    · rw [hanswer]
      exact nofun

/-- The stream that a call takes is the next of the client. -/
theorem Operation.taken_turn (o : Operation σ) :
    Turn.taken (turns ++ [o.turn net target w]) =
      Turn.taken turns ++ if o.isBegin then [w.client.nextStream] else [] := by
  rw [Turn.taken_concat]
  cases o <;> rfl

/-- The number of a transaction is the stream that its begin took. -/
theorem Ledger.stream_of_opened (h : Ledger turns w) {id : Nat} (hid : Turn.Opened turns id) :
    UInt64.ofNat id ∈ Turn.taken turns ∧ (UInt64.ofNat id).toNat = id := by
  obtain ⟨n, hn, rfl⟩ := h.opened id hid
  rw [UInt64.ofNat_toNat]
  exact ⟨hn, rfl⟩

/-- The next stream was never taken, as long as there are numbers. -/
theorem Ledger.next_notMem_taken (h : Ledger turns w)
    (hroom : (Turn.taken turns).length + 1 < 2 ^ 64) :
    w.client.nextStream ∉ Turn.taken turns := by
  have hfresh := next_notMem_streams hroom
  rwa [← h.taken, ← h.next] at hfresh

/-- How far a call that is not refused brings a stream. -/
theorem Ledger.stage_turn_open (h : Ledger turns w) (o : Operation σ) (ho : o.Possible turns)
    (hopen : ∀ id step, o = .within id step → UInt64.ofNat id ∉ w.client.closed)
    (hroom : (Turn.taken (turns ++ [o.turn net target w])).length < 2 ^ 64) {n : UInt64}
    (hn : n ≠ 0) :
    Stage (turns ++ [o.turn net target w]) (o.closes?.toList ++ w.client.closed) n := by
  obtain ⟨⟨opening, own, hsends⟩, hbegins⟩ := o.perform_open net target hopen
  have hcodes : codesIn n (o.turn net target w).packets = [] ∧
        ((o.turn net target w).answer.isOk = true →
          (o.request w.client.nextStream).stream ≠ n) ∨
      (o.request w.client.nextStream).stream = n ∧
        codesIn n (o.turn net target w).packets = [(o.request w.client.nextStream).code] :=
    hsends.codesIn rfl hn
  -- a call on another stream leaves this one alone
  have hother (hstream : (o.request w.client.nextStream).stream ≠ n)
      (hanswer : (o.turn net target w).answer ≠ .ok (some n.toNat))
      (hcloses : n ∉ o.closes?.toList) :
      Stage (turns ++ [o.turn net target w]) (o.closes?.toList ++ w.client.closed) n :=
    (h.stage n hn).of_silent (hcodes.elim And.left fun hown => absurd hown.1 hstream) hanswer
      (by rw [List.mem_append, or_iff_right hcloses])
  cases o with
  | ping | query | exec =>
    exact hother hn.symm (fun hanswer => nomatch (hbegins _ hanswer).1) List.not_mem_nil
  | begin token =>
    by_cases hnext : w.client.nextStream = n
    · rw [Operation.taken_turn, List.length_append] at hroom
      have hfresh := hnext ▸ h.next_notMem_taken hroom
      refine (h.stage n hn).of_begin hfresh ?_ (mt (h.closedTaken n) hfresh) ?_
      · rw [Operation.taken_turn, hnext]
        exact List.mem_append_right _ (List.mem_singleton_self n)
      · exact hcodes.imp (fun ⟨hsilent, hfailed⟩ =>
          ⟨hsilent, fun hanswer => hfailed (by rw [hanswer]; rfl) hnext⟩) And.right
    · exact hother hnext
        (fun hanswer => hnext (UInt64.toNat_inj.mp (hbegins _ hanswer).2).symm) List.not_mem_nil
  | within id step =>
    obtain ⟨htaken, hid⟩ := h.stream_of_opened (ho id step rfl)
    by_cases hstream : UInt64.ofNat id = n
    · subst hstream
      have hopened : Turn.Opened turns (UInt64.ofNat id).toNat := by
        rw [hid]
        exact ho id step rfl
      have hclosed := hopen id step rfl
      have hpackets := hcodes.imp And.left And.right
      cases step with
      | query | exec => exact (h.stage _ hn).of_eval hopened hclosed hpackets
      | commit =>
        exact (h.stage _ hn).of_end hopened hclosed (List.mem_cons_self ..)
          (hpackets.imp_right .inl)
      | rollback =>
        exact (h.stage _ hn).of_end hopened hclosed (List.mem_cons_self ..)
          (hpackets.imp_right .inr)
    · refine hother ?_ (fun hanswer => nomatch (hbegins _ hanswer).1) ?_
      · cases step <;> exact hstream
      · rw [Operation.closes?]
        split
        · exact fun hmem => hstream (List.mem_singleton.mp hmem).symm
        · exact List.not_mem_nil

/-- What a call that is not refused leaves. -/
theorem Ledger.turn_open (h : Ledger turns w) (o : Operation σ) (ho : o.Possible turns)
    (hopen : ∀ id step, o = .within id step → UInt64.ofNat id ∉ w.client.closed)
    (hroom : (Turn.taken (turns ++ [o.turn net target w])).length < 2 ^ 64) :
    Ledger (turns ++ [o.turn net target w]) (o.perform net target w).2 := by
  obtain ⟨⟨opening, own, hsends⟩, hbegins⟩ := o.perform_open net target hopen
  have hclosed : (o.perform net target w).2.client.closed =
      o.closes?.toList ++ w.client.closed := hsends.closed
  have hnext : (o.perform net target w).2.client.nextStream =
      if o.isBegin then w.client.nextStream + 1 else w.client.nextStream := hsends.nextStream
  have hlength : (Turn.taken turns).length + 1 =
      (Turn.taken turns ++ [w.client.nextStream]).length := by
    rw [List.length_append]
    rfl
  refine ⟨?_, ?_, ?_, ?_, ?_, ?_, ?_⟩
  · rw [o.taken_turn]
    split
    · rw [← hlength, streams_succ, ← h.taken, h.next]
    · rw [List.append_nil]
      exact h.taken
  · rw [hnext, o.taken_turn]
    split
    · rw [← hlength, h.next]
      exact (UInt64.ofNat_add _ 1).symm
    · rw [List.append_nil]
      exact h.next
  · intro id hid
    rcases Turn.opened_concat.mp hid with hid | hid
    · obtain ⟨n, hn, rfl⟩ := h.opened id hid
      exact ⟨n, Turn.mem_taken_concat hn _, rfl⟩
    · obtain ⟨hbegin, rfl⟩ := hbegins id hid
      rw [o.taken_turn, if_pos hbegin]
      exact ⟨_, List.mem_append_right _ (List.mem_singleton_self _), rfl⟩
  · rintro ⟨id, hid⟩
    refine hsends.session ?_
    rcases Turn.opened_concat.mp hid with hid | hid
    · exact .inl (h.linked ⟨id, hid⟩)
    · have hanswer : (o.perform net target w).1 = .ok (some id) := hid
      exact .inr (by rw [hanswer]; rfl)
  · intro n
    simp only [hclosed, List.mem_append, List.mem_singleton, Option.mem_toList, or_and_right,
      exists_or, exists_eq_left, h.closed n, Operation.turn]
    exact or_comm
  · intro n hn
    rw [hclosed] at hn
    refine Turn.mem_taken_concat ?_ _
    rcases List.mem_append.mp hn with hcloses | hn
    · cases o with
      | within id step =>
        rw [Operation.closes?] at hcloses
        split at hcloses
        · rw [List.mem_singleton.mp hcloses]
          exact (h.stream_of_opened (ho id step rfl)).1
        · cases hcloses
      | _ => cases hcloses
    · exact h.closedTaken n hn
  · intro n hn
    rw [hclosed]
    exact h.stage_turn_open o ho hopen hroom hn

/-- A client at its start has used no stream. -/
theorem Ledger.start (world : σ) : Ledger [] (⟨world, .start, []⟩ : Watched σ) where
  taken := rfl
  next := rfl
  opened := fun _ ⟨_, hmem, _⟩ => nomatch hmem
  linked := fun ⟨_, _, hmem, _⟩ => nomatch hmem
  closed := fun _ => ⟨nofun, fun ⟨_, hmem, _⟩ => nomatch hmem⟩
  closedTaken := nofun
  stage := fun _ _ => .unused rfl fun ⟨_, hmem, _⟩ => nomatch hmem

/-- A call leaves what the client knows in order. -/
theorem Ledger.turn (h : Ledger turns w) (o : Operation σ) (ho : o.Possible turns)
    (hroom : (Turn.taken (turns ++ [o.turn net target w])).length < 2 ^ 64) :
    Ledger (turns ++ [o.turn net target w]) (o.perform net target w).2 := by
  by_cases hclosed : ∃ id step, o = .within id step ∧ UInt64.ofNat id ∈ w.client.closed
  · obtain ⟨id, step, rfl, hid⟩ := hclosed
    exact h.turn_closed hid step
  · exact h.turn_open o ho (fun id step heq hid => hclosed ⟨id, step, heq, hid⟩) hroom

theorem Turn.length_taken_le {earlier : List (Turn σ)} (h : earlier <+: turns) :
    (taken earlier).length ≤ (taken turns).length :=
  (h.filterMap takes?).length_le

/-- **The invariant of a run**: what the client knows stays in order, as long as there are
numbers. -/
theorem Ran.ledger (h : Ran net target turns w) (hroom : (Turn.taken turns).length < 2 ^ 64) :
    Ledger turns w := by
  induction h with
  | start world => exact .start world
  | turn h o ho ih =>
    exact (ih ((Turn.length_taken_le (List.prefix_append _ _)).trans_lt hroom)).turn o ho hroom
  | elsewhere h world ih =>
    obtain ⟨htaken, hnext, hopened, hlinked, hclosed, hclosedTaken, hstage⟩ := ih hroom
    exact ⟨htaken, hnext, hopened, hlinked, hclosed, hclosedTaken, hstage⟩

/-- Each call of a run was made after the calls before it. -/
theorem Ran.turn_of_prefix (h : Ran net target turns w) {earlier : List (Turn σ)} {t : Turn σ}
    (hbefore : earlier ++ [t] <+: turns) :
    ∃ w', ∃ o : Operation σ, Ran net target earlier w' ∧ o.Possible earlier ∧
      t = o.turn net target w' := by
  induction h with
  | start => simp at hbefore
  | turn h o ho ih =>
    rcases List.prefix_concat_iff.mp hbefore with heq | hbefore
    · obtain ⟨rfl, hlast⟩ := List.append_inj' heq rfl
      exact ⟨_, o, h, ho, List.singleton_inj.mp hlast⟩
    · exact ih hbefore
  | elsewhere h world ih => exact ih hbefore

/-- A call writes its request, if anything, and before it at most what opens the link. -/
theorem Operation.packets_turn (o : Operation σ) {p : List UInt8}
    (hp : p ∈ (o.turn net target w).packets) :
    Carries authCode 0 p ∧ w.client.session = none ∨
      Carries (o.request w.client.nextStream).code (o.request w.client.nextStream).stream p := by
  by_cases hclosed : ∃ id step, o = .within id step ∧ UInt64.ofNat id ∈ w.client.closed
  · obtain ⟨id, step, rfl, hid⟩ := hclosed
    rw [Operation.turn, Operation.perform_closed net target hid step] at hp
    cases hp
  · obtain ⟨⟨opening, own, hsends⟩, -⟩ := o.perform_open net target
      fun id step heq hid => hclosed ⟨id, step, heq, hid⟩
    have hpackets : (o.turn net target w).packets = opening ++ own := hsends.packets
    rw [hpackets] at hp
    rcases List.mem_append.mp hp with hp | hp
    · refine .inl ⟨hsends.handshake p hp, ?_⟩
      by_contra hsession
      rw [hsends.linked hsession] at hp
      cases hp
    · rcases hsends.own with ⟨rfl, -⟩ | ⟨packet, rfl, hcarries⟩
      · cases hp
      · exact .inr (List.mem_singleton.mp hp ▸ hcarries)

/-- What is asked outside of all transactions names no stream. -/
theorem Operation.plain_packets (o : Operation σ) (h : o.isPlain = true) {p : List UInt8}
    (hp : p ∈ (o.turn net target w).packets) : carried? streamKey p = none := by
  have hstream : (o.request w.client.nextStream).stream = 0 := by
    cases o <;> first | rfl | cases h
  rcases o.packets_turn hp with ⟨hauth, -⟩ | hcarries
  · exact hauth.stream
  · rw [hcarries.stream, if_pos hstream]

/-- What is asked of a transaction names its stream; its begin has opened the link before. -/
theorem Ledger.within_packets (h : Ledger turns w) {id : Nat} (hid : Turn.Opened turns id)
    (hne : UInt64.ofNat id ≠ 0) (step : Step σ) {p : List UInt8}
    (hp : p ∈ ((Operation.within id step).turn net target w).packets) :
    carried? streamKey p = some (UInt64.ofNat id) := by
  have hstream : ((Operation.within id step).request w.client.nextStream).stream =
      UInt64.ofNat id := by
    cases step <;> rfl
  rcases Operation.packets_turn _ hp with ⟨-, hnone⟩ | hcarries
  · exact absurd hnone (h.linked ⟨id, hid⟩)
  · rw [hcarries.stream, hstream, if_neg hne]

/-- A packet in a stream is of the begin that takes it or of the transaction that has it. -/
theorem Ledger.packets_owned (h : Ledger turns w) (o : Operation σ) (ho : o.Possible turns)
    {p : List UInt8} (hp : p ∈ (o.turn net target w).packets) {n : UInt64}
    (hn : carried? streamKey p = some n) :
    (o.turn net target w).takes? = some n ∨ ∃ step, o = .within n.toNat step := by
  have hstream : (o.request w.client.nextStream).stream = n := by
    rcases o.packets_turn hp with ⟨hauth, -⟩ | hcarries
    · exact nomatch hauth.stream.symm.trans hn
    · have hnamed := hcarries.stream.symm.trans hn
      split at hnamed
      · cases hnamed
      · exact Option.some.inj hnamed
  cases o with
  | ping | query | exec => exact nomatch (Operation.plain_packets _ rfl hp).symm.trans hn
  | begin => exact .inl (congrArg some hstream)
  | within id step =>
    have hid : UInt64.ofNat id = n := by
      cases step <;> exact hstream
    refine .inr ⟨step, ?_⟩
    rw [← hid, (h.stream_of_opened (ho id step rfl)).2]

/-- After a call that was to end a transaction, another call of it is refused. -/
theorem Ledger.within_refused (h : Ledger turns w) {u : Turn σ} (hu : u ∈ turns) {id : Nat}
    {last : Step σ} (hlast : u.operation = .within id last) (hends : last.ends = true)
    (step : Step σ) : (Operation.within id step).perform net target w =
      (.error .transactionAlreadyClosed, { w with packets := [] }) := by
  refine Operation.perform_closed net target ((h.closed _).mpr ⟨u, hu, ?_⟩) step
  rw [hlast, Operation.closes?, if_pos hends]

end Steps

/-! ### Streams apart -/

/-- The calls of a run are kept apart by their streams. -/
structure StreamsApart (turns : List (Turn σ)) : Prop where
  /-- What is asked outside of all transactions names no stream. -/
  plain : ∀ t ∈ turns, t.operation.isPlain = true →
    ∀ p ∈ t.packets, carried? streamKey p = none
  /-- A begin takes a stream, and what it writes in any stream is the begin of that one, by whose
  number its transaction goes. -/
  begins : ∀ t ∈ turns, t.operation.isBegin = true → ∃ n, n ≠ 0 ∧ t.takes? = some n ∧
    (∀ p ∈ t.packets, Carries authCode 0 p ∨ Carries beginCode n p) ∧
    ∀ id, t.answer = .ok (some id) → id = n.toNat
  /-- No two begins share a stream, not even those that failed. -/
  distinct : (Turn.taken turns).Nodup
  /-- Every packet of a transaction names the stream that its begin took. -/
  within : ∀ t ∈ turns, ∀ id step, t.operation = .within id step → ∃ n ∈ Turn.taken turns,
    n ≠ 0 ∧ id = n.toNat ∧ ∀ p ∈ t.packets, carried? streamKey p = some n
  /-- A packet in a stream is of the begin that took it or of the transaction that has it. -/
  owned : ∀ t ∈ turns, ∀ p ∈ t.packets, ∀ n, carried? streamKey p = some n →
    t.takes? = some n ∨ ∃ step, t.operation = .within n.toNat step
  /-- In a stream there is nothing, or a begin, then evaluations, and then at most one end. -/
  course : ∀ n, n ≠ 0 → codesIn n (Turn.written turns) = [] ∨ ∃ k ending, IsEnding ending ∧
    codesIn n (Turn.written turns) = beginCode :: List.replicate k evalCode ++ ending
  /-- Once a transaction was asked to end, however that went, all further calls are refused. -/
  ended : ∀ earlier t, earlier ++ [t] <+: turns → ∀ id step, t.operation = .within id step →
    (∃ u ∈ earlier, ∃ last, u.operation = .within id last ∧ last.ends = true) →
    t.answer = .error .transactionAlreadyClosed ∧ t.packets = []

section Apart

variable {net : Network σ} {target : Target} {turns : List (Turn σ)} {w : Watched σ}

/-- A call of a run, with what the client knew before it. -/
theorem Ran.turn_of_mem (h : Ran net target turns w)
    (hroom : (Turn.taken turns).length < 2 ^ 64) {t : Turn σ} (ht : t ∈ turns) :
    ∃ earlier w', ∃ o : Operation σ, earlier ++ [t] <+: turns ∧ Ledger earlier w' ∧
      o.Possible earlier ∧ t = o.turn net target w' := by
  obtain ⟨earlier, later, rfl⟩ := List.append_of_mem ht
  have hbefore : earlier ++ [t] <+: earlier ++ t :: later :=
    ⟨later, List.append_assoc earlier [t] later⟩
  obtain ⟨w', o, hran, ho, heq⟩ := h.turn_of_prefix hbefore
  have hearlier := (List.prefix_append earlier [t]).trans hbefore
  exact ⟨earlier, w', o, hbefore,
    hran.ledger ((Turn.length_taken_le hearlier).trans_lt hroom), ho, heq⟩

/-- **Transactions stay in their streams**, however the calls of a client follow one another, are
given up or fail, as long as there are numbers for the streams. -/
theorem Ran.streams_apart (h : Ran net target turns w)
    (hroom : (Turn.taken turns).length < 2 ^ 64) : StreamsApart turns := by
  have hledger := h.ledger hroom
  have hnonzero {n : UInt64} (hn : n ∈ Turn.taken turns) : n ≠ 0 := by
    rintro rfl
    rw [hledger.taken] at hn
    exact absurd (toNat_of_mem_streams hroom hn).1 (Nat.lt_irrefl 0)
  refine ⟨?_, ?_, ?_, ?_, ?_, ?_, ?_⟩
  · intro t ht hplain p hp
    obtain ⟨earlier, w', o, -, -, -, rfl⟩ := h.turn_of_mem hroom ht
    exact o.plain_packets hplain hp
  · intro t ht hbegin
    obtain ⟨earlier, w', o, -, -, -, rfl⟩ := h.turn_of_mem hroom ht
    cases o with
    | begin token =>
      have htaken : w'.client.nextStream ∈ Turn.taken turns :=
        List.mem_filterMap.mpr ⟨_, ht, rfl⟩
      refine ⟨_, hnonzero htaken, rfl, fun p hp => ?_, fun id hid => ?_⟩
      · exact (Operation.packets_turn _ hp).imp_left And.left
      · exact (((Operation.begin token).perform_open net target nofun).2 id hid).2
    | _ => cases hbegin
  · rw [hledger.taken]
    exact nodup_streams hroom
  · intro t ht id step hwithin
    obtain ⟨earlier, w', o, hbefore, hearlier, ho, rfl⟩ := h.turn_of_mem hroom ht
    obtain rfl : o = .within id step := hwithin
    obtain ⟨htaken, hid⟩ := hearlier.stream_of_opened (ho id step rfl)
    have hmem : UInt64.ofNat id ∈ Turn.taken turns :=
      ((List.prefix_append _ _).trans hbefore).filterMap _ |>.subset htaken
    exact ⟨_, hmem, hnonzero hmem, hid.symm, fun p hp =>
      hearlier.within_packets (ho id step rfl) (hnonzero hmem) step hp⟩
  · intro t ht p hp n hn
    obtain ⟨earlier, w', o, -, hearlier, ho, rfl⟩ := h.turn_of_mem hroom ht
    exact hearlier.packets_owned o ho hp hn
  · intro n hn
    cases hledger.stage n hn with
    | unused hcodes => exact .inl hcodes
    | running _ _ hcodes => exact .inr ⟨_, [], .inl rfl, by rw [hcodes, List.append_nil]⟩
    | ended _ _ hending hcodes => exact .inr ⟨_, _, hending, hcodes⟩
  · rintro earlier t hbefore id step hwithin ⟨u, hu, last, hlast, hends⟩
    obtain ⟨w', o, hran, ho, rfl⟩ := h.turn_of_prefix hbefore
    obtain rfl : o = .within id step := hwithin
    have hearlier := hran.ledger ((Turn.length_taken_le
      ((List.prefix_append earlier [_]).trans hbefore)).trans_lt hroom)
    rw [Operation.turn, hearlier.within_refused hu hlast hends step]
    exact ⟨rfl, rfl⟩

/-- A network with one server, which greets with a salt of zeros. -/
def Network.greeted (peer : Peer σ) : Network σ where
  connect _ _ := pure (0, List.replicate saltStart 32 ++ List.replicate 43 65 ++
    61 :: List.replicate 20 32)
  peer _ := peer

/-- Two transactions, and a statement that stands by itself.  The server answers every second
request with an error, the end of the first transaction among them. -/
theorem two_streams_apart : ∃ (turns : List (Turn Nat)) (w : Watched Nat),
    Ran (.greeted .alternating) ⟨"", 0, "", ""⟩ turns w ∧
    (Turn.taken turns).length < 2 ^ 64 ∧
    codesIn 1 (Turn.written turns) = [beginCode, evalCode, commitCode] ∧
    codesIn 2 (Turn.written turns) = [beginCode, evalCode] ∧
    StreamsApart turns := by
  have h₀ : Ran (.greeted .alternating) ⟨"", 0, "", ""⟩ [] ⟨0, .start, []⟩ := .start 0
  have h₁ := h₀.turn (.begin .never) nofun
  have h₂ := h₁.turn (.exec .never "return 1" []) nofun
  have h₃ := h₂.turn (.begin .never) nofun
  have h₄ := h₃.turn (.within 1 (.exec .never "return 2" []))
    (Operation.possible_within (by decide +kernel) _)
  have h₅ := h₄.turn (.within 2 (.query .never "return 3" []))
    (Operation.possible_within (by decide +kernel) _)
  have h₆ := h₅.turn (.within 1 .commit) (Operation.possible_within (by decide +kernel) _)
  have h₇ := h₆.turn (.within 1 .rollback) (Operation.possible_within (by decide +kernel) _)
  exact ⟨_, _, h₇, by decide +kernel, by decide +kernel, by decide +kernel,
    h₇.streams_apart (by decide +kernel)⟩

end Apart

end SchemaMigration.Tarantool
