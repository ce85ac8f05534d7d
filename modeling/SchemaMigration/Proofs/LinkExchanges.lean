import SchemaMigration.Proofs.PacketFraming
import SchemaMigration.Tarantool.Client
import Mathlib.Data.List.Basic
/-! # Requests and responses in step

On a link a request is written, and then one packet is read.  An exchange (`Exchange`) is what can
come of it whatever the server sends: nothing was written, the stream has no length or no whole
packet, or one packet was taken and decides (`Verdict`).  Only a packet with the number of the
request answers it.  Each step is an exchange (`Request.perform_exchange`), and a run is followed
through the numbers (`play_sync`, `sent_numbers`).

A server that answers each request with one packet of its number keeps the link empty between the
requests, so that every request gets its own answer (`play_incoming`), also behind one that was
answered with an error.  A client with a link of its own makes the run of those calls that were not
given up (`Client.play_eq`); the others leave no trace. -/
namespace SchemaMigration.Tarantool

variable {σ : Type}

/-! ### One request -/

/-- What can be asked on a link. -/
inductive Request where
  | ping
  | eval (text : String) (args : List Value) (stream : UInt64)
  | control (code stream : UInt64)

namespace Request

/-- The kind of a request, its stream and its body. -/
def code : Request → UInt64
  | ping => pingCode
  | eval .. => evalCode
  | control code _ => code

def stream : Request → UInt64
  | ping => 0
  | eval _ _ stream => stream
  | control _ stream => stream

def body : Request → Entries
  | eval text args _ =>
    [(.natural exprKey, .ofText text), (.natural tupleKey, .array (toMsgpackAll args))]
  | _ => []

/-- The packet of a request with a number. -/
def packet (r : Request) (own : UInt64) : Except Failure (List UInt8) :=
  encodeRequest r.code own r.stream r.body

/-- Makes a request.  One that asks for no results has none. -/
def perform (peer : Peer σ) : Request → Link σ → Except Failure (List Msgpack) × Link σ
  | ping, l => ((l.ping peer).1.map fun _ => [], (l.ping peer).2)
  | eval text args stream, l => l.eval peer text args stream
  | control code stream, l =>
    ((l.control peer code stream).1.map fun _ => [], (l.control peer code stream).2)

/-- What a response without an error says to a request: for an evaluation the results in an array,
which may be missing. -/
def Yields (body : Option Entries) (items : List Msgpack) : Request → Prop
  | eval .. => body.bind (lookup dataKey) = some (.array items) ∨
      body.bind (lookup dataKey) = none ∧ items = []
  | _ => items = []

/-- What a request makes of a response without an error. -/
def results (body : Option Entries) : Request → Except Failure (List Msgpack)
  | eval .. => Link.results body
  | _ => .ok []

theorem results_cases (r : Request) (body : Option Entries) :
    (∃ items, r.results body = .ok items ∧ r.Yields body items) ∨
      (∃ fault, r.results body = .error (.protocol fault)) ∧ ∀ items, ¬ r.Yields body items := by
  cases r with
  | ping | control => exact .inl ⟨[], rfl, rfl⟩
  | eval text args stream =>
    rw [results, Link.results]
    cases hdata : body.bind (lookup dataKey) with
    | none => exact .inl ⟨[], rfl, .inr ⟨hdata, rfl⟩⟩
    | some v =>
      cases v with
      | array items => exact .inl ⟨items, rfl, .inl hdata⟩
      | _ => exact .inr ⟨⟨_, rfl⟩, fun items h => by simp [Yields, hdata] at h⟩

theorem perform_eq (r : Request) (peer : Peer σ) (l : Link σ) :
    r.perform peer l = ((l.request peer r.code r.stream r.body).1.bind r.results,
      (l.request peer r.code r.stream r.body).2) := by
  cases r with
  | eval => rfl
  | ping | control =>
    rw [perform]
    simp only [Link.ping, Link.control, code, stream, body]
    rcases Link.request peer _ _ _ l with ⟨_ | _, _⟩ <;> rfl

end Request

/-- The code and the message of an error response. -/
def reportedCode (header : Entries) : Nat :=
  let code := (number requestKey header &&& ~~~errorFlag).toNat
  if code < 4294967296 then code else 0

def reportedMessage (body : Option Entries) : String :=
  ((body.bind (lookup errorKey)).bind Msgpack.text?).getD ""

/-- A response is an error just if the flag of its kind is set. -/
def IsError (header : Entries) : Prop := number requestKey header &&& errorFlag ≠ 0

/-- A payload is a response with the number of a request.  A response without a number counts as
one to number zero, which no request has before the numbers come round. -/
def Responds (payload : List UInt8) (own : UInt64) (header : Entries) (body : Option Entries) :
    Prop :=
  decodeResponse payload = .ok (header, body) ∧
    (field? syncKey header = some own ∨ own = 0 ∧ field? syncKey header = none)

/-- What the payload of the packet that was read comes to. -/
inductive Verdict (r : Request) (own : UInt64) (payload : List UInt8) :
    Except Failure (List Msgpack) → Prop
  /-- It is an answer to this request. -/
  | answered {header body items} (h : Responds payload own header body) (hflag : ¬ IsError header)
      (hitems : r.Yields body items) : Verdict r own payload (.ok items)
  /-- It reports an error to this request. -/
  | reported {header body} (h : Responds payload own header body) (hflag : IsError header) :
      Verdict r own payload (.error (.tarantool (reportedCode header) (reportedMessage body)))
  /-- It is neither. -/
  | rejected {fault}
      (h : ∀ header body, Responds payload own header body →
        ¬ IsError header ∧ ∀ items, ¬ r.Yields body items) :
      Verdict r own payload (.error (.protocol fault))

/-- What can come of a request with its own number on a link: the link after the request. -/
inductive Exchange (peer : Peer σ) (r : Request) (own : UInt64) (l : Link σ) :
    Except Failure (List Msgpack) → Link σ → Prop
  /-- The request is too large.  Nothing is written and nothing read. -/
  | refused (h : r.packet own = .error (.protocol .requestSize)) :
      Exchange peer r own l (.error (.protocol .requestSize)) { l with sync := own }
  /-- What is there to be read ends within a packet. -/
  | cut {packet missing payload} (h : r.packet own = .ok packet) (hne : missing ≠ [])
      (hframed : Framed payload ((l.send peer packet).incoming ++ missing)) :
      Exchange peer r own l (.error (.io .endOfStream))
        ⟨own, [], (l.send peer packet).server⟩
  /-- What is there to be read begins with no length. -/
  | unmarked {packet marker rest} (h : r.packet own = .ok packet)
      (hin : (l.send peer packet).incoming = marker :: rest) (hmarker : ¬ IsLengthMarker marker) :
      Exchange peer r own l (.error (.protocol (.lengthMarker marker)))
        ⟨own, rest, (l.send peer packet).server⟩
  /-- One packet is read, and no byte behind it. -/
  | read {packet response payload rest answer} (h : r.packet own = .ok packet)
      (hin : (l.send peer packet).incoming = response ++ rest) (hframed : Framed payload response)
      (hverdict : Verdict r own payload answer) :
      Exchange peer r own l answer ⟨own, rest, (l.send peer packet).server⟩

theorem decodeResponse_cases (payload : List UInt8) :
    (∃ header body, decodeResponse payload = .ok (header, body)) ∨
      ∃ fault, decodeResponse payload = .error (.protocol fault) := by
  unfold decodeResponse
  split
  · exact .inr ⟨_, rfl⟩
  · split
    · exact .inl ⟨_, _, rfl⟩
    · split
      · exact .inr ⟨_, rfl⟩
      · exact .inl ⟨_, _, rfl⟩
      · exact .inr ⟨_, rfl⟩
  · exact .inr ⟨_, rfl⟩

theorem judge_of_other {own : UInt64} {header : Entries} (h : number syncKey header ≠ own)
    (body : Option Entries) :
    Link.judge own header body = .error (.protocol (.sync (number syncKey header) own)) :=
  if_pos h

theorem judge_of_error {own : UInt64} {header : Entries} (h : number syncKey header = own)
    (hflag : IsError header) (body : Option Entries) :
    Link.judge own header body =
      .error (.tarantool (reportedCode header) (reportedMessage body)) :=
  (if_neg (not_not.mpr h)).trans (if_pos hflag)

theorem judge_of_answer {own : UInt64} {header : Entries} (h : number syncKey header = own)
    (hflag : ¬ IsError header) (body : Option Entries) :
    Link.judge own header body = .ok body :=
  (if_neg (not_not.mpr h)).trans (if_neg hflag)

/-- The payload that was read decides as a verdict says. -/
theorem Request.verdict (r : Request) (own : UInt64) (payload : List UInt8) :
    Verdict r own payload
      (((decodeResponse payload).bind fun (header, body) => Link.judge own header body).bind
        r.results) := by
  rcases decodeResponse_cases payload with ⟨header, body, hread⟩ | ⟨fault, hread⟩
  · rw [hread]
    show Verdict r own payload ((Link.judge own header body).bind r.results)
    have hunique {header' body'} (h : Responds payload own header' body') :
        header' = header ∧ body' = body := by
      obtain ⟨rfl, rfl⟩ := Prod.mk.inj (Except.ok.inj (h.1.symm.trans hread))
      exact ⟨rfl, rfl⟩
    by_cases hnumber : number syncKey header = own
    · have hresponds : Responds payload own header body := ⟨hread, number_eq_iff.mp hnumber⟩
      by_cases hflag : IsError header
      · rw [judge_of_error hnumber hflag]
        exact .reported hresponds hflag
      · rw [judge_of_answer hnumber hflag]
        show Verdict r own payload (r.results body)
        rcases r.results_cases body with ⟨items, hitems, hyields⟩ | ⟨⟨fault, hfault⟩, hno⟩
        · rw [hitems]
          exact .answered hresponds hflag hyields
        · rw [hfault]
          refine .rejected fun header' body' h => ?_
          obtain ⟨rfl, rfl⟩ := hunique h
          exact ⟨hflag, hno⟩
    · rw [judge_of_other hnumber]
      refine .rejected fun header' body' h => absurd (number_eq_iff.mpr h.2) ?_
      obtain ⟨rfl, rfl⟩ := hunique h
      exact hnumber
  · rw [hread]
    exact .rejected fun header body h => by cases hread.symm.trans h.1

/-- One request is an exchange. -/
theorem Request.perform_exchange (r : Request) (peer : Peer σ) (l : Link σ) :
    Exchange peer r (l.sync + 1) l (r.perform peer l).1 (r.perform peer l).2 := by
  rw [r.perform_eq]
  rcases encodeRequest_cases r.code (l.sync + 1) r.stream r.body with hlarge | ⟨packet, hpacket, -⟩
  · simp only [Link.request, hlarge]
    exact .refused hlarge
  · simp only [Link.request, hpacket]
    have hsend : ({ l with sync := l.sync + 1 } : Link σ).send peer packet =
        ⟨l.sync + 1, (l.send peer packet).incoming, (l.send peer packet).server⟩ := rfl
    rw [hsend]
    rcases takePacket_cases (l.send peer packet).incoming with
      ⟨payload, response, rest, htake, hframed, hin⟩ | ⟨htake, missing, payload, hne, hframed⟩ |
      ⟨marker, rest, hin, hmarker, htake⟩
    · simp only [htake]
      exact .read hpacket hin hframed (r.verdict (l.sync + 1) payload)
    · simp only [htake]
      exact .cut hpacket hne hframed
    · simp only [htake]
      exact .unmarked hpacket hin hmarker

/-- A request leaves its number on the link, however it ends. -/
theorem Exchange.sync {peer : Peer σ} {r : Request} {own : UInt64} {l l' : Link σ}
    {answer : Except Failure (List Msgpack)} (h : Exchange peer r own l answer l') :
    l'.sync = own := by
  cases h <;> rfl

/-! ### Runs -/

/-- What happens on a link: a request, or something elsewhere that changes the server. -/
inductive Event (σ : Type) where
  | request (r : Request)
  | elsewhere (step : σ → σ)

/-- The number of requests among events. -/
def requests : List (Event σ) → Nat
  | [] => 0
  | .request _ :: events => requests events + 1
  | .elsewhere _ :: events => requests events

namespace Link

/-- What happens on a link, one after another: the answers to the requests, and the link after
it. -/
def play (peer : Peer σ) : List (Event σ) → Link σ →
    List (Except Failure (List Msgpack)) × Link σ
  | [], l => ([], l)
  | .elsewhere step :: events, l => play peer events { l with server := step l.server }
  | .request r :: events, l =>
    ((r.perform peer l).1 :: (play peer events (r.perform peer l).2).1,
      (play peer events (r.perform peer l).2).2)

/-- The number of a request, counted from the last one. -/
def numberOf (l : Link σ) (k : Nat) : UInt64 := l.sync + UInt64.ofNat k

theorem perform_sync (r : Request) (peer : Peer σ) (l : Link σ) :
    (r.perform peer l).2.sync = l.sync + 1 :=
  (r.perform_exchange peer l).sync

theorem numberOf_perform (r : Request) (peer : Peer σ) (l : Link σ) (k : Nat) :
    (r.perform peer l).2.numberOf k = l.numberOf (k + 1) := by
  rw [numberOf, numberOf, perform_sync, UInt64.ofNat_add, UInt64.add_assoc,
    UInt64.add_comm (UInt64.ofNat k)]
  rfl

/-- The requests of a run are numbered one after another. -/
theorem play_sync (peer : Peer σ) (events : List (Event σ)) (l : Link σ) :
    (play peer events l).2.sync = l.numberOf (requests events) := by
  induction events generalizing l with
  | nil => simp [play, requests, numberOf]
  | cons e events ih =>
    cases e with
    | elsewhere step => exact ih _
    | request r => exact (ih _).trans (numberOf_perform r peer l _)

theorem play_append (peer : Peer σ) (before after : List (Event σ)) (l : Link σ) :
    play peer (before ++ after) l =
      ((play peer before l).1 ++ (play peer after (play peer before l).2).1,
        (play peer after (play peer before l).2).2) := by
  induction before generalizing l with
  | nil => rfl
  | cons e before ih =>
    cases e with
    | elsewhere step => exact ih { l with server := step l.server }
    | request r => simp only [List.cons_append, play, ih]

/-- The last request of a run is an exchange on the link that the others have left. -/
theorem play_concat (peer : Peer σ) (before : List (Event σ)) (r : Request) (l : Link σ) :
    ∃ answer after,
      play peer (before ++ [.request r]) l = ((play peer before l).1 ++ [answer], after) ∧
        Exchange peer r (l.numberOf (requests before + 1)) (play peer before l).2 answer after := by
  have hown : (play peer before l).2.sync + 1 = l.numberOf (requests before + 1) := by
    rw [play_sync, numberOf, numberOf, UInt64.ofNat_add, UInt64.add_assoc]
    rfl
  refine ⟨_, _, play_append peer before [.request r] l, ?_⟩
  exact hown ▸ r.perform_exchange peer (play peer before l).2

end Link

/-! ### What is written -/

/-- A server that notes the packets it gets. -/
def Peer.noting (peer : Peer σ) : Peer (List (List UInt8) × σ) where
  receive packet s := ((peer.receive packet s.2).1, s.1 ++ [packet], (peer.receive packet s.2).2)

/-- The same event with a server that notes. -/
def Event.noting : Event σ → Event (List (List UInt8) × σ)
  | request r => .request r
  | elsewhere step => .elsewhere fun s => (s.1, step s.2)

/-- The same link to a server that has noted some packets. -/
def Link.noting (l : Link σ) (got : List (List UInt8)) : Link (List (List UInt8) × σ) :=
  ⟨l.sync, l.incoming, got, l.server⟩

/-- The packet that a request writes, if it writes one. -/
def Request.written (r : Request) (own : UInt64) : List (List UInt8) :=
  (r.packet own).toOption.toList

/-- The packets that a run writes. -/
def Link.sent (peer : Peer σ) : List (Event σ) → Link σ → List (List UInt8)
  | [], _ => []
  | .elsewhere step :: events, l => sent peer events { l with server := step l.server }
  | .request r :: events, l => r.written (l.sync + 1) ++ sent peer events (r.perform peer l).2

/-- A request reaches the server once or not at all, so that its answer and what is left on the
link depend on the server only by its reply to the packet. -/
theorem Request.perform_of_receive {τ : Type} {p : Peer σ} {q : Peer τ} (r : Request)
    {sync : UInt64} {incoming : List UInt8} {s : σ} {t : τ} (after : σ → τ)
    (hrefused : ∀ f, r.packet (sync + 1) = .error f → t = after s)
    (hsent : ∀ packet, r.packet (sync + 1) = .ok packet →
      q.receive packet t = ((p.receive packet s).1, after (p.receive packet s).2)) :
    r.perform q ⟨sync, incoming, t⟩ =
      ((r.perform p ⟨sync, incoming, s⟩).1, ⟨(r.perform p ⟨sync, incoming, s⟩).2.sync,
        (r.perform p ⟨sync, incoming, s⟩).2.incoming,
        after (r.perform p ⟨sync, incoming, s⟩).2.server⟩) := by
  rw [r.perform_eq, r.perform_eq]
  cases hpacket : r.packet (sync + 1) with
  | error f =>
    rw [packet] at hpacket
    simp only [Link.request, hpacket, hrefused f hpacket]
  | ok packet =>
    have hreceive := hsent packet hpacket
    rw [Request.packet] at hpacket
    simp only [Link.request, hpacket, Link.send, hreceive]

theorem Request.perform_noting (r : Request) (peer : Peer σ) (l : Link σ)
    (got : List (List UInt8)) :
    r.perform peer.noting (l.noting got) =
      ((r.perform peer l).1, (r.perform peer l).2.noting (got ++ r.written (l.sync + 1))) := by
  refine r.perform_of_receive (fun s => (got ++ r.written (l.sync + 1), s)) ?_ ?_
  · intro f hpacket
    simp [written, hpacket, Except.toOption]
  · intro packet hpacket
    simp [written, hpacket, Except.toOption, Peer.noting]

/-- What the server notes in a run is what the run writes, and noting changes nothing else. -/
theorem Link.play_noting (peer : Peer σ) (events : List (Event σ)) (l : Link σ)
    (got : List (List UInt8)) :
    play peer.noting (events.map .noting) (l.noting got) =
      ((play peer events l).1, (play peer events l).2.noting (got ++ sent peer events l)) := by
  induction events generalizing l got with
  | nil => simp [play, sent]
  | cons e events ih =>
    cases e with
    | elsewhere step => exact ih { l with server := step l.server } got
    | request r =>
      simp only [List.map_cons, Event.noting, play, sent, r.perform_noting, ih, List.append_assoc]

/-- The numbers of as many requests, one after another. -/
def Link.numbers (l : Link σ) (n : Nat) : List UInt64 :=
  (List.range n).map fun k => l.numberOf (k + 1)

theorem Link.numbers_succ (r : Request) (peer : Peer σ) (l : Link σ) (n : Nat) :
    l.numbers (n + 1) = (l.sync + 1) :: (r.perform peer l).2.numbers n := by
  simp only [numbers, List.range_succ_eq_map, List.map_cons, List.map_map, numberOf_perform]
  rfl

/-- Each packet that is written carries the number of its request. -/
theorem Link.sent_numbers (peer : Peer σ) (events : List (Event σ)) (l : Link σ) :
    ∃ numbers : List UInt64, (sent peer events l).map carriedNumber = numbers.map some ∧
      numbers.Sublist (l.numbers (requests events)) := by
  induction events generalizing l with
  | nil => exact ⟨[], rfl, List.nil_sublist _⟩
  | cons e events ih =>
    cases e with
    | elsewhere step => exact ih { l with server := step l.server }
    | request r =>
      obtain ⟨numbers, hcarried, hsub⟩ := ih (r.perform peer l).2
      rw [requests, numbers_succ r peer, sent]
      cases hpacket : r.packet (l.sync + 1) with
      | error f =>
        rw [Request.written, hpacket]
        exact ⟨numbers, hcarried, hsub.cons _⟩
      | ok packet =>
        rw [Request.written, hpacket]
        refine ⟨(l.sync + 1) :: numbers, ?_, hsub.cons_cons _⟩
        simp [Except.toOption, carriedNumber_encodeRequest hpacket, hcarried]

theorem Link.toNat_numberOf {l : Link σ} {k : Nat} (h : l.sync.toNat + k < 2 ^ 64) :
    (l.numberOf k).toNat = l.sync.toNat + k := by
  rw [numberOf, UInt64.toNat_add, UInt64.toNat_ofNat']
  omega

/-- The numbers ascend until there are no more. -/
theorem Link.numbers_ascend {l : Link σ} {n : Nat} (h : l.sync.toNat + n < 2 ^ 64) :
    (l.numbers n).Pairwise (· < ·) := by
  rw [numbers, List.pairwise_map]
  refine List.Pairwise.imp_of_mem ?_ List.pairwise_lt_range
  intro j k hj hk hlt
  rw [List.mem_range] at hj hk
  rw [UInt64.lt_iff_toNat_lt, toNat_numberOf (by omega), toNat_numberOf (by omega)]
  omega

/-! ### A server in order -/

/-- A packet answers a request: it carries the number of the request, and what it says is what the
request ends with. -/
def Answers (r : Request) (own : UInt64) (response : List UInt8)
    (answer : Except Failure (List Msgpack)) : Prop :=
  ∃ payload header body, Framed payload response ∧ Responds payload own header body ∧
    (IsError header ∧ answer = .error (.tarantool (reportedCode header) (reportedMessage body)) ∨
      ¬ IsError header ∧ ∃ items, r.Yields body items ∧ answer = .ok items)

/-- A server that replies to each request with one packet which answers it. -/
def Peer.InOrder (peer : Peer σ) : Prop :=
  ∀ s (r : Request) own packet, r.packet own = .ok packet →
    ∃ answer, Answers r own (peer.receive packet s).1 answer

/-- A response that answers a request is all that is read for it. -/
theorem Exchange.in_order {peer : Peer σ} {r : Request} {own : UInt64} {l l' : Link σ}
    {answer : Except Failure (List Msgpack)} (h : Exchange peer r own l answer l')
    (hpeer : peer.InOrder) (hempty : l.incoming = []) :
    l'.incoming = [] ∧
      (r.packet own = .error (.protocol .requestSize) ∧
          answer = .error (.protocol .requestSize) ∨
        ∃ packet, r.packet own = .ok packet ∧
          Answers r own (peer.receive packet l.server).1 answer) := by
  have hreply (packet : List UInt8) :
      (l.send peer packet).incoming = (peer.receive packet l.server).1 := by
    show l.incoming ++ _ = _
    rw [hempty, List.nil_append]
  -- The whole of what is there to be read is the packet that the server replied with.
  have hwhole {packet : List UInt8} (hpacket : r.packet own = .ok packet) (more : List UInt8) :
      ∃ payload header body, Framed payload (peer.receive packet l.server).1 ∧
        Responds payload own header body ∧ (IsError header ∨ ∃ items, r.Yields body items) ∧
        takePacket ((l.send peer packet).incoming ++ more) = (.ok payload, more) := by
    obtain ⟨_, payload, header, body, hframed, hresponds, hsays⟩ :=
      hpeer l.server r own packet hpacket
    refine ⟨payload, header, body, hframed, hresponds, ?_, ?_⟩
    · exact hsays.imp And.left fun ⟨_, items, hyields, _⟩ => ⟨items, hyields⟩
    · rw [hreply]
      exact takePacket_framed hframed more
  cases h with
  | refused hlarge => exact ⟨hempty, .inl ⟨hlarge, rfl⟩⟩
  | cut hpacket hne hframed =>
    obtain ⟨payload, _, _, _, _, _, htake⟩ := hwhole hpacket _
    have htake' := takePacket_framed hframed []
    rw [List.append_nil, htake] at htake'
    exact absurd (Prod.mk.inj htake').2 hne
  | unmarked hpacket hin hmarker =>
    obtain ⟨payload, _, _, _, _, _, htake⟩ := hwhole hpacket []
    rw [List.append_nil, hin, takePacket_marker hmarker] at htake
    cases htake
  | @read packet response payload rest _ hpacket hin hframed hverdict =>
    obtain ⟨payload', header, body, hframed', hresponds, hsays, htake⟩ := hwhole hpacket []
    rw [List.append_nil, hin, takePacket_framed hframed] at htake
    obtain ⟨hpayload, rfl⟩ := Prod.mk.inj htake
    obtain rfl := Except.ok.inj hpayload
    refine ⟨rfl, .inr ⟨packet, hpacket, payload, ?_⟩⟩
    cases hverdict with
    | answered h hflag hitems =>
      exact ⟨_, _, hframed', h, .inr ⟨hflag, _, hitems, rfl⟩⟩
    | reported h hflag => exact ⟨_, _, hframed', h, .inl ⟨hflag, rfl⟩⟩
    | rejected hno =>
      obtain ⟨hflag, hyields⟩ := hno header body hresponds
      rcases hsays with herror | ⟨items, hitems⟩
      · exact absurd herror hflag
      · exact absurd hitems (hyields items)

/-- Between the requests nothing is left to be read. -/
theorem Link.play_incoming {peer : Peer σ} (hpeer : peer.InOrder) (events : List (Event σ))
    {l : Link σ} (hempty : l.incoming = []) : (play peer events l).2.incoming = [] := by
  induction events generalizing l with
  | nil => exact hempty
  | cons e events ih =>
    cases e with
    | elsewhere step => exact ih hempty
    | request r => exact ih ((r.perform_exchange peer l).in_order hpeer hempty).1

/-! ### Calls of a client -/

/-- The session of a client as a part of the state. -/
def sessionPart (place : Part σ Client) : Part σ (Option Session) :=
  place.inside { get := Client.session, set := fun o c => { c with session := o } }

/-- What takes no part in a part of the state: done before or after a change of the part, it is the
same. -/
def Beside {τ : Type} (part : Part σ τ) (step : σ → σ) : Prop :=
  ∀ t s, step (part.set t s) = part.set t (step s)

/-- A server that neither sees nor changes a part of the state. -/
def Peer.Beside {τ : Type} (part : Part σ τ) (peer : Peer σ) : Prop :=
  ∀ packet t s, peer.receive packet (part.set t s) =
    ((peer.receive packet s).1, part.set t (peer.receive packet s).2)

/-- A request by way of a client. -/
def Request.through (net : Network σ) (target : Target) (place : Part σ Client) (token : Token σ) :
    Request → Action σ (List Msgpack)
  | ping => do
    Client.request net target place token fun peer l => l.ping peer
    return []
  | eval text args stream =>
    Client.request net target place token fun peer l => l.eval peer text args stream
  | control code stream => do
    Client.control net target place token code stream
    return []

variable {net : Network σ} {target : Target} {place : Part σ Client}

/-- The link is at hand: it is kept, or it is opened now. -/
def Client.reach (net : Network σ) (target : Target) (place : Part σ Client) :
    Action σ Session := do
  match (← place.read).session with
  | some s => return s
  | none => Client.connect net target

/-- A token that is raised by the time the link is at hand gives up the call. -/
theorem Client.perform_openSession (token : Token σ) (s : σ) :
    (Client.openSession net target place token).perform s =
      match (token.guard (Client.reach net target place)).perform s with
      | (.ok session, t) => (.ok session, (sessionPart place).set (some session) t)
      | (.error e, t) => (.error e, t) := by
  have hparts : Client.openSession net target place token =
      (token.guard (Client.reach net target place) >>= fun opened =>
        place.change (fun c => { c with session := some opened }) >>= fun _ => pure opened) := rfl
  rw [hparts, Action.perform_bind]
  rcases (token.guard (Client.reach net target place)).perform s with ⟨_ | _, _⟩ <;> rfl

theorem Client.perform_onLink {α : Type} {request : Peer σ → Link σ → Except Failure α × Link σ}
    {session : Session} {s : σ} {answer : Except Failure α} {link : Link σ}
    (h : request (net.peer session.number) ⟨session.sync, session.incoming, s⟩ = (answer, link)) :
    (onLink net request session).perform s =
      (.ok (answer, ⟨session.number, link.sync, link.incoming⟩), link.server) := by
  rw [onLink, Action.perform_ofStep, h]

theorem Client.perform_reach_of_session {s : σ} {session : Session}
    (h : (sessionPart place).get s = some session) :
    (Client.reach net target place).perform s = (.ok session, s) := by
  have hkept : (place.get s).session = some session := h
  rw [reach, Action.perform_bind_ok (place.perform_read s), hkept]
  rfl

theorem Client.perform_reach_of_none {s : σ} (h : (sessionPart place).get s = none) :
    (Client.reach net target place).perform s = (Client.connect net target).perform s := by
  have hkept : (place.get s).session = none := h
  rw [reach, Action.perform_bind_ok (place.perform_read s), hkept]

theorem Client.perform_openSession_of_session {token : Token σ} {s : σ} {session : Session}
    (hdown : token.isRaised s = false) (hsession : (sessionPart place).get s = some session) :
    (Client.openSession net target place token).perform s = (.ok session, s) := by
  have hset : (sessionPart place).set (some session) s = s := by
    rw [← hsession, (sessionPart place).set_get]
  rw [perform_openSession, Token.perform_guard, perform_reach_of_session hsession]
  simp [hdown, hset]

/-- A call that is given up before it has the link leaves everything as it is. -/
theorem Client.perform_request_of_raised {α : Type} {token : Token σ} {s : σ}
    (h : token.isRaised s = true)
    (request : Peer σ → Link σ → Except Failure α × Link σ) :
    (Client.request net target place token request).perform s = (.error .cancelled, s) := by
  have hopen : (Client.openSession net target place token).perform s = (.error .cancelled, s) := by
    rw [perform_openSession, Token.perform_guard, if_pos h]
  rw [Client.request, Action.perform_bind_error hopen]

/-- A call that has the link is carried through on it. -/
theorem Client.perform_request_of_session {α : Type} {token : Token σ} {s : σ}
    {session : Session} (hdown : token.isRaised s = false)
    (hsession : (sessionPart place).get s = some session)
    (request : Peer σ → Link σ → Except Failure α × Link σ) :
    (Client.request net target place token request).perform s =
      ((request (net.peer session.number) ⟨session.sync, session.incoming, s⟩).1,
        (sessionPart place).set
          (some ⟨session.number,
            (request (net.peer session.number) ⟨session.sync, session.incoming, s⟩).2.sync,
            (request (net.peer session.number) ⟨session.sync, session.incoming, s⟩).2.incoming⟩)
          (request (net.peer session.number) ⟨session.sync, session.incoming, s⟩).2.server) := by
  have hopen : (Client.openSession net target place token).perform s = (.ok session, s) :=
    perform_openSession_of_session hdown hsession
  have hcheck : token.check.perform s = (.ok (), s) := by
    rw [Token.perform_check, hdown]
    rfl
  rw [Client.request, Action.perform_bind_ok hopen, Action.perform_bind_ok hcheck]
  rcases hanswer : request (net.peer session.number) ⟨session.sync, session.incoming, s⟩ with
    ⟨answer, link⟩
  rw [Action.perform_bind_ok (perform_onLink hanswer),
    Action.perform_bind_ok (place.perform_change _ _), Action.perform_ofExcept]
  rfl

/-- A call without a link first opens one.  It is given up if the token is raised by then, and goes
on as with an open link if not. -/
theorem Client.perform_request_opening {α : Type} {token : Token σ} {s : σ}
    (hdown : token.isRaised s = false) (hnone : (sessionPart place).get s = none)
    (request : Peer σ → Link σ → Except Failure α × Link σ) :
    (∃ e, (Client.request net target place token request).perform s =
        (.error e, ((Client.connect net target).perform s).2)) ∨
      ∃ session t, (Client.connect net target).perform s = (.ok session, t) ∧
        token.isRaised t = false ∧
        (Client.request net target place token request).perform s =
          (Client.request net target place token request).perform
            ((sessionPart place).set (some session) t) := by
  rcases hconnect : (Client.connect net target).perform s with ⟨opened, t⟩
  have hopen : (Client.openSession net target place token).perform s =
      match (if token.isRaised t then .error .cancelled else opened, t) with
      | (.ok session, t) => (.ok session, (sessionPart place).set (some session) t)
      | (.error e, t) => (.error e, t) := by
    rw [perform_openSession, Token.perform_guard, hdown, if_neg Bool.false_ne_true,
      perform_reach_of_none hnone, hconnect]
  cases hraised : token.isRaised t with
  | true =>
    rw [hraised, if_pos rfl] at hopen
    exact .inl ⟨.cancelled, Action.perform_bind_error hopen⟩
  | false =>
    rw [hraised, if_neg Bool.false_ne_true] at hopen
    cases opened with
    | error e => exact .inl ⟨e, Action.perform_bind_error hopen⟩
    | ok session =>
      refine .inr ⟨session, t, rfl, hraised, ?_⟩
      let u := (sessionPart place).set (some session) t
      rw [Client.request, Action.perform_bind_ok hopen]
      cases hlate : token.isRaised u with
      | true =>
        have hcheck : token.check.perform u = (.error .cancelled, u) := by
          rw [Token.perform_check, hlate]
          rfl
        exact (Action.perform_bind_error hcheck).trans
          (perform_request_of_raised hlate request).symm
      | false =>
        have hkept : (sessionPart place).get u = some session := (sessionPart place).get_set _ _
        rw [Action.perform_bind_ok (perform_openSession_of_session hlate hkept)]

theorem Client.request_map {α β : Type} (g : α → β) (token : Token σ)
    (request : Peer σ → Link σ → Except Failure α × Link σ) :
    (Client.request net target place token request >>= fun x => pure (g x)) =
      Client.request net target place token fun peer l =>
        ((request peer l).1.map g, (request peer l).2) := by
  simp only [Client.request, bind_assoc]
  congr 1
  funext session
  congr 1
  funext _
  refine Action.ext fun s => ?_
  rcases hanswer : request (net.peer session.number) ⟨session.sync, session.incoming, s⟩ with
    ⟨answer, link⟩
  rw [Action.perform_bind_ok (perform_onLink hanswer),
    Action.perform_bind_ok (perform_onLink (by rw [hanswer]))]
  cases answer <;> rfl

theorem Request.through_eq (r : Request) (token : Token σ) :
    r.through net target place token =
      Client.request net target place token fun peer l => r.perform peer l := by
  cases r with
  | ping => exact Client.request_map _ token _
  | eval => rfl
  | control => exact Client.request_map _ token _

/-- What a client is asked, and what happens elsewhere. -/
inductive Move (σ : Type) where
  | call (token : Token σ) (r : Request)
  | elsewhere (step : σ → σ)

/-- What happens elsewhere leaves the session alone. -/
def Move.Apart (place : Part σ Client) : Move σ → Prop
  | .call .. => True
  | .elsewhere step => Beside (sessionPart place) step

/-- The answers to the calls of a client, one after another, and the state after them. -/
def Client.play (net : Network σ) (target : Target) (place : Part σ Client) :
    List (Move σ) → σ → List (Except Failure (List Msgpack)) × σ
  | [], s => ([], s)
  | .elsewhere step :: moves, s => play net target place moves (step s)
  | .call token r :: moves, s =>
    let (answer, t) := (r.through net target place token).perform s
    (answer :: (play net target place moves t).1, (play net target place moves t).2)

/-- What is left for the link when the calls that are given up are taken out. -/
def Client.carriedOut (net : Network σ) (target : Target) (place : Part σ Client) :
    List (Move σ) → σ → List (Event σ)
  | [], _ => []
  | .elsewhere step :: moves, s => .elsewhere step :: carriedOut net target place moves (step s)
  | .call token r :: moves, s =>
    let t := ((r.through net target place token).perform s).2
    if token.isRaised s then carriedOut net target place moves t
    else .request r :: carriedOut net target place moves t

/-- A call that was not given up. -/
def isCarried : Except Failure (List Msgpack) → Bool
  | .error .cancelled => false
  | _ => true

theorem Exchange.isCarried {peer : Peer σ} {r : Request} {own : UInt64} {l l' : Link σ}
    {answer : Except Failure (List Msgpack)} (h : Exchange peer r own l answer l') :
    isCarried answer = true := by
  cases h with
  | read _ _ _ hverdict => cases hverdict <;> rfl
  | _ => rfl

/-- A server that does not see the session answers the same whatever the session is. -/
theorem Request.perform_beside {peer : Peer σ} {τ : Type} {part : Part σ τ}
    (h : peer.Beside part) (r : Request) (t : τ) (l : Link σ) :
    r.perform peer { l with server := part.set t l.server } =
      ((r.perform peer l).1, { (r.perform peer l).2 with
        server := part.set t (r.perform peer l).2.server }) :=
  r.perform_of_receive (part.set t) (fun _ _ => rfl) (fun packet _ => h packet t l.server)

/-- A call of a client with an open link that is not given up is the request on the link. -/
theorem Request.perform_through {number : Nat}
    (hpeer : (net.peer number).Beside (sessionPart place)) (r : Request) {token : Token σ}
    {l : Link σ} {s : σ}
    (hs : s = (sessionPart place).set (some ⟨number, l.sync, l.incoming⟩) l.server)
    (hdown : token.isRaised s = false) :
    (r.through net target place token).perform s =
      ((r.perform (net.peer number) l).1, (sessionPart place).set
        (some ⟨number, (r.perform (net.peer number) l).2.sync,
          (r.perform (net.peer number) l).2.incoming⟩)
        (r.perform (net.peer number) l).2.server) := by
  have hsession : (sessionPart place).get s = some ⟨number, l.sync, l.incoming⟩ := by
    rw [hs, (sessionPart place).get_set]
  have hanswer : r.perform (net.peer number) ⟨l.sync, l.incoming, s⟩ = _ :=
    hs ▸ r.perform_beside hpeer (some ⟨number, l.sync, l.incoming⟩) l
  rw [r.through_eq, Client.perform_request_of_session hdown hsession, hanswer,
    (sessionPart place).set_set]

/-- A client with an open link makes the run of the calls that are not given up. -/
theorem Client.play_eq {number : Nat} (hpeer : (net.peer number).Beside (sessionPart place))
    {moves : List (Move σ)} (hmoves : ∀ m ∈ moves, m.Apart place) {l : Link σ} {s : σ}
    (hs : s = (sessionPart place).set (some ⟨number, l.sync, l.incoming⟩) l.server) :
    let run := Link.play (net.peer number) (carriedOut net target place moves s) l
    (play net target place moves s).1.filter isCarried = run.1 ∧
      (play net target place moves s).2 =
        (sessionPart place).set (some ⟨number, run.2.sync, run.2.incoming⟩) run.2.server := by
  induction moves generalizing l s with
  | nil => exact ⟨rfl, hs⟩
  | cons m moves ih =>
    have hrest : ∀ m ∈ moves, m.Apart place := fun m hm => hmoves m (List.mem_cons_of_mem _ hm)
    have hapart : m.Apart place := hmoves m List.mem_cons_self
    cases m with
    | elsewhere step =>
      refine ih hrest (l := { l with server := step l.server }) ?_
      rw [hs, hapart]
    | call token r =>
      cases hraised : token.isRaised s with
      | true =>
        have hcall : (r.through net target place token).perform s = (.error .cancelled, s) := by
          rw [r.through_eq]
          exact perform_request_of_raised hraised _
        simp only [play, carriedOut, hcall, hraised, if_true]
        exact ih hrest hs
      | false =>
        have hcall : (r.through net target place token).perform s = _ :=
          r.perform_through hpeer hs hraised
        have hcarried : isCarried (r.perform (net.peer number) l).1 = true :=
          (r.perform_exchange (net.peer number) l).isCarried
        obtain ⟨hanswers, hstate⟩ := ih hrest (l := (r.perform (net.peer number) l).2) rfl
        simp only [play, carriedOut, hcall, hraised, Bool.false_eq_true, if_false, Link.play,
          List.filter_cons, hcarried, if_true]
        exact ⟨congrArg _ hanswers, hstate⟩

/-! ### The whole -/

/-- **Every answer belongs to its request.**  On a link to any server, whatever it sends:  the
packets that are written carry the numbers of their requests, which ascend as long as there are
numbers; and each request is an exchange, which is answered only by one packet with its number.  To
a server in order every request that is written gets the answer of the server, and nothing is left
between the requests.  Through a client, a call whose token is raised before it has the link leaves
everything as it is, and all others together make a run on the link. -/
theorem answers_belong_to_requests :
    (∀ (peer : Peer σ) (events : List (Event σ)) (l : Link σ),
      ∃ (packets : List (List UInt8)) (numbers : List UInt64),
      Link.play peer.noting (events.map .noting) (l.noting []) =
          ((Link.play peer events l).1, (Link.play peer events l).2.noting packets) ∧
        packets.map carriedNumber = numbers.map some ∧
        numbers.Sublist (l.numbers (requests events)) ∧
        (l.sync.toNat + requests events < 2 ^ 64 → numbers.Pairwise (· < ·))) ∧
    (∀ (peer : Peer σ) (before : List (Event σ)) (r : Request) (l : Link σ), ∃ answer after,
      Link.play peer (before ++ [.request r]) l =
          ((Link.play peer before l).1 ++ [answer], after) ∧
        Exchange peer r (l.numberOf (requests before + 1)) (Link.play peer before l).2 answer
          after ∧
        (peer.InOrder → l.incoming = [] → after.incoming = [] ∧
          (r.packet (l.numberOf (requests before + 1)) = .error (.protocol .requestSize) ∧
              answer = .error (.protocol .requestSize) ∨
            ∃ packet, r.packet (l.numberOf (requests before + 1)) = .ok packet ∧
              Answers r (l.numberOf (requests before + 1))
                (peer.receive packet (Link.play peer before l).2.server).1 answer))) ∧
    (∀ (net : Network σ) (target : Target) (place : Part σ Client) (session : Session) (s : σ),
      (sessionPart place).get s = some session →
      (net.peer session.number).Beside (sessionPart place) →
      ∀ moves : List (Move σ), (∀ m ∈ moves, m.Apart place) →
        let run := Link.play (net.peer session.number)
          (Client.carriedOut net target place moves s) ⟨session.sync, session.incoming, s⟩
        (Client.play net target place moves s).1.filter isCarried = run.1 ∧
          (Client.play net target place moves s).2 = (sessionPart place).set
            (some ⟨session.number, run.2.sync, run.2.incoming⟩) run.2.server) ∧
    (∀ (net : Network σ) (target : Target) (place : Part σ Client) (token : Token σ) (r : Request)
      (s : σ),
      (token.isRaised s = true →
        (r.through net target place token).perform s = (.error .cancelled, s)) ∧
      (token.isRaised s = false → (sessionPart place).get s = none →
        (∃ e, (r.through net target place token).perform s =
            (.error e, ((Client.connect net target).perform s).2)) ∨
          ∃ session t, (Client.connect net target).perform s = (.ok session, t) ∧
            token.isRaised t = false ∧
            (r.through net target place token).perform s =
              (r.through net target place token).perform
                ((sessionPart place).set (some session) t))) := by
  refine ⟨?_, ?_, ?_, ?_⟩
  · intro peer events l
    obtain ⟨numbers, hcarried, hsub⟩ := Link.sent_numbers peer events l
    refine ⟨Link.sent peer events l, numbers, Link.play_noting peer events l [], hcarried, hsub,
      fun hroom => ?_⟩
    exact (Link.numbers_ascend hroom).sublist hsub
  · intro peer before r l
    obtain ⟨answer, after, hplay, hexchange⟩ := Link.play_concat peer before r l
    refine ⟨answer, after, hplay, hexchange, fun hpeer hempty => ?_⟩
    exact hexchange.in_order hpeer (Link.play_incoming hpeer before hempty)
  · intro net target place session s hsession hpeer moves hmoves
    exact Client.play_eq hpeer hmoves (by rw [← hsession, (sessionPart place).set_get])
  · intro net target place token r s
    rw [r.through_eq]
    exact ⟨fun hraised => Client.perform_request_of_raised hraised _,
      fun hdown hnone => Client.perform_request_opening hdown hnone _⟩

/-- A response of a kind to the request with a number, without a body. -/
def bareResponse (kind own : UInt64) : List UInt8 :=
  LengthForm.four.write (Msgpack.map (requestHeader kind own 0)).write.length ++
    (Msgpack.map (requestHeader kind own 0)).write

theorem bareResponse_framed (kind own : UInt64) :
    Framed (Msgpack.map (requestHeader kind own 0)).write (bareResponse kind own) := by
  refine ⟨.four, ?_, rfl⟩
  have hkind := Msgpack.length_writeNatural_le kind.toNat
  have hown := Msgpack.length_writeNatural_le own.toNat
  have hsize : (Msgpack.map (requestHeader kind own 0)).write.length =
      (Msgpack.writeNatural kind.toNat).length + (Msgpack.writeNatural own.toNat).length + 3 := by
    simp [requestHeader, Msgpack.write, Msgpack.writeLength, Msgpack.writeEntries, requestKey,
      syncKey, Msgpack.writeNatural]
    omega
  rw [hsize, LengthForm.limit]
  omega

theorem bareResponse_responds (kind own : UInt64) :
    Responds (Msgpack.map (requestHeader kind own 0)).write own (requestHeader kind own 0)
      none := by
  have hread := read_requestHeader kind own 0 []
  rw [List.append_nil] at hread
  refine ⟨?_, .inl (field?_requestHeader kind own 0)⟩
  rw [decodeResponse, hread]
  rfl

/-- A server that answers every second request with an error.  It counts the requests. -/
def Peer.alternating : Peer Nat where
  receive packet count :=
    (bareResponse (if count % 2 = 0 then 0 else errorFlag + 32) ((carriedNumber packet).getD 0),
      count + 1)

theorem alternating_inOrder : Peer.alternating.InOrder := by
  intro count r own packet hpacket
  let kind : UInt64 := if count % 2 = 0 then 0 else errorFlag + 32
  have hreply : (Peer.alternating.receive packet count).1 = bareResponse kind own := by
    show bareResponse kind ((carriedNumber packet).getD 0) = _
    rw [carriedNumber_encodeRequest hpacket]
    rfl
  rw [hreply]
  by_cases herror : IsError (requestHeader kind own 0)
  · exact ⟨_, _, _, _, bareResponse_framed kind own, bareResponse_responds kind own,
      .inl ⟨herror, rfl⟩⟩
  · have hyields : r.Yields none [] := by
      cases r with
      | eval => exact .inr ⟨rfl, rfl⟩
      | ping | control => rfl
    exact ⟨_, _, _, _, bareResponse_framed kind own, bareResponse_responds kind own,
      .inr ⟨herror, [], hyields, rfl⟩⟩

/-- The client of a state that holds a client and a server. -/
def clientPart : Part (Client × σ) Client := { get := Prod.fst, set := fun c s => (c, s.2) }

/-- The one server of a state that holds a client and a server. -/
def Network.only (peer : Peer σ) : Network (Client × σ) where
  connect _ _ := throw (.io .refused)
  peer _ := { receive := fun packet s =>
    ((peer.receive packet s.2).1, s.1, (peer.receive packet s.2).2) }

theorem only_beside (peer : Peer σ) (number : Nat) :
    ((Network.only peer).peer number).Beside (sessionPart clientPart) := by
  intro packet t s
  rfl

/-- A client with an open link to the server that answers every second request with an error. -/
def openClient : Client × Nat := (⟨some ⟨0, 0, []⟩, 1, []⟩, 0)

/-- A token that is raised when the server has had one request. -/
def afterFirst : Token (Client × Nat) := ⟨fun s => s.2 == 1, id⟩

/-- Four calls, of which the second is given up and the third is answered with an error. -/
def fourCalls : List (Move (Client × Nat)) :=
  [.call .never .ping, .call afterFirst .ping, .call .never (.control beginCode 1),
    .call .never .ping]

/-- Two requests, of which the second is answered with an error. -/
def twoRequests : List (Event Nat) := [.request .ping, .request (.control beginCode 1)]

/-- Behind an error the third request on a link gets the answer that is its own, the numbers ascend,
and of four calls of a client the one that is given up leaves no trace. -/
theorem answers_belong_behind_error :
    (∃ answer after packet, Link.play .alternating (twoRequests ++ [.request .ping]) (.start [] 0) =
          ((Link.play .alternating twoRequests (.start [] 0)).1 ++ [answer], after) ∧
        after.incoming = [] ∧ Request.ping.packet 3 = .ok packet ∧
        Answers .ping 3 (Peer.alternating.receive packet
          (Link.play .alternating twoRequests (.start [] 0)).2.server).1 answer) ∧
    (∃ numbers : List UInt64, numbers.Pairwise (· < ·) ∧ numbers.Sublist [1, 2] ∧
      (Link.play (Peer.noting .alternating) (twoRequests.map .noting)
        ((Link.start [] 0).noting [])).2.server.1.map carriedNumber = numbers.map some) ∧
    (Client.play (.only .alternating) ⟨"", 0, "", ""⟩ clientPart fourCalls openClient).1.filter
        isCarried = (Link.play ((Network.only .alternating).peer 0)
          (Client.carriedOut (.only .alternating) ⟨"", 0, "", ""⟩ clientPart fourCalls openClient)
          ⟨0, [], openClient⟩).1 ∧
    (Request.ping.through (.only .alternating) ⟨"", 0, "", ""⟩ clientPart afterFirst).perform
        (openClient.1, 1) = (.error .cancelled, (openClient.1, 1)) := by
  obtain ⟨hnumbers, hsteps, -, -⟩ := answers_belong_to_requests (σ := Nat)
  obtain ⟨-, -, hclient, hcalls⟩ := answers_belong_to_requests (σ := Client × Nat)
  refine ⟨?_, ?_, ?_, ?_⟩
  · obtain ⟨answer, after, hplay, -, hanswered⟩ :=
      hsteps .alternating twoRequests .ping (.start [] 0)
    obtain ⟨hempty, ⟨hlarge, -⟩ | ⟨packet, hpacket, hanswer⟩⟩ := hanswered alternating_inOrder rfl
    · cases hlarge
    · exact ⟨answer, after, packet, hplay, hempty, hpacket, hanswer⟩
  · obtain ⟨packets, numbers, hplay, hcarried, hsub, hascend⟩ :=
      hnumbers .alternating twoRequests (.start [] 0)
    refine ⟨numbers, hascend (by decide), hsub, ?_⟩
    rw [hplay]
    exact hcarried
  · refine (hclient _ _ clientPart ⟨0, 0, []⟩ openClient rfl (only_beside _ _) fourCalls ?_).1
    intro m hm
    simp only [fourCalls, List.mem_cons, List.not_mem_nil, or_false] at hm
    rcases hm with rfl | rfl | rfl | rfl <;> trivial
  · exact (hcalls _ _ _ _ _ _).1 rfl

end SchemaMigration.Tarantool
