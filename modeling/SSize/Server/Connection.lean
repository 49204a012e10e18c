import SSize.Handlers.Dispatch
import SSize.Lib.Framing

/-!
# `handle_connection` (`http_server.cpp`)

The bytes of a connection come in reads, cut anywhere. `async_read` takes what is
in the buffer it is given, then reads from the socket until one request is
complete. But the buffer is declared in the body of the loop: what it holds beyond
the request goes away with it.

So a connection is served completely exactly when every request ends with a read:
`answered_iff`. That the condition is necessary is a count of bytes.
-/

namespace SSize

open Lib

/-- What the parser makes of a request. -/
structure WireRequest where
  request : HttpRequest
  keepAlive : Bool

/-- Where requests end and what they say. -/
abbrev HttpParser := Framing UInt8 WireRequest

/-- What `HandlerContext` holds when a request of the connection is dispatched.
Other connections and the refresh may change it in between. -/
structure Moment where
  amb : Ambient
  catalog : CatalogPtr
  cache : FeedCache

/-- `prepare_payload`. -/
def Response.preparePayload (res : Response) : Response :=
  res.set (bytes "Content-Length") (toText res.body.length)

/-- `keep_alive(value)` of an HTTP/1.1 response without a `Connection` field. -/
def Response.keepAlive (res : Response) (value : Bool) : Response :=
  if value then res else res.set (bytes "Connection") (bytes "close")

/-- One round of the loop, as far as it is seen from outside. -/
structure Exchange where
  raw : Text
  response : Response
  written : Bool

/-- Everything that does not depend on the bytes of this connection. -/
structure Surroundings where
  lib : Library
  cfg : Config
  peer : Text
  /-- At the `i`-th request. -/
  moment : Nat → Moment
  writeFails : Nat → Bool

def Surroundings.respond (env : Surroundings) (i : Nat) (req : WireRequest) : Response :=
  let m := env.moment i
  let reply := dispatch env.lib env.cfg m.amb m.catalog m.cache req.request
    (clientAddress req.request env.peer)
  reply.response.preparePayload.keepAlive req.keepAlive

def Surroundings.exchange (env : Surroundings) (i : Nat) (got : Received UInt8 WireRequest) :
    Exchange where
  raw := got.raw
  response := env.respond i got.message
  written := !env.writeFails i

/-- The loop from its `i`-th round on, for at most `fuel` rounds. -/
def connectionLoop (parser : HttpParser) (env : Surroundings) :
    Nat → Nat → List Text → List Exchange
  | 0, _, _ => []
  | fuel + 1, i, reads =>
      -- `beast::flat_buffer buffer;`
      match parser.receive [] reads with
      | none => []
      | some got =>
          env.exchange i got ::
            if env.writeFails i || !got.message.keepAlive then []
            else connectionLoop parser env fuel (i + 1) got.rest

/-- No round goes without a read, so there are at most as many rounds. -/
def handleConnection (parser : HttpParser) (env : Surroundings) (reads : List Text) :
    List Exchange :=
  connectionLoop parser env reads.length 0 reads

/-- A well-formed request that leaves the connection open. -/
def KeepAliveRequest (parser : HttpParser) (raw : Text) : Prop :=
  ∃ req, parser.Whole raw req ∧ req.keepAlive = true

/-- Each request is dispatched once, in order, and its response is written. -/
structure Answered (parser : HttpParser) (env : Surroundings) (requests : List Text)
    (log : List Exchange) : Prop where
  dispatched : log.map Exchange.raw = requests
  written : ∀ e ∈ log, e.written = true
  responses : ∀ i e, log[i]? = some e →
    ∃ req, parser.Whole e.raw req ∧ e.response = env.respond i req

/-- Every request ends where some read ends. -/
def EndWithReads (requests reads : List Text) : Prop :=
  ∀ k ≤ requests.length, ∃ j ≤ reads.length,
    (reads.take j).flatten = (requests.take k).flatten

instance (requests reads : List Text) : Decidable (EndWithReads requests reads) :=
  inferInstanceAs (Decidable (∀ k ≤ requests.length, ∃ j ≤ reads.length, _))

variable {parser : HttpParser} {env : Surroundings} {requests reads : List Text}

/-! ## The loop -/

/-- A round takes at least one read. -/
theorem receive_reads {got : Received UInt8 WireRequest} (h : parser.receive [] reads = some got) :
    ∃ used, used ≠ [] ∧ reads = used ++ got.rest ∧ used.flatten = got.raw ++ got.surplus := by
  obtain ⟨hwhole, used, hreads, hbytes⟩ := Framing.receive_sound h
  refine ⟨used, ?_, hreads, by simpa using hbytes⟩
  rintro rfl
  have hnil : got.raw = [] := (List.append_eq_nil_iff.1 hbytes.symm).1
  exact hwhole.ne_nil hnil

/-- More fuel than reads makes no difference. -/
theorem connectionLoop_fuel {fuel fuel' : Nat} (i : Nat) (h : reads.length ≤ fuel)
    (h' : reads.length ≤ fuel') :
    connectionLoop parser env fuel i reads = connectionLoop parser env fuel' i reads := by
  have hempty : parser.receive [] [] = none := by
    cases hreceive : parser.receive [] [] with
    | none => rfl
    | some got =>
        obtain ⟨used, hused, hreads, -⟩ := receive_reads hreceive
        exact absurd (List.append_eq_nil_iff.1 hreads.symm).1 hused
  induction fuel generalizing fuel' i reads with
  | zero =>
      have hnil : reads = [] := List.eq_nil_of_length_eq_zero (Nat.le_zero.1 h)
      cases fuel' with
      | zero => rfl
      | succ fuel' => rw [hnil, connectionLoop, connectionLoop, hempty]
  | succ fuel ih =>
      cases fuel' with
      | zero =>
          have hnil : reads = [] := List.eq_nil_of_length_eq_zero (Nat.le_zero.1 h')
          rw [hnil, connectionLoop, connectionLoop, hempty]
      | succ fuel' =>
          rw [connectionLoop, connectionLoop]
          cases hreceive : parser.receive [] reads with
          | none => rfl
          | some got =>
              obtain ⟨used, hused, hreads, -⟩ := receive_reads hreceive
              have hpos := List.length_pos_iff.2 hused
              have hlength := congrArg List.length hreads
              rw [List.length_append] at hlength
              simp only
              have hrest : connectionLoop parser env fuel (i + 1) got.rest =
                  connectionLoop parser env fuel' (i + 1) got.rest :=
                ih (i + 1) (by omega) (by omega)
              rw [hrest]

/-- The requests that are dispatched are not longer than the stream. -/
theorem dispatched_length_le (parser : HttpParser) (env : Surroundings) (fuel i : Nat)
    (reads : List Text) :
    ((connectionLoop parser env fuel i reads).map Exchange.raw).flatten.length ≤
      reads.flatten.length := by
  induction fuel generalizing i reads with
  | zero => exact Nat.zero_le _
  | succ fuel ih =>
      rw [connectionLoop]
      cases hreceive : parser.receive [] reads with
      | none => exact Nat.zero_le _
      | some got =>
          obtain ⟨used, -, hreads, hbytes⟩ := receive_reads hreceive
          have hlength := congrArg List.length hbytes
          have hrest := ih (i + 1) got.rest
          rw [hreads, List.flatten_append]
          simp only [List.length_append] at hlength ⊢
          split
          · simp only [List.map_cons, List.map_nil, List.flatten_cons, List.flatten_nil,
              List.append_nil, Surroundings.exchange]
            omega
          · simp only [List.map_cons, List.flatten_cons, List.length_append,
              Surroundings.exchange]
            omega

/-- Without bytes there is no round. -/
theorem connectionLoop_of_no_bytes (fuel i : Nat) (h : reads.flatten = []) :
    connectionLoop parser env fuel i reads = [] := by
  cases fuel with
  | zero => rfl
  | succ fuel =>
      rw [connectionLoop]
      cases hreceive : parser.receive [] reads with
      | none => rfl
      | some got =>
          obtain ⟨used, -, hreads, hbytes⟩ := receive_reads hreceive
          rw [hreads, List.flatten_append, hbytes] at h
          simp only [List.append_eq_nil_iff] at h
          exact absurd h.1.1 (Framing.receive_sound hreceive).1.ne_nil

/-- Every exchange is the one of its round. -/
theorem exchange_of_round {fuel i j : Nat} {e : Exchange}
    (h : (connectionLoop parser env fuel i reads)[j]? = some e) :
    e.written = !env.writeFails (i + j) ∧
      ∃ req, parser.Whole e.raw req ∧ e.response = env.respond (i + j) req := by
  induction fuel generalizing i j reads with
  | zero => simp [connectionLoop] at h
  | succ fuel ih =>
      rw [connectionLoop] at h
      split at h
      · simp at h
      · next got hreceive =>
          cases j with
          | zero =>
              rw [List.getElem?_cons_zero, Option.some.injEq] at h
              subst h
              exact ⟨rfl, got.message, (Framing.receive_sound hreceive).1, rfl⟩
          | succ j =>
              rw [List.getElem?_cons_succ] at h
              split at h
              · simp at h
              · have hnext := ih h
                rwa [show i + 1 + j = i + (j + 1) by omega] at hnext

/-! ## Requests that end with reads are all answered -/

theorem EndWithReads.nil : EndWithReads [] reads := by
  intro k _
  exact ⟨0, Nat.zero_le _, by simp⟩

theorem EndWithReads.cons {raw : Text} {used rest : List Text} (hused : used.flatten = raw)
    (h : EndWithReads requests rest) : EndWithReads (raw :: requests) (used ++ rest) := by
  intro k hk
  cases k with
  | zero => exact ⟨0, Nat.zero_le _, rfl⟩
  | succ k =>
      obtain ⟨j, hj, hflatten⟩ := h k (by simpa using hk)
      refine ⟨used.length + j, by rw [List.length_append]; omega, ?_⟩
      rw [List.take_length_add_append, List.flatten_append, hused, hflatten, List.take_succ_cons,
        List.flatten_cons]

/-- The first reads that cover the first request cover nothing else. -/
theorem EndWithReads.uncons {raw surplus : Text} {used rest : List Text}
    (h : EndWithReads (raw :: requests) (used ++ rest))
    (hbytes : used.flatten = raw ++ surplus)
    (hshort : ∀ j < used.length, (used.take j).flatten.length < raw.length) :
    surplus = [] ∧ EndWithReads requests rest := by
  have hcovered : ∀ k ≤ requests.length, ∃ j ≤ rest.length,
      used.flatten ++ (rest.take j).flatten = raw ++ (requests.take k).flatten := by
    intro k hk
    obtain ⟨j, hj, hflatten⟩ := h (k + 1) (by simpa using hk)
    rw [List.take_succ_cons, List.flatten_cons] at hflatten
    have hle : used.length ≤ j := by
      by_contra hlt
      have hless := hshort j (Nat.not_le.1 hlt)
      rw [List.take_append_of_le_length (by omega)] at hflatten
      have hlength := congrArg List.length hflatten
      rw [List.length_append] at hlength
      omega
    rw [List.length_append] at hj
    refine ⟨j - used.length, by omega, ?_⟩
    rw [← hflatten, show j = used.length + (j - used.length) by omega,
      List.take_length_add_append, List.flatten_append]
    simp
  have hsurplus : surplus = [] := by
    obtain ⟨j, -, hflatten⟩ := hcovered 0 (Nat.zero_le _)
    have hlength := congrArg List.length hflatten
    rw [hbytes] at hlength
    simp only [List.length_append, List.take_zero, List.flatten_nil, List.length_nil] at hlength
    exact List.eq_nil_of_length_eq_zero (by omega)
  refine ⟨hsurplus, fun k hk => ?_⟩
  obtain ⟨j, hj, hflatten⟩ := hcovered k hk
  rw [hbytes, hsurplus, List.append_nil] at hflatten
  exact ⟨j, hj, List.append_cancel_left hflatten⟩

theorem dispatched_of_endWithReads {fuel i : Nat} (hfuel : reads.length ≤ fuel)
    (hrequests : ∀ raw ∈ requests, KeepAliveRequest parser raw)
    (hstream : reads.flatten = requests.flatten) (hends : EndWithReads requests reads)
    (hwrites : ∀ j < requests.length, env.writeFails (i + j) = false) :
    (connectionLoop parser env fuel i reads).map Exchange.raw = requests := by
  induction requests generalizing fuel i reads with
  | nil =>
      rw [connectionLoop_of_no_bytes fuel i (hstream.trans List.flatten_nil), List.map_nil]
  | cons raw requests ih =>
      obtain ⟨req, hwhole, hkeep⟩ := hrequests raw List.mem_cons_self
      rw [List.flatten_cons] at hstream
      have hempty : [] ++ reads.flatten = raw ++ requests.flatten := hstream
      obtain ⟨used, surplus, rest, hreads, hbytes, hshort, hreceive⟩ :=
        Framing.receive_whole hwhole hempty
          (List.length_pos_iff.2 hwhole.ne_nil)
      simp only [List.nil_append] at hbytes hshort
      rw [hreads] at hends
      obtain ⟨hsurplus, hrest⟩ := hends.uncons hbytes hshort
      have hused : 0 < used.length := by
        rw [List.length_pos_iff]
        rintro rfl
        exact hwhole.ne_nil (List.append_eq_nil_iff.1 hbytes.symm).1
      have hlater : rest.flatten = requests.flatten := by
        rw [hreads, List.flatten_append, hbytes, hsurplus, List.append_nil] at hstream
        exact List.append_cancel_left hstream
      have hlength := congrArg List.length hreads
      rw [List.length_append] at hlength
      cases fuel with
      | zero => omega
      | succ fuel =>
          have hwrite : env.writeFails i = false := hwrites 0 (Nat.succ_pos _)
          rw [connectionLoop, hreceive]
          simp only [hwrite, hkeep, Bool.not_true, Bool.or_self, Bool.false_eq_true, if_false,
            List.map_cons]
          rw [ih (by omega) (fun raw' h => hrequests raw' (List.mem_cons_of_mem _ h)) hlater hrest]
          · rfl
          · intro j hj
            rw [show i + 1 + j = i + (j + 1) by omega]
            exact hwrites (j + 1) (by simpa using hj)

/-! ## Otherwise something is lost -/

/-- What is thrown away with a buffer is missing at the end. -/
theorem endWithReads_of_dispatched {fuel i : Nat}
    (hdispatched : (connectionLoop parser env fuel i reads).map Exchange.raw = requests)
    (hstream : reads.flatten = requests.flatten) : EndWithReads requests reads := by
  induction fuel generalizing i reads requests with
  | zero =>
      have hnil : requests = [] := by simpa [connectionLoop] using hdispatched.symm
      exact hnil ▸ .nil
  | succ fuel ih =>
      rw [connectionLoop] at hdispatched
      cases hreceive : parser.receive [] reads with
      | none =>
          rw [hreceive] at hdispatched
          have hnil : requests = [] := by simpa using hdispatched.symm
          exact hnil ▸ .nil
      | some got =>
          rw [hreceive] at hdispatched
          obtain ⟨used, -, hreads, hbytes⟩ := receive_reads hreceive
          rw [hreads] at hstream ⊢
          rw [List.flatten_append, hbytes] at hstream
          simp only [List.map_cons] at hdispatched
          cases requests with
          | nil => simp at hdispatched
          | cons raw requests =>
              obtain ⟨hraw, hlater⟩ := List.cons.inj hdispatched
              rw [Surroundings.exchange] at hraw
              simp only at hraw
              rw [hraw, List.flatten_cons, List.append_assoc] at hstream
              have hstream := List.append_cancel_left hstream
              have hlength := congrArg List.length hstream
              rw [List.length_append] at hlength
              split at hlater
              · have hnil : requests = [] := by simpa using hlater.symm
                subst hnil
                have hsurplus : got.surplus = [] :=
                  (List.append_eq_nil_iff.1 hstream).1
                rw [hraw, hsurplus, List.append_nil] at hbytes
                exact EndWithReads.cons hbytes .nil
              · have hle := dispatched_length_le parser env fuel (i + 1) got.rest
                rw [hlater] at hle
                have hsurplus : got.surplus = [] := List.eq_nil_of_length_eq_zero (by omega)
                rw [hraw, hsurplus, List.append_nil] at hbytes
                rw [hsurplus, List.nil_append] at hstream
                exact EndWithReads.cons hbytes (ih hlater hstream)

/-- Every request on a kept-alive connection is answered exactly when every request
ends with a read and every response can be written. -/
theorem answered_iff (env : Surroundings)
    (hrequests : ∀ raw ∈ requests, KeepAliveRequest parser raw)
    (hstream : reads.flatten = requests.flatten) :
    Answered parser env requests (handleConnection parser env reads) ↔
      EndWithReads requests reads ∧ ∀ i < requests.length, env.writeFails i = false := by
  constructor
  · intro h
    refine ⟨endWithReads_of_dispatched h.dispatched hstream, fun i hi => ?_⟩
    rw [← h.dispatched, List.length_map] at hi
    have hround := List.getElem?_eq_getElem hi
    have hwritten := (exchange_of_round hround).1
    rw [h.written _ (List.getElem_mem hi), Nat.zero_add] at hwritten
    simpa using hwritten.symm
  · rintro ⟨hends, hwrites⟩
    have hdispatched : (handleConnection parser env reads).map Exchange.raw = requests :=
      dispatched_of_endWithReads (Nat.le_refl _) hrequests hstream hends
        (by simpa using hwrites)
    refine ⟨hdispatched, fun e he => ?_, fun i e he => ?_⟩
    · obtain ⟨i, hi, rfl⟩ := List.mem_iff_getElem.1 he
      have hwritten := (exchange_of_round (List.getElem?_eq_getElem hi)).1
      have hlength := congrArg List.length hdispatched
      rw [List.length_map] at hlength
      rw [hwritten, Nat.zero_add, hwrites i (by omega)]
      rfl
    · have hround := (exchange_of_round he).2
      rwa [Nat.zero_add] at hround

/-! ## Requests without a body -/

/-- The length of the head of a request with the blank line behind it. -/
def headLength : Text → Option Nat
  | [] => none
  | c :: rest =>
      if (bytes "\r\n\r\n").isPrefixOf (c :: rest) then some 4
      else (headLength rest).map (· + 1)

theorem headLength_bounds {head : Text} {n : Nat} (h : headLength head = some n) :
    4 ≤ n ∧ n ≤ head.length := by
  induction head generalizing n with
  | nil => simp [headLength] at h
  | cons c rest ih =>
      rw [headLength] at h
      split at h
      · next hblank =>
          have hle := (List.isPrefixOf_iff_prefix.1 hblank).length_le
          rw [Option.some.injEq] at h
          have hfour : (bytes "\r\n\r\n").length = 4 := by decide
          omega
      · obtain ⟨m, hm, rfl⟩ := Option.map_eq_some_iff.1 h
        have hrest := ih hm
        rw [List.length_cons]
        omega

/-- The head depends on its own bytes only. -/
theorem headLength_of_take {head other : Text} {n : Nat} (h : headLength head = some n)
    (htake : other.take n = head.take n) : headLength other = some n := by
  induction head generalizing n other with
  | nil => simp [headLength] at h
  | cons c rest ih =>
      have hbounds := headLength_bounds h
      have hother : (bytes "\r\n\r\n").isPrefixOf other =
          (bytes "\r\n\r\n").isPrefixOf (c :: rest) := by
        have hfour : ∀ text : Text, (bytes "\r\n\r\n").isPrefixOf text =
            (bytes "\r\n\r\n").isPrefixOf (text.take 4) := by
          intro text
          rw [Bool.eq_iff_iff, List.isPrefixOf_iff_prefix, List.isPrefixOf_iff_prefix,
            List.prefix_take_iff]
          simp only [iff_self_and]
          exact fun _ => by decide
        rw [hfour other, hfour (c :: rest)]
        have hmin := congrArg (List.take 4) htake
        rw [List.take_take, List.take_take, Nat.min_eq_left hbounds.1] at hmin
        rw [hmin]
      cases other with
      | nil =>
          have hlength := congrArg List.length htake
          rw [List.length_take, List.length_take, List.length_nil] at hlength
          omega
      | cons d other =>
          rw [headLength, hother]
          rw [headLength] at h
          split at h
          · next hblank => rw [if_pos hblank, h]
          · next hblank =>
              obtain ⟨m, hm, rfl⟩ := Option.map_eq_some_iff.1 h
              rw [List.take_succ_cons, List.take_succ_cons, List.cons.injEq] at htake
              rw [if_neg hblank, ih hm htake.2, Option.map_some]

/-- The request line of a head. -/
def requestOfHead (head : Text) : HttpRequest where
  method := if (bytes "GET ").isPrefixOf head then .get else .other
  target := ((head.dropWhile (· != ' '.toUInt8)).drop 1).takeWhile (· != ' '.toUInt8)

def parseHead (stream : Text) : Parsed WireRequest :=
  match headLength stream with
  | none => .more
  | some n => .message ⟨requestOfHead (stream.take n), true⟩ n

theorem parseHead_eq {stream : Text} {req : WireRequest} {n : Nat}
    (h : parseHead stream = .message req n) :
    headLength stream = some n ∧ req = ⟨requestOfHead (stream.take n), true⟩ := by
  unfold parseHead at h
  split at h
  · simp at h
  · next m hm =>
      rw [Parsed.message.injEq] at h
      obtain ⟨rfl, rfl⟩ := h
      exact ⟨hm, rfl⟩

theorem parseHead_of_take {stream other : Text} {req : WireRequest} {n : Nat}
    (h : parseHead stream = .message req n) (htake : other.take n = stream.take n) :
    parseHead other = .message req n := by
  obtain ⟨hlength, hreq⟩ := parseHead_eq h
  rw [parseHead, headLength_of_take hlength htake, hreq, ← htake]

/-- Requests that end with their head and keep the connection open. -/
def headParser : HttpParser where
  parse := parseHead
  positive h := by
    have hbounds := headLength_bounds (parseHead_eq h).1
    omega
  within h := (headLength_bounds (parseHead_eq h).1).2
  message_append later h := by
    have hbounds := headLength_bounds (parseHead_eq h).1
    exact parseHead_of_take h (List.take_append_of_le_length hbounds.2)
  malformed_append later h := by
    unfold parseHead at h
    split at h <;> simp at h
  message_take h := parseHead_of_take h (by rw [List.take_take, Nat.min_self])

def getRequest (target : Text) : Text :=
  bytes "GET " ++ target ++ bytes " HTTP/1.1\r\nHost: s\r\n\r\n"

def quietSurroundings : Surroundings where
  lib := .bare
  cfg := {}
  peer := bytes "127.0.0.1"
  moment _ := ⟨.bare 0, {}, {}⟩
  writeFails _ := false

theorem keepAlive_getRequests : ∀ raw ∈ [getRequest (bytes "/healthz"), getRequest (bytes "/r/7")],
    KeepAliveRequest headParser raw := by
  intro raw hraw
  rcases List.mem_pair.1 hraw with rfl | rfl
  · exact ⟨_, rfl, rfl⟩
  · exact ⟨_, rfl, rfl⟩

/-- Two requests in three reads, the first of which ends in the middle of one. -/
theorem answered_one_by_one :
    Answered headParser quietSurroundings [getRequest (bytes "/healthz"), getRequest (bytes "/r/7")]
      (handleConnection headParser quietSurroundings
        [bytes "GET /hea", bytes "lthz HTTP/1.1\r\nHost: s\r\n\r\n",
          getRequest (bytes "/r/7")]) :=
  (answered_iff quietSurroundings keepAlive_getRequests (by decide)).2
    ⟨by decide, fun _ _ => rfl⟩

/-- The same two in one read. -/
theorem pipelined_request_lost :
    ¬ ∀ (parser : HttpParser) (env : Surroundings) (requests reads : List Text),
      (∀ raw ∈ requests, KeepAliveRequest parser raw) → reads.flatten = requests.flatten →
        (∀ i, env.writeFails i = false) →
          Answered parser env requests (handleConnection parser env reads) := by
  intro h
  have hanswered := h headParser quietSurroundings _
    [getRequest (bytes "/healthz") ++ getRequest (bytes "/r/7")] keepAlive_getRequests rfl
    fun _ => rfl
  have hlength := congrArg List.length hanswered.dispatched
  exact absurd hlength (by decide)

end SSize
