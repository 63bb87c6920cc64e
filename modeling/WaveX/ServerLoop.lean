import WaveX.Http1RequestArrival
import WaveX.Labelled
import WaveX.RequestTarget

/-! # The loop of a server connection

    `Server::handle_connection_impl` of `include/wavex/Server/ServerConnection.ipp` with the
    traits of HTTP/1 (`include/wavex/protos/ProtocolTraits.hpp`), from the first read on.

    The loop waits in a read or in `process_request`; a step is what it does from one wait to
    the next.  What a read gives, what a handler answers, when a write throws and when the
    server shuts down is up to the schedule.  What is on the wire of an answer is not modelled
    here, only which request it answers. -/

namespace ServerLoop

open QuicVarInt HttpText Http1Codec RequestTarget

/-! ## The protocol -/

/-- The limits of the server that the loop reads. -/
structure Limits where
  maxRequestSize : Nat := 100 * 1024 * 1024
  maxQueryParams : Nat := 64
  maxHeaders : Nat := 100
  maxKeepAliveRequests : Nat := 1000

/-- `should_keep_alive`. -/
def shouldKeepAlive (req : Request) : Bool :=
  let conn := getHeader req.headers "Connection"
  if req.versionMajor = 1 ∧ req.versionMinor = 1 then
    !(conn.any fun c => isEqual c (text "close"))
  else if req.versionMajor = 1 ∧ req.versionMinor = 0 then
    conn.any fun c => isEqual c (text "keep-alive")
  else true

/-- `keep_alive`. -/
def keepAlive (lim : Limits) (req : Request) (requestCount : Nat) : Bool :=
  shouldKeepAlive req && decide (requestCount < lim.maxKeepAliveRequests)

/-- `http_exceeds_limits`. -/
def exceedsLimits (lim : Limits) (req : Request) : Bool :=
  let routed := extractPathQuery req.target
  routed.queryParamOverflow || decide (routed.query.length > lim.maxQueryParams) ||
    decide (req.headers.length > lim.maxHeaders)

/-- What goes out: the answer to a request, from its handler or as a refusal, or one of the
    errors that end the connection. -/
inductive Sent where
  | response (req : Request)
  | limitsExceeded (req : Request)
  | badRequest
  | payloadTooLarge
  deriving DecidableEq

/-! ## The connection -/

/-- `ServerState`. -/
inductive ServerState where
  | running
  | shuttingDown
  | stopped
  deriving DecidableEq

/-- Where the loop stands: at its head, in the read of an idle connection, in the read of the
    rest of a request, in a handler, or at its end, with the bytes behind the request when
    another protocol has taken the connection over. -/
inductive Phase where
  | head
  | idle
  | more
  | handling (req : Request) (consumed : Nat) (keep : Bool)
  | takenOver (unread : Bytes)
  | ended
  deriving DecidableEq

/-- The connection, with all that it has received and all that it has sent. -/
structure Connection where
  server : ServerState := .running
  streamBuf : Bytes := []
  streamBufConsumed : Nat := 0
  requestCount : Nat := 0
  phase : Phase := .head
  received : Bytes := []
  sent : List Sent := []
  deriving DecidableEq

variable (lim : Limits) (c : Connection)

/-- An error that ends the connection. -/
def Connection.fail (e : Sent) : Connection := { c with sent := c.sent ++ [e], phase := .ended }

/-- The bytes of a request are done with. -/
def Connection.consume (n : Nat) : Connection :=
  let consumed := c.streamBufConsumed + n
  if consumed ≥ 4096 then
    { c with streamBuf := c.streamBuf.drop consumed, streamBufConsumed := 0 }
  else if consumed = c.streamBuf.length then
    { c with streamBuf := [], streamBufConsumed := 0 }
  else { c with streamBufConsumed := consumed }

/-- What follows `parse_stream`; no result when the parser does not return. -/
def Connection.parsed : Option (Outcome Request) → Option Connection
  | none => none
  | some .incomplete =>
      if c.server = .stopped then some (c.fail .badRequest) else some { c with phase := .more }
  | some .error => some (c.fail .badRequest)
  | some (.success req n) =>
      let c := { c with requestCount := c.requestCount + 1 }
      let keep := keepAlive lim req c.requestCount
      if exceedsLimits lim req then
        let c := { c with sent := c.sent ++ [Sent.limitsExceeded req] }.consume n
        some { c with phase := if keep then .head else .ended }
      else some { c with phase := .handling req n keep }

/-- The bytes that `parse_stream` is given. -/
def Connection.unconsumed : Bytes := c.streamBuf.drop c.streamBufConsumed

/-- `parse_stream` and what follows it. -/
def Connection.parse : Option Connection := c.parsed lim (parseRequest c.unconsumed)

/-- From the head of the loop to the next wait. -/
def Connection.start : Option Connection :=
  if c.server = .stopped ∨ c.server = .shuttingDown ∧ c.streamBuf = [] then
    some { c with phase := .ended }
  else
    let c := { c with streamBuf := c.unconsumed, streamBufConsumed := 0 }
    if c.streamBuf = [] then
      some { c with phase := if c.server = .shuttingDown then .ended else .idle }
    else c.parse lim

/-- A read has ended with some bytes. -/
def Connection.receive (bytes : Bytes) : Connection :=
  { c with streamBuf := c.streamBuf ++ bytes, received := c.received ++ bytes }

/-- What a schedule decides: the loop goes on, a read gives bytes or fails, a handler is done
    (with the answer whether it has switched protocols), something throws, and the server
    starts to shut down or stops. -/
inductive Action where
  | proceed
  | read (bytes : Bytes)
  | readFailed
  | handled (takeover : Bool)
  | throw
  | shutDown
  | stop
  deriving DecidableEq

/-- A step of the connection. -/
def step : Connection → Action → Option Connection
  | c, .proceed => if c.phase = .head then c.start lim else none
  | c, .read bytes =>
      if bytes = [] ∨ 4096 < bytes.length then none
      else
        match c.phase with
        | .idle => (c.receive bytes).parse lim
        | .more =>
            let c := c.receive bytes
            if lim.maxRequestSize > 0 ∧ c.streamBuf.length > lim.maxRequestSize then
              some (c.fail .payloadTooLarge)
            else c.parse lim
        | _ => none
  | c, .readFailed =>
      match c.phase with
      | .idle | .more => some { c with phase := .ended }
      | _ => none
  | c, .handled takeover =>
      match c.phase with
      | .handling req n keep =>
          let effectiveKeep := keep && decide (c.server ≠ .shuttingDown)
          let c := { c with sent := c.sent ++ [Sent.response req] }.consume n
          if takeover then some { c with phase := .takenOver c.unconsumed }
          else some { c with phase := if effectiveKeep then .head else .ended }
      | _ => none
  | c, .throw =>
      match c.phase with
      | .takenOver _ | .ended => none
      | _ => some { c with phase := .ended }
  | c, .shutDown => if c.server = .running then some { c with server := .shuttingDown } else none
  | c, .stop => some { c with server := .stopped }

/-- The connections that the schedules lead to. -/
def connections : System Connection := Labelled.system (step lim) fun c => c = {}

end ServerLoop
