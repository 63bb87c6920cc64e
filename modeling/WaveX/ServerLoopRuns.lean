import WaveX.ServerLoop

/-! # Runs of a server connection

    However the bytes of a client arrive, none of them is lost and none is parsed twice: what
    was received falls into the requests, in order, and the bytes that are still unread.  Every
    request is answered once, in order.

    When no request ends open, where the reads cut the bytes makes no difference: the answers
    are those of a server that parses all the bytes at once. -/

namespace ServerLoop

open QuicVarInt HttpText Http1Codec Http1ChunkProgress Http1RequestArrival List

/-! ## Refusals are stable -/

variable {p w rest : Bytes} {lim : Limits}

theorem headerLoop_error_append {fuel more c : Nat} {headers : List Header}
    (h : headerLoop p fuel c headers = .error) (q : Bytes) (hle : fuel ≤ more) :
    headerLoop (p ++ q) more c headers = .error := by
  induction fuel generalizing more c headers with
  | zero => cases h
  | succ fuel ih =>
    obtain ⟨more, rfl⟩ := Nat.exists_eq_succ_of_ne_zero (show more ≠ 0 by omega)
    rw [headerLoop] at h ⊢
    split at h
    next => cases h
    next => cases h
    next line next hline hfind =>
      rw [findNextLine_append hfind q]
      cases line with
      | nil => exact absurd rfl hline
      | cons b line =>
        dsimp only
        split at h
        next => rfl
        next => exact ih h (Nat.le_of_succ_le_succ hle)

theorem chunkLoop_error {fuel c : Nat} (h : chunkLoop p fuel c = some .error) :
    ∃ c', Reaches p c c' ∧ c' < p.length ∧ chunkTurn p c' = .invalid := by
  induction fuel generalizing c with
  | zero => cases h
  | succ fuel ih =>
    by_cases hnext : ∃ c', Iterates p c c'
    · obtain ⟨c', hiter⟩ := hnext
      rw [hiter.chunkLoop] at h
      obtain ⟨last, hreach, hlast⟩ := ih h
      exact ⟨last, .head hiter hreach, hlast⟩
    · rw [chunkLoop] at h
      split at h
      next hc =>
        cases hturn : chunkTurn p c with
        | invalid => exact ⟨c, .refl, hc, hturn⟩
        | blank next => exact absurd ⟨next, hc, by rw [hturn]; rfl⟩ hnext
        | chunk data next => exact absurd ⟨next, hc, by rw [hturn]; rfl⟩ hnext
        | _ =>
          rw [hturn] at h
          cases h
      next => cases h

theorem chunkTurn_invalid_append {c : Nat} (h : chunkTurn p c = .invalid) (q : Bytes) :
    chunkTurn (p ++ q) c = .invalid := by
  obtain ⟨-, hturn⟩ | ⟨line, next, hfind, ⟨-, hturn⟩ | ⟨hsized, hread, -⟩⟩ | ⟨size, next, hline⟩ :=
    chunkTurn_cases p c
  · exact nomatch hturn.symm.trans h
  · exact nomatch hturn.symm.trans h
  · rw [chunkTurn, findNextLine_append hfind q]
    dsimp only
    rw [if_neg hsized, hread]
  · rw [hline.chunkTurn] at h
    split at h
    · cases h
    · split at h
      · cases h
      · cases h

theorem extractChunkedBody_error_append {start : Nat}
    (h : extractChunkedBody p start = some .error) (q : Bytes) :
    extractChunkedBody (p ++ q) start = some .error := by
  rw [extractChunkedBody, Option.map_eq_some_iff] at h
  obtain ⟨o, hloop, ho⟩ := h
  cases o with
  | success u n => cases ho
  | incomplete => cases ho
  | error =>
    obtain ⟨c, hreach, hc, hturn⟩ := chunkLoop_error hloop
    have hsome : ∃ fuel, chunkLoop (p ++ q) fuel start = some .error := by
      have hlonger := reaches_append hreach hc q
      have hturn := chunkTurn_invalid_append hturn q
      have hc : c < (p ++ q).length := by
        rw [length_append]
        omega
      clear hloop ho hreach
      induction hlonger using Relation.ReflTransGen.head_induction_on with
      | refl => exact ⟨1, by rw [chunkLoop, if_pos hc, hturn]⟩
      | head hiter _ ih =>
        obtain ⟨fuel, hfuel⟩ := ih
        exact ⟨fuel + 1, by rw [hiter.chunkLoop, hfuel]⟩
    obtain ⟨fuel, hfuel⟩ := hsome
    rw [extractChunkedBody, chunkLoop_enough hfuel]
    rfl

/-- What the parser refuses it refuses whatever bytes follow. -/
theorem parseRequest_error_append (h : parseRequest p = some .error) (q : Bytes) :
    parseRequest (p ++ q) = some .error := by
  rw [parseRequest] at h ⊢
  split at h
  next => cases h
  next rl next hfind =>
    rw [findNextLine_append hfind q]
    dsimp only
    split at h
    next => rfl
    next method target major minor hline =>
      split at h
      next => cases h
      next hheaders =>
        have hfuel : p.length ≤ (p ++ q).length := by
          rw [length_append]
          exact Nat.le_add_right _ _
        rw [parseHeaders, headerLoop_error_append hheaders q hfuel]
      next headers cursor hheaders =>
        have hat := parseHeaders_eq_success.mp hheaders
        rw [parseHeaders_eq_success.mpr (hat.append q)]
        dsimp only
        rw [Option.map_eq_some_iff] at h ⊢
        obtain ⟨o, hbody, ho⟩ := h
        cases o with
        | success body n => cases ho
        | incomplete => cases ho
        | error =>
          refine ⟨.error, ?_, rfl⟩
          by_cases hchunked : isChunked headers = true
          · rw [extractBody_chunked hchunked] at hbody ⊢
            exact extractChunkedBody_error_append hbody q
          · rw [extractBody, if_neg hchunked] at hbody ⊢
            rw [contentLength_fixed (.inl rfl) _ (p.length - cursor)]
            split at hbody
            next => rfl
            next n hlength =>
              split at hbody
              next => cases hbody
              next => cases hbody

/-! ## Bytes and requests -/

variable {reqs : List Request} {req : Request} {n : Nat} {P : Bytes → Prop}

/-- The bytes fall into requests, each parsed from the bytes that had arrived of what the ones
    before it left, and a rest.  `P` holds of what was parsed. -/
inductive Splits (P : Bytes → Prop) : Bytes → List Request → Bytes → Prop
  | done (w : Bytes) : Splits P w [] w
  | request {w p q rest : Bytes} {req : Request} {n : Nat} {reqs : List Request}
      (hw : w = p ++ q) (hP : P p) (hparse : parseRequest p = some (.success req n))
      (hrest : Splits P (w.drop n) reqs rest) : Splits P w (req :: reqs) rest

theorem parseRequest_consumed (h : parseRequest p = some (.success req n)) : n ≤ p.length := by
  obtain ⟨rl, next, start, -, -, hheaders, hbody⟩ := parseRequest_eq_success.mp h
  have hstart := hheaders.bounds.2
  by_cases hchunked : isChunked req.headers = true
  · rw [extractBody_chunked hchunked] at hbody
    obtain ⟨c, last, hlast⟩ := extract_lastChunk hbody
    rw [hlast.extract] at hbody
    obtain ⟨-, hn⟩ := Outcome.success.inj (Option.some.inj hbody)
    rw [← hn]
    exact afterLast_le (chunkTurn_last_le hlast.turn)
  · rw [extractBody, if_neg hchunked] at hbody
    split at hbody
    next => cases hbody
    next len hlength =>
      split at hbody
      next => cases hbody
      next hroom =>
        obtain ⟨-, hn⟩ := Outcome.success.inj (Option.some.inj hbody)
        omega

/-- More bytes are more of the rest. -/
theorem Splits.append (h : Splits P w reqs rest) (x : Bytes) :
    Splits P (w ++ x) reqs (rest ++ x) := by
  induction h with
  | done w => exact .done _
  | @request w p q rest req n reqs hw hP hparse hrest ih =>
    have hle : n ≤ w.length := by
      have := parseRequest_consumed hparse
      rw [hw, length_append]
      omega
    refine .request (p := p) (q := q ++ x) ?_ hP hparse ?_
    · rw [hw, append_assoc]
    · rw [drop_append_of_le_length hle]
      exact ih

/-- One more request. -/
theorem Splits.snoc (h : Splits P w reqs rest) {q : Bytes} (hrest : rest = p ++ q) (hP : P p)
    (hparse : parseRequest p = some (.success req n)) :
    Splits P w (reqs ++ [req]) (rest.drop n) := by
  induction h with
  | done w => exact .request hrest hP hparse (.done _)
  | request hw hP' hparse' _ ih => exact .request hw hP' hparse' (ih hrest)

/-! ## The invariant -/

/-- The request that an answer is for. -/
def Sent.request? : Sent → Option Request
  | .response req | .limitsExceeded req => some req
  | .badRequest | .payloadTooLarge => none

/-- The requests that were answered. -/
def Connection.answered (c : Connection) : List Request := c.sent.filterMap Sent.request?

/-- The bytes that belong to no answered request. -/
def Connection.unread (c : Connection) : Bytes :=
  match c.phase with
  | .takenOver unread => unread
  | _ => c.unconsumed

/-- The connection is kept after the requests so far. -/
def Kept (lim : Limits) (c : Connection) : Prop :=
  c.requestCount = c.answered.length ∧
    (c.requestCount = 0 ∨ c.requestCount < lim.maxKeepAliveRequests)

/-- Only the last thing that was sent answers no request, and it is an end. -/
def Answers (c : Connection) : Prop :=
  (∀ e ∈ c.sent, e.request?.isSome = true) ∨
    c.phase = .ended ∧ ∃ answers e, c.sent = answers ++ [e] ∧ e.request? = none ∧
      ∀ a ∈ answers, a.request?.isSome = true

/-- What a phase says about the buffer and the number of requests. -/
def Stage (lim : Limits) (P : Bytes → Prop) (c : Connection) : Phase → Prop
  | .head => Kept lim c
  | .idle => c.streamBufConsumed = 0 ∧ c.streamBuf = [] ∧ Kept lim c
  | .more =>
      c.streamBufConsumed = 0 ∧ parseRequest c.streamBuf = some .incomplete ∧ Kept lim c
  | .handling req n keep =>
      c.streamBufConsumed = 0 ∧ P c.streamBuf ∧
        parseRequest c.streamBuf = some (.success req n) ∧
        keep = keepAlive lim req c.requestCount ∧ exceedsLimits lim req = false ∧
        c.requestCount = c.answered.length + 1 ∧
        c.requestCount ≤ max 1 lim.maxKeepAliveRequests
  | .takenOver _ | .ended => True

structure Inv (lim : Limits) (P : Bytes → Prop) (c : Connection) : Prop where
  splits : Splits P c.received c.answered c.unread
  within : c.streamBufConsumed ≤ c.streamBuf.length
  bound : c.answered.length ≤ max 1 lim.maxKeepAliveRequests
  stage : Stage lim P c c.phase
  answers : Answers c

/-- A connection whose buffer is about to be parsed. -/
structure Ready (lim : Limits) (P : Bytes → Prop) (c : Connection) : Prop where
  front : c.streamBufConsumed = 0
  splits : Splits P c.received c.answered c.streamBuf
  kept : Kept lim c
  answers : ∀ e ∈ c.sent, e.request?.isSome = true

variable {c c' : Connection}

theorem Kept.bound (h : Kept lim c) : c.answered.length ≤ max 1 lim.maxKeepAliveRequests := by
  obtain ⟨hcount, hless⟩ := h
  omega

theorem Ready.unconsumed (h : Ready lim P c) : c.unconsumed = c.streamBuf := by
  rw [Connection.unconsumed, h.front, drop_zero]

theorem consume_unconsumed (c : Connection) (n : Nat) :
    (c.consume n).unconsumed = c.unconsumed.drop n := by
  simp only [Connection.consume]
  split
  next =>
    rw [Connection.unconsumed, Connection.unconsumed, drop_zero, drop_drop]
  next =>
    split
    next hall =>
      rw [Connection.unconsumed, Connection.unconsumed, drop_drop, hall, drop_length,
        drop_nil]
    next => rw [Connection.unconsumed, Connection.unconsumed, drop_drop]

theorem consume_within (hn : c.streamBufConsumed + n ≤ c.streamBuf.length) :
    (c.consume n).streamBufConsumed ≤ (c.consume n).streamBuf.length := by
  simp only [Connection.consume]
  split
  next => exact Nat.zero_le _
  next =>
    split
    next => exact Nat.zero_le _
    next => exact hn

/-- Nothing but the buffer changes when bytes are done with. -/
theorem consume_rest (c : Connection) (n : Nat) :
    (c.consume n).received = c.received ∧ (c.consume n).sent = c.sent ∧
      (c.consume n).requestCount = c.requestCount ∧ (c.consume n).server = c.server := by
  simp only [Connection.consume]
  split
  next => exact ⟨rfl, rfl, rfl, rfl⟩
  next =>
    split
    next => exact ⟨rfl, rfl, rfl, rfl⟩
    next => exact ⟨rfl, rfl, rfl, rfl⟩

/-- A connection that goes to its head or ends, all of whose answers are for requests. -/
theorem inv_of_head {keep : Bool} (hsplits : Splits P c.received c.answered c.unconsumed)
    (hwithin : c.streamBufConsumed ≤ c.streamBuf.length)
    (hcount : c.requestCount = c.answered.length)
    (hbound : c.requestCount ≤ max 1 lim.maxKeepAliveRequests)
    (hkeep : keep = true → c.requestCount < lim.maxKeepAliveRequests)
    (hanswers : ∀ e ∈ c.sent, e.request?.isSome = true) :
    Inv lim P { c with phase := if keep then .head else .ended } := by
  have hunread : Connection.unread { c with phase := if keep then .head else .ended } =
      c.unconsumed := by
    cases keep <;> rfl
  refine
    { splits := ?_, within := hwithin, bound := hcount ▸ hbound, stage := ?_,
      answers := .inl hanswers }
  · rw [hunread]
    exact hsplits
  · cases keep with
    | true => exact ⟨hcount, .inr (hkeep rfl)⟩
    | false => trivial

theorem Ready.fail (h : Ready lim P c) {e : Sent} (he : e.request? = none) :
    Inv lim P (c.fail e) := by
  have hanswered : (c.fail e).answered = c.answered := by
    simp only [Connection.answered, Connection.fail, filterMap_append, filterMap_cons,
      he, filterMap_nil, append_nil]
  refine
    { splits := ?_, within := ?_, bound := ?_, stage := trivial,
      answers := .inr ⟨rfl, c.sent, e, rfl, he, h.answers⟩ }
  · rw [hanswered]
    change Splits P c.received c.answered c.unconsumed
    rw [h.unconsumed]
    exact h.splits
  · change c.streamBufConsumed ≤ c.streamBuf.length
    rw [h.front]
    exact Nat.zero_le _
  · rw [hanswered]
    exact h.kept.bound

theorem keepAlive_lt {count : Nat} (h : keepAlive lim req count = true) :
    count < lim.maxKeepAliveRequests := by
  rw [keepAlive, Bool.and_eq_true, decide_eq_true_iff] at h
  exact h.2

/-- One more answer. -/
theorem answered_concat {e : Sent} (he : e.request? = some req) (server : ServerState)
    (buf : Bytes) (consumed count : Nat) (phase : Phase) (received : Bytes) (sent : List Sent) :
    Connection.answered
        { server, streamBuf := buf, streamBufConsumed := consumed, requestCount := count, phase,
          received, sent := sent ++ [e] } = sent.filterMap Sent.request? ++ [req] := by
  simp only [Connection.answered, filterMap_append, filterMap_cons, he,
    filterMap_nil]

theorem answers_concat {e : Sent} {sent : List Sent} (he : e.request? = some req)
    (h : ∀ e ∈ sent, e.request?.isSome = true) :
    ∀ e' ∈ sent ++ [e], e'.request?.isSome = true := by
  intro e' he'
  rcases mem_append.mp he' with hmem | hlast
  · exact h e' hmem
  · rw [mem_singleton.mp hlast, he]
    rfl

/-- An answer to the request at the front of the buffer. -/
theorem inv_of_answer {e : Sent} {k : Bool} (hfront : c.streamBufConsumed = 0)
    (hsplits : Splits P c.received c.answered c.streamBuf)
    (hP : P c.streamBuf) (hparse : parseRequest c.streamBuf = some (.success req n))
    (hcount : c.requestCount = c.answered.length + 1)
    (hbound : c.requestCount ≤ max 1 lim.maxKeepAliveRequests)
    (hkeep : k = true → c.requestCount < lim.maxKeepAliveRequests)
    (hanswers : ∀ e ∈ c.sent, e.request?.isSome = true) (he : e.request? = some req) :
    Inv lim P { Connection.consume { c with sent := c.sent ++ [e] } n with
      phase := if k then .head else .ended } := by
  have hn := parseRequest_consumed hparse
  have hfits : c.streamBufConsumed + n ≤ c.streamBuf.length := by omega
  obtain ⟨hreceived, hsent, hrequests, -⟩ := consume_rest { c with sent := c.sent ++ [e] } n
  have hanswered : (Connection.consume { c with sent := c.sent ++ [e] } n).answered =
      c.answered ++ [req] := by
    rw [Connection.answered, hsent]
    exact answered_concat he c.server c.streamBuf 0 0 c.phase c.received c.sent
  have hrest : (Connection.consume { c with sent := c.sent ++ [e] } n).unconsumed =
      c.streamBuf.drop n := by
    refine (consume_unconsumed { c with sent := c.sent ++ [e] } n).trans ?_
    rw [Connection.unconsumed]
    dsimp only
    rw [hfront, drop_zero]
  refine inv_of_head ?_ (consume_within hfits) ?_ ?_ ?_ ?_
  · rw [hreceived, hanswered, hrest]
    exact hsplits.snoc (append_nil _).symm hP hparse
  · rw [hrequests, hanswered, length_append]
    exact hcount
  · rw [hrequests]
    exact hbound
  · rw [hrequests]
    exact hkeep
  · rw [hsent]
    exact answers_concat he hanswers

/-- What follows `parse_stream` keeps the invariant. -/
theorem Ready.parse (h : Ready lim P c)
    (hP : ∀ req n, parseRequest c.streamBuf = some (.success req n) → P c.streamBuf)
    (hstep : c.parse lim = some c') : Inv lim P c' := by
  rw [Connection.parse, h.unconsumed] at hstep
  obtain ⟨hcount, hless⟩ := h.kept
  cases hparse : parseRequest c.streamBuf with
  | none =>
    rw [hparse] at hstep
    exact nomatch hstep
  | some o =>
    rw [hparse] at hstep
    cases o with
    | incomplete =>
      rw [Connection.parsed] at hstep
      split at hstep
      next =>
        cases hstep
        exact h.fail rfl
      next =>
        cases hstep
        refine
          { splits := ?_, within := ?_, bound := h.kept.bound,
            stage := ⟨h.front, hparse, hcount, hless⟩, answers := .inl h.answers }
        · change Splits P c.received c.answered c.unconsumed
          rw [h.unconsumed]
          exact h.splits
        · dsimp only
          rw [h.front]
          exact Nat.zero_le _
    | error =>
      cases hstep
      exact h.fail rfl
    | success req n =>
      have hPbuf := hP req n hparse
      have hbound : c.requestCount + 1 ≤ max 1 lim.maxKeepAliveRequests := by omega
      simp only [Connection.parsed] at hstep
      split at hstep
      next hexceeds =>
        cases hstep
        exact inv_of_answer (c := { c with requestCount := c.requestCount + 1 }) h.front h.splits
          hPbuf hparse (congrArg (· + 1) hcount) hbound keepAlive_lt h.answers rfl
      next hexceeds =>
        cases hstep
        refine
          { splits := ?_, within := ?_, bound := h.kept.bound,
            stage := ⟨h.front, hPbuf, hparse, rfl, Bool.eq_false_iff.mpr hexceeds,
              congrArg (· + 1) hcount, hbound⟩
            answers := .inl h.answers }
        · change Splits P c.received c.answered c.unconsumed
          rw [h.unconsumed]
          exact h.splits
        · dsimp only
          rw [h.front]
          exact Nat.zero_le _

/-! ## One step -/

/-- The bytes that a step parses. -/
def viewed (c : Connection) : Action → Bytes
  | .read bytes => c.streamBuf ++ bytes
  | _ => c.unconsumed

/-- The condition under which a step parses only what `P` holds of. -/
def Parses (P : Bytes → Prop) (c : Connection) (a : Action) : Prop :=
  ∀ req n, parseRequest (viewed c a) = some (.success req n) → P (viewed c a)

theorem Answers.all (h : Answers c) (hlive : c.phase ≠ .ended) :
    ∀ e ∈ c.sent, e.request?.isSome = true := by
  rcases h with hall | ⟨hended, -⟩
  · exact hall
  · exact absurd hended hlive

/-- The buffer of a connection that reads, with what the read gave. -/
theorem ready_of_read (hsplits : Splits P c.received c.answered c.streamBuf)
    (hfront : c.streamBufConsumed = 0) (hkept : Kept lim c)
    (hanswers : ∀ e ∈ c.sent, e.request?.isSome = true) (bytes : Bytes) :
    Ready lim P (c.receive bytes) where
  front := hfront
  splits := hsplits.append bytes
  kept := hkept
  answers := hanswers

theorem Inv.start (h : Inv lim P c) (hphase : c.phase = .head) (hP : Parses P c .proceed)
    (hstep : c.start lim = some c') : Inv lim P c' := by
  have hsplits := h.splits
  have hunread : c.unread = c.unconsumed := by rw [Connection.unread, hphase]
  rw [hunread] at hsplits
  have hstage := h.stage
  rw [hphase] at hstage
  have hanswers := h.answers.all (by rw [hphase]; exact Phase.noConfusion)
  rw [Connection.start] at hstep
  split at hstep
  next =>
    cases hstep
    exact { splits := hsplits, within := h.within, bound := h.bound, stage := trivial,
            answers := .inl hanswers }
  next =>
    dsimp only at hstep
    split at hstep
    next hempty =>
      cases hstep
      have hunread' (phase : Phase) (hphase' : phase = .ended ∨ phase = .idle) :
          Connection.unread { c with streamBuf := c.unconsumed, streamBufConsumed := 0, phase } =
            c.unconsumed := by
        rcases hphase' with rfl | rfl <;> rfl
      split
      next =>
        refine
          { splits := ?_, within := Nat.zero_le _, bound := h.bound, stage := trivial,
            answers := .inl hanswers }
        rw [hunread' _ (.inl rfl)]
        exact hsplits
      next =>
        refine
          { splits := ?_, within := Nat.zero_le _, bound := h.bound,
            stage := ⟨rfl, hempty, hstage⟩, answers := .inl hanswers }
        rw [hunread' _ (.inr rfl)]
        exact hsplits
    next =>
      have hready : Ready lim P { c with streamBuf := c.unconsumed, streamBufConsumed := 0 } :=
        { front := rfl, splits := hsplits, kept := hstage, answers := hanswers }
      exact hready.parse hP hstep

theorem Inv.server (h : Inv lim P c) (server : ServerState) : Inv lim P { c with server } := by
  have hstage := h.stage
  refine { splits := h.splits, within := h.within, bound := h.bound, stage := ?_,
           answers := h.answers }
  dsimp only
  cases hphase : c.phase with
  | takenOver unread => trivial
  | ended => trivial
  | _ =>
    rw [hphase] at hstage
    exact hstage

/-- A step keeps the invariant, as long as it parses only what `P` holds of. -/
theorem Inv.step {a : Action} (hP : Parses P c a) (hstep : step lim c a = some c')
    (h : Inv lim P c) : Inv lim P c' := by
  have hsplits := h.splits
  have hstage := h.stage
  cases a with
  | proceed =>
    rw [ServerLoop.step] at hstep
    split at hstep
    next hphase => exact h.start hphase hP hstep
    next => exact nomatch hstep
  | read bytes =>
    rw [ServerLoop.step] at hstep
    split at hstep
    next => exact nomatch hstep
    next =>
      split at hstep
      next hphase =>
        rw [hphase] at hstage
        obtain ⟨hfront, hempty, hkept⟩ := hstage
        have hunread : c.unread = c.streamBuf := by
          rw [Connection.unread, hphase, Connection.unconsumed, hfront, drop_zero]
        rw [hunread] at hsplits
        have hanswers := h.answers.all (by rw [hphase]; exact Phase.noConfusion)
        exact (ready_of_read hsplits hfront hkept hanswers bytes).parse hP hstep
      next hphase =>
        rw [hphase] at hstage
        obtain ⟨hfront, -, hkept⟩ := hstage
        have hunread : c.unread = c.streamBuf := by
          rw [Connection.unread, hphase, Connection.unconsumed, hfront, drop_zero]
        rw [hunread] at hsplits
        have hanswers := h.answers.all (by rw [hphase]; exact Phase.noConfusion)
        have hready := ready_of_read hsplits hfront hkept hanswers bytes
        dsimp only at hstep
        split at hstep
        next =>
          cases hstep
          exact hready.fail rfl
        next => exact hready.parse hP hstep
      next => exact nomatch hstep
  | readFailed =>
    rw [ServerLoop.step] at hstep
    split at hstep
    next hphase =>
      cases hstep
      have hunread : c.unread = c.unconsumed := by rw [Connection.unread, hphase]
      rw [hunread] at hsplits
      exact { splits := hsplits, within := h.within, bound := h.bound, stage := trivial,
              answers := .inl (h.answers.all (by rw [hphase]; exact Phase.noConfusion)) }
    next hphase =>
      cases hstep
      have hunread : c.unread = c.unconsumed := by rw [Connection.unread, hphase]
      rw [hunread] at hsplits
      exact { splits := hsplits, within := h.within, bound := h.bound, stage := trivial,
              answers := .inl (h.answers.all (by rw [hphase]; exact Phase.noConfusion)) }
    next => exact nomatch hstep
  | handled takeover =>
    rw [ServerLoop.step] at hstep
    split at hstep
    next req n keep hphase =>
      rw [hphase] at hstage
      obtain ⟨hfront, hPbuf, hparse, hkeep, -, hcount, hbound⟩ := hstage
      have hunread : c.unread = c.streamBuf := by
        rw [Connection.unread, hphase, Connection.unconsumed, hfront, drop_zero]
      rw [hunread] at hsplits
      have hanswers := h.answers.all (by rw [hphase]; exact Phase.noConfusion)
      dsimp only at hstep
      split at hstep
      next =>
        cases hstep
        -- the handler took the connection over: the loop ends behind its answer
        have hended := inv_of_answer (e := .response req) (k := false) hfront hsplits hPbuf
          hparse hcount hbound Bool.noConfusion hanswers rfl
        obtain ⟨-, hsent, -, -⟩ := consume_rest { c with sent := c.sent ++ [.response req] } n
        refine { splits := hended.splits, within := hended.within, bound := hended.bound,
                 stage := trivial, answers := .inl ?_ }
        dsimp only
        rw [hsent]
        exact answers_concat rfl hanswers
      next =>
        cases hstep
        refine inv_of_answer hfront hsplits hPbuf hparse hcount hbound ?_ hanswers rfl
        intro heffective
        rw [Bool.and_eq_true] at heffective
        exact keepAlive_lt (hkeep ▸ heffective.1)
    next => exact nomatch hstep
  | throw =>
    rw [ServerLoop.step] at hstep
    split at hstep
    next => exact nomatch hstep
    next => exact nomatch hstep
    next hopen hlive =>
      cases hstep
      -- only a closed connection has other bytes left
      have hunread : c.unread = c.unconsumed := by
        rw [Connection.unread]
        split
        next unread hphase => exact absurd hphase (hopen unread)
        next => rfl
      rw [hunread] at hsplits
      exact { splits := hsplits, within := h.within, bound := h.bound, stage := trivial,
              answers := .inl (h.answers.all hlive) }
  | shutDown =>
    rw [ServerLoop.step] at hstep
    split at hstep
    next =>
      cases hstep
      exact h.server _
    next => exact nomatch hstep
  | stop =>
    cases hstep
    exact h.server _

/-! ## Every run -/

theorem inv_initial : Inv lim P {} where
  splits := .done []
  within := Nat.le_refl 0
  bound := Nat.zero_le _
  stage := ⟨rfl, .inl rfl⟩
  answers := .inl fun _ he => absurd he not_mem_nil

theorem parseRequest_nil : parseRequest [] = some .incomplete := rfl

/-- Whatever the reads, the handlers and a shutdown do: the bytes received fall into the
    requests that were answered, in order, and the unread ones, which are all that another
    protocol gets; nothing but an answer to a request is sent unless it ends the connection;
    there are no more answers than the limit allows; and the connection waits for bytes only
    when no request is complete. -/
theorem received_split (h : (connections lim).Reachable c) :
    Splits (fun _ => True) c.received c.answered c.unread ∧ Answers c ∧
      c.answered.length ≤ max 1 lim.maxKeepAliveRequests ∧
      (c.phase = .idle ∨ c.phase = .more → parseRequest c.unread = some .incomplete) := by
  obtain ⟨c₀, as, rfl, hrun⟩ := Labelled.reachable_iff.mp h
  have hinv : Inv lim (fun _ => True) c :=
    Labelled.run_invariant (fun hstep hinv => Inv.step (fun _ _ _ => trivial) hstep hinv) hrun
      inv_initial
  have hstage := hinv.stage
  refine ⟨hinv.splits, hinv.answers, hinv.bound, ?_⟩
  rintro (hphase | hphase)
  · rw [hphase] at hstage
    obtain ⟨hfront, hempty, -⟩ := hstage
    have hunread : c.unread = [] := by
      rw [Connection.unread, hphase, Connection.unconsumed, hempty, drop_nil]
    rw [hunread]
    exact parseRequest_nil
  · rw [hphase] at hstage
    obtain ⟨hfront, hparse, -⟩ := hstage
    have hunread : c.unread = c.streamBuf := by
      rw [Connection.unread, hphase, Connection.unconsumed, hfront, drop_zero]
    rw [hunread]
    exact hparse

/-- A first request, cut in two by the reads. -/
def firstCut : Bytes := text "GET / HT"

def secondCut : Bytes := text "TP/1.1\r\n\r\n"

/-- The connection after it, with nothing more to read. -/
def afterGet : Connection :=
  { requestCount := 1, phase := .idle, received := firstCut ++ secondCut,
    sent := [.response { method := .get, target := text "/" }] }

/-- The schedule of its reads. -/
def getSchedule : List Action :=
  [.proceed, .read firstCut, .read secondCut, .handled false, .proceed]

theorem run_getSchedule : Labelled.run (step {}) {} getSchedule = some afterGet := by decide

theorem received_split_get :
    Splits (fun _ => True) afterGet.received afterGet.answered afterGet.unread ∧
      Answers afterGet ∧ afterGet.answered.length ≤ max 1 1000 ∧
      (afterGet.phase = .idle ∨ afterGet.phase = .more →
        parseRequest afterGet.unread = some .incomplete) :=
  received_split (Labelled.reachable_iff.mpr ⟨{}, getSchedule, rfl, run_getSchedule⟩)

/-! ## All the bytes at once -/

/-- The answer to a request. -/
def answer (lim : Limits) (req : Request) : Sent :=
  if exceedsLimits lim req then .limitsExceeded req else .response req

/-- What a server sends that has all the bytes of the client from the start, with the number
    of requests so far, and whether it keeps the connection. -/
inductive Serves (lim : Limits) : Nat → Bytes → List Sent → Bool → Prop
  | waiting {k : Nat} {w : Bytes} (hparse : parseRequest w = some .incomplete) :
      Serves lim k w [] true
  | refused {k : Nat} {w : Bytes} (hparse : parseRequest w = some .error) :
      Serves lim k w [.badRequest] false
  | last {k : Nat} {w : Bytes} {req : Request} {n : Nat}
      (hparse : parseRequest w = some (.success req n))
      (hkeep : keepAlive lim req (k + 1) = false) : Serves lim k w [answer lim req] false
  | next {k : Nat} {w : Bytes} {req : Request} {n : Nat} {sent : List Sent} {keep : Bool}
      (hparse : parseRequest w = some (.success req n))
      (hkeep : keepAlive lim req (k + 1) = true)
      (hrest : Serves lim (k + 1) (w.drop n) sent keep) :
      Serves lim k w (answer lim req :: sent) keep

/-- There is only one thing to send. -/
theorem Serves.unique {k : Nat} {sent sent' : List Sent} {keep keep' : Bool}
    (h : Serves lim k w sent keep) (h' : Serves lim k w sent' keep') :
    sent = sent' ∧ keep = keep' := by
  induction h generalizing sent' keep' with
  | waiting hparse =>
    cases h' with
    | waiting _ => exact ⟨rfl, rfl⟩
    | refused hparse' => cases hparse.symm.trans hparse'
    | last hparse' _ => cases hparse.symm.trans hparse'
    | next hparse' _ _ => cases hparse.symm.trans hparse'
  | refused hparse =>
    cases h' with
    | waiting hparse' => cases hparse.symm.trans hparse'
    | refused _ => exact ⟨rfl, rfl⟩
    | last hparse' _ => cases hparse.symm.trans hparse'
    | next hparse' _ _ => cases hparse.symm.trans hparse'
  | last hparse hkeep =>
    cases h' with
    | waiting hparse' => cases hparse.symm.trans hparse'
    | refused hparse' => cases hparse.symm.trans hparse'
    | last hparse' _ =>
      cases hparse.symm.trans hparse'
      exact ⟨rfl, rfl⟩
    | next hparse' hkeep' _ =>
      cases hparse.symm.trans hparse'
      cases hkeep.symm.trans hkeep'
  | next hparse hkeep _ ih =>
    cases h' with
    | waiting hparse' => cases hparse.symm.trans hparse'
    | refused hparse' => cases hparse.symm.trans hparse'
    | last hparse' hkeep' =>
      cases hparse.symm.trans hparse'
      cases hkeep.symm.trans hkeep'
    | next hparse' _ hrest' =>
      cases hparse.symm.trans hparse'
      obtain ⟨rfl, rfl⟩ := ih hrest'
      exact ⟨rfl, rfl⟩

/-- The answers so far, to requests that stay the same whatever bytes follow. -/
inductive Served (lim : Limits) : Nat → Bytes → List Sent → Nat → Bytes → Prop
  | refl (k : Nat) (w : Bytes) : Served lim k w [] k w
  | next {k k' : Nat} {w rest : Bytes} {req : Request} {n : Nat} {sent : List Sent}
      (hparse : ∀ q, parseRequest (w ++ q) = some (.success req n)) (hn : n ≤ w.length)
      (hkeep : keepAlive lim req (k + 1) = true)
      (hrest : Served lim (k + 1) (w.drop n) sent k' rest) :
      Served lim k w (answer lim req :: sent) k' rest

variable {k k' : Nat} {sent sent' : List Sent}

theorem Served.append (h : Served lim k w sent k' rest) (x : Bytes) :
    Served lim k (w ++ x) sent k' (rest ++ x) := by
  induction h with
  | refl k w => exact .refl k _
  | @next k k' w rest req n sent hparse hn hkeep _ ih =>
    have hparse' (q : Bytes) : parseRequest (w ++ x ++ q) = some (.success req n) := by
      rw [append_assoc]
      exact hparse _
    refine .next hparse' ?_ hkeep ?_
    · rw [length_append]
      omega
    · rw [drop_append_of_le_length hn]
      exact ih

theorem Served.trans {k'' : Nat} {rest' : Bytes} (h : Served lim k w sent k' rest)
    (h' : Served lim k' rest sent' k'' rest') : Served lim k w (sent ++ sent') k'' rest' := by
  induction h with
  | refl k w => exact h'
  | next hparse hn hkeep _ ih => exact .next hparse hn hkeep (ih h')

theorem Served.serves {keep : Bool} (h : Served lim k w sent k' rest)
    (h' : Serves lim k' rest sent' keep) : Serves lim k w (sent ++ sent') keep := by
  induction h with
  | refl k w => exact h'
  | @next k k' w rest req n sent hparse hn hkeep _ ih =>
    have hnow := hparse []
    rw [append_nil] at hnow
    exact .next hnow hkeep (ih h')

/-- What was parsed stays the same whatever bytes follow. -/
def Stable (p : Bytes) : Prop := ¬ EndsOpen p ∧ p.length < 2 ^ 64

theorem Stable.success (h : Stable p) (hparse : parseRequest p = some (.success req n))
    (q : Bytes) : parseRequest (p ++ q) = some (.success req n) :=
  (request_stable_iff h.2 hparse).mpr h.1 q

/-- A step of a connection that is left to work: reads give bytes within the limit, handlers
    answer, and no request that is parsed ends open. -/
def Settled (lim : Limits) (c : Connection) (a : Action) : Prop :=
  (a = .proceed ∨ a = .handled false ∨
    ∃ bytes, a = .read bytes ∧
      (lim.maxRequestSize = 0 ∨ (c.streamBuf ++ bytes).length ≤ lim.maxRequestSize)) ∧
    Parses Stable c a

/-- What was sent, against the server that has all the bytes. -/
def Sequential (lim : Limits) (c : Connection) : Prop :=
  c.server = .running ∧
    match c.phase with
    | .handling _ _ _ =>
        ∃ k, c.requestCount = k + 1 ∧ Served lim 0 c.received c.sent k c.unconsumed
    | .takenOver _ => False
    | .ended => ∀ q, Serves lim 0 (c.received ++ q) c.sent false
    | _ => Served lim 0 c.received c.sent c.requestCount c.unconsumed

/-- The last answer of a connection that is not kept. -/
theorem Served.last (h : Served lim k w sent k' rest) (hstable : Stable rest)
    (hparse : parseRequest rest = some (.success req n))
    (hkeep : keepAlive lim req (k' + 1) = false) (q : Bytes) :
    Serves lim k (w ++ q) (sent ++ [answer lim req]) false :=
  (h.append q).serves (.last (hstable.success hparse q) hkeep)

/-- One more answer of a connection that is kept. -/
theorem Served.snoc (h : Served lim k w sent k' rest) (hstable : Stable rest)
    (hparse : parseRequest rest = some (.success req n))
    (hkeep : keepAlive lim req (k' + 1) = true) :
    Served lim k w (sent ++ [answer lim req]) (k' + 1) (rest.drop n) :=
  h.trans (.next (fun q => hstable.success hparse q) (parseRequest_consumed hparse) hkeep
    (.refl _ _))

/-- An answer to the request at the front of the buffer. -/
theorem sequential_of_answer (hrunning : c.server = .running) (hfront : c.streamBufConsumed = 0)
    (hserved : Served lim 0 c.received c.sent k c.streamBuf) (hcount : c.requestCount = k + 1)
    (hstable : Stable c.streamBuf) (hparse : parseRequest c.streamBuf = some (.success req n)) :
    Sequential lim { Connection.consume { c with sent := c.sent ++ [answer lim req] } n with
      phase := if keepAlive lim req c.requestCount then .head else .ended } := by
  obtain ⟨hreceived, hsent, hrequests, hserver⟩ :=
    consume_rest { c with sent := c.sent ++ [answer lim req] } n
  have hrest := consume_unconsumed { c with sent := c.sent ++ [answer lim req] } n
  generalize Connection.consume { c with sent := c.sent ++ [answer lim req] } n = d at *
  have hview : d.unconsumed = c.streamBuf.drop n := by
    rw [hrest, Connection.unconsumed]
    dsimp only
    rw [hfront, drop_zero]
  refine ⟨hserver.trans hrunning, ?_⟩
  rw [hcount]
  cases hkeep : keepAlive lim req (k + 1) with
  | true =>
    change Served lim 0 d.received d.sent d.requestCount d.unconsumed
    rw [hreceived, hsent, hrequests, hview]
    dsimp only
    rw [hcount]
    exact hserved.snoc hstable hparse hkeep
  | false =>
    intro q
    change Serves lim 0 (d.received ++ q) d.sent false
    rw [hreceived, hsent]
    exact hserved.last hstable hparse hkeep q

theorem Sequential.parse (hrunning : c.server = .running) (hfront : c.streamBufConsumed = 0)
    (hserved : Served lim 0 c.received c.sent c.requestCount c.streamBuf)
    (hP : ∀ req n, parseRequest c.streamBuf = some (.success req n) → Stable c.streamBuf)
    (hstep : c.parse lim = some c') : Sequential lim c' := by
  have hview : c.unconsumed = c.streamBuf := by
    rw [Connection.unconsumed, hfront, drop_zero]
  rw [Connection.parse, hview] at hstep
  cases hparse : parseRequest c.streamBuf with
  | none =>
    rw [hparse] at hstep
    exact nomatch hstep
  | some o =>
    rw [hparse] at hstep
    cases o with
    | incomplete =>
      have hgoes : ¬ c.server = .stopped := by
        rw [hrunning]
        exact ServerState.noConfusion
      rw [Connection.parsed, if_neg hgoes] at hstep
      cases hstep
      refine ⟨hrunning, ?_⟩
      change Served lim 0 c.received c.sent c.requestCount c.unconsumed
      rw [hview]
      exact hserved
    | error =>
      cases hstep
      exact ⟨hrunning, fun q =>
        (hserved.append q).serves (.refused (parseRequest_error_append hparse q))⟩
    | success req n =>
      have hstable := hP req n hparse
      simp only [Connection.parsed] at hstep
      split at hstep
      next hexceeds =>
        have hanswer : answer lim req = .limitsExceeded req := if_pos hexceeds
        cases hstep
        rw [← hanswer]
        exact sequential_of_answer (c := { c with requestCount := c.requestCount + 1 }) hrunning
          hfront hserved rfl hstable hparse
      next hexceeds =>
        cases hstep
        refine ⟨hrunning, c.requestCount, rfl, ?_⟩
        change Served lim 0 c.received c.sent c.requestCount c.unconsumed
        rw [hview]
        exact hserved

/-- The buffer of a connection that reads, with what the read gave. -/
theorem Sequential.read (h : Sequential lim c) (hphase : c.phase = .idle ∨ c.phase = .more)
    (hfront : c.streamBufConsumed = 0) (bytes : Bytes) :
    Served lim 0 (c.receive bytes).received (c.receive bytes).sent (c.receive bytes).requestCount
      (c.receive bytes).streamBuf := by
  have hserved := h.2
  have hview : c.unconsumed = c.streamBuf := by
    rw [Connection.unconsumed, hfront, drop_zero]
  rcases hphase with hphase | hphase
  · rw [hphase, hview] at hserved
    exact hserved.append bytes
  · rw [hphase, hview] at hserved
    exact hserved.append bytes

theorem Sequential.start (h : Sequential lim c) (hphase : c.phase = .head)
    (hP : Parses Stable c .proceed) (hstep : c.start lim = some c') : Sequential lim c' := by
  obtain ⟨hrunning, hserved⟩ := h
  rw [hphase] at hserved
  have hlive : ¬ (c.server = .stopped ∨ c.server = .shuttingDown ∧ c.streamBuf = []) := by
    rw [hrunning]
    simp only [reduceCtorEq, false_and, or_self, not_false_iff]
  rw [Connection.start, if_neg hlive] at hstep
  dsimp only at hstep
  split at hstep
  next hempty =>
    have hgoes : ¬ c.server = .shuttingDown := by
      rw [hrunning]
      exact ServerState.noConfusion
    rw [if_neg hgoes] at hstep
    cases hstep
    exact ⟨hrunning, hserved⟩
  next =>
    exact Sequential.parse (c := { c with streamBuf := c.unconsumed, streamBufConsumed := 0 })
      hrunning rfl hserved hP hstep

theorem Sequential.step {a : Action} (hinv : Inv lim Stable c) (hgood : Settled lim c a)
    (hstep : step lim c a = some c') (h : Sequential lim c) : Sequential lim c' := by
  obtain ⟨rfl | rfl | ⟨bytes, rfl, hlimit⟩, hP⟩ := hgood
  · rw [ServerLoop.step] at hstep
    split at hstep
    next hphase => exact h.start hphase hP hstep
    next => exact nomatch hstep
  · rw [ServerLoop.step] at hstep
    split at hstep
    next req n keep hphase =>
      have hstage := hinv.stage
      rw [hphase] at hstage
      obtain ⟨hfront, hstable, hparse, hkeep, hexceeds, -, -⟩ := hstage
      obtain ⟨hrunning, hserved⟩ := h
      rw [hphase] at hserved
      obtain ⟨k, hcount, hserved⟩ := hserved
      have hview : c.unconsumed = c.streamBuf := by
        rw [Connection.unconsumed, hfront, drop_zero]
      rw [hview] at hserved
      have hanswer : answer lim req = .response req := by rw [answer, hexceeds]; rfl
      have hopen : decide (c.server ≠ .shuttingDown) = true := by rw [hrunning]; rfl
      simp only [Bool.false_eq_true, if_false, hopen, Bool.and_true, hkeep] at hstep
      cases hstep
      rw [← hanswer]
      exact sequential_of_answer hrunning hfront hserved hcount hstable hparse
    next => exact nomatch hstep
  · have hstage := hinv.stage
    rw [ServerLoop.step] at hstep
    split at hstep
    next => exact nomatch hstep
    next =>
      split at hstep
      next hphase =>
        rw [hphase] at hstage
        exact Sequential.parse (c := c.receive bytes) h.1 hstage.1
          (h.read (.inl hphase) hstage.1 bytes) hP hstep
      next hphase =>
        rw [hphase] at hstage
        have hfits : ¬ (lim.maxRequestSize > 0 ∧
            (c.receive bytes).streamBuf.length > lim.maxRequestSize) := by
          rintro ⟨hsome, hlarge⟩
          change (c.streamBuf ++ bytes).length > lim.maxRequestSize at hlarge
          omega
        dsimp only at hstep
        rw [if_neg hfits] at hstep
        exact Sequential.parse (c := c.receive bytes) h.1 hstage.1
          (h.read (.inr hphase) hstage.1 bytes) hP hstep
      next => exact nomatch hstep

/-- The connection has done all it can with the bytes of the client: it has ended, or waits
    for more when all have been read. -/
def Finished (w : Bytes) (c : Connection) : Prop :=
  c.phase = .ended ∧ c.received <+: w ∨ (c.phase = .idle ∨ c.phase = .more) ∧ c.received = w

/-- Where the reads cut the bytes makes no difference: a connection that is left to work has
    sent exactly what a server sends that has all the bytes from the start, and it waits or has
    ended as that one. -/
theorem sent_sequentially {as : List Action} (hgood : Labelled.Along (step lim) (Settled lim) {} as)
    (hrun : Labelled.run (step lim) {} as = some c) (hfinished : Finished w c) (sent : List Sent)
    (keep : Bool) :
    Serves lim 0 w sent keep ↔ sent = c.sent ∧ keep = decide (c.phase ≠ .ended) := by
  have hboth : Inv lim Stable c ∧ Sequential lim c :=
    Labelled.run_invariant_along (I := fun c => Inv lim Stable c ∧ Sequential lim c)
      (fun hgood hstep h => ⟨Inv.step hgood.2 hstep h.1, Sequential.step h.1 hgood hstep h.2⟩)
      hgood hrun ⟨inv_initial, rfl, .refl 0 []⟩
  obtain ⟨hinv, -, hserved⟩ := hboth
  have hstage := hinv.stage
  have hserves : Serves lim 0 w c.sent (decide (c.phase ≠ .ended)) := by
    rcases hfinished with ⟨hphase, q, rfl⟩ | ⟨hphase | hphase, rfl⟩
    · rw [hphase] at hserved ⊢
      exact hserved q
    · rw [hphase] at hserved hstage ⊢
      obtain ⟨-, hempty, -⟩ := hstage
      have hview : c.unconsumed = [] := by rw [Connection.unconsumed, hempty, drop_nil]
      rw [hview] at hserved
      have hall := hserved.serves (.waiting parseRequest_nil)
      rw [append_nil] at hall
      exact hall
    · rw [hphase] at hserved hstage ⊢
      obtain ⟨hfront, hparse, -⟩ := hstage
      have hview : c.unconsumed = c.streamBuf := by
        rw [Connection.unconsumed, hfront, drop_zero]
      rw [hview] at hserved
      have hall := hserved.serves (.waiting hparse)
      rw [append_nil] at hall
      exact hall
  constructor
  · intro h
    exact h.unique hserves
  · rintro ⟨rfl, rfl⟩
    exact hserves

theorem stable_get : Stable (firstCut ++ secondCut) := by
  refine ⟨?_, by decide⟩
  rintro ⟨rl, next, start, headers, c, last, hfind, hheaders, hchunked, -, -⟩
  have hfirst : findNextLine (firstCut ++ secondCut) 0 = some (text "GET / HTTP/1.1", 16) := by
    decide
  have hsecond : parseHeaders (firstCut ++ secondCut) 16 = .success [] 18 := by decide
  obtain ⟨-, rfl⟩ := Prod.mk.inj (Option.some.inj (hfirst.symm.trans hfind))
  obtain ⟨rfl, -⟩ := (parseHeaders_eq_success.mp hsecond).unique hheaders
  exact Bool.false_ne_true hchunked

/-- The connection in the handler of the request. -/
def inGet : Connection :=
  { streamBuf := firstCut ++ secondCut, requestCount := 1, received := firstCut ++ secondCut,
    phase := .handling { method := .get, target := text "/" } 18 true }

theorem along_getSchedule : Labelled.Along (step {}) (Settled {}) {} getSchedule := by
  have hnothing : ∀ req n, parseRequest [] ≠ some (.success req n) := by
    intro req n h
    exact nomatch parseRequest_nil.symm.trans h
  have hcut : parseRequest firstCut = some .incomplete := by decide
  refine Labelled.along_cons (t := { phase := .idle })
    ⟨.inl rfl, fun req n h => absurd h (hnothing req n)⟩ rfl ?_
  refine Labelled.along_cons
    (t := { streamBuf := firstCut, received := firstCut, phase := .more })
    ⟨.inr (.inr ⟨firstCut, rfl, .inr (by decide)⟩), fun req n h => nomatch hcut.symm.trans h⟩
    (by decide) ?_
  refine Labelled.along_cons (t := inGet)
    ⟨.inr (.inr ⟨secondCut, rfl, .inr (by decide)⟩), fun req n h => stable_get⟩ (by decide) ?_
  refine Labelled.along_cons
    (t := { requestCount := 1, received := firstCut ++ secondCut, phase := .head,
            sent := [.response { method := .get, target := text "/" }] })
    ⟨.inr (.inl rfl), fun req n h => stable_get⟩ (by decide) ?_
  exact Labelled.along_cons (t := afterGet)
    ⟨.inl rfl, fun req n h => absurd h (hnothing req n)⟩ (by decide) trivial

theorem sent_sequentially_get :
    Serves {} 0 (firstCut ++ secondCut) [.response { method := .get, target := text "/" }] true :=
  (sent_sequentially along_getSchedule run_getSchedule (.inr ⟨.inl rfl, rfl⟩) _ _).mpr ⟨rfl, rfl⟩

end ServerLoop
