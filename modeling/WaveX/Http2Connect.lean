import WaveX.Http2RequestWire
import WaveX.Http2Steady

/-! # Which requests are tunnels

    A CONNECT is told from other requests in three places.  `finish_header_block` takes the
    first `:method` of the list and spawns the task of a CONNECT at once; `serve_stream`
    takes the last one and leaves END_STREAM off the rebuilt request; `parse_request` takes
    the last one for the method of the request.

    They agree on a list when its first and its last `:method` agree.  Nothing refuses a
    list where they do not: the first loop leaves at the first `:method`, the second goes
    on.  The DATA of such a request go to `tunnel_in`, and its body is lost. -/

namespace Http2Connect

open QuicVarInt HttpText Hpack Http2Frames Http2Session Http2Session.Session Http2Parser
  Http2RequestWire Http2Effects Http2Tasks Http2Steady

/-! ## The three loops -/

/-- The `:method` fields of a list. -/
def methods (headers : List Field) : List Bytes :=
  (headers.filter fun h => h.1 == text ":method").map Prod.snd

/-- The loop of `serve_stream`. -/
def lastConnect (headers : List Field) : Bool :=
  headers.foldl (fun c h => if h.1 == text ":method" then h.2 == text "CONNECT" else c) false

/-- The request that `serve_stream` makes of a stream. -/
def servedRequest (sid : Nat) (headers : List Field) (body : Bytes) (endStreamReceived : Bool) :
    Request :=
  (parseRequest (buildRequestWire sid headers body (!lastConnect headers || endStreamReceived))
    {} {}).message

/-- The first and the last `:method` are both CONNECT, or neither is. -/
def MethodsAgree (headers : List Field) : Prop :=
  (methods headers).head? = some (text "CONNECT") ↔
    (methods headers).getLast? = some (text "CONNECT")

instance MethodsAgree.decidable (headers : List Field) : Decidable (MethodsAgree headers) :=
  inferInstanceAs (Decidable (_ ↔ _))

/-! ## Which `:method` they take -/

variable {α β : Type} {headers : List Field} {req : Request}

/-- A loop that overwrites its result ends with the last one. -/
theorem foldl_overwrite (p : α → Bool) (f : α → β) (b : β) (l : List α) :
    l.foldl (fun b a => if p a then f a else b) b = ((l.filter p).map f).getLast?.getD b := by
  induction l using List.reverseRecOn with
  | nil => rfl
  | append_singleton l a ih =>
    rw [List.foldl_append, List.foldl_cons, List.foldl_nil, ih, List.filter_append, List.map_append]
    cases hp : p a with
    | true => simp [hp]
    | false => simp [hp]

/-- `finish_header_block` takes the first. -/
theorem isConnect_iff :
    isConnect headers = true ↔ (methods headers).head? = some (text "CONNECT") := by
  rw [isConnect, methods, List.head?_map, List.head?_filter]
  cases headers.find? fun h => h.1 == text ":method" with
  | none => simp
  | some h => simp

/-- `serve_stream` takes the last. -/
theorem lastConnect_iff :
    lastConnect headers = true ↔ (methods headers).getLast? = some (text "CONNECT") := by
  rw [lastConnect, foldl_overwrite, methods, List.getLast?_map, List.getLast?_map]
  cases (headers.filter fun h => h.1 == text ":method").getLast? with
  | none => simp
  | some h => simp

theorem addRequestField_method (req : Request) (h : Field) :
    (addRequestField req h).method =
      if h.1 == text ":method" then Method.ofName h.2 else req.method := by
  rw [addRequestField]
  by_cases hmethod : h.1 = text ":method"
  · rw [if_pos hmethod, if_pos (beq_iff_eq.mpr hmethod)]
  · rw [if_neg hmethod, if_neg fun heq => hmethod (beq_iff_eq.mp heq)]
    split
    · rfl
    · split
      · rfl
      · split
        · rfl
        · split
          · rfl
          · rfl

theorem foldl_addRequestField_method (headers : List Field) (req : Request) :
    (headers.foldl addRequestField req).method =
      headers.foldl (fun m h => if h.1 == text ":method" then Method.ofName h.2 else m)
        req.method := by
  induction headers generalizing req with
  | nil => rfl
  | cons h rest ih =>
    rw [List.foldl_cons, List.foldl_cons, ih, addRequestField_method]

/-- The method is there also when the parser refuses the request. -/
theorem finishRequest_method (dt : DynamicTable) {g : Gathered} (hg : g.headersReceived = true) :
    (finishRequest {} dt (.success, g)).message.method =
      (g.decodedHeaders.foldl addRequestField { streamId := g.streamId }).method := by
  rw [finishRequest]
  simp only [hg, ne_eq, not_true_eq_false, if_false]
  split
  · rfl
  · rfl

/-- `parse_request` takes the last. -/
theorem servedRequest_connect (hlist : overLimit defaultMaxHeaderListSize headers = false)
    (sid : Nat) (body : Bytes) (ended : Bool) :
    (servedRequest sid headers body ended).method = .connect ↔
      (methods headers).getLast? = some (text "CONNECT") := by
  rw [servedRequest, parseRequest_buildRequestWire hlist, finishRequest_method _ rfl, rebuilt,
    foldl_addRequestField_method, foldl_overwrite, methods, List.getLast?_map, List.getLast?_map]
  cases (headers.filter fun h => h.1 == text ":method").getLast? with
  | none => simp
  | some h => simp [Method.ofName_connect]

/-! ## Agreement -/

/-- The three agree on a list exactly when its first and its last `:method` do.  Then a
    request that gets its task before its end, and is not refused, is a CONNECT, and so is
    one with data in `tunnel_in`. -/
theorem connect_classified_alike (cap : Nat) :
    (∀ (block : Bytes) (t : DynamicTable) (sid : Nat) (body : Bytes) (ended : Bool) (d : Decoded),
      decodeHeaderBlock defaultMaxHeaderListSize block t = d → d.ok = true →
      ((isConnect d.headers = lastConnect d.headers ∧
          (isConnect d.headers = true ↔
            (servedRequest sid d.headers body ended).method = .connect)) ↔
        MethodsAgree d.headers)) ∧
      ∀ (s : Session) (x : StreamState), (sessions cap).Reachable s → x ∈ s.streams →
        MethodsAgree x.headers →
        (x.dispatched = true → x.endStreamReceived = false → x.rejected = false →
          (servedRequest x.id x.headers x.body x.endStreamReceived).method = .connect) ∧
        (x.tunnelIn ≠ [] →
          (servedRequest x.id x.headers x.body x.endStreamReceived).method = .connect) := by
  constructor
  · intro block t sid body ended d hd hok
    have hlist : overLimit defaultMaxHeaderListSize d.headers = false :=
      hd ▸ decodeHeaderBlock_list (hd ▸ hok)
    rw [servedRequest_connect hlist, Bool.eq_iff_iff, isConnect_iff, lastConnect_iff, and_self]
    exact Iff.rfl
  · intro s x h hx hagree
    have hapt := (reachable_sane h).apt x hx
    have hconnect : isConnect x.headers = true →
        (servedRequest x.id x.headers x.body x.endStreamReceived).method = .connect := fun hfirst =>
      (servedRequest_connect hapt.list _ _ _).mpr (hagree.mp (isConnect_iff.mp hfirst))
    constructor
    · intro htask hended hrejected
      rcases hapt.early htask with hyes | hyes | hfirst
      · exact absurd (hyes.symm.trans hended) Bool.false_ne_true.symm
      · exact absurd (hyes.symm.trans hrejected) Bool.false_ne_true.symm
      · exact hconnect hfirst
    · exact fun hin => hconnect (hapt.fed hin).2

/-- A CONNECT request with an authority. -/
def plainConnect : List Field :=
  [(text ":method", text "CONNECT"), (text ":authority", text "a")]

theorem connect_classified_alike_plain :
    isConnect plainConnect = lastConnect plainConnect ∧
      (isConnect plainConnect = true ↔
        (servedRequest 1 plainConnect [] false).method = .connect) := by
  have hblock : decodeHeaderBlock defaultMaxHeaderListSize (requestBlock plainConnect) {} =
      ⟨true, false, plainConnect, {}⟩ := by decide
  have hagree : MethodsAgree plainConnect := by decide
  exact ((connect_classified_alike 0).1 _ {} 1 [] false _ hblock rfl).mpr hagree

/-! ## A request that is both -/

/-- A CONNECT by its first `:method`, a GET by its last. -/
def repeatedMethod : List Field :=
  [(text ":method", text "CONNECT"), (text ":method", text "GET"), (text ":path", text "/")]

/-- The list without END_STREAM, and one byte of body. -/
def divertedActions : List Action :=
  [.frame (requestHeadersFrame 1 repeatedMethod false), .frame (dataFrame 1 [65] false)]

/-- It gets its task before its end and is parsed as a GET, and its body is in `tunnel_in`. -/
theorem body_diverted : ∃ s, run 0 initial divertedActions = some s ∧
    ∃ x ∈ s.streams, x.headers = repeatedMethod ∧ x.dispatched = true ∧
      x.endStreamReceived = false ∧ x.rejected = false ∧ x.tunnelIn = [65] ∧ x.body = [] ∧
      isConnect x.headers = true ∧ lastConnect x.headers = false ∧
      (servedRequest x.id x.headers x.body x.endStreamReceived).method = .get := by
  have hrun : run 0 initial divertedActions =
      some ((run 0 initial divertedActions).getD initial) := by decide
  have hstream : ∃ x ∈ ((run 0 initial divertedActions).getD initial).streams,
      x.headers = repeatedMethod ∧ x.dispatched = true ∧
      x.endStreamReceived = false ∧ x.rejected = false ∧ x.tunnelIn = [65] ∧ x.body = [] ∧
      isConnect x.headers = true ∧ lastConnect x.headers = false ∧
      (servedRequest x.id x.headers x.body x.endStreamReceived).method = .get := by
    decide
  exact ⟨_, hrun, hstream⟩

end Http2Connect
