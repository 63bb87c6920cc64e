import WaveX.Http1Client
import WaveX.Http1Response
import WaveX.Http2FrameCodec

/-! # The HTTP/2 client

    The receive loop of `execute_http2_exchange` of `src/Client/HttpClient.cpp`.  Frames are
    handled as they become complete, and the loop is left at END_STREAM on stream 1, at
    RST_STREAM on stream 1, at any GOAWAY and when the server closes.  What has been
    gathered is returned in all four cases alike, once one header block has been decoded.
    Every HEADERS frame is decoded on its own, a block that cannot be decoded is passed
    over, and CONTINUATION frames are not looked at. -/

namespace Http2Client

open QuicVarInt HttpText Hpack Http2Frames Http2FrameCodec List
open Http1Codec (parseCode)
open Http1Response (statusTextFor)
open Http1Client (ClientResponse)

/-! ## The receive loop -/

/-- What header blocks have set in the response. -/
structure Head where
  statusCode : Nat := 0
  statusText : Bytes := []
  headers : List Field := []
  deriving DecidableEq, Repr

/-- The state of the loop; `written` are the frames it has sent in answer. -/
structure Client where
  head : Head := {}
  table : DynamicTable := {}
  headersReceived : Bool := false
  responseFinished : Bool := false
  bodyAccumulator : Bytes := []
  written : List Frame := []
  deriving DecidableEq, Repr

/-- A decoded field in the response. -/
def addField (h : Head) (f : Field) : Head :=
  if f.1 = text ":status" then
    let parsedCode := (parseCode f.2).getD 200
    { h with statusCode := parsedCode, statusText := statusTextFor parsedCode }
  else { h with headers := h.headers ++ [f] }

/-- The padding, as the client takes it: a padded frame without payload has none. -/
def clientPadding (f : Frame) : Nat × Nat := (padding f).getD (0, 0)

/-- The header block in a HEADERS frame: `none` when it is passed over. -/
def headerBlock (f : Frame) : Option Bytes :=
  let (padLen, start) := clientPadding f
  let headerCursor := start + if f.hasFlag flagPriority then 5 else 0
  if f.payload.length ≥ headerCursor + padLen then
    some ((f.payload.drop headerCursor).take (f.payload.length - headerCursor - padLen))
  else none

/-- The data in a DATA frame: nothing when the padding is too long. -/
def dataBytes (f : Frame) : Bytes :=
  let (padLen, dataOffset) := clientPadding f
  if f.payload.length ≥ dataOffset + padLen then
    (f.payload.drop dataOffset).take (f.payload.length - dataOffset - padLen)
  else []

/-- `decode_header_block` without a cap, in some number of rounds: `none` when it has not
    returned after them. -/
def decodeBlock (rounds : Nat) (block : Bytes) (t : DynamicTable) : Option Decoded :=
  decodeLoop 0 block rounds 0 t []

/-- END_STREAM finishes the response. -/
def finishAt (f : Frame) (c : Client) : Client :=
  if f.hasFlag flagEndStream then { c with responseFinished := true } else c

/-- A HEADERS frame of stream 1. -/
def onHeaders (rounds : Nat) (c : Client) (f : Frame) : Option Client :=
  match headerBlock f with
  | none => some (finishAt f c)
  | some block =>
      (decodeBlock rounds block c.table).map fun d =>
        if d.ok then
          finishAt f { c with
            table := d.table
            headersReceived := true
            head := d.headers.foldl addField c.head }
        else finishAt f { c with table := d.table }

/-- `serialize_ping` with ACK. -/
def pingAck (payload : Bytes) : Frame :=
  { type := .ping, flags := flagAck, streamId := 0, payload }

/-- The body of the loop, for one frame. -/
def onFrame (rounds : Nat) (c : Client) (f : Frame) : Option Client :=
  match f.type with
  | .settings =>
      some (if f.hasFlag flagAck then c else { c with written := c.written ++ [settingsAckFrame] })
  | .ping =>
      some (if ¬ f.hasFlag flagAck ∧ f.payload.length = 8 then
        { c with written := c.written ++ [pingAck f.payload] } else c)
  | .headers => if f.streamId = 1 then onHeaders rounds c f else some c
  | .data =>
      some (if f.streamId = 1 then
        finishAt f { c with bodyAccumulator := c.bodyAccumulator ++ dataBytes f } else c)
  | .rstStream => some (if f.streamId = 1 then { c with responseFinished := true } else c)
  | .goaway => some { c with responseFinished := true }
  | _ => some c

/-- The inner loop: the frames that are complete, and what is left of the buffer.  A frame
    has at least nine bytes, so the length of the buffer is enough for the count. -/
def drain (rounds : Nat) : Nat → Client → Bytes → Option (Client × Bytes)
  | 0, c, recvBuf => some (c, recvBuf)
  | fuel + 1, c, recvBuf =>
      match unpackFrameHeader recvBuf with
      | none => some (c, recvBuf)
      | some hdr =>
          if recvBuf.length < headerSize + hdr.length then some (c, recvBuf)
          else
            (onFrame rounds c ⟨hdr.type, hdr.flags, hdr.streamId,
              (recvBuf.drop headerSize).take hdr.length⟩).bind fun c =>
                if c.responseFinished then some (c, recvBuf.drop (headerSize + hdr.length))
                else drain rounds fuel c (recvBuf.drop (headerSize + hdr.length))

/-- The outer loop, with the reads that are to come; behind them the server closes. -/
def receive (rounds : Nat) : Client → Bytes → List Bytes → Option Client
  | c, recvBuf, [] => (drain rounds recvBuf.length c recvBuf).map Prod.fst
  | c, recvBuf, buf :: reads =>
      (drain rounds (recvBuf ++ buf).length c (recvBuf ++ buf)).bind fun p =>
        if p.1.responseFinished then some p.1 else receive rounds p.1 p.2 reads

/-- The 502 response. -/
def incomplete : ClientResponse :=
  { statusCode := 502, statusText := text "Bad Gateway"
    body := text "HTTP/2 response incomplete or connection reset by peer" }

/-- What is returned: `error` is the 502 response, `ok` a response of the server. -/
def outcome (c : Client) : Except ClientResponse ClientResponse :=
  if ¬ c.headersReceived ∧ c.head.statusCode = 0 then .error incomplete
  else .ok { statusCode := c.head.statusCode, statusText := c.head.statusText
             headers := c.head.headers, body := c.bodyAccumulator }

/-- `execute_http2_exchange`, from the first read on: `none` when it has not returned after
    the rounds given to the decoder. -/
def executeHttp2Exchange (rounds : Nat) (reads : List Bytes) :
    Option (Except ClientResponse ClientResponse) :=
  (receive rounds {} [] reads).map outcome

/-! ## Frames and reads -/

/-- The loop over frames, without a buffer. -/
def runFrames (rounds : Nat) : Client → List Frame → Option Client
  | c, [] => some c
  | c, f :: fs =>
      (onFrame rounds c f).bind fun c =>
        if c.responseFinished then some c else runFrames rounds c fs

/-- The frame at the start of a buffer, from its header. -/
def frameOf (hdr : FrameHeader) (bytes : Bytes) : Frame :=
  ⟨hdr.type, hdr.flags, hdr.streamId, (bytes.drop headerSize).take hdr.length⟩

variable {rounds fuel : Nat} {c c' : Client} {bytes more rest : Bytes} {hdr : FrameHeader}
  {f : Frame} {fs : List Frame}

theorem unpackFrameHeader_length (h : unpackFrameHeader bytes = some hdr) :
    ¬ bytes.length < headerSize := by
  intro hshort
  match bytes with
  | _ :: _ :: _ :: _ :: _ :: _ :: _ :: _ :: _ :: _ =>
    simp only [length_cons, headerSize] at hshort
    omega
  | [] | [_] | [_, _] | [_, _, _] | [_, _, _, _] | [_, _, _, _, _] | [_, _, _, _, _, _]
  | [_, _, _, _, _, _, _] | [_, _, _, _, _, _, _, _] => cases h

/-- A count that covers the buffer is enough for all its frames. -/
theorem wireFramesUpTo_enough (h : bytes.length ≤ fuel) :
    wireFramesUpTo fuel bytes = wireFrames bytes := by
  have hsame : ∀ k fuel' : Nat, ∀ bytes : Bytes, bytes.length ≤ k → k ≤ fuel' →
      wireFramesUpTo fuel' bytes = wireFramesUpTo k bytes := by
    intro k
    induction k with
    | zero =>
      intro fuel' bytes hk _
      rw [eq_nil_of_length_eq_zero (Nat.le_zero.mp hk)]
      cases fuel' with
      | zero => rfl
      | succ fuel' => rfl
    | succ k ih =>
      intro fuel' bytes hk hfuel
      obtain ⟨fuel', rfl⟩ := Nat.exists_eq_succ_of_ne_zero (show fuel' ≠ 0 by omega)
      rw [wireFramesUpTo, wireFramesUpTo]
      cases hhdr : unpackFrameHeader bytes with
      | none => rfl
      | some hdr =>
        dsimp only
        split
        · rfl
        · have hnine : headerSize = 9 := rfl
          rw [ih fuel' _ (by rw [length_drop]; omega) (by omega)]
  exact hsame bytes.length fuel bytes (Nat.le_refl _) h

theorem wireFrames_incomplete
    (h : ∀ hdr, unpackFrameHeader bytes = some hdr → bytes.length < headerSize + hdr.length) :
    wireFrames bytes = [] := by
  rw [wireFrames]
  cases hlength : bytes.length with
  | zero => rfl
  | succ k =>
    rw [wireFramesUpTo]
    cases hhdr : unpackFrameHeader bytes with
    | none => rfl
    | some hdr =>
      dsimp only
      rw [if_pos (h hdr hhdr)]

theorem wireFrames_cons (hhdr : unpackFrameHeader bytes = some hdr)
    (hroom : ¬ bytes.length < headerSize + hdr.length) :
    wireFrames bytes = frameOf hdr bytes :: wireFrames (bytes.drop (headerSize + hdr.length)) := by
  have hlong := unpackFrameHeader_length hhdr
  have hnine : headerSize = 9 := rfl
  rw [wireFrames]
  obtain ⟨k, hk⟩ := Nat.exists_eq_succ_of_ne_zero (show bytes.length ≠ 0 by omega)
  rw [hk, wireFramesUpTo, hhdr]
  dsimp only
  rw [if_neg hroom, wireFramesUpTo_enough (by rw [length_drop]; omega)]
  rfl

/-- The frames that are complete are handled now, and those that become complete later. -/
theorem runFrames_drain (hc : c.responseFinished = false) (hfuel : bytes.length ≤ fuel)
    (more : Bytes) :
    runFrames rounds c (wireFrames (bytes ++ more)) =
      (drain rounds fuel c bytes).bind fun p =>
        if p.1.responseFinished then some p.1
        else runFrames rounds p.1 (wireFrames (p.2 ++ more)) := by
  induction fuel generalizing c bytes with
  | zero =>
    rw [drain, Option.bind_some, hc]
    rfl
  | succ fuel ih =>
    have hwait : (some (c, bytes)).bind (fun p : Client × Bytes =>
        if p.1.responseFinished then some p.1
        else runFrames rounds p.1 (wireFrames (p.2 ++ more))) =
        runFrames rounds c (wireFrames (bytes ++ more)) := by
      rw [Option.bind_some, hc]
      rfl
    rw [drain]
    cases hhdr : unpackFrameHeader bytes with
    | none => exact hwait.symm
    | some hdr =>
      dsimp only
      split
      · exact hwait.symm
      · rename_i hroom
        have hlong := unpackFrameHeader_length hhdr
        have hnine : headerSize = 9 := rfl
        have hhdr' : unpackFrameHeader (bytes ++ more) = some hdr :=
          (unpackFrameHeader_append hlong more).trans hhdr
        have hroom' : ¬ (bytes ++ more).length < headerSize + hdr.length := by
          rw [length_append]
          omega
        have hframe : frameOf hdr (bytes ++ more) = frameOf hdr bytes := by
          rw [frameOf, frameOf, drop_append_of_le_length (by omega),
            take_append_of_le_length (by rw [length_drop]; omega)]
        rw [wireFrames_cons hhdr' hroom', hframe, drop_append_of_le_length (by omega), runFrames,
          Option.bind_assoc]
        congr 1
        funext c'
        cases hfinished : c'.responseFinished with
        | true =>
          rw [if_pos rfl, if_pos rfl, Option.bind_some, hfinished]
          rfl
        | false =>
          rw [if_neg Bool.false_ne_true, if_neg Bool.false_ne_true]
          exact ih hfinished (by rw [length_drop]; omega)

/-- What the inner loop leaves has no complete frame. -/
theorem drain_rest (hfuel : bytes.length ≤ fuel)
    (h : drain rounds fuel c bytes = some (c', rest)) (hc' : c'.responseFinished = false) :
    wireFrames rest = [] := by
  induction fuel generalizing c bytes with
  | zero =>
    obtain ⟨-, rfl⟩ := Prod.mk.inj (Option.some.inj h)
    rw [eq_nil_of_length_eq_zero (Nat.le_zero.mp hfuel)]
    rfl
  | succ fuel ih =>
    rw [drain] at h
    cases hhdr : unpackFrameHeader bytes with
    | none =>
      rw [hhdr] at h
      obtain ⟨-, rfl⟩ := Prod.mk.inj (Option.some.inj h)
      exact wireFrames_incomplete fun hdr hhdr' => nomatch hhdr.symm.trans hhdr'
    | some hdr =>
      rw [hhdr] at h
      dsimp only at h
      split at h
      · rename_i hshort
        obtain ⟨-, rfl⟩ := Prod.mk.inj (Option.some.inj h)
        refine wireFrames_incomplete fun hdr' hhdr' => ?_
        obtain rfl := Option.some.inj (hhdr.symm.trans hhdr')
        exact hshort
      · rename_i hroom
        have hlong := unpackFrameHeader_length hhdr
        have hnine : headerSize = 9 := rfl
        obtain ⟨c₁, -, hstep⟩ := Option.bind_eq_some_iff.mp h
        split at hstep
        · rename_i hfinished
          obtain ⟨rfl, -⟩ := Prod.mk.inj (Option.some.inj hstep)
          rw [hc'] at hfinished
          cases hfinished
        · exact ih (by rw [length_drop]; omega) hstep

/-- However the stream is cut into reads, the frames in it are handled one after the other. -/
theorem receive_eq_runFrames (reads : List Bytes) (hc : c.responseFinished = false) :
    receive rounds c bytes reads = runFrames rounds c (wireFrames (bytes ++ reads.flatten)) := by
  induction reads generalizing c bytes with
  | nil =>
    rw [flatten_nil, runFrames_drain hc (Nat.le_refl _) [], receive]
    cases hdrain : drain rounds bytes.length c bytes with
    | none => rfl
    | some p =>
      rw [Option.map_some, Option.bind_some]
      cases hfinished : p.1.responseFinished with
      | true => rfl
      | false =>
        rw [append_nil, drain_rest (Nat.le_refl _) hdrain hfinished]
        rfl
  | cons buf reads ih =>
    rw [flatten_cons, ← append_assoc, runFrames_drain hc (Nat.le_refl _), receive]
    congr 1
    funext p
    cases hfinished : p.1.responseFinished with
    | true => rfl
    | false =>
      rw [if_neg Bool.false_ne_true, if_neg Bool.false_ne_true]
      exact ih hfinished

/-! ## What a response is -/

/-- What the decoder makes of a block when it is given the time. -/
def Decodes (block : Bytes) (t : DynamicTable) (d : Decoded) : Prop :=
  ∃ rounds, decodeBlock rounds block t = some d

/-- A frame of this type on stream 1. -/
def OnStream (type : FrameType) (f : Frame) : Prop := f.type = type ∧ f.streamId = 1

instance (type : FrameType) (f : Frame) : Decidable (OnStream type f) :=
  inferInstanceAs (Decidable (_ ∧ _))

/-- A frame that breaks the response off. -/
def BreaksOff (f : Frame) : Prop := f.type = .goaway ∨ OnStream .rstStream f

/-- A frame that ends stream 1. -/
def EndsStream (f : Frame) : Prop :=
  (OnStream .headers f ∨ OnStream .data f) ∧ f.hasFlag flagEndStream = true

/-- A frame that is not part of the response and does not break it off, but for
    CONTINUATION frames. -/
def Passive (f : Frame) : Prop := ¬ OnStream .headers f ∧ ¬ OnStream .data f ∧ ¬ BreaksOff f

instance (f : Frame) : Decidable (BreaksOff f) := inferInstanceAs (Decidable (_ ∨ _))

instance (f : Frame) : Decidable (EndsStream f) := inferInstanceAs (Decidable (_ ∧ _))

instance (f : Frame) : Decidable (Passive f) := inferInstanceAs (Decidable (_ ∧ _ ∧ _))

/-- What has been read of the response: the fields of its header blocks and its data. -/
structure Reading where
  table : DynamicTable := {}
  fields : List Field := []
  body : Bytes := []
  deriving DecidableEq, Repr

/-- The frames hold whole header blocks and data of stream 1, and this is what they say. -/
inductive Reads : Reading → List Frame → Reading → Prop where
  | nil (r : Reading) : Reads r [] r
  | other {r r' : Reading} {f : Frame} {fs : List Frame} (hpassive : Passive f)
      (hmessage : ¬ OnStream .continuation f) (hrest : Reads r fs r') : Reads r (f :: fs) r'
  | data {r r' : Reading} {f : Frame} {fs : List Frame} {d : Bytes} (hon : OnStream .data f)
      (hdata : dataPayload f = some d) (hrest : Reads { r with body := r.body ++ d } fs r') :
      Reads r (f :: fs) r'
  | headers {r r' : Reading} {h : Frame} {continuations fs : List Frame} {fragment : Bytes}
      {d : Decoded} (hon : OnStream .headers h) (hfragment : headersFragment h = some fragment)
      (hcontinued : ∀ f ∈ continuations, OnStream .continuation f)
      (hends : (h :: continuations).map (·.hasFlag flagEndHeaders) =
        List.replicate continuations.length false ++ [true])
      (hdecodes : Decodes (fragment ++ continuations.flatMap Frame.payload) r.table d)
      (hok : d.ok = true)
      (hrest : Reads { r with table := d.table, fields := r.fields ++ d.headers } fs r') :
      Reads r (h :: (continuations ++ fs)) r'

/-- The frames end with the one that ends stream 1, and what completes its header block. -/
def Finished (seen : List Frame) : Prop :=
  ∃ before h continuations, seen = before ++ h :: continuations ∧ EndsStream h ∧
    (∀ f ∈ before, ¬ EndsStream f) ∧ ∀ f ∈ continuations, OnStream .continuation f

/-- The response of a reading. -/
def Reading.response (r : Reading) : ClientResponse :=
  let head := r.fields.foldl addField {}
  { statusCode := head.statusCode, statusText := head.statusText, headers := head.headers
    body := r.body }

/-- A response of the server is returned only for a stream that has ended, with everything
    that was received on it. -/
def Truthful (fs : List Frame) : Except ClientResponse ClientResponse → Prop
  | .error _ => True
  | .ok res => ∃ seen post r, fs = seen ++ post ∧ Finished seen ∧ Reads {} seen r ∧
      res = r.response

/-! ## Frames that are read truthfully -/

/-- Every header block is in one frame and can be decoded, no padding is malformed, and
    the first frame that ends the exchange is one that ends the stream. -/
inductive Whole : DynamicTable → List Frame → Prop where
  | other {t : DynamicTable} {f : Frame} {fs : List Frame} (hpassive : Passive f)
      (hmessage : ¬ OnStream .continuation f) (hrest : Whole t fs) : Whole t (f :: fs)
  | data {t : DynamicTable} {f : Frame} {fs : List Frame} {d : Bytes} (hon : OnStream .data f)
      (hdata : dataPayload f = some d) (hrest : f.hasFlag flagEndStream = false → Whole t fs) :
      Whole t (f :: fs)
  | headers {t : DynamicTable} {f : Frame} {fs : List Frame} {fragment : Bytes} {d : Decoded}
      (hon : OnStream .headers f) (hfragment : headersFragment f = some fragment)
      (hends : f.hasFlag flagEndHeaders = true) (hdecodes : Decodes fragment t d)
      (hok : d.ok = true) (hrest : f.hasFlag flagEndStream = false → Whole d.table fs) :
      Whole t (f :: fs)

/-- No header block is decoded before the exchange ends. -/
inductive Headerless : DynamicTable → List Frame → Prop where
  | closed (t : DynamicTable) : Headerless t []
  | broken {t : DynamicTable} {f : Frame} {fs : List Frame} (hbreaks : BreaksOff f) :
      Headerless t (f :: fs)
  | other {t : DynamicTable} {f : Frame} {fs : List Frame} (hpassive : Passive f)
      (hrest : Headerless t fs) : Headerless t (f :: fs)
  | data {t : DynamicTable} {f : Frame} {fs : List Frame} (hon : OnStream .data f)
      (hrest : f.hasFlag flagEndStream = false → Headerless t fs) : Headerless t (f :: fs)
  | passedOver {t : DynamicTable} {f : Frame} {fs : List Frame} (hon : OnStream .headers f)
      (hblock : headerBlock f = none)
      (hrest : f.hasFlag flagEndStream = false → Headerless t fs) : Headerless t (f :: fs)
  | undecodable {t : DynamicTable} {f : Frame} {fs : List Frame} {block : Bytes} {d : Decoded}
      (hon : OnStream .headers f) (hblock : headerBlock f = some block)
      (hdecodes : Decodes block t d) (hfails : d.ok = false)
      (hrest : f.hasFlag flagEndStream = false → Headerless d.table fs) : Headerless t (f :: fs)

/-! ## One frame -/

theorem Decodes.unique {block : Bytes} {t : DynamicTable} {d d' : Decoded}
    (h : Decodes block t d) (h' : decodeBlock rounds block t = some d') : d = d' := by
  obtain ⟨rounds', h⟩ := h
  have hmore := decodeLoop_more h rounds
  have hmore' := decodeLoop_more h' rounds'
  rw [Nat.add_comm] at hmore'
  exact Option.some.inj (hmore.symm.trans hmore')

theorem padding_client {p : Nat × Nat} (h : padding f = some p) : clientPadding f = p := by
  rw [clientPadding, h]
  rfl

/-- A well-formed fragment is the block that the client takes. -/
theorem headerBlock_fragment {fragment : Bytes} (h : headersFragment f = some fragment) :
    headerBlock f = some fragment := by
  rw [headersFragment] at h
  cases hpadding : padding f with
  | none =>
    rw [hpadding] at h
    cases h
  | some p =>
    rw [hpadding] at h
    simp only [Option.bind_eq_bind, Option.bind_some] at h
    rw [headerBlock, padding_client hpadding]
    dsimp only
    generalize (p.2 + if f.hasFlag flagPriority then 5 else 0) = cursor at h ⊢
    split at h
    · cases h
    · rename_i hroom
      rw [if_pos (Nat.not_lt.mp hroom)]
      exact h

theorem dataBytes_payload {d : Bytes} (h : dataPayload f = some d) : dataBytes f = d := by
  rw [dataPayload] at h
  cases hpadding : padding f with
  | none =>
    rw [hpadding] at h
    cases h
  | some p =>
    rw [hpadding] at h
    simp only [Option.bind_eq_bind, Option.bind_some] at h
    rw [dataBytes, padding_client hpadding]
    split at h
    · cases h
    · rename_i hroom
      dsimp only
      rw [if_pos (Nat.not_lt.mp hroom)]
      exact Option.some.inj h

theorem frame_cases (f : Frame) :
    OnStream .headers f ∨ OnStream .data f ∨ BreaksOff f ∨ Passive f := by
  by_cases hheaders : OnStream .headers f
  · exact .inl hheaders
  · by_cases hdata : OnStream .data f
    · exact .inr (.inl hdata)
    · by_cases hbreaks : BreaksOff f
      · exact .inr (.inr (.inl hbreaks))
      · exact .inr (.inr (.inr ⟨hheaders, hdata, hbreaks⟩))

theorem onFrame_headers (hon : OnStream .headers f) :
    onFrame rounds c f = onHeaders rounds c f := by
  rw [onFrame, hon.1]
  exact if_pos hon.2

theorem onFrame_data (hon : OnStream .data f) :
    onFrame rounds c f =
      some (finishAt f { c with bodyAccumulator := c.bodyAccumulator ++ dataBytes f }) := by
  rw [onFrame, hon.1]
  dsimp only
  rw [if_pos hon.2]

theorem onFrame_breaks (h : BreaksOff f) :
    onFrame rounds c f = some { c with responseFinished := true } := by
  obtain htype | hon := h
  · rw [onFrame, htype]
  · rw [onFrame, hon.1]
    dsimp only
    rw [if_pos hon.2]

/-- A passive frame is answered at most. -/
theorem onFrame_passive (h : Passive f) :
    ∃ written, onFrame rounds c f = some { c with written } := by
  obtain ⟨hheaders, hdata, hbreaks⟩ := h
  rw [onFrame]
  split
  · split
    · exact ⟨c.written, rfl⟩
    · exact ⟨_, rfl⟩
  · split
    · exact ⟨_, rfl⟩
    · exact ⟨c.written, rfl⟩
  · rename_i htype
    rw [if_neg fun hsid => hheaders ⟨htype, hsid⟩]
    exact ⟨c.written, rfl⟩
  · rename_i htype
    rw [if_neg fun hsid => hdata ⟨htype, hsid⟩]
    exact ⟨c.written, rfl⟩
  · rename_i htype
    rw [if_neg fun hsid => hbreaks (.inr ⟨htype, hsid⟩)]
    exact ⟨c.written, rfl⟩
  · rename_i htype
    exact absurd (.inl htype) hbreaks
  · exact ⟨c.written, rfl⟩

theorem finishAt_finished (hc : c.responseFinished = false) :
    (finishAt f c).responseFinished = f.hasFlag flagEndStream := by
  rw [finishAt]
  split
  · rename_i hflag
    exact hflag.symm
  · rename_i hflag
    rw [hc, Bool.eq_false_iff.mpr hflag]

theorem runFrames_cons (h : runFrames rounds c (f :: fs) = some c') :
    ∃ c₁, onFrame rounds c f = some c₁ ∧
      (c₁.responseFinished = true ∧ c' = c₁ ∨
        c₁.responseFinished = false ∧ runFrames rounds c₁ fs = some c') := by
  rw [runFrames] at h
  obtain ⟨c₁, hframe, hstep⟩ := Option.bind_eq_some_iff.mp h
  refine ⟨c₁, hframe, ?_⟩
  split at hstep
  · rename_i hfinished
    exact .inl ⟨hfinished, (Option.some.inj hstep).symm⟩
  · rename_i hopen
    exact .inr ⟨Bool.eq_false_iff.mpr hopen, hstep⟩

/-! ## Whole runs -/

/-- The client has gathered what has been read. -/
structure Gathers (c : Client) (r : Reading) : Prop where
  table : c.table = r.table
  body : c.bodyAccumulator = r.body
  head : c.head = r.fields.foldl addField {}

theorem Gathers.finishAt {r : Reading} (h : Gathers c r) (f : Frame) :
    Gathers (finishAt f c) r := by
  rw [Http2Client.finishAt]
  split
  · exact ⟨h.table, h.body, h.head⟩
  · exact h

theorem Gathers.data {r : Reading} {d : Bytes} (h : Gathers c r) (hdata : dataPayload f = some d) :
    Gathers { c with bodyAccumulator := c.bodyAccumulator ++ dataBytes f }
      { r with body := r.body ++ d } where
  table := h.table
  body := by rw [dataBytes_payload hdata, h.body]
  head := h.head

theorem Gathers.headers {r : Reading} {d : Decoded} (h : Gathers c r) :
    Gathers
      { c with table := d.table, headersReceived := true, head := d.headers.foldl addField c.head }
      { r with table := d.table, fields := r.fields ++ d.headers } where
  table := rfl
  body := h.body
  head := by rw [foldl_append, ← h.head]

/-- The first frame ends the stream. -/
theorem finished_one (h : EndsStream f) : Finished [f] :=
  ⟨[], f, [], rfl, h, nofun, nofun⟩

theorem Finished.cons {seen : List Frame} (h : Finished seen) (hf : ¬ EndsStream f) :
    Finished (f :: seen) := by
  obtain ⟨before, g, continuations, rfl, hends, hbefore, hcontinued⟩ := h
  exact ⟨f :: before, g, continuations, rfl, hends, forall_mem_cons.mpr ⟨hf, hbefore⟩,
    hcontinued⟩

theorem Passive.not_endsStream (h : Passive f) : ¬ EndsStream f := fun hends =>
  hends.1.elim h.1 h.2.1

/-- A run over whole frames ends with the stream, with all that was read of it. -/
theorem whole_run {t : DynamicTable} {r : Reading} (h : Whole t fs) (ht : r.table = t)
    (hopen : c.responseFinished = false) (hc : Gathers c r)
    (hrun : runFrames rounds c fs = some c') :
    ∃ seen post r', fs = seen ++ post ∧ Finished seen ∧ Reads r seen r' ∧ Gathers c' r' := by
  induction h generalizing c r with
  | other hpassive hmessage _ ih =>
    obtain ⟨written, hframe⟩ := onFrame_passive (c := c) hpassive
    obtain ⟨c₁, hstep, hrest⟩ := runFrames_cons hrun
    obtain rfl := Option.some.inj (hframe.symm.trans hstep)
    obtain ⟨hfinished, -⟩ | ⟨-, hrest⟩ := hrest
    · exact absurd (hopen.symm.trans hfinished) Bool.false_ne_true
    · obtain ⟨seen, post, r', rfl, hfin, hreads, hgathers⟩ :=
        ih (c := { c with written }) ht hopen ⟨hc.table, hc.body, hc.head⟩ hrest
      exact ⟨_ :: seen, post, r', rfl, hfin.cons hpassive.not_endsStream,
        .other hpassive hmessage hreads, hgathers⟩
  | @data t f fs d hon hdata _ ih =>
    obtain ⟨c₁, hstep, hrest⟩ := runFrames_cons hrun
    obtain rfl := Option.some.inj ((onFrame_data hon).symm.trans hstep)
    have hgathers := (hc.data hdata).finishAt f
    have hflag := finishAt_finished (f := f)
      (c := { c with bodyAccumulator := c.bodyAccumulator ++ dataBytes f }) hopen
    obtain ⟨hfinished, rfl⟩ | ⟨hmore, hrest⟩ := hrest
    · exact ⟨[f], fs, _, rfl, finished_one ⟨.inr hon, hflag.symm.trans hfinished⟩,
        .data hon hdata (.nil _), hgathers⟩
    · have hplain := hflag.symm.trans hmore
      obtain ⟨seen, post, r', rfl, hfin, hreads, hgathers'⟩ :=
        ih hplain (r := { r with body := r.body ++ d }) ht hmore hgathers hrest
      refine ⟨f :: seen, post, r', rfl, hfin.cons fun hends => ?_, .data hon hdata hreads, hgathers'⟩
      exact absurd (hplain.symm.trans hends.2) Bool.false_ne_true
  | @headers t f fs fragment d hon hfragment hends hdecodes hok _ ih =>
    obtain ⟨c₁, hstep, hrest⟩ := runFrames_cons hrun
    rw [onFrame_headers hon, onHeaders, headerBlock_fragment hfragment] at hstep
    obtain ⟨d', hdecoded, hstep⟩ := Option.map_eq_some_iff.mp hstep
    rw [hc.table, ht] at hdecoded
    obtain rfl := hdecodes.unique hdecoded
    rw [if_pos hok] at hstep
    subst hstep
    have hgathers := (hc.headers (d := d)).finishAt f
    have hflag := finishAt_finished (f := f)
      (c := { c with
        table := d.table, headersReceived := true, head := d.headers.foldl addField c.head }) hopen
    have hreads : ∀ {seen r'}, Reads { r with table := d.table, fields := r.fields ++ d.headers }
        seen r' → Reads r (f :: seen) r' := fun hseen => by
      have hnone : ∀ g ∈ ([] : List Frame), OnStream .continuation g := nofun
      refine .headers hon hfragment hnone (by rw [map_cons, hends]; rfl) ?_ hok hseen
      rw [flatMap_nil, append_nil, ht]
      exact hdecodes
    obtain ⟨hfinished, rfl⟩ | ⟨hmore, hrest⟩ := hrest
    · exact ⟨[f], fs, _, rfl, finished_one ⟨.inl hon, hflag.symm.trans hfinished⟩, hreads (.nil _),
        hgathers⟩
    · have hplain := hflag.symm.trans hmore
      obtain ⟨seen, post, r', rfl, hfin, hseen, hgathers'⟩ := ih hplain rfl hmore hgathers hrest
      refine ⟨f :: seen, post, r', rfl, hfin.cons fun hstream => ?_, hreads hseen, hgathers'⟩
      exact absurd (hplain.symm.trans hstream.2) Bool.false_ne_true

/-! ## Runs without a header block -/

theorem OnStream.unique {type type' : FrameType} (h : OnStream type f) (h' : OnStream type' f) :
    type = type' := h.1.symm.trans h'.1

theorem headers_not_breaksOff (hon : OnStream .headers f) : ¬ BreaksOff f := by
  rintro (htype | hrst)
  · exact nomatch hon.1.symm.trans htype
  · exact nomatch hon.unique hrst

theorem data_not_breaksOff (hon : OnStream .data f) : ¬ BreaksOff f := by
  rintro (htype | hrst)
  · exact nomatch hon.1.symm.trans htype
  · exact nomatch hon.unique hrst

variable {t : DynamicTable}

theorem Headerless.of_passive (hpassive : Passive f) (h : Headerless t (f :: fs)) :
    Headerless t fs := by
  cases h with
  | broken hbreaks => exact absurd hbreaks hpassive.2.2
  | other _ hrest => exact hrest
  | data hon _ => exact absurd hon hpassive.2.1
  | passedOver hon _ _ => exact absurd hon hpassive.1
  | undecodable hon _ _ _ _ => exact absurd hon hpassive.1

theorem headerless_data (hon : OnStream .data f) :
    Headerless t (f :: fs) ↔ (f.hasFlag flagEndStream = false → Headerless t fs) := by
  constructor
  · intro h
    cases h with
    | broken hbreaks => exact absurd hbreaks (data_not_breaksOff hon)
    | other hpassive _ => exact absurd hon hpassive.2.1
    | data _ hrest => exact hrest
    | passedOver hheaders _ _ => exact nomatch hon.unique hheaders
    | undecodable hheaders _ _ _ _ => exact nomatch hon.unique hheaders
  · exact Headerless.data hon

theorem Headerless.of_headers (hon : OnStream .headers f) (h : Headerless t (f :: fs)) :
    headerBlock f = none ∧ (f.hasFlag flagEndStream = false → Headerless t fs) ∨
      ∃ block d, headerBlock f = some block ∧ Decodes block t d ∧ d.ok = false ∧
        (f.hasFlag flagEndStream = false → Headerless d.table fs) := by
  cases h with
  | broken hbreaks => exact absurd hbreaks (headers_not_breaksOff hon)
  | other hpassive _ => exact absurd hon hpassive.1
  | data hdata _ => exact nomatch hon.unique hdata
  | passedOver _ hblock hrest => exact .inl ⟨hblock, hrest⟩
  | undecodable _ hblock hdecodes hfails hrest =>
    exact .inr ⟨_, _, hblock, hdecodes, hfails, hrest⟩

theorem headerless_passedOver (hon : OnStream .headers f) (hblock : headerBlock f = none) :
    Headerless t (f :: fs) ↔ (f.hasFlag flagEndStream = false → Headerless t fs) := by
  constructor
  · intro h
    obtain ⟨-, hrest⟩ | ⟨block, d, hsome, -⟩ := h.of_headers hon
    · exact hrest
    · exact nomatch hblock.symm.trans hsome
  · exact Headerless.passedOver hon hblock

/-- With a block that has been decoded, everything depends on whether it could be. -/
theorem headerless_decoded {block : Bytes} {d : Decoded} (hon : OnStream .headers f)
    (hblock : headerBlock f = some block) (hdecoded : decodeBlock rounds block t = some d) :
    Headerless t (f :: fs) ↔
      d.ok = false ∧ (f.hasFlag flagEndStream = false → Headerless d.table fs) := by
  constructor
  · intro h
    obtain ⟨hnoblock, -⟩ | ⟨block', d', hblock', hdecodes, hfails, hrest⟩ := h.of_headers hon
    · exact nomatch hblock.symm.trans hnoblock
    · obtain rfl := Option.some.inj (hblock.symm.trans hblock')
      obtain rfl := hdecodes.unique hdecoded
      exact ⟨hfails, hrest⟩
  · rintro ⟨hfails, hrest⟩
    exact .undecodable hon hblock ⟨rounds, hdecoded⟩ hfails hrest

theorem finishAt_frame (f : Frame) (c : Client) :
    (finishAt f c).headersReceived = c.headersReceived ∧ (finishAt f c).head = c.head ∧
      (finishAt f c).table = c.table := by
  rw [finishAt]
  split
  · exact ⟨rfl, rfl, rfl⟩
  · exact ⟨rfl, rfl, rfl⟩

/-- A header block that has been decoded is not forgotten. -/
theorem received_onFrame (h : c.headersReceived = true) (hstep : onFrame rounds c f = some c') :
    c'.headersReceived = true := by
  obtain hon | hon | hbreaks | hpassive := frame_cases f
  · rw [onFrame_headers hon, onHeaders] at hstep
    split at hstep
    · obtain rfl := Option.some.inj hstep
      exact (finishAt_frame f c).1.trans h
    · obtain ⟨d, -, rfl⟩ := Option.map_eq_some_iff.mp hstep
      split
      · exact (finishAt_frame f _).1
      · exact (finishAt_frame f _).1.trans h
  · obtain rfl := Option.some.inj ((onFrame_data hon).symm.trans hstep)
    exact (finishAt_frame f _).1.trans h
  · obtain rfl := Option.some.inj ((onFrame_breaks hbreaks).symm.trans hstep)
    exact h
  · obtain ⟨written, hframe⟩ := onFrame_passive (c := c) hpassive
    obtain rfl := Option.some.inj (hframe.symm.trans hstep)
    exact h

theorem received_run (h : c.headersReceived = true) (hrun : runFrames rounds c fs = some c') :
    c'.headersReceived = true := by
  induction fs generalizing c with
  | nil => exact Option.some.inj hrun ▸ h
  | cons f fs ih =>
    obtain ⟨c₁, hstep, ⟨-, rfl⟩ | ⟨-, hrest⟩⟩ := runFrames_cons hrun
    · exact received_onFrame h hstep
    · exact ih (received_onFrame h hstep) hrest

/-- What is left of a run behind a frame that sets nothing in the head. -/
theorem headerless_finishAt (hopen : c.responseFinished = false)
    (hnone : c.headersReceived = false)
    (hfirst : Headerless t (f :: fs) ↔ (f.hasFlag flagEndStream = false → Headerless c.table fs))
    (hrest : (finishAt f c).responseFinished = true ∧ c' = finishAt f c ∨
      (finishAt f c).responseFinished = false ∧ runFrames rounds (finishAt f c) fs = some c')
    (hlater : ∀ {c₁ : Client}, c₁.responseFinished = false → c₁.headersReceived = false →
      runFrames rounds c₁ fs = some c' → (c'.headersReceived = false ↔ Headerless c₁.table fs) ∧
        (c'.headersReceived = false → c'.head = c₁.head)) :
    (c'.headersReceived = false ↔ Headerless t (f :: fs)) ∧
      (c'.headersReceived = false → c'.head = c.head) := by
  obtain ⟨hreceived, hhead, htable⟩ := finishAt_frame f c
  have hflag := finishAt_finished (f := f) hopen
  rw [hfirst]
  obtain ⟨hfinished, rfl⟩ | ⟨hmore, hrest⟩ := hrest
  · refine ⟨iff_of_true (hreceived.trans hnone) fun hplain => ?_, fun _ => hhead⟩
    exact absurd (hplain.symm.trans (hflag.symm.trans hfinished)) Bool.false_ne_true
  · obtain ⟨hiff, hsame⟩ := hlater hmore (hreceived.trans hnone) hrest
    rw [htable] at hiff
    exact ⟨hiff.trans ⟨fun h _ => h, fun h => h (hflag.symm.trans hmore)⟩,
      fun h => (hsame h).trans hhead⟩

/-- A run has decoded no header block exactly when there was none to be decoded. -/
theorem headerless_run (hopen : c.responseFinished = false) (hnone : c.headersReceived = false)
    (hrun : runFrames rounds c fs = some c') :
    (c'.headersReceived = false ↔ Headerless c.table fs) ∧
      (c'.headersReceived = false → c'.head = c.head) := by
  induction fs generalizing c with
  | nil =>
    obtain rfl := Option.some.inj hrun
    exact ⟨iff_of_true hnone (.closed _), fun _ => rfl⟩
  | cons f fs ih =>
    obtain ⟨c₁, hstep, hrest⟩ := runFrames_cons hrun
    obtain hon | hon | hbreaks | hpassive := frame_cases f
    · rw [onFrame_headers hon, onHeaders] at hstep
      split at hstep
      · rename_i hblock
        obtain rfl := Option.some.inj hstep
        exact headerless_finishAt hopen hnone (headerless_passedOver hon hblock) hrest ih
      · rename_i block hblock
        obtain ⟨d, hdecoded, rfl⟩ := Option.map_eq_some_iff.mp hstep
        have hfirst : Headerless c.table (f :: fs) ↔ _ := headerless_decoded hon hblock hdecoded
        by_cases hok : d.ok = true
        · -- this block is decoded, so the run is not without one
          rw [if_pos hok] at hrest
          have hreceived : c'.headersReceived = true := by
            obtain ⟨-, rfl⟩ | ⟨-, hrest⟩ := hrest
            · exact (finishAt_frame f _).1
            · exact received_run (finishAt_frame f _).1 hrest
          exact ⟨iff_of_false (ne_false_of_eq_true hreceived)
              fun h => ne_false_of_eq_true hok (hfirst.mp h).1,
            fun h => absurd h (ne_false_of_eq_true hreceived)⟩
        · rw [if_neg hok] at hrest
          have hfails := Bool.eq_false_iff.mpr hok
          exact headerless_finishAt (c := { c with table := d.table }) hopen hnone
            (hfirst.trans (and_iff_right hfails)) hrest ih
    · obtain rfl := Option.some.inj ((onFrame_data hon).symm.trans hstep)
      exact headerless_finishAt
        (c := { c with bodyAccumulator := c.bodyAccumulator ++ dataBytes f }) hopen hnone
        (headerless_data hon) hrest ih
    · obtain rfl := Option.some.inj ((onFrame_breaks hbreaks).symm.trans hstep)
      obtain ⟨-, rfl⟩ | ⟨hmore, -⟩ := hrest
      · exact ⟨iff_of_true hnone (.broken hbreaks), fun _ => rfl⟩
      · cases hmore
    · obtain ⟨written, hframe⟩ := onFrame_passive (c := c) hpassive
      obtain rfl := Option.some.inj (hframe.symm.trans hstep)
      obtain ⟨hfinished, -⟩ | ⟨-, hrest⟩ := hrest
      · exact absurd (hopen.symm.trans hfinished) Bool.false_ne_true
      · obtain ⟨hiff, hsame⟩ := ih (c := { c with written }) hopen hnone hrest
        exact ⟨hiff.trans ⟨fun h => .other hpassive h, fun h => h.of_passive hpassive⟩, hsame⟩

/-! ## What is returned -/

theorem Finished.tail {seen : List Frame} (h : Finished (f :: seen)) (hf : ¬ EndsStream f) :
    Finished seen := by
  obtain ⟨before, g, continuations, heq, hends, hbefore, hcontinued⟩ := h
  cases before with
  | nil =>
    obtain ⟨rfl, -⟩ := List.cons.inj heq
    exact absurd hends hf
  | cons f' before =>
    obtain ⟨-, rfl⟩ := List.cons.inj heq
    exact ⟨before, g, continuations, rfl, hends,
      fun f hmem => hbefore f (mem_cons_of_mem _ hmem), hcontinued⟩

theorem not_endsStream_of_plain (hplain : f.hasFlag flagEndStream = false) : ¬ EndsStream f :=
  fun hends => absurd (hplain.symm.trans hends.2) Bool.false_ne_true

/-- No header block of stream 1 is continued. -/
def Unsplit (fs : List Frame) : Prop := ∀ f ∈ fs, ¬ OnStream .continuation f

instance (fs : List Frame) : Decidable (Unsplit fs) := inferInstanceAs (Decidable (∀ f ∈ fs, _))

/-- A stream that is read to its end without CONTINUATION frames is one of whole frames. -/
theorem reads_whole {seen post : List Frame} {r r' : Reading} (hreads : Reads r seen r')
    (hfin : Finished seen) (hunsplit : Unsplit seen) : Whole r.table (seen ++ post) := by
  induction hreads with
  | nil r =>
    obtain ⟨before, g, continuations, heq, -⟩ := hfin
    exact absurd heq.symm (append_ne_nil_of_right_ne_nil _ (cons_ne_nil _ _))
  | other hpassive hmessage _ ih =>
    exact .other hpassive hmessage
      (ih (hfin.tail hpassive.not_endsStream) (forall_mem_cons.mp hunsplit).2)
  | data hon hdata _ ih =>
    refine .data hon hdata fun hplain => ?_
    exact ih (hfin.tail (not_endsStream_of_plain hplain)) (forall_mem_cons.mp hunsplit).2
  | @headers r r' h continuations fs fragment d hon hfragment hcontinued hends hdecodes hok _ ih =>
    obtain ⟨-, hrest⟩ := forall_mem_cons.mp hunsplit
    obtain ⟨hnone, hrest⟩ := forall_mem_append.mp hrest
    obtain rfl : continuations = [] := by
      cases continuations with
      | nil => rfl
      | cons f _ =>
        exact absurd (hcontinued f mem_cons_self) (hnone f mem_cons_self)
    rw [flatMap_nil, append_nil] at hdecodes
    refine .headers hon hfragment (List.cons.inj hends).1 hdecodes hok fun hplain => ?_
    exact ih (hfin.tail (not_endsStream_of_plain hplain)) hrest

theorem outcome_received (hreceived : c.headersReceived = true) :
    outcome c = .ok { statusCode := c.head.statusCode, statusText := c.head.statusText
                      headers := c.head.headers, body := c.bodyAccumulator } :=
  if_neg fun hnone => hnone.1 hreceived

theorem Gathers.response {r : Reading} (h : Gathers c r) (hreceived : c.headersReceived = true) :
    outcome c = .ok r.response := by
  rw [outcome_received hreceived, h.head, h.body]
  rfl

/-- A stream without a header block gives the error. -/
theorem outcome_headerless (hnone : c.headersReceived = false) (hhead : c.head = {}) :
    outcome c = .error incomplete := by
  rw [outcome, if_pos]
  rw [hnone, hhead]
  exact ⟨Bool.false_ne_true, rfl⟩

variable {reads : List Bytes} {o : Except ClientResponse ClientResponse}

/-- A response of three frames, with SETTINGS between its header block and its data. -/
def answered : List Frame :=
  [{ type := .headers, flags := flagEndHeaders, streamId := 1, payload := [0x88] },
    { type := .settings, flags := 0, streamId := 0, payload := [] },
    { type := .data, flags := flagEndStream, streamId := 1, payload := text "hi" }]

/-- The bytes of the three frames, cut in the middle of the first and of the last. -/
def answeredReads : List Bytes :=
  let bytes := answered.flatMap encodeFrame
  [bytes.take 4, (bytes.drop 4).take 20, bytes.drop 24]

/-- The server resets the stream in the middle of the body. -/
def resetReads : List Bytes :=
  [encodeFrame { type := .headers, flags := flagEndHeaders, streamId := 1, payload := [0x88] },
    encodeFrame { type := .data, flags := 0, streamId := 1, payload := text "he" },
    encodeFrame { type := .rstStream, flags := 0, streamId := 1, payload := [0, 0, 0, 2] }]

end Http2Client
