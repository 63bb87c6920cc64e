import WaveX.Chunks
import WaveX.Http2RequestWire
import WaveX.Http2Session

/-! # Responses over `send_frames`

    A response is serialised as a HEADERS frame and DATA frames, and `send_frames` makes
    others of them: DATA frames are cut as the windows allow, and a header block that does
    not fit into a frame of the peer's size goes on in CONTINUATION frames.

    `parse_response` puts the body together again, however it was cut.  It has nothing for
    CONTINUATION: it decodes the fragment in the HEADERS frame as if it were the whole
    block, so of a block that was cut it reads a part of the fields at most. -/

namespace Http2ResponseFraming

open QuicVarInt HttpText Hpack HeaderStrings HpackRoundTrip Http2Frames Http2FrameCodec Http2Parser
  List
open Http2RequestWire Http2Session
open Chunks hiding Cut

/-! ## What is sent -/

/-- The frames of `encoder::serialize_into`: the loop over the body is that of
    `build_request_wire`. -/
def responseFrames (sid statusCode : Nat) (headers : List Field) (body : Bytes) : List Frame :=
  { type := .headers
    flags := flagEndHeaders ||| endStreamFlags body.isEmpty
    streamId := sid
    payload := encodeResponseHeaders statusCode headers } ::
  bodyFrames sid true body.length body

/-- `encoder::serialize_into`. -/
def serializeResponse (sid statusCode : Nat) (headers : List Field) (body : Bytes) : Bytes :=
  (responseFrames sid statusCode headers body).flatMap encodeFrame

/-- The frames that a `send_frames` queues until it is done.  Between two of its waits the
    session may have become any other; when it takes up a frame, the frame size of the peer
    is `size`. -/
inductive SendRun (sid size : Nat) : Send → List Frame → Prop where
  | done : SendRun sid size { todo := [] } []
  | resume {s s' : Session} {st st' : StreamState} {snd snd' : Send} {new out : List Frame}
      (hid : st.id = sid) (hsize : snd.piece = none → s.peerMaxFrameSize = size)
      (hopen : failed s st = false) (hstep : resumeSend s st snd = some s')
      (hlog : s'.log = (new.map Event.sent).reverse ++ s.log) (hst : st' ∈ s'.streams)
      (hid' : st'.id = sid) (hnext : st'.sending = some snd')
      (hrun : SendRun sid size snd' out) : SendRun sid size snd (new ++ out)

/-! ## A header block in part -/

variable {cap statusCode sid size : Nat} {headers fields : List Field} {block : Bytes}
  {reps : List Bytes} {t : DynamicTable}

/-- A representation that breaks off is refused. -/
def Breaks (rep : Bytes) : Prop :=
  ∀ {input part tail : Bytes} {c : Nat} {t : DynamicTable} {b : UInt8}, Cut part rep →
    c + rep.length < 2 ^ 64 → At input c part → input.drop c = b :: tail →
      decodeRound input c t b.toNat = none

theorem encodeIndexed_breaks {idx : Nat} : Breaks (encodeIndexed idx) := by
  intro input part tail c t b hcut hsize hat hdrop
  have hfits : PrefixFits 7 0x80 := by decide
  have hwhole : Cut part (encodeInteger idx 7 0x80 ++ []) := by
    rw [append_nil]
    exact hcut
  have hflag := first_of_cut hfits hat hwhole hdrop
  rw [decodeRound, hflag 0x80 (by decide), if_pos (by decide), decodeInteger_cut hfits hcut hat.drop]
  rfl

theorem encodeNamed_breaks {idx : Nat} {e : String × String} (hidx : 1 ≤ idx)
    (he : staticTable[idx]? = some e) (value : Bytes) : Breaks (encodeNamed idx value) := by
  intro input part tail c t b hcut hsize hat hdrop
  have hfits : PrefixFits 4 0 := by decide
  have hlt := static_lt he
  rw [encodeNamed] at hcut hsize
  have hflag := first_of_cut hfits hat hcut hdrop
  have hliteral : Hpack.decodeLiteral input c 4 t = none := by
    rw [length_append] at hsize
    rw [Hpack.decodeLiteral]
    obtain hinteger | ⟨part', rfl, hvalue⟩ := hcut.append
    · rw [decodeInteger_cut hfits hinteger hat.drop]
      rfl
    · rw [decodeInteger_encode hfits (by omega) hat]
      simp only [Option.bind_eq_bind, Option.bind_some, if_neg (Nat.ne_of_gt hidx)]
      split
      · rfl
      · rw [Option.bind_some, decodeString_cut hat.advance hvalue (by omega)]
        rfl
  rw [decodeRound, hflag 0x80 (by decide), hflag 0x40 (by decide), hflag 0x20 (by decide),
    if_neg (by decide), if_neg (by decide), if_neg (by decide), hliteral]
  rfl

theorem encodeLiteral_breaks (name value : Bytes) : Breaks (encodeLiteral name value) :=
  fun hcut hsize hat hdrop => decodeRound_cut hcut hsize hat hdrop

theorem encodeField_breaks (name value : Bytes) : Breaks (encodeField name value) := by
  rw [encodeField]
  obtain ⟨idx, e, hfind, -⟩ | ⟨idx, hfind, hname⟩ := findStatic_spec name value
  · rw [hfind]
    exact encodeIndexed_breaks
  · rw [hfind]
    dsimp only
    split
    · next hpos =>
        obtain hzero | ⟨hidx, e, he, -⟩ := hname
        · omega
        · exact encodeNamed_breaks hidx he value
    · exact encodeLiteral_breaks name value

theorem encodeKnown_breaks {nameIdx : Nat} {e : String × String} (hidx : 1 ≤ nameIdx)
    (he : staticTable[nameIdx]? = some e) (name value : Bytes) :
    Breaks (encodeKnown name nameIdx value) := by
  rw [encodeKnown]
  obtain ⟨idx, e', hfind, -⟩ | ⟨idx, hfind, -⟩ := findStatic_spec name value
  · rw [hfind]
    exact encodeIndexed_breaks
  · rw [hfind]
    exact encodeNamed_breaks hidx he value

/-- The block of a response in representations. -/
theorem response_reps (statusCode : Nat) (headers : List Field) : ∃ reps,
    encodeResponseHeaders statusCode headers = reps.flatten ∧
      List.Forall₂ Represents reps (responseFields statusCode headers) ∧
      ∀ rep ∈ reps, Breaks rep := by
  have hheaders : ∀ headers : List Field, ∃ reps, encodeHeaders headers = reps.flatten ∧
      List.Forall₂ Represents reps (regularFields headers) ∧ ∀ rep ∈ reps, Breaks rep := by
    intro headers
    induction headers with
    | nil => exact ⟨[], rfl, .nil, forall_mem_nil _⟩
    | cons h headers ih =>
      obtain ⟨reps, hflat, hreps, hbreaks⟩ := ih
      rw [encodeHeaders, flatMap_cons, regularFields]
      by_cases hpseudo : isPseudo h.1 = true
      · rw [if_pos hpseudo, filter_cons_of_neg (by rw [hpseudo]; decide)]
        exact ⟨reps, hflat, hreps, hbreaks⟩
      · rw [if_neg hpseudo, filter_cons_of_pos (by simpa using hpseudo), map_cons]
        refine ⟨encodeField (lower h.1) h.2 :: reps, ?_, .cons ?_ hreps,
          forall_mem_cons.mpr ⟨encodeField_breaks (lower h.1) h.2, hbreaks⟩⟩
        · rw [flatten_cons, ← hflat]
          rfl
        · exact encodeField_represents (lower_idem h.1) h.2
  have hentry : staticTable[8]? = some (":status", "200") := rfl
  obtain ⟨reps, hflat, hreps, hbreaks⟩ := hheaders headers
  refine ⟨encodeKnown (text ":status") 8 (decimal statusCode) :: reps, ?_, .cons ?_ hreps,
    forall_mem_cons.mpr ⟨encodeKnown_breaks (by decide) hentry _ _, hbreaks⟩⟩
  · rw [flatten_cons, ← hflat]
    rfl
  · exact encodeKnown_represents (by decide) hentry _

/-- The front of a sequence is some of its pieces and a part of the next one. -/
theorem take_flatten {reps : List Bytes} {n : Nat} (hn : n < reps.flatten.length) :
    ∃ k part rep, reps[k]? = some rep ∧ Cut part rep ∧
      reps.flatten.take n = (reps.take k).flatten ++ part := by
  induction reps generalizing n with
  | nil => exact absurd hn (Nat.not_lt_zero n)
  | cons rep reps ih =>
    rw [flatten_cons, length_append] at hn
    by_cases hfirst : n < rep.length
    · refine ⟨0, rep.take n, rep, rfl, ⟨List.take_prefix n rep, ?_⟩, ?_⟩
      · rw [length_take]
        omega
      · rw [flatten_cons, take_append_of_le_length (Nat.le_of_lt hfirst)]
        rfl
    · obtain ⟨k, part, rep', hrep, hcut, htake⟩ := ih (n := n - rep.length) (by omega)
      refine ⟨k + 1, part, rep', hrep, hcut, ?_⟩
      rw [flatten_cons, take_append, take_of_length_le (Nat.not_lt.mp hfirst), htake,
        take_succ_cons, flatten_cons, append_assoc]

theorem reps_rounds (hreps : List.Forall₂ Represents reps fields) (cap : Nat) (part : Bytes) :
    reps.length < roundLimit cap (reps.flatten ++ part) := by
  have hle := length_le_flatten Represents.nonempty hreps
  have hone : 1 * ((reps.flatten ++ part).length + 1) ≤
      (cap / 32 + 2) * ((reps.flatten ++ part).length + 1) := Nat.mul_le_mul_right _ (by omega)
  rw [roundLimit]
  rw [length_append] at hone ⊢
  omega

/-- A list beyond the cap is refused. -/
theorem decode_overLimit (hreps : List.Forall₂ Represents reps fields)
    (hsize : reps.flatten.length < 2 ^ 64) (t : DynamicTable) (hover : overLimit cap fields = true) :
    (decodeHeaderBlock cap reps.flatten t).ok = false := by
  have hrounds := reps_rounds hreps cap []
  rw [append_nil] at hrounds
  exact Fails.decodeHeaderBlock (decodeLoop_overLimit hsize hreps (At.start _) hrounds hover)

/-- Of a block that is cut, the decoder reads a part of the fields, or fails. -/
theorem decode_part (hreps : List.Forall₂ Represents reps fields)
    (hbreaks : ∀ rep ∈ reps, Breaks rep) (hsize : reps.flatten.length < 2 ^ 63) {n : Nat}
    (hpos : 0 < n) (hn : n < reps.flatten.length) (t : DynamicTable)
    (hok : (decodeHeaderBlock cap (reps.flatten.take n) t).ok = true) :
    ∃ k, 0 < k ∧ k < fields.length ∧
      (decodeHeaderBlock cap (reps.flatten.take n) t).headers = fields.take k := by
  obtain ⟨k, part, rep, hrep, hcut, htake⟩ := take_flatten hn
  have hfront := List.forall₂_take k hreps
  have hlt : k < fields.length := hreps.length_eq ▸ (List.getElem?_eq_some_iff.mp hrep).1
  have hshort := congrArg List.length htake
  rw [length_take, length_append] at hshort
  rw [htake] at hok ⊢
  by_cases hpart : part = []
  · rw [hpart, append_nil] at hok ⊢
    rw [hpart, length_nil] at hshort
    by_cases hover : overLimit cap (fields.take k) = true
    · rw [decode_overLimit hfront (by omega) t hover] at hok
      cases hok
    · have hspells : Spells (reps.take k).flatten (fields.take k) := ⟨reps.take k, rfl, hfront⟩
      rw [hspells.decodeHeaderBlock (by omega) t (Bool.eq_false_iff.mpr hover)]
      refine ⟨k, Nat.pos_of_ne_zero fun hzero => ?_, hlt, rfl⟩
      rw [hzero, take_zero, flatten_nil, length_nil] at hshort
      omega
  · have hfails : Fails (decodeLoop cap ((reps.take k).flatten ++ part)
        (roundLimit cap ((reps.take k).flatten ++ part)) 0 t []) := by
      refine decodeLoop_refused (by rw [length_append]; omega) hfront hpart ?_ (At.start _)
        (reps_rounds hfront cap part)
      intro c b tail hat hdrop
      have hlength := hat.length
      rw [length_append] at hlength
      have hrest : rep.length ≤ reps.flatten.length :=
        (sublist_flatten_of_mem (mem_of_getElem? hrep)).length_le
      exact hbreaks rep (mem_of_getElem? hrep) hcut (by omega) hat hdrop
    rw [hfails.decodeHeaderBlock] at hok
    cases hok

/-! ## What `send_frames` queues -/

variable {s s' : Session} {st st' : StreamState} {snd : Send} {f : Frame} {todo out : List Frame}
  {body : Bytes}

/-- The DATA frames of chunks. -/
def chunkFrames (sid : Nat) (chunks : List (Bytes × Bool)) : List Frame :=
  chunks.map fun c => dataFrame sid c.1 c.2

/-- What becomes of one frame. -/
inductive Emits (sid size : Nat) (f : Frame) : List Frame → Prop where
  | data {chunks : List (Bytes × Bool)} (htype : f.type = .data)
      (hcut : Chunks.Cut (f.payload, f.hasFlag flagEndStream) chunks) :
      Emits sid size f (chunkFrames sid chunks)
  | headers (htype : f.type = .headers) :
      Emits sid size f (encodeHeaderFrames sid f.payload (f.hasFlag flagEndStream) size)
  | other (htype : f.type ≠ .data ∧ f.type ≠ .headers) :
      Emits sid size f [{ f with streamId := sid }]

/-- What is left to queue: the rest of the piece that is being sent, and the frames after. -/
def Left (sid size : Nat) (snd : Send) (out : List Frame) : Prop :=
  ∃ chunks outs, out = chunkFrames sid chunks ++ outs.flatten ∧
    List.Forall₂ (Emits sid size) snd.todo outs ∧
      match snd.piece with
      | none => chunks = []
      | some piece => Chunks.Cut piece chunks

theorem sendAll_log (fs : List Frame) (h : s.dead = false) :
    (s.sendAll fs).log = (fs.map Event.sent).reverse ++ s.log ∧
      (s.sendAll fs).streams = s.streams := by
  induction fs generalizing s with
  | nil => exact ⟨rfl, rfl⟩
  | cons f fs ih =>
    have hsend : s.send f = { s with
        outboxBytes := s.outboxBytes + f.wireSize, log := .sent f :: s.log } := by
      rw [Session.send, if_neg (by rw [h]; exact Bool.false_ne_true)]
      rfl
    obtain ⟨hlog, hstreams⟩ := ih (s := s.send f) (by rw [hsend]; exact h)
    have hall : s.sendAll (f :: fs) = (s.send f).sendAll fs := rfl
    rw [hall, hlog, hstreams, hsend, map_cons, reverse_cons, append_assoc]
    exact ⟨rfl, rfl⟩

/-- Only the frames that are new in the log were queued. -/
theorem new_frames {new new' : List Frame} {log : List Event}
    (h : (new.map Event.sent).reverse ++ log = (new'.map Event.sent).reverse ++ log) :
    new = new' := by
  have hinj : Function.Injective Event.sent := fun _ _ heq => by cases heq; rfl
  exact hinj.list_map (reverse_injective (append_cancel_right h))

theorem modify_sending {g : StreamState → StreamState} (next : Option Send)
    (hst : st' ∈ (s.modify sid g).streams) (hid : st'.id = sid)
    (hsending : ∀ x, (g x).sending = next) : st'.sending = next := by
  obtain ⟨x, -, rfl⟩ := mem_map.mp hst
  by_cases hx : x.id = sid
  · rw [if_pos hx]
    exact hsending x
  · rw [if_neg hx] at hid
    exact absurd hid hx

theorem send_log (f : Frame) (h : s.dead = false) :
    (s.send f).log = .sent f :: s.log ∧ (s.send f).streams = s.streams := by
  rw [Session.send, if_neg (by rw [h]; exact Bool.false_ne_true)]
  exact ⟨rfl, rfl⟩

/-- One frame is taken up. -/
theorem sendFrame_left {new : List Frame} {snd' : Send} (hdead : s.dead = false)
    (hlog : (sendFrame s st f todo).log = (new.map Event.sent).reverse ++ s.log)
    (hst : st' ∈ (sendFrame s st f todo).streams) (hid : st'.id = st.id)
    (hnext : st'.sending = some snd')
    (hleft : Left st.id s.peerMaxFrameSize snd' out) :
    Left st.id s.peerMaxFrameSize { todo := f :: todo } (new ++ out) := by
  obtain ⟨chunks, outs, rfl, houts, hpiece⟩ := hleft
  rw [sendFrame] at hlog hst
  split at hlog
  · next htype =>
      rw [htype] at hst
      obtain rfl : new = [] := new_frames hlog.symm
      have hsending := modify_sending (some _) hst hid fun _ => rfl
      obtain rfl := Option.some.inj (hnext.symm.trans hsending)
      exact ⟨[], chunkFrames st.id chunks :: outs, rfl, .cons (.data htype hpiece) houts, rfl⟩
  · next htype =>
      rw [htype] at hst
      obtain ⟨hlog', -⟩ := sendAll_log (s := s)
        (encodeHeaderFrames st.id f.payload (f.hasFlag flagEndStream) s.peerMaxFrameSize) hdead
      obtain rfl := new_frames (hlog.symm.trans hlog')
      have hsending := modify_sending (some _) hst hid fun _ => rfl
      obtain rfl := Option.some.inj (hnext.symm.trans hsending)
      obtain rfl : chunks = [] := hpiece
      exact ⟨[], _ :: outs, rfl, .cons (.headers htype) houts, rfl⟩
  · next hdata hheaders =>
      obtain ⟨hlog', -⟩ := send_log { f with streamId := st.id } hdead
      obtain rfl : new = [{ f with streamId := st.id }] := new_frames (hlog.symm.trans hlog')
      have hstreams : st' ∈ ((s.send { f with streamId := st.id }).modify st.id fun x => { x with
          localClosed := x.localClosed || f.hasFlag flagEndStream
          sending := some { todo } }).streams := by
        split at hst
        · next htype => exact absurd htype hdata
        · next htype => exact absurd htype hheaders
        · exact hst
      have hsending := modify_sending (some _) hstreams hid fun _ => rfl
      obtain rfl := Option.some.inj (hnext.symm.trans hsending)
      obtain rfl : chunks = [] := hpiece
      exact ⟨[], _ :: outs, rfl, .cons (.other ⟨hdata, hheaders⟩) houts, rfl⟩

/-- A piece of the DATA frame in progress. -/
theorem sendChunk_left {new : List Frame} {snd' : Send} {rest : Bytes} {endStream : Bool}
    (hdead : s.dead = false)
    (hlog : (sendChunk s st rest endStream todo).log = (new.map Event.sent).reverse ++ s.log)
    (hst : st' ∈ (sendChunk s st rest endStream todo).streams) (hid : st'.id = st.id)
    (hnext : st'.sending = some snd') (hleft : Left st.id size snd' out) :
    Left st.id size { todo, piece := some (rest, endStream) } (new ++ out) := by
  obtain ⟨chunks, outs, rfl, houts, hpiece⟩ := hleft
  rw [sendChunk] at hlog hst
  generalize hn : chunkSize s st rest.length = n at hlog hst
  obtain ⟨hlog', -⟩ := send_log (s := s)
    (dataFrame st.id (rest.take n) (n == rest.length && endStream)) hdead
  obtain rfl : new = [dataFrame st.id (rest.take n) (n == rest.length && endStream)] :=
    new_frames (hlog.symm.trans hlog')
  have hsending := modify_sending (some _) hst hid fun _ => rfl
  obtain rfl := Option.some.inj (hnext.symm.trans hsending)
  cases hlast : n == rest.length with
  | true =>
    rw [hlast] at hpiece
    obtain rfl : chunks = [] := hpiece
    refine ⟨[(rest.take n, endStream)], outs, rfl, houts, [], rest.take n, rfl, ?_⟩
    rw [beq_iff_eq.mp hlast, take_length]
    rfl
  | false =>
    rw [hlast] at hpiece
    obtain ⟨init, last, rfl, hcontent⟩ : Chunks.Cut (rest.drop n, endStream) chunks := hpiece
    refine ⟨(rest.take n, false) :: (init.map (·, false) ++ [(last, endStream)]), outs, rfl, houts,
      rest.take n :: init, last, rfl, ?_⟩
    rw [flatten_cons, append_assoc, hcontent]
    exact take_append_drop n rest

/-- **What a `send_frames` queues**: each frame in its way, the DATA frames in chunks. -/
theorem SendRun.left (h : SendRun sid size snd out) : Left sid size snd out := by
  induction h with
  | done => exact ⟨[], [], rfl, .nil, rfl⟩
  | @resume s s' st st' snd snd' new out hid hsize hopen hstep hlog hst hid' hnext _ ih =>
    have hdead : s.dead = false := (Bool.or_eq_false_iff.mp hopen).1
    have hnot : ¬ failed s st = true := Bool.eq_false_iff.mp hopen
    subst hid
    obtain ⟨todo, piece⟩ := snd
    cases piece with
    | none =>
      obtain rfl := hsize rfl
      cases todo with
      | nil =>
        obtain rfl := Option.some.inj hstep
        have hsending := modify_sending none hst hid' fun _ => rfl
        cases hnext.symm.trans hsending
      | cons f todo =>
        rw [resumeSend, if_neg hnot] at hstep
        split at hstep
        · obtain rfl := Option.some.inj hstep
          exact sendFrame_left hdead hlog hst hid' hnext ih
        · cases hstep
    | some p =>
      obtain ⟨rest, endStream⟩ := p
      rw [resumeSend, if_neg hnot] at hstep
      split at hstep
      · obtain rfl := Option.some.inj hstep
        exact sendChunk_left hdead hlog hst hid' hnext ih
      · cases hstep

/-! ## The frames of a response -/

variable {chunks : List (Bytes × Bool)} {outs : List (List Frame)}

/-- A chunk is not longer than its piece. -/
theorem cut_length {piece c : Bytes × Bool} (h : Chunks.Cut piece chunks) (hc : c ∈ chunks) :
    c.1.length ≤ piece.1.length := by
  obtain ⟨init, last, rfl, hcontent⟩ := h
  have hall : c.1 ∈ init ++ [last] := by
    obtain hinit | hlast := mem_append.mp hc
    · obtain ⟨x, hx, rfl⟩ := mem_map.mp hinit
      exact mem_append_left _ hx
    · rw [mem_singleton.mp hlast]
      exact mem_append_right _ (mem_singleton_self _)
  have hflat : (init ++ [last]).flatten = piece.1 := by
    rw [flatten_append, flatten_singleton, hcontent]
  rw [← hflat]
  exact (sublist_flatten_of_mem hall).length_le

/-- The chunks of one marked piece behind those of an unmarked one. -/
theorem cut_append {a b : Bytes} {first second : List (Bytes × Bool)}
    (hfirst : Chunks.Cut (a, false) first) (hsecond : Chunks.Cut (b, true) second) :
    Chunks.Cut (a ++ b, true) (first ++ second) := by
  obtain ⟨init, last, rfl, ha⟩ := hfirst
  obtain ⟨init', last', rfl, hb⟩ := hsecond
  refine ⟨init ++ [last] ++ init', last', ?_, ?_⟩
  · simp only [map_append, map_singleton, append_assoc]
  · rw [flatten_append, flatten_append, flatten_singleton, ha, append_assoc, hb]

/-- The body in chunks. -/
theorem body_chunks {rounds : Nat} (hbody : body.length ≤ rounds)
    (h : List.Forall₂ (Emits sid size) (bodyFrames sid true rounds body) outs) :
    ∃ chunks, outs.flatten = chunkFrames sid chunks ∧ (∀ c ∈ chunks, c.1.length ≤ 16384) ∧
      (body = [] ∧ chunks = [] ∨ body ≠ [] ∧ Chunks.Cut (body, true) chunks) := by
  induction rounds generalizing body outs with
  | zero =>
    obtain rfl := eq_nil_of_length_eq_zero (Nat.le_zero.mp hbody)
    cases h
    exact ⟨[], rfl, forall_mem_nil _, .inl ⟨rfl, rfl⟩⟩
  | succ rounds ih =>
    rw [bodyFrames] at h
    by_cases hempty : body = []
    · rw [if_pos hempty] at h
      cases h
      exact ⟨[], rfl, forall_mem_nil _, .inl ⟨hempty, rfl⟩⟩
    · rw [if_neg hempty] at h
      obtain _ | ⟨hemits, hrest⟩ := h
      have hsplit : body.take 16384 ++ body.drop 16384 = body := take_append_drop _ _
      have hfewer : (body.drop 16384).length ≤ rounds := by
        have hpos := length_pos_iff.mpr hempty
        rw [length_drop]
        omega
      obtain ⟨more, hflat, hshort, hmore⟩ := ih hfewer hrest
      obtain ⟨-, hcut⟩ | htype | htype := hemits
      · rename_i first
        rw [dataFrame_ends, Bool.and_true] at hcut
        have hfirst : ∀ c ∈ first, c.1.length ≤ 16384 := by
          intro c hc
          refine Nat.le_trans (cut_length hcut hc) ?_
          show (body.take 16384).length ≤ 16384
          rw [length_take]
          exact Nat.min_le_left _ _
        refine ⟨first ++ more, ?_, ?_, .inr ⟨hempty, ?_⟩⟩
        · rw [flatten_cons, hflat, chunkFrames, chunkFrames, chunkFrames, map_append]
        · intro c hc
          obtain hc | hc := mem_append.mp hc
          · exact hfirst c hc
          · exact hshort c hc
        · obtain ⟨hnone, rfl⟩ | ⟨hsome, hcut'⟩ := hmore
          · rw [hnone, append_nil] at hsplit
            rw [hnone] at hcut
            rw [append_nil, ← hsplit]
            exact hcut
          · rw [isEmpty_eq_false_iff.mpr hsome] at hcut
            rw [← hsplit]
            exact cut_append hcut hcut'
      · cases htype
      · exact absurd rfl htype.1

theorem responseHeaders_ends (last : Bool) :
    ((flagEndHeaders ||| endStreamFlags last) &&& flagEndStream == flagEndStream) = last := by
  revert last
  decide

/-- The frames of `serialize_into` come out of `wire_frames` as they are. -/
theorem wireFrames_response (hblock : (encodeResponseHeaders statusCode headers).length < 2 ^ 24)
    (hsid : sid < 2 ^ 31) : wireFrames (serializeResponse sid statusCode headers body) =
      responseFrames sid statusCode headers body := by
  have hbody : ∀ rounds body, ∀ f ∈ bodyFrames sid true rounds body,
      Encodable f ∧ f.streamId = sid := by
    intro rounds
    induction rounds with
    | zero => exact fun _ f hf => absurd hf not_mem_nil
    | succ rounds ih =>
      intro body f hf
      rw [bodyFrames] at hf
      split at hf
      · exact absurd hf not_mem_nil
      · obtain rfl | hrest := mem_cons.mp hf
        · refine ⟨dataFrame_encodable ?_ sid _, rfl⟩
          rw [length_take]
          omega
        · exact ih _ f hrest
  have hflags : ∀ b, flagEndHeaders ||| endStreamFlags b < 2 ^ 8 := by decide
  have hframes : ∀ f ∈ responseFrames sid statusCode headers body,
      Encodable f ∧ f.streamId = sid := by
    intro f hf
    obtain rfl | hrest := mem_cons.mp hf
    · exact ⟨⟨hblock, rfl, hflags _⟩, rfl⟩
    · exact hbody _ _ f hrest
  rw [serializeResponse, wireFrames_encodeFrame fun f hf => (hframes f hf).1]
  refine (map_congr_left fun f hf => ?_).trans (map_id _)
  have hid := (hframes f hf).2
  rw [hid, Nat.mod_eq_of_lt hsid, ← hid]
  rfl

/-- **The frames of a response** as they are queued. -/
theorem response_emitted (hblock : (encodeResponseHeaders statusCode headers).length < 2 ^ 24)
    (hsid : sid < 2 ^ 31)
    (hrun : SendRun sid size
      { todo := wireFrames (serializeResponse sid statusCode headers body) } out) :
    ∃ chunks, out = encodeHeaderFrames sid (encodeResponseHeaders statusCode headers) body.isEmpty
        size ++ chunkFrames sid chunks ∧ (∀ c ∈ chunks, c.1.length ≤ 16384) ∧
      (body = [] ∧ chunks = [] ∨ body ≠ [] ∧ Chunks.Cut (body, true) chunks) := by
  rw [wireFrames_response hblock hsid] at hrun
  obtain ⟨chunks, outs, rfl, houts, hnone⟩ := hrun.left
  obtain rfl : chunks = [] := hnone
  obtain _ | ⟨hemits, hrest⟩ := houts
  obtain ⟨more, hflat, hshort, hmore⟩ := body_chunks (Nat.le_refl _) hrest
  refine ⟨more, ?_, hshort, hmore⟩
  obtain htype | - | htype := hemits
  · cases htype
  · rw [flatten_cons, hflat]
    have hends := responseHeaders_ends body.isEmpty
    show encodeHeaderFrames sid (encodeResponseHeaders statusCode headers)
      ((flagEndHeaders ||| endStreamFlags body.isEmpty) &&& flagEndStream == flagEndStream) size ++ _ = _
    rw [hends]
  · exact absurd rfl htype.2

/-! ## What the parser reads -/

variable {fuel : Nat} {g : Gathered} {tooLarge : ParseResult} {res : Response}

/-- What the chunks of a body add. -/
def withBody (g : Gathered) (chunks : List (Bytes × Bool)) : Gathered :=
  { g with
    cursor := g.cursor + ((chunkFrames g.streamId chunks).flatMap encodeFrame).length
    bodyAccumulator := g.bodyAccumulator ++ chunks.flatMap Prod.fst }

/-- The parser puts the body together, however it was cut, and leaves at its end. -/
theorem gather_chunks (hsid : sid < 2 ^ 31) (hg : g.streamId = sid) {init : List Bytes}
    {last : Bytes} (hchunks : chunks = init.map (·, false) ++ [(last, true)])
    (hshort : ∀ c ∈ chunks, c.1.length ≤ 16384) (hfuel : init.length < fuel) :
    gather tooLarge fuel g ((chunkFrames sid chunks).flatMap encodeFrame) =
      (.success, withBody g chunks) := by
  have hdata : ∀ c ∈ chunks, c.1.length < 2 ^ 24 := fun c hc =>
    Nat.lt_of_le_of_lt (hshort c hc) (by decide)
  subst hg
  obtain ⟨fuel, rfl⟩ := Nat.exists_eq_add_of_lt hfuel
  induction init generalizing chunks g fuel with
  | nil =>
    obtain rfl : chunks = [(last, true)] := hchunks
    show gather tooLarge _ g (encodeFrame (dataFrame g.streamId last true) ++ []) = _
    rw [gather_dataFrame hsid (hdata _ (mem_singleton_self _)) rfl, if_pos rfl, withBody,
      withData]
    show _ = (ParseResult.success, { g with
      cursor := g.cursor + (encodeFrame (dataFrame g.streamId last true) ++ []).length
      bodyAccumulator := g.bodyAccumulator ++ (last ++ []) })
    rw [append_nil, append_nil, encodeFrame_length]
    rfl
  | cons piece init ih =>
    obtain ⟨more, rfl⟩ : ∃ more, chunks = (piece, false) :: more := ⟨_, hchunks⟩
    have hmore : more = init.map (·, false) ++ [(last, true)] := cons_inj_right _ |>.mp hchunks
    show gather tooLarge _ g (encodeFrame (dataFrame g.streamId piece false) ++
      (chunkFrames g.streamId more).flatMap encodeFrame) = _
    have hround : (piece :: init).length + fuel + 1 = init.length + (fuel + 1) + 1 := by
      rw [length_cons]
      omega
    rw [hround, gather_dataFrame hsid (hdata _ mem_cons_self) rfl, if_neg Bool.false_ne_true]
    have hnext := ih (g := withData g piece) hmore
      (fun c hc => hshort c (mem_cons_of_mem _ hc))
      (fun c hc => hdata c (mem_cons_of_mem _ hc)) hsid fuel (by omega)
    refine (congrArg (fun n => gather tooLarge n _ _) (by omega)).trans (hnext.trans ?_)
    show _ = (ParseResult.success, { g with
      cursor := g.cursor + (encodeFrame (dataFrame g.streamId piece false) ++
        (chunkFrames g.streamId more).flatMap encodeFrame).length
      bodyAccumulator := g.bodyAccumulator ++ (piece ++ more.flatMap Prod.fst) })
    rw [withBody, withData, length_append, encodeFrame_length, ← append_assoc]
    simp only [Nat.add_assoc]
    rfl

/-- CONTINUATION frames are passed over. -/
theorem gather_continuations {fs : List Frame} {rest : Bytes}
    (hfs : ∀ f ∈ fs, f.type = .continuation ∧ Encodable f ∧ f.streamId < 2 ^ 31) :
    gather tooLarge (fuel + fs.length) g (fs.flatMap encodeFrame ++ rest) =
      gather tooLarge fuel { g with cursor := g.cursor + (fs.flatMap encodeFrame).length } rest := by
  induction fs generalizing g with
  | nil => rfl
  | cons f fs ih =>
    obtain ⟨htype, hencodable, hsid⟩ := hfs f mem_cons_self
    have hframe : ∀ g, onFrame tooLarge g f = .next g := by
      intro g
      rw [onFrame, htype]
    rw [flatMap_cons, append_assoc, length_cons, ← Nat.add_assoc,
      gather_frame hencodable hsid, hframe]
    dsimp only
    rw [ih fun f hf => hfs f (mem_cons_of_mem _ hf), length_append, Nat.add_assoc]

/-- The HEADERS frame: all of a short block, or the front of a long one. -/
def firstFrame (sid : Nat) (fragment : Bytes) (ends endHeaders : Bool) : Frame where
  type := .headers
  flags := endStreamFlags ends ||| if endHeaders then flagEndHeaders else 0
  streamId := sid
  payload := fragment

theorem firstFrame_ends (fragment : Bytes) (ends endHeaders : Bool) :
    (firstFrame sid fragment ends endHeaders).hasFlag flagEndStream = ends := by
  have hflags : ∀ ends endHeaders : Bool, ((endStreamFlags ends |||
      if endHeaders then flagEndHeaders else 0) &&& flagEndStream == flagEndStream) = ends := by
    decide
  exact hflags ends endHeaders

theorem firstFrame_fragment (fragment : Bytes) (ends endHeaders : Bool) :
    headersFragment (firstFrame sid fragment ends endHeaders) = some fragment := by
  have hflags : ∀ ends endHeaders : Bool, ((endStreamFlags ends |||
      if endHeaders then flagEndHeaders else 0) &&& flagPadded == flagPadded) = false ∧
      ((endStreamFlags ends ||| if endHeaders then flagEndHeaders else 0) &&& flagPriority ==
        flagPriority) = false := by
    decide
  have hpad : (firstFrame sid fragment ends endHeaders).hasFlag flagPadded = false :=
    (hflags ends endHeaders).1
  have hpriority : (firstFrame sid fragment ends endHeaders).hasFlag flagPriority = false :=
    (hflags ends endHeaders).2
  rw [headersFragment, padding, if_neg (Bool.eq_false_iff.mp hpad)]
  simp only [Option.bind_eq_bind, Option.bind_some, hpriority]
  show (if fragment.length < 0 then none
    else some ((fragment.drop 0).take (fragment.length - 0 - 0))) = _
  rw [if_neg (Nat.not_lt_zero _), drop_zero, Nat.sub_zero, Nat.sub_zero, take_length]

theorem firstFrame_encodable {fragment : Bytes} (h : fragment.length < 2 ^ 24) (sid : Nat)
    (ends endHeaders : Bool) : Encodable (firstFrame sid fragment ends endHeaders) := by
  have hflags : ∀ ends endHeaders : Bool,
      (endStreamFlags ends ||| if endHeaders then flagEndHeaders else 0) < 2 ^ 8 := by decide
  exact ⟨h, rfl, hflags ends endHeaders⟩

/-- A header block in frames. -/
theorem header_frames (sid : Nat) {block : Bytes} (hblock : block.length < 2 ^ 24) (ends : Bool)
    (size : Nat) :
    (block.length ≤ size ∧ encodeHeaderFrames sid block ends size = [firstFrame sid block ends true]) ∨
      (size < block.length ∧ ∃ continuations,
        encodeHeaderFrames sid block ends size =
          firstFrame sid (block.take size) ends false :: continuations ∧
        ∀ f ∈ continuations, f.type = .continuation ∧ Encodable f ∧ f.streamId = sid) := by
  have hmore : ∀ fuel (block : Bytes), block.length < 2 ^ 24 →
      ∀ f ∈ continuationFrames sid size fuel block,
        f.type = .continuation ∧ Encodable f ∧ f.streamId = sid := by
    intro fuel
    induction fuel with
    | zero => exact fun _ _ f hf => absurd hf not_mem_nil
    | succ fuel ih =>
      intro block hblock f hf
      rw [continuationFrames] at hf
      split at hf
      · exact absurd hf not_mem_nil
      · obtain rfl | hrest := mem_cons.mp hf
        · have hflags : ∀ last : Bool, (if last then flagEndHeaders else 0) < 2 ^ 8 := by decide
          refine ⟨rfl, ⟨?_, rfl, hflags _⟩, rfl⟩
          show (block.take size).length < 2 ^ 24
          rw [length_take]
          omega
        · refine ih (block.drop size) ?_ f hrest
          rw [length_drop]
          omega
  rw [encodeHeaderFrames]
  by_cases hfits : block.length ≤ size
  · rw [if_pos hfits]
    exact .inl ⟨hfits, rfl⟩
  · rw [if_neg hfits]
    refine .inr ⟨Nat.not_le.mp hfits,
      continuationFrames sid size block.length (block.drop size), ?_, hmore _ _ ?_⟩
    · rw [firstFrame]
      exact congrArg (fun flags => Frame.mk .headers flags sid _ :: _) (Nat.or_zero _).symm
    · rw [length_drop]
      omega

/-- The body as `parse_emitted` takes it. -/
theorem emitted_body
    (h : body = [] ∧ chunks = [] ∨ body ≠ [] ∧ Chunks.Cut (body, true) chunks) :
    body.isEmpty = true ∧ body = [] ∧ chunks = [] ∨
      body.isEmpty = false ∧ Chunks.Cut (body, true) chunks := by
  obtain ⟨rfl, rfl⟩ | ⟨hsome, hcut⟩ := h
  · exact .inl ⟨rfl, rfl, rfl⟩
  · exact .inr ⟨isEmpty_eq_false_iff.mpr hsome, hcut⟩

/-- **What `parse_response` makes of a response**: the fragment of the first frame decides
    about the headers, and the body is there. -/
theorem parse_emitted {fragment : Bytes} (continuations : List Frame) {ends : Bool}
    (endHeaders : Bool)
    (hsid : sid < 2 ^ 31) (hfragment : fragment.length < 2 ^ 24)
    (hcontinued : ∀ f ∈ continuations, f.type = .continuation ∧ Encodable f ∧ f.streamId = sid)
    (hshort : ∀ c ∈ chunks, c.1.length ≤ 16384)
    (hbody : ends = true ∧ body = [] ∧ chunks = [] ∨ ends = false ∧ Chunks.Cut (body, true) chunks)
    (res : Response) (t : DynamicTable) {d : Decoded}
    (hd : decodeHeaderBlock defaultMaxHeaderListSize fragment t = d) :
    let o := parseResponse ((firstFrame sid fragment ends endHeaders ::
      (continuations ++ chunkFrames sid chunks)).flatMap encodeFrame) res t
    (d.ok = false → o.result ≠ .success) ∧
      (d.ok = true → o.result = .success ∧ o.message = { d.headers.foldl addField
        { res with headers := [], body := [], streamId := sid } with body }) := by
  generalize hrest : (continuations ++ chunkFrames sid chunks).flatMap encodeFrame = rest
  dsimp only
  rw [flatMap_cons, hrest]
  have hencodable := firstFrame_encodable hfragment sid ends endHeaders
  obtain ⟨fuel, hfuel⟩ : ∃ fuel,
      (encodeFrame (firstFrame sid fragment ends endHeaders) ++ rest).length = fuel + 1 ∧
        rest.length ≤ fuel := by
    refine ⟨headerSize + fragment.length - 1 + rest.length, ?_, Nat.le_add_left _ _⟩
    have hsize : headerSize = 9 := rfl
    rw [length_append, encodeFrame_length]
    show headerSize + fragment.length + rest.length = _
    omega
  rw [parseResponse, hfuel.1, gather_frame hencodable hsid,
    onFrame_headers rfl (firstFrame_fragment _ _ _) hd]
  constructor
  · intro hok
    rw [hok, if_neg Bool.false_ne_true]
    dsimp only
    rw [finishResponse, ite_self, if_pos nofun]
    exact nofun
  · intro hok
    rw [hok, if_pos rfl, turn, firstFrame_ends]
    have hfinish : ∀ (c : Nat), finishResponse res t (ParseResult.success,
        { cursor := c, streamId := sid, table := d.table, decodedHeaders := [] ++ d.headers
          headersReceived := true, bodyAccumulator := body }) =
        ⟨.success, { d.headers.foldl addField
          { res with headers := [], body := [], streamId := sid } with body }, c, d.table⟩ := by
      intro c
      rw [nil_append, finishResponse]
      dsimp only
      rw [if_neg (fun h => h rfl), if_neg (fun h => h rfl)]
    have hstream : (firstFrame sid fragment ends endHeaders).streamId = sid := rfl
    rw [hstream]
    -- without a body the first frame ends the stream
    obtain ⟨rfl, rfl, rfl⟩ | ⟨rfl, hcut⟩ := hbody
    · rw [if_pos rfl]
      dsimp only
      rw [hfinish]
      exact ⟨rfl, rfl⟩
    · rw [if_neg Bool.false_ne_true]
      dsimp only
      obtain ⟨init, last, hchunks, hcontent⟩ := hcut
      -- each frame takes one unit of the fuel, and has more bytes than that
      have hcount : ∀ fs : List Frame, fs.length ≤ (fs.flatMap encodeFrame).length := by
        intro fs
        induction fs with
        | nil => exact Nat.le_refl 0
        | cons f fs ih =>
          have hsize : headerSize = 9 := rfl
          rw [flatMap_cons, length_append, encodeFrame_length, length_cons]
          omega
      have hframes := hcount (continuations ++ chunkFrames sid chunks)
      have hnumber : (chunkFrames sid chunks).length = init.length + 1 := by
        rw [chunkFrames, length_map, hchunks, length_append, length_map,
          length_singleton]
      rw [hrest, length_append, hnumber] at hframes
      obtain ⟨more, rfl⟩ : ∃ more, fuel = more + continuations.length :=
        ⟨fuel - continuations.length, by omega⟩
      rw [← hrest, flatMap_append, gather_continuations fun f hf =>
        ⟨(hcontinued f hf).1, (hcontinued f hf).2.1, (hcontinued f hf).2.2 ▸ hsid⟩,
        gather_chunks hsid rfl hchunks hshort (by omega), withBody]
      have hflat : chunks.flatMap Prod.fst = body := Chunks.Cut.content ⟨init, last, hchunks, hcontent⟩
      rw [hflat]
      exact ⟨congrArg Outcome.result (hfinish _), congrArg Outcome.message (hfinish _)⟩

/-! ## The fields of a response -/

/-- A pseudo-header stays one, and no other name becomes one, when it is lowered. -/
theorem isPseudo_lower (name : Bytes) : isPseudo (lower name) = isPseudo name := by
  have hcolon : ∀ c : UInt8, (asciiLower c == 0x3a) = (c == 0x3a) := by decide +kernel
  cases name with
  | nil => rfl
  | cons c name => exact hcolon c

theorem regularFields_regular {f : Field} (hf : f ∈ regularFields headers) :
    isPseudo f.1 = false ∧ lower f.1 = f.1 := by
  obtain ⟨h, hh, rfl⟩ := mem_map.mp hf
  have hregular := (mem_filter.mp hh).2
  refine ⟨?_, lower_idem h.1⟩
  rw [isPseudo_lower]
  simpa using hregular

/-- The headers that are sent as they are. -/
theorem regularFields_eq_iff : regularFields headers = headers ↔
    ∀ f ∈ headers, isPseudo f.1 = false ∧ lower f.1 = f.1 := by
  constructor
  · intro hsame f hf
    rw [← hsame] at hf
    exact regularFields_regular hf
  · intro hall
    rw [regularFields, filter_eq_self.mpr fun f hf => by rw [(hall f hf).1]; rfl]
    refine (map_congr_left fun f hf => ?_).trans (map_id _)
    rw [(hall f hf).2]
    rfl

/-- Fields other than `:status` are appended to the headers. -/
theorem addField_regular (hfields : ∀ f ∈ fields, isPseudo f.1 = false) (res : Response) :
    fields.foldl addField res = { res with headers := res.headers ++ fields } := by
  induction fields generalizing res with
  | nil =>
    rw [append_nil]
    rfl
  | cons f fields ih =>
    have hname : f.1 ≠ text ":status" := by
      intro heq
      have hregular := hfields f mem_cons_self
      rw [heq] at hregular
      cases hregular
    rw [foldl_cons, ih fun g hg => hfields g (mem_cons_of_mem f hg), addField,
      if_neg hname, append_assoc]
    rfl

/-- The fields of a response, or the first of them, as `parse_response` takes them over. -/
theorem addField_response (hstatus : statusCode < 2 ^ 32) (res : Response) (k : Nat) :
    ((responseFields statusCode headers).take (k + 1)).foldl addField res =
      { res with statusCode, headers := res.headers ++ (regularFields headers).take k } := by
  have hparsed : statusOf (decimal statusCode) = statusCode := by
    rw [statusOf, fromChars_decimal (by omega)]
    exact Nat.mod_eq_of_lt hstatus
  have hregular : ∀ f ∈ (regularFields headers).take k, isPseudo f.1 = false := fun f hf =>
    (regularFields_regular (mem_of_mem_take hf)).1
  rw [responseFields, take_succ_cons, foldl_cons, addField_regular hregular, addField,
    if_pos rfl, hparsed]

/-! ## The response that is read -/

/-- The parser has the response that was sent. -/
structure ReadBack (statusCode : Nat) (headers : List Field) (body : Bytes)
    (o : Outcome Response) : Prop where
  result : o.result = .success
  status : o.message.statusCode = statusCode
  headers : o.message.headers = headers
  body : o.message.body = body

/-- The first frame carries the whole block: the response is read unless its list is too
    long, up to the names that are sent in another way. -/
theorem readBack_whole (hstatus : statusCode < 2 ^ 32)
    (hblock : (encodeResponseHeaders statusCode headers).length < 2 ^ 24) (hsid : sid < 2 ^ 31)
    (hfits : (encodeResponseHeaders statusCode headers).length ≤ size)
    (hrun : SendRun sid size
      { todo := wireFrames (serializeResponse sid statusCode headers body) } out)
    (res : Response) (t : DynamicTable) :
    ReadBack statusCode headers body (parseResponse (out.flatMap encodeFrame) res t) ↔
      overLimit defaultMaxHeaderListSize (responseFields statusCode headers) = false ∧
        ∀ f ∈ headers, isPseudo f.1 = false ∧ lower f.1 = f.1 := by
  obtain ⟨chunks, rfl, hshort, hbody⟩ := response_emitted hblock hsid hrun
  obtain ⟨reps, hflat, hreps, -⟩ := response_reps statusCode headers
  have hfirst : encodeHeaderFrames sid (encodeResponseHeaders statusCode headers) body.isEmpty size =
      [firstFrame sid (encodeResponseHeaders statusCode headers) body.isEmpty true] := by
    obtain ⟨-, hone⟩ | ⟨hlong, -⟩ := header_frames sid hblock body.isEmpty size
    · exact hone
    · exact absurd hfits (Nat.not_le.mpr hlong)
  have hparsed := parse_emitted [] true hsid hblock
    (forall_mem_nil _) hshort (emitted_body hbody) res t rfl
  rw [hfirst]
  cases hover : overLimit defaultMaxHeaderListSize (responseFields statusCode headers) with
  | true =>
    have hrefused : (decodeHeaderBlock defaultMaxHeaderListSize
        (encodeResponseHeaders statusCode headers) t).ok = false := by
      rw [hflat] at hblock ⊢
      exact decode_overLimit hreps (by omega) t hover
    constructor
    · intro hread
      exact absurd hread.result (hparsed.1 hrefused)
    · intro hnot
      cases hnot.1
  | false =>
    have hdecoded := (encodeResponseHeaders_spells statusCode headers).decodeHeaderBlock
      (by omega) t hover
    rw [hdecoded] at hparsed
    obtain ⟨hresult, hmessage⟩ := hparsed.2 rfl
    have hfields := @addField_response statusCode headers hstatus
      { res with headers := [], body := [], streamId := sid } (regularFields headers).length
    have hall : (responseFields statusCode headers).take ((regularFields headers).length + 1) =
        responseFields statusCode headers := take_of_length_le (Nat.le_refl _)
    rw [hall, take_length, nil_append] at hfields
    rw [hfields] at hmessage
    constructor
    · intro hread
      have hsame := hread.headers
      rw [singleton_append, ← nil_append (chunkFrames sid chunks), hmessage] at hsame
      exact ⟨rfl, regularFields_eq_iff.mp hsame⟩
    · intro hnames
      have hsame := regularFields_eq_iff.mpr hnames.2
      refine ⟨hresult, ?_, ?_, ?_⟩
      · exact congrArg Response.statusCode hmessage
      · exact (congrArg Response.headers hmessage).trans hsame
      · exact congrArg Response.body hmessage

/-- The block was cut: fields are missing, or nothing is read. -/
theorem not_readBack_cut (hstatus : statusCode < 2 ^ 32)
    (hblock : (encodeResponseHeaders statusCode headers).length < 2 ^ 24) (hsid : sid < 2 ^ 31)
    (hsize : 0 < size) (hcut : size < (encodeResponseHeaders statusCode headers).length)
    (hrun : SendRun sid size
      { todo := wireFrames (serializeResponse sid statusCode headers body) } out)
    (res : Response) (t : DynamicTable) :
    ¬ ReadBack statusCode headers body (parseResponse (out.flatMap encodeFrame) res t) := by
  intro hread
  obtain ⟨chunks, rfl, hshort, hbody⟩ := response_emitted hblock hsid hrun
  obtain ⟨reps, hflat, hreps, hbreaks⟩ := response_reps statusCode headers
  obtain ⟨hfits, -⟩ | ⟨-, continuations, hframes, hcontinued⟩ :=
    header_frames sid hblock body.isEmpty size
  · exact absurd hfits (Nat.not_le.mpr hcut)
  · have hfragment : ((encodeResponseHeaders statusCode headers).take size).length < 2 ^ 24 := by
      rw [length_take]
      omega
    have hparsed := parse_emitted continuations false hsid hfragment hcontinued hshort
      (emitted_body hbody) res t rfl
    rw [hframes, cons_append] at hread
    cases hok : (decodeHeaderBlock defaultMaxHeaderListSize
        ((encodeResponseHeaders statusCode headers).take size) t).ok with
    | false => exact hparsed.1 hok hread.result
    | true =>
      obtain ⟨-, hmessage⟩ := hparsed.2 hok
      rw [hflat] at hok hblock hcut
      obtain ⟨k, hpos, hk, hdecoded⟩ := decode_part hreps hbreaks (by omega) hsize hcut t hok
      obtain ⟨k, rfl⟩ := Nat.exists_eq_add_of_le' hpos
      rw [hflat, hdecoded, addField_response hstatus] at hmessage
      have hmissing := (congrArg Response.headers hmessage).symm.trans
        (hflat ▸ hread.headers : _ = headers)
      have hcount := congrArg List.length hmissing
      have hregular : (regularFields headers).length ≤ headers.length := by
        rw [regularFields, length_map]
        exact length_filter_le _ _
      rw [responseFields, length_cons] at hk
      rw [nil_append, length_take] at hcount
      omega

/-- **Reading back a response.**  Whatever session the frames are sent in, and however the
    body is cut, `parse_response` has the response from them just when the header block fits
    into one frame, the list of fields is not too long, and the names are sent as they
    are. -/
theorem response_read_back_iff {statusCode sid size : Nat} {headers : List Field} {body : Bytes}
    {out : List Frame} (hstatus : statusCode < 2 ^ 32)
    (hblock : (encodeResponseHeaders statusCode headers).length < 2 ^ 24) (hsid : sid < 2 ^ 31)
    (hsize : 16384 ≤ size)
    (hrun : SendRun sid size
      { todo := wireFrames (serializeResponse sid statusCode headers body) } out)
    (res : Response) (t : DynamicTable) :
    ReadBack statusCode headers body (parseResponse (out.flatMap encodeFrame) res t) ↔
      (encodeResponseHeaders statusCode headers).length ≤ size ∧
        overLimit defaultMaxHeaderListSize (responseFields statusCode headers) = false ∧
        ∀ f ∈ headers, isPseudo f.1 = false ∧ lower f.1 = f.1 := by
  by_cases hfits : (encodeResponseHeaders statusCode headers).length ≤ size
  · rw [readBack_whole hstatus hblock hsid hfits hrun res t, and_iff_right hfits]
  · have hnot := not_readBack_cut hstatus hblock hsid (by omega) (Nat.not_le.mp hfits) hrun res t
    constructor
    · intro hread
      exact absurd hread hnot
    · intro hall
      exact absurd hall.1 hfits

/-- A response without a body on an idle connection. -/
theorem bodyless_run (hblock : (encodeResponseHeaders statusCode headers).length < 2 ^ 24)
    (hsid : sid < 2 ^ 31) (size : Nat) :
    SendRun sid size { todo := wireFrames (serializeResponse sid statusCode headers []) }
      (encodeHeaderFrames sid (encodeResponseHeaders statusCode headers) true size ++ []) := by
  rw [wireFrames_response hblock hsid]
  let st : StreamState := { id := sid }
  let s : Session := { streams := [st], peerMaxFrameSize := size }
  obtain ⟨hlog, hstreams⟩ := sendAll_log (s := s)
    (encodeHeaderFrames sid (encodeResponseHeaders statusCode headers) true size) rfl
  let f : Frame :=
    { type := .headers
      flags := flagEndHeaders ||| endStreamFlags true
      streamId := sid
      payload := encodeResponseHeaders statusCode headers }
  have hstep : resumeSend s st { todo := [f] } = some ((s.sendAll (encodeHeaderFrames sid
      (encodeResponseHeaders statusCode headers) true size)).modify sid fun x =>
        { x with localClosed := x.localClosed || true, sending := some { todo := [] } }) := by
    have hroom : 0 < maxOutboxBytes := by decide
    have hends : f.hasFlag flagEndStream = true := responseHeaders_ends true
    rw [resumeSend, if_neg (show ¬ failed s st = true from Bool.false_ne_true),
      if_pos (show s.outboxBytes < maxOutboxBytes from hroom),
      sendFrame, hends]
  refine .resume rfl (fun _ => rfl) rfl hstep hlog
    (?_ : { st with localClosed := true, sending := some { todo := [] } } ∈ _) rfl rfl .done
  show _ ∈ List.map _ _
  rw [hstreams]
  show _ ∈ [if sid = sid then _ else _]
  rw [if_pos rfl]
  exact mem_singleton_self _

/-- The frames of a short response whose body went out in two pieces. -/
def twoPieces : List Frame :=
  encodeHeaderFrames 1 (encodeResponseHeaders 200 [(text "server", text "w")]) false 16384 ++
    [dataFrame 1 (text "he") false, dataFrame 1 (text "llo") true]

/-- The window of the stream has room for two bytes at first, and is opened again. -/
theorem twoPieces_run : SendRun 1 16384
    { todo := wireFrames (serializeResponse 1 200 [(text "server", text "w")] (text "hello")) }
    twoPieces := by
  rw [wireFrames_response (by decide) (by decide)]
  let whole : Session := { streams := [{ id := 1 }] }
  let narrow : Session := { streams := [{ id := 1, sendWindow := 2 }] }
  have hlast : SendRun 1 16384 { todo := [], piece := some (text "llo", true) }
      ([dataFrame 1 (text "llo") true] ++ []) :=
    .resume (s := whole) (rfl : StreamState.id { id := 1 } = 1) (fun h => nomatch h) rfl rfl rfl
      mem_cons_self rfl rfl .done
  have hfirst : SendRun 1 16384 { todo := [], piece := some (text "hello", true) }
      ([dataFrame 1 (text "he") false] ++ _) :=
    .resume (s := narrow) (rfl : StreamState.id { id := 1, sendWindow := 2 } = 1)
      (fun h => nomatch h) rfl rfl rfl mem_cons_self rfl rfl hlast
  have hdata : SendRun 1 16384 { todo := [dataFrame 1 (text "hello") true] } ([] ++ _) :=
    .resume (s := whole) (rfl : StreamState.id { id := 1 } = 1) (fun _ => rfl) rfl rfl rfl
      mem_cons_self rfl rfl hfirst
  exact .resume (s := whole) (rfl : StreamState.id { id := 1 } = 1) (fun _ => rfl) rfl rfl rfl
    mem_cons_self rfl rfl hdata

/-- The two pieces are read as one body. -/
theorem response_read_back_two_pieces :
    ReadBack 200 [(text "server", text "w")] (text "hello")
      (parseResponse (twoPieces.flatMap encodeFrame) {} {}) := by
  have hblock : (encodeResponseHeaders 200 [(text "server", text "w")]).length < 2 ^ 24 := by decide
  refine (response_read_back_iff (by decide) hblock (by decide) (by decide) twoPieces_run {} {}).mpr
    ⟨by decide, by decide, ?_⟩
  intro f hf
  rw [mem_singleton.mp hf]
  exact ⟨by decide, by decide⟩

/-- A header of 20000 bytes is lost: the block goes on in a CONTINUATION frame. -/
theorem long_header_lost : ∃ (headers : List Field) (out : List Frame),
    (encodeResponseHeaders 200 headers).length < 2 ^ 24 ∧
      SendRun 1 16384 { todo := wireFrames (serializeResponse 1 200 headers []) } out ∧
      ¬ ReadBack 200 headers [] (parseResponse (out.flatMap encodeFrame) {} {}) := by
  have hfield : ∀ value, encodeField (text "x") value = encodeLiteral (text "x") value := by
    intro value
    rfl
  have hlength : (encodeResponseHeaders 200 [(text "x", List.replicate 20000 0x61)]).length =
      20008 := by
    have hstatus : (encodeKnown (text ":status") 8 (decimal 200)).length = 1 := by decide
    have hnew : (encodeInteger 0 4 0).length = 1 := by decide
    have hname : (encodeString (text "x")).length = 2 := by decide
    have hlong : (encodeInteger 20000 7 0).length = 4 := by decide
    have hheaders : encodeHeaders [(text "x", List.replicate 20000 0x61)] =
        encodeField (text "x") (List.replicate 20000 0x61) ++ [] := rfl
    have hvalue : (encodeString (List.replicate 20000 0x61)).length = 20004 := by
      rw [encodeString, length_append, length_replicate, hlong]
    rw [encodeResponseHeaders, length_append, hstatus, hheaders, hfield, append_nil,
      encodeLiteral, length_append, length_append, hnew, hname, hvalue]
  refine ⟨[(text "x", List.replicate 20000 0x61)], _, ?_, bodyless_run ?_ (by decide) 16384, ?_⟩
  · omega
  · omega
  · exact not_readBack_cut (by decide) (by omega) (by decide) (by decide) (by omega)
      (bodyless_run (by omega) (by decide) 16384) {} {}

end Http2ResponseFraming
