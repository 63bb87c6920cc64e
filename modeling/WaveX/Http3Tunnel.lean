import WaveX.Http3RequestArrival

/-! # The tunnel of an extended CONNECT

    `src/protos/http/http3tunnel.cpp`: behind an extended CONNECT the request stream is a
    sequence of frames, and what is in its DATA frames is the byte stream of the tunnel.
    `tunnel_read_some` is called again and again, each time with a buffer of some size, and
    reads from the request stream when it needs to.

    What a state still has to hand out does not depend on where the bytes are cut: it is
    the rest of the frame the state is in, and the payloads behind it (`Ahead`).  A turn of
    the loop hands out the first of these bytes or leaves all of them. -/

namespace Http3Tunnel

open QuicVarInt HttpText Http3Parser Http3RequestArrival List

/-! ## The request stream -/

/-- The errors a read may end with. -/
inductive ReadError where
  | eof
  | protocolError
  | other (code : Nat)
  deriving DecidableEq, Repr

/-- `AnyStream::read_result`, with the bytes that have been read. -/
structure ReadResult where
  error : Option ReadError := none
  bytes : Bytes := []
  deriving DecidableEq, Repr

/-- A read of the request stream that brings bytes, with an error or without. -/
structure Arrival where
  bytes : Bytes
  error : Option ReadError := none
  arrived : bytes ≠ []

/-- The request stream: what its reads bring one after the other, and how every read ends
    when there are no more bytes. -/
structure Inner where
  arrivals : List Arrival
  ending : Option ReadError := some .eof

/-- `inner.read_some`. -/
def Inner.readSome (inner : Inner) : ReadResult × Inner :=
  match inner.arrivals with
  | [] => (⟨inner.ending, []⟩, inner)
  | a :: arrivals => (⟨a.error, a.bytes⟩, { inner with arrivals })

/-- All that the request stream still brings. -/
def Inner.bytes (inner : Inner) : Bytes := inner.arrivals.flatMap Arrival.bytes

/-! ## The tunnel -/

/-- `is_forbidden_on_request_stream`. -/
def isForbiddenOnRequestStream (type : Nat) : Bool :=
  [0x02, 0x06, 0x08, 0x09, 0x03, 0x04, 0x07, 0x0d].contains type

/-- `tunnel_state`. -/
structure TunnelState where
  inner : Inner
  raw : Bytes
  offset : Nat := 0
  dataRemaining : Nat := 0
  skipRemaining : Nat := 0
  inData : Bool := false
  finished : Bool := false

/-- `available()`. -/
def TunnelState.available (st : TunnelState) : Nat := st.raw.length - st.offset

/-- The bytes of `raw` that have not been consumed. -/
def TunnelState.view (st : TunnelState) : Bytes := st.raw.drop st.offset

/-- `compact()`. -/
def TunnelState.compact (st : TunnelState) : TunnelState :=
  if st.offset = st.raw.length then { st with raw := [], offset := 0 }
  else if 16384 ≤ st.offset ∧ st.raw.length / 2 ≤ st.offset then
    { st with raw := st.raw.drop st.offset, offset := 0 }
  else st

/-- One turn of the loop in `tunnel_read_some`: on to the next, or a result. -/
inductive Turn where
  | next (st : TunnelState)
  | returned (result : ReadResult) (st : TunnelState)

/-- The first step: the rest of an unknown frame is skipped. -/
def skip (st : TunnelState) : TunnelState :=
  let n := min st.skipRemaining st.available
  { st with offset := st.offset + n, skipRemaining := st.skipRemaining - n }.compact

/-- The second step: payload is handed out. -/
def handOut (size : Nat) (st : TunnelState) : Turn :=
  let n := min size (min st.dataRemaining st.available)
  .returned { bytes := st.view.take n }
    { st with
      offset := st.offset + n
      dataRemaining := st.dataRemaining - n
      inData := if st.dataRemaining - n = 0 then false else st.inData }.compact

/-- The third step, when there is a whole frame header. -/
def onHeader (hdr : FrameHeader) (st : TunnelState) : Turn :=
  let st := { st with offset := st.offset + hdr.size }
  if hdr.type = typeData then
    .next { st with inData := decide (0 < hdr.length), dataRemaining := hdr.length }.compact
  else if hdr.type = typeHeaders then .next { st with finished := true }.compact
  else if isForbiddenOnRequestStream hdr.type then
    .returned { error := some .protocolError } st
  else .next { st with skipRemaining := hdr.length }.compact

/-- The last step: more bytes of the request stream. -/
def readMore (st : TunnelState) : Turn :=
  let r := st.inner.readSome.1
  let st := { st with inner := st.inner.readSome.2, raw := st.raw ++ r.bytes }
  match r.error with
  | some e => if r.bytes ≠ [] then .next st else .returned { error := some e } st
  | none => if r.bytes = [] then .returned { error := some .eof } st else .next st

/-- The body of the loop.  Both varints of a frame header have to be there, as in
    `parse_frame_header`. -/
def turn (size : Nat) (st : TunnelState) : Turn :=
  if 0 < st.skipRemaining ∧ 0 < st.available then .next (skip st)
  else if st.inData ∧ 0 < st.available then handOut size st
  else
    let hdr := if ¬ st.inData ∧ st.skipRemaining = 0 ∧ 0 < st.available ∧ ¬ st.finished then
      parseFrameHeader st.view else none
    match hdr with
    | some hdr => onHeader hdr st
    | none => if st.finished then .returned { error := some .eof } st else readMore st

/-- The loop, with its turns counted down. -/
def readLoop (size : Nat) : Nat → TunnelState → Option (ReadResult × TunnelState)
  | 0, _ => none
  | fuel + 1, st =>
      match turn size st with
      | .next st => readLoop size fuel st
      | .returned result st => some (result, st)

/-- What bounds the turns: each one that goes on consumes a byte or takes an arrival. -/
def TunnelState.work (st : TunnelState) : Nat :=
  st.view.length + st.inner.bytes.length + st.inner.arrivals.length

/-- `tunnel_read_some`, with enough turns (`readLoop_serves`). -/
def tunnelReadSome (st : TunnelState) (size : Nat) : Option (ReadResult × TunnelState) :=
  if size = 0 then some ({}, st) else readLoop size (st.work + 1) st

/-- Calls of `tunnel_read_some`, one after the other, with buffers of the given sizes. -/
def tunnelReads : List Nat → TunnelState → Option (List ReadResult × TunnelState)
  | [], st => some ([], st)
  | size :: sizes, st =>
      (tunnelReadSome st size).bind fun first =>
        (tunnelReads sizes first.2).map fun rest => (first.1 :: rest.1, rest.2)

/-- `encode_tunnel_data_frame`. -/
def encodeTunnelDataFrame (payload : Bytes) : Bytes :=
  encode typeData ++ encode payload.length ++ payload

/-- `tunnel_write`: what the request stream has been given to send. -/
def tunnelWrite (sent data : Bytes) : Bytes := sent ++ encodeTunnelDataFrame data

/-- The state in `make_data_tunnel`. -/
def makeDataTunnel (inner : Inner) (leftover : Bytes) : TunnelState := { inner, raw := leftover }

/-! ## What a tunnel is for -/

/-- Reads of a byte stream, by the size of their buffers: each hands out some of the bytes
    that are left, as long as there are any, and then only the last error. -/
inductive Delivers (last : ReadError) : Bytes → List Nat → List ReadResult → Prop where
  | done (content : Bytes) : Delivers last content [] []
  | empty {content : Bytes} {sizes : List Nat} {results : List ReadResult}
      (h : Delivers last content sizes results) :
      Delivers last content (0 :: sizes) ({} :: results)
  | chunk {chunk content : Bytes} {size : Nat} {sizes : List Nat} {results : List ReadResult}
      (hne : chunk ≠ []) (hsize : chunk.length ≤ size) (h : Delivers last content sizes results) :
      Delivers last (chunk ++ content) (size :: sizes) ({ bytes := chunk } :: results)
  | ended {size : Nat} {sizes : List Nat} {results : List ReadResult} (hsize : 0 < size)
      (h : Delivers last [] sizes results) :
      Delivers last [] (size :: sizes) ({ error := some last } :: results)

/-- Behind the end of the stream nothing is handed out. -/
theorem Delivers.nothing {last : ReadError} {content : Bytes} {sizes : List Nat}
    {results : List ReadResult} (h : Delivers last content sizes results)
    (hcontent : content = []) : results.flatMap ReadResult.bytes = [] := by
  induction h with
  | done content => rfl
  | empty h ih => exact ih hcontent
  | chunk hne hsize h ih => exact absurd (append_eq_nil_iff.mp hcontent).1 hne
  | ended hsize h ih => exact ih hcontent

/-- The reads have handed out all of the stream, unchanged, when there were enough of
    them. -/
theorem Delivers.all {last : ReadError} {content : Bytes} {sizes : List Nat}
    {results : List ReadResult} (h : Delivers last content sizes results)
    (henough : content.length < (sizes.filter fun size => 0 < size).length) :
    results.flatMap ReadResult.bytes = content ∧ { error := some last } ∈ results := by
  induction h with
  | done content => exact absurd henough (Nat.not_lt_zero _)
  | empty h ih =>
    obtain ⟨hcontent, hlast⟩ := ih henough
    exact ⟨hcontent, mem_cons_of_mem _ hlast⟩
  | @chunk chunk content size sizes results hne hsize h ih =>
    have hpos := length_pos_iff.mpr hne
    rw [filter_cons_of_pos (by rw [decide_eq_true_iff]; omega), length_cons,
      length_append] at henough
    obtain ⟨hcontent, hlast⟩ := ih (by omega)
    rw [flatMap_cons, hcontent]
    exact ⟨rfl, mem_cons_of_mem _ hlast⟩
  | ended hsize h ih => exact ⟨h.nothing rfl, mem_cons_self⟩

/-! ## What is still to come -/

/-- The bytes of frames that end the stream, or end with trailers; the payloads that are in
    them, and the error behind the payloads. -/
inductive Frames (ending : Option ReadError) : Bytes → Bytes → ReadError → Prop where
  | ends : Frames ending [] [] (ending.getD .eof)
  | trailers (f : WireFrame) (rest : Bytes) (htype : f.type = typeHeaders) :
      Frames ending (f.header ++ rest) [] .eof
  | data (f : WireFrame) {bytes content : Bytes} {last : ReadError} (htype : f.type = typeData)
      (h : Frames ending bytes content last) :
      Frames ending (f.bytes ++ bytes) (f.payload ++ content) last
  | unknown (f : WireFrame) {bytes content : Bytes} {last : ReadError} (htype : Unknown f.type)
      (h : Frames ending bytes content last) : Frames ending (f.bytes ++ bytes) content last

/-- The bytes the loop has not consumed yet, those that have not arrived among them. -/
def TunnelState.coming (st : TunnelState) : Bytes := st.view ++ st.inner.bytes

/-- What a state has to hand out, and the error behind it. -/
inductive Ahead (st : TunnelState) : Bytes → ReadError → Prop where
  | between {content : Bytes} {last : ReadError} (hin : st.inData = false)
      (hskip : st.skipRemaining = 0) (hopen : st.finished = false)
      (h : Frames st.inner.ending st.coming content last) : Ahead st content last
  | inData {payload bytes content : Bytes} {last : ReadError} (hin : st.inData = true)
      (hskip : st.skipRemaining = 0) (hopen : st.finished = false)
      (hlength : payload.length = st.dataRemaining) (hne : payload ≠ [])
      (hcoming : st.coming = payload ++ bytes) (h : Frames st.inner.ending bytes content last) :
      Ahead st (payload ++ content) last
  | skipping {skipped bytes content : Bytes} {last : ReadError} (hin : st.inData = false)
      (hopen : st.finished = false) (hlength : skipped.length = st.skipRemaining)
      (hne : skipped ≠ []) (hcoming : st.coming = skipped ++ bytes)
      (h : Frames st.inner.ending bytes content last) : Ahead st content last
  | finished (hin : st.inData = false) (hskip : st.skipRemaining = 0)
      (hfinished : st.finished = true) : Ahead st [] .eof

/-- A state with its offset within `raw`, and what it has to hand out. -/
structure Holds (st : TunnelState) (content : Bytes) (last : ReadError) : Prop where
  within : st.offset ≤ st.raw.length
  ahead : Ahead st content last

/-! ## Turns of the loop -/

variable {st st' : TunnelState} {content : Bytes} {last : ReadError} {size : Nat}

/-- Compaction moves bytes, and nothing else. -/
theorem compact_cases (st : TunnelState) :
    ∃ raw offset, st.compact = { st with raw, offset } ∧ raw.drop offset = st.view ∧
      (st.offset ≤ st.raw.length → offset ≤ raw.length) := by
  rw [TunnelState.compact]
  split
  · rename_i hall
    refine ⟨[], 0, rfl, ?_, fun _ => Nat.zero_le _⟩
    rw [TunnelState.view, hall, drop_length]
    rfl
  · split
    · exact ⟨_, 0, rfl, rfl, fun _ => Nat.zero_le _⟩
    · exact ⟨st.raw, st.offset, rfl, rfl, id⟩

theorem compact_view (st : TunnelState) : st.compact.view = st.view := by
  obtain ⟨raw, offset, heq, hview, hwithin⟩ := compact_cases st
  rw [heq]
  exact hview

theorem compact_inner (st : TunnelState) : st.compact.inner = st.inner := by
  obtain ⟨raw, offset, heq, hview, hwithin⟩ := compact_cases st
  rw [heq]

theorem compact_work (st : TunnelState) : st.compact.work = st.work := by
  rw [TunnelState.work, TunnelState.work, compact_view, compact_inner]

theorem holds_compact (hbefore : st.offset ≤ st.raw.length) (h : Ahead st content last) :
    Holds st.compact content last := by
  have hcoming : st.compact.coming = st.coming := by
    rw [TunnelState.coming, TunnelState.coming, compact_view, compact_inner]
  obtain ⟨raw, offset, heq, hview, hwithin⟩ := compact_cases st
  rw [heq] at hcoming ⊢
  refine ⟨hwithin hbefore, ?_⟩
  cases h with
  | between hin hskip hopen h => exact .between hin hskip hopen (hcoming ▸ h)
  | inData hin hskip hopen hlength hne hbytes h =>
    exact .inData hin hskip hopen hlength hne (hcoming.trans hbytes) h
  | skipping hin hopen hlength hne hbytes h =>
    exact .skipping hin hopen hlength hne (hcoming.trans hbytes) h
  | finished hin hskip hfinished => exact .finished hin hskip hfinished

/-- Consuming some of the bytes that have arrived. -/
theorem drop_view {n : Nat} (st : TunnelState) : st.raw.drop (st.offset + n) = st.view.drop n := by
  rw [TunnelState.view, drop_drop]

theorem available_eq (st : TunnelState) : st.available = st.view.length := by
  rw [TunnelState.available, TunnelState.view, length_drop]

theorem consumed_within {n : Nat} (hwithin : st.offset ≤ st.raw.length)
    (hn : n ≤ st.view.length) : st.offset + n ≤ st.raw.length := by
  rw [← available_eq, TunnelState.available] at hn
  omega

/-- The part of a list that has arrived, and the part of it that is handed out. -/
theorem append_split {front back part rest : Bytes} {n : Nat} (h : front ++ back = part ++ rest)
    (hfront : n ≤ front.length) (hpart : n ≤ part.length) :
    front.take n = part.take n ∧ front.drop n ++ back = part.drop n ++ rest := by
  have htake := congrArg (List.take n) h
  have hdrop := congrArg (List.drop n) h
  rw [take_append_of_le_length hfront, take_append_of_le_length hpart] at htake
  rw [drop_append_of_le_length hfront, drop_append_of_le_length hpart] at hdrop
  exact ⟨htake, hdrop⟩

/-- What a turn may do: it goes on with less work and the same bytes to hand out, it hands
    out the first of them, or there are none and it says so. -/
def Serves (st : TunnelState) (content : Bytes) (last : ReadError) (size : Nat) : Turn → Prop
  | .next st' => Holds st' content last ∧ st'.work < st.work
  | .returned result st' =>
      (∃ rest, result.error = none ∧ result.bytes ≠ [] ∧ result.bytes.length ≤ size ∧
        content = result.bytes ++ rest ∧ Holds st' rest last) ∨
      content = [] ∧ result = { error := some last } ∧ Holds st' [] last

theorem serves_skip {skipped bytes : Bytes} (hwithin : st.offset ≤ st.raw.length)
    (hin : st.inData = false) (hopen : st.finished = false)
    (hlength : skipped.length = st.skipRemaining) (hne : skipped ≠ [])
    (hcoming : st.coming = skipped ++ bytes) (h : Frames st.inner.ending bytes content last)
    (hroom : 0 < st.available) : Serves st content last size (.next (skip st)) := by
  have hpos := length_pos_iff.mpr hne
  rw [available_eq] at hroom
  rw [skip, available_eq]
  generalize hn : min st.skipRemaining st.view.length = n
  obtain ⟨-, hrest⟩ := append_split (n := n) hcoming (by omega) (by omega)
  refine ⟨holds_compact (consumed_within hwithin (by omega)) ?_, ?_⟩
  · by_cases hall : skipped.drop n = []
    · have hzero := length_eq_zero_iff.mpr hall
      rw [length_drop] at hzero
      rw [hall, nil_append] at hrest
      refine .between hin (by dsimp only; omega) hopen ?_
      show Frames _ (st.raw.drop (st.offset + n) ++ st.inner.bytes) content last
      rw [drop_view, hrest]
      exact h
    · refine .skipping hin hopen ?_ hall ?_ h
      · rw [length_drop, hlength]
      · show st.raw.drop (st.offset + n) ++ st.inner.bytes = _
        rw [drop_view, hrest]
  · rw [compact_work]
    show (st.raw.drop (st.offset + n)).length + _ + _ < _
    rw [drop_view, length_drop, TunnelState.work]
    dsimp only
    omega

theorem serves_handOut {payload bytes : Bytes} (hsize : 0 < size)
    (hwithin : st.offset ≤ st.raw.length) (hin : st.inData = true) (hskip : st.skipRemaining = 0) (hopen : st.finished = false)
    (hlength : payload.length = st.dataRemaining) (hne : payload ≠ [])
    (hcoming : st.coming = payload ++ bytes) (h : Frames st.inner.ending bytes content last)
    (hroom : 0 < st.available) : Serves st (payload ++ content) last size (handOut size st) := by
  have hpos := length_pos_iff.mpr hne
  rw [available_eq] at hroom
  rw [handOut, available_eq]
  generalize hn : min size (min st.dataRemaining st.view.length) = n
  obtain ⟨hfirst, hrest⟩ := append_split (n := n) hcoming (by omega) (by omega)
  have hcount : (st.view.take n).length = n := length_take_of_le (by omega)
  left
  refine ⟨payload.drop n ++ content, rfl, ?_, ?_, ?_,
    holds_compact (consumed_within hwithin (by omega)) ?_⟩
  · apply ne_nil_of_length_pos
    show 0 < (st.view.take n).length
    omega
  · show (st.view.take n).length ≤ size
    omega
  · show payload ++ content = st.view.take n ++ (payload.drop n ++ content)
    rw [hfirst, ← append_assoc, take_append_drop]
  · by_cases hall : payload.drop n = []
    · have hzero := length_eq_zero_iff.mpr hall
      rw [length_drop] at hzero
      rw [hall, nil_append] at hrest ⊢
      refine .between (if_pos (by omega)) hskip hopen ?_
      show Frames _ (st.raw.drop (st.offset + n) ++ st.inner.bytes) content last
      rw [drop_view, hrest]
      exact h
    · have hmore := length_pos_iff.mpr hall
      rw [length_drop] at hmore
      refine .inData ?_ hskip hopen ?_ hall ?_ h
      · show (if _ then _ else _) = true
        rw [if_neg (by omega), hin]
      · rw [length_drop, hlength]
      · show st.raw.drop (st.offset + n) ++ st.inner.bytes = _
        rw [drop_view, hrest]

/-- More bytes, or the end of the stream. -/
theorem serves_readMore (h : Holds st content last)
    (hend : st.inner.arrivals = [] → content = [] ∧ last = st.inner.ending.getD .eof) :
    Serves st content last size (readMore st) := by
  obtain ⟨⟨arrivals, ending⟩, raw, offset, dataRemaining, skipRemaining, inData, finished⟩ := st
  obtain ⟨hwithin, hahead⟩ := h
  cases arrivals with
  | nil =>
    obtain ⟨rfl, rfl⟩ := hend rfl
    rw [readMore]
    dsimp only [Inner.readSome]
    rw [append_nil]
    cases ending with
    | none => exact .inr ⟨rfl, rfl, hwithin, hahead⟩
    | some e => exact .inr ⟨rfl, rfl, hwithin, hahead⟩
  | cons a arrivals =>
    have hnext : readMore ⟨⟨a :: arrivals, ending⟩, raw, offset, dataRemaining, skipRemaining,
        inData, finished⟩ = .next ⟨⟨arrivals, ending⟩, raw ++ a.bytes, offset, dataRemaining,
          skipRemaining, inData, finished⟩ := by
      rw [readMore]
      dsimp only [Inner.readSome]
      cases a.error with
      | none => exact if_neg a.arrived
      | some e => exact if_pos a.arrived
    have hdrop : (raw ++ a.bytes).drop offset = raw.drop offset ++ a.bytes :=
      drop_append_of_le_length hwithin
    have hcoming : TunnelState.coming ⟨⟨arrivals, ending⟩, raw ++ a.bytes, offset, dataRemaining,
        skipRemaining, inData, finished⟩ = TunnelState.coming ⟨⟨a :: arrivals, ending⟩, raw,
          offset, dataRemaining, skipRemaining, inData, finished⟩ := by
      show (raw ++ a.bytes).drop offset ++ arrivals.flatMap Arrival.bytes =
        raw.drop offset ++ (a :: arrivals).flatMap Arrival.bytes
      rw [hdrop, flatMap_cons, append_assoc]
    rw [hnext]
    refine ⟨⟨?_, ?_⟩, ?_⟩
    · show offset ≤ (raw ++ a.bytes).length
      rw [length_append]
      exact Nat.le_add_right_of_le hwithin
    · cases hahead with
      | between hin hskip hopen h => exact .between hin hskip hopen (hcoming ▸ h)
      | inData hin hskip hopen hlength hne hbytes h =>
        exact .inData hin hskip hopen hlength hne (hcoming.trans hbytes) h
      | skipping hin hopen hlength hne hbytes h =>
        exact .skipping hin hopen hlength hne (hcoming.trans hbytes) h
      | finished hin hskip hfinished => exact .finished hin hskip hfinished
    · show ((raw ++ a.bytes).drop offset).length + (arrivals.flatMap Arrival.bytes).length +
        arrivals.length < (raw.drop offset).length +
          ((a :: arrivals).flatMap Arrival.bytes).length + (a :: arrivals).length
      rw [hdrop, flatMap_cons, length_append, length_append, length_cons]
      omega

/-- A header that is there in full is the one of the frame it belongs to. -/
theorem header_arrived {f : WireFrame} {hdr : FrameHeader} {front back rest : Bytes}
    (h : parseFrameHeader front = some hdr) (hbytes : front ++ back = f.header ++ rest) :
    hdr = ⟨f.type, f.payload.length, f.header.length⟩ := by
  have hlong := parseFrameHeader_append h back
  rw [hbytes, parseFrameHeader_append f.reads rest] at hlong
  exact (Option.some.inj hlong).symm

theorem serves_onHeader {hdr : FrameHeader} (hwithin : st.offset ≤ st.raw.length)
    (hin : st.inData = false) (hskip : st.skipRemaining = 0) (hopen : st.finished = false)
    (h : Frames st.inner.ending st.coming content last) (hhdr : parseFrameHeader st.view = some hdr) :
    Serves st content last size (onHeader hdr st) := by
  obtain ⟨hpos, hroom⟩ := parseFrameHeader_size hhdr
  have hinside := consumed_within hwithin hroom
  have hwork : (st.view.drop hdr.size).length + st.inner.bytes.length +
      st.inner.arrivals.length < st.work := by
    rw [length_drop, TunnelState.work]
    omega
  have hcoming : ∀ header rest, st.coming = header ++ rest → hdr.size = header.length →
      st.raw.drop (st.offset + hdr.size) ++ st.inner.bytes = rest := by
    intro header rest hbytes hsize
    rw [drop_view, ← drop_append_of_le_length hroom, hsize]
    show (st.coming).drop _ = rest
    rw [hbytes, drop_left]
  rw [← drop_view] at hwork
  rw [onHeader]
  generalize hbytes : st.coming = bytes at h
  cases h with
  | ends =>
    have hempty := (append_eq_nil_iff.mp hbytes).1
    rw [hempty] at hroom
    exact absurd hpos (Nat.not_lt.mpr hroom)
  | trailers f rest htype =>
    obtain rfl := header_arrived hhdr hbytes
    have hdata : ¬ f.type = typeData := by
      rw [htype]
      decide
    rw [if_neg hdata, if_pos htype]
    refine ⟨holds_compact hinside (.finished hin hskip rfl), ?_⟩
    rw [compact_work]
    exact hwork
  | @data f bytes content last htype h =>
    obtain rfl := header_arrived hhdr (hbytes.trans (append_assoc _ _ _))
    have hrest := hcoming _ _ (hbytes.trans (append_assoc _ _ _)) rfl
    rw [if_pos htype]
    refine ⟨holds_compact hinside ?_, ?_⟩
    · by_cases hempty : f.payload = []
      · rw [hempty, nil_append] at hrest ⊢
        refine .between rfl hskip hopen ?_
        show Frames _ (st.raw.drop _ ++ st.inner.bytes) content last
        rw [hrest]
        exact h
      · have hfull := length_pos_iff.mpr hempty
        exact .inData (decide_eq_true hfull) hskip hopen rfl hempty hrest h
    · rw [compact_work]
      exact hwork
  | @unknown f bytes content last htype h =>
    obtain rfl := header_arrived hhdr (hbytes.trans (append_assoc _ _ _))
    have hrest := hcoming _ _ (hbytes.trans (append_assoc _ _ _)) rfl
    obtain ⟨hreserved, hcontrol, hdata, hheaders⟩ := htype
    -- frames of unknown types are skipped
    have hallowed : ¬ isForbiddenOnRequestStream f.type = true := by
      rw [isForbiddenOnRequestStream, contains_iff_mem]
      simp only [isReservedFrameType, isControlFrameType, contains_eq_mem,
        decide_eq_false_iff_not, mem_cons, not_mem_nil, or_false] at hreserved hcontrol ⊢
      omega
    rw [if_neg hdata, if_neg hheaders, if_neg hallowed]
    refine ⟨holds_compact hinside ?_, ?_⟩
    · by_cases hempty : f.payload = []
      · rw [hempty, nil_append] at hrest
        refine .between hin ?_ hopen ?_
        · show f.payload.length = 0
          rw [hempty]
          rfl
        · show Frames _ (st.raw.drop _ ++ st.inner.bytes) content last
          rw [hrest]
          exact h
      · exact .skipping hin hopen rfl hempty hrest h
    · rw [compact_work]
      exact hwork

/-- Without a frame header the frames are at their end. -/
theorem frames_end {ending : Option ReadError} {bytes : Bytes}
    (h : Frames ending bytes content last) (hnone : parseFrameHeader bytes = none) :
    content = [] ∧ last = ending.getD .eof := by
  have hheader : ∀ (f : WireFrame) rest, bytes ≠ f.header ++ rest := by
    rintro f rest rfl
    rw [parseFrameHeader_append f.reads rest] at hnone
    cases hnone
  cases h with
  | ends => exact ⟨rfl, rfl⟩
  | trailers f rest htype => exact absurd rfl (hheader f rest)
  | data f htype h => exact absurd (append_assoc _ _ _) (hheader f _)
  | unknown f htype h => exact absurd (append_assoc _ _ _) (hheader f _)

/-- **One turn** of the loop. -/
theorem serves_turn (hsize : 0 < size) (h : Holds st content last) :
    Serves st content last size (turn size st) := by
  have hcoming : st.inner.arrivals = [] → st.coming = st.view := by
    intro hnone
    rw [TunnelState.coming, Inner.bytes, hnone]
    exact append_nil _
  have hempty : ¬ 0 < st.available → st.view = [] := by
    rw [available_eq]
    exact fun hroom => length_eq_zero_iff.mp (Nat.eq_zero_of_not_pos hroom)
  have hwaits : ∀ part bytes, st.coming = part ++ bytes → part ≠ [] → ¬ 0 < st.available →
      st.inner.arrivals = [] → content = [] ∧ last = st.inner.ending.getD .eof := by
    intro part bytes hbytes hne hroom hnone
    rw [hcoming hnone, hempty hroom] at hbytes
    exact absurd (append_eq_nil_iff.mp hbytes.symm).1 hne
  obtain ⟨hwithin, hahead⟩ := h
  rw [turn]
  cases hahead with
  | between hin hskip hopen h =>
    have hin' := Bool.eq_false_iff.mp hin
    have hopen' := Bool.eq_false_iff.mp hopen
    rw [if_neg (by omega), if_neg (fun hc => hin' hc.1)]
    by_cases hroom : 0 < st.available
    · rw [if_pos ⟨hin', hskip, hroom, hopen'⟩]
      cases hhdr : parseFrameHeader st.view with
      | some hdr => exact serves_onHeader hwithin hin hskip hopen h hhdr
      | none =>
        -- a partial header: fall through and read more
        dsimp only
        rw [if_neg hopen']
        refine serves_readMore ⟨hwithin, .between hin hskip hopen h⟩ fun hnone => ?_
        rw [← hcoming hnone] at hhdr
        exact frames_end h hhdr
    · rw [if_neg (fun hc => hroom hc.2.2.1)]
      dsimp only
      rw [if_neg hopen']
      refine serves_readMore ⟨hwithin, .between hin hskip hopen h⟩ fun hnone => ?_
      rw [hcoming hnone, hempty hroom] at h
      exact frames_end h rfl
  | inData hin hskip hopen hlength hne hbytes h =>
    rw [if_neg (by omega)]
    by_cases hroom : 0 < st.available
    · rw [if_pos ⟨hin, hroom⟩]
      exact serves_handOut hsize hwithin hin hskip hopen hlength hne hbytes h hroom
    · rw [if_neg (fun hc => hroom hc.2), if_neg (fun hc => hroom hc.2.2.1)]
      dsimp only
      rw [if_neg (Bool.eq_false_iff.mp hopen)]
      exact serves_readMore ⟨hwithin, .inData hin hskip hopen hlength hne hbytes h⟩
        (hwaits _ _ hbytes hne hroom)
  | skipping hin hopen hlength hne hbytes h =>
    have hpos := length_pos_iff.mpr hne
    by_cases hroom : 0 < st.available
    · rw [if_pos ⟨by omega, hroom⟩]
      exact serves_skip hwithin hin hopen hlength hne hbytes h hroom
    · rw [if_neg (fun hc => hroom hc.2), if_neg (fun hc => hroom hc.2),
        if_neg (fun hc => hroom hc.2.2.1)]
      dsimp only
      rw [if_neg (Bool.eq_false_iff.mp hopen)]
      exact serves_readMore ⟨hwithin, .skipping hin hopen hlength hne hbytes h⟩
        (hwaits _ _ hbytes hne hroom)
  | finished hin hskip hfinished =>
    rw [if_neg (by omega), if_neg (fun hc => Bool.eq_false_iff.mp hin hc.1),
      if_neg (fun hc => hc.2.2.2 hfinished)]
    dsimp only
    rw [if_pos hfinished]
    exact .inr ⟨rfl, rfl, hwithin, .finished hin hskip hfinished⟩

/-! ## Reads -/

/-- **One read** returns: with the next bytes, or without any when there are none. -/
theorem readLoop_serves {fuel : Nat} (hsize : 0 < size) (h : Holds st content last)
    (hfuel : st.work < fuel) : ∃ result st', readLoop size fuel st = some (result, st') ∧
      Serves st content last size (.returned result st') := by
  induction fuel generalizing st with
  | zero => exact absurd hfuel (Nat.not_lt_zero _)
  | succ fuel ih =>
    have hturn := serves_turn hsize h
    rw [readLoop]
    cases hcase : turn size st with
    | next st' =>
      rw [hcase] at hturn
      obtain ⟨hnext, hwork⟩ := hturn
      exact ih hnext (by omega)
    | returned result st' =>
      rw [hcase] at hturn
      exact ⟨result, st', rfl, hturn⟩

/-- **Any reads**: together they deliver what the state holds. -/
theorem tunnelReads_delivers (sizes : List Nat) (h : Holds st content last) :
    ∃ results st', tunnelReads sizes st = some (results, st') ∧
      Delivers last content sizes results := by
  induction sizes generalizing st content with
  | nil => exact ⟨[], st, rfl, .done content⟩
  | cons size sizes ih =>
    by_cases hsize : size = 0
    · obtain ⟨results, st', hreads, hdelivers⟩ := ih h
      rw [tunnelReads, tunnelReadSome, if_pos hsize, Option.bind_some, hreads, hsize]
      exact ⟨_, st', rfl, .empty hdelivers⟩
    · have hpos := Nat.pos_of_ne_zero hsize
      obtain ⟨⟨error, bytes⟩, st₁, hloop, hserves⟩ := readLoop_serves hpos h (Nat.lt_succ_self _)
      rw [tunnelReads, tunnelReadSome, if_neg hsize, hloop, Option.bind_some]
      obtain ⟨rest, rfl, hne, hle, rfl, hrest⟩ | ⟨rfl, hresult, hrest⟩ := hserves
      · obtain ⟨results, st', hreads, hdelivers⟩ := ih hrest
        rw [hreads]
        exact ⟨_, st', rfl, .chunk hne hle hdelivers⟩
      · obtain ⟨results, st', hreads, hdelivers⟩ := ih hrest
        rw [hreads, hresult]
        exact ⟨_, st', rfl, .ended hpos hdelivers⟩

/-! ## Streams of frames -/

/-- The stream of a tunnel: DATA and unknown frames, and trailers with whatever follows
    them, if there are any. -/
structure TunnelStream where
  frames : List WireFrame
  trailers : Option (WireFrame × Bytes)
  allowed : ∀ f ∈ frames, f.type = typeData ∨ Unknown f.type
  ends : ∀ t ∈ trailers, t.1.type = typeHeaders

def TunnelStream.bytes (s : TunnelStream) : Bytes :=
  wire s.frames ++ s.trailers.elim [] fun t => t.1.bytes ++ t.2

/-- The end of the tunnel: its trailers, or the end of the request stream. -/
def TunnelStream.lastError (s : TunnelStream) (ending : Option ReadError) : ReadError :=
  if s.trailers.isSome then .eof else ending.getD .eof

theorem frames_append {fs : List WireFrame} {ending : Option ReadError} {bytes : Bytes}
    (hallowed : ∀ f ∈ fs, f.type = typeData ∨ Unknown f.type)
    (h : Frames ending bytes [] last) :
    Frames ending (wire fs ++ bytes) (Http3RequestArrival.content fs) last := by
  induction fs with
  | nil => exact h
  | cons f fs ih =>
    obtain ⟨hfirst, hrest⟩ := forall_mem_cons.mp hallowed
    rw [wire, Http3RequestArrival.content, flatMap_cons, flatMap_cons, append_assoc,
      WireFrame.data]
    rcases hfirst with hdata | hunknown
    · rw [if_pos hdata]
      exact .data f hdata (ih hrest)
    · rw [if_neg hunknown.2.2.1]
      exact .unknown f hunknown (ih hrest)

theorem TunnelStream.arrives (s : TunnelStream) (ending : Option ReadError) :
    Frames ending s.bytes (Http3RequestArrival.content s.frames) (s.lastError ending) := by
  refine frames_append s.allowed ?_
  rw [TunnelStream.lastError]
  cases htrailers : s.trailers with
  | none => exact .ends
  | some t =>
    have htype := s.ends t htrailers
    show Frames ending (t.1.bytes ++ t.2) [] .eof
    rw [WireFrame.bytes, append_assoc]
    exact .trailers t.1 _ htype

/-- The frame that `tunnel_write` writes. -/
def writtenFrame (payload : Bytes) (h : payload.length < 2 ^ 62) : WireFrame where
  type := typeData
  header := encode typeData ++ encode payload.length
  payload := payload
  reads := by
    have hlength := decode_encode h []
    rw [append_nil] at hlength
    rw [parseFrameHeader, decode_encode (by decide)]
    dsimp only
    rw [hlength]
    rfl

theorem tunnelWrite_all (payloads : List Bytes) :
    payloads.foldl tunnelWrite [] = payloads.flatMap encodeTunnelDataFrame := by
  have hsent : ∀ sent, payloads.foldl tunnelWrite sent =
      sent ++ payloads.flatMap encodeTunnelDataFrame := by
    induction payloads with
    | nil => exact fun sent => (append_nil sent).symm
    | cons p payloads ih =>
      intro sent
      rw [foldl_cons, ih, tunnelWrite, flatMap_cons, append_assoc]
  exact hsent []

theorem written_frames {payloads : List Bytes} (h : ∀ p ∈ payloads, p.length < 2 ^ 62)
    (ending : Option ReadError) :
    Frames ending (payloads.foldl tunnelWrite []) payloads.flatten (ending.getD .eof) := by
  rw [tunnelWrite_all]
  induction payloads with
  | nil => exact .ends
  | cons p payloads ih =>
    obtain ⟨hfirst, hrest⟩ := forall_mem_cons.mp h
    rw [flatMap_cons, flatten_cons]
    exact .data (writtenFrame p hfirst) rfl (ih hrest)

/-! ## The tunnel is transparent -/

/-- Reads that hand out a byte stream: all of it and then the end, as soon as there are
    more of them than bytes. -/
structure Transparent (last : ReadError) (content : Bytes) (sizes : List Nat)
    (results : List ReadResult) : Prop where
  delivers : Delivers last content sizes results
  whole : content.length < (sizes.filter fun size => 0 < size).length →
    results.flatMap ReadResult.bytes = content ∧ { error := some last } ∈ results

theorem makeDataTunnel_reads {inner : Inner} {leftover bytes : Bytes} (sizes : List Nat)
    (hbytes : leftover ++ inner.bytes = bytes) (h : Frames inner.ending bytes content last) :
    ∃ results st, tunnelReads sizes (makeDataTunnel inner leftover) = some (results, st) ∧
      Transparent last content sizes results := by
  have hholds : Holds (makeDataTunnel inner leftover) content last :=
    ⟨Nat.zero_le _, .between rfl rfl rfl (by rw [← hbytes] at h; exact h)⟩
  obtain ⟨results, st, hreads, hdelivers⟩ := tunnelReads_delivers sizes hholds
  exact ⟨results, st, hreads, hdelivers, hdelivers.all⟩

/-- **The tunnel is transparent.**  Whatever frames it is made of, however they arrive and
    whatever the buffers, the reads hand out the payloads of the DATA frames and then the
    end; so what one end writes is what the other end reads. -/
theorem tunnel_transparent :
    (∀ (s : TunnelStream) (leftover : Bytes) (inner : Inner) (sizes : List Nat),
      leftover ++ inner.bytes = s.bytes →
        ∃ results st, tunnelReads sizes (makeDataTunnel inner leftover) = some (results, st) ∧
          Transparent (s.lastError inner.ending) (Http3RequestArrival.content s.frames) sizes results) ∧
    ∀ (payloads : List Bytes) (leftover : Bytes) (inner : Inner) (sizes : List Nat),
      (∀ p ∈ payloads, p.length < 2 ^ 62) →
      leftover ++ inner.bytes = payloads.foldl tunnelWrite [] →
        ∃ results st, tunnelReads sizes (makeDataTunnel inner leftover) = some (results, st) ∧
          Transparent (inner.ending.getD .eof) payloads.flatten sizes results := by
  constructor
  · intro s leftover inner sizes hbytes
    exact makeDataTunnel_reads sizes hbytes (s.arrives inner.ending)
  · intro payloads leftover inner sizes hlengths hbytes
    exact makeDataTunnel_reads sizes hbytes (written_frames hlengths inner.ending)

/-- Two DATA frames with an unknown frame between them, and trailers. -/
def helloStream : TunnelStream where
  frames := [⟨typeData, [0x00, 0x03], text "hel", by decide⟩,
    ⟨0x21, [0x21, 0x03], text "xyz", by decide⟩, ⟨typeData, [0x00, 0x02], text "lo", by decide⟩]
  trailers := some (⟨typeHeaders, [0x01, 0x00], [], by decide⟩, [])
  allowed := by decide
  ends := by decide

/-- It arrives in pieces that cut headers and payloads. -/
theorem tunnel_transparent_hello :
    Transparent .eof (text "hello") [2, 2, 2, 2, 2, 2]
      [{ bytes := text "h" }, { bytes := text "el" }, { bytes := text "l" }, { bytes := text "o" },
        { error := some .eof }, { error := some .eof }] := by
  obtain ⟨results, st, hreads, htransparent⟩ := tunnel_transparent.1 helloStream [0x00]
    ⟨[⟨0x03 :: text "h", none, by decide⟩, ⟨text "el" ++ [0x21], none, by decide⟩,
      ⟨0x03 :: text "xy", none, by decide⟩, ⟨text "z" ++ [0x00, 0x02] ++ text "l", none, by decide⟩,
      ⟨text "o" ++ [0x01, 0x00], some .eof, by decide⟩], some .eof⟩ [2, 2, 2, 2, 2, 2] (by decide)
  have hresults : results = [{ bytes := text "h" }, { bytes := text "el" }, { bytes := text "l" },
      { bytes := text "o" }, { error := some .eof }, { error := some .eof }] := by
    have hrun := congrArg (Option.map Prod.fst) hreads
    exact (Option.some.inj hrun).symm
  rw [← hresults]
  exact htransparent

end Http3Tunnel
