import WaveX.Http3Parser

/-! # HTTP/3 requests that arrive in pieces

    `handle_connection` calls `parse_request` again on a longer buffer with the same request
    object, and the parser goes on at its cursor.  A run over a buffer and the rest of it is
    one run (`run_append`), however the frames are cut.  Two things do not go together with
    it.  Without a content length the parser takes the end of the buffer for the end of the
    request whenever no frame is cut, and behind a CONNECT it stops only if it has met it in
    the same call. -/

namespace Http3RequestArrival

open QuicVarInt HttpText Http3Parser List
open Qpack (DynamicTable Section decodeHeaderBlock)

variable {rounds cap : Nat} {dt : DynamicTable} {buffer p q : Bytes} {st st' : ParserState}
  {hdr : FrameHeader}

/-! ## Frame headers -/

variable {rest : Bytes}

/-- What `decode` reads does not depend on what follows. -/
theorem decode_append {v : Nat} (h : decode p = some (v, rest)) (q : Bytes) :
    decode (p ++ q) = some (v, rest ++ q) := by
  cases p with
  | nil => cases h
  | cons first tl =>
    rw [decode] at h
    rw [cons_append, decode]
    generalize 1 <<< ((first.toNat >>> 6) &&& 0x03) = len at h ⊢
    split at h
    · cases h
    · rename_i hlong
      obtain ⟨rfl, rfl⟩ := Prod.mk.inj (Option.some.inj h)
      rw [length_append, if_neg (by omega), take_append_of_le_length (by omega),
        drop_append_of_le_length (by omega)]

theorem parseFrameHeader_eq_some (h : parseFrameHeader p = some hdr) :
    ∃ rest tail, decode p = some (hdr.type, rest) ∧ decode rest = some (hdr.length, tail) ∧
      hdr.size = p.length - tail.length := by
  rw [parseFrameHeader] at h
  split at h
  · cases h
  · rename_i type rest htype
    split at h
    · cases h
    · rename_i length tail hlength
      obtain rfl := Option.some.inj h
      exact ⟨rest, tail, htype, hlength, rfl⟩

theorem parseFrameHeader_size (h : parseFrameHeader p = some hdr) :
    0 < hdr.size ∧ hdr.size ≤ p.length := by
  obtain ⟨rest, tail, htype, hlength, hsize⟩ := parseFrameHeader_eq_some h
  have hfirst := decode_length_lt htype
  have hsecond := decode_length_lt hlength
  omega

/-- Bytes behind a frame header do not matter to it. -/
theorem parseFrameHeader_append (h : parseFrameHeader p = some hdr) (q : Bytes) :
    parseFrameHeader (p ++ q) = some hdr := by
  obtain ⟨rest, tail, htype, hlength, hsize⟩ := parseFrameHeader_eq_some h
  rw [parseFrameHeader, decode_append htype]
  dsimp only
  rw [decode_append hlength]
  dsimp only
  rw [length_append, length_append, Nat.add_sub_add_right, ← hsize]

/-- A header that has not arrived in full is not read. -/
theorem parseFrameHeader_cut (h : parseFrameHeader (p ++ q) = some hdr)
    (hsize : p.length < hdr.size) : parseFrameHeader p = none := by
  cases hp : parseFrameHeader p with
  | none => rfl
  | some hdr' =>
    obtain rfl := Option.some.inj ((parseFrameHeader_append hp q).symm.trans h)
    exact absurd (parseFrameHeader_size hp).2 (Nat.not_le.mpr hsize)

/-! ## Rounds of the loop -/

/-- A DATA frame the parser is in has bytes to come. -/
def Sound (st : ParserState) : Prop :=
  st.inDataFrame = true → 0 < st.remainingDataFrameBytes

theorem consumeData_sound (rest : Bytes) (st : ParserState) : Sound (consumeData rest st) := by
  intro hin
  rw [consumeData] at hin ⊢
  dsimp only at hin ⊢
  split at hin
  · cases hin
  · omega

theorem consumeData_cursor (rest : Bytes) (st : ParserState) :
    (consumeData rest st).cursor = st.cursor + min rest.length st.remainingDataFrameBytes := rfl

/-- The bytes of a DATA frame that has not ended may come in two parts. -/
theorem consumeData_append {a : Bytes} (b : Bytes) (hin : st.inDataFrame = true)
    (hmore : a.length < st.remainingDataFrameBytes) :
    consumeData b (consumeData a st) = consumeData (a ++ b) st ∧
      (consumeData a st).inDataFrame = true := by
  have hall : min a.length st.remainingDataFrameBytes = a.length := Nat.min_eq_left (by omega)
  have hopen : ¬ st.remainingDataFrameBytes - a.length = 0 := by omega
  have hfirst : consumeData a st = { st with
      bodyStorage := st.bodyStorage ++ a
      cursor := st.cursor + a.length
      remainingDataFrameBytes := st.remainingDataFrameBytes - a.length } := by
    rw [consumeData, hall, if_neg hopen, take_length]
  rw [hfirst]
  refine ⟨?_, hin⟩
  have hboth : min (a ++ b).length st.remainingDataFrameBytes =
      a.length + min b.length (st.remainingDataFrameBytes - a.length) := by
    rw [length_append]
    omega
  rw [consumeData, consumeData, hboth, take_length_add_append]
  dsimp only
  rw [append_assoc, Nat.add_assoc, Nat.sub_sub]

/-- The field section in a block, when the request is not refused because of it. -/
def acceptedFields (rounds cap : Nat) (dt : DynamicTable) (block : Bytes) : Option Fields :=
  (decodeHeaderBlock cap block dt rounds).bind fun sec =>
    if sec.ok then sectionFields cap sec else none

/-- The state behind the first HEADERS frame. -/
def entered (st : ParserState) (size : Nat) (fields : Fields) : ParserState :=
  { st with fields := some fields, cursor := st.cursor + size }

variable {size : Nat} {block : Bytes}

/-- An accepted field section gives the request its fields; a CONNECT ends the loop. -/
theorem onHeaders_accepted {fields : Fields}
    (h : acceptedFields rounds cap dt block = some fields) :
    onHeaders rounds cap dt st size block =
      if fields.method = some .connect then .ended (.tunnel (entered st size fields))
      else .next (entered st size fields) := by
  obtain ⟨sec, hsec, hfields⟩ := Option.bind_eq_some_iff.mp h
  split at hfields
  · rename_i hok
    rw [onHeaders, hsec]
    dsimp only
    rw [if_neg (not_not_intro hok), hfields]
    rfl
  · cases hfields

/-- A section that is not accepted ends the loop for good. -/
theorem onHeaders_refused (st : ParserState) (size : Nat)
    (h : acceptedFields rounds cap dt block = none) :
    onHeaders rounds cap dt st size block = .ended .hangs ∨
      onHeaders rounds cap dt st size block = .ended (.returned .incomplete st) ∨
      onHeaders rounds cap dt st size block = fails := by
  rw [acceptedFields] at h
  rw [onHeaders]
  cases hsec : decodeHeaderBlock cap block dt rounds with
  | none => exact .inl rfl
  | some sec =>
    rw [hsec, Option.bind_some] at h
    dsimp only
    split at h
    · rename_i hok
      rw [if_neg (not_not_intro hok), h]
      exact .inr (.inr rfl)
    · rename_i hok
      rw [if_pos hok]
      split
      · exact .inr (.inl rfl)
      · exact .inr (.inr rfl)

theorem onHeaders_next (h : onHeaders rounds cap dt st size block = .next st') :
    ∃ fields, st' = entered st size fields := by
  cases hfields : acceptedFields rounds cap dt block with
  | none =>
    obtain hturn | hturn | hturn := onHeaders_refused st size hfields
    · cases hturn.symm.trans h
    · cases hturn.symm.trans h
    · cases hturn.symm.trans h
  | some fields =>
    rw [onHeaders_accepted hfields] at h
    split at h
    · cases h
    · exact ⟨fields, (Turn.next.inj h).symm⟩

/-- A field section never makes the loop wait. -/
theorem onHeaders_not_waits : onHeaders rounds cap dt st size block ≠ .ended (.waits st') := by
  intro h
  cases hfields : acceptedFields rounds cap dt block with
  | none =>
    obtain hturn | hturn | hturn := onHeaders_refused st size hfields
    · cases hturn.symm.trans h
    · cases hturn.symm.trans h
    · cases hturn.symm.trans h
  | some fields =>
    rw [onHeaders_accepted hfields] at h
    split at h
    · cases h
    · cases h

/-- What one round can do. -/
inductive TurnCase (rounds cap : Nat) (dt : DynamicTable) (buffer : Bytes) (st : ParserState) :
    Turn → Prop where
  | inData (hin : st.inDataFrame = true) :
      TurnCase rounds cap dt buffer st (.next (consumeData (buffer.drop st.cursor) st))
  | waits : TurnCase rounds cap dt buffer st (.ended (.waits st))
  | fails : TurnCase rounds cap dt buffer st fails
  | data (hdr : FrameHeader) (hhdr : parseFrameHeader (buffer.drop st.cursor) = some hdr) :
      TurnCase rounds cap dt buffer st
        (.next (consumeData ((buffer.drop st.cursor).drop hdr.size) { st with
          cursor := st.cursor + hdr.size
          inDataFrame := true
          remainingDataFrameBytes := hdr.length }))
  | skip (hdr : FrameHeader) (hhdr : parseFrameHeader (buffer.drop st.cursor) = some hdr)
      (hroom : hdr.size + hdr.length ≤ (buffer.drop st.cursor).length) :
      TurnCase rounds cap dt buffer st
        (.next { st with cursor := st.cursor + (hdr.size + hdr.length) })
  | headers (hdr : FrameHeader) (hhdr : parseFrameHeader (buffer.drop st.cursor) = some hdr)
      (hroom : hdr.size + hdr.length ≤ (buffer.drop st.cursor).length) :
      TurnCase rounds cap dt buffer st
        (onHeaders rounds cap dt st (hdr.size + hdr.length)
          (((buffer.drop st.cursor).drop hdr.size).take hdr.length))

/-- The cases of one turn, by what stands at the cursor. -/
theorem turn_case (buffer : Bytes) (st : ParserState) :
    TurnCase rounds cap dt buffer st (turn rounds cap dt buffer st) := by
  rw [turn]
  split
  · rename_i hin
    exact .inData hin
  · split
    · exact .waits
    · rename_i hdr hhdr
      dsimp only
      split
      · exact .fails
      · split
        · split
          · exact .fails
          · exact .data hdr hhdr
        · split
          · split
            · exact .waits
            · rename_i hroom
              split
              · exact .skip hdr hhdr (Nat.not_lt.mp hroom)
              · exact .headers hdr hhdr (Nat.not_lt.mp hroom)
          · split
            · exact .fails
            · split
              · exact .waits
              · rename_i hroom
                exact .skip hdr hhdr (Nat.not_lt.mp hroom)

/-- A round that goes on moves the cursor, within the buffer. -/
theorem turn_next (hs : Sound st) (hc : st.cursor < buffer.length)
    (h : turn rounds cap dt buffer st = .next st') :
    st.cursor < st'.cursor ∧ st'.cursor ≤ buffer.length ∧ Sound st' := by
  have hleft : (buffer.drop st.cursor).length = buffer.length - st.cursor := length_drop
  have hcase : TurnCase rounds cap dt buffer st _ := turn_case buffer st
  generalize turn rounds cap dt buffer st = t at h hcase
  cases hcase with
  | inData hin =>
    obtain rfl := Turn.next.inj h
    have hmore := hs hin
    rw [consumeData_cursor, hleft]
    exact ⟨by omega, by omega, consumeData_sound _ _⟩
  | waits => cases h
  | fails => cases h
  | data hdr hhdr =>
    obtain ⟨hpos, hle⟩ := parseFrameHeader_size hhdr
    obtain rfl := Turn.next.inj h
    rw [consumeData_cursor]
    dsimp only
    rw [length_drop, hleft]
    exact ⟨by omega, by omega, consumeData_sound _ _⟩
  | skip hdr hhdr hroom =>
    obtain ⟨hpos, hle⟩ := parseFrameHeader_size hhdr
    obtain rfl := Turn.next.inj h
    dsimp only
    exact ⟨by omega, by omega, hs⟩
  | headers hdr hhdr hroom =>
    obtain ⟨hpos, hle⟩ := parseFrameHeader_size hhdr
    obtain ⟨fields, rfl⟩ := onHeaders_next h
    rw [entered]
    dsimp only
    exact ⟨by omega, by omega, hs⟩

/-- A round that waits has changed nothing. -/
theorem turn_waits (h : turn rounds cap dt buffer st = .ended (.waits st')) : st' = st := by
  have hcase : TurnCase rounds cap dt buffer st _ := turn_case buffer st
  generalize turn rounds cap dt buffer st = t at h hcase
  cases hcase with
  | waits => exact (Ended.waits.inj (Turn.ended.inj h)).symm
  | inData _ => cases h
  | fails => cases h
  | data _ _ => cases h
  | skip _ _ _ => cases h
  | headers _ _ _ => exact absurd h onHeaders_not_waits

/-- More rounds than bytes make no difference. -/
theorem loop_enough {fuel : Nat} (hs : Sound st) (hfuel : buffer.length - st.cursor ≤ fuel) :
    loop rounds cap dt buffer fuel st = run rounds cap dt buffer st := by
  have hsame : ∀ k fuel st, Sound st → buffer.length - st.cursor ≤ k → k ≤ fuel →
      loop rounds cap dt buffer fuel st = loop rounds cap dt buffer k st := by
    intro k
    induction k with
    | zero =>
      intro fuel st _ hk _
      cases fuel with
      | zero => rfl
      | succ fuel => exact if_neg (by omega)
    | succ k ih =>
      intro fuel st hs hk hfuel
      obtain ⟨fuel, rfl⟩ := Nat.exists_eq_succ_of_ne_zero (show fuel ≠ 0 by omega)
      rw [loop, loop]
      split
      · rename_i hc
        cases hturn : turn rounds cap dt buffer st with
        | ended e => rfl
        | next st' =>
          obtain ⟨hforward, -, hs'⟩ := turn_next hs hc hturn
          exact ih fuel st' hs' (by omega) (by omega)
      · rfl
  exact hsame _ fuel st hs (Nat.le_refl _) hfuel

/-- At the end of the buffer the loop waits. -/
theorem run_exhausted (hc : buffer.length ≤ st.cursor) :
    run rounds cap dt buffer st = .waits st := by
  rw [run, Nat.sub_eq_zero_of_le hc]
  rfl

/-- A turn that goes on is part of the run. -/
theorem run_next (hs : Sound st) (hc : st.cursor < buffer.length)
    (h : turn rounds cap dt buffer st = .next st') :
    run rounds cap dt buffer st = run rounds cap dt buffer st' := by
  obtain ⟨hforward, -, hs'⟩ := turn_next hs hc h
  obtain ⟨k, hk⟩ := Nat.exists_eq_succ_of_ne_zero (show buffer.length - st.cursor ≠ 0 by omega)
  rw [run, hk, loop, if_pos hc, h]
  exact loop_enough hs' (by omega)

/-- A turn that ends the loop ends the run. -/
theorem run_ended {e : Ended} (hc : st.cursor < buffer.length)
    (h : turn rounds cap dt buffer st = .ended e) : run rounds cap dt buffer st = e := by
  obtain ⟨k, hk⟩ := Nat.exists_eq_succ_of_ne_zero (show buffer.length - st.cursor ≠ 0 by omega)
  rw [run, hk, loop, if_pos hc, h]

/-! ## Longer buffers -/

/-- More bytes change nothing in a DATA frame that has ended, and go on in one that has
    not. -/
theorem consumeData_more (st : ParserState) (a b : Bytes) (hin : st.inDataFrame = true) :
    consumeData (a ++ b) st = consumeData a st ∨
      (consumeData a st).cursor = st.cursor + a.length ∧ (consumeData a st).inDataFrame = true ∧
        consumeData (a ++ b) st = consumeData b (consumeData a st) := by
  by_cases hends : st.remainingDataFrameBytes ≤ a.length
  · left
    have hlong : min (a ++ b).length st.remainingDataFrameBytes = st.remainingDataFrameBytes := by
      rw [length_append]
      omega
    rw [consumeData, consumeData, hlong, Nat.min_eq_right hends,
      take_append_of_le_length hends]
  · right
    have hmore := Nat.not_le.mp hends
    obtain ⟨hboth, hopen⟩ := consumeData_append b hin hmore
    refine ⟨?_, hopen, hboth.symm⟩
    rw [consumeData_cursor, Nat.min_eq_left (Nat.le_of_lt hmore)]

/-- With more bytes a round does the same, unless it has to wait or has come to the end of
    the bytes within a DATA frame. -/
theorem turn_append (hc : st.cursor < p.length) (q : Bytes) :
    turn rounds cap dt (p ++ q) st = turn rounds cap dt p st ∨
      turn rounds cap dt p st = .ended (.waits st) ∨
      ∃ st₁, turn rounds cap dt p st = .next st₁ ∧ st₁.cursor = p.length ∧
        st₁.inDataFrame = true ∧ turn rounds cap dt (p ++ q) st = .next (consumeData q st₁) := by
  have hdrop : (p ++ q).drop st.cursor = p.drop st.cursor ++ q :=
    drop_append_of_le_length (Nat.le_of_lt hc)
  have hlength : (p.drop st.cursor).length = p.length - st.cursor := length_drop
  rw [turn, turn, hdrop]
  split
  · rename_i hin
    obtain hsame | ⟨hcursor, hopen, hmore⟩ := consumeData_more st (p.drop st.cursor) q hin
    · rw [hsame]
      exact .inl rfl
    · refine .inr (.inr ⟨_, rfl, ?_, hopen, by rw [hmore]⟩)
      omega
  · cases hhdr : parseFrameHeader (p.drop st.cursor) with
    | none => exact .inr (.inl rfl)
    | some hdr =>
      obtain ⟨hpos, hle⟩ := parseFrameHeader_size hhdr
      rw [parseFrameHeader_append hhdr]
      dsimp only
      split
      · exact .inl rfl
      · split
        · split
          · exact .inl rfl
          · -- a DATA frame: its header is there, its payload may be cut
            rw [drop_append_of_le_length hle]
            obtain hsame | ⟨hcursor, hopen, hmore⟩ := consumeData_more
              { st with
                cursor := st.cursor + hdr.size
                inDataFrame := true
                remainingDataFrameBytes := hdr.length }
              ((p.drop st.cursor).drop hdr.size) q rfl
            · rw [hsame]
              exact .inl rfl
            · refine .inr (.inr ⟨_, rfl, ?_, hopen, by rw [hmore]⟩)
              rw [hcursor, length_drop]
              dsimp only
              omega
        · have hmore : ¬ hdr.size + hdr.length > (p.drop st.cursor).length →
              ¬ hdr.size + hdr.length > (p.drop st.cursor ++ q).length := by
            rw [length_append]
            omega
          split
          · by_cases hroom : hdr.size + hdr.length > (p.drop st.cursor).length
            · rw [if_pos hroom]
              exact .inr (.inl rfl)
            · rw [if_neg hroom, if_neg (hmore hroom), drop_append_of_le_length hle,
                take_append_of_le_length (by rw [length_drop]; omega)]
              exact .inl rfl
          · split
            · exact .inl rfl
            · by_cases hroom : hdr.size + hdr.length > (p.drop st.cursor).length
              · rw [if_pos hroom]
                exact .inr (.inl rfl)
              · rw [if_neg hroom, if_neg (hmore hroom)]
                exact .inl rfl

/-- What a run becomes when more bytes have arrived. -/
def resume (rounds cap : Nat) (dt : DynamicTable) (buffer : Bytes) : Ended → Ended
  | .waits st => run rounds cap dt buffer st
  | e => e

/-- **A run over more bytes** is the run over those that were there before, resumed. -/
theorem run_append (hs : Sound st) (hc : st.cursor ≤ p.length) (q : Bytes) :
    run rounds cap dt (p ++ q) st =
      resume rounds cap dt (p ++ q) (run rounds cap dt p st) := by
  induction hn : p.length - st.cursor using Nat.strong_induction_on generalizing st with
  | h n ih =>
    obtain hend | hc := Nat.lt_or_eq_of_le hc |>.symm
    · rw [run_exhausted (Nat.le_of_eq hend.symm)]
      rfl
    · have hlong : st.cursor < (p ++ q).length := by
        rw [length_append]
        omega
      obtain hsame | hwaits | ⟨st₁, hnext, hend, hopen, hmore⟩ :
          turn rounds cap dt (p ++ q) st = turn rounds cap dt p st ∨ _ := turn_append hc q
      · cases hturn : turn rounds cap dt p st with
        | ended e =>
          rw [hturn] at hsame
          rw [run_ended hc hturn, run_ended hlong hsame]
          cases e with
          | waits st' =>
            obtain rfl := turn_waits hturn
            exact (run_ended hlong hsame).symm
          | tunnel _ => rfl
          | returned _ _ => rfl
          | hangs => rfl
        | next st' =>
          rw [hturn] at hsame
          obtain ⟨hforward, hle, hs'⟩ := turn_next hs hc hturn
          rw [run_next hs hc hturn, run_next hs hlong hsame]
          exact ih _ (by omega) hs' hle rfl
      · rw [run_ended hc hwaits]
        rfl
      · -- the bytes end within a DATA frame
        obtain ⟨-, -, hs₁⟩ := turn_next hs hc hnext
        rw [run_next hs hc hnext, run_exhausted (Nat.le_of_eq hend.symm)]
        cases q with
        | nil =>
          rw [append_nil, run_next hs hc hnext]
          rfl
        | cons c q =>
          have hrest : st₁.cursor < (p ++ c :: q).length := by
            rw [hend, length_append, length_cons]
            omega
          have hturn : turn rounds cap dt (p ++ c :: q) st₁ = .next (consumeData (c :: q) st₁) := by
            rw [turn, if_pos hopen, hend, drop_left]
          rw [run_next hs hlong hmore]
          exact (run_next hs₁ hrest hturn).symm

/-! ## Frames -/

/-- A frame on the wire, however its type and its length are encoded. -/
structure WireFrame where
  type : Nat
  header : Bytes
  payload : Bytes
  reads : parseFrameHeader header = some ⟨type, payload.length, header.length⟩

def WireFrame.bytes (f : WireFrame) : Bytes := f.header ++ f.payload

/-- What a frame adds to the body. -/
def WireFrame.data (f : WireFrame) : Bytes := if f.type = typeData then f.payload else []

def wire (fs : List WireFrame) : Bytes := fs.flatMap WireFrame.bytes

def content (fs : List WireFrame) : Bytes := fs.flatMap WireFrame.data

/-- A type that is passed over. -/
def Unknown (type : Nat) : Prop :=
  isReservedFrameType type = false ∧ isControlFrameType type = false ∧ type ≠ typeData ∧
    type ≠ typeHeaders

instance (type : Nat) : Decidable (Unknown type) := inferInstanceAs (Decidable (_ ∧ _ ∧ _ ∧ _))

/-- A frame that may come before the field section, or behind it when there is one. -/
def Passes (fields : Option Fields) (f : WireFrame) : Prop :=
  Unknown f.type ∨ fields.isSome = true ∧ (f.type = typeData ∨ f.type = typeHeaders)

/-- The state between two frames. -/
structure Between (st : ParserState) : Prop where
  outside : st.inDataFrame = false
  nothing : st.remainingDataFrameBytes = 0

/-- The state behind some frames. -/
def advanced (fs : List WireFrame) (st : ParserState) : ParserState :=
  { st with cursor := st.cursor + (wire fs).length, bodyStorage := st.bodyStorage ++ content fs }

variable {f : WireFrame} {fs : List WireFrame}

theorem Between.sound (h : Between st) : Sound st := fun hin =>
  absurd (h.outside.symm.trans hin) Bool.false_ne_true

theorem Between.advanced (h : Between st) (fs : List WireFrame) : Between (advanced fs st) :=
  ⟨h.outside, h.nothing⟩

theorem advanced_nil (st : ParserState) : advanced [] st = st := by
  rw [advanced, wire, content, flatMap_nil, flatMap_nil, append_nil]
  rfl

theorem advanced_cons (f : WireFrame) (fs : List WireFrame) (st : ParserState) :
    advanced (f :: fs) st = advanced fs (advanced [f] st) := by
  rw [advanced, advanced, advanced, wire, wire, wire, content, content, content,
    flatMap_cons, flatMap_cons, flatMap_cons, flatMap_cons, flatMap_nil,
    flatMap_nil, append_nil, append_nil, length_append, Nat.add_assoc,
    append_assoc]

theorem WireFrame.header_pos (f : WireFrame) : 0 < f.header.length :=
  (parseFrameHeader_size f.reads).1

theorem drop_frame (hdrop : buffer.drop st.cursor = f.bytes ++ rest) :
    st.cursor < buffer.length ∧ buffer.drop (advanced [f] st).cursor = rest := by
  have hlength := congrArg List.length hdrop
  rw [length_drop, length_append, WireFrame.bytes, length_append] at hlength
  have hpos := f.header_pos
  refine ⟨by omega, ?_⟩
  rw [advanced, wire, flatMap_cons, flatMap_nil, append_nil]
  dsimp only
  rw [← drop_drop, hdrop, drop_left]

/-- A whole frame takes one round. -/
theorem turn_frame (hst : Between st) (hpass : Passes st.fields f)
    (hdrop : buffer.drop st.cursor = f.bytes ++ rest) :
    turn rounds cap dt buffer st = .next (advanced [f] st) := by
  have hframe : f.bytes ++ rest = f.header ++ (f.payload ++ rest) := append_assoc _ _ _
  have hroom : ¬ f.header.length + f.payload.length >
      (f.header ++ (f.payload ++ rest)).length := by
    rw [length_append, length_append]
    omega
  have hcursor : (wire [f]).length = f.header.length + f.payload.length := by
    rw [wire, flatMap_cons, flatMap_nil, append_nil, WireFrame.bytes,
      length_append]
  have hskip : f.type ≠ typeData → Turn.next { st with
      cursor := st.cursor + (f.header.length + f.payload.length) } = .next (advanced [f] st) := by
    intro htype
    rw [advanced, hcursor, content, flatMap_cons, flatMap_nil, WireFrame.data,
      if_neg htype, append_nil, append_nil]
  rw [turn, if_neg (Bool.eq_false_iff.mp hst.outside), hdrop, hframe,
    parseFrameHeader_append f.reads]
  dsimp only
  obtain ⟨hreserved, hcontrol, hdata, hheaders⟩ | ⟨hsome, htype | htype⟩ := hpass
  · rw [if_neg (Bool.eq_false_iff.mp hreserved), if_neg hdata, if_neg hheaders,
      if_neg (Bool.eq_false_iff.mp hcontrol), if_neg hroom]
    exact hskip hdata
  · have hfields : ¬ st.fields.isNone = true := by
      rw [Option.isNone_iff_eq_none]
      exact Option.isSome_iff_ne_none.mp hsome
    rw [htype, if_neg (by decide), if_pos rfl, if_neg hfields, drop_left, consumeData]
    dsimp only
    have hmin : min (f.payload ++ rest).length f.payload.length = f.payload.length := by
      rw [length_append]
      omega
    rw [hmin, Nat.sub_self, if_pos rfl, take_left, advanced, hcursor, content,
      flatMap_cons, flatMap_nil, WireFrame.data, if_pos htype, append_nil,
      ← hst.nothing, ← hst.outside, Nat.add_assoc]
  · have hdata : f.type ≠ typeData := by
      rw [htype]
      decide
    rw [htype, if_neg (by decide), if_neg (by decide), if_pos rfl, if_neg hroom, if_pos hsome]
    exact hskip hdata

/-- A frame that passes is consumed whole. -/
theorem run_frame (hst : Between st) (hpass : Passes st.fields f)
    (hdrop : buffer.drop st.cursor = f.bytes ++ rest) :
    run rounds cap dt buffer st = run rounds cap dt buffer (advanced [f] st) :=
  run_next hst.sound (drop_frame hdrop).1 (turn_frame hst hpass hdrop)

/-- Whole frames, one after the other. -/
theorem run_frames (hst : Between st) (hpass : ∀ f ∈ fs, Passes st.fields f)
    (hdrop : buffer.drop st.cursor = wire fs ++ rest) :
    run rounds cap dt buffer st = run rounds cap dt buffer (advanced fs st) ∧
      buffer.drop (advanced fs st).cursor = rest := by
  induction fs generalizing st with
  | nil =>
    rw [advanced_nil]
    exact ⟨rfl, hdrop⟩
  | cons f fs ih =>
    rw [wire, flatMap_cons, append_assoc] at hdrop
    obtain ⟨hfirst, hrest⟩ := forall_mem_cons.mp hpass
    obtain ⟨hrun, hleft⟩ := ih (hst.advanced [f]) hrest (drop_frame hdrop).2
    rw [advanced_cons]
    exact ⟨(run_frame hst hfirst hdrop).trans hrun, hleft⟩

/-- A frame that is cut is waited for; only a DATA frame is entered. -/
theorem run_cut (hst : Between st) (hpass : Passes st.fields f ∨ f.type = typeHeaders)
    (hdrop : buffer.drop st.cursor = p) (hcut : f.bytes = p ++ rest) (hrest : rest ≠ []) :
    ∃ st₁, run rounds cap dt buffer st = .waits st₁ ∧ st₁.fields = st.fields ∧
      (st₁ = st ∨ st₁.inDataFrame = true) := by
  have hlength : p.length = buffer.length - st.cursor := by rw [← hdrop, length_drop]
  have hpos : 0 < rest.length := length_pos_iff.mpr hrest
  have hstays : turn rounds cap dt buffer st = .ended (.waits st) → ∃ st₁,
      run rounds cap dt buffer st = .waits st₁ ∧ st₁.fields = st.fields ∧
        (st₁ = st ∨ st₁.inDataFrame = true) := by
    intro hturn
    by_cases hc : st.cursor < buffer.length
    · exact ⟨st, run_ended hc hturn, rfl, .inl rfl⟩
    · exact ⟨st, run_exhausted (Nat.not_lt.mp hc), rfl, .inl rfl⟩
  have hturn := turn.eq_1 rounds cap dt buffer st
  rw [if_neg (Bool.eq_false_iff.mp hst.outside), hdrop] at hturn
  by_cases hheader : p.length < f.header.length
  · -- not even the header is complete
    obtain ⟨tail, htail⟩ := prefix_of_prefix_length_le ⟨rest, hcut.symm⟩
      (prefix_append f.header f.payload) (Nat.le_of_lt hheader)
    have hread := f.reads
    rw [← htail] at hread
    rw [parseFrameHeader_cut hread (by rwa [htail])] at hturn
    exact hstays hturn
  · obtain ⟨part, rfl⟩ := prefix_of_prefix_length_le
      (prefix_append f.header f.payload) ⟨rest, hcut.symm⟩ (Nat.not_lt.mp hheader)
    have hpayload : f.payload = part ++ rest := by
      rw [WireFrame.bytes, append_assoc] at hcut
      exact append_cancel_left hcut
    have hshort : part.length < f.payload.length := by
      rw [hpayload, length_append]
      omega
    have hroom : f.header.length + f.payload.length > (f.header ++ part).length := by
      rw [length_append]
      omega
    rw [parseFrameHeader_append f.reads] at hturn
    dsimp only at hturn
    have hunknown : Unknown f.type → turn rounds cap dt buffer st = .ended (.waits st) := by
      rintro ⟨hreserved, hcontrol, hdata, hheaders⟩
      rw [hturn, if_neg (Bool.eq_false_iff.mp hreserved), if_neg hdata, if_neg hheaders,
        if_neg (Bool.eq_false_iff.mp hcontrol), if_pos hroom]
    have hsection : f.type = typeHeaders → turn rounds cap dt buffer st = .ended (.waits st) := by
      intro htype
      rw [hturn, htype, if_neg (by decide), if_neg (by decide), if_pos rfl, if_pos hroom]
    obtain (hother | ⟨hsome, htype | htype⟩) | htype := hpass
    · exact hstays (hunknown hother)
    · -- the part of the payload that is there is consumed
      have hfields : ¬ st.fields.isNone = true := by
        rw [Option.isNone_iff_eq_none]
        exact Option.isSome_iff_ne_none.mp hsome
      rw [htype, if_neg (by decide), if_pos rfl, if_neg hfields, drop_left] at hturn
      have hc : st.cursor < buffer.length := by
        have := f.header_pos
        rw [length_append] at hlength
        omega
      have hopen : ¬ f.payload.length - min part.length f.payload.length = 0 := by omega
      refine ⟨_, (run_next hst.sound hc hturn).trans (run_exhausted ?_), rfl, .inr ?_⟩
      · rw [consumeData_cursor]
        dsimp only
        rw [length_append] at hlength
        omega
      · rw [consumeData]
        dsimp only
        rw [if_neg hopen]
    · exact hstays (hsection htype)
    · exact hstays (hsection htype)

/-- A run over the start of some frames comes to rest behind whole frames, or within a DATA
    frame. -/
theorem run_prefix (hst : Between st) (hpass : ∀ f ∈ fs, Passes st.fields f)
    (hdrop : buffer.drop st.cursor = p) (hwire : wire fs = p ++ rest) :
    ∃ a b st₁, fs = a ++ b ∧ (wire a).length ≤ p.length ∧
      run rounds cap dt buffer st = .waits st₁ ∧ st₁.fields = st.fields ∧
        (st₁ = advanced a st ∨ st₁.inDataFrame = true) := by
  induction fs generalizing st p with
  | nil =>
    obtain ⟨rfl, -⟩ := append_eq_nil_iff.mp hwire.symm
    refine ⟨[], [], st, rfl, Nat.zero_le _, run_exhausted ?_, rfl, .inl (advanced_nil st).symm⟩
    exact drop_eq_nil_iff.mp hdrop
  | cons f fs ih =>
    obtain ⟨hfirst, hlater⟩ := forall_mem_cons.mp hpass
    rw [wire, flatMap_cons] at hwire
    by_cases hcut : p.length < f.bytes.length
    · obtain ⟨tail, htail⟩ := prefix_of_prefix_length_le ⟨rest, hwire.symm⟩
        (prefix_append f.bytes (wire fs)) (Nat.le_of_lt hcut)
      have hne : tail ≠ [] := by
        rintro rfl
        rw [← htail, append_nil] at hcut
        exact absurd hcut (Nat.lt_irrefl _)
      obtain ⟨st₁, hrun, hfields, hstate⟩ := run_cut hst (.inl hfirst) hdrop htail.symm hne
      refine ⟨[], f :: fs, st₁, rfl, Nat.zero_le _, hrun, hfields, ?_⟩
      rw [advanced_nil]
      exact hstate
    · obtain ⟨tail, rfl⟩ := prefix_of_prefix_length_le
        (prefix_append f.bytes (wire fs)) ⟨rest, hwire.symm⟩ (Nat.not_lt.mp hcut)
      rw [append_assoc] at hwire
      obtain ⟨a, b, st₁, rfl, hle, hrun, hfields, hstate⟩ := ih (hst.advanced [f]) hlater
        (drop_frame hdrop).2 (append_cancel_left hwire)
      refine ⟨f :: a, b, st₁, rfl, ?_, (run_frame hst hfirst hdrop).trans hrun, hfields, ?_⟩
      · rw [wire, flatMap_cons, length_append, length_append]
        exact Nat.add_le_add_left hle _
      · rw [advanced_cons]
        exact hstate

/-! ## Request streams -/

/-- A request on its stream: a field section with unknown frames before it, and behind it
    DATA, trailers and unknown frames in any order. -/
structure RequestStream where
  before : List WireFrame
  headers : WireFrame
  after : List WireFrame
  unknown : ∀ f ∈ before, Unknown f.type
  first : headers.type = typeHeaders
  allowed : ∀ f ∈ after, f.type = typeData ∨ f.type = typeHeaders ∨ Unknown f.type

/-- The stream up to the end of the field section. -/
def RequestStream.head (s : RequestStream) : Bytes := wire s.before ++ s.headers.bytes

def RequestStream.bytes (s : RequestStream) : Bytes := s.head ++ wire s.after

/-- The state behind the field section. -/
def RequestStream.start (s : RequestStream) (fields : Fields) : ParserState :=
  entered (advanced s.before {}) s.headers.bytes.length fields

variable {s : RequestStream} {fields : Fields}

theorem between_empty : Between {} := ⟨rfl, rfl⟩

theorem RequestStream.passes_before (s : RequestStream) :
    ∀ f ∈ s.before, Passes (advanced s.before {}).fields f := fun f hf => .inl (s.unknown f hf)

theorem RequestStream.passes_after (s : RequestStream) (fields : Fields) :
    ∀ f ∈ s.after, Passes (s.start fields).fields f := by
  intro f hf
  obtain htype | htype | hunknown := s.allowed f hf
  · exact .inr ⟨rfl, .inl htype⟩
  · exact .inr ⟨rfl, .inr htype⟩
  · exact .inl hunknown

theorem content_before (s : RequestStream) : content s.before = [] := by
  refine flatMap_eq_nil_iff.mpr fun f hf => ?_
  rw [WireFrame.data, if_neg (s.unknown f hf).2.2.1]

theorem start_between (s : RequestStream) (fields : Fields) : Between (s.start fields) := ⟨rfl, rfl⟩

theorem start_fields : (s.start fields).fields = some fields := rfl

theorem start_body (s : RequestStream) (fields : Fields) : (s.start fields).bodyStorage = [] := by
  rw [RequestStream.start, entered, advanced, content_before]
  rfl

theorem start_cursor (s : RequestStream) (fields : Fields) :
    (s.start fields).cursor = s.head.length := by
  rw [RequestStream.start, entered, advanced, RequestStream.head, length_append]
  dsimp only
  rw [Nat.zero_add]

theorem drop_start (s : RequestStream) (fields : Fields) (q : Bytes) :
    (s.head ++ q).drop (s.start fields).cursor = q := by
  rw [start_cursor, drop_left]

/-- Before the field section has arrived there is nothing but waiting. -/
theorem run_head_cut (hcut : s.head = p ++ rest) (hrest : rest ≠ []) :
    ∃ st, run rounds cap dt p {} = .waits st ∧ st.fields = none := by
  by_cases hlong : p.length ≤ (wire s.before).length
  · obtain ⟨tail, htail⟩ := prefix_of_prefix_length_le ⟨rest, hcut.symm⟩
      (prefix_append (wire s.before) s.headers.bytes) hlong
    obtain ⟨a, b, st, -, -, hrun, hfields, -⟩ :=
      run_prefix between_empty s.passes_before drop_zero htail.symm
    exact ⟨st, hrun, hfields⟩
  · obtain ⟨part, rfl⟩ := prefix_of_prefix_length_le
      (prefix_append (wire s.before) s.headers.bytes) ⟨rest, hcut.symm⟩
      (Nat.le_of_lt (Nat.not_le.mp hlong))
    rw [RequestStream.head, append_assoc] at hcut
    obtain ⟨hrun, hleft⟩ : run rounds cap dt (wire s.before ++ part) {} = _ ∧ _ :=
      run_frames between_empty s.passes_before drop_zero
    obtain ⟨st, hwaits, hfields, -⟩ := run_cut (between_empty.advanced s.before)
      (.inr s.first) hleft (append_cancel_left hcut) hrest
    exact ⟨st, hrun.trans hwaits, hfields⟩

/-- The unknown frames in front are passed over. -/
theorem run_before (q : Bytes) :
    run rounds cap dt (s.head ++ q) {} =
      run rounds cap dt (s.head ++ q) (advanced s.before {}) := by
  have hdrop : (s.head ++ q).drop 0 = wire s.before ++ (s.headers.bytes ++ q) :=
    append_assoc _ _ _
  exact (run_frames between_empty s.passes_before hdrop).1

theorem drop_before (q : Bytes) :
    (s.head ++ q).drop (advanced s.before {}).cursor = s.headers.bytes ++ q := by
  rw [advanced, RequestStream.head, append_assoc]
  dsimp only
  rw [Nat.zero_add, drop_left]

/-- Behind the frames in front, the loop comes to the HEADERS frame. -/
theorem turn_head (q : Bytes) :
    turn rounds cap dt (s.head ++ q) (advanced s.before {}) =
      onHeaders rounds cap dt (advanced s.before {}) s.headers.bytes.length s.headers.payload := by
  have hroom : ¬ s.headers.header.length + s.headers.payload.length >
      (s.headers.header ++ (s.headers.payload ++ q)).length := by
    rw [length_append, length_append]
    omega
  have hdrop : (s.head ++ q).drop (advanced s.before {}).cursor =
      s.headers.header ++ (s.headers.payload ++ q) :=
    (drop_before q).trans (append_assoc _ _ _)
  have hout : ¬ (advanced s.before {}).inDataFrame = true := Bool.false_ne_true
  have hnone : ¬ (advanced s.before {}).fields.isSome = true := Bool.false_ne_true
  rw [turn, if_neg hout, hdrop, parseFrameHeader_append s.headers.reads]
  dsimp only
  rw [s.first, if_neg (by decide), if_neg (by decide), if_pos rfl, if_neg hroom, if_neg hnone,
    drop_left, take_left, WireFrame.bytes, length_append]

theorem head_cursor (q : Bytes) : (advanced s.before {}).cursor < (s.head ++ q).length := by
  have hpos := s.headers.header_pos
  rw [advanced, RequestStream.head, WireFrame.bytes, length_append, length_append,
    length_append]
  dsimp only
  omega

/-- Behind a field section that is accepted the loop goes on, but for CONNECT. -/
theorem run_accepted (h : acceptedFields rounds cap dt s.headers.payload = some fields)
    (q : Bytes) :
    run rounds cap dt (s.head ++ q) {} =
      if fields.method = some .connect then .tunnel (s.start fields)
      else run rounds cap dt (s.head ++ q) (s.start fields) := by
  have hturn : turn rounds cap dt (s.head ++ q) (advanced s.before {}) = _ := turn_head q
  rw [onHeaders_accepted h] at hturn
  rw [run_before q]
  split
  · rename_i hconnect
    rw [if_pos hconnect] at hturn
    exact run_ended (head_cursor q) hturn
  · rename_i hother
    rw [if_neg hother] at hturn
    exact run_next (between_empty.advanced s.before).sound (head_cursor q) hturn

/-- A field section that is not accepted ends the loop. -/
theorem run_refused (h : acceptedFields rounds cap dt s.headers.payload = none) (q : Bytes) :
    run rounds cap dt (s.head ++ q) {} = .hangs ∨
      run rounds cap dt (s.head ++ q) {} = .returned .incomplete (advanced s.before {}) ∨
      run rounds cap dt (s.head ++ q) {} = .returned .error {} := by
  have hturn : turn rounds cap dt (s.head ++ q) (advanced s.before {}) = _ := turn_head q
  rw [run_before q]
  obtain hhangs | hblocked | hfails := onHeaders_refused (advanced s.before {})
    s.headers.bytes.length h
  · exact .inl (run_ended (head_cursor q) (hturn.trans hhangs))
  · exact .inr (.inl (run_ended (head_cursor q) (hturn.trans hblocked)))
  · exact .inr (.inr (run_ended (head_cursor q) (hturn.trans hfails)))

/-! ## What a call returns -/

/-- The body has the size that was announced, if any was. -/
def Complete (fields : Fields) (size : Nat) : Prop :=
  fields.contentLength = none ∨ fields.contentLength = some size

instance (fields : Fields) (size : Nat) : Decidable (Complete fields size) :=
  inferInstanceAs (Decidable (_ ∨ _))

theorem complete_or (fields : Fields) (size : Nat) :
    Complete fields size ∨ (∃ n, fields.contentLength = some n ∧ size < n) ∨
      ∃ n, fields.contentLength = some n ∧ n < size := by
  cases hlength : fields.contentLength with
  | none => exact .inl (.inl hlength)
  | some n =>
    obtain hlt | rfl | hgt := Nat.lt_trichotomy size n
    · exact .inr (.inl ⟨n, rfl, hlt⟩)
    · exact .inl (.inr hlength)
    · exact .inr (.inr ⟨n, rfl, hgt⟩)

variable {old : Message}

/-- A request in the middle of a frame is not complete. -/
theorem finish_waiting (h : st.fields = none ∨ st.inDataFrame = true) :
    finish st old = { result := .incomplete, request := { state := st, message := old } } := by
  rw [finish]
  cases hfields : st.fields with
  | none => rfl
  | some fields =>
    obtain hnone | hin := h
    · cases hfields.symm.trans hnone
    · exact if_pos hin

/-- A body that is too short for Content-Length is not complete. -/
theorem finish_short {n : Nat} (hfields : st.fields = some fields)
    (hn : fields.contentLength = some n) (hshort : st.bodyStorage.length < n) :
    finish st old = { result := .incomplete, request := { state := st, message := old } } := by
  rw [finish, hfields]
  dsimp only
  split
  · rfl
  · rw [hn, Option.any_some, if_pos (decide_eq_true hshort)]

/-- A body that is too long for Content-Length is an error. -/
theorem finish_long {n : Nat} (hfields : st.fields = some fields) (hout : st.inDataFrame = false)
    (hn : fields.contentLength = some n) (hlong : n < st.bodyStorage.length) :
    finish st old = { result := .error, request := { message := old } } := by
  have hshort : ¬ decide (st.bodyStorage.length < n) = true := by
    rw [decide_eq_true_iff]
    omega
  rw [finish, hfields]
  dsimp only
  rw [if_neg (Bool.eq_false_iff.mp hout), hn, Option.any_some, if_neg hshort, Option.any_some,
    if_pos (decide_eq_true hlong)]

/-- A complete request is handed over. -/
theorem finish_complete (hfields : st.fields = some fields) (hout : st.inDataFrame = false)
    (hcomplete : Complete fields st.bodyStorage.length) :
    finish st old = { result := .success
                      request := { message := rebase fields st.bodyStorage old }
                      bytesConsumed := st.cursor } := by
  have hneither : ∀ less : Nat → Bool, less st.bodyStorage.length = false →
      ¬ fields.contentLength.any less = true := by
    intro less hless
    obtain hnone | hsome := hcomplete
    · rw [hnone]
      exact Bool.false_ne_true
    · rw [hsome, Option.any_some, hless]
      exact Bool.false_ne_true
  rw [finish, hfields]
  dsimp only
  rw [if_neg (Bool.eq_false_iff.mp hout),
    if_neg (hneither _ (decide_eq_false (Nat.lt_irrefl _))),
    if_neg (hneither _ (decide_eq_false (Nat.lt_irrefl _)))]

/-- What is returned does not depend on the message that was there before. -/
theorem finish_cases (st : ParserState) :
    (∀ old, finish st old =
        { result := .incomplete, request := { state := st, message := old } }) ∨
      (∀ old, finish st old = { result := .error, request := { message := old } }) ∨
      ∃ fields, st.fields = some fields ∧ st.inDataFrame = false ∧
        Complete fields st.bodyStorage.length ∧
        ∀ old, finish st old = { result := .success
                                 request := { message := rebase fields st.bodyStorage old }
                                 bytesConsumed := st.cursor } := by
  cases hfields : st.fields with
  | none => exact .inl fun _ => finish_waiting (.inl hfields)
  | some fields =>
    cases hin : st.inDataFrame with
    | true => exact .inl fun _ => finish_waiting (.inr hin)
    | false =>
      obtain hcomplete | ⟨n, hn, hshort⟩ | ⟨n, hn, hlong⟩ := complete_or fields st.bodyStorage.length
      · refine .inr (.inr ⟨fields, rfl, rfl, hcomplete, fun _ => ?_⟩)
        exact finish_complete hfields hin hcomplete
      · exact .inl fun _ => finish_short hfields hn hshort
      · exact .inr (.inl fun _ => finish_long hfields hin hn hlong)

/-- A message that is new or has been made of this field section. -/
def Genuine (accepted : Option Fields) (m : Message) : Prop :=
  m = {} ∨ ∃ fields body, accepted = some fields ∧ m = rebase fields body {}

theorem rebased_idem (storage view : Bytes) :
    rebased storage (rebased storage view) = rebased storage view := by
  rw [rebased, rebased]
  split
  · rfl
  · rfl

/-- Views that are left over from an earlier success are those of the same request. -/
theorem Genuine.rebase {m : Message} (h : Genuine (some fields) m) (body : Bytes) :
    rebase fields body m = rebase fields body {} := by
  obtain rfl | ⟨fields', body', heq, rfl⟩ := h
  · rfl
  · obtain rfl := Option.some.inj heq
    rw [Http3Parser.rebase, Http3Parser.rebase, Http3Parser.rebase]
    dsimp only
    rw [rebased_idem, rebased_idem, rebased_idem]

/-! ## Calls on growing buffers -/

/-- One call after the other on the same request. -/
def feed (rounds cap : Nat) (dt : DynamicTable) : Request → List Bytes → Option Request
  | req, [] => some req
  | req, buffer :: buffers =>
      (parseRequest rounds cap dt buffer req).bind fun o => feed rounds cap dt o.request buffers

/-- From this state a call goes on as a run from the other one would. -/
def ResumesFrom (rounds cap : Nat) (dt : DynamicTable) (st₀ : ParserState) (p : Bytes)
    (st : ParserState) : Prop :=
  ∀ q, run rounds cap dt (p ++ q) (startState st) = run rounds cap dt (p ++ q) st₀

/-- The field section of a CONNECT has been read, and its content length waits for a
    body. -/
def InTunnel (rounds cap : Nat) (dt : DynamicTable) (s : RequestStream) (p : Bytes)
    (st : ParserState) : Prop :=
  ∃ fields n q, acceptedFields rounds cap dt s.headers.payload = some fields ∧
    fields.method = some .connect ∧ fields.contentLength = some n ∧ 0 < n ∧ p = s.head ++ q ∧
      ResumesFrom rounds cap dt (s.start fields) p st

/-- What earlier calls, the last of them on `p`, have made of a request. -/
structure Fed (rounds cap : Nat) (dt : DynamicTable) (s : RequestStream) (p : Bytes)
    (req : Request) : Prop where
  message : Genuine (acceptedFields rounds cap dt s.headers.payload) req.message
  state : ResumesFrom rounds cap dt {} p req.state ∨ InTunnel rounds cap dt s p req.state

variable {req req' : Request} {o : Outcome}

theorem startState_cases (st : ParserState) : startState st = {} ∨ startState st = st := by
  rw [startState]
  split
  · exact .inl rfl
  · exact .inr rfl

theorem startState_received (h : st.fields = some fields) : startState st = st := by
  rw [startState, if_neg]
  rintro ⟨-, hnone, -⟩
  rw [h] at hnone
  cases hnone

/-- A new parser resumes from the start of anything. -/
theorem resumes_empty (p : Bytes) : ResumesFrom rounds cap dt {} p {} := fun _ => rfl

/-- A state that waits is resumed where it waits. -/
theorem resumes_waiting (h : run rounds cap dt p {} = .waits st) :
    ResumesFrom rounds cap dt {} p st := by
  intro q
  have hrun : run rounds cap dt (p ++ q) {} = _ :=
    run_append between_empty.sound (Nat.zero_le _) q
  rw [h] at hrun
  obtain hstart | hstart := startState_cases st
  · rw [hstart]
  · rw [hstart]
    exact hrun.symm

theorem resumes_tunnel (h : run rounds cap dt (s.head ++ q) (s.start fields) = .waits st)
    (hfields : st.fields = some fields) :
    ResumesFrom rounds cap dt (s.start fields) (s.head ++ q) st := by
  intro more
  have hcursor : (s.start fields).cursor ≤ (s.head ++ q).length := by
    rw [start_cursor, length_append]
    omega
  have hrun : run rounds cap dt (s.head ++ q ++ more) (s.start fields) = _ :=
    run_append (start_between s fields).sound hcursor more
  rw [h] at hrun
  rw [startState_received hfields]
  exact hrun.symm

/-- The frames in front of the field section need not be passed over again. -/
theorem resumes_before (q : Bytes) :
    ResumesFrom rounds cap dt {} (s.head ++ q) (advanced s.before {}) := by
  intro more
  obtain hstart | hstart := startState_cases (advanced s.before {})
  · rw [hstart]
  · rw [hstart, append_assoc]
    exact (run_before _).symm

/-- Nothing has been fed at first. -/
theorem fed_nil : Fed rounds cap dt s [] {} := ⟨.inl rfl, .inl (resumes_empty [])⟩

theorem finish_fed (hold : Genuine (acceptedFields rounds cap dt s.headers.payload) old)
    (hfields : ∀ fields, st.fields = some fields →
      acceptedFields rounds cap dt s.headers.payload = some fields)
    (hstate : (finish st old).result = .incomplete →
      ResumesFrom rounds cap dt {} p st ∨ InTunnel rounds cap dt s p st) :
    Fed rounds cap dt s p (finish st old).request := by
  obtain heq | heq | ⟨fields, hsome, -, -, heq⟩ := finish_cases st
  · rw [heq] at hstate ⊢
    exact ⟨hold, hstate rfl⟩
  · rw [heq]
    exact ⟨hold, .inl (resumes_empty p)⟩
  · rw [heq]
    have haccepted := hfields fields hsome
    rw [haccepted] at hold
    refine ⟨.inr ⟨fields, st.bodyStorage, haccepted, hold.rebase _⟩, .inl (resumes_empty p)⟩

/-- How far a buffer reaches into a stream. -/
theorem reach (h : s.bytes = p ++ rest) :
    (∃ tail, s.head = p ++ tail ∧ tail ≠ []) ∨ ∃ q, p = s.head ++ q ∧ wire s.after = q ++ rest := by
  rw [RequestStream.bytes] at h
  by_cases hlong : p.length < s.head.length
  · obtain ⟨tail, htail⟩ := prefix_of_prefix_length_le ⟨rest, h.symm⟩
      (prefix_append s.head (wire s.after)) (Nat.le_of_lt hlong)
    refine .inl ⟨tail, htail.symm, ?_⟩
    rintro rfl
    rw [← htail, append_nil] at hlong
    exact absurd hlong (Nat.lt_irrefl _)
  · obtain ⟨q, rfl⟩ := prefix_of_prefix_length_le
      (prefix_append s.head (wire s.after)) ⟨rest, h.symm⟩ (Nat.not_lt.mp hlong)
    rw [append_assoc] at h
    exact .inr ⟨q, rfl, append_cancel_left h⟩

/-- Behind the field section, a run comes to rest behind whole frames or within a DATA
    frame. -/
theorem run_after (hwire : wire s.after = q ++ rest) :
    ∃ a b st, s.after = a ++ b ∧ (wire a).length ≤ q.length ∧
      run rounds cap dt (s.head ++ q) (s.start fields) = .waits st ∧ st.fields = some fields ∧
        (st = advanced a (s.start fields) ∨ st.inDataFrame = true) :=
  run_prefix (start_between s fields) (s.passes_after fields) (drop_start s fields q) hwire

/-- How a run over the start of a stream can end. -/
inductive StreamRun (rounds cap : Nat) (dt : DynamicTable) (s : RequestStream)
    (buffer rest : Bytes) : Ended → Prop where
  | early (st : ParserState) (hnone : st.fields = none) :
      StreamRun rounds cap dt s buffer rest (.waits st)
  | hangs (hrefused : acceptedFields rounds cap dt s.headers.payload = none) :
      StreamRun rounds cap dt s buffer rest .hangs
  | blocked (q : Bytes) (hrefused : acceptedFields rounds cap dt s.headers.payload = none)
      (hbuffer : buffer = s.head ++ q) :
      StreamRun rounds cap dt s buffer rest (.returned .incomplete (advanced s.before {}))
  | fails (hrefused : acceptedFields rounds cap dt s.headers.payload = none) :
      StreamRun rounds cap dt s buffer rest (.returned .error {})
  | tunnel (fields : Fields) (q : Bytes)
      (haccepted : acceptedFields rounds cap dt s.headers.payload = some fields)
      (hconnect : fields.method = some .connect) (hbuffer : buffer = s.head ++ q)
      (hwire : wire s.after = q ++ rest) :
      StreamRun rounds cap dt s buffer rest (.tunnel (s.start fields))
  | body (fields : Fields) (q : Bytes) (a b : List WireFrame) (st : ParserState)
      (haccepted : acceptedFields rounds cap dt s.headers.payload = some fields)
      (hother : fields.method ≠ some .connect) (hbuffer : buffer = s.head ++ q)
      (hafter : s.after = a ++ b) (hlong : (wire a).length ≤ q.length)
      (hfields : st.fields = some fields)
      (hst : st = advanced a (s.start fields) ∨ st.inDataFrame = true) :
      StreamRun rounds cap dt s buffer rest (.waits st)

/-- What the loop does with a prefix of the stream. -/
theorem stream_run (hbytes : s.bytes = buffer ++ rest) :
    StreamRun rounds cap dt s buffer rest (run rounds cap dt buffer {}) := by
  obtain ⟨tail, htail, hne⟩ | ⟨q, rfl, hwire⟩ := reach hbytes
  · obtain ⟨st, hrun, hnone⟩ : ∃ st, run rounds cap dt buffer {} = .waits st ∧ _ :=
      run_head_cut htail hne
    rw [hrun]
    exact .early st hnone
  · cases haccepted : acceptedFields rounds cap dt s.headers.payload with
    | none =>
      obtain hrun | hrun | hrun := run_refused haccepted q
      · rw [hrun]
        exact .hangs haccepted
      · rw [hrun]
        exact .blocked q haccepted rfl
      · rw [hrun]
        exact .fails haccepted
    | some fields =>
      rw [run_accepted haccepted q]
      split
      · rename_i hconnect
        exact .tunnel fields q haccepted hconnect rfl hwire
      · rename_i hother
        obtain ⟨a, b, st, hafter, hlong, hwaits, hfields, hst⟩ :
            ∃ a b st, _ ∧ _ ∧ run rounds cap dt (s.head ++ q) (s.start fields) = _ ∧ _ :=
          run_after hwire
        rw [hwaits]
        exact .body fields q a b st haccepted hother rfl hafter hlong hfields hst

/-- A call takes up the run of the earlier ones, or goes on behind a CONNECT. -/
theorem call_resumes {more : Bytes} (h : Fed rounds cap dt s p req) (hbuffer : buffer = p ++ more)
    (hne : buffer ≠ []) :
    parseRequest rounds cap dt buffer req =
        conclude req.message (run rounds cap dt buffer {}) ∨
      ∃ fields n q, acceptedFields rounds cap dt s.headers.payload = some fields ∧
        fields.method = some .connect ∧ fields.contentLength = some n ∧ 0 < n ∧
        buffer = s.head ++ q ∧ parseRequest rounds cap dt buffer req =
          conclude req.message (run rounds cap dt buffer (s.start fields)) := by
  rw [parseRequest, if_neg hne]
  obtain hfresh | ⟨fields, n, q, haccepted, hconnect, hn, hpos, hp, hresumes⟩ := h.state
  · rw [hbuffer, hfresh more]
    exact .inl rfl
  · refine .inr ⟨fields, n, q ++ more, haccepted, hconnect, hn, hpos, ?_, ?_⟩
    · rw [hbuffer, hp, append_assoc]
    · rw [hbuffer, hresumes more]

/-- Behind the field section only a content length asks for more. -/
theorem start_incomplete (h : (finish (s.start fields) old).result = .incomplete) :
    ∃ n, fields.contentLength = some n ∧ 0 < n := by
  obtain hcomplete | hshort | ⟨n, -, hlong⟩ := complete_or fields 0
  · rw [← length_nil, ← start_body s fields] at hcomplete
    rw [finish_complete start_fields rfl hcomplete] at h
    cases h
  · exact hshort
  · exact absurd hlong (Nat.not_lt_zero n)

/-- Every call keeps a request in order. -/
theorem call_fed {more rest : Bytes} (h : Fed rounds cap dt s p req) (hbuffer : buffer = p ++ more)
    (hbytes : s.bytes = buffer ++ rest)
    (hcall : parseRequest rounds cap dt buffer req = some o) :
    Fed rounds cap dt s buffer o.request := by
  by_cases hnil : buffer = []
  · rw [parseRequest, if_pos hnil] at hcall
    obtain rfl := Option.some.inj hcall
    obtain ⟨rfl, rfl⟩ := append_eq_nil_iff.mp (hbuffer.symm.trans hnil)
    rw [hnil]
    exact h
  · obtain hcalled | ⟨fields, n, q, haccepted, hconnect, hn, hpos, rfl, hcalled⟩ :=
      call_resumes h hbuffer hnil
    · rw [hcalled] at hcall
      have hcase : StreamRun rounds cap dt s buffer rest _ := stream_run hbytes
      generalize hrun : run rounds cap dt buffer {} = e at hcall hcase
      cases hcase with
      | early st hnone =>
        obtain rfl := Option.some.inj hcall
        refine finish_fed h.message (fun fields hsome => ?_) fun _ => .inl (resumes_waiting hrun)
        cases hnone.symm.trans hsome
      | hangs _ => cases hcall
      | blocked q _ hhead =>
        obtain rfl := Option.some.inj hcall
        rw [hhead]
        exact ⟨h.message, .inl (resumes_before q)⟩
      | fails _ =>
        obtain rfl := Option.some.inj hcall
        exact ⟨h.message, .inl (resumes_empty _)⟩
      | tunnel fields q haccepted hconnect hhead _ =>
        obtain rfl := Option.some.inj hcall
        refine finish_fed h.message (fun fields' hsome => haccepted.trans hsome)
          fun hincomplete => .inr ?_
        obtain ⟨n, hn, hpos⟩ := start_incomplete hincomplete
        refine ⟨fields, n, q, haccepted, hconnect, hn, hpos, hhead, fun more => ?_⟩
        rw [startState_received start_fields]
      | body fields q a b st haccepted _ _ _ _ hfields _ =>
        obtain rfl := Option.some.inj hcall
        refine finish_fed h.message (fun fields' hsome => ?_) fun _ => .inl (resumes_waiting hrun)
        exact haccepted.trans (hfields.symm.trans hsome)
    · -- behind the field section of a CONNECT
      have hwire : wire s.after = q ++ rest := by
        rw [RequestStream.bytes, append_assoc] at hbytes
        exact append_cancel_left hbytes
      obtain ⟨a, b, st, -, -, hwaits, hfields, -⟩ :
          ∃ a b st, _ ∧ _ ∧ run rounds cap dt (s.head ++ q) (s.start fields) = _ ∧ _ :=
        run_after hwire
      rw [hcalled, hwaits] at hcall
      obtain rfl := Option.some.inj hcall
      refine finish_fed h.message (fun fields' hsome => ?_) fun _ => ?_
      · exact haccepted.trans (hfields.symm.trans hsome)
      · exact .inr ⟨fields, n, q, haccepted, hconnect, hn, hpos, rfl, resumes_tunnel hwaits hfields⟩

/-- So do all the calls on longer and longer starts of the stream. -/
theorem feed_fed {cuts : List Nat} {m k : Nat} (h : Fed rounds cap dt s (s.bytes.take m) req)
    (hcuts : (m :: cuts).Pairwise (· ≤ ·)) (hk : ∀ c ∈ m :: cuts, c ≤ k)
    (hfeed : feed rounds cap dt req (cuts.map s.bytes.take) = some req') :
    ∃ m' ≤ k, Fed rounds cap dt s (s.bytes.take m') req' := by
  induction cuts generalizing m req with
  | nil =>
    obtain rfl := Option.some.inj hfeed
    exact ⟨m, hk m mem_cons_self, h⟩
  | cons c cuts ih =>
    obtain ⟨hm, hlater⟩ := pairwise_cons.mp hcuts
    obtain ⟨o, hcall, hrest⟩ := Option.bind_eq_some_iff.mp hfeed
    obtain ⟨more, hmore⟩ := take_prefix_take_left (l := s.bytes) (hm c mem_cons_self)
    have hfed := call_fed h hmore.symm (take_append_drop c s.bytes).symm hcall
    exact ih hfed hlater (forall_mem_cons.mp hk).2 hrest

/-! ## Segmentation -/

/-- Where the last byte of DATA ends, counted from the first frame. -/
def dataEnd : List WireFrame → Nat
  | [] => 0
  | f :: fs =>
      if content fs ≠ [] then f.bytes.length + dataEnd fs
      else if f.data ≠ [] then f.bytes.length else 0

/-- Where the last byte of DATA of a stream ends; 0 without one. -/
def RequestStream.lastData (s : RequestStream) : Nat :=
  if content s.after = [] then 0 else s.head.length + dataEnd s.after

/-- Two calls return the same, and the same request on success. -/
def Agree (a b : Option Outcome) : Prop :=
  a.map Outcome.result = b.map Outcome.result ∧
    ∀ o, a = some o → o.result = .success → b = some o

/-- The stream is cut at these places. -/
def Cuts (s : RequestStream) (cuts : List Nat) : Prop :=
  cuts.Pairwise (· < ·) ∧ ∀ c ∈ cuts, c < s.bytes.length

/-- However a stream is cut, the call on all of it returns what a single call returns, and no
    call succeeds before the last byte of DATA. -/
structure Independent (rounds cap : Nat) (dt : DynamicTable) (s : RequestStream) : Prop where
  same : ∀ cuts, Cuts s cuts → ∀ req, feed rounds cap dt {} (cuts.map s.bytes.take) = some req →
    Agree (parseRequest rounds cap dt s.bytes req) (parseRequest rounds cap dt s.bytes {})
  early : ∀ cuts c, Cuts s (cuts ++ [c]) → c < s.lastData → ∀ req o,
    feed rounds cap dt {} (cuts.map s.bytes.take) = some req →
      parseRequest rounds cap dt (s.bytes.take c) req = some o → o.result ≠ .success

/-- No frame before the last byte of DATA completes the body.  Behind a CONNECT there is no
    DATA, or less than is announced. -/
def DataAwaited (fields : Fields) (after : List WireFrame) : Prop :=
  if fields.method = some .connect then
    Complete fields 0 ∧ content after = [] ∨
      ∃ n, fields.contentLength = some n ∧ (content after).length < n
  else ∀ a b, after = a ++ b → Complete fields (content a).length → content b = []

theorem wire_append (a b : List WireFrame) : wire (a ++ b) = wire a ++ wire b :=
  flatMap_append

theorem content_append (a b : List WireFrame) : content (a ++ b) = content a ++ content b :=
  flatMap_append

theorem wire_cons (f : WireFrame) (fs : List WireFrame) : wire (f :: fs) = f.bytes ++ wire fs :=
  flatMap_cons

theorem content_cons (f : WireFrame) (fs : List WireFrame) :
    content (f :: fs) = f.data ++ content fs := flatMap_cons

theorem dataEnd_empty (h : content fs = []) : dataEnd fs = 0 := by
  cases fs with
  | nil => rfl
  | cons f fs =>
    rw [content_cons] at h
    obtain ⟨hdata, hrest⟩ := append_eq_nil_iff.mp h
    rw [dataEnd, if_neg (not_not_intro hrest), if_neg (not_not_intro hdata)]

/-- The last byte of DATA is behind some frames or it is not. -/
theorem dataEnd_append (a b : List WireFrame) :
    (content b = [] → dataEnd (a ++ b) ≤ (wire a).length) ∧
      (content b ≠ [] → dataEnd (a ++ b) = (wire a).length + dataEnd b) := by
  induction a with
  | nil =>
    rw [nil_append]
    refine ⟨fun h => ?_, fun _ => (Nat.zero_add _).symm⟩
    rw [dataEnd_empty h]
    exact Nat.zero_le _
  | cons f a ih =>
    rw [cons_append, dataEnd, wire_cons, length_append]
    constructor
    · intro h
      have hrest := ih.1 h
      split
      · omega
      · split
        · omega
        · exact Nat.zero_le _
    · intro h
      have hne : content (a ++ b) ≠ [] := by
        rw [content_append]
        exact append_ne_nil_of_right_ne_nil _ h
      rw [if_pos hne, ih.2 h, Nat.add_assoc]

theorem dataEnd_pos (h : content fs ≠ []) : 0 < dataEnd fs := by
  cases fs with
  | nil => exact absurd rfl h
  | cons f fs =>
    have hpos := f.header_pos
    rw [dataEnd, WireFrame.bytes, length_append]
    split
    · omega
    · rename_i hrest
      rw [not_not] at hrest
      rw [content_cons, hrest, append_nil] at h
      rw [if_pos h]
      omega

theorem dataEnd_le (fs : List WireFrame) : dataEnd fs ≤ (wire fs).length := by
  have h := (dataEnd_append fs []).1 rfl
  rwa [append_nil] at h

theorem agree_unsuccessful {o' : Outcome} (h : o.result = o'.result) (hno : o.result ≠ .success) :
    Agree (some o) (some o') := by
  refine ⟨congrArg some h, fun o'' ho'' hsuccess => ?_⟩
  obtain rfl := Option.some.inj ho''
  exact absurd hsuccess hno

/-- What is kept from earlier calls does not change the outcome. -/
theorem finish_agree (hold : Genuine (acceptedFields rounds cap dt s.headers.payload) old)
    (hfields : ∀ fields, st.fields = some fields →
      acceptedFields rounds cap dt s.headers.payload = some fields) :
    Agree (some (finish st old)) (some (finish st {})) := by
  obtain heq | heq | ⟨fields, hsome, -, -, heq⟩ := finish_cases st
  · rw [heq, heq]
    exact agree_unsuccessful rfl (by rintro ⟨⟩)
  · rw [heq, heq]
    exact agree_unsuccessful rfl (by rintro ⟨⟩)
  · rw [hfields fields hsome] at hold
    rw [heq, heq, hold.rebase]
    exact ⟨rfl, fun _ hsame _ => hsame⟩

/-- A message that is left from an earlier call makes no difference. -/
theorem conclude_agree (hold : Genuine (acceptedFields rounds cap dt s.headers.payload) old)
    (hbytes : s.bytes = buffer ++ rest) :
    Agree (conclude old (run rounds cap dt buffer {}))
      (conclude {} (run rounds cap dt buffer {})) := by
  have hcase : StreamRun rounds cap dt s buffer rest _ := stream_run hbytes
  generalize run rounds cap dt buffer {} = e at hcase ⊢
  cases hcase with
  | early st hnone =>
    refine finish_agree hold fun fields hsome => ?_
    cases hnone.symm.trans hsome
  | hangs _ => exact ⟨rfl, fun _ hsame _ => hsame⟩
  | blocked _ _ _ => exact agree_unsuccessful rfl (by rintro ⟨⟩)
  | fails _ => exact agree_unsuccessful rfl (by rintro ⟨⟩)
  | tunnel fields q haccepted _ _ _ => exact finish_agree hold fun _ hsome => haccepted.trans hsome
  | body fields q a b st haccepted _ _ _ _ hfields _ =>
    exact finish_agree hold fun _ hsome => haccepted.trans (hfields.symm.trans hsome)

theorem head_ne_nil (q : Bytes) : s.head ++ q ≠ [] := by
  have hpos := s.headers.header_pos
  refine length_pos_iff.mp ?_
  rw [RequestStream.head, WireFrame.bytes, length_append, length_append,
    length_append]
  omega

theorem bytes_ne_nil (s : RequestStream) : s.bytes ≠ [] := head_ne_nil (wire s.after)

/-- A call on a new request. -/
theorem parseRequest_new (hne : buffer ≠ []) :
    parseRequest rounds cap dt buffer {} = conclude {} (run rounds cap dt buffer {}) :=
  if_neg hne

/-- Success means that the body is complete and no DATA frame is open. -/
theorem finish_success (h : (finish st old).result = .success) :
    ∃ fields, st.fields = some fields ∧ st.inDataFrame = false ∧
      Complete fields st.bodyStorage.length := by
  obtain heq | heq | ⟨fields, hfields, hout, hcomplete, -⟩ := finish_cases st
  · rw [heq] at h
    cases h
  · rw [heq] at h
    cases h
  · exact ⟨fields, hfields, hout, hcomplete⟩

theorem advanced_body (a : List WireFrame) :
    (advanced a (s.start fields)).bodyStorage = content a := by
  rw [advanced, start_body]
  rfl

/-- Behind the field section the whole stream is read to its end. -/
theorem run_all (s : RequestStream) (fields : Fields) :
    run rounds cap dt s.bytes (s.start fields) = .waits (advanced s.after (s.start fields)) := by
  have hdrop : s.bytes.drop (s.start fields).cursor = wire s.after ++ [] := by
    rw [RequestStream.bytes, drop_start, append_nil]
  obtain ⟨hrun, hleft⟩ : run rounds cap dt s.bytes (s.start fields) = _ ∧ _ :=
    run_frames (start_between s fields) (s.passes_after fields) hdrop
  exact hrun.trans (run_exhausted (drop_eq_nil_iff.mp hleft))

theorem advanced_fields (a : List WireFrame) :
    (advanced a (s.start fields)).fields = some fields := rfl

/-- Behind a CONNECT that announces a body, less than that comes. -/
theorem DataAwaited.less {n : Nat} {after : List WireFrame} (h : DataAwaited fields after)
    (hconnect : fields.method = some .connect) (hn : fields.contentLength = some n) (hpos : 0 < n) :
    (content after).length < n := by
  rw [DataAwaited, if_pos hconnect] at h
  obtain ⟨hcomplete, -⟩ | ⟨n', hn', hless⟩ := h
  · obtain hnone | hzero := hcomplete
    · cases hn.symm.trans hnone
    · obtain rfl := Option.some.inj (hn.symm.trans hzero)
      exact absurd hpos (Nat.lt_irrefl 0)
  · obtain rfl := Option.some.inj (hn.symm.trans hn')
    exact hless

variable {a b : List WireFrame}

/-- What is behind the last byte of DATA. -/
theorem lastData_le (hafter : s.after = a ++ b) (hb : content b = []) :
    s.lastData ≤ s.head.length + (wire a).length := by
  rw [RequestStream.lastData]
  split
  · exact Nat.zero_le _
  · rw [hafter]
    exact Nat.add_le_add_left ((dataEnd_append a b).1 hb) _

theorem lt_lastData (hafter : s.after = a ++ b) (hb : content b ≠ []) :
    s.head.length + (wire a).length < s.lastData := by
  have hne : content s.after ≠ [] := by
    rw [hafter, content_append]
    exact append_ne_nil_of_right_ne_nil _ hb
  have hpos := dataEnd_pos hb
  rw [RequestStream.lastData, if_neg hne, hafter, (dataEnd_append a b).2 hb]
  omega

theorem lastData_le_length (s : RequestStream) : s.lastData ≤ s.bytes.length := by
  have hle := dataEnd_le s.after
  rw [RequestStream.lastData, RequestStream.bytes, length_append]
  split
  · exact Nat.zero_le _
  · omega

/-- No call succeeds before the last byte of DATA. -/
theorem not_success_early {more rest : Bytes}
    (h : ∀ fields, acceptedFields rounds cap dt s.headers.payload = some fields →
      DataAwaited fields s.after)
    (hfed : Fed rounds cap dt s p req) (hbuffer : buffer = p ++ more)
    (hbytes : s.bytes = buffer ++ rest) (hshort : buffer.length < s.lastData)
    (hcall : parseRequest rounds cap dt buffer req = some o) : o.result ≠ .success := by
  intro hsuccess
  by_cases hnil : buffer = []
  · rw [parseRequest, if_pos hnil] at hcall
    obtain rfl := Option.some.inj hcall
    cases hsuccess
  -- the call starts anew, or goes on behind the headers
  · obtain hcalled | ⟨fields, n, q, haccepted, hconnect, hn, hpos, rfl, hcalled⟩ :=
      call_resumes hfed hbuffer hnil
    · rw [hcalled] at hcall
      have hcase : StreamRun rounds cap dt s buffer rest _ := stream_run hbytes
      generalize run rounds cap dt buffer {} = e at hcall hcase
      cases hcase with
      | early st hnone =>
        obtain rfl := Option.some.inj hcall
        obtain ⟨fields, hsome, -⟩ := finish_success hsuccess
        cases hnone.symm.trans hsome
      | hangs _ => cases hcall
      | blocked _ _ _ =>
        obtain rfl := Option.some.inj hcall
        cases hsuccess
      | fails _ =>
        obtain rfl := Option.some.inj hcall
        cases hsuccess
      | tunnel fields q haccepted hconnect hhead _ =>
        obtain rfl := Option.some.inj hcall
        obtain ⟨fields', hsome, -, hcomplete⟩ := finish_success hsuccess
        obtain rfl := Option.some.inj hsome
        rw [start_body] at hcomplete
        have hawaited := h fields haccepted
        rw [DataAwaited, if_pos hconnect] at hawaited
        obtain ⟨-, hempty⟩ | ⟨n, hn, hless⟩ := hawaited
        · rw [RequestStream.lastData, if_pos hempty] at hshort
          exact Nat.not_lt_zero _ hshort
        · obtain hnone | hzero := hcomplete
          · cases hn.symm.trans hnone
          · obtain rfl := Option.some.inj (hn.symm.trans hzero)
            exact Nat.not_lt_zero _ hless
      | body fields q a b st haccepted hother hhead hafter hlong hfields hst =>
        obtain rfl := Option.some.inj hcall
        obtain ⟨fields', hsome, hout, hcomplete⟩ := finish_success hsuccess
        obtain rfl := Option.some.inj (hfields.symm.trans hsome)
        obtain rfl | hin := hst
        · rw [advanced_body] at hcomplete
          have hawaited := h fields haccepted
          rw [DataAwaited, if_neg hother] at hawaited
          have hle := lastData_le hafter (hawaited a b hafter hcomplete)
          rw [hhead, length_append] at hshort
          omega
        · exact absurd (hout.symm.trans hin) Bool.false_ne_true
    · have hwire : wire s.after = q ++ rest := by
        rw [RequestStream.bytes, append_assoc] at hbytes
        exact append_cancel_left hbytes
      obtain ⟨a, b, st, hafter, -, hwaits, hfields, hst⟩ :
          ∃ a b st, _ ∧ _ ∧ run rounds cap dt (s.head ++ q) (s.start fields) = _ ∧ _ :=
        run_after hwire
      rw [hcalled, hwaits] at hcall
      obtain rfl := Option.some.inj hcall
      obtain ⟨fields', hsome, hout, hcomplete⟩ := finish_success hsuccess
      obtain rfl := Option.some.inj (hfields.symm.trans hsome)
      obtain rfl | hin := hst
      · have hless := (h fields haccepted).less hconnect hn hpos
        rw [hafter, content_append, length_append] at hless
        rw [advanced_body] at hcomplete
        obtain hnone | hsize := hcomplete
        · cases hn.symm.trans hnone
        · have hequal := Option.some.inj (hn.symm.trans hsize)
          omega
      · exact absurd (hout.symm.trans hin) Bool.false_ne_true

/-- Where DATA is awaited, segmentation makes no difference. -/
theorem independent_of_awaited
    (h : ∀ fields, acceptedFields rounds cap dt s.headers.payload = some fields →
      DataAwaited fields s.after) : Independent rounds cap dt s := by
  have hfed : ∀ {cuts : List Nat} {k : Nat}, cuts.Pairwise (· < ·) → (∀ c ∈ cuts, c ≤ k) →
      ∀ {req}, feed rounds cap dt {} (cuts.map s.bytes.take) = some req →
        ∃ m ≤ k, Fed rounds cap dt s (s.bytes.take m) req := by
    intro cuts k hcuts hk req hfeed
    have hsorted : (0 :: cuts).Pairwise (· ≤ ·) :=
      pairwise_cons.mpr ⟨fun _ _ => Nat.zero_le _, hcuts.imp Nat.le_of_lt⟩
    exact feed_fed fed_nil hsorted (forall_mem_cons.mpr ⟨Nat.zero_le _, hk⟩) hfeed
  constructor
  · intro cuts hcuts req hfeed
    obtain ⟨m, -, hm⟩ := hfed hcuts.1 (fun c hc => Nat.le_of_lt (hcuts.2 c hc)) hfeed
    rw [parseRequest_new (bytes_ne_nil s)]
    obtain hcalled | ⟨fields, n, q, haccepted, hconnect, hn, hpos, -, hcalled⟩ :=
      call_resumes hm (take_append_drop m s.bytes).symm (bytes_ne_nil s)
    · rw [hcalled]
      exact conclude_agree hm.message (append_nil s.bytes).symm
    · -- the calls have gone on behind a CONNECT, and have found less than is announced
      have hshort : (advanced s.after (s.start fields)).bodyStorage.length < n := by
        rw [advanced_body]
        exact (h fields haccepted).less hconnect hn hpos
      have hempty : (s.start fields).bodyStorage.length < n := by
        rw [start_body]
        exact hpos
      have hfirst : run rounds cap dt s.bytes {} = _ := run_accepted haccepted (wire s.after)
      rw [if_pos hconnect] at hfirst
      rw [hcalled, run_all, hfirst, conclude, conclude, finish_short start_fields hn hempty,
        finish_short (advanced_fields s.after) hn hshort]
      exact agree_unsuccessful rfl (by rintro ⟨⟩)
  · intro cuts c hcuts hc req o hfeed hcall
    obtain ⟨hsorted, -, hlast⟩ := pairwise_append.mp hcuts.1
    obtain ⟨m, hm, hfedm⟩ := hfed hsorted
      (fun c' hc' => Nat.le_of_lt (hlast c' hc' c (mem_singleton.mpr rfl))) hfeed
    obtain ⟨more, hmore⟩ := take_prefix_take_left (l := s.bytes) hm
    refine not_success_early h hfedm hmore.symm (take_append_drop c s.bytes).symm ?_ hcall
    exact Nat.lt_of_le_of_lt (length_take_le c s.bytes) hc

/-- With whole frames behind the field section and no CONNECT, the body decides. -/
theorem parse_body (hafter : s.after = a ++ b)
    (haccepted : acceptedFields rounds cap dt s.headers.payload = some fields)
    (hother : fields.method ≠ some .connect) :
    parseRequest rounds cap dt (s.head ++ wire a) {} =
      some (finish (advanced a (s.start fields)) {}) := by
  have hpass : ∀ f ∈ a, Passes (s.start fields).fields f := by
    intro f hf
    refine s.passes_after fields f ?_
    rw [hafter]
    exact mem_append_left b hf
  have hdrop : (s.head ++ wire a).drop (s.start fields).cursor = wire a ++ [] := by
    rw [drop_start, append_nil]
  obtain ⟨hrun, hleft⟩ : run rounds cap dt (s.head ++ wire a) (s.start fields) = _ ∧ _ :=
    run_frames (start_between s fields) hpass hdrop
  rw [parseRequest_new (head_ne_nil _), run_accepted haccepted, if_neg hother, hrun,
    run_exhausted (drop_eq_nil_iff.mp hleft)]
  rfl

/-- An accepted CONNECT is reported whatever is behind its head. -/
theorem parse_tunnel (haccepted : acceptedFields rounds cap dt s.headers.payload = some fields)
    (hconnect : fields.method = some .connect) (q : Bytes) :
    parseRequest rounds cap dt (s.head ++ q) {} = some (finish (s.start fields) {}) := by
  rw [parseRequest_new (head_ne_nil _), run_accepted haccepted, if_pos hconnect]
  rfl

theorem take_head (s : RequestStream) (hafter : s.after = a ++ b) :
    s.bytes.take (s.head.length + (wire a).length) = s.head ++ wire a := by
  rw [RequestStream.bytes, hafter, wire_append, ← append_assoc, ← length_append,
    take_left]

/-- A success on whole frames is behind the last byte of DATA. -/
theorem content_of_success (h : Independent rounds cap dt s) (hafter : s.after = a ++ b)
    (hcall : parseRequest rounds cap dt (s.head ++ wire a) {} = some o)
    (hsuccess : o.result = .success) : content b = [] := by
  by_contra hb
  have hshort := lt_lastData hafter hb
  have hcuts : Cuts s ([] ++ [s.head.length + (wire a).length]) := by
    refine ⟨pairwise_singleton _ _, fun c hc => ?_⟩
    rw [mem_singleton.mp hc]
    exact Nat.lt_of_lt_of_le hshort (lastData_le_length s)
  rw [← take_head s hafter] at hcall
  exact h.early [] _ hcuts hshort {} o rfl hcall hsuccess

/-- Where segmentation makes no difference, DATA is awaited. -/
theorem awaited_of_independent (h : Independent rounds cap dt s)
    (haccepted : acceptedFields rounds cap dt s.headers.payload = some fields) :
    DataAwaited fields s.after := by
  rw [DataAwaited]
  split
  · rename_i hconnect
    obtain hcomplete | ⟨n, hn, hpos⟩ | ⟨n, -, hlong⟩ := complete_or fields 0
    · refine .inl ⟨hcomplete, ?_⟩
      rw [← length_nil, ← start_body s fields] at hcomplete
      refine content_of_success h (nil_append s.after).symm
        (parse_tunnel haccepted hconnect (wire [])) ?_
      rw [finish_complete start_fields rfl hcomplete]
    · refine .inr ⟨n, hn, ?_⟩
      by_contra hless
      have hempty : (s.start fields).bodyStorage.length < n := by
        rw [start_body]
        exact hpos
      have hhead : s.bytes.take s.head.length = s.head := take_left
      have hcuts : Cuts s [s.head.length] := by
        refine ⟨pairwise_singleton _ _, fun c hc => ?_⟩
        have hne : content s.after ≠ [] := by
          intro hnil
          rw [hnil] at hless
          exact hless hpos
        rw [mem_singleton.mp hc]
        exact Nat.lt_of_lt_of_le (lt_lastData (nil_append s.after).symm hne)
          (lastData_le_length s)
      have hfirst := parse_tunnel haccepted hconnect []
      rw [append_nil, finish_short start_fields hn hempty] at hfirst
      have hfeed : feed rounds cap dt {} ([s.head.length].map s.bytes.take) =
          some { state := s.start fields } := by
        rw [map_singleton, hhead, feed, hfirst]
        rfl
      -- a single call stops behind the field section; the second one goes on to the end
      have hsingle := parse_tunnel haccepted hconnect (wire s.after)
      rw [finish_short start_fields hn hempty] at hsingle
      have hsecond : parseRequest rounds cap dt s.bytes { state := s.start fields } =
          some (finish (advanced s.after (s.start fields)) {}) := by
        rw [parseRequest, if_neg (bytes_ne_nil s), startState_received start_fields, run_all]
        rfl
      have hagree := (h.same _ hcuts _ hfeed).1
      have hbytes : s.bytes = s.head ++ wire s.after := rfl
      rw [hsecond, hbytes, hsingle] at hagree
      obtain hequal | hlong := Nat.eq_or_lt_of_le (Nat.not_lt.mp hless)
      · have hcomplete : Complete fields (advanced s.after (s.start fields)).bodyStorage.length := by
          rw [advanced_body, ← hequal]
          exact .inr hn
        rw [finish_complete (advanced_fields s.after) rfl hcomplete] at hagree
        cases hagree
      · rw [finish_long (advanced_fields s.after) rfl hn (by rwa [advanced_body])] at hagree
        cases hagree
    · exact absurd hlong (Nat.not_lt_zero n)
  · rename_i hother
    intro a b hafter hcomplete
    refine content_of_success h hafter (parse_body hafter haccepted hother) ?_
    have hbody : Complete fields (advanced a (s.start fields)).bodyStorage.length := by
      rw [advanced_body]
      exact hcomplete
    rw [finish_complete (advanced_fields a) rfl hbody]

/-- **Segmentation makes no difference** exactly when, in a field section that is accepted,
    something announces the DATA still to come. -/
theorem independent_iff :
    Independent rounds cap dt s ↔
      ∀ fields, acceptedFields rounds cap dt s.headers.payload = some fields →
        DataAwaited fields s.after :=
  ⟨fun h _ haccepted => awaited_of_independent h haccepted, independent_of_awaited⟩

/-- A GET without content length, with two bytes of DATA. -/
def getStream : RequestStream where
  before := []
  headers := ⟨typeHeaders, [0x01, 0x05], [0x00, 0x00, 0xd1, 0xd7, 0xc1], by decide⟩
  after := [⟨typeData, [0x00, 0x02], text "hi", by decide⟩]
  unknown := forall_mem_nil _
  first := rfl
  allowed := forall_mem_singleton.mpr (.inl rfl)

/-- The part of it up to the DATA is taken for the whole request. -/
theorem get_succeeds_early : ¬ ∀ rounds cap dt s, Independent rounds cap dt s := by
  intro h
  have hcuts : Cuts getStream ([] ++ [7]) := by
    refine ⟨pairwise_singleton _ _, fun c hc => ?_⟩
    rw [mem_singleton.mp hc]
    decide
  have hcall : parseRequest 20 65536 {} (getStream.bytes.take 7) {} =
      some { result := .success
             request := { message := { methodType := .get, target := text "/" } }
             bytesConsumed := 7 } := by decide
  exact (h 20 65536 {} getStream).early [] 7 hcuts (by decide) {} _ rfl hcall rfl

end Http3RequestArrival
