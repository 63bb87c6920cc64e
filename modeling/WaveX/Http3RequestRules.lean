import WaveX.Http3RequestArrival
import WaveX.Http3Validation

/-! # The rules for HTTP/3 requests

    When `parse_request` succeeds on a fresh request, the field section it has read is that
    of the first HEADERS frame, and the section meets the rules for requests: they are
    enforced one by one while the loop goes through the fields, and behind the loops over
    the fields and the frames. -/

namespace Http3RequestRules

open QuicVarInt HttpText Http3Parser Http3RequestArrival Http3Validation List
open Hpack (Field fieldSize)
open Qpack (DynamicTable decodeHeaderBlock)

/-! ## The rules -/

/-- A name: visible characters, none of them uppercase, and a colon only in front. -/
structure ValidName (name : Bytes) : Prop where
  nonempty : name ≠ []
  visible : ∀ c ∈ name, 0x20 < c ∧ c < 0x7f
  lowercase : ∀ c ∈ name, ¬ (0x41 ≤ c ∧ c ≤ 0x5a)
  colon : 0x3a ∉ name.tail

/-- A value: no CR, LF or NUL. -/
def ValidValue (value : Bytes) : Prop := 0x0d ∉ value ∧ 0x0a ∉ value ∧ 0x00 ∉ value

/-- How often a name occurs. -/
def occurrences (name : String) (headers : List Field) : Nat :=
  (headers.map Prod.fst).count (text name)

/-- The rules for a field section and the body behind it; a size limit of 0 is none. -/
structure ValidSection (cap : Nat) (headers : List Field) (body : Bytes) : Prop where
  method : occurrences ":method" headers = 1
  target : ¬ Connects headers →
    occurrences ":path" headers = 1 ∧ (∀ v, (text ":path", v) ∈ headers → v ≠ []) ∧
      occurrences ":scheme" headers = 1
  authority : occurrences ":authority" headers ≤ 1
  protocol : Has ":protocol" headers →
    Connects headers ∧ occurrences ":scheme" headers = 1 ∧ occurrences ":path" headers = 1 ∧
      occurrences ":authority" headers = 1
  pseudoFirst : headers.Pairwise fun f g => isPseudo g.1 = true → isPseudo f.1 = true
  names : ∀ f ∈ headers, ValidName f.1
  values : ∀ f ∈ headers, ValidValue f.2
  connection : ∀ f ∈ headers, f.1 ∉ connectionFields ∧ (f.1 = text "te" → f.2 = text "trailers")
  size : 0 < cap → (headers.map fieldSize).sum ≤ cap
  length : ∀ v, (text "content-length", v) ∈ headers → parseContentLength v = some body.length

/-- The block of the first HEADERS frame at or behind a position. -/
inductive FirstBlock (buffer : Bytes) : Nat → Bytes → Prop where
  | here {c : Nat} {hdr : FrameHeader} (hhdr : parseFrameHeader (buffer.drop c) = some hdr)
      (htype : hdr.type = typeHeaders)
      (hroom : hdr.size + hdr.length ≤ (buffer.drop c).length) :
      FirstBlock buffer c (((buffer.drop c).drop hdr.size).take hdr.length)
  | later {c : Nat} {hdr : FrameHeader} {block : Bytes}
      (hhdr : parseFrameHeader (buffer.drop c) = some hdr) (htype : hdr.type ≠ typeHeaders)
      (h : FirstBlock buffer (c + (hdr.size + hdr.length)) block) : FirstBlock buffer c block

/-! ## Names, values and counts -/

variable {headers : List Field} {name value : Bytes}

theorem validName_of (h : isValidFieldName name = true) : ValidName name := by
  have hbyte : ∀ c, isNameByte c = true →
      0x20 < c ∧ c < 0x7f ∧ c ≠ 0x3a ∧ ¬ (0x41 ≤ c ∧ c ≤ 0x5a) := by
    intro c hc
    rw [isNameByte, Bool.not_eq_true', Bool.or_eq_false_iff, Bool.or_eq_false_iff,
      Bool.or_eq_false_iff] at hc
    obtain ⟨⟨⟨hlow, hhigh⟩, hcolon⟩, hupper⟩ := hc
    rw [decide_eq_false_iff_not] at hlow hhigh
    rw [beq_eq_false_iff_ne] at hcolon
    rw [Bool.and_eq_false_iff, decide_eq_false_iff_not, decide_eq_false_iff_not] at hupper
    exact ⟨UInt8.not_le.mp hlow, UInt8.not_le.mp hhigh, hcolon,
      fun hc => hupper.elim (absurd hc.1) (absurd hc.2)⟩
  cases name with
  | nil => exact absurd h Bool.false_ne_true
  | cons c rest =>
    rw [isValidFieldName] at h
    split at h
    · rename_i hcolon
      rw [Bool.and_eq_true, all_eq_true] at h
      have hrest := fun b hb => hbyte b (h.2 b hb)
      refine ⟨cons_ne_nil _ _, ?_, ?_, fun hmem => (hrest _ hmem).2.2.1 rfl⟩
      · refine forall_mem_cons.mpr ⟨?_, fun b hb => ⟨(hrest b hb).1, (hrest b hb).2.1⟩⟩
        rw [hcolon]
        decide
      · refine forall_mem_cons.mpr ⟨?_, fun b hb => (hrest b hb).2.2.2⟩
        rw [hcolon]
        decide
    · rw [Bool.and_eq_true, all_eq_true] at h
      have hfirst := hbyte c h.1
      have hrest := fun b hb => hbyte b (h.2 b hb)
      refine ⟨cons_ne_nil _ _, ?_, ?_, fun hmem => (hrest _ hmem).2.2.1 rfl⟩
      · exact forall_mem_cons.mpr
          ⟨⟨hfirst.1, hfirst.2.1⟩, fun b hb => ⟨(hrest b hb).1, (hrest b hb).2.1⟩⟩
      · exact forall_mem_cons.mpr ⟨hfirst.2.2.2, fun b hb => (hrest b hb).2.2.2⟩

theorem validValue_of (h : isValidFieldValue value = true) : ValidValue value := by
  rw [isValidFieldValue, all_eq_true] at h
  have hbyte : ∀ c ∈ value, c ≠ 0x0d ∧ c ≠ 0x0a ∧ c ≠ 0x00 := by
    intro c hc
    have hne := h c hc
    rw [Bool.and_eq_true, Bool.and_eq_true, bne_iff_ne, bne_iff_ne, bne_iff_ne] at hne
    exact ⟨hne.1.1, hne.1.2, hne.2⟩
  exact ⟨fun hc => (hbyte _ hc).1 rfl, fun hc => (hbyte _ hc).2.1 rfl,
    fun hc => (hbyte _ hc).2.2 rfl⟩

/-- In order, a pseudo-header comes once at most. -/
theorem occurrences_le_one {name : String} (h : headers.Pairwise Ordered)
    (hp : isPseudo (text name) = true) : occurrences name headers ≤ 1 := by
  induction headers with
  | nil => exact Nat.zero_le _
  | cons f headers ih =>
    obtain ⟨hfirst, hrest⟩ := pairwise_cons.mp h
    rw [occurrences, map_cons, count_cons]
    split
    · rename_i heq
      have hnone : (headers.map Prod.fst).count (text name) = 0 := by
        refine count_eq_zero.mpr fun hmem => ?_
        obtain ⟨g, hg, hname⟩ := mem_map.mp hmem
        exact (hfirst g hg).once (hname ▸ hp) ((beq_iff_eq.mp heq).trans hname.symm)
      omega
    · exact ih hrest

theorem occurrences_pos {name : String} (h : Has name headers) :
    0 < occurrences name headers := by
  obtain ⟨v, hv⟩ := h
  exact count_pos_iff.mpr (mem_map_of_mem hv)

/-- What the checks say of the section as a whole. -/
theorem validSection_of {cap : Nat} {fields : Fields} {body : Bytes}
    (hvalid : validate headers = some fields)
    (hcap : ¬ (0 < cap ∧ (headers.map fieldSize).sum > cap))
    (hlength : ∀ n, fields.contentLength = some n → n = body.length) :
    ValidSection cap headers body := by
  obtain ⟨hl, hrequired, rfl⟩ := validate_iff.mp hvalid
  obtain ⟨hmethod, htarget, hprotocol⟩ := (hasRequired_iff hl).mp hrequired
  have honce : ∀ name, isPseudo (text name) = true → Has name headers →
      occurrences name headers = 1 := fun name hp hhas =>
    Nat.le_antisymm (occurrences_le_one hl.ordered hp) (occurrences_pos hhas)
  constructor
  case method => exact honce _ (by decide) hmethod
  case target =>
    intro hconnect
    obtain ⟨⟨v, hne, hv⟩, hscheme⟩ := htarget.resolve_left hconnect
    refine ⟨honce _ (by decide) ⟨v, hv⟩, fun w hw => ?_, honce _ (by decide) hscheme⟩
    have hsame := (valueOf_pseudo hl (by decide)).mpr hw
    rw [(valueOf_pseudo hl (by decide)).mpr hv] at hsame
    rwa [← Option.some.inj hsame]
  case authority => exact occurrences_le_one hl.ordered (by decide)
  case protocol =>
    intro hhas
    obtain ⟨hconnect, hscheme, hpath, hauthority⟩ := hprotocol hhas
    exact ⟨hconnect, honce _ (by decide) hscheme, honce _ (by decide) hpath,
      honce _ (by decide) hauthority⟩
  case pseudoFirst => exact hl.ordered.imp fun h => h.pseudo
  case names => exact fun f hf => validName_of (hl.proper f hf).name
  case values => exact fun f hf => validValue_of (hl.proper f hf).value
  case connection => exact fun f hf => ⟨(hl.proper f hf).connection, (hl.proper f hf).te⟩
  case size => exact fun hpos => Nat.not_lt.mp fun hlarge => hcap ⟨hpos, hlarge⟩
  case length =>
    intro v hv
    obtain ⟨n, hn⟩ := Option.isSome_iff_exists.mp ((hl.proper _ hv).length rfl)
    have hfound : (collect headers).contentLength = some n := (collect_length hl hv rfl).trans hn
    rw [← hlength n hfound]
    exact hn

/-! ## The loop over the frames -/

variable {rounds cap : Nat} {dt : DynamicTable} {buffer : Bytes} {st : ParserState}
  {fields : Fields} {e : Ended}

/-- The loop has not succeeded by itself, and the fields it ends with are these. -/
def EndsWith (found : Option Fields → Prop) : Ended → Prop
  | .waits st => found st.fields
  | .tunnel st => found st.fields
  | .returned result _ => result ≠ .success
  | .hangs => True

theorem EndsWith.imp {P Q : Option Fields → Prop} (h : EndsWith P e) (himp : ∀ x, P x → Q x) :
    EndsWith Q e := by
  cases e with
  | waits st => exact himp _ h
  | tunnel st => exact himp _ h
  | returned result st => exact h
  | hangs => trivial

/-- Behind the field section a round keeps the fields. -/
theorem turn_found (h : st.fields = some fields) :
    (∃ st', turn rounds cap dt buffer st = .next st' ∧ st'.fields = some fields) ∨
      turn rounds cap dt buffer st = .ended (.waits st) ∨
      turn rounds cap dt buffer st = fails := by
  have hsome : st.fields.isSome = true := by rw [h]; rfl
  have hnone : ¬ st.fields.isNone = true := by rw [h]; exact Bool.false_ne_true
  rw [turn]
  split
  · exact .inl ⟨_, rfl, h⟩
  · split
    · exact .inr (.inl rfl)
    · dsimp only
      split
      · exact .inr (.inr rfl)
      · split
        · exact .inl ⟨_, rfl, h⟩
        · split
          · split
            · exact .inr (.inl rfl)
            · exact .inl ⟨_, rfl, h⟩
          · split
            · exact .inr (.inr rfl)
            · split
              · exact .inr (.inl rfl)
              · exact .inl ⟨_, rfl, h⟩

theorem loop_found (fuel : Nat) (h : st.fields = some fields) :
    EndsWith (fun found => found = some fields) (loop rounds cap dt buffer fuel st) := by
  induction fuel generalizing st with
  | zero => exact h
  | succ fuel ih =>
    rw [loop]
    split
    · obtain ⟨st₁, hturn, hfields⟩ | hturn | hturn :
          (∃ st', turn rounds cap dt buffer st = .next st' ∧ st'.fields = some fields) ∨ _ :=
        turn_found h
      · rw [hturn]
        exact ih hfields
      · rw [hturn]
        exact h
      · rw [hturn]
        rintro ⟨⟩
    · exact h

/-- What a round may do before the field section. -/
inductive Searching (rounds cap : Nat) (dt : DynamicTable) (buffer : Bytes) (st : ParserState) :
    Turn → Prop where
  | waits : Searching rounds cap dt buffer st (.ended (.waits st))
  | fails : Searching rounds cap dt buffer st fails
  | skip (hdr : FrameHeader) (hhdr : parseFrameHeader (buffer.drop st.cursor) = some hdr)
      (htype : hdr.type ≠ typeHeaders) : Searching rounds cap dt buffer st
        (.next { st with cursor := st.cursor + (hdr.size + hdr.length) })
  | headers (size : Nat) (block : Bytes) (h : FirstBlock buffer st.cursor block) :
      Searching rounds cap dt buffer st (onHeaders rounds cap dt st size block)

theorem turn_searching (hnone : st.fields = none) (hout : st.inDataFrame = false) :
    Searching rounds cap dt buffer st (turn rounds cap dt buffer st) := by
  have hfields : st.fields.isNone = true := by rw [hnone]; rfl
  have hsome : ¬ st.fields.isSome = true := by rw [hnone]; exact Bool.false_ne_true
  rw [turn, if_neg (Bool.eq_false_iff.mp hout)]
  split
  · exact .waits
  · rename_i hdr hhdr
    dsimp only
    split
    · exact .fails
    · split
      · -- DATA before the field section
        exact .fails
      · split
        · rename_i htype
          split
          · exact .waits
          · rename_i hroom
            exact .headers _ _ (.here hhdr htype (Nat.not_lt.mp hroom))
        · rename_i htype
          split
          · exact .fails
          · split
            · exact .waits
            · exact .skip hdr hhdr htype

/-- Fields that come from the first HEADERS frame at or behind a position. -/
def FromBlock (rounds cap : Nat) (dt : DynamicTable) (buffer : Bytes) (c : Nat)
    (found : Option Fields) : Prop :=
  ∀ fields, found = some fields →
    ∃ block, FirstBlock buffer c block ∧ acceptedFields rounds cap dt block = some fields

theorem fromBlock_none {c : Nat} : FromBlock rounds cap dt buffer c none := by
  rintro fields ⟨⟩

theorem loop_searching (fuel : Nat) (hnone : st.fields = none) (hout : st.inDataFrame = false) :
    EndsWith (FromBlock rounds cap dt buffer st.cursor) (loop rounds cap dt buffer fuel st) := by
  have hstays : EndsWith (FromBlock rounds cap dt buffer st.cursor) (.waits st) := by
    show FromBlock rounds cap dt buffer st.cursor st.fields
    rw [hnone]
    exact fromBlock_none
  induction fuel generalizing st with
  | zero => exact hstays
  | succ fuel ih =>
    rw [loop]
    split
    · have hcase : Searching rounds cap dt buffer st _ := turn_searching hnone hout
      generalize turn rounds cap dt buffer st = t at hcase
      cases hcase with
      | waits => exact hstays
      | fails => rintro ⟨⟩
      | skip hdr hhdr htype =>
        have hlater : ∀ found,
            FromBlock rounds cap dt buffer (st.cursor + (hdr.size + hdr.length)) found →
              FromBlock rounds cap dt buffer st.cursor found := by
          intro found h fields hfields
          obtain ⟨block, hblock, haccepted⟩ := h fields hfields
          exact ⟨block, .later hhdr htype hblock, haccepted⟩
        refine (ih ?_ ?_ ?_).imp hlater
        · exact hnone
        · exact hout
        · show FromBlock rounds cap dt buffer _ st.fields
          rw [hnone]
          exact fromBlock_none
      | headers size block hblock =>
        cases haccepted : acceptedFields rounds cap dt block with
        | none =>
          obtain hturn | hturn | hturn := onHeaders_refused st size haccepted
          · rw [hturn]
            trivial
          · rw [hturn]
            rintro ⟨⟩
          · rw [hturn]
            rintro ⟨⟩
        | some found =>
          have hfound : FromBlock rounds cap dt buffer st.cursor (some found) := by
            rintro fields ⟨⟩
            exact ⟨block, hblock, haccepted⟩
          rw [onHeaders_accepted haccepted]
          by_cases hconnect : found.method = some .connect
          · rw [if_pos hconnect]
            exact hfound
          · rw [if_neg hconnect]
            refine (loop_found fuel rfl).imp fun x hx => ?_
            rw [hx]
            exact hfound
    · exact hstays

/-! ## Requests -/

/-- A request that succeeds has fields, and their content length is that of the body. -/
theorem finish_success {old : Message} (h : (finish st old).result = .success) :
    ∃ fields, st.fields = some fields ∧
      (finish st old).request.message.body = st.bodyStorage ∧
      ∀ n, fields.contentLength = some n → n = st.bodyStorage.length := by
  rw [finish] at h ⊢
  cases hfields : st.fields with
  | none =>
    rw [hfields] at h
    cases h
  | some fields =>
    rw [hfields] at h
    dsimp only at h ⊢
    split at h
    · cases h
    · split at h
      · cases h
      · split at h
        · cases h
        · rename_i hin hshort hlong
          rw [if_neg hin, if_neg hshort, if_neg hlong]
          refine ⟨fields, rfl, rfl, fun n hn => ?_⟩
          rw [hn, Option.any_some, decide_eq_true_iff] at hshort hlong
          omega

/-- **The rules hold for every request that is accepted**: the field section is that of the
    first HEADERS frame, it is valid, and so is the length of the body. -/
theorem parseRequest_valid {old : Message} {o : Outcome}
    (hcall : parseRequest rounds cap dt buffer { message := old } = some o)
    (hsuccess : o.result = .success) :
    ∃ block sec, FirstBlock buffer 0 block ∧ decodeHeaderBlock cap block dt rounds = some sec ∧
      sec.ok = true ∧ ValidSection cap sec.headers o.request.message.body := by
  rw [parseRequest] at hcall
  split at hcall
  · obtain rfl := Option.some.inj hcall
    cases hsuccess
  · have hstart : startState ({ message := old } : Request).state = {} := rfl
    rw [hstart] at hcall
    have hend : EndsWith (FromBlock rounds cap dt buffer 0) (run rounds cap dt buffer {}) :=
      loop_searching _ rfl rfl
    have hfinal : ∃ st, finish st old = o ∧ FromBlock rounds cap dt buffer 0 st.fields := by
      cases hrun : run rounds cap dt buffer {} with
      | waits st =>
        rw [hrun] at hcall hend
        exact ⟨st, Option.some.inj hcall, hend⟩
      | tunnel st =>
        rw [hrun] at hcall hend
        exact ⟨st, Option.some.inj hcall, hend⟩
      | returned result st =>
        rw [hrun] at hcall hend
        obtain rfl := Option.some.inj hcall
        exact absurd hsuccess hend
      | hangs =>
        rw [hrun] at hcall
        cases hcall
    obtain ⟨st, rfl, hsource⟩ := hfinal
    obtain ⟨fields, hfields, hbody, hlength⟩ := finish_success hsuccess
    obtain ⟨block, hblock, haccepted⟩ := hsource fields hfields
    obtain ⟨sec, hsec, hsection⟩ := Option.bind_eq_some_iff.mp haccepted
    obtain ⟨hok, hsection⟩ := Option.ite_none_right_eq_some.mp hsection
    rw [sectionFields] at hsection
    obtain ⟨hcap, hvalid⟩ := Option.ite_none_left_eq_some.mp hsection
    rw [hbody]
    exact ⟨block, sec, hblock, hsec, hok, validSection_of hvalid hcap hlength⟩

/-- A GET with a body. -/
theorem parseRequest_valid_get :
    ∃ block sec, FirstBlock getStream.bytes 0 block ∧
      decodeHeaderBlock 65536 block {} 20 = some sec ∧ sec.ok = true ∧
      ValidSection 65536 sec.headers (text "hi") := by
  have hcall : parseRequest 20 65536 {} getStream.bytes {} =
      some { result := .success
             request := { message := { methodType := .get, target := text "/", body := text "hi" } }
             bytesConsumed := 11 } := by decide
  exact parseRequest_valid hcall rfl

end Http3RequestRules
