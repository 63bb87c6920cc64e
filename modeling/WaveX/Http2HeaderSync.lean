import WaveX.Http2HeaderState

/-! # The header table stays in step

    `decode_table_` is shared by every header block of the connection, so the session has
    to decode each block it receives, completely and in order, whatever becomes of the
    stream.  `TableAfter` is the table that complete decoding gives for the blocks in a
    history of frames.  The session's table is that table as long as no connection error
    has happened and no list has exceeded the cap (`InStep`). -/

namespace Http2HeaderSync

open QuicVarInt Hpack Http2Frames Http2Session Http2Session.Session Http2Effects Http2Tasks
  Http2HeaderState List

/-! ## Complete decoding -/

section Decoding

variable {cap fuel c : Nat} {block : Bytes} {t t' : DynamicTable} {headers : List Field}
  {d : Decoded}

/-- A block is decoded to its end, without a cap on the list. -/
def Complete (t : DynamicTable) (block : Bytes) (t' : DynamicTable) : Prop :=
  ∃ fuel d, decodeLoop 0 block fuel 0 t [] = some d ∧ d.ok = true ∧ d.table = t'

/-- The table after a sequence of blocks, newest first, each decoded to its end. -/
def TableAfter : List Bytes → DynamicTable → Prop
  | [], t => t = {}
  | block :: past, t => ∃ t₀, TableAfter past t₀ ∧ Complete t₀ block t

/-- Where a cap is not exceeded it makes no difference. -/
theorem decodeLoop_uncapped (h : decodeLoop cap block fuel c t headers = some d)
    (hlimit : d.limitExceeded = false) : decodeLoop 0 block fuel c t headers = some d := by
  have hzero : ∀ headers, overLimit 0 headers = false := fun _ => by simp [overLimit]
  induction fuel generalizing c t headers with
  | zero => cases h
  | succ fuel ih =>
    rw [decodeLoop] at h ⊢
    cases hdrop : block.drop c with
    | nil =>
      simp only [hdrop] at h ⊢
      obtain rfl := Option.some.inj h
      have hover : overLimit cap headers = false := hlimit
      rw [hzero, hover]
    | cons b rest =>
      simp only [hdrop] at h ⊢
      split at h
      · obtain rfl := Option.some.inj h
        exact absurd hlimit.symm Bool.false_ne_true
      · rw [if_neg (by rw [hzero]; exact Bool.false_ne_true)]
        cases hround : decodeRound block c t b.toNat with
        | none =>
          simp only [hround] at h ⊢
          exact h
        | some r =>
          simp only [hround] at h ⊢
          exact ih h

theorem Complete.unique {t₁ t₂ : DynamicTable} (h₁ : Complete t block t₁)
    (h₂ : Complete t block t₂) : t₁ = t₂ := by
  obtain ⟨fuel₁, d₁, h₁, -, rfl⟩ := h₁
  obtain ⟨fuel₂, d₂, h₂, -, rfl⟩ := h₂
  have hmore := decodeLoop_more h₁ fuel₂
  rw [Nat.add_comm, decodeLoop_more h₂ fuel₁] at hmore
  rw [Option.some.inj hmore]

theorem TableAfter.unique {blocks : List Bytes} {t₁ t₂ : DynamicTable}
    (h₁ : TableAfter blocks t₁) (h₂ : TableAfter blocks t₂) : t₁ = t₂ := by
  induction blocks generalizing t₁ t₂ with
  | nil => exact h₁.trans h₂.symm
  | cons block past ih =>
    obtain ⟨u₁, hpast₁, h₁⟩ := h₁
    obtain ⟨u₂, hpast₂, h₂⟩ := h₂
    rw [ih hpast₁ hpast₂] at h₁
    exact h₁.unique h₂

/-- A list within the cap is decoded, if it can be decoded at all. -/
theorem Complete.decodes (h : Complete t block t') (hcap : cap ≠ 0)
    (hlimit : (decodeHeaderBlock cap block t).limitExceeded = false) :
    (decodeHeaderBlock cap block t).ok = true := by
  have hloop := decodeLoop_uncapped (HeaderProgress.decodeHeaderBlock_eq hcap block t) hlimit
  obtain ⟨fuel, d, h, hok, -⟩ := h
  have hmore := decodeLoop_more h (roundLimit cap block)
  rw [Nat.add_comm, decodeLoop_more hloop fuel] at hmore
  rw [Option.some.inj hmore]
  exact hok

/-- A list within the cap that is decoded is decoded completely. -/
theorem decodeHeaderBlock_complete (hcap : cap ≠ 0)
    (hlimit : (decodeHeaderBlock cap block t).limitExceeded = false)
    (hok : (decodeHeaderBlock cap block t).ok = true) :
    Complete t block (decodeHeaderBlock cap block t).table :=
  ⟨_, _, decodeLoop_uncapped (HeaderProgress.decodeHeaderBlock_eq hcap block t) hlimit, hok, rfl⟩

end Decoding

/-! ## The blocks of a history of frames -/

/-- The complete header blocks of a history of frames, newest first, and the block that
    is not complete yet, with its stream; 0 when there is none. -/
structure Blocks where
  complete : List Bytes := []
  pending : Bytes := []
  openSid : Nat := 0

/-- The header blocks of frames, newest first. -/
def headerBlocks : List Frame → Blocks
  | [] => {}
  | f :: past =>
      let blocks := headerBlocks past
      match f.type with
      | .headers =>
          let block := (headersFragment f).getD []
          if f.hasFlag flagEndHeaders then { complete := block :: blocks.complete }
          else { complete := blocks.complete, pending := block, openSid := f.streamId }
      | .continuation =>
          let block := blocks.pending ++ f.payload
          if f.hasFlag flagEndHeaders then { complete := block :: blocks.complete }
          else { blocks with pending := block }
      | _ => blocks

/-- A frame of the history ends the stream. -/
def Ended (sid : Nat) (frames : List Frame) : Prop := ∃ f ∈ frames, endedBy f sid

/-- The largest stream id of a HEADERS frame. -/
def lastOpened : List Frame → Nat
  | [] => 0
  | f :: past => if f.type = .headers then max f.streamId (lastOpened past) else lastOpened past

/-! ## The invariant -/

variable {E D : Nat → Prop} {s s' : Session} {st x : StreamState} {f : Frame}

/-- No connection error has happened and no list has exceeded the cap. -/
def fits : Event → Prop
  | .connectionError _ => False
  | .headerBlock _ _ block table _ =>
      (decodeHeaderBlock defaultMaxHeaderListSize block table).limitExceeded = false
  | _ => True

/-- The session is in step with the frames it has received. -/
structure InStep (s : Session) : Prop where
  table : TableAfter (headerBlocks (received s.log)).complete s.decodeTable
  sid : s.continuationSid = (headerBlocks (received s.log)).openSid
  last : s.lastPeerStreamId = lastOpened (received s.log)
  block : ∀ x ∈ s.streams, x.held = true → s.continuationSid ≠ 0 → x.id = s.continuationSid →
    x.headerBlock = (headerBlocks (received s.log)).pending
  fresh : ∀ x ∈ s.streams, x.held = true → x.headersDone = false →
    s.continuationSid ≠ 0 ∧ x.id = s.continuationSid
  ended : ∀ x ∈ s.streams, x.held = true → x.endStreamReceived = true →
    Ended x.id (received s.log)

theorem received_silent {new past : List Event} (h : ∀ e ∈ new, silent e = true) :
    received (new ++ past) = received past := by
  rw [received, received, filterMap_append]
  have hnone : new.filterMap receivedFrame = [] := by
    refine filterMap_eq_nil_iff.mpr fun e he => ?_
    cases e with
    | received f => exact absurd (h _ he) Bool.false_ne_true
    | _ => rfl
  rw [hnone, nil_append]

theorem keeps_received (h : Keeps E D s s') : received s'.log = received s.log := by
  obtain ⟨new, hnew, hsilent⟩ := h.log
  rw [hnew, received_silent hsilent]

/-- What keeps the header state keeps the session in step. -/
theorem InStep.keeps (h : InStep s) (hE : ∀ sid, E sid → Ended sid (received s.log))
    (hk : Keeps E D s s') : InStep s' := by
  obtain ⟨g, hg, hkept⟩ := hk.streams
  have hmem : ∀ y ∈ s'.streams, ∃ x ∈ s.streams, Kept E D x y := by
    intro y hy
    rw [hg] at hy
    obtain ⟨x, hx, rfl⟩ := mem_map.mp hy
    exact ⟨x, hx, hkept x⟩
  constructor
  · rw [keeps_received hk, hk.table]
    exact h.table
  · rw [keeps_received hk, hk.sid]
    exact h.sid
  · rw [keeps_received hk, hk.last]
    exact h.last
  · intro y hy hheld hopen hid
    obtain ⟨x, hx, hxy⟩ := hmem y hy
    rw [keeps_received hk, hxy.block]
    rw [hk.sid] at hopen hid
    exact h.block x hx (hxy.held hheld) hopen (hxy.id ▸ hid)
  · intro y hy hheld hdone
    obtain ⟨x, hx, hxy⟩ := hmem y hy
    rw [hk.sid, hxy.id]
    refine h.fresh x hx (hxy.held hheld) ?_
    rcases hxy.done with heq | ⟨-, htrue⟩
    · rw [← heq]
      exact hdone
    · rw [htrue] at hdone
      exact absurd hdone.symm Bool.false_ne_true
  · intro y hy hheld hend
    obtain ⟨x, hx, hxy⟩ := hmem y hy
    rw [keeps_received hk, hxy.id]
    rcases hxy.ended with heq | ⟨hEx, -⟩
    · exact h.ended x hx (hxy.held hheld) (heq ▸ hend)
    · exact hE _ hEx

/-- A frame without headers, just taken up, changes no header block. -/
theorem InStep.receive (h : InStep s) (hheaders : f.type ≠ .headers)
    (hcontinuation : f.type ≠ .continuation) : InStep (s.record (.received f)) := by
  have hblocks : headerBlocks (received (s.record (.received f)).log) =
      headerBlocks (received s.log) := by
    show headerBlocks (f :: received s.log) = _
    rw [headerBlocks]
    split
    · contradiction
    · contradiction
    · rfl
  have hlast : lastOpened (received (s.record (.received f)).log) =
      lastOpened (received s.log) := if_neg hheaders
  constructor
  · rw [hblocks]
    exact h.table
  · rw [hblocks]
    exact h.sid
  · rw [hlast]
    exact h.last
  · rw [hblocks]
    exact h.block
  · exact h.fresh
  · intro x hx hheld hend
    obtain ⟨e, he, hended⟩ := h.ended x hx hheld hend
    exact ⟨e, mem_cons_of_mem f he, hended⟩

/-! ## Frames with headers -/

/-- The headers of the stream are done: what `finish_header_block` records before it acts
    on a list. -/
def markDone (s : Session) (st : StreamState) : Session :=
  if st.headersDone then s else s.modify st.id fun x => { x with headersDone := true }

theorem actOnBlock_keeps {d : Decoded} (hd : d.ok = true ∨ d.limitExceeded = true) :
    Keeps E D (markDone s st) (actOnBlock s st d) := by
  have hreadable : (!d.ok && !d.limitExceeded) = false := by
    rcases hd with hok | hlimit
    · rw [hok]
      rfl
    · rw [hlimit, Bool.not_true, Bool.and_false]
  rw [actOnBlock, markDone, hreadable, if_neg Bool.false_ne_true]
  split
  · split
    · exact .dispatch
    · exact .refl
  · dsimp only
    split
    · exact Keeps.answerError.trans (.sendGoaway _)
    · split
      · exact .resetStream _
      · have hheaders : Keeps E D (s.modify st.id fun x => { x with headersDone := true })
            ((s.modify st.id fun x => { x with headersDone := true }).modify st.id
              fun x => { x with headers := d.headers }) :=
          .modify_same st.id fun _ => ⟨rfl, rfl, rfl, rfl, rfl⟩
        split
        · exact hheaders.trans .dispatch
        · exact hheaders

theorem markDone_log {d : Decoded} :
    (markDone (keepTable s st d) st).log =
      .headerBlock st.id st.headersDone st.headerBlock s.decodeTable s.streamCount :: s.log ∧
      (markDone (keepTable s st d) st).goawaySent = s.goawaySent := by
  rw [markDone]
  split
  · exact ⟨rfl, rfl⟩
  · exact ⟨rfl, rfl⟩

/-- The block of `st` is complete and about to be decoded. -/
structure Collected (s : Session) (st : StreamState) : Prop where
  blocks : ∃ past, headerBlocks (received s.log) = { complete := st.headerBlock :: past } ∧
    TableAfter past s.decodeTable
  last : s.lastPeerStreamId = lastOpened (received s.log)
  own : ∀ x ∈ s.streams, x.held = true → x.id = st.id → x.headersDone = st.headersDone
  others : ∀ x ∈ s.streams, x.held = true → x.id ≠ st.id → x.headersDone = true
  ended : ∀ x ∈ s.streams, x.held = true → x.endStreamReceived = true →
    Ended x.id (received s.log)

/-- A block within the cap puts the session in step again. -/
theorem Collected.keepTable (h : Collected s st) {d : Decoded}
    (hd : Complete s.decodeTable st.headerBlock d.table) :
    InStep (markDone (keepTable s st d) st) := by
  obtain ⟨past, hblocks, htable⟩ := h.blocks
  -- the fields of the session do not depend on the flag
  have hfields : ∃ g : StreamState → StreamState,
      (markDone (Http2Session.keepTable s st d) st).streams = s.streams.map g ∧
      (∀ x, (g x).id = x.id ∧ (g x).held = x.held ∧
        (g x).endStreamReceived = x.endStreamReceived) ∧
      (∀ x, (g x).headersDone = (x.headersDone || (decide (x.id = st.id) && !st.headersDone))) ∧
      (markDone (Http2Session.keepTable s st d) st).decodeTable = d.table ∧
      (markDone (Http2Session.keepTable s st d) st).continuationSid = 0 ∧
      (markDone (Http2Session.keepTable s st d) st).lastPeerStreamId = s.lastPeerStreamId ∧
      received (markDone (Http2Session.keepTable s st d) st).log = received s.log := by
    rw [markDone]
    split
    · rename_i hdone
      refine ⟨_, rfl, fun x => ?_, fun x => ?_, rfl, rfl, rfl, rfl⟩
      · split <;> exact ⟨rfl, rfl, rfl⟩
      · rw [hdone, Bool.not_true, Bool.and_false, Bool.or_false]
        split <;> rfl
    · rename_i hdone
      refine ⟨_, map_map, fun x => ?_, fun x => ?_, rfl, rfl, rfl, rfl⟩
      · rw [Function.comp]
        split <;> exact ⟨rfl, rfl, rfl⟩
      · rw [Function.comp, Bool.eq_false_iff.mpr hdone, Bool.not_false, Bool.and_true]
        by_cases hid : x.id = st.id
        · simp [hid]
        · simp [hid]
  obtain ⟨g, hstreams, hsame, hdone, hdec, hsid, hlast, hrecv⟩ := hfields
  constructor
  · rw [hrecv, hblocks, hdec]
    exact ⟨_, htable, hd⟩
  · rw [hrecv, hblocks, hsid]
  · rw [hrecv, hlast]
    exact h.last
  · intro y _ _ hopen
    exact absurd hsid hopen
  · rw [hstreams]
    intro y hy hheld hfresh
    obtain ⟨x, hx, rfl⟩ := mem_map.mp hy
    rw [(hsame x).2.1] at hheld
    rw [hdone, Bool.or_eq_false_iff] at hfresh
    by_cases hid : x.id = st.id
    · have hown := h.own x hx hheld hid
      rw [hfresh.1] at hown
      rw [← hown, decide_eq_true hid] at hfresh
      exact absurd hfresh.2.symm Bool.false_ne_true
    · have hothers := h.others x hx hheld hid
      rw [hfresh.1] at hothers
      exact absurd hothers Bool.false_ne_true
  · rw [hstreams, hrecv]
    intro y hy hheld hend
    obtain ⟨x, hx, rfl⟩ := mem_map.mp hy
    obtain ⟨hid, hheld', hend'⟩ := hsame x
    rw [hid]
    exact h.ended x hx (hheld' ▸ hheld) (hend' ▸ hend)

/-- `finish_header_block` keeps the session in step. -/
theorem Collected.finish (h : Collected s st)
    (hfit : ∀ e ∈ (finishHeaderBlock s st).log, fits e) : InStep (finishHeaderBlock s st) := by
  rw [finishHeaderBlock] at hfit ⊢
  generalize hdec : decodeHeaderBlock defaultMaxHeaderListSize st.headerBlock s.decodeTable = d
    at hfit ⊢
  have hnoted : Event.headerBlock st.id st.headersDone st.headerBlock s.decodeTable s.streamCount ∈
      (markDone (Http2Session.keepTable s st d) st).log := by
    rw [markDone_log.1]
    exact mem_cons_self
  by_cases hd : d.ok = true ∨ d.limitExceeded = true
  · have hkeeps : Keeps (fun _ => False) (fun _ => False)
        (markDone (Http2Session.keepTable s st d) st) (actOnBlock _ st d) := actOnBlock_keeps hd
    have hlimit : d.limitExceeded = false := hdec ▸ hfit _ (hkeeps.mem_log hnoted)
    have hok : d.ok = true := hd.resolve_right (by rw [hlimit]; exact Bool.false_ne_true)
    have hcomplete : Complete s.decodeTable st.headerBlock d.table := by
      subst hdec
      exact decodeHeaderBlock_complete (by decide) hlimit hok
    exact (h.keepTable hcomplete).keeps (fun _ hfalse => hfalse.elim) hkeeps
  · rw [not_or, Bool.not_eq_true, Bool.not_eq_true] at hd
    have hfails : Fails (actOnBlock (Http2Session.keepTable s st d) st d) := by
      rw [actOnBlock, hd.1, hd.2]
      exact connectionError_fails _
    obtain ⟨err, herr⟩ := hfails.error
    exact (hfit _ herr).elim

/-- A stream that is about to take a fragment: the session has taken up the frame `f`, and
    every other stream has its headers. -/
structure Expects (s : Session) (st : StreamState) (f : Frame) (frames : List Frame) : Prop where
  sid : f.streamId = st.id
  nonzero : st.id ≠ 0
  received : received s.log = f :: frames
  table : TableAfter (headerBlocks frames).complete s.decodeTable
  last : s.lastPeerStreamId = lastOpened (f :: frames)
  own : ∀ x ∈ s.streams, x.held = true → x.id = st.id → x.headersDone = st.headersDone
  others : ∀ x ∈ s.streams, x.held = true → x.id ≠ st.id → x.headersDone = true
  ended : ∀ x ∈ s.streams, x.held = true → x.endStreamReceived = true → Ended x.id (f :: frames)

theorem takeFragment_inStep {fragment : Bytes} {r : List Frame}
    (h : Expects s st f r) (htype : f.type = .headers)
    (hfragment : headersFragment f = some fragment) (hempty : st.headerBlock = [])
    (hfit : ∀ e ∈ (takeFragment s st f fragment).log, fits e) :
    InStep (takeFragment s st f fragment) := by
  -- what becomes of a stream that takes the fragment
  have hadded : ∀ y ∈ (s.modify st.id fun x => { x with
      headerBlock := st.headerBlock ++ fragment
      endStreamReceived := x.endStreamReceived || f.hasFlag flagEndStream }).streams,
      y.held = true → (y.id = st.id → y.headersDone = st.headersDone ∧ y.headerBlock = fragment) ∧
        (y.id ≠ st.id → y.headersDone = true) ∧
        (y.endStreamReceived = true → Ended y.id (f :: r)) := by
    intro y hy hheld
    obtain ⟨x, hx, rfl⟩ := mem_map.mp hy
    by_cases hid : x.id = st.id
    · rw [if_pos hid] at hheld ⊢
      refine ⟨fun _ => ⟨h.own x hx hheld hid, ?_⟩, fun hne => absurd hid hne, fun hend => ?_⟩
      · rw [hempty, nil_append]
      · rcases Bool.or_eq_true_iff.mp hend with hbefore | hnow
        · exact h.ended x hx hheld hbefore
        · exact ⟨f, mem_cons_self, h.sid.trans hid.symm, hnow, .inr htype⟩
    · rw [if_neg hid] at hheld ⊢
      exact ⟨fun heq => absurd heq hid, fun _ => h.others x hx hheld hid, h.ended x hx hheld⟩
  have hblocks := headerBlocks.eq_2 f r
  simp only [htype, hfragment, Option.getD_some] at hblocks
  rw [takeFragment] at hfit ⊢
  dsimp only at hfit ⊢
  split at hfit
  · rename_i hend
    rw [if_pos hend] at hblocks ⊢
    refine Collected.finish ⟨⟨(headerBlocks r).complete, ?_, h.table⟩, ?_, ?_, ?_, ?_⟩ hfit
    · show headerBlocks (Http2Session.received s.log) = _
      rw [h.received, hblocks, hempty, nil_append]
    · show s.lastPeerStreamId = lastOpened (Http2Session.received s.log)
      rw [h.received]
      exact h.last
    · exact fun y hy hheld hid => ((hadded y hy hheld).1 hid).1
    · exact fun y hy hheld hne => (hadded y hy hheld).2.1 hne
    · intro y hy hheld hend
      show Ended y.id (Http2Session.received s.log)
      rw [h.received]
      exact (hadded y hy hheld).2.2 hend
  · rename_i hmore
    rw [if_neg hmore] at hblocks ⊢
    have hrecv : ∀ k, Http2Session.received ({ s.modify st.id fun x => { x with
        headerBlock := st.headerBlock ++ fragment
        endStreamReceived := x.endStreamReceived || f.hasFlag flagEndStream } with
        continuationSid := k }).log = f :: r := fun _ => h.received
    constructor
    · rw [hrecv, hblocks]
      exact h.table
    · rw [hrecv, hblocks]
      exact h.sid.symm
    · rw [hrecv]
      exact h.last
    · intro y hy hheld _ hid
      rw [hrecv, hblocks]
      exact ((hadded y hy hheld).1 hid).2
    · intro y hy hheld hfresh
      refine ⟨h.nonzero, ?_⟩
      by_contra hne
      rw [(hadded y hy hheld).2.1 hne] at hfresh
      exact absurd hfresh.symm Bool.false_ne_true
    · intro y hy hheld hend
      rw [hrecv]
      exact (hadded y hy hheld).2.2 hend

/-- A connection error contradicts that everything fits. -/
theorem fits_not_fails (hfit : ∀ e ∈ s.log, fits e) : ¬ Fails s :=
  fun ⟨⟨_, herr⟩, _, _⟩ => hfit _ herr

theorem InStep.headersDone (h : InStep s) (hidle : s.continuationSid = 0) (hx : x ∈ s.streams)
    (hheld : x.held = true) : x.headersDone = true := by
  cases hdone : x.headersDone with
  | true => rfl
  | false => exact absurd hidle (h.fresh x hx hheld hdone).1

theorem InStep.ended_later (h : InStep s) (f : Frame) (hx : x ∈ s.streams)
    (hheld : x.held = true) (hend : x.endStreamReceived = true) :
    Ended x.id (f :: received s.log) := by
  obtain ⟨e, he, hended⟩ := h.ended x hx hheld hend
  exact ⟨e, mem_cons_of_mem f he, hended⟩

/-- `on_headers` keeps the session in step. -/
theorem onHeaders_inStep (h : InStep s) (hsound : Sound (tableOf s)) (hidle : s.continuationSid = 0)
    (htype : f.type = .headers)
    (hfit : ∀ e ∈ (onHeaders (s.record (.received f)) f).log, fits e) :
    InStep (onHeaders (s.record (.received f)) f) := by
  rw [onHeaders] at hfit ⊢
  dsimp only at hfit ⊢
  split at hfit
  · exact (fits_not_fails hfit (connectionError_fails _)).elim
  · rename_i hsid
    rw [not_or] at hsid
    rw [if_neg (not_or.mpr hsid)]
    cases hfragment : headersFragment f with
    | none =>
      simp only [hfragment] at hfit
      exact (fits_not_fails hfit (connectionError_fails _)).elim
    | some fragment =>
      simp only [hfragment] at hfit ⊢
      cases hfind : (s.record (.received f)).find f.streamId with
      | some st =>
        obtain ⟨hmem, hid, hheld⟩ := find_some hfind
        simp only [hfind] at hfit ⊢
        split at hfit
        · exact (fits_not_fails hfit (connectionError_fails _)).elim
        · rename_i htrailers
          rw [if_neg htrailers]
          refine takeFragment_inStep (r := received s.log) ?_ htype hfragment rfl hfit
          refine ⟨hid.symm, hid ▸ hsid.1, rfl, h.table, ?_, ?_, ?_, ?_⟩
          · have hknown := hsound.known_stream hmem
            show s.lastPeerStreamId = _
            rw [lastOpened, if_pos htype, ← h.last, ← hid, Nat.max_eq_right hknown]
          · intro x hx _ hxid
            rw [hsound.unique_stream hx hmem hxid]
          · exact fun x hx hxheld _ => h.headersDone hidle hx hxheld
          · exact fun x hx hxheld => h.ended_later f hx hxheld
      | none =>
        simp only [hfind] at hfit ⊢
        split at hfit
        · exact (fits_not_fails hfit (connectionError_fails _)).elim
        · rename_i hnew
          rw [if_neg hnew]
          have hlt : s.lastPeerStreamId < f.streamId := Nat.not_le.mp hnew
          refine takeFragment_inStep (r := received s.log) ?_ htype hfragment rfl hfit
          refine ⟨rfl, hsid.1, rfl, h.table, ?_, ?_, ?_, ?_⟩
          · show f.streamId = _
            rw [lastOpened, if_pos htype, ← h.last, Nat.max_eq_left (Nat.le_of_lt hlt)]
          · intro x hx _ hxid
            rcases mem_append.mp hx with hold | hnewest
            · have hknown := hsound.known_stream hold
              rw [show x.id = f.streamId from hxid] at hknown
              exact absurd hknown (Nat.not_le.mpr hlt)
            · rw [mem_singleton.mp hnewest]
          · intro x hx hxheld hne
            rcases mem_append.mp hx with hold | hnewest
            · exact h.headersDone hidle hold hxheld
            · exact absurd (by rw [mem_singleton.mp hnewest]) hne
          · intro x hx hxheld hend
            rcases mem_append.mp hx with hold | hnewest
            · exact h.ended_later f hold hxheld hend
            · rw [mem_singleton.mp hnewest] at hend
              exact absurd hend Bool.false_ne_true

/-- `on_continuation` keeps the session in step. -/
theorem onContinuation_inStep (h : InStep s) (hsound : Sound (tableOf s))
    (htype : f.type = .continuation)
    (hfit : ∀ e ∈ (onContinuation (s.record (.received f)) f).log, fits e) :
    InStep (onContinuation (s.record (.received f)) f) := by
  rw [onContinuation] at hfit ⊢
  split at hfit
  · exact (fits_not_fails hfit (connectionError_fails _)).elim
  · rename_i hsid
    rw [if_neg hsid]
    obtain ⟨hopen, hsame⟩ := not_or.mp hsid
    rw [not_not] at hsame
    cases hfind : (s.record (.received f)).find f.streamId with
    | none =>
      simp only [hfind] at hfit
      exact (fits_not_fails hfit (connectionError_fails _)).elim
    | some st =>
      obtain ⟨hmem, hid, hheld⟩ := find_some hfind
      have hpending : st.headerBlock = (headerBlocks (received s.log)).pending :=
        h.block st hmem hheld hopen (hid.trans hsame)
      have hblocks := headerBlocks.eq_2 f (received s.log)
      simp only [htype] at hblocks
      rw [← hpending] at hblocks
      have hlast : lastOpened (f :: received s.log) = lastOpened (received s.log) := by
        rw [lastOpened, if_neg (by rw [htype]; decide)]
      -- every stream but `st` has its headers, and `st` takes the payload
      have hadded : ∀ y ∈ ((s.record (.received f)).modify st.id fun x =>
          { x with headerBlock := st.headerBlock ++ f.payload }).streams, y.held = true →
          (y.id = st.id → y.headersDone = st.headersDone ∧
            y.headerBlock = st.headerBlock ++ f.payload) ∧
          (y.headersDone = false → y.id = st.id) ∧
          (y.endStreamReceived = true → Ended y.id (f :: received s.log)) := by
        intro y hy hyheld
        obtain ⟨x, hx, rfl⟩ := mem_map.mp hy
        by_cases hxid : x.id = st.id
        · rw [if_pos hxid] at hyheld ⊢
          have hxst := hsound.unique_stream hx hmem hxid
          have hend := h.ended_later f (x := x) hx hyheld
          exact ⟨fun _ => ⟨by rw [hxst], rfl⟩, fun _ => hxid, hend⟩
        · rw [if_neg hxid] at hyheld ⊢
          refine ⟨fun heq => absurd heq hxid, fun hfresh => ?_, h.ended_later f hx hyheld⟩
          exact (h.fresh x hx hyheld hfresh).2.trans (hsame.symm.trans hid.symm)
      simp only [hfind] at hfit ⊢
      split at hfit
      · exact (fits_not_fails hfit (connectionError_fails _)).elim
      · rename_i hshort
        rw [if_neg hshort]
        split at hfit
        · rename_i hend
          rw [if_pos hend] at hblocks ⊢
          refine Collected.finish ⟨⟨(headerBlocks (received s.log)).complete, hblocks, h.table⟩,
            ?_, ?_, ?_, ?_⟩ hfit
          · exact h.last.trans hlast.symm
          · exact fun y hy hyheld hyid => ((hadded y hy hyheld).1 hyid).1
          · intro y hy hyheld hne
            cases hfresh : y.headersDone with
            | true => rfl
            | false => exact absurd ((hadded y hy hyheld).2.1 hfresh) hne
          · exact fun y hy hyheld => (hadded y hy hyheld).2.2
        · rename_i hmore
          rw [if_neg hmore] at hblocks ⊢
          have hrecv : received ((s.record (.received f)).modify st.id fun x =>
              { x with headerBlock := st.headerBlock ++ f.payload }).log =
              f :: received s.log := rfl
          constructor
          · rw [hrecv, hblocks]
            exact h.table
          · rw [hrecv, hblocks]
            exact h.sid
          · rw [hrecv, hlast]
            exact h.last
          · intro y hy hyheld _ hyid
            rw [hrecv, hblocks]
            exact ((hadded y hy hyheld).1 (hyid.trans (hsame.symm.trans hid.symm))).2
          · intro y hy hyheld hfresh
            exact ⟨hopen, ((hadded y hy hyheld).2.1 hfresh).trans (hid.trans hsame)⟩
          · intro y hy hyheld hend
            rw [hrecv]
            exact (hadded y hy hyheld).2.2 hend

/-! ## Runs -/

theorem processFrame_inStep {cap : Nat} (h : InStep s) (hsound : Sound (tableOf s))
    (hfit : ∀ e ∈ (processFrame cap s f).log, fits e) : InStep (processFrame cap s f) := by
  rw [processFrame] at hfit ⊢
  split at hfit
  · exact (fits_not_fails hfit (connectionError_fails _)).elim
  · rename_i hsize
    rw [if_neg hsize]
    by_cases hplain : f.type = .headers ∨ f.type = .continuation
    · rw [handleFrame] at hfit ⊢
      split at hfit
      · exact (fits_not_fails hfit (connectionError_fails _)).elim
      · rename_i hguard
        rw [if_neg hguard]
        rcases hplain with htype | htype
        · simp only [htype] at hfit hguard ⊢
          have hidle : s.continuationSid = 0 := by
            by_contra hopen
            exact hguard ⟨hopen, .inl (by decide)⟩
          exact onHeaders_inStep h hsound hidle htype hfit
        · simp only [htype] at hfit ⊢
          exact onContinuation_inStep h hsound htype hfit
    · obtain ⟨hheaders, hcontinuation⟩ := not_or.mp hplain
      rcases handleFrame_keeps (D := fun _ => False) hheaders hcontinuation with hkeeps | hfails
      · refine (h.receive hheaders hcontinuation).keeps (fun sid hend => ?_) hkeeps
        exact ⟨f, mem_cons_self, hend⟩
      · exact (fits_not_fails hfit hfails.1).elim

theorem step_inStep {cap : Nat} {a : Action} (h : InStep s) (hsound : Sound (tableOf s))
    (hstep : step cap s a = some s') (hfit : ∀ e ∈ s'.log, fits e) : InStep s' := by
  by_cases ha : ∀ f, a ≠ .frame f
  · have hkeeps : Keeps (fun _ => False) (fun _ => False) s s' := step_keeps ha hstep
    exact h.keeps (fun _ hfalse => hfalse.elim) hkeeps
  · rw [not_forall] at ha
    obtain ⟨f, ha⟩ := ha
    rw [not_not] at ha
    subst ha
    obtain ⟨-, heq⟩ := Option.ite_none_left_eq_some.mp hstep
    obtain rfl := Option.some.inj heq
    exact processFrame_inStep h hsound hfit

theorem initial_keeps : Keeps E D {} initial := by
  have hall : ∀ (fs : List Frame) (s : Session), Keeps E D s (fs.foldl enqueue s) := by
    intro fs
    induction fs with
    | nil => exact fun s => .refl
    | cons f rest ih => exact fun s => (Keeps.enqueue f).trans (ih _)
  exact hall sessionPreamble {}

theorem initial_inStep : InStep initial := by
  have hnew : InStep {} :=
    ⟨rfl, rfl, rfl, fun _ hx => absurd hx not_mem_nil, fun _ hx => absurd hx not_mem_nil,
      fun _ hx => absurd hx not_mem_nil⟩
  exact hnew.keeps (E := fun _ => False) (D := fun _ => False) (fun _ hfalse => hfalse.elim)
    initial_keeps

theorem step_log_suffix {cap : Nat} {a : Action} (hsound : Sound (tableOf s))
    (hstep : step cap s a = some s') : s.log <:+ s'.log := by
  have heffects : Effects anyKind s s' :=
    step_effects (fun _ _ => trivial) hsound.started_session hstep
  exact heffects.log_suffix

/-- A session in which everything fits is in step with the frames it has received. -/
theorem reachable_inStep {cap : Nat} (h : (sessions cap).Reachable s)
    (hfit : ∀ e ∈ s.log, fits e) : InStep s := by
  refine (h.invariant (I := fun s => (sessions cap).Reachable s ∧
    ((∀ e ∈ s.log, fits e) → InStep s)) ?_ ?_).2 hfit
  · intro s h₀
    exact ⟨⟨s, h₀, .refl⟩, fun _ => h₀ ▸ initial_inStep⟩
  · rintro s s' ⟨a, hstep⟩ ⟨hreach, hI⟩
    have hsound := reachable_sound hreach
    obtain ⟨s₀, h₀, hrun⟩ := hreach
    refine ⟨⟨s₀, h₀, hrun.tail ⟨a, hstep⟩⟩, fun hfit => ?_⟩
    have hpast := (step_log_suffix hsound hstep).subset
    exact step_inStep (hI fun e he => hfit e (hpast he)) hsound hstep hfit

/-! ## What is announced -/

/-- A connection error, or a request whose list exceeds the cap. -/
def alarming : Event → Prop
  | .connectionError _ => True
  | .headerBlock _ false block table _ =>
      (decodeHeaderBlock defaultMaxHeaderListSize block table).limitExceeded = true
  | _ => False

/-- Trailers do not exceed the cap. -/
def trailersFit : Event → Prop
  | .headerBlock _ true block table _ =>
      (decodeHeaderBlock defaultMaxHeaderListSize block table).limitExceeded = false
  | _ => True

instance trailersFit.decidable : (e : Event) → Decidable (trailersFit e)
  | .headerBlock _ true block table _ => inferInstanceAs (Decidable
      ((decodeHeaderBlock defaultMaxHeaderListSize block table).limitExceeded = false))
  | .headerBlock _ false _ _ _ | .received _ | .enqueued _ | .sent _ | .opened _ | .task _
  | .lostTask _ | .credited _ _ | .sendStarted _ _ | .sendEnded _ _ | .connectionError _ =>
      .isTrue trivial

theorem fits_of_trailersFit {e : Event} (hcalm : ¬ alarming e) (htrailers : trailersFit e) :
    fits e := by
  cases e with
  | connectionError err => exact hcalm trivial
  | headerBlock sid trailers block table count =>
    cases trailers with
    | true => exact htrailers
    | false => exact Bool.eq_false_iff.mpr hcalm
  | _ => trivial

/-- What is alarming has been answered with a GOAWAY. -/
def Warned (s : Session) : Prop := ∀ e ∈ s.log, alarming e → s.goawaySent = true

theorem Warned.keeps (h : Warned s) (hk : Keeps E D s s') : Warned s' := by
  intro e he halarm
  obtain ⟨new, hnew, hsilent⟩ := hk.log
  rw [hnew] at he
  rcases mem_append.mp he with hin | hpast
  · have hquiet := hsilent e hin
    cases e with
    | connectionError err => exact absurd hquiet Bool.false_ne_true
    | headerBlock sid trailers block table count => exact absurd hquiet Bool.false_ne_true
    | _ => exact halarm.elim
  · exact hk.goaway (h e hpast halarm)

theorem Fails.warned (h : Fails s) : Warned s := fun _ _ _ => h.goaway

theorem decodeLoop_limit {cap fuel c : Nat} {block : Bytes} {t : DynamicTable}
    {headers : List Field} {d : Decoded} (h : decodeLoop cap block fuel c t headers = some d)
    (hlimit : d.limitExceeded = true) : d.ok = false := by
  induction fuel generalizing c t headers with
  | zero => cases h
  | succ fuel ih =>
    rw [decodeLoop] at h
    split at h
    · obtain rfl := Option.some.inj h
      have hover : overLimit cap headers = true := hlimit
      rw [hover, Bool.not_true]
    · split at h
      · obtain rfl := Option.some.inj h
        rfl
      · split at h
        · obtain rfl := Option.some.inj h
          rfl
        · exact ih h

theorem finishHeaderBlock_warned (h : Warned s) : Warned (finishHeaderBlock s st) := by
  rw [finishHeaderBlock]
  have hcap : defaultMaxHeaderListSize ≠ 0 := by decide
  have hloop := HeaderProgress.decodeHeaderBlock_eq hcap st.headerBlock s.decodeTable
  generalize hdec : decodeHeaderBlock defaultMaxHeaderListSize st.headerBlock s.decodeTable = d
    at hloop
  by_cases hd : d.ok = true ∨ d.limitExceeded = true
  · have hkeeps : Keeps (fun _ => False) (fun _ => False)
        (markDone (Http2Session.keepTable s st d) st) (actOnBlock _ st d) := actOnBlock_keeps hd
    by_cases hover : st.headersDone = false ∧ d.limitExceeded = true
    · -- a request beyond the cap: the GOAWAY is sent at once
      have hok := decodeLoop_limit hloop hover.2
      intro _ _ _
      rw [actOnBlock, hok, hover.1, hover.2]
      exact sendGoaway_goawaySent _
    · have hmark : Warned (markDone (Http2Session.keepTable s st d) st) := by
        intro e he halarm
        rw [markDone_log.1] at he
        rw [markDone_log.2]
        rcases mem_cons.mp he with rfl | hpast
        · cases hdone : st.headersDone with
          | true =>
            rw [hdone] at halarm
            exact halarm.elim
          | false =>
            rw [hdone] at halarm
            exact absurd ⟨hdone, hdec ▸ halarm⟩ hover
        · exact h e hpast halarm
      exact hmark.keeps hkeeps
  · rw [not_or, Bool.not_eq_true, Bool.not_eq_true] at hd
    rw [actOnBlock, hd.1, hd.2]
    exact Fails.warned (connectionError_fails _)

theorem takeFragment_warned {fragment : Bytes} (h : Warned s) :
    Warned (takeFragment s st f fragment) := by
  rw [takeFragment]
  dsimp only
  split
  · exact finishHeaderBlock_warned h
  · exact h

theorem Warned.record {e : Event} (h : Warned s) (he : ¬ alarming e) : Warned (s.record e) := by
  intro e' he' halarm
  rcases mem_cons.mp he' with rfl | hpast
  · exact absurd halarm he
  · exact h e' hpast halarm

theorem onHeaders_warned (h : Warned s) : Warned (onHeaders s f) := by
  rw [onHeaders]
  dsimp only
  split
  · exact Fails.warned (connectionError_fails _)
  · split
    · exact Fails.warned (connectionError_fails _)
    · split
      · split
        · exact Fails.warned (connectionError_fails _)
        · exact takeFragment_warned h
      · split
        · exact Fails.warned (connectionError_fails _)
        · exact takeFragment_warned (h.record (e := .opened _) fun halarm => halarm)

theorem onContinuation_warned (h : Warned s) : Warned (onContinuation s f) := by
  rw [onContinuation]
  split
  · exact Fails.warned (connectionError_fails _)
  · split
    · exact Fails.warned (connectionError_fails _)
    · dsimp only
      split
      · exact Fails.warned (connectionError_fails _)
      · split
        · exact finishHeaderBlock_warned h
        · exact h

theorem processFrame_warned {cap : Nat} (h : Warned s) : Warned (processFrame cap s f) := by
  have hreceived : Warned (s.record (.received f)) := h.record fun halarm => halarm
  rw [processFrame]
  split
  · exact Fails.warned (connectionError_fails _)
  · by_cases hplain : f.type = .headers ∨ f.type = .continuation
    · rw [handleFrame]
      split
      · exact Fails.warned (connectionError_fails _)
      · rcases hplain with htype | htype
        · rw [htype]
          exact onHeaders_warned hreceived
        · rw [htype]
          exact onContinuation_warned hreceived
    · obtain ⟨hheaders, hcontinuation⟩ := not_or.mp hplain
      rcases handleFrame_keeps (D := fun _ => False) hheaders hcontinuation with hkeeps | hfails
      · exact hreceived.keeps hkeeps
      · exact Fails.warned hfails.1

theorem reachable_warned {cap : Nat} (h : (sessions cap).Reachable s) : Warned s := by
  refine h.invariant (fun s h₀ => ?_) ?_
  · have hnew : Warned {} := fun _ he => absurd he not_mem_nil
    rw [h₀]
    exact hnew.keeps (E := fun _ => False) (D := fun _ => False) initial_keeps
  · rintro s s' ⟨a, hstep⟩ hwarned
    by_cases ha : ∀ f, a ≠ .frame f
    · have hkeeps : Keeps (fun _ => False) (fun _ => False) s s' := step_keeps ha hstep
      exact hwarned.keeps hkeeps
    · rw [not_forall] at ha
      obtain ⟨f, ha⟩ := ha
      rw [not_not] at ha
      subst ha
      obtain ⟨-, heq⟩ := Option.ite_none_left_eq_some.mp hstep
      obtain rfl := Option.some.inj heq
      exact processFrame_warned hwarned

/-- Without a GOAWAY, and as long as no trailers exceed the cap, the table is the one that
    complete decoding of every header block gives. -/
theorem decodeTable_in_step (cap : Nat) (s : Session) (h : (sessions cap).Reachable s)
    (hgoaway : s.goawaySent = false) (hfit : ∀ e ∈ s.log, trailersFit e) (t : DynamicTable) :
    TableAfter (headerBlocks (received s.log)).complete t ↔ t = s.decodeTable := by
  have hall : ∀ e ∈ s.log, fits e := by
    intro e he
    refine fits_of_trailersFit (fun halarm => ?_) (hfit e he)
    rw [reachable_warned h e he halarm] at hgoaway
    exact absurd hgoaway.symm Bool.false_ne_true
  have htable := (reachable_inStep h hall).table
  constructor
  · exact fun ht => ht.unique htable
  · intro ht
    rw [ht]
    exact htable

/-- A request that adds a field to the table, and trailers that refer to it. -/
def trailersActions : List Action :=
  [.frame (headersFrame 1 4 [0x40, 1, 98, 1, 99]), .frame (headersFrame 1 5 [0xbe])]

def trailersSession : Session := (run 0 initial trailersActions).getD initial

theorem decodeTable_in_step_trailers :
    trailersSession.decodeTable = { entries := [([98], [99])] } ∧
      (headerBlocks (received trailersSession.log)).complete =
        [[0xbe], [0x40, 1, 98, 1, 99]] ∧
      TableAfter (headerBlocks (received trailersSession.log)).complete
        trailersSession.decodeTable := by
  have hrun : run 0 initial trailersActions = some trailersSession := by decide
  have hfit : ∀ e ∈ trailersSession.log, trailersFit e := by decide
  refine ⟨by decide, by decide, ?_⟩
  exact (decodeTable_in_step 0 trailersSession (run_reachable initial_reachable hrun)
    (by decide) hfit _).mpr rfl

/-! ## Trailers beyond the cap -/

section Overflow

open HeaderProgress

/-- Without a cap the decoder gets past the repeated fields. -/
theorem gets_uncapped {n c : Nat} (rest : Bytes) (fuel : Nat) (t : DynamicTable) (k : Nat)
    (hk : c + k = n) :
    decodeLoop 0 (gets n rest) (fuel + k) c t (List.replicate c getField) =
      decodeLoop 0 (gets n rest) fuel n t (List.replicate n getField) := by
  induction k generalizing c with
  | zero => rw [← hk, Nat.add_zero, Nat.add_zero]
  | succ k ih =>
    have hcap : overLimit 0 (List.replicate c getField) = false := by simp [overLimit]
    have hlt : c < n := by omega
    obtain ⟨tail, hdrop⟩ := gets_drop rest hlt
    rw [← Nat.add_assoc, decodeLoop_round hdrop hcap (gets_round hlt t), Option.toList_some,
      ← replicate_succ']
    exact ih (c := c + 1) (by omega)

theorem gets_drop_all (n k : Nat) (rest : Bytes) : (gets n rest).drop (n + k) = rest.drop k := by
  rw [gets, ← drop_drop, drop_left' length_replicate]

/-- A literal field with incremental indexing after the repeated ones: `:method` and a
    value of one byte. -/
def lateInsert : Bytes := [0x42, 1, 99]

theorem lateInsert_round {n : Nat} (hn : n < 2 ^ 32) (t : DynamicTable) :
    decodeRound (gets n lateInsert) n t 0x42 =
      some ⟨some (text ":method", [99]), t.insert (text ":method", [99]), n + 3⟩ := by
  have hdrop := gets_drop_all n
  have hname : decodeInteger (gets n lateInsert) n 6 = some (2, n + 1) := by
    have h := hdrop 0 lateInsert
    rw [Nat.add_zero] at h
    rw [decodeInteger, h]
    rfl
  have hlen : decodeInteger (gets n lateInsert) (n + 1) 7 = some (1, n + 2) := by
    rw [decodeInteger, hdrop 1 lateInsert]
    rfl
  have hsize : (gets n lateInsert).length = n + 3 := by
    rw [gets, length_append, length_replicate]
    rfl
  have hwrap : wrap (n + 2 + 1) = n + 3 := by
    rw [wrap]
    omega
  have hvalue : decodeString (gets n lateInsert) (n + 1) = some ([99], n + 3) := by
    rw [decodeString, hdrop 1 lateInsert]
    show ((decodeInteger _ _ 7).bind _) = _
    rw [hlen]
    show takeString (gets n lateInsert) (n + 2) 1 false = _
    rw [takeString, hwrap, hsize, if_neg (Nat.lt_irrefl _), hdrop 2 lateInsert]
    rfl
  have hliteral : decodeLiteral (gets n lateInsert) n 6 t =
      some ((text ":method", [99]), n + 3) := by
    rw [decodeLiteral, hname]
    show ((decodeString _ (n + 1)).bind _) = _
    rw [hvalue]
    rfl
  rw [decodeRound, if_neg (by decide), if_pos (by decide), hliteral]
  rfl

theorem lateInsert_complete {n : Nat} (hn : n < 2 ^ 32) (t : DynamicTable) :
    Complete t (gets n lateInsert) (t.insert (text ":method", [99])) := by
  have hcap : ∀ headers, overLimit 0 headers = false := fun _ => by simp [overLimit]
  have hstart := gets_uncapped lateInsert 2 t n (Nat.zero_add n)
  have hhere : (gets n lateInsert).drop n = lateInsert := gets_drop_all n 0 lateInsert
  have hend : (gets n lateInsert).drop (n + 3) = [] := gets_drop_all n 3 lateInsert
  rw [decodeLoop_round hhere (hcap _) (lateInsert_round hn t), decodeLoop, hend, hcap] at hstart
  exact ⟨_, _, hstart, rfl, rfl⟩

theorem dispatch_fields {sid : Nat} (hfind : s.find sid = some x) :
    (dispatch s sid).goawaySent = s.goawaySent ∧ (dispatch s sid).stopped = s.stopped := by
  have hfound : (s.modify sid fun x => { x with dispatched := true }).find sid =
      some { x with dispatched := true } :=
    find_modify (g := fun x => { x with dispatched := true }) (fun _ => ⟨rfl, rfl⟩) hfind
  rw [dispatch, spawn, if_pos]
  · exact ⟨rfl, rfl⟩
  · exact Option.isSome_of_mem hfound

/-- `finish_header_block` of trailers beyond the cap: the task is spawned, the table stays
    where decoding stopped, and no GOAWAY is sent. -/
theorem finishHeaderBlock_trailers (hfind : s.find st.id = some x)
    (hdone : st.headersDone = true) (hfresh : st.dispatched = false ∧ st.rejected = false)
    (hlimit : (decodeHeaderBlock defaultMaxHeaderListSize st.headerBlock
      s.decodeTable).limitExceeded = true) :
    (finishHeaderBlock s st).goawaySent = s.goawaySent ∧
      (finishHeaderBlock s st).stopped = s.stopped ∧
      (finishHeaderBlock s st).decodeTable =
        (decodeHeaderBlock defaultMaxHeaderListSize st.headerBlock s.decodeTable).table ∧
      received (finishHeaderBlock s st).log = received s.log := by
  rw [finishHeaderBlock]
  generalize decodeHeaderBlock defaultMaxHeaderListSize st.headerBlock s.decodeTable = d
    at hlimit ⊢
  have hact : actOnBlock (keepTable s st d) st d = dispatch (keepTable s st d) st.id := by
    rw [actOnBlock, hlimit, hdone, hfresh.1, hfresh.2, Bool.not_true, Bool.and_false]
    rfl
  obtain ⟨hgoaway, hstopped⟩ := dispatch_fields (keepTable_find (d := d) hfind)
  have hkeeps : Keeps (fun _ => False) (fun _ => False) (keepTable s st d)
      (dispatch (keepTable s st d) st.id) := .dispatch
  rw [hact]
  exact ⟨hgoaway, hstopped, hkeeps.table, (keeps_received hkeeps).trans rfl⟩

/-- Trailers beyond the cap for a stream in `streams_`. -/
theorem processFrame_trailers (cap : Nat) {b : Bytes} (hfind : s.find st.id = some st)
    (hidle : s.continuationSid = 0) (hlen : b.length ≤ maxFrameSize) (hodd : st.id % 2 = 1)
    (hdone : st.headersDone = true) (hopen : st.endStreamReceived = false)
    (hfresh : st.dispatched = false ∧ st.rejected = false)
    (hlimit : (decodeHeaderBlock defaultMaxHeaderListSize b s.decodeTable).limitExceeded = true) :
    (processFrame cap s (requestFrame st.id b)).goawaySent = s.goawaySent ∧
      (processFrame cap s (requestFrame st.id b)).stopped = s.stopped ∧
      (processFrame cap s (requestFrame st.id b)).decodeTable =
        (decodeHeaderBlock defaultMaxHeaderListSize b s.decodeTable).table ∧
      received (processFrame cap s (requestFrame st.id b)).log =
        requestFrame st.id b :: received s.log := by
  have hadd : Quiet fun x : StreamState => { x with
      headerBlock := b, endStreamReceived := true } := fun _ => ⟨rfl, rfl, rfl, rfl, rfl, rfl, rfl, rfl⟩
  have hsmall : ¬ (requestFrame st.id b).payload.length > maxFrameSize := Nat.not_lt.mpr hlen
  have hguard : ¬ ((s.record (.received (requestFrame st.id b))).continuationSid ≠ 0 ∧
      ((requestFrame st.id b).type ≠ .continuation ∨ (requestFrame st.id b).streamId ≠
        (s.record (.received (requestFrame st.id b))).continuationSid)) := fun h => h.1 hidle
  have hsid : ¬ ((requestFrame st.id b).streamId = 0 ∨ (requestFrame st.id b).streamId % 2 = 0) := by
    show ¬ (st.id = 0 ∨ st.id % 2 = 0)
    omega
  have hfound : (s.record (.received (requestFrame st.id b))).find
      (requestFrame st.id b).streamId = some st := hfind
  obtain ⟨hwhole, hlast⟩ := requestFrame_flags st.id b
  have htrailers : ¬ (!st.headersDone || st.endStreamReceived ||
      !(requestFrame st.id b).hasFlag flagEndStream) = true := by
    rw [hdone, hopen, hlast]
    exact Bool.false_ne_true
  obtain ⟨s1, hs1⟩ : ∃ s1 : Session, s1 = (s.record (.received (requestFrame st.id b))).modify
      st.id fun x => { x with headerBlock := b, endStreamReceived := true } := ⟨_, rfl⟩
  obtain ⟨st', hst'⟩ : ∃ st' : StreamState,
      st' = { st with headerBlock := b, endStreamReceived := true } := ⟨_, rfl⟩
  have hprocess : processFrame cap s (requestFrame st.id b) = finishHeaderBlock s1 st' := by
    rw [processFrame, if_neg hsmall, handleFrame, if_neg hguard]
    show onHeaders _ _ = _
    rw [onHeaders, if_neg hsid, requestFrame_fragment, hfound, hs1, hst']
    refine (if_neg htrailers).trans ?_
    simp only [takeFragment, if_pos hwhole, hlast, Bool.or_true, nil_append]
  have hy : s1.find st'.id = some st' := by
    rw [hs1, hst']
    exact hadd.find_modify hfind
  obtain ⟨hgoaway, hstopped, htable, hlog⟩ := finishHeaderBlock_trailers hy
    (by rw [hst', hdone]) (by rw [hst']; exact hfresh) (by rw [hst', hs1]; exact hlimit)
  rw [hprocess, hgoaway, hstopped, htable, hlog, hst', hs1]
  exact ⟨rfl, rfl, rfl, rfl⟩

/-- A request for stream 1 that stays open. -/
def openRequest : Frame := headersFrame 1 4 [0x82]

/-- Its trailers: a list beyond the cap, then a field that goes into the table. -/
def longTrailers : Frame := requestFrame 1 (gets 1561 lateInsert)

/-- The session after `openRequest`. -/
def openSession : Session := (run 0 initial [.frame openRequest]).getD initial

/-- Trailers beyond the cap: decoding stops before the last field, no GOAWAY is sent, and
    the table is not the one complete decoding gives. -/
theorem longTrailers_out_of_step :
    ∃ s, run 0 initial [.frame openRequest, .frame longTrailers] = some s ∧
      s.goawaySent = false ∧ s.stopped = false ∧ s.decodeTable = {} ∧
      (headerBlocks (received s.log)).complete = [gets 1561 lateInsert, [0x82]] ∧
      TableAfter [gets 1561 lateInsert, [0x82]] { entries := [(text ":method", [99])] } := by
  have hfirst : run 0 initial [.frame openRequest] = some openSession := by decide
  have hready : openSession.stopped = false ∧ openSession.dead = false ∧
      openSession.goawaySent = false ∧ openSession.continuationSid = 0 ∧
      openSession.decodeTable = {} ∧ received openSession.log = [openRequest] := by
    decide
  obtain ⟨hrunning, halive, hgoaway, hidle, htable, hlog⟩ := hready
  obtain ⟨st, hfind, hid, hdone, hopen, hfresh⟩ : ∃ st, openSession.find 1 = some st ∧ st.id = 1 ∧
      st.headersDone = true ∧ st.endStreamReceived = false ∧
      st.dispatched = false ∧ st.rejected = false :=
    ⟨(openSession.find 1).getD { id := 0 }, by decide, by decide,
      by decide, by decide, by decide⟩
  have hlen : (gets 1561 lateInsert).length ≤ maxFrameSize := by
    rw [gets, length_append, length_replicate]
    decide
  have hbig : defaultMaxHeaderListSize < 1561 * 42 := by decide
  obtain ⟨-, hlimit, hstays⟩ := gets_overCap (by decide) hbig lateInsert openSession.decodeTable
  have hcomplete := lateInsert_complete (n := 1561) (by decide) {}
  have hlong : longTrailers = requestFrame 1 (gets 1561 lateInsert) := rfl
  rw [hlong]
  generalize gets 1561 lateInsert = b at hlen hlimit hstays hcomplete ⊢
  obtain ⟨hgoaway', hstopped', htable', hlog'⟩ :=
    processFrame_trailers 0 (hid ▸ hfind) hidle hlen (by rw [hid]) hdone hopen hfresh hlimit
  rw [hid] at hgoaway' hstopped' htable' hlog'
  refine ⟨processFrame 0 openSession (requestFrame 1 b), ?_, ?_, ?_, ?_, ?_, ?_⟩
  · have hsecond : step 0 openSession (.frame (requestFrame 1 b)) =
        some (processFrame 0 openSession (requestFrame 1 b)) := by
      rw [step, hrunning, halive]
      rfl
    obtain ⟨s2, hs2, hlast⟩ := Option.bind_eq_some_iff.mp hfirst
    obtain rfl := Option.some.inj hlast
    rw [run, hs2, Option.bind_some, run, hsecond]
    rfl
  · rw [hgoaway', hgoaway]
  · rw [hstopped', hrunning]
  · rw [htable', hstays, htable]
  · rw [hlog', hlog, headerBlocks]
    show Blocks.complete (if _ then _ else _) = _
    rw [if_pos (requestFrame_flags 1 b).1, requestFrame_fragment]
    rfl
  · exact ⟨{}, ⟨{}, rfl, 2, _, rfl, rfl, rfl⟩, hcomplete⟩

end Overflow

end Http2HeaderSync
