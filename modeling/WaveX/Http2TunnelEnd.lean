import WaveX.Http2HeaderSync
import WaveX.Http2FrameCodec

/-! # The end of a tunnel

    `tunnel_write`, `shutdown_send` and the end of the takeover handler all queue DATA
    frames of one stream.  `local_closed` is tested when a write begins, and a write that
    waits for the windows or the outbox goes on later.  As long as a tunnel is ended only
    while none of its writes is in progress, the frame with END_STREAM is the last DATA
    frame of the stream and the only one that ends it (`Follows`). -/

namespace Http2TunnelEnd

open QuicVarInt Http2Frames Http2Session Http2Session.Session Http2Effects Http2Tasks
  Http2HeaderState Http2HeaderSync Http2FrameCodec History List

/-! ## Ends of a stream -/

/-- Once a stream is ended, neither a DATA frame of it follows nor another end; the frames
    before `f` come newest first. -/
def MayFollow (sid : Nat) (f : Frame) (past : List Frame) : Prop :=
  (f.type = .data ∧ f.streamId = sid) ∨ endedBy f sid → ¬ Ended sid past

/-- No `send_frames` is in progress, or it has nothing left to send. -/
def Idle (x : StreamState) : Prop := x.sending = none ∨ x.sending = some { todo := [] }

instance Idle.decidable (x : StreamState) : Decidable (Idle x) :=
  inferInstanceAs (Decidable (_ ∨ _))

/-- DATA frames that do not end their stream. -/
def Unflagged (snd : Send) : Prop :=
  (∀ f ∈ snd.todo, f.type = .data ∧ f.hasFlag flagEndStream = false) ∧
    ∀ p, snd.piece = some p → p.2 = false

/-- A stream object among the frames queued so far. -/
structure OrderlyStream (x : StreamState) (frames : List Frame) : Prop where
  closed : Ended x.id frames → x.localClosed = true
  idle : x.tunnel = true → x.localClosed = true → Idle x
  unflagged : x.tunnel = true → ∀ snd, x.sending = some snd → Unflagged snd

/-- Every stream that has been ended is closed on our side, and a tunnel that is closed
    has nothing left to send. -/
structure Orderly (s : Session) : Prop where
  streams : ∀ x ∈ s.streams, OrderlyStream x (queued s.log)
  known : ∀ sid, Ended sid (queued s.log) → sid ≤ s.lastPeerStreamId

/-- What is queued between `s` and `s'` may follow, for every tunnel. -/
structure Follows (s s' : Session) : Prop where
  tunnels : ∀ x ∈ s.streams, x.tunnel = true → ∃ y ∈ s'.streams, y.id = x.id ∧ y.tunnel = true
  queues : ∃ new, queued s'.log = new ++ queued s.log ∧ ∀ x ∈ s.streams, x.tunnel = true →
    Always (fun f earlier => MayFollow x.id f (earlier ++ queued s.log)) new

variable {may : Kind → Prop} {cap : Nat} {s s' s'' : Session} {x st : StreamState} {sid : Nat}
  {g : StreamState → StreamState} {f : Frame} {new past : List Frame}

theorem Follows.refl : Follows s s :=
  ⟨fun x hx htunnel => ⟨x, hx, rfl, htunnel⟩, [], rfl, fun _ _ _ => trivial⟩

theorem Follows.trans (h : Follows s s') (h' : Follows s' s'') : Follows s s'' := by
  obtain ⟨htunnels, new, hnew, hfollow⟩ := h
  obtain ⟨htunnels', new', hnew', hfollow'⟩ := h'
  refine ⟨fun x hx htunnel => ?_, new' ++ new, by rw [hnew', hnew, append_assoc], ?_⟩
  · obtain ⟨y, hy, hid, hytunnel⟩ := htunnels x hx htunnel
    obtain ⟨z, hz, hzid, hztunnel⟩ := htunnels' y hy hytunnel
    exact ⟨z, hz, hzid.trans hid, hztunnel⟩
  · intro x hx htunnel
    obtain ⟨y, hy, hid, hytunnel⟩ := htunnels x hx htunnel
    have hlater := hfollow' y hy hytunnel
    rw [hid, hnew] at hlater
    refine always_append.mpr ⟨?_, hfollow x hx htunnel⟩
    simp only [append_assoc]
    exact hlater

/-- A stream ends with one of the frames. -/
theorem ended_append {past : List Frame} :
    Ended sid (new ++ past) ↔ Ended sid new ∨ Ended sid past := by
  constructor
  · rintro ⟨f, hf, hend⟩
    exact (mem_append.mp hf).imp (fun hf => ⟨f, hf, hend⟩) fun hf => ⟨f, hf, hend⟩
  · rintro (⟨f, hf, hend⟩ | ⟨f, hf, hend⟩)
    · exact ⟨f, mem_append_left _ hf, hend⟩
    · exact ⟨f, mem_append_right _ hf, hend⟩

/-! ## Changes that leave the streams open -/

/-- Neither DATA nor HEADERS are queued, and what is known of the streams' ends stays. -/
structure Plain (s s' : Session) : Prop where
  last : s'.lastPeerStreamId = s.lastPeerStreamId
  queues : ∃ new, queued s'.log = new ++ queued s.log ∧
    ∀ f ∈ new, f.type ≠ .data ∧ f.type ≠ .headers
  streams : ∃ g, s'.streams = s.streams.map g ∧ ∀ x, (g x).id = x.id ∧
    (g x).tunnel = x.tunnel ∧ (g x).localClosed = x.localClosed ∧ (g x).sending = x.sending

/-- Frames that are no DATA and no HEADERS end nothing. -/
theorem plain_not_ended (hnew : ∀ f ∈ new, f.type ≠ .data ∧ f.type ≠ .headers) :
    ¬ Ended sid new := by
  rintro ⟨f, hf, -, -, htype⟩
  exact htype.elim (hnew f hf).1 (hnew f hf).2

/-- Frames that are neither DATA nor HEADERS may always follow. -/
theorem plain_may_follow (hnew : ∀ f ∈ new, f.type ≠ .data ∧ f.type ≠ .headers) :
    Always (fun f earlier => MayFollow sid f (earlier ++ past)) new := by
  induction new with
  | nil => exact trivial
  | cons f rest ih =>
    obtain ⟨hdata, hheaders⟩ := hnew f mem_cons_self
    refine ⟨?_, ih fun g hg => hnew g (mem_cons_of_mem f hg)⟩
    rintro (⟨htype, -⟩ | ⟨-, -, htype⟩)
    · exact absurd htype hdata
    · exact (htype.elim hdata hheaders).elim

theorem Orderly.plain (h : Orderly s) (hp : Plain s s') : Orderly s' ∧ Follows s s' := by
  obtain ⟨hlast, ⟨new, hnew, hplain⟩, g, hg, hsame⟩ := hp
  have hended : ∀ sid, Ended sid (queued s'.log) → Ended sid (queued s.log) := by
    intro sid hend
    rw [hnew] at hend
    exact (ended_append.mp hend).resolve_left (plain_not_ended hplain)
  refine ⟨⟨?_, fun sid hend => ?_⟩, ?_, new, hnew, fun x _ _ => plain_may_follow hplain⟩
  · rw [hg]
    intro y hy
    obtain ⟨x, hx, rfl⟩ := mem_map.mp hy
    obtain ⟨hid, htunnel, hclosed, hsend⟩ := hsame x
    obtain ⟨h₁, h₂, h₃⟩ := h.streams x hx
    constructor
    · rw [hid, hclosed]
      exact fun hend => h₁ (hended _ hend)
    · rw [htunnel, hclosed, Idle, hsend]
      exact h₂
    · rw [htunnel, hsend]
      exact h₃
  · rw [hlast]
    exact h.known sid (hended sid hend)
  · intro x hx htunnel
    refine ⟨g x, ?_, (hsame x).1, (hsame x).2.1.trans htunnel⟩
    rw [hg]
    exact mem_map_of_mem hx

theorem Plain.map (hstreams : s'.streams = s.streams.map g)
    (hlast : s'.lastPeerStreamId = s.lastPeerStreamId) (hlog : queued s'.log = queued s.log)
    (hg : ∀ x, (g x).id = x.id ∧ (g x).tunnel = x.tunnel ∧
      (g x).localClosed = x.localClosed ∧ (g x).sending = x.sending) : Plain s s' :=
  ⟨hlast, ⟨[], hlog, fun _ hf => absurd hf not_mem_nil⟩, g, hstreams, hg⟩

theorem Plain.modify (hstreams : s'.streams = (s.modify sid g).streams)
    (hlast : s'.lastPeerStreamId = s.lastPeerStreamId) (hlog : queued s'.log = queued s.log)
    (hg : ∀ x, (g x).id = x.id ∧ (g x).tunnel = x.tunnel ∧
      (g x).localClosed = x.localClosed ∧ (g x).sending = x.sending) : Plain s s' := by
  refine .map hstreams hlast hlog fun x => ?_
  split
  · exact hg x
  · exact ⟨rfl, rfl, rfl, rfl⟩

theorem Plain.same (hstreams : s'.streams = s.streams)
    (hlast : s'.lastPeerStreamId = s.lastPeerStreamId) (hlog : queued s'.log = queued s.log) :
    Plain s s' :=
  .map (hstreams.trans (map_id _).symm) hlast hlog fun _ => ⟨rfl, rfl, rfl, rfl⟩

/-! ## Progress of one stream -/

/-- The object `st` changes by `g` and frames of its stream are queued. -/
theorem Orderly.progress (new : List Frame) (h : Orderly s) (hsound : Sound (tableOf s))
    (hobj : s.object st.id = some st) (hid : (g st).id = st.id)
    (hstreams : s'.streams = (s.modify st.id g).streams)
    (hlast : s'.lastPeerStreamId = s.lastPeerStreamId)
    (hqueued : queued s'.log = new ++ queued s.log) (hnew : ∀ f ∈ new, f.streamId = st.id)
    (hst : OrderlyStream (g st) (new ++ queued s.log))
    (htunnel : st.tunnel = true → (g st).tunnel = true ∧
      Always (fun f earlier => MayFollow st.id f (earlier ++ queued s.log)) new) :
    Orderly s' ∧ Follows s s' := by
  obtain ⟨hmem, -⟩ := object_some hobj
  have hothers : ∀ sid, sid ≠ st.id → ∀ f ∈ new, f.streamId ≠ sid :=
    fun sid hne f hf heq => hne (heq.symm.trans (hnew f hf))
  refine ⟨⟨?_, fun sid hend => ?_⟩, ?_, new, hqueued, ?_⟩
  · rw [hstreams, hqueued]
    intro y hy
    obtain ⟨x, hx, rfl⟩ := mem_map.mp hy
    split
    · rename_i heq
      rw [hsound.unique_stream hx hmem heq]
      exact hst
    · rename_i hne
      obtain ⟨hclosed, hidle, hunflagged⟩ := h.streams x hx
      refine ⟨fun hend => hclosed ((ended_append.mp hend).resolve_left ?_), hidle, hunflagged⟩
      rintro ⟨f, hf, hsid, -⟩
      exact hothers x.id hne f hf hsid
  · rw [hlast]
    rw [hqueued] at hend
    rcases ended_append.mp hend with ⟨f, hf, hsid, -⟩ | hend
    · rw [← hsid, hnew f hf]
      exact hsound.known_stream hmem
    · exact h.known sid hend
  · intro x hx hxtunnel
    rw [hstreams]
    by_cases heq : x.id = st.id
    · have hxst := hsound.unique_stream hx hmem heq
      rw [hxst] at hxtunnel
      refine ⟨g st, mem_map.mpr ⟨st, hmem, if_pos rfl⟩, ?_, (htunnel hxtunnel).1⟩
      rw [hid, heq]
    · exact ⟨x, mem_map.mpr ⟨x, hx, if_neg heq⟩, rfl, hxtunnel⟩
  · intro x hx hxtunnel
    by_cases heq : x.id = st.id
    · rw [hsound.unique_stream hx hmem heq] at hxtunnel ⊢
      exact (htunnel hxtunnel).2
    · clear hqueued hst htunnel
      induction new with
      | nil => exact trivial
      | cons f rest ih =>
        have hf := hothers x.id heq f mem_cons_self
        refine ⟨?_, ih (fun g hg => hnew g (mem_cons_of_mem f hg))
          fun sid hne g hg => hothers sid hne g (mem_cons_of_mem f hg)⟩
        rintro (⟨-, hsid⟩ | ⟨hsid, -⟩)
        · exact absurd hsid hf
        · exact absurd hsid hf

/-- A change of `st` that queues nothing. -/
theorem Orderly.silent (h : Orderly s) (hsound : Sound (tableOf s))
    (hobj : s.object st.id = some st) (hid : (g st).id = st.id)
    (hstreams : s'.streams = (s.modify st.id g).streams)
    (hlast : s'.lastPeerStreamId = s.lastPeerStreamId) (hqueued : queued s'.log = queued s.log)
    (hst : OrderlyStream (g st) (queued s.log))
    (htunnel : st.tunnel = true → (g st).tunnel = true) : Orderly s' ∧ Follows s s' :=
  h.progress [] hsound hobj hid hstreams hlast hqueued
    (fun _ hf => absurd hf not_mem_nil) hst fun ht => ⟨htunnel ht, trivial⟩

/-! ## `send_frames` -/

theorem send_queued (hdead : s.dead = false) (f : Frame) :
    queued (s.send f).log = f :: queued s.log := by
  rw [send, hdead]
  rfl

theorem send_queues (f : Frame) :
    ∃ new, queued (s.send f).log = new ++ queued s.log ∧ ∀ f' ∈ new, f' = f := by
  rw [send]
  split
  · exact ⟨[], rfl, fun _ hf => absurd hf not_mem_nil⟩
  · exact ⟨[f], rfl, fun _ hf => mem_singleton.mp hf⟩

theorem sendAll_queues (fs : List Frame) :
    ∃ new, queued (s.sendAll fs).log = new ++ queued s.log ∧ ∀ f ∈ new, f ∈ fs := by
  induction fs generalizing s with
  | nil => exact ⟨[], rfl, fun _ hf => absurd hf not_mem_nil⟩
  | cons f rest ih =>
    obtain ⟨new, hnew, hmem⟩ := ih (s := s.send f)
    obtain ⟨first, hfirst, heq⟩ := send_queues (s := s) f
    refine ⟨new ++ first, ?_, fun f' hf' => ?_⟩
    · rw [append_assoc, ← hfirst]
      exact hnew
    · rcases mem_append.mp hf' with hlater | hnow
      · exact mem_cons_of_mem f (hmem f' hlater)
      · exact heq f' hnow ▸ mem_cons_self

theorem sendAll_streams (fs : List Frame) : (s.sendAll fs).streams = s.streams ∧
    (s.sendAll fs).lastPeerStreamId = s.lastPeerStreamId := by
  induction fs generalizing s with
  | nil => exact ⟨rfl, rfl⟩
  | cons f rest ih =>
    have hfirst : (s.send f).streams = s.streams ∧
        (s.send f).lastPeerStreamId = s.lastPeerStreamId := by
      rw [send]
      split
      · exact ⟨rfl, rfl⟩
      · exact ⟨rfl, rfl⟩
    exact ⟨ih.1.trans hfirst.1, ih.2.trans hfirst.2⟩

theorem modify_streams (h : s'.streams = s.streams) :
    (s'.modify sid g).streams = (s.modify sid g).streams := by
  rw [Session.modify, Session.modify]
  exact congrArg (List.map _) h

theorem endStreamFlags_flag (endStream : Bool) :
    (endStreamFlags endStream &&& flagEndStream == flagEndStream) = endStream ∧
      ((endStreamFlags endStream ||| flagEndHeaders) &&& flagEndStream == flagEndStream) =
        endStream := by
  cases endStream with
  | true => decide
  | false => decide

theorem continuationFrames_ends {size fuel : Nat} {block : Bytes}
    (hf : f ∈ continuationFrames sid size fuel block) :
    f.streamId = sid ∧ f.type = .continuation := by
  induction fuel generalizing block with
  | zero => exact absurd hf not_mem_nil
  | succ fuel ih =>
    rw [continuationFrames] at hf
    split at hf
    · exact absurd hf not_mem_nil
    · rcases mem_cons.mp hf with rfl | hrest
      · exact ⟨rfl, rfl⟩
      · exact ih hrest

/-- The frames of a header block are of its stream and end it only if they should. -/
theorem encodeHeaderFrames_ends {size : Nat} {block : Bytes} {endStream : Bool}
    (hf : f ∈ encodeHeaderFrames sid block endStream size) :
    f.streamId = sid ∧ (endedBy f sid → endStream = true) := by
  rw [encodeHeaderFrames] at hf
  split at hf
  · rw [mem_singleton.mp hf]
    exact ⟨rfl, fun hend => (endStreamFlags_flag endStream).2.symm.trans hend.2.1⟩
  · rcases mem_cons.mp hf with rfl | hrest
    · exact ⟨rfl, fun hend => (endStreamFlags_flag endStream).1.symm.trans hend.2.1⟩
    · obtain ⟨hsid, htype⟩ := continuationFrames_ends hrest
      refine ⟨hsid, fun hend => ?_⟩
      rw [endedBy, htype] at hend
      rcases hend.2.2 with hdata | hheaders
      · exact nomatch hdata
      · exact nomatch hheaders

/-- A tunnel with something to send is open. -/
theorem OrderlyStream.open_of_busy {snd : Send} (h : OrderlyStream st past)
    (hsend : st.sending = some snd) (hbusy : snd ≠ { todo := [] }) (htunnel : st.tunnel = true) :
    st.localClosed = false := by
  cases hlocal : st.localClosed with
  | false => rfl
  | true =>
    rcases h.idle htunnel hlocal with hnone | hdone
    · exact nomatch hsend.symm.trans hnone
    · exact absurd (Option.some.inj (hsend.symm.trans hdone)) hbusy

/-- `send_frames` takes up its next frame. -/
theorem sendFrame_orderly (h : Orderly s) (hsound : Sound (tableOf s)) (todo : List Frame)
    (hobj : s.object st.id = some st) (hsend : st.sending = some { todo := f :: todo }) :
    Orderly (sendFrame s st f todo) ∧ Follows s (sendFrame s st f todo) := by
  obtain ⟨hmem, -⟩ := object_some hobj
  have hst := h.streams st hmem
  have hopen := hst.open_of_busy hsend (fun heq => cons_ne_nil f todo (congrArg Send.todo heq))
  have hplain : st.tunnel = true →
      (f.type = .data ∧ f.hasFlag flagEndStream = false) ∧
        ∀ f' ∈ todo, f'.type = .data ∧ f'.hasFlag flagEndStream = false := by
    intro htunnel
    obtain ⟨htodo, -⟩ := hst.unflagged htunnel _ hsend
    exact ⟨htodo f mem_cons_self, fun f' hf' => htodo f' (mem_cons_of_mem f hf')⟩
  rw [sendFrame]
  split
  · refine h.silent hsound hobj rfl rfl rfl rfl ⟨hst.closed, ?_, ?_⟩ fun ht => ht
    · intro htunnel hlocal
      exact absurd (hlocal.symm.trans (hopen htunnel)) Bool.false_ne_true.symm
    · intro htunnel snd hsnd
      obtain rfl := Option.some.inj hsnd
      refine ⟨(hplain htunnel).2, fun p hp => ?_⟩
      rw [← Option.some.inj hp]
      exact (hplain htunnel).1.2
  · rename_i htype
    have hresponse : ¬ st.tunnel = true := by
      intro htunnel
      cases htype.symm.trans (hplain htunnel).1.1
    obtain ⟨new, hnew, hmem⟩ := sendAll_queues (s := s)
      (encodeHeaderFrames st.id f.payload (f.hasFlag flagEndStream) s.peerMaxFrameSize)
    obtain ⟨hstreams, hlast⟩ := sendAll_streams (s := s)
      (encodeHeaderFrames st.id f.payload (f.hasFlag flagEndStream) s.peerMaxFrameSize)
    refine h.progress new hsound hobj rfl (modify_streams hstreams) hlast hnew
      (fun f' hf' => (encodeHeaderFrames_ends (hmem f' hf')).1) ⟨fun hend => ?_, ?_, ?_⟩
      fun htunnel => absurd htunnel hresponse
    · rcases ended_append.mp hend with ⟨f', hf', hended⟩ | hbefore
      · exact Bool.or_eq_true_iff.mpr (.inr ((encodeHeaderFrames_ends (hmem f' hf')).2 hended))
      · exact Bool.or_eq_true_iff.mpr (.inl (hst.closed hbefore))
    · exact fun htunnel => absurd htunnel hresponse
    · exact fun htunnel => absurd htunnel hresponse
  · rename_i hdata hheaders
    have hresponse : ¬ st.tunnel = true := fun htunnel => hdata (hplain htunnel).1.1
    obtain ⟨new, hnew, hmem⟩ := sendAll_queues (s := s) [{ f with streamId := st.id }]
    obtain ⟨hstreams, hlast⟩ := sendAll_streams (s := s) [{ f with streamId := st.id }]
    have hone : ∀ f' ∈ new, f' = { f with streamId := st.id } :=
      fun f' hf' => mem_singleton.mp (hmem f' hf')
    refine h.progress new hsound hobj rfl (modify_streams hstreams) hlast hnew ?_
      ⟨fun hend => ?_, ?_, ?_⟩ fun htunnel => absurd htunnel hresponse
    · intro f' hf'
      rw [hone f' hf']
    · rcases ended_append.mp hend with ⟨f', hf', -, -, htype⟩ | hbefore
      · rw [hone f' hf'] at htype
        exact (htype.elim hdata hheaders).elim
      · exact Bool.or_eq_true_iff.mpr (.inl (hst.closed hbefore))
    · exact fun htunnel => absurd htunnel hresponse
    · exact fun htunnel => absurd htunnel hresponse

/-- One DATA frame of a piece goes out. -/
theorem sendChunk_orderly (h : Orderly s) (hsound : Sound (tableOf s)) (rest : Bytes)
    (endStream : Bool) (todo : List Frame) (hobj : s.object st.id = some st)
    (hsend : st.sending = some { todo, piece := some (rest, endStream) })
    (hdead : s.dead = false) :
    Orderly (sendChunk s st rest endStream todo) ∧
      Follows s (sendChunk s st rest endStream todo) := by
  obtain ⟨hmem, -⟩ := object_some hobj
  have hst := h.streams st hmem
  have hopen := hst.open_of_busy hsend (fun heq => nomatch congrArg Send.piece heq)
  have hplain : st.tunnel = true → endStream = false ∧
      ∀ f ∈ todo, f.type = .data ∧ f.hasFlag flagEndStream = false := by
    intro htunnel
    obtain ⟨htodo, hpiece⟩ := hst.unflagged htunnel _ hsend
    exact ⟨hpiece _ rfl, htodo⟩
  have hstreams := (sendAll_streams (s := s) [dataFrame st.id (rest.take (chunkSize s st rest.length))
    (chunkSize s st rest.length == rest.length && endStream)]).1
  have hlast := (sendAll_streams (s := s) [dataFrame st.id (rest.take (chunkSize s st rest.length))
    (chunkSize s st rest.length == rest.length && endStream)]).2
  rw [sendChunk]
  refine h.progress [dataFrame st.id (rest.take (chunkSize s st rest.length))
    (chunkSize s st rest.length == rest.length && endStream)] hsound hobj rfl
    (modify_streams hstreams) hlast (send_queued hdead _) ?_ ⟨fun hend => ?_, ?_, ?_⟩ ?_
  · intro f hf
    rw [mem_singleton.mp hf]
    rfl
  · rcases ended_append.mp hend with ⟨f, hf, -, hflag, -⟩ | hbefore
    · rw [mem_singleton.mp hf] at hflag
      exact Bool.or_eq_true_iff.mpr (.inr ((endStreamFlags_flag _).1.symm.trans hflag))
    · exact Bool.or_eq_true_iff.mpr (.inl (hst.closed hbefore))
  · intro htunnel hlocal
    have hstill : (st.localClosed || (chunkSize s st rest.length == rest.length && endStream)) =
        false := by
      rw [hopen htunnel, (hplain htunnel).1, Bool.and_false, Bool.or_false]
    exact absurd (hlocal.symm.trans hstill) Bool.false_ne_true.symm
  · intro htunnel snd hsnd
    obtain rfl := Option.some.inj hsnd
    refine ⟨(hplain htunnel).2, fun p hp => ?_⟩
    dsimp only at hp
    split at hp
    · cases hp
    · rw [← Option.some.inj hp]
      exact (hplain htunnel).1
  · intro htunnel
    refine ⟨htunnel, fun _ hend => ?_, trivial⟩
    exact absurd ((hst.closed hend).symm.trans (hopen htunnel)) Bool.false_ne_true.symm

/-! ## The end of a stream -/

/-- A stream is ended while it is open and its `send_frames` idle. -/
theorem endStream_orderly (h : Orderly s) (hsound : Sound (tableOf s))
    (hobj : s.object st.id = some st) (hopen : st.localClosed = false)
    (hidle : st.tunnel = true → Idle st) :
    Orderly (endStream s st) ∧ Follows s (endStream s st) := by
  obtain ⟨hmem, -⟩ := object_some hobj
  have hst := h.streams st hmem
  obtain ⟨new, hnew, hone⟩ : ∃ new, queued (s.enqueue (dataFrame st.id [] true)).log =
      new ++ queued s.log ∧ (new = [] ∨ new = [dataFrame st.id [] true]) := by
    rw [enqueue]
    split
    · exact ⟨[], rfl, .inl rfl⟩
    · exact ⟨_, rfl, .inr rfl⟩
  have hsame : (s.enqueue (dataFrame st.id [] true)).streams = s.streams ∧
      (s.enqueue (dataFrame st.id [] true)).lastPeerStreamId = s.lastPeerStreamId := by
    rw [enqueue]
    split
    · exact ⟨rfl, rfl⟩
    · exact ⟨rfl, rfl⟩
  rw [endStream]
  refine h.progress new hsound hobj rfl (modify_streams hsame.1) hsame.2 hnew ?_
    ⟨fun _ => rfl, fun htunnel _ => hidle htunnel, hst.unflagged⟩ fun htunnel => ⟨htunnel, ?_⟩
  · intro f hf
    rcases hone with rfl | rfl
    · exact absurd hf not_mem_nil
    · rw [mem_singleton.mp hf]
      rfl
  · rcases hone with rfl | rfl
    · exact trivial
    · refine ⟨fun _ hend => ?_, trivial⟩
      exact absurd ((hst.closed hend).symm.trans hopen) Bool.false_ne_true.symm

/-- What a `tunnel_write` sends does not end the stream. -/
theorem tunnelWrite_unflagged {data : Bytes} (hdata : data.length < 2 ^ 24) :
    Unflagged { todo := wireFrames (encodeFrame (dataFrame sid data false)) } := by
  have hframes : wireFrames ([dataFrame sid data false].flatMap encodeFrame) =
      [{ dataFrame sid data false with streamId := sid % 2 ^ 31 }] := by
    refine wireFrames_encodeFrame fun f hf => ?_
    rw [mem_singleton.mp hf]
    exact ⟨hdata, rfl, show endStreamFlags false < 2 ^ 8 by decide⟩
  rw [flatMap_singleton] at hframes
  rw [hframes]
  refine ⟨fun f hf => ?_, nofun⟩
  rw [mem_singleton.mp hf]
  exact ⟨rfl, (endStreamFlags_flag false).1⟩

/-- Every effect but the end of a stream. -/
theorem effect_orderly (h : Orderly s) (hsound : Sound (tableOf s)) (he : Effect may s s')
    (hwrite : ∀ data, may (.write data) → data.length < 2 ^ 24) (hclose : ¬ may .close) :
    Orderly s' ∧ Follows s s' := by
  cases he with
  | endStream st hmay => exact absurd hmay hclose
  | sendFrame st f todo _ hobj hsend => exact sendFrame_orderly h hsound todo hobj hsend
  | sendChunk st rest endStream todo _ hobj hsend hdead =>
    exact sendChunk_orderly h hsound rest endStream todo hobj hsend hdead
  | openStream sid hnew =>
    refine ⟨⟨fun x hx => ?_, fun k hend => ?_⟩, fun x hx htunnel => ?_, [], rfl, fun _ _ _ => trivial⟩
    · rcases mem_append.mp hx with hold | hnewest
      · exact h.streams x hold
      · rw [mem_singleton.mp hnewest]
        refine ⟨fun hend => ?_, nofun, nofun⟩
        exact absurd (h.known sid hend) (Nat.not_le.mpr hnew)
    · exact Nat.le_trans (h.known k hend) (Nat.le_of_lt hnew)
    · exact ⟨x, mem_append_left _ hx, rfl, htunnel⟩
  | startTunnel sid st hobj hsend =>
    obtain ⟨hmem, rfl⟩ := object_some hobj
    refine h.silent hsound hobj rfl rfl rfl rfl
      ⟨(h.streams st hmem).closed, fun _ _ => .inl hsend, fun _ snd hsnd => ?_⟩ fun _ => rfl
    exact nomatch hsend.symm.trans hsnd
  | startSend sid bytes st hobj hsend htunnel =>
    obtain ⟨hmem, rfl⟩ := object_some hobj
    refine h.silent hsound hobj rfl rfl rfl rfl
      ⟨(h.streams st hmem).closed, fun ht hlocal => ?_, fun ht snd hsnd => ?_⟩ fun ht => ht
    · exact absurd (hlocal.symm.trans (htunnel ht).1) Bool.false_ne_true.symm
    · obtain ⟨-, data, hmay, rfl⟩ := htunnel ht
      rw [← Option.some.inj hsnd]
      exact tunnelWrite_unflagged (hwrite data hmay)
  | endSend sid ok st snd hobj =>
    obtain ⟨hmem, rfl⟩ := object_some hobj
    exact h.silent hsound hobj rfl rfl rfl rfl
      ⟨(h.streams st hmem).closed, fun _ _ => .inl rfl, nofun⟩ fun ht => ht
  | note e hquiet =>
    cases e with
    | enqueued f =>
      rw [quietEvent, Bool.and_eq_true, bne_iff_ne, bne_iff_ne] at hquiet
      refine h.plain ⟨rfl, ⟨[f], rfl, fun f' hf' => ?_⟩, id, (map_id _).symm,
        fun _ => ⟨rfl, rfl, rfl, rfl⟩⟩
      rw [mem_singleton.mp hf']
      exact hquiet
    | connectionError err => exact h.plain (.same rfl rfl rfl)
    | headerBlock sid trailers block table count => exact h.plain (.same rfl rfl rfl)
    | _ => exact absurd hquiet Bool.false_ne_true
  | touch g hg =>
    refine h.plain (.map rfl rfl rfl fun x => ?_)
    obtain ⟨hid, -, -, -, -, hsend, htunnel, hclosed⟩ := hg x
    exact ⟨hid, htunnel, hclosed, hsend⟩
  | clear => exact h.plain (.map rfl rfl rfl fun _ => ⟨rfl, rfl, rfl, rfl⟩)
  | initialWindow value =>
    refine h.plain (.map rfl rfl rfl fun x => ?_)
    split
    · exact ⟨rfl, rfl, rfl, rfl⟩
    · exact ⟨rfl, rfl, rfl, rfl⟩
  | scalars => exact h.plain (.same rfl rfl rfl)
  | receive f => exact h.plain (.same rfl rfl rfl)
  | creditConnection inc => exact h.plain (.same rfl rfl rfl)
  | frameSize value => exact h.plain (.same rfl rfl rfl)
  | _ => exact h.plain (.modify rfl rfl rfl fun _ => ⟨rfl, rfl, rfl, rfl⟩)

/-! ## Runs -/

/-- A tunnel is ended only while none of its writes is in progress, and a write has less
    than 2^24 bytes, the most that a frame can hold. -/
def Careful (s : Session) : Action → Prop
  | .endResponse sid | .shutdownSend sid =>
      ∀ st ∈ s.object sid, st.tunnel = true → Idle st
  | .tunnelWrite _ data => data.length < 2 ^ 24
  | _ => True

instance Careful.decidable (s : Session) : (a : Action) → Decidable (Careful s a)
  | .endResponse sid | .shutdownSend sid =>
      inferInstanceAs (Decidable (∀ st ∈ s.object sid, st.tunnel = true → Idle st))
  | .tunnelWrite _ data => inferInstanceAs (Decidable (data.length < 2 ^ 24))
  | .frame _ | .notAccepting | .idleTimeout | .drained | .readError | .shutdown | .markDead
  | .clear | .written _ | .startSend _ _ | .resume _ | .timeout _ | .startTunnel _
  | .tunnelRead _ _ | .tunnelCancel _ | .tunnelClose _ | .finishTask _ => .isTrue trivial

/-- The tunnels stay orderly where no write is too large and the application does not close. -/
theorem effects_orderly (may : Kind → Prop) (h : Orderly s) (hsound : Sound (tableOf s))
    (he : Effects may s s')
    (hwrite : ∀ data, may (.write data) → data.length < 2 ^ 24) (hclose : ¬ may .close) :
    Orderly s' ∧ Follows s s' := by
  have hall : Sound (tableOf s') ∧ Orderly s' ∧ Follows s s' := by
    induction he with
    | refl => exact ⟨hsound, h, .refl⟩
    | tail _ he ih =>
      obtain ⟨hsound₁, h₁, hfollows⟩ := ih
      obtain ⟨h₂, hnext⟩ := effect_orderly h₁ hsound₁ he hwrite hclose
      exact ⟨effect_sound he hsound₁, h₂, hfollows.trans hnext⟩
  exact hall.2

/-- What every careful step preserves. -/
theorem step_orderly {a : Action} (h : Orderly s) (hsound : Sound (tableOf s))
    (hcareful : Careful s a) (hstep : step cap s a = some s') : Orderly s' ∧ Follows s s' := by
  have hother : kindOf a ≠ some .close →
      (∀ data, kindOf a = some (.write data) → data.length < 2 ^ 24) →
      Orderly s' ∧ Follows s s' := fun hkind hwrite =>
    effects_orderly (fun k => kindOf a = some k) h hsound
      (step_effects (fun _ hk => hk) hsound.started_session hstep) hwrite hkind
  cases a with
  | endResponse sid =>
    obtain ⟨st, hobj, htask⟩ := Option.bind_eq_some_iff.mp hstep
    obtain ⟨-, rfl⟩ := object_some hobj
    obtain ⟨⟨-, hopen, -⟩, htask⟩ := Option.ite_none_right_eq_some.mp htask
    obtain rfl := Option.some.inj htask
    exact endStream_orderly h hsound hobj (Bool.eq_false_iff.mpr hopen) (hcareful st hobj)
  | shutdownSend sid =>
    obtain ⟨st, hobj, htask⟩ := Option.bind_eq_some_iff.mp hstep
    obtain ⟨-, rfl⟩ := object_some hobj
    obtain ⟨⟨-, hopen, -⟩, htask⟩ := Option.ite_none_right_eq_some.mp htask
    obtain rfl := Option.some.inj htask
    exact endStream_orderly h hsound hobj (Bool.eq_false_iff.mpr hopen) (hcareful st hobj)
  | tunnelWrite sid data =>
    refine hother nofun fun bytes hbytes => ?_
    obtain rfl := Kind.write.inj (Option.some.inj hbytes)
    exact hcareful
  | _ => exact hother nofun nofun

/-- There is no tunnel at first. -/
theorem initial_orderly : Orderly initial := by
  have hnew : Orderly {} :=
    ⟨fun _ hx => absurd hx not_mem_nil, fun _ ⟨_, hf, _⟩ => absurd hf not_mem_nil⟩
  exact (effects_orderly (fun _ => False) hnew new_sound initial_effects
    (fun _ hmay => hmay.elim) fun hmay => hmay).1

/-- A careful run is a run, and its tunnels are orderly. -/
theorem careful_reachable (h : (guarded Careful cap).Reachable s) :
    (sessions cap).Reachable s ∧ Orderly s :=
  guarded_invariant h initial_orderly fun _ _ _ hreach horderly hcareful hstep =>
    (step_orderly horderly (reachable_sound hreach) hcareful hstep).1

/-- In every run of careful steps, from any point on, what is queued for a tunnel may
    follow: after a frame with END_STREAM no DATA frame and no second end. -/
theorem tunnel_ends_once (cap : Nat) (s s' : Session) (x : StreamState)
    (h : (guarded Careful cap).Reachable s)
    (hrun : Relation.ReflTransGen (guarded Careful cap).next s s') (hx : x ∈ s.streams)
    (htunnel : x.tunnel = true) :
    ∃ new, queued s'.log = new ++ queued s.log ∧ ∀ later f earlier,
      new = later ++ f :: earlier → MayFollow x.id f (earlier ++ queued s.log) := by
  have hfollows : (guarded Careful cap).Reachable s' ∧ Follows s s' := by
    induction hrun with
    | refl => exact ⟨h, .refl⟩
    | tail _ hstep ih =>
      obtain ⟨hreach, hfollows⟩ := ih
      obtain ⟨hsession, horderly⟩ := careful_reachable hreach
      obtain ⟨s₀, h₀, hbefore⟩ := hreach
      obtain ⟨a, hcareful, haction⟩ := hstep
      have hnext := (step_orderly horderly (reachable_sound hsession) hcareful haction).2
      exact ⟨⟨s₀, h₀, hbefore.tail ⟨a, hcareful, haction⟩⟩, hfollows.trans hnext⟩
  obtain ⟨new, hnew, hall⟩ := hfollows.2.queues
  refine ⟨new, hnew, fun later f earlier heq => ?_⟩
  have halways := hall x hx htunnel
  rw [heq] at halways
  exact halways.split

/-! ## Two runs -/

/-- A CONNECT request on stream 1 that becomes a tunnel; the client grants no window at
    first. -/
def tunnelActions : List Action :=
  [.frame { type := .settings, streamId := 0, payload := settingsPayload [(4, 0)] },
    .frame (headersFrame 1 4 [0x02, 7, 67, 79, 78, 78, 69, 67, 84]), .startTunnel 1]

/-- The client opens the window of stream 1. -/
def openWindow : Action := .frame (windowUpdateFrame 1 10)

/-- A write that waits for the window, the end of the tunnel, and the rest of the write. -/
def lateWriteActions : List Action :=
  [.tunnelWrite 1 [1, 2, 3], .resume 1, .shutdownSend 1, openWindow, .resume 1]

/-- A write that is over before the tunnel ends. -/
def timelyWriteActions : List Action :=
  [openWindow, .tunnelWrite 1 [1, 2, 3], .resume 1, .resume 1, .resume 1, .shutdownSend 1]

def tunnelSession : Session := (guardedRun Careful 0 initial tunnelActions).getD initial

def timelySession : Session := (guardedRun Careful 0 tunnelSession timelyWriteActions).getD initial

def lateSession : Session := (run 0 tunnelSession lateWriteActions).getD initial

theorem tunnelSession_reachable : (guarded Careful 0).Reachable tunnelSession := by
  have hrun : guardedRun Careful 0 initial tunnelActions = some tunnelSession := by
    decide
  exact ⟨initial, rfl, guardedRun_steps hrun⟩

/-- The write comes first, so the end may follow it. -/
theorem tunnel_ends_once_timely :
    queued timelySession.log = [dataFrame 1 [] true, dataFrame 1 [1, 2, 3] false] ++
        queued tunnelSession.log ∧
      ¬ Ended 1 ([dataFrame 1 [1, 2, 3] false] ++ queued tunnelSession.log) := by
  obtain ⟨x, hx, hid, htunnel⟩ : ∃ x ∈ tunnelSession.streams, x.id = 1 ∧ x.tunnel = true := by
    decide
  have hqueued : queued timelySession.log = [dataFrame 1 [] true, dataFrame 1 [1, 2, 3] false] ++
      queued tunnelSession.log := by decide
  have hrun : guardedRun Careful 0 tunnelSession timelyWriteActions = some timelySession := by
    decide
  obtain ⟨new, hnew, hfollow⟩ := tunnel_ends_once 0 tunnelSession timelySession x
    tunnelSession_reachable (guardedRun_steps hrun) hx htunnel
  have heq := append_cancel_right (hnew.symm.trans hqueued)
  have hend := hfollow [] (dataFrame 1 [] true) [dataFrame 1 [1, 2, 3] false] heq
    (.inl ⟨rfl, hid.symm⟩)
  rw [hid] at hend
  exact ⟨hqueued, hend⟩

/-- The tunnel is ended while a write waits for the window: the DATA frame of the write
    goes out after the one with END_STREAM. -/
theorem late_write_after_end :
    (sessions 0).Reachable tunnelSession ∧
      run 0 tunnelSession lateWriteActions = some lateSession ∧
      (∃ x ∈ tunnelSession.streams, x.id = 1 ∧ x.tunnel = true) ∧
      queued lateSession.log = [dataFrame 1 [1, 2, 3] false, dataFrame 1 [] true] ++
        queued tunnelSession.log ∧
      ¬ MayFollow 1 (dataFrame 1 [1, 2, 3] false)
        ([dataFrame 1 [] true] ++ queued tunnelSession.log) := by
  refine ⟨(careful_reachable tunnelSession_reachable).1, by decide, by decide,
    by decide, fun hfollow => ?_⟩
  exact hfollow (.inl ⟨rfl, rfl⟩) ⟨_, mem_cons_self, rfl, by decide, .inl rfl⟩

end Http2TunnelEnd
