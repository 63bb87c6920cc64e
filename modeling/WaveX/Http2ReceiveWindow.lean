import WaveX.Http2FrameCodec
import WaveX.Http2Steady

/-! # The receive windows

    What a client may send is what the session gives back: WINDOW_UPDATE frames return the
    length of the DATA frames received, of the connection when 8 MB have come together, of
    a body at once, of a tunnel when its data have been read.  The accounts of this file
    say where the length of a DATA frame is: in the credit sent, in `recv_unacked`, or in
    `tunnel_in`.

    One step loses some of it.  `tunnel_read` returns what has come together in
    `recv_unacked`, however much it is, and an increment has 31 bits only.  Padding is
    added to `recv_unacked` without a look at the sum, so that a client can get it there. -/

namespace Http2ReceiveWindow

open QuicVarInt Hpack Http2Frames Http2FrameCodec Http2Session Http2Session.Session Http2Effects
  Http2Tasks History Http2Steady List

/-! ## What is counted -/

/-- The length of the DATA frames received on a stream. -/
def dataLength (sid : Nat) : Event → Nat
  | .received f => if f.type = .data ∧ f.streamId = sid then f.payload.length else 0
  | _ => 0

/-- The length of the DATA frames received on the connection. -/
def dataTotal : Event → Nat
  | .received f => if f.type = .data then f.payload.length else 0
  | _ => 0

/-- The increments of the WINDOW_UPDATE frames sent for a stream; 0 is the connection. -/
def credit (sid : Nat) : Event → Nat
  | .enqueued f => increment sid f
  | _ => 0

/-- What the preamble adds to the connection's window. -/
def preambleCredit : Nat := connectionWindow - 65535

/-- The client sends no more on a stream than it has been given. -/
def WithinWindow (sid : Nat) : Event → List Event → Prop
  | .received f, past => f.type = .data ∧ f.streamId = sid →
      total (dataLength sid) past + f.payload.length ≤ initialStreamWindow + total (credit sid) past
  | _, _ => True

/-- A stream that is neither at its end, nor reset, nor rejected. -/
structure Live (x : StreamState) : Prop where
  ended : x.endStreamReceived = false
  reset : x.reset = false
  rejected : x.rejected = false

/-- A `tunnel_read` that returns credit gets all of it out. -/
def Whole (s : Session) : Action → Prop
  | .tunnelRead sid size => ∀ st ∈ s.object sid, st.tunnelIn ≠ [] →
      st.endStreamReceived = false → st.reset = false →
      initialStreamWindow / 4 ≤ st.recvUnacked + min size st.tunnelIn.length →
      s.dead = false ∧ st.recvUnacked + min size st.tunnelIn.length < 2 ^ 31
  | _ => True

instance Whole.decidable (s : Session) : (a : Action) → Decidable (Whole s a)
  | .tunnelRead sid size => inferInstanceAs (Decidable (∀ st ∈ s.object sid, st.tunnelIn ≠ [] →
      st.endStreamReceived = false → st.reset = false →
      initialStreamWindow / 4 ≤ st.recvUnacked + min size st.tunnelIn.length →
      s.dead = false ∧ st.recvUnacked + min size st.tunnelIn.length < 2 ^ 31))
  | .frame _ | .notAccepting | .idleTimeout | .drained | .readError | .shutdown | .markDead
  | .clear | .written _ | .startSend _ _ | .tunnelWrite _ _ | .resume _ | .timeout _
  | .startTunnel _ | .endResponse _ | .shutdownSend _ | .tunnelCancel _ | .tunnelClose _
  | .finishTask _ => .isTrue trivial

/-! ## Increments on the wire -/

variable {A R S exact : Prop} {due due' : Nat → Nat} {cap sid k n : Nat} {s s' t : Session}
  {st x y : StreamState} {f : Frame} {log new past : List Event}

theorem readU32_u32 (m : Nat) : readU32 (u32 m) = m % 2 ^ 32 := by
  have hlow : (byteAt m 2).toNat <<< 16 ||| ((byteAt m 1).toNat <<< 8 ||| (byteAt m 0).toNat) =
      m % 2 ^ 24 := by
    rw [← Nat.or_assoc]
    exact read_u24 m
  rw [u32, readU32, Nat.or_assoc, Nat.or_assoc, hlow, shift_or (Nat.mod_lt _ (by decide)),
    byteAt_toNat]
  omega

/-- An increment has 31 bits. -/
theorem increment_windowUpdateFrame (sid n : Nat) :
    increment sid (windowUpdateFrame sid n) = n % 2 ^ 31 := by
  have hmask : ∀ m : Nat, m &&& 0x7fffffff = m % 2 ^ 31 := fun m =>
    Nat.and_two_pow_sub_one_eq_mod m 31
  rw [increment, if_pos ⟨rfl, rfl, rfl⟩]
  show readU32 (u32 (n &&& 0x7fffffff)) &&& 0x7fffffff = _
  rw [readU32_u32, hmask, hmask]
  omega

theorem increment_other (h : k ≠ sid) : increment sid (windowUpdateFrame k n) = 0 :=
  if_neg fun hw => h hw.2.1

/-! ## Accounts -/

/-- Where the length of the DATA of a stream is: in the credit sent, in `recv_unacked`, in
    `tunnel_in`, or still due to be entered.  Nothing is entered twice; in an exact account
    nothing is lost. -/
structure Tally (exact : Prop) (due : Nat) (x : StreamState) (log : List Event) : Prop where
  within : total (credit x.id) log + x.recvUnacked + x.tunnelIn.length + due ≤
    total (dataLength x.id) log
  whole : exact → total (dataLength x.id) log ≤
    total (credit x.id) log + x.recvUnacked + x.tunnelIn.length + due

/-- The accounts of a session; `due 0` is due to the connection.  A stream without a task
    has its credit sent before half its window has come together. -/
structure Accounts (exact : Prop) (due : Nat → Nat) (s : Session) : Prop where
  conn : Erred s ∨
    total (credit 0) s.log + s.connRecvUnacked + due 0 = preambleCredit + total dataTotal s.log
  pending : s.connRecvUnacked < connectionWindow / 2
  stream : ∀ x ∈ s.streams, Live x → Tally exact (due x.id) x s.log
  waiting : ∀ x ∈ s.streams, x.dispatched = false → x.recvUnacked < initialStreamWindow / 2
  positive : ∀ x ∈ s.streams, x.id ≠ 0
  credited : ∀ sid, s.lastPeerStreamId < sid → total (credit sid) s.log = 0
  fresh : ∀ sid, s.lastPeerStreamId < sid → Erred s ∨ total (dataLength sid) s.log = due sid

theorem silent_counts {e : Event} (h : silent e = true) :
    dataTotal e = 0 ∧ (∀ sid, dataLength sid e = 0) ∧ ∀ sid, credit sid e = 0 := by
  cases e with
  | received f =>
    have htype : f.type ≠ .data := bne_iff_ne.mp h
    exact ⟨if_neg htype, fun _ => if_neg fun hf => htype hf.1, fun _ => rfl⟩
  | enqueued f =>
    have htype : f.type ≠ .windowUpdate := bne_iff_ne.mp h
    exact ⟨rfl, fun _ => rfl, fun _ => if_neg fun hf => htype hf.1⟩
  | _ => exact ⟨rfl, fun _ => rfl, fun _ => rfl⟩

/-- What the accounts are drawn from is the same. -/
structure SameCounts (log log' : List Event) : Prop where
  all : total dataTotal log' = total dataTotal log
  data : ∀ sid, total (dataLength sid) log' = total (dataLength sid) log
  credit : ∀ sid, total (credit sid) log' = total (credit sid) log

theorem SameCounts.append (h : ∀ e ∈ new, silent e = true) : SameCounts past (new ++ past) where
  all := total_append_of_zero fun e he => (silent_counts (h e he)).1
  data sid := total_append_of_zero fun e he => (silent_counts (h e he)).2.1 sid
  credit sid := total_append_of_zero fun e he => (silent_counts (h e he)).2.2 sid

theorem Tally.same {due : Nat} (h : Tally exact due x past) (hcounts : SameCounts past log)
    (hid : y.id = x.id) (hunacked : y.recvUnacked = x.recvUnacked)
    (hin : y.tunnelIn = x.tunnelIn) : Tally exact due y log := by
  obtain ⟨hwithin, hwhole⟩ := h
  constructor
  · rw [hid, hunacked, hin, hcounts.credit, hcounts.data]
    exact hwithin
  · rw [hid, hunacked, hin, hcounts.credit, hcounts.data]
    exact hwhole

theorem Live.before {d : Bool} (h : Live y) (hstill : Still R S d x y) : Live x := by
  constructor
  · cases hended : x.endStreamReceived with
    | false => rfl
    | true => exact absurd ((hstill.ended hended).symm.trans h.ended) Bool.false_ne_true.symm
  · cases hreset : x.reset with
    | false => rfl
    | true => exact absurd ((hstill.reset hreset).symm.trans h.reset) Bool.false_ne_true.symm
  · cases hrejected : x.rejected with
    | false => rfl
    | true =>
      exact absurd ((hstill.rejected hrejected).symm.trans h.rejected) Bool.false_ne_true.symm

/-- What leaves the receive windows alone keeps the accounts. -/
theorem Accounts.steady (h : Accounts exact due s) (hs : Steady A True S s s') :
    Accounts exact due s' := by
  obtain ⟨new, hnew, hsilent⟩ := hs.log
  obtain ⟨g, hg, hstill⟩ := hs.streams
  have hcounts : SameCounts s.log s'.log := hnew ▸ .append (hsilent trivial)
  have hmem : ∀ y ∈ s'.streams, ∃ x ∈ s.streams, Still True S s'.dead x y := by
    intro y hy
    rw [hg] at hy
    obtain ⟨x, hx, rfl⟩ := mem_map.mp hy
    exact ⟨x, hx, hstill x hx⟩
  constructor
  · rw [hs.unacked trivial, hcounts.credit, hcounts.all]
    exact h.conn.imp_left hs.erred
  · rw [hs.unacked trivial]
    exact h.pending
  · intro y hy hlive
    obtain ⟨x, hx, hxy⟩ := hmem y hy
    rw [hxy.id]
    exact (h.stream x hx (hlive.before hxy)).same hcounts hxy.id (hxy.unacked trivial)
      (hxy.input trivial)
  · intro y hy hidle
    obtain ⟨x, hx, hxy⟩ := hmem y hy
    rw [hxy.unacked trivial]
    refine h.waiting x hx ?_
    cases htask : x.dispatched with
    | false => rfl
    | true => exact absurd ((hxy.kept htask).symm.trans hidle) Bool.false_ne_true.symm
  · intro y hy
    obtain ⟨x, hx, hxy⟩ := hmem y hy
    rw [hxy.id]
    exact h.positive x hx
  · rw [hs.last]
    intro k hk
    rw [hcounts.credit]
    exact h.credited k hk
  · rw [hs.last]
    intro k hk
    rw [hcounts.data]
    exact (h.fresh k hk).imp_left hs.erred

/-- A new stream has no account yet. -/
theorem Accounts.openStream (h : Accounts exact (fun _ => 0) s) (herr : ¬ Erred s)
    (hnew : s.lastPeerStreamId < sid) (w : Int) :
    Accounts exact (fun _ => 0) (openStream s { id := sid, sendWindow := w }) := by
  have hquiet : ∀ e ∈ [Event.opened sid], silent e = true := by
    intro e he
    rw [mem_singleton.mp he]
    rfl
  have hcounts : SameCounts s.log (Event.opened sid :: s.log) := .append hquiet
  constructor
  · refine h.conn.imp (fun herred => absurd herred herr) fun hconn => ?_
    show total (credit 0) (.opened sid :: s.log) + _ + 0 = _ + total dataTotal (.opened sid :: s.log)
    rw [hcounts.credit, hcounts.all]
    exact hconn
  · exact h.pending
  · intro x hx hlive
    rcases mem_append.mp hx with hold | hnewest
    · exact (h.stream x hold hlive).same hcounts rfl rfl rfl
    · rw [mem_singleton.mp hnewest]
      have hcredit : total (credit sid) (.opened sid :: s.log) = 0 :=
        (hcounts.credit sid).trans (h.credited sid hnew)
      have hdata : total (dataLength sid) (.opened sid :: s.log) = 0 :=
        (hcounts.data sid).trans ((h.fresh sid hnew).resolve_left herr)
      constructor
      · show total (credit sid) (.opened sid :: s.log) + 0 + 0 + 0 ≤ _
        rw [hcredit]
        exact Nat.zero_le _
      · intro _
        show total (dataLength sid) (.opened sid :: s.log) ≤ _
        rw [hdata]
        exact Nat.zero_le _
  · intro x hx hidle
    rcases mem_append.mp hx with hold | hnewest
    · exact h.waiting x hold hidle
    · rw [mem_singleton.mp hnewest]
      exact (by decide : 0 < initialStreamWindow / 2)
  · intro x hx
    rcases mem_append.mp hx with hold | hnewest
    · exact h.positive x hold
    · rw [mem_singleton.mp hnewest]
      exact Nat.ne_of_gt (Nat.lt_of_le_of_lt (Nat.zero_le _) hnew)
  · intro k hk
    show total (credit k) (.opened sid :: s.log) = 0
    rw [hcounts.credit]
    exact h.credited k (Nat.lt_trans hnew hk)
  · intro k hk
    refine .inr ?_
    show total (dataLength k) (.opened sid :: s.log) = 0
    rw [hcounts.data]
    exact (h.fresh k (Nat.lt_trans hnew hk)).resolve_left herr

theorem Accounts.move (h : Accounts exact (fun _ => 0) s) (hsane : Sane s)
    (hmove : Move A True S s s') : Accounts exact (fun _ => 0) s' := by
  rcases hmove with hsteady | ⟨s1, hbefore, hrun, sid, hnew, hafter⟩
  · exact h.steady hsteady
  · have herr : ¬ Erred s1 := fun herred =>
      absurd (((hsane.steady hbefore).halts herred).1.symm.trans hrun) Bool.false_ne_true.symm
    exact ((h.steady hbefore).openStream herr hnew _).steady hafter

/-! ## A DATA frame -/

/-- What a DATA frame leaves due to its stream and, as 0, to the connection. -/
def owed (f : Frame) (sid : Nat) : Nat :=
  if sid = 0 ∨ sid = f.streamId then f.payload.length else 0

/-- What is left when the connection has its credit. -/
def owedStream (f : Frame) (sid : Nat) : Nat := if sid = 0 then 0 else owed f sid

theorem owedStream_self (h : f.streamId ≠ 0) : owedStream f f.streamId = f.payload.length := by
  rw [owedStream, if_neg h, owed, if_pos (.inr rfl)]

theorem owedStream_other (h : sid ≠ f.streamId) : owedStream f sid = 0 := by
  rw [owedStream]
  split
  · rfl
  · rename_i hsid
    exact if_neg (not_or.mpr ⟨hsid, h⟩)

/-- A DATA frame is taken up. -/
theorem Accounts.receive (h : Accounts exact (fun _ => 0) s) (htype : f.type = .data) :
    Accounts exact (owed f) (s.record (.received f)) := by
  have hdata : ∀ k, total (dataLength k) (s.record (.received f)).log =
      total (dataLength k) s.log + if k = f.streamId then f.payload.length else 0 := by
    intro k
    show total (dataLength k) s.log + (if f.type = .data ∧ f.streamId = k then _ else 0) = _
    by_cases hk : k = f.streamId
    · rw [if_pos ⟨htype, hk.symm⟩, if_pos hk]
    · rw [if_neg fun hf => hk hf.2.symm, if_neg hk]
  have hall : total dataTotal (s.record (.received f)).log =
      total dataTotal s.log + f.payload.length := by
    show total dataTotal s.log + (if f.type = .data then _ else 0) = _
    rw [if_pos htype]
  have howed : ∀ k, k ≠ 0 → owed f k = if k = f.streamId then f.payload.length else 0 := by
    intro k hk
    rw [owed]
    simp only [hk, false_or]
  constructor
  · refine h.conn.imp (fun ⟨err, herr⟩ => ⟨err, mem_cons_of_mem _ herr⟩) fun hconn => ?_
    have howed0 : owed f 0 = f.payload.length := if_pos (.inl rfl)
    have hcredit : total (credit 0) (s.record (.received f)).log = total (credit 0) s.log := rfl
    have hunacked : (s.record (.received f)).connRecvUnacked = s.connRecvUnacked := rfl
    omega
  · exact h.pending
  · intro x hx hlive
    obtain ⟨hwithin, hwhole⟩ := h.stream x hx hlive
    have hcredit : total (credit x.id) (s.record (.received f)).log =
        total (credit x.id) s.log := rfl
    constructor
    · rw [hdata, hcredit, howed x.id (h.positive x hx)]
      omega
    · intro hexact
      have hbefore := hwhole hexact
      rw [hdata, hcredit, howed x.id (h.positive x hx)]
      omega
  · exact h.waiting
  · exact h.positive
  · exact h.credited
  · intro k hk
    have hlt : s.lastPeerStreamId < k := hk
    refine (h.fresh k hk).imp (fun ⟨err, herr⟩ => ⟨err, mem_cons_of_mem _ herr⟩) fun hzero => ?_
    rw [hdata, hzero, howed k (Nat.ne_of_gt (Nat.lt_of_le_of_lt (Nat.zero_le _) hlt)), Nat.zero_add]

/-- What a WINDOW_UPDATE frame adds to the credit sent on a connection that is alive. -/
theorem enqueue_credit (hdead : s.dead = false) (sid n k : Nat) :
    total (credit k) (s.enqueue (windowUpdateFrame sid n)).log =
      total (credit k) s.log + if sid = k then n % 2 ^ 31 else 0 := by
  rw [Session.enqueue, if_neg (Bool.eq_false_iff.mp hdead)]
  show total (credit k) s.log + increment k (windowUpdateFrame sid n) = _
  by_cases hk : sid = k
  · rw [if_pos hk, hk, increment_windowUpdateFrame]
  · rw [if_neg hk, increment_other hk]

/-- A frame that goes out is none that came in. -/
theorem enqueue_counts (f : Frame) (k : Nat) :
    total (dataLength k) (s.enqueue f).log = total (dataLength k) s.log ∧
      total dataTotal (s.enqueue f).log = total dataTotal s.log := by
  rw [Session.enqueue]
  split
  · exact ⟨rfl, rfl⟩
  · exact ⟨rfl, rfl⟩

theorem enqueue_fields (f : Frame) : (s.enqueue f).streams = s.streams ∧
    (s.enqueue f).connRecvUnacked = s.connRecvUnacked ∧
    (s.enqueue f).lastPeerStreamId = s.lastPeerStreamId ∧ (s.enqueue f).dead = s.dead := by
  rw [Session.enqueue]
  split
  · exact ⟨rfl, rfl, rfl, rfl⟩
  · exact ⟨rfl, rfl, rfl, rfl⟩

/-- The connection gets its credit. -/
theorem Accounts.creditConnection (h : Accounts exact (owed f) s) (hdead : s.dead = false)
    (hsize : f.payload.length ≤ maxFrameSize) :
    Accounts exact (owedStream f) (creditConnection s f.payload.length) := by
  have hsteady : Steady True False True s (Http2Session.creditConnection s f.payload.length) :=
    .creditConnection _
  have hbound : s.connRecvUnacked + f.payload.length < 2 ^ 31 := by
    have hpending := h.pending
    have hsum : connectionWindow / 2 + maxFrameSize < 2 ^ 31 := by decide
    omega
  have howed0 : owed f 0 = f.payload.length := if_pos (.inl rfl)
  have hdue : ∀ k, k ≠ 0 → owedStream f k = owed f k := fun k hk => if_neg hk
  obtain ⟨hstreams, hdata, hall, hcredit, hconn, hpending, hlast⟩ :
      (Http2Session.creditConnection s f.payload.length).streams = s.streams ∧
      (∀ k, total (dataLength k) (Http2Session.creditConnection s f.payload.length).log =
        total (dataLength k) s.log) ∧
      total dataTotal (Http2Session.creditConnection s f.payload.length).log =
        total dataTotal s.log ∧
      (∀ k, k ≠ 0 → total (credit k) (Http2Session.creditConnection s f.payload.length).log =
        total (credit k) s.log) ∧
      total (credit 0) (Http2Session.creditConnection s f.payload.length).log +
        (Http2Session.creditConnection s f.payload.length).connRecvUnacked =
        total (credit 0) s.log + s.connRecvUnacked + f.payload.length ∧
      (Http2Session.creditConnection s f.payload.length).connRecvUnacked < connectionWindow / 2 ∧
      (Http2Session.creditConnection s f.payload.length).lastPeerStreamId = s.lastPeerStreamId := by
    rw [Http2Session.creditConnection]
    split
    · obtain ⟨hstreams, hunacked, hlast, -⟩ := enqueue_fields (s := { s with connRecvUnacked := 0 })
        (windowUpdateFrame 0 (s.connRecvUnacked + f.payload.length))
      have hcounts := fun k => enqueue_counts (s := { s with connRecvUnacked := 0 })
        (windowUpdateFrame 0 (s.connRecvUnacked + f.payload.length)) k
      have hsent := fun k => enqueue_credit (s := { s with connRecvUnacked := 0 }) hdead 0
        (s.connRecvUnacked + f.payload.length) k
      refine ⟨hstreams, fun k => (hcounts k).1, (hcounts 0).2, fun k hk => ?_, ?_, ?_, hlast⟩
      · rw [hsent, if_neg (Ne.symm hk), Nat.add_zero]
      · rw [hsent, if_pos rfl, hunacked, Nat.mod_eq_of_lt hbound]
        show total (credit 0) s.log + _ + 0 = _
        omega
      · rw [hunacked]
        exact (by decide : 0 < connectionWindow / 2)
    · rename_i hsmall
      exact ⟨rfl, fun _ => rfl, rfl, fun _ _ => rfl, (Nat.add_assoc _ _ _).symm,
        Nat.not_le.mp hsmall, rfl⟩
  constructor
  · refine h.conn.imp hsteady.erred fun hbefore => ?_
    show _ + _ + 0 = _
    omega
  · exact hpending
  · rw [hstreams]
    intro x hx hlive
    have hid := h.positive x hx
    obtain ⟨hwithin, hwhole⟩ := h.stream x hx hlive
    rw [hdue x.id hid]
    constructor
    · rw [hcredit x.id hid, hdata]
      exact hwithin
    · rw [hcredit x.id hid, hdata]
      exact hwhole
  · rw [hstreams]
    exact h.waiting
  · rw [hstreams]
    exact h.positive
  · rw [hlast]
    intro k hk
    rw [hcredit k (by omega)]
    exact h.credited k hk
  · rw [hlast]
    intro k hk
    rw [hdata, hdue k (by omega)]
    exact (h.fresh k hk).imp_left hsteady.erred

/-- Nothing is due to a stream that is not live. -/
theorem Accounts.settle (h : Accounts exact due s) (hconn : Erred s ∨ due 0 = 0)
    (hlive : ∀ x ∈ s.streams, Live x → due x.id = 0)
    (hfresh : Erred s ∨ ∀ sid, s.lastPeerStreamId < sid → due sid = 0) :
    Accounts exact (fun _ => 0) s := by
  refine ⟨?_, h.pending, fun x hx hx' => ?_, h.waiting, h.positive, h.credited, fun k hk => ?_⟩
  · rcases hconn with herred | hzero
    · exact .inl herred
    · have hbefore := h.conn
      rw [hzero] at hbefore
      exact hbefore
  · have hbefore := h.stream x hx hx'
    rw [hlive x hx hx'] at hbefore
    exact hbefore
  · rcases hfresh with herred | hzero
    · exact .inl herred
    · have hbefore := h.fresh k hk
      rw [hzero k hk] at hbefore
      exact hbefore

/-- After a connection error no stream is live. -/
theorem Accounts.connectionError (h : Accounts exact due s) (hsane : Sane s)
    (hdead : s.dead = false) (err : ErrorCode) :
    Accounts exact (fun _ => 0) (connectionError s err) := by
  have hs : Steady True True True s (Http2Session.connectionError s err) := .connectionError err
  have herred := connectionError_erred s err
  refine (h.steady hs).settle (.inl herred) (fun x hx hlive => ?_) (.inl herred)
  have halive : (Http2Session.connectionError s err).dead = false := by
    rw [connectionError_eq, sendGoaway]
    split
    · exact hdead
    · exact (enqueue_fields _).2.2.2.trans hdead
  exfalso
  cases hheld : x.held with
  | true =>
    have hreset := ((hsane.steady hs).halts herred).2 x hx hheld
    exact absurd (hreset.symm.trans hlive.reset) Bool.false_ne_true.symm
  | false =>
    rcases (hsane.steady hs).released x hx hheld with hreset | hended | hgone
    · exact absurd (hreset.symm.trans hlive.reset) Bool.false_ne_true.symm
    · exact absurd (hended.symm.trans hlive.ended) Bool.false_ne_true.symm
    · exact absurd (hgone.symm.trans halive) Bool.false_ne_true.symm

/-- A change of the object of one stream, with credit for it that goes out or not. -/
structure Enters (sid : Nat) (g : StreamState → StreamState) (s s' : Session) : Prop where
  streams : s'.streams = (s.modify sid g).streams
  unacked : s'.connRecvUnacked = s.connRecvUnacked
  last : s'.lastPeerStreamId = s.lastPeerStreamId
  erred : Erred s → Erred s'
  all : total dataTotal s'.log = total dataTotal s.log
  data : ∀ k, total (dataLength k) s'.log = total (dataLength k) s.log
  others : ∀ k, k ≠ sid → total (credit k) s'.log = total (credit k) s.log

variable {g : StreamState → StreamState}

theorem Enters.modify : Enters sid g s (s.modify sid g) :=
  ⟨rfl, rfl, rfl, fun h => h, rfl, fun _ => rfl, fun _ _ => rfl⟩

theorem Enters.enqueue (n : Nat) :
    Enters sid g s ((s.enqueue (windowUpdateFrame sid n)).modify sid g) := by
  obtain ⟨hstreams, hunacked, hlast, -⟩ := enqueue_fields (s := s) (windowUpdateFrame sid n)
  have hcounts := fun k => enqueue_counts (s := s) (windowUpdateFrame sid n) k
  refine ⟨congrArg (List.map _) hstreams, hunacked, hlast, fun ⟨err, herr⟩ => ⟨err, ?_⟩,
    (hcounts 0).2, fun k => (hcounts k).1, fun k hk => ?_⟩
  · show _ ∈ (s.enqueue _).log
    rw [Session.enqueue]
    split
    · exact herr
    · exact mem_cons_of_mem _ herr
  · show total (credit k) (s.enqueue _).log = _
    cases hdead : s.dead with
    | true => rw [Session.enqueue, if_pos hdead]
    | false => rw [enqueue_credit hdead, if_neg (Ne.symm hk), Nat.add_zero]

/-- The account of one stream is drawn up anew, the others stay. -/
theorem Accounts.enter (h : Accounts exact due s) (he : Enters sid g s s')
    (hg : ∀ x, (g x).id = x.id) (hdue : ∀ k, k ≠ sid → due' k = due k) (hmem : st ∈ s.streams)
    (hst : ∀ x ∈ s.streams, x.id = sid → x = st) (hid : st.id = sid)
    (hknown : sid ≤ s.lastPeerStreamId) (htally : Live (g st) → Tally exact (due' sid) (g st) s'.log)
    (hidle : (g st).dispatched = false → (g st).recvUnacked < initialStreamWindow / 2) :
    Accounts exact due' s' := by
  have hzero : sid ≠ 0 := hid ▸ h.positive st hmem
  have hsplit : ∀ y ∈ s'.streams, y = g st ∨ (y ∈ s.streams ∧ y.id ≠ sid) := by
    rw [he.streams]
    intro y hy
    obtain ⟨x, hx, rfl⟩ := mem_map.mp hy
    split
    · rename_i hxid
      exact .inl (congrArg g (hst x hx hxid))
    · rename_i hxid
      exact .inr ⟨hx, hxid⟩
  have hgid : (g st).id = sid := (hg st).trans hid
  constructor
  · rw [he.unacked, he.all, he.others 0 (Ne.symm hzero), hdue 0 (Ne.symm hzero)]
    exact h.conn.imp_left he.erred
  · rw [he.unacked]
    exact h.pending
  · intro y hy hlive
    rcases hsplit y hy with rfl | ⟨hx, hne⟩
    · rw [hgid]
      exact htally hlive
    · obtain ⟨hwithin, hwhole⟩ := h.stream y hx hlive
      rw [hdue y.id hne]
      constructor
      · rw [he.others y.id hne, he.data]
        exact hwithin
      · rw [he.others y.id hne, he.data]
        exact hwhole
  · intro y hy hnone
    rcases hsplit y hy with rfl | ⟨hx, -⟩
    · exact hidle hnone
    · exact h.waiting y hx hnone
  · intro y hy
    rcases hsplit y hy with rfl | ⟨hx, -⟩
    · rw [hgid]
      exact hzero
    · exact h.positive y hx
  · rw [he.last]
    intro k hk
    rw [he.others k (Nat.ne_of_gt (Nat.lt_of_le_of_lt hknown hk))]
    exact h.credited k hk
  · rw [he.last]
    intro k hk
    rw [he.data, hdue k (Nat.ne_of_gt (Nat.lt_of_le_of_lt hknown hk))]
    exact (h.fresh k hk).imp_left he.erred

/-! ## Tunnels -/

theorem dataPayload_length {data : Bytes} (h : dataPayload f = some data) :
    data.length ≤ f.payload.length := by
  rw [dataPayload] at h
  obtain ⟨⟨pad, start⟩, -, h⟩ := Option.bind_eq_some_iff.mp h
  obtain ⟨-, h⟩ := Option.ite_none_left_eq_some.mp h
  rw [← Option.some.inj h, length_take, length_drop]
  omega

/-- Nothing but the stream of a frame is owed anything. -/
theorem owed_settled (h : Accounts exact due s) (hdue : ∀ k, k ≠ sid → due k = 0) (hzero : sid ≠ 0)
    (hknown : sid ≤ s.lastPeerStreamId) (hdead : ∀ x ∈ s.streams, x.id = sid → ¬ Live x) :
    Accounts exact (fun _ => 0) s := by
  refine h.settle (.inr (hdue 0 (Ne.symm hzero))) (fun x hx hlive => ?_) (.inr fun k hk => ?_)
  · exact hdue x.id fun hid => hdead x hx hid hlive
  · exact hdue k (Nat.ne_of_gt (Nat.lt_of_le_of_lt hknown hk))

/-- Tunnel data are kept and the padding is consumed, or the stream is reset. -/
theorem takeTunnel_accounts {data : Bytes} (h : Accounts exact (owedStream f) s)
    (hsound : Sound (tableOf s)) (hmem : st ∈ s.streams) (hid : st.id = f.streamId)
    (hlive : Live st) (hdata : dataPayload f = some data)
    (htunnel : (st.tunnel || st.dispatched) = true) (htask : st.dispatched = true) :
    Accounts exact (fun _ => 0) (takeData cap s st f data) := by
  have hlength := dataPayload_length hdata
  have hst : ∀ x ∈ s.streams, x.id = st.id → x = st :=
    fun x hx hxid => hsound.unique_stream hx hmem hxid
  have hzero : st.id ≠ 0 := h.positive st hmem
  have hknown := hsound.known_stream hmem
  have hself : owedStream f st.id = f.payload.length := by
    rw [hid] at hzero ⊢
    exact owedStream_self hzero
  obtain ⟨hwithin, hwhole⟩ := h.stream st hmem hlive
  rw [hself] at hwithin hwhole
  have hboth : (st.tunnelIn ++ data).length = st.tunnelIn.length + data.length := length_append
  -- the data are entered, the padding is still due
  have hin : Accounts exact (fun k => if k = st.id then f.payload.length - data.length else 0)
      (s.modify st.id fun x => { x with tunnelIn := st.tunnelIn ++ data }) := by
    refine h.enter .modify (fun _ => rfl) (fun k hk => ?_) hmem hst rfl hknown (fun _ => ?_)
      fun hnone => absurd (htask.symm.trans hnone) Bool.false_ne_true.symm
    · rw [if_neg hk]
      exact (owedStream_other (hid ▸ hk)).symm
    · rw [if_pos rfl]
      constructor
      · show total (credit st.id) s.log + st.recvUnacked + (st.tunnelIn ++ data).length + _ ≤
          total (dataLength st.id) s.log
        omega
      · intro hexact
        have hbefore := hwhole hexact
        show total (dataLength st.id) s.log ≤
          total (credit st.id) s.log + st.recvUnacked + (st.tunnelIn ++ data).length + _
        omega
  rw [Http2Session.takeData, if_pos htunnel]
  dsimp only
  split
  · -- the tunnel keeps too much, and is reset
    have hs : Steady False True True (s.modify st.id fun x => { x with
        tunnelIn := st.tunnelIn ++ data }) (resetStream (s.modify st.id fun x => { x with
        tunnelIn := st.tunnelIn ++ data }) st .flowControlError) := .resetStream False.elim
    refine owed_settled (hin.steady hs) (fun k hk => if_neg hk) hzero ?_ fun x hx hxid hx' => ?_
    · rw [hs.last]
      exact hknown
    · exact absurd ((resetStream_reset _ x hx hxid).symm.trans hx'.reset) Bool.false_ne_true.symm
  · have hpad : Accounts exact (fun _ => 0) ((s.modify st.id fun x => { x with
        tunnelIn := st.tunnelIn ++ data }).modify st.id fun x => { x with
        recvUnacked := x.recvUnacked + (f.payload.length - data.length) }) := by
      rw [modify_modify]
      · refine h.enter .modify (fun _ => rfl) (fun k hk => ?_) hmem hst rfl hknown (fun _ => ?_)
          fun hnone => absurd (htask.symm.trans hnone) Bool.false_ne_true.symm
        · exact (owedStream_other (hid ▸ hk)).symm
        · constructor
          · show total (credit st.id) s.log + (st.recvUnacked + (f.payload.length - data.length)) +
              (st.tunnelIn ++ data).length + 0 ≤ total (dataLength st.id) s.log
            omega
          · intro hexact
            have hbefore := hwhole hexact
            show total (dataLength st.id) s.log ≤ total (credit st.id) s.log +
              (st.recvUnacked + (f.payload.length - data.length)) + (st.tunnelIn ++ data).length + 0
            omega
      · exact fun _ => rfl
    exact hpad.steady (A := True) (S := True) .endData

/-! ## Bodies -/

/-- `credit_stream` returns the length of a frame, at once or with a later one. -/
theorem creditStream_accounts (h : Accounts exact (owedStream f) s) (hmem : x ∈ s.streams)
    (hst : ∀ y ∈ s.streams, y.id = x.id → y = x) (hknown : x.id ≤ s.lastPeerStreamId)
    (hid : x.id = f.streamId) (hlive : Live x) (hidle : x.dispatched = false)
    (hsame : st.id = x.id ∧ st.recvUnacked = x.recvUnacked ∧
      st.endStreamReceived = false ∧ st.reset = false)
    (hdead : s.dead = false) (hsize : f.payload.length ≤ maxFrameSize) :
    Accounts exact (fun _ => 0) (creditStream s st f.payload.length) := by
  obtain ⟨hstid, hunacked, hended, hreset⟩ := hsame
  have hzero : x.id ≠ 0 := h.positive x hmem
  have hself : owedStream f x.id = f.payload.length := by
    rw [hid] at hzero ⊢
    exact owedStream_self hzero
  have hother : ∀ k, k ≠ x.id → (fun _ => 0 : Nat → Nat) k = owedStream f k :=
    fun k hk => (owedStream_other (hid ▸ hk)).symm
  have hwaiting := h.waiting x hmem hidle
  have hbound : x.recvUnacked + f.payload.length < 2 ^ 31 := by
    have hsum : initialStreamWindow / 2 + maxFrameSize < 2 ^ 31 := by decide
    omega
  obtain ⟨hwithin, hwhole⟩ := h.stream x hmem hlive
  rw [hself] at hwithin hwhole
  rw [creditStream, hstid, hunacked, hended, hreset]
  split
  · rw [modify_enqueue]
    have hsent : total (credit x.id) ((s.enqueue (windowUpdateFrame x.id
        (x.recvUnacked + f.payload.length))).modify x.id
          fun x => { x with recvUnacked := 0 }).log =
        total (credit x.id) s.log + (x.recvUnacked + f.payload.length) := by
      show total (credit x.id) (s.enqueue _).log = _
      rw [enqueue_credit hdead, if_pos rfl, Nat.mod_eq_of_lt hbound]
    have henter : Enters x.id (fun x => { x with recvUnacked := 0 }) s
        ((s.enqueue (windowUpdateFrame x.id (x.recvUnacked + f.payload.length))).modify x.id
          fun x => { x with recvUnacked := 0 }) := .enqueue _
    have hcounts := henter.data x.id
    refine h.enter (.enqueue _) (fun _ => rfl) hother hmem hst rfl hknown (fun _ => ?_)
      fun _ => (by decide : 0 < initialStreamWindow / 2)
    constructor
    · show total (credit x.id) _ + 0 + x.tunnelIn.length + 0 ≤ total (dataLength x.id) _
      rw [hsent, hcounts]
      omega
    · intro hexact
      have hbefore := hwhole hexact
      show total (dataLength x.id) _ ≤ total (credit x.id) _ + 0 + x.tunnelIn.length + 0
      rw [hsent, hcounts]
      omega
  · rename_i hsmall
    have hless : x.recvUnacked + f.payload.length < initialStreamWindow / 2 := by
      simp only [Bool.not_false, Bool.true_and, decide_eq_true_eq, ge_iff_le, Nat.not_le] at hsmall
      exact hsmall
    refine h.enter .modify (fun _ => rfl) hother hmem hst rfl hknown (fun _ => ?_) fun _ => hless
    constructor
    · show total (credit x.id) s.log + (x.recvUnacked + f.payload.length) + x.tunnelIn.length + 0 ≤
        total (dataLength x.id) s.log
      omega
    · intro hexact
      have hbefore := hwhole hexact
      show total (dataLength x.id) s.log ≤
        total (credit x.id) s.log + (x.recvUnacked + f.payload.length) + x.tunnelIn.length + 0
      omega

theorem takeBody_accounts {data : Bytes} (h : Accounts exact (owedStream f) s)
    (hsound : Sound (tableOf s)) (hmem : st ∈ s.streams) (hid : st.id = f.streamId)
    (hlive : Live st) (hplain : (st.tunnel || st.dispatched) = false) (hdead : s.dead = false)
    (hsize : f.payload.length ≤ maxFrameSize) :
    Accounts exact (fun _ => 0) (takeData cap s st f data) := by
  have hst : ∀ x ∈ s.streams, x.id = st.id → x = st :=
    fun x hx hxid => hsound.unique_stream hx hmem hxid
  have hidle : st.dispatched = false := (Bool.or_eq_false_iff.mp hplain).2
  have hknown : st.id ≤ s.lastPeerStreamId := hsound.known_stream hmem
  have hbody : Steady True True True s (s.modify st.id fun x => { x with body := st.body ++ data }) :=
    .modify_same st.id fun x => ⟨.same rfl rfl rfl rfl ⟨rfl, rfl, rfl, rfl⟩ ⟨rfl, rfl, rfl⟩, rfl⟩
  have hcredit : Accounts exact (fun _ => 0)
      (creditStream (s.modify st.id fun x => { x with body := st.body ++ data }) st
        f.payload.length) := by
    refine creditStream_accounts (x := { st with body := st.body ++ data }) (h.steady hbody) ?_ ?_
      hknown hid ⟨hlive.ended, hlive.reset, hlive.rejected⟩ hidle
      ⟨rfl, rfl, hlive.ended, hlive.reset⟩ hdead hsize
    · exact mem_map.mpr ⟨st, hmem, if_pos rfl⟩
    · refine modified_all fun x hx hxid => ?_
      rw [hst x hx hxid]
  have hreject : ∀ t : Session, Steady True True True t (t.modify st.id fun x =>
      { x with rejected := true }) := by
    refine fun t => .modify fun x _ _ => ⟨?_, .inl⟩
    exact { Still.refl t.dead x with
      rejected := fun _ => rfl
      apt := fun h => ⟨h.list, fun htask => (h.early htask).imp_right fun _ => .inl rfl,
        h.tunnel, h.fed⟩ }
  rw [Http2Session.takeData, if_neg (Bool.eq_false_iff.mp hplain)]
  dsimp only
  split
  · exact hcredit.steady ((hreject _).trans .answerError)
  · exact hcredit.steady (A := True) (S := True) .endData

/-! ## Steps -/

/-- Effects keep the table of streams sound. -/
theorem sound_after (h : Sound (tableOf s)) (hrun : Effects anyKind s s') : Sound (tableOf s') := by
  induction hrun with
  | refl => exact h
  | tail _ heffect ih => exact effect_sound heffect ih

/-- `on_data` of a frame that has been taken up keeps the accounts. -/
theorem onData_accounts (h : Accounts exact (owed f) s) (hsane : Sane s)
    (hsound : Sound (tableOf s)) (hdead : s.dead = false) (hsize : f.payload.length ≤ maxFrameSize) :
    Accounts exact (fun _ => 0) (onData cap s f) := by
  rw [onData]
  split
  · exact h.connectionError hsane hdead _
  · rename_i hzero
    split
    · exact h.connectionError hsane hdead _
    · rename_i data hdata
      -- the connection has its octets back before the stream is looked up
      have hs : Steady True False True s (creditConnection s f.payload.length) := .creditConnection _
      have hsane' : Sane (creditConnection s f.payload.length) := hsane.steady hs
      have hcredit : Accounts exact (owedStream f) (creditConnection s f.payload.length) :=
        h.creditConnection hdead hsize
      obtain ⟨hstreams, halive⟩ : (creditConnection s f.payload.length).streams = s.streams ∧
          (creditConnection s f.payload.length).dead = false := by
        rw [creditConnection]
        split
        · obtain ⟨hstreams, -, -, hsame⟩ := enqueue_fields (s := { s with connRecvUnacked := 0 })
            (windowUpdateFrame 0 (s.connRecvUnacked + f.payload.length))
          exact ⟨hstreams, hsame.trans hdead⟩
        · exact ⟨rfl, hdead⟩
      have hrun : Effects anyKind s (creditConnection s f.payload.length) :=
        creditConnection_effects _
      have hsound' : Sound (tableOf (creditConnection s f.payload.length)) := sound_after hsound hrun
      clear hrun
      have hnone : ∀ k, k ≠ f.streamId → owedStream f k = 0 := fun k hk => owedStream_other hk
      generalize creditConnection s f.payload.length = t at *
      dsimp only
      split
      · rename_i hfind
        split
        · exact hcredit.connectionError hsane' halive _
        · -- the stream is not in `streams_` any more
          rename_i hlast
          refine owed_settled hcredit hnone hzero (Nat.not_lt.mp hlast) fun x hx hid hlive => ?_
          cases hheld : x.held with
          | true =>
            have hnot := find?_eq_none.mp hfind x hx
            rw [hheld, Bool.and_true, beq_iff_eq] at hnot
            exact hnot hid
          | false =>
            rcases hsane'.released x hx hheld with hreset | hended | hgone
            · exact absurd (hreset.symm.trans hlive.reset) Bool.false_ne_true.symm
            · exact absurd (hended.symm.trans hlive.ended) Bool.false_ne_true.symm
            · exact absurd (hgone.symm.trans halive) Bool.false_ne_true.symm
      · rename_i st hfind
        obtain ⟨hmem, hid, -⟩ := find_some hfind
        split
        · exact hcredit.connectionError hsane' halive _
        · rename_i hopen
          rw [Bool.or_eq_true, not_or, Bool.not_eq_true] at hopen
          split
          -- a stream that was reset or refused has no accounts
          · rename_i hgone
            refine owed_settled hcredit hnone hzero (hid ▸ hsound'.known_stream hmem)
              fun x hx hxid hlive => ?_
            obtain rfl := hsound'.unique_stream hx hmem (hxid.trans hid.symm)
            rw [hlive.reset, hlive.rejected] at hgone
            exact Bool.false_ne_true hgone
          · rename_i hkept
            rw [Bool.or_eq_true, not_or, Bool.not_eq_true, Bool.not_eq_true] at hkept
            have hlive : Live st := ⟨Bool.eq_false_iff.mpr hopen.2, hkept.1, hkept.2⟩
            cases htunnel : (st.tunnel || st.dispatched) with
            | true =>
              have htask : st.dispatched = true :=
                (Bool.or_eq_true _ _ ▸ htunnel).elim (hsane'.apt st hmem).tunnel fun h => h
              exact takeTunnel_accounts hcredit hsound' hmem hid hlive hdata htunnel htask
            | false =>
              exact takeBody_accounts hcredit hsound' hmem hid hlive htunnel halive hsize

/-- What a DATA frame does once it has been taken up moves no send window. -/
theorem processData_steady (htype : f.type = .data) (hsound : Sound (tableOf s))
    (hroom : A → RoomInTunnel (s.record (.received f)) f) :
    Steady A False S (s.record (.received f)) (processFrame cap s f) := by
  have heffect : Effect anyKind s (s.record (.received f)) := .receive s f trivial
  have hsound' : Sound (tableOf (s.record (.received f))) := effect_sound heffect hsound
  rw [processFrame]
  split
  · exact .connectionError _
  · rw [handleFrame]
    split
    · exact .connectionError _
    · rw [htype]
      exact .onData hsound' hroom

/-- A DATA frame keeps the accounts. -/
theorem processData_accounts (h : Accounts exact (fun _ => 0) s) (hsane : Sane s)
    (hsound : Sound (tableOf s)) (hdead : s.dead = false) (htype : f.type = .data) :
    Accounts exact (fun _ => 0) (processFrame cap s f) := by
  have htaken : Accounts exact (owed f) (s.record (.received f)) := h.receive htype
  have hnote : Steady True False True s (s.record (.received f)) := by
    refine .record False.elim (fun _ heq => ?_) fun _ _ heq => ?_
    · cases heq
    · cases heq
  have hsane' : Sane (s.record (.received f)) := hsane.steady hnote
  have heffect : Effect anyKind s (s.record (.received f)) := .receive s f trivial
  have hsound' : Sound (tableOf (s.record (.received f))) := effect_sound heffect hsound
  rw [processFrame]
  split
  · exact htaken.connectionError hsane' hdead _
  · rename_i hsize
    rw [handleFrame]
    split
    · exact htaken.connectionError hsane' hdead _
    · rw [htype]
      exact onData_accounts htaken hsane' hsound' hdead (Nat.not_lt.mp hsize)

/-- `tunnel_read` moves what is read from `tunnel_in` to `recv_unacked`, and from there to
    the credit sent; all of it, when the guard is met. -/
theorem tunnelRead_accounts {size : Nat} (h : Accounts exact (fun _ => 0) s)
    (hsound : Sound (tableOf s)) (hmem : st ∈ s.streams) (htask : st.dispatched = true)
    (hwhole : exact → st.tunnelIn ≠ [] → st.endStreamReceived = false → st.reset = false →
      initialStreamWindow / 4 ≤ st.recvUnacked + min size st.tunnelIn.length →
      s.dead = false ∧ st.recvUnacked + min size st.tunnelIn.length < 2 ^ 31) :
    Accounts exact (fun _ => 0) (tunnelRead s st size) := by
  have hst : ∀ x ∈ s.streams, x.id = st.id → x = st :=
    fun x hx hxid => hsound.unique_stream hx hmem hxid
  have hknown : st.id ≤ s.lastPeerStreamId := hsound.known_stream hmem
  have hread : min size st.tunnelIn.length ≤ st.tunnelIn.length := Nat.min_le_right _ _
  have hleft : (st.tunnelIn.drop (min size st.tunnelIn.length)).length =
      st.tunnelIn.length - min size st.tunnelIn.length := length_drop
  rw [Http2Session.tunnelRead]
  split
  · rename_i hdata
    dsimp only
    generalize min size st.tunnelIn.length = n at *
    split
    · rename_i hcredit
      simp only [Bool.and_eq_true, Bool.not_eq_true', decide_eq_true_eq] at hcredit
      rw [modify_enqueue, modify_modify]
      swap
      · exact fun _ => rfl
      have hcounts : total (dataLength st.id) (s.enqueue (windowUpdateFrame st.id
          (st.recvUnacked + n))).log = total (dataLength st.id) s.log := (enqueue_counts _ _).1
      refine h.enter (.enqueue _) (fun _ => rfl) (fun _ _ => rfl) hmem hst rfl hknown
        (fun hlive => ?_) fun hnone => absurd (htask.symm.trans hnone) Bool.false_ne_true.symm
      obtain ⟨hwithin, hfull⟩ := h.stream st hmem ⟨hlive.ended, hlive.reset, hlive.rejected⟩
      constructor
      -- a dead session grants nothing, another one at most what was read
      · have hsent : total (credit st.id) (s.enqueue (windowUpdateFrame st.id
            (st.recvUnacked + n))).log ≤ total (credit st.id) s.log + (st.recvUnacked + n) := by
          cases hdead : s.dead with
          | true =>
            rw [Session.enqueue, if_pos hdead]
            exact Nat.le_add_right _ _
          | false =>
            rw [enqueue_credit hdead, if_pos rfl]
            exact Nat.add_le_add_left (Nat.mod_le _ _) _
        show total (credit st.id) (s.enqueue (windowUpdateFrame st.id (st.recvUnacked + n))).log +
          0 + (st.tunnelIn.drop n).length + 0 ≤ total (dataLength st.id) (s.enqueue _).log
        rw [hcounts]
        omega
      · intro hexact
        -- the increment is not cut to 31 bits
        obtain ⟨hdead, hbound⟩ := hwhole hexact hdata hcredit.1.1 hcredit.1.2 hcredit.2
        have hsent : total (credit st.id) (s.enqueue (windowUpdateFrame st.id
            (st.recvUnacked + n))).log = total (credit st.id) s.log + (st.recvUnacked + n) := by
          rw [enqueue_credit hdead, if_pos rfl, Nat.mod_eq_of_lt hbound]
        have hbefore := hfull hexact
        show total (dataLength st.id) (s.enqueue (windowUpdateFrame st.id
          (st.recvUnacked + n))).log ≤ total (credit st.id) (s.enqueue _).log + 0 +
            (st.tunnelIn.drop n).length + 0
        rw [hcounts, hsent]
        omega
    · rw [modify_modify]
      swap
      · exact fun _ => rfl
      refine h.enter .modify (fun _ => rfl) (fun _ _ => rfl) hmem hst rfl hknown
        (fun hlive => ?_) fun hnone => absurd (htask.symm.trans hnone) Bool.false_ne_true.symm
      obtain ⟨hwithin, hfull⟩ := h.stream st hmem ⟨hlive.ended, hlive.reset, hlive.rejected⟩
      constructor
      · show total (credit st.id) s.log + (st.recvUnacked + n) + (st.tunnelIn.drop n).length + 0 ≤
          total (dataLength st.id) s.log
        omega
      · intro hexact
        have hbefore := hfull hexact
        show total (dataLength st.id) s.log ≤
          total (credit st.id) s.log + (st.recvUnacked + n) + (st.tunnelIn.drop n).length + 0
        omega
  · have hmark : ∀ g : StreamState → StreamState, (∀ x, Still True True s.dead x (g x) ∧
        (g x).headersDone = x.headersDone) → Steady True True True s (s.modify st.id g) :=
      fun _ hg => .modify_same st.id hg
    split
    · exact h.steady (hmark _ fun x =>
        ⟨.same rfl rfl rfl rfl ⟨rfl, rfl, rfl, rfl⟩ ⟨rfl, rfl, rfl⟩, rfl⟩)
    · split
      · exact h
      · exact h.steady (hmark _ fun x =>
          ⟨.same rfl rfl rfl rfl ⟨rfl, rfl, rfl, rfl⟩ ⟨rfl, rfl, rfl⟩, rfl⟩)

/-- A step keeps the accounts, and keeps them exact when it meets the guard. -/
theorem step_accounts {a : Action} (h : Accounts exact (fun _ => 0) s) (hsane : Sane s)
    (hsound : Sound (tableOf s)) (hwhole : exact → Whole s a) (hstep : step cap s a = some s') :
    Accounts exact (fun _ => 0) s' := by
  have hmove : ¬ MovesReceive a → Accounts exact (fun _ => 0) s' := fun hnot =>
    h.move hsane (step_move (A := False) (S := False) False.elim (fun _ => hnot) False.elim hsound
      hsane.trailing hstep)
  cases a with
  | frame f =>
    by_cases htype : f.type = .data
    · obtain ⟨hrun, hstep⟩ := Option.ite_none_left_eq_some.mp hstep
      obtain rfl := Option.some.inj hstep
      rw [Bool.or_eq_true, not_or, Bool.not_eq_true, Bool.not_eq_true] at hrun
      exact processData_accounts h hsane hsound hrun.2 htype
    · exact hmove htype
  | tunnelRead sid size =>
    obtain ⟨st, hobj, hstep⟩ := Option.bind_eq_some_iff.mp hstep
    obtain ⟨hmem, -⟩ := object_some hobj
    obtain ⟨⟨htunnel, -⟩, hstep⟩ := Option.ite_none_right_eq_some.mp hstep
    obtain rfl := Option.some.inj hstep
    exact tunnelRead_accounts h hsound hmem ((hsane.apt st hmem).tunnel htunnel)
      fun hexact => hwhole hexact st hobj
  | _ => exact hmove id

/-! ## Runs -/

theorem preamble_connection {f : Frame} (h : f ∈ sessionPreamble) : f.streamId = 0 := by
  have hall : ∀ f ∈ sessionPreamble, f.streamId = 0 := by decide
  exact hall f h

/-- A new session has given the connection its window, and nothing to a stream. -/
theorem initial_accounts : Accounts exact (fun _ => 0) initial := by
  have hnone : ∀ x ∈ initial.streams, False := fun x hx => absurd hx not_mem_nil
  have hcredit : total (credit 0) initial.log = preambleCredit := by decide
  have hall : total dataTotal initial.log = 0 := by decide
  refine ⟨.inr ?_, by decide, fun x hx => (hnone x hx).elim, fun x hx => (hnone x hx).elim,
    fun x hx => (hnone x hx).elim, fun sid hsid => ?_, fun sid _ => .inr ?_⟩
  · rw [hcredit, hall]
    rfl
  · rw [initial_log, total_eq_zero_iff]
    intro e he
    obtain ⟨f, hf, rfl⟩ := mem_map.mp he
    refine if_neg fun hw => ?_
    have hzero : f.streamId = 0 := preamble_connection (mem_reverse.mp hf)
    exact absurd (hw.2.1.symm.trans hzero) (Nat.ne_of_gt hsid)
  · rw [initial_log, total_eq_zero_iff]
    intro e he
    obtain ⟨f, -, rfl⟩ := mem_map.mp he
    rfl

/-- Nothing is entered twice. -/
theorem reachable_accounts (h : (sessions cap).Reachable s) :
    Accounts False (fun _ => 0) s := by
  refine (h.invariant (I := fun s => (sessions cap).Reachable s ∧ Accounts False (fun _ => 0) s)
    (fun s h₀ => ?_) ?_).2
  · rw [h₀]
    exact ⟨initial_reachable, initial_accounts⟩
  · rintro s s' ⟨a, hstep⟩ ⟨hreach, hsame⟩
    refine ⟨?_, step_accounts hsame (reachable_sane hreach) (reachable_sound hreach) False.elim hstep⟩
    obtain ⟨s₀, h₀, hrun⟩ := hreach
    exact ⟨s₀, h₀, hrun.tail ⟨a, hstep⟩⟩

/-- Nothing is lost in a run whose steps all meet the guard. -/
theorem whole_accounts (h : (guarded Whole cap).Reachable s) : Accounts True (fun _ => 0) s :=
  (guarded_invariant h initial_accounts fun _ _ _ hreach haccounts hwhole hstep =>
    step_accounts haccounts (reachable_sane hreach) (reachable_sound hreach) (fun _ => hwhole)
      hstep).2

/-! ## Resets for flow control -/

/-- A client within its window does not overrun `tunnel_in`. -/
theorem Accounts.room (h : Accounts exact (fun _ => 0) s) (htype : f.type = .data)
    (hwithin : WithinWindow f.streamId (.received f) s.log) : RoomInTunnel s f := by
  intro st data hfind hdata hended hreset hrejected
  obtain ⟨hmem, hid, -⟩ := find_some hfind
  have hlength := dataPayload_length hdata
  have hsum := (h.stream st hmem ⟨hended, hreset, hrejected⟩).within
  have hroom := hwithin ⟨htype, rfl⟩
  rw [hid] at hsum
  rw [length_append]
  omega

/-- A stream is reset for flow control only in answer to an increment, as long as the
    client stays within its windows. -/
theorem step_answers {a : Action} (haccounts : Accounts exact (fun _ => 0) s) (hsane : Sane s)
    (hsound : Sound (tableOf s)) (hwithin : ∀ sid, Always (WithinWindow sid) s'.log)
    (h : ∀ sid, Always (AnswersIncrement sid) s.log) (hstep : step cap s a = some s') :
    ∀ sid, Always (AnswersIncrement sid) s'.log := by
  have hmove : (∀ f, a = .frame f → f.type ≠ .data) →
      ∀ sid, Always (AnswersIncrement sid) s'.log := by
    intro hnot sid
    have hmove : Move True False False s s' := step_move
      (fun _ f hf htype => absurd htype (hnot f hf)) False.elim False.elim hsound hsane.trailing hstep
    rcases hmove with hsteady | ⟨s1, hbefore, -, k, -, hafter⟩
    · exact hsteady.answers trivial sid (h sid)
    · refine hafter.answers trivial sid ⟨fun heq => ?_, hbefore.answers trivial sid (h sid)⟩
      cases heq
  cases a with
  | frame f =>
    by_cases htype : f.type = .data
    · obtain ⟨-, hstep⟩ := Option.ite_none_left_eq_some.mp hstep
      obtain rfl := Option.some.inj hstep
      have hdata : ∀ A, (A → RoomInTunnel (s.record (.received f)) f) →
          Steady A False True (s.record (.received f)) (processFrame cap s f) :=
        fun _ hroom => processData_steady htype hsound hroom
      obtain ⟨new, hnew, -⟩ := (hdata False False.elim).log
      have hframe : WithinWindow f.streamId (.received f) s.log := by
        have hbefore := hwithin f.streamId
        rw [hnew] at hbefore
        exact hbefore.split
      intro sid
      refine (hdata True fun _ => haccounts.room htype hframe).answers trivial sid ⟨fun heq => ?_, h sid⟩
      cases heq
    · refine hmove fun g hg hdata => htype ?_
      rw [Action.frame.inj hg]
      exact hdata
  | _ =>
    refine hmove fun g hg => ?_
    cases hg

/-- In no run does a client that stays within its windows have a stream reset for that. -/
theorem reachable_answers (h : (sessions cap).Reachable s)
    (hwithin : ∀ sid, Always (WithinWindow sid) s.log) :
    ∀ sid, Always (AnswersIncrement sid) s.log := by
  refine (h.invariant (I := fun s => (sessions cap).Reachable s ∧
    ((∀ sid, Always (WithinWindow sid) s.log) → ∀ sid, Always (AnswersIncrement sid) s.log))
    (fun s h₀ => ?_) ?_).2 hwithin
  · rw [h₀]
    refine ⟨initial_reachable, fun _ sid => ?_⟩
    have hnone : ∀ log : List Event, (∀ e ∈ log, ∀ k err, e ≠ .enqueued (rstStreamFrame k err)) →
        Always (AnswersIncrement sid) log := by
      intro log
      induction log with
      | nil => exact fun _ => trivial
      | cons e past ih =>
        intro hall
        exact ⟨fun heq => absurd heq (hall e mem_cons_self sid _),
          ih fun e he => hall e (mem_cons_of_mem _ he)⟩
    refine hnone _ fun e he k err heq => ?_
    rw [initial_log] at he
    obtain ⟨f, hf, rfl⟩ := mem_map.mp he
    have htypes : ∀ f ∈ sessionPreamble, f.type ≠ .rstStream := by decide
    exact htypes f (mem_reverse.mp hf) (congrArg Frame.type (Event.enqueued.inj heq))
  · rintro s s' ⟨a, hstep⟩ ⟨hreach, hanswers⟩
    have hreach' : (sessions cap).Reachable s' := by
      obtain ⟨s₀, h₀, hrun⟩ := hreach
      exact ⟨s₀, h₀, hrun.tail ⟨a, hstep⟩⟩
    refine ⟨hreach', fun hwithin => ?_⟩
    refine step_answers (reachable_accounts hreach) (reachable_sane hreach) (reachable_sound hreach)
      hwithin (hanswers fun sid => ?_) hstep
    have hmove : Move False False False s s' := step_move False.elim False.elim False.elim
      (reachable_sound hreach) (reachable_sane hreach).trailing hstep
    rcases hmove with hsteady | ⟨s1, hbefore, -, k, -, hafter⟩
    · obtain ⟨new, hnew, -⟩ := hsteady.log
      exact (hnew ▸ hwithin sid).past
    · obtain ⟨new, hnew, -⟩ := hbefore.log
      obtain ⟨new', hnew', -⟩ := hafter.log
      have hall := hwithin sid
      rw [hnew'] at hall
      have hopened : Always (WithinWindow sid) s1.log := hall.past.2
      rw [hnew] at hopened
      exact hopened.past

/-! ## The windows a client is given -/

/-- As long as there is no connection error, the connection has its credit back or coming;
    a stream in `streams_` that is live shows that there is none.  A client that stays
    within its windows has no stream reset for flow control.  And when every `tunnel_read`
    gets its credit out, the credit of a live stream is sent, or to be sent with what its
    tunnel still keeps.  A read that finds 2^31 bytes in `recv_unacked` loses them. -/
theorem receive_windows_balance (h : (sessions cap).Reachable s) :
    (¬ Erred s → total (credit 0) s.log + s.connRecvUnacked =
        preambleCredit + total dataTotal s.log) ∧
      (∀ x ∈ s.streams, x.held = true → Live x → ¬ Erred s) ∧
      ((∀ sid, Always (WithinWindow sid) s.log) → ∀ sid, Always (AnswersIncrement sid) s.log) ∧
      ((guarded Whole cap).Reachable s → ∀ x ∈ s.streams, Live x →
        total (credit x.id) s.log + x.recvUnacked + x.tunnelIn.length =
          total (dataLength x.id) s.log) := by
  refine ⟨fun herr => ?_, fun x hx hheld hlive herr => ?_, reachable_answers h,
    fun hguarded x hx hlive => ?_⟩
  · exact (reachable_accounts h).conn.resolve_left herr
  · have hreset := ((reachable_sane h).halts herr).2 x hx hheld
    exact absurd (hreset.symm.trans hlive.reset) Bool.false_ne_true.symm
  · obtain ⟨hwithin, hwhole⟩ := (whole_accounts hguarded).stream x hx hlive
    exact Nat.le_antisymm hwithin (hwhole trivial)

/-- A CONNECT request on stream 1 that becomes a tunnel. -/
def openTunnelActions : List Action :=
  [.frame (headersFrame 1 4 [0x02, 7, 67, 79, 78, 78, 69, 67, 84]), .startTunnel 1]

def openTunnel : Session := (guardedRun Whole 0 initial openTunnelActions).getD initial

/-- A DATA frame of stream 1 with padding after its data. -/
def paddedFrame (data : Bytes) (pad : UInt8) : Frame where
  type := .data
  flags := flagPadded
  streamId := 1
  payload := pad :: (data ++ List.replicate pad.toNat 0)

/-- Of two bytes with two of padding, one byte is read. -/
def partialReadActions : List Action := [.frame (paddedFrame [65, 66] 2), .tunnelRead 1 1]

def partialRead : Session := (guardedRun Whole 0 openTunnel partialReadActions).getD initial

theorem openTunnel_reachable : (guarded Whole 0).Reachable openTunnel := by
  have hrun : guardedRun Whole 0 initial openTunnelActions = some openTunnel := by
    decide
  exact ⟨initial, rfl, guardedRun_steps hrun⟩

theorem receive_windows_balance_partial : ∃ x ∈ partialRead.streams, Live x ∧
    total (credit x.id) partialRead.log + x.recvUnacked + x.tunnelIn.length =
      total (dataLength x.id) partialRead.log ∧
    total (dataLength x.id) partialRead.log = 5 := by
  obtain ⟨s₀, h₀, hopen⟩ := openTunnel_reachable
  have hread : guardedRun Whole 0 openTunnel partialReadActions = some partialRead := by
    decide
  have hguarded : (guarded Whole 0).Reachable partialRead :=
    ⟨s₀, h₀, hopen.trans (guardedRun_steps hread)⟩
  have hreach : (sessions 0).Reachable partialRead :=
    (guarded_invariant (I := fun _ => True) hguarded trivial fun _ _ _ _ _ _ _ => trivial).1
  obtain ⟨x, hx, hended, hreset, hrejected, hlength⟩ : ∃ x ∈ partialRead.streams,
      x.endStreamReceived = false ∧ x.reset = false ∧ x.rejected = false ∧
        total (dataLength x.id) partialRead.log = 5 := by
    decide
  have hlive : Live x := ⟨hended, hreset, hrejected⟩
  obtain ⟨-, -, -, hbalance⟩ := receive_windows_balance hreach
  exact ⟨x, hx, hlive, hbalance hguarded x hx hlive, hlength⟩

/-! ## A tunnel full of padding -/

/-- A tunnel on stream 1 that has never sent credit. -/
structure Tunnelled (n : Nat) (data : Bytes) (s : Session) (x : StreamState) : Prop where
  streams : s.streams = [x]
  running : s.stopped = false ∧ s.dead = false ∧ s.continuationSid = 0
  stream : x.id = 1 ∧ x.held = true ∧ x.headersDone = true ∧ x.tunnel = true ∧ x.parked = false
  live : Live x
  unacked : x.recvUnacked = n
  kept : x.tunnelIn = data
  uncredited : total (credit 1) s.log = 0
  received : total (dataLength 1) s.log = n + data.length

/-- A DATA frame adds its data to `tunnel_in`, and its padding to `recv_unacked`. -/
theorem Tunnelled.frame {n : Nat} {data more : Bytes} (h : Tunnelled n data s x)
    (hf : f.type = .data ∧ f.streamId = 1 ∧ f.hasFlag flagEndStream = false)
    (hsize : f.payload.length ≤ maxFrameSize) (hdata : dataPayload f = some more)
    (hroom : (data ++ more).length ≤ initialStreamWindow) :
    ∃ s' y, step cap s (.frame f) = some s' ∧
      Tunnelled (n + (f.payload.length - more.length)) (data ++ more) s' y := by
  obtain ⟨hstreams, ⟨hstopped, hdead, hsid⟩, ⟨hid, hheld, hdone, htunnel, hparked⟩,
    ⟨hended, hreset, hrejected⟩, hunacked, hkept, huncredited, hlength⟩ := h
  obtain ⟨htype, hstream, hflag⟩ := hf
  have hpayload := dataPayload_length hdata
  -- the connection has its credit
  have hcredit : let t := creditConnection (s.record (.received f)) f.payload.length
      t.streams = [x] ∧ (t.stopped = false ∧ t.dead = false ∧ t.continuationSid = 0) ∧
      total (credit 1) t.log = 0 ∧
      total (dataLength 1) t.log = n + data.length + f.payload.length := by
    have hreceived : total (dataLength 1) (s.record (.received f)).log =
        n + data.length + f.payload.length := by
      show total (dataLength 1) s.log + (if f.type = .data ∧ f.streamId = 1 then _ else 0) = _
      rw [if_pos ⟨htype, hstream⟩, hlength]
    dsimp only
    rw [creditConnection]
    split
    · rw [Session.enqueue, if_neg]
      · refine ⟨hstreams, ⟨hstopped, hdead, hsid⟩, ?_, hreceived⟩
        show total (credit 1) s.log + increment 1 (windowUpdateFrame 0 _) = 0
        rw [huncredited, increment_other (by decide)]
      · exact Bool.eq_false_iff.mp hdead
    · exact ⟨hstreams, ⟨hstopped, hdead, hsid⟩, huncredited, hreceived⟩
  have hstep : step cap s (.frame f) =
      some (takeData cap (creditConnection (s.record (.received f)) f.payload.length) x f more) := by
    have hfind : (creditConnection (s.record (.received f)) f.payload.length).find 1 = some x := by
      rw [Session.find, hcredit.1]
      simp [hid, hheld]
    show (if s.stopped || s.dead then none else some (processFrame cap s f)) = _
    rw [hstopped, hdead, if_neg (by decide), processFrame, if_neg (Nat.not_lt.mpr hsize),
      handleFrame, if_neg fun hopen => hopen.1 hsid, htype]
    simp [onData, hdata, hstream, hfind, hdone, hended, hreset, hrejected]
  generalize creditConnection (s.record (.received f)) f.payload.length = t at hcredit hstep
  obtain ⟨htstreams, htrun, htcredit, htdata⟩ := hcredit
  refine ⟨_, { x with
    tunnelIn := data ++ more
    recvUnacked := n + (f.payload.length - more.length) }, hstep, ?_⟩
  have htake : takeData cap t x f more = { t with
      streams := [{ x with
        tunnelIn := data ++ more
        recvUnacked := n + (f.payload.length - more.length) }] } := by
    rw [takeData, htunnel, hkept, Bool.true_or, if_pos rfl]
    dsimp only
    rw [if_neg (Nat.not_lt.mpr hroom), endData, if_neg (Bool.eq_false_iff.mp hflag)]
    simp [Session.modify, htstreams, hid, hunacked, hparked, htunnel]
  rw [htake]
  refine ⟨rfl, htrun, ⟨hid, hheld, hdone, htunnel, hparked⟩, ⟨hended, hreset, hrejected⟩, rfl, rfl,
    htcredit, ?_⟩
  show total (dataLength 1) t.log = _
  rw [htdata, length_append]
  omega

/-- A DATA frame of 256 bytes, all of them padding. -/
def paddingOnly : Frame := paddedFrame [] 255

/-- Padding comes together in `recv_unacked`, whatever its sum is. -/
theorem Tunnelled.padding {n : Nat} (h : Tunnelled n [] s x) (k : Nat) :
    ∃ s' y, run cap s (List.replicate k (.frame paddingOnly)) = some s' ∧
      Tunnelled (n + 256 * k) [] s' y := by
  induction k generalizing s x n with
  | zero => exact ⟨s, x, rfl, h⟩
  | succ k ih =>
    have hdata : dataPayload paddingOnly = some [] := by decide +kernel
    obtain ⟨s₁, y₁, hstep, h₁⟩ : ∃ s₁ y₁, step cap s (.frame paddingOnly) = some s₁ ∧
        Tunnelled (n + (paddingOnly.payload.length - ([] : Bytes).length)) [] s₁ y₁ :=
      h.frame ⟨rfl, rfl, by decide⟩ (by decide +kernel) hdata (by decide)
    have hlength : n + (paddingOnly.payload.length - ([] : Bytes).length) = n + 256 := by
      have h256 : paddingOnly.payload.length = 256 := by decide +kernel
      rw [h256]
      rfl
    rw [hlength] at h₁
    obtain ⟨s', y, hrun, h'⟩ := ih h₁
    refine ⟨s', y, ?_, ?_⟩
    · rw [replicate_succ, run, hstep]
      exact hrun
    · have hsum : n + 256 + 256 * k = n + 256 * (k + 1) := by omega
      rw [← hsum]
      exact h'

/-- The credit of a read has 31 bits of what has come together. -/
theorem Tunnelled.read {n size : Nat} {data : Bytes} (h : Tunnelled n data s x) (hdata : data ≠ [])
    (henough : initialStreamWindow / 4 ≤ n + min size data.length) :
    ∃ s' y, step cap s (.tunnelRead 1 size) = some s' ∧ s'.streams = [y] ∧ y.id = 1 ∧
      y.tunnel = true ∧ Live y ∧ y.recvUnacked = 0 ∧ y.tunnelIn = data.drop (min size data.length) ∧
      total (credit 1) s'.log = (n + min size data.length) % 2 ^ 31 ∧
      total (dataLength 1) s'.log = n + data.length := by
  obtain ⟨hstreams, ⟨hstopped, hdead, hsid⟩, ⟨hid, hheld, hdone, htunnel, hparked⟩,
    ⟨hended, hreset, hrejected⟩, hunacked, hkept, huncredited, hlength⟩ := h
  have hobj : s.object 1 = some x := by
    rw [Session.object, hstreams]
    simp [hid]
  have hstep : step cap s (.tunnelRead 1 size) = some (tunnelRead s x size) := by
    show ((s.object 1).bind fun st => taskStep s st (.tunnelRead 1 size)) = _
    rw [hobj]
    exact if_pos ⟨htunnel, Bool.eq_false_iff.mp hparked⟩
  refine ⟨_, { x with tunnelIn := data.drop (min size data.length), recvUnacked := 0 }, hstep, ?_⟩
  have hread : tunnelRead s x size = { s.enqueue (windowUpdateFrame 1 (n + min size data.length)) with
      streams := [{ x with tunnelIn := data.drop (min size data.length), recvUnacked := 0 }] } := by
    rw [tunnelRead, hkept, if_pos hdata, hunacked, hended, hreset, hid]
    simp [henough, Session.modify, Session.enqueue, Session.record, hdead, hstreams, hid, hended, hreset]
  rw [hread]
  refine ⟨rfl, hid, htunnel, ⟨hended, hreset, hrejected⟩, rfl, rfl, ?_, ?_⟩
  · show total (credit 1) (s.enqueue _).log = _
    rw [enqueue_credit hdead, huncredited, if_pos rfl, Nat.zero_add]
  · show total (dataLength 1) (s.enqueue _).log = _
    rw [(enqueue_counts _ _).1, hlength]

theorem run_append {as bs : List Action} (h : run cap s as = some s') :
    run cap s (as ++ bs) = run cap s' bs := by
  induction as generalizing s with
  | nil => rw [nil_append, Option.some.inj h]
  | cons a rest ih =>
    obtain ⟨t, hstep, hrest⟩ := Option.bind_eq_some_iff.mp h
    rw [cons_append, run, hstep]
    exact ih hrest

/-- 2^31 bytes of padding and one of data, which is read. -/
def floodedTunnelActions : List Action :=
  openTunnelActions ++ (List.replicate (2 ^ 23) (.frame paddingOnly) ++
    [.frame (dataFrame 1 [65] false), .tunnelRead 1 1])

/-- The client gets credit for one byte of the 2^31 + 1 it has sent. -/
theorem padding_credit_lost : ∃ s, run 0 initial floodedTunnelActions = some s ∧
    ∃ x ∈ s.streams, x.tunnel = true ∧ Live x ∧
      total (credit x.id) s.log + x.recvUnacked + x.tunnelIn.length = 1 ∧
      total (dataLength x.id) s.log = 2 ^ 31 + 1 := by
  have hopen : run 0 initial openTunnelActions = some openTunnel := by decide
  obtain ⟨x₀, hx₀, hcredit, hlength, hstream⟩ : ∃ x, openTunnel.streams = [x] ∧
      total (credit 1) openTunnel.log = 0 ∧ total (dataLength 1) openTunnel.log = 0 ∧
      x = openTunnel.streams.headD { id := 0 } := by
    refine ⟨_, ?_, ?_, ?_, rfl⟩
    all_goals decide
  have hstart : Tunnelled 0 [] openTunnel x₀ := by
    rw [hstream]
    refine ⟨?_, ?_, ?_, ⟨?_, ?_, ?_⟩, ?_, ?_, ?_, ?_⟩
    all_goals decide
  obtain ⟨s₁, x₁, hpadding, h₁⟩ : ∃ s₁ x₁,
      run 0 openTunnel (List.replicate (2 ^ 23) (.frame paddingOnly)) = some s₁ ∧
      Tunnelled (0 + 256 * 2 ^ 23) [] s₁ x₁ := hstart.padding (2 ^ 23)
  have hone : dataPayload (dataFrame 1 [65] false) = some [65] := by decide
  obtain ⟨s₂, x₂, hframe, h₂⟩ : ∃ s₂ x₂,
      step 0 s₁ (.frame (dataFrame 1 [65] false)) = some s₂ ∧ Tunnelled _ ([] ++ [65]) s₂ x₂ :=
    h₁.frame ⟨rfl, rfl, by decide⟩ (by decide) hone (by decide)
  obtain ⟨s₃, x₃, hread, hstreams, hid, htunnel, hlive, hunacked, hin, hcredit, hlength⟩ :
      ∃ s₃ x₃, step 0 s₂ (.tunnelRead 1 1) = some s₃ ∧ _ := h₂.read (by decide) (by decide)
  refine ⟨s₃, ?_, x₃, ?_, htunnel, hlive, ?_, ?_⟩
  · rw [floodedTunnelActions, run_append hopen, run_append hpadding]
    show ((step 0 s₁ _).bind fun s => (step 0 s _).bind fun s => some s) = _
    rw [hframe]
    show ((step 0 s₂ _).bind fun s => some s) = _
    rw [hread]
    rfl
  · rw [hstreams]
    exact mem_singleton_self _
  · rw [hid, hcredit, hunacked, hin]
    decide
  · rw [hid, hlength]
    decide

end Http2ReceiveWindow
