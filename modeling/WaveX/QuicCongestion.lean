import WaveX.QuicSend

/-! # The congestion window and recovery

    The controller of a connection over any run of sends, acknowledgements and losses under a
    clock that does not go back.  The window keeps its floor and is reduced once for the
    packets of a recovery period.  `exit_recovery` is not called from anywhere: an
    acknowledgement never ends recovery, and the window does not grow any more. -/

namespace QuicCongestion

open QuicVarInt QuicFrames QuicPacket CongestionControl QuicState QuicSend

/-! ## Runs of the controller -/

/-- What happens to the controller, and when. -/
inductive Action where
  | send (bytes : Nat) (now : Int)
  | ack (frame : AckFrame) (pkt : SentPacket) (now : Int)
  | lose (pkt : SentPacket) (now : Int)
  deriving DecidableEq, Repr

/-- The reading of the clock. -/
def Action.now : Action → Int
  | .send _ now => now
  | .ack _ _ now => now
  | .lose _ now => now

/-- The controller with the clock, and the starts of all recovery periods, latest first. -/
structure Sender where
  cc : CongestionController := {}
  clock : Int := 0
  started : List Int := []
  deriving DecidableEq, Repr

def step (st : Sender) : Action → Sender
  | .send bytes now => { st with cc := st.cc.onPacketSent bytes true, clock := now }
  | .ack frame pkt now => { st with cc := ackPacket frame now st.cc pkt, clock := now }
  | .lose pkt now =>
      { cc := st.cc.onCongestionEvent pkt.timeSent now
        clock := now
        started :=
          if pkt.timeSent ≤ st.cc.recoveryStartTime then st.started else now :: st.started }

def run (st : Sender) (actions : List Action) : Sender := actions.foldl step st

/-- The clock does not go back. -/
def Clocked : Sender → List Action → Prop
  | _, [] => True
  | st, a :: rest => st.clock ≤ a.now ∧ Clocked (step st a) rest

-- The calls of a connection are such runs.

theorem trackSentPacket_run {K : Type} (env : Env K) (s : QuicConnection K) (type : PacketType)
    (pn bytes : Nat) (frames : List Frame) (clock : Int) (started : List Int) :
    (trackSentPacket env s type pn bytes frames).congestionController =
      (run ⟨s.congestionController, clock, started⟩
        [.send bytes (env.clock s.clockReads)]).cc := rfl

theorem removeAcked_run {K : Type} (s : QuicConnection K) (sp : PnSpace) (ack : AckFrame)
    (now clock : Int) (started : List Int) :
    (removeAcked s sp ack now).congestionController =
      (run ⟨s.congestionController, clock, started⟩
        (((s.sentPackets sp).filter fun p => isAcked (ackedRanges ack) p.packetNumber).map
          fun p => .ack ack p now)).cc := by
  rw [removeAcked]
  dsimp only
  generalize s.congestionController = cc
  induction (s.sentPackets sp).filter fun p => isAcked (ackedRanges ack) p.packetNumber
    generalizing cc clock with
  | nil => rfl
  | cons p rest ih => exact ih now (ackPacket ack now cc p)

theorem removeLost_run {K : Type} (s : QuicConnection K) (sp : PnSpace) (now : Int)
    (lost : SentPacket → Bool) (clock : Int) (started : List Int) :
    (removeLost s sp now lost).congestionController =
      (run ⟨s.congestionController, clock, started⟩
        (((s.sentPackets sp).filter lost).map fun p => .lose p now)).cc := by
  rw [removeLost]
  dsimp only
  generalize s.congestionController = cc
  induction (s.sentPackets sp).filter lost generalizing cc clock started with
  | nil => rfl
  | cons p rest ih =>
    exact ih now (if p.timeSent ≤ cc.recoveryStartTime then started else now :: started)
      (cc.onCongestionEvent p.timeSent now)

/-! ## The contract -/

/-- The window and the threshold are at least two datagrams. -/
def Floor (cc : CongestionController) : Prop := 2400 ≤ cc.congestionWindow ∧ 2400 ≤ cc.ssthresh

/-- The loss of a packet sent before the start of a recovery period reduces nothing more. -/
def OncePerPeriod (st : Sender) : Action → Prop
  | .lose pkt now =>
      (∃ t ∈ st.started, pkt.timeSent ≤ t) → st.cc.onCongestionEvent pkt.timeSent now = st.cc
  | _ => True

/-- The acknowledgement of a packet sent after recovery began ends it. -/
def EndsRecovery (st : Sender) : Action → Prop
  | .ack frame pkt now =>
      st.cc.inRecovery = true → st.cc.recoveryStartTime < pkt.timeSent →
        (ackPacket frame now st.cc pkt).inRecovery = false
  | _ => True

/-- Along the run the floor holds, and every action meets both. -/
def Good : Sender → List Action → Prop
  | st, [] => Floor st.cc
  | st, a :: rest =>
      Floor st.cc ∧ OncePerPeriod st a ∧ EndsRecovery st a ∧ Good (step st a) rest

/-- The packet was not sent after the recovery began that the controller is in. -/
def NotLate (st : Sender) : Action → Prop
  | .ack _ pkt _ => st.cc.inRecovery = true → pkt.timeSent ≤ st.cc.recoveryStartTime
  | _ => True

/-- No acknowledged packet of the run was. -/
def NoneLate : Sender → List Action → Prop
  | _, [] => True
  | st, a :: rest => NotLate st a ∧ NoneLate (step st a) rest

/-! ## One action -/

/-- What holds along every run: the floor, and the recovery periods lie in the past, none
    later than the current one. -/
structure Kept (st : Sender) : Prop where
  floor : Floor st.cc
  past : ∀ t ∈ st.started, t ≤ st.clock
  latest : ∀ t ∈ st.started, t ≤ st.cc.recoveryStartTime

/-- An acknowledgement leaves the recovery period as it is. -/
theorem ackPacket_recovery (frame : AckFrame) (now : Int) (cc : CongestionController)
    (pkt : SentPacket) :
    (ackPacket frame now cc pkt).inRecovery = cc.inRecovery ∧
      (ackPacket frame now cc pkt).recoveryStartTime = cc.recoveryStartTime ∧
      (ackPacket frame now cc pkt).ssthresh = cc.ssthresh ∧
      cc.congestionWindow ≤ (ackPacket frame now cc pkt).congestionWindow := by
  have hacked : (cc.onPacketAcked pkt.bytesSent).inRecovery = cc.inRecovery ∧
      (cc.onPacketAcked pkt.bytesSent).recoveryStartTime = cc.recoveryStartTime ∧
      (cc.onPacketAcked pkt.bytesSent).ssthresh = cc.ssthresh ∧
      cc.congestionWindow ≤ (cc.onPacketAcked pkt.bytesSent).congestionWindow := by
    rw [CongestionController.onPacketAcked]
    dsimp only
    split
    · exact ⟨rfl, rfl, rfl, Nat.le_refl _⟩
    · split
      · exact ⟨rfl, rfl, rfl, Nat.le_add_right _ _⟩
      · exact ⟨rfl, rfl, rfl, Nat.le_add_right _ _⟩
  rw [ackPacket]
  split
  · exact hacked
  · exact hacked

theorem step_kept {st : Sender} {a : Action} (h : Kept st) (hclock : st.clock ≤ a.now) :
    Kept (step st a) := by
  obtain ⟨⟨hwindow, hssthresh⟩, hpast, hlatest⟩ := h
  cases a with
  | send bytes now =>
    exact ⟨⟨hwindow, hssthresh⟩, fun t ht => le_trans (hpast t ht) hclock, hlatest⟩
  | ack frame pkt now =>
    obtain ⟨-, hstart, hthresh, hgrow⟩ := ackPacket_recovery frame now st.cc pkt
    refine ⟨⟨le_trans hwindow hgrow, ?_⟩, fun t ht => le_trans (hpast t ht) hclock, ?_⟩
    · rw [step, hthresh]
      exact hssthresh
    · rw [step, hstart]
      exact hlatest
  | lose pkt now =>
    rw [step, CongestionController.onCongestionEvent]
    by_cases hold : pkt.timeSent ≤ st.cc.recoveryStartTime
    · rw [if_pos hold, if_pos hold]
      exact ⟨⟨hwindow, hssthresh⟩, fun t ht => le_trans (hpast t ht) hclock, hlatest⟩
    · rw [if_neg hold, if_neg hold]
      have hfloor : 2400 ≤ max (st.cc.congestionWindow / 2) kMinimumWindow :=
        Nat.le_max_right _ _
      refine ⟨⟨hfloor, hfloor⟩, ?_, ?_⟩
      · intro t ht
        rcases List.mem_cons.mp ht with rfl | ht
        · exact le_refl _
        · exact le_trans (hpast t ht) hclock
      · intro t ht
        rcases List.mem_cons.mp ht with rfl | ht
        · exact le_refl _
        · exact le_trans (hpast t ht) hclock

/-- The current period is the latest, so no packet of an earlier one reduces the window. -/
theorem Kept.oncePerPeriod {st : Sender} (h : Kept st) (a : Action) : OncePerPeriod st a := by
  cases a with
  | send bytes now => trivial
  | ack frame pkt now => trivial
  | lose pkt now =>
    rintro ⟨t, ht, hle⟩
    rw [CongestionController.onCongestionEvent, if_pos (le_trans hle (h.latest t ht))]

/-- Nothing ends recovery: an action meets that part exactly when it acknowledges no packet
    sent after recovery began. -/
theorem endsRecovery_iff (st : Sender) (a : Action) : EndsRecovery st a ↔ NotLate st a := by
  cases a with
  | send bytes now => exact Iff.rfl
  | lose pkt now => exact Iff.rfl
  | ack frame pkt now =>
    rw [EndsRecovery, NotLate, (ackPacket_recovery frame now st.cc pkt).1]
    constructor
    · intro hends hin
      by_contra hlate
      have hout := hends hin (not_le.mp hlate)
      rw [hin] at hout
      cases hout
    · intro hnot hin hlate
      exact absurd (hnot hin) (not_le.mpr hlate)

/-! ## Any run -/

/-- A new connection's controller at some reading of the clock. -/
def fresh (clock : Int) : Sender := { clock := clock }

theorem initial_floor : Floor {} := ⟨by decide, by decide⟩

theorem fresh_kept (clock : Int) : Kept (fresh clock) where
  floor := initial_floor
  past := fun _ ht => absurd ht List.not_mem_nil
  latest := fun _ ht => absurd ht List.not_mem_nil

theorem Kept.good_iff {st : Sender} (h : Kept st) {actions : List Action}
    (hclock : Clocked st actions) : Good st actions ↔ NoneLate st actions := by
  induction actions generalizing st with
  | nil => exact iff_of_true h.floor trivial
  | cons a rest ih =>
    obtain ⟨hnow, hrest⟩ := hclock
    rw [Good, NoneLate, endsRecovery_iff, ih (step_kept h hnow) hrest]
    constructor
    · rintro ⟨-, -, hnot, hgood⟩
      exact ⟨hnot, hgood⟩
    · rintro ⟨hnot, hgood⟩
      exact ⟨h.floor, h.oncePerPeriod a, hnot, hgood⟩

/-- A run is as it should be exactly when no packet is acknowledged that was sent after the
    recovery began that the controller is in. -/
theorem run_good_iff (clock : Int) (actions : List Action)
    (hclock : Clocked (fresh clock) actions) :
    Good (fresh clock) actions ↔ NoneLate (fresh clock) actions :=
  (fresh_kept clock).good_iff hclock

/-- Recovery lasts: whatever follows, the controller is in it. -/
theorem recovery_lasts {st : Sender} (h : st.cc.inRecovery = true) (actions : List Action) :
    (run st actions).cc.inRecovery = true := by
  induction actions generalizing st with
  | nil => exact h
  | cons a rest ih =>
    refine ih ?_
    cases a with
    | send bytes now => exact h
    | ack frame pkt now => exact (ackPacket_recovery frame now st.cc pkt).1.trans h
    | lose pkt now =>
      rw [step, CongestionController.onCongestionEvent]
      split
      · exact h
      · rfl

/-- A packet sent at a time. -/
def sentAt (pn : Nat) (t : Int) : SentPacket :=
  { timeSent := t, packetNumber := pn, bytesSent := 1200 }

/-- Two packets, the first of which is lost and the second acknowledged. -/
theorem run_good_iff_burst :
    Good (fresh 0) [.send 1200 1, .send 1200 2, .lose (sentAt 0 1) 3,
      .ack ⟨[⟨0, 0⟩], 1, 0, false⟩ (sentAt 1 2) 4] := by
  refine (run_good_iff 0 _ ?_).mpr ?_
  · exact ⟨by decide, by decide, by decide, by decide, trivial⟩
  · exact ⟨trivial, trivial, trivial, fun _ => by decide, trivial⟩

/-- A packet sent after a loss is acknowledged, and recovery does not end. -/
theorem recovery_not_ended :
    ¬ ∀ (clock : Int) (actions : List Action), Clocked (fresh clock) actions →
      Good (fresh clock) actions := by
  intro h
  have hgood := h 0 [.send 1200 1, .lose (sentAt 0 1) 2, .send 1200 3,
    .ack ⟨[⟨0, 0⟩], 1, 0, false⟩ (sentAt 1 3) 4]
    ⟨by decide, by decide, by decide, by decide, trivial⟩
  obtain ⟨-, -, -, -, -, -, -, -, -, -, -, hends, -⟩ := hgood
  exact absurd (hends rfl (by decide)) (by decide)

end QuicCongestion
