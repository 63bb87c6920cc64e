import WaveX.QuicFrames
import WaveX.QuicPacket

/-! # Loss detection and congestion control

    `RttStats`, `SentPacket` and `CongestionController` of
    `include/wavex/Network/QUIC/CongestionControl.hpp`.  Durations are signed
    64-bit microsecond counts and wrap; time points are nanosecond counts. -/

namespace CongestionControl

open QuicFrames QuicPacket

/-- Wrap-around of a signed 64-bit value. -/
def wrap64 (x : Int) : Int := Int.bmod x (2 ^ 64)

/-- `RttStats`. -/
structure RttStats where
  latestRtt : Int := 0
  minRtt : Int := 2 ^ 63 - 1
  smoothedRtt : Int := 333000
  rttvar : Int := 166500
  firstRttSample : Bool := true
  deriving DecidableEq, Repr

/-- `RttStats::update_rtt`. -/
def RttStats.updateRtt (r : RttStats) (latest ackDelay : Int) : RttStats :=
  let minRtt := if r.minRtt > latest then latest else r.minRtt
  if r.firstRttSample then
    { latestRtt := latest
      minRtt := latest
      smoothedRtt := latest
      rttvar := latest.tdiv 2
      firstRttSample := false }
  else
    let adjusted :=
      if latest ≥ wrap64 (minRtt + ackDelay) then wrap64 (latest - ackDelay) else latest
    let diff :=
      if r.smoothedRtt > adjusted then wrap64 (r.smoothedRtt - adjusted)
      else wrap64 (adjusted - r.smoothedRtt)
    { latestRtt := latest
      minRtt := minRtt
      smoothedRtt := (wrap64 (r.smoothedRtt * 7 + adjusted)).tdiv 8
      rttvar := (wrap64 (r.rttvar * 3 + diff)).tdiv 4
      firstRttSample := false }

/-- `SentPacket`: a packet kept for loss detection. -/
structure SentPacket where
  timeSent : Int := 0
  packetNumber : Nat := 0
  bytesSent : Nat := 0
  retransmittableFrames : List Frame := []
  packetType : PacketType := .initial
  ackEliciting : Bool := true
  inFlight : Bool := true
  deriving DecidableEq, Repr

/-- `SentPacket(pn, bytes, pt, frames, ts)`. -/
def SentPacket.ofFrames (pn bytes : Nat) (pt : PacketType) (frames : List Frame)
    (ts : Int) : SentPacket :=
  ⟨ts, pn, bytes, frames, pt, !frames.isEmpty, true⟩

/-- `kMaxDatagramSize`. -/
def kMaxDatagramSize : Nat := 1200
/-- `kInitialWindow`. -/
def kInitialWindow : Nat := 14720
/-- `kMinimumWindow`. -/
def kMinimumWindow : Nat := 2 * kMaxDatagramSize
/-- `kPacketThreshold`. -/
def kPacketThreshold : Nat := 3

/-- `CongestionController`. -/
structure CongestionController where
  recoveryStartTime : Int := 0
  bytesInFlight : Nat := 0
  congestionWindow : Nat := kInitialWindow
  ssthresh : Nat := 2 ^ 64 - 1
  rttStats : RttStats := {}
  inRecovery : Bool := false
  deriving DecidableEq, Repr

namespace CongestionController

/-- `on_packet_sent`. -/
def onPacketSent (cc : CongestionController) (bytes : Nat) (inFlight : Bool) :
    CongestionController :=
  if inFlight then { cc with bytesInFlight := cc.bytesInFlight + bytes } else cc

/-- `on_packet_acked`: the subtraction stops at zero. -/
def onPacketAcked (cc : CongestionController) (bytes : Nat) : CongestionController :=
  let cc := { cc with
    bytesInFlight := if bytes ≤ cc.bytesInFlight then cc.bytesInFlight - bytes else 0 }
  if cc.inRecovery then cc
  else if cc.congestionWindow < cc.ssthresh then
    { cc with congestionWindow := cc.congestionWindow + bytes }
  else
    { cc with congestionWindow :=
        cc.congestionWindow + kMaxDatagramSize * bytes / cc.congestionWindow }

/-- `on_congestion_event`. -/
def onCongestionEvent (cc : CongestionController) (sentTime eventTime : Int) :
    CongestionController :=
  if sentTime ≤ cc.recoveryStartTime then cc
  else
    let ssthresh := max (cc.congestionWindow / 2) kMinimumWindow
    { cc with
      recoveryStartTime := eventTime
      inRecovery := true
      ssthresh := ssthresh
      congestionWindow := ssthresh }

/-- `update_rtt`. -/
def updateRtt (cc : CongestionController) (sample ackDelay : Int) : CongestionController :=
  { cc with rttStats := cc.rttStats.updateRtt sample ackDelay }

/-- An acknowledged packet leaves the in-flight count, which stops at zero. -/
@[simp]
theorem bytesInFlight_onPacketAcked (cc : CongestionController) (bytes : Nat) :
    (cc.onPacketAcked bytes).bytesInFlight = cc.bytesInFlight - bytes := by
  rw [onPacketAcked]
  by_cases hb : bytes ≤ cc.bytesInFlight
  · simp only [hb, ↓reduceIte]
    split_ifs <;> rfl
  · simp only [hb, ↓reduceIte]
    have h0 : cc.bytesInFlight - bytes = 0 := by omega
    rw [h0]
    split_ifs <;> rfl

/-- A congestion event leaves the in-flight count alone. -/
@[simp]
theorem bytesInFlight_onCongestionEvent (cc : CongestionController) (sent now : Int) :
    (cc.onCongestionEvent sent now).bytesInFlight = cc.bytesInFlight := by
  rw [onCongestionEvent]
  split_ifs <;> rfl

@[simp]
theorem bytesInFlight_updateRtt (cc : CongestionController) (sample delay : Int) :
    (cc.updateRtt sample delay).bytesInFlight = cc.bytesInFlight := rfl

end CongestionController

end CongestionControl
