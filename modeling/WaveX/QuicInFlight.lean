import WaveX.QuicReceiveSimulation

/-! # Bytes in flight

    `bytes_in_flight_` against the packets held in `sent_packets_`.  Tracking a
    packet and acknowledging it move both together.  `detect_lost_packets` takes
    packets out of `sent_packets_` and never subtracts their bytes, so the counter
    exceeds the packets held by exactly what was ever declared lost
    (`bytesInFlight_eq`), and the two agree precisely while no packet has been
    declared lost (`bytesInFlight_eq_held_iff`). -/

namespace QuicInFlight

open History List
open QuicVarInt QuicFrames QuicPacket CongestionControl QuicState QuicSend QuicRuns QuicLedger
open QuicSimulation

/-- The bytes of the packets held in the three spaces. -/
def heldBytes (sent : PnSpace → List SentPacket) : Nat :=
  sumBytes (sent .initial) + sumBytes (sent .handshake) + sumBytes (sent .application)

/-- The bytes of a packet declared lost. -/
def lostBytes : Event → Nat
  | .lost _ _ bytes => bytes
  | _ => 0

/-! ## Sums over packets -/

theorem sumBytes_append (xs ys : List SentPacket) :
    sumBytes (xs ++ ys) = sumBytes xs + sumBytes ys := by
  simp [sumBytes]

/-- A list of packets splits into those with a property and those without. -/
theorem sumBytes_filter (p : SentPacket → Bool) (xs : List SentPacket) :
    sumBytes xs = sumBytes (xs.filter p) + sumBytes (xs.filter (fun x => !p x)) := by
  rw [← sumBytes_append]
  exact ((filter_append_perm p xs).map SentPacket.bytesSent).sum_nat.symm

/-- Replacing the packets of one space. -/
theorem heldBytes_update (sent : PnSpace → List SentPacket) (sp : PnSpace)
    (pkts : List SentPacket) :
    heldBytes (Function.update sent sp pkts) + sumBytes (sent sp)
      = heldBytes sent + sumBytes pkts := by
  cases sp <;> simp [heldBytes] <;> omega

/-- A probe changes the frames of a packet, not its size. -/
theorem sumBytes_takeFirstFrames (pkts : List SentPacket) :
    sumBytes (takeFirstFrames pkts).2 = sumBytes pkts := by
  induction pkts with
  | nil => rfl
  | cons p rest ih =>
      rw [takeFirstFrames]
      split_ifs
      · show p.bytesSent + sumBytes (takeFirstFrames rest).2 = p.bytesSent + sumBytes rest
        rw [ih]
      · rfl

/-- The packets left after a probe have the sizes of the packets before. -/
theorem mem_takeFirstFrames {pkts : List SentPacket} {p : SentPacket}
    (h : p ∈ (takeFirstFrames pkts).2) : ∃ q ∈ pkts, q.bytesSent = p.bytesSent := by
  induction pkts with
  | nil => exact absurd h not_mem_nil
  | cons q rest ih =>
      rw [takeFirstFrames] at h
      split_ifs at h
      · rcases mem_cons.mp h with rfl | h
        · exact ⟨p, mem_cons_self, rfl⟩
        · obtain ⟨q', hq', heq⟩ := ih h
          exact ⟨q', mem_cons_of_mem _ hq', heq⟩
      · rcases mem_cons.mp h with rfl | h
        · exact ⟨q, mem_cons_self, rfl⟩
        · exact ⟨p, mem_cons_of_mem _ h, rfl⟩

/-- The bytes of a batch of lost packets. -/
theorem total_lostEvents (sp : PnSpace) (pkts : List SentPacket) (past : List Event) :
    total lostBytes (lostEvents sp pkts ++ past) = total lostBytes past + sumBytes pkts := by
  induction pkts generalizing past with
  | nil => rfl
  | cons p rest ih =>
      have hcons : lostEvents sp (p :: rest) ++ past
          = lostEvents sp rest ++ (.lost sp p.packetNumber p.bytesSent :: past) := by
        simp [lostEvents]
      rw [hcons, ih]
      simp only [total, lostBytes, sumBytes, map_cons, sum_cons]
      omega

/-! ## The invariant -/

/-- The counter is what is held plus what was lost; no packet is empty. -/
structure Accounted (l : Ledger) : Prop where
  bytes : l.bytesInFlight = heldBytes l.sentPackets + total lostBytes l.trace
  held_pos : ∀ sp, ∀ p ∈ l.sentPackets sp, 0 < p.bytesSent
  lost_pos : ∀ sp pn bytes, Event.lost sp pn bytes ∈ l.trace → 0 < bytes

variable {faulty : Prop} {config : Config} {l l' : Ledger}

/-- The sizes of the packets of one space after it has been replaced. -/
theorem Accounted.held_pos_update {sp : PnSpace} {pkts : List SentPacket} (h : Accounted l)
    (hpkts : ∀ p ∈ pkts, 0 < p.bytesSent) :
    ∀ sp', ∀ p ∈ Function.update l.sentPackets sp pkts sp', 0 < p.bytesSent := by
  intro sp' p hp
  by_cases heq : sp' = sp
  · subst heq
    rw [Function.update_self] at hp
    exact hpkts p hp
  · rw [Function.update_of_ne heq] at hp
    exact h.held_pos sp' p hp

/-- A packet is declared lost. -/
def isLostEvent : Event → Bool
  | .lost _ _ _ => true
  | _ => false

/-- New events that are not losses leave the past losses as they are. -/
theorem Accounted.lost_pos_cons {e : Event} (h : Accounted l) (he : isLostEvent e = false) :
    ∀ sp pn bytes, Event.lost sp pn bytes ∈ e :: l.trace → 0 < bytes := by
  intro sp pn bytes hmem
  rcases mem_cons.mp hmem with rfl | hmem
  · exact absurd he.symm Bool.false_ne_true
  · exact h.lost_pos sp pn bytes hmem

/-- A step that only adds events which are not losses. -/
theorem Accounted.logged {e : Event} (h : Accounted l) (hsent : l'.sentPackets = l.sentPackets)
    (hbytes : l'.bytesInFlight = l.bytesInFlight) (htr : l'.trace = e :: l.trace)
    (he : isLostEvent e = false) : Accounted l' := by
  refine ⟨?_, ?_, ?_⟩
  · rw [hbytes, hsent, htr, total, h.bytes]
    cases e with
    | lost sp pn bytes => exact absurd he.symm Bool.false_ne_true
    | _ => rfl
  · rw [hsent]
    exact h.held_pos
  · rw [htr]
    exact h.lost_pos_cons he

/-- A sealed packet enters `sent_packets_` and is counted. -/
theorem Accounted.track {type : PacketType} {pn bytes : Nat} {frames : List Frame} {now : Int}
    (h : Accounted l) (hpos : 0 < bytes) :
    Accounted { l with
      sentPackets := Function.update l.sentPackets (spaceIndex type)
        (l.sentPackets (spaceIndex type) ++ [SentPacket.ofFrames pn bytes type frames now])
      bytesInFlight := l.bytesInFlight + bytes
      trace := .packetized (spaceIndex type) pn frames :: l.trace } := by
  refine ⟨?_, h.held_pos_update ?_, h.lost_pos_cons rfl⟩
  · have hu := heldBytes_update l.sentPackets (spaceIndex type)
      (l.sentPackets (spaceIndex type) ++ [SentPacket.ofFrames pn bytes type frames now])
    have hone : sumBytes [SentPacket.ofFrames pn bytes type frames now] = bytes := by
      simp [sumBytes, SentPacket.ofFrames]
    rw [sumBytes_append, hone] at hu
    have hb := h.bytes
    simp only [total, lostBytes]
    omega
  · intro p hp
    rcases mem_append.mp hp with hp | hp
    · exact h.held_pos _ p hp
    · rw [mem_singleton.mp hp]
      exact hpos

/-- Acknowledged packets leave `sent_packets_` and are subtracted. -/
theorem Accounted.ack {sp : PnSpace} {ranges : List (Nat × Nat)} (h : Accounted l) :
    Accounted { l with
      bytesInFlight := l.bytesInFlight
        - sumBytes ((l.sentPackets sp).filter (fun p => isAcked ranges p.packetNumber))
      sentPackets := Function.update l.sentPackets sp
        ((l.sentPackets sp).filter (fun p => !isAcked ranges p.packetNumber))
      trace := .acked sp ranges :: l.trace } := by
  refine ⟨?_, h.held_pos_update ?_, h.lost_pos_cons rfl⟩
  · have hu := heldBytes_update l.sentPackets sp
      ((l.sentPackets sp).filter (fun p => !isAcked ranges p.packetNumber))
    have hsplit := sumBytes_filter (fun p => isAcked ranges p.packetNumber) (l.sentPackets sp)
    have hb := h.bytes
    simp only [total, lostBytes]
    omega
  · intro p hp
    exact h.held_pos sp p (mem_of_mem_filter hp)

/-- Lost packets leave `sent_packets_`; the history takes over their bytes. -/
theorem Accounted.lose {sp : PnSpace} {lost : SentPacket → Bool} (h : Accounted l) :
    Accounted { l with
      sentPackets := Function.update l.sentPackets sp
        ((l.sentPackets sp).filter (fun p => !lost p))
      inHand := framesOf ((l.sentPackets sp).filter lost)
      trace := lostEvents sp ((l.sentPackets sp).filter lost) ++ l.trace } := by
  refine ⟨?_, h.held_pos_update ?_, ?_⟩
  · have hu := heldBytes_update l.sentPackets sp ((l.sentPackets sp).filter (fun p => !lost p))
    have hsplit := sumBytes_filter lost (l.sentPackets sp)
    have hb := h.bytes
    have htotal := total_lostEvents sp ((l.sentPackets sp).filter lost) l.trace
    simp only
    omega
  · intro p hp
    exact h.held_pos sp p (mem_of_mem_filter hp)
  · intro sp' pn bytes hmem
    rcases mem_append.mp hmem with hmem | hmem
    · obtain ⟨p, hp, heq⟩ := mem_map.mp (mem_reverse.mp hmem)
      cases heq
      exact h.held_pos sp p (mem_of_mem_filter hp)
    · exact h.lost_pos sp' pn bytes hmem

/-- A probe timeout takes frames, not packets. -/
theorem Accounted.probe {sp : PnSpace} (h : Accounted l) :
    Accounted { l with
      sentPackets := Function.update l.sentPackets sp (takeFirstFrames (l.sentPackets sp)).2
      inHand := (takeFirstFrames (l.sentPackets sp)).1 } := by
  refine ⟨?_, h.held_pos_update ?_, h.lost_pos⟩
  · have hu := heldBytes_update l.sentPackets sp (takeFirstFrames (l.sentPackets sp)).2
    rw [sumBytes_takeFirstFrames] at hu
    have hb := h.bytes
    simp only
    omega
  · intro p hp
    obtain ⟨q, hq, heq⟩ := mem_takeFirstFrames hp
    rw [← heq]
    exact h.held_pos sp q hq

/-- Delivered payloads are no losses. -/
theorem Accounted.deliver (h : Accounted l) :
    Accounted { l with datagrams := [], trace := deliveredEvents l ++ l.trace } := by
  refine ⟨?_, h.held_pos, ?_⟩
  · show l.bytesInFlight = _ + total lostBytes (deliveredEvents l ++ l.trace)
    rw [total_append_of_zero (forall_deliveredEvents (fun _ => rfl)), h.bytes]
  · intro sp pn bytes hmem
    rcases mem_append.mp hmem with hmem | hmem
    · obtain ⟨d, _, heq⟩ := mem_deliveredEvents hmem
      exact absurd (congrArg isLostEvent heq).symm Bool.false_ne_true
    · exact h.lost_pos sp pn bytes hmem

/-- Every step keeps the account. -/
theorem Accounted.step (h : Step faulty l l') (ha : Accounted l) : Accounted l' := by
  cases h with
  | track type pn bytes frames now hpos _ => exact ha.track hpos
  | ack sp ranges => exact ha.ack
  | lose sp lost _ _ => exact ha.lose
  | probe sp _ => exact ha.probe
  | deliver => exact ha.deliver
  | _ => first
    | exact ⟨ha.bytes, ha.held_pos, ha.lost_pos⟩
    | exact ha.logged rfl rfl rfl rfl

/-- Every reachable ledger is accounted. -/
theorem accounted_of_reachable (h : (machine faulty config).Reachable l) : Accounted l := by
  refine h.invariant ?_ ?_
  · rintro _ ⟨r, rfl⟩
    exact ⟨rfl, fun _ _ hp => absurd hp not_mem_nil, fun _ _ _ he => absurd he not_mem_nil⟩
  · rintro l l' ((hstep | hclose) | hcall) ha
    · exact ha.step hstep
    · cases hclose
      exact ha.logged rfl rfl rfl rfl
    · cases hcall <;> exact ha.logged rfl rfl rfl rfl

variable {K : Type} {env : Env K} {start : Start} {s : QuicConnection K}

/-- The counter exceeds the packets held by what was ever declared lost. -/
theorem bytesInFlight_eq (h : Reachable env start s) :
    s.congestionController.bytesInFlight
      = heldBytes s.sentPackets + total lostBytes s.trace :=
  (accounted_of_reachable (reachable_view env h)).bytes

/-- `bytes_in_flight_` is the sum over `sent_packets_` exactly while
    `detect_lost_packets` has declared no packet lost. -/
theorem bytesInFlight_eq_held_iff (h : Reachable env start s) :
    s.congestionController.bytesInFlight = heldBytes s.sentPackets
      ↔ ∀ sp pn bytes, Event.lost sp pn bytes ∉ s.trace := by
  have ha := accounted_of_reachable (reachable_view env h)
  rw [bytesInFlight_eq h]
  constructor
  · intro heq sp pn bytes hmem
    have hzero : total lostBytes s.trace = 0 := by omega
    have hbytes : bytes = 0 := total_eq_zero_iff.mp hzero _ hmem
    exact absurd hbytes (Nat.pos_iff_ne_zero.mp (ha.lost_pos sp pn bytes hmem))
  · intro hno
    have hzero : total lostBytes s.trace = 0 := by
      rw [total_eq_zero_iff]
      intro e he
      cases e with
      | lost sp pn bytes => exact absurd he (hno sp pn bytes)
      | _ => rfl
    rw [hzero, Nat.add_zero]

/-- Four packets in flight are counted. -/
theorem bytesInFlight_eq_held_iff_four_writes :
    let s := (sampleServer false).after (sampleEnv fun _ => {}) sampleWrites
    0 < s.congestionController.bytesInFlight
      ∧ s.congestionController.bytesInFlight = heldBytes s.sentPackets := by
  refine ⟨by decide +kernel, ?_⟩
  refine (bytesInFlight_eq_held_iff
    (Start.after_reachable (sampleEnv fun _ => {}) (sampleServer false) _)).mpr ?_
  intro sp pn bytes
  refine not_mem_of_all (p := fun e => !isLostEvent e) ?_ rfl
  decide +kernel

/-- An ACK frame for the fourth of four packets: the others are declared lost, and
    their bytes stay in flight. -/
theorem lost_packet_stays_in_flight :
    let s := (sampleServer false).after (sampleEnv fun _ => {})
      (sampleWrites ++ [sampleAck])
    ¬s.congestionController.bytesInFlight = heldBytes s.sentPackets := by
  decide +kernel

end QuicInFlight
