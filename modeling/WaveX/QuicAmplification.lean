import WaveX.QuicReceiveSimulation

/-! # Anti-amplification

    A server may send at most three times what it has received until the peer's
    address is validated (RFC 9000 §8.1).  `poll_outgoing_datagrams` keeps this
    budget against `cumulative_bytes_received_`, but `drain_buffered_packets` hands
    buffered packets to `handle_datagram` again, which counts their bytes a second
    time.  So the bound holds on every run that replays no buffered packet
    (`returned_le_three_received`), and a single replayed packet can break it
    (`replayed_packet_breaks_bound`). -/

namespace QuicAmplification

open History
open QuicVarInt QuicFrames QuicPacket QuicCrypto QuicState QuicReceive QuicRuns QuicLedger
open QuicSimulation

/-- The bytes of a UDP datagram from the peer. -/
def receivedBytes : Event → Nat
  | .received n => n
  | _ => 0

/-- The bytes of a buffered packet that is counted again. -/
def replayedBytes : Event → Nat
  | .replayed n => n
  | _ => 0

/-- A buffered packet is handled again. -/
def isReplayed : Event → Bool
  | .replayed _ => true
  | _ => false

/-- The bytes returned by `poll_outgoing_datagrams`. -/
def returnedBytes : Event → Nat
  | .returned n => n
  | _ => 0

/-- The counters agree with the history, and the budget of an unvalidated peer is
    kept. -/
structure Budget (l : Ledger) : Prop where
  received : l.received = total receivedBytes l.trace + total replayedBytes l.trace
  sent : l.sent = total returnedBytes l.trace
  budget : l.config.isServer = true → l.config.tlsInitialized = true → l.validated = false →
    l.sent ≤ 3 * l.received

variable {faulty : Prop} {config : Config} {l l' : Ledger}

/-- Events that are none of the three kinds leave the counters in place. -/
theorem Budget.later (h : Budget l)
    (later : List Event)
    (hnone : ∀ e ∈ later, receivedBytes e = 0 ∧ replayedBytes e = 0 ∧ returnedBytes e = 0) :
    l.received = total receivedBytes (later ++ l.trace) + total replayedBytes (later ++ l.trace)
      ∧ l.sent = total returnedBytes (later ++ l.trace) := by
  rw [total_append_of_zero (fun e he => (hnone e he).1),
    total_append_of_zero (fun e he => (hnone e he).2.1),
    total_append_of_zero (fun e he => (hnone e he).2.2)]
  exact ⟨h.received, h.sent⟩

/-- A step keeps the budget: a replayed packet raises it, a poll stays within. -/
theorem Budget.step (h : Step faulty l l') (hb : Budget l) : Budget l' := by
  cases h with
  | replay n =>
      refine ⟨?_, hb.sent, ?_⟩
      · show l.received + n = total receivedBytes l.trace + (total replayedBytes l.trace + n)
        rw [hb.received, Nat.add_assoc]
      · intro h₁ h₂ h₃
        have := hb.budget h₁ h₂ h₃
        show l.sent ≤ 3 * (l.received + n)
        omega
  | poll n hle =>
      refine ⟨hb.received, ?_, ?_⟩
      · show l.sent + n = total returnedBytes l.trace + n
        rw [hb.sent]
      · intro h₁ h₂ h₃
        have hbudget := hb.budget h₁ h₂ h₃
        have hle := hle h₁ h₂ h₃
        show l.sent + n ≤ 3 * l.received
        omega
  | validate => exact ⟨hb.received, hb.sent, fun _ _ h => nomatch h⟩
  | lose sp lost _ _ =>
      obtain ⟨hr, hs⟩ := hb.later (lostEvents sp ((l.sentPackets sp).filter lost))
        (forall_lostEvents (fun _ _ => ⟨rfl, rfl, rfl⟩))
      exact ⟨hr, hs, hb.budget⟩
  | deliver =>
      obtain ⟨hr, hs⟩ := hb.later (deliveredEvents l)
        (forall_deliveredEvents (fun _ => ⟨rfl, rfl, rfl⟩))
      exact ⟨hr, hs, hb.budget⟩
  | _ => exact ⟨hb.received, hb.sent, hb.budget⟩

/-- Every reachable ledger keeps the budget. -/
theorem budget_of_reachable (h : (machine faulty config).Reachable l) : Budget l := by
  refine h.invariant ?_ ?_
  · rintro _ ⟨r, rfl⟩
    exact ⟨rfl, rfl, fun _ _ _ => Nat.le_refl 0⟩
  · rintro l l' ((hstep | hclose) | hcall) hb
    · exact hb.step hstep
    · cases hclose
      exact ⟨hb.received, hb.sent, hb.budget⟩
    · cases hcall with
      | call hands => exact ⟨hb.received, hb.sent, hb.budget⟩
      | receive n =>
          refine ⟨?_, hb.sent, ?_⟩
          · show l.received + n = total receivedBytes l.trace + n + total replayedBytes l.trace
            rw [hb.received]
            omega
          · intro h₁ h₂ h₃
            have := hb.budget h₁ h₂ h₃
            show l.sent ≤ 3 * (l.received + n)
            omega

/-- Until the peer's address is validated, and as long as no buffered packet has
    been handed to `handle_datagram` again, a server returns at most three times
    the bytes it has received. -/
theorem returned_le_three_received {K : Type} {env : Env K} {start : Start}
    {s : QuicConnection K} (hserver : start.isServer = true) (htls : start.tls = true)
    (h : Reachable env start s) (hval : s.peerAddressValidated = false)
    (hno : ∀ n, Event.replayed n ∉ s.trace) :
    total returnedBytes s.trace ≤ 3 * total receivedBytes s.trace := by
  have hreach := reachable_view env h
  have hb := budget_of_reachable hreach
  have hconfig : s.toConfig = start.config := reachable_config hreach
  have hreplayed : total replayedBytes s.trace = 0 := by
    rw [total_eq_zero_iff]
    intro e he
    cases e with
    | replayed n => exact absurd he (hno n)
    | _ => rfl
  have hbudget : s.cumulativeBytesSent ≤ 3 * s.cumulativeBytesReceived :=
    hb.budget (by rw [← hserver]; exact congrArg Config.isServer hconfig)
      (by rw [← htls]; exact congrArg Config.tlsInitialized hconfig) hval
  have hreceived : s.cumulativeBytesReceived
      = total receivedBytes s.trace + total replayedBytes s.trace := hb.received
  have hsent : s.cumulativeBytesSent = total returnedBytes s.trace := hb.sent
  omega

/-- The first half of a ClientHello in a full-sized Initial packet. -/
def firstInitial : Bytes :=
  samplePacket .initial 0
    (serializeFrame (.crypto ⟨List.replicate 300 7, 0⟩) ++ List.replicate 850 0)

/-- A server whose TLS engine waits for the rest of the ClientHello returns the
    acknowledgement of the first Initial packet. -/
theorem returned_le_three_received_first_initial :
    let s := (sampleServer true).after (sampleEnv fun _ => {})
      [.handleDatagram firstInitial, .pollOutgoingDatagrams]
    0 < total returnedBytes s.trace
      ∧ total returnedBytes s.trace ≤ 3 * total receivedBytes s.trace := by
  refine ⟨by decide +kernel, ?_⟩
  refine returned_le_three_received rfl rfl
    (Start.after_reachable (sampleEnv fun _ => {}) (sampleServer true) _) (by decide +kernel) ?_
  intro n
  refine not_mem_of_all (p := fun e => !isReplayed e) ?_ rfl
  decide +kernel

/-- A TLS engine that answers the complete ClientHello with a ServerHello, the
    Handshake keys and a certificate of 4600 bytes. -/
def certificateTls : Nat → TlsCall
  | 0 => {}
  | _ =>
    { callbacks :=
        [.cryptoSend (List.replicate 90 1), .yieldSecret 2 true [], .yieldSecret 2 false [],
          .cryptoSend (List.replicate 4600 2)]
      ret := .wantIo }

/-- A Handshake packet that does not authenticate. -/
def forgedHandshake : Bytes :=
  (samplePacket .handshake 0 (List.replicate 400 0)).dropLast ++ [1]

/-- The second half of the ClientHello. -/
def secondInitial : Bytes :=
  samplePacket .initial 1 (serializeFrame (.crypto ⟨List.replicate 200 7, 300⟩))

/-- A forged Handshake packet between the two halves of a ClientHello is buffered,
    and counted again when the Handshake keys arrive: the server returns 6049
    bytes for 1896 received ones. -/
theorem replayed_packet_breaks_bound :
    let s := (sampleServer true).after (sampleEnv certificateTls)
      [.handleDatagram firstInitial, .handleDatagram forgedHandshake,
        .handleDatagram secondInitial, .pollOutgoingDatagrams]
    s.peerAddressValidated = false
      ∧ ¬total returnedBytes s.trace ≤ 3 * total receivedBytes s.trace := by
  decide +kernel

end QuicAmplification
