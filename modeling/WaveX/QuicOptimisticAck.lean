import WaveX.QuicReceiveSimulation

/-! # Acknowledgements of packets never sent

    `on_ack_received` takes `largest_acknowledged` as the peer wrote it: it becomes
    `largest_acked_packet_` and the mark of the packet threshold as soon as one of the
    frame's ranges covers a packet in flight.  Nothing compares it with the packet
    numbers sent.

    As long as every ACK frame that newly acknowledges a packet names as its largest
    number one that was sent (`Plausible`), the largest number stays below the next
    packet number, and a packet is declared lost only after a later one was
    acknowledged (`largest_acked_sent`).  One forged frame breaks both
    (`forged_largest_accepted`). -/

namespace QuicOptimisticAck

open History List
open QuicVarInt QuicFrames QuicPacket CongestionControl QuicState QuicSend QuicReceive QuicRuns
  QuicLedger QuicSimulation

/-! ## The laws -/

/-- A packet that was sent in the space has been acknowledged. -/
def SentAndAcked (events : List Event) (sp : PnSpace) (pn : Nat) : Prop :=
  Event.transmitted sp pn ∈ events
    ∧ ∃ ranges, Event.acked sp ranges ∈ events ∧ isAcked ranges pn = true

/-- A packet is declared lost only after a packet sent with a higher number has been
    acknowledged. -/
def LossLaw : Event → List Event → Prop
  | .lost sp pn _, past => ∃ m, pn < m ∧ SentAndAcked past sp m
  | _, _ => True

/-- An ACK frame that newly acknowledges a packet names a number that was sent as its
    largest. -/
def Plausible : Event → List Event → Prop
  | .newlyAcked sp largest, past => Event.transmitted sp largest ∈ past
  | _, _ => True

instance : (e : Event) → (past : List Event) → Decidable (Plausible e past)
  | .newlyAcked .., _ => inferInstanceAs (Decidable (_ ∈ _))
  | .called .., _ | .received .., _ | .replayed .., _ | .returned .., _
  | .sealed .., _ | .transmitted .., _ | .packetized .., _ | .acked .., _ | .lost .., _
  | .accepted .., _ | .streamSent .., _ | .sendStateDropped .., _ | .creditData .., _
  | .creditStream .., _ | .frameSeen .., _ | .streamCreated .., _ | .streamHanded .., _
  | .datagramDelivered .., _ | .handshakeResumed, _ | .appended .., _ | .closed .., _ =>
      inferInstanceAs (Decidable True)

/-- The event acknowledges `pn` in the space. -/
def acknowledges (sp : PnSpace) (pn : Nat) : Event → Bool
  | .acked sq ranges => decide (sq = sp) && isAcked ranges pn
  | _ => false

/-- A packet sent in the space with a number above `pn` has been acknowledged. -/
def ackedAbove (events : List Event) (sp : PnSpace) (pn : Nat) : Bool :=
  events.any fun
    | .transmitted sq m => decide (sq = sp) && decide (pn < m) && events.any (acknowledges sp m)
    | _ => false

variable {events : List Event} {sp : PnSpace}

theorem any_acknowledges_iff {pn : Nat} :
    events.any (acknowledges sp pn) = true
      ↔ ∃ ranges, Event.acked sp ranges ∈ events ∧ isAcked ranges pn = true := by
  rw [any_eq_true]
  constructor
  · rintro ⟨e, he, hack⟩
    cases e with
    | acked sq ranges =>
        simp only [acknowledges, Bool.and_eq_true, decide_eq_true_eq] at hack
        obtain ⟨rfl, hack⟩ := hack
        exact ⟨ranges, he, hack⟩
    | _ => exact absurd hack Bool.false_ne_true
  · rintro ⟨ranges, he, hack⟩
    exact ⟨_, he, by simp [acknowledges, hack]⟩

theorem ackedAbove_iff {pn : Nat} :
    ackedAbove events sp pn = true ↔ ∃ m, pn < m ∧ SentAndAcked events sp m := by
  rw [ackedAbove, any_eq_true]
  constructor
  · rintro ⟨e, he, hack⟩
    cases e with
    | transmitted sq m =>
        simp only [Bool.and_eq_true, decide_eq_true_eq] at hack
        obtain ⟨⟨rfl, hlt⟩, hack⟩ := hack
        exact ⟨m, hlt, he, any_acknowledges_iff.mp hack⟩
    | _ => exact absurd hack Bool.false_ne_true
  · rintro ⟨m, hlt, he, hack⟩
    exact ⟨_, he, by simp [hlt, any_acknowledges_iff.mpr hack]⟩

instance : (e : Event) → (past : List Event) → Decidable (LossLaw e past)
  | .lost sp pn _, past => decidable_of_iff (ackedAbove past sp pn = true) ackedAbove_iff
  | .called .., _ | .received .., _ | .replayed .., _ | .returned .., _
  | .sealed .., _ | .transmitted .., _ | .packetized .., _ | .acked .., _ | .newlyAcked .., _
  | .accepted .., _ | .streamSent .., _ | .sendStateDropped .., _ | .creditData .., _
  | .creditStream .., _ | .frameSeen .., _ | .streamCreated .., _ | .streamHanded .., _
  | .datagramDelivered .., _ | .handshakeResumed, _ | .appended .., _ | .closed .., _ =>
      inferInstanceAs (Decidable True)

theorem SentAndAcked.mono {later events : List Event} {pn : Nat} (h : SentAndAcked events sp pn) :
    SentAndAcked (later ++ events) sp pn := by
  obtain ⟨hsent, ranges, hmem, hacked⟩ := h
  exact ⟨mem_append_right _ hsent, ranges, mem_append_right _ hmem, hacked⟩

/-- Under the condition the largest number of a counting ACK frame was sent and is
    acknowledged. -/
theorem sentAndAcked_of_ackedUpTo {largest : Nat} (hg : Always Plausible events)
    (h : AckedUpTo events sp largest) :
    SentAndAcked events sp largest := by
  obtain ⟨hnew, hacked⟩ := h
  obtain ⟨past, hsent, -, hsuffix⟩ := hg.of_mem hnew
  exact ⟨hsuffix.subset hsent, hacked⟩

/-! ## The invariant -/

/-- Numbers sent and the largest one acknowledged lie below the next packet number, and
    the history has obeyed the law. -/
structure Grounded (l : Ledger) : Prop where
  sent : ∀ sp pn, Event.transmitted sp pn ∈ l.trace → pn < l.nextPacketNumber sp
  largest : ∀ sp n, l.largestAcked sp = some n → n < l.nextPacketNumber sp
  law : Always LossLaw l.trace

variable {faulty : Prop} {config : Config} {l l' : Ledger}

/-- Neither a transmission nor a loss. -/
def neutral : Event → Bool
  | .transmitted _ _ | .lost _ _ _ => false
  | _ => true

theorem lossLaw_of_neutral {e : Event} (h : neutral e = true) (past : List Event) :
    LossLaw e past := by
  cases e with
  | lost sp pn bytes => exact absurd h Bool.false_ne_true
  | _ => trivial

/-- Neutral events on a ledger whose packet numbers only grow. -/
theorem Grounded.aside (hgr : Grounded l) (later : List Event)
    (hl : ∀ e ∈ later, neutral e = true) (htr : l'.trace = later ++ l.trace)
    (hnext : ∀ sp, l.nextPacketNumber sp ≤ l'.nextPacketNumber sp)
    (hlargest : l'.largestAcked = l.largestAcked) : Grounded l' := by
  refine ⟨?_, ?_, ?_⟩
  · intro sp pn hmem
    rw [htr] at hmem
    rcases mem_append.mp hmem with hmem | hmem
    · exact absurd (hl _ hmem) Bool.false_ne_true
    · exact Nat.lt_of_lt_of_le (hgr.sent sp pn hmem) (hnext sp)
  · intro sp n hn
    rw [hlargest] at hn
    exact Nat.lt_of_lt_of_le (hgr.largest sp n hn) (hnext sp)
  · rw [htr]
    clear htr
    induction later with
    | nil => exact hgr.law
    | cons e later ih =>
        exact ⟨lossLaw_of_neutral (hl e mem_cons_self) _,
          ih fun e' he' => hl e' (mem_cons_of_mem _ he')⟩

theorem bump_le (l : Ledger) (sp sq : PnSpace) :
    l.nextPacketNumber sq ≤ (l.bump sp).nextPacketNumber sq := by
  by_cases hsq : sq = sp
  · subst hsq
    simp only [Ledger.bump, Function.update_self]
    exact Nat.le_succ _
  · simp only [Ledger.bump, Function.update_of_ne hsq, Nat.le_refl]

/-- The losses of one round of loss detection are lawful. -/
theorem always_lossLaw_lost {pkts : List SentPacket}
    (h : ∀ p ∈ pkts, ∃ m, p.packetNumber < m ∧ SentAndAcked events sp m)
    (hlaw : Always LossLaw events) : Always LossLaw (lostEvents sp pkts ++ events) := by
  rw [lostEvents, ← map_reverse]
  have h' : ∀ p ∈ pkts.reverse, ∃ m, p.packetNumber < m ∧ SentAndAcked events sp m :=
    fun p hp => h p (mem_reverse.mp hp)
  generalize pkts.reverse = rev at h'
  induction rev with
  | nil => exact hlaw
  | cons p rev ih =>
      obtain ⟨m, hlt, hm⟩ := h' p mem_cons_self
      exact ⟨⟨m, hlt, hm.mono⟩, ih fun q hq => h' q (mem_cons_of_mem _ hq)⟩

/-- **Step**: as long as the condition holds, a step keeps the ledger grounded. -/
theorem Grounded.step (h : Step faulty l l') (hg : Always Plausible l'.trace)
    (hgr : Grounded l) : Grounded l' := by
  cases h with
  | skip sp => exact hgr.aside [] (by simp) rfl (bump_le l sp) rfl
  | sealNext sp slot gen _ => exact hgr.aside [_] (by simp [neutral]) rfl (bump_le l sp) rfl
  | transmit sp pn hpn =>
      refine ⟨?_, hgr.largest, trivial, hgr.law⟩
      intro sq qn hmem
      rcases mem_cons.mp hmem with heq | hmem
      · obtain ⟨rfl, rfl⟩ := Event.transmitted.inj heq
        exact hpn
      · exact hgr.sent sq qn hmem
  | noteLargest sp largest ranges hmem hacked =>
      have hlt : largest < l.nextPacketNumber sp := hgr.sent sp largest hg.1
      have hold := hgr.largest sp
      refine ⟨?_, ?_, trivial, hgr.law⟩
      · intro sq qn hq
        exact hgr.sent sq qn ((mem_cons.mp hq).resolve_left nofun)
      · intro sq n hn
        by_cases hsq : sq = sp
        · subst hsq
          simp only [Function.update_self, Option.some.injEq] at hn
          rw [← hn]
          cases hl : l.largestAcked sq with
          | none => exact hlt
          | some m => exact Nat.max_lt.mpr ⟨hold m hl, hlt⟩
        · simp only [Function.update_of_ne hsq] at hn
          exact hgr.largest sq n hn
  | lose sp lost _ hlost =>
      have hpast : Always Plausible l.trace := hg.past
      refine ⟨?_, hgr.largest, ?_⟩
      · intro sq qn hmem
        rcases mem_append.mp hmem with hmem | hmem
        · obtain ⟨pn, bytes, heq⟩ := mem_lostEvents hmem
          exact absurd heq nofun
        · exact hgr.sent sq qn hmem
      · refine always_lossLaw_lost ?_ hgr.law
        intro p hp
        obtain ⟨hp, hl⟩ := mem_filter.mp hp
        obtain ⟨largest, hlt, hup⟩ := hlost p hp hl
        exact ⟨largest, hlt, sentAndAcked_of_ackedUpTo hpast hup⟩
  | deliver =>
      exact hgr.aside _ (forall_deliveredEvents fun _ => rfl) rfl (fun _ => Nat.le_refl _) rfl
  | _ => first
    | exact hgr.aside [] (by simp) rfl (fun _ => Nat.le_refl _) rfl
    | exact hgr.aside [_] (by simp [neutral]) rfl (fun _ => Nat.le_refl _) rfl

/-- **Run**: every reachable ledger of a run that meets the condition is grounded. -/
theorem grounded_of_reachable (h : (machine faulty config).Reachable l)
    (hg : Always Plausible l.trace) : Grounded l := by
  refine h.invariant_while (G := fun l => Always Plausible l.trace) ?_ ?_ ?_ hg
  · rintro l l' ((hstep | hclose) | hcall) hg
    · obtain ⟨later, htr, -⟩ := hstep.trace_eq
      rw [htr] at hg
      exact hg.past
    · cases hclose
      exact hg.2
    · cases hcall <;> exact hg.2
  · rintro _ ⟨r, rfl⟩
    exact ⟨fun _ _ h => absurd h not_mem_nil, fun _ _ h => absurd h.symm (Option.some_ne_none _),
      trivial⟩
  · rintro l l' ((hstep | hclose) | hcall) hg hgr
    · exact hgr.step hstep hg
    · cases hclose
      exact hgr.aside [_] (by simp [neutral]) rfl (fun _ => Nat.le_refl _) rfl
    · cases hcall <;>
        exact hgr.aside [_] (by simp [neutral]) rfl (fun _ => Nat.le_refl _) rfl

/-! ## The connection -/

/-- `largest_acked_packet_` of every space that has one lies below the next packet
    number. -/
def LargestBelowNext {K : Type} (s : QuicConnection K) : Prop :=
  ∀ sp, s.hasLargestAcked sp = true → s.largestAckedPacket sp < s.nextPacketNumber sp

/-- **Optimistic ACKs**: in every run in which an ACK frame that newly acknowledges a
    packet names a number that was sent as its largest, the largest acknowledged number
    stays below the next packet number, and a packet is declared lost only after a
    packet sent with a higher number has been acknowledged. -/
theorem largest_acked_sent {K : Type} {env : Env K} {start : Start} {s : QuicConnection K}
    (h : Reachable env start s) (hg : Always Plausible s.trace) :
    LargestBelowNext s ∧ Always LossLaw s.trace := by
  have hgr := grounded_of_reachable (reachable_view env h) hg
  refine ⟨?_, hgr.law⟩
  intro sp hsome
  refine hgr.largest sp (s.largestAckedPacket sp) ?_
  show (if s.hasLargestAcked sp = true then _ else _) = _
  rw [if_pos hsome]

/-- Four packets are sent and the fourth is acknowledged. -/
theorem largest_acked_sent_honest :
    let s := (sampleServer false).after (sampleEnv fun _ => {}) (sampleWrites ++ [sampleAck])
    Event.lost .application 0 33 ∈ s.trace ∧ LargestBelowNext s ∧ Always LossLaw s.trace :=
  ⟨by decide +kernel, largest_acked_sent
    (Start.after_reachable (sampleEnv fun _ => {}) (sampleServer false) _) (by decide +kernel)⟩

/-- The peer acknowledges the first 1-RTT packet and packet 1000, which was never sent. -/
def forgedAck : Op :=
  .handleDatagram (samplePacket .oneRtt 0
    (serializeFrame (.ack ⟨[⟨0, 0⟩, ⟨998, 0⟩], 1000, 0, false⟩)))

/-- The forged number becomes the largest acknowledged one, and the three packets after
    the first are declared lost although nothing above them was acknowledged. -/
theorem forged_largest_accepted :
    let s := (sampleServer false).after (sampleEnv fun _ => {}) (sampleWrites ++ [forgedAck])
    s.largestAckedPacket .application = 1000 ∧ ¬ LargestBelowNext s
      ∧ ¬ Always LossLaw s.trace := by
  refine ⟨by decide +kernel, fun hbelow => ?_, by decide +kernel⟩
  exact absurd (hbelow .application (by decide +kernel)) (by decide +kernel)

end QuicOptimisticAck
