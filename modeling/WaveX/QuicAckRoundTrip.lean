import WaveX.QuicFrameCodec
import WaveX.IntervalList

/-! # Round trip of an ACK frame

    From the receiver's intervals to the sender's acknowledged ranges:
    `build_ack_frame` writes the gaps and lengths of the intervals of a
    `ReceivedPacketTracker` from the newest one down, the frame crosses the wire, and
    the range loop of `on_ack_received` turns gaps and lengths back into ranges.

    Both relative encodings rest on one invariant of the tracker (`Tidy`): its
    intervals are in order, none touches the next, and there are at most 64 of them.
    `addPacket` keeps it, and under it the decoded ranges are the intervals, newest
    first (`ackedRanges_buildAckFrame`). -/

namespace QuicAckRoundTrip

open QuicVarInt QuicFrames QuicReceiveState QuicSend QuicFrameAdmission QuicFrameCodec List

/-! ## The invariant of the tracker -/

/-- An interval holds at least one packet number, each below `2 ^ 62`. -/
def Proper (p : Nat × Nat) : Prop := p.1 ≤ p.2 ∧ p.2 < 2 ^ 62

/-- `p` ends before `q` and at least one number lies between them. -/
def Apart (p q : Nat × Nat) : Prop := p.2 + 1 < q.1

/-- Proper intervals in order, each apart from the next. -/
structure Ordered (intervals : List (Nat × Nat)) : Prop where
  proper : ∀ p ∈ intervals, Proper p
  apart : intervals.Pairwise Apart

/-- What every tracker keeps. -/
structure Tidy (t : ReceivedPacketTracker) : Prop where
  ordered : Ordered t.intervals
  short : t.intervals.length ≤ 64

theorem Ordered.intervalList {intervals : List (Nat × Nat)} (h : Ordered intervals) :
    IntervalList.Ordered intervals :=
  ⟨fun p hp => (h.proper p hp).1, h.apart⟩

/-- Where `add_packet` stops searching: `pn` lies above the intervals before and not
    above the interval found. -/
structure Split (intervals before rest : List (Nat × Nat)) (pn : Nat) : Prop where
  eq : intervals = before ++ rest
  below : ∀ p ∈ before, p.2 < pn
  above : ∀ q, rest.head? = some q → pn ≤ q.2

theorem split_at (intervals : List (Nat × Nat)) (pn : Nat) :
    Split intervals (intervals.takeWhile (fun p => decide (p.2 < pn)))
      (intervals.dropWhile (fun p => decide (p.2 < pn))) pn := by
  refine ⟨takeWhile_append_dropWhile.symm, ?_, ?_⟩
  · intro p hp
    have hsat := mem_takeWhile_imp hp
    exact of_decide_eq_true hsat
  · intro q hq
    have hnot := head?_dropWhile_not (fun p : Nat × Nat => decide (p.2 < pn)) intervals
    rw [hq] at hnot
    exact Nat.not_lt.mp (by simpa using hnot)

variable {intervals before rest after : List (Nat × Nat)} {it prev : Nat × Nat} {pn : Nat}

/-- The intervals before the last one below `pn` do not touch it. -/
theorem Split.init_below {init : List (Nat × Nat)} (hs : Split intervals (init ++ [prev]) rest pn)
    (h : IntervalList.Ordered intervals) : ∀ p ∈ init, p.2 + 1 < pn := by
  have hpair := h.apart
  rw [hs.eq, append_assoc, pairwise_append] at hpair
  have hprev : prev.2 < pn := hs.below prev (by simp)
  have hproper : prev.1 ≤ prev.2 := h.proper prev (by simp [hs.eq])
  intro p hp
  have hnext : p.2 + 1 < prev.1 := hpair.2.2 p hp prev (by simp)
  omega

/-- The last interval below `pn` lies apart from the interval found. -/
theorem Split.prev_apart {init : List (Nat × Nat)}
    (hs : Split intervals (init ++ [prev]) (it :: after) pn)
    (h : IntervalList.Ordered intervals) : prev.2 + 1 < it.1 := by
  have hpair := h.apart
  rw [hs.eq, pairwise_append] at hpair
  exact hpair.2.2 prev (mem_append_right _ (mem_singleton.mpr rfl)) it
    mem_cons_self

/-- The number is added behind those. -/
theorem Split.add_behind {init : List (Nat × Nat)} (hs : Split intervals (init ++ [prev]) rest pn)
    (h : IntervalList.Ordered intervals) :
    IntervalList.add pn intervals = init ++ IntervalList.add pn (prev :: rest) := by
  rw [hs.eq, append_assoc, IntervalList.add_append (hs.init_below h)]
  rfl

variable {t : ReceivedPacketTracker}

/-- Without the cap in reach nothing is evicted. -/
theorem capIntervals_short (h : t.intervals.length ≤ 64) :
    t.capIntervals = t := by
  rw [ReceivedPacketTracker.capIntervals, if_neg (Nat.not_lt.mpr h)]

/-- `add_packet` adds the number to the intervals and applies the cap. -/
theorem addPacket_eq (h : IntervalList.Ordered t.intervals) (hshort : t.intervals.length ≤ 64)
    (pn : Nat) (ackEliciting : Bool) :
    t.addPacket pn ackEliciting =
      ReceivedPacketTracker.capIntervals
        { t with
          hasPackets := true
          ackElicitingPending := t.ackElicitingPending || ackEliciting
          largestPn := if t.intervals.isEmpty then pn else max t.largestPn pn
          intervals := IntervalList.add pn t.intervals } := by
  have hs := split_at t.intervals pn
  rw [ReceivedPacketTracker.addPacket]
  simp only
  split
  · next hempty =>
    rw [List.isEmpty_iff.mp hempty, capIntervals_short]
    · rfl
    · exact Nat.succ_le_succ (Nat.zero_le _)
  · generalize t.intervals.takeWhile (fun p => decide (p.2 < pn)) = before at hs ⊢
    generalize t.intervals.dropWhile (fun p => decide (p.2 < pn)) = rest at hs ⊢
    have hlen : before.length + rest.length ≤ 64 := by
      rw [← length_append, ← hs.eq]
      exact hshort
    -- is there an interval below `pn` that it may extend?
    rcases eq_nil_or_concat' before with rfl | ⟨init, prev, rfl⟩
    · have hadd : IntervalList.add pn t.intervals = IntervalList.add pn rest := by
        rw [hs.eq, nil_append]
      rw [hadd]
      cases rest with
      | nil => rfl
      | cons it after =>
        have habove := hs.above it rfl
        rw [length_nil, Nat.zero_add, length_cons] at hlen
        rw [IntervalList.add_found habove]
        simp only [getLast?_nil]
        by_cases hin : it.1 ≤ pn
        · rw [if_pos ⟨hin, habove⟩, if_pos hin, hs.eq]
          refine (capIntervals_short ?_).symm
          exact hlen
        · rw [if_neg fun hboth => hin hboth.1, if_neg hin]
          split
          · refine (capIntervals_short ?_).symm
            exact hlen
          · rfl
    · have hprev : prev ∈ init ++ [prev] := mem_append_right _ (mem_singleton.mpr rfl)
      have hbelow := hs.below prev hprev
      have hproper : prev.1 ≤ prev.2 := by
        refine h.proper prev ?_
        rw [hs.eq]
        exact mem_append_left _ hprev
      simp only [length_append, length_cons, length_nil] at hlen
      rw [hs.add_behind h]
      simp only [getLast?_concat, dropLast_concat, append_assoc,
        singleton_append]
      cases rest with
      | nil =>
        dsimp only
        split
        · next htouch =>
          rw [IntervalList.add_extend_last hproper htouch]
          refine (capIntervals_short ?_).symm
          simp only [length_append, length_cons, length_nil]
          omega
        · next hgap =>
          rw [IntervalList.add_behind (by omega)]
          rfl
      | cons it after =>
        have habove := hs.above it rfl
        rw [length_cons] at hlen
        dsimp only
        by_cases htouch : prev.2 + 1 = pn
        · -- `pn` extends its lower neighbour, and may close the gap to the interval found
          have hnext : prev.2 + 1 < it.1 := hs.prev_apart h
          rw [IntervalList.add_extend hproper htouch, if_pos htouch, if_pos htouch,
            if_neg (by omega)]
          by_cases hclose : pn + 1 = it.1
          · rw [if_pos hclose, if_pos hclose]
            refine (capIntervals_short ?_).symm
            simp only [length_append, length_cons]
            omega
          · rw [if_neg hclose, if_neg hclose]
            refine (capIntervals_short ?_).symm
            simp only [length_append, length_cons]
            omega
        -- `pn` does not touch its lower neighbour
        · rw [IntervalList.add_behind (by omega), IntervalList.add_found habove,
            if_neg htouch, if_neg htouch]
          by_cases hin : it.1 ≤ pn
          · rw [if_pos ⟨hin, habove⟩, if_pos hin, hs.eq, append_assoc,
              singleton_append]
            refine (capIntervals_short ?_).symm
            simp only [length_append, length_cons]
            omega
          · rw [if_neg fun hboth => hin hboth.1, if_neg hin]
            split
            · refine (capIntervals_short ?_).symm
              simp only [length_append, length_cons]
              omega
            · rfl

/-- Adding a number below `2 ^ 62` keeps the intervals in order, apart and below it. -/
theorem Ordered.add {intervals : List (Nat × Nat)} (h : Ordered intervals) (hpn : pn < 2 ^ 62) :
    Ordered (IntervalList.add pn intervals) := by
  have hord := h.intervalList
  obtain ⟨hproper, hapart⟩ := IntervalList.add_ordered hord pn
  refine ⟨?_, hapart⟩
  intro p hp
  refine ⟨hproper p hp, ?_⟩
  -- the end of an interval is a number that it holds
  have hend : IntervalList.Holds (IntervalList.add pn intervals) p.2 :=
    ⟨p, hp, hproper p hp, Nat.le_refl _⟩
  rcases (IntervalList.holds_add hord pn p.2).mp hend with heq | ⟨q, hq, -, hle⟩
  · rw [heq]
    exact hpn
  · exact Nat.lt_of_le_of_lt hle (h.proper q hq).2

/-- Evicting the oldest interval restores the cap after one insertion. -/
theorem capIntervals_tidy (hord : Ordered t.intervals) (hlen : t.intervals.length ≤ 65) :
    Tidy t.capIntervals := by
  rw [ReceivedPacketTracker.capIntervals]
  split
  · refine ⟨⟨?_, ?_⟩, ?_⟩
    · intro p hp
      exact hord.proper p (mem_of_mem_drop hp)
    · exact hord.apart.sublist (drop_sublist 1 _)
    · show (t.intervals.drop 1).length ≤ 64
      rw [length_drop]
      omega
  · exact ⟨hord, by omega⟩

/-- **Step**: `add_packet` keeps the intervals in order and apart. -/
theorem addPacket_tidy (h : Tidy t) (hpn : pn < 2 ^ 62) (ackEliciting : Bool) :
    Tidy (t.addPacket pn ackEliciting) := by
  obtain ⟨hord, hshort⟩ := h
  rw [addPacket_eq hord.intervalList hshort]
  refine capIntervals_tidy (hord.add hpn) ?_
  exact Nat.le_trans (IntervalList.add_length pn t.intervals) (Nat.succ_le_succ hshort)

/-- The tracker after a sequence of `add_packet(pn, ack_eliciting)` calls. -/
def addPackets (t : ReceivedPacketTracker) (calls : List (Nat × Bool)) : ReceivedPacketTracker :=
  calls.foldl (fun t c => t.addPacket c.1 c.2) t

/-- **Run**: every tracker reached by `add_packet` calls is tidy. -/
theorem addPackets_tidy {calls : List (Nat × Bool)} (hcalls : ∀ c ∈ calls, c.1 < 2 ^ 62)
    (h : Tidy t) : Tidy (addPackets t calls) := by
  induction calls generalizing t with
  | nil => exact h
  | cons c calls ih =>
      have hstep := addPacket_tidy h (hcalls c (mem_cons_self ..)) c.2
      exact ih (fun d hd => hcalls d (mem_cons_of_mem _ hd)) hstep

theorem fresh_tidy : Tidy {} :=
  ⟨⟨fun _ hp => absurd hp not_mem_nil, List.Pairwise.nil⟩, Nat.zero_le _⟩

/-- The last interval is never dropped: a tracker that has taken a packet has one. -/
theorem addPacket_intervals_ne_nil (t : ReceivedPacketTracker) (pn : Nat) (ackEliciting : Bool) :
    (t.addPacket pn ackEliciting).intervals ≠ [] := by
  have hcap : ∀ u : ReceivedPacketTracker, u.intervals ≠ [] → u.capIntervals.intervals ≠ [] := by
    intro u hu hnil
    rw [ReceivedPacketTracker.capIntervals] at hnil
    split at hnil
    · next hlong =>
      have hlen := congrArg List.length hnil
      simp only [length_drop, length_nil] at hlen
      omega
    · exact hu hnil
  rw [ReceivedPacketTracker.addPacket]
  simp only
  split
  · exact cons_ne_nil _ _
  · next hne =>
    have hne : t.intervals ≠ [] := by simpa using hne
    cases t.intervals.dropWhile (fun p => decide (p.2 < pn)) with
    | nil =>
        simp only
        split
        · split
          · simp
          · exact hcap _ (by simp)
        · exact hcap _ (by simp)
    | cons it after =>
        simp only
        split
        · exact hne
        · split
          · split
            · split <;> simp
            · simp
          · split
            · split
              · simp
              · exact hcap _ (by simp)
            · exact hcap _ (by simp)

/-! ## Decoding the ranges -/

/-- The relative ranges decode to the intervals they were made of. -/
theorem decodeAckRanges_ackRangesBelow {newest : Nat × Nat} {older : List (Nat × Nat)}
    (hproper : ∀ p ∈ older, Proper p)
    (hapart : (newest :: older).Pairwise (fun q p => Apart p q)) :
    decodeAckRanges newest.1 (ReceivedPacketTracker.ackRangesBelow newest older) = older := by
  induction older generalizing newest with
  | nil => rfl
  | cons curr older ih =>
      have hcurr := hproper curr (mem_cons_self ..)
      have hgap : curr.2 + 1 < newest.1 :=
        rel_of_pairwise_cons hapart (mem_cons_self ..)
      have hrest := ih (fun p hp => hproper p (mem_cons_of_mem _ hp)) hapart.tail
      have hwritten : (if newest.1 > curr.2 + 2 then newest.1 - curr.2 - 2 else 0)
          = newest.1 - curr.2 - 2 := by
        split <;> omega
      rw [ReceivedPacketTracker.ackRangesBelow, hwritten, decodeAckRanges,
        if_neg (by simp only; omega)]
      have hlargest : newest.1 - (newest.1 - curr.2 - 2) - 2 = curr.2 := by omega
      have hsmallest : curr.2 - (curr.2 - curr.1) = curr.1 := by
        have := hcurr.1
        omega
      simp only [hlargest, hsmallest, hrest]

/-- The decoded ranges of the ACK of a tidy tracker are its intervals, newest first. -/
theorem ackedRanges_buildAckFrame (h : Tidy t) (hne : t.intervals ≠ []) (ackDelay : Nat) :
    ackedRanges (t.buildAckFrame ackDelay) = t.intervals.reverse := by
  have hproper : ∀ p ∈ t.intervals.reverse, Proper p :=
    fun p hp => h.ordered.proper p (mem_reverse.mp hp)
  have hapart : t.intervals.reverse.Pairwise (fun q p => Apart p q) :=
    pairwise_reverse.mpr h.ordered.apart
  rw [ReceivedPacketTracker.buildAckFrame]
  cases hrev : t.intervals.reverse with
  | nil => exact absurd (reverse_eq_nil_iff.mp hrev) hne
  | cons newest older =>
      rw [hrev] at hproper hapart
      have hnewest := (hproper newest (mem_cons_self ..)).1
      have hsmallest : newest.2 - (newest.2 - newest.1) = newest.1 := by omega
      have hbelow := decodeAckRanges_ackRangesBelow
        (fun p hp => hproper p (mem_cons_of_mem _ hp)) hapart
      simp only [ackedRanges, head?_cons, Option.map_some, Option.getD_some, hsmallest,
        drop_succ_cons, drop_zero, hbelow]

/-- Every integer of the ranges below an interval fits a varint. -/
theorem ackRangesBelow_fits {newest : Nat × Nat} {older : List (Nat × Nat)}
    (hnewest : Proper newest) (hproper : ∀ p ∈ older, Proper p) :
    ∀ r ∈ ReceivedPacketTracker.ackRangesBelow newest older,
      fitsVarint r.gap ∧ fitsVarint r.ackRangeLen := by
  induction older generalizing newest with
  | nil => exact fun r hr => absurd hr not_mem_nil
  | cons curr older ih =>
      have hcurr := hproper curr (mem_cons_self ..)
      have hrest := ih hcurr fun p hp => hproper p (mem_cons_of_mem _ hp)
      intro r hr
      rcases mem_cons.mp hr with rfl | hr
      · obtain ⟨hle, hlt⟩ := hnewest
        obtain ⟨hle', hlt'⟩ := hcurr
        simp only [fitsVarint]
        split <;> omega
      · exact hrest r hr

theorem ackRangesBelow_length (newest : Nat × Nat) (older : List (Nat × Nat)) :
    (ReceivedPacketTracker.ackRangesBelow newest older).length = older.length := by
  induction older generalizing newest with
  | nil => rfl
  | cons curr older ih => rw [ReceivedPacketTracker.ackRangesBelow, length_cons, ih,
      length_cons]

/-- The ACK of a tidy tracker fits the wire and is its own normal form. -/
theorem buildAckFrame_wireReady (h : Tidy t) (hne : t.intervals ≠ []) {ackDelay : Nat}
    (hdelay : ackDelay < 2 ^ 62) :
    WireReady (.ack (t.buildAckFrame ackDelay))
      ∧ wireFrame (.ack (t.buildAckFrame ackDelay)) = .ack (t.buildAckFrame ackDelay) := by
  have hproper : ∀ p ∈ t.intervals.reverse, Proper p :=
    fun p hp => h.ordered.proper p (mem_reverse.mp hp)
  have hshort := h.short
  rw [← length_reverse] at hshort
  rw [ReceivedPacketTracker.buildAckFrame]
  cases hrev : t.intervals.reverse with
  | nil => exact absurd (reverse_eq_nil_iff.mp hrev) hne
  | cons newest older =>
      rw [hrev] at hproper hshort
      have hnewest := hproper newest (mem_cons_self ..)
      have hbelow := ackRangesBelow_fits hnewest
        fun p hp => hproper p (mem_cons_of_mem _ hp)
      refine ⟨⟨hnewest.2, hdelay, ?_, ?_⟩, rfl⟩
      · rw [length_cons] at hshort
        rw [length_cons, ackRangesBelow_length]
        exact Nat.lt_of_le_of_lt hshort (by decide)
      · intro r hr
        rcases mem_cons.mp hr with rfl | hr
        · exact ⟨Nat.two_pow_pos 62, Nat.lt_of_le_of_lt (Nat.sub_le _ _) hnewest.2⟩
        · exact hbelow r hr

/-- `pn` lies in one of the intervals. -/
def holds (intervals : List (Nat × Nat)) (pn : Nat) : Prop :=
  ∃ p ∈ intervals, p.1 ≤ pn ∧ pn ≤ p.2

instance (intervals : List (Nat × Nat)) (pn : Nat) : Decidable (holds intervals pn) :=
  inferInstanceAs (Decidable (∃ p ∈ intervals, p.1 ≤ pn ∧ pn ≤ p.2))

theorem isAcked_iff_holds {intervals ranges : List (Nat × Nat)}
    (h : ranges = intervals.reverse) (pn : Nat) :
    isAcked ranges pn = true ↔ holds intervals pn := by
  subst h
  simp [isAcked, holds]

/-- What the sender reads out of the bytes of the ACK of `t`: the parsed frame is an
    ACK, and the ranges it decodes acknowledge exactly the numbers in the intervals. -/
def AckReadBack (t : ReceivedPacketTracker) (ackDelay : Nat) : Prop :=
  ∃ ack, parseFrames (serializeFrame (.ack (t.buildAckFrame ackDelay))) = some [.ack ack]
    ∧ ∀ pn, isAcked (ackedRanges ack) pn = true ↔ holds t.intervals pn

/-- **ACK round trip**: the ACK of a tracker that has taken packets, serialized, parsed
    and decoded, acknowledges exactly the packet numbers in the tracker's intervals. -/
theorem ackReadBack_addPackets (calls : List (Nat × Bool)) (hne : calls ≠ [])
    (hcalls : ∀ c ∈ calls, c.1 < 2 ^ 62) (ackDelay : Nat) (hdelay : ackDelay < 2 ^ 62) :
    AckReadBack (addPackets {} calls) ackDelay := by
  have htidy := addPackets_tidy hcalls fresh_tidy
  have hsome : (addPackets {} calls).intervals ≠ [] := by
    obtain ⟨init, last, rfl⟩ := eq_nil_or_concat calls |>.resolve_left hne
    rw [addPackets, concat_eq_append, foldl_append]
    exact addPacket_intervals_ne_nil _ _ _
  obtain ⟨hready, hnormal⟩ := buildAckFrame_wireReady htidy hsome hdelay
  have hall : ∀ f ∈ [Frame.ack ((addPackets {} calls).buildAckFrame ackDelay)], WireReady f :=
    fun f hf => by rw [mem_singleton.mp hf]; exact hready
  have hparse := parseFrames_pending hall 0
  rw [replicate_zero, nil_append, serializeFrames, flatMap_cons,
    flatMap_nil, append_nil] at hparse
  refine ⟨_, ?_, isAcked_iff_holds (ackedRanges_buildAckFrame htidy hsome ackDelay)⟩
  rw [hparse]
  show some [wireFrame (.ack _)] = some [.ack _]
  rw [hnormal]

/-- Three packets in two intervals: 3, 4 and 9. -/
theorem ackReadBack_two_intervals :
    (addPackets {} [(4, true), (9, false), (3, true)]).intervals = [(3, 4), (9, 9)]
      ∧ AckReadBack (addPackets {} [(4, true), (9, false), (3, true)]) 0 :=
  ⟨by decide, ackReadBack_addPackets [(4, true), (9, false), (3, true)] (by decide)
    (by decide) 0 (by decide)⟩

/-- The ACK of a tracker that has taken no packet acknowledges packet number 0. -/
theorem fresh_acknowledges_zero : ¬ AckReadBack (addPackets {} []) 0 := by
  rintro ⟨ack, hparse, hall⟩
  have hframe : parseFrames (serializeFrame (.ack (({} : ReceivedPacketTracker).buildAckFrame 0)))
      = some [.ack ⟨[⟨0, 0⟩], 0, 0, false⟩] := by decide
  have hack : ack = ⟨[⟨0, 0⟩], 0, 0, false⟩ := by
    have heq := Option.some.inj (hparse.symm.trans hframe)
    exact Frame.ack.inj (List.cons.inj heq).1
  subst hack
  exact absurd ((hall 0).mp (by decide)) (by decide)

end QuicAckRoundTrip
