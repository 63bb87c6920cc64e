import WaveX.QuicAckRoundTrip

/-! # Replay protection

    `ReceivedPacketTracker` over any sequence of `add_packet` calls.  Its intervals hold
    numbers that were added, and those that it no longer holds lie below `evicted_below`: a
    number once added satisfies `contains` for good.

    No sum of the code wraps at 64 bits: `pn + 1` is only compared with an interval that
    begins above `pn`, and only the end of an interval that another one follows is
    incremented. -/

namespace QuicReplay

open QuicReceiveState QuicAckRoundTrip List

/-- The packet numbers of the calls. -/
def numbers (calls : List (Nat × Bool)) : List Nat := calls.map Prod.fst

/-- What the tracker knows about the numbers that were added. -/
structure Tracks (added : List Nat) (t : ReceivedPacketTracker) : Prop where
  ordered : IntervalList.Ordered t.intervals
  short : t.intervals.length ≤ 64
  nonempty : t.intervals = [] ↔ added = []
  started : added ≠ [] → t.hasPackets = true
  largest : added ≠ [] → t.largestPn ∈ added
  upper : ∀ n ∈ added, n ≤ t.largestPn
  kept : ∀ n ∈ added, n < t.evictedBelow ∨ IntervalList.Holds t.intervals n
  only : ∀ n, IntervalList.Holds t.intervals n → n ∈ added

/-! ## The cap -/

variable {t : ReceivedPacketTracker}

/-- What the cap evicts lies below `evicted_below`; it touches nothing else. -/
theorem capIntervals_kept {n : Nat} (h : n < t.evictedBelow ∨ IntervalList.Holds t.intervals n) :
    n < t.capIntervals.evictedBelow ∨ IntervalList.Holds t.capIntervals.intervals n := by
  rw [ReceivedPacketTracker.capIntervals]
  split
  · next hlong =>
    dsimp only
    cases hints : t.intervals with
    | nil =>
      rw [hints] at hlong
      exact absurd hlong (Nat.not_lt_zero 64)
    | cons p rest =>
      rw [hints, IntervalList.holds_cons] at h
      rw [headD_cons, drop_succ_cons, drop_zero]
      rcases h with hlow | hin | hrest
      · exact .inl (by omega)
      · exact .inl (by omega)
      · exact .inr hrest
  · exact h

/-- The cap leaves no interval that was not there. -/
theorem capIntervals_sublist (t : ReceivedPacketTracker) :
    t.capIntervals.intervals.Sublist t.intervals := by
  rw [ReceivedPacketTracker.capIntervals]
  split
  · exact drop_sublist 1 _
  · exact List.Sublist.refl _

theorem capIntervals_length (h : t.intervals.length ≤ 65) :
    t.capIntervals.intervals.length ≤ 64 := by
  rw [ReceivedPacketTracker.capIntervals]
  split
  · rw [length_drop]
    omega
  · omega

theorem capIntervals_frame (t : ReceivedPacketTracker) :
    t.capIntervals.largestPn = t.largestPn ∧ t.capIntervals.hasPackets = t.hasPackets := by
  rw [ReceivedPacketTracker.capIntervals]
  split
  · exact ⟨rfl, rfl⟩
  · exact ⟨rfl, rfl⟩

/-! ## One packet -/

theorem addPacket_tracks {added : List Nat} (h : Tracks added t) (pn : Nat) (ackEliciting : Bool) :
    Tracks (added ++ [pn]) (t.addPacket pn ackEliciting) := by
  have hne := addPacket_intervals_ne_nil t pn ackEliciting
  rw [addPacket_eq h.ordered h.short] at hne ⊢
  obtain ⟨hlargest, hstarted⟩ := capIntervals_frame
    { t with
      hasPackets := true
      ackElicitingPending := t.ackElicitingPending || ackEliciting
      largestPn := if t.intervals.isEmpty then pn else max t.largestPn pn
      intervals := IntervalList.add pn t.intervals }
  have hmem : ∀ n, n ∈ added ++ [pn] ↔ n = pn ∨ n ∈ added := by
    intro n
    rw [mem_append, mem_singleton, or_comm]
  have hmax : (if t.intervals.isEmpty then pn else max t.largestPn pn) ∈ added ++ [pn] ∧
      ∀ n ∈ added ++ [pn], n ≤ if t.intervals.isEmpty then pn else max t.largestPn pn := by
    by_cases hempty : t.intervals = []
    · rw [if_pos (List.isEmpty_iff.mpr hempty), h.nonempty.mp hempty]
      refine ⟨mem_singleton.mpr rfl, ?_⟩
      intro n hn
      rw [nil_append, mem_singleton] at hn
      exact Nat.le_of_eq hn
    · have hadded : added ≠ [] := fun hnil => hempty (h.nonempty.mpr hnil)
      rw [if_neg (by rwa [List.isEmpty_iff])]
      constructor
      · rcases Nat.le_total t.largestPn pn with hle | hle
        · rw [Nat.max_eq_right hle]
          exact (hmem pn).mpr (.inl rfl)
        · rw [Nat.max_eq_left hle]
          exact (hmem _).mpr (.inr (h.largest hadded))
      · intro n hn
        rcases (hmem n).mp hn with rfl | hn
        · exact Nat.le_max_right _ _
        · exact Nat.le_trans (h.upper n hn) (Nat.le_max_left _ _)
  refine ⟨?_, ?_, ?_, ?_, ?_, ?_, ?_, ?_⟩
  · exact (IntervalList.add_ordered h.ordered pn).sublist (capIntervals_sublist _)
  · exact capIntervals_length (Nat.le_trans (IntervalList.add_length pn t.intervals)
      (Nat.succ_le_succ h.short))
  · exact iff_of_false hne (append_ne_nil_of_right_ne_nil _ (cons_ne_nil _ _))
  · intro _
    exact hstarted
  · intro _
    rw [hlargest]
    exact hmax.1
  · rw [hlargest]
    exact hmax.2
  · intro n hn
    -- what the cap drops is below the intervals that stay
    apply capIntervals_kept
    dsimp only
    rw [IntervalList.holds_add h.ordered]
    rcases (hmem n).mp hn with hn | hn
    · exact .inr (.inl hn)
    · exact (h.kept n hn).imp_right .inr
  · intro n hholds
    obtain ⟨p, hp, hin⟩ := hholds
    have hadd : IntervalList.Holds (IntervalList.add pn t.intervals) n :=
      ⟨p, (capIntervals_sublist _).subset hp, hin⟩
    rw [hmem]
    exact ((IntervalList.holds_add h.ordered pn n).mp hadd).imp_right (h.only n)

/-! ## Any packets -/

theorem fresh_tracks : Tracks [] {} where
  ordered := ⟨fun _ hp => absurd hp not_mem_nil, List.Pairwise.nil⟩
  short := Nat.zero_le _
  nonempty := iff_of_true rfl rfl
  started := fun h => absurd rfl h
  largest := fun h => absurd rfl h
  upper := fun _ hn => absurd hn not_mem_nil
  kept := fun _ hn => absurd hn not_mem_nil
  only := fun n hn => absurd hn (IntervalList.holds_nil n)

theorem addPackets_tracks {added : List Nat} (h : Tracks added t) (calls : List (Nat × Bool)) :
    Tracks (added ++ numbers calls) (addPackets t calls) := by
  induction calls generalizing added t with
  | nil =>
    rw [numbers, map_nil, append_nil]
    exact h
  | cons c calls ih =>
    have hrest := ih (addPacket_tracks h c.1 c.2)
    rw [append_assoc, singleton_append] at hrest
    exact hrest

/-- `contains` says that the number was evicted or lies in an interval. -/
theorem contains_iff (t : ReceivedPacketTracker) (n : Nat) :
    t.contains n = true ↔
      t.hasPackets = true ∧ (n < t.evictedBelow ∨ IntervalList.Holds t.intervals n) := by
  simp only [ReceivedPacketTracker.contains, Bool.and_eq_true, Bool.or_eq_true,
    decide_eq_true_eq, any_eq_true, IntervalList.Holds, ge_iff_le]
  have hpos : t.evictedBelow > 0 ∧ n < t.evictedBelow ↔ n < t.evictedBelow := by omega
  rw [hpos]

/-- Over any calls: the intervals are in order, disjoint and not adjacent, at most 64; the
    largest number is the maximum; what was added is contained for good; and what is contained
    without having been added lies below `evicted_below`. -/
theorem addPackets_replay (calls : List (Nat × Bool)) :
    IntervalList.Ordered (addPackets {} calls).intervals ∧
      (addPackets {} calls).intervals.length ≤ 64 ∧
      (calls ≠ [] → (addPackets {} calls).largestPn ∈ numbers calls) ∧
      (∀ n ∈ numbers calls, n ≤ (addPackets {} calls).largestPn) ∧
      (∀ later, ∀ n ∈ numbers calls, (addPackets {} (calls ++ later)).contains n = true) ∧
      ∀ n, (addPackets {} calls).contains n = true → n ∉ numbers calls →
        n < (addPackets {} calls).evictedBelow := by
  have h := addPackets_tracks fresh_tracks calls
  rw [nil_append] at h
  refine ⟨h.ordered, h.short, ?_, h.upper, ?_, ?_⟩
  · intro hne
    exact h.largest (by rwa [numbers, ne_eq, map_eq_nil_iff])
  · intro later n hn
    have hlater := addPackets_tracks fresh_tracks (calls ++ later)
    have hmem : n ∈ numbers (calls ++ later) := by
      rw [numbers, map_append]
      exact mem_append_left _ hn
    rw [nil_append] at hlater
    rw [contains_iff]
    exact ⟨hlater.started (ne_nil_of_mem hmem), hlater.kept n hmem⟩
  · intro n hcontains hnot
    rcases ((contains_iff _ n).mp hcontains).2 with hlow | hholds
    · exact hlow
    · exact absurd (h.only n hholds) hnot

end QuicReplay
