import WaveX.CongestionControl

/-! # The round-trip estimator

    `RttStats::update_rtt` over any samples and any ACK delays of a peer.  The delay is
    shifted into a signed 64-bit count that the peer can make negative, and the sum with
    `min_rtt` that guards the subtraction can wrap.  While nothing wraps, the estimate stays
    between the smallest and the largest sample. -/

namespace QuicRtt

open CongestionControl List

/-! ## Updates -/

/-- `std::chrono::microseconds(ack.ack_delay << 3)`. -/
def delayOf (ackDelay : Nat) : Int := wrap64 ((ackDelay <<< 3 : Nat) : Int)

/-- The estimator after these samples, each with the ACK delay that came with it. -/
def estimate (r : RttStats) (updates : List (Int × Nat)) : RttStats :=
  updates.foldl (fun r u => r.updateRtt u.1 (delayOf u.2)) r

/-- A sample is a non-negative 64-bit count of microseconds, an ACK delay a varint. -/
def Received (u : Int × Nat) : Prop := 0 ≤ u.1 ∧ u.1 < 2 ^ 63 ∧ u.2 < 2 ^ 62

/-- The contract: `min_rtt` is the smallest sample, and the estimate lies between it and the
    largest one. -/
structure Sound (samples : List Int) (r : RttStats) : Prop where
  smoothed_nonneg : 0 ≤ r.smoothedRtt
  rttvar_nonneg : 0 ≤ r.rttvar
  min_mem : r.minRtt ∈ samples
  min_le : ∀ x ∈ samples, r.minRtt ≤ x
  lower : r.minRtt ≤ r.smoothedRtt
  upper : ∃ x ∈ samples, r.smoothedRtt ≤ x

/-- The sample without the ACK delay, where that does not go below the minimum. -/
def adjusted (r : RttStats) (latest : Int) (ackDelay : Nat) : Int :=
  if latest ≥ min r.minRtt latest + 8 * ackDelay then latest - 8 * ackDelay else latest

/-- No sum of an update leaves the signed 64-bit range; the first sample is only stored. -/
def NoWrap (r : RttStats) (u : Int × Nat) : Prop :=
  r.firstRttSample = false →
    min r.minRtt u.1 + 8 * u.2 < 2 ^ 63 ∧
      r.smoothedRtt * 7 + adjusted r u.1 u.2 < 2 ^ 63 ∧
      r.rttvar * 3 + |r.smoothedRtt - adjusted r u.1 u.2| < 2 ^ 63

/-- No sum of any update does. -/
def AllNoWrap : RttStats → List (Int × Nat) → Prop
  | _, [] => True
  | r, u :: rest => NoWrap r u ∧ AllNoWrap (r.updateRtt u.1 (delayOf u.2)) rest

/-! ## One update -/

theorem wrap64_eq {x : Int} (hlo : -2 ^ 63 ≤ x) (hhi : x < 2 ^ 63) : wrap64 x = x :=
  Int.bmod_eq_of_le (by norm_num; omega) (by norm_num; omega)

theorem delayOf_eq {ackDelay : Nat} (h : 8 * (ackDelay : Int) < 2 ^ 63) :
    delayOf ackDelay = 8 * ackDelay := by
  have hshift : ((ackDelay <<< 3 : Nat) : Int) = 8 * ackDelay := by
    rw [Nat.shiftLeft_eq]
    push_cast
    omega
  rw [delayOf, hshift, wrap64_eq (by omega) h]

/-- The first sample is taken as it is. -/
theorem updateRtt_first {r : RttStats} (h : r.firstRttSample = true) (latest ackDelay : Int) :
    r.updateRtt latest ackDelay =
      { latestRtt := latest
        minRtt := latest
        smoothedRtt := latest
        rttvar := latest.tdiv 2
        firstRttSample := false } := by
  rw [RttStats.updateRtt]
  dsimp only
  rw [if_pos h]

/-- A later update, without wrapping. -/
theorem updateRtt_later {r : RttStats} {latest : Int} {ackDelay : Nat}
    (hfirst : r.firstRttSample = false) (hmin : 0 ≤ r.minRtt) (hlatest : 0 ≤ latest)
    (hlatest' : latest < 2 ^ 63) (hsmoothed : 0 ≤ r.smoothedRtt)
    (hsmoothed' : r.smoothedRtt < 2 ^ 63) (hrttvar : 0 ≤ r.rttvar)
    (hwrap : NoWrap r (latest, ackDelay)) :
    r.updateRtt latest (delayOf ackDelay) =
      { latestRtt := latest
        minRtt := min r.minRtt latest
        smoothedRtt := (r.smoothedRtt * 7 + adjusted r latest ackDelay) / 8
        rttvar := (r.rttvar * 3 + |r.smoothedRtt - adjusted r latest ackDelay|) / 4
        firstRttSample := false } := by
  obtain ⟨hsum, hsum', hsum''⟩ := hwrap hfirst
  dsimp only at hsum hsum' hsum''
  have hdelay : delayOf ackDelay = 8 * ackDelay := delayOf_eq (by omega)
  have hminimum : (if r.minRtt > latest then latest else r.minRtt) = min r.minRtt latest := by
    split
    · next h => exact (min_eq_right (le_of_lt h)).symm
    · next h => exact (min_eq_left (not_lt.mp h)).symm
  have hadjusted : (if latest ≥ wrap64 (min r.minRtt latest + delayOf ackDelay) then
      wrap64 (latest - delayOf ackDelay) else latest) = adjusted r latest ackDelay := by
    rw [adjusted, hdelay, wrap64_eq (by omega) hsum, wrap64_eq (by omega) (by omega)]
  have hnonneg : 0 ≤ adjusted r latest ackDelay ∧ adjusted r latest ackDelay < 2 ^ 63 := by
    rw [adjusted]
    split
    · omega
    · omega
  have hdiff : (if r.smoothedRtt > adjusted r latest ackDelay then
      wrap64 (r.smoothedRtt - adjusted r latest ackDelay)
      else wrap64 (adjusted r latest ackDelay - r.smoothedRtt)) =
        |r.smoothedRtt - adjusted r latest ackDelay| := by
    split
    · next h => rw [wrap64_eq (by omega) (by omega), abs_of_pos (by omega)]
    · next h => rw [wrap64_eq (by omega) (by omega), abs_of_nonpos (by omega), neg_sub]
  have habs : 0 ≤ |r.smoothedRtt - adjusted r latest ackDelay| := abs_nonneg _
  rw [RttStats.updateRtt]
  dsimp only
  rw [hfirst, if_neg Bool.false_ne_true, hminimum, hadjusted, hdiff, wrap64_eq (by omega) hsum',
    wrap64_eq (by omega) hsum'', Int.tdiv_eq_ediv_of_nonneg (by omega),
    Int.tdiv_eq_ediv_of_nonneg (by omega)]

/-- The first update of a new estimator. -/
theorem first_sound {u : Int × Nat} (hu : Received u) :
    Sound [u.1] (RttStats.updateRtt {} u.1 (delayOf u.2)) := by
  obtain ⟨hnonneg, -, -⟩ := hu
  rw [updateRtt_first rfl]
  refine ⟨hnonneg, ?_, mem_singleton.mpr rfl, ?_, le_refl _, u.1, mem_singleton.mpr rfl,
    le_refl _⟩
  · show 0 ≤ u.1.tdiv 2
    rw [Int.tdiv_eq_ediv_of_nonneg hnonneg]
    omega
  · intro x hx
    rw [mem_singleton.mp hx]

/-- A later update that does not wrap keeps the estimate sound. -/
theorem later_sound {samples : List Int} {r : RttStats} {u : Int × Nat} (h : Sound samples r)
    (hfirst : r.firstRttSample = false) (hrange : ∀ x ∈ samples, x < 2 ^ 63)
    (hmin : 0 ≤ r.minRtt) (hu : Received u) (hwrap : NoWrap r u) :
    Sound (samples ++ [u.1]) (r.updateRtt u.1 (delayOf u.2)) := by
  obtain ⟨hnonneg, hlt, -⟩ := hu
  obtain ⟨top, htop, hle⟩ := h.upper
  have htop' := hrange top htop
  have hmem : u.1 ∈ samples ++ [u.1] := mem_append_right _ (mem_singleton.mpr rfl)
  have hbetween : min r.minRtt u.1 ≤ adjusted r u.1 u.2 ∧ adjusted r u.1 u.2 ≤ u.1 := by
    rw [adjusted]
    split
    · omega
    · omega
  have habs : 0 ≤ |r.smoothedRtt - adjusted r u.1 u.2| := abs_nonneg _
  have hlower := h.lower
  have hrttvar := h.rttvar_nonneg
  rw [updateRtt_later hfirst hmin hnonneg hlt h.smoothed_nonneg (by omega) hrttvar hwrap]
  refine ⟨?_, ?_, ?_, ?_, ?_, ?_⟩
  · dsimp only
    omega
  · dsimp only
    omega
  · show min r.minRtt u.1 ∈ samples ++ [u.1]
    rcases min_choice r.minRtt u.1 with hchoice | hchoice
    · rw [hchoice]
      exact mem_append_left _ h.min_mem
    · rw [hchoice]
      exact hmem
  · intro x hx
    show min r.minRtt u.1 ≤ x
    rcases mem_append.mp hx with hx | hx
    · exact le_trans (min_le_left _ _) (h.min_le x hx)
    · rw [mem_singleton.mp hx]
      exact min_le_right _ _
  · dsimp only
    omega
  · dsimp only
    rcases le_total top u.1 with htop_le | htop_le
    · exact ⟨u.1, hmem, by omega⟩
    · exact ⟨top, mem_append_left _ htop, by omega⟩

/-! ## Any updates -/

/-- An update leaves the first sample behind. -/
theorem updateRtt_not_first (r : RttStats) (latest ackDelay : Int) :
    (r.updateRtt latest ackDelay).firstRttSample = false := by
  rw [RttStats.updateRtt]
  dsimp only
  split
  · rfl
  · rfl

theorem estimate_sound {samples : List Int} {r : RttStats} (h : Sound samples r)
    (hfirst : r.firstRttSample = false) (hrange : ∀ x ∈ samples, 0 ≤ x ∧ x < 2 ^ 63)
    {updates : List (Int × Nat)} (hreceived : ∀ u ∈ updates, Received u)
    (hwrap : AllNoWrap r updates) (n : Nat) :
    Sound (samples ++ (updates.take n).map Prod.fst) (estimate r (updates.take n)) := by
  induction updates generalizing samples r n with
  | nil =>
    rw [take_nil, map_nil, append_nil]
    exact h
  | cons u rest ih =>
    cases n with
    | zero =>
      rw [take_zero, map_nil, append_nil]
      exact h
    | succ n =>
      have hu := hreceived u mem_cons_self
      have hstep := later_sound h hfirst (fun x hx => (hrange x hx).2)
        (hrange _ h.min_mem).1 hu hwrap.1
      have hrange' : ∀ x ∈ samples ++ [u.1], 0 ≤ x ∧ x < 2 ^ 63 := by
        intro x hx
        rcases mem_append.mp hx with hx | hx
        · exact hrange x hx
        · rw [mem_singleton.mp hx]
          exact ⟨hu.1, hu.2.1⟩
      have hrest := ih hstep (updateRtt_not_first r u.1 (delayOf u.2)) hrange'
        (fun v hv => hreceived v (mem_cons_of_mem _ hv)) hwrap.2 n
      rw [append_assoc, singleton_append] at hrest
      exact hrest

/-- While no sum wraps, the estimate is sound after every sample. -/
theorem estimate_sound_when (updates : List (Int × Nat))
    (hreceived : ∀ u ∈ updates, Received u) (hwrap : AllNoWrap {} updates) (n : Nat)
    (hsome : updates.take n ≠ []) :
    Sound ((updates.take n).map Prod.fst) (estimate {} (updates.take n)) := by
  cases updates with
  | nil => exact absurd take_nil hsome
  | cons u rest =>
    cases n with
    | zero => exact absurd take_zero hsome
    | succ n =>
      have hu := hreceived u mem_cons_self
      have hrange : ∀ x ∈ [u.1], 0 ≤ x ∧ x < 2 ^ 63 := by
        intro x hx
        rw [mem_singleton.mp hx]
        exact ⟨hu.1, hu.2.1⟩
      exact estimate_sound (first_sound hu) (updateRtt_not_first {} u.1 (delayOf u.2)) hrange
        (fun v hv => hreceived v (mem_cons_of_mem _ hv)) hwrap.2 n

/-- Three samples, the last with a delay of 800 microseconds. -/
theorem estimate_sound_three :
    Sound [1000, 3000, 2000] (estimate {} [(1000, 0), (3000, 5), (2000, 100)]) := by
  have hreceived : ∀ u ∈ [((1000 : Int), 0), (3000, 5), (2000, 100)], Received u := by
    intro u hu
    simp only [mem_cons, not_mem_nil, or_false] at hu
    rcases hu with rfl | rfl | rfl
    · exact ⟨by decide, by decide, by decide⟩
    · exact ⟨by decide, by decide, by decide⟩
    · exact ⟨by decide, by decide, by decide⟩
  have hwrap : AllNoWrap {} [((1000 : Int), 0), (3000, 5), (2000, 100)] :=
    ⟨fun h => absurd h (by decide), fun _ => by decide, fun _ => by decide, trivial⟩
  exact estimate_sound_when _ hreceived hwrap 3 (cons_ne_nil _ _)

/-- An ACK delay of `2 ^ 60` becomes the most negative count, and the estimate with it. -/
theorem negative_estimate :
    ¬ ∀ updates : List (Int × Nat), (∀ u ∈ updates, Received u) → updates ≠ [] →
      Sound (updates.map Prod.fst) (estimate {} updates) := by
  intro h
  have hreceived : ∀ u ∈ [((100 : Int), 0), (200, 2 ^ 60)], Received u := by
    intro u hu
    simp only [mem_cons, not_mem_nil, or_false] at hu
    rcases hu with rfl | rfl
    · exact ⟨by decide, by decide, by decide⟩
    · exact ⟨by decide, by decide, by decide⟩
  have hnonneg := (h _ hreceived (cons_ne_nil _ _)).smoothed_nonneg
  exact absurd hnonneg (by decide)

end QuicRtt
