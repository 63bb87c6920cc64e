import WaveX.QuicReceiveSimulation

/-! # Peer streams are dispatched once

    `process_frames` tells new, implicitly opened, live and finished peer streams
    apart by a high-water mark per direction and the set of implicitly opened ids
    that have not been seen.  The invariant says that the two represent exactly
    what has been dispatched: below the mark every id of the peer is either
    dispatched or unseen, never both, and nothing else is in either set. -/

namespace QuicStreamDispatch

open QuicState QuicReceive QuicRuns QuicLedger QuicSimulation List

/-! ## Stream ids -/

/-- The lowest two bits of an id decide its direction and its initiator. -/
theorem isBidi_eq (sid : Nat) : isBidi sid = isBidi (sid % 4) := by
  have h : sid &&& 0x02 = (sid % 4) &&& 0x02 := by
    rw [show (4 : Nat) = 2 ^ 2 from rfl, ← Nat.and_two_pow_sub_one_eq_mod, Nat.and_assoc]
    rfl
  unfold isBidi
  rw [h]

theorem peerInitiated_eq (isServer : Bool) (sid : Nat) :
    peerInitiated isServer sid = peerInitiated isServer (sid % 4) := by
  have h : sid &&& 0x01 = (sid % 4) &&& 0x01 := by
    rw [show (4 : Nat) = 2 ^ 2 from rfl, ← Nat.and_two_pow_sub_one_eq_mod, Nat.and_assoc]
    rfl
  unfold peerInitiated
  rw [h]

/-- Two ids of the peer in the same direction have the same type bits. -/
theorem mod_four_eq {isServer : Bool} {a b : Nat} (ha : peerInitiated isServer a = true)
    (hb : peerInitiated isServer b = true) (hdir : isBidi a = isBidi b) : a % 4 = b % 4 := by
  rw [peerInitiated_eq] at ha hb
  rw [isBidi_eq a, isBidi_eq b] at hdir
  have ha4 : a % 4 < 4 := Nat.mod_lt _ (by decide)
  have hb4 : b % 4 < 4 := Nat.mod_lt _ (by decide)
  generalize a % 4 = x at ha hdir ha4 ⊢
  generalize b % 4 = y at hb hdir hb4 ⊢
  have hall : ∀ srv : Bool, ∀ x < 4, ∀ y < 4, peerInitiated srv x = true →
      peerInitiated srv y = true → isBidi x = isBidi y → x = y := by decide
  exact hall isServer x ha4 y hb4 ha hb hdir

/-- An id of the peer is determined by its direction and index. -/
theorem eq_iff_of_isBidi_eq {isServer : Bool} {a b : Nat}
    (hb : peerInitiated isServer b = true) (hdir : isBidi a = isBidi b) :
    a = b ↔ peerInitiated isServer a = true ∧ a >>> 2 = b >>> 2 := by
  constructor
  · rintro rfl
    exact ⟨hb, rfl⟩
  · rintro ⟨ha, hidx⟩
    have hmod := mod_four_eq ha hb hdir
    simp only [Nat.shiftRight_eq_div_pow] at hidx
    omega

/-- An id from its index and type bits. -/
theorem or_type_bits (idx sid : Nat) : (idx <<< 2) ||| (sid &&& 0x03) = 4 * idx + sid % 4 := by
  have h3 : sid &&& 0x03 = sid % 4 := Nat.and_two_pow_sub_one_eq_mod sid 2
  have hlt : sid % 4 < 2 ^ 2 := Nat.mod_lt _ (by decide)
  rw [h3, ← Nat.shiftLeft_add_eq_or_of_lt hlt, Nat.shiftLeft_eq]
  omega

/-- The implicitly opened ids: those of the peer, in the direction of `sid`, with an
    index from the mark up to that of `sid`. -/
theorem mem_implicitIds {isServer : Bool} {sid mark x : Nat}
    (hpeer : peerInitiated isServer sid = true) :
    x ∈ implicitIds sid mark ↔ peerInitiated isServer x = true ∧ isBidi x = isBidi sid
      ∧ mark ≤ x >>> 2 ∧ x >>> 2 < sid >>> 2 := by
  simp only [implicitIds, mem_map, mem_range'_1, or_type_bits]
  constructor
  · rintro ⟨idx, hidx, rfl⟩
    have hmod : (4 * idx + sid % 4) % 4 = sid % 4 := by omega
    refine ⟨?_, ?_, ?_, ?_⟩
    · rw [peerInitiated_eq, hmod, ← peerInitiated_eq]
      exact hpeer
    · rw [isBidi_eq, hmod, ← isBidi_eq]
    all_goals
      rw [Nat.shiftRight_eq_div_pow] at *
      omega
  · rintro ⟨hx, hdir, hle, hlt⟩
    have hmod := mod_four_eq hx hpeer hdir
    refine ⟨x >>> 2, ⟨hle, by omega⟩, ?_⟩
    rw [Nat.shiftRight_eq_div_pow]
    omega

/-! ## The invariant -/

/-- The id of a stream created and dispatched by `process_frames`. -/
def dispatchedId : Event → Option Nat
  | .streamCreated sid true => some sid
  | _ => none

/-- The dispatched ids, newest first. -/
def dispatchedIds (events : List Event) : List Nat := events.filterMap dispatchedId

/-- The ids of the peer below the marks are split into dispatched and unseen
    ones. -/
structure Partitioned (l : Ledger) : Prop where
  nodup : (dispatchedIds l.trace).Nodup
  disjoint : ∀ sid ∈ dispatchedIds l.trace, sid ∉ l.unseen
  split : ∀ sid, sid ∈ dispatchedIds l.trace ∨ sid ∈ l.unseen ↔
    peerInitiated l.config.isServer sid = true ∧ sid >>> 2 < l.mark (isBidi sid)
  limit : ∀ bidi, l.mark bidi ≤ peerStreamLimit l.config bidi

variable {faulty : Prop} {config : Config} {l l' : Ledger}

/-- Events that dispatch nothing. -/
theorem dispatchedIds_append {later past : List Event}
    (h : ∀ e ∈ later, dispatchedId e = none) :
    dispatchedIds (later ++ past) = dispatchedIds past := by
  rw [dispatchedIds, filterMap_append, filterMap_eq_nil_iff.mpr h, nil_append]
  rfl

/-- A new stream was not dispatched before. -/
theorem Partitioned.not_dispatched {sid : Nat} {unseen : List Nat} {mark : Nat}
    (h : Partitioned l) (hmay : MayDispatch l sid unseen mark) :
    sid ∉ dispatchedIds l.trace := by
  intro hmem
  rcases hmay.2 with ⟨_, hunseen, _⟩ | ⟨habove, _⟩
  · exact h.disjoint sid hmem hunseen
  · have hbelow := ((h.split sid).mp (Or.inl hmem)).2
    omega

/-- An implicitly opened id moves from unseen to dispatched; the mark stays. -/
theorem Partitioned.dispatchUnseen {sid : Nat} (h : Partitioned l)
    (hnew : sid ∉ dispatchedIds l.trace) (hunseen : sid ∈ l.unseen) :
    Partitioned { l with
      unseen := l.unseen.filter (· ≠ sid)
      trace := .streamCreated sid true :: l.trace } := by
  refine ⟨nodup_cons.mpr ⟨hnew, h.nodup⟩, ?_, ?_, h.limit⟩
  · intro x hx hmem
    have hmem := mem_filter.mp hmem
    rcases mem_cons.mp hx with rfl | hx
    · simp at hmem
    · exact h.disjoint x hx hmem.1
  · intro x
    rw [← h.split x]
    show x ∈ sid :: dispatchedIds l.trace ∨ _ ↔ _
    by_cases hx : x = sid
    · subst hx
      simp [hunseen]
    · simp [hx]

/-- A new id at or above the mark is dispatched; everything between becomes unseen. -/
theorem Partitioned.dispatchNew {sid : Nat} (h : Partitioned l)
    (hnew : sid ∉ dispatchedIds l.trace)
    (hpeer : peerInitiated l.config.isServer sid = true) (habove : l.mark (isBidi sid) ≤ sid >>> 2)
    (hlimit : sid >>> 2 < peerStreamLimit l.config (isBidi sid)) :
    Partitioned { l with
      unseen := l.unseen ++ implicitIds sid (l.mark (isBidi sid))
      mark := Function.update l.mark (isBidi sid) (sid >>> 2 + 1)
      trace := .streamCreated sid true :: l.trace } := by
  refine ⟨nodup_cons.mpr ⟨hnew, h.nodup⟩, ?_, ?_, ?_⟩
  · intro x hx hmem
    rcases mem_append.mp hmem with hold | hopened
    · rcases mem_cons.mp hx with heq | hx
      · have hlt := ((h.split x).mp (Or.inr hold)).2
        rw [heq] at hlt
        omega
      · exact h.disjoint x hx hold
    · obtain ⟨_, hdir, hle, hlt⟩ := (mem_implicitIds hpeer).mp hopened
      rcases mem_cons.mp hx with heq | hx
      · rw [heq] at hlt
        omega
      · have hlt' := ((h.split x).mp (Or.inl hx)).2
        rw [hdir] at hlt'
        omega
  · intro x
    show x ∈ sid :: dispatchedIds l.trace ∨ x ∈ l.unseen ++ implicitIds sid _ ↔ _
    rw [mem_cons, mem_append, mem_implicitIds hpeer]
    have hsplit := h.split x
    by_cases hdir : isBidi x = isBidi sid
    · have hsid : x = sid ↔ peerInitiated l.config.isServer x = true ∧ x >>> 2 = sid >>> 2 :=
        eq_iff_of_isBidi_eq hpeer hdir
      simp only [hdir, Function.update_self] at hsplit ⊢
      grind
    · have hsid : x ≠ sid := fun heq => hdir (heq ▸ rfl)
      simp only [Function.update_of_ne hdir, hdir]
      grind
  · intro bidi
    by_cases hdir : bidi = isBidi sid
    · subst hdir
      simp only [Function.update_self]
      omega
    · simp only [Function.update_of_ne hdir]
      exact h.limit bidi

/-- Dispatching a peer stream keeps the partition. -/
theorem Partitioned.dispatch {sid : Nat} {unseen : List Nat} {mark : Nat}
    (h : Partitioned l) (hmay : MayDispatch l sid unseen mark) :
    Partitioned { l with
      unseen := unseen
      mark := Function.update l.mark (isBidi sid) mark
      trace := .streamCreated sid true :: l.trace } := by
  have hnew := h.not_dispatched hmay
  obtain ⟨hpeer, ⟨_, hunseen, rfl, rfl⟩ | ⟨habove, hlimit, rfl, rfl⟩⟩ := hmay
  · rw [Function.update_eq_self]
    exact h.dispatchUnseen hnew hunseen
  · exact h.dispatchNew hnew hpeer habove hlimit

theorem Partitioned.step (h : Step faulty l l') (hp : Partitioned l) : Partitioned l' := by
  cases h with
  | dispatch sid unseen mark _ hmay => exact hp.dispatch hmay
  | lose sp lost _ _ =>
      have heq : dispatchedIds (lostEvents sp ((l.sentPackets sp).filter lost) ++ l.trace)
          = dispatchedIds l.trace := dispatchedIds_append (forall_lostEvents (fun _ _ => rfl))
      exact ⟨heq ▸ hp.nodup, heq ▸ hp.disjoint, heq ▸ hp.split, hp.limit⟩
  | deliver =>
      have heq : dispatchedIds (deliveredEvents l ++ l.trace) = dispatchedIds l.trace :=
        dispatchedIds_append (forall_deliveredEvents (fun _ => rfl))
      exact ⟨heq ▸ hp.nodup, heq ▸ hp.disjoint, heq ▸ hp.split, hp.limit⟩
  | _ => exact ⟨hp.nodup, hp.disjoint, hp.split, hp.limit⟩

/-- Every reachable ledger is partitioned. -/
theorem partitioned_of_reachable (h : (machine faulty config).Reachable l) :
    Partitioned l := by
  refine h.invariant ?_ ?_
  · rintro _ ⟨r, rfl⟩
    refine ⟨nodup_nil, fun _ h => absurd h not_mem_nil, ?_, fun _ => Nat.zero_le _⟩
    intro sid
    simp [dispatchedIds]
  · rintro l l' ((hstep | hclose) | hcall) hp
    · exact hp.step hstep
    · cases hclose
      exact ⟨hp.nodup, hp.disjoint, hp.split, hp.limit⟩
    · cases hcall <;> exact ⟨hp.nodup, hp.disjoint, hp.split, hp.limit⟩

/-- Each id of the peer is created and dispatched at most once.  For each direction
    the ids of the peer below the high-water mark are exactly the dispatched ones
    and the unseen ones, no id is both, and the mark stays within the configured
    limit. -/
theorem peer_streams_dispatched_once {K : Type} {env : Env K} {start : Start}
    {s : QuicConnection K} (h : Reachable env start s) :
    (dispatchedIds s.trace).Nodup
      ∧ (∀ sid ∈ dispatchedIds s.trace, sid ∉ s.unseenPeerStreamIds)
      ∧ (∀ sid, sid ∈ dispatchedIds s.trace ∨ sid ∈ s.unseenPeerStreamIds ↔
        peerInitiated start.isServer sid = true ∧ sid >>> 2 < s.nextPeerStreamIdx (isBidi sid))
      ∧ s.nextPeerStreamIdx true ≤ start.settings.maxPeerBidiStreams
      ∧ s.nextPeerStreamIdx false ≤ start.settings.maxPeerUniStreams := by
  have hreach := reachable_view env h
  have hconfig : (view s).config = start.config := reachable_config hreach
  have hp := partitioned_of_reachable hreach
  refine ⟨hp.nodup, hp.disjoint, ?_, ?_, ?_⟩
  · have hsplit := hp.split
    rw [hconfig] at hsplit
    exact hsplit
  · have hlimit := hp.limit true
    rw [hconfig] at hlimit
    exact hlimit
  · have hlimit := hp.limit false
    rw [hconfig] at hlimit
    exact hlimit

/-- A STREAM frame of the client with one byte. -/
def streamFrame (pn sid : Nat) : Op :=
  .handleDatagram (samplePacket .oneRtt pn
    (QuicFrames.serializeFrame (.stream ⟨[97], sid, 0, true, false, true⟩)))

/-- Stream 8 opens 0 and 4; then 4 arrives, 8 is closed and repeated. -/
theorem peer_streams_dispatched_once_out_of_order :
    let s := (sampleServer false).after (sampleEnv fun _ => {})
      [streamFrame 0 8, streamFrame 1 4, .closeStream 8, streamFrame 2 8]
    dispatchedIds s.trace = [4, 8] ∧ s.unseenPeerStreamIds = [0]
      ∧ (dispatchedIds s.trace).Nodup := by
  refine ⟨by decide, by decide, ?_⟩
  exact (peer_streams_dispatched_once
    (Start.after_reachable (sampleEnv fun _ => {}) (sampleServer false) _)).1

end QuicStreamDispatch
