import WaveX.QuicReceiveState
import WaveX.Reassembly

/-! # Streams put together again

    `push_inbound` of a stream under any frames of one byte sequence: in any order, with
    duplicates and overlaps.  The bytes in the receive buffer and the chunks that wait cover
    exactly what the frames covered. -/

namespace QuicStreamReassembly

open QuicVarInt QuicReceiveState Reassembly List

/-! ## Chunks that wait -/

/-- A chunk inserted covers its positions, and the chunks that were there keep theirs. -/
theorem covered_insertChunk (offset : Nat) (data : Bytes) (pending : List (Nat × Bytes))
    (i : Nat) :
    Covered (QuicStream.insertChunk offset data pending) i ↔
      inside (offset, data) i ∨ Covered pending i := by
  induction pending with
  | nil => exact covered_cons _ _ _
  | cons c rest ih =>
    obtain ⟨o, d⟩ := c
    rw [QuicStream.insertChunk]
    by_cases hlt : o < offset
    · rw [if_pos hlt, covered_cons, covered_cons, ih, or_left_comm]
    · rw [if_neg hlt]
      by_cases heq : o = offset
      · -- of the two chunks at one offset the longer one covers both
        subst heq
        rw [if_pos rfl, covered_cons, covered_cons, ← or_assoc]
        refine or_congr_left ?_
        simp only [inside]
        split
        · omega
        · omega
      · rw [if_neg heq, covered_cons]

theorem insertChunk_mem {offset : Nat} {data : Bytes} {pending : List (Nat × Bytes)}
    {c : Nat × Bytes} (h : c ∈ QuicStream.insertChunk offset data pending) :
    c = (offset, data) ∨ c ∈ pending := by
  induction pending with
  | nil => exact .inl (mem_singleton.mp h)
  | cons e rest ih =>
    obtain ⟨o, d⟩ := e
    rw [QuicStream.insertChunk] at h
    split at h
    · rcases mem_cons.mp h with rfl | h
      · exact .inr mem_cons_self
      · exact (ih h).imp_right (mem_cons_of_mem _)
    · split at h
      · next heq =>
        rcases mem_cons.mp h with rfl | h
        · split
          · exact .inr mem_cons_self
          · exact .inl (by rw [heq])
        · exact .inr (mem_cons_of_mem _ h)
      · rcases mem_cons.mp h with rfl | h
        · exact .inl rfl
        · exact .inr h

theorem insertChunk_sorted {offset : Nat} {data : Bytes} {pending : List (Nat × Bytes)}
    (h : Sorted pending) : Sorted (QuicStream.insertChunk offset data pending) := by
  induction pending with
  | nil => exact pairwise_singleton _ _
  | cons e rest ih =>
    obtain ⟨o, d⟩ := e
    obtain ⟨hfirst, hrest⟩ := pairwise_cons.mp h
    rw [QuicStream.insertChunk]
    split
    · next hlt =>
      refine pairwise_cons.mpr ⟨?_, ih hrest⟩
      intro c hc
      rcases insertChunk_mem hc with rfl | hc
      · exact hlt
      · exact hfirst c hc
    · split
      · exact pairwise_cons.mpr ⟨fun c hc => hfirst c hc, hrest⟩
      · next hle hne =>
        refine pairwise_cons.mpr ⟨?_, h⟩
        intro c hc
        rcases mem_cons.mp hc with rfl | hc
        · exact Nat.lt_of_le_of_ne (Nat.le_of_not_lt hle) fun h => hne h.symm
        · exact Nat.lt_trans (Nat.lt_of_le_of_ne (Nat.le_of_not_lt hle) fun h => hne h.symm)
            (hfirst c hc)

/-- The loop of `push_inbound` over the chunks that wait is a pass of the reassembly. -/
theorem drainInbound_eq (st : QuicStream) (pending : List (Nat × Bytes)) :
    st.drainInbound pending =
      { st with
        recvOffset := (drain st.recvOffset st.inBuffer pending).1
        inBuffer := (drain st.recvOffset st.inBuffer pending).2.1
        pendingInbound := (drain st.recvOffset st.inBuffer pending).2.2 } := by
  induction pending generalizing st with
  | nil => rfl
  | cons c rest ih =>
    obtain ⟨o, d⟩ := c
    rw [QuicStream.drainInbound, drain]
    by_cases hgap : o > st.recvOffset
    · rw [if_pos hgap, if_pos hgap]
    · rw [if_neg hgap, if_neg hgap, ih]
      by_cases hnew : o + d.length > st.recvOffset
      · have hend : st.recvOffset + (d.drop (st.recvOffset - o)).length = o + d.length := by
          rw [length_drop]
          omega
        rw [if_pos hnew, if_pos hnew]
        simp only [QuicStream.appendBytes, hend]
      · rw [if_neg hnew, if_neg hnew]

/-! ## Frames of one sequence -/

/-- A frame: offset, data and FIN. -/
structure InFrame where
  offset : Nat
  data : Bytes
  fin : Bool
  deriving DecidableEq, Repr

/-- A frame of `S`: a piece of it, with FIN only at its end. -/
def FrameOf (S : Bytes) (f : InFrame) : Prop :=
  PieceOf S (f.offset, f.data) ∧ (f.fin = true → f.offset + f.data.length = S.length)

/-- What the frames cover. -/
def pieces (frames : List InFrame) : List (Nat × Bytes) := frames.map fun f => (f.offset, f.data)

/-- A frame pushed into the stream. -/
def push (st : QuicStream) (f : InFrame) : QuicStream := (st.pushInbound f.offset f.data f.fin).1

/-- The stream after these frames. -/
def received (st : QuicStream) (frames : List InFrame) : QuicStream := frames.foldl push st

/-- The bytes that wait out of order. -/
def pendingBytes (st : QuicStream) : Nat :=
  (st.pendingInbound.map fun c => c.2.length).sum

/-- The cap does not refuse the frame: it is not ahead of the stream, or what waits stays
    within 16 MB with it. -/
def Fits (st : QuicStream) (f : InFrame) : Prop :=
  f.offset ≤ st.recvOffset ∨ pendingBytes st + f.data.length ≤ 16 * 1024 * 1024

/-- None of the frames is refused by the cap, when its turn comes. -/
def AllFit : QuicStream → List InFrame → Prop
  | _, [] => True
  | st, f :: rest => Fits st f ∧ AllFit (push st f) rest

/-- The stream has put together what the frames of `S` covered. -/
structure Assembled (S : Bytes) (frames : List InFrame) (st : QuicStream) : Prop where
  buffer : st.inBuffer = S.take st.recvOffset
  bounded : st.recvOffset ≤ S.length
  sorted : Sorted st.pendingInbound
  ahead : ∀ c ∈ st.pendingInbound, st.recvOffset < c.1
  chunks : ∀ c ∈ st.pendingInbound, PieceOf S c
  covered : ∀ i, (i < st.recvOffset ∨ Covered st.pendingInbound i) ↔ Covered (pieces frames) i
  finalSize : st.finalSize = if ∃ f ∈ frames, f.fin = true then some S.length else none
  fin : st.finReceived = true ↔ (∃ f ∈ frames, f.fin = true) ∧ st.recvOffset = S.length

/-! ## One frame -/

variable {frames : List InFrame} {st : QuicStream} {S : Bytes}

variable {f : InFrame}

/-- The final size after a frame of `S`. -/
theorem checkFinalSize_frame (h : Assembled S frames st) (hf : FrameOf S f) :
    st.checkFinalSize f.offset f.data.length f.fin =
      some { st with finalSize := if f.fin then some S.length else st.finalSize } := by
  obtain ⟨hpiece, hfin⟩ := hf
  have hle : f.offset + f.data.length ≤ S.length := hpiece.1
  have hsize := h.finalSize
  have hst : ∀ size, st.finalSize = size → { st with finalSize := size } = st := by
    rintro _ rfl
    rfl
  by_cases hany : ∃ g ∈ frames, g.fin = true
  · rw [if_pos hany] at hsize
    have hst := hst _ hsize
    cases hff : f.fin with
    | true => simp [QuicStream.checkFinalSize, hsize, hfin hff, hst]
    | false => simp [QuicStream.checkFinalSize, hsize, Nat.not_lt.mpr hle, hst]
  · rw [if_neg hany] at hsize
    cases hff : f.fin with
    | true => simp [QuicStream.checkFinalSize, hsize, hfin hff, h.bounded]
    | false => simp [QuicStream.checkFinalSize, hsize, hst _ hsize]

theorem exists_fin_concat (frames : List InFrame) (f : InFrame) :
    (∃ g ∈ frames ++ [f], g.fin = true) ↔ (∃ g ∈ frames, g.fin = true) ∨ f.fin = true := by
  constructor
  · rintro ⟨g, hg, hfin⟩
    rcases mem_append.mp hg with hg | hg
    · exact .inl ⟨g, hg, hfin⟩
    · rw [mem_singleton.mp hg] at hfin
      exact .inr hfin
  · rintro (⟨g, hg, hfin⟩ | hfin)
    · exact ⟨g, mem_append_left _ hg, hfin⟩
    · exact ⟨f, mem_append_right _ (mem_singleton.mpr rfl), hfin⟩

/-- The final size with the frame counted in. -/
theorem finalSize_concat (h : Assembled S frames st) (f : InFrame) :
    (if f.fin then some S.length else st.finalSize) =
      if ∃ g ∈ frames ++ [f], g.fin = true then some S.length else none := by
  rw [h.finalSize]
  simp only [exists_fin_concat]
  cases f.fin with
  | true => simp
  | false => simp

/-- The flag `fin_received_`, when a step has brought the stream to this offset. -/
theorem finReceived_concat {st st' : QuicStream} (h : Assembled S frames st)
    (hforward : st.recvOffset ≤ st'.recvOffset) (hbounded : st'.recvOffset ≤ S.length)
    (hsize : st'.finalSize =
      if ∃ g ∈ frames ++ [f], g.fin = true then some S.length else none) :
    (st.finReceived || st'.reachedFinalSize) = true ↔
      (∃ g ∈ frames ++ [f], g.fin = true) ∧ st'.recvOffset = S.length := by
  rw [Bool.or_eq_true, h.fin, QuicStream.reachedFinalSize, hsize]
  by_cases hany : ∃ g ∈ frames ++ [f], g.fin = true
  · rw [if_pos hany]
    simp only [decide_eq_true_eq, hany, true_and]
    constructor
    · rintro (⟨-, hend⟩ | hend)
      · omega
      · exact Nat.le_antisymm hbounded hend
    · intro hend
      exact .inr (Nat.le_of_eq hend.symm)
  · rw [if_neg hany]
    have hold : ¬ ∃ g ∈ frames, g.fin = true :=
      fun h => hany ((exists_fin_concat frames f).mpr (.inl h))
    simp only [hany, hold, false_and, Bool.false_eq_true, or_self]

/-- What a frame ahead of the stream adds to the chunks that wait. -/
theorem push_ahead (h : Assembled S frames st) (hf : FrameOf S f) (hfit : Fits st f)
    (hahead : st.recvOffset < f.offset) : Assembled S (frames ++ [f]) (push st f) := by
  have hsize := finalSize_concat h f
  have hroom : pendingBytes st + f.data.length ≤ 16 * 1024 * 1024 :=
    hfit.resolve_left (Nat.not_le.mpr hahead)
  have hnot : ¬ f.offset + f.data.length ≤ st.recvOffset := by omega
  have htrim : st.recvOffset - f.offset = 0 := by omega
  have hmax : max f.offset st.recvOffset = f.offset := by omega
  have hne : f.offset ≠ st.recvOffset := by omega
  have hpush : push st f = { st with
      finalSize := if f.fin then some S.length else st.finalSize
      pendingInbound := QuicStream.insertChunk f.offset f.data st.pendingInbound } := by
    rw [push, QuicStream.pushInbound, checkFinalSize_frame h hf]
    simp only [hnot, if_false, htrim, hmax, hne, drop_zero]
    rw [pendingBytes] at hroom
    rw [if_pos hroom]
  rw [hpush]
  refine ⟨h.buffer, h.bounded, insertChunk_sorted h.sorted, ?_, ?_, ?_, hsize, ?_⟩
  · intro c hc
    rcases insertChunk_mem hc with rfl | hc
    · exact hahead
    · exact h.ahead c hc
  · intro c hc
    rcases insertChunk_mem hc with rfl | hc
    · exact hf.1
    · exact h.chunks c hc
  · intro i
    rw [pieces, map_append, map_cons, map_nil, covered_concat, ← pieces,
      ← h.covered, covered_insertChunk, or_comm (a := inside _ i), or_assoc]
  · -- the frame is ahead, so the stream has not reached its end
    have hend : st.recvOffset ≠ S.length := by
      have hle := hf.1.1
      dsimp only at hle
      omega
    rw [h.fin]
    simp only [hend, and_false]

/-- A frame that lies behind the stream. -/
theorem push_behind (h : Assembled S frames st) (hf : FrameOf S f)
    (hbehind : f.offset + f.data.length ≤ st.recvOffset) :
    Assembled S (frames ++ [f]) (push st f) := by
  have hsize := finalSize_concat h f
  have hpush : push st f = { st with
      finalSize := if f.fin then some S.length else st.finalSize
      finReceived := st.finReceived || QuicStream.reachedFinalSize { st with
        finalSize := if f.fin then some S.length else st.finalSize } } := by
    rw [push, QuicStream.pushInbound, checkFinalSize_frame h hf]
    simp only [hbehind, if_true]
  rw [hpush]
  refine ⟨h.buffer, h.bounded, h.sorted, h.ahead, h.chunks, ?_, hsize, ?_⟩
  · intro i
    rw [pieces, map_append, map_cons, map_nil, covered_concat, ← pieces,
      ← h.covered]
    constructor
    · exact .inl
    · rintro (hi | hi)
      · exact hi
      · exact .inl (Nat.lt_of_lt_of_le hi.2 hbehind)
  · exact finReceived_concat h (Nat.le_refl _) h.bounded hsize

/-- A frame that continues the stream, with the chunks that become contiguous. -/
theorem push_contiguous (h : Assembled S frames st) (hf : FrameOf S f)
    (hle : f.offset ≤ st.recvOffset) (hnew : st.recvOffset < f.offset + f.data.length) :
    Assembled S (frames ++ [f]) (push st f) := by
  have hsize := finalSize_concat h f
  have hnot : ¬ f.offset + f.data.length ≤ st.recvOffset := by omega
  have hmax : max f.offset st.recvOffset = st.recvOffset := by omega
  have hend : st.recvOffset + (f.data.drop (st.recvOffset - f.offset)).length =
      f.offset + f.data.length := by
    rw [length_drop]
    omega
  have hbuffer : st.inBuffer ++ f.data.drop (st.recvOffset - f.offset) =
      S.take (f.offset + f.data.length) := by
    rw [h.buffer]
    exact hf.1.extend hle (Nat.le_of_lt hnew)
  have hdrain := drain_spec (f.offset + f.data.length) h.sorted h.chunks
  obtain ⟨hout, hforward, hbounded, hsuffix, hbeyond, hcovered⟩ := hdrain
  have hS : f.offset + f.data.length ≤ S.length := hf.1.1
  have hpush : push st f = { st with
      recvOffset := (drain (f.offset + f.data.length) (S.take (f.offset + f.data.length))
        st.pendingInbound).1
      inBuffer := (drain (f.offset + f.data.length) (S.take (f.offset + f.data.length))
        st.pendingInbound).2.1
      pendingInbound := (drain (f.offset + f.data.length) (S.take (f.offset + f.data.length))
        st.pendingInbound).2.2
      finalSize := if f.fin then some S.length else st.finalSize
      finReceived := st.finReceived || QuicStream.reachedFinalSize { st with
        recvOffset := (drain (f.offset + f.data.length) (S.take (f.offset + f.data.length))
          st.pendingInbound).1
        finalSize := if f.fin then some S.length else st.finalSize } } := by
    rw [push, QuicStream.pushInbound, checkFinalSize_frame h hf]
    simp only [hnot, if_false, hmax, if_true, drainInbound_eq, QuicStream.appendBytes, hend,
      hbuffer]
    rfl
  rw [hpush]
  refine ⟨hout, by dsimp only; omega, h.sorted.sublist hsuffix.sublist, hbeyond, ?_, ?_, hsize, ?_⟩
  · intro c hc
    exact h.chunks c (hsuffix.subset hc)
  · intro i
    rw [pieces, map_append, map_cons, map_nil, covered_concat, ← pieces,
      ← h.covered]
    dsimp only
    rw [hcovered, inside]
    constructor
    · rintro (hi | hi)
      · by_cases hlo : i < st.recvOffset
        · exact .inl (.inl hlo)
        · exact .inr ⟨by omega, hi⟩
      · exact .inl (.inr hi)
    · rintro ((hi | hi) | hi)
      · exact .inl (by omega)
      · exact .inr hi
      · exact .inl hi.2
  · exact finReceived_concat h (by dsimp only; omega) (by dsimp only; omega) hsize

/-- Every frame of `S` that is not refused keeps the stream assembled. -/
theorem push_assembled (h : Assembled S frames st) (hf : FrameOf S f) (hfit : Fits st f) :
    Assembled S (frames ++ [f]) (push st f) := by
  by_cases hahead : st.recvOffset < f.offset
  · exact push_ahead h hf hfit hahead
  · by_cases hbehind : f.offset + f.data.length ≤ st.recvOffset
    · exact push_behind h hf hbehind
    · exact push_contiguous h hf (Nat.le_of_not_lt hahead) (Nat.lt_of_not_le hbehind)

/-! ## Any frames -/

/-- A new stream. -/
def fresh (sid : Nat) : QuicStream := { streamId := sid }

theorem fresh_assembled (S : Bytes) (sid : Nat) : Assembled S [] (fresh sid) where
  buffer := rfl
  bounded := Nat.zero_le _
  sorted := List.Pairwise.nil
  ahead := fun c h => absurd h not_mem_nil
  chunks := fun c h => absurd h not_mem_nil
  covered := by
    intro i
    refine iff_of_false ?_ (not_covered_nil i)
    rintro (hi | hi)
    · exact absurd hi (Nat.not_lt_zero i)
    · exact not_covered_nil i hi
  finalSize := by
    rw [if_neg]
    · rfl
    · rintro ⟨g, hg, -⟩
      exact absurd hg not_mem_nil
  fin := by
    refine iff_of_false Bool.false_ne_true ?_
    rintro ⟨⟨g, hg, -⟩, -⟩
    exact absurd hg not_mem_nil

theorem received_assembled {before frames : List InFrame} (h : Assembled S before st)
    (hframes : ∀ f ∈ frames, FrameOf S f) (hfit : AllFit st frames) :
    Assembled S (before ++ frames) (received st frames) := by
  induction frames generalizing before st with
  | nil => rwa [append_nil]
  | cons f rest ih =>
    have hstep := push_assembled h (hframes f mem_cons_self) hfit.1
    have hrest := ih hstep (fun g hg => hframes g (mem_cons_of_mem _ hg)) hfit.2
    rwa [append_assoc, singleton_append] at hrest

/-- Frames of `S` in any order: what is delivered is `S` as far as the frames cover it from
    the front, what waits is sorted and ahead of that, and the end is known exactly when a
    FIN came and everything is there. -/
theorem received_reassembles (S : Bytes) (sid : Nat) (frames : List InFrame)
    (hframes : ∀ f ∈ frames, FrameOf S f) (hfit : AllFit (fresh sid) frames) :
    (received (fresh sid) frames).inBuffer =
        S.take (received (fresh sid) frames).recvOffset ∧
      (received (fresh sid) frames).recvOffset ≤ S.length ∧
      Frontier (pieces frames) (received (fresh sid) frames).recvOffset ∧
      Sorted (received (fresh sid) frames).pendingInbound ∧
      (∀ c ∈ (received (fresh sid) frames).pendingInbound,
        (received (fresh sid) frames).recvOffset < c.1) ∧
      ((received (fresh sid) frames).finReceived = true ↔
        (∃ f ∈ frames, f.fin = true) ∧ (received (fresh sid) frames).recvOffset = S.length) := by
  have h := received_assembled (fresh_assembled S sid) hframes hfit
  rw [nil_append] at h
  exact ⟨h.buffer, h.bounded, frontier_of_covered h.covered h.ahead, h.sorted, h.ahead, h.fin⟩

/-- The end first, an overlap, and then the front. -/
theorem received_reassembles_reversed :
    (received (fresh 0) [⟨2, [3, 4], true⟩, ⟨1, [2, 3], false⟩, ⟨0, [1], false⟩]).inBuffer =
        [1, 2, 3, 4].take (received (fresh 0)
          [⟨2, [3, 4], true⟩, ⟨1, [2, 3], false⟩, ⟨0, [1], false⟩]).recvOffset ∧
      (received (fresh 0)
        [⟨2, [3, 4], true⟩, ⟨1, [2, 3], false⟩, ⟨0, [1], false⟩]).finReceived = true := by
  obtain ⟨hbuffer, -, -, -, -, -⟩ := received_reassembles [1, 2, 3, 4] 0
    [⟨2, [3, 4], true⟩, ⟨1, [2, 3], false⟩, ⟨0, [1], false⟩]
    (by
      intro f hf
      simp only [mem_cons, not_mem_nil, or_false] at hf
      rcases hf with rfl | rfl | rfl <;> exact ⟨⟨by decide, by decide⟩, by decide⟩)
    ⟨.inr (by decide), .inr (by decide), .inl (by decide), trivial⟩
  exact ⟨hbuffer, by decide⟩

end QuicStreamReassembly
