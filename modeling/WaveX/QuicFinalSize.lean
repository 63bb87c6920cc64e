import WaveX.QuicStreamReassembly

/-! # The final size of a stream

    `push_inbound` under frames of a peer that may contradict itself.  The final size is
    checked against the frame that arrives and against what is delivered, not against the
    chunks that wait: a FIN may leave a chunk behind its end, which a later frame delivers.
    Where no FIN does that, nothing is delivered behind the final size. -/

namespace QuicFinalSize

open QuicVarInt QuicReceiveState Reassembly QuicStreamReassembly List

/-- Where the data of a frame ends. -/
def stop (f : InFrame) : Nat := f.offset + f.data.length

/-- The contract: nothing is delivered behind a final size that is set, and data behind the
    end that a FIN frame gave has raised the error. -/
def Safe (frames : List InFrame) (st : QuicStream) : Prop :=
  (∀ size, st.finalSize = some size → st.recvOffset ≤ size) ∧
    ∀ g ∈ frames, g.fin = true → ∀ f ∈ frames, f.data ≠ [] → stop g < stop f →
      st.finalSizeError = true

/-- A FIN that sets the final size comes after no data behind it. -/
def StepOk (before : List InFrame) (st : QuicStream) (f : InFrame) : Prop :=
  f.fin = true → st.finalSize = none → st.recvOffset ≤ stop f →
    ∀ g ∈ before, g.data ≠ [] → stop g ≤ stop f

/-- What holds of a stream when every FIN was such. -/
structure Sized (frames : List InFrame) (st : QuicStream) : Prop where
  delivered : ∀ size, st.finalSize = some size → st.recvOffset ≤ size
  waiting : ∀ size, st.finalSize = some size → ∀ c ∈ st.pendingInbound, c.2 ≠ [] →
    c.1 + c.2.length ≤ size
  beyond : ∀ size, st.finalSize = some size → ∀ f ∈ frames, f.data ≠ [] → size < stop f →
    st.finalSizeError = true
  fins : ∀ g ∈ frames, g.fin = true → st.finalSize = some (stop g) ∨ st.finalSizeError = true
  chunks : ∀ c ∈ st.pendingInbound, c.2 ≠ [] →
    ∃ f ∈ frames, f.data ≠ [] ∧ stop f = c.1 + c.2.length

variable {st : QuicStream} {frames : List InFrame}

theorem Sized.safe (h : Sized frames st) :
    Safe frames st := by
  refine ⟨h.delivered, ?_⟩
  intro g hg hfin f hf hne hlt
  rcases h.fins g hg hfin with hsize | herr
  · exact h.beyond _ hsize f hf hne hlt
  · exact herr

/-- What a frame does to the offset and to the chunks that wait, after the checks. -/
def place (st : QuicStream) (f : InFrame) : QuicStream :=
  if f.offset + f.data.length ≤ st.recvOffset then st
  else
    let data := f.data.drop (st.recvOffset - f.offset)
    let offset := max f.offset st.recvOffset
    if offset = st.recvOffset then (st.appendBytes data).drainInbound st.pendingInbound
    else if (st.pendingInbound.map (fun c => c.2.length)).sum + data.length
        ≤ 16 * 1024 * 1024 then
      { st with pendingInbound := QuicStream.insertChunk offset data st.pendingInbound }
    else st

/-- The frame is checked against the final size and then placed; the flag `fin_received_`
    aside, that is all. -/
theorem push_cases (st : QuicStream) (f : InFrame) :
    (st.checkFinalSize f.offset f.data.length f.fin = none ∧
        push st f = { st with finalSizeError := true }) ∨
      ∃ st₁, st.checkFinalSize f.offset f.data.length f.fin = some st₁ ∧
        (push st f).recvOffset = (place st₁ f).recvOffset ∧
        (push st f).pendingInbound = (place st₁ f).pendingInbound ∧
        (push st f).finalSize = (place st₁ f).finalSize ∧
        (push st f).finalSizeError = (place st₁ f).finalSizeError := by
  rw [push, QuicStream.pushInbound]
  cases hcheck : st.checkFinalSize f.offset f.data.length f.fin with
  | none => exact .inl ⟨rfl, rfl⟩
  | some st₁ =>
    refine .inr ⟨st₁, rfl, ?_⟩
    rw [place]
    dsimp only
    split
    · exact ⟨rfl, rfl, rfl, rfl⟩
    · split
      · exact ⟨rfl, rfl, rfl, rfl⟩
      · split
        · exact ⟨rfl, rfl, rfl, rfl⟩
        · exact ⟨rfl, rfl, rfl, rfl⟩

/-- Placing a frame leaves the final size and the error as they are. -/
theorem place_final (st : QuicStream) (f : InFrame) :
    (place st f).finalSize = st.finalSize ∧ (place st f).finalSizeError = st.finalSizeError := by
  rw [place]
  dsimp only
  split
  · exact ⟨rfl, rfl⟩
  · split
    · rw [drainInbound_eq]
      exact ⟨rfl, rfl⟩
    · split
      · exact ⟨rfl, rfl⟩
      · exact ⟨rfl, rfl⟩

variable {f : InFrame}

/-- It delivers nothing behind a limit that bounds the frame and what waits. -/
theorem place_le {limit : Nat} (hrecv : st.recvOffset ≤ limit)
    (hwait : ∀ c ∈ st.pendingInbound, c.2 ≠ [] → c.1 + c.2.length ≤ limit)
    (hstop : stop f ≤ limit) : (place st f).recvOffset ≤ limit := by
  rw [stop] at hstop
  rw [place]
  dsimp only
  split
  · exact hrecv
  · next hnew =>
    split
    · next hcont =>
      have hreach : st.recvOffset + (f.data.drop (st.recvOffset - f.offset)).length ≤ limit := by
        rw [length_drop]
        omega
      rw [drainInbound_eq]
      exact drain_le hreach _ hwait
    · split
      · exact hrecv
      · exact hrecv

/-- The chunks that wait are old ones or the frame's own. -/
theorem place_waiting {c : Nat × Bytes} (h : c ∈ (place st f).pendingInbound) :
    c ∈ st.pendingInbound ∨ c = (f.offset, f.data) := by
  rw [place] at h
  dsimp only at h
  split at h
  · exact .inl h
  · next hnew =>
    split at h
    · rw [drainInbound_eq] at h
      exact .inl ((drain_suffix _ _ _).subset h)
    · next hahead =>
      have hmax : max f.offset st.recvOffset = f.offset := by omega
      have htrim : st.recvOffset - f.offset = 0 := by omega
      split at h
      · rw [hmax, htrim, drop_zero] at h
        exact (insertChunk_mem h).symm
      · exact .inl h

/-! ## One frame -/

/-- What the check lets through: a frame within the final size, or a FIN that sets it. -/
theorem checkFinalSize_cases {st st₁ : QuicStream}
    (h : st.checkFinalSize f.offset f.data.length f.fin = some st₁) :
    (st₁ = st ∧ (∀ size, st.finalSize = some size → stop f ≤ size) ∧
        (f.fin = true → st.finalSize = some (stop f))) ∨
      (f.fin = true ∧ st.finalSize = none ∧ st.recvOffset ≤ stop f ∧
        st₁ = { st with finalSize := some (stop f) }) := by
  cases hsize : st.finalSize with
  | some size =>
    cases hfin : f.fin with
    | true =>
      simp only [QuicStream.checkFinalSize, hsize, hfin, ne_eq, ite_not] at h
      split at h
      · next heq =>
        have heq : size = stop f := heq
        refine .inl ⟨(Option.some.inj h).symm, ?_, fun _ => by rw [heq]⟩
        intro size' hsome
        rw [← Option.some.inj hsome, heq]
      · cases h
    | false =>
      simp only [QuicStream.checkFinalSize, hsize, hfin] at h
      split at h
      · cases h
      · next hle =>
        refine .inl ⟨(Option.some.inj h).symm, ?_, fun hf => absurd hf Bool.false_ne_true⟩
        intro size' hsome
        rw [← Option.some.inj hsome]
        exact Nat.le_of_not_lt hle
  | none =>
    cases hfin : f.fin with
    | true =>
      simp only [QuicStream.checkFinalSize, hsize, hfin] at h
      split at h
      · cases h
      · next hle => exact .inr ⟨rfl, rfl, Nat.le_of_not_lt hle, (Option.some.inj h).symm⟩
    | false =>
      simp only [QuicStream.checkFinalSize, hsize, hfin] at h
      refine .inl ⟨(Option.some.inj h).symm, ?_, fun hf => absurd hf Bool.false_ne_true⟩
      rintro size' ⟨⟩

/-- A frame seen more does not take the origin of a chunk away. -/
theorem Sized.chunks_concat (h : Sized frames st) (f : InFrame) :
    ∀ c ∈ st.pendingInbound, c.2 ≠ [] →
      ∃ g ∈ frames ++ [f], g.data ≠ [] ∧ stop g = c.1 + c.2.length := by
  intro c hc hne
  obtain ⟨g, hg, hrest⟩ := h.chunks c hc hne
  exact ⟨g, mem_append_left _ hg, hrest⟩

/-- The check itself keeps the sizes right, and leaves a frame within them. -/
theorem Sized.checked {st st₁ : QuicStream} (h : Sized frames st) (hok : StepOk frames st f)
    (hcheck : st.checkFinalSize f.offset f.data.length f.fin = some st₁) :
    Sized (frames ++ [f]) st₁ ∧ ∀ size, st₁.finalSize = some size → stop f ≤ size := by
  rcases checkFinalSize_cases hcheck with ⟨rfl, hwithin, hset⟩ | ⟨hfin, hnone, hle, rfl⟩
  · refine ⟨⟨h.delivered, h.waiting, ?_, ?_, h.chunks_concat f⟩, hwithin⟩
    · intro size hsize g hg hne hlt
      rcases mem_append.mp hg with hg | hg
      · exact h.beyond size hsize g hg hne hlt
      · rw [mem_singleton.mp hg] at hlt
        exact absurd (hwithin size hsize) (Nat.not_le.mpr hlt)
    · intro g hg hgfin
      rcases mem_append.mp hg with hg | hg
      · exact h.fins g hg hgfin
      · rw [mem_singleton.mp hg] at hgfin ⊢
        exact .inl (hset hgfin)
  · have hbefore := hok hfin hnone hle
    refine ⟨⟨?_, ?_, ?_, ?_, h.chunks_concat f⟩, ?_⟩
    · rintro size ⟨⟩
      exact hle
    · rintro size ⟨⟩ c hc hne
      obtain ⟨g, hg, hgne, hstop⟩ := h.chunks c hc hne
      rw [← hstop]
      exact hbefore g hg hgne
    · rintro size ⟨⟩ g hg hne hlt
      rcases mem_append.mp hg with hg | hg
      · exact absurd (hbefore g hg hne) (Nat.not_le.mpr hlt)
      · rw [mem_singleton.mp hg] at hlt
        exact absurd hlt (Nat.lt_irrefl _)
    · intro g hg hgfin
      rcases mem_append.mp hg with hg | hg
      · rcases h.fins g hg hgfin with hsome | herr
        · rw [hnone] at hsome
          cases hsome
        · exact .inr herr
      · rw [mem_singleton.mp hg]
        exact .inl rfl
    · rintro size ⟨⟩
      exact Nat.le_refl _

/-- Placing a frame that is within the final size keeps the sizes right. -/
theorem Sized.placed (h : Sized frames st) (hf : f ∈ frames)
    (hwithin : ∀ size, st.finalSize = some size → stop f ≤ size) : Sized frames (place st f) := by
  obtain ⟨hfinal, herror⟩ := place_final st f
  refine ⟨?_, ?_, ?_, ?_, ?_⟩
  · intro size hsize
    rw [hfinal] at hsize
    exact place_le (h.delivered size hsize) (h.waiting size hsize) (hwithin size hsize)
  · intro size hsize c hc hne
    rw [hfinal] at hsize
    rcases place_waiting hc with hc | rfl
    · exact h.waiting size hsize c hc hne
    · exact hwithin size hsize
  · rw [hfinal, herror]
    exact h.beyond
  · rw [hfinal, herror]
    exact h.fins
  · intro c hc hne
    rcases place_waiting hc with hc | rfl
    · exact h.chunks c hc hne
    · exact ⟨f, hf, hne, rfl⟩

theorem Sized.push (h : Sized frames st) (hok : StepOk frames st f) :
    Sized (frames ++ [f]) (push st f) := by
  rcases push_cases st f with ⟨-, herr⟩ | ⟨st₁, hcheck, hrecv, hpending, hfinal, herror⟩
  · rw [herr]
    exact ⟨h.delivered, h.waiting, fun _ _ _ _ _ _ => rfl, fun _ _ _ => .inr rfl,
      h.chunks_concat f⟩
  · obtain ⟨hsized, hwithin⟩ := h.checked hok hcheck
    have hmem : f ∈ frames ++ [f] := mem_append_right _ (mem_singleton.mpr rfl)
    obtain ⟨h₁, h₂, h₃, h₄, h₅⟩ := hsized.placed hmem hwithin
    constructor
    · rwa [hfinal, hrecv]
    · rwa [hfinal, hpending]
    · rwa [hfinal, herror]
    · rwa [hfinal, herror]
    · rwa [hpending]

/-- A FIN that leaves data behind its end raises nothing. -/
theorem push_unsafe (herror : st.finalSizeError = false) (hbad : ¬ StepOk frames st f) :
    ¬ Safe (frames ++ [f]) (push st f) := by
  intro hsafe
  apply hbad
  intro hfin hnone hle g hg hne
  refine Nat.le_of_not_lt fun hlt => ?_
  have hraised := hsafe.2 f (mem_append_right _ (mem_singleton.mpr rfl)) hfin g
    (mem_append_left _ hg) hne hlt
  rcases push_cases st f with ⟨hrefused, -⟩ | ⟨st₁, hcheck, -, -, -, hflag⟩
  · have hnot : ¬ f.offset + f.data.length < st.recvOffset := Nat.not_lt.mpr hle
    simp only [QuicStream.checkFinalSize, hnone, hfin, if_neg hnot] at hrefused
    cases hrefused
  · have hflag₁ : st₁.finalSizeError = st.finalSizeError := by
      rcases checkFinalSize_cases hcheck with ⟨rfl, -⟩ | ⟨-, -, -, rfl⟩
      · rfl
      · rfl
    rw [hflag, (place_final st₁ f).2, hflag₁, herror] at hraised
    exact absurd hraised Bool.false_ne_true

/-! ## Any frames -/

/-- Every FIN that sets the final size comes after no data behind it. -/
def AllStepsOk : List InFrame → QuicStream → List InFrame → Prop
  | _, _, [] => True
  | before, st, f :: rest =>
      StepOk before st f ∧ AllStepsOk (before ++ [f]) (push st f) rest

theorem fresh_sized (sid : Nat) : Sized [] (fresh sid) where
  delivered := by rintro size ⟨⟩
  waiting := by rintro size ⟨⟩
  beyond := by rintro size ⟨⟩
  fins := fun _ hg => absurd hg not_mem_nil
  chunks := fun _ hc => absurd hc not_mem_nil

theorem received_sized {before frames : List InFrame} (h : Sized before st)
    (hok : AllStepsOk before st frames) (n : Nat) :
    Sized (before ++ frames.take n) (received st (frames.take n)) := by
  induction frames generalizing before st n with
  | nil =>
    rw [take_nil, append_nil]
    exact h
  | cons f rest ih =>
    cases n with
    | zero =>
      rw [take_zero, append_nil]
      exact h
    | succ n =>
      have hrest := ih (h.push hok.1) hok.2 n
      rw [append_assoc, singleton_append] at hrest
      exact hrest

/-- While every FIN ends behind all data that came before it, the final size is safe after
    every frame; the first FIN that does not breaks it at once. -/
theorem received_safe_when (sid : Nat) (frames : List InFrame) :
    (AllStepsOk [] (fresh sid) frames →
        ∀ n, Safe (frames.take n) (received (fresh sid) (frames.take n))) ∧
      ∀ f, (received (fresh sid) frames).finalSizeError = false →
        ¬ StepOk frames (received (fresh sid) frames) f →
          ¬ Safe (frames ++ [f]) (received (fresh sid) (frames ++ [f])) := by
  constructor
  · intro hok n
    have h := received_sized (fresh_sized sid) hok n
    rw [nil_append] at h
    exact h.safe
  · intro f herror hbad
    rw [received, foldl_append]
    exact push_unsafe herror hbad

/-- Bytes 1 to 3 wait, a FIN says that the stream has two bytes, and the first byte lets all
    four be delivered: the final size is 2, and no error is raised. -/
theorem delivered_behind_final_size :
    ¬ ∀ (sid : Nat) (frames : List InFrame), Safe frames (received (fresh sid) frames) := by
  intro h
  have hsafe := h 0 [⟨1, [2, 3, 4], false⟩, ⟨2, [], true⟩, ⟨0, [1], false⟩]
  have hle : (4 : Nat) ≤ 2 := hsafe.1 2 (by decide)
  omega

end QuicFinalSize
