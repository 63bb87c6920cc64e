import WaveX.QuicStreamReassembly

/-! # The CRYPTO stream put together again

    `CryptoStreamReassembler` under `insert` calls of one byte sequence and `consume` calls.
    A chunk whose offset is already a key of `pending` is counted and not stored.  While none
    is, the count is the size of what waits and nothing is lost; the first one breaks it. -/

namespace CryptoReassembly

open QuicVarInt QuicReceiveState Reassembly QuicStreamReassembly List

/-! ## Calls and what they leave behind -/

/-- A call on the reassembler. -/
inductive Call where
  | insert (offset : Nat) (data : Bytes)
  | consume (bytes : Nat)
  deriving DecidableEq, Repr

/-- The reassembler, all bytes ever moved to `ready`, and the chunks of the inserts that
    returned true. -/
structure Log where
  r : CryptoStreamReassembler := {}
  moved : Bytes := []
  accepted : List (Nat × Bytes) := []
  deriving DecidableEq, Repr

/-- One call; `insert` only appends to `ready`. -/
def step (log : Log) : Call → Log
  | .insert offset data =>
      match log.r.insert offset data with
      | some r =>
          { r := r
            moved := log.moved ++ r.ready.drop log.r.ready.length
            accepted := log.accepted ++ [(offset, data)] }
      | none => log
  | .consume bytes => { log with r := log.r.consume bytes }

def run (log : Log) (calls : List Call) : Log := calls.foldl step log

/-- The inserted data is a piece of `S`. -/
def CallOf (S : Bytes) : Call → Prop
  | .insert offset data => PieceOf S (offset, data)
  | .consume _ => True

/-- The contract: the count is the size of what waits, what was moved is `S` up to
    `next_offset`, that is as far as the accepted chunks cover `S` from the front, and an
    insert fails only far ahead or when what waits leaves no room. -/
structure Exact (S : Bytes) (log : Log) : Prop where
  count : log.r.pendingBytes = totalSize log.r.pending
  moved : log.moved = S.take log.r.nextOffset
  frontier : Frontier log.accepted log.r.nextOffset
  refused : ∀ offset data, log.r.insert offset data = none →
    offset > log.r.nextOffset + kMaxCryptoBufferSize ∨
      totalSize log.r.pending + data.length > kMaxCryptoBufferSize

/-- The insert has room: it is neither too far ahead nor over the limit. -/
def Room (r : CryptoStreamReassembler) (offset : Nat) (data : Bytes) : Prop :=
  offset ≤ r.nextOffset + kMaxCryptoBufferSize ∧
    r.pendingBytes + data.length ≤ kMaxCryptoBufferSize

/-- An insert of data with room does not begin where a waiting chunk begins. -/
def Fresh (r : CryptoStreamReassembler) : Call → Prop
  | .insert offset data => data ≠ [] → Room r offset data → ∀ c ∈ r.pending, c.1 ≠ offset
  | .consume _ => True

/-- No call of the run begins where a waiting chunk begins. -/
def AllFresh : Log → List Call → Prop
  | _, [] => True
  | log, call :: rest => Fresh log.r call ∧ AllFresh (step log call) rest

/-- What holds while all calls are such. -/
structure Assembled (S : Bytes) (log : Log) : Prop where
  count : log.r.pendingBytes = totalSize log.r.pending
  moved : log.moved = S.take log.r.nextOffset
  sorted : Sorted log.r.pending
  ahead : ∀ c ∈ log.r.pending, log.r.nextOffset < c.1
  chunks : ∀ c ∈ log.r.pending, PieceOf S c
  covered : ∀ i, (i < log.r.nextOffset ∨ Covered log.r.pending i) ↔ Covered log.accepted i

/-! ## The map of chunks -/

variable {pending : List (Nat × Bytes)} {offset : Nat} {data : Bytes}

/-- At a new offset `emplace` puts the chunk where a stream would. -/
theorem emplace_fresh (h : ∀ c ∈ pending, c.1 ≠ offset) :
    CryptoStreamReassembler.emplace offset data pending =
      QuicStream.insertChunk offset data pending := by
  induction pending with
  | nil => rfl
  | cons c rest ih =>
    obtain ⟨o, d⟩ := c
    have hne : o ≠ offset := h (o, d) mem_cons_self
    have hne' : offset ≠ o := fun heq => hne heq.symm
    rw [CryptoStreamReassembler.emplace, QuicStream.insertChunk,
      ih fun e he => h e (mem_cons_of_mem _ he)]
    by_cases hlt : offset < o
    · rw [if_pos hlt, if_neg (Nat.not_lt.mpr (Nat.le_of_lt hlt)), if_neg hne]
    · rw [if_neg hlt, if_neg hne', if_pos (by omega)]

/-- At a key that is there already it stores nothing. -/
theorem emplace_key (hsorted : Sorted pending) (h : ∃ c ∈ pending, c.1 = offset) :
    CryptoStreamReassembler.emplace offset data pending = pending := by
  induction pending with
  | nil =>
    obtain ⟨c, hc, -⟩ := h
    exact absurd hc not_mem_nil
  | cons e rest ih =>
    obtain ⟨o, d⟩ := e
    obtain ⟨hfirst, hrest⟩ := pairwise_cons.mp hsorted
    obtain ⟨c, hc, hkey⟩ := h
    rw [CryptoStreamReassembler.emplace]
    rcases mem_cons.mp hc with rfl | hc
    · have hkey : o = offset := hkey
      rw [if_neg (by omega), if_pos hkey.symm]
    · have hlt : o < offset := hkey ▸ hfirst c hc
      rw [if_neg (by omega), if_neg (by omega), ih hrest ⟨c, hc, hkey⟩]

/-- A chunk stored at a new offset adds its size. -/
theorem totalSize_insertChunk (h : ∀ c ∈ pending, c.1 ≠ offset) :
    totalSize (QuicStream.insertChunk offset data pending) =
      totalSize pending + data.length := by
  induction pending with
  | nil =>
    simp only [QuicStream.insertChunk, totalSize, map_cons, map_nil, sum_cons,
      sum_nil]
    omega
  | cons c rest ih =>
    obtain ⟨o, d⟩ := c
    have hne : o ≠ offset := h (o, d) mem_cons_self
    have hrest := ih fun e he => h e (mem_cons_of_mem _ he)
    rw [QuicStream.insertChunk]
    by_cases hlt : o < offset
    · simp only [totalSize, map_cons, sum_cons] at hrest ⊢
      rw [if_pos hlt]
      simp only [map_cons, sum_cons]
      omega
    · simp only [totalSize, map_cons, sum_cons]
      rw [if_neg hlt, if_neg hne]
      simp only [map_cons, sum_cons]
      omega

/-- The loop of `insert` is a pass of the reassembly, and it takes what it moves off the
    count. -/
theorem drainPending_eq (r : CryptoStreamReassembler) (pending : List (Nat × Bytes))
    (hcount : r.pendingBytes = totalSize pending) :
    r.drainPending pending =
      { r with
        nextOffset := (drain r.nextOffset r.ready pending).1
        ready := (drain r.nextOffset r.ready pending).2.1
        pending := (drain r.nextOffset r.ready pending).2.2
        pendingBytes := totalSize (drain r.nextOffset r.ready pending).2.2 } := by
  induction pending generalizing r with
  | nil =>
    rw [CryptoStreamReassembler.drainPending, drain, hcount]
  | cons c rest ih =>
    obtain ⟨o, d⟩ := c
    have hsize : r.pendingBytes - d.length = totalSize rest := by
      simp only [hcount, totalSize, map_cons, sum_cons, Nat.add_sub_cancel_left]
    rw [CryptoStreamReassembler.drainPending, drain]
    by_cases hgap : o > r.nextOffset
    · simp only [if_pos hgap, ← hcount]
    · simp only [if_neg hgap]
      by_cases hnew : o + d.length > r.nextOffset
      · simp only [if_pos hnew]
        rw [ih _ hsize]
      · simp only [if_neg hnew]
        rw [ih _ hsize]

/-- Where all that waits lies ahead, the loop moves nothing. -/
theorem drainPending_ahead (r : CryptoStreamReassembler) (h : ∀ c ∈ pending, r.nextOffset < c.1) :
    r.drainPending pending = { r with pending := pending } := by
  cases pending with
  | nil => rfl
  | cons c rest => rw [CryptoStreamReassembler.drainPending, if_pos (h c mem_cons_self)]

/-! ## One call -/

/-- Data that is old or empty changes nothing. -/
theorem insert_old (r : CryptoStreamReassembler)
    (h : data = [] ∨ offset + data.length ≤ r.nextOffset) : r.insert offset data = some r := by
  rw [CryptoStreamReassembler.insert]
  by_cases hempty : data = []
  · rw [if_pos (by rw [hempty]; rfl)]
  · rw [if_neg (by rwa [List.isEmpty_iff]), if_pos (h.resolve_left hempty)]

/-- New data fails exactly when it has no room. -/
theorem insert_new (r : CryptoStreamReassembler) (hne : data ≠ [])
    (hnew : r.nextOffset < offset + data.length) :
    (Room r offset data ∧ r.insert offset data =
        some (CryptoStreamReassembler.drainPending
          { r with pendingBytes := r.pendingBytes + data.length }
          (CryptoStreamReassembler.emplace offset data r.pending))) ∨
      (¬ Room r offset data ∧ r.insert offset data = none) := by
  rw [CryptoStreamReassembler.insert, if_neg (by rwa [List.isEmpty_iff]),
    if_neg (Nat.not_le.mpr hnew)]
  by_cases hfar : offset > r.nextOffset + kMaxCryptoBufferSize
  · rw [if_pos hfar]
    exact .inr ⟨fun h => absurd h.1 (Nat.not_le.mpr hfar), rfl⟩
  · rw [if_neg hfar]
    by_cases hfull : r.pendingBytes + data.length > kMaxCryptoBufferSize
    · rw [if_pos hfull]
      exact .inr ⟨fun h => absurd h.2 (Nat.not_le.mpr hfull), rfl⟩
    · rw [if_neg hfull]
      exact .inl ⟨⟨Nat.le_of_not_lt hfar, Nat.le_of_not_lt hfull⟩, rfl⟩

/-- `consume` moves only the position in `ready`. -/
theorem consume_frame (r : CryptoStreamReassembler) (bytes : Nat) :
    (r.consume bytes).pending = r.pending ∧ (r.consume bytes).nextOffset = r.nextOffset ∧
      (r.consume bytes).pendingBytes = r.pendingBytes := by
  rw [CryptoStreamReassembler.consume]
  split
  · exact ⟨rfl, rfl, rfl⟩
  · split
    · exact ⟨rfl, rfl, rfl⟩
    · exact ⟨rfl, rfl, rfl⟩

variable {S : Bytes} {log : Log}

/-- Data that is old covers nothing new. -/
theorem step_old (h : Assembled S log)
    (hold : data = [] ∨ offset + data.length ≤ log.r.nextOffset) :
    Assembled S (step log (.insert offset data)) := by
  have hstep : step log (.insert offset data) =
      { log with accepted := log.accepted ++ [(offset, data)] } := by
    simp only [step, insert_old log.r hold, drop_length, append_nil]
  rw [hstep]
  refine ⟨h.count, h.moved, h.sorted, h.ahead, h.chunks, ?_⟩
  intro i
  rw [covered_concat, ← h.covered]
  constructor
  · exact .inl
  · rintro (hi | ⟨hlo, hhi⟩)
    · exact hi
    · dsimp only at hlo hhi
      rcases hold with rfl | hle
      · rw [length_nil] at hhi
        omega
      · exact .inl (Nat.lt_of_lt_of_le hhi hle)

/-- New data at a new offset is stored, and what has become contiguous is moved. -/
theorem step_fresh (h : Assembled S log) (hpiece : PieceOf S (offset, data)) (hne : data ≠ [])
    (hnew : log.r.nextOffset < offset + data.length) (hroom : Room log.r offset data)
    (hfresh : ∀ c ∈ log.r.pending, c.1 ≠ offset) :
    Assembled S (step log (.insert offset data)) := by
  obtain ⟨-, hinsert⟩ := (insert_new log.r hne hnew).resolve_right fun h => h.1 hroom
  have hsorted : Sorted (QuicStream.insertChunk offset data log.r.pending) :=
    insertChunk_sorted h.sorted
  have hchunks : ∀ c ∈ QuicStream.insertChunk offset data log.r.pending, PieceOf S c := by
    intro c hc
    rcases insertChunk_mem hc with rfl | hc
    · exact hpiece
    · exact h.chunks c hc
  have hcount : log.r.pendingBytes + data.length =
      totalSize (QuicStream.insertChunk offset data log.r.pending) := by
    rw [totalSize_insertChunk hfresh, h.count]
  have hdrain := drain_spec log.r.nextOffset hsorted hchunks
  rw [emplace_fresh hfresh, drainPending_eq _ _ hcount] at hinsert
  rw [drain_out] at hdrain
  have hmoved : log.moved ++ (drain log.r.nextOffset []
      (QuicStream.insertChunk offset data log.r.pending)).2.1 =
      S.take (drain log.r.nextOffset []
        (QuicStream.insertChunk offset data log.r.pending)).1 := by
    rw [h.moved]
    exact hdrain.out
  rw [step, hinsert]
  dsimp only
  rw [drain_out, drop_left]
  refine ⟨rfl, hmoved, hsorted.sublist hdrain.suffix.sublist, hdrain.beyond, ?_, ?_⟩
  · intro c hc
    exact hchunks c (hdrain.suffix.subset hc)
  · intro i
    rw [covered_concat, ← h.covered]
    refine (hdrain.covered i).trans ?_
    rw [covered_insertChunk, or_comm (a := inside _ i), or_assoc]

/-- A call that is fresh keeps the reassembler exact. -/
theorem step_assembled {call : Call} (h : Assembled S log) (hcall : CallOf S call)
    (hfresh : Fresh log.r call) : Assembled S (step log call) := by
  cases call with
  | consume bytes =>
    obtain ⟨hpending, hnext, hbytes⟩ := consume_frame log.r bytes
    constructor
    · rw [step, hpending, hbytes]
      exact h.count
    · rw [step, hnext]
      exact h.moved
    · rw [step, hpending]
      exact h.sorted
    · rw [step, hpending, hnext]
      exact h.ahead
    · rw [step, hpending]
      exact h.chunks
    · rw [step, hpending, hnext]
      exact h.covered
  | insert offset data =>
    by_cases hold : data = [] ∨ offset + data.length ≤ log.r.nextOffset
    · exact step_old h hold
    · obtain ⟨hne, hnew⟩ := not_or.mp hold
      have hnew := Nat.lt_of_not_le hnew
      by_cases hroom : Room log.r offset data
      · exact step_fresh h hcall hne hnew hroom (hfresh hne hroom)
      · obtain ⟨-, hnone⟩ := (insert_new log.r hne hnew).resolve_left fun h => hroom h.1
        rw [step, hnone]
        exact h

theorem Assembled.exact (h : Assembled S log) : Exact S log := by
  refine ⟨h.count, h.moved, frontier_of_covered h.covered h.ahead, ?_⟩
  intro offset data hnone
  by_cases hold : data = [] ∨ offset + data.length ≤ log.r.nextOffset
  · rw [insert_old log.r hold] at hnone
    cases hnone
  · obtain ⟨hne, hnew⟩ := not_or.mp hold
    rcases insert_new log.r hne (Nat.lt_of_not_le hnew) with ⟨-, hsome⟩ | ⟨hroom, -⟩
    · rw [hsome] at hnone
      cases hnone
    · rw [Room, not_and_or, h.count] at hroom
      exact hroom.imp Nat.lt_of_not_le Nat.lt_of_not_le

/-- A call that is not fresh is counted without being stored. -/
theorem step_not_exact {call : Call} (h : Assembled S log) (hstale : ¬ Fresh log.r call) :
    ¬ Exact S (step log call) := by
  cases call with
  | consume bytes => exact absurd trivial hstale
  | insert offset data =>
    rw [Fresh, Classical.not_imp, Classical.not_imp] at hstale
    obtain ⟨hne, hroom, hkey⟩ := hstale
    have hkey : ∃ c ∈ log.r.pending, c.1 = offset := by
      by_contra hno
      exact hkey fun c hc heq => hno ⟨c, hc, heq⟩
    have hpos : 0 < data.length := length_pos_iff.mpr hne
    have hnew : log.r.nextOffset < offset + data.length := by
      obtain ⟨c, hc, rfl⟩ := hkey
      have := h.ahead c hc
      omega
    obtain ⟨-, hinsert⟩ := (insert_new log.r hne hnew).resolve_right fun h => h.1 hroom
    have hahead : ∀ c ∈ log.r.pending, CryptoStreamReassembler.nextOffset
        { log.r with pendingBytes := log.r.pendingBytes + data.length } < c.1 := h.ahead
    rw [emplace_key h.sorted hkey, drainPending_ahead _ hahead] at hinsert
    intro hexact
    have hcount := hexact.count
    simp only [step, hinsert] at hcount
    rw [h.count] at hcount
    omega

/-! ## Any calls -/

theorem start_assembled (S : Bytes) : Assembled S {} where
  count := rfl
  moved := rfl
  sorted := List.Pairwise.nil
  ahead := fun c h => absurd h not_mem_nil
  chunks := fun c h => absurd h not_mem_nil
  covered := by
    intro i
    refine iff_of_false ?_ (not_covered_nil i)
    rintro (hi | hi)
    · exact absurd hi (Nat.not_lt_zero i)
    · exact not_covered_nil i hi

theorem Assembled.run_exact_iff (h : Assembled S log) {calls : List Call}
    (hcalls : ∀ call ∈ calls, CallOf S call) :
    (∀ n, Exact S (run log (calls.take n))) ↔ AllFresh log calls := by
  induction calls generalizing log with
  | nil =>
    refine iff_of_true ?_ trivial
    intro n
    rw [take_nil]
    exact h.exact
  | cons call rest ih =>
    have hcall := hcalls call mem_cons_self
    have hrest := fun call hmem => hcalls call (mem_cons_of_mem _ hmem)
    constructor
    · intro hexact
      have hfresh : Fresh log.r call := by
        by_contra hstale
        exact step_not_exact h hstale (hexact 1)
      exact ⟨hfresh, (ih (step_assembled h hcall hfresh) hrest).mp fun n => hexact (n + 1)⟩
    · rintro ⟨hfresh, hall⟩ n
      cases n with
      | zero => exact h.exact
      | succ n => exact (ih (step_assembled h hcall hfresh) hrest).mpr hall n

/-- Calls with pieces of `S`, in any order: the reassembler is exact after every one of them
    exactly when none inserts data, with room for it, where a waiting chunk begins. -/
theorem run_exact_iff_allFresh (S : Bytes) (calls : List Call)
    (hcalls : ∀ call ∈ calls, CallOf S call) :
    (∀ n, Exact S (run {} (calls.take n))) ↔ AllFresh {} calls :=
  (start_assembled S).run_exact_iff hcalls

/-- A gap, its first byte, a `consume`, and a chunk that overlaps both sides. -/
theorem run_exact_gap :
    Exact [1, 2, 3, 4]
      (run {} [.insert 2 [3, 4], .insert 0 [1], .consume 1, .insert 0 [1, 2, 3]]) := by
  have hcalls : ∀ call ∈ [Call.insert 2 [3, 4], .insert 0 [1], .consume 1, .insert 0 [1, 2, 3]],
      CallOf [1, 2, 3, 4] call := by
    intro call hmem
    simp only [mem_cons, not_mem_nil, or_false] at hmem
    rcases hmem with rfl | rfl | rfl | rfl
    · exact ⟨by decide, rfl⟩
    · exact ⟨by decide, rfl⟩
    · trivial
    · exact ⟨by decide, rfl⟩
  exact (run_exact_iff_allFresh [1, 2, 3, 4] _ hcalls).mpr
    ⟨fun _ _ => by decide, fun _ _ => by decide, trivial, fun _ _ => by decide, trivial⟩ 4

/-- One waiting byte inserted twice counts as two. -/
theorem resent_chunk_counted_twice :
    ¬ ∀ (S : Bytes) (calls : List Call), (∀ call ∈ calls, CallOf S call) →
      ∀ n, Exact S (run {} (calls.take n)) := by
  intro h
  have hcalls : ∀ call ∈ [Call.insert 1 [2], .insert 1 [2]], CallOf [1, 2] call := by
    intro call hmem
    simp only [mem_cons, not_mem_nil, or_false, or_self] at hmem
    rw [hmem]
    exact ⟨by decide, rfl⟩
  have hcount : (2 : Nat) = 1 := (h [1, 2] _ hcalls 2).count
  omega

end CryptoReassembly
