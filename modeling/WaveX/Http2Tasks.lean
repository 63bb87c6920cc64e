import WaveX.Http2Effects
import WaveX.HeaderProgress

/-! # Streams and their tasks

    What the reader decides about a stream is whether it is opened, refused, handed to a
    task or dropped.  `TaskTable` is the part of a session these decisions are about, and
    `TableStep` the ways it can change: a small state machine that the session refines.
    Its invariant says that a stream is handed to a task at most once and that the tasks
    running are those of the streams still in `streams_`. -/

namespace Http2Tasks

open QuicVarInt Hpack Http2Frames Http2Session Http2Session.Session Http2Effects List

/-! ## The table of streams and tasks -/

/-- A stream as far as tasks are concerned. -/
structure Entry where
  id : Nat
  held : Bool
  headersDone : Bool
  dispatched : Bool

/-- The streams made, the tasks running, and the ids that were opened, handed to a task
    or lost, newest first. -/
structure TaskTable where
  entries : List Entry
  lastId : Nat
  tasks : List Nat
  activeTasks : Nat
  opened : List Nat
  spawned : List Nat
  lost : List Nat

/-- A change of the entries with an id. -/
def updateEntry (sid : Nat) (g : Entry → Entry) (entries : List Entry) : List Entry :=
  entries.map fun e => if e.id = sid then g e else e

/-- The ways the table changes; a stream is admitted only under `Room`. -/
inductive TableStep (Room : Prop) : TaskTable → TaskTable → Prop where
  | openEntry (t : TaskTable) (sid : Nat) (h : t.lastId < sid) :
      TableStep Room t { t with
        entries := t.entries ++ [⟨sid, true, false, false⟩], lastId := sid
        opened := sid :: t.opened }
  | accept (t : TaskTable) (sid : Nat) (h : Room) :
      TableStep Room t { t with
        entries := updateEntry sid (fun e => { e with headersDone := true }) t.entries }
  | refuse (t : TaskTable) (e : Entry) (he : e ∈ t.entries) (hheld : e.held = true)
      (hd : e.dispatched = false) :
      TableStep Room t { t with
        entries := updateEntry e.id (fun e => { e with headersDone := true, held := false })
          t.entries }
  | spawn (t : TaskTable) (e : Entry) (he : e ∈ t.entries) (hheld : e.held = true)
      (hd : e.dispatched = false) (hh : e.headersDone = true) :
      TableStep Room t { t with
        entries := updateEntry e.id (fun e => { e with dispatched := true }) t.entries
        activeTasks := t.activeTasks + 1, tasks := e.id :: t.tasks
        spawned := e.id :: t.spawned }
  | drop (t : TaskTable) (e : Entry) (he : e ∈ t.entries) (hheld : e.held = true)
      (hd : e.dispatched = false) :
      TableStep Room t { t with
        entries := updateEntry e.id (fun e => { e with held := false }) t.entries }
  | finish (t : TaskTable) (sid : Nat) (h : sid ∈ t.tasks) :
      TableStep Room t { t with
        entries := updateEntry sid (fun e => { e with held := false }) t.entries
        activeTasks := t.activeTasks - 1, tasks := t.tasks.erase sid }
  | clear (t : TaskTable) (h : t.activeTasks = 0) :
      TableStep Room t { t with entries := t.entries.map fun e => { e with held := false } }

/-- The invariant of the table. -/
structure Sound (t : TaskTable) : Prop where
  ordered : t.entries.Pairwise fun e e' => e.id < e'.id
  known : ∀ e ∈ t.entries, e.id ≤ t.lastId
  started : ∀ e ∈ t.entries, e.dispatched = true → e.headersDone = true
  running : ∀ sid, sid ∈ t.tasks ↔
    ∃ e ∈ t.entries, e.id = sid ∧ e.held = true ∧ e.dispatched = true
  nodup : t.tasks.Nodup
  count : t.activeTasks = t.tasks.length
  handed : ∀ sid, sid ∈ t.spawned ↔ ∃ e ∈ t.entries, e.id = sid ∧ e.dispatched = true
  once : t.spawned.Nodup
  found : t.lost = []
  increasing : t.opened = (t.entries.map Entry.id).reverse

variable {Room : Prop} {t t' : TaskTable} {sid : Nat} {e e' : Entry} {entries : List Entry}
  {g : Entry → Entry}

/-! ## Updates of entries -/

theorem mem_updateEntry {P : Entry → Prop} :
    (∃ e ∈ updateEntry sid g entries, P e) ↔
      ∃ e ∈ entries, (e.id = sid ∧ P (g e)) ∨ (e.id ≠ sid ∧ P e) := by
  rw [updateEntry]
  constructor
  · rintro ⟨e', he', hP⟩
    obtain ⟨e, he, rfl⟩ := mem_map.mp he'
    refine ⟨e, he, ?_⟩
    split at hP
    · rename_i hid
      exact .inl ⟨hid, hP⟩
    · rename_i hid
      exact .inr ⟨hid, hP⟩
  · rintro ⟨e, he, hP⟩
    refine ⟨_, mem_map_of_mem he, ?_⟩
    rcases hP with ⟨hid, hP⟩ | ⟨hid, hP⟩
    · rwa [if_pos hid]
    · rwa [if_neg hid]

theorem forall_updateEntry {P : Entry → Prop} (hin : ∀ e ∈ entries, e.id = sid → P (g e))
    (hout : ∀ e ∈ entries, e.id ≠ sid → P e) : ∀ e ∈ updateEntry sid g entries, P e := by
  intro e' he'
  obtain ⟨e, he, rfl⟩ := mem_map.mp he'
  split
  · rename_i hid
    exact hin e he hid
  · rename_i hid
    exact hout e he hid

theorem updateEntry_ids (hg : ∀ e, (g e).id = e.id) :
    (updateEntry sid g entries).map Entry.id = entries.map Entry.id := by
  rw [updateEntry, map_map]
  congr 1
  funext e
  rw [Function.comp]
  split
  · exact hg e
  · rfl

theorem reverse_ids_update (hg : ∀ e, (g e).id = e.id) {opened : List Nat}
    (h : opened = (entries.map Entry.id).reverse) :
    opened = ((updateEntry sid g entries).map Entry.id).reverse := by
  rw [updateEntry_ids hg]
  exact h

theorem pairwise_ids : entries.Pairwise (fun e e' => e.id < e'.id) ↔
    (entries.map Entry.id).Pairwise (· < ·) := pairwise_map.symm

theorem ordered_update (hg : ∀ e, (g e).id = e.id)
    (h : entries.Pairwise fun e e' => e.id < e'.id) :
    (updateEntry sid g entries).Pairwise fun e e' => e.id < e'.id := by
  rw [pairwise_ids, updateEntry_ids hg]
  exact pairwise_ids.mp h

/-- Two entries with one id are the same. -/
theorem Sound.unique (h : Sound t) (he : e ∈ t.entries) (he' : e' ∈ t.entries)
    (hid : e.id = e'.id) : e = e' := by
  have hnodup : (t.entries.map Entry.id).Nodup :=
    (pairwise_ids.mp h.ordered).imp fun hlt => Nat.ne_of_lt hlt
  exact inj_on_of_nodup_map hnodup he he' hid

/-! ## Steps of the table -/

/-- An update of one entry that keeps ids, tasks and handed ids keeps the invariant when
    it changes neither whether the stream runs a task nor whether it has been handed to
    one, and marks nothing started without headers. -/
theorem Sound.update (h : Sound t) (hid : ∀ e, (g e).id = e.id)
    (hrun : ∀ e ∈ t.entries, e.id = sid →
      (((g e).held = true ∧ (g e).dispatched = true) ↔ (e.held = true ∧ e.dispatched = true)))
    (hhand : ∀ e, (g e).dispatched = e.dispatched)
    (hdone : ∀ e, e.headersDone = true → (g e).headersDone = true) :
    Sound { t with entries := updateEntry sid g t.entries } where
  ordered := ordered_update hid h.ordered
  known := by
    refine forall_updateEntry (fun e he _ => ?_) fun e he _ => h.known e he
    rw [hid]
    exact h.known e he
  started := by
    refine forall_updateEntry (fun e he _ hd => ?_) fun e he _ => h.started e he
    rw [hhand] at hd
    exact hdone e (h.started e he hd)
  running := by
    intro sid'
    rw [h.running, mem_updateEntry]
    constructor
    · rintro ⟨e, he, rfl, hrunning⟩
      by_cases hsid : e.id = sid
      · exact ⟨e, he, .inl ⟨hsid, hid e, (hrun e he hsid).mpr hrunning⟩⟩
      · exact ⟨e, he, .inr ⟨hsid, rfl, hrunning⟩⟩
    · rintro ⟨e, he, ⟨hsid, rfl, hrunning⟩ | ⟨hsid, rfl, hrunning⟩⟩
      · exact ⟨e, he, (hid e).symm, (hrun e he hsid).mp hrunning⟩
      · exact ⟨e, he, rfl, hrunning⟩
  nodup := h.nodup
  count := h.count
  handed := by
    intro sid'
    rw [h.handed, mem_updateEntry]
    constructor
    · rintro ⟨e, he, rfl, hd⟩
      by_cases hsid : e.id = sid
      · exact ⟨e, he, .inl ⟨hsid, hid e, (hhand e).trans hd⟩⟩
      · exact ⟨e, he, .inr ⟨hsid, rfl, hd⟩⟩
    · rintro ⟨e, he, ⟨hsid, rfl, hd⟩ | ⟨hsid, rfl, hd⟩⟩
      · exact ⟨e, he, (hid e).symm, (hhand e).symm.trans hd⟩
      · exact ⟨e, he, rfl, hd⟩
  once := h.once
  found := h.found
  increasing := reverse_ids_update hid h.increasing

theorem Sound.openEntry (h : Sound t) (hnew : t.lastId < sid) :
    Sound { t with
      entries := t.entries ++ [⟨sid, true, false, false⟩], lastId := sid
      opened := sid :: t.opened } where
  ordered := by
    rw [pairwise_append]
    refine ⟨h.ordered, pairwise_singleton _ _, ?_⟩
    intro e he e' he'
    rw [mem_singleton.mp he']
    exact Nat.lt_of_le_of_lt (h.known e he) hnew
  known := by
    intro e he
    rcases mem_append.mp he with he | he
    · exact Nat.le_trans (h.known e he) (Nat.le_of_lt hnew)
    · rw [mem_singleton.mp he]
  started := by
    intro e he hd
    rcases mem_append.mp he with he | he
    · exact h.started e he hd
    · rw [mem_singleton.mp he] at hd
      exact absurd hd Bool.false_ne_true
  running := by
    intro sid'
    rw [h.running]
    constructor
    · rintro ⟨e, he, hrest⟩
      exact ⟨e, mem_append_left _ he, hrest⟩
    · rintro ⟨e, he, hid, hheld, hd⟩
      rcases mem_append.mp he with he | he
      · exact ⟨e, he, hid, hheld, hd⟩
      · rw [mem_singleton.mp he] at hd
        exact absurd hd Bool.false_ne_true
  nodup := h.nodup
  count := h.count
  handed := by
    intro sid'
    rw [h.handed]
    constructor
    · rintro ⟨e, he, hrest⟩
      exact ⟨e, mem_append_left _ he, hrest⟩
    · rintro ⟨e, he, hid, hd⟩
      rcases mem_append.mp he with he | he
      · exact ⟨e, he, hid, hd⟩
      · rw [mem_singleton.mp he] at hd
        exact absurd hd Bool.false_ne_true
  once := h.once
  found := h.found
  increasing := by
    rw [map_append, reverse_append, h.increasing]
    rfl

/-- A stream that is not dispatched has never been handed to a task. -/
theorem Sound.not_handed (h : Sound t) (he : e ∈ t.entries) (hd : e.dispatched = false) :
    e.id ∉ t.spawned ∧ e.id ∉ t.tasks := by
  constructor
  · intro hmem
    obtain ⟨e', he', hid, hd'⟩ := (h.handed e.id).mp hmem
    rw [h.unique he' he hid, hd] at hd'
    exact absurd hd' Bool.false_ne_true
  · intro hmem
    obtain ⟨e', he', hid, -, hd'⟩ := (h.running e.id).mp hmem
    rw [h.unique he' he hid, hd] at hd'
    exact absurd hd' Bool.false_ne_true

theorem Sound.spawn (h : Sound t) (he : e ∈ t.entries) (hheld : e.held = true)
    (hd : e.dispatched = false) (hh : e.headersDone = true) :
    Sound { t with
      entries := updateEntry e.id (fun e => { e with dispatched := true }) t.entries
      activeTasks := t.activeTasks + 1, tasks := e.id :: t.tasks
      spawned := e.id :: t.spawned } where
  ordered := ordered_update (fun _ => rfl) h.ordered
  known := forall_updateEntry (fun e he _ => h.known e he) fun e he _ => h.known e he
  started := by
    refine forall_updateEntry (fun e' he' hid _ => ?_) fun e he _ => h.started e he
    rw [h.unique he' he hid]
    exact hh
  running := by
    intro sid
    rw [mem_cons, h.running, mem_updateEntry]
    constructor
    · rintro (rfl | ⟨e', he', rfl, hrunning⟩)
      · exact ⟨e, he, .inl ⟨rfl, rfl, hheld, rfl⟩⟩
      · by_cases hid : e'.id = e.id
        · exact ⟨e', he', .inl ⟨hid, rfl, hrunning.1, rfl⟩⟩
        · exact ⟨e', he', .inr ⟨hid, rfl, hrunning⟩⟩
    · rintro ⟨e', he', ⟨hid, rfl, -⟩ | ⟨-, rfl, hrunning⟩⟩
      · exact .inl hid
      · exact .inr ⟨e', he', rfl, hrunning⟩
  nodup := nodup_cons.mpr ⟨(h.not_handed he hd).2, h.nodup⟩
  count := by
    rw [length_cons, h.count]
  handed := by
    intro sid
    rw [mem_cons, h.handed, mem_updateEntry]
    constructor
    · rintro (rfl | ⟨e', he', rfl, hd'⟩)
      · exact ⟨e, he, .inl ⟨rfl, rfl, rfl⟩⟩
      · by_cases hid : e'.id = e.id
        · exact ⟨e', he', .inl ⟨hid, rfl, rfl⟩⟩
        · exact ⟨e', he', .inr ⟨hid, rfl, hd'⟩⟩
    · rintro ⟨e', he', ⟨hid, rfl, -⟩ | ⟨-, rfl, hd'⟩⟩
      · exact .inl hid
      · exact .inr ⟨e', he', rfl, hd'⟩
  once := nodup_cons.mpr ⟨(h.not_handed he hd).1, h.once⟩
  found := h.found
  increasing := by
    refine reverse_ids_update ?_ h.increasing
    exact fun _ => rfl

theorem Sound.finish (h : Sound t) (hmem : sid ∈ t.tasks) :
    Sound { t with
      entries := updateEntry sid (fun e => { e with held := false }) t.entries
      activeTasks := t.activeTasks - 1, tasks := t.tasks.erase sid } where
  ordered := ordered_update (fun _ => rfl) h.ordered
  known := forall_updateEntry (fun e he _ => h.known e he) fun e he _ => h.known e he
  started := forall_updateEntry (fun e he _ => h.started e he) fun e he _ => h.started e he
  running := by
    intro sid'
    rw [h.nodup.mem_erase_iff, h.running, mem_updateEntry]
    constructor
    · rintro ⟨hne, e, he, rfl, hrunning⟩
      exact ⟨e, he, .inr ⟨hne, rfl, hrunning⟩⟩
    · rintro ⟨e, he, ⟨-, -, hheld, -⟩ | ⟨hne, rfl, hrunning⟩⟩
      · exact absurd hheld Bool.false_ne_true
      · exact ⟨hne, e, he, rfl, hrunning⟩
  nodup := h.nodup.erase sid
  count := by
    rw [length_erase_of_mem hmem, h.count]
  handed := by
    intro sid'
    rw [h.handed, mem_updateEntry]
    constructor
    · rintro ⟨e, he, rfl, hd⟩
      by_cases hid : e.id = sid
      · exact ⟨e, he, .inl ⟨hid, rfl, hd⟩⟩
      · exact ⟨e, he, .inr ⟨hid, rfl, hd⟩⟩
    · rintro ⟨e, he, ⟨-, rfl, hd⟩ | ⟨-, rfl, hd⟩⟩
      · exact ⟨e, he, rfl, hd⟩
      · exact ⟨e, he, rfl, hd⟩
  once := h.once
  found := h.found
  increasing := by
    refine reverse_ids_update ?_ h.increasing
    exact fun _ => rfl

theorem Sound.clear (h : Sound t) (hidle : t.activeTasks = 0) :
    Sound { t with entries := t.entries.map fun e => { e with held := false } } := by
  have htasks : t.tasks = [] := length_eq_zero_iff.mp (h.count.symm.trans hidle)
  have hids : (t.entries.map fun e => { e with held := false }).map Entry.id =
      t.entries.map Entry.id := by
    rw [map_map]
    rfl
  have hmem : ∀ {P : Entry → Prop}, (∃ e ∈ t.entries.map (fun e => { e with held := false }), P e)
      ↔ ∃ e ∈ t.entries, P { e with held := false } := by
    intro P
    simp only [mem_map, exists_exists_and_eq_and]
  refine ⟨?_, ?_, ?_, ?_, h.nodup, h.count, ?_, h.once, h.found, ?_⟩
  · rw [pairwise_ids, hids]
    exact pairwise_ids.mp h.ordered
  · intro e he
    obtain ⟨e', he', rfl⟩ := mem_map.mp he
    exact h.known e' he'
  · intro e he
    obtain ⟨e', he', rfl⟩ := mem_map.mp he
    exact h.started e' he'
  · intro sid
    rw [htasks, hmem]
    constructor
    · intro hno
      exact absurd hno not_mem_nil
    · rintro ⟨e, -, -, hheld, -⟩
      exact absurd hheld Bool.false_ne_true
  · intro sid
    rw [h.handed, hmem]
  · rw [hids]
    exact h.increasing

/-- Every step of the table keeps its invariant. -/
theorem TableStep.sound (hstep : TableStep Room t t') (h : Sound t) : Sound t' := by
  -- a stream that has no task may come and go
  have hquiet : ∀ e ∈ t.entries, e.dispatched = false → ∀ x ∈ t.entries, x.id = e.id →
      ∀ b : Bool, ((b = true ∧ x.dispatched = true) ↔ (x.held = true ∧ x.dispatched = true)) := by
    intro e he hd x hx hid b
    rw [h.unique hx he hid, hd]
    simp
  cases hstep with
  | openEntry sid hnew => exact h.openEntry hnew
  | accept sid =>
    exact h.update (fun _ => rfl) (fun _ _ _ => Iff.rfl) (fun _ => rfl) fun _ _ => rfl
  | refuse e he hheld hd =>
    exact h.update (fun _ => rfl) (fun x hx hid => hquiet e he hd x hx hid false) (fun _ => rfl)
      fun _ _ => rfl
  | spawn e he hheld hd hh => exact h.spawn he hheld hd hh
  | drop e he hheld hd =>
    exact h.update (fun _ => rfl) (fun x hx hid => hquiet e he hd x hx hid false) (fun _ => rfl)
      fun _ hdone => hdone
  | finish sid hmem => exact h.finish hmem
  | clear hidle => exact h.clear hidle

/-! ## The session refines the table -/

/-- A stream object as an entry. -/
def entryOf (st : StreamState) : Entry := ⟨st.id, st.held, st.headersDone, st.dispatched⟩

/-- The ids of the streams that were opened. -/
def openedId : Event → Option Nat
  | .opened sid => some sid
  | _ => none

/-- The ids that were handed to a task. -/
def taskId : Event → Option Nat
  | .task sid => some sid
  | _ => none

/-- The ids `streams_.at` did not find. -/
def lostId : Event → Option Nat
  | .lostTask sid => some sid
  | _ => none

/-- The table of a session. -/
def tableOf (s : Session) : TaskTable where
  entries := s.streams.map entryOf
  lastId := s.lastPeerStreamId
  tasks := s.tasks
  activeTasks := s.activeTasks
  opened := s.log.filterMap openedId
  spawned := s.log.filterMap taskId
  lost := s.log.filterMap lostId

variable {s s' : Session} {x : StreamState}

/-- The table does not see a change of the objects that keeps their entries. -/
theorem map_entries {g : StreamState → StreamState} (hg : ∀ x, entryOf (g x) = entryOf x)
    (l : List StreamState) : (l.map g).map entryOf = l.map entryOf := by
  rw [map_map]
  congr 1
  funext x
  exact hg x

/-- A change of an object is a change of its entry. -/
theorem modify_entries {g : StreamState → StreamState} {k : Entry → Entry} (sid : Nat)
    (hg : ∀ x, entryOf (g x) = k (entryOf x)) :
    (s.modify sid g).streams.map entryOf = updateEntry sid k (s.streams.map entryOf) := by
  rw [Session.modify, updateEntry, map_map, map_map]
  congr 1
  funext x
  show entryOf (if x.id = sid then g x else x) = if x.id = sid then k (entryOf x) else entryOf x
  split
  · exact hg x
  · rfl

/-- The table after a change of one object. -/
theorem modify_update {g : StreamState → StreamState} {k : Entry → Entry} (sid : Nat)
    (hg : ∀ x, entryOf (g x) = k (entryOf x)) :
    tableOf (s.modify sid g) =
      { tableOf s with entries := updateEntry sid k (tableOf s).entries } := by
  rw [tableOf, modify_entries sid hg]
  rfl

/-- A change of one object that keeps its entry. -/
theorem modify_tableOf {g : StreamState → StreamState} (sid : Nat)
    (hg : ∀ x, entryOf (g x) = entryOf x) : tableOf (s.modify sid g) = tableOf s := by
  have hmap : (s.modify sid g).streams.map entryOf = s.streams.map entryOf := by
    refine map_entries (fun x => ?_) s.streams
    split
    · exact hg x
    · rfl
  rw [tableOf, hmap]
  rfl

theorem send_tableOf (f : Frame) : tableOf (s.send f) = tableOf s := by
  rw [send]
  split
  · rfl
  · rfl

theorem sendAll_tableOf (fs : List Frame) : tableOf (s.sendAll fs) = tableOf s := by
  induction fs generalizing s with
  | nil => rfl
  | cons f rest ih => exact ih.trans (send_tableOf f)

theorem sendFrame_tableOf (st : StreamState) (f : Frame) (todo : List Frame) :
    tableOf (sendFrame s st f todo) = tableOf s := by
  rw [sendFrame]
  split
  · exact modify_tableOf st.id fun _ => rfl
  · rw [modify_tableOf, sendAll_tableOf]
    exact fun _ => rfl
  · rw [modify_tableOf, send_tableOf]
    exact fun _ => rfl

theorem sendChunk_tableOf (st : StreamState) (rest : Bytes) (endStream : Bool)
    (todo : List Frame) : tableOf (sendChunk s st rest endStream todo) = tableOf s := by
  rw [sendChunk, modify_tableOf]
  · exact send_tableOf (s := s) _
  · exact fun _ => rfl

theorem endStream_tableOf (st : StreamState) : tableOf (endStream s st) = tableOf s := by
  rw [endStream, modify_tableOf, enqueue]
  · split
    · rfl
    · rfl
  · exact fun _ => rfl

/-- A stream that `streams_.find` returns is an entry of the table. -/
theorem find_entry (h : s.find sid = some x) :
    entryOf x ∈ (tableOf s).entries ∧ (entryOf x).id = sid ∧ (entryOf x).held = true := by
  obtain ⟨hmem, hid, hheld⟩ := find_some h
  exact ⟨mem_map_of_mem hmem, hid, hheld⟩

/-- When a stream may be admitted. -/
def Roomy (s : Session) : Prop := s.streamCount ≤ maxConcurrentStreams ∨ OverCap s

theorem note_tableOf {e : Event} (he : quietEvent e = true) : tableOf (s.record e) = tableOf s := by
  cases e with
  | enqueued f => rfl
  | connectionError err => rfl
  | headerBlock => rfl
  | _ => exact absurd he Bool.false_ne_true

/-- An effect changes the table by one of its steps or not at all. -/
theorem effect_table {may : Kind → Prop} (h : Effect may s s') :
    tableOf s' = tableOf s ∨ TableStep (Roomy s) (tableOf s) (tableOf s') := by
  cases h with
  | scalars => exact .inl rfl
  | receive f => exact .inl rfl
  | note e he => exact .inl (note_tableOf he)
  | touch g hg =>
    refine .inl ?_
    -- the table has only the id and three flags of a stream
    have hentry : ∀ x, entryOf (g x) = entryOf x := by
      intro x
      obtain ⟨hid, hheld, -, hdone, hd, -, -, -⟩ := hg x
      rw [entryOf, entryOf, hid, hheld, hdone, hd]
    rw [tableOf, map_entries hentry]
    rfl
  | openStream sid hnew =>
    have htable : tableOf (Http2Session.openStream s
        { id := sid, sendWindow := s.peerInitialWindow }) = { tableOf s with
          entries := (tableOf s).entries ++ [⟨sid, true, false, false⟩], lastId := sid
          opened := sid :: (tableOf s).opened } := by
      rw [tableOf, Http2Session.openStream]
      simp only [Session.record, map_append]
      rfl
    rw [htable]
    exact .inr (.openEntry (tableOf s) sid hnew)
  | accept sid hroom =>
    have htable := modify_update (s := s) sid (k := fun e => { e with headersDone := true })
      (g := fun x => { x with headersDone := true }) fun _ => rfl
    rw [htable]
    exact .inr (.accept (tableOf s) sid hroom)
  | refuse sid x hfind hd =>
    obtain ⟨hmem, rfl, hheld⟩ := find_entry hfind
    have htable := modify_update (s := s) (entryOf x).id
      (k := fun e => { e with headersDone := true, held := false })
      (g := fun x => { x with headersDone := true, reset := true, parked := false, held := false })
      fun _ => rfl
    rw [htable]
    exact .inr (.refuse (tableOf s) _ hmem hheld hd)
  | spawn sid x hfind hd hh =>
    obtain ⟨hmem, rfl, hheld⟩ := find_entry hfind
    have htable := modify_update (s := s) (entryOf x).id (k := fun e => { e with dispatched := true })
      (g := fun x => { x with dispatched := true }) fun _ => rfl
    -- besides the flag, a task is there to be counted
    have hspawn := congrArg (fun t : TaskTable => { t with
      activeTasks := s.activeTasks + 1, tasks := (entryOf x).id :: s.tasks
      spawned := (entryOf x).id :: t.spawned }) htable
    exact .inr (Eq.mpr (congrArg _ hspawn) (.spawn (tableOf s) _ hmem hheld hd hh))
  | drop sid x hfind hd =>
    obtain ⟨hmem, rfl, hheld⟩ := find_entry hfind
    have htable := modify_update (s := s) (entryOf x).id (k := fun e => { e with held := false })
      (g := fun x => { x with held := false }) fun _ => rfl
    rw [erase, htable]
    exact .inr (.drop (tableOf s) _ hmem hheld hd)
  | finish sid hmem =>
    have htable := modify_update (s := s) sid (k := fun e => { e with held := false })
      (g := fun x => { x with held := false }) fun _ => rfl
    have hfinish := congrArg (fun t : TaskTable => { t with
      activeTasks := s.activeTasks - 1, tasks := s.tasks.erase sid }) htable
    exact .inr (Eq.mpr (congrArg _ hfinish) (.finish (tableOf s) sid hmem))
  | clear hidle =>
    have htable : tableOf { s with streams := s.streams.map fun st => { st with held := false } } =
        { tableOf s with entries := (tableOf s).entries.map fun e => { e with held := false } } := by
      simp only [tableOf, map_map]
      rfl
    rw [htable]
    exact .inr (.clear (tableOf s) hidle)
  | creditConnection => exact .inl rfl
  | creditStream sid inc => exact .inl (modify_tableOf sid fun _ => rfl)
  | initialWindow value =>
    refine .inl ?_
    have hmap : (setInitialWindow s value).streams.map entryOf = s.streams.map entryOf := by
      refine map_entries (fun x => ?_) s.streams
      split
      · rfl
      · rfl
    rw [tableOf, hmap]
    rfl
  | frameSize => exact .inl rfl
  | startTunnel sid => exact .inl (modify_tableOf sid fun _ => rfl)
  | endStream st => exact .inl (endStream_tableOf st)
  | startSend sid => exact .inl (modify_tableOf sid fun _ => rfl)
  | endSend sid => exact .inl (modify_tableOf sid fun _ => rfl)
  | sendFrame st f todo => exact .inl (sendFrame_tableOf st f todo)
  | sendChunk st rest endStream todo => exact .inl (sendChunk_tableOf st rest endStream todo)

theorem new_sound : Sound (tableOf {}) :=
  ⟨.nil, fun _ he => absurd he not_mem_nil, fun _ he => absurd he not_mem_nil,
    fun _ => ⟨fun h => absurd h not_mem_nil, fun ⟨_, he, _⟩ => absurd he not_mem_nil⟩,
    .nil, rfl,
    fun _ => ⟨fun h => absurd h not_mem_nil, fun ⟨_, he, _⟩ => absurd he not_mem_nil⟩,
    .nil, rfl, rfl⟩

theorem effect_sound {may : Kind → Prop} (h : Effect may s s') (hs : Sound (tableOf s)) : Sound (tableOf s') := by
  rcases effect_table h with heq | hstep
  · rw [heq]
    exact hs
  · exact hstep.sound hs

theorem effects_sound (h : Effects anyKind {} s) : Sound (tableOf s) :=
  h.invariant (I := fun s => Sound (tableOf s)) new_sound fun _ _ he hs => effect_sound he hs

theorem Sound.started_session (h : Sound (tableOf s)) : Started s :=
  fun x hx => h.started (entryOf x) (mem_map_of_mem hx)

/-- The sessions that runs reach are reached by effects. -/
theorem reachable_effects {cap : Nat} (h : (sessions cap).Reachable s) : Effects anyKind {} s := by
  refine h.invariant (fun s h₀ => ?_) ?_
  · rw [h₀]
    exact initial_effects
  · rintro s s' ⟨a, hstep⟩ hs
    exact hs.trans (step_effects (fun _ _ => trivial) (effects_sound hs).started_session hstep)

theorem reachable_sound {cap : Nat} (h : (sessions cap).Reachable s) : Sound (tableOf s) :=
  effects_sound (reachable_effects h)

/-- Two objects with one id are the same. -/
theorem Sound.unique_stream {y : StreamState} (h : Sound (tableOf s)) (hx : x ∈ s.streams)
    (hy : y ∈ s.streams) (hid : x.id = y.id) : x = y := by
  have hordered : (s.streams.map StreamState.id).Pairwise (· < ·) := by
    have hids := pairwise_ids.mp h.ordered
    rw [tableOf, map_map] at hids
    exact hids
  have hnodup : (s.streams.map StreamState.id).Nodup :=
    hordered.imp fun hlt => Nat.ne_of_lt hlt
  exact inj_on_of_nodup_map hnodup hx hy hid

theorem Sound.known_stream (h : Sound (tableOf s)) (hx : x ∈ s.streams) :
    x.id ≤ s.lastPeerStreamId := h.known (entryOf x) (mem_map_of_mem hx)

/-! ## One task per stream -/

/-- The tasks running are as many as the streams that run one. -/
theorem Sound.running_count (h : Sound t) :
    t.activeTasks = t.entries.countP fun e => e.held && e.dispatched := by
  have hnodup : ((t.entries.filter fun e => e.held && e.dispatched).map Entry.id).Nodup := by
    have hids : (t.entries.map Entry.id).Nodup :=
      (pairwise_ids.mp h.ordered).imp fun hlt => Nat.ne_of_lt hlt
    exact hids.sublist (filter_sublist.map Entry.id)
  have hperm : t.tasks.Perm ((t.entries.filter fun e => e.held && e.dispatched).map Entry.id) := by
    refine (perm_ext_iff_of_nodup h.nodup hnodup).mpr fun sid => ?_
    rw [h.running]
    constructor
    · rintro ⟨e, he, rfl, hrun⟩
      refine mem_map_of_mem (mem_filter.mpr ⟨he, ?_⟩)
      rw [hrun.1, hrun.2]
      rfl
    · intro hmem
      obtain ⟨e, he, rfl⟩ := mem_map.mp hmem
      obtain ⟨he, hrun⟩ := mem_filter.mp he
      exact ⟨e, he, rfl, Bool.and_eq_true_iff.mp hrun⟩
  rw [h.count, hperm.length_eq, length_map, countP_eq_length_filter]

theorem Sound.not_lost (h : Sound (tableOf s)) (sid : Nat) : .lostTask sid ∉ s.log := by
  intro hmem
  have hlost : sid ∈ s.log.filterMap lostId := mem_filterMap.mpr ⟨_, hmem, rfl⟩
  have hnil : s.log.filterMap lostId = [] := h.found
  rw [hnil] at hlost
  exact absurd hlost not_mem_nil

theorem Sound.opened_increasing (h : Sound t) : t.opened.Pairwise (· > ·) := by
  rw [h.increasing, pairwise_reverse]
  exact pairwise_ids.mp h.ordered

/-- In every state of every run each stream id has been handed to a task at most once,
    `dispatch` and `answer_error` have always found their stream, `active_tasks_` is the
    number of dispatched streams in `streams_`, and the ids of new streams have
    increased. -/
theorem one_task_per_stream (cap : Nat) (s : Session) (h : (sessions cap).Reachable s) :
    (s.log.filterMap taskId).Nodup ∧ (∀ sid, .lostTask sid ∉ s.log) ∧
      s.activeTasks = s.streams.countP (fun st => st.held && st.dispatched) ∧
      (s.log.filterMap openedId).Pairwise (· > ·) := by
  have hsound := reachable_sound h
  refine ⟨hsound.once, hsound.not_lost, ?_, hsound.opened_increasing⟩
  have hcount := hsound.running_count
  rw [tableOf, countP_map] at hcount
  exact hcount

/-- A HEADERS frame. -/
def headersFrame (sid flags : Nat) (block : Bytes) : Frame :=
  { type := .headers, flags, streamId := sid, payload := block }

/-- A GET, a POST that a DATA frame ends, and the end of the first task. -/
def sampleActions : List Action :=
  [.frame (headersFrame 1 5 [0x82]), .frame (headersFrame 3 4 [0x83]),
    .frame (dataFrame 3 [104, 105] true), .finishTask 1]

/-- The session after the sample. -/
def sampleSession : Session := (run 0 initial sampleActions).getD initial

theorem sampleSession_reachable : (sessions 0).Reachable sampleSession := by
  have hrun : run 0 initial sampleActions = some sampleSession := by decide
  exact run_reachable initial_reachable hrun

theorem one_task_sample :
    sampleSession.log.filterMap taskId = [3, 1] ∧ sampleSession.activeTasks = 1 ∧
      (sampleSession.log.filterMap taskId).Nodup ∧
      (∀ sid, .lostTask sid ∉ sampleSession.log) ∧
      sampleSession.activeTasks =
        sampleSession.streams.countP (fun st => st.held && st.dispatched) ∧
      (sampleSession.log.filterMap openedId).Pairwise (· > ·) :=
  ⟨by decide, by decide,
    one_task_per_stream 0 sampleSession sampleSession_reachable⟩

/-! ## Bounded concurrency -/

/-- The streams that may get a task: those in `streams_` with their headers. -/
def live (t : TaskTable) : Nat := t.entries.countP fun e => e.held && e.headersDone

theorem countP_updateEntry_le {p q : Entry → Bool} (hin : ∀ e ∈ entries, p (g e) = true → q e = true)
    (hout : ∀ e ∈ entries, p e = true → q e = true) :
    (updateEntry sid g entries).countP p ≤ entries.countP q := by
  rw [updateEntry, countP_map]
  refine countP_mono_left fun e he hp => ?_
  rw [Function.comp] at hp
  split at hp
  · exact hin e he hp
  · exact hout e he hp

/-- Only an admission adds to the live streams, and then there are no more of them than
    streams in `streams_`. -/
theorem TableStep.live_le (hstep : TableStep Room t t') :
    live t' ≤ live t ∨ (Room ∧ live t' ≤ t.entries.countP fun e => e.held) := by
  cases hstep with
  | openEntry sid =>
    left
    rw [live, live, countP_append]
    exact le_rfl
  | accept sid hroom =>
    right
    refine ⟨hroom, countP_updateEntry_le (fun e _ hp => ?_) fun e _ hp => ?_⟩
    · exact (Bool.and_eq_true_iff.mp hp).1
    · exact (Bool.and_eq_true_iff.mp hp).1
  | refuse e =>
    exact .inl (countP_updateEntry_le (fun e _ hp => absurd hp Bool.false_ne_true) fun e _ hp => hp)
  | spawn e => exact .inl (countP_updateEntry_le (fun e _ hp => hp) fun e _ hp => hp)
  | drop e =>
    exact .inl (countP_updateEntry_le (fun e _ hp => absurd hp Bool.false_ne_true) fun e _ hp => hp)
  | finish sid =>
    exact .inl (countP_updateEntry_le (fun e _ hp => absurd hp Bool.false_ne_true) fun e _ hp => hp)
  | clear =>
    left
    rw [live, live, countP_map]
    exact countP_mono_left fun e _ hp => absurd hp Bool.false_ne_true

/-- There are no more tasks than live streams. -/
theorem Sound.active_le_live (h : Sound t) : t.activeTasks ≤ live t := by
  rw [h.running_count, live]
  refine countP_mono_left fun e he hp => ?_
  obtain ⟨hheld, hd⟩ := Bool.and_eq_true_iff.mp hp
  rw [hheld, h.started e he hd]
  rfl

/-- When `finish_header_block` meets a new stream whose list is beyond the cap, `streams_`
    holds no more than the advertised number of streams, that one included. -/
def RoomForOverCap : Event → Prop
  | .headerBlock _ false block table count =>
      (decodeHeaderBlock defaultMaxHeaderListSize block table).limitExceeded = true →
        count ≤ maxConcurrentStreams
  | _ => True

theorem streamCount_eq (s : Session) :
    s.streamCount = (tableOf s).entries.countP fun e => e.held := by
  rw [tableOf, countP_map, streamCount]
  rfl

/-- Room for a stream, when the lists beyond the cap have found room. -/
theorem Roomy.count_le (h : Roomy s) (hroom : ∀ e ∈ s.log, RoomForOverCap e) :
    s.streamCount ≤ maxConcurrentStreams := by
  rcases h with hcount | ⟨sid, block, table, past, hlog, hover⟩
  · exact hcount
  · have hmem : .headerBlock sid false block table s.streamCount ∈ s.log := by
      rw [hlog]
      exact mem_cons_self
    exact hroom _ hmem hover

theorem effects_live (h : Effects anyKind {} s) (hroom : ∀ e ∈ s.log, RoomForOverCap e) :
    live (tableOf s) ≤ maxConcurrentStreams := by
  revert hroom
  refine h.invariant (I := fun s => (∀ e ∈ s.log, RoomForOverCap e) →
    live (tableOf s) ≤ maxConcurrentStreams) (fun _ => Nat.zero_le _) ?_
  intro s s' he ih hroom
  have hroom' : ∀ e ∈ s.log, RoomForOverCap e := fun e hmem => hroom e (he.log_suffix.mem hmem)
  rcases effect_table he with heq | hstep
  · rw [heq]
    exact ih hroom'
  · rcases hstep.live_le with hle | ⟨haccept, hle⟩
    · exact hle.trans (ih hroom')
    · rw [← streamCount_eq] at hle
      exact hle.trans (haccept.count_le hroom')

instance (e : Event) : Decidable (RoomForOverCap e) :=
  match e with
  | .headerBlock _ false block table count => inferInstanceAs (Decidable (
      (decodeHeaderBlock defaultMaxHeaderListSize block table).limitExceeded = true →
        count ≤ maxConcurrentStreams))
  | .headerBlock _ true _ _ _ | .received _ | .enqueued _ | .sent _ | .opened _ | .task _
  | .lostTask _ | .credited _ _ | .sendStarted _ _ | .sendEnded _ _ | .connectionError _ =>
      .isTrue trivial

/-- The tasks never outnumber the streams the server has advertised, in every run in
    which the lists beyond the cap arrive while there is room for their streams. -/
theorem tasks_bounded (cap : Nat) (s : Session) (h : (sessions cap).Reachable s)
    (hroom : ∀ e ∈ s.log, RoomForOverCap e) :
    s.activeTasks ≤ maxConcurrentStreams ∧ s.tasks.length ≤ maxConcurrentStreams := by
  have hsound := reachable_sound h
  have hle : s.activeTasks ≤ maxConcurrentStreams :=
    hsound.active_le_live.trans (effects_live (reachable_effects h) hroom)
  have hcount : s.activeTasks = s.tasks.length := hsound.count
  exact ⟨hle, hcount ▸ hle⟩

/-! ## A list beyond the cap -/

/-- A complete request whose header block is `b`. -/
def requestFrame (sid : Nat) (b : Bytes) : Frame := headersFrame sid 5 b

theorem requestFrame_fragment (sid : Nat) (b : Bytes) :
    headersFragment (requestFrame sid b) = some b := by
  simp [headersFragment, padding, requestFrame, headersFrame, Frame.hasFlag, flagPadded,
    flagPriority]

theorem requestFrame_flags (sid : Nat) (b : Bytes) :
    (requestFrame sid b).hasFlag flagEndHeaders = true ∧
      (requestFrame sid b).hasFlag flagEndStream = true := by
  show (5 &&& 4 == 4) = true ∧ (5 &&& 1 == 1) = true
  decide

/-- A block whose list exceeds the cap, in any state of the decoder. -/
def BeyondCap (b : Bytes) : Prop :=
  ∀ t, (decodeHeaderBlock defaultMaxHeaderListSize b t).ok = false ∧
    (decodeHeaderBlock defaultMaxHeaderListSize b t).limitExceeded = true

theorem beyondCap_gets : BeyondCap (HeaderProgress.gets 1561 []) := by
  intro t
  have hbig : defaultMaxHeaderListSize < 1561 * 42 := by decide
  obtain ⟨hok, hlimit, -⟩ := HeaderProgress.gets_overCap (by decide) hbig _ t
  exact ⟨hok, hlimit⟩

theorem gets_short : (HeaderProgress.gets 1561 []).length ≤ maxFrameSize := by
  rw [HeaderProgress.gets, append_nil, length_replicate]
  decide

/-- The first request of a session has such a list: it gets a task, which answers it, and the
    GOAWAY follows. -/
theorem processFrame_overCap {b : Bytes} (hb : BeyondCap b) (hlen : b.length ≤ maxFrameSize) :
    (processFrame 0 initial (requestFrame 1 b)).log =
      [.enqueued (goawayFrame 1 .enhanceYourCalm), .task 1, .headerBlock 1 false b {} 1, .opened 1,
        .received (requestFrame 1 b)] ++ initial.log := by
  have hsmall : ¬ (requestFrame 1 b).payload.length > maxFrameSize := Nat.not_lt.mpr hlen
  obtain ⟨hok, hlimit⟩ := hb {}
  obtain ⟨hends, hcloses⟩ := requestFrame_flags 1 b
  have honHeaders : onHeaders (initial.record (.received (requestFrame 1 b))) (requestFrame 1 b) =
      takeFragment (openStream (initial.record (.received (requestFrame 1 b)))
        { id := 1, sendWindow := 65535 }) { id := 1, sendWindow := 65535 } (requestFrame 1 b) b := by
    rw [onHeaders, requestFrame_fragment]
    rfl
  have hhandle : handleFrame 0 (initial.record (.received (requestFrame 1 b))) (requestFrame 1 b) =
      onHeaders (initial.record (.received (requestFrame 1 b))) (requestFrame 1 b) := by
    rw [handleFrame, if_neg (fun h => h.1 rfl)]
    rfl
  rw [processFrame, if_neg hsmall, hhandle, honHeaders, takeFragment, hends, hcloses, if_pos rfl,
    finishHeaderBlock]
  show (actOnBlock _ _ (decodeHeaderBlock defaultMaxHeaderListSize b {})).log = _
  generalize decodeHeaderBlock defaultMaxHeaderListSize b {} = d at hok hlimit
  rw [actOnBlock, hok, hlimit]
  rfl

/-- The session behind that request. -/
def overCapSession : Session := processFrame 0 initial (requestFrame 1 (HeaderProgress.gets 1561 []))

theorem tasks_bounded_overCap :
    .headerBlock 1 false (HeaderProgress.gets 1561 []) {} 1 ∈ overCapSession.log ∧
      (∀ e ∈ overCapSession.log, RoomForOverCap e) ∧
      overCapSession.activeTasks ≤ maxConcurrentStreams ∧
      overCapSession.tasks.length ≤ maxConcurrentStreams := by
  have hlog := processFrame_overCap beyondCap_gets gets_short
  have hrun : run 0 initial [.frame (requestFrame 1 (HeaderProgress.gets 1561 []))] =
      some overCapSession := rfl
  have hroom : ∀ e ∈ overCapSession.log, RoomForOverCap e := by
    rw [overCapSession, hlog]
    intro e he
    rcases mem_append.mp he with he | he
    · simp only [mem_cons, not_mem_nil, or_false] at he
      rcases he with rfl | rfl | rfl | rfl | rfl
      · trivial
      · trivial
      · exact fun _ => by decide
      · trivial
      · trivial
    · revert e
      decide
  refine ⟨?_, hroom, tasks_bounded 0 _ (run_reachable initial_reachable hrun) hroom⟩
  rw [overCapSession, hlog]
  exact mem_append_left _ (by simp)

-- A client that opens stream after stream with a list beyond the cap: each is answered
-- before the number of streams is looked at, and the GOAWAY changes nothing.

theorem sendGoaway_fields (s : Session) (err : ErrorCode) :
    (sendGoaway s err).activeTasks = s.activeTasks ∧ (sendGoaway s err).stopped = s.stopped ∧
      (sendGoaway s err).dead = s.dead ∧
      (sendGoaway s err).continuationSid = s.continuationSid ∧
      (sendGoaway s err).lastPeerStreamId = s.lastPeerStreamId := by
  rw [sendGoaway]
  split
  · exact ⟨rfl, rfl, rfl, rfl, rfl⟩
  · rw [enqueue]
    split
    · exact ⟨rfl, rfl, rfl, rfl, rfl⟩
    · exact ⟨rfl, rfl, rfl, rfl, rfl⟩

/-- A task for a stream in `streams_` is counted, and nothing else the reader looks at
    changes. -/
theorem answerError_fields {st x : StreamState} (hfind : s.find st.id = some x)
    (hd : st.dispatched = false) :
    (answerError s st).activeTasks = s.activeTasks + 1 ∧ (answerError s st).stopped = s.stopped ∧
      (answerError s st).dead = s.dead ∧
      (answerError s st).continuationSid = s.continuationSid ∧
      (answerError s st).lastPeerStreamId = s.lastPeerStreamId := by
  have hfound : (s.modify st.id fun x => { x with dispatched := true, rejected := true }).find
      st.id = some { x with dispatched := true, rejected := true } :=
    find_modify (g := fun x => { x with dispatched := true, rejected := true })
      (fun _ => ⟨rfl, rfl⟩) hfind
  rw [answerError, hd, if_neg Bool.false_ne_true, spawn, if_pos]
  · exact ⟨rfl, rfl, rfl, rfl, rfl⟩
  · exact Option.isSome_of_mem hfound

/-- What the flood needs of a session to go on. -/
structure Flooded (n : Nat) (s : Session) : Prop where
  reachable : (sessions 0).Reachable s
  active : s.activeTasks = n
  running : s.stopped = false ∧ s.dead = false
  idle : s.continuationSid = 0
  last : s.lastPeerStreamId ≤ 2 * n

theorem finishHeaderBlock_overCap {st x : StreamState} (hfind : s.find st.id = some x)
    (hd : st.dispatched = false) (hh : st.headersDone = false) (hb : BeyondCap st.headerBlock) :
    (finishHeaderBlock s st).activeTasks = s.activeTasks + 1 ∧
      (finishHeaderBlock s st).stopped = s.stopped ∧ (finishHeaderBlock s st).dead = s.dead ∧
      (finishHeaderBlock s st).continuationSid = 0 ∧
      (finishHeaderBlock s st).lastPeerStreamId = s.lastPeerStreamId := by
  obtain ⟨hok, hlimit⟩ := hb s.decodeTable
  rw [finishHeaderBlock]
  generalize decodeHeaderBlock defaultMaxHeaderListSize st.headerBlock s.decodeTable = d
    at hok hlimit
  have hy := find_modify (g := fun x => { x with headersDone := true }) (fun _ => ⟨rfl, rfl⟩)
    (keepTable_find (d := d) hfind)
  obtain ⟨hactive, hstopped, hdead, hcont, hlast⟩ := answerError_fields hy hd
  simp only [actOnBlock, hok, hlimit, hh, Bool.not_false, Bool.not_true, Bool.and_false,
    Bool.false_eq_true, if_false, if_true]
  obtain ⟨gactive, gstopped, gdead, gcont, glast⟩ := sendGoaway_fields
    (answerError ((keepTable s st d).modify st.id fun x => { x with headersDone := true }) st)
    .enhanceYourCalm
  exact ⟨gactive.trans hactive, gstopped.trans hstopped, gdead.trans hdead, gcont.trans hcont,
    glast.trans hlast⟩

theorem Flooded.next {n : Nat} {b : Bytes} (hb : BeyondCap b) (hlen : b.length ≤ maxFrameSize)
    (h : Flooded n s) : ∃ s', Flooded (n + 1) s' := by
  have hlast := h.last
  obtain ⟨f, hf⟩ : ∃ f, f = requestFrame (2 * n + 1) b := ⟨_, rfl⟩
  obtain ⟨s1, hs1⟩ : ∃ s1, s1 = s.record (.received f) := ⟨_, rfl⟩
  have hsid : f.streamId = 2 * n + 1 := by rw [hf]; rfl
  have hlast1 : s1.lastPeerStreamId ≤ 2 * n := by rw [hs1]; exact hlast
  -- the next stream id is new
  have hnone : s1.find f.streamId = none := by
    refine find?_eq_none.mpr fun x hx => ?_
    rw [hs1] at hx
    have hle : x.id ≤ s.lastPeerStreamId :=
      (reachable_sound h.reachable).known (entryOf x) (mem_map_of_mem hx)
    rw [Bool.not_eq_true, Bool.and_eq_false_iff, beq_eq_false_iff_ne]
    exact .inl (by omega)
  have hhandle : processFrame 0 s f = onHeaders s1 f := by
    have hsmall : ¬ f.payload.length > maxFrameSize := by rw [hf]; exact Nat.not_lt.mpr hlen
    have hidle : ¬ (s1.continuationSid ≠ 0 ∧
        (f.type ≠ .continuation ∨ f.streamId ≠ s1.continuationSid)) := by
      rw [hs1]
      exact fun hcont => hcont.1 h.idle
    have htype : f.type = .headers := by rw [hf]; rfl
    rw [processFrame, if_neg hsmall, ← hs1, handleFrame, if_neg hidle, htype]
  obtain ⟨st, hst⟩ : ∃ st : StreamState,
      st = { id := f.streamId, sendWindow := s1.peerInitialWindow } := ⟨_, rfl⟩
  have honHeaders : onHeaders s1 f = takeFragment (openStream s1 st) st f b := by
    have hodd : ¬ (f.streamId = 0 ∨ f.streamId % 2 = 0) := by omega
    have hnew : ¬ f.streamId ≤ s1.lastPeerStreamId := by omega
    have hfragment : headersFragment f = some b := by rw [hf]; exact requestFrame_fragment _ b
    rw [onHeaders, if_neg hodd, hfragment, hnone, hst]
    exact if_neg hnew
  have hopen : (openStream s1 st).find st.id = some st := by
    rw [hst]
    exact openStream_find hnone _
  obtain ⟨st', hst'⟩ : ∃ st' : StreamState, st' = { st with
      headerBlock := st.headerBlock ++ b
      endStreamReceived := st.endStreamReceived || f.hasFlag flagEndStream } := ⟨_, rfl⟩
  have hadd : Quiet fun x : StreamState => { x with
      headerBlock := st.headerBlock ++ b
      endStreamReceived := x.endStreamReceived || f.hasFlag flagEndStream } :=
    fun _ => ⟨rfl, rfl, rfl, rfl, rfl, rfl, rfl, rfl⟩
  have htake : takeFragment (openStream s1 st) st f b = finishHeaderBlock
      ((openStream s1 st).modify st.id fun x => { x with
        headerBlock := st.headerBlock ++ b
        endStreamReceived := x.endStreamReceived || f.hasFlag flagEndStream }) st' := by
    have hend : f.hasFlag flagEndHeaders = true := by
      rw [hf]
      exact (requestFrame_flags _ b).1
    rw [takeFragment, if_pos hend, hst']
  have hid : st'.id = st.id := by rw [hst']
  have hblock : st'.headerBlock = b := by rw [hst', hst]; rfl
  have hfind := hadd.find_modify hopen
  rw [← hid] at hfind
  rw [← hid] at htake
  obtain ⟨hactive, hstopped, hdead, hcont, hlast'⟩ := finishHeaderBlock_overCap
    hfind (by rw [hst', hst]) (by rw [hst', hst]) (hblock ▸ hb)
  have hstep : run 0 s [.frame f] = some (processFrame 0 s f) := by
    rw [run, step, h.running.1, h.running.2]
    rfl
  rw [hhandle, honHeaders, htake] at hstep
  refine ⟨_, run_reachable h.reachable hstep, ?_, ⟨?_, ?_⟩, hcont, ?_⟩
  · rw [hactive, hs1]
    exact congrArg (· + 1) h.active
  · rw [hstopped, hs1]
    exact h.running.1
  · rw [hdead, hs1]
    exact h.running.2
  · rw [hlast', hst]
    show f.streamId ≤ 2 * (n + 1)
    omega

theorem flooded {b : Bytes} (hb : BeyondCap b) (hlen : b.length ≤ maxFrameSize) (n : Nat) :
    ∃ s, Flooded n s := by
  induction n with
  | zero =>
    exact ⟨initial, initial_reachable, by decide, by decide, by decide,
      by decide⟩
  | succ n ih =>
    obtain ⟨s, hs⟩ := ih
    exact hs.next hb hlen

/-- With one stream of 1561 fields of 42 octets more than `kMaxConcurrentStreams` there is
    one task too many. -/
theorem overCap_unbounded :
    ∃ s, (sessions 0).Reachable s ∧ maxConcurrentStreams < s.activeTasks := by
  obtain ⟨s, hs⟩ := flooded beyondCap_gets gets_short (maxConcurrentStreams + 1)
  exact ⟨s, hs.reachable, hs.active ▸ Nat.lt_succ_self _⟩

end Http2Tasks
