import Mathlib.Data.List.Perm.Basic
import WaveX.WorkStealingQueue

/-! # Tasks of the work-stealing queue

    Where the tasks are whose `push` returned true.  A slot is in the queue when an index of
    it lies between top and bottom, is popped at the moment or has been claimed by a thief who
    will still move it.

    Two things lose a task.  `push` writes its slot some steps after it looked at top: by then
    thieves may have claimed past that slot with a bottom that they read earlier, and a claimed
    slot may not have been emptied.  And a thief whose own queue is full drops what it has
    claimed. -/

namespace WorkStealingRuns

open WorkStealingQueue List

variable {τ : Type*}

/-! ## Places -/

/-- The index of the slot that the owner is about to publish, give back or move. -/
def indices : OwnerPc τ → List Nat
  | .idle | .pushCheck _ _ | .pushWrite _ _ => []
  | .pushPublish _ b | .popStore b | .popCheck b | .popCas b | .popRaise b | .popMove b
  | .popRestore b => [b]

/-- The task whose `push` is going to return true. -/
def publishing : OwnerPc τ → List τ
  | .pushPublish task _ => [task]
  | _ => []

/-- The indices that a thief has claimed and not moved yet. -/
def claimed : ThiefPc τ → List Nat
  | .stealMove t => [t]
  | .halfFirst t stealCount => List.range' t stealCount
  | .halfNext t stealCount i _ => List.range' (t + i) (stealCount - i)
  | .halfPush t stealCount i _ _ => List.range' (t + (i + 1)) (stealCount - (i + 1))
  | _ => []

/-- The tasks that a call of a thief has in its hands. -/
def hand : ThiefPc τ → List τ
  | .halfNext _ _ _ first => first.toList
  | .halfPush _ _ _ first remaining => first.toList ++ remaining.toList
  | _ => []

/-- The tasks that a thief has taken: in its hands, in its own queue, or returned. -/
def held (th : Thief τ) : List τ := hand th.pc ++ (th.queue.filterMap id ++ th.returned)

/-- A thief will move this slot. -/
def Claimed (s : State τ) (j : Fin capacity) : Prop :=
  ∃ th ∈ s.thieves, ∃ i ∈ claimed th.pc, slotOf i = j

/-- The indices of the queue: between top and bottom, with the owner, or claimed. -/
def queueIndices (s : State τ) : List Nat :=
  List.range' s.queue.top (s.queue.bottom - s.queue.top) ++
    (indices s.owner.pc ++ s.thieves.flatMap fun th => claimed th.pc)

/-- The tasks that are still in the queue. -/
def queued (s : State τ) : List τ :=
  (List.finRange capacity).filterMap fun j =>
    if j ∈ (queueIndices s).map slotOf then s.queue.slots j else none

/-- All the places of a task. -/
def places (s : State τ) : List τ := queued s ++ (s.thieves.flatMap held ++ s.owner.returned)

/-- The contract: the tasks whose `push` returned true, or is going to, are those that are in
    the queue, taken by a thief or returned by `pop`, each of them once. -/
def ExactlyOnce (s : State τ) : Prop :=
  (s.owner.accepted ++ publishing s.owner.pc).Perm (places s)

/-- The slot that `push` is about to write is empty, and it is not below top, or a thief will
    move it; a thief that finds its own queue full has no task in hand and has claimed none. -/
def Careful (s : State τ) : Action τ → Prop
  | .owner =>
      match s.owner.pc with
      | .pushWrite _ b => s.queue.at b = none ∧ (s.queue.top ≤ b ∨ Claimed s (slotOf b))
      | _ => True
  | .thief n =>
      match s.thieves[n]? with
      | some th =>
          match th.pc with
          | .halfPush t stealCount i _ remaining =>
              capacity - 1 ≤ th.queue.length →
                remaining = none ∧
                  ∀ k ∈ List.range' (t + (i + 1)) (stealCount - (i + 1)), s.queue.at k = none
          | _ => True
      | none => True
  | _ => True

/-- A run all of whose steps are careful. -/
def CarefulRun : State τ → List (Action τ) → Prop
  | _, [] => True
  | s, a :: rest =>
      Careful s a ∧
        match step s a with
        | none => True
        | some s => CarefulRun s rest

/-! ## The invariant -/

/-- What the slots hold. -/
def slotTasks (q : LocalQueue τ) : List τ := (List.finRange capacity).filterMap q.slots

/-- The index of the slot that the owner works on, as long as bottom is not above it. -/
def working : OwnerPc τ → Option Nat
  | .pushCheck _ b | .pushWrite _ b | .pushPublish _ b | .popStore b | .popCheck b | .popCas b
  | .popRaise b | .popRestore b => some b
  | .idle | .popMove _ => none

/-- The index of the slot that the owner may still have to give up to thieves. -/
def contended : OwnerPc τ → Option Nat
  | .pushPublish _ b | .popStore b | .popCheck b | .popCas b | .popRestore b => some b
  | .idle | .pushCheck _ _ | .pushWrite _ _ | .popRaise _ | .popMove _ => none

/-- The slot of an index is above top, or a thief will move it. -/
def Kept (s : State τ) (b : Nat) : Prop :=
  s.queue.at b ≠ none → s.queue.top ≤ b ∨ Claimed s (slotOf b)

/-- An occupied slot is in the queue. -/
def Reached (s : State τ) (j : Fin capacity) : Prop :=
  (∃ i, s.queue.top ≤ i ∧ i < s.queue.bottom ∧ slotOf i = j) ∨
    (∃ i ∈ indices s.owner.pc, slotOf i = j) ∨ Claimed s j

structure Inv (s : State τ) : Prop where
  bottom : ∀ b ∈ working s.owner.pc, s.queue.bottom ≤ b + 1
  kept : ∀ b ∈ contended s.owner.pc, Kept s b
  reached : ∀ j, s.queue.slots j ≠ none → Reached s j
  counted : (s.owner.accepted ++ publishing s.owner.pc).Perm
    (slotTasks s.queue ++ (s.thieves.flatMap held ++ s.owner.returned))

/-- The slots of the queue are those that are reached. -/
theorem mem_queueIndices {s : State τ} {j : Fin capacity} :
    j ∈ (queueIndices s).map slotOf ↔ Reached s j := by
  rw [mem_map]
  constructor
  · rintro ⟨i, hi, rfl⟩
    rcases mem_append.mp hi with hlive | hi
    · obtain ⟨htop, hbottom⟩ := mem_range'_1.mp hlive
      exact .inl ⟨i, htop, by omega, rfl⟩
    · rcases mem_append.mp hi with howned | hclaimed
      · exact .inr (.inl ⟨i, howned, rfl⟩)
      · obtain ⟨th, hth, hmem⟩ := mem_flatMap.mp hclaimed
        exact .inr (.inr ⟨th, hth, i, hmem, rfl⟩)
  · rintro (⟨i, htop, hbottom, rfl⟩ | ⟨i, howned, rfl⟩ | ⟨th, hth, i, hmem, rfl⟩)
    · exact ⟨i, mem_append_left _ (mem_range'_1.mpr ⟨htop, by omega⟩), rfl⟩
    · exact ⟨i, mem_append_right _ (mem_append_left _ howned), rfl⟩
    · exact ⟨i, mem_append_right _
        (mem_append_right _ (mem_flatMap.mpr ⟨th, hth, hmem⟩)), rfl⟩

/-- Where the invariant holds, every slot with a task is in the queue. -/
theorem Inv.queued_eq {s : State τ} (h : Inv s) : queued s = slotTasks s.queue := by
  refine filterMap_congr fun j _ => ?_
  by_cases hslot : s.queue.slots j = none
  · rw [hslot, ite_self]
  · rw [if_pos (mem_queueIndices.mpr (h.reached j hslot))]

/-- The invariant accounts for every task. -/
theorem Inv.exactlyOnce {s : State τ} (h : Inv s) : ExactlyOnce s := by
  rw [ExactlyOnce, places, h.queued_eq]
  exact h.counted

/-! ## Counting -/

theorem count_filterMap_cons {α : Type*} [DecidableEq τ] (f : α → Option τ) (a : α) (l : List α)
    (x : τ) : ((a :: l).filterMap f).count x = (f a).toList.count x + (l.filterMap f).count x := by
  cases ha : f a with
  | none =>
    rw [filterMap_cons_none ha]
    exact (Nat.zero_add _).symm
  | some y =>
    rw [filterMap_cons_some ha]
    show ([y] ++ l.filterMap f).count x = _
    exact count_append

/-- What an update of a function at a point changes in its values. -/
theorem count_filterMap_update {α : Type*} [DecidableEq α] [DecidableEq τ] (f : α → Option τ)
    (j : α) (v : Option τ) {l : List α} (hl : l.Nodup) (x : τ) :
    (l.filterMap (Function.update f j v)).count x + (if j ∈ l then (f j).toList.count x else 0) =
      (l.filterMap f).count x + if j ∈ l then v.toList.count x else 0 := by
  induction l with
  | nil => rfl
  | cons a l ih =>
    obtain ⟨hnot, hl⟩ := nodup_cons.mp hl
    have hrest := ih hl
    rw [count_filterMap_cons, count_filterMap_cons]
    by_cases ha : a = j
    · subst ha
      rw [if_neg hnot, if_neg hnot] at hrest
      rw [Function.update_self, if_pos mem_cons_self, if_pos mem_cons_self]
      omega
    · have hmem : j ∈ a :: l ↔ j ∈ l := by
        rw [mem_cons]
        exact or_iff_right fun h => ha h.symm
      rw [Function.update_of_ne ha]
      simp only [hmem]
      omega

/-- A move into a slot puts the task there, and what was there is gone. -/
theorem slotTasks_put (q : LocalQueue τ) (i : Nat) (task : Option τ) :
    (slotTasks (q.put i task) ++ (q.at i).toList).Perm (slotTasks q ++ task.toList) := by
  classical
  refine perm_iff_count.mpr fun x => ?_
  have hcount := count_filterMap_update q.slots (slotOf i) task (nodup_finRange capacity) x
  rw [if_pos (mem_finRange _), if_pos (mem_finRange _)] at hcount
  rw [count_append, count_append]
  exact hcount

theorem filterMap_id_singleton (task : Option τ) : [task].filterMap id = task.toList := by
  cases task with
  | none => rfl
  | some task => rfl

/-- What one thief changes in what they all hold. -/
theorem held_set {thieves : List (Thief τ)} {n : Nat} {th : Thief τ} (h : thieves[n]? = some th)
    (th' : Thief τ) :
    ((thieves.set n th').flatMap held ++ held th).Perm (thieves.flatMap held ++ held th') := by
  induction thieves generalizing n with
  | nil => cases h
  | cons first thieves ih =>
    cases n with
    | zero =>
      obtain rfl := Option.some.inj h
      classical
      rw [set_cons_zero, flatMap_cons, flatMap_cons]
      refine perm_iff_count.mpr fun x => ?_
      simp only [count_append]
      omega
    | succ n =>
      rw [set_cons_succ, flatMap_cons, flatMap_cons, append_assoc,
        append_assoc]
      exact (ih h).append_left _

/-! ## Steps of a thief -/

section

variable {s : State τ} {n : Nat} {th th' : Thief τ} {q : LocalQueue τ}

theorem claimed_set {thieves : List (Thief τ)} (h : thieves[n]? = some th) {j : Fin capacity}
    (hmem : ∃ t ∈ thieves, ∃ i ∈ claimed t.pc, slotOf i = j)
    (hth : (∃ i ∈ claimed th.pc, slotOf i = j) → ∃ i ∈ claimed th'.pc, slotOf i = j) :
    ∃ t ∈ thieves.set n th', ∃ i ∈ claimed t.pc, slotOf i = j := by
  obtain ⟨t, ht, hi⟩ := hmem
  obtain ⟨m, hm⟩ := getElem?_of_mem ht
  by_cases hmn : m = n
  · subst hmn
    obtain rfl := Option.some.inj (hm.symm.trans h)
    have hlen := (List.getElem?_eq_some_iff.mp h).1
    exact ⟨th', mem_set hlen th', hth hi⟩
  · refine ⟨t, mem_of_getElem? (i := m) ?_, hi⟩
    rw [getElem?_set_ne fun heq => hmn heq.symm]
    exact hm

/-- What a thief may do to the queue: claim what it takes below top, move slots that it has
    claimed, and hold what was in them. -/
structure Takes (q q' : LocalQueue τ) (th th' : Thief τ) : Prop where
  bottom : q'.bottom = q.bottom
  top : ∀ i, q.top ≤ i → q'.top ≤ i ∨ i ∈ claimed th'.pc
  slots : ∀ j, q'.slots j ≠ none → q.slots j ≠ none
  claims : ∀ j, q'.slots j ≠ none → (∃ i ∈ claimed th.pc, slotOf i = j) →
    ∃ i ∈ claimed th'.pc, slotOf i = j
  counted : (slotTasks q' ++ held th').Perm (slotTasks q ++ held th)

/-- The invariant is kept by a thief that only takes. -/
theorem Inv.takes (h : Inv s) (hth : s.thieves[n]? = some th) (ht : Takes s.queue q th th') :
    Inv { s with queue := q, thieves := s.thieves.set n th' } := by
  have hlen := (List.getElem?_eq_some_iff.mp hth).1
  have hclaimed : ∀ {j}, q.slots j ≠ none → Claimed s j →
      Claimed { s with queue := q, thieves := s.thieves.set n th' } j :=
    fun hslot hmem => claimed_set hth hmem (ht.claims _ hslot)
  have hnew : ∀ {i}, i ∈ claimed th'.pc →
      Claimed { s with queue := q, thieves := s.thieves.set n th' } (slotOf i) :=
    fun hi => ⟨th', mem_set hlen th', _, hi, rfl⟩
  refine ⟨?_, ?_, ?_, ?_⟩
  · intro b hb
    show q.bottom ≤ b + 1
    rw [ht.bottom]
    exact h.bottom b hb
  · intro b hb hslot
    rcases h.kept b hb (ht.slots _ hslot) with htop | hmem
    · rcases ht.top b htop with htop' | hi
      · exact .inl htop'
      · exact .inr (hnew hi)
    · exact .inr (hclaimed hslot hmem)
  · intro j hslot
    rcases h.reached j (ht.slots j hslot) with ⟨i, htop, hbottom, rfl⟩ | howned | hmem
    · rcases ht.top i htop with htop' | hi
      · exact .inl ⟨i, htop', ht.bottom.symm ▸ hbottom, rfl⟩
      · exact .inr (.inr (hnew hi))
    · exact .inr (.inl howned)
    · exact .inr (.inr (hclaimed hslot hmem))
  · classical
    have hset := perm_iff_count.mp (held_set hth th')
    have hold := perm_iff_count.mp h.counted
    have hmoved := perm_iff_count.mp ht.counted
    refine perm_iff_count.mpr fun x => ?_
    have hset := hset x
    have hold := hold x
    have hmoved := hmoved x
    simp only [count_append] at hset hold hmoved ⊢
    omega

theorem put_slots {q : LocalQueue τ} {i : Nat} {j : Fin capacity}
    (h : (q.put i none).slots j ≠ none) : q.slots j ≠ none ∧ slotOf i ≠ j := by
  by_cases hj : slotOf i = j
  · subst hj
    exact absurd (Function.update_self _ _ _) h
  · have hslot : Function.update q.slots (slotOf i) none j ≠ none := h
    rw [Function.update_of_ne fun heq => hj heq.symm] at hslot
    exact ⟨hslot, hj⟩

/-- A thief that does not touch the queue. -/
theorem Takes.still (hclaims : ∀ i ∈ claimed th.pc, q.at i ≠ none → i ∈ claimed th'.pc)
    (hheld : (held th').Perm (held th)) : Takes q q th th' where
  bottom := rfl
  top := fun _ hi => .inl hi
  slots := fun _ h => h
  claims := by
    rintro j hslot ⟨i, hi, rfl⟩
    exact ⟨i, hclaims i hi hslot, rfl⟩
  counted := hheld.append_left _

/-- A thief that moves a slot out. -/
theorem Takes.move {i : Nat} (hclaims : ∀ k ∈ claimed th.pc, k = i ∨ k ∈ claimed th'.pc)
    (hheld : (held th').Perm (held th ++ (q.at i).toList)) : Takes q (q.put i none) th th' where
  bottom := rfl
  top := fun _ hk => .inl hk
  slots := fun _ hslot => (put_slots hslot).1
  claims := by
    rintro j hslot ⟨k, hk, rfl⟩
    rcases hclaims k hk with rfl | hk'
    · exact absurd rfl (put_slots hslot).2
    · exact ⟨k, hk', rfl⟩
  counted := by
    classical
    have hput := perm_iff_count.mp (slotTasks_put q i none)
    have hheld := perm_iff_count.mp hheld
    refine perm_iff_count.mpr fun x => ?_
    have hput := hput x
    have hheld := hheld x
    simp only [count_append, Option.toList_none, count_nil] at hput hheld ⊢
    omega

/-- A thief that claims what it takes below top. -/
theorem Takes.claim {k : Nat} (hnone : claimed th.pc = [])
    (hclaims : claimed th'.pc = List.range' q.top k) (hheld : held th' = held th) :
    Takes q { q with top := q.top + k } th th' where
  bottom := rfl
  top := by
    intro i hi
    show q.top + k ≤ i ∨ _
    rw [hclaims, mem_range'_1]
    omega
  slots := fun _ h => h
  claims := by
    rintro j - ⟨i, hi, rfl⟩
    rw [hnone] at hi
    cases hi
  counted := by rw [hheld]; exact .refl _

/-- A step of a thief keeps the invariant. -/
theorem Inv.thief (h : Inv s) (hth : s.thieves[n]? = some th)
    (hcareful : Careful s (.thief n)) :
    Inv { s with queue := (th.step s.queue).1,
                 thieves := s.thieves.set n (th.step s.queue).2 } := by
  refine h.takes hth ?_
  simp only [Careful, hth] at hcareful
  obtain ⟨pc, queue, returned⟩ := th
  cases pc with
  | idle => exact .still (fun _ hi _ => hi) (.refl _)
  | stealLoad t =>
    show Takes s.queue s.queue _ ⟨if s.queue.bottom ≤ t then .idle else .stealCas t, _, _⟩
    split
    · exact .still nofun (.refl _)
    · exact .still nofun (.refl _)
  | stealCas t =>
    -- the exchange claims the slot if no other thief was faster
    by_cases htop : s.queue.top = t
    · simp only [Thief.step, if_pos htop]
      subst htop
      exact .claim rfl rfl rfl
    · simp only [Thief.step, if_neg htop]
      exact .still nofun (.refl _)
  | stealMove t =>
    refine .move (fun k hk => .inl (mem_singleton.mp hk)) ?_
    show ([] ++ _ : List τ).Perm _
    simp only [held, hand, nil_append, append_assoc]
    exact .refl _
  | halfLoad t =>
    show Takes s.queue s.queue _
      ⟨if s.queue.bottom ≤ t then .idle else .halfCas t ((s.queue.bottom - t + 1) / 2), _, _⟩
    split
    · exact .still nofun (.refl _)
    · exact .still nofun (.refl _)
  | halfCas t stealCount =>
    -- here it claims all slots up to the count read before
    by_cases htop : s.queue.top = t
    · simp only [Thief.step, if_pos htop]
      subst htop
      exact .claim rfl rfl rfl
    · simp only [Thief.step, if_neg htop]
      exact .still nofun (.refl _)
  | halfFirst t stealCount =>
    refine .move (fun k hk => ?_) ?_
    · show k = t ∨ k ∈ List.range' (t + 1) (stealCount - 1)
      simp only [claimed, mem_range'_1] at hk ⊢
      omega
    · simp only [held, hand, nil_append]
      exact perm_append_comm
  | halfNext t stealCount i first =>
    by_cases hi : i < stealCount
    · simp only [Thief.step, if_pos hi]
      refine .move (fun k hk => ?_) ?_
      · simp only [claimed, mem_range'_1] at hk ⊢
        omega
      · simp only [held, hand, append_assoc]
        rw [← append_assoc (queue.filterMap id)]
        exact .append_left _ perm_append_comm
    · simp only [Thief.step, if_neg hi]
      refine .still (fun k hk _ => ?_) ?_
      · simp only [claimed, mem_range'_1] at hk
        omega
      · show (queue.filterMap id ++ (returned ++ first.toList)).Perm _
        rw [← append_assoc]
        exact perm_append_comm
  | halfPush t stealCount i first remaining =>
    by_cases hfull : capacity - 1 ≤ queue.length
    · simp only [Thief.step, if_pos hfull]
      -- the source drops what is left over here
      obtain ⟨rfl, hempty⟩ := hcareful hfull
      refine .still (fun k hk hslot => absurd (hempty k hk) hslot) ?_
      show (queue.filterMap id ++ (returned ++ first.toList)).Perm
        ((first.toList ++ []) ++ (queue.filterMap id ++ returned))
      rw [append_nil, ← append_assoc]
      exact perm_append_comm
    · simp only [Thief.step, if_neg hfull]
      refine .still (fun k hk _ => hk) ?_
      simp only [held, hand, filterMap_append, filterMap_id_singleton, append_assoc]
      exact .append_left _ (perm_append_comm_assoc ..)

end

/-! ## Steps of the owner -/

section

variable {thieves : List (Thief τ)} {q : LocalQueue τ} {pc : OwnerPc τ}
  {accepted returned : List τ} {b : Nat}

/-- Bottom goes back above the slot that the owner has worked on. -/
theorem reached_raise (h : Inv ⟨q, ⟨pc, accepted, returned⟩, thieves⟩)
    (hbottom : q.bottom ≤ b + 1) (hkept : Kept ⟨q, ⟨pc, accepted, returned⟩, thieves⟩ b)
    (hpc : indices pc = [b]) {accepted' : List τ} (j : Fin capacity) (hslot : q.slots j ≠ none) :
    Reached ⟨{ q with bottom := b + 1 }, ⟨.idle, accepted', returned⟩, thieves⟩ j := by
  rcases h.reached j hslot with ⟨i, htop, hi, rfl⟩ | ⟨i, hi, rfl⟩ | hmem
  · exact .inl ⟨i, htop, Nat.lt_of_lt_of_le hi hbottom, rfl⟩
  · obtain rfl := mem_singleton.mp (hpc ▸ hi)
    rcases hkept hslot with htop | hmem
    · exact .inl ⟨i, htop, Nat.lt_succ_self i, rfl⟩
    · exact .inr (.inr hmem)
  · exact .inr (.inr hmem)

/-- The task of a push is one more in an empty slot. -/
theorem Inv.pushWrite {task : τ}
    (h : Inv ⟨q, ⟨.pushWrite task b, accepted, returned⟩, thieves⟩) (hempty : q.at b = none)
    (hlive : q.top ≤ b ∨
      Claimed ⟨q, ⟨.pushWrite task b, accepted, returned⟩, thieves⟩ (slotOf b)) :
    Inv ⟨q.put b (some task), ⟨.pushPublish task b, accepted, returned⟩, thieves⟩ := by
  refine ⟨h.bottom, ?_, ?_, ?_⟩
  · intro b' hb' _
    obtain rfl := Option.some.inj hb'
    exact hlive
  · intro j hslot
    by_cases hj : slotOf b = j
    · exact .inr (.inl ⟨b, mem_singleton_self b, hj⟩)
    · have hold : Function.update q.slots (slotOf b) (some task) j ≠ none := hslot
      rw [Function.update_of_ne fun heq => hj heq.symm] at hold
      rcases h.reached j hold with hmem | ⟨i, hi, _⟩ | hmem
      · exact .inl hmem
      · cases hi
      · exact .inr (.inr hmem)
  · have hput := slotTasks_put q b (some task)
    rw [hempty, Option.toList_none, append_nil] at hput
    have hcounted : accepted.Perm (slotTasks q ++ (thieves.flatMap held ++ returned)) :=
      append_nil accepted ▸ h.counted
    calc accepted ++ [task]
      _ ~ slotTasks q ++ (thieves.flatMap held ++ returned) ++ [task] :=
        hcounted.append_right _
      _ = slotTasks q ++ (thieves.flatMap held ++ returned ++ [task]) := append_assoc ..
      _ ~ slotTasks q ++ ([task] ++ (thieves.flatMap held ++ returned)) :=
        perm_append_comm.append_left _
      _ = slotTasks q ++ [task] ++ (thieves.flatMap held ++ returned) :=
        (append_assoc ..).symm
      _ ~ slotTasks (q.put b (some task)) ++ (thieves.flatMap held ++ returned) :=
        (hput.append_right _).symm

/-- What `pop` moves out of the slot is what it returns. -/
theorem Inv.popMove (h : Inv ⟨q, ⟨.popMove b, accepted, returned⟩, thieves⟩) :
    Inv ⟨q.put b none, ⟨.idle, accepted, returned ++ (q.at b).toList⟩, thieves⟩ := by
  refine ⟨nofun, nofun, ?_, ?_⟩
  · intro j hslot
    obtain ⟨hold, hj⟩ := put_slots hslot
    rcases h.reached j hold with hmem | ⟨i, hi, hij⟩ | hmem
    · exact .inl hmem
    · obtain rfl := mem_singleton.mp hi
      exact absurd hij hj
    · exact .inr (.inr hmem)
  · have hput := slotTasks_put q b none
    rw [Option.toList_none, append_nil] at hput
    calc accepted ++ []
      _ ~ slotTasks q ++ (thieves.flatMap held ++ returned) := h.counted
      _ ~ slotTasks (q.put b none) ++ (q.at b).toList ++ (thieves.flatMap held ++ returned) :=
        (hput.append_right _).symm
      _ = slotTasks (q.put b none) ++
          ((q.at b).toList ++ (thieves.flatMap held ++ returned)) := append_assoc ..
      _ ~ slotTasks (q.put b none) ++
          (thieves.flatMap held ++ returned ++ (q.at b).toList) :=
        perm_append_comm.append_left _
      _ = slotTasks (q.put b none) ++
          (thieves.flatMap held ++ (returned ++ (q.at b).toList)) := by
        rw [append_assoc (thieves.flatMap held)]

/-- A step of the owner keeps the invariant. -/
theorem Inv.owner {s : State τ} (h : Inv s) (hcareful : Careful s .owner) :
    Inv { s with queue := (s.owner.step s.queue).1, owner := (s.owner.step s.queue).2 } := by
  obtain ⟨q, ⟨pc, accepted, returned⟩, thieves⟩ := s
  cases pc with
  | idle => exact h
  | pushCheck task b =>
    show Inv ⟨q, ⟨if isFull b q.top then .idle else .pushWrite task b, _, _⟩, thieves⟩
    split
    · exact ⟨nofun, nofun, h.reached, h.counted⟩
    · exact ⟨h.bottom, nofun, h.reached, h.counted⟩
  | pushWrite task b => exact h.pushWrite hcareful.1 hcareful.2
  | pushPublish task b =>
    refine ⟨nofun, nofun, reached_raise h (h.bottom b rfl) (h.kept b rfl) rfl, ?_⟩
    show ((accepted ++ [task]) ++ []).Perm _
    rw [append_nil]
    exact h.counted
  | popStore b =>
    refine ⟨?_, h.kept, ?_, h.counted⟩
    · intro b' hb'
      obtain rfl := Option.some.inj hb'
      exact Nat.le_succ b
    · intro j hslot
      rcases h.reached j hslot with ⟨i, htop, hi, rfl⟩ | hmem
      · rcases Nat.lt_or_eq_of_le (Nat.le_of_lt_succ (hi.trans_le (h.bottom b rfl))) with hlt | rfl
        · exact .inl ⟨i, htop, hlt, rfl⟩
        · exact .inr (.inl ⟨i, mem_singleton_self i, rfl⟩)
      · exact .inr hmem
  | popCheck b =>
    show Inv ⟨q, ⟨if q.top < b then .popMove b else if q.top = b then .popCas b
      else .popRestore b, _, _⟩, thieves⟩
    split
    · exact ⟨nofun, nofun, h.reached, h.counted⟩
    · split
      · exact ⟨h.bottom, h.kept, h.reached, h.counted⟩
      · exact ⟨h.bottom, h.kept, h.reached, h.counted⟩
  | popCas b =>
    by_cases htop : q.top = b
    · simp only [Owner.step, if_pos htop]
      refine ⟨h.bottom, nofun, ?_, h.counted⟩
      intro j hslot
      rcases h.reached j hslot with ⟨i, hge, hi, rfl⟩ | hmem
      · -- nothing above the slot is left
        have hle : i ≤ b := Nat.le_of_lt_succ (hi.trans_le (h.bottom b rfl))
        obtain rfl : i = b := hle.antisymm (htop ▸ hge)
        exact .inr (.inl ⟨i, mem_singleton_self i, rfl⟩)
      · exact .inr hmem
    · simp only [Owner.step, if_neg htop]
      exact ⟨h.bottom, h.kept, h.reached, h.counted⟩
  | popRaise b =>
    refine ⟨nofun, nofun, ?_, h.counted⟩
    intro j hslot
    rcases h.reached j hslot with ⟨i, htop, hi, rfl⟩ | hmem
    · exact .inl ⟨i, htop, hi.trans_le (h.bottom b rfl), rfl⟩
    · exact .inr hmem
  | popMove b => exact h.popMove
  | popRestore b =>
    exact ⟨nofun, nofun, reached_raise h (h.bottom b rfl) (h.kept b rfl) rfl, h.counted⟩

/-- A call of the owner keeps the invariant. -/
theorem Inv.push {s : State τ} (h : Inv s) (hidle : s.owner.pc.isIdle) (task : τ) :
    Inv { s with owner := s.owner.push s.queue task } := by
  obtain ⟨q, ⟨pc, accepted, returned⟩, thieves⟩ := s
  cases pc with
  | idle =>
    refine ⟨?_, nofun, h.reached, h.counted⟩
    intro b hb
    obtain rfl := Option.some.inj hb
    exact Nat.le_succ _
  | _ => cases hidle

theorem Inv.pop {s : State τ} (h : Inv s) (hidle : s.owner.pc.isIdle) :
    Inv { s with owner := s.owner.pop s.queue } := by
  obtain ⟨q, ⟨pc, accepted, returned⟩, thieves⟩ := s
  cases pc with
  | idle =>
    show Inv ⟨q, Owner.pop q ⟨.idle, accepted, returned⟩, thieves⟩
    by_cases hzero : q.bottom = 0
    · rw [Owner.pop, if_pos hzero]
      exact h
    · rw [Owner.pop, if_neg hzero]
      refine ⟨?_, ?_, ?_, h.counted⟩
      · intro b hb
        obtain rfl := Option.some.inj hb
        show q.bottom ≤ q.bottom - 1 + 1
        omega
      · intro b hb hslot
        obtain rfl := Option.some.inj hb
        rcases h.reached _ hslot with ⟨i, htop, hi, _⟩ | ⟨i, hi, _⟩ | hmem
        · exact .inl (htop.trans (Nat.le_sub_one_of_lt hi))
        · cases hi
        · exact .inr hmem
      · intro j hslot
        rcases h.reached j hslot with hmem | ⟨i, hi, _⟩ | hmem
        · exact .inl hmem
        · cases hi
        · exact .inr (.inr hmem)
  | _ => cases hidle

end

/-! ## Runs -/

/-- A call of a thief that keeps what it holds keeps the invariant. -/
theorem Inv.call {s s' : State τ} (h : Inv s) {n : Nat} {f : Thief τ → Thief τ}
    (hf : ∀ queue returned, held (f ⟨.idle, queue, returned⟩) ~ held ⟨.idle, queue, returned⟩)
    (hcall : s.call n f = some s') : Inv s' := by
  unfold State.call at hcall
  cases hth : s.thieves[n]? with
  | none =>
    rw [hth] at hcall
    cases hcall
  | some th =>
    rw [hth] at hcall
    obtain ⟨pc, queue, returned⟩ := th
    cases pc with
    | idle =>
      obtain rfl := Option.some.inj hcall
      exact h.takes hth (.still nofun (hf queue returned))
    | _ => cases hcall

theorem held_work (queue : List (Option τ)) (returned : List τ) :
    held (Thief.work ⟨.idle, queue, returned⟩) ~ held ⟨.idle, queue, returned⟩ := by
  rcases eq_nil_or_concat queue with rfl | ⟨rest, last, rfl⟩
  · show returned ++ [] ~ returned
    rw [append_nil]
  · simp only [held, hand, Thief.work, concat_eq_append, dropLast_concat,
      getLast?_concat, Option.join_some, filterMap_append, filterMap_id_singleton,
      nil_append, append_assoc]
    exact perm_append_comm.append_left _

/-- Every careful step keeps the invariant. -/
theorem Inv.step {s s' : State τ} (h : Inv s) {a : Action τ} (hcareful : Careful s a)
    (hstep : step s a = some s') : Inv s' := by
  cases a with
  | push task =>
    obtain ⟨hidle, hs⟩ := Option.ite_none_right_eq_some.mp hstep
    obtain rfl := Option.some.inj hs
    exact h.push hidle task
  | pop =>
    obtain ⟨hidle, hs⟩ := Option.ite_none_right_eq_some.mp hstep
    obtain rfl := Option.some.inj hs
    exact h.pop hidle
  | owner =>
    obtain rfl := Option.some.inj hstep
    exact h.owner hcareful
  | steal n => exact h.call (fun _ _ => .refl _) hstep
  | stealHalf n => exact h.call (fun _ _ => .refl _) hstep
  | work n => exact h.call held_work hstep
  | thief n =>
    unfold WorkStealingQueue.step at hstep
    cases hth : s.thieves[n]? with
    | none =>
      simp only [hth] at hstep
      cases hstep
    | some th =>
      simp only [hth] at hstep
      obtain rfl := Option.some.inj hstep
      exact h.thief hth hcareful

/-- Nothing is queued at first. -/
theorem inv_initial (n : Nat) : Inv (initial τ n) where
  bottom := nofun
  kept := nofun
  reached := fun _ h => absurd rfl h
  counted := by
    have hslots : slotTasks (initial τ n).queue = [] :=
      filterMap_eq_nil_iff.mpr fun _ _ => rfl
    have hheld : (initial τ n).thieves.flatMap held = [] := by
      refine flatMap_eq_nil_iff.mpr fun th hth => ?_
      rw [eq_of_mem_replicate hth]
      rfl
    rw [hslots, hheld]
    exact .refl _

/-- The invariant holds after every careful run. -/
theorem Inv.run {acts : List (Action τ)} {s s' : State τ} (h : Inv s)
    (hcareful : CarefulRun s acts) (hrun : run s acts = some s') : Inv s' := by
  induction acts generalizing s with
  | nil =>
    obtain rfl := Option.some.inj hrun
    exact h
  | cons a acts ih =>
    obtain ⟨next, hstep, hrest⟩ := Option.bind_eq_some_iff.mp hrun
    obtain ⟨hfirst, hcareful⟩ := hcareful
    rw [hstep] at hcareful
    exact ih (h.step hfirst hstep) hcareful hrest

/-- Every task whose `push` returned true is in exactly one place, after every run whose steps
    are careful. -/
theorem careful_run_exactly_once (thieves : Nat) (acts : List (Action τ)) (s : State τ)
    (hrun : run (initial τ thieves) acts = some s)
    (hcareful : CarefulRun (initial τ thieves) acts) : ExactlyOnce s :=
  ((inv_initial thieves).run hcareful hrun).exactlyOnce

/-- Four tasks pushed.  One thief reserves the first two by `steal_half`; before it moves them,
    the owner pops the last task and another thief steals the third. -/
def stolen : List (Action Nat) :=
  [.push 1, .owner, .owner, .owner, .push 2, .owner, .owner, .owner,
   .push 3, .owner, .owner, .owner, .push 4, .owner, .owner, .owner,
   .stealHalf 0, .thief 0, .thief 0, .pop, .owner, .steal 1, .owner, .owner,
   .thief 0, .thief 1, .thief 0, .thief 1, .thief 0, .thief 1, .thief 0, .work 0]

/-- Each of the four tasks is returned once. -/
theorem careful_run_exactly_once_stolen :
    ∃ s, run (initial Nat 2) stolen = some s ∧
      s.thieves.map Thief.returned = [[1, 2], [3]] ∧ s.owner.returned = [4] ∧
      ExactlyOnce s := by
  have hwrite {q : LocalQueue Nat} {b : Nat} (hempty : q.at b = none) (htop : q.top = 0)
      {P : Prop} : q.at b = none ∧ (q.top ≤ b ∨ P) :=
    ⟨hempty, .inl (htop.le.trans (Nat.zero_le b))⟩
  have hroom {th : Thief Nat} {P : Prop} (hlen : th.queue = []) :
      capacity - 1 ≤ th.queue.length → P := by
    intro hfull
    rw [hlen] at hfull
    exact absurd hfull (by decide)
  have hthieves : CarefulRun ((run (initial Nat 2) (stolen.take 16)).get rfl) (stolen.drop 16) :=
    .intro trivial (.intro trivial (.intro trivial (.intro trivial (.intro trivial
      (.intro trivial (.intro trivial (.intro trivial (.intro trivial (.intro trivial
      (.intro trivial (.intro trivial (.intro (hroom rfl) (.intro trivial
      (.intro trivial (.intro trivial trivial)))))))))))))))
  have hcareful : CarefulRun (initial Nat 2) stolen :=
    .intro trivial (.intro trivial (.intro (hwrite rfl rfl) (.intro trivial
      (.intro trivial (.intro trivial (.intro (hwrite rfl rfl) (.intro trivial
      (.intro trivial (.intro trivial (.intro (hwrite rfl rfl) (.intro trivial
      (.intro trivial (.intro trivial (.intro (hwrite rfl rfl) (.intro trivial
      hthieves)))))))))))))))
  obtain ⟨s, hrun⟩ := Option.isSome_iff_exists.mp
    (show (run (initial Nat 2) stolen).isSome by decide +kernel)
  have hreturned : (run (initial Nat 2) stolen).map
      (fun s => (s.thieves.map Thief.returned, s.owner.returned)) = some ([[1, 2], [3]], [4]) := by
    decide +kernel
  rw [hrun] at hreturned
  obtain ⟨hthief, howner⟩ := Prod.mk.inj (Option.some.inj hreturned)
  exact ⟨s, hrun, hthief, howner, careful_run_exactly_once 2 stolen s hrun hcareful⟩

/-- Three tasks pushed, and half of them stolen with a bottom that was read before the owner
    popped two: the task then pushed is in a slot below top. -/
def lost : List (Action Nat) :=
  [.push 1, .owner, .owner, .owner, .push 2, .owner, .owner, .owner,
   .push 3, .owner, .owner, .owner, .stealHalf 0, .thief 0,
   .pop, .owner, .owner, .owner, .pop, .owner, .owner, .owner,
   .push 4, .owner, .thief 0, .thief 0, .thief 0, .thief 0, .thief 0, .owner, .owner]

/-- Four tasks were accepted, and three are in some place. -/
theorem task_lost : ∃ s, run (initial Nat 1) lost = some s ∧ ¬ ExactlyOnce s := by
  obtain ⟨s, hrun⟩ := Option.isSome_iff_exists.mp
    (show (run (initial Nat 1) lost).isSome by decide +kernel)
  have hlengths : (run (initial Nat 1) lost).map (fun s =>
      ((s.owner.accepted ++ publishing s.owner.pc).length, (places s).length)) = some (4, 3) := by
    decide +kernel
  rw [hrun] at hlengths
  obtain ⟨haccepted, hplaces⟩ := Prod.mk.inj (Option.some.inj hlengths)
  refine ⟨s, hrun, fun honce => ?_⟩
  have hlength := honce.length_eq
  rw [haccepted, hplaces] at hlength
  cases hlength

end WorkStealingRuns
