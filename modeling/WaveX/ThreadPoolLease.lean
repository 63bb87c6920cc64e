import Mathlib.Data.List.Basic
import WaveX.ThreadPool

/-! # The worker of a lease

    A lease registers on a worker first and looks at its slot again; the monitor clears the
    slot first and looks at the count.  So a worker that is leased is not retired, in any
    order of the steps, and the worker of a returned lease is in its slot.

    Between the two looks at the slot a call has the node as a raw pointer.  `reclaim_retired`
    waits for the threads that `active_thieves_` counts, and `lease_worker` is not among them:
    a node may be destroyed while a call is about to register on it.  Where no such call is
    left when the retired nodes are destroyed, none is ever accessed afterwards. -/

namespace ThreadPoolLease

open ThreadPool History Pool List

/-! ## Where a node is -/

/-- The worker that has its slot and is not in `workers_` yet. -/
def arriving : Monitor → List NodeId
  | .publishing w _ => [w]
  | _ => []

/-- The worker that has left `workers_` and is not in `retired_` yet. -/
def leaving : Monitor → List NodeId
  | .decommissioning w => [w]
  | _ => []

/-- The last worker is out of its slot while the monitor looks at its count. -/
def underReview : Monitor → Bool
  | .counting | .looking | .restoring => true
  | _ => false

/-- A scale-down has begun and the last worker is still there. -/
def shrinking : Monitor → Bool
  | .unpublishing | .counting | .looking | .restoring => true
  | _ => false

def listed (s : Pool) : List NodeId := s.workers ++ arriving s.monitor

def nodes (s : Pool) : List NodeId :=
  listed s ++ (leaving s.monitor ++ (s.retired ++ s.destroyed))

/-- The raw pointer of a call. -/
def node : Call → Option NodeId
  | .loaded _ _ w | .registered _ _ w | .backingOut _ w => some w
  | _ => none

/-- Whether a call is counted in `live_coroutines` of a node. -/
def reserves (w : NodeId) : Call → Bool
  | .registered _ _ v | .backingOut _ v => v == w
  | _ => false

/-- Each node is in one place, and the table holds the workers, each in its slot, but for the
    one under review. -/
structure Placed (s : Pool) : Prop where
  nodup : (nodes s).Nodup
  known : ∀ w ∈ nodes s, w < s.fresh
  table : ∀ i < kMaxWorkerSlots,
    s.table i = if underReview s.monitor ∧ i + 1 = s.workers.length then none else (listed s)[i]?
  shrinks : shrinking s.monitor = true → s.workers ≠ []
  retiring : ∀ w, s.isRetiring w = true → w ∈ s.retired ++ s.destroyed

/-- The count of a node is that of the calls registered on it and of its leases, and what is
    leased is a worker with a slot. -/
structure Counted (s : Pool) : Prop where
  live : ∀ w, s.live w = s.calls.countP (reserves w) + s.leases.count w
  leased : ∀ w ∈ s.leases, ∃ i < kMaxWorkerSlots, (listed s)[i]? = some w

/-- `active_thieves_` counts the thieves, and none has a pointer to a destroyed node, or to
    one that is about to be. -/
structure Watched (s : Pool) : Prop where
  count : s.activeThieves = s.thieves.countP (· != .outside)
  probing : ∀ w, .probing w ∈ s.thieves →
    w ∉ s.destroyed ∧ (s.monitor = .clearing → w ∉ s.retired)

/-- No call has a pointer to a destroyed node. -/
def Pointed (s : Pool) : Prop := ∀ c ∈ s.calls, ∀ w ∈ node c, w ∉ s.destroyed

/-- The retired nodes are not destroyed while a call has a pointer to one of them. -/
def Unheld (s : Pool) (a : Action) : Prop :=
  a = .monitor → s.monitor = .clearing → ∀ c ∈ s.calls, ∀ w ∈ node c, w ∉ s.retired

instance (s : Pool) (a : Action) : Decidable (Unheld s a) :=
  inferInstanceAs (Decidable (a = .monitor → s.monitor = .clearing →
    ∀ c ∈ s.calls, ∀ w ∈ node c, w ∉ s.retired))

/-! ## Lists -/

section

variable {α : Type*} {l : List α} {a b : α} {i : Nat}

theorem countP_set_add (p : α → Bool) (h : l[i]? = some a) :
    (l.set i b).countP p + (if p a then 1 else 0) = l.countP p + (if p b then 1 else 0) := by
  obtain ⟨hi, hget⟩ := List.getElem?_eq_some_iff.mp h
  have hpos : (if p l[i] then 1 else 0) ≤ l.countP p := by
    split
    · next hp => exact countP_pos_iff.mpr ⟨l[i], getElem_mem hi, hp⟩
    · exact Nat.zero_le _
  rw [countP_set hi]
  rw [hget] at hpos ⊢
  omega

theorem getElem?_concat_of_ne (h : i ≠ l.length) (a : α) : (l ++ [a])[i]? = l[i]? := by
  obtain hlt | hgt := Nat.lt_or_gt_of_ne h
  · exact getElem?_append_left hlt
  · rw [getElem?_eq_none (by rw [length_append, length_singleton]; omega),
      getElem?_eq_none (by omega)]

end

/-! ## Slots -/

variable {cfg : Config} {s s' : Pool} {t idx load : Nat} {c c' : Call} {w : NodeId} {a : Action}

theorem slot_some (h : s.slot idx = some w) : idx < kMaxWorkerSlots ∧ s.table idx = some w := by
  rw [slot] at h
  split at h
  · next hidx => exact ⟨hidx, h⟩
  · cases h

theorem store_table {i : Nat} (hi : i < kMaxWorkerSlots) (v : Option NodeId) :
    (s.store idx v).table i = if i = idx then v else s.table i := by
  rw [store]
  by_cases heq : i = idx
  · rw [if_pos heq, if_pos (heq ▸ hi), heq]
    exact Function.update_self ..
  · rw [if_neg heq]
    split
    · exact Function.update_of_ne heq ..
    · rfl

theorem Placed.listed_of_slot (h : Placed s) (hslot : s.slot idx = some w) :
    idx < kMaxWorkerSlots ∧ (listed s)[idx]? = some w := by
  obtain ⟨hidx, htable⟩ := slot_some hslot
  rw [h.table idx hidx] at htable
  split at htable
  · cases htable
  · exact ⟨hidx, htable⟩

/-- A worker is neither retired nor destroyed. -/
theorem Placed.kept (h : Placed s) (hw : w ∈ listed s) : w ∉ s.retired ∧ w ∉ s.destroyed := by
  obtain ⟨-, -, hapart⟩ := nodup_append.mp h.nodup
  constructor
  · intro hretired
    refine hapart w hw w ?_ rfl
    exact mem_append_right _ (mem_append_left _ hretired)
  · intro hgone
    refine hapart w hw w ?_ rfl
    exact mem_append_right _ (mem_append_right _ hgone)

/-! ## The monitor and the places -/

/-- The same nodes in other places. -/
theorem Placed.moved (h : Placed s) (s' : Pool) (hperm : (nodes s').Perm (nodes s))
    (hfresh : s'.fresh = s.fresh) : (nodes s').Nodup ∧ ∀ w ∈ nodes s', w < s'.fresh := by
  refine ⟨hperm.nodup_iff.mpr h.nodup, fun w hw => ?_⟩
  rw [hfresh]
  exact h.known w (hperm.mem_iff.mp hw)

/-- One more node. -/
theorem Placed.added (h : Placed s) (s' : Pool) (hperm : (nodes s').Perm (s.fresh :: nodes s))
    (hfresh : s'.fresh = s.fresh + 1) : (nodes s').Nodup ∧ ∀ w ∈ nodes s', w < s'.fresh := by
  constructor
  · refine hperm.nodup_iff.mpr (nodup_cons.mpr ⟨fun hmem => ?_, h.nodup⟩)
    exact Nat.lt_irrefl _ (h.known _ hmem)
  · intro w hw
    rw [hfresh]
    obtain rfl | hold := mem_cons.mp (hperm.mem_iff.mp hw)
    · exact Nat.lt_succ_self _
    · exact Nat.lt_succ_of_lt (h.known w hold)

/-- What calls, thieves and leases do leaves every node where it is. -/
theorem Placed.readers (h : Placed s) (next active : Nat) (live : NodeId → Nat)
    (calls : List Call) (thieves : List Thief) (leases : List NodeId) :
    Placed { s with
      nextWorkerIdx := next, activeThieves := active, live, calls, thieves, leases } :=
  ⟨h.nodup, h.known, h.table, h.shrinks, h.retiring⟩

/-- A step from one phase to the next that moves nothing. -/
theorem Placed.phase {before : Monitor} (h : Placed s) (after : Monitor) (hm : s.monitor = before)
    (hsame : arriving after = arriving before ∧ leaving after = leaving before ∧
      underReview after = underReview before)
    (hshrinks : shrinking after = true → s.workers ≠ []) (cooldown count : Nat) :
    Placed { s with cooldown, workerCount := count, monitor := after } := by
  obtain ⟨harriving, hleaving, hreview⟩ := hsame
  have hlisted : listed { s with cooldown, workerCount := count, monitor := after } = listed s := by
    rw [listed, listed, hm, harriving]
  obtain ⟨hnodup, hknown⟩ := h.moved
    { s with cooldown, workerCount := count, monitor := after } (.of_eq (by
      rw [nodes, nodes, hlisted, hm]
      dsimp only
      rw [hleaving])) rfl
  refine ⟨hnodup, hknown, ?_, hshrinks, h.retiring⟩
  rw [hlisted]
  show ∀ i < kMaxWorkerSlots, s.table i =
    if underReview after ∧ i + 1 = s.workers.length then none else (listed s)[i]?
  rw [hreview, ← hm]
  exact h.table

/-- In most phases there is no worker on its way. -/
theorem listed_eq {m : Monitor} (hm : s.monitor = m) (hnone : arriving m = []) :
    listed s = s.workers := by
  rw [listed, hm, hnone, append_nil]

/-- A worker that has its slot, or has none because the table is full. -/
theorem Placed.add (h : Placed s) {left : Nat} (hm : s.monitor = .adding (left + 1)) :
    Placed (s.advance (.adding (left + 1))) := by
  have hlisted : listed s = s.workers := listed_eq hm rfl
  have hperm : ((s.workers ++ [s.fresh]) ++ ([] ++ (s.retired ++ s.destroyed))).Perm
      (s.fresh :: nodes s) := by
    rw [nodes, hlisted, hm, append_assoc]
    exact perm_middle
  have htable : ∀ i < kMaxWorkerSlots, s.table i = s.workers[i]? := by
    intro i hi
    rw [h.table i hi, hm, hlisted]
    rfl
  rw [advance]
  split
  · next hslot =>
      rw [store_same]
      obtain ⟨hnodup, hknown⟩ := h.added { s with
        table := (s.store s.workers.length (some s.fresh)).table
        fresh := s.fresh + 1, monitor := .publishing s.fresh left } hperm rfl
      refine ⟨hnodup, hknown, fun i hi => ?_, nofun, h.retiring⟩
      show (s.store s.workers.length (some s.fresh)).table i = (s.workers ++ [s.fresh])[i]?
      rw [store_table hi]
      split
      · next heq => rw [heq, getElem?_concat_length]
      · next hne =>
          rw [getElem?_concat_of_ne hne, htable i hi]
  · next hfull =>
      obtain ⟨hnodup, hknown⟩ := h.added { s with
        fresh := s.fresh + 1, workers := s.workers ++ [s.fresh], monitor := .adding left }
        ((List.Perm.of_eq (congrArg (· ++ ([] ++ (s.retired ++ s.destroyed)))
          (append_nil _))).trans hperm) rfl
      refine ⟨hnodup, hknown, fun i hi => ?_, nofun, h.retiring⟩
      show s.table i = ((s.workers ++ [s.fresh]) ++ [])[i]?
      rw [append_nil, getElem?_concat_of_ne (by omega), htable i hi]

/-- The new worker is among the workers. -/
theorem Placed.publish (h : Placed s) {left : Nat} (hm : s.monitor = .publishing w left) :
    Placed (s.advance (.publishing w left)) := by
  have hlisted : listed (s.advance (.publishing w left)) = listed s := by
    rw [listed, listed, hm]
    exact append_nil _
  obtain ⟨hnodup, hknown⟩ := h.moved (s.advance (.publishing w left)) (.of_eq (by
    rw [nodes, nodes, hlisted, hm]
    rfl)) rfl
  refine ⟨hnodup, hknown, fun i hi => ?_, nofun, h.retiring⟩
  rw [hlisted]
  show s.table i = (listed s)[i]?
  rw [h.table i hi, hm]
  rfl

/-- The last worker leaves its slot. -/
theorem Placed.unpublish (h : Placed s) (hm : s.monitor = .unpublishing) :
    Placed (s.advance .unpublishing) := by
  have hlisted : listed s = s.workers := listed_eq hm rfl
  have hpos : 0 < s.workers.length :=
    length_pos_iff.mpr (h.shrinks (by rw [hm]; rfl))
  rw [advance, store_same]
  obtain ⟨hnodup, hknown⟩ := h.moved { s with
    table := (s.store (s.workers.length - 1) none).table, monitor := .counting }
    (.of_eq (by rw [nodes, nodes, listed, listed, hm]; rfl)) rfl
  refine ⟨hnodup, hknown, fun i hi => ?_, fun _ => length_pos_iff.mp hpos, h.retiring⟩
  show (s.store (s.workers.length - 1) none).table i =
    if true = true ∧ i + 1 = s.workers.length then none else (s.workers ++ [])[i]?
  rw [store_table hi, append_nil, h.table i hi, hm, hlisted]
  by_cases hlast : i + 1 = s.workers.length
  · rw [if_pos (by omega), if_pos ⟨rfl, hlast⟩]
  · rw [if_neg (by omega), if_neg (fun hr => nomatch hr.1), if_neg (fun hr => hlast hr.2)]

/-- The last worker gets its slot back. -/
theorem Placed.restore (h : Placed s) (hm : s.monitor = .restoring) :
    Placed (s.advance .restoring) := by
  have hlisted : listed s = s.workers := listed_eq hm rfl
  have hpos : 0 < s.workers.length :=
    length_pos_iff.mpr (h.shrinks (by rw [hm]; rfl))
  rw [advance, store_same]
  obtain ⟨hnodup, hknown⟩ := h.moved { s with
    table := (s.store (s.workers.length - 1) s.workers.getLast?).table, monitor := .recounting }
    (.of_eq (by rw [nodes, nodes, listed, listed, hm]; rfl)) rfl
  refine ⟨hnodup, hknown, fun i hi => ?_, nofun, h.retiring⟩
  show (s.store (s.workers.length - 1) s.workers.getLast?).table i = (s.workers ++ [])[i]?
  rw [store_table hi, append_nil, h.table i hi, hm, hlisted]
  by_cases hlast : i + 1 = s.workers.length
  · rw [if_pos (by omega), getLast?_eq_getElem?, ← hlast, Nat.add_sub_cancel]
  · rw [if_neg (by omega), if_neg (fun hr => hlast hr.2)]

/-- The last worker leaves the workers. -/
theorem Placed.retire (h : Placed s) (hm : s.monitor = .looking)
    (hlast : s.workers.getLast? = some w) :
    Placed { s with workers := s.workers.dropLast, monitor := .decommissioning w } := by
  have hlisted : listed s = s.workers := listed_eq hm rfl
  have hsplit : s.workers.dropLast ++ [w] = s.workers :=
    dropLast_append_getLast? w hlast
  obtain ⟨hnodup, hknown⟩ := h.moved { s with
    workers := s.workers.dropLast, monitor := .decommissioning w } (.of_eq (by
      rw [nodes, nodes, hlisted, hm]
      show (s.workers.dropLast ++ []) ++ ([w] ++ _) = s.workers ++ ([] ++ _)
      rw [append_nil, ← append_assoc, hsplit, nil_append])) rfl
  refine ⟨hnodup, hknown, fun i hi => ?_, nofun, h.retiring⟩
  show s.table i = (s.workers.dropLast ++ [])[i]?
  rw [append_nil, h.table i hi, hm, hlisted, getElem?_dropLast]
  by_cases hend : i + 1 = s.workers.length
  · rw [if_pos ⟨rfl, hend⟩, if_neg (by omega)]
  · rw [if_neg (fun hr => hend hr.2)]
    split
    · rfl
    · rw [getElem?_eq_none (by omega)]

/-- The worker that has left is among the retired. -/
theorem Placed.decommission (h : Placed s) (hm : s.monitor = .decommissioning w) :
    Placed (s.advance (.decommissioning w)) := by
  have hlisted : listed s = s.workers := listed_eq hm rfl
  obtain ⟨hnodup, hknown⟩ := h.moved (s.advance (.decommissioning w)) (by
    rw [nodes, nodes, hlisted, hm]
    show ((s.workers ++ []) ++ ([] ++ ((s.retired ++ [w]) ++ s.destroyed))).Perm
      (s.workers ++ ([w] ++ (s.retired ++ s.destroyed)))
    rw [append_nil, nil_append, append_assoc]
    exact perm_middle.append_left _) rfl
  refine ⟨hnodup, hknown, fun i hi => ?_, nofun, fun v hv => ?_⟩
  · show s.table i = (s.workers ++ [])[i]?
    rw [h.table i hi, hm, hlisted, append_nil]
    rfl
  · show v ∈ (s.retired ++ [w]) ++ s.destroyed
    rw [append_assoc]
    by_cases hvw : v = w
    · exact mem_append_right _ (mem_append_left _ (mem_singleton.mpr hvw))
    · have hold : s.isRetiring v = true := by
        rw [← hv]
        exact (Function.update_of_ne hvw ..).symm
      obtain hretired | hgone := mem_append.mp (h.retiring v hold)
      · exact mem_append_left _ hretired
      · exact mem_append_right _ (mem_append_right _ hgone)

/-- The retired nodes are destroyed. -/
theorem Placed.reclaim (h : Placed s) (hm : s.monitor = .clearing) :
    Placed (s.advance .clearing) := by
  have hlisted : listed s = s.workers := listed_eq hm rfl
  obtain ⟨hnodup, hknown⟩ := h.moved (s.advance .clearing) (by
    rw [nodes, nodes, hlisted, hm]
    show ((s.workers ++ []) ++ ([] ++ ([] ++ (s.destroyed ++ s.retired)))).Perm
      (s.workers ++ ([] ++ (s.retired ++ s.destroyed)))
    rw [append_nil, nil_append, nil_append]
    exact perm_append_comm.append_left _) rfl
  refine ⟨hnodup, hknown, fun i hi => ?_, nofun, fun v hv => ?_⟩
  · show s.table i = (s.workers ++ [])[i]?
    rw [h.table i hi, hm, hlisted, append_nil]
    rfl
  · show v ∈ [] ++ (s.destroyed ++ s.retired)
    obtain hretired | hgone := mem_append.mp (h.retiring v hv)
    · exact mem_append_right _ (mem_append_right _ hretired)
    · exact mem_append_right _ (mem_append_left _ hgone)

/-- What one access of the monitor does to the places of the nodes. -/
theorem Placed.advance (h : Placed s) : Placed (s.advance s.monitor) := by
  cases hm : s.monitor with
  | idle => exact h
  | adding left =>
    cases left with
    | zero => exact h.phase .idle hm ⟨rfl, rfl, rfl⟩ nofun s.cooldown s.workerCount
    | succ left => exact h.add hm
  | publishing w left => exact h.publish hm
  | unpublishing => exact h.unpublish hm
  | counting =>
    exact h.phase .looking hm ⟨rfl, rfl, rfl⟩ (fun _ => h.shrinks (by rw [hm]; rfl)) s.cooldown _
  | looking =>
    rw [Pool.advance]
    split
    · exact h
    · next w hlast =>
        split
        · exact h.phase .restoring hm ⟨rfl, rfl, rfl⟩ (fun _ => h.shrinks (by rw [hm]; rfl))
            s.cooldown s.workerCount
        · exact h.retire hm hlast
  | restoring => exact h.restore hm
  | recounting => exact h.phase .reclaiming hm ⟨rfl, rfl, rfl⟩ nofun s.cooldown _
  | decommissioning w => exact h.decommission hm
  | reclaiming =>
    rw [Pool.advance]
    split
    · exact h.phase .clearing hm ⟨rfl, rfl, rfl⟩ nofun s.cooldown s.workerCount
    · exact h.phase .idle hm ⟨rfl, rfl, rfl⟩ nofun s.cooldown s.workerCount
  | clearing => exact h.reclaim hm

/-! ## One step and the places -/

/-- What an access of a call can change. -/
theorem leaseWorker_same (s : Pool) (t : Nat) (c : Call) : ∃ next live calls leases,
    s.leaseWorker t c = { s with nextWorkerIdx := next, live, calls, leases } := by
  cases c with
  | idle | attempt _ | counted _ _ | loaded _ _ _ | backingOut _ _ => exact ⟨_, _, _, _, rfl⟩
  | picked k idx =>
    rw [leaseWorker]
    split
    · exact ⟨_, _, _, _, rfl⟩
    · exact ⟨_, _, _, _, rfl⟩
  | registered k idx w =>
    rw [leaseWorker]
    split
    · exact ⟨_, _, _, _, rfl⟩
    · exact ⟨_, _, _, _, rfl⟩

/-- What `check_and_scale` begins. -/
theorem checkAndScale_cases (cfg : Config) (s : Pool) (load : Nat) :
    s.checkAndScale cfg load = s ∨
      ∃ cooldown m, (m = .unpublishing ∧ s.workers ≠ [] ∨ m = .reclaiming ∨ ∃ n, m = .adding n) ∧
        s.checkAndScale cfg load = { s with cooldown, monitor := m } := by
  rw [checkAndScale]
  split
  · exact .inl rfl
  · next hne =>
      refine .inr ?_
      split
      · exact ⟨_, _, .inr (.inr ⟨_, rfl⟩), rfl⟩
      · exact ⟨_, _, .inl ⟨rfl, hne⟩, rfl⟩
      · exact ⟨_, _, .inr (.inl rfl), rfl⟩

/-- What a step can do. -/
inductive Moves (cfg : Config) (s : Pool) : Action → Pool → Prop where
  | lease {t : Nat} {c : Call} (hc : s.calls[t]? = some c) : Moves cfg s (.lease t) (s.leaseWorker t c)
  | release {w : NodeId} (hw : w ∈ s.leases) :
      Moves cfg s (.release w)
        { s with live := Function.update s.live w (s.live w - 1), leases := s.leases.erase w }
  | enter {t : Nat} (ht : s.thieves[t]? = some .outside) :
      Moves cfg s (.enter t) ({ s with activeThieves := s.activeThieves + 1 }.setThief t .inside)
  | nothing {t idx : Nat} : Moves cfg s (.look t idx) s
  | look {t idx : Nat} {w : NodeId} (ht : s.thieves[t]? = some .inside)
      (hslot : s.slot idx = some w) : Moves cfg s (.look t idx) (s.setThief t (.probing w))
  | probe {t : Nat} {w : NodeId} (ht : s.thieves[t]? = some (.probing w)) :
      Moves cfg s (.probe t) (s.setThief t .inside)
  | leave {t : Nat} (ht : s.thieves[t]? = some .inside) :
      Moves cfg s (.leave t) ({ s with activeThieves := s.activeThieves - 1 }.setThief t .outside)
  | empty {load : Nat} : Moves cfg s (.check load) s
  | check {load cooldown : Nat} {m : Monitor} (hidle : s.monitor = .idle)
      (hm : m = .unpublishing ∧ s.workers ≠ [] ∨ m = .reclaiming ∨ ∃ n, m = .adding n) :
      Moves cfg s (.check load) { s with cooldown, monitor := m }
  | monitor : Moves cfg s .monitor (s.advance s.monitor)

/-- Every step is one of the moves. -/
theorem step_moves (h : step cfg s a = some s') : Moves cfg s a s' := by
  cases a with
  | lease t =>
    obtain ⟨c, hc, rfl⟩ := Option.map_eq_some_iff.mp h
    exact .lease hc
  | release w =>
    rw [step] at h
    split at h
    · next hw => exact Option.some.inj h ▸ .release hw
    · cases h
  | enter t =>
    rw [step] at h
    split at h
    · next ht => exact Option.some.inj h ▸ .enter ht
    · cases h
  | look t idx =>
    rw [step] at h
    split at h
    · next ht =>
        split at h
        · exact Option.some.inj h ▸ .nothing
        · next w hslot => exact Option.some.inj h ▸ .look ht hslot
    · cases h
  | probe t =>
    rw [step] at h
    split at h
    · next w ht => exact Option.some.inj h ▸ .probe ht
    · cases h
  | leave t =>
    rw [step] at h
    split at h
    · next ht => exact Option.some.inj h ▸ .leave ht
    · cases h
  | check load =>
    rw [step] at h
    split at h
    · next hidle =>
        obtain rfl := Option.some.inj h
        obtain hsame | ⟨cooldown, m, hm, heq⟩ := checkAndScale_cases cfg s load
        · rw [hsame]
          exact .empty
        · rw [heq]
          exact .check hidle hm
    · cases h
  | monitor =>
    rw [step] at h
    split at h
    · cases h
    · exact Option.some.inj h ▸ .monitor

/-- A move leaves every node in one place. -/
theorem Placed.moves (h : Placed s) (hmove : Moves cfg s a s') : Placed s' := by
  cases hmove with
  | lease hc =>
    rename_i t c
    obtain ⟨next, live, calls, leases, hsame⟩ := leaseWorker_same s t c
    rw [hsame]
    exact h.readers next s.activeThieves live calls s.thieves leases
  | release _ => exact h.readers s.nextWorkerIdx s.activeThieves _ s.calls s.thieves _
  | enter _ => exact h.readers s.nextWorkerIdx _ s.live s.calls _ s.leases
  | nothing => exact h
  | look _ _ => exact h.readers s.nextWorkerIdx s.activeThieves s.live s.calls _ s.leases
  | probe _ => exact h.readers s.nextWorkerIdx s.activeThieves s.live s.calls _ s.leases
  | leave _ => exact h.readers s.nextWorkerIdx _ s.live s.calls _ s.leases
  | empty => exact h
  | check hidle hm =>
    obtain ⟨rfl, hne⟩ | rfl | ⟨n, rfl⟩ := hm
    · exact h.phase .unpublishing hidle ⟨rfl, rfl, rfl⟩ (fun _ => hne) _ s.workerCount
    · exact h.phase .reclaiming hidle ⟨rfl, rfl, rfl⟩ nofun _ s.workerCount
    · exact h.phase (.adding n) hidle ⟨rfl, rfl, rfl⟩ nofun _ s.workerCount
  | monitor => exact h.advance

/-! ## The count of a node -/

theorem nextAttempt_idle (k : Nat) :
    node (nextAttempt k) = none ∧ ∀ w, reserves w (nextAttempt k) = false := by
  rw [nextAttempt]
  split
  · exact ⟨rfl, fun _ => rfl⟩
  · exact ⟨rfl, fun _ => rfl⟩

/-- A call goes on, on the same reservation if it has one. -/
theorem Counted.setCall (h : Counted s) (hc : s.calls[t]? = some c)
    (hsame : ∀ w, reserves w c' = reserves w c) : Counted (s.setCall t c') := by
  refine ⟨fun w => ?_, h.leased⟩
  have hset := countP_set_add (b := c') (reserves w) hc
  rw [hsame w] at hset
  show s.live w = (s.calls.set t c').countP (reserves w) + s.leases.count w
  rw [Nat.add_right_cancel hset]
  exact h.live w

/-- An access of a call. -/
theorem Counted.leaseWorker (h : Counted s) (hplaced : Placed s) (hc : s.calls[t]? = some c) :
    Counted (s.leaseWorker t c) := by
  cases c with
  | idle => exact h.setCall hc fun _ => rfl
  | attempt k =>
    refine h.setCall hc fun w => ?_
    split
    · rfl
    · rfl
  | counted k count =>
    exact Counted.setCall (s := { s with nextWorkerIdx := _ }) ⟨h.live, h.leased⟩ hc fun _ => rfl
  | picked k idx =>
    rw [Pool.leaseWorker]
    split
    · exact h.setCall hc (nextAttempt_idle k).2
    · exact h.setCall hc fun _ => rfl
  | loaded k idx v =>
    refine ⟨fun w => ?_, h.leased⟩
    -- the reservation is counted from here on
    have hset : (s.calls.set t (.registered k idx v)).countP (reserves w) + 0 =
        s.calls.countP (reserves w) + (if v == w then 1 else 0) := countP_set_add (reserves w) hc
    have hlive := h.live w
    show Function.update s.live v (s.live v + 1) w =
      (s.calls.set t (.registered k idx v)).countP (reserves w) + s.leases.count w
    by_cases hw : v = w
    · subst hw
      rw [if_pos (beq_self_eq_true v)] at hset
      rw [Function.update_self]
      omega
    · rw [if_neg (fun heq => hw (beq_iff_eq.mp heq))] at hset
      rw [Function.update_of_ne (Ne.symm hw)]
      omega
  | registered k idx v =>
    rw [Pool.leaseWorker]
    split
    · next hslot =>
        refine ⟨fun w => ?_, fun w hw => ?_⟩
        -- the lease takes the place of the reservation
        · have hset : (s.calls.set t .idle).countP (reserves w) + (if v == w then 1 else 0) =
              s.calls.countP (reserves w) + 0 := countP_set_add (reserves w) hc
          have hlive := h.live w
          show s.live w = (s.calls.set t .idle).countP (reserves w) + (v :: s.leases).count w
          rw [count_cons]
          by_cases hvw : v = w
          · rw [if_pos (beq_iff_eq.mpr hvw)] at hset
            rw [if_pos (beq_iff_eq.mpr hvw)]
            omega
          · rw [if_neg (fun heq => hvw (beq_iff_eq.mp heq))] at hset
            rw [if_neg (fun heq => hvw (beq_iff_eq.mp heq))]
            omega
        · obtain rfl | hold := mem_cons.mp hw
          · exact ⟨idx, hplaced.listed_of_slot hslot⟩
          · exact h.leased w hold
    · exact h.setCall hc fun _ => rfl
  | backingOut k v =>
    refine ⟨fun w => ?_, h.leased⟩
    have hset : (s.calls.set t (nextAttempt k)).countP (reserves w) + (if v == w then 1 else 0) =
        s.calls.countP (reserves w) + if reserves w (nextAttempt k) then 1 else 0 :=
      countP_set_add (reserves w) hc
    have hlive := h.live w
    rw [(nextAttempt_idle k).2 w] at hset
    show Function.update s.live v (s.live v - 1) w =
      (s.calls.set t (nextAttempt k)).countP (reserves w) + s.leases.count w
    by_cases hw : v = w
    · subst hw
      rw [if_pos (beq_self_eq_true v), if_neg Bool.false_ne_true] at hset
      rw [Function.update_self]
      omega
    · rw [if_neg (fun heq => hw (beq_iff_eq.mp heq)), if_neg Bool.false_ne_true] at hset
      rw [Function.update_of_ne (Ne.symm hw)]
      omega

/-- The end of a lease. -/
theorem Counted.release (h : Counted s) (hw : w ∈ s.leases) :
    Counted { s with live := Function.update s.live w (s.live w - 1), leases := s.leases.erase w } := by
  refine ⟨fun v => ?_, fun v hv => h.leased v (mem_of_mem_erase hv)⟩
  have hlive := h.live v
  show Function.update s.live w (s.live w - 1) v =
    s.calls.countP (reserves v) + (s.leases.erase w).count v
  by_cases hvw : v = w
  · subst hvw
    have hpos : 0 < s.leases.count v := count_pos_iff.mpr hw
    rw [Function.update_self, count_erase_self]
    omega
  · rw [Function.update_of_ne hvw, count_erase_of_ne hvw]
    exact hlive

/-- What an access of the monitor leaves alone. -/
theorem advance_same (s : Pool) (m : Monitor) :
    (s.advance m).live = s.live ∧ (s.advance m).calls = s.calls ∧
      (s.advance m).leases = s.leases ∧ (s.advance m).thieves = s.thieves ∧
      (s.advance m).activeThieves = s.activeThieves := by
  cases m with
  | idle | publishing _ _ | counting | recounting | decommissioning _ | reclaiming | clearing =>
    exact ⟨rfl, rfl, rfl, rfl, rfl⟩
  | unpublishing =>
    rw [Pool.advance, store_same]
    exact ⟨rfl, rfl, rfl, rfl, rfl⟩
  | restoring =>
    rw [Pool.advance, store_same]
    exact ⟨rfl, rfl, rfl, rfl, rfl⟩
  | adding left =>
    cases left with
    | zero => exact ⟨rfl, rfl, rfl, rfl, rfl⟩
    | succ left =>
      rw [Pool.advance]
      split
      · rw [store_same]
        exact ⟨rfl, rfl, rfl, rfl, rfl⟩
      · exact ⟨rfl, rfl, rfl, rfl, rfl⟩
  | looking =>
    rw [Pool.advance]
    split
    · exact ⟨rfl, rfl, rfl, rfl, rfl⟩
    · split
      · exact ⟨rfl, rfl, rfl, rfl, rfl⟩
      · exact ⟨rfl, rfl, rfl, rfl, rfl⟩

/-- A worker that something is live on stays where it is: the monitor takes away only a
    worker whose count it has seen at zero. -/
theorem advance_listed {i : Nat} (hv : (listed s)[i]? = some w) (hlive : s.live w ≠ 0) :
    (listed (s.advance s.monitor))[i]? = some w := by
  have hmore : ∀ {l : List NodeId} (v : NodeId), l[i]? = some w → (l ++ [v])[i]? = some w := by
    intro l v hl
    obtain ⟨hi, hget⟩ := List.getElem?_eq_some_iff.mp hl
    rw [getElem?_append_left hi, hl]
  rw [listed] at hv
  cases hm : s.monitor with
  | idle =>
    rw [Pool.advance, listed]
    exact hv
  | counting | recounting | decommissioning _ | clearing =>
    rw [hm] at hv
    exact hv
  | adding left =>
    rw [hm] at hv
    have hworkers : s.workers[i]? = some w := append_nil s.workers ▸ hv
    cases left with
    | zero => exact hv
    | succ left =>
      rw [Pool.advance]
      split
      · rw [store_same]
        exact hmore s.fresh hworkers
      · show ((s.workers ++ [s.fresh]) ++ [])[i]? = some w
        rw [append_nil]
        exact hmore s.fresh hworkers
  | publishing v left =>
    rw [hm] at hv
    show ((s.workers ++ [v]) ++ [])[i]? = some w
    rw [append_nil]
    exact hv
  | unpublishing =>
    rw [hm] at hv
    rw [Pool.advance, store_same]
    exact hv
  | restoring =>
    rw [hm] at hv
    rw [Pool.advance, store_same]
    exact hv
  | looking =>
    rw [hm] at hv
    have hworkers : s.workers[i]? = some w := append_nil s.workers ▸ hv
    rw [Pool.advance]
    split
    · rw [listed, hm]
      exact hv
    · next v hlast =>
        split
        · exact hv
        · next hzero =>
            obtain ⟨hi, -⟩ := List.getElem?_eq_some_iff.mp hworkers
            show (s.workers.dropLast ++ [])[i]? = some w
            rw [append_nil, getElem?_dropLast]
            split
            · exact hworkers
            · next hend =>
                -- the last one, which nothing is live on
                have heq : i = s.workers.length - 1 := by omega
                rw [getLast?_eq_getElem?, ← heq, hworkers] at hlast
                obtain rfl := Option.some.inj hlast
                exact absurd hlive hzero
  | reclaiming =>
    rw [hm] at hv
    rw [Pool.advance]
    split
    · exact hv
    · exact hv

/-- A leased node is live. -/
theorem Counted.live_pos (h : Counted s) (hw : w ∈ s.leases) : s.live w ≠ 0 := by
  have hpos : 0 < s.leases.count w := count_pos_iff.mpr hw
  have hlive := h.live w
  omega

/-- A move keeps the counts of the leases. -/
theorem Counted.moves (h : Counted s) (hplaced : Placed s) (hmove : Moves cfg s a s') :
    Counted s' := by
  cases hmove with
  | lease hc => exact h.leaseWorker hplaced hc
  | release hw => exact h.release hw
  | enter _ | look _ _ | probe _ | leave _ => exact ⟨h.live, h.leased⟩
  | nothing => exact h
  | empty => exact h
  | check hidle hm =>
    rename_i load cooldown m
    have hlisted : listed { s with cooldown, monitor := m } = listed s := by
      rw [listed, listed, hidle]
      obtain ⟨rfl, -⟩ | rfl | ⟨n, rfl⟩ := hm
      · rfl
      · rfl
      · rfl
    refine ⟨h.live, fun w hw => ?_⟩
    rw [hlisted]
    exact h.leased w hw
  | monitor =>
    obtain ⟨hlive, hcalls, hleases, -, -⟩ := advance_same s s.monitor
    refine ⟨fun w => ?_, fun w hw => ?_⟩
    · rw [hlive, hcalls, hleases]
      exact h.live w
    · rw [hleases] at hw
      obtain ⟨i, hi, hlisted⟩ := h.leased w hw
      exact ⟨i, hi, advance_listed hlisted (h.live_pos hw)⟩

/-! ## Thieves -/

/-- A thief goes on, in its scope as before or not. -/
theorem Watched.setThief (h : Watched s) {th th' : Thief} (ht : s.thieves[t]? = some th)
    (active : Nat)
    (hactive : active + (if th != .outside then 1 else 0) =
      s.activeThieves + (if th' != .outside then 1 else 0))
    (hprobing : ∀ w, th' = .probing w →
      w ∉ s.destroyed ∧ (s.monitor = .clearing → w ∉ s.retired)) :
    Watched ({ s with activeThieves := active }.setThief t th') := by
  constructor
  · have hset := countP_set_add (b := th') (· != .outside) ht
    have hcount := h.count
    show active = (s.thieves.set t th').countP (· != .outside)
    omega
  · intro w hw
    obtain hold | hnew := mem_or_eq_of_mem_set hw
    · exact h.probing w hold
    · exact hprobing w hnew.symm

/-- Without active thieves nobody has a pointer. -/
theorem Watched.nobody (h : Watched s) (hzero : s.activeThieves = 0) :
    .probing w ∉ s.thieves := by
  intro hmem
  have hpos : 0 < s.thieves.countP (· != .outside) := countP_pos_iff.mpr ⟨_, hmem, rfl⟩
  have hcount := h.count
  omega

/-- An access of the monitor destroys the retired nodes, or none; and it is about to do so
    only when it has seen no active thief. -/
theorem advance_destroyed (s : Pool) :
    (s.monitor = .clearing ∧ (s.advance s.monitor).destroyed = s.destroyed ++ s.retired ∧
        (s.advance s.monitor).monitor = .idle) ∨
      (s.monitor ≠ .clearing ∧ (s.advance s.monitor).destroyed = s.destroyed ∧
        ((s.advance s.monitor).monitor = .clearing →
          s.activeThieves = 0 ∧ (s.advance s.monitor).retired = s.retired)) := by
  cases hm : s.monitor with
  | clearing => exact .inl ⟨rfl, rfl, rfl⟩
  | idle => exact .inr ⟨nofun, rfl, fun h => nomatch hm.symm.trans h⟩
  | publishing _ _ | counting | recounting | decommissioning _ =>
    exact .inr ⟨nofun, rfl, nofun⟩
  | unpublishing =>
    rw [Pool.advance, store_same]
    exact .inr ⟨nofun, rfl, nofun⟩
  | restoring =>
    rw [Pool.advance, store_same]
    exact .inr ⟨nofun, rfl, nofun⟩
  | adding left =>
    refine .inr ⟨nofun, ?_⟩
    cases left with
    | zero => exact ⟨rfl, nofun⟩
    | succ left =>
      rw [Pool.advance]
      split
      · rw [store_same]
        exact ⟨rfl, nofun⟩
      · exact ⟨rfl, nofun⟩
  | looking =>
    refine .inr ⟨nofun, ?_⟩
    rw [Pool.advance]
    split
    · exact ⟨rfl, fun h => nomatch hm.symm.trans h⟩
    · split
      · exact ⟨rfl, nofun⟩
      · exact ⟨rfl, nofun⟩
  | reclaiming =>
    refine .inr ⟨nofun, rfl, fun h => ?_⟩
    change (if s.retired ≠ [] ∧ s.activeThieves = 0 then Monitor.clearing else .idle) = _ at h
    split at h
    · next hzero => exact ⟨hzero.2, rfl⟩
    · cases h

/-- A move keeps the thieves counted, and away from what is destroyed. -/
theorem Watched.moves (h : Watched s) (hplaced : Placed s) (hmove : Moves cfg s a s') :
    Watched s' := by
  cases hmove with
  | lease hc =>
    rename_i t c
    obtain ⟨next, live, calls, leases, hsame⟩ := leaseWorker_same s t c
    rw [hsame]
    exact ⟨h.count, h.probing⟩
  | release _ => exact ⟨h.count, h.probing⟩
  | enter ht => exact h.setThief ht _ rfl nofun
  | nothing => exact h
  | look ht hslot =>
    refine h.setThief ht s.activeThieves rfl ?_
    rintro w ⟨⟩
    obtain ⟨-, hlisted⟩ := hplaced.listed_of_slot hslot
    obtain ⟨hretired, hgone⟩ := hplaced.kept (mem_of_getElem? hlisted)
    exact ⟨hgone, fun _ => hretired⟩
  | probe ht => exact h.setThief ht s.activeThieves rfl nofun
  | leave ht =>
    have hpos : 0 < s.activeThieves := by
      rw [h.count]
      exact countP_pos_iff.mpr ⟨_, mem_of_getElem? ht, rfl⟩
    exact h.setThief ht _ (Nat.sub_add_cancel hpos) nofun
  | empty => exact h
  | check hidle hm =>
    refine ⟨h.count, fun w hw => ⟨(h.probing w hw).1, fun hclear => ?_⟩⟩
    obtain ⟨rfl, -⟩ | rfl | ⟨n, rfl⟩ := hm
    · cases hclear
    · cases hclear
    · cases hclear
  | monitor =>
    obtain ⟨-, -, -, hthieves, hactive⟩ := advance_same s s.monitor
    constructor
    · rw [hthieves, hactive]
      exact h.count
    · intro w hw
      rw [hthieves] at hw
      obtain ⟨hgone, hretired⟩ := h.probing w hw
      obtain ⟨hclearing, hdestroyed, hidle⟩ | ⟨-, hdestroyed, hclearing⟩ := advance_destroyed s
      · rw [hdestroyed, hidle]
        refine ⟨fun hmem => ?_, nofun⟩
        exact (mem_append.mp hmem).elim hgone (hretired hclearing)
      · rw [hdestroyed]
        refine ⟨hgone, fun hclear => ?_⟩
        exact absurd hw (h.nobody (hclearing hclear).1)

/-! ## Calls -/

/-- The pointer of a call after an access: none, the one before, or the one in a slot. -/
theorem leaseWorker_calls (s : Pool) (t : Nat) (c : Call) : ∃ c',
    (s.leaseWorker t c).calls = s.calls.set t c' ∧
      ∀ w ∈ node c', w ∈ node c ∨ ∃ idx, s.slot idx = some w := by
  have hnone : ∀ {k w}, w ∈ node (nextAttempt k) → False := by
    intro k w hw
    rw [(nextAttempt_idle k).1] at hw
    cases hw
  cases c with
  | idle => exact ⟨_, rfl, nofun⟩
  | attempt k =>
    refine ⟨_, rfl, fun w hw => ?_⟩
    split at hw
    · cases hw
    · cases hw
  | counted k count => exact ⟨_, rfl, nofun⟩
  | picked k idx =>
    rw [leaseWorker]
    split
    · exact ⟨_, rfl, fun w hw => (hnone hw).elim⟩
    · next v hslot =>
        refine ⟨_, rfl, fun w hw => .inr ⟨idx, ?_⟩⟩
        rw [hslot]
        exact hw
  | loaded k idx v => exact ⟨_, rfl, fun w hw => .inl hw⟩
  | registered k idx v =>
    rw [leaseWorker]
    split
    · exact ⟨_, rfl, nofun⟩
    · exact ⟨_, rfl, fun w hw => .inl hw⟩
  | backingOut k v => exact ⟨_, rfl, fun w hw => (hnone hw).elim⟩

/-- No move destroys a node that a call points to, when the retired ones are unheld. -/
theorem Pointed.moves (h : Pointed s) (hplaced : Placed s) (hunheld : Unheld s a)
    (hmove : Moves cfg s a s') : Pointed s' := by
  cases hmove with
  | lease hc =>
    rename_i t c
    obtain ⟨c', hcalls, hnode⟩ := leaseWorker_calls s t c
    obtain ⟨next, live, calls, leases, hsame⟩ := leaseWorker_same s t c
    have hdestroyed : (s.leaseWorker t c).destroyed = s.destroyed := by rw [hsame]
    intro d hd w hw
    rw [hcalls] at hd
    rw [hdestroyed]
    obtain hold | rfl := mem_or_eq_of_mem_set hd
    · exact h d hold w hw
    · obtain hbefore | ⟨idx, hslot⟩ := hnode w hw
      · exact h c (mem_of_getElem? hc) w hbefore
      · exact (hplaced.kept (mem_of_getElem? (hplaced.listed_of_slot hslot).2)).2
  | release _ | enter _ | nothing | look _ _ | probe _ | leave _ | empty | check _ _ => exact h
  | monitor =>
    obtain ⟨-, hcalls, -⟩ := advance_same s s.monitor
    intro d hd w hw
    rw [hcalls] at hd
    obtain ⟨hclearing, hdestroyed, -⟩ | ⟨-, hdestroyed, -⟩ := advance_destroyed s
    · rw [hdestroyed]
      intro hmem
      exact (mem_append.mp hmem).elim (h d hd w hw) (hunheld rfl hclearing d hd w hw)
    · rw [hdestroyed]
      exact h d hd w hw

/-! ## Runs -/

/-- The runs of a pool whose steps all meet a condition. -/
def runs (cfg : Config) (threads : Nat) (G : Pool → Action → Prop) : System Pool where
  init s := s = initial cfg threads
  next s s' := ∃ a, G s a ∧ step cfg s a = some s'

structure Sound (s : Pool) : Prop where
  placed : Placed s
  counted : Counted s
  watched : Watched s
  pointed : Pointed s

/-- A new pool is sound. -/
theorem sound_initial (cfg : Config) (threads : Nat) : Sound (initial cfg threads) := by
  have hidle : ∀ c ∈ (initial cfg threads).calls, c = .idle := fun c hc => eq_of_mem_replicate hc
  have houtside : ∀ th ∈ (initial cfg threads).thieves, th = .outside :=
    fun th hth => eq_of_mem_replicate hth
  refine ⟨⟨nodup_nil, nofun, fun i _ => ?_, nofun, nofun⟩, ⟨fun w => ?_, nofun⟩,
    ⟨?_, fun w hw => nomatch houtside _ hw⟩, fun c hc w hw => ?_⟩
  · exact (ite_self none).symm
  · refine (countP_eq_zero.mpr fun c hc => ?_).symm
    rw [hidle c hc]
    exact Bool.false_ne_true
  · refine (countP_eq_zero.mpr fun th hth => ?_).symm
    rw [houtside th hth]
    exact Bool.false_ne_true
  · rw [hidle c hc] at hw
    cases hw

/-- Every step keeps a pool sound. -/
theorem Sound.step (h : Sound s) (hunheld : Unheld s a) (hstep : step cfg s a = some s') :
    Sound s' := by
  have hmove := step_moves hstep
  exact ⟨h.placed.moves hmove, h.counted.moves h.placed hmove, h.watched.moves h.placed hmove,
    h.pointed.moves h.placed hunheld hmove⟩

/-- It is sound in every reachable state. -/
theorem reachable_sound {threads : Nat} (h : (runs cfg threads Unheld).Reachable s) : Sound s := by
  refine h.invariant ?_ ?_
  · rintro s rfl
    exact sound_initial cfg threads
  · rintro s s' ⟨a, hunheld, hstep⟩ hsound
    exact hsound.step hunheld hstep

/-! ## The protocol -/

/-- A leased worker is one of the pool, neither retired nor destroyed, and it is in its slot
    whenever the monitor is not looking at its count. -/
structure Kept (s : Pool) (w : NodeId) : Prop where
  worker : w ∈ listed s
  retiring : s.isRetiring w = false
  retired : w ∉ s.retired ∧ w ∉ s.destroyed
  published : (∃ idx, s.slot idx = some w) ∨
    underReview s.monitor = true ∧ s.workers.getLast? = some w

/-- What leasing and retiring have to keep up: every leased worker is kept, a lease is
    returned for a worker in its slot, and no access is to a node that is gone. -/
structure Protocol (cfg : Config) (s : Pool) : Prop where
  kept : ∀ w ∈ s.leases, Kept s w
  returns : ∀ a s' w, step cfg s a = some s' → returned s a = some w →
    w ∈ s'.leases ∧ ∃ idx, s'.slot idx = some w
  accesses : ∀ a s' w, step cfg s a = some s' → accessed s a = some w → w ∉ s.destroyed

/-- A leased node is there. -/
theorem Sound.kept (h : Sound s) (hw : w ∈ s.leases) : Kept s w := by
  obtain ⟨i, hi, hlisted⟩ := h.counted.leased w hw
  have hmem := mem_of_getElem? hlisted
  obtain ⟨hretired, hgone⟩ := h.placed.kept hmem
  refine ⟨hmem, ?_, ⟨hretired, hgone⟩, ?_⟩
  · refine Bool.eq_false_iff.mpr fun hretiring => ?_
    exact (mem_append.mp (h.placed.retiring w hretiring)).elim hretired hgone
  · have htable := h.placed.table i hi
    by_cases hreview : underReview s.monitor = true ∧ i + 1 = s.workers.length
    · refine .inr ⟨hreview.1, ?_⟩
      rw [getLast?_eq_getElem?, ← hreview.2, Nat.add_sub_cancel, ← hlisted, listed]
      exact (getElem?_append_left (by omega)).symm
    · refine .inl ⟨i, ?_⟩
      rw [slot, if_pos hi, htable, if_neg hreview, hlisted]

/-- The node that a lease returns is in the table. -/
theorem returned_published (hstep : step cfg s a = some s') (hret : returned s a = some w) :
    w ∈ s'.leases ∧ ∃ idx, s'.slot idx = some w := by
  cases a with
  | lease t =>
    obtain ⟨c, hc, rfl⟩ := Option.map_eq_some_iff.mp hstep
    rw [returned, hc] at hret
    split at hret
    · next k idx v hcall =>
        obtain rfl := Option.some.inj hcall
        split at hret
        · next hslot =>
            obtain rfl := Option.some.inj hret
            rw [leaseWorker, if_pos hslot]
            exact ⟨mem_cons_self .., idx, hslot⟩
        · cases hret
    · cases hret
  | release _ | enter _ | look _ _ | probe _ | leave _ | check _ | monitor => cases hret

/-- No step accesses a node that is destroyed. -/
theorem Sound.accesses (h : Sound s) (hacc : accessed s a = some w) : w ∉ s.destroyed := by
  have hcall : ∀ {t c}, s.calls[t]? = some c → node c = some w → w ∉ s.destroyed :=
    fun hc hnode => h.pointed _ (mem_of_getElem? hc) w hnode
  cases a with
  | lease t =>
    rw [accessed] at hacc
    split at hacc
    · next hc => exact hcall hc hacc
    · next hc =>
        split at hacc
        · exact hcall hc hacc
        · cases hacc
    · next hc => exact hcall hc hacc
    · cases hacc
  | probe t =>
    rw [accessed] at hacc
    split at hacc
    · next v ht =>
        obtain rfl := Option.some.inj hacc
        exact (h.watched.probing v (mem_of_getElem? ht)).1
    · cases hacc
  | release _ | enter _ | look _ _ | leave _ | check _ | monitor => cases hacc

/-- **Leasing and retiring keep to the protocol**, with any number of threads and in any
    order of the steps, as long as the retired nodes are not destroyed while a call has a
    pointer to one of them. -/
theorem lease_protocol {threads : Nat} (h : (runs cfg threads Unheld).Reachable s) :
    Protocol cfg s := by
  have hsound := reachable_sound h
  exact ⟨fun w hw => hsound.kept hw, fun a s' w hstep hret => returned_published hstep hret,
    fun a s' w _ hacc => hsound.accesses hacc⟩

/-- The condition asks for no more than it has to: where a call has a pointer to a node that
    is destroyed, its next access to a node is to that one. -/
theorem held_accessed (cfg : Config) (h : Sound s) (hm : s.monitor = .clearing)
    (hc : s.calls[t]? = some c) (hw : node c = some w) (hretired : w ∈ s.retired) :
    ∃ acts s', run cfg s (.monitor :: acts) = some s' ∧ accessed s' (.lease t) = some w ∧
      w ∈ s'.destroyed := by
  have hclear : ∀ acts, run cfg s (.monitor :: acts) = run cfg (s.advance .clearing) acts := by
    intro acts
    rw [run, step, if_neg (by rw [hm]; exact nofun), hm]
    rfl
  have hgone : w ∈ (s.advance .clearing).destroyed := mem_append_right _ hretired
  have hcall : (s.advance .clearing).calls[t]? = some c := hc
  cases c with
  | idle | attempt _ | counted _ _ | picked _ _ => cases hw
  | loaded k idx v =>
    refine ⟨[], s.advance .clearing, hclear [], ?_, hgone⟩
    rw [accessed, hcall]
    exact hw
  | backingOut k v =>
    refine ⟨[], s.advance .clearing, hclear [], ?_, hgone⟩
    rw [accessed, hcall]
    exact hw
  | registered k idx v =>
    obtain rfl := Option.some.inj hw
    have hslot : (s.advance .clearing).slot idx ≠ some v := by
      intro hslot
      have hlisted := mem_of_getElem? (h.placed.listed_of_slot hslot).2
      exact (h.placed.kept hlisted).1 hretired
    refine ⟨[.lease t], (s.advance .clearing).setCall t (.backingOut k v), ?_, ?_, hgone⟩
    · rw [hclear, run, step, hcall, Option.map_some, leaseWorker, if_neg hslot]
      rfl
    · have hset : ((s.advance .clearing).setCall t (.backingOut k v)).calls[t]? =
          some (.backingOut k v) :=
        getElem?_set_self (List.getElem?_eq_some_iff.mp hc).1
      rw [accessed, hset]

/-! ## A run -/

/-- A condition at every step of a run. -/
def Along (cfg : Config) (G : Pool → Action → Prop) : Pool → List Action → Prop
  | _, [] => True
  | s, a :: rest =>
      match step cfg s a with
      | none => True
      | some s' => G s a ∧ Along cfg G s' rest

instance Along.decidable (cfg : Config) (G : Pool → Action → Prop)
    [∀ s a, Decidable (G s a)] : (s : Pool) → (acts : List Action) → Decidable (Along cfg G s acts)
  | _, [] => .isTrue trivial
  | s, a :: rest =>
      match h : step cfg s a with
      | none => .isTrue (by rw [Along, h]; trivial)
      | some s' =>
          have := Along.decidable cfg G s' rest
          decidable_of_iff (G s a ∧ Along cfg G s' rest) (by rw [Along, h])

theorem run_reachable {threads : Nat} {G : Pool → Action → Prop} {acts : List Action}
    (hs : (runs cfg threads G).Reachable s) (hG : Along cfg G s acts)
    (hrun : run cfg s acts = some s') : (runs cfg threads G).Reachable s' := by
  induction acts generalizing s with
  | nil =>
    obtain rfl := Option.some.inj hrun
    exact hs
  | cons a rest ih =>
    obtain ⟨mid, hstep, hrest⟩ := Option.bind_eq_some_iff.mp hrun
    rw [Along, hstep] at hG
    obtain ⟨hGa, hGrest⟩ := hG
    obtain ⟨s₀, hinit, hto⟩ := hs
    exact ih ⟨s₀, hinit, hto.tail ⟨a, hGa, hstep⟩⟩ hGrest hrest

/-- One worker at least and four at most, and the thresholds of the constructor. -/
def smallPool : Config where
  minWorkers := 1
  maxWorkers := 4
  upperThresholds := [50, 50, 50]
  lowerThresholds := [10, 10, 10]

/-- The pool starts, grows to two workers, and the first is leased; three checks find little
    to do, and the second worker is retired and destroyed. -/
def leasedActions : List Action :=
  List.replicate 3 Action.monitor ++ [Action.check 51] ++ List.replicate 3 Action.monitor ++
    List.replicate 6 (Action.lease 0) ++
    [Action.check 0, Action.monitor, Action.check 0, Action.monitor, Action.check 0] ++
    List.replicate 6 Action.monitor

/-- One worker is leased while another is scaled down and destroyed. -/
theorem lease_protocol_leased : ∃ s, run smallPool (initial smallPool 1) leasedActions = some s ∧
    s.leases = [0] ∧ s.destroyed = [1] ∧ Kept s 0 := by
  have hrun : (run smallPool (initial smallPool 1) leasedActions).isSome = true := by decide
  obtain ⟨s, hs⟩ := Option.isSome_iff_exists.mp hrun
  have hstate : (run smallPool (initial smallPool 1) leasedActions).map
      (fun s => (s.leases, s.destroyed)) = some ([0], [1]) := by decide
  rw [hs, Option.map_some, Option.some.injEq, Prod.mk.injEq] at hstate
  have hreachable : (runs smallPool 1 Unheld).Reachable s :=
    run_reachable ⟨_, rfl, .refl⟩ (by decide) hs
  refine ⟨s, hs, hstate.1, hstate.2, (lease_protocol hreachable).kept 0 ?_⟩
  rw [hstate.1]
  exact mem_singleton_self 0

/-- The same, with a second call that has read the slot of the second worker before that is
    retired. -/
def staleActions : List Action :=
  List.replicate 3 Action.monitor ++ [Action.check 51] ++ List.replicate 3 Action.monitor ++
    List.replicate 10 (Action.lease 0) ++
    [Action.check 0, Action.monitor, Action.check 0, Action.monitor, Action.check 0] ++
    List.replicate 6 Action.monitor

/-- The call registers on the destroyed node. -/
theorem destroyed_node_accessed : ¬ ∀ cfg threads s,
    (runs cfg threads fun _ _ => True).Reachable s → Protocol cfg s := by
  intro h
  have hrun : (run smallPool (initial smallPool 1) staleActions).isSome = true := by decide
  obtain ⟨s, hs⟩ := Option.isSome_iff_exists.mp hrun
  have hstate : (run smallPool (initial smallPool 1) staleActions).map
      (fun s => (s.destroyed, accessed s (.lease 0), (step smallPool s (.lease 0)).isSome)) =
      some ([1], some 1, true) := by decide
  rw [hs, Option.map_some, Option.some.injEq, Prod.mk.injEq, Prod.mk.injEq] at hstate
  obtain ⟨hdestroyed, haccessed, hstep⟩ := hstate
  obtain ⟨s', hs'⟩ := Option.isSome_iff_exists.mp hstep
  have hreachable : (runs smallPool 1 fun _ _ => True).Reachable s :=
    run_reachable ⟨_, rfl, .refl⟩ (by decide) hs
  refine (h smallPool 1 s hreachable).accesses (.lease 0) s' 1 hs' haccessed ?_
  rw [hdestroyed]
  exact mem_singleton_self 1

end ThreadPoolLease
