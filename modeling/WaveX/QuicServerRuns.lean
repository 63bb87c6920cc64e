import Mathlib.Algebra.Group.Action.Defs
import Mathlib.Algebra.Order.BigOperators.Group.List
import WaveX.QuicCoalescing
import WaveX.QuicServer

/-! # Runs of the QUIC server

    In every run a datagram is only handed to a connection that its destination id names, and
    a closed connection leaves the table (`removed_unreachable`).  When the ids that the server
    draws are not in its table, every connection is found by its ids until its removal
    (`found_until_removed`), and `stop` closes all connections but at most one
    (`stop_closes`).  What the server answers by itself, and the connections it makes, are
    bounded by the large datagrams it got (`answers_bounded`). -/

namespace QuicServer

open QuicVarInt QuicPacket QuicCoalescing List

variable {E : Type*} {s s' : Server E}

/-! ## The table -/

/-- The entries of other connections stay. -/
theorem lookup_eraseOwned_ne {owner c : Nat} {table : Table} {k : ConnectionId} (key : ConnectionId)
    (h : table.lookup k = some c) (hne : c ≠ owner) :
    (eraseOwned owner table key).lookup k = some c := by
  rw [eraseOwned]
  split
  · exact h
  · split
    next howned =>
      have hk : k ≠ key := by
        rintro rfl
        exact hne (Option.some.inj (h.symm.trans howned))
      rw [AList.lookup_erase_ne hk]
      exact h
    next => exact h

/-- What is found after an erasure was found before; of the owner's ids only an empty one is left.
    -/
theorem lookup_of_eraseOwned {owner c : Nat} {table : Table} {k key : ConnectionId}
    (h : (eraseOwned owner table key).lookup k = some c) :
    table.lookup k = some c ∧ (c = owner → k = key → k.empty = true) := by
  rw [eraseOwned] at h
  split at h
  next hempty =>
    refine ⟨h, fun _ hk => ?_⟩
    rw [hk]
    exact hempty
  next =>
    split at h
    next =>
      have hk : k ≠ key := by
        rintro rfl
        rw [AList.lookup_erase] at h
        exact nomatch h
      rw [AList.lookup_erase_ne hk] at h
      exact ⟨h, fun _ heq => absurd heq hk⟩
    next howned =>
      refine ⟨h, fun hc hk => absurd ?_ howned⟩
      rw [← hk, ← hc]
      exact h

/-- The entries of other connections stay, however many ids are erased. -/
theorem lookup_foldl_eraseOwned_ne {owner c : Nat} {k : ConnectionId} (keys : List ConnectionId)
    {table : Table} (h : table.lookup k = some c) (hne : c ≠ owner) :
    (keys.foldl (eraseOwned owner) table).lookup k = some c := by
  induction keys generalizing table with
  | nil => exact h
  | cons key keys ih => exact ih (lookup_eraseOwned_ne key h hne)

/-- What the removals of a connection leave of it stands under the empty id. -/
theorem lookup_of_foldl_eraseOwned {owner c : Nat} {k : ConnectionId} {keys : List ConnectionId}
    {table : Table} (h : (keys.foldl (eraseOwned owner) table).lookup k = some c) :
    table.lookup k = some c ∧ (c = owner → k ∈ keys → k.empty = true) := by
  induction keys generalizing table with
  | nil => exact ⟨h, fun _ hk => absurd hk not_mem_nil⟩
  | cons key keys ih =>
    obtain ⟨hfirst, hrest⟩ := ih h
    obtain ⟨htable, hkey⟩ := lookup_of_eraseOwned hfirst
    refine ⟨htable, fun hc hk => ?_⟩
    rcases mem_cons.mp hk with heq | hmem
    · exact hkey hc heq
    · exact hrest hc hmem

section

variable (s) (sender : E) (hdr : PacketHeader) {serverCid : ConnectionId} {k : ConnectionId} {c : Nat}

/-- An entry of the table after a connection was made. -/
theorem lookup_accept (h : (s.accept sender hdr serverCid).connections.lookup k = some c) :
    c = s.made.length ∧ (k = serverCid ∨ k = hdr.dcid) ∨ s.connections.lookup k = some c := by
  have hserver (h : (s.connections.insert serverCid s.made.length).lookup k = some c) :
      c = s.made.length ∧ (k = serverCid ∨ k = hdr.dcid) ∨ s.connections.lookup k = some c := by
    by_cases hk : k = serverCid
    · subst hk
      rw [AList.lookup_insert] at h
      exact .inl ⟨(Option.some.inj h).symm, .inl rfl⟩
    · rw [AList.lookup_insert_ne hk] at h
      exact .inr h
  rw [Server.accept] at h
  dsimp only at h
  split at h
  next => exact hserver h
  next =>
    by_cases hk : k = hdr.dcid
    · subst hk
      rw [AList.lookup_insert] at h
      exact .inl ⟨(Option.some.inj h).symm, .inr rfl⟩
    · rw [AList.lookup_insert_ne hk] at h
      exact hserver h

/-- An entry stays when a connection is made under an id that is not in the table. -/
theorem lookup_accept_old (hfresh : serverCid ∉ s.connections)
    (h : s.connections.lookup k = some c) :
    (s.accept sender hdr serverCid).connections.lookup k = some c := by
  have hmem : k ∈ s.connections := by
    rw [← AList.lookup_isSome, h]
    rfl
  have hserver : (s.connections.insert serverCid s.made.length).lookup k = some c := by
    rw [AList.lookup_insert_ne (by rintro rfl; exact hfresh hmem)]
    exact h
  rw [Server.accept]
  dsimp only
  split
  next => exact hserver
  next hdcid =>
    rw [AList.lookup_insert_ne]
    · exact hserver
    · rintro rfl
      exact hdcid ((AList.mem_insert _).mpr (.inr hmem))

/-- A connection made for an id that is not in the table is found by both its ids. -/
theorem lookup_accept_new (hdcid : hdr.dcid ∉ s.connections) :
    (s.accept sender hdr serverCid).connections.lookup serverCid = some s.made.length ∧
      (s.accept sender hdr serverCid).connections.lookup hdr.dcid = some s.made.length := by
  rw [Server.accept]
  dsimp only
  split
  next hmem =>
    have heq : hdr.dcid = serverCid := ((AList.mem_insert _).mp hmem).resolve_right hdcid
    rw [heq]
    exact ⟨AList.lookup_insert _, AList.lookup_insert _⟩
  next hmem =>
    have hne : serverCid ≠ hdr.dcid := by
      intro heq
      exact hmem ((AList.mem_insert _).mpr (.inl heq.symm))
    refine ⟨?_, AList.lookup_insert _⟩
    rw [AList.lookup_insert_ne hne]
    exact AList.lookup_insert _

end

/-! ## What one step does -/

variable {datagram : Bytes}

/-- The four things the callback does with a datagram: it drops it, answers it, finds a
    connection for it, or makes one. -/
theorem route_cases {sender : E} {serverCid : ConnectionId}
    (h : s.route sender datagram serverCid = some s') :
    s' = { s with callback := .waiting } ∨
    (∃ hdr, s.unpack datagram = some hdr ∧ minInitialDatagramSize ≤ datagram.length ∧
      s' = { s with
        callback := .waiting, replies := s.replies ++ [(sender, versionNegotiation hdr)] }) ∨
    (∃ hdr c, s.unpack datagram = some hdr ∧ s.connections.lookup hdr.dcid = some c ∧
      s' = { s with callback := .routed c hdr datagram }) ∨
    (∃ hdr, s.unpack datagram = some hdr ∧ hdr.dcid ∉ s.connections ∧
      minInitialDatagramSize ≤ datagram.length ∧ hdr.isLong = true ∧ hdr.type = .initial ∧
      s' = { s.accept sender hdr serverCid with callback := .routed s.made.length hdr datagram }) := by
  rw [Server.route] at h
  split at h
  next => exact .inl (Option.some.inj h).symm
  next hdr hunpack =>
    split at h
    next => exact .inl (Option.some.inj h).symm
    next hsmall =>
      split at h
      next hunknown =>
        rw [hunknown, Bool.true_and, decide_eq_true_eq] at hsmall
        split at h
        next => exact .inl (Option.some.inj h).symm
        next =>
          exact .inr (.inl ⟨hdr, hunpack, Nat.le_of_not_lt hsmall, (Option.some.inj h).symm⟩)
      next =>
        split at h
        next c hfound =>
          exact .inr (.inr (.inl ⟨hdr, c, hunpack, hfound, (Option.some.inj h).symm⟩))
        next hmissing =>
          split at h
          next => exact .inl (Option.some.inj h).symm
          next hlarge =>
            split at h
            next hinitial =>
              split at h
              next =>
                rw [hinitial, Bool.true_and, decide_eq_true_eq] at hlarge
                obtain ⟨hlong, htype⟩ := Bool.and_eq_true_iff.mp hinitial
                exact .inr (.inr (.inr ⟨hdr, hunpack, AList.lookup_eq_none.mp hmissing,
                  Nat.le_of_not_lt hlarge, hlong, of_decide_eq_true htype,
                  (Option.some.inj h).symm⟩))
              next => exact nomatch h
            next => exact .inl (Option.some.inj h).symm

/-- A connection is closed once. -/
theorem close_cases (s : Server E) (c : Nat) :
    c ∈ s.closed ∧ s.close c = s ∨
    c ∉ s.closed ∧
      s.close c = { s with closed := s.closed ++ [c], removals := s.removals ++ [c] } := by
  by_cases hc : c ∈ s.closed
  · exact .inl ⟨hc, by rw [Server.close, if_pos hc]⟩
  · exact .inr ⟨hc, by rw [Server.close, if_neg hc]⟩

/-! ## In every run -/

/-- A connection has the id as one of its two. -/
def Named (made : List (Connection E)) (c : Nat) (k : ConnectionId) : Prop :=
  ∃ conn, made[c]? = some conn ∧ (k = conn.localCid ∨ k = conn.originalDcid)

/-- An id names a connection that was made. -/
theorem Named.lt {made : List (Connection E)} {c : Nat} {k : ConnectionId} (h : Named made c k) :
    c < made.length := by
  obtain ⟨conn, hc, -⟩ := h
  exact (List.getElem?_eq_some_iff.mp hc).1

/-- It names the same one when others are made. -/
theorem Named.append {made : List (Connection E)} {c : Nat} {k : ConnectionId}
    (h : Named made c k) (more : List (Connection E)) : Named (made ++ more) c k := by
  obtain ⟨conn, hc, hk⟩ := h
  refine ⟨conn, ?_, hk⟩
  rw [getElem?_append_left (List.getElem?_eq_some_iff.mp hc).1]
  exact hc

/-- The datagram has this header, and the header names the connection. -/
def Handed (made : List (Connection E)) (e : Delivery) : Prop :=
  Named made e.conn e.hdr.dcid ∧ ∃ len, unpackPacketHeader e.datagram len = some e.hdr

/-- What the callback holds is right. -/
def Callback.Right (made : List (Connection E)) : Callback E → Prop
  | .routed c hdr datagram => Handed made ⟨c, hdr, datagram⟩
  | _ => True

/-- What holds in every reachable state. -/
structure Inv (s : Server E) : Prop where
  named : ∀ k c, s.connections.lookup k = some c → Named s.made c k
  made : ∀ c ∈ s.closed, c < s.made.length
  once : s.closed.Nodup
  removals : ∀ c ∈ s.removals, c ∈ s.closed
  removalsOnce : s.removals.Nodup
  gone : s.stopped = false → ∀ c ∈ s.closed, c ∉ s.removals →
    ∀ k, s.connections.lookup k = some c → k.empty = true
  teardown : ∀ c ∈ s.teardown, c < s.made.length
  callback : s.callback.Right s.made
  delivered : ∀ e ∈ s.delivered, Handed s.made e

/-- Nothing is made, closed or handed over at first. -/
theorem inv_initial : Inv ({} : Server E) where
  named := fun _ _ h => nomatch h
  made := fun _ h => absurd h not_mem_nil
  once := .nil
  removals := fun _ h => absurd h not_mem_nil
  removalsOnce := .nil
  gone := fun _ _ h => absurd h not_mem_nil
  teardown := fun _ h => absurd h not_mem_nil
  callback := trivial
  delivered := fun _ h => absurd h not_mem_nil

/-- The header comes from `unpack_packet_header`. -/
theorem unpack_some {hdr : PacketHeader} (h : s.unpack datagram = some hdr) :
    ∃ len, unpackPacketHeader datagram len = some hdr := by
  rw [Server.unpack] at h
  split at h
  next => exact ⟨_, h⟩
  next => exact ⟨_, h⟩

/-- A new connection is entered under two ids. -/
theorem Inv.accept (h : Inv s) (sender : E) (hdr : PacketHeader) {serverCid : ConnectionId}
    (hunpack : s.unpack datagram = some hdr) :
    Inv { s.accept sender hdr serverCid with
      callback := .routed s.made.length hdr datagram } := by
  have hnew (k : ConnectionId) (hk : k = serverCid ∨ k = hdr.dcid) :
      Named (s.accept sender hdr serverCid).made s.made.length k := by
    refine ⟨_, getElem?_concat_length, ?_⟩
    exact hk
  have hlength : (s.accept sender hdr serverCid).made.length = s.made.length + 1 :=
    length_append
  constructor
  case named =>
    intro k c hc
    rcases lookup_accept s sender hdr hc with ⟨rfl, hk⟩ | hold
    · exact hnew k hk
    · exact (h.named k c hold).append _
  case made =>
    intro c hc
    have := h.made c hc
    dsimp only at hlength ⊢
    omega
  case once => exact h.once
  case removals => exact h.removals
  case removalsOnce => exact h.removalsOnce
  case gone =>
    intro hstop c hc hremoved k hk
    rcases lookup_accept s sender hdr hk with ⟨rfl, -⟩ | hold
    · exact absurd (h.made _ hc) (Nat.lt_irrefl _)
    · exact h.gone hstop c hc hremoved k hold
  case teardown =>
    intro c hc
    have := h.teardown c hc
    dsimp only at hlength ⊢
    omega
  case callback => exact ⟨hnew hdr.dcid (.inr rfl), unpack_some hunpack⟩
  case delivered =>
    intro e he
    obtain ⟨hnamed, hread⟩ := h.delivered e he
    exact ⟨hnamed.append _, hread⟩

/-- A datagram goes to the connection of its id, or to a new one. -/
theorem Inv.route (h : Inv s) {sender : E} {serverCid : ConnectionId}
    (hroute : s.route sender datagram serverCid = some s') : Inv s' := by
  rcases route_cases hroute with rfl | ⟨hdr, -, -, rfl⟩ | ⟨hdr, c, hunpack, hfound, rfl⟩ |
    ⟨hdr, hunpack, -, -, -, -, rfl⟩
  · exact { h with callback := trivial }
  · exact { h with callback := trivial }
  · exact { h with callback := ⟨h.named _ _ hfound, unpack_some hunpack⟩ }
  · exact h.accept sender hdr hunpack

theorem nodup_concat {l : List Nat} {c : Nat} (h : l.Nodup) (hc : c ∉ l) : (l ++ [c]).Nodup := by
  rw [← concat_eq_append]
  exact h.concat hc

/-- Closing a connection asks for its removal. -/
theorem Inv.close (h : Inv s) {c : Nat} (hmade : c < s.made.length) : Inv (s.close c) := by
  rcases close_cases s c with ⟨-, heq⟩ | ⟨hopen, heq⟩
  · rw [heq]
    exact h
  · rw [heq]
    refine { h with made := ?_, once := ?_, removals := ?_, removalsOnce := ?_, gone := ?_ }
    · intro d hd
      rcases mem_append.mp hd with hd | hd
      · exact h.made d hd
      · rw [mem_singleton.mp hd]
        exact hmade
    · exact nodup_concat h.once hopen
    · intro d hd
      exact (mem_append.mp hd).elim (fun hd => mem_append_left _ (h.removals d hd))
        (fun hd => mem_append_right _ hd)
    · exact nodup_concat h.removalsOnce fun hd => hopen (h.removals c hd)
    · intro hstop d hd hremoved
      rcases mem_append.mp hd with hold | hnew
      · exact h.gone hstop d hold fun hmem => hremoved (mem_append_left _ hmem)
      · exact absurd (mem_append_right _ hnew) hremoved

/-- The ids of a connection that is removed are gone from the table. -/
theorem Inv.remove (h : Inv s) {c : Nat} {conn : Connection E}
    (hconn : s.made[c]? = some conn) : Inv (s.remove c conn) := by
  have hremovals : ∀ d ∈ s.removals.erase c, d ∈ s.closed :=
    fun d hd => h.removals d (mem_of_mem_erase hd)
  have honce := h.removalsOnce.erase c
  rw [Server.remove]
  split
  next hstop =>
    refine { h with removals := hremovals, removalsOnce := honce, gone := ?_ }
    intro hrun
    exact absurd (hstop.symm.trans hrun) Bool.true_eq_false.mp
  next =>
    refine { h with named := ?_, removals := hremovals, removalsOnce := honce, gone := ?_ }
    · intro k d hd
      exact h.named k d (lookup_of_foldl_eraseOwned hd).1
    · intro hrun d hd hremoved k hk
      obtain ⟨hold, hown⟩ := lookup_of_foldl_eraseOwned hk
      by_cases hdc : d = c
      · refine hown hdc ?_
        obtain ⟨conn', hconn', hids⟩ := h.named k d hold
        rw [hdc, hconn] at hconn'
        cases hconn'
        rcases hids with rfl | rfl
        · exact mem_cons_self
        · exact mem_cons_of_mem _ (mem_cons_of_mem _ mem_cons_self)
      · refine h.gone hrun d hd (fun hmem => hremoved ?_) k hold
        exact (mem_erase_of_ne hdc).mpr hmem

/-- `stop` takes the table. -/
theorem Inv.stop (h : Inv s) : Inv s.stop := by
  rw [Server.stop]
  split
  next => exact h
  next =>
    refine { h with named := ?_, gone := ?_, teardown := ?_ }
    · intro k c hk
      exact nomatch hk
    · intro hrun
      exact nomatch hrun
    · intro c hc
      obtain ⟨⟨k, c⟩, hentry, rfl⟩ := mem_map.mp hc
      exact (h.named k c (AList.mem_lookup_iff.mpr hentry)).lt

/-- Every step keeps the invariant. -/
theorem Inv.step {a : Action E} (hstep : QuicServer.step s a = some s') (h : Inv s) : Inv s' := by
  cases a with
  | setConnectionIdLength len =>
    cases hstep
    exact { h with }
  | start =>
    rw [QuicServer.step] at hstep
    split at hstep
    · cases hstep
      exact h
    · split at hstep
      · exact nomatch hstep
      · cases hstep
        exact { h with }
  | datagram sender datagram =>
    rw [QuicServer.step] at hstep
    split at hstep
    · split at hstep
      · exact nomatch hstep
      · cases hstep
        exact { h with callback := trivial }
    · exact nomatch hstep
  | route serverCid =>
    rw [QuicServer.step] at hstep
    split at hstep
    · exact h.route hstep
    · exact nomatch hstep
  | deliver =>
    rw [QuicServer.step] at hstep
    split at hstep
    next c hdr datagram hcallback =>
      cases hstep
      refine { h with callback := trivial, delivered := ?_ }
      intro e he
      rcases mem_append.mp he with he | he
      · exact h.delivered e he
      -- it goes to the connection that the routing found
      · have hheld := h.callback
        rw [hcallback] at hheld
        rw [mem_singleton.mp he]
        exact hheld
    · exact nomatch hstep
  | close c =>
    rw [QuicServer.step] at hstep
    split at hstep
    next hc =>
      cases hstep
      exact h.close hc
    · exact nomatch hstep
  | remove c =>
    rw [QuicServer.step] at hstep
    split at hstep
    next =>
      obtain ⟨conn, hconn, rfl⟩ := Option.map_eq_some_iff.mp hstep
      exact h.remove hconn
    · exact nomatch hstep
  | stop =>
    cases hstep
    exact h.stop
  | tearDown =>
    rw [QuicServer.step] at hstep
    split at hstep
    next c rest hteardown =>
      cases hstep
      have hclosed := h.close (h.teardown c (by rw [hteardown]; exact mem_cons_self))
      refine { hclosed with teardown := ?_ }
      intro d hd
      have hmade : (s.close c).made = s.made := by
        rcases close_cases s c with ⟨-, heq⟩ | ⟨-, heq⟩ <;> rw [heq]
      dsimp only
      rw [hmade]
      exact h.teardown d (by rw [hteardown]; exact mem_cons_of_mem _ hd)
    · exact nomatch hstep

/-- It holds in every reachable state. -/
theorem reachable_inv (h : (servers E).Reachable s) : Inv s := by
  obtain ⟨s₀, as, rfl, hrun⟩ := Labelled.reachable_iff.mp h
  exact Labelled.run_invariant (I := Inv) (fun hstep hinv => Inv.step hstep hinv) hrun inv_initial

/-- A datagram is only handed to a connection when its destination id is the connection's own
    or the one that the connection's client first used. -/
theorem delivered_named (h : (servers E).Reachable s) :
    ∀ e ∈ s.delivered, Handed s.made e := (reachable_inv h).delivered

/-! ## What is left of closed connections -/

/-- A connection's removal is yet to run. -/
def Server.live (s : Server E) (c : Nat) : Bool := c ∉ s.closed || c ∈ s.removals

/-- The ids of a connection. -/
def Server.ids (s : Server E) (c : Nat) : List ConnectionId :=
  (s.made[c]?).toList.flatMap fun conn => [conn.localCid, conn.originalDcid]

/-- A connection has at most two ids. -/
theorem ids_length_le (s : Server E) (c : Nat) : (s.ids c).length ≤ 2 := by
  rw [Server.ids]
  cases s.made[c]? with
  | none => exact Nat.zero_le 2
  | some conn => exact Nat.le_refl 2

/-- An id that names a connection is one of its ids. -/
theorem Named.mem_ids {c : Nat} {k : ConnectionId} (h : Named s.made c k) : k ∈ s.ids c := by
  obtain ⟨conn, hconn, hk⟩ := h
  rw [Server.ids, hconn]
  rcases hk with rfl | rfl
  · exact mem_cons_self
  · exact mem_cons_of_mem _ mem_cons_self

theorem empty_iff {k : ConnectionId} : k.empty = true ↔ k = default := by
  obtain ⟨bytes, hbytes⟩ := k
  rw [ConnectionId.empty, List.isEmpty_iff]
  constructor
  · rintro rfl
    rfl
  · intro h
    exact congrArg ConnectionId.bytes h

/-- The table has at most two entries for each connection that is not removed, and one more. -/
theorem Inv.keys_length_le (h : Inv s) (hrun : s.stopped = false) :
    s.connections.keys.length ≤ 2 * (List.range s.made.length).countP s.live + 1 := by
  have hsub : s.connections.keys ⊆
      ((List.range s.made.length).filter s.live).flatMap s.ids ++ [default] := by
    intro k hk
    obtain ⟨c, hc⟩ := Option.isSome_iff_exists.mp (AList.lookup_isSome.mpr hk)
    have hnamed := h.named k c hc
    by_cases hempty : k.empty = true
    · exact mem_append_right _ (mem_singleton.mpr (empty_iff.mp hempty))
    · refine mem_append_left _ (mem_flatMap.mpr ⟨c, ?_, hnamed.mem_ids⟩)
      refine mem_filter.mpr ⟨mem_range.mpr hnamed.lt, ?_⟩
      rw [Server.live, Bool.or_eq_true, decide_eq_true_eq, decide_eq_true_eq]
      by_contra hdead
      push Not at hdead
      exact hempty (h.gone hrun c hdead.1 hdead.2 k hc)
  have hle := (s.connections.keys_nodup.subperm hsub).length_le
  have hsum := sum_le_card_nsmul
    (((List.range s.made.length).filter s.live).map fun c => (s.ids c).length) 2 (by
      intro n hn
      obtain ⟨c, -, rfl⟩ := mem_map.mp hn
      exact ids_length_le s c)
  rw [length_append, length_flatMap, length_singleton] at hle
  rw [length_map, ← countP_eq_length_filter, smul_eq_mul, Nat.mul_comm] at hsum
  omega

/-- A connection is closed once, and after its removal it is in the table at most under the
    empty id, which a client may have sent its first packet to; so the table does not grow with
    the connections that are gone. -/
theorem removed_unreachable (h : (servers E).Reachable s) :
    s.closed.Nodup ∧ (s.stopped = false →
      (∀ c ∈ s.closed, c ∉ s.removals → ∀ k, s.connections.lookup k = some c → k.empty = true) ∧
      s.connections.keys.length ≤ 2 * (List.range s.made.length).countP s.live + 1) :=
  ⟨(reachable_inv h).once,
    fun hrun => ⟨(reachable_inv h).gone hrun, (reachable_inv h).keys_length_le hrun⟩⟩

/-! ## When the ids drawn are new -/

/-- The id that the server draws is not in its table. -/
def Fresh (s : Server E) (a : Action E) : Prop :=
  ∀ serverCid, a = .route serverCid → serverCid ∉ s.connections

def Callback.isReceived : Callback E → Bool
  | .received _ _ => true
  | _ => false

/-- In this schedule the callback made the connection `c` when `stop` had taken the table. -/
def MadeAfterStop (as : List (Action E)) (c : Nat) : Prop :=
  ∃ front serverCid back s₁ s₂, as = front ++ .route serverCid :: back ∧
    Labelled.run step {} front = some s₁ ∧ step s₁ (.route serverCid) = some s₂ ∧
    s₁.stopped = true ∧ s₁.made.length = c ∧ s₂.made.length = c + 1

/-- A connection stays one that was made after the stop. -/
theorem MadeAfterStop.append {as : List (Action E)} {c : Nat} (h : MadeAfterStop as c)
    (bs : List (Action E)) : MadeAfterStop (as ++ bs) c := by
  obtain ⟨front, serverCid, back, s₁, s₂, rfl, hmade⟩ := h
  exact ⟨front, serverCid, back ++ bs, s₁, s₂, append_assoc _ _ _, hmade⟩

/-- What holds besides when the ids drawn are new: every connection is found until its removal,
    and once the server has stopped, every connection is closed or about to be, but for one that
    is known to be late. -/
structure Found (Late : Nat → Prop) (s : Server E) : Prop where
  found : s.stopped = false → ∀ c conn, s.made[c]? = some conn → s.live c = true →
    s.connections.lookup conn.localCid = some c ∧ s.connections.lookup conn.originalDcid = some c
  stop : s.stopped = true → ∃ late : Option Nat,
    (s.callback.isReceived = true → late = none) ∧ (∀ c, late = some c → Late c) ∧
    ∀ c < s.made.length, c ∈ s.closed ∨ c ∈ s.teardown ∨ late = some c

variable {Late : Nat → Prop}

/-- Nothing is made at first. -/
theorem found_initial : Found Late ({} : Server E) where
  found := fun _ _ _ h => nomatch h
  stop := fun h => nomatch h

/-- More connections may be known to be late. -/
theorem Found.mono {Late' : Nat → Prop} (h : Found Late s) (hlate : ∀ c, Late c → Late' c) :
    Found Late' s where
  found := h.found
  stop := by
    intro hstop
    obtain ⟨late, hnone, hknown, hall⟩ := h.stop hstop
    exact ⟨late, hnone, fun c hc => hlate c (hknown c hc), hall⟩

/-- The callback moves on without making a connection. -/
theorem Found.quiet (h : Found Late s) (callback : Callback E) (replies : List (E × Bytes))
    (delivered : List Delivery) (hquiet : callback.isReceived = false) :
    Found Late { s with callback, replies, delivered } where
  found := h.found
  stop := by
    intro hstop
    obtain ⟨late, -, hknown, hall⟩ := h.stop hstop
    exact ⟨late, fun hreceived => absurd (hquiet.symm.trans hreceived) Bool.false_ne_true, hknown,
      hall⟩

/-- The callback makes a connection, late if the server has stopped. -/
theorem Found.accept (h : Found Late s) {sender : E} {hdr : PacketHeader} {serverCid : ConnectionId}
    (hfresh : serverCid ∉ s.connections) (hdcid : hdr.dcid ∉ s.connections)
    (hreceived : s.callback.isReceived = true) (hmade : s.stopped = true → Late s.made.length) :
    Found Late { s.accept sender hdr serverCid with
      callback := .routed s.made.length hdr datagram } where
  found := by
    intro hrun c conn hconn hlive
    rcases Nat.lt_or_ge c s.made.length with hlt | hge
    · have hold : s.made[c]? = some conn := (getElem?_append_left hlt).symm.trans hconn
      obtain ⟨hlocal, horiginal⟩ := h.found hrun c conn hold hlive
      exact ⟨lookup_accept_old s sender hdr hfresh hlocal,
        lookup_accept_old s sender hdr hfresh horiginal⟩
    · have hc : c = s.made.length := by
        have hbound := (List.getElem?_eq_some_iff.mp hconn).1
        have hlength : (s.accept sender hdr serverCid).made.length = s.made.length + 1 :=
          length_append
        dsimp only at hbound hlength
        omega
      subst hc
      cases (getElem?_concat_length.symm.trans hconn)
      exact lookup_accept_new s sender hdr hdcid
  stop := by
    intro hstop
    obtain ⟨late, hlate, -, hall⟩ := h.stop hstop
    refine ⟨some s.made.length, (fun hreceived => nomatch hreceived),
      fun c hc => Option.some.inj hc ▸ hmade hstop, fun c hc => ?_⟩
    have hlength : (s.accept sender hdr serverCid).made.length = s.made.length + 1 :=
      length_append
    rcases Nat.lt_or_ge c s.made.length with hlt | hge
    · rcases hall c hlt with hclosed | hteardown | heq
      · exact .inl hclosed
      · exact .inr (.inl hteardown)
      · rw [hlate hreceived] at heq
        exact nomatch heq
    · refine .inr (.inr (congrArg some ?_))
      dsimp only at hc hlength
      omega

/-- A connection that is closed stays in the table until its removal. -/
theorem Found.close (h : Found Late s) {c : Nat} : Found Late (s.close c) := by
  rcases close_cases s c with ⟨-, heq⟩ | ⟨hopen, heq⟩
  · rw [heq]
    exact h
  · rw [heq]
    constructor
    case found =>
      intro hrun d conn hconn hlive
      refine h.found hrun d conn hconn ?_
      rw [Server.live, Bool.or_eq_true, decide_eq_true_eq, decide_eq_true_eq] at hlive ⊢
      rcases hlive with hnot | hremoval
      · exact .inl fun hd => hnot (mem_append_left _ hd)
      · rcases mem_append.mp hremoval with hold | hnew
        · exact .inr hold
        · rw [mem_singleton.mp hnew]
          exact .inl hopen
    case stop =>
      intro hstop
      obtain ⟨late, hlate, hknown, hall⟩ := h.stop hstop
      refine ⟨late, hlate, hknown, fun d hd => ?_⟩
      exact (hall d hd).imp_left (mem_append_left _)

/-- Only what was closed is removed. -/
theorem Found.remove (h : Found Late s) (hinv : Inv s) {c : Nat} {conn : Connection E}
    (hc : c ∈ s.removals) : Found Late (s.remove c conn) := by
  rw [Server.remove]
  split
  next hstop =>
    constructor
    case found =>
      intro hrun
      exact absurd (hstop.symm.trans hrun) Bool.true_eq_false.mp
    case stop => exact h.stop
  next =>
    constructor
    case stop => exact h.stop
    case found =>
      intro hrun d conn' hconn' hlive
      rw [Server.live, Bool.or_eq_true, decide_eq_true_eq, decide_eq_true_eq] at hlive
      -- the connection removed is not the one in question
      have hdc : d ≠ c := by
        rintro rfl
        rcases hlive with hnot | hremoval
        · exact hnot (hinv.removals _ hc)
        · exact hinv.removalsOnce.not_mem_erase hremoval
      have hold : s.live d = true := by
        rw [Server.live, Bool.or_eq_true, decide_eq_true_eq, decide_eq_true_eq]
        exact hlive.imp_right mem_of_mem_erase
      obtain ⟨hlocal, horiginal⟩ := h.found hrun d conn' hconn' hold
      exact ⟨lookup_foldl_eraseOwned_ne _ hlocal hdc, lookup_foldl_eraseOwned_ne _ horiginal hdc⟩

/-- `stop` takes all connections that are not closed from the table. -/
theorem Found.stopped (h : Found Late s) : Found Late s.stop := by
  rw [Server.stop]
  split
  next => exact h
  next hrun =>
    rw [Bool.not_eq_true] at hrun
    constructor
    case found => exact fun hstop => nomatch hstop
    case stop =>
      refine fun _ => ⟨none, fun _ => rfl, (fun _ hnone => nomatch hnone), fun c hc => ?_⟩
      by_cases hclosed : c ∈ s.closed
      · exact .inl hclosed
      · have hlive : s.live c = true := by
          rw [Server.live, decide_eq_true hclosed, Bool.true_or]
        obtain ⟨hlocal, -⟩ := h.found hrun c _ (getElem?_eq_getElem hc) hlive
        exact .inr (.inl (mem_map.mpr ⟨_, AList.mem_lookup_iff.mp hlocal, rfl⟩))

/-- A step keeps what is found; a connection that it makes after the stop is late. -/
theorem Found.step {a : Action E} (hfresh : Fresh s a) (hstep : QuicServer.step s a = some s')
    (hlate : ∀ serverCid, a = .route serverCid → s.stopped = true →
      s'.made.length = s.made.length + 1 → Late s.made.length)
    (h : Found Late s) (hinv : Inv s) : Found Late s' := by
  cases a with
  | setConnectionIdLength len =>
    cases hstep
    exact ⟨h.found, h.stop⟩
  | start =>
    rw [QuicServer.step] at hstep
    split at hstep
    · cases hstep
      exact h
    · split at hstep
      · exact nomatch hstep
      · cases hstep
        exact ⟨h.found, h.stop⟩
  | datagram sender datagram =>
    rw [QuicServer.step] at hstep
    split at hstep
    · split at hstep
      · exact nomatch hstep
      next hguard =>
        cases hstep
        refine ⟨h.found, fun hstop => absurd ?_ hguard⟩
        -- a stopped server takes no datagram
        dsimp only at hstop
        rw [hstop, Bool.or_true, Bool.true_or]
    · exact nomatch hstep
  | route serverCid =>
    rw [QuicServer.step] at hstep
    split at hstep
    next hcallback =>
      rcases route_cases hstep with rfl | ⟨hdr, -, -, rfl⟩ | ⟨hdr, c, -, -, rfl⟩ |
        ⟨hdr, -, hdcid, -, -, -, rfl⟩
      · exact h.quiet _ _ _ rfl
      · exact h.quiet _ _ _ rfl
      · exact h.quiet _ _ _ rfl
      · exact h.accept (hfresh serverCid rfl) hdcid (by rw [hcallback]; rfl)
          fun hstop => hlate serverCid rfl hstop length_append
    · exact nomatch hstep
  | deliver =>
    rw [QuicServer.step] at hstep
    split at hstep
    · cases hstep
      exact h.quiet _ _ _ rfl
    · exact nomatch hstep
  | close c =>
    rw [QuicServer.step] at hstep
    split at hstep
    · cases hstep
      exact h.close
    · exact nomatch hstep
  | remove c =>
    rw [QuicServer.step] at hstep
    split at hstep
    next hc =>
      obtain ⟨conn, -, rfl⟩ := Option.map_eq_some_iff.mp hstep
      exact h.remove hinv hc
    · exact nomatch hstep
  | stop =>
    cases hstep
    exact h.stopped
  | tearDown =>
    rw [QuicServer.step] at hstep
    split at hstep
    next c rest hteardown =>
      cases hstep
      -- the first connection of the list is closed, and leaves the list
      have hclosed : Found Late (s.close c) := h.close
      have hmem : c ∈ (s.close c).closed := by
        rcases close_cases s c with ⟨hold, heq⟩ | ⟨-, heq⟩
        · rw [heq]
          exact hold
        · rw [heq]
          exact mem_append_right _ (mem_singleton.mpr rfl)
      have hleft : (s.close c).teardown = c :: rest := by
        rw [← hteardown]
        rcases close_cases s c with ⟨-, heq⟩ | ⟨-, heq⟩ <;> rw [heq]
      refine ⟨hclosed.found, fun hstop => ?_⟩
      obtain ⟨late, hnone, hknown, hall⟩ := hclosed.stop hstop
      refine ⟨late, hnone, hknown, fun d hd => ?_⟩
      rcases hall d hd with hd | hd | hd
      · exact .inl hd
      · rw [hleft] at hd
        rcases mem_cons.mp hd with rfl | hd
        · exact .inl hmem
        · exact .inr (.inl hd)
      · exact .inr (.inr hd)
    · exact nomatch hstep

/-- The late connections of a run are those that the callback made after the stop. -/
theorem fresh_found {as : List (Action E)} (hfresh : Labelled.Along step Fresh {} as)
    (hrun : Labelled.run step {} as = some s) : Found (MadeAfterStop as) s := by
  have hstart : Found (MadeAfterStop ([] : List (Action E))) ({} : Server E) ∧ Inv ({} : Server E) :=
    ⟨found_initial, inv_initial⟩
  refine (Labelled.run_history_along (I := fun as s => Found (MadeAfterStop as) s ∧ Inv s) ?_
    (rfl : Labelled.run step _ [] = _) hfresh hrun hstart).1
  intro front s a s' hfront hgood hstep hinv
  have hbefore := hinv.1.mono fun c hc => hc.append [a]
  refine ⟨hbefore.step hgood hstep ?_ hinv.2, Inv.step hstep hinv.2⟩
  rintro serverCid rfl hstop hmade
  exact ⟨front, serverCid, [], s, s', rfl, hfront, hstep, hstop, rfl, hmade⟩

/-- Until its removal a connection is found by each of its two ids, whatever else was made,
    closed or removed meanwhile. -/
theorem found_until_removed {as : List (Action E)} (hfresh : Labelled.Along step Fresh {} as)
    (hrun : Labelled.run step {} as = some s) (hstop : s.stopped = false) {c : Nat}
    {conn : Connection E} (hconn : s.made[c]? = some conn) (hlive : s.live c = true)
    {sender : E} {datagram : Bytes} {hdr : PacketHeader} (hread : s.unpack datagram = some hdr)
    (hversion : unknownVersion hdr = false)
    (hid : hdr.dcid = conn.localCid ∨ hdr.dcid = conn.originalDcid) (serverCid : ConnectionId) :
    s.route sender datagram serverCid = some { s with callback := .routed c hdr datagram } := by
  obtain ⟨hlocal, horiginal⟩ := (fresh_found hfresh hrun).found hstop c conn hconn hlive
  have hlookup : s.connections.lookup hdr.dcid = some c := by
    rcases hid with h | h
    · rw [h]
      exact hlocal
    · rw [h]
      exact horiginal
  rw [Server.route, hread]
  dsimp only
  rw [hversion, Bool.false_and, if_neg Bool.false_ne_true, if_neg Bool.false_ne_true, hlookup]

/-- When `stop` has closed what it took from the table, at most one connection is left open:
    one that the callback made after that, for a datagram it was at work on. -/
theorem stop_closes {as : List (Action E)} (hfresh : Labelled.Along step Fresh {} as)
    (hrun : Labelled.run step {} as = some s) (hstop : s.stopped = true)
    (hdone : s.teardown = []) :
    ∃ late : Option Nat, (∀ c, late = some c → MadeAfterStop as c) ∧
      ∀ c < s.made.length, c ∉ s.closed → late = some c := by
  obtain ⟨late, -, hknown, hall⟩ := (fresh_found hfresh hrun).stop hstop
  refine ⟨late, hknown, fun c hc hopen => ?_⟩
  rcases hall c hc with h | h | h
  · exact absurd h hopen
  · rw [hdone] at h
    exact absurd h not_mem_nil
  · exact h

/-! ## What large datagrams pay for -/

section

variable [DecidableEq E]

/-- The bytes of the datagrams from, or to, an endpoint. -/
def bytesOf (e : E) (log : List (E × Bytes)) : Nat :=
  ((log.filter fun m => m.1 = e).map fun m => m.2.length).sum

/-- Datagrams of at most so many bytes each. -/
theorem bytesOf_le {n : Nat} {log : List (E × Bytes)} (e : E) (h : ∀ m ∈ log, m.2.length ≤ n) :
    bytesOf e log ≤ n * log.countP fun m => m.1 = e := by
  induction log with
  | nil => exact Nat.zero_le _
  | cons m log ih =>
    have hrest := ih fun m' hm' => h m' (mem_cons_of_mem _ hm')
    have hm := h m mem_cons_self
    rw [bytesOf] at hrest ⊢
    by_cases he : m.1 = e
    · rw [filter_cons_of_pos (by simp [he]), countP_cons_of_pos (by simp [he]),
        map_cons, sum_cons, Nat.mul_add]
      omega
    · rw [filter_cons_of_neg (by simp [he]), countP_cons_of_neg (by simp [he])]
      exact hrest

/-- Datagrams of at least so many bytes each. -/
theorem le_bytesOf (n : Nat) (e : E) (log : List (E × Bytes)) :
    n * (log.countP fun m => m.1 = e && n ≤ m.2.length) ≤ bytesOf e log := by
  induction log with
  | nil => exact Nat.le_refl 0
  | cons m log ih =>
    rw [bytesOf] at ih ⊢
    by_cases he : m.1 = e
    · rw [filter_cons_of_pos (by simp [he]), map_cons, sum_cons]
      by_cases hn : n ≤ m.2.length
      · rw [countP_cons_of_pos (by simp [he, hn]), Nat.mul_add]
        omega
      · rw [countP_cons_of_neg (by simp [hn])]
        omega
    · rw [filter_cons_of_neg (by simp [he]), countP_cons_of_neg (by simp [he])]
      exact ih

/-- A datagram that a client's first packet can come in. -/
def large (datagram : Bytes) : Bool := minInitialDatagramSize ≤ datagram.length

/-- The large datagram from an endpoint that the callback is at work on. -/
def Callback.pending (e : E) : Callback E → Nat
  | .received sender datagram => if sender = e && large datagram then 1 else 0
  | _ => 0

end

/-- A reply answers a large datagram from the endpoint it goes to. -/
def Answers (received : List (E × Bytes)) (reply : E × Bytes) : Prop :=
  ∃ datagram len hdr, (reply.1, datagram) ∈ received ∧
    minInitialDatagramSize ≤ datagram.length ∧
    unpackPacketHeader datagram len = some hdr ∧ reply.2 = versionNegotiation hdr

/-- What the server has sent by itself and made, against what it has received. -/
structure Accounts [DecidableEq E] (s : Server E) : Prop where
  held : ∀ sender datagram, s.callback = .received sender datagram →
    (sender, datagram) ∈ s.received
  answers : ∀ r ∈ s.replies, Answers s.received r
  count : ∀ e, (s.replies.countP fun r => r.1 = e) +
      (s.made.countP fun conn => conn.peerEndpoint = e) + s.callback.pending e ≤
    s.received.countP fun m => m.1 = e && large m.2

section

variable [DecidableEq E]

/-- Nothing has been received or answered at first. -/
theorem accounts_initial : Accounts ({} : Server E) where
  held := fun _ _ h => nomatch h
  answers := fun _ h => absurd h not_mem_nil
  count := fun _ => Nat.le_refl 0

/-- The callback moves on without a reply or a connection. -/
theorem Accounts.quiet (h : Accounts s) (callback : Callback E)
    (hquiet : callback.isReceived = false) : Accounts { s with callback } where
  held := by
    rintro sender datagram rfl
    exact nomatch hquiet
  answers := h.answers
  count := by
    intro e
    have hzero : callback.pending e = 0 := by
      cases callback with
      | received sender datagram => exact nomatch hquiet
      | waiting => rfl
      | routed c hdr datagram => rfl
    have hle := h.count e
    dsimp only
    omega

/-- What the callback holds is one large datagram of its sender. -/
theorem pending_received {sender : E} (hlarge : minInitialDatagramSize ≤ datagram.length) (e : E) :
    (Callback.received sender datagram).pending e = if sender = e then 1 else 0 := by
  rw [Callback.pending, large, decide_eq_true hlarge, Bool.and_true]
  by_cases he : sender = e
  · rw [if_pos he, if_pos (decide_eq_true he)]
  · rw [if_neg he, if_neg (by rwa [decide_eq_true_eq])]

/-- What goes out is paid for by the datagram that is routed. -/
theorem Accounts.route (h : Accounts s) {sender : E} {serverCid : ConnectionId}
    (hcallback : s.callback = .received sender datagram)
    (hroute : s.route sender datagram serverCid = some s') : Accounts s' := by
  rcases route_cases hroute with rfl | ⟨hdr, hread, hlarge, rfl⟩ | ⟨hdr, c, -, -, rfl⟩ |
    ⟨hdr, -, -, hlarge, -, -, rfl⟩
  · exact h.quiet _ rfl
  · constructor
    case held => exact fun _ _ hheld => nomatch hheld
    case answers =>
      intro r hr
      rcases mem_append.mp hr with hr | hr
      · exact h.answers r hr
      · obtain ⟨len, hread⟩ := unpack_some hread
        rw [mem_singleton.mp hr]
        exact ⟨datagram, len, hdr, h.held _ _ hcallback, hlarge, hread, rfl⟩
    case count =>
      intro e
      have hle := h.count e
      rw [hcallback, pending_received hlarge] at hle
      dsimp only
      rw [countP_append, countP_singleton]
      simp only [decide_eq_true_eq, Callback.pending]
      omega
  · exact h.quiet _ rfl
  · constructor
    case held => exact fun _ _ hheld => nomatch hheld
    case answers => exact h.answers
    case count =>
      intro e
      have hle := h.count e
      rw [hcallback, pending_received hlarge] at hle
      dsimp only [Server.accept]
      rw [countP_append, countP_singleton]
      simp only [decide_eq_true_eq, Callback.pending]
      omega

/-- Every step keeps the accounts. -/
theorem Accounts.step {a : Action E} (hstep : QuicServer.step s a = some s') (h : Accounts s) :
    Accounts s' := by
  cases a with
  | setConnectionIdLength len =>
    cases hstep
    exact { h with }
  | start =>
    rw [QuicServer.step] at hstep
    split at hstep
    · cases hstep
      exact h
    · split at hstep
      · exact nomatch hstep
      · cases hstep
        exact { h with }
  | datagram sender datagram =>
    rw [QuicServer.step] at hstep
    split at hstep
    next hcallback =>
      split at hstep
      · exact nomatch hstep
      · cases hstep
        constructor
        case held =>
          rintro _ _ heq
          cases heq
          exact mem_append_right _ (mem_singleton.mpr rfl)
        case answers =>
          intro r hr
          obtain ⟨d, len, hdr, hmem, hrest⟩ := h.answers r hr
          exact ⟨d, len, hdr, mem_append_left _ hmem, hrest⟩
        case count =>
          intro e
          -- the datagram that is now held may be answered once
          have hle := h.count e
          rw [hcallback] at hle
          dsimp only
          rw [countP_append, countP_singleton]
          simp only [Callback.pending] at hle ⊢
          omega
    · exact nomatch hstep
  | route serverCid =>
    rw [QuicServer.step] at hstep
    split at hstep
    next hcallback => exact h.route hcallback hstep
    · exact nomatch hstep
  | deliver =>
    rw [QuicServer.step] at hstep
    split at hstep
    · cases hstep
      exact { h.quiet .waiting rfl with }
    · exact nomatch hstep
  | close c =>
    rw [QuicServer.step] at hstep
    split at hstep
    · cases hstep
      rcases close_cases s c with ⟨-, heq⟩ | ⟨-, heq⟩
      · rw [heq]
        exact h
      · rw [heq]
        exact { h with }
    · exact nomatch hstep
  | remove c =>
    rw [QuicServer.step] at hstep
    split at hstep
    · obtain ⟨conn, -, rfl⟩ := Option.map_eq_some_iff.mp hstep
      rw [Server.remove]
      split
      · exact { h with }
      · exact { h with }
    · exact nomatch hstep
  | stop =>
    cases hstep
    rw [Server.stop]
    split
    · exact h
    · exact { h with }
  | tearDown =>
    rw [QuicServer.step] at hstep
    split at hstep
    next c rest _ =>
      cases hstep
      rcases close_cases s c with ⟨-, heq⟩ | ⟨-, heq⟩
      · rw [heq]
        exact { h with }
      · rw [heq]
        exact { h with }
    · exact nomatch hstep

/-- They are right in every reachable state. -/
theorem reachable_accounts (h : (servers E).Reachable s) : Accounts s := by
  obtain ⟨s₀, as, rfl, hrun⟩ := Labelled.reachable_iff.mp h
  exact Labelled.run_invariant (I := Accounts) (fun hstep hinv => hinv.step hstep) hrun
    accounts_initial

/-- A Version Negotiation packet is small. -/
theorem versionNegotiation_length (hdr : PacketHeader) : (versionNegotiation hdr).length ≤ 51 := by
  have hdcid : hdr.dcid.bytes.length ≤ 20 := hdr.dcid.length_le
  have hscid : hdr.scid.bytes.length ≤ 20 := hdr.scid.length_le
  simp only [versionNegotiation, length_append, length_cons, length_nil]
  omega

/-- For every endpoint: the replies to it and the connections made for it are no more than the
    large datagrams from it, and 1200 bytes from it pay for 51 bytes of replies. -/
theorem answers_bounded (h : (servers E).Reachable s) (e : E) :
    (s.replies.countP fun r => r.1 = e) + (s.made.countP fun conn => conn.peerEndpoint = e) ≤
        (s.received.countP fun m => m.1 = e && large m.2) ∧
      1200 * bytesOf e s.replies ≤ 51 * bytesOf e s.received := by
  have haccounts := reachable_accounts h
  have hcount := haccounts.count e
  have hreplies : bytesOf e s.replies ≤ 51 * s.replies.countP fun r => r.1 = e := by
    refine bytesOf_le e fun r hr => ?_
    obtain ⟨-, -, hdr, -, -, -, hreply⟩ := haccounts.answers r hr
    rw [hreply]
    exact versionNegotiation_length hdr
  have hreceived : 1200 * (s.received.countP fun m => m.1 = e && large m.2) ≤
      bytesOf e s.received := le_bytesOf 1200 e s.received
  constructor
  · omega
  · omega

/-- The header that a Version Negotiation packet is packed like. -/
def replyHeader (hdr : PacketHeader) : PacketHeader :=
  { version := 0, dcid := hdr.scid, scid := hdr.dcid, type := .initial, packetNumberLen := 1 }

/-- It is a long header with the ids swapped and the version 1 behind it. -/
theorem versionNegotiation_packed (hdr : PacketHeader) :
    versionNegotiation hdr =
      longFirst (replyHeader hdr) :: (longBody (replyHeader hdr) ++ [0, 1]) := by
  have hfirst : longFirst (replyHeader hdr) = UInt8.ofNat (0x80 ||| 0x40) := by
    simp only [longFirst, replyHeader, PacketType.code]
    decide
  have hzero (i : Nat) : byteAt 0 i = 0 := by
    rw [byteAt, Nat.zero_shiftRight]
    rfl
  have hencode : encode 0 = [0] := by decide
  rw [hfirst]
  simp only [versionNegotiation, longBody, replyHeader, hzero, hencode, if_true,
    length_nil, append_assoc, cons_append, nil_append]

/-- A Version Negotiation packet is read as a long header of version 0 with the two ids
    exchanged. -/
theorem unpack_versionNegotiation (hdr : PacketHeader) (len : Nat) :
    ∃ hdr', unpackPacketHeader (versionNegotiation hdr) len = some hdr' ∧ hdr'.isLong = true ∧
      hdr'.version = 0 ∧ hdr'.dcid = hdr.scid ∧ hdr'.scid = hdr.dcid := by
  have hzero : (0 : Nat) < 2 ^ 62 := by decide
  have hversion : beNat [byteAt 0 3, byteAt 0 2, byteAt 0 1, byteAt 0 0] = 0 := by decide
  have hread := unpackPacketHeader_packed (m := replyHeader hdr) rfl rfl hzero hzero [0, 1] len
  rw [← versionNegotiation_packed] at hread
  exact ⟨_, hread, rfl, hversion, rfl, rfl⟩

/-- Every reply answers a large datagram from the endpoint it goes to, and is read there as
    version 0 with the ids of that datagram exchanged. -/
theorem replies_read (h : (servers E).Reachable s) :
    ∀ r ∈ s.replies, ∃ datagram len hdr hdr', (r.1, datagram) ∈ s.received ∧
      minInitialDatagramSize ≤ datagram.length ∧ unpackPacketHeader datagram len = some hdr ∧
      unpackPacketHeader r.2 len = some hdr' ∧ hdr'.isLong = true ∧ hdr'.version = 0 ∧
      hdr'.dcid = hdr.scid ∧ hdr'.scid = hdr.dcid := by
  intro r hr
  obtain ⟨datagram, len, hdr, hmem, hlarge, hread, hreply⟩ := (reachable_accounts h).answers r hr
  obtain ⟨hdr', hread', hrest⟩ := unpack_versionNegotiation hdr len
  rw [← hreply] at hread'
  exact ⟨datagram, len, hdr, hdr', hmem, hlarge, hread, hread', hrest⟩

end

/-! ## One client -/

/-- The header of a client's first packet. -/
def firstHeader (version : Nat) : PacketHeader :=
  { length := 1200, version, dcid := .ofBytes [1, 2, 3, 4, 5, 6, 7, 8], scid := .ofBytes [9],
    type := .initial, packetNumberLen := 1, isLong := true }

/-- A datagram with a client's first packet. -/
def firstDatagram (version : Nat) : Bytes :=
  longFirst (firstHeader version) ::
    (longBody (firstHeader version) ++ List.replicate 1200 0)

/-- The header that the server reads of it. -/
def readHeader (version : Nat) : PacketHeader :=
  { firstHeader version with pnOffset := (firstDatagram version).length - 1200 }

theorem firstDatagram_large (version : Nat) :
    minInitialDatagramSize ≤ (firstDatagram version).length := by
  rw [firstDatagram, length_cons, length_append, length_replicate,
    minInitialDatagramSize]
  omega

theorem unpack_firstDatagram (s : Server E) {version : Nat}
    (hversion : beNat [byteAt version 3, byteAt version 2, byteAt version 1, byteAt version 0] =
      version) :
    s.unpack (firstDatagram version) = some (readHeader version) := by
  have hlong : ((firstDatagram version).headD 0).toNat &&& 0x80 != 0 := by
    show (longFirst (firstHeader 0)).toNat &&& 0x80 != 0
    decide
  have hnumber : ((longFirst (firstHeader version)).toNat &&& 0x03) + 1 = 1 := by
    show ((longFirst (firstHeader 0)).toNat &&& 0x03) + 1 = 1
    decide
  have hzero : beNat ((List.replicate 1200 0).take 1) = 0 := by
    rw [take_replicate]
    rfl
  have hread := unpackPacketHeader_packed (m := firstHeader version) rfl rfl
    (show (0 : Nat) < 2 ^ 62 by decide) (show 1200 < 2 ^ 62 by decide) (List.replicate 1200 0) 8
  rw [hnumber, length_replicate, hzero] at hread
  rw [Server.unpack, if_pos hlong, firstDatagram, hread, readHeader, firstDatagram]
  refine congrArg some ?_
  simp only [firstHeader] at hversion ⊢
  rw [hversion, ite_self, ite_self]

/-- A client's first packet to an id that is not in the table makes a connection. -/
theorem route_first {sender : E} {hdr : PacketHeader} {serverCid : ConnectionId}
    (hread : s.unpack datagram = some hdr) (hversion : unknownVersion hdr = false)
    (hdcid : hdr.dcid ∉ s.connections) (hfirst : hdr.isLong = true ∧ hdr.type = .initial)
    (hlarge : minInitialDatagramSize ≤ datagram.length)
    (hlength : serverCid.length = s.serverCidLen) :
    s.route sender datagram serverCid = some
      { s.accept sender hdr serverCid with callback := .routed s.made.length hdr datagram } := by
  rw [Server.route, hread]
  dsimp only
  rw [hversion, Bool.false_and, if_neg Bool.false_ne_true, if_neg Bool.false_ne_true,
    AList.lookup_eq_none.mpr hdcid]
  dsimp only
  rw [hfirst.1, hfirst.2, decide_eq_true rfl, Bool.and_self, Bool.true_and,
    decide_eq_false (Nat.not_lt.mpr hlarge), if_neg Bool.false_ne_true, if_pos rfl, if_pos hlength]

/-- The id that the server draws for the client. -/
def firstCid : ConnectionId := .ofBytes [21, 22, 23, 24, 25, 26, 27, 28]

/-- A server that has taken a first datagram from client 5. -/
def taken (version : Nat) : Server Nat :=
  { running := true, callback := .received 5 (firstDatagram version),
    received := [(5, firstDatagram version)] }

/-- The server once it has a connection for client 5. -/
def connected : Server Nat :=
  { (taken 1).accept 5 (readHeader 1) firstCid with
    callback := .routed 0 (readHeader 1) (firstDatagram 1) }

/-- The server once it has answered the unknown version 5. -/
def answered : Server Nat :=
  { taken 5 with callback := .waiting, replies := [(5, versionNegotiation (readHeader 5))] }

/-- The first datagram makes a connection. -/
theorem route_connected : (taken 1).route 5 (firstDatagram 1) firstCid = some connected :=
  route_first (unpack_firstDatagram _ (by decide)) rfl (AList.notMem_empty _) ⟨rfl, rfl⟩
    (firstDatagram_large 1) rfl

/-- A version that the server does not know is answered. -/
theorem route_answered : (taken 5).route 5 (firstDatagram 5) firstCid = some answered := by
  rw [Server.route, unpack_firstDatagram _ (by decide)]
  dsimp only
  rw [show unknownVersion (readHeader 5) = true from rfl, Bool.true_and,
    decide_eq_false (Nat.not_lt.mpr (firstDatagram_large 5)), if_neg Bool.false_ne_true, if_pos rfl]
  rfl

/-- A run that starts with the client's first datagram. -/
theorem run_first {version : Nat} {t t' : Server Nat} {as : List (Action Nat)}
    (hroute : (taken version).route 5 (firstDatagram version) firstCid = some t)
    (hrun : Labelled.run step t as = some t') :
    Labelled.run step {} (.start :: .datagram 5 (firstDatagram version) :: .route firstCid :: as) =
      some t' :=
  Labelled.run_cons.mpr ⟨{ running := true }, rfl, Labelled.run_cons.mpr
    ⟨taken version, rfl, Labelled.run_cons.mpr ⟨t, hroute, hrun⟩⟩⟩

theorem fresh_first (as : List (Action Nat)) (has : ∀ a ∈ as, ∀ cid, a ≠ .route cid) :
    Labelled.Along step Fresh {}
      (.start :: .datagram 5 (firstDatagram 1) :: .route firstCid :: as) := by
  have hrest (t : Server Nat) : Labelled.Along step Fresh t as := by
    induction as generalizing t with
    | nil => trivial
    | cons a as ih =>
      refine ⟨fun cid ha => absurd ha (has a mem_cons_self cid), fun t' _ => ?_⟩
      exact ih (fun b hb => has b (mem_cons_of_mem _ hb)) t'
  refine Labelled.along_cons (t := { running := true }) (fun _ ha => nomatch ha) rfl ?_
  refine Labelled.along_cons (t := taken 1) (fun _ ha => nomatch ha) rfl ?_
  exact Labelled.along_cons (fun _ _ => AList.notMem_empty _) route_connected (hrest _)

theorem reachable_first {version : Nat} {t t' : Server Nat} (as : List (Action Nat))
    (hroute : (taken version).route 5 (firstDatagram version) firstCid = some t)
    (hrun : Labelled.run step t as = some t') : (servers Nat).Reachable t' :=
  Labelled.reachable_iff.mpr ⟨{}, _, rfl, run_first hroute hrun⟩

/-- The first datagram is handed to its connection. -/
theorem delivered_named_first :
    Handed connected.made ⟨0, readHeader 1, firstDatagram 1⟩ :=
  delivered_named (reachable_first [.deliver] route_connected rfl) _ mem_cons_self

/-- The server when its connection was closed and removed. -/
def removed : Server Nat :=
  (connected.close 0).remove 0
    { localCid := firstCid, peerCid := (readHeader 1).scid, peerEndpoint := 5,
      originalDcid := (readHeader 1).dcid }

/-- The connection is closed, its removal has run, and nothing finds it. -/
theorem removed_unreachable_first :
    removed.closed.Nodup ∧ (removed.stopped = false →
      (∀ c ∈ removed.closed, c ∉ removed.removals →
        ∀ k, removed.connections.lookup k = some c → k.empty = true) ∧
      removed.connections.keys.length ≤
        2 * (List.range removed.made.length).countP removed.live + 1) :=
  removed_unreachable (reachable_first [.close 0, .remove 0] route_connected rfl)

/-- A second datagram finds the connection of the first. -/
theorem found_until_removed_first :
    connected.route 5 (firstDatagram 1) firstCid =
      some { connected with callback := .routed 0 (readHeader 1) (firstDatagram 1) } := by
  have hconn : connected.made[0]? = some
      { localCid := firstCid, peerCid := (readHeader 1).scid, peerEndpoint := 5,
        originalDcid := (readHeader 1).dcid } := rfl
  have hlive : connected.live 0 = true := rfl
  have hknown : unknownVersion (readHeader 1) = false := rfl
  exact found_until_removed (fresh_first [] (fun _ h => absurd h not_mem_nil))
    (run_first route_connected rfl) rfl hconn hlive (unpack_firstDatagram _ (by decide)) hknown
    (.inr rfl) firstCid

/-- A server that stopped when its callback was past the checks. -/
def stoppedEarly : Server Nat := (taken 1).stop

/-- It makes a connection all the same. -/
def lateConnected : Server Nat :=
  { stoppedEarly.accept 5 (readHeader 1) firstCid with
    callback := .routed 0 (readHeader 1) (firstDatagram 1) }

/-- `stop` comes before the routing of the first datagram. -/
theorem stop_closes_first : 0 < lateConnected.made.length ∧ 0 ∉ lateConnected.closed ∧
    MadeAfterStop [.start, .datagram 5 (firstDatagram 1), .stop, .route firstCid] 0 := by
  have hroute : stoppedEarly.route 5 (firstDatagram 1) firstCid = some lateConnected :=
    route_first (unpack_firstDatagram _ (by decide)) rfl (AList.notMem_empty _) ⟨rfl, rfl⟩
      (firstDatagram_large 1) rfl
  have hrun : Labelled.run step {} [.start, .datagram 5 (firstDatagram 1), .stop, .route firstCid] =
      some lateConnected :=
    Labelled.run_cons.mpr ⟨{ running := true }, rfl, Labelled.run_cons.mpr
      ⟨taken 1, rfl, Labelled.run_cons.mpr ⟨stoppedEarly, rfl, Labelled.run_cons.mpr
        ⟨lateConnected, hroute, rfl⟩⟩⟩⟩
  have hfresh : Labelled.Along step Fresh {}
      [.start, .datagram 5 (firstDatagram 1), .stop, .route firstCid] := by
    refine Labelled.along_cons (t := { running := true }) (fun _ ha => nomatch ha) rfl ?_
    refine Labelled.along_cons (t := taken 1) (fun _ ha => nomatch ha) rfl ?_
    refine Labelled.along_cons (t := stoppedEarly) (fun _ ha => nomatch ha) rfl ?_
    exact Labelled.along_cons (fun _ _ => AList.notMem_empty _) hroute trivial
  obtain ⟨late, hmade, hopen⟩ := stop_closes hfresh hrun rfl rfl
  have hlate := hopen 0 Nat.one_pos not_mem_nil
  exact ⟨Nat.one_pos, not_mem_nil, hmade 0 hlate⟩

/-- One large datagram was received, and one answer went out. -/
theorem answers_bounded_first :
    (answered.replies.countP fun r => r.1 = 5) +
        (answered.made.countP fun conn => conn.peerEndpoint = 5) ≤
        (answered.received.countP fun m => m.1 = 5 && large m.2) ∧
      1200 * bytesOf 5 answered.replies ≤ 51 * bytesOf 5 answered.received :=
  answers_bounded (reachable_first [] route_answered rfl) 5

/-- The answer to the first datagram, read back. -/
theorem replies_read_first :
    ∃ datagram len hdr hdr', (5, datagram) ∈ answered.received ∧
      minInitialDatagramSize ≤ datagram.length ∧ unpackPacketHeader datagram len = some hdr ∧
      unpackPacketHeader (versionNegotiation (readHeader 5)) len = some hdr' ∧
      hdr'.isLong = true ∧ hdr'.version = 0 ∧ hdr'.dcid = hdr.scid ∧ hdr'.scid = hdr.dcid :=
  replies_read (reachable_first [] route_answered rfl) _ mem_cons_self
end QuicServer
