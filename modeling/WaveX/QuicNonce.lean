import WaveX.QuicReceiveSimulation

/-! # Nonce uniqueness

    The AEAD nonce of a packet is the IV of its key with the packet number mixed
    in, so a packet number must not come twice under one key.  Every sending path
    takes its number from `allocate_next_pn` and seals at most once with it.  In
    TLS mode the key level is fixed by the packet-number space, so the pairs of key
    and packet number of all `protect_packet` calls are distinct, across key
    updates as well (`nonces_nodup`).  In mock mode it is not so: 1-RTT packets
    fall back to the Initial keys and two spaces share one key. -/

namespace QuicNonce

open QuicPacket QuicState QuicRuns QuicLedger QuicSimulation

/-- The key (level and generation) and packet number of a `protect_packet` call. -/
def nonceOf : Event → Option (KeySlot × Nat × Nat)
  | .sealed slot gen pn => some (slot, gen, pn)
  | _ => none

/-- The nonces used so far. -/
def nonces (events : List Event) : List (KeySlot × Nat × Nat) := events.filterMap nonceOf

/-- Each key level belongs to one packet-number space. -/
theorem ofSpace_injective : Function.Injective KeySlot.ofSpace := by
  intro sp sp' h
  cases sp <;> cases sp' <;> first
    | rfl
    | exact nomatch h

/-- The nonces are distinct, and all below the next packet number of their
    space. -/
structure Spent (l : Ledger) : Prop where
  nodup : (nonces l.trace).Nodup
  below : ∀ slot gen pn, (slot, gen, pn) ∈ nonces l.trace →
    ∃ sp, slot = KeySlot.ofSpace sp ∧ pn < l.nextPacketNumber sp

variable {faulty : Prop} {config : Config} {l l' : Ledger}

/-- Events that seal nothing use no nonce. -/
theorem nonces_append {later past : List Event} (h : ∀ e ∈ later, nonceOf e = none) :
    nonces (later ++ past) = nonces past := by
  rw [nonces, List.filterMap_append, List.filterMap_eq_nil_iff.mpr h, List.nil_append]
  rfl

/-- A packet number that is used up stays above the nonces. -/
theorem Spent.bump (h : Spent l) (sp : PnSpace) : Spent (l.bump sp) := by
  refine ⟨h.nodup, ?_⟩
  intro slot gen pn hmem
  obtain ⟨sp', hslot, hlt⟩ := h.below slot gen pn hmem
  refine ⟨sp', hslot, ?_⟩
  show pn < Function.update l.nextPacketNumber sp (l.nextPacketNumber sp + 1) sp'
  by_cases heq : sp' = sp
  · subst heq
    rw [Function.update_self]
    exact Nat.lt_succ_of_lt hlt
  · rw [Function.update_of_ne heq]
    exact hlt

theorem Spent.step (h : Step faulty l l') (htls : l.config.tlsInitialized = true)
    (hs : Spent l) : Spent l' := by
  cases h with
  | skip sp => exact hs.bump sp
  | sealNext sp slot gen hslot =>
      have hbump := hs.bump sp
      have hslot := hslot htls
      refine ⟨?_, ?_⟩
      · show ((slot, gen, l.nextPacketNumber sp) :: nonces l.trace).Nodup
        refine List.nodup_cons.mpr ⟨?_, hs.nodup⟩
        intro hmem
        obtain ⟨sp', hslot', hlt⟩ := hs.below _ _ _ hmem
        -- the level fixes the space, and there the number is not below itself
        rw [hslot] at hslot'
        rw [← ofSpace_injective hslot'] at hlt
        exact absurd hlt (Nat.lt_irrefl _)
      · intro slot' gen' pn' hmem
        rcases List.mem_cons.mp hmem with heq | hmem
        · cases heq
          refine ⟨sp, hslot, ?_⟩
          show l.nextPacketNumber sp
            < Function.update l.nextPacketNumber sp (l.nextPacketNumber sp + 1) sp
          rw [Function.update_self]
          exact Nat.lt_succ_self _
        · exact hbump.below slot' gen' pn' hmem
  | lose sp lost _ _ =>
      have heq : nonces (lostEvents sp ((l.sentPackets sp).filter lost) ++ l.trace)
          = nonces l.trace := nonces_append (forall_lostEvents (fun _ _ => rfl))
      exact ⟨heq ▸ hs.nodup, heq ▸ hs.below⟩
  | deliver =>
      have heq : nonces (deliveredEvents l ++ l.trace) = nonces l.trace :=
        nonces_append (forall_deliveredEvents (fun _ => rfl))
      exact ⟨heq ▸ hs.nodup, heq ▸ hs.below⟩
  | _ => exact ⟨hs.nodup, hs.below⟩

/-- In TLS mode every reachable ledger has distinct nonces. -/
theorem spent_of_reachable (htls : config.tlsInitialized = true)
    (h : (machine faulty config).Reachable l) : Spent l := by
  have hinv : Spent l ∧ l.config = config := by
    refine h.invariant (I := fun l => Spent l ∧ l.config = config) ?_ ?_
    · rintro _ ⟨r, rfl⟩
      exact ⟨⟨List.nodup_nil, fun _ _ _ h => absurd h List.not_mem_nil⟩, rfl⟩
    · rintro l l' ((hstep | hclose) | hcall) ⟨hs, hc⟩
      · exact ⟨hs.step hstep (hc ▸ htls), hstep.config_eq.trans hc⟩
      · cases hclose
        exact ⟨⟨hs.nodup, hs.below⟩, hc⟩
      · cases hcall <;> exact ⟨⟨hs.nodup, hs.below⟩, hc⟩
  exact hinv.1

/-- In TLS mode no two `protect_packet` calls of a run use the same key and the
    same packet number. -/
theorem nonces_nodup {K : Type} {env : Env K} {start : Start} {s : QuicConnection K}
    (htls : start.tls = true) (h : Reachable env start s) : (nonces s.trace).Nodup := by
  have hconfig : start.config.tlsInitialized = true := htls
  exact (spent_of_reachable hconfig (reachable_view env h)).nodup

/-- A handshake, stream data before and after a key update, and a close. -/
theorem nonces_nodup_key_update :
    let s := (sampleServer true).after (sampleEnv sampleTls)
      (sampleHandshake ++ [.createStream true, .writeOutbound 3 [97] false, .initiateKeyUpdate,
        .writeOutbound 3 [98] false, .close 0 []])
    (nonces s.trace).length = 10 ∧ (nonces s.trace).Nodup := by
  refine ⟨by decide, ?_⟩
  exact nonces_nodup rfl (Start.after_reachable (sampleEnv sampleTls) (sampleServer true) _)

/-- Mock mode: an Initial response and a 1-RTT packet share key and number. -/
example : ¬(nonces ((sampleServer false).after (sampleEnv fun _ => {})
    [.handleDatagram (samplePacket .initial 0 [1]), .createStream true,
      .writeOutbound 0 [97] false]).trace).Nodup := by
  decide

end QuicNonce
