import WaveX.QuicKeys

/-! # Key updates between two connections

    Two connections in the 1-RTT phase that exchange packets over two FIFO channels.
    A traffic key is a direction and a generation, and a packet opens exactly under
    the key that sealed it.  What the parties do with their keys is the model of the
    code: `initiateKeyUpdate`, the header of `shortHeader`, `candidateKeys` of
    `unprotect_packet`, and `noteOpened`, which rotates the send keys when the peer
    shows a new phase.

    The code rotates on every new phase of the peer, also on the answer to its own
    update.  So the two ends agree as long as a new phase reaches only a party whose
    own phase differs from it, and no party rotates twice between two packets
    (`agreement_of_careful`).  A single update by one side, answered by the other,
    already takes them apart (`answered_update_diverges`). -/

namespace QuicKeyUpdate

open QuicVarInt QuicFrames QuicPacket QuicCrypto QuicState QuicSend QuicReceive QuicKeys

/-! ## Parties and channels -/

/-- The two directions of traffic. -/
inductive Direction where
  | clientToServer
  | serverToClient
  deriving DecidableEq, Repr

/-- A traffic key: its direction and how often it has been updated. -/
structure TrafficKey where
  direction : Direction
  generation : Nat
  deriving DecidableEq, Repr

/-- The key of the next generation. -/
def TrafficKey.next (k : TrafficKey) : TrafficKey := { k with generation := k.generation + 1 }

/-- The two ends. -/
inductive Party where
  | client
  | server
  deriving DecidableEq, Repr

/-- The other end. -/
def Party.other : Party → Party
  | .client => .server
  | .server => .client

/-- The direction a party sends in. -/
def Party.sends : Party → Direction
  | .client => .clientToServer
  | .server => .serverToClient

/-- A 1-RTT packet: the key phase its header shows and the key that sealed it. -/
structure SealedPacket where
  keyPhase : Bool
  key : TrafficKey
  deriving DecidableEq, Repr

/-- Two connections and the packets on their way to each, oldest first. -/
structure Link where
  conn : Party → QuicConnection TrafficKey
  inFlight : Party → List SealedPacket
  /-- Ghost: the generation of the last packet a party sealed. -/
  lastSealed : Party → Nat

/-- What can happen. -/
inductive Act where
  | initiate (p : Party)
  | send (p : Party)
  | deliver (p : Party)
  deriving DecidableEq

/-- The packet a connection seals under its 1-RTT keys. -/
def sealNext (s : QuicConnection TrafficKey) : SealedPacket where
  keyPhase := (shortHeader s (s.nextPacketNumber .application)).keyPhase
  key := (s.localKeys .oneRtt).material

variable (env : Env TrafficKey)

/-- The part of `handle_datagram` that concerns keys: `unprotect_packet` tries the
    candidate keys, and an opened packet is noted. -/
def openPacket (s : QuicConnection TrafficKey) (pkt : SealedPacket) :
    Option (QuicConnection TrafficKey) :=
  match candidateKeys env.toCryptoOps (peerKeys s .oneRtt) false pkt.keyPhase with
  | none => none
  | some keys =>
      if keys.material = pkt.key then
        some (noteOpened env (setPeerKeys s .oneRtt keys)
          { isLong := false, type := .oneRtt, keyPhase := pkt.keyPhase })
      else none

/-- One step; a packet that does not open is dropped. -/
def step (l : Link) : Act → Link
  | .initiate p =>
      { l with conn := Function.update l.conn p (initiateKeyUpdate env (l.conn p)) }
  | .send p =>
      { l with
        inFlight := Function.update l.inFlight p.other
          (l.inFlight p.other ++ [sealNext (l.conn p)])
        lastSealed := Function.update l.lastSealed p
          (l.conn p).oneRttKeysLocal.material.generation }
  | .deliver p =>
      match l.inFlight p with
      | [] => l
      | pkt :: rest =>
          { l with
            conn := Function.update l.conn p ((openPacket env (l.conn p) pkt).getD (l.conn p))
            inFlight := Function.update l.inFlight p rest }

/-- A run. -/
def run (l : Link) (acts : List Act) : Link := acts.foldl (step env) l

/-- Both ends have their first 1-RTT keys and nothing is in flight. -/
structure Established (l : Link) : Prop where
  localKeys : ∀ p, (l.conn p).oneRttKeysLocal = .ofMaterial ⟨p.sends, 0⟩
  peerKeys : ∀ p, (l.conn p).oneRttKeysPeer = .ofMaterial ⟨p.other.sends, 0⟩
  localPhase : ∀ p, (l.conn p).localKeyPhase = 0
  peerPhase : ∀ p, (l.conn p).peerKeyPhase = 0
  inFlight : ∀ p, l.inFlight p = []
  lastSealed : ∀ p, l.lastSealed p = 0

/-- A party's send key has the parity of its phase, and the next packet for it opens. -/
def Agrees (l : Link) (p : Party) : Prop :=
  (l.conn p).oneRttKeysLocal.material.generation % 2 = (l.conn p).localKeyPhase % 2
    ∧ (l.inFlight p).head?.all (fun pkt => (openPacket env (l.conn p) pkt).isSome) = true

/-- The condition on a step: a party seals a packet only when it has rotated at most
    once since the last one, and a new key phase reaches only a party whose own phase
    differs from it. -/
def Careful (l : Link) : Act → Prop
  | .initiate _ => True
  | .send p => (l.conn p).oneRttKeysLocal.material.generation ≤ l.lastSealed p + 1
  | .deliver p => ∀ pkt ∈ (l.inFlight p).head?,
      pkt.keyPhase = ((l.conn p).peerKeyPhase != 0)
        ∨ pkt.keyPhase ≠ ((l.conn p).localKeyPhase != 0)

/-- Every step of a run is careful. -/
def CarefulRun : Link → List Act → Prop
  | _, [] => True
  | l, act :: acts => Careful l act ∧ CarefulRun (step env l act) acts

instance (l : Link) (p : Party) : Decidable (Agrees env l p) :=
  inferInstanceAs (Decidable (_ ∧ _))

instance (l : Link) : (act : Act) → Decidable (Careful l act)
  | .initiate _ => inferInstanceAs (Decidable True)
  | .send _ => inferInstanceAs (Decidable (_ ≤ _))
  | .deliver p => inferInstanceAs (Decidable (∀ pkt ∈ (l.inFlight p).head?, _ ∨ _))

instance CarefulRun.decidable : (l : Link) → (acts : List Act) → Decidable (CarefulRun env l acts)
  | _, [] => .isTrue trivial
  | l, act :: acts =>
      have := CarefulRun.decidable (step env l act) acts
      inferInstanceAs (Decidable (Careful l act ∧ CarefulRun env (step env l act) acts))

/-! ## What the code does with its keys -/

/-- The phase bit of a generation. -/
def phaseBit (g : Nat) : Bool := g % 2 != 0

/-- The packet sealed under a generation when the phase has its parity. -/
def packetOf (dir : Direction) (g : Nat) : SealedPacket := ⟨phaseBit g, ⟨dir, g⟩⟩

theorem mod_two_xor_one (g : Nat) : g % 2 ^^^ 1 = (g + 1) % 2 := by
  rcases Nat.mod_two_eq_zero_or_one g with h | h
  · rw [Nat.add_mod, h]
    rfl
  · rw [Nat.add_mod, h]
    rfl

theorem phaseBit_succ_ne (g : Nat) : phaseBit (g + 1) ≠ phaseBit g := by
  unfold phaseBit
  rcases Nat.mod_two_eq_zero_or_one g with h | h
  · rw [Nat.add_mod, h]
    decide
  · rw [Nat.add_mod, h]
    decide

/-- A party that sends in a direction: its phase has the parity of its key, and its
    last packet was sealed under this key or an older one. -/
structure Sender (s : QuicConnection TrafficKey) (dir : Direction) (last : Nat) : Prop where
  valid : s.oneRttKeysLocal.valid = true
  direction : s.oneRttKeysLocal.material.direction = dir
  parity : s.localKeyPhase = s.oneRttKeysLocal.material.generation % 2
  last_le : last ≤ s.oneRttKeysLocal.material.generation

/-- A party that has followed the peer's keys up to a generation. -/
structure Receiver (s : QuicConnection TrafficKey) (dir : Direction) (g : Nat) : Prop where
  keys : s.oneRttKeysPeer = ⟨⟨dir, g⟩, g % 2, true⟩
  phase : s.peerKeyPhase = g % 2

variable {s : QuicConnection TrafficKey} {dir : Direction}

/-- What a sender seals. -/
theorem Sender.sealNext_eq {last : Nat} (h : Sender s dir last) :
    sealNext s = packetOf dir s.oneRttKeysLocal.material.generation := by
  have hkey : s.oneRttKeysLocal.material = ⟨dir, s.oneRttKeysLocal.material.generation⟩ := by
    rw [← h.direction]
  unfold sealNext packetOf phaseBit
  rw [← h.parity]
  simp only [shortHeader, QuicConnection.localKeys, SealedPacket.mk.injEq, true_and]
  exact hkey

variable {env}

variable {keys : ProtectionKeys TrafficKey}

/-- A packet sealed under the candidate key opens, and the key phase is followed. -/
theorem openPacket_of_candidate {pkt : SealedPacket}
    (hcand : candidateKeys env.toCryptoOps s.oneRttKeysPeer false pkt.keyPhase = some keys)
    (hkey : keys.material = pkt.key) :
    openPacket env s pkt = some (followKeyPhase env { s with
      oneRttKeysPeer := keys
      peerAddressValidated := true }) := by
  rw [openPacket, peerKeys, hcand]
  exact if_pos hkey

/-- A packet of the generation the receiver is at opens and changes no key. -/
theorem openPacket_same (env : Env TrafficKey) {g : Nat} (h : Receiver s dir g) :
    ∃ s', openPacket env s (packetOf dir g) = some s' ∧ Receiver s' dir g
      ∧ s'.oneRttKeysLocal = s.oneRttKeysLocal ∧ s'.localKeyPhase = s.localKeyPhase := by
  have hcand : candidateKeys env.toCryptoOps s.oneRttKeysPeer false (phaseBit g)
      = some ⟨⟨dir, g⟩, g % 2, true⟩ := by
    rw [candidateKeys, h.keys, if_neg (by simp [phaseBit])]
  have hfollow : followKeyPhase env { s with
      oneRttKeysPeer := ⟨⟨dir, g⟩, g % 2, true⟩
      peerAddressValidated := true } = { s with
      oneRttKeysPeer := ⟨⟨dir, g⟩, g % 2, true⟩
      peerAddressValidated := true } := by
    rw [followKeyPhase, if_neg (by simp [h.phase])]
  refine ⟨_, openPacket_of_candidate hcand rfl, ?_⟩
  rw [hfollow]
  exact ⟨⟨rfl, h.phase⟩, rfl, rfl⟩

/-- `openPacket` is what `handle_datagram` does to the keys: when `unprotect_packet`
    opens a short-header packet that is no duplicate and carries no CRYPTO data, the
    keys afterwards are those of `openPacket`. -/
theorem handleOpenable_keys {drain : QuicConnection TrafficKey → QuicConnection TrafficKey}
    {created : List Nat} {hdr hdr' : PacketHeader} {packet plaintext : Bytes}
    (hopen : unprotectPacket env.toCryptoOps s.oneRttKeysPeer packet
      (s.ackTrackers (spaceIndex hdr.type)).largestPn s.localCid.length
        = some (keys, hdr', plaintext)) (hshort : hdr'.isLong = false)
    (hnew : (s.ackTrackers (spaceIndex hdr.type)).contains hdr'.packetNumber = false)
    (hcrypto : ∀ frames, parseFrames plaintext = some frames → frames.any isCrypto = false) :
    ∃ s', openPacket env s ⟨hdr'.keyPhase, keys.material⟩ = some s'
      ∧ (handleOpenable env drain s created hdr packet .oneRtt).1.toKeys = s'.toKeys := by
  have hcand := (unprotectPacket_candidate hopen).1
  rw [hshort] at hcand
  refine ⟨_, openPacket_of_candidate hcand rfl, ?_⟩
  unfold handleOpenable
  simp only [peerKeys, hopen, hnew, Bool.false_eq_true, ↓reduceIte, setPeerKeys, noteOpened, hshort]
  cases hparse : parseFrames plaintext with
  | none => exact terminate_keys env _ _ _ _
  | some frames => exact handleFrames_keys env drain _ created hdr' (hcrypto frames hparse)

section Ideal

variable (hnext : ∀ k, env.next k = some k.next)
include hnext

/-- `update_keys` of valid keys. -/
theorem updateKeys_next (hv : keys.valid = true) :
    updateKeys env.toCryptoOps keys
      = some { keys with material := keys.material.next, keyPhase := keys.keyPhase ^^^ 1 } := by
  rw [updateKeys, if_pos hv, hnext]
  rfl

/-- `initiate_key_update` takes the next key and the other phase. -/
theorem Sender.initiate {last : Nat} (h : Sender s dir last) :
    Sender (initiateKeyUpdate env s) dir last := by
  have hinit : initiateKeyUpdate env s = { s with
      oneRttKeysLocal := ⟨s.oneRttKeysLocal.material.next, s.localKeyPhase ^^^ 1, true⟩
      localKeyPhase := s.localKeyPhase ^^^ 1
      localGeneration := s.localGeneration + 1 } := by
    rw [initiateKeyUpdate, updateKeys_next hnext h.valid, h.valid]
    rfl
  rw [hinit]
  refine ⟨rfl, h.direction, ?_, Nat.le_succ_of_le h.last_le⟩
  show s.localKeyPhase ^^^ 1 = (s.oneRttKeysLocal.material.generation + 1) % 2
  rw [h.parity, mod_two_xor_one]

/-- A packet of the next generation opens; the receiver follows with its own send
    keys and takes the packet's phase. -/
theorem openPacket_next {g : Nat} (h : Receiver s dir g) (hv : s.oneRttKeysLocal.valid = true) :
    ∃ s', openPacket env s (packetOf dir (g + 1)) = some s' ∧ Receiver s' dir (g + 1)
      ∧ s'.oneRttKeysLocal = ⟨s.oneRttKeysLocal.material.next, (g + 1) % 2, true⟩
      ∧ s'.localKeyPhase = (g + 1) % 2 := by
  have hphase : (phaseBit (g + 1) != phaseBit g) = true := by
    simpa using phaseBit_succ_ne g
  have hcand : candidateKeys env.toCryptoOps s.oneRttKeysPeer false (phaseBit (g + 1))
      = some ⟨⟨dir, g + 1⟩, (g + 1) % 2, true⟩ := by
    rw [candidateKeys, h.keys, if_pos (by simpa [phaseBit] using hphase),
      updateKeys_next hnext rfl, mod_two_xor_one]
    rfl
  have hfollow : followKeyPhase env { s with
      oneRttKeysPeer := ⟨⟨dir, g + 1⟩, (g + 1) % 2, true⟩
      peerAddressValidated := true } = { s with
      oneRttKeysPeer := ⟨⟨dir, g + 1⟩, (g + 1) % 2, true⟩
      peerAddressValidated := true
      peerKeyPhase := (g + 1) % 2
      oneRttKeysLocal := ⟨s.oneRttKeysLocal.material.next, (g + 1) % 2, true⟩
      localKeyPhase := (g + 1) % 2
      localGeneration := s.localGeneration + 1 } := by
    have hnew : (g + 1) % 2 ≠ s.peerKeyPhase := by
      rw [h.phase]
      omega
    rw [followKeyPhase, if_pos (by simpa using hnew)]
    simp only [hv, ↓reduceIte, updateKeys_next hnext hv]
  refine ⟨_, openPacket_of_candidate hcand rfl, ?_⟩
  rw [hfollow]
  exact ⟨⟨rfl, rfl⟩, rfl, rfl⟩

end Ideal

/-! ## The invariant -/

/-- The packets on their way to a party at generation `g`: their generations go up by
    at most one at a time, from `g` to the last one sealed. -/
def Chained (dir : Direction) : Nat → List SealedPacket → Nat → Prop
  | g, [], last => g = last
  | g, pkt :: rest, last =>
      ∃ g', pkt = packetOf dir g' ∧ (g' = g ∨ g' = g + 1) ∧ Chained dir g' rest last

/-- One more packet of the last generation or the next one. -/
theorem Chained.concat {g last g' : Nat} {pkts : List SealedPacket} (h : Chained dir g pkts last)
    (hg : g' = last ∨ g' = last + 1) :
    Chained dir g (pkts ++ [packetOf dir g']) g' := by
  induction pkts generalizing g with
  | nil =>
      cases h
      exact ⟨g', rfl, hg, rfl⟩
  | cons pkt rest ih =>
      obtain ⟨g₁, hpkt, hstep, hrest⟩ := h
      exact ⟨g₁, hpkt, hstep, ih hrest⟩

/-- Both ends follow each other. -/
structure Synced (l : Link) : Prop where
  sender : ∀ p, Sender (l.conn p) p.sends (l.lastSealed p)
  receiver : ∀ p, ∃ g, Receiver (l.conn p) p.other.sends g
    ∧ Chained p.other.sends g (l.inFlight p) (l.lastSealed p.other)

/-- Connections that have just been established follow each other. -/
theorem Established.synced {l : Link} (h : Established l) : Synced l := by
  refine ⟨fun p => ?_, fun p => ⟨0, ?_, ?_⟩⟩
  · have hk := h.localKeys p
    refine ⟨by rw [hk]; rfl, by rw [hk]; rfl, ?_, ?_⟩
    · rw [hk, h.localPhase p]
      rfl
    · rw [h.lastSealed p]
      exact Nat.zero_le _
  · exact ⟨h.peerKeys p, h.peerPhase p⟩
  · rw [h.inFlight p, h.lastSealed]
    rfl

/-- When both ends follow each other they agree. -/
theorem Synced.agrees (hnext : ∀ k, env.next k = some k.next) {l : Link} (h : Synced l)
    (p : Party) : Agrees env l p := by
  refine ⟨?_, ?_⟩
  · rw [(h.sender p).parity, Nat.mod_mod]
  · obtain ⟨g, hr, hchain⟩ := h.receiver p
    cases hq : l.inFlight p with
    | nil => rfl
    | cons pkt rest =>
        rw [hq] at hchain
        obtain ⟨g', rfl, rfl | rfl, _⟩ := hchain
        · obtain ⟨s', hopen, _⟩ := openPacket_same env hr
          simp [hopen]
        · obtain ⟨s', hopen, _⟩ := openPacket_next hnext hr (h.sender p).valid
          simp [hopen]

theorem Party.other_other (p : Party) : p.other.other = p := by
  cases p <;> rfl

theorem Party.other_ne (p : Party) : p.other ≠ p := by
  cases p <;> exact nofun

/-- The two parties. -/
theorem Party.eq_or_eq_other (p q : Party) : q = p ∨ q = p.other := by
  cases p <;> cases q <;> simp [Party.other]

/-! ## Steps -/

/-- A local key update touches nothing of the peer's keys. -/
theorem Receiver.initiate {g : Nat} (h : Receiver s dir g) :
    Receiver (initiateKeyUpdate env s) dir g := by
  rw [initiateKeyUpdate]
  split_ifs
  · exact h
  · split
    · exact h
    · exact ⟨h.keys, h.phase⟩

section Steps

variable (hnext : ∀ k, env.next k = some k.next) {l : Link}
include hnext

theorem Synced.initiate (h : Synced l) (p : Party) : Synced (step env l (.initiate p)) := by
  refine ⟨fun q => ?_, fun q => ?_⟩
  · show Sender (Function.update l.conn p _ q) _ _
    by_cases hq : q = p
    · subst hq
      rw [Function.update_self]
      exact (h.sender q).initiate hnext
    · rw [Function.update_of_ne hq]
      exact h.sender q
  · obtain ⟨g, hr, hchain⟩ := h.receiver q
    refine ⟨g, ?_, hchain⟩
    show Receiver (Function.update l.conn p _ q) _ _
    by_cases hq : q = p
    · subst hq
      rw [Function.update_self]
      exact hr.initiate
    · rw [Function.update_of_ne hq]
      exact hr

omit hnext in
theorem Synced.send (h : Synced l) {p : Party} (hc : Careful l (.send p)) :
    Synced (step env l (.send p)) := by
  have hs := h.sender p
  refine ⟨fun q => ?_, fun q => ?_⟩
  · by_cases hq : q = p
    · subst hq
      refine ⟨hs.valid, hs.direction, hs.parity, ?_⟩
      simp only [step, Function.update_self]
      exact Nat.le_refl _
    · have hsame : (step env l (.send p)).lastSealed q = l.lastSealed q :=
        Function.update_of_ne hq _ _
      rw [hsame]
      exact h.sender q
  · obtain ⟨g, hr, hchain⟩ := h.receiver q
    refine ⟨g, hr, ?_⟩
    rcases Party.eq_or_eq_other p q with rfl | rfl
    · -- the sender's own channel and the other side's last packet are as before
      simp only [step, Function.update_of_ne q.other_ne,
        Function.update_of_ne (fun h => q.other_ne h.symm)]
      exact hchain
    · rw [Party.other_other] at hchain
      simp only [step, Party.other_other, Function.update_self, hs.sealNext_eq]
      refine hchain.concat ?_
      have hle := hs.last_le
      have hcond : (l.conn p).oneRttKeysLocal.material.generation ≤ l.lastSealed p + 1 := hc
      omega

omit hnext in
/-- A packet that opens, with what its receiver becomes. -/
theorem Synced.opened (h : Synced l) {p : Party} {pkt : SealedPacket} {rest : List SealedPacket}
    {s' : QuicConnection TrafficKey} {g : Nat} (hq : l.inFlight p = pkt :: rest)
    (hopen : openPacket env (l.conn p) pkt = some s')
    (hsender : Sender s' p.sends (l.lastSealed p)) (hreceiver : Receiver s' p.other.sends g)
    (hchain : Chained p.other.sends g rest (l.lastSealed p.other)) :
    Synced (step env l (.deliver p)) := by
  have hstep : step env l (.deliver p) = { l with
      conn := Function.update l.conn p s'
      inFlight := Function.update l.inFlight p rest } := by
    simp only [step, hq, hopen, Option.getD_some]
  rw [hstep]
  refine ⟨fun q => ?_, fun q => ?_⟩
  · by_cases hqp : q = p
    · subst hqp
      simp only [Function.update_self]
      exact hsender
    · simp only [Function.update_of_ne hqp]
      exact h.sender q
  · by_cases hqp : q = p
    · subst hqp
      simp only [Function.update_self]
      exact ⟨g, hreceiver, hchain⟩
    · simp only [Function.update_of_ne hqp]
      exact h.receiver q

theorem Synced.deliver (h : Synced l) {p : Party} (hc : Careful l (.deliver p)) :
    Synced (step env l (.deliver p)) := by
  cases hq : l.inFlight p with
  | nil =>
      have hstep : step env l (.deliver p) = l := by
        simp only [step, hq]
      rw [hstep]
      exact h
  | cons pkt rest =>
      obtain ⟨g, hr, hchain⟩ := h.receiver p
      have hs := h.sender p
      rw [hq] at hchain
      obtain ⟨g', rfl, rfl | rfl, hrest⟩ := hchain
      · obtain ⟨s', hopen, hr', hlocal, hphase⟩ := openPacket_same env hr
        refine h.opened hq hopen ⟨?_, ?_, ?_, ?_⟩ hr' hrest
        · rw [hlocal]
          exact hs.valid
        · rw [hlocal]
          exact hs.direction
        · rw [hlocal, hphase]
          exact hs.parity
        · rw [hlocal]
          exact hs.last_le
      · -- a new phase: it differs from the receiver's own, so both go up by one
        have hnew : (g + 1) % 2 = ((l.conn p).oneRttKeysLocal.material.generation + 1) % 2 := by
          have hcond := hc (packetOf p.other.sends (g + 1)) (by rw [hq]; rfl)
          rw [hr.phase, hs.parity] at hcond
          rcases hcond with heq | hne
          · exact absurd heq (phaseBit_succ_ne g)
          · have hbits : (g + 1) % 2 ≠ (l.conn p).oneRttKeysLocal.material.generation % 2 :=
              fun heq => hne (congrArg (· != 0) heq)
            omega
        obtain ⟨s', hopen, hr', hlocal, hphase⟩ := openPacket_next hnext hr hs.valid
        refine h.opened hq hopen ⟨?_, ?_, ?_, ?_⟩ hr' hrest
        · rw [hlocal]
        · rw [hlocal]
          exact hs.direction
        · rw [hlocal, hphase]
          exact hnew
        · rw [hlocal]
          exact Nat.le_succ_of_le hs.last_le

/-- A careful step keeps both ends together. -/
theorem Synced.step (h : Synced l) {act : Act} (hc : Careful l act) :
    Synced (step env l act) := by
  cases act with
  | initiate p => exact h.initiate hnext p
  | send p => exact h.send hc
  | deliver p => exact h.deliver hnext hc

/-- A careful run keeps both ends together. -/
theorem Synced.run {acts : List Act} (h : Synced l) (hc : CarefulRun env l acts) :
    Synced (run env l acts) := by
  induction acts generalizing l with
  | nil => exact h
  | cons act acts ih => exact ih (h.step hnext hc.1) hc.2

end Steps

/-- In every careful run of two established connections, with any interleaving of
    updates, sends and in-order deliveries, each send key keeps the parity of its
    phase and every packet opens on delivery. -/
theorem agreement_of_careful (hnext : ∀ k, env.next k = some k.next) {l : Link}
    (hl : Established l) {acts : List Act} (hc : CarefulRun env l acts) (p : Party) :
    Agrees env (run env l acts) p :=
  (hl.synced.run hnext hc).agrees hnext p

/-! ## Runs from a sample link -/

/-- An environment whose key schedule counts generations. -/
def countingEnv : Env TrafficKey where
  iv _ := List.replicate 12 0
  encrypt _ _ _ plaintext := some (plaintext ++ List.replicate 16 0)
  decrypt _ _ _ ciphertext := some (ciphertext.take (ciphertext.length - 16))
  mask _ _ := some (List.replicate 5 0)
  next k := some k.next
  expand _ := none
  initialSecrets _ := none
  blank := ⟨.clientToServer, 0⟩
  clock i := i
  tls _ := {}
  outboundPolls _ := false
  iterationOrder := id
  iterationOrder_perm := .refl

/-- A connection with its first 1-RTT keys. -/
def establishedConn (p : Party) : QuicConnection TrafficKey :=
  { newConnection countingEnv default default (decide (p = .server)) default with
    oneRttKeysLocal := .ofMaterial ⟨p.sends, 0⟩
    oneRttKeysPeer := .ofMaterial ⟨p.other.sends, 0⟩
    state := .connected }

/-- Two connections with their first 1-RTT keys. -/
def establishedLink : Link where
  conn := establishedConn
  inFlight _ := []
  lastSealed _ := 0

theorem establishedLink_established : Established establishedLink :=
  ⟨fun _ => rfl, fun _ => rfl, fun _ => rfl, fun _ => rfl, fun _ => rfl, fun _ => rfl⟩

/-- The client updates twice, each time with a packet to the server, and a packet the
    server sealed before is delivered in between. -/
def twoUpdates : List Act :=
  [.send .server, .initiate .client, .send .client, .deliver .server, .deliver .client,
    .initiate .client, .send .client]

theorem agreement_of_careful_two_updates :
    ((run countingEnv establishedLink twoUpdates).conn .client).oneRttKeysLocal.material.generation
        = 2
      ∧ Agrees countingEnv (run countingEnv establishedLink twoUpdates) .client
      ∧ Agrees countingEnv (run countingEnv establishedLink twoUpdates) .server := by
  have hagree : ∀ p, Agrees countingEnv (run countingEnv establishedLink twoUpdates) p :=
    agreement_of_careful (fun _ => rfl) establishedLink_established (by decide)
  exact ⟨by decide, hagree .client, hagree .server⟩

/-- The client updates, the server follows and answers: on the answer the client
    rotates once more under the same phase, and its next packet does not open. -/
theorem answered_update_diverges :
    let l := run countingEnv establishedLink [.initiate .client, .send .client, .deliver .server,
      .send .server, .deliver .client, .send .client]
    ¬Agrees countingEnv l .client ∧ ¬Agrees countingEnv l .server := by
  decide

end QuicKeyUpdate
