/-
# Exactly once and in order

The worker, the relays and the chain as one system: the worker pushes messages from any of its
channels, relays take copies of what is queued and bring them to the pool of transactions in any
order, as often as they like or not at all, blocks include transactions from the pool, and the
worker purges its queue with the sequence numbers of any block.

`Delivered` relates the queue, the copies and the sequence number that the chain expects to the list
of all messages that have been pushed.  The main result is `exactly_once_in_order`.
-/
import CessNode.Mq
import CessNode.Runs
import CessNode.Numbering

namespace Mq

open Dispatch Numbering

variable (C : Crypto) (identity : MessageOrigin)

/-! ## The system -/

/-- The worker, the relays and the chain. -/
structure Net where
  queue : SendQueue
  /-- The copies that relays have taken. -/
  relayed : List SignedMessage
  /-- The transactions that wait to be included. -/
  pool : List SignedMessage
  pallet : Pallet
  /-- The sequence numbers that the chain expected after each block. -/
  blocks : List (StorageMap MessageOrigin ℕ)

/-- What happens in the system. -/
inductive Action where
  /-- A channel of the worker pushes a message. -/
  | push (sender : MessageOrigin) (signer : List UInt8 → List UInt8) (payload : List UInt8)
      (destination : Topic)
  /-- A relay copies the messages of a sender. -/
  | fetch (sender : MessageOrigin)
  /-- A relay submits a copy, or somebody submits a message of another sender. -/
  | submit (signed : SignedMessage)
  /-- A block includes a transaction. -/
  | execute (signed : SignedMessage) (masterPubkey : Option PublicKey)
  /-- A block ends. -/
  | newBlock
  /-- The worker purges its queue with the sequence numbers of a block. -/
  | purge (number : ℕ)

/-- One step of the system, for messages of `identity` that only this worker can sign; none if it is
not possible. -/
def Net.step (n : Net) : Action → Option Net
  | .push sender signer payload destination =>
    if (entry n.queue sender).sequence + 1 < 2 ^ 64 then
      some { n with queue := pushData C n.queue sender signer payload destination }
    else none
  | .fetch sender => some { n with relayed := n.relayed ++ messages n.queue sender }
  | .submit signed =>
    if signed ∈ n.relayed ∨ signed.message.sender ≠ identity then
      match validate n.pallet signed with
      | .ok _ => some { n with pool := n.pool ++ [signed] }
      | .error _ => none
    else none
  | .execute signed masterPubkey =>
    if signed ∈ n.pool then
      match preDispatch n.pallet signed with
      | .ok _ =>
        some { n with
          pallet := after (transactional (syncOffchainMessage C masterPubkey signed)) n.pallet }
      | .error _ => none
    else none
  | .newBlock => some { n with blocks := n.blocks ++ [n.pallet.offchainIngress] }
  | .purge number =>
    match n.blocks[number]? with
    | some ingress => some { n with queue := purge n.queue (expectedSeq ingress) }
    | none => none

/-- The messages of `identity` that have been pushed, and those that the chain has accepted, in
order. -/
structure Logs where
  pushed : List SignedMessage
  accepted : List SignedMessage

/-- Whether the chain accepts a message. -/
def accepts (p : Pallet) (masterPubkey : Option PublicKey) (signed : SignedMessage) : Bool :=
  match (syncOffchainMessage C masterPubkey signed).run p with
  | .ok _ _ => true
  | .error _ _ => false

/-- What is noted of a step. -/
def note (n : Net) (a : Action) (_ : Net) (logs : Logs) : Logs :=
  match a with
  | .push sender signer payload destination =>
    if sender = identity then
      { logs with pushed := logs.pushed ++ [sign C signer
        { sender := sender, destination := destination, payload := payload }
        (entry n.queue sender).sequence] }
    else logs
  | .execute signed masterPubkey =>
    if signed.message.sender = identity ∧ accepts C n.pallet masterPubkey signed = true then
      { logs with accepted := logs.accepted ++ [signed] }
    else logs
  | _ => logs

/-- The start: nothing of `identity` is known to anybody. -/
structure Start (n : Net) : Prop where
  queue : n.queue.lookup identity = none
  others : ∀ sender, ∀ m ∈ messages n.queue sender, m.message.sender = sender
  relayed : ∀ m ∈ n.relayed, m.message.sender ≠ identity
  pool : ∀ m ∈ n.pool, m.message.sender ≠ identity
  ingress : n.pallet.offchainIngress.lookup identity = none
  blocks : ∀ ingress ∈ n.blocks, expectedSeq ingress identity = 0

/-- The states of the runs, with the logs. -/
abbrev Reached : Net × Logs → Prop :=
  Runs.Reach (fun p => Start identity p.1 ∧ p.2 = ⟨[], []⟩)
    (Runs.observe (Net.step C identity) (note C identity)) fun _ _ => True

/-! ## The send queue -/

variable {C identity} {queue : SendQueue} {sender sender' : MessageOrigin}

theorem lookup_purge (queue : SendQueue) (next : MessageOrigin → ℕ) (sender : MessageOrigin) :
    (purge queue next).lookup sender = (queue.lookup sender).map (Channel.purge (next sender)) := by
  -- the senders that are still to be visited have their old channels
  suffices hloop : ∀ k, (purge queue next).lookup k =
      if k ∈ [] then queue.lookup k else (queue.lookup k).map (Channel.purge (next k)) from
    (hloop sender).trans (if_neg List.not_mem_nil)
  refine Runs.foldl_inv (P := fun rest q => ∀ k, q.lookup k =
    if k ∈ rest then queue.lookup k else (queue.lookup k).map (Channel.purge (next k))) ?_
    queue.keys queue queue.nodupKeys ?_
  · intro q k rest hk hq k'
    have hlookup := hq k
    rw [if_pos List.mem_cons_self] at hlookup
    have hold := hq k'
    by_cases hsame : k' = k
    · subst hsame
      rw [if_neg hk, hlookup]
      cases hchannel : queue.lookup k' with
      | none =>
        rw [hlookup, hchannel]
        rfl
      | some =>
        rw [AList.lookup_insert]
        rfl
    · have hmem : k' ∈ k :: rest ↔ k' ∈ rest := by
        rw [List.mem_cons, or_iff_right hsame]
      simp only [hmem] at hold
      rw [← hold, hlookup]
      cases queue.lookup k with
      | none => rfl
      | some => exact AList.lookup_insert_ne hsame
  · intro k
    split_ifs with hk
    · rfl
    · have hnone : queue.lookup k = none := AList.lookup_eq_none.mpr fun hmem => hk hmem
      rw [hnone]
      rfl

/-- A sender's channel after a purge. -/
theorem entry_purge (queue : SendQueue) (next : MessageOrigin → ℕ) (sender : MessageOrigin) :
    entry (purge queue next) sender = (entry queue sender).purge (next sender) := by
  unfold entry
  rw [lookup_purge]
  cases queue.lookup sender with
  | none => rfl
  | some => rfl

theorem entry_enqueue_self (constructor : ℕ → SignedMessage)
    (hdummy : (entry queue sender).dummy = false)
    (hlimit : (entry queue sender).sequence + 1 < 2 ^ 64) :
    entry (enqueueMessage queue sender constructor) sender =
      { sequence := (entry queue sender).sequence + 1
        messages := (entry queue sender).messages ++ [constructor (entry queue sender).sequence]
        dummy := false } := by
  have hsequence : ((entry queue sender).sequence + 1) % 2 ^ 64 = (entry queue sender).sequence + 1 :=
    Nat.mod_eq_of_lt hlimit
  have hread : entry (enqueueMessage queue sender constructor) sender = _ :=
    congrArg (fun o => o.getD {}) (AList.lookup_insert queue)
  rw [hread]
  simp only [Option.getD_some, hdummy, hsequence, Bool.false_eq_true, if_false]

theorem entry_enqueue_ne (constructor : ℕ → SignedMessage) (h : sender' ≠ sender) :
    entry (enqueueMessage queue sender constructor) sender' = entry queue sender' := by
  unfold entry enqueueMessage
  rw [AList.lookup_insert_ne h]

/-- A pushed message names its sender. -/
theorem sender_of_mem_pushData {signer : List UInt8 → List UInt8} {payload : List UInt8}
    {destination : Topic} (h : ∀ s, ∀ m ∈ messages queue s, m.message.sender = s)
    (s : MessageOrigin) :
    ∀ m ∈ messages (pushData C queue sender signer payload destination) s, m.message.sender = s := by
  intro m hm
  unfold pushData messages at hm
  by_cases hs : s = sender
  · subst hs
    have hread : (entry (enqueueMessage queue s (sign C signer
        { sender := s, destination := destination, payload := payload })) s).messages = _ :=
      congrArg (fun o => (o.getD ({} : Channel)).messages) (AList.lookup_insert queue)
    rw [hread] at hm
    split_ifs at hm
    · exact h s m hm
    · rcases List.mem_append.mp hm with hm | hm
      · exact h s m hm
      · obtain rfl := List.mem_singleton.mp hm
        rfl
  · rw [entry_enqueue_ne _ hs] at hm
    exact h s m hm

theorem messages_purge_subset (queue : SendQueue) (next : MessageOrigin → ℕ)
    (sender : MessageOrigin) : messages (purge queue next) sender ⊆ messages queue sender := by
  unfold messages
  rw [entry_purge]
  exact List.filter_subset_self _

/-! ## The invariant -/

/-- What holds in every state, for the messages that have been pushed and accepted. -/
structure Delivered (identity : MessageOrigin) (n : Net) (logs : Logs) : Prop where
  counts : Counts SignedMessage.sequence 0 logs.pushed
  sequence : (entry n.queue identity).sequence = logs.pushed.length
  dummy : (entry n.queue identity).dummy = false
  /-- What is queued is the rest of what has been pushed, at least what is not accepted yet. -/
  queued : ∃ k ≤ logs.accepted.length, messages n.queue identity = logs.pushed.drop k
  senders : ∀ sender, ∀ m ∈ messages n.queue sender, m.message.sender = sender
  limit : logs.pushed.length < 2 ^ 64
  accepted : logs.accepted <+: logs.pushed
  ingress : expectedSeq n.pallet.offchainIngress identity = logs.accepted.length
  relayed : ∀ m ∈ n.relayed, m.message.sender = identity → m ∈ logs.pushed
  pool : ∀ m ∈ n.pool, m.message.sender = identity → m ∈ logs.pushed
  blocks : ∀ ingress ∈ n.blocks, expectedSeq ingress identity ≤ logs.accepted.length

theorem Start.delivered {n : Net} (h : Start identity n) : Delivered identity n ⟨[], []⟩ := by
  have hentry : entry n.queue identity = {} := by
    unfold entry
    rw [h.queue]
    rfl
  refine ⟨counts_nil _ _, ?_, ?_, ⟨0, le_rfl, ?_⟩, h.others, by decide, List.nil_prefix, ?_, ?_, ?_, ?_⟩
  · rw [hentry]
    rfl
  · rw [hentry]
  · unfold messages
    rw [hentry]
    rfl
  · unfold expectedSeq
    rw [h.ingress]
    rfl
  · exact fun m hm hsender => absurd hsender (h.relayed m hm)
  · exact fun m hm hsender => absurd hsender (h.pool m hm)
  · exact fun ingress hmem => (h.blocks ingress hmem).le

variable {n n' : Net} {logs : Logs}

/-- A push of any sender. -/
theorem Delivered.push (h : Delivered identity n logs) {signer : List UInt8 → List UInt8}
    {payload : List UInt8} {destination : Topic}
    (hlimit : (entry n.queue sender).sequence + 1 < 2 ^ 64) :
    Delivered identity { n with queue := pushData C n.queue sender signer payload destination }
      (note C identity n (.push sender signer payload destination) n' logs) := by
  have hsenders : ∀ s, ∀ m ∈ messages (pushData C n.queue sender signer payload destination) s,
      m.message.sender = s := sender_of_mem_pushData h.senders
  unfold note
  dsimp only
  split_ifs with hself
  · subst hself
    obtain ⟨k, hk, hqueued⟩ := h.queued
    have haccepted := h.accepted.length_le
    have hentry := entry_enqueue_self (sign C signer
      { sender := sender, destination := destination, payload := payload }) h.dummy hlimit
    refine ⟨?_, ?_, ?_, ⟨k, hk, ?_⟩, hsenders, ?_, ?_, h.ingress, ?_, ?_, h.blocks⟩
    · refine h.counts.append (counts_cons.mpr ⟨?_, counts_nil _ _⟩)
      rw [Nat.zero_add]
      exact h.sequence
    · unfold pushData
      rw [hentry, List.length_append, List.length_singleton, h.sequence]
    · unfold pushData
      rw [hentry]
    · unfold pushData messages
      rw [hentry, List.drop_append_of_le_length (hk.trans haccepted), ← hqueued]
      rfl
    · rw [List.length_append, ← h.sequence]
      exact hlimit
    · exact h.accepted.trans (List.prefix_append _ _)
    · exact fun m hm hsender => List.mem_append_left _ (h.relayed m hm hsender)
    · exact fun m hm hsender => List.mem_append_left _ (h.pool m hm hsender)
  · have hentry : entry (pushData C n.queue sender signer payload destination) identity =
        entry n.queue identity := entry_enqueue_ne _ (Ne.symm hself)
    refine { h with sequence := ?_, dummy := ?_, queued := ?_, senders := hsenders }
    · rw [hentry]
      exact h.sequence
    · rw [hentry]
      exact h.dummy
    · unfold messages
      rw [hentry]
      exact h.queued

/-- A copy is a pushed message. -/
theorem Delivered.fetch (h : Delivered identity n logs) (sender : MessageOrigin) :
    Delivered identity { n with relayed := n.relayed ++ messages n.queue sender } logs := by
  refine { h with relayed := ?_ }
  intro m hm hsender
  rcases List.mem_append.mp hm with hm | hm
  · exact h.relayed m hm hsender
  · obtain rfl := (h.senders sender m hm).symm.trans hsender
    obtain ⟨k, -, hqueued⟩ := h.queued
    rw [hqueued] at hm
    exact List.mem_of_mem_drop hm

theorem Delivered.submit (h : Delivered identity n logs) {signed : SignedMessage}
    (hsigned : signed ∈ n.relayed ∨ signed.message.sender ≠ identity) :
    Delivered identity { n with pool := n.pool ++ [signed] } logs := by
  refine { h with pool := ?_ }
  intro m hm hsender
  rcases List.mem_append.mp hm with hm | hm
  · exact h.pool m hm hsender
  · obtain rfl := List.mem_singleton.mp hm
    rcases hsigned with hrelayed | hother
    · exact h.relayed m hrelayed hsender
    · exact absurd hsender hother

theorem keeps_checkMessage (masterPubkey : Option PublicKey) (signed : SignedMessage) :
    Keeps Eq (checkMessage C masterPubkey signed) := by
  have hverify : ∀ key, Keeps Eq (verifySignature C key signed) := by
    intro key
    unfold verifySignature
    split_ifs
    · exact keeps_ensure _ _
    · exact keeps_throw _
  unfold checkMessage
  split
  · exact hverify _
  · exact keeps_okOr_bind fun key => hverify key
  · exact keeps_throw _

theorem dispatchMessage_ingress {message : Message} {p p' : Pallet} {u : Unit}
    (h : (dispatchMessage message).run p = .ok u p') : p'.offchainIngress = p.offchainIngress := by
  unfold dispatchMessage at h
  split_ifs at h
  · obtain rfl := run_modify_ok.mp h
    rfl
  · obtain ⟨-, rfl⟩ := run_pure_ok.mp h
    rfl

/-- What the chain accepts has the number that it expects, and the next one is expected then. -/
theorem syncOffchainMessage_ok {masterPubkey : Option PublicKey} {signed : SignedMessage}
    {p p' : Pallet} (h : (syncOffchainMessage C masterPubkey signed).run p = .ok () p') :
    signed.sequence = expectedSeq p.offchainIngress signed.message.sender ∧
      p'.offchainIngress = p.offchainIngress.insert signed.message.sender
        ((signed.sequence + 1) % 2 ^ 64) := by
  unfold syncOffchainMessage at h
  simp only [run_bind_ok, run_ensure_ok, run_modify_ok] at h
  obtain ⟨_, _, ⟨-, rfl⟩, _, _, ⟨-, rfl⟩, _, _, ⟨rfl, rfl⟩, _, _, ⟨hsequence, rfl⟩, _, p₁, hcheck, _, _,
    rfl, hdispatch⟩ := h
  obtain rfl := (keeps_checkMessage masterPubkey signed).run_ok hcheck
  refine ⟨hsequence, ?_⟩
  rw [dispatchMessage_ingress hdispatch, hsequence]

/-- The next message of a numbered list extends a front part of it. -/
theorem prefix_concat_of_counts {pushed accepted : List SignedMessage} {m : SignedMessage}
    (hcounts : Counts SignedMessage.sequence 0 pushed) (h : accepted <+: pushed) (hm : m ∈ pushed)
    (hsequence : m.sequence = accepted.length) : accepted ++ [m] <+: pushed := by
  have hget := hcounts.get_of_mem hm
  rw [hsequence] at hget
  obtain ⟨rest, rfl⟩ := h
  rw [List.getElem?_append_right le_rfl, Nat.sub_self] at hget
  obtain ⟨rest', rfl⟩ := List.head?_eq_some_iff.mp (List.head?_eq_getElem? ▸ hget)
  exact ⟨rest', by rw [List.append_assoc, List.singleton_append]⟩

variable (h : Delivered identity n logs)
include h

/-- Inclusion of a transaction. -/
theorem Delivered.execute {masterPubkey : Option PublicKey} {signed : SignedMessage}
    (hsigned : signed ∈ n.pool) :
    Delivered identity
      { n with pallet := after (transactional (syncOffchainMessage C masterPubkey signed)) n.pallet }
      (note C identity n (.execute signed masterPubkey) n' logs) := by
  unfold note accepts
  dsimp only
  cases hrun : (syncOffchainMessage C masterPubkey signed).run n.pallet with
  | error e p' =>
    have hafter : after (transactional (syncOffchainMessage C masterPubkey signed)) n.pallet =
        n.pallet := by
      rcases after_transactional (syncOffchainMessage C masterPubkey signed) n.pallet with
        ⟨u, p₁, hok, -⟩ | hafter
      · rw [hrun] at hok
        cases hok
      · exact hafter
    rw [hafter, if_neg (by simp)]
    exact h
  | ok u p' =>
    have hafter : after (transactional (syncOffchainMessage C masterPubkey signed)) n.pallet = p' :=
      after_of_ok (run_transactional_ok.mpr hrun)
    obtain ⟨hsequence, hingress⟩ := syncOffchainMessage_ok hrun
    rw [hafter]
    by_cases hself : signed.message.sender = identity
    · subst hself
      rw [if_pos ⟨rfl, rfl⟩]
      rw [h.ingress] at hsequence
      have hpushed := h.pool signed hsigned rfl
      have hprefix := prefix_concat_of_counts h.counts h.accepted hpushed hsequence
      have hlength := hprefix.length_le
      have hlimit := h.limit
      rw [List.length_append, List.length_singleton] at hlength
      obtain ⟨k, hk, hqueued⟩ := h.queued
      refine { h with
        queued := ⟨k, ?_, hqueued⟩, accepted := hprefix, ingress := ?_, blocks := fun ingress hmem => ?_ }
      · rw [List.length_append]
        omega
      · unfold expectedSeq
        rw [hingress, AList.lookup_insert, hsequence, List.length_append]
        exact Nat.mod_eq_of_lt (by omega)
      · have := h.blocks ingress hmem
        rw [List.length_append]
        omega
    · rw [if_neg fun hc => hself hc.1]
      refine { h with ingress := ?_ }
      have hother : expectedSeq p'.offchainIngress identity =
          expectedSeq n.pallet.offchainIngress identity := by
        unfold expectedSeq
        rw [hingress, AList.lookup_insert_ne (Ne.symm hself)]
      exact hother.trans h.ingress

theorem Delivered.newBlock :
    Delivered identity { n with blocks := n.blocks ++ [n.pallet.offchainIngress] } logs := by
  refine { h with blocks := ?_ }
  intro ingress hmem
  rcases List.mem_append.mp hmem with hmem | hmem
  · exact h.blocks ingress hmem
  · obtain rfl := List.mem_singleton.mp hmem
    exact h.ingress.le

/-- A purge with the numbers of a block drops accepted messages only. -/
theorem Delivered.purge {ingress : StorageMap MessageOrigin ℕ} (hingress : ingress ∈ n.blocks) :
    Delivered identity { n with queue := Mq.purge n.queue (expectedSeq ingress) } logs := by
  obtain ⟨k, hk, hqueued⟩ := h.queued
  have hseq := h.blocks ingress hingress
  refine { h with
    sequence := ?_, dummy := ?_, senders := ?_
    queued := ⟨max k (expectedSeq ingress identity), by omega, ?_⟩ }
  · rw [entry_purge]
    exact h.sequence
  · rw [entry_purge]
    exact h.dummy
  · unfold messages
    rw [entry_purge]
    have hcounts := h.counts.drop k
    show ((messages n.queue identity).filter fun m => decide (_ ≤ m.sequence)) = _
    rw [hqueued, hcounts.filter, List.drop_drop]
    congr 1
    omega
  · intro sender m hm
    exact h.senders sender m (messages_purge_subset _ _ _ hm)

/-- Every step keeps the invariant. -/
theorem Delivered.step {a : Action} (hstep : n.step C identity a = some n') :
    Delivered identity n' (note C identity n a n' logs) := by
  cases a with
  | push =>
    unfold Net.step at hstep
    dsimp only at hstep
    split_ifs at hstep with hlimit
    obtain rfl := Option.some.inj hstep
    exact h.push hlimit
  | fetch sender =>
    obtain rfl := Option.some.inj hstep
    exact h.fetch sender
  | submit signed =>
    unfold Net.step at hstep
    dsimp only at hstep
    split_ifs at hstep with hsigned
    split at hstep
    · obtain rfl := Option.some.inj hstep
      exact h.submit hsigned
    · cases hstep
  | execute =>
    unfold Net.step at hstep
    dsimp only at hstep
    split_ifs at hstep with hsigned
    split at hstep
    · obtain rfl := Option.some.inj hstep
      exact h.execute hsigned
    · cases hstep
  | newBlock =>
    obtain rfl := Option.some.inj hstep
    exact h.newBlock
  | purge number =>
    unfold Net.step at hstep
    dsimp only at hstep
    split at hstep
    · rename_i ingress hget
      obtain rfl := Option.some.inj hstep
      exact h.purge (List.mem_of_getElem? hget)
    · cases hstep

omit h

/-- **Exactly once and in order.**  In every state of every run the messages that the chain has
accepted are the first ones of those that have been pushed, in the same order and each once; and every
pushed message that the chain has not accepted is still in the queue. -/
theorem exactly_once_in_order {p : Net × Logs} (hp : Reached C identity p) :
    p.2.accepted <+: p.2.pushed ∧ p.2.accepted.Nodup ∧
      ∀ m ∈ p.2.pushed, m ∉ p.2.accepted → m ∈ messages p.1.queue identity := by
  have h : Delivered identity p.1 p.2 := by
    induction hp with
    | start h =>
      rw [h.2]
      exact h.1.delivered
    | next _ _ hstep ih =>
      obtain ⟨hstep, hnote⟩ := Runs.observe_eq_some.mp hstep
      rw [hnote]
      exact ih.step hstep
  refine ⟨h.accepted, h.accepted.sublist.nodup h.counts.nodup, ?_⟩
  intro m hm hnot
  obtain ⟨k, hk, hqueued⟩ := h.queued
  obtain ⟨rest, hrest⟩ := h.accepted
  rw [← hrest, List.mem_append] at hm
  rw [hqueued, ← hrest, List.drop_append_of_le_length hk]
  exact List.mem_append_right _ (hm.resolve_left hnot)

/-! ## A small run -/

/-- A worker. -/
def smallWorker : MessageOrigin := .worker ⟨List.replicate 32 1, rfl⟩

/-- Signatures that are all taken for valid. -/
def smallCrypto : Crypto where
  dataBeSigned _ sequence := [UInt8.ofNat sequence]
  sr25519Verify _ _ _ := true

/-- Nothing has happened. -/
def smallNet : Net where
  queue := ∅
  relayed := []
  pool := []
  pallet := ⟨∅, []⟩
  blocks := []

/-- The message with a number. -/
def smallMessage (sequence : ℕ) : SignedMessage :=
  sign smallCrypto (fun _ => List.replicate 64 0)
    { sender := smallWorker, destination := [97], payload := [] } sequence

/-- Two messages are pushed and relayed, the second one first; the first one is accepted, comes
again, and is purged. -/
def smallActions : List Action :=
  [.push smallWorker (fun _ => List.replicate 64 0) [] [97],
    .push smallWorker (fun _ => List.replicate 64 0) [] [97], .fetch smallWorker,
    .submit (smallMessage 1), .submit (smallMessage 0), .submit (smallMessage 0),
    .execute (smallMessage 0) none, .newBlock, .purge 0]

/-- One message is accepted, and the other one is queued. -/
def smallCheck (p : Net × Logs) : Bool :=
  decide (p.2.pushed.length = 2 ∧ p.2.accepted.length = 1 ∧
    (messages p.1.queue smallWorker).length = 1)

theorem exactly_once_in_order_small :
    ∃ p, Reached smallCrypto smallWorker p ∧
      (p.2.pushed.length = 2 ∧ p.2.accepted.length = 1 ∧ (messages p.1.queue smallWorker).length = 1) ∧
      p.2.accepted <+: p.2.pushed ∧ p.2.accepted.Nodup ∧
        ∀ m ∈ p.2.pushed, m ∉ p.2.accepted → m ∈ messages p.1.queue smallWorker := by
  have hstart : Reached smallCrypto smallWorker (smallNet, ⟨[], []⟩) := by
    refine .start ⟨⟨rfl, ?_, ?_, ?_, rfl, ?_⟩, rfl⟩
    · intro sender m hm
      cases hm
    · intro m hm
      cases hm
    · intro m hm
      cases hm
    · intro ingress hmem
      cases hmem
  have hrun : (Runs.exec (Runs.observe (Net.step smallCrypto smallWorker)
      (note smallCrypto smallWorker)) (smallNet, ⟨[], []⟩) smallActions).any smallCheck = true := by
    decide +kernel
  obtain ⟨p, hp, hcheck⟩ := hstart.exists_of_exec (Runs.guarded_true smallActions _) hrun
  exact ⟨p, hp, of_decide_eq_true hcheck, exactly_once_in_order hp⟩

end Mq
