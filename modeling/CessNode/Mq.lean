/-
# The message queue between workers and chain

A model of the crate `ces-mq` and of the pallet `mq`: a worker signs its messages with consecutive
sequence numbers and keeps them in a send queue; relays bring copies of them to the chain, which
accepts a message of a sender only with the sequence number that it expects; and the worker purges
what the chain has accepted.

The encoding of what is signed and the verification of a signature are parameters (`Crypto`).  What
other pallets do with an accepted message does not touch the storage of this one.
-/
import CessNode.Common
import CessNode.StorageMap
import CessNode.Dispatch

namespace Mq

open Dispatch

/-! ## Messages -/

/-- `WorkerPublicKey`. -/
abbrev PublicKey := Bytes 32

/-- `MessageOrigin`. -/
inductive MessageOrigin where
  | pallet (name : List UInt8)
  | worker (key : PublicKey)
  | accountId (id : H256)
  | keyfairy
  | reserved
  deriving DecidableEq

namespace MessageOrigin

/-- `is_offchain`. -/
def isOffchain : MessageOrigin → Bool
  | worker _ | keyfairy => true
  | _ => false

/-- `is_pallet`. -/
def isPallet : MessageOrigin → Bool
  | pallet _ => true
  | _ => false

/-- `always_well_formed`. -/
def alwaysWellFormed : MessageOrigin → Bool
  | pallet _ | worker _ | keyfairy => true
  | _ => false

/-- `is_keyfairy`. -/
def isKeyfairy : MessageOrigin → Bool
  | keyfairy => true
  | _ => false

end MessageOrigin

/-- `Topic`. -/
abbrev Topic := List UInt8

/-- `RESERVED_BYTES`. -/
def reservedBytes : List UInt8 := "~!@#$%&*_+-=|<>?,./;:'".toUTF8.toList

/-- `Topic::is_valid`. -/
def isValidTopic : Topic → Bool
  | [] => false
  | first :: _ => !reservedBytes.contains first

/-- `Topic::is_offchain`: the first byte is not `^`. -/
def isOffchainTopic (topic : Topic) : Bool :=
  isValidTopic topic && topic.head? != some 94

/-- `Message`. -/
structure Message where
  sender : MessageOrigin
  destination : Topic
  payload : List UInt8
  deriving DecidableEq

/-- `SignedMessage`. -/
structure SignedMessage where
  message : Message
  sequence : ℕ
  signature : List UInt8
  deriving DecidableEq

/-- What is signed, and how a signature is verified. -/
structure Crypto where
  /-- `encode` of `MessageToBeSigned`. -/
  dataBeSigned : Message → ℕ → List UInt8
  sr25519Verify : Bytes 64 → List UInt8 → PublicKey → Bool

/-! ## The send queue -/

/-- `Channel`. -/
structure Channel where
  sequence : ℕ := 0
  messages : List SignedMessage := []
  dummy : Bool := false

/-- `MessageSendQueue`. -/
abbrev SendQueue := StorageMap MessageOrigin Channel

/-- The entry of a sender, or a new one. -/
def entry (queue : SendQueue) (sender : MessageOrigin) : Channel := (queue.lookup sender).getD {}

/-- `enqueue_message`. -/
def enqueueMessage (queue : SendQueue) (sender : MessageOrigin) (constructor : ℕ → SignedMessage) :
    SendQueue :=
  let channel := entry queue sender
  let messages :=
    if channel.dummy = true then channel.messages
    else channel.messages ++ [constructor channel.sequence]
  queue.insert sender
    { channel with messages := messages, sequence := (channel.sequence + 1) % 2 ^ 64 }

/-- `SigningMessage::sign`. -/
def sign (C : Crypto) (signer : List UInt8 → List UInt8) (message : Message) (sequence : ℕ) :
    SignedMessage :=
  { message := message, sequence := sequence, signature := signer (C.dataBeSigned message sequence) }

/-- `push_data` of a channel with a sender and a signer. -/
def pushData (C : Crypto) (queue : SendQueue) (sender : MessageOrigin)
    (signer : List UInt8 → List UInt8) (payload : List UInt8) (destination : Topic) : SendQueue :=
  enqueueMessage queue sender
    (sign C signer { sender := sender, destination := destination, payload := payload })

/-- `messages`. -/
def messages (queue : SendQueue) (sender : MessageOrigin) : List SignedMessage :=
  (entry queue sender).messages

/-- Drop the messages of a channel below a sequence number. -/
def Channel.purge (seq : ℕ) (channel : Channel) : Channel :=
  { channel with messages := channel.messages.filter fun msg => decide (seq ≤ msg.sequence) }

/-- `purge`. -/
def purge (queue : SendQueue) (nextSequenceFor : MessageOrigin → ℕ) : SendQueue :=
  queue.keys.foldl (fun q sender =>
    match q.lookup sender with
    | some channel => q.insert sender (channel.purge (nextSequenceFor sender))
    | none => q) queue

/-! ## The pallet -/

/-- The storage of the pallet. -/
structure Pallet where
  offchainIngress : StorageMap MessageOrigin ℕ
  outboundMessages : List Message

/-- The errors of the pallet. -/
inductive Error where
  | badSender
  | badSequence
  | badDestination
  | cannotHandleUnknownMessage
  | invalidSignatureLength
  | invalidSignature
  | masterKeyUninitialized
  deriving DecidableEq, Repr

/-- Why a transaction is not valid. -/
inductive InvalidTransaction where
  | stale
  | future
  deriving DecidableEq, Repr

/-- The next sequence number of a sender. -/
def expectedSeq (ingress : StorageMap MessageOrigin ℕ) (sender : MessageOrigin) : ℕ :=
  (ingress.lookup sender).getD 0

/-- `pre_dispatch` of `CheckMqSequence`. -/
def preDispatch (p : Pallet) (signed : SignedMessage) : Except InvalidTransaction Unit :=
  let expected := expectedSeq p.offchainIngress signed.message.sender
  if signed.sequence ≠ expected then
    .error (if signed.sequence < expected then .stale else .future)
  else .ok ()

/-- `validate` of `CheckMqSequence`: the sequence numbers, of the same sender, that the transaction
provides and requires. -/
def validate (p : Pallet) (signed : SignedMessage) :
    Except InvalidTransaction (List ℕ × List ℕ) :=
  let expected := expectedSeq p.offchainIngress signed.message.sender
  if signed.sequence < expected then .error .stale
  else .ok ([signed.sequence], if expected < signed.sequence then [signed.sequence - 1] else [])

/-- `verify_signature`. -/
def verifySignature (C : Crypto) (key : PublicKey) (signed : SignedMessage) :
    EStateM Error Pallet Unit :=
  if h : signed.signature.length = 64 then
    ensure (C.sr25519Verify ⟨signed.signature, h⟩ (C.dataBeSigned signed.message signed.sequence) key =
      true) .invalidSignature
  else throw .invalidSignatureLength

/-- `check_message`; the master key is that of the pallet `tee-worker`. -/
def checkMessage (C : Crypto) (masterPubkey : Option PublicKey) (signed : SignedMessage) :
    EStateM Error Pallet Unit :=
  match signed.message.sender with
  | .worker key => verifySignature C key signed
  | .keyfairy => do
    let key ← okOr masterPubkey .masterKeyUninitialized
    verifySignature C key signed
  | _ => throw .cannotHandleUnknownMessage

/-- `dispatch_message`. -/
def dispatchMessage (message : Message) : EStateM Error Pallet Unit :=
  if isOffchainTopic message.destination = true then
    modify fun p => { p with outboundMessages := p.outboundMessages ++ [message] }
  else pure ()

/-- `sync_offchain_message`. -/
def syncOffchainMessage (C : Crypto) (masterPubkey : Option PublicKey) (signed : SignedMessage) :
    EStateM Error Pallet Unit := do
  let sender := signed.message.sender
  ensure (sender.isOffchain = true) .badSender
  ensure (isValidTopic signed.message.destination = true) .badDestination
  let expected := expectedSeq (← get).offchainIngress sender
  ensure (signed.sequence = expected) .badSequence
  checkMessage C masterPubkey signed
  modify fun p =>
    { p with offchainIngress := p.offchainIngress.insert sender ((expected + 1) % 2 ^ 64) }
  dispatchMessage signed.message

/-- `push_message`. -/
def pushMessage (origin : H256) (destination : Topic) (payload : List UInt8) :
    EStateM Error Pallet Unit :=
  dispatchMessage { sender := .accountId origin, destination := destination, payload := payload }

end Mq
