/-
  Direct messages: every recipient has an inbox, an internal topic with one partition, which
  the direct runtime keeps in the log the broker was opened with (`direct/runtime.go`; the commands in
  `service_apply.go`).
-/
import Ech0.Broker.Runtime

set_option autoImplicit false

namespace Ech0.Broker

open Ech0.Lib Ech0.Store

def hasPrefix (text start : String) : Bool := start.toList.isPrefixOf text.toList

def header (key value : String) : RecordHeader := ⟨key, bytesOfString value⟩

/-- `headerString` and `requiredHeader`: the first header of the key, or nothing. -/
def headerString (headers : List RecordHeader) (key : String) : String :=
  match headers.find? fun h => h.key = key with
  | some h => stringOfBytes h.value
  | none => ""

namespace Direct

def internalInboxTopicPrefix : String := "__direct.inbox"

def inboxShardCount : Nat := 256

def headerMessageID : String := "x-direct-message-id"
def headerConversationID : String := "x-direct-conversation-id"
def headerSender : String := "x-direct-sender"
def headerRecipient : String := "x-direct-recipient"

/-- `directAttributeFlag`, `1 << 0`. -/
def directAttributeFlag : Nat := 1

structure Message where
  messageID : String
  conversationID : String
  sender : String
  recipient : String
  timestampMS : Nat
  payload : Bytes
  deriving DecidableEq

structure SendResult where
  messageID : String
  conversationID : String
  offset : Nat
  nextOffset : Nat
  deriving DecidableEq

structure InboxRecord where
  offset : Nat
  message : Message
  deriving DecidableEq

structure FetchInboxResult where
  recipient : String
  records : List InboxRecord := []
  nextOffset : Nat := 0
  highWatermark : Option Nat := none
  lowWatermark : Option Nat := none
  logStartOffset : Nat := 0
  deriving DecidableEq

def isInternalTopicName (topic : String) : Bool :=
  topic = internalInboxTopicPrefix ∨ hasPrefix topic (internalInboxTopicPrefix ++ ".")
    ∨ hasPrefix topic (internalInboxTopicPrefix ++ "/")

/-- The two lower-case hexadecimal digits of a byte. -/
def hexByte (b : UInt8) : List Char :=
  [Nat.digitChar (b.toNat / 16), Nat.digitChar (b.toNat % 16)]

def hexEncode (value : String) : String :=
  String.ofList ((bytesOfString value).flatMap hexByte)

/-- `shard`: a `uint64` hash, modulo the number of inbox shards. -/
def shard (recipient : String) : UInt8 :=
  UInt8.ofNat ((bytesOfString recipient).foldl
    (fun hash b => (hash * 31 + b.toNat) % 2 ^ 64) 0 % inboxShardCount)

def inboxTopic (recipient : String) : String :=
  internalInboxTopicPrefix ++ "/" ++ String.ofList (hexByte (shard recipient)) ++ "/"
    ++ hexEncode recipient

def consumerName (recipient : String) : String := "__direct.consumer/" ++ recipient

def inboxTopicConfig (name : String) : TopicConfig :=
  { newTopicConfig name with
    partitions := 1
    segmentMaxBytes := 1024 * 1024
    indexIntervalBytes := 1024 }

/-- The partition of a recipient's inbox. -/
def inboxPartition (recipient : String) : TopicPartition := ⟨inboxTopic recipient, 0⟩

def defaultConversationID (a b : String) : String :=
  match sortedStrings [a, b] with
  | [first, second] => first ++ ":" ++ second
  | _ => ""

def nextMessageID : Handling String := do
  let now ← nowMS
  let sequence ← Prog.perform (I := calls) (ε := Error) .directSequence
  pure ("dm-" ++ showNat now ++ "-" ++ showNat sequence)

/-- `ensureInbox`: an inbox whose log topic exists has its configuration saved again. -/
def ensureInbox (recipient : String) : Handling Unit := do
  let topicName := inboxTopic recipient
  let found ← wrapBroker "check inbox topic" (onLog .main (.topicExists topicName))
  let cfg := inboxTopicConfig topicName
  if found then wrapBroker "save inbox topic" (onMeta (.saveTopicConfig cfg))
  else
    match ← Prog.attempt (QueueRuntime.createTopic .main cfg) with
    | .ok () => pure ()
    | .error err =>
      if err.code = .topicExists then pure ()
      else Prog.fail (err.wrap "create inbox topic")

/-- The record `Send` publishes. -/
def Message.append (message : Message) : RecordAppend :=
  { timestampMS := some message.timestampMS
    headers :=
      [header headerMessageID message.messageID,
       header headerConversationID message.conversationID,
       header headerSender message.sender,
       header headerRecipient message.recipient]
    attributes := directAttributeFlag
    payload := message.payload }

def send (sender recipient : String) (conversationID : Option String) (payload : Bytes) :
    Handling SendResult := do
  if sender = "" ∨ recipient = "" then
    Prog.fail ((E .invalidArgument "sender and recipient are required").wrap
      "validate direct message")
  else
    wrapBroker "ensure inbox" (ensureInbox recipient)
    let messageID ← nextMessageID
    let timestampMS ← nowMS
    let message : Message :=
      { messageID := messageID
        conversationID :=
          match conversationID with
          | some id => if id ≠ "" then id else defaultConversationID sender recipient
          | none => defaultConversationID sender recipient
        sender := sender
        recipient := recipient
        timestampMS := timestampMS
        payload := payload }
    let record ← wrapBroker "publish direct message"
      (QueueRuntime.publishRecord .main (inboxPartition recipient) message.append)
    pure { messageID := message.messageID, conversationID := message.conversationID,
           offset := record.offset, nextOffset := record.offset + 1 }

def decodeRecord (record : Record) : Except Error InboxRecord :=
  if record.attributes.testBit 0 then
    let message : Message :=
      { messageID := headerString record.headers headerMessageID
        conversationID := headerString record.headers headerConversationID
        sender := headerString record.headers headerSender
        recipient := headerString record.headers headerRecipient
        timestampMS := record.timestampMS
        payload := record.payload }
    if message.messageID = "" ∨ message.conversationID = "" ∨ message.sender = ""
        ∨ message.recipient = "" then
      .error ((E .codec "direct inbox record missing required headers").wrap "decode inbox record")
    else .ok ⟨record.offset, message⟩
  else
    .error ((E .codec "direct inbox record missing direct attribute").wrap "decode inbox record")

/-- `FetchInboxForConsumer`: an inbox that does not exist is empty. -/
def fetchInboxForConsumer (consumer recipient : String) (maxRecords : Nat) :
    Handling FetchInboxResult := do
  match ← Prog.attempt
      (QueueRuntime.fetch .main consumer (inboxPartition recipient) none maxRecords) with
  | .error err =>
    if err.code = .topicNotFound then pure { recipient := recipient }
    else Prog.fail (err.wrap "fetch inbox")
  | .ok poll =>
    let records ← wrapBroker "decode inbox record"
      (Prog.ofExcept (poll.records.mapM decodeRecord))
    pure { recipient := recipient, records := records, nextOffset := poll.nextOffset,
           highWatermark := poll.highWatermark, lowWatermark := poll.lowWatermark,
           logStartOffset := poll.logStartOffset }

def fetchInbox (recipient : String) (maxRecords : Nat) : Handling FetchInboxResult :=
  fetchInboxForConsumer (consumerName recipient) recipient maxRecords

def ackInboxForConsumer (consumer recipient : String) (nextOffset : Nat) : Handling Unit :=
  wrapBroker "ack inbox" (QueueRuntime.ack consumer (inboxPartition recipient) nextOffset)

def ackInbox (recipient : String) (nextOffset : Nat) : Handling Unit :=
  ackInboxForConsumer (consumerName recipient) recipient nextOffset

end Direct

structure DirectCommand where
  sender : String
  recipient : String
  conversationID : Option String := none
  payload : Bytes

structure AckDirectCommand where
  recipient : String
  consumer : String := ""
  nextOffset : Nat

def applyDirectSend (req : DirectCommand) : Handling Direct.SendResult :=
  wrapBroker "send direct message"
    (Direct.send req.sender req.recipient req.conversationID req.payload)

/-- `applyDirectAck`: with a consumer given, the inbox is acknowledged for the recipient's own
consumer first, and only the outcome of the second acknowledgement is kept. -/
def applyDirectAck (req : AckDirectCommand) : Handling Unit := do
  let result ← Prog.attempt (Direct.ackInbox req.recipient req.nextOffset)
  let result ←
    if req.consumer ≠ "" then
      Prog.attempt (Direct.ackInboxForConsumer req.consumer req.recipient req.nextOffset)
    else pure result
  wrapBroker "ack direct inbox" (Prog.ofExcept result)

end Ech0.Broker
