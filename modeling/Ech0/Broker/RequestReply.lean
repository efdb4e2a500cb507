/-
  Waiting for the replies to a request (`AwaitReplies`).

  The replies to a request are direct messages in the requester's inbox, among everything else that is
  sent there. The wait reads the inbox in batches, with a cursor of its own, and takes the messages that
  carry the correlation id of the request. A message that is no reply at all makes the wait fail, and a
  batch without a reply costs an interval of the time that there is. So the replies come as if nothing
  else was in the inbox exactly when every message that the wait gets to before it has its replies is a
  reply to some request, and no reply is further back than the deadline allows.
-/
import Ech0.Broker.InboxCursors
import Ech0.Broker.Scope
import Ech0.Store.MemoryLog

set_option autoImplicit false

namespace Ech0.Broker

open Ech0.Lib Ech0.Store StorxLogStore Prog List Direct

variable {record : Record} {records : List Record}

/-! ## Envelopes (`request_reply_codec.go`, `request_reply_types.go`) -/

def replyEnvelopeType : String := "ech0.reply.v1"

def defaultReplyFetchRecords : Nat := 16

/-- `requestReplyEnvelope`, as far as a reply has it. -/
structure RequestReplyEnvelope where
  type : String
  subject : String
  correlationID : String
  senderID : String := ""
  error : Option String := none
  payload : Bytes := []

structure PendingRequest where
  replyTo : String
  correlationID : String

structure ReplyMessage where
  offset : Nat := 0
  subject : String
  correlationID : String
  senderID : String
  error : Option String
  payload : Bytes
  message : Direct.Message
  deriving DecidableEq

section Await

-- `unmarshalJSON`, a library function: an envelope, or the text of an error
variable (unmarshal : Bytes → Except String RequestReplyEnvelope)

def decodeRequestReplyEnvelope (payload : Bytes) (wantType : String) :
    Except Error RequestReplyEnvelope :=
  match unmarshal payload with
  | .error text => .error ((E .other text).wrap "decode request reply envelope")
  | .ok envelope =>
    if envelope.type ≠ wantType then
      .error (brokerStoreError .codec
        ("unexpected request reply envelope type \"" ++ envelope.type ++ "\""))
    else if envelope.correlationID = "" then
      .error (brokerStoreError .codec "request reply envelope missing correlation_id")
    else .ok envelope

def replyFromDirect (message : Direct.Message) : Except Error ReplyMessage :=
  (decodeRequestReplyEnvelope unmarshal message.payload replyEnvelopeType).map fun envelope =>
    { subject := envelope.subject
      correlationID := envelope.correlationID
      senderID := envelope.senderID
      error := envelope.error
      payload := envelope.payload
      message := message }

/-! ## The wait (`request_reply_await.go`) -/

/-- What the wait makes of a record of the inbox. -/
def readReply (pending : PendingRequest) (record : Record) : Except Error (Option ReplyMessage) := do
  let inbox ← Direct.decodeRecord record
  let reply ← replyFromDirect unmarshal inbox.message
  if reply.correlationID ≠ pending.correlationID then .ok none
  else .ok (some { reply with offset := inbox.offset })

/-- The replies to the request, in the order of their offsets. -/
def repliesIn (pending : PendingRequest) (records : List Record) : List ReplyMessage :=
  records.filterMap fun record => (readReply unmarshal pending record).toOption.join

/-- A batch from here on is one that the inbox gives out. -/
def Readable (records : List Record) : Prop :=
  ∀ record ∈ records.take defaultReplyFetchRecords, (Direct.decodeRecord record).isOk

instance (records : List Record) : Decidable (Readable records) :=
  inferInstanceAs (Decidable (∀ record ∈ records.take defaultReplyFetchRecords, _))

/-- Nothing in these records keeps the wait from the replies. It is after `missing` more of them, can
sleep `polls` times, and has `room` more records in the batch at hand: every record it gets to is a
reply to some request, every batch it begins can be read, and there is no reply in what is left when
the time is over. -/
def Undisturbed (pending : PendingRequest) : Nat → Nat → Nat → List Record → Prop
  | 0, _, _, _ => True
  | _ + 1, _, _, [] => True
  | missing + 1, polls, room, record :: rest =>
    if room = 0 ∧ polls = 0 then repliesIn unmarshal pending (record :: rest) = []
    else
      let polls' := if room = 0 then polls - 1 else polls
      let room' := if room = 0 then defaultReplyFetchRecords - 1 else room - 1
      (room = 0 → Readable (record :: rest)) ∧
        match readReply unmarshal pending record with
        | .error _ => False
        | .ok none => Undisturbed pending (missing + 1) polls' room' rest
        | .ok (some _) => (missing = 0 ∨ Readable rest) ∧
            Undisturbed pending missing polls' defaultReplyFetchRecords rest

instance decidableUndisturbed (pending : PendingRequest) : ∀ missing polls room records,
    Decidable (Undisturbed unmarshal pending missing polls room records)
  | 0, _, _, [] => isTrue trivial
  | 0, _, _, _ :: _ => isTrue trivial
  | _ + 1, _, _, [] => isTrue trivial
  | missing + 1, polls, room, record :: rest => by
    have := fun missing polls room => decidableUndisturbed pending missing polls room rest
    unfold Undisturbed
    rcases readReply unmarshal pending record with _ | _ | _ <;> infer_instance

section Scan

variable {unmarshal} {pending : PendingRequest}

end Scan

/-! ## The wait and the inbox -/

/-- What a consumer has not read of an inbox. -/
def World.unread (w : World) (consumer recipient : String) : List Record :=
  (w.log.recordsAt (Direct.inboxPartition recipient)).filter fun record =>
    ¬ record.offset < (w.cursor consumer (Direct.inboxPartition recipient)).getD 0

section Inbox

variable {w : World} {consumer recipient : String}

section Replies

variable {unmarshal} {identity : Identity} {pending : PendingRequest}

end Replies

end Inbox

end Await

end Ech0.Broker
