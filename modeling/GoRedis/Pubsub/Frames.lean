import GoRedis.Protocol.Values
import GoRedis.Pubsub.Message
/-!
# Push frames are serialized values

The six encoders write what the serializer would write for an array of bulk strings, the
confirmations with an integer at the end. A client that reads values off a connection therefore
gets the arrays back one by one, whatever bytes the names and the payloads contain.
-/
namespace GoRedis
open Response

/-- A frame that the server pushes to a subscriber. -/
inductive PushFrame
  | message (channel payload : Bytes)
  | pmessage (pattern channel payload : Bytes)
  | subscribeAck (channel : Bytes) (count : Int)
  | unsubscribeAck (channel : Bytes) (count : Int)
  | psubscribeAck (pattern : Bytes) (count : Int)
  | punsubscribeAck (pattern : Bytes) (count : Int)

namespace PushFrame

/-- The bytes that the encoder of the frame writes. -/
def encode : PushFrame → Bytes
  | message channel payload => encodePubSubMessage channel payload
  | pmessage pattern channel payload => encodePMessage pattern channel payload
  | subscribeAck channel count => encodeSubscribeAck channel count
  | unsubscribeAck channel count => encodeUnsubscribeAck channel count
  | psubscribeAck pattern count => encodePSubscribeAck pattern count
  | punsubscribeAck pattern count => encodePUnsubscribeAck pattern count

/-- The array that a confirmation stands for. -/
def ack (kind : String) (name : Bytes) (count : Int) : Response :=
  array [bulkString (utf8 kind),bulkString name,integer count]

/-- The array that the frame stands for. -/
def value : PushFrame → Response
  | message channel payload => bulks [utf8 "message",channel,payload]
  | pmessage pattern channel payload => bulks [utf8 "pmessage",pattern,channel,payload]
  | subscribeAck channel count => ack "subscribe" channel count
  | unsubscribeAck channel count => ack "unsubscribe" channel count
  | psubscribeAck pattern count => ack "psubscribe" pattern count
  | punsubscribeAck pattern count => ack "punsubscribe" pattern count

/-- The text in front of the first name: the number of elements, the keyword as a bulk string and
the type byte of the name. -/
def opening (elems : Nat) (kind : String) : Bytes :=
  42::(formatNat elems++crlf)++encodeBulk (utf8 kind)++[36]

theorem encodeAck_eq_serialize {head kind : String} (h : utf8 head=opening 3 kind) (name : Bytes)
    (count : Int) : encodeAck head name count=serialize (ack kind name count) := by
  have hsep : utf8 "\r\n:"=crlf++[58] := rfl
  rw [encodeAck,h,hsep]
  simp [opening,ack,serialize,serializeAll,encodeBulk]

theorem encode_eq_serialize (f : PushFrame) : f.encode=serialize f.value := by
  have hsep : utf8 "\r\n$"=crlf++[36] := rfl
  cases f with
  | message channel payload =>
    have hopen : utf8 "*3\r\n$7\r\nmessage\r\n$"=opening 3 "message" := by decide
    rw [encode,encodePubSubMessage,hopen,hsep]
    simp [opening,value,bulks,serialize,serializeAll,encodeBulk]
  | pmessage pattern channel payload =>
    have hopen : utf8 "*4\r\n$8\r\npmessage\r\n$"=opening 4 "pmessage" := by decide
    rw [encode,encodePMessage,hopen,hsep]
    simp [opening,value,bulks,serialize,serializeAll,encodeBulk]
  | subscribeAck channel count => exact encodeAck_eq_serialize (by decide) channel count
  | unsubscribeAck channel count => exact encodeAck_eq_serialize (by decide) channel count
  | psubscribeAck pattern count => exact encodeAck_eq_serialize (by decide) pattern count
  | punsubscribeAck pattern count => exact encodeAck_eq_serialize (by decide) pattern count

theorem value_oneLine (f : PushFrame) : f.value.Every OneLine := by
  have hbulk : ∀ s, (bulkString s).Every OneLine := fun s => (every_leaf rfl).mpr trivial
  have hint : ∀ n, (integer n).Every OneLine := fun n => (every_leaf rfl).mpr trivial
  cases f <;> simp [value,ack,bulks,every_array,OneLine,hbulk,hint]

theorem flatMap_encode (frames : List PushFrame) :
    frames.flatMap encode=serializeAll (frames.map value) := by
  induction frames with
  | nil => rfl
  | cons f frames ih => rw [List.flatMap_cons,List.map_cons,serializeAll,ih,encode_eq_serialize]

end PushFrame

/-- `n` calls of `ReadValue` one after the other; the loop is the one of `readArray`. -/
def readValues (n : Nat) (input : Bytes) : Read (List Response) := readElems readValue n 0 input

/-- Each of the six encoders writes the serialization of its array. The frames of a connection,
with names, payloads and counts that a Go program can hold, are read back as their arrays in
order, and what follows them is left unread. -/
theorem pushFrames_read : (∀ f : PushFrame, f.encode=serialize f.value) ∧
    ∀ (frames : List PushFrame) (rest : Bytes), (∀ f ∈ frames, f.value.Every Held) →
      readValues frames.length (frames.flatMap PushFrame.encode++rest)=
        .ok (.ok (frames.map PushFrame.value,rest)) := by
  refine ⟨PushFrame.encode_eq_serialize,fun frames rest held => ?_⟩
  have hread : ∀ v ∈ frames.map PushFrame.value, ∀ rest,
      readValue (serialize v++rest)=readOk v rest := by
    intro v hv rest
    obtain ⟨f,hf,rfl⟩ := List.mem_map.mp hv
    exact readValue_serialize _ (held f hf) f.value_oneLine rest
  have hall := readElems_serializeAll readValue (frames.map PushFrame.value) hread 0 rest
  rw [List.length_map] at hall
  rw [PushFrame.flatMap_encode]
  exact hall

/-- A payload that looks like a frame, behind a confirmation. -/
theorem pushFrames_read_nested : readValues 2 ([PushFrame.subscribeAck (utf8 "c") 1,
    .message (utf8 "c") (utf8 "\r\n:1\r\n")].flatMap PushFrame.encode++utf8 "+")=
      .ok (.ok ([array [bulkString (utf8 "subscribe"),bulkString (utf8 "c"),integer 1],
        bulks [utf8 "message",utf8 "c",utf8 "\r\n:1\r\n"]],utf8 "+")) :=
  pushFrames_read.2 [.subscribeAck (utf8 "c") 1,.message (utf8 "c") (utf8 "\r\n:1\r\n")] (utf8 "+")
    (by decide)

end GoRedis
