import GoRedis.Protocol.Serializer
/-!
# Push frames

The messages a subscriber gets and the confirmations for a subscription, written out by hand in
the source and not through the serializer.
-/
namespace GoRedis

def encodePubSubMessage (channel payload : Bytes) : Bytes :=
  utf8 "*3\r\n$7\r\nmessage\r\n$"++formatNat channel.length++crlf++channel++utf8 "\r\n$"++
    formatNat payload.length++crlf++payload++crlf

def encodePMessage (pattern channel payload : Bytes) : Bytes :=
  utf8 "*4\r\n$8\r\npmessage\r\n$"++formatNat pattern.length++crlf++pattern++utf8 "\r\n$"++
    formatNat channel.length++crlf++channel++utf8 "\r\n$"++
    formatNat payload.length++crlf++payload++crlf

/-- The format the four confirmations share, given the text before the length of the name. -/
def encodeAck (head : String) (name : Bytes) (subscriptions : Int) : Bytes :=
  utf8 head++formatNat name.length++crlf++name++utf8 "\r\n:"++formatInt subscriptions++crlf

def encodeSubscribeAck : Bytes → Int → Bytes := encodeAck "*3\r\n$9\r\nsubscribe\r\n$"

def encodeUnsubscribeAck : Bytes → Int → Bytes := encodeAck "*3\r\n$11\r\nunsubscribe\r\n$"

def encodePSubscribeAck : Bytes → Int → Bytes := encodeAck "*3\r\n$10\r\npsubscribe\r\n$"

def encodePUnsubscribeAck : Bytes → Int → Bytes := encodeAck "*3\r\n$12\r\npunsubscribe\r\n$"

end GoRedis
