import GoRedis.Commands.Reply
import GoRedis.Lib.Calls
import GoRedis.Pubsub.Message
/-!
# The handler of one connection

`serve` reads a request, answers it and reads the next. Its transaction and subscription state
belong to the connection alone; the router and the broker are shared, and each call of
them takes and releases their locks. The handler is therefore a program of such calls, between
which other connections may make theirs.
-/
namespace GoRedis
open Calls

/-- What a handler asks of the router and the broker. -/
inductive Call
  | keyVersion (key : Bytes)
  | dispatch (args : List Bytes)
  | subscribe (channel : Bytes)
  | unsubscribe (channel : Bytes)
  | psubscribe (pattern : Bytes)
  | punsubscribe (pattern : Bytes)
  deriving DecidableEq

/-- What comes back. -/
@[reducible] def Call.Result : Call → Type
  | keyVersion _ => UInt64
  | dispatch _ => Response
  | _ => Unit

abbrev HandlerM := Prog Call Call.Result

/-- `h.router.KeyVersion(key)` -/
def callKeyVersion (key : Bytes) : HandlerM UInt64 := Prog.request (Call.keyVersion key)

/-- `h.router.Dispatch(args)` -/
def callDispatch (args : List Bytes) : HandlerM Response := Prog.request (Call.dispatch args)

/-- The fields of `handler`: whether there is a broker and, once the client has subscribed, a
subscriber; the subscriptions; the transaction; the watched keys with their versions. -/
structure Handler where
  broker : Bool
  sub : Bool
  subChans : KeySet
  subPatterns : KeySet
  inMulti : Bool
  txQueue : List (List Bytes)
  txErrors : Int
  watchedKeys : Map UInt64

/-- A request as `ReadCommand` returns it, which is never empty, and what surrounds the handler
while it serves it. -/
structure Request where
  world : World
  name : Bytes
  rest : List Bytes

def Request.args (q : Request) : List Bytes := q.name::q.rest

namespace Handler

/-- `newHandler` -/
def new (broker : Bool) : Handler := ⟨broker,false,∅,∅,false,[],0,∅⟩

def totalSubscriptions (h : Handler) : Int := h.subChans.size+h.subPatterns.size

/-- What differs between channels and patterns. -/
structure Registry where
  names : Handler → KeySet
  setNames : KeySet → Handler → Handler
  subscribe : Bytes → HandlerM Unit
  unsubscribe : Bytes → HandlerM Unit
  subscribeAck : Bytes → Int → Bytes
  unsubscribeAck : Bytes → Int → Bytes
  command : String

def channels : Registry where
  names := subChans
  setNames names h := { h with subChans := names }
  subscribe channel := Prog.request (Call.subscribe channel)
  unsubscribe channel := Prog.request (Call.unsubscribe channel)
  subscribeAck := encodeSubscribeAck
  unsubscribeAck := encodeUnsubscribeAck
  command := "subscribe"

def patterns : Registry where
  names := subPatterns
  setNames names h := { h with subPatterns := names }
  subscribe pattern := Prog.request (Call.psubscribe pattern)
  unsubscribe pattern := Prog.request (Call.punsubscribe pattern)
  subscribeAck := encodePSubscribeAck
  unsubscribeAck := encodePUnsubscribeAck
  command := "psubscribe"

/-- The loop of the subscribing handlers. -/
def subscribeLoop (reg : Registry) : List Bytes → Handler → HandlerM (List Bytes × Handler)
  | [],h => pure ([],h)
  | name::names,h =>
    if name ∈ reg.names h then subscribeLoop reg names h
    else do
      reg.subscribe name
      let h' := reg.setNames ((reg.names h).insert name) h
      let (acks,h'') ← subscribeLoop reg names h'
      pure (reg.subscribeAck name h'.totalSubscriptions::acks,h'')

/-- What the two subscribing handlers have in common. -/
def subscribeNames (reg : Registry) (names : List Bytes) (h : Handler) :
    HandlerM (List Bytes × Handler) :=
  if ¬h.broker then pure ([serialize (.error (utf8 "ERR pub/sub not available"))],h)
  else if names=[] then pure ([serialize (wrongArgs reg.command)],h)
  else subscribeLoop reg names { h with sub := true }

def handleSubscribe (chans : List Bytes) (h : Handler) : HandlerM (List Bytes × Handler) :=
  subscribeNames channels chans h

def handlePSubscribe (pats : List Bytes) (h : Handler) : HandlerM (List Bytes × Handler) :=
  subscribeNames patterns pats h

/-- The loop of the unsubscribing handlers. -/
def unsubscribeLoop (reg : Registry) : List Bytes → Handler → HandlerM (List Bytes × Handler)
  | [],h => pure ([],h)
  | name::names,h =>
    if name ∉ reg.names h then unsubscribeLoop reg names h
    else do
      reg.unsubscribe name
      let h' := reg.setNames ((reg.names h).erase name) h
      let (acks,h'') ← unsubscribeLoop reg names h'
      pure (reg.unsubscribeAck name h'.totalSubscriptions::acks,h'')

/-- What the two unsubscribing handlers have in common. -/
def unsubscribeNames (w : World) (reg : Registry) (names : List Bytes) (h : Handler) :
    HandlerM (List Bytes × Handler) :=
  if ¬h.sub then pure ([],h)
  else if names=[] then unsubscribeLoop reg (w.rangeOrder (reg.names h).toList) h
  else unsubscribeLoop reg names h

def handleUnsubscribe (w : World) (chans : List Bytes) (h : Handler) :
    HandlerM (List Bytes × Handler) := unsubscribeNames w channels chans h

def handlePUnsubscribe (w : World) (pats : List Bytes) (h : Handler) :
    HandlerM (List Bytes × Handler) := unsubscribeNames w patterns pats h

def handleMulti (h : Handler) : Response × Handler :=
  if h.inMulti then (.error (utf8 "ERR MULTI calls can not be nested"),h)
  else (okReply,{ h with inMulti := true,txQueue := [],txErrors := 0 })

/-- The reply to a command that ends a transaction when there is none. -/
def withoutMulti (command : String) : Response :=
  .error (utf8 "ERR "++utf8 command++utf8 " without MULTI")

/-- The end of a transaction: the deferred function of `handleExec` and the body of
`handleDiscard`. -/
def endTx (h : Handler) : Handler :=
  { h with inMulti := false,txQueue := [],txErrors := 0,watchedKeys := ∅ }

/-- The loop of `watchDirty`, over the entries in the order in which they are visited. -/
def watchDirtyLoop : List (Bytes × UInt64) → HandlerM Bool
  | [] => pure false
  | (key,ver)::entries => do
    let v ← callKeyVersion key
    if v ≠ ver then pure true else watchDirtyLoop entries

/-- The watched keys with their versions, in the order in which `range` visits them. -/
def watchEntries (w : World) (h : Handler) : List (Bytes × UInt64) :=
  (w.rangeOrder h.watchedKeys.keys).map fun key => (key,h.watchedKeys.getD key 0)

def watchDirty (w : World) (h : Handler) : HandlerM Bool := watchDirtyLoop (watchEntries w h)

/-- The digits that `itoa` writes into its buffer, from the last to the first. An `int` has at
most nineteen of them and the buffer twenty bytes. -/
def itoaLoop (n : Nat) (buf : Bytes) : Bytes :=
  if n=0 then buf else itoaLoop (n/10) (UInt8.ofNat (48+n%10)::buf)
termination_by n

def itoa (n : Int) : Bytes :=
  if n=0 then utf8 "0"
  else if n < 0 then 45::itoaLoop (wrap64 (-n)).toNat []
  else itoaLoop n.toNat []

/-- The loop of `handleExec`, which collects the serialized replies of the queued commands. -/
def execLoop : List (List Bytes) → List Bytes → HandlerM (List Bytes)
  | [],results => pure results
  | cmd::cmds,results => do
    let resp ← callDispatch cmd
    execLoop cmds (results++[serialize resp])

def handleExec (w : World) (h : Handler) : HandlerM (List Bytes × Handler) :=
  if ¬h.inMulti then pure ([serialize (withoutMulti "EXEC")],h)
  else if 0 < h.txErrors then
    pure ([serialize (.error
      (utf8 "EXECABORT Transaction discarded because of previous errors."))],h.endTx)
  else do
    let dirty ← watchDirty w h
    if dirty then pure ([serialize .nullArray],h.endTx)
    else do
      let results ← execLoop h.txQueue []
      pure ([utf8 "*"++itoa results.length++utf8 "\r\n"++results.flatten],h.endTx)

def handleDiscard (h : Handler) : Response × Handler :=
  if ¬h.inMulti then (withoutMulti "DISCARD",h) else (okReply,h.endTx)

/-- The loop of `handleWatch`. -/
def watchLoop : List Bytes → Map UInt64 → HandlerM (Map UInt64)
  | [],watched => pure watched
  | key::keys,watched => do
    let v ← callKeyVersion key
    watchLoop keys (watched.insert key v)

def handleWatch (keys : List Bytes) (h : Handler) : HandlerM (Response × Handler) :=
  if h.inMulti then pure (.error (utf8 "ERR WATCH inside MULTI is not allowed"),h)
  else if keys=[] then pure (wrongArgs "watch",h)
  else do
    let watched ← watchLoop keys h.watchedKeys
    pure (okReply,{ h with watchedKeys := watched })

end Handler

/-- The cases of the switch of `serve`. -/
inductive Verb
  | subscribe | unsubscribe | psubscribe | punsubscribe
  | multi | exec | discard | watch | unwatch
  | other
  deriving DecidableEq

def verbs : List (String × Verb) :=
  [("SUBSCRIBE",.subscribe),("UNSUBSCRIBE",.unsubscribe),("PSUBSCRIBE",.psubscribe),
   ("PUNSUBSCRIBE",.punsubscribe),("MULTI",.multi),("EXEC",.exec),("DISCARD",.discard),
   ("WATCH",.watch),("UNWATCH",.unwatch)]

/-- The case a request falls in. -/
def Request.verb (q : Request) : Verb :=
  ((verbs.map fun p => (utf8 p.1,p.2)).lookup (toUpper q.name)).getD .other

namespace Handler

/-- One turn of the loop of `serve`: what is sent to the client and the handler afterwards. -/
def serve (q : Request) (h : Handler) : HandlerM (List Bytes × Handler) :=
  match q.verb with
  | .subscribe => handleSubscribe q.rest h
  | .unsubscribe => handleUnsubscribe q.world q.rest h
  | .psubscribe => handlePSubscribe q.rest h
  | .punsubscribe => handlePUnsubscribe q.world q.rest h
  | .multi => pure ([serialize h.handleMulti.1],h.handleMulti.2)
  | .exec => handleExec q.world h
  | .discard => pure ([serialize h.handleDiscard.1],h.handleDiscard.2)
  | .watch => do
    let (resp,h') ← handleWatch q.rest h
    pure ([serialize resp],h')
  | .unwatch => pure ([serialize okReply],{ h with watchedKeys := ∅ })
  | .other =>
    if h.sub then
      pure ([serialize (.error (utf8 "ERR Command not allowed in subscription mode"))],h)
    else if h.inMulti then
      pure ([serialize (.simpleString (utf8 "QUEUED"))],{ h with txQueue := h.txQueue++[q.args] })
    else do
      let resp ← callDispatch q.args
      pure ([serialize resp],h)

end Handler
end GoRedis
