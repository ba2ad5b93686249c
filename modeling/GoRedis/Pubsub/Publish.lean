import GoRedis.Lib.Delivery
import GoRedis.Pubsub.Broker
import GoRedis.Pubsub.Message
/-!
# Publishing

`Publish` takes a snapshot of the subscribers of the channel and of the patterns that match it
and then sends one frame after the other. The inbox of a subscriber is a buffered channel that is
never closed; a send to a full inbox or to a subscriber that has gone is dropped and not counted.
-/
namespace GoRedis

def inboxSize : Nat := 256

/-- A `Subscriber`: what its inbox buffers, and whether `done` is closed. -/
structure Subscriber where
  inbox : List Bytes
  done : Bool
  inbox_le : inbox.length ≤ inboxSize

namespace Subscriber

/-- `NewSubscriber` -/
def new : Subscriber := ⟨[],false,Nat.zero_le _⟩

def send (s : Subscriber) (msg : Bytes) : Bool × Subscriber :=
  if s.done then (false,s)
  else if h : s.inbox.length < inboxSize then
    (true,{ s with inbox := s.inbox++[msg], inbox_le := by simpa using h })
  else (false,s)

def close (s : Subscriber) : Subscriber := { s with done := true }

variable {s : Subscriber} {msg : Bytes}

theorem send_of_done (h : s.done=true) : s.send msg=(false,s) := if_pos h

theorem send_of_full (h : s.inbox.length=inboxSize) : s.send msg=(false,s) := by
  simp [send,h]

theorem send_of_lt (hd : s.done=false) (h : s.inbox.length < inboxSize) :
    (s.send msg).1=true ∧ (s.send msg).2.inbox=s.inbox++[msg] ∧ (s.send msg).2.done=false := by
  simp [send,hd,h]

open Delivery

theorem receive_of_done (h : s.done=true) (msgs : List Bytes) : receive send msgs s=(0,s) := by
  induction msgs with
  | nil => rfl
  | cons msg msgs ih => simp [receive,send_of_done h,ih]

theorem receive_of_full (h : s.inbox.length=inboxSize) (msgs : List Bytes) :
    receive send msgs s=(0,s) := by
  induction msgs with
  | nil => rfl
  | cons msg msgs ih => simp [receive,send_of_full h,ih]

theorem receive_of_open (h : s.done=false) (msgs : List Bytes) :
    (receive send msgs s).1=(msgs.take (inboxSize-s.inbox.length)).length ∧
      (receive send msgs s).2.done=false ∧
      (receive send msgs s).2.inbox=s.inbox++msgs.take (inboxSize-s.inbox.length) := by
  induction msgs generalizing s with
  | nil => simp [receive,h]
  | cons msg msgs ih =>
    rcases Nat.lt_or_eq_of_le s.inbox_le with hlt | hfull
    · obtain ⟨hok,hinbox,hdone⟩ := @send_of_lt s msg h hlt
      obtain ⟨hcount,hdone',hinbox'⟩ := ih hdone
      obtain ⟨room,hroom⟩ : ∃ room, inboxSize-s.inbox.length=room+1 :=
        ⟨inboxSize-s.inbox.length-1,by omega⟩
      have hnext : inboxSize-(s.send msg).2.inbox.length=room := by
        rw [hinbox,List.length_append,List.length_singleton]
        omega
      rw [hnext] at hcount hinbox'
      rw [receive,hroom,List.take_succ_cons]
      refine ⟨?_,hdone',?_⟩
      · rw [hok,hcount,List.length_cons,Bool.toNat_true,Nat.add_comm]
      · rw [hinbox',hinbox,List.append_assoc,List.singleton_append]
    · rw [receive_of_full hfull]
      simp [hfull,h]

theorem receive_count (s : Subscriber) (msgs : List Bytes) :
    (receive send msgs s).1=(receive send msgs s).2.inbox.length-s.inbox.length := by
  cases h : s.done with
  | true => simp [receive_of_done h]
  | false =>
    obtain ⟨hcount,_,hinbox⟩ := receive_of_open h msgs
    rw [hcount,hinbox,List.length_append]
    omega

end Subscriber

/-- The orders in which the `range` loops of one `Publish` visit sets of subscribers: the set of
the channel, and the set of each pattern. -/
structure Visits (S : Type) where
  order : Option Bytes → Finset S → List S
  order_perm : ∀ loop subs, (order loop subs : Multiset S)=subs.val

namespace Visits
variable {S : Type} (v : Visits S) (loop : Option Bytes) (subs : Finset S)

theorem nodup_order : (v.order loop subs).Nodup := by
  rw [← Multiset.coe_nodup,v.order_perm]
  exact subs.nodup

@[simp] theorem mem_order (sub : S) : sub ∈ v.order loop subs ↔ sub ∈ subs := by
  rw [← Multiset.mem_coe,v.order_perm,Finset.mem_val]

theorem sentTo_order [DecidableEq S] (sub : S) (msg : Bytes) :
    Delivery.sentTo sub ((v.order loop subs).map fun j => (j,msg))=
      if sub ∈ subs then [msg] else [] := by
  rw [Delivery.sentTo_broadcast (v.nodup_order loop subs)]
  simp only [mem_order]

end Visits

namespace Broker
variable {S : Type} [DecidableEq S]
open Delivery

/-- The loop that fills `exactSnapshot`. -/
def exactSnapshot (v : Visits S) (b : Broker S) (channel : Bytes) : List S :=
  v.order none (b.channels.getD channel ∅)

/-- The loop that fills `patternMatches`; a pattern that is not valid does not match. -/
def patternMatches (w : World) (v : Visits S) (b : Broker S) (channel : Bytes) :
    List (Bytes × S) :=
  (w.rangeOrder b.patterns.keys).flatMap fun pat =>
    if w.filepathMatch pat channel=some true then
      (v.order (some pat) (b.patterns.getD pat ∅)).map fun sub => (pat,sub)
    else []

/-- `Publish`: the number of frames sent and the subscribers. -/
def publish (w : World) (v : Visits S) (b : Broker S) (channel message : Bytes)
    (subs : S → Subscriber) : Nat × (S → Subscriber) :=
  let msg := encodePubSubMessage channel message
  let sent := deliver Subscriber.send ((b.exactSnapshot v channel).map fun sub => (sub,msg)) 0 subs
  deliver Subscriber.send ((b.patternMatches w v channel).map fun pm =>
    (pm.2,encodePMessage pm.1 channel message)) sent.1 sent.2

/-- The frames of one `Publish` with their addressees, in the order in which they are sent. -/
def outgoing (w : World) (v : Visits S) (b : Broker S) (channel message : Bytes) :
    List (S × Bytes) :=
  ((b.exactSnapshot v channel).map fun sub => (sub,encodePubSubMessage channel message))++
    (b.patternMatches w v channel).map fun pm => (pm.2,encodePMessage pm.1 channel message)

/-- All subscribers of the broker. -/
def subscribers (b : Broker S) : Finset S :=
  b.channels.keys.toFinset.biUnion (fun key => b.channels.getD key ∅) ∪
    b.patterns.keys.toFinset.biUnion fun key => b.patterns.getD key ∅

/-- The patterns of a subscriber that match a channel, in the order of their visit. -/
def matching (w : World) (b : Broker S) (channel : Bytes) (sub : S) : List Bytes :=
  (w.rangeOrder b.patterns.keys).filter fun pat =>
    w.filepathMatch pat channel=some true ∧ b.patterns.Has pat sub

variable (w : World) (v : Visits S) (b : Broker S) (channel message : Bytes)

theorem mem_subscribers (sub : S) :
    sub ∈ b.subscribers ↔ (∃ key, b.channels.Has key sub) ∨ ∃ key, b.patterns.Has key sub := by
  have hmem : ∀ m : Subscribers S, sub ∈ m.keys.toFinset.biUnion (fun key => m.getD key ∅) ↔
      ∃ key, m.Has key sub := by
    intro m
    simp only [Finset.mem_biUnion,List.mem_toFinset,Std.ExtTreeMap.mem_keys]
    exact ⟨fun ⟨key,_,h⟩ => ⟨key,h⟩,fun ⟨key,h⟩ => ⟨key,Subscribers.mem_of_has h,h⟩⟩
  rw [subscribers,Finset.mem_union,hmem,hmem]

theorem nodup_matching (sub : S) : (b.matching w channel sub).Nodup :=
  ((w.rangeOrder_perm _).nodup_iff.mpr Std.ExtTreeMap.nodup_keys).filter _

theorem mem_matching (sub : S) (pat : Bytes) : pat ∈ b.matching w channel sub ↔
    b.patterns.Has pat sub ∧ w.filepathMatch pat channel=some true := by
  simp only [matching,List.mem_filter,World.mem_rangeOrder,Std.ExtTreeMap.mem_keys,
    decide_eq_true_iff]
  constructor
  · rintro ⟨_,hmatch,hhas⟩
    exact ⟨hhas,hmatch⟩
  · rintro ⟨hhas,hmatch⟩
    exact ⟨Subscribers.mem_of_has hhas,hmatch,hhas⟩

theorem publish_eq (subs : S → Subscriber) : b.publish w v channel message subs=
    deliver Subscriber.send (b.outgoing w v channel message) 0 subs :=
  (deliver_append _ _ _ _).symm

theorem sentTo_patterns (sub : S) :
    sentTo sub ((b.patternMatches w v channel).map fun pm =>
      (pm.2,encodePMessage pm.1 channel message))=
    (b.matching w channel sub).map fun pat => encodePMessage pat channel message := by
  unfold patternMatches matching
  induction w.rangeOrder b.patterns.keys with
  | nil => rfl
  | cons pat pats ih =>
    rw [List.flatMap_cons,List.map_append,sentTo_append,ih,List.filter_cons]
    by_cases hmatch : w.filepathMatch pat channel=some true
    · have hone := v.sentTo_order (some pat) (b.patterns.getD pat ∅) sub
        (encodePMessage pat channel message)
      rw [if_pos hmatch,List.map_map,Function.comp_def,hone]
      by_cases hhas : sub ∈ b.patterns.getD pat ∅
      · simp [Subscribers.Has,hmatch,hhas]
      · simp [Subscribers.Has,hhas]
    · simp [hmatch]

theorem sentTo_outgoing (sub : S) : sentTo sub (b.outgoing w v channel message)=
    (if b.channels.Has channel sub then [encodePubSubMessage channel message] else [])++
      (b.matching w channel sub).map fun pat => encodePMessage pat channel message := by
  rw [outgoing,sentTo_append,sentTo_patterns,exactSnapshot,v.sentTo_order]
  rfl

theorem outgoing_to_subscribers : ∀ x ∈ b.outgoing w v channel message, x.1 ∈ b.subscribers := by
  intro x hx
  rw [mem_subscribers]
  rcases List.mem_append.mp hx with hx | hx
  · obtain ⟨sub,hsub,rfl⟩ := List.mem_map.mp hx
    exact .inl ⟨channel,(v.mem_order _ _ sub).mp hsub⟩
  · obtain ⟨pm,hpm,rfl⟩ := List.mem_map.mp hx
    obtain ⟨pat,_,hpm⟩ := List.mem_flatMap.mp hpm
    split_ifs at hpm
    · obtain ⟨sub,hsub,rfl⟩ := List.mem_map.mp hpm
      exact .inr ⟨pat,(v.mem_order _ _ sub).mp hsub⟩
    · simp at hpm

/-- The account of a `Publish`. A subscriber that has gone keeps its inbox. Every other one gets,
after what its inbox holds and as far as there is room, a `message` frame if it is subscribed to
the channel and then a `pmessage` frame for each of its patterns that match. The result is the
number of frames appended; a subscriber that the broker does not have gets none. -/
theorem publish_account (subs : S → Subscriber) :
    let sent := b.publish w v channel message subs
    (∀ sub, ∃ pats : List Bytes, pats.Nodup ∧
      (∀ pat, pat ∈ pats ↔ b.patterns.Has pat sub ∧ w.filepathMatch pat channel=some true) ∧
      (sent.2 sub).done=(subs sub).done ∧
      (sent.2 sub).inbox=(subs sub).inbox++
        if (subs sub).done then []
        else ((if b.channels.Has channel sub then [encodePubSubMessage channel message] else [])++
          pats.map fun pat => encodePMessage pat channel message).take
            (inboxSize-(subs sub).inbox.length)) ∧
    (∀ sub ∉ b.subscribers, sent.2 sub=subs sub) ∧
    sent.1=∑ sub ∈ b.subscribers, ((sent.2 sub).inbox.length-(subs sub).inbox.length) := by
  dsimp only
  rw [publish_eq]
  refine ⟨?_,?_,?_⟩
  · intro sub
    refine ⟨b.matching w channel sub,nodup_matching w b channel sub,mem_matching w b channel sub,?_⟩
    rw [deliver_apply,sentTo_outgoing]
    cases hdone : (subs sub).done with
    | true => simp [Subscriber.receive_of_done hdone,hdone]
    | false =>
      obtain ⟨_,hdone',hinbox⟩ := Subscriber.receive_of_open hdone _
      exact ⟨hdone',hinbox⟩
  · intro sub hsub
    have hnone : ∀ x ∈ b.outgoing w v channel message, x.1 ≠ sub := by
      rintro x hx rfl
      exact hsub (outgoing_to_subscribers w v b channel message x hx)
    rw [deliver_apply,sentTo_eq_nil hnone,receive]
  · rw [deliver_count b.subscribers _ (outgoing_to_subscribers w v b channel message),zero_add]
    refine Finset.sum_congr rfl fun sub _ => ?_
    rw [deliver_apply]
    exact Subscriber.receive_count _ _

end Broker
end GoRedis
