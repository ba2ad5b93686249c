import GoRedis.Pubsub.Broker
import GoRedis.Server.SubscriptionMode
/-!
# Subscriptions on both sides

Every subscription is noted twice, by the connection and by the broker. The connections serve
their requests one at a time, each as one event, and disconnect at any point. However these events
are interleaved, the two sides agree, and what a connection is told is what the broker knows.
-/
namespace GoRedis
open Calls Handler
variable {I : Type}

section Events
variable [DecidableEq I]

namespace Broker

/-- What a call of a handler does to the broker. The subscriber of a connection is told apart by
the connection. -/
def perform (i : I) (c : Call) (b : Broker I) : Broker I :=
  match c with
  | .subscribe channel => b.subscribe channel i
  | .unsubscribe channel => b.unsubscribe channel i
  | .psubscribe pattern => b.psubscribe pattern i
  | .punsubscribe pattern => b.punsubscribe pattern i
  | .keyVersion _ | .dispatch _ => b

def performAll (i : I) (l : List (Made Call.Result)) (b : Broker I) : Broker I :=
  l.foldl (fun b m => b.perform i m.1) b

end Broker

/-- The confirmation of a call of the broker. -/
def ackFor : Call → Int → Bytes
  | .subscribe channel => encodeSubscribeAck channel
  | .unsubscribe channel => encodeUnsubscribeAck channel
  | .psubscribe pattern => encodePSubscribeAck pattern
  | .punsubscribe pattern => encodePUnsubscribeAck pattern
  | .keyVersion _ | .dispatch _ => fun _ => []

/-- One confirmation for each call, with the number of entries that contain the subscriber right
after the call. -/
def acks (i : I) : List (Made Call.Result) → Broker I → List Bytes
  | [],_ => []
  | m::l,b => ackFor m.1 ((b.perform i m.1).count i)::acks i l (b.perform i m.1)

def Handler.cleanupSubscriptions (w : World) (h : Handler) (i : I) (b : Broker I) : Broker I :=
  if ¬h.sub then b
  else if h.broker then ((b.unsubscribeAll w i).2.punsubscribeAll w i).2
  else b

/-- The broker and the connections, without those that have disconnected. -/
structure Pubsub (I : Type) where
  broker : Broker I
  conns : I → Option Handler

namespace Pubsub

def init (broker : Bool) : Pubsub I := ⟨.new,fun _ => some (.new broker)⟩

/-- A connection serves a request or disconnects. -/
inductive Step (p : Pubsub I) : Pubsub I → Prop
  | request {i : I} {q : Request} {h h' : Handler} {l : List (Made Call.Result)} {sent : List Bytes}
      (hi : p.conns i=some h) (hret : (serve q h).Returns l (sent,h')) :
      Step p ⟨p.broker.performAll i l,Function.update p.conns i (some h')⟩
  | disconnect {i : I} {h : Handler} (w : World) (hi : p.conns i=some h) :
      Step p ⟨h.cleanupSubscriptions w i p.broker,Function.update p.conns i none⟩

/-- Both sides of a connection agree. -/
structure Linked (i : I) (h : Handler) (b : Broker I) : Prop where
  chans : ∀ k, k ∈ h.subChans ↔ b.channels.Has k i
  patterns : ∀ k, k ∈ h.subPatterns ↔ b.patterns.Has k i

/-- Neither map of the broker has the subscriber in any entry. -/
def Gone (i : I) (b : Broker I) : Prop := ∀ k, ¬b.channels.Has k i ∧ ¬b.patterns.Has k i

/-- The registries agree. -/
structure Agree (p : Pubsub I) : Prop where
  live : ∀ i h, p.conns i=some h → Linked i h p.broker
  disconnected : ∀ i, p.conns i=none → Gone i p.broker
  noEmpty : p.broker.NoEmpty

end Pubsub
open Pubsub

section Broker
variable {i j : I} {c : Call} {b : Broker I} {l : List (Made Call.Result)} {h : Handler}

theorem Broker.perform_has (hij : j ≠ i) (k : Bytes) :
    ((b.perform i c).channels.Has k j ↔ b.channels.Has k j) ∧
      ((b.perform i c).patterns.Has k j ↔ b.patterns.Has k j) := by
  cases c <;> simp [perform,subscribe,unsubscribe,psubscribe,punsubscribe,Subscribers.has_add,
    Subscribers.has_removeFromMap,hij]

theorem Broker.perform_noEmpty (hb : b.NoEmpty) : (b.perform i c).NoEmpty := by
  cases c with
  | subscribe => exact ⟨Subscribers.noEmpty_add hb.1,hb.2⟩
  | unsubscribe => exact ⟨Subscribers.noEmpty_removeFromMap hb.1,hb.2⟩
  | psubscribe => exact ⟨hb.1,Subscribers.noEmpty_add hb.2⟩
  | punsubscribe => exact ⟨hb.1,Subscribers.noEmpty_removeFromMap hb.2⟩
  | _ => exact hb

theorem Broker.performAll_has (hij : j ≠ i) (k : Bytes) :
    ((b.performAll i l).channels.Has k j ↔ b.channels.Has k j) ∧
      ((b.performAll i l).patterns.Has k j ↔ b.patterns.Has k j) := by
  induction l generalizing b with
  | nil => exact ⟨Iff.rfl,Iff.rfl⟩
  | cons m l ih =>
    have hm := perform_has (c := m.1) (b := b) hij k
    exact ⟨ih.1.trans hm.1,ih.2.trans hm.2⟩

theorem Broker.performAll_noEmpty (hb : b.NoEmpty) : (b.performAll i l).NoEmpty := by
  induction l generalizing b with
  | nil => exact hb
  | cons m l ih => exact ih (perform_noEmpty hb)

theorem Broker.performAll_of_router (hl : ∀ m ∈ l, isBroker m.1=false) : b.performAll i l=b := by
  induction l with
  | nil => rfl
  | cons m l ih =>
    obtain ⟨hm,hl⟩ := List.forall_mem_cons.mp hl
    have hb : b.perform i m.1=b := by
      obtain ⟨c,r⟩ := m
      cases c <;> first | rfl | cases hm
    show (b.perform i m.1).performAll i l=b
    rw [hb]
    exact ih hl

theorem Pubsub.Linked.total (hl : Linked i h b) : h.totalSubscriptions=b.count i := by
  rw [totalSubscriptions,Broker.count,Subscribers.count_eq_size hl.chans,
    Subscribers.count_eq_size hl.patterns]
  simp

end Broker
/-- Noting and forgetting a name goes with one call of the broker each. -/
structure Handler.Registry.Tracks (reg : Registry) (i : I) : Prop where
  subscribe : ∀ {name l u}, (reg.subscribe name).Returns l u → ∃ m, l=[m] ∧
    (∀ n, ackFor m.1 n=reg.subscribeAck name n) ∧ ∀ h b, Linked i h b →
      Linked i (reg.setNames ((reg.names h).insert name) h) (b.perform i m.1)
  unsubscribe : ∀ {name l u}, (reg.unsubscribe name).Returns l u → ∃ m, l=[m] ∧
    (∀ n, ackFor m.1 n=reg.unsubscribeAck name n) ∧ ∀ h b, Linked i h b →
      Linked i (reg.setNames ((reg.names h).erase name) h) (b.perform i m.1)

section Handlers
variable {i : I} {b : Broker I} {l : List (Made Call.Result)} {h h' : Handler} {sent : List Bytes}
  {reg : Registry}

theorem channels_tracks (i : I) : channels.Tracks i where
  subscribe {name l u} hret := by
    obtain ⟨r,l',rfl,hnil⟩ := Prog.returns_call.mp hret
    obtain ⟨rfl,_⟩ := Prog.returns_pure.mp hnil
    refine ⟨_,rfl,fun n => rfl,fun h b hl => ⟨fun k => ?_,hl.patterns⟩⟩
    simp only [channels,Broker.perform,Broker.subscribe,Std.ExtTreeSet.mem_insert,compare_eq_iff,
      Subscribers.has_add,hl.chans,and_true,eq_comm (a := name)]
  unsubscribe {name l u} hret := by
    obtain ⟨r,l',rfl,hnil⟩ := Prog.returns_call.mp hret
    obtain ⟨rfl,_⟩ := Prog.returns_pure.mp hnil
    refine ⟨_,rfl,fun n => rfl,fun h b hl => ⟨fun k => ?_,hl.patterns⟩⟩
    simp only [channels,Broker.perform,Broker.unsubscribe,Std.ExtTreeSet.mem_erase,ne_eq,
      compare_eq_iff,Subscribers.has_removeFromMap,hl.chans,and_true,eq_comm (a := name)]
    exact and_comm

theorem patterns_tracks (i : I) : patterns.Tracks i where
  subscribe {name l u} hret := by
    obtain ⟨r,l',rfl,hnil⟩ := Prog.returns_call.mp hret
    obtain ⟨rfl,_⟩ := Prog.returns_pure.mp hnil
    refine ⟨_,rfl,fun n => rfl,fun h b hl => ⟨hl.chans,fun k => ?_⟩⟩
    simp only [Handler.patterns,Broker.perform,Broker.psubscribe,Std.ExtTreeSet.mem_insert,
      compare_eq_iff,Subscribers.has_add,hl.patterns,and_true,eq_comm (a := name)]
  unsubscribe {name l u} hret := by
    obtain ⟨r,l',rfl,hnil⟩ := Prog.returns_call.mp hret
    obtain ⟨rfl,_⟩ := Prog.returns_pure.mp hnil
    refine ⟨_,rfl,fun n => rfl,fun h b hl => ⟨hl.chans,fun k => ?_⟩⟩
    simp only [Handler.patterns,Broker.perform,Broker.punsubscribe,Std.ExtTreeSet.mem_erase,ne_eq,
      compare_eq_iff,Subscribers.has_removeFromMap,hl.patterns,and_true,eq_comm (a := name)]
    exact and_comm

theorem round_linked {call : HandlerM Unit} {rest : HandlerM (List Bytes × Handler)}
    {ack : Int → Bytes} {h₁ : Handler} (hl : Linked i h b)
    (hcall : ∀ {l u}, call.Returns l u → ∃ m, l=[m] ∧ (∀ n, ackFor m.1 n=ack n) ∧
      (Linked i h b → Linked i h₁ (b.perform i m.1)))
    (hrest : ∀ {b l sent}, Linked i h₁ b → rest.Returns l (sent,h') →
      Linked i h' (b.performAll i l) ∧ sent=acks i l b)
    (hret : (call >>= fun _ => rest >>= fun r =>
      pure (ack h₁.totalSubscriptions::r.1,r.2)).Returns l (sent,h')) :
    Linked i h' (b.performAll i l) ∧ sent=acks i l b := by
  obtain ⟨l₁,u,l₂,rfl,hfirst,hret₂⟩ := Prog.returns_bind.mp hret
  obtain ⟨m,rfl,hack,hnext⟩ := hcall hfirst
  obtain ⟨l₃,r,l₄,rfl,hloop,hend⟩ := Prog.returns_bind.mp hret₂
  obtain ⟨rfl,heq⟩ := Prog.returns_pure.mp hend
  cases heq
  obtain ⟨hlinked,hacks⟩ := hrest (hnext hl) hloop
  rw [List.append_nil]
  refine ⟨hlinked,?_⟩
  rw [(hnext hl).total,← hack,hacks]
  rfl

theorem subscribeLoop_linked (hreg : reg.Tracks i) {names : List Bytes} (hl : Linked i h b)
    (hret : (subscribeLoop reg names h).Returns l (sent,h')) :
    Linked i h' (b.performAll i l) ∧ sent=acks i l b := by
  induction names generalizing h b l sent with
  | nil =>
    obtain ⟨rfl,heq⟩ := Prog.returns_pure.mp hret
    cases heq
    exact ⟨hl,rfl⟩
  | cons name names ih =>
    rw [subscribeLoop] at hret
    split_ifs at hret
    · exact ih hl hret
    · refine round_linked hl (fun hcall => ?_) ih hret
      obtain ⟨m,hm,hack,hnext⟩ := hreg.subscribe hcall
      exact ⟨m,hm,hack,hnext h b⟩

theorem unsubscribeLoop_linked (hreg : reg.Tracks i) {names : List Bytes} (hl : Linked i h b)
    (hret : (unsubscribeLoop reg names h).Returns l (sent,h')) :
    Linked i h' (b.performAll i l) ∧ sent=acks i l b := by
  induction names generalizing h b l sent with
  | nil =>
    obtain ⟨rfl,heq⟩ := Prog.returns_pure.mp hret
    cases heq
    exact ⟨hl,rfl⟩
  | cons name names ih =>
    rw [unsubscribeLoop] at hret
    split_ifs at hret
    · refine round_linked hl (fun hcall => ?_) ih hret
      obtain ⟨m,hm,hack,hnext⟩ := hreg.unsubscribe hcall
      exact ⟨m,hm,hack,hnext h b⟩
    · exact ih hl hret

theorem subscribeNames_refused (reg : Registry) {names : List Bytes}
    (hno : ¬(h.broker=true ∧ names ≠ [])) :
    ∃ e, subscribeNames reg names h=pure ([serialize (.error e)],h) := by
  unfold subscribeNames
  split_ifs with hb hn
  · exact ⟨_,rfl⟩
  · exact absurd ⟨hb,hn⟩ hno
  · exact ⟨_,rfl⟩

theorem subscribeNames_linked (hreg : reg.Tracks i) {names : List Bytes} (hl : Linked i h b)
    (hret : (subscribeNames reg names h).Returns l (sent,h')) :
    Linked i h' (b.performAll i l) ∧
      (sent=acks i l b ∨ l=[] ∧ ∃ e, sent=[serialize (.error e)]) := by
  by_cases hno : h.broker=true ∧ names ≠ []
  · rw [subscribeNames,if_neg (by simp [hno.1]),if_neg hno.2] at hret
    have hloop := subscribeLoop_linked hreg (h := { h with sub := true }) ⟨hl.chans,hl.patterns⟩ hret
    exact ⟨hloop.1,.inl hloop.2⟩
  · obtain ⟨e,heq⟩ := subscribeNames_refused reg hno
    rw [heq] at hret
    obtain ⟨rfl,hsent⟩ := Prog.returns_pure.mp hret
    cases hsent
    exact ⟨hl,.inr ⟨rfl,e,rfl⟩⟩

theorem unsubscribeNames_linked (hreg : reg.Tracks i) {w : World} {names : List Bytes}
    (hl : Linked i h b) (hret : (unsubscribeNames w reg names h).Returns l (sent,h')) :
    Linked i h' (b.performAll i l) ∧ sent=acks i l b := by
  unfold unsubscribeNames at hret
  split_ifs at hret
  · exact unsubscribeLoop_linked hreg hl hret
  · exact unsubscribeLoop_linked hreg hl hret
  · obtain ⟨rfl,heq⟩ := Prog.returns_pure.mp hret
    cases heq
    exact ⟨hl,rfl⟩

end Handlers

section Requests
variable {i : I} {b : Broker I} {l : List (Made Call.Result)} {h h' : Handler} {sent : List Bytes}
  {q : Request}

/-- The requests that subscribe or unsubscribe. -/
def Request.Manages (q : Request) : Prop :=
  q.verb ∈ [Verb.subscribe,.unsubscribe,.psubscribe,.punsubscribe]

/-- The other requests leave the broker alone, and the connection's own note of its
subscriptions. -/
theorem Handler.Turn.unmanaged (ht : Turn q h l (.pure (sent,h'))) (hq : ¬q.Manages) :
    (∀ m ∈ l, isBroker m.1=false) ∧ h'.subChans=h.subChans ∧ h'.subPatterns=h.subPatterns := by
  have hversions : ∀ es, ∀ m ∈ versionCalls es, isBroker m.1=false := by
    intro es m hm
    obtain ⟨e,_,rfl⟩ := List.mem_map.mp hm
    rfl
  cases ht with
  | subscription hq' => exact absurd hq' hq
  | aborted | watched => exact ⟨hversions _,rfl,rfl⟩
  | committed =>
    refine ⟨fun m hm => ?_,rfl,rfl⟩
    rcases List.mem_append.mp hm with hm | hm
    · exact hversions _ m hm
    · obtain ⟨c,_,rfl⟩ := List.mem_map.mp hm
      rfl
  | answered => exact ⟨by simp [isBroker],rfl,rfl⟩
  | _ => exact ⟨by simp,rfl,rfl⟩

theorem serve_acks (hl : Linked i h b) (hq : q.Manages) (hret : (serve q h).Returns l (sent,h')) :
    Linked i h' (b.performAll i l) ∧
      (sent=acks i l b ∨ l=[] ∧ ∃ e, sent=[serialize (.error e)]) := by
  unfold serve at hret
  cases hv : q.verb with
  | subscribe =>
    rw [hv] at hret
    exact subscribeNames_linked (channels_tracks i) hl hret
  | psubscribe =>
    rw [hv] at hret
    exact subscribeNames_linked (patterns_tracks i) hl hret
  | unsubscribe =>
    rw [hv] at hret
    exact (unsubscribeNames_linked (channels_tracks i) hl hret).imp_right .inl
  | punsubscribe =>
    rw [hv] at hret
    exact (unsubscribeNames_linked (patterns_tracks i) hl hret).imp_right .inl
  | _ => simp [Request.Manages,hv] at hq

theorem serve_linked (hl : Linked i h b) (herr : h.txErrors ≤ 0)
    (hret : (serve q h).Returns l (sent,h')) : Linked i h' (b.performAll i l) := by
  by_cases hq : q.Manages
  · exact (serve_acks hl hq hret).1
  · obtain ⟨hrouter,hchans,hpatterns⟩ := (serve_turn herr hret).unmanaged hq
    rw [Broker.performAll_of_router hrouter]
    exact ⟨fun k => hchans ▸ hl.chans k,fun k => hpatterns ▸ hl.patterns k⟩

/-- A connection without a subscriber has no subscription, and one with a subscriber has a broker
to remove it from. -/
structure Handler.Steady (h : Handler) : Prop where
  txErrors : h.txErrors ≤ 0
  broker : h.sub=true → h.broker=true
  idle : h.sub=false → h.subChans=∅ ∧ h.subPatterns=∅

theorem serve_idle (herr : h.txErrors ≤ 0) (hret : (serve q h).Returns l (sent,h'))
    (hsub : h'.sub=false) : h'.subChans=h.subChans ∧ h'.subPatterns=h.subPatterns := by
  have hstays := (serve_sub herr hret).2
  rw [hsub] at hstays
  simp only [Bool.false_eq_true,false_iff,not_or] at hstays
  have hrefused : ∀ {reg : Registry}, (q.verb=.subscribe ∨ q.verb=.psubscribe) →
      (subscribeNames reg q.rest h).Returns l (sent,h') → h'=h := by
    intro reg hv hret
    have hno : ¬(h.broker=true ∧ q.rest ≠ []) := fun hyes => hstays.2 ⟨hyes.1,hv,hyes.2⟩
    obtain ⟨e,heq⟩ := subscribeNames_refused reg hno
    rw [heq] at hret
    cases (Prog.returns_pure.mp hret).2
    rfl
  have hsilent : ∀ {reg : Registry},
      (unsubscribeNames q.world reg q.rest h).Returns l (sent,h') → h'=h := by
    intro reg hret
    rw [unsubscribeNames,if_pos hstays.1] at hret
    cases (Prog.returns_pure.mp hret).2
    rfl
  by_cases hq : q.Manages
  · have heq : h'=h := by
      unfold serve at hret
      cases hv : q.verb with
      | subscribe =>
        rw [hv] at hret
        exact hrefused (.inl hv) hret
      | psubscribe =>
        rw [hv] at hret
        exact hrefused (.inr hv) hret
      | unsubscribe | punsubscribe =>
        rw [hv] at hret
        exact hsilent hret
      | _ => simp [Request.Manages,hv] at hq
    rw [heq]
    exact ⟨rfl,rfl⟩
  · exact ((serve_turn herr hret).unmanaged hq).2

theorem serve_steady (hs : h.Steady) (hret : (serve q h).Returns l (sent,h')) : h'.Steady := by
  obtain ⟨hbroker,hsub⟩ := serve_sub hs.txErrors hret
  refine ⟨(serve_turn hs.txErrors hret).txErrors hs.txErrors,fun h₁ => ?_,fun h₁ => ?_⟩
  · rw [hbroker]
    exact (hsub.mp h₁).elim hs.broker And.left
  · have hbefore : h.sub=false := by
      by_contra hb
      rw [Bool.not_eq_false] at hb
      rw [hsub.mpr (.inl hb)] at h₁
      cases h₁
    obtain ⟨hchans,hpatterns⟩ := serve_idle hs.txErrors hret h₁
    rw [hchans,hpatterns]
    exact hs.idle hbefore

theorem cleanupSubscriptions_has (hs : h.Steady) (hl : Linked i h b) (w : World) (k : Bytes)
    (j : I) :
    ((h.cleanupSubscriptions w i b).channels.Has k j ↔ b.channels.Has k j ∧ j ≠ i) ∧
      ((h.cleanupSubscriptions w i b).patterns.Has k j ↔ b.patterns.Has k j ∧ j ≠ i) := by
  unfold cleanupSubscriptions
  cases hsub : h.sub with
  | true =>
    rw [if_neg (by simp),if_pos (hs.broker hsub)]
    exact ⟨Subscribers.has_removeSubFromAllChannels w,Subscribers.has_removeSubFromAllChannels w⟩
  | false =>
    obtain ⟨hchans,hpatterns⟩ := hs.idle hsub
    have hgone : ¬b.channels.Has k i ∧ ¬b.patterns.Has k i := by
      rw [← hl.chans,← hl.patterns,hchans,hpatterns]
      exact ⟨Std.ExtTreeSet.not_mem_empty,Std.ExtTreeSet.not_mem_empty⟩
    rw [if_pos (by simp)]
    constructor
    · exact ⟨fun hk => ⟨hk,fun hj => hgone.1 (hj ▸ hk)⟩,And.left⟩
    · exact ⟨fun hk => ⟨hk,fun hj => hgone.2 (hj ▸ hk)⟩,And.left⟩

theorem cleanupSubscriptions_noEmpty (hb : b.NoEmpty) (w : World) :
    (h.cleanupSubscriptions w i b).NoEmpty := by
  unfold cleanupSubscriptions
  split_ifs
  · exact ⟨Subscribers.noEmpty_removeSubFromAllChannels hb.1 w,
      Subscribers.noEmpty_removeSubFromAllChannels hb.2 w⟩
  · exact hb
  · exact hb

end Requests
end Events

namespace Pubsub
variable {p p' : Pubsub I} {i : I} {b b' : Broker I}

/-- What every event keeps of a connection, disconnected or not. -/
def Settled (i : I) (b : Broker I) : Option Handler → Prop
  | some h => h.Steady ∧ Linked i h b
  | none => Gone i b

theorem Settled.frame {c : Option Handler} (hc : Settled i b c)
    (hb : ∀ k, (b'.channels.Has k i ↔ b.channels.Has k i) ∧
      (b'.patterns.Has k i ↔ b.patterns.Has k i)) : Settled i b' c := by
  cases c with
  | some h =>
    obtain ⟨hs,hl⟩ := hc
    exact ⟨hs,fun k => (hl.chans k).trans (hb k).1.symm,fun k => (hl.patterns k).trans (hb k).2.symm⟩
  | none => exact fun k => ⟨fun hk => (hc k).1 ((hb k).1.mp hk),fun hk => (hc k).2 ((hb k).2.mp hk)⟩

/-- What every event keeps. -/
structure Inv (p : Pubsub I) : Prop where
  settled : ∀ i, Settled i p.broker (p.conns i)
  noEmpty : p.broker.NoEmpty

theorem Inv.conn (hp : p.Inv) {h : Handler} (hi : p.conns i=some h) :
    h.Steady ∧ Linked i h p.broker := by
  have hset := hp.settled i
  rw [hi] at hset
  exact hset

theorem Inv.agree (hp : p.Inv) : p.Agree := by
  refine ⟨fun i h hi => (hp.conn hi).2,fun i hi => ?_,hp.noEmpty⟩
  have hset := hp.settled i
  rw [hi] at hset
  exact hset

theorem inv_init (broker : Bool) : (init broker : Pubsub I).Inv := by
  refine ⟨fun i => ⟨⟨le_refl _,?_,fun _ => ⟨rfl,rfl⟩⟩,fun k => ?_,fun k => ?_⟩,?_,?_⟩
  · intro hsub
    cases hsub
  · exact iff_of_false Std.ExtTreeSet.not_mem_empty (Subscribers.has_empty k i)
  · exact iff_of_false Std.ExtTreeSet.not_mem_empty (Subscribers.has_empty k i)
  · intro key subs hk
    simp [init,Broker.new] at hk
  · intro key subs hk
    simp [init,Broker.new] at hk

variable [DecidableEq I]

theorem Inv.update (hp : p.Inv) {c : Option Handler}
    (hframe : ∀ j, j ≠ i → ∀ k, (b.channels.Has k j ↔ p.broker.channels.Has k j) ∧
      (b.patterns.Has k j ↔ p.broker.patterns.Has k j))
    (hi : Settled i b c) (hb : b.NoEmpty) : Inv ⟨b,Function.update p.conns i c⟩ :=
  ⟨(Function.forall_update_iff p.conns fun j c => Settled j b c).mpr
    ⟨hi,fun j hj => (hp.settled j).frame (hframe j hj)⟩,hb⟩

theorem Inv.step (hp : p.Inv) (hstep : Step p p') : p'.Inv := by
  cases hstep with
  | request hi hret =>
    obtain ⟨hs,hl⟩ := hp.conn hi
    exact hp.update (fun j hij k => Broker.performAll_has hij k)
      ⟨serve_steady hs hret,serve_linked hl hs.txErrors hret⟩
      (Broker.performAll_noEmpty hp.noEmpty)
  | disconnect w hi =>
    rename_i i h
    obtain ⟨hs,hl⟩ := hp.conn hi
    have hhas := cleanupSubscriptions_has hs hl w
    refine hp.update (fun j hij k => ?_) (fun k => ?_) (cleanupSubscriptions_noEmpty hp.noEmpty w)
    · simpa [hij] using hhas k j
    · simpa using hhas k i

/-- After any events the registries agree, and whatever a connection requests next, it is told for
each subscription that is made or ended the number of entries that contain it then. -/
theorem registries_agree (broker : Bool) (p : Pubsub I)
    (hrun : Relation.ReflTransGen Step (init broker) p) :
    p.Agree ∧ ∀ (i : I) (q : Request) (h h' : Handler) (l : List (Made Call.Result))
      (sent : List Bytes), p.conns i=some h → q.Manages → (serve q h).Returns l (sent,h') →
        sent=acks i l p.broker ∨ l=[] ∧ ∃ e, sent=[serialize (.error e)] := by
  have hinv : p.Inv := by
    induction hrun with
    | refl => exact inv_init broker
    | tail _ hstep ih => exact ih.step hstep
  refine ⟨hinv.agree,fun i q h h' l sent hi hq hret => ?_⟩
  exact (serve_acks (hinv.conn hi).2 hq hret).2

/-- The first of two connections subscribes: the entry of the channel contains it alone. -/
theorem registries_agree_subscribe : ∃ p : Pubsub Bool,
    Relation.ReflTransGen Step (init true) p ∧ p.Agree ∧ p.broker.channels.Has [99] false ∧
      ¬p.broker.channels.Has [99] true := by
  have hstep : Step (init true) _ :=
    .request (i := false) rfl (serve_subscribe (Handler.new true) rfl rfl rfl)
  have hrun := Relation.ReflTransGen.single hstep
  exact ⟨_,hrun,(registries_agree true _ hrun).1,by decide,by decide⟩

end Pubsub
end GoRedis
