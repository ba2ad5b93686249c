import GoRedis.Server.Transactions
/-!
# Subscription mode

A connection that has subscribed is told that other commands are not allowed, but the guard
stands in one branch of the loop only: `EXEC` does not pass it. What keeps a subscribed connection
from dispatching is that nothing was queued when it subscribed.
-/
namespace GoRedis
open Calls

/-- The request names a channel or a pattern to subscribe to. -/
def Request.Subscribes (q : Request) : Prop :=
  (q.verb=.subscribe ∨ q.verb=.psubscribe) ∧ q.rest ≠ []

namespace Handler

section Steps
variable {q : Request} {h h' : Handler} {l : List (Made Call.Result)}
  {p : HandlerM (List Bytes × Handler)} {sent : List Bytes}

theorem Turn.dispatched_of_quiet (ht : Turn q h l p) (hsub : h.sub=true) (hqueue : h.txQueue=[]) :
    dispatched l=[] := by
  cases ht with
  | subscription _ hl _ => exact dispatched_eq_nil_of_broker hl
  | checking | aborted | watching | watched => exact dispatched_versionCalls _
  | executing _ _ seen cmd rest hq =>
    rw [hqueue] at hq
    simp at hq
  | committed _ _ seen hq =>
    rw [hqueue] at hq
    obtain rfl := List.map_eq_nil_iff.mp hq.symm
    simp [dispatchCalls]
  | answered _ hsub' => simp [hsub] at hsub'
  | _ => rfl

/-- A registry notes names without touching the broker or the subscriber. -/
def Registry.Apart (reg : Registry) : Prop :=
  ∀ names h, (reg.setNames names h).broker=h.broker ∧ (reg.setNames names h).sub=h.sub

theorem channels_apart : channels.Apart := fun _ _ => ⟨rfl,rfl⟩

theorem patterns_apart : patterns.Apart := fun _ _ => ⟨rfl,rfl⟩

theorem subscribeNames_sub {reg : Registry} (hreg : reg.Sound) (hapart : reg.Apart)
    (names : List Bytes) (h : Handler) :
    (subscribeNames reg names h).Always (isBroker ·=true) fun r =>
      r.2.broker=h.broker ∧ (r.2.sub=true ↔ h.sub=true ∨ h.broker=true ∧ names ≠ []) := by
  unfold subscribeNames
  split
  · rename_i hb
    exact ⟨rfl,by simp [hb]⟩
  · rename_i hb
    rw [not_not] at hb
    split
    · rename_i hn
      exact ⟨rfl,by simp [hn]⟩
    · rename_i hn
      have hloop := subscribeLoop_always (P := fun h' => h'.broker=h.broker ∧ h'.sub=true) hreg
        (fun names h' hP => ⟨(hapart names h').1.trans hP.1,(hapart names h').2.trans hP.2⟩) names
        (h := { h with sub := true }) ⟨rfl,rfl⟩
      refine hloop.mono fun r hr => ⟨hr.1,?_⟩
      simp [hr.2,hn,hb]

theorem unsubscribeNames_sub {reg : Registry} (hreg : reg.Sound) (hapart : reg.Apart) (w : World)
    (names : List Bytes) (h : Handler) :
    (unsubscribeNames w reg names h).Always (isBroker ·=true) fun r =>
      r.2.broker=h.broker ∧ r.2.sub=h.sub :=
  unsubscribeNames_always (P := fun h' => h'.broker=h.broker ∧ h'.sub=h.sub) hreg
    (fun names h' hP => ⟨(hapart names h').1.trans hP.1,(hapart names h').2.trans hP.2⟩) w names
    ⟨rfl,rfl⟩

/-- A connection becomes subscribed by a request that names something, if there is a broker, and
stays subscribed. -/
theorem serve_sub (herr : h.txErrors ≤ 0) (hret : (serve q h).Returns l (sent,h')) :
    h'.broker=h.broker ∧ (h'.sub=true ↔ h.sub=true ∨ h.broker=true ∧ q.Subscribes) := by
  unfold Request.Subscribes
  cases hv : q.verb with
  | subscribe =>
    rw [serve,hv] at hret
    simpa using (subscribeNames_sub channels_sound channels_apart _ _).returns hret
  | psubscribe =>
    rw [serve,hv] at hret
    simpa using (subscribeNames_sub patterns_sound patterns_apart _ _).returns hret
  | unsubscribe =>
    rw [serve,hv] at hret
    have hr : h'.broker=h.broker ∧ h'.sub=h.sub :=
      (unsubscribeNames_sub channels_sound channels_apart _ _ _).returns hret
    exact ⟨hr.1,by simp [hr.2]⟩
  | punsubscribe =>
    rw [serve,hv] at hret
    have hr : h'.broker=h.broker ∧ h'.sub=h.sub :=
      (unsubscribeNames_sub patterns_sound patterns_apart _ _ _).returns hret
    exact ⟨hr.1,by simp [hr.2]⟩
  | _ =>
    cases serve_turn herr hret with
    | subscription hq => simp [hv] at hq
    | _ => exact ⟨rfl,by simp [endTx]⟩

/-- Nothing waits on a subscribed connection: no command is queued there, and a transaction that
begins or ends leaves the queue empty. -/
theorem serve_quiet (herr : h.txErrors ≤ 0) (hret : (serve q h).Returns l (sent,h'))
    (hquiet : h.sub=true → h.txQueue=[]) (hcond : q.Subscribes → h.sub=false → h.txQueue=[]) :
    h'.sub=true → h'.txQueue=[] := by
  intro hsub
  have hqueue : h.txQueue=[] := by
    cases hs : h.sub with
    | true => exact hquiet hs
    | false =>
      have hnew := ((serve_sub herr hret).2.mp hsub).resolve_left (by simp [hs])
      exact hcond hnew.2 hs
  cases serve_turn herr hret with
  | subscription _ _ hp => exact hp.txQueue.trans hqueue
  | queued _ hsub' =>
    have : h.sub=true := hsub
    simp [this] at hsub'
  | multi | aborted | committed | discarded => rfl
  | _ => exact hqueue

end Steps

/-- A connection that has nothing queued when it subscribes never dispatches again: whatever it
requests after that, no call of the router is a dispatch, not even of a request that is still
being served. -/
theorem subscribed_never_dispatches (xs : List Turned) (h : Handler) (q : Request)
    (l : List (Made Call.Result)) (p : HandlerM (List Bytes × Handler))
    (hs : Session serve (.new true) xs h) (hsub : ∃ x ∈ xs, x.request.Subscribes)
    (hcond : ∀ pre x post h₁, xs=pre++x::post → Session serve (.new true) pre h₁ →
      x.request.Subscribes → h₁.sub=false → h₁.txQueue=[])
    (hm : (serve q h).Makes l p) : dispatched l=[] := by
  have hinv : ∀ (ys : List Turned) (h₁ : Handler), ys <+: xs → Session serve (.new true) ys h₁ →
      h₁.txErrors ≤ 0 ∧ h₁.broker=true ∧ (h₁.sub=true ↔ ∃ x ∈ ys, x.request.Subscribes) ∧
        (h₁.sub=true → h₁.txQueue=[]) := by
    intro ys
    induction ys using List.reverseRecOn with
    | nil =>
      intro h₁ _ hs₁
      obtain rfl := session_nil.mp hs₁
      exact ⟨le_refl _,rfl,by simp [new],fun _ => rfl⟩
    | append_singleton ys x ih =>
      intro h₂ hpre hs₂
      obtain ⟨h₁,hs₁,hlast⟩ := session_append.mp hs₂
      obtain ⟨h₃,hret,hnil⟩ := session_cons.mp hlast
      obtain rfl := session_nil.mp hnil
      obtain ⟨herr,hbroker,hiff,hquiet⟩ := ih h₁ ((List.prefix_append _ _).trans hpre) hs₁
      obtain ⟨hb,hsub₂⟩ := serve_sub herr hret
      obtain ⟨post,hpost⟩ := hpre
      refine ⟨(serve_turn herr hret).txErrors herr,hb.trans hbroker,?_,
        serve_quiet herr hret hquiet (hcond ys x post h₁ (by simp [← hpost]) hs₁)⟩
      rw [hsub₂,hiff,hbroker]
      simp [or_and_right,exists_or]
  obtain ⟨herr,_,hiff,hquiet⟩ := hinv xs h (List.prefix_refl _) hs
  have hsub' := hiff.mpr hsub
  exact (serve_turn herr hm).dispatched_of_quiet hsub' (hquiet hsub')

theorem serve_subscribe (h : Handler) (hbroker : h.broker=true) (hnames : h.subChans=∅)
    (hpatterns : h.subPatterns=∅) :
    (serve ⟨.plain 0,utf8 "SUBSCRIBE",[[99]]⟩ h).Returns [⟨.subscribe [99],()⟩]
      ([encodeSubscribeAck [99] 1],
        { h with sub := true,subChans := (∅ : KeySet).insert [99] }) := by
  have hv : (⟨.plain 0,utf8 "SUBSCRIBE",[[99]]⟩ : Request).verb=.subscribe := by decide
  have htotal : ({ h with sub := true,subChans := (∅ : KeySet).insert [99] } :
      Handler).totalSubscriptions=1 := by
    simp [totalSubscriptions,hpatterns,Std.ExtTreeSet.size_insert]
  simp only [serve,hv,handleSubscribe,subscribeNames]
  rw [if_neg (by simp [hbroker]),if_neg (by simp),subscribeLoop,if_neg (by simp [channels,hnames])]
  refine ⟨_,rfl,?_⟩
  simp only [channels,hnames,htotal]
  rfl

/-- `SUBSCRIBE c`, then `SET k v`, which is refused. -/
theorem subscribed_never_dispatches_set : ∃ (xs : List Turned) (h : Handler),
    Session serve (.new true) xs h ∧ xs.map (fun x => x.request.args)=[[utf8 "SUBSCRIBE",[99]]] ∧
      ∀ l p, (serve ⟨.plain 0,utf8 "SET",[[107],[118]]⟩ h).Makes l p → dispatched l=[] := by
  have hs : Session serve (.new true)
      [(⟨⟨.plain 0,utf8 "SUBSCRIBE",[[99]]⟩,[(.plain 0,⟨.subscribe [99],()⟩)],
        [encodeSubscribeAck [99] 1]⟩ : Turned)] _ :=
    .cons (serve_subscribe (new true) rfl rfl rfl) (.nil _)
  refine ⟨_,_,hs,rfl,fun l p hm => subscribed_never_dispatches _ _ _ l p hs ?_ ?_ hm⟩
  · exact ⟨_,List.mem_singleton_self _,.inl (by decide),by simp⟩
  · intro pre x post h₁ hxs hs₁ _ _
    cases pre with
    | nil =>
      obtain rfl := session_nil.mp hs₁
      rfl
    | cons y pre => simp at hxs

/-- `MULTI`, `SET k v`, `SUBSCRIBE c`, `EXEC`: the queued command is executed in subscription
mode. -/
theorem exec_in_subscription_mode : ∃ (xs : List Turned) (h : Handler)
    (l : List (Made Call.Result)), Session serve (.new true) xs h ∧
      xs.map (fun x => x.request.args)=
        [[utf8 "MULTI"],[utf8 "SET",[107],[118]],[utf8 "SUBSCRIBE",[99]]] ∧
      (serve ⟨.plain 0,utf8 "EXEC",[]⟩ h).Returns l ([serialize (.array [okReply])],h.endTx) ∧
      dispatched l=[[utf8 "SET",[107],[118]]] := by
  have hmulti : (⟨.plain 0,utf8 "MULTI",[]⟩ : Request).verb=.multi := by decide
  have hset : (⟨.plain 0,utf8 "SET",[[107],[118]]⟩ : Request).verb=.other := by decide
  have hexec : (⟨.plain 0,utf8 "EXEC",[]⟩ : Request).verb=.exec := by decide
  let queued : Handler := { new true with inMulti := true,txQueue := [[utf8 "SET",[107],[118]]] }
  have hs : Session serve (.new true)
      [(⟨⟨.plain 0,utf8 "MULTI",[]⟩,[],[serialize okReply]⟩ : Turned),
        ⟨⟨.plain 0,utf8 "SET",[[107],[118]]⟩,[],[serialize (.simpleString (utf8 "QUEUED"))]⟩,
        ⟨⟨.plain 0,utf8 "SUBSCRIBE",[[99]]⟩,[(.plain 0,⟨.subscribe [99],()⟩)],
          [encodeSubscribeAck [99] 1]⟩]
      { queued with sub := true,subChans := (∅ : KeySet).insert [99] } := by
    simp only [session_cons]
    refine ⟨{ new true with inMulti := true },?_,queued,?_,_,serve_subscribe queued rfl rfl rfl,
      .nil _⟩
    · simp [serve,hmulti,handleMulti,new,Exchange.made]
    · simp [serve,hset,new,Exchange.made,Request.args,queued]
  refine ⟨_,_,[⟨.dispatch [utf8 "SET",[107],[118]],okReply⟩],hs,rfl,?_,rfl⟩
  have hreply := execReply_eq [okReply]
  simp only [List.map_cons,List.map_nil] at hreply
  simp only [serve,hexec,handleExec,queued,new,← hreply]
  exact ⟨_,rfl,rfl⟩

end Handler
end GoRedis
