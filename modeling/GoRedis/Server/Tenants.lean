import GoRedis.Commands.Locality
import GoRedis.Lib.Unwinding
import GoRedis.Server.Watch
/-!
# Clients with keys of their own

Connections that share a server but no keys do not notice one another. Whatever the others do with
their keys and however the steps interleave, transactions and `WATCH` included, a group of
connections gets the replies it would get alone, also from a store with other entries at the keys
of the others.
-/
namespace GoRedis
open Calls MemoryStore

/-- The command keeps to keys with the property. -/
def CommandWithin (P : Bytes → Prop) (args : List Bytes) : Prop :=
  KeepsToKeys args ∧ ∀ k ∈ keysNamed args, P k

/-- The keys of the request have the property: those its command names, or those it watches. -/
structure Request.Within (P : Bytes → Prop) (q : Request) : Prop where
  command : q.verb=.other → CommandWithin P q.args
  watch : q.verb=.watch → ∀ k ∈ q.rest, P k

def Call.Within (P : Bytes → Prop) : Call → Prop
  | keyVersion key => P key
  | dispatch args => CommandWithin P args
  | _ => True

namespace Handler

/-- The same for what waits for an `EXEC`. -/
structure Within (P : Bytes → Prop) (h : Handler) : Prop where
  queue : ∀ cmd ∈ h.txQueue, CommandWithin P cmd
  watched : ∀ k ∈ h.watchedKeys, P k

variable {P : Bytes → Prop} {q : Request} {h h' : Handler}

theorem within_new (broker : Bool) : (new broker).Within P :=
  ⟨fun _ hmem => absurd hmem List.not_mem_nil,
    fun _ hmem => absurd hmem Std.ExtTreeMap.not_mem_empty⟩

theorem Within.keeps (hw : h.Within P) (hk : h.Keeps h') : h'.Within P :=
  ⟨hk.txQueue ▸ hw.queue,hk.watchedKeys ▸ hw.watched⟩

theorem within_endTx : h.endTx.Within P :=
  ⟨fun _ hmem => absurd hmem List.not_mem_nil,
    fun _ hmem => absurd hmem Std.ExtTreeMap.not_mem_empty⟩

theorem within_of_isBroker {c : Call} (hc : isBroker c=true) : c.Within P := by
  cases c with
  | keyVersion key => cases hc
  | dispatch args => cases hc
  | _ => trivial

theorem watchLoop_within {keys : List Bytes} {watched : Map UInt64} (hkeys : ∀ k ∈ keys, P k)
    (hwatched : ∀ k ∈ watched, P k) :
    (watchLoop keys watched).Always (Call.Within P) fun m => ∀ k ∈ m, P k := by
  induction keys generalizing watched with
  | nil => exact hwatched
  | cons key keys ih =>
    obtain ⟨hkey,hkeys⟩ := List.forall_mem_cons.mp hkeys
    refine ⟨hkey,fun v => ih hkeys fun k hk => ?_⟩
    rw [Std.ExtTreeMap.mem_insert] at hk
    rcases hk with hk | hk
    · rwa [← Std.LawfulEqCmp.eq_of_compare hk]
    · exact hwatched k hk

theorem watchDirtyLoop_within {entries : List (Bytes × UInt64)} (h : ∀ e ∈ entries, P e.1) :
    (watchDirtyLoop entries).Always (Call.Within P) fun _ => True := by
  induction entries with
  | nil => trivial
  | cons e entries ih =>
    obtain ⟨key,ver⟩ := e
    obtain ⟨hkey,hrest⟩ := List.forall_mem_cons.mp h
    refine ⟨hkey,fun v => ?_⟩
    show (if v ≠ ver then pure true else watchDirtyLoop entries).Always (Call.Within P)
      fun _ => True
    split
    · trivial
    · exact ih hrest

theorem execLoop_within {cmds : List (List Bytes)} {results : List Bytes}
    (h : ∀ cmd ∈ cmds, CommandWithin P cmd) :
    (execLoop cmds results).Always (Call.Within P) fun _ => True := by
  induction cmds generalizing results with
  | nil => trivial
  | cons cmd cmds ih =>
    obtain ⟨hcmd,hcmds⟩ := List.forall_mem_cons.mp h
    exact ⟨hcmd,fun resp => ih hcmds⟩

theorem handleExec_within (w : World) (hw : h.Within P) :
    (handleExec w h).Always (Call.Within P) fun r => r.2.Within P := by
  have hentries : ∀ e ∈ watchEntries w h, P e.1 := by
    intro e he
    simp only [watchEntries,List.mem_map,World.mem_rangeOrder,Std.ExtTreeMap.mem_keys] at he
    obtain ⟨k,hk,rfl⟩ := he
    exact hw.watched k hk
  unfold handleExec
  split
  · exact hw
  split
  · exact within_endTx
  · refine (watchDirtyLoop_within hentries).bind fun dirty _ => ?_
    split
    · exact within_endTx
    · exact (execLoop_within hw.queue).bind fun results _ => within_endTx

theorem handleWatch_within {keys : List Bytes} (hw : h.Within P) (hkeys : ∀ k ∈ keys, P k) :
    (handleWatch keys h).Always (Call.Within P) fun r => r.2.Within P := by
  unfold handleWatch
  split_ifs
  · exact hw
  · exact hw
  · exact (watchLoop_within hkeys hw.watched).bind fun m hm => ⟨hw.queue,hm⟩

theorem serve_within (hq : q.Within P) (hw : h.Within P) :
    (serve q h).Always (Call.Within P) fun r => r.2.Within P := by
  have hsub : ∀ {prog : HandlerM (List Bytes × Handler)},
      (prog.Always (isBroker ·=true) fun r => h.Keeps r.2) →
      prog.Always (Call.Within P) fun r => r.2.Within P :=
    fun hprog => hprog.imp (fun _ => within_of_isBroker) fun _ hk => hw.keeps hk
  unfold serve
  cases hv : q.verb with
  | subscribe => exact hsub (subscribeNames_keeps channels_sound _ h)
  | unsubscribe => exact hsub (unsubscribeNames_keeps channels_sound _ _ h)
  | psubscribe => exact hsub (subscribeNames_keeps patterns_sound _ h)
  | punsubscribe => exact hsub (unsubscribeNames_keeps patterns_sound _ _ h)
  | multi =>
    show Within P h.handleMulti.2
    unfold handleMulti
    split_ifs
    · exact hw
    · exact ⟨fun _ hmem => absurd hmem List.not_mem_nil,hw.watched⟩
  | exec => exact handleExec_within _ hw
  | discard =>
    show Within P h.handleDiscard.2
    unfold handleDiscard
    split
    · exact hw
    · exact within_endTx
  | watch => exact (handleWatch_within hw (hq.watch hv)).bind fun r hr => hr
  | unwatch => exact ⟨hw.queue,fun _ hmem => absurd hmem Std.ExtTreeMap.not_mem_empty⟩
  | other =>
    dsimp only
    split_ifs
    · exact hw
    · refine ⟨fun cmd hmem => ?_,hw.watched⟩
      rcases List.mem_append.mp hmem with hmem | hmem
      · exact hw.queue cmd hmem
      · rw [List.mem_singleton.mp hmem]
        exact hq.command hv
    · exact ⟨hq.command hv,fun resp => hw⟩

/-- Connections that keep to keys with a property. -/
def within (P : Bytes → Prop) : Discipline serve where
  requests := Request.Within P
  states := Within P
  calls := Call.Within P
  keeps _ _ hq hw := serve_within hq hw

end Handler

section Calls
variable {F : Type} {P : Bytes → Prop} {s t : MemoryStore F}

/-- The stores hold the same at the keys with the property. -/
def SameWithin (P : Bytes → Prop) (s t : MemoryStore F) : Prop := ∀ k, P k → s.slot k=t.slot k

variable [Float64 F] {w : World} {args : List Bytes}

theorem callService_dispatch {d : Dispatched F} (h : dispatch w args s=.ok d) :
    callService w (.dispatch args) s=.ok (d.resp,d.store) := by
  rw [callService,h]

theorem dispatch_of_callService {r : Response} {s' : MemoryStore F}
    (h : callService w (.dispatch args) s=.ok (r,s')) :
    ∃ d, dispatch w args s=.ok d ∧ d.resp=r ∧ d.store=s' := by
  rw [callService] at h
  cases hd : dispatch w args s with
  | error p =>
    rw [hd] at h
    cases h
  | ok d =>
    rw [hd] at h
    cases h
    exact ⟨d,rfl,rfl,rfl⟩

theorem dispatch_within {d : Dispatched F} (hargs : CommandWithin P args) (hst : SameWithin P s t)
    (hd : dispatch w args s=.ok d) :
    ∃ e, dispatch w args t=.ok e ∧ e.resp=d.resp ∧ SameWithin P d.store e.store := by
  obtain ⟨p,hp,_⟩ | ⟨d',e,hd',he,hresp,hstore⟩ :=
    dispatch_agree (w := w) hargs.1 fun k hk => hst k (hargs.2 k hk)
  · rw [hd] at hp
    cases hp
  · obtain rfl : d=d' := Except.ok.inj (hd.symm.trans hd')
    refine ⟨e,he,hresp.symm,fun k hk => ?_⟩
    by_cases hmem : k ∈ keysNamed args
    · exact hstore k hmem
    · rw [dispatch_frame hargs.1 hd hmem,dispatch_frame hargs.1 he hmem]
      exact hst k hk

theorem callService_unwinding (P : Bytes → Prop) :
    Unwinding (callService (F := F)) (fun now s => s.deleteExpired now) (Call.Within P)
      (Call.Within fun k => ¬P k) (SameWithin P) where
  own := by
    intro w c s t r s' hc hst h
    cases c with
    | keyVersion key =>
      cases h
      refine ⟨t,?_,hst⟩
      rw [callService,version_eq_slot,version_eq_slot,hst key hc]
    | dispatch args =>
      obtain ⟨d,hd,rfl,rfl⟩ := dispatch_of_callService h
      obtain ⟨e,he,hresp,hstore⟩ := dispatch_within hc hst hd
      exact ⟨e.store,hresp ▸ callService_dispatch he,hstore⟩
    | _ =>
      cases h
      exact ⟨t,rfl,hst⟩
  foreign := by
    intro w c s t r s' hc hst h
    cases c with
    | dispatch args =>
      obtain ⟨d,hd,rfl,rfl⟩ := dispatch_of_callService h
      intro k hk
      rw [dispatch_frame hc.1 hd fun hmem => hc.2 k hmem hk]
      exact hst k hk
    | _ =>
      cases h
      exact hst
  background := by
    intro s t now hst k hk
    rw [slot_deleteExpired,slot_deleteExpired,hst k hk]

end Calls

namespace Server
variable {I F : Type} [DecidableEq I] [Float64 F]

/-- A group of connections whose keys no other connection uses is not affected by the others. In
every run its connections are, call by call and reply by reply, where they are in the run without
the others, from any store that holds the same at the keys of the group. -/
theorem group_alone (broker : Bool) (P : Bytes → Prop) (G : I → Bool) (s t : MemoryStore F)
    (hst : ∀ k, P k → s.slot k=t.slot k) (evs : List (ServerEvent I)) (p : Server I F)
    (hrun : run evs (init broker s)=.ok p)
    (hown : ∀ i q, .arrive i q ∈ evs → G i=true → q.Within P)
    (hothers : ∀ i q, .arrive i q ∈ evs → G i=false → q.Within fun k => ¬P k) :
    ∃ u : Server I F, run (evs.filter (Calls.Event.concerns G)) (init broker t)=.ok u ∧
      (∀ i, G i=true → u.clients i=p.clients i ∧ u.log i=p.log i) ∧
      ∀ k, P k → u.shared.slot k=p.shared.slot k := by
  have halike : Pool.Alike G (SameWithin P) (Handler.within P) (Handler.within fun k => ¬P k)
      (init broker s : Server I F) (init broker t) :=
    ⟨fun _ _ => rfl,fun _ _ => rfl,hst,fun _ _ => Handler.within_new broker,
      fun _ _ => Handler.within_new broker⟩
  obtain ⟨u,hu,h⟩ := Pool.run_alone (callService_unwinding P) halike hown hothers hrun
  exact ⟨u,hu,fun i hi => ⟨h.clients i hi,h.log i hi⟩,fun k hk => (h.shared k hk).symm⟩

theorem within_set {P : Bytes → Prop} {k v : Bytes} (hk : P k) :
    Request.Within P ⟨.plain 0,utf8 "SET",[k,v]⟩ where
  command _ := ⟨keepsToKeys_of_command rfl rfl,fun _ hmem => List.mem_singleton.mp hmem ▸ hk⟩
  watch hv := absurd hv (by decide : Verb.other ≠ .watch)

/-- Two connections that set different keys, and the first of them in another store. -/
theorem group_alone_set : ∃ p u : Server Bool Int,
    run [.arrive true ⟨.plain 0,utf8 "SET",[[97],[120]]⟩,
      .arrive false ⟨.plain 0,utf8 "SET",[[98],[121]]⟩,.call false (.plain 0),.call true (.plain 0)]
      (init false .new)=.ok p ∧
    run [.arrive true ⟨.plain 0,utf8 "SET",[[97],[120]]⟩,.call true (.plain 0)]
      (init false (MemoryStore.new.set [98] [122]))=.ok u ∧
    u.log true=p.log true ∧ u.shared.slot [97]=p.shared.slot [97] ∧ p.log true ≠ [] := by
  have hslot : ∀ k : Bytes, k=[97] →
      (MemoryStore.new : MemoryStore Int).slot k=(MemoryStore.new.set [98] [122]).slot k := by
    rintro _ rfl
    decide
  obtain ⟨p,hrun,hne⟩ : ∃ p : Server Bool Int,
      run [.arrive true ⟨.plain 0,utf8 "SET",[[97],[120]]⟩,
        .arrive false ⟨.plain 0,utf8 "SET",[[98],[121]]⟩,.call false (.plain 0),
        .call true (.plain 0)] (init false .new)=.ok p ∧ p.log true ≠ [] :=
    ⟨_,rfl,List.cons_ne_nil _ _⟩
  obtain ⟨u,hu,hlog,hslots⟩ := group_alone false (·=[97]) id .new (MemoryStore.new.set [98] [122])
    hslot _ p hrun (fun i q hmem hi => by
      simp only [List.mem_cons,Calls.Event.arrive.injEq,reduceCtorEq,List.not_mem_nil,
        or_false] at hmem
      rcases hmem with ⟨rfl,rfl⟩ | ⟨rfl,rfl⟩
      · exact within_set rfl
      · cases hi) (fun i q hmem hi => by
      simp only [List.mem_cons,Calls.Event.arrive.injEq,reduceCtorEq,List.not_mem_nil,
        or_false] at hmem
      rcases hmem with ⟨rfl,rfl⟩ | ⟨rfl,rfl⟩
      · cases hi
      · exact within_set (by decide))
  exact ⟨p,u,hrun,hu,(hlog true rfl).2,hslots [97] rfl,hne⟩

end Server

theorem Slot.sweep_sweep {F : Type} (r : Slot F) {now T : Int} (hle : now ≤ T) :
    ((r.sweep now).sweep T).toRow=(r.sweep T).toRow := by
  have hstring : ((r.string.filter fun e => !expired now e.expiresAt).filter
      fun e => !expired T e.expiresAt)=r.string.filter fun e => !expired T e.expiresAt := by
    rw [Option.filter_filter]
    congr 1
    funext e
    have := expired_mono (d := e.expiresAt) hle
    cases hnow : expired now e.expiresAt <;> simp_all
  cases hexp : expired now r.expiry with
  | true =>
    have := expired_mono hle hexp
    simp [sweep,hstring,hexp,this]
  | false => simp [sweep,hstring,hexp]

theorem Slot.view_sweep_later {F : Type} (r : Slot F) {now T : Int} (hle : now ≤ T) :
    (r.sweep now).view T=r.view T := by
  rw [← view_sweep (r.sweep now) T,← view_sweep r T,sweep_sweep r hle]

namespace Server
variable {I F : Type} [DecidableEq I] [Float64 F]

theorem run_sweeps {k : Bytes} {T : Int} {evs : List (ServerEvent I)} {u u' : Server I F}
    (hevs : ∀ ev ∈ evs, ∃ now, ev=.background now ∧ now ≤ T) (hrun : run evs u=.ok u') :
    u'.shared.view T k=u.shared.view T k := by
  induction evs generalizing u with
  | nil =>
    cases hrun
    rfl
  | cons ev evs ih =>
    obtain ⟨⟨now,rfl,hle⟩,hrest⟩ := List.forall_mem_cons.mp hevs
    obtain ⟨v,hv,hrun⟩ := Machine.run_cons_ok.mp hrun
    cases hv
    rw [ih hrest hrun]
    show ((u.shared.deleteExpired now).slot k).view T=(u.shared.slot k).view T
    rw [slot_deleteExpired,Slot.view_sweep_later _ hle]

/-- A key that no request names has at every later instant the value and the deadline it would
have if the server had stood still: it is there until its deadline and never again after it,
whatever the connections do with other keys and whenever the sweeper runs. -/
theorem key_lifetime (broker : Bool) (s : MemoryStore F) (k : Bytes) (T : Int)
    (evs : List (ServerEvent I)) (p : Server I F) (hrun : run evs (init broker s)=.ok p)
    (hothers : ∀ i q, .arrive i q ∈ evs → q.Within fun k' => ¬k'=k)
    (hclock : ∀ now, .background now ∈ evs → now ≤ T) :
    p.shared.view T k=s.view T k := by
  have halike : Pool.Alike (fun _ => false) (SameWithin (·=k)) (Handler.within (·=k))
      (Handler.within fun k' => ¬k'=k) (init broker s : Server I F) (init broker s) :=
    ⟨fun _ _ => rfl,fun _ _ => rfl,fun _ _ => rfl,fun _ _ => Handler.within_new broker,
      fun _ _ => Handler.within_new broker⟩
  obtain ⟨u,hu,h⟩ := Pool.run_alone (callService_unwinding (·=k)) halike
    (fun _ _ _ hG => by cases hG) (fun i q hmem _ => hothers i q hmem) hrun
  have hview : u.shared.view T k=s.view T k := by
    refine run_sweeps (fun ev hmem => ?_) hu
    obtain ⟨hmem,hconcerns⟩ := List.mem_filter.mp hmem
    cases ev with
    | arrive i q => cases hconcerns
    | call i w => cases hconcerns
    | background now => exact ⟨now,rfl,hclock now hmem⟩
  rw [← hview]
  exact congrArg (fun r : Slot F => r.view T) (h.shared k rfl)

/-- Another key is set and the sweeper runs. -/
theorem key_lifetime_set : ∃ p : Server Bool Int,
    run [.arrive false ⟨.plain 0,utf8 "SET",[[98],[121]]⟩,.call false (.plain 0),.background 5]
      (init false (MemoryStore.new.set [97] [120]))=.ok p ∧
    p.shared.view 9 [97]=some (.string [120],none) := by
  obtain ⟨p,hrun⟩ : ∃ p : Server Bool Int,
      run [.arrive false ⟨.plain 0,utf8 "SET",[[98],[121]]⟩,.call false (.plain 0),.background 5]
        (init false (MemoryStore.new.set [97] [120]))=.ok p := ⟨_,rfl⟩
  refine ⟨p,hrun,(key_lifetime false _ [97] 9 _ p hrun ?_ ?_).trans (by decide)⟩
  · intro i q hmem
    simp only [List.mem_cons,Calls.Event.arrive.injEq,reduceCtorEq,List.not_mem_nil,
      or_false] at hmem
    obtain ⟨rfl,rfl⟩ := hmem
    exact within_set (by decide)
  · intro now hmem
    simp only [List.mem_cons,Calls.Event.background.injEq,reduceCtorEq,List.not_mem_nil,or_false,
      false_or] at hmem
    omega

end Server
end GoRedis
