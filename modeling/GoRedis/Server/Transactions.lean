import GoRedis.Server.Handler
/-!
# Transactions on one connection

What one turn of the handler can do, whatever the router answers: which calls it makes, what
it sends and how it leaves the transaction and the watched keys. From it follows the
discipline of the queue over every session: commands are dispatched in the order of arrival,
those between `MULTI` and its `EXEC` all together or not at all.
-/
namespace GoRedis
open Calls

/-- The calls that read these versions of these keys. -/
def versionCalls (entries : List (Bytes × UInt64)) : List (Made Call.Result) :=
  entries.map fun e => ⟨.keyVersion e.1,e.2⟩

/-- The calls that dispatch these commands, with these replies. -/
def dispatchCalls (cmds : List (List Bytes × Response)) : List (Made Call.Result) :=
  cmds.map fun c => ⟨.dispatch c.1,c.2⟩

/-- The commands that are dispatched by the calls. -/
def dispatched (l : List (Made Call.Result)) : List (List Bytes) :=
  l.filterMap fun
    | ⟨.dispatch args,_⟩ => some args
    | _ => none

/-- The replies to the dispatched commands. -/
def dispatchReplies (l : List (Made Call.Result)) : List Response :=
  l.filterMap fun
    | ⟨.dispatch _,resp⟩ => some resp
    | _ => none

@[simp] theorem dispatched_append (l l' : List (Made Call.Result)) :
    dispatched (l++l')=dispatched l++dispatched l' := List.filterMap_append

@[simp] theorem dispatchReplies_append (l l' : List (Made Call.Result)) :
    dispatchReplies (l++l')=dispatchReplies l++dispatchReplies l' := List.filterMap_append

@[simp] theorem dispatched_versionCalls (es : List (Bytes × UInt64)) :
    dispatched (versionCalls es)=[] := by
  simp [dispatched,versionCalls]

@[simp] theorem dispatchReplies_versionCalls (es : List (Bytes × UInt64)) :
    dispatchReplies (versionCalls es)=[] := by
  simp [dispatchReplies,versionCalls]

@[simp] theorem dispatched_dispatchCalls (cs : List (List Bytes × Response)) :
    dispatched (dispatchCalls cs)=cs.map Prod.fst := by
  simp [dispatched,dispatchCalls,List.filterMap_map]

@[simp] theorem dispatchReplies_dispatchCalls (cs : List (List Bytes × Response)) :
    dispatchReplies (dispatchCalls cs)=cs.map Prod.snd := by
  simp [dispatchReplies,dispatchCalls,List.filterMap_map]

section Calls
variable {α : Type} {l : List (Made Call.Result)} {p : HandlerM α}

theorem callKeyVersion_makes {key : Bytes} {f : UInt64 → HandlerM α} :
    (callKeyVersion key >>= f).Makes l p ↔ (l=[] ∧ p=callKeyVersion key >>= f) ∨
      ∃ v l', l=⟨.keyVersion key,v⟩::l' ∧ (f v).Makes l' p := Prog.makes_call

theorem callDispatch_makes {args : List Bytes} {f : Response → HandlerM α} :
    (callDispatch args >>= f).Makes l p ↔ (l=[] ∧ p=callDispatch args >>= f) ∨
      ∃ resp l', l=⟨.dispatch args,resp⟩::l' ∧ (f resp).Makes l' p := Prog.makes_call

end Calls

namespace Handler

section Loops
variable {l : List (Made Call.Result)}

/-- The watched keys after these were watched as well. -/
def record (watched : Map UInt64) (seen : List (Bytes × UInt64)) : Map UInt64 :=
  seen.foldl (fun m e => m.insert e.1 e.2) watched

theorem watchLoop_makes {keys : List Bytes} {watched : Map UInt64} {p : HandlerM (Map UInt64)} :
    (watchLoop keys watched).Makes l p ↔ ∃ seen rest, keys=seen.map Prod.fst++rest ∧
      l=versionCalls seen ∧ p=watchLoop rest (record watched seen) := by
  induction keys generalizing l watched with
  | nil =>
    rw [watchLoop,Prog.pure_eq,Prog.makes_pure]
    constructor
    · rintro ⟨rfl,rfl⟩
      exact ⟨[],[],rfl,rfl,rfl⟩
    · rintro ⟨seen,rest,hk,rfl,rfl⟩
      obtain ⟨hs,rfl⟩ := List.append_eq_nil_iff.mp hk.symm
      obtain rfl := List.map_eq_nil_iff.mp hs
      exact ⟨rfl,rfl⟩
  | cons key keys ih =>
    rw [watchLoop,callKeyVersion_makes]
    constructor
    · rintro (⟨rfl,rfl⟩ | ⟨v,l',rfl,h⟩)
      · exact ⟨[],key::keys,rfl,rfl,rfl⟩
      · obtain ⟨seen,rest,rfl,rfl,rfl⟩ := ih.mp h
        exact ⟨(key,v)::seen,rest,rfl,rfl,rfl⟩
    · rintro ⟨seen,rest,hk,rfl,rfl⟩
      cases seen with
      | nil =>
        obtain rfl : key::keys=rest := hk
        exact .inl ⟨rfl,rfl⟩
      | cons e seen =>
        obtain ⟨k,v⟩ := e
        simp only [List.map_cons,List.cons_append,List.cons.injEq] at hk
        obtain ⟨rfl,rfl⟩ := hk
        exact .inr ⟨v,versionCalls seen,rfl,ih.mpr ⟨seen,rest,rfl,rfl,rfl⟩⟩

theorem watchDirtyLoop_makes {entries : List (Bytes × UInt64)} {p : HandlerM Bool} :
    (watchDirtyLoop entries).Makes l p ↔ ∃ seen rest, entries=seen++rest ∧
      ((l=versionCalls seen ∧ p=watchDirtyLoop rest) ∨
        ∃ key ver v rest', rest=(key,ver)::rest' ∧ v ≠ ver ∧
          l=versionCalls (seen++[(key,v)]) ∧ p=.pure true) := by
  induction entries generalizing l with
  | nil =>
    rw [watchDirtyLoop,Prog.pure_eq,Prog.makes_pure]
    constructor
    · rintro ⟨rfl,rfl⟩
      exact ⟨[],[],rfl,.inl ⟨rfl,rfl⟩⟩
    · rintro ⟨seen,rest,hk,h⟩
      obtain ⟨rfl,rfl⟩ := List.append_eq_nil_iff.mp hk.symm
      rcases h with ⟨rfl,rfl⟩ | ⟨_,_,_,_,h,_⟩
      · exact ⟨rfl,rfl⟩
      · cases h
  | cons e entries ih =>
    obtain ⟨key,ver⟩ := e
    rw [watchDirtyLoop,callKeyVersion_makes]
    constructor
    · rintro (⟨rfl,rfl⟩ | ⟨v,l',rfl,h⟩)
      · exact ⟨[],(key,ver)::entries,rfl,.inl ⟨rfl,rfl⟩⟩
      · by_cases hv : v ≠ ver
        · rw [if_pos hv] at h
          obtain ⟨rfl,rfl⟩ := Prog.makes_pure.mp h
          exact ⟨[],(key,ver)::entries,rfl,.inr ⟨key,ver,v,entries,rfl,hv,rfl,rfl⟩⟩
        · rw [if_neg hv] at h
          obtain rfl : v=ver := not_not.mp hv
          obtain ⟨seen,rest,rfl,⟨rfl,rfl⟩ | ⟨k,ver,v',rest',rfl,hne,rfl,rfl⟩⟩ := ih.mp h
          · exact ⟨(key,v)::seen,rest,rfl,.inl ⟨rfl,rfl⟩⟩
          · exact ⟨(key,v)::seen,_,rfl,.inr ⟨k,ver,v',rest',rfl,hne,rfl,rfl⟩⟩
    · rintro ⟨seen,rest,hk,h⟩
      cases seen with
      | nil =>
        obtain rfl : (key,ver)::entries=rest := hk
        rcases h with ⟨rfl,rfl⟩ | ⟨k,ver',v,rest',hrest,hne,rfl,rfl⟩
        · exact .inl ⟨rfl,rfl⟩
        · cases hrest
          exact .inr ⟨v,[],rfl,by rw [if_pos hne]; rfl⟩
      | cons e seen =>
        obtain ⟨rfl,rfl⟩ := List.cons.inj hk
        rcases h with ⟨rfl,rfl⟩ | ⟨k,ver',v,rest',rfl,hne,rfl,rfl⟩
        · exact .inr ⟨ver,versionCalls seen,rfl,by
            rw [if_neg (not_not.mpr rfl)]; exact ih.mpr ⟨seen,rest,rfl,.inl ⟨rfl,rfl⟩⟩⟩
        · exact .inr ⟨ver,versionCalls (seen++[(k,v)]),rfl,by
            rw [if_neg (not_not.mpr rfl)]
            exact ih.mpr ⟨seen,_,rfl,.inr ⟨k,ver',v,rest',rfl,hne,rfl,rfl⟩⟩⟩

theorem execLoop_makes {cmds : List (List Bytes)} {results : List Bytes}
    {p : HandlerM (List Bytes)} :
    (execLoop cmds results).Makes l p ↔ ∃ seen rest, cmds=seen.map Prod.fst++rest ∧
      l=dispatchCalls seen ∧ p=execLoop rest (results++seen.map fun c => serialize c.2) := by
  induction cmds generalizing l results with
  | nil =>
    rw [execLoop,Prog.pure_eq,Prog.makes_pure]
    constructor
    · rintro ⟨rfl,rfl⟩
      exact ⟨[],[],rfl,rfl,by simp [execLoop]⟩
    · rintro ⟨seen,rest,hk,rfl,rfl⟩
      obtain ⟨hs,rfl⟩ := List.append_eq_nil_iff.mp hk.symm
      obtain rfl := List.map_eq_nil_iff.mp hs
      exact ⟨rfl,by simp [execLoop]⟩
  | cons cmd cmds ih =>
    rw [execLoop,callDispatch_makes]
    constructor
    · rintro (⟨rfl,rfl⟩ | ⟨resp,l',rfl,h⟩)
      · refine ⟨[],cmd::cmds,rfl,rfl,?_⟩
        rw [List.map_nil,List.append_nil]
        rfl
      · obtain ⟨seen,rest,rfl,rfl,rfl⟩ := ih.mp h
        exact ⟨(cmd,resp)::seen,rest,rfl,rfl,by simp⟩
    · rintro ⟨seen,rest,hk,rfl,rfl⟩
      cases seen with
      | nil =>
        obtain rfl : cmd::cmds=rest := hk
        refine .inl ⟨rfl,?_⟩
        rw [List.map_nil,List.append_nil]
        rfl
      | cons c seen =>
        obtain ⟨cmd',resp⟩ := c
        simp only [List.map_cons,List.cons_append,List.cons.injEq] at hk
        obtain ⟨rfl,rfl⟩ := hk
        exact .inr ⟨resp,dispatchCalls seen,rfl,ih.mpr ⟨seen,rest,rfl,rfl,by simp⟩⟩

end Loops

theorem itoaLoop_eq (n : Nat) (buf : Bytes) :
    itoaLoop n buf=((Nat.digits 10 n).reverse.map fun d => UInt8.ofNat (48+d))++buf := by
  induction n,buf using itoaLoop.induct with
  | case1 buf => simp [itoaLoop]
  | case2 n buf hn ih =>
    rw [itoaLoop,if_neg hn,ih,Nat.digits_def' (by decide) (Nat.pos_of_ne_zero hn)]
    simp

theorem itoa_natCast (n : Nat) : itoa n=formatNat n := by
  unfold itoa formatNat
  by_cases hn : n=0
  · subst hn
    rfl
  · have hneg : ¬(n:Int) < 0 := by omega
    rw [if_neg (by omega),if_neg hneg,if_neg hn,itoaLoop_eq,List.append_nil,Int.toNat_natCast]

theorem serializeAll_eq (rs : List Response) : serializeAll rs=(rs.map serialize).flatten := by
  induction rs with
  | nil => simp [serializeAll]
  | cons r rs ih => simp [serializeAll,ih]

theorem execReply_eq (rs : List Response) :
    utf8 "*"++itoa (rs.map serialize).length++utf8 "\r\n"++(rs.map serialize).flatten=
      serialize (.array rs) := by
  rw [itoa_natCast,List.length_map,serialize,serializeAll_eq]
  rfl

/-- The calls of the broker. -/
def isBroker : Call → Bool
  | .keyVersion _ | .dispatch _ => false
  | _ => true

/-- Transaction and watched keys are left alone, and a subscriber stays one. -/
structure Keeps (h h' : Handler) : Prop where
  inMulti : h'.inMulti=h.inMulti
  txQueue : h'.txQueue=h.txQueue
  txErrors : h'.txErrors=h.txErrors
  watchedKeys : h'.watchedKeys=h.watchedKeys
  sub : h.sub=true → h'.sub=true

theorem Keeps.refl (h : Handler) : h.Keeps h := ⟨rfl,rfl,rfl,rfl,id⟩

theorem Keeps.trans {h h' h'' : Handler} (a : h.Keeps h') (b : h'.Keeps h'') : h.Keeps h'' :=
  ⟨b.inMulti.trans a.inMulti,b.txQueue.trans a.txQueue,b.txErrors.trans a.txErrors,
    b.watchedKeys.trans a.watchedKeys,b.sub ∘ a.sub⟩

/-- Both registries ask the broker only and leave the transaction alone. -/
structure Registry.Sound (reg : Registry) : Prop where
  setNames : ∀ (names : KeySet) (h : Handler), h.Keeps (reg.setNames names h)
  subscribe : ∀ name, (reg.subscribe name).Always (isBroker ·=true) fun _ => True
  unsubscribe : ∀ name, (reg.unsubscribe name).Always (isBroker ·=true) fun _ => True

theorem channels_sound : channels.Sound :=
  ⟨fun _ _ => ⟨rfl,rfl,rfl,rfl,id⟩,fun _ => ⟨rfl,fun _ => trivial⟩,fun _ => ⟨rfl,fun _ => trivial⟩⟩

theorem patterns_sound : patterns.Sound :=
  ⟨fun _ _ => ⟨rfl,rfl,rfl,rfl,id⟩,fun _ => ⟨rfl,fun _ => trivial⟩,fun _ => ⟨rfl,fun _ => trivial⟩⟩

section Registries
variable {reg : Registry} {P : Handler → Prop} {h : Handler}

theorem subscribeLoop_always (hreg : reg.Sound) (hset : ∀ names h, P h → P (reg.setNames names h))
    (names : List Bytes) (hP : P h) :
    (subscribeLoop reg names h).Always (isBroker ·=true) fun r => P r.2 := by
  induction names generalizing h with
  | nil => exact hP
  | cons name names ih =>
    rw [subscribeLoop]
    split
    · exact ih hP
    · exact (hreg.subscribe name).bind fun _ _ => (ih (hset _ h hP)).bind fun r hr => hr

theorem unsubscribeLoop_always (hreg : reg.Sound)
    (hset : ∀ names h, P h → P (reg.setNames names h)) (names : List Bytes) (hP : P h) :
    (unsubscribeLoop reg names h).Always (isBroker ·=true) fun r => P r.2 := by
  induction names generalizing h with
  | nil => exact hP
  | cons name names ih =>
    rw [unsubscribeLoop]
    split
    · exact ih hP
    · exact (hreg.unsubscribe name).bind fun _ _ => (ih (hset _ h hP)).bind fun r hr => hr

theorem unsubscribeNames_always (hreg : reg.Sound)
    (hset : ∀ names h, P h → P (reg.setNames names h)) (w : World) (names : List Bytes) (hP : P h) :
    (unsubscribeNames w reg names h).Always (isBroker ·=true) fun r => P r.2 := by
  unfold unsubscribeNames
  split
  · exact hP
  split
  · exact unsubscribeLoop_always hreg hset _ hP
  · exact unsubscribeLoop_always hreg hset _ hP

end Registries

theorem subscribeNames_keeps {reg : Registry} (hreg : reg.Sound) (names : List Bytes)
    (h : Handler) :
    (subscribeNames reg names h).Always (isBroker ·=true) fun r => h.Keeps r.2 := by
  unfold subscribeNames
  split
  · exact Keeps.refl h
  split
  · exact Keeps.refl h
  · exact subscribeLoop_always hreg (fun names h' hk => hk.trans (hreg.setNames names h')) names
      ⟨rfl,rfl,rfl,rfl,fun _ => rfl⟩

theorem unsubscribeNames_keeps {reg : Registry} (hreg : reg.Sound) (w : World)
    (names : List Bytes) (h : Handler) :
    (unsubscribeNames w reg names h).Always (isBroker ·=true) fun r => h.Keeps r.2 :=
  unsubscribeNames_always hreg (fun names h' hk => hk.trans (hreg.setNames names h')) w names
    (Keeps.refl h)

/-- Everything a turn of the loop can be at: the calls made so far and what is left to do. -/
inductive Turn (q : Request) (h : Handler) :
    List (Made Call.Result) → HandlerM (List Bytes × Handler) → Prop
  | subscription {l p} (hq : q.verb ∈ [.subscribe,.unsubscribe,.psubscribe,.punsubscribe])
      (hl : ∀ m ∈ l, isBroker m.1=true)
      (hp : p.Always (isBroker ·=true) fun r => h.Keeps r.2) : Turn q h l p
  | nested (hq : q.verb=.multi) (hin : h.inMulti=true) :
      Turn q h [] (.pure ([serialize (.error (utf8 "ERR MULTI calls can not be nested"))],h))
  | multi (hq : q.verb=.multi) (hin : h.inMulti=false) :
      Turn q h [] (.pure ([serialize okReply],
        { h with inMulti := true,txQueue := [],txErrors := 0 }))
  | execRefused (hq : q.verb=.exec) (hin : h.inMulti=false) :
      Turn q h [] (.pure ([serialize (withoutMulti "EXEC")],h))
  | checking (hq : q.verb=.exec) (hin : h.inMulti=true) (seen : List (Bytes × UInt64)) (key : Bytes)
      (ver : UInt64) (rest : List (Bytes × UInt64))
      (hent : watchEntries q.world h=seen++(key,ver)::rest) {next} :
      Turn q h (versionCalls seen) (.call (.keyVersion key) next)
  | aborted (hq : q.verb=.exec) (hin : h.inMulti=true) (seen : List (Bytes × UInt64)) (key : Bytes)
      (ver v : UInt64) (rest : List (Bytes × UInt64))
      (hent : watchEntries q.world h=seen++(key,ver)::rest) (hne : v ≠ ver) :
      Turn q h (versionCalls (seen++[(key,v)])) (.pure ([serialize .nullArray],h.endTx))
  | executing (hq : q.verb=.exec) (hin : h.inMulti=true) (seen : List (List Bytes × Response))
      (cmd : List Bytes) (rest : List (List Bytes)) (hqueue : h.txQueue=seen.map Prod.fst++cmd::rest)
      {next} : Turn q h (versionCalls (watchEntries q.world h)++dispatchCalls seen)
        (.call (.dispatch cmd) next)
  | committed (hq : q.verb=.exec) (hin : h.inMulti=true) (seen : List (List Bytes × Response))
      (hqueue : h.txQueue=seen.map Prod.fst) :
      Turn q h (versionCalls (watchEntries q.world h)++dispatchCalls seen)
        (.pure ([serialize (.array (seen.map Prod.snd))],h.endTx))
  | discardRefused (hq : q.verb=.discard) (hin : h.inMulti=false) :
      Turn q h [] (.pure ([serialize (withoutMulti "DISCARD")],h))
  | discarded (hq : q.verb=.discard) (hin : h.inMulti=true) :
      Turn q h [] (.pure ([serialize okReply],h.endTx))
  | watchRefused (hq : q.verb=.watch) (resp : Response) (hbad : h.inMulti=true ∨ q.rest=[]) :
      Turn q h [] (.pure ([serialize resp],h))
  | watching (hq : q.verb=.watch) (hin : h.inMulti=false) (seen : List (Bytes × UInt64))
      (key : Bytes) (rest : List Bytes) (hkeys : q.rest=seen.map Prod.fst++key::rest) {next} :
      Turn q h (versionCalls seen) (.call (.keyVersion key) next)
  | watched (hq : q.verb=.watch) (hin : h.inMulti=false) (seen : List (Bytes × UInt64))
      (hkeys : q.rest=seen.map Prod.fst) : Turn q h (versionCalls seen)
        (.pure ([serialize okReply],{ h with watchedKeys := record h.watchedKeys seen }))
  | unwatched (hq : q.verb=.unwatch) :
      Turn q h [] (.pure ([serialize okReply],{ h with watchedKeys := ∅ }))
  | notAllowed (hq : q.verb=.other) (hsub : h.sub=true) (resp : Response) :
      Turn q h [] (.pure ([serialize resp],h))
  | queued (hq : q.verb=.other) (hsub : h.sub=false) (hin : h.inMulti=true) :
      Turn q h [] (.pure ([serialize (.simpleString (utf8 "QUEUED"))],
        { h with txQueue := h.txQueue++[q.args] }))
  | dispatching (hq : q.verb=.other) (hsub : h.sub=false) (hin : h.inMulti=false) {next} :
      Turn q h [] (.call (.dispatch q.args) next)
  | answered (hq : q.verb=.other) (hsub : h.sub=false) (hin : h.inMulti=false) (resp : Response) :
      Turn q h [⟨.dispatch q.args,resp⟩] (.pure ([serialize resp],h))

section Turns
variable {q : Request} {h : Handler} {l : List (Made Call.Result)}
  {p : HandlerM (List Bytes × Handler)}

theorem handleExec_turn (hq : q.verb=.exec) (herr : h.txErrors ≤ 0)
    (hm : (handleExec q.world h).Makes l p) : Turn q h l p := by
  unfold handleExec at hm
  by_cases hin : h.inMulti=true
  · rw [if_neg (not_not.mpr hin),if_neg (not_lt.mpr herr)] at hm
    rcases Prog.makes_bind.mp hm with ⟨c,next,hcheck,rfl⟩ | ⟨l₁,dirty,l₂,rfl,hcheck,hm⟩
    · -- still comparing versions
      obtain ⟨seen,rest,hent,⟨rfl,hp⟩ | ⟨_,_,_,_,_,_,_,hp⟩⟩ := watchDirtyLoop_makes.mp hcheck
      · cases rest with
        | nil => cases hp
        | cons e rest =>
          cases hp
          exact .checking hq hin seen e.1 e.2 rest hent
      · cases hp
    · obtain ⟨seen,rest,hent,⟨rfl,hp⟩ | ⟨key,ver,v,rest',rfl,hne,rfl,hp⟩⟩ :=
        watchDirtyLoop_makes.mp hcheck
      · -- all versions agree
        cases rest with
        | cons e rest => cases hp
        | nil =>
          obtain rfl : dirty=false := by cases hp; rfl
          rw [List.append_nil] at hent
          rw [if_neg Bool.false_ne_true] at hm
          rw [← hent]
          rcases Prog.makes_bind.mp hm with ⟨c,next,hexec,rfl⟩ | ⟨l₃,results,l₄,rfl,hexec,hm⟩
          · obtain ⟨done,todo,hqueue,rfl,hp⟩ := execLoop_makes.mp hexec
            cases todo with
            | nil => cases hp
            | cons cmd todo =>
              cases hp
              exact .executing hq hin done cmd todo hqueue
          · obtain ⟨done,todo,hqueue,rfl,hp⟩ := execLoop_makes.mp hexec
            cases todo with
            | cons cmd todo => cases hp
            | nil =>
              obtain rfl : results=done.map fun c => serialize c.2 := by cases hp; rfl
              obtain ⟨rfl,rfl⟩ := Prog.makes_pure.mp hm
              have hreply := execReply_eq (done.map Prod.snd)
              rw [List.map_map] at hreply
              rw [List.append_nil] at hqueue ⊢
              have := Turn.committed hq hin done hqueue
              rw [← hreply] at this
              exact this
      · -- the first version that differs
        obtain rfl : dirty=true := by cases hp; rfl
        rw [if_pos rfl] at hm
        obtain ⟨rfl,rfl⟩ := Prog.makes_pure.mp hm
        rw [List.append_nil]
        exact .aborted hq hin seen key ver v rest' hent hne
  · rw [if_pos hin] at hm
    obtain ⟨rfl,rfl⟩ := Prog.makes_pure.mp hm
    exact .execRefused hq (by simpa using hin)

theorem handleWatch_turn (hq : q.verb=.watch)
    (hm : (handleWatch q.rest h >>= fun r => pure ([serialize r.1],r.2)).Makes l p) :
    Turn q h l p := by
  unfold handleWatch at hm
  by_cases hin : h.inMulti=true
  · rw [if_pos hin] at hm
    obtain ⟨rfl,rfl⟩ := Prog.makes_pure.mp hm
    exact .watchRefused hq _ (.inl hin)
  rw [if_neg hin] at hm
  by_cases hnil : q.rest=[]
  · rw [if_pos hnil] at hm
    obtain ⟨rfl,rfl⟩ := Prog.makes_pure.mp hm
    exact .watchRefused hq _ (.inr hnil)
  rw [if_neg hnil] at hm
  have hin' : h.inMulti=false := by simpa using hin
  rcases Prog.makes_bind.mp hm with ⟨c,next,hloop,rfl⟩ | ⟨l₁,r,l₂,rfl,hloop,hm⟩
  · rcases Prog.makes_bind.mp hloop with ⟨c',next',hloop,hp⟩ | ⟨l₁,m,l₂,rfl,_,hm⟩
    · obtain ⟨seen,rest,hkeys,rfl,hp'⟩ := watchLoop_makes.mp hloop
      cases rest with
      | nil => cases hp'
      | cons key rest =>
        cases hp'
        cases hp
        exact .watching hq hin' seen key rest hkeys
    · cases (Prog.makes_pure.mp hm).2
  · obtain ⟨l₃,m,l₄,rfl,hkept,hret⟩ := Prog.returns_bind.mp hloop
    obtain ⟨rfl,rfl⟩ := Prog.returns_pure.mp hret
    obtain ⟨rfl,rfl⟩ := Prog.makes_pure.mp hm
    obtain ⟨seen,rest,hkeys,rfl,hp⟩ := watchLoop_makes.mp hkept
    cases rest with
    | cons key rest => cases hp
    | nil =>
      obtain rfl : m=record h.watchedKeys seen := by cases hp; rfl
      rw [List.append_nil] at hkeys
      simpa using Turn.watched hq hin' seen hkeys

theorem serve_turn (herr : h.txErrors ≤ 0) (hm : (serve q h).Makes l p) : Turn q h l p := by
  have hbroker : ∀ {p' : HandlerM (List Bytes × Handler)},
      q.verb ∈ [Verb.subscribe,.unsubscribe,.psubscribe,.punsubscribe] →
      (p'.Always (isBroker ·=true) fun r => h.Keeps r.2) → p'.Makes l p → Turn q h l p := by
    intro p' hq halways hm
    obtain ⟨hl,hp⟩ := halways.makes hm
    exact .subscription hq hl hp
  unfold serve at hm
  cases hq : q.verb with
  | subscribe =>
    rw [hq] at hm
    exact hbroker (by simp [hq]) (subscribeNames_keeps channels_sound _ h) hm
  | unsubscribe =>
    rw [hq] at hm
    exact hbroker (by simp [hq]) (unsubscribeNames_keeps channels_sound _ _ h) hm
  | psubscribe =>
    rw [hq] at hm
    exact hbroker (by simp [hq]) (subscribeNames_keeps patterns_sound _ h) hm
  | punsubscribe =>
    rw [hq] at hm
    exact hbroker (by simp [hq]) (unsubscribeNames_keeps patterns_sound _ _ h) hm
  | multi =>
    rw [hq] at hm
    obtain ⟨rfl,rfl⟩ := Prog.makes_pure.mp hm
    cases hin : h.inMulti with
    | true =>
      have := Turn.nested hq hin
      simpa [handleMulti,hin] using this
    | false =>
      have := Turn.multi hq hin
      simpa [handleMulti,hin] using this
  | exec =>
    rw [hq] at hm
    exact handleExec_turn hq herr hm
  | discard =>
    rw [hq] at hm
    obtain ⟨rfl,rfl⟩ := Prog.makes_pure.mp hm
    cases hin : h.inMulti with
    | true =>
      have := Turn.discarded hq hin
      simpa [handleDiscard,hin] using this
    | false =>
      have := Turn.discardRefused hq hin
      simpa [handleDiscard,hin] using this
  | watch =>
    rw [hq] at hm
    exact handleWatch_turn hq hm
  | unwatch =>
    rw [hq] at hm
    obtain ⟨rfl,rfl⟩ := Prog.makes_pure.mp hm
    exact .unwatched hq
  | other =>
    rw [hq] at hm
    dsimp only at hm
    cases hsub : h.sub with
    | true =>
      rw [if_pos hsub] at hm
      obtain ⟨rfl,rfl⟩ := Prog.makes_pure.mp hm
      exact .notAllowed hq hsub _
    | false =>
      rw [if_neg (by simp [hsub])] at hm
      cases hin : h.inMulti with
      | true =>
        rw [if_pos hin] at hm
        obtain ⟨rfl,rfl⟩ := Prog.makes_pure.mp hm
        exact .queued hq hsub hin
      | false =>
        rw [if_neg (by simp [hin])] at hm
        rcases callDispatch_makes.mp hm with ⟨rfl,rfl⟩ | ⟨resp,l',rfl,hret⟩
        · exact .dispatching hq hsub hin
        · obtain ⟨rfl,rfl⟩ := Prog.makes_pure.mp hret
          exact .answered hq hsub hin resp

end Turns
end Handler

/-- The request begins a transaction. -/
def Request.Opens (q : Request) (sent : List Bytes) : Prop :=
  q.verb=.multi ∧ sent=[serialize okReply]

/-- The request is an `EXEC` or a `DISCARD` and not refused for want of a `MULTI`. -/
def Request.Closes (q : Request) (sent : List Bytes) : Prop :=
  (q.verb=.exec ∧ sent ≠ [serialize (Handler.withoutMulti "EXEC")]) ∨
    (q.verb=.discard ∧ sent ≠ [serialize (Handler.withoutMulti "DISCARD")])

/-- Whether there is a transaction after the request, given whether there was one before. -/
def Request.inMulti (q : Request) (before : Bool) : Bool :=
  if q.verb=.multi then true else if q.verb ∈ [.exec,.discard] then false else before

/-- The command of a request, if it is neither about transactions nor about subscriptions. -/
def Request.command (q : Request) : List (List Bytes) := if q.verb=.other then [q.args] else []

namespace Handler

/-- The commands that wait for an `EXEC`. -/
def pending (h : Handler) : List (List Bytes) := if h.inMulti then h.txQueue else []

section Steps
variable {q : Request} {h h' : Handler} {l : List (Made Call.Result)} {sent : List Bytes}

theorem dispatched_eq_nil_of_broker (hl : ∀ m ∈ l, isBroker m.1=true) : dispatched l=[] := by
  rw [dispatched,List.filterMap_eq_nil_iff]
  rintro ⟨c,r⟩ hm
  have := hl _ hm
  cases c <;> simp_all [isBroker]

theorem Turn.sub (ht : Turn q h l (.pure (sent,h'))) (hsub : h'.sub=false) : h.sub=false := by
  cases ht with
  | subscription _ _ hp =>
    cases hs : h.sub with
    | false => rfl
    | true => exact absurd (hp.sub hs) (by simp [hsub])
  | _ => exact hsub

theorem Turn.txErrors (ht : Turn q h l (.pure (sent,h'))) (herr : h.txErrors ≤ 0) :
    h'.txErrors ≤ 0 := by
  cases ht with
  | subscription _ _ hp => rwa [hp.txErrors]
  | multi | aborted | committed | discarded => exact le_refl _
  | _ => exact herr

theorem Turn.sublist (ht : Turn q h l (.pure (sent,h'))) :
    (dispatched l++h'.pending).Sublist (h.pending++q.command) := by
  unfold Request.command
  cases ht with
  | subscription hq hl hp =>
    rw [dispatched_eq_nil_of_broker hl,pending,hp.inMulti,hp.txQueue]
    exact List.sublist_append_left _ _
  | multi hq hin => simp [dispatched,pending]
  | aborted hq hin => simp [pending,endTx]
  | committed hq hin seen hqueue => simp [pending,endTx,hin,hqueue]
  | discarded hq hin => simp [dispatched,pending,endTx]
  | watched hq hin => simp [pending,hin]
  | queued hq hsub hin => simp [dispatched,pending,hin,hq]
  | answered hq hsub hin resp => simp [dispatched,pending,hin,hq]
  | _ => exact List.sublist_append_left _ _

theorem Turn.accepted (ht : Turn q h l (.pure (sent,h'))) (hin : h.inMulti=true)
    (hq : q.verb=.exec ∨ q.verb=.discard) : q.Closes sent := by
  cases ht with
  | aborted hq => exact .inl ⟨hq,by simp only [serialize]; decide⟩
  | committed hq => exact .inl ⟨hq,by simp [serialize,withoutMulti]⟩
  | discarded hq => exact .inr ⟨hq,by simp [serialize,withoutMulti,okReply]⟩
  | subscription hq' => rcases hq with hq | hq <;> simp [hq] at hq'
  | _ => simp_all

theorem Turn.inside (ht : Turn q h l (.pure (sent,h'))) (hsub : h'.sub=false)
    (hin : h.inMulti=true) (hopen : ¬q.Closes sent) :
    h'.inMulti=true ∧ h'.txQueue=h.txQueue++q.command ∧ dispatched l=[] := by
  have hclose := ht.accepted hin
  cases ht with
  | subscription hq hl hp =>
    have hne : q.verb ≠ .other := by
      intro h
      simp [h] at hq
    have hqueue : h'.txQueue=h.txQueue := hp.txQueue
    exact ⟨hp.inMulti.trans hin,by simp [hqueue,Request.command,hne],
      dispatched_eq_nil_of_broker hl⟩
  | aborted hq => exact absurd (hclose (.inl hq)) hopen
  | committed hq => exact absurd (hclose (.inl hq)) hopen
  | discarded hq => exact absurd (hclose (.inr hq)) hopen
  | notAllowed hq hsub' => exact absurd hsub' (by simp [hsub])
  | _ => simp_all [Request.command,dispatched]

theorem Turn.closes (ht : Turn q h l (.pure (sent,h'))) (hclose : q.Closes sent) :
    h.inMulti=true ∧ h'=h.endTx ∧
      ((q.verb=.exec ∧ dispatched l=h.txQueue ∧
          sent=[serialize (.array (dispatchReplies l))]) ∨
        (dispatched l=[] ∧ (q.verb=.exec → sent=[serialize .nullArray]))) := by
  rcases hclose with ⟨hq,hs⟩ | ⟨hq,hs⟩
  · cases ht with
    | execRefused => exact absurd rfl hs
    | aborted _ hin => exact ⟨hin,rfl,.inr ⟨by simp,fun _ => rfl⟩⟩
    | committed _ hin seen hqueue =>
      exact ⟨hin,rfl,.inl ⟨hq,by simp [hqueue],by simp⟩⟩
    | subscription hq' => simp [hq] at hq'
    | _ => simp_all
  · cases ht with
    | discardRefused => exact absurd rfl hs
    | discarded _ hin => exact ⟨hin,rfl,.inr ⟨rfl,fun he => by simp [hq] at he⟩⟩
    | subscription hq' => simp [hq] at hq'
    | _ => simp_all

theorem Turn.opens (ht : Turn q h l (.pure (sent,h'))) (hopen : q.Opens sent) :
    h'.inMulti=true ∧ h'.txQueue=[] ∧ dispatched l=[] := by
  obtain ⟨hq,hs⟩ := hopen
  cases ht with
  | nested => simp [serialize,okReply] at hs
  | multi => exact ⟨rfl,rfl,rfl⟩
  | subscription hq' => simp [hq] at hq'
  | _ => simp_all

theorem Turn.inMulti (ht : Turn q h l (.pure (sent,h'))) : h'.inMulti=q.inMulti h.inMulti := by
  unfold Request.inMulti
  cases ht with
  | subscription hq _ hp =>
    simp only [List.mem_cons,List.not_mem_nil,or_false] at hq
    rcases hq with hq | hq | hq | hq <;> exact hp.inMulti.trans (by simp [hq])
  | _ => simp_all [endTx]

theorem Turn.ended (ht : Turn q h l (.pure (sent,h'))) (hq : q.verb=.exec ∨ q.verb=.discard) :
    h'.inMulti=false := by
  rw [ht.inMulti,Request.inMulti]
  rcases hq with hq | hq <;> simp [hq]

theorem Turn.refused (ht : Turn q h l (.pure (sent,h'))) (hin : h.inMulti=false)
    (hq : q.verb=.exec ∨ q.verb=.discard) :
    (q.verb=.exec → sent=[serialize (withoutMulti "EXEC")]) ∧
      (q.verb=.discard → sent=[serialize (withoutMulti "DISCARD")]) ∧ l=[] ∧ h'=h := by
  cases ht with
  | subscription hq' => rcases hq with hq | hq <;> simp [hq] at hq'
  | _ => simp_all

theorem Turn.idle (ht : Turn q h l (.pure (sent,h'))) (hidle : h.inMulti=false → h.txQueue=[]) :
    h'.inMulti=false → h'.txQueue=[] := by
  intro hout
  cases ht with
  | subscription _ _ hp => exact hp.txQueue.trans (hidle (hp.inMulti.symm.trans hout))
  | multi | aborted | committed | discarded => rfl
  | queued _ _ hin => exact absurd hin (by simp [show h.inMulti=false from hout])
  | _ => exact hidle hout

theorem Turn.direct (ht : Turn q h l (.pure (sent,h'))) (hsub : h'.sub=false)
    (hin : h.inMulti=false) (hq : q.verb=.other) :
    ∃ resp, l=[⟨.dispatch q.args,resp⟩] ∧ sent=[serialize resp] := by
  cases ht with
  | answered _ _ _ resp => exact ⟨resp,rfl,rfl⟩
  | notAllowed _ hsub' => exact absurd hsub' (by simp [hsub])
  | subscription hq' => simp [hq] at hq'
  | _ => simp_all

end Steps
end Handler

/-- A request, the calls it took and what was sent. -/
abbrev Turned := Exchange World Request (List Bytes) Call.Result

/-- The commands among the requests. -/
def commands (xs : List Turned) : List (List Bytes) := xs.flatMap fun x => x.request.command

/-- What is dispatched while the requests are served. -/
def dispatches (xs : List Turned) : List (List Bytes) := xs.flatMap fun x => dispatched x.made

/-- Whether the requests leave a transaction open. -/
def inMultiAfter (xs : List Turned) (before : Bool) : Bool :=
  xs.foldl (fun b x => x.request.inMulti b) before

namespace Handler

section Sessions
variable {h h' : Handler} {x : Turned} {xs : List Turned}

theorem session_cons_turn (herr : h.txErrors ≤ 0) (hs : Session serve h (x::xs) h') :
    ∃ h₁, Turn x.request h x.made (.pure (x.reply,h₁)) ∧ h₁.txErrors ≤ 0 ∧
      Session serve h₁ xs h' := by
  obtain ⟨h₁,hret,hs⟩ := session_cons.mp hs
  have ht := serve_turn herr hret
  exact ⟨h₁,ht,ht.txErrors herr,hs⟩

theorem session_txErrors (herr : h.txErrors ≤ 0) (hs : Session serve h xs h') :
    h'.txErrors ≤ 0 := by
  induction xs generalizing h with
  | nil =>
    obtain rfl := session_nil.mp hs
    exact herr
  | cons x xs ih =>
    obtain ⟨h₁,_,herr,hs⟩ := session_cons_turn herr hs
    exact ih herr hs

theorem session_inMulti (herr : h.txErrors ≤ 0) (hs : Session serve h xs h') :
    h'.inMulti=inMultiAfter xs h.inMulti := by
  induction xs generalizing h with
  | nil =>
    obtain rfl := session_nil.mp hs
    rfl
  | cons x xs ih =>
    obtain ⟨h₁,ht,herr,hs⟩ := session_cons_turn herr hs
    rw [ih herr hs,ht.inMulti]
    rfl

theorem session_idle (herr : h.txErrors ≤ 0) (hs : Session serve h xs h')
    (hidle : h.inMulti=false → h.txQueue=[]) : h'.inMulti=false → h'.txQueue=[] := by
  induction xs generalizing h with
  | nil =>
    obtain rfl := session_nil.mp hs
    exact hidle
  | cons x xs ih =>
    obtain ⟨h₁,ht,herr,hs⟩ := session_cons_turn herr hs
    exact ih herr hs (ht.idle hidle)

theorem session_sub (herr : h.txErrors ≤ 0) (hs : Session serve h xs h') (hsub : h'.sub=false) :
    h.sub=false := by
  induction xs generalizing h with
  | nil =>
    obtain rfl := session_nil.mp hs
    exact hsub
  | cons x xs ih =>
    obtain ⟨h₁,ht,herr,hs⟩ := session_cons_turn herr hs
    exact ht.sub (ih herr hs)

theorem session_sublist (herr : h.txErrors ≤ 0) (hs : Session serve h xs h') :
    (dispatches xs).Sublist (h.pending++commands xs) := by
  induction xs generalizing h with
  | nil => exact List.nil_sublist _
  | cons x xs ih =>
    obtain ⟨h₁,ht,herr,hs⟩ := session_cons_turn herr hs
    calc dispatches (x::xs)=dispatched x.made++dispatches xs := List.flatMap_cons
      _ |>.Sublist (dispatched x.made++(h₁.pending++commands xs)) := (ih herr hs).append_left _
      _ |>.Sublist ((h.pending++x.request.command)++commands xs) := by
        rw [← List.append_assoc]
        exact ht.sublist.append_right _
      _=h.pending++commands (x::xs) := by simp [commands]

theorem session_inside (herr : h.txErrors ≤ 0) (hs : Session serve h xs h') (hsub : h'.sub=false)
    (hin : h.inMulti=true) (hopen : ∀ x ∈ xs, ¬x.request.Closes x.reply) :
    h'.inMulti=true ∧ h'.txQueue=h.txQueue++commands xs ∧ dispatches xs=[] := by
  induction xs generalizing h with
  | nil =>
    obtain rfl := session_nil.mp hs
    exact ⟨hin,by simp [commands],rfl⟩
  | cons x xs ih =>
    obtain ⟨h₁,ht,herr,hs⟩ := session_cons_turn herr hs
    obtain ⟨hx,hxs⟩ := List.forall_mem_cons.mp hopen
    obtain ⟨hin,hqueue,hnone⟩ := ht.inside (session_sub herr hs hsub) hin hx
    obtain ⟨hin,hqueue',hnone'⟩ := ih herr hs hin hxs
    refine ⟨hin,?_,?_⟩
    · rw [hqueue',hqueue]
      simp [commands]
    · simp [dispatches,hnone,← hnone']

theorem session_transaction {pre mid : List Turned} {m : Turned} (herr : h.txErrors ≤ 0)
    (hs : Session serve h (pre++m::mid) h') (hsub : h'.sub=false)
    (hm : m.request.Opens m.reply) (hopen : ∀ x ∈ mid, ¬x.request.Closes x.reply) :
    h'.inMulti=true ∧ h'.txQueue=commands mid ∧ dispatches (m::mid)=[] := by
  obtain ⟨h₁,hpre,hs⟩ := session_append.mp hs
  obtain ⟨h₂,ht,herr,hs⟩ := session_cons_turn (session_txErrors herr hpre) hs
  obtain ⟨hin,hqueue,hnone⟩ := ht.opens hm
  obtain ⟨hin,hqueue',hnone'⟩ := session_inside herr hs hsub hin hopen
  refine ⟨hin,by rw [hqueue',hqueue,List.nil_append],?_⟩
  simp [dispatches,hnone,← hnone']

theorem session_initial {ys : List Turned} (herr : h.txErrors ≤ 0) (hs : Session serve h xs h')
    (hsub : h'.sub=false) (hpre : ys <+: xs) :
    ∃ h₁, Session serve h ys h₁ ∧ h₁.sub=false := by
  obtain ⟨zs,rfl⟩ := hpre
  obtain ⟨h₁,hys,hzs⟩ := session_append.mp hs
  exact ⟨h₁,hys,session_sub (session_txErrors herr hys) hzs hsub⟩

end Sessions

/-- The discipline of the queue on a connection that never subscribes. Commands are
dispatched in the order of arrival, each at most once. Those between a `MULTI` and what closes
it wait, and then are dispatched together, with the array of their replies as the
answer, or not at all. After `EXEC` and `DISCARD` the queue is empty and the next command is
dispatched directly; those that close a transaction empty the watched keys as well. Where the
requests have left none open they are refused, with no call at all, and the watched keys stay. -/
theorem transaction_discipline (broker : Bool) (xs : List Turned) (h : Handler)
    (hs : Session serve (.new broker) xs h) (hsub : h.sub=false) :
    (dispatches xs).Sublist (commands xs) ∧
    (∀ (pre mid : List Turned) (m : Turned), pre++m::mid <+: xs → m.request.Opens m.reply →
      (∀ x ∈ mid, ¬x.request.Closes x.reply) →
      dispatches (m::mid)=[] ∧
      ∀ e : Turned, pre++m::mid++[e] <+: xs → e.request.Closes e.reply →
        (e.request.verb=.exec ∧ dispatched e.made=commands mid ∧
            e.reply=[serialize (.array (dispatchReplies e.made))]) ∨
          (dispatched e.made=[] ∧ (e.request.verb=.exec → e.reply=[serialize .nullArray]))) ∧
    ∀ (pre : List Turned) (e : Turned), pre++[e] <+: xs →
      e.request.verb=.exec ∨ e.request.verb=.discard →
      (∀ h₀ h', Session serve (.new broker) pre h₀ → Session serve h₀ [e] h' →
        h'.txQueue=[] ∧ (e.request.Closes e.reply → h'.watchedKeys=∅) ∧
        (inMultiAfter pre false=true → e.request.Closes e.reply) ∧
        (inMultiAfter pre false=false →
          (e.request.verb=.exec → e.reply=[serialize (withoutMulti "EXEC")]) ∧
          (e.request.verb=.discard → e.reply=[serialize (withoutMulti "DISCARD")]) ∧
          e.made=[] ∧ h'.watchedKeys=h₀.watchedKeys)) ∧
      ∀ x : Turned, pre++[e,x] <+: xs → x.request.verb=.other →
        ∃ resp, x.made=[⟨.dispatch x.request.args,resp⟩] ∧ x.reply=[serialize resp] := by
  have herr : (new broker).txErrors ≤ 0 := le_refl _
  refine ⟨session_sublist herr hs,fun pre mid m hpre hm hopen => ⟨?_,fun e hpre' he => ?_⟩,
    fun pre e _ he => ⟨fun h₀ h' hs₀ hs' => ?_,fun x hpre' hx => ?_⟩⟩
  · obtain ⟨h₁,hs₁,hsub₁⟩ := session_initial herr hs hsub hpre
    exact (session_transaction herr hs₁ hsub₁ hm hopen).2.2
  · obtain ⟨h₂,hs₂,hsub₂⟩ := session_initial herr hs hsub hpre'
    obtain ⟨h₁,hs₁,hs₂⟩ := session_append.mp hs₂
    obtain ⟨h₃,ht,herr₃,hs₃⟩ := session_cons_turn (session_txErrors herr hs₁) hs₂
    obtain rfl := session_nil.mp hs₃
    obtain ⟨_,hqueue,_⟩ := session_transaction herr hs₁ (ht.sub hsub₂) hm hopen
    rw [← hqueue]
    exact (ht.closes he).2.2
  · have hin := session_inMulti herr hs₀
    have hidle := session_idle herr hs₀ fun _ => rfl
    obtain ⟨h₂,ht,_,hs₂⟩ := session_cons_turn (session_txErrors herr hs₀) hs'
    obtain rfl := session_nil.mp hs₂
    refine ⟨ht.idle hidle (ht.ended he),fun hclose => ?_,
      fun hopen => ht.accepted (hin.trans hopen) he,
      fun hnone => ?_⟩
    · rw [(ht.closes hclose).2.1]
      rfl
    · obtain ⟨hexec,hdiscard,hmade,rfl⟩ := ht.refused (hin.trans hnone) he
      exact ⟨hexec,hdiscard,hmade,rfl⟩
  · obtain ⟨h₂,hs₂,hsub₂⟩ := session_initial herr hs hsub hpre'
    obtain ⟨h₁,hs₁,hs₂⟩ := session_append.mp hs₂
    obtain ⟨h₃,ht,herr₃,hs₂⟩ := session_cons_turn (session_txErrors herr hs₁) hs₂
    obtain ⟨h₄,ht',_,hs₂⟩ := session_cons_turn herr₃ hs₂
    obtain rfl := session_nil.mp hs₂
    exact ht'.direct hsub₂ (ht.ended he) hx

/-- `MULTI`, `SET k v`, `EXEC`. -/
theorem transaction_discipline_set :
    ∃ (xs : List Turned) (h : Handler), Session serve (.new false) xs h ∧ h.sub=false ∧
      xs.map (fun x => x.request.args)=
        [[utf8 "MULTI"],[utf8 "SET",[107],[118]],[utf8 "EXEC"]] ∧
      dispatches xs=[[utf8 "SET",[107],[118]]] ∧ (dispatches xs).Sublist (commands xs) := by
  have hmulti : (⟨.plain 0,utf8 "MULTI",[]⟩ : Request).verb=.multi := by decide
  have hset : (⟨.plain 0,utf8 "SET",[[107],[118]]⟩ : Request).verb=.other := by decide
  have hexec : (⟨.plain 0,utf8 "EXEC",[]⟩ : Request).verb=.exec := by decide
  have hs : Session (W := World) serve (.new false)
      [⟨⟨.plain 0,utf8 "MULTI",[]⟩,[],[serialize okReply]⟩,
        ⟨⟨.plain 0,utf8 "SET",[[107],[118]]⟩,[],[serialize (.simpleString (utf8 "QUEUED"))]⟩,
        ⟨⟨.plain 0,utf8 "EXEC",[]⟩,
          [(.plain 0,⟨.dispatch [utf8 "SET",[107],[118]],okReply⟩)],
          [serialize (.array [okReply])]⟩] (.new false) := by
    simp only [session_cons]
    refine ⟨{ new false with inMulti := true },?_,
      { new false with inMulti := true,txQueue := [[utf8 "SET",[107],[118]]] },?_,
      new false,?_,.nil _⟩
    · simp [serve,hmulti,handleMulti,new,Exchange.made]
    · simp [serve,hset,new,Exchange.made,Request.args]
    · have hreply := execReply_eq [okReply]
      simp only [List.map_cons,List.map_nil] at hreply
      simp only [serve,hexec,handleExec,new,← hreply]
      exact ⟨_,rfl,rfl⟩
  exact ⟨_,_,hs,rfl,rfl,rfl,(transaction_discipline false _ _ hs rfl).1⟩

/-- `WATCH k`, then `EXEC` without a `MULTI`: the key is still watched. -/
theorem exec_keeps_watch :
    ∃ (xs : List Turned) (h : Handler), Session serve (.new false) xs h ∧ h.sub=false ∧
      xs.map (fun x => x.request.args)=[[utf8 "WATCH",[107]],[utf8 "EXEC"]] ∧
      h.watchedKeys ≠ ∅ := by
  have hwatch : (⟨.plain 0,utf8 "WATCH",[[107]]⟩ : Request).verb=.watch := by decide
  have hexec : (⟨.plain 0,utf8 "EXEC",[]⟩ : Request).verb=.exec := by decide
  refine ⟨[⟨⟨.plain 0,utf8 "WATCH",[[107]]⟩,[(.plain 0,⟨.keyVersion [107],(0 : UInt64)⟩)],
      [serialize okReply]⟩,
    ⟨⟨.plain 0,utf8 "EXEC",[]⟩,[],[serialize (withoutMulti "EXEC")]⟩],
    { new false with watchedKeys := (∅ : Map UInt64).insert [107] 0 },
    session_cons.mpr ⟨{ new false with watchedKeys := (∅ : Map UInt64).insert [107] 0 },?_,
      .cons ?_ (.nil _)⟩,rfl,rfl,?_⟩
  · simp only [serve,hwatch]
    exact ⟨_,rfl,rfl⟩
  · simp [serve,hexec,handleExec,new,Exchange.made]
  · simp

end Handler
end GoRedis
