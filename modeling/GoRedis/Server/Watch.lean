import GoRedis.Commands.Router
import GoRedis.Lib.Pool
import GoRedis.Server.Transactions
import GoRedis.Storage.Versions
/-!
# Watched keys and concurrent connections

The server: any number of connections whose handlers call the router one at a time, and the
sweeper. A key that is watched and then changed makes the next `EXEC` give up, provided that
the change shows in the version and that the recorded version is not overwritten, as a second
`WATCH` does. `EXEC` compares the versions and dispatches its commands in separate calls, so it
is isolated only as far as nobody else gets in between.
-/
namespace GoRedis
open Calls

section
variable {F : Type} [Float64 F]

/-- What the router does for a call; the broker keeps no part of the store. -/
def callService (w : World) : (c : Call) → MemoryStore F → Go (c.Result × MemoryStore F)
  | .keyVersion key,s => .ok (s.version key,s)
  | .dispatch args,s => match dispatch w args s with
    | .error p => .error p
    | .ok d => .ok (d.resp,d.store)
  | .subscribe _,s | .unsubscribe _,s | .psubscribe _,s | .punsubscribe _,s => .ok ((),s)

end

abbrev Conn := Client World Request Handler (List Bytes) Call.Result

/-- The connections, by any kind of name, and the store. -/
abbrev Server (I F : Type) := Pool I World Request Handler (List Bytes) (MemoryStore F) Call.Result

/-- A request arrives, a connection makes its next call, or the sweeper runs at an instant. -/
abbrev ServerEvent (I : Type) := Calls.Event I Request World Int

namespace Server
variable {I F : Type} [DecidableEq I] [Float64 F]

/-- The server as it is started: connections without a history, and some store. -/
def init (broker : Bool) (s : MemoryStore F) : Server I F := .start (.new broker) s

def step : ServerEvent I → Server I F → Go (Server I F) :=
  Pool.step Handler.serve callService fun now s => s.deleteExpired now

def run : List (ServerEvent I) → Server I F → Go (Server I F) := Machine.run step

end Server

/-- The versions that were read. -/
def versionsRead (l : List (Made Call.Result)) : List (Bytes × UInt64) :=
  l.filterMap fun
    | ⟨.keyVersion key,v⟩ => some (key,v)
    | _ => none

@[simp] theorem versionsRead_append (l l' : List (Made Call.Result)) :
    versionsRead (l++l')=versionsRead l++versionsRead l' := List.filterMap_append

@[simp] theorem versionsRead_versionCalls (es : List (Bytes × UInt64)) :
    versionsRead (versionCalls es)=es := by
  simp [versionsRead,versionCalls,List.filterMap_map]

@[simp] theorem versionsRead_dispatchCalls (cs : List (List Bytes × Response)) :
    versionsRead (dispatchCalls cs)=[] := by
  simp [versionsRead,dispatchCalls]

/-- The request takes the watches away. -/
def Request.Clears (q : Request) (sent : List Bytes) : Prop := q.verb=.unwatch ∨ q.Closes sent

namespace Handler

/-- The watched keys after a request has got so far, unless it takes the watches away. -/
def watchedAfter (h : Handler) (q : Request) (l : List (Made Call.Result)) : Map UInt64 :=
  if q.verb=.watch then record h.watchedKeys (versionsRead l) else h.watchedKeys

@[simp] theorem watchedAfter_nil (h : Handler) (q : Request) :
    h.watchedAfter q []=h.watchedKeys := by
  simp [watchedAfter,versionsRead,record]

theorem watchedAfter_snoc {h : Handler} {q : Request} {l : List (Made Call.Result)} {c : Call}
    {r : c.Result} {k : Bytes} (hw : q.verb=.watch → c ≠ .keyVersion k) :
    (h.watchedAfter q (l++[⟨c,r⟩]))[k]?=(h.watchedAfter q l)[k]? := by
  unfold watchedAfter
  split
  · rename_i hq
    cases c with
    | keyVersion key =>
      have hne : key ≠ k := fun e => hw hq (by rw [e])
      simp [versionsRead,record,List.foldl_append,Map.getElem?_insert,hne]
    | _ => simp [versionsRead,record]
  · rfl

theorem watchedAfter_watch {h : Handler} {q : Request} {l : List (Made Call.Result)} {k : Bytes}
    {v : UInt64} (hq : q.verb=.watch) :
    (h.watchedAfter q (l++[⟨.keyVersion k,v⟩]))[k]?=some v := by
  simp [watchedAfter,hq,versionsRead,record,List.foldl_append]

section Turns
variable {q : Request} {h h' : Handler} {l : List (Made Call.Result)} {sent : List Bytes}

theorem Turn.watchedKeys (ht : Turn q h l (.pure (sent,h'))) (hc : ¬q.Clears sent) :
    h'.watchedKeys=h.watchedAfter q l := by
  unfold Request.Clears at hc
  cases ht with
  | subscription hq hl hp =>
    have hne : q.verb ≠ .watch := by
      intro h
      simp [h] at hq
    rw [watchedAfter,if_neg hne]
    exact hp.watchedKeys
  | watched hq hin seen hkeys => simp [watchedAfter,hq]
  | unwatched hq => exact absurd (.inl hq) hc
  | aborted hq => exact absurd (.inr (.inl ⟨hq,by simp only [serialize]; decide⟩)) hc
  | committed hq => exact absurd (.inr (.inl ⟨hq,by simp [serialize,withoutMulti]⟩)) hc
  | discarded hq => exact absurd (.inr (.inr ⟨hq,by simp [serialize,withoutMulti,okReply]⟩)) hc
  | watchRefused => simp
  | _ => simp_all [watchedAfter]

theorem mem_watchEntries {w : World} {k : Bytes} {v : UInt64} (hv : h.watchedKeys[k]?=some v) :
    (k,v) ∈ watchEntries w h := by
  simp only [watchEntries,List.mem_map,World.mem_rangeOrder,Std.ExtTreeMap.mem_keys]
  refine ⟨k,?_,?_⟩
  · rw [Std.ExtTreeMap.mem_iff_isSome_getElem?,hv]
    rfl
  · rw [Std.ExtTreeMap.getD_eq_getD_getElem?,hv]
    rfl

theorem eq_of_mem_watchEntries {w : World} {k : Bytes} {u v : UInt64}
    (hu : (k,u) ∈ watchEntries w h) (hv : h.watchedKeys[k]?=some v) : u=v := by
  simp only [watchEntries,List.mem_map,Prod.mk.injEq] at hu
  obtain ⟨k,_,rfl,rfl⟩ := hu
  rw [Std.ExtTreeMap.getD_eq_getD_getElem?,hv]
  rfl

theorem Turn.read_recorded {c : Call} {next : c.Result → HandlerM (List Bytes × Handler)}
    (ht : Turn q h l (.call c next)) (hq : q.verb=.exec) {k : Bytes} {u v : UInt64}
    (hu : (k,u) ∈ versionsRead l) (hv : h.watchedKeys[k]?=some v) : u=v := by
  cases ht with
  | subscription hq' => simp [hq] at hq'
  | checking _ _ seen key ver rest hent =>
    refine eq_of_mem_watchEntries (w := q.world) ?_ hv
    rw [hent]
    rw [versionsRead_versionCalls] at hu
    exact List.mem_append_left _ hu
  | executing =>
    rw [versionsRead_append,versionsRead_versionCalls,versionsRead_dispatchCalls,
      List.append_nil] at hu
    exact eq_of_mem_watchEntries hu hv
  | watching hq' | dispatching hq' => simp [hq] at hq'

/-- An `EXEC` that closes a transaction in which a watched key never showed its recorded
version has given up. -/
theorem Turn.gives_up (ht : Turn q h l (.pure (sent,h'))) (hq : q.verb=.exec)
    (hclose : q.Closes sent) {k : Bytes} {v : UInt64} (hv : h.watchedKeys[k]?=some v)
    (hnot : (k,v) ∉ versionsRead l) : sent=[serialize .nullArray] ∧ dispatched l=[] := by
  cases ht with
  | execRefused => simp [Request.Closes,hq] at hclose
  | aborted => exact ⟨rfl,by simp⟩
  | committed => exact absurd (by simp [mem_watchEntries hv]) hnot
  | subscription hq' => simp [hq] at hq'
  | _ => simp_all

end Turns
end Handler

/-- The keys a connection watches, with the recorded versions; a `WATCH` that is being served
has recorded those it has read. -/
def watching : Conn → Map UInt64
  | .idle h => h.watchedKeys
  | .busy h q calls _ _ => h.watchedAfter q (calls.map Prod.snd)

/-- An `EXEC` is being served and has already compared the version of the key. -/
def Compared (k : Bytes) : Conn → Prop
  | .idle _ => False
  | .busy _ q calls _ _ => q.verb=.exec ∧ k ∈ (versionsRead (calls.map Prod.snd)).map Prod.fst

namespace Server
variable {I F : Type} [DecidableEq I] [Float64 F]

/-- The connection is about to read the version of the key for a `WATCH`. -/
def Watches (p : Server I F) (i : I) (k : Bytes) : Prop :=
  ∃ h q calls next, p.clients i=.busy h q calls (.keyVersion k) next ∧ q.verb=.watch

/-- The event does not overwrite the recorded version of a key that has another one by now. -/
def KeepsRecord (i : I) (ev : ServerEvent I) (p : Server I F) : Prop :=
  ∀ w k v, ev=.call i w → p.Watches i k → (watching (p.clients i))[k]?=some v →
    p.shared.version k=v

/-- The requests of a connection that were answered in between, none of which takes the watches
away. -/
def Calm (xs : List Turned) : Prop := ∀ x ∈ xs, ¬x.request.Clears x.reply

/-- The connection watches the key with the version `v`, and its `EXEC`, if it is at one, has
not come to the key. -/
def Pending (k : Bytes) (v : UInt64) (c : Conn) : Prop := (watching c)[k]?=some v ∧ ¬Compared k c

/-- The request took the watches away, and was no `EXEC` that went through. -/
def Drops (x : Turned) : Prop :=
  x.request.Clears x.reply ∧
    (x.request.verb=.exec → x.reply=[serialize .nullArray] ∧ dispatched x.made=[])

/-- An event has brought the connection `i`, which met the request `q` as `h`, to where it has
made the calls `l` and left the store `s`. -/
inductive Progress (p : Server I F) (ev : ServerEvent I) (i : I) (h : Handler) (q : Request) :
    List (World × Made Call.Result) → MemoryStore F → Prop
  | started {s : MemoryStore F} (hc : p.clients i=.idle h) : Progress p ev i h q [] s
  | called {w : World} {calls : List (World × Made Call.Result)} {c : Call}
      {next : c.Result → HandlerM (List Bytes × Handler)} {r : c.Result} {s : MemoryStore F}
      (hc : p.clients i=.busy h q calls c next) (hev : ev=.call i w)
      (he : callService w c p.shared=.ok (r,s)) : Progress p ev i h q (calls++[(w,⟨c,r⟩)]) s

section Step
variable {broker : Bool} {p p' : Server I F} {ev : ServerEvent I} {i : I} {k : Bytes} {v : UInt64}

theorem own_step (hp : p.Consistent Handler.serve (.new broker)) (hstep : step ev p=.ok p')
    (hev : ev.client=some i) :
    (p'=p ∧ ∀ w, ev=.call i w → ∃ h, p.clients i=.idle h) ∨
      ∃ h q l prog s, Handler.Turn q h (l.map Prod.snd) prog ∧ p'=p.proceed s i h q l prog ∧
        p.Progress ev i h q l s := by
  obtain ⟨h',hlog,hat⟩ := hp i
  have herr : h'.txErrors ≤ 0 := Handler.session_txErrors (le_refl _) hlog
  have hs := Pool.step_steps hstep
  cases hs with
  | still _ hidle => exact .inl ⟨rfl,fun w => hidle i w⟩
  | background => cases hev
  | arrive j q h hc =>
    obtain rfl : j=i := Option.some.inj hev
    rw [hc] at hat
    obtain rfl : h=h' := hat
    exact .inr ⟨h,q,[],_,p.shared,Handler.serve_turn herr rfl,rfl,.started hc⟩
  | call j w hc he =>
    obtain rfl : j=i := Option.some.inj hev
    rw [hc] at hat
    obtain ⟨rfl,hmakes⟩ := hat
    refine .inr ⟨_,_,_,_,_,Handler.serve_turn herr ?_,rfl,.called hc rfl he⟩
    rw [List.map_append]
    exact hmakes.snoc _

theorem own_call {w : World} {h : Handler} {q : Request}
    {calls : List (World × Made Call.Result)} {c : Call}
    {next : c.Result → HandlerM (List Bytes × Handler)}
    (hp : p.Consistent Handler.serve (.new broker)) (hc : p.clients i=.busy h q calls c next)
    (hstep : step (.call i w) p=.ok p') :
    ∃ (r : c.Result) (prog : HandlerM (List Bytes × Handler)) (s : MemoryStore F),
      Handler.Turn q h (calls.map Prod.snd++[⟨c,r⟩]) prog ∧
      p'=p.proceed s i h q (calls++[(w,⟨c,r⟩)]) prog ∧ callService w c p.shared=.ok (r,s) := by
  rcases own_step hp hstep rfl with ⟨_,hidle⟩ | ⟨h',q',l,prog,s,ht,rfl,hl⟩
  · obtain ⟨h',hc'⟩ := hidle w rfl
    rw [hc] at hc'
    cases hc'
  · cases hl with
    | started hc' =>
      rw [hc] at hc'
      cases hc'
    | called hc' hev he =>
      rw [hc] at hc'
      cases hc'
      cases hev
      rw [List.map_append] at ht
      exact ⟨_,prog,s,ht,rfl,he⟩

section Progress
variable {h : Handler} {q : Request} {l : List (World × Made Call.Result)} {s : MemoryStore F}

omit [DecidableEq I] in
theorem Progress.watched (hl : p.Progress ev i h q l s) (k : Bytes) :
    (h.watchedAfter q (l.map Prod.snd))[k]?=(watching (p.clients i))[k]? ∨
      (∃ w, ev=.call i w) ∧ p.Watches i k ∧
        (h.watchedAfter q (l.map Prod.snd))[k]?=some (p.shared.version k) := by
  cases hl with
  | started hc =>
    rw [hc,List.map_nil,Handler.watchedAfter_nil]
    exact .inl rfl
  | @called w calls c next r s hc hev he =>
    rw [List.map_append,List.map_cons,List.map_nil]
    by_cases hw : q.verb=.watch ∧ c=.keyVersion k
    · obtain ⟨hq,rfl⟩ := hw
      cases he
      exact .inr ⟨⟨w,hev⟩,⟨h,q,calls,next,hc,hq⟩,Handler.watchedAfter_watch hq⟩
    · rw [Handler.watchedAfter_snoc fun hq hc => hw ⟨hq,hc⟩,hc]
      exact .inl rfl

omit [DecidableEq I] in
theorem Progress.not_read (hl : p.Progress ev i h q l s) (hcomp : ¬Compared k (p.clients i))
    (hver : p.shared.version k ≠ v) (hq : q.verb=.exec) :
    (k,v) ∉ versionsRead (l.map Prod.snd) := by
  intro hmem
  cases hl with
  | started => cases hmem
  | @called w calls c next r s hc hev he =>
    rw [List.map_append,versionsRead_append,List.mem_append] at hmem
    rcases hmem with hmem | hmem
    · rw [hc] at hcomp
      exact hcomp ⟨hq,List.mem_map.mpr ⟨(k,v),hmem,rfl⟩⟩
    · cases c with
      | keyVersion key =>
        obtain ⟨rfl,rfl⟩ : k=key ∧ v=r := by simpa [versionsRead] using hmem
        cases he
        exact hver rfl
      | _ => simp [versionsRead] at hmem

omit [Float64 F] in
theorem watching_proceed {prog : HandlerM (List Bytes × Handler)}
    (ht : Handler.Turn q h (l.map Prod.snd) prog)
    (hkept : ∀ sent h', prog=.pure (sent,h') → ¬q.Clears sent) :
    watching ((p.proceed s i h q l prog).clients i)=h.watchedAfter q (l.map Prod.snd) := by
  cases prog with
  | call c next => simp [Pool.proceed,watching]
  | pure r =>
    simp only [Pool.proceed,Function.update_self,watching]
    exact ht.watchedKeys (hkept r.1 r.2 rfl)

end Progress

/-- The step of a connection whose watched key `k` has another version than the recorded one,
and whose `EXEC`, if it is at one, has not come to it: that stays so, or the watches are taken
away, in the case of `EXEC` because it has given up. -/
theorem stale_own (hp : p.Consistent Handler.serve (.new broker)) (hstep : step ev p=.ok p')
    (hev : ev.client=some i) (hpend : Pending k v (p.clients i)) (hver : p.shared.version k ≠ v)
    (hkeep : KeepsRecord i ev p) :
    (∃ new, p'.log i=p.log i++new ∧ Calm new ∧ Pending k v (p'.clients i)) ∨
      ∃ x, p'.log i=p.log i++[x] ∧ Drops x := by
  obtain ⟨hwatch,hcomp⟩ := hpend
  rcases own_step hp hstep hev with ⟨rfl,_⟩ | ⟨h,q,l,prog,s,ht,rfl,hl⟩
  · exact .inl ⟨[],by simp,by simp [Calm],hwatch,hcomp⟩
  have hafter : (h.watchedAfter q (l.map Prod.snd))[k]?=some v := by
    rcases hl.watched k with hsame | ⟨⟨w,hcall⟩,hwatches,_⟩
    · exact hsame.trans hwatch
    · exact absurd (hkeep w k v hcall hwatches hwatch) hver
  have hread : q.verb=.exec → (k,v) ∉ versionsRead (l.map Prod.snd) := hl.not_read hcomp hver
  have hexec : q.verb=.exec → h.watchedKeys[k]?=some v := by
    intro hq
    simpa [Handler.watchedAfter,hq] using hafter
  have hstill : (∀ sent h', prog=.pure (sent,h') → ¬q.Clears sent) →
      (watching ((p.proceed s i h q l prog).clients i))[k]?=some v := by
    intro hkept
    rw [watching_proceed ht hkept]
    exact hafter
  cases prog with
  | call c next =>
    refine .inl ⟨[],by simp [Pool.proceed],by simp [Calm],hstill nofun,?_⟩
    simp only [Pool.proceed,Function.update_self,Compared]
    rintro ⟨hq,hmem⟩
    obtain ⟨⟨k,u⟩,hu,rfl⟩ := List.mem_map.mp hmem
    obtain rfl : u=v := ht.read_recorded hq hu (hexec hq)
    exact hread hq hu
  | pure r =>
    obtain ⟨sent,h'⟩ := r
    by_cases hclear : q.Clears sent
    · refine .inr ⟨⟨q,l,sent⟩,by simp [Pool.proceed],hclear,fun hq => ?_⟩
      refine ht.gives_up hq ?_ (hexec hq) (hread hq)
      rcases hclear with hu | hclose
      · exact absurd (hu.symm.trans hq) (by decide)
      · exact hclose
    · refine .inl ⟨[⟨q,l,sent⟩],by simp [Pool.proceed],by simpa [Calm] using hclear,hstill ?_,?_⟩
      · rintro _ _ ⟨⟩
        exact hclear
      · simp [Pool.proceed,Compared]

/-- As long as the watches are not taken away, a watched key is watched, with the version that
was recorded or the one just read. -/
theorem watched_step (hp : p.Consistent Handler.serve (.new broker)) (hstep : step ev p=.ok p')
    (hwatch : (watching (p.clients i))[k]?=some v) {new : List Turned}
    (hlog : p'.log i=p.log i++new) (hcalm : Calm new) :
    (watching (p'.clients i))[k]?=some v ∨
      (watching (p'.clients i))[k]?=some (p.shared.version k) := by
  by_cases hev : ev.client=some i
  · rcases own_step hp hstep hev with ⟨rfl,_⟩ | ⟨h,q,l,prog,s,ht,rfl,hl⟩
    · exact .inl hwatch
    have hkept : ∀ sent h', prog=.pure (sent,h') → ¬q.Clears sent := by
      rintro sent h' rfl
      have hnew : new=[⟨q,l,sent⟩] := by simpa [Pool.proceed] using hlog.symm
      simpa [hnew,Calm] using hcalm
    rw [watching_proceed ht hkept]
    rcases hl.watched k with hsame | ⟨_,_,hread⟩
    · exact .inl (hsame.trans hwatch)
    · exact .inr hread
  · rw [((Pool.step_steps hstep).other hev).1]
    exact .inl hwatch

theorem stale_step (hp : p.Consistent Handler.serve (.new broker)) (hstep : step ev p=.ok p')
    (hpend : Pending k v (p.clients i)) (hver : p.shared.version k ≠ v)
    (hkeep : KeepsRecord i ev p) :
    (∃ new, p'.log i=p.log i++new ∧ Calm new ∧ Pending k v (p'.clients i)) ∨
      ∃ x, p'.log i=p.log i++[x] ∧ Drops x := by
  by_cases hev : ev.client=some i
  · exact stale_own hp hstep hev hpend hver hkeep
  · obtain ⟨hsame,hlog⟩ := (Pool.step_steps hstep).other hev
    rw [hsame,hlog]
    exact .inl ⟨[],by simp,by simp [Calm],hpend⟩

end Step

section Run
variable {broker : Bool} {p p' : Server I F} {evs : List (ServerEvent I)} {i : I} {k : Bytes}
  {v : UInt64}

/-- From then on, as long as the version stays another one and the record is kept: the watches
are still there, or the first request that took them away was no `EXEC` that went through. -/
theorem stale_run (hp : p.Consistent Handler.serve (.new broker)) (hrun : run evs p=.ok p')
    (hpend : Pending k v (p.clients i))
    (hver : ∀ pre u, pre <+: evs → run pre p=.ok u → u.shared.version k ≠ v)
    (hkeep : Machine.Along step (KeepsRecord i) evs p) :
    (∃ new, p'.log i=p.log i++new ∧ Calm new ∧ Pending k v (p'.clients i)) ∨
      ∃ new x rest, p'.log i=p.log i++new++x::rest ∧ Calm new ∧ Drops x := by
  induction evs generalizing p with
  | nil =>
    cases hrun
    exact .inl ⟨[],by simp,by simp [Calm],hpend⟩
  | cons ev evs ih =>
    obtain ⟨u,hu,hrest⟩ := Machine.run_cons_ok.mp hrun
    obtain ⟨hnow,hlater⟩ := Machine.states_cons.mp hver
    have hp' : u.Consistent Handler.serve (.new broker) := (Pool.step_steps hu).consistent hp
    rcases stale_step hp hu hpend hnow hkeep.1 with ⟨new,hlog,hcalm,hpend⟩ | ⟨x,hlog,hdrops⟩
    · rcases ih hp' hrest hpend (hlater u hu) (hkeep.2 u hu) with
        ⟨new',hlog',hcalm',hpend'⟩ | ⟨new',x,rest,hlog',hcalm',hx⟩
      · refine .inl ⟨new++new',by rw [hlog',hlog,List.append_assoc],?_,hpend'⟩
        exact List.forall_mem_append.mpr ⟨hcalm,hcalm'⟩
      · refine .inr ⟨new++new',x,rest,by rw [hlog',hlog,List.append_assoc (p.log i)],?_,hx⟩
        exact List.forall_mem_append.mpr ⟨hcalm,hcalm'⟩
    · obtain ⟨rest,hrest⟩ := Pool.run_log_grows hrest i
      refine .inr ⟨[],x,rest,?_,by simp [Calm],hdrops⟩
      rw [← hrest,hlog]
      simp

/-- A key stays watched until the watches are taken away, with a version that it had when it was
watched first or at some point since. -/
theorem watched_run (hp : p.Consistent Handler.serve (.new broker)) (hrun : run evs p=.ok p')
    (hwatch : (watching (p.clients i))[k]?=some v) {new : List Turned}
    (hlog : p'.log i=p.log i++new) (hcalm : Calm new) :
    (watching (p'.clients i))[k]?=some v ∨
      ∃ pre u, pre <+: evs ∧ run pre p=.ok u ∧
        (watching (p'.clients i))[k]?=some (u.shared.version k) := by
  induction evs generalizing p v new with
  | nil =>
    cases hrun
    exact .inl hwatch
  | cons ev evs ih =>
    obtain ⟨u,hu,hrest⟩ := Machine.run_cons_ok.mp hrun
    have hp' : u.Consistent Handler.serve (.new broker) := (Pool.step_steps hu).consistent hp
    obtain ⟨new₁,hlog₁⟩ := (Pool.step_steps hu).log_grows i
    obtain ⟨new₂,hlog₂⟩ := Pool.run_log_grows hrest i
    obtain rfl : new=new₁++new₂ := by
      rw [← hlog₂,← hlog₁,List.append_assoc] at hlog
      exact (List.append_cancel_left hlog).symm
    obtain ⟨hcalm₁,hcalm₂⟩ := List.forall_mem_append.mp hcalm
    have hlater : ∀ {v'}, (watching (u.clients i))[k]?=some v' →
        (watching (p'.clients i))[k]?=some v' ∨
          ∃ pre u, pre <+: ev::evs ∧ run pre p=.ok u ∧
            (watching (p'.clients i))[k]?=some (u.shared.version k) := by
      intro v' hv'
      rcases ih hp' hrest hv' hlog₂.symm hcalm₂ with h | ⟨pre,u',hpre,hu',h⟩
      · exact .inl h
      · exact .inr ⟨ev::pre,u',List.cons_prefix_cons.mpr ⟨rfl,hpre⟩,
          Machine.run_cons_ok.mpr ⟨u,hu,hu'⟩,h⟩
    rcases watched_step hp hu hwatch hlog₁.symm hcalm₁ with h | h
    · exact hlater h
    · rcases hlater h with h | h
      · exact .inr ⟨[],p,by simp,rfl,h⟩
      · exact .inr h

end Run

/-- Something of the key changes: its type, its contents or its version. -/
def Touched (k : Bytes) (s s' : MemoryStore F) : Prop :=
  s'.version k ≠ s.version k ∨ (s'.slot k).contents ≠ (s.slot k).contents

instance [DecidableEq F] (k : Bytes) (s s' : MemoryStore F) : Decidable (Touched k s s') :=
  inferInstanceAs (Decidable (_ ∨ _))

/-- After a change of the key, no version that it had before is its version again. -/
def NeverRepeats (k : Bytes) (evs : List (ServerEvent I)) (p : Server I F) : Prop :=
  ∀ a b ev c x y z u, a++b++ev::c <+: evs → run a p=.ok x → run b x=.ok y → step ev y=.ok z →
    run c z=.ok u → Touched k y.shared z.shared → u.shared.version k ≠ x.shared.version k

/-- The version does not go down, and goes up when the key is touched. -/
def CountsUp (k : Bytes) (ev : ServerEvent I) (p : Server I F) : Prop :=
  ∀ p', step ev p=.ok p' → p.shared.version k ≤ p'.shared.version k ∧
    (Touched k p.shared p'.shared → p.shared.version k < p'.shared.version k)

theorem version_le_of_countsUp {k : Bytes} {evs : List (ServerEvent I)} {p p' : Server I F}
    (h : Machine.Along step (CountsUp k) evs p) (hrun : run evs p=.ok p') :
    p.shared.version k ≤ p'.shared.version k := by
  induction evs generalizing p with
  | nil =>
    cases hrun
    exact UInt64.le_refl _
  | cons ev evs ih =>
    obtain ⟨u,hu,hrun⟩ := Machine.run_cons_ok.mp hrun
    exact UInt64.le_trans (h.1 u hu).1 (ih (h.2 u hu) hrun)

theorem neverRepeats_of_countsUp {k : Bytes} {evs : List (ServerEvent I)} {p : Server I F}
    (h : Machine.Along step (CountsUp k) evs p) : NeverRepeats k evs p := by
  rintro a b ev c x y z u ⟨rest,rfl⟩ hx hy hz hu htouch heq
  rw [List.append_assoc,List.append_assoc] at h
  obtain ⟨_,h⟩ := h.append hx
  obtain ⟨hab,h⟩ := h.append hy
  have hxy := version_le_of_countsUp hab hy
  have hyz := (h.1 z hz).2 htouch
  have hzu := version_le_of_countsUp ((h.2 z hz).append hu).1 hu
  rw [heq] at hzu
  exact absurd (UInt64.lt_of_lt_of_le hyz (UInt64.le_trans hzu hxy)) (UInt64.lt_irrefl _)

/-- A connection watches a key and, while the watch is on, another party makes a step. -/
structure Intrusion (broker : Bool) (s : MemoryStore F) (i : I) (k : Bytes)
    (a b : List (ServerEvent I)) (w : World) (ev : ServerEvent I) (p₁ p₂ p₃ p₄ : Server I F) :
    Prop where
  before : run a (init broker s)=.ok p₁
  watches : p₁.Watches i k
  watch : step (.call i w) p₁=.ok p₂
  between : run b p₂=.ok p₃
  calm : ∃ new, p₃.log i=p₂.log i++new ∧ Calm new
  other : ev.client ≠ some i
  change : step ev p₃=.ok p₄

theorem first_clears {mid new rest rest' : List Turned} {e x : Turned}
    (h : mid++e::rest=new++x::rest') (hmid : Calm mid) (he : e.request.Clears e.reply)
    (hnew : Calm new) (hx : x.request.Clears x.reply) : e=x := by
  induction mid generalizing new with
  | nil =>
    cases new with
    | nil => exact (List.cons.inj h).1
    | cons n new =>
      obtain ⟨rfl,_⟩ := List.cons.inj h
      exact absurd he (hnew _ (by simp))
  | cons m mid ih =>
    cases new with
    | nil =>
      obtain ⟨rfl,_⟩ := List.cons.inj h
      exact absurd hx (hmid _ (by simp))
    | cons n new =>
      exact ih (List.cons.inj h).2 (fun y hy => hmid y (List.mem_cons_of_mem _ hy))
        fun y hy => hnew y (List.mem_cons_of_mem _ hy)

section Intrusion
variable {broker : Bool} {s : MemoryStore F} {i : I} {k : Bytes} {a b c : List (ServerEvent I)}
  {w : World} {ev : ServerEvent I} {p₁ p₂ p₃ p₄ p₅ : Server I F}

theorem Intrusion.consistent (h : Intrusion broker s i k a b w ev p₁ p₂ p₃ p₄) :
    p₁.Consistent Handler.serve (.new broker) ∧ p₂.Consistent Handler.serve (.new broker) ∧
      p₃.Consistent Handler.serve (.new broker) ∧ p₄.Consistent Handler.serve (.new broker) := by
  have h₁ := Pool.run_consistent h.before (Pool.start_consistent Handler.serve (.new broker) s)
  have h₂ := (Pool.step_steps h.watch).consistent h₁
  have h₃ := Pool.run_consistent h.between h₂
  exact ⟨h₁,h₂,h₃,(Pool.step_steps h.change).consistent h₃⟩

theorem watches_step (hp : p₁.Consistent Handler.serve (.new broker)) (hw : p₁.Watches i k)
    (hstep : step (.call i w) p₁=.ok p₂) :
    (watching (p₂.clients i))[k]?=some (p₁.shared.version k) := by
  obtain ⟨h,q,calls,next,hc,hq⟩ := hw
  obtain ⟨r,prog,s,ht,rfl,he⟩ := own_call hp hc hstep
  cases he
  have hkept : ∀ sent h', prog=.pure (sent,h') → ¬q.Clears sent := by
    intro sent h' _
    simp [Request.Clears,Request.Closes,hq]
  rw [watching_proceed (by rwa [List.map_append]) hkept,List.map_append]
  exact Handler.watchedAfter_watch hq

theorem Intrusion.recorded (h : Intrusion broker s i k a b w ev p₁ p₂ p₃ p₄)
    (hfresh : NeverRepeats k (a++.call i w::b++ev::c) (init broker s))
    (htouch : Touched k p₃.shared p₄.shared) :
    ∃ v, (watching (p₃.clients i))[k]?=some v ∧
      ∀ pre u, pre <+: c → run pre p₄=.ok u → u.shared.version k ≠ v := by
  obtain ⟨h₁,h₂,_,_⟩ := h.consistent
  obtain ⟨new,hlog,hcalm⟩ := h.calm
  have hp₃ : run (.call i w::b) p₁=.ok p₃ := Machine.run_cons_ok.mpr ⟨p₂,h.watch,h.between⟩
  rcases watched_run h₂ h.between (watches_step h₁ h.watches h.watch) hlog hcalm with
    hv | ⟨b₁,u,⟨b₂,rfl⟩,hu,hv⟩
  · refine ⟨_,hv,fun pre u ⟨post,hpre⟩ hu => ?_⟩
    refine hfresh a (.call i w::b) ev pre p₁ p₃ p₄ u ⟨post,?_⟩ h.before hp₃ h.change hu htouch
    rw [← hpre]
    simp
  · obtain ⟨u',hu',hb₂⟩ := Machine.run_append_ok.mp h.between
    obtain rfl : u=u' := Except.ok.inj (hu.symm.trans hu')
    have hx : run (a++.call i w::b₁) (init broker s)=.ok u :=
      Machine.run_append_ok.mpr ⟨p₁,h.before,Machine.run_cons_ok.mpr ⟨p₂,h.watch,hu⟩⟩
    refine ⟨_,hv,fun pre u'' ⟨post,hpre⟩ hu'' => ?_⟩
    refine hfresh (a++.call i w::b₁) b₂ ev pre u p₃ p₄ u'' ⟨post,?_⟩ hx hb₂ h.change hu'' htouch
    rw [← hpre]
    simp

/-- After the change: the watches are still on and `EXEC` has not come to the key, or the
first request that took them away was no `EXEC` that went through. -/
theorem Intrusion.stale (h : Intrusion broker s i k a b w ev p₁ p₂ p₃ p₄)
    (hfresh : NeverRepeats k (a++.call i w::b++ev::c) (init broker s))
    (htouch : Touched k p₃.shared p₄.shared) (hcomp : ¬Compared k (p₃.clients i))
    (hkeep : Machine.Along step (KeepsRecord i) c p₄) (hrun : run c p₄=.ok p₅) :
    (∃ v new, p₅.log i=p₄.log i++new ∧ Calm new ∧ Pending k v (p₅.clients i)) ∨
      ∃ new x rest, p₅.log i=p₄.log i++new++x::rest ∧ Calm new ∧ Drops x := by
  obtain ⟨v,hv,hver⟩ := h.recorded hfresh htouch
  obtain ⟨hsame,_⟩ := (Pool.step_steps h.change).other h.other
  rw [← hsame] at hv hcomp
  rcases stale_run h.consistent.2.2.2 hrun ⟨hv,hcomp⟩ hver hkeep with hstale | hstale
  · exact .inl ⟨v,hstale⟩
  · exact .inr hstale

end Intrusion

/-- A key that was watched and then changed by somebody else makes the next `EXEC` of a
transaction give up, if the connection never overwrites the recorded version of a key that has
another one by then. -/
theorem watch_sticky (broker : Bool) (s : MemoryStore F) (i : I) (k : Bytes)
    (a b c : List (ServerEvent I)) (w : World) (ev : ServerEvent I) (p₁ p₂ p₃ p₄ p₅ : Server I F)
    (h : Intrusion broker s i k a b w ev p₁ p₂ p₃ p₄) (htouch : Touched k p₃.shared p₄.shared)
    (hcomp : ¬Compared k (p₃.clients i)) (hrun : run c p₄=.ok p₅)
    (hfresh : NeverRepeats k (a++.call i w::b++ev::c) (init broker s))
    (hkeep : Machine.Along step (KeepsRecord i) (a++.call i w::b++ev::c) (init broker s))
    (mid rest : List Turned) (e : Turned) (hlog : p₅.log i=p₄.log i++mid++e::rest)
    (hmid : Calm mid) (he : e.request.verb=.exec ∧ e.request.Closes e.reply) :
    e.reply=[serialize .nullArray] ∧ dispatched e.made=[] := by
  have hp₄ : run (a++.call i w::b++[ev]) (init broker s)=.ok p₄ :=
    Machine.run_append_ok.mpr ⟨p₃,Machine.run_append_ok.mpr
      ⟨p₁,h.before,Machine.run_cons_ok.mpr ⟨p₂,h.watch,h.between⟩⟩,
      Machine.run_cons_ok.mpr ⟨p₄,h.change,rfl⟩⟩
  have hsplit : a++.call i w::b++ev::c=(a++.call i w::b++[ev])++c := by simp
  have hkeep' : Machine.Along step (KeepsRecord i) c p₄ := by
    rw [hsplit] at hkeep
    exact (hkeep.append hp₄).2
  have hclears : e.request.Clears e.reply := .inr he.2
  rcases h.stale hfresh htouch hcomp hkeep' hrun with
    ⟨_,new,hlog',hcalm,_⟩ | ⟨new,x,rest',hlog',hcalm,hx,hexec⟩
  · rw [hlog,List.append_assoc] at hlog'
    obtain rfl := List.append_cancel_left hlog'
    exact absurd hclears (hcalm e (by simp))
  · rw [hlog,List.append_assoc,List.append_assoc] at hlog'
    obtain rfl := first_clears (List.append_cancel_left hlog') hmid hclears hcalm hx
    exact hexec he.1

/-- `WATCH k`, `SET k b` by another connection, `MULTI`, `EXEC`. -/
theorem watch_sticky_set :
    ∃ (p : Server Bool Int) (e : Turned), run
      [.arrive false ⟨.plain 0,utf8 "WATCH",[[107]]⟩,.call false (.plain 0),
        .arrive true ⟨.plain 0,utf8 "SET",[[107],[98]]⟩,.call true (.plain 0),
        .arrive false ⟨.plain 0,utf8 "MULTI",[]⟩,.arrive false ⟨.plain 0,utf8 "EXEC",[]⟩,
        .call false (.plain 0)] (init false .new)=.ok p ∧ e ∈ p.log false ∧
      e.reply=[serialize .nullArray] ∧ dispatched e.made=[] := by
  have h : Intrusion (F := Int) false .new false [107]
      [.arrive false ⟨.plain 0,utf8 "WATCH",[[107]]⟩]
      [.arrive true ⟨.plain 0,utf8 "SET",[[107],[98]]⟩] (.plain 0) (.call true (.plain 0)) _ _ _ _ :=
    ⟨rfl,⟨_,_,_,_,rfl,by decide⟩,rfl,rfl,⟨[],rfl,by simp [Calm]⟩,by decide,rfl⟩
  have hfresh : NeverRepeats (I := Bool) (F := Int) [107]
      [.arrive false ⟨.plain 0,utf8 "WATCH",[[107]]⟩,.call false (.plain 0),
        .arrive true ⟨.plain 0,utf8 "SET",[[107],[98]]⟩,.call true (.plain 0),
        .arrive false ⟨.plain 0,utf8 "MULTI",[]⟩,.arrive false ⟨.plain 0,utf8 "EXEC",[]⟩,
        .call false (.plain 0)] (init false .new) := by
    apply neverRepeats_of_countsUp
    iterate 7
      refine ⟨?_,?_⟩
      · rintro _ ⟨⟩
        decide
      rintro _ ⟨⟩
    exact trivial
  have hkeep : Machine.Along step (KeepsRecord (I := Bool) (F := Int) false)
      [.arrive false ⟨.plain 0,utf8 "WATCH",[[107]]⟩,.call false (.plain 0),
        .arrive true ⟨.plain 0,utf8 "SET",[[107],[98]]⟩,.call true (.plain 0),
        .arrive false ⟨.plain 0,utf8 "MULTI",[]⟩,.arrive false ⟨.plain 0,utf8 "EXEC",[]⟩,
        .call false (.plain 0)] (init false .new) := by
    refine ⟨fun _ _ _ he => (nomatch he),?_⟩
    rintro _ ⟨⟩
    refine ⟨fun _ _ _ _ hw hv => ?_,?_⟩
    · -- nothing is watched before the first `WATCH`
      obtain ⟨_,_,_,_,⟨⟩,_⟩ := hw
      have hnone : (∅ : Map UInt64)[([107] : Bytes)]?=none := by simp
      exact nomatch hv.symm.trans hnone
    rintro _ ⟨⟩
    iterate 4
      refine ⟨fun _ _ _ he => (nomatch he),?_⟩
      rintro _ ⟨⟩
    refine ⟨fun _ _ _ _ hw _ => ?_,fun _ _ => trivial⟩
    obtain ⟨_,_,_,_,⟨⟩,hq⟩ := hw
    exact absurd hq (by decide)
  have hresult := watch_sticky false .new false [107] _ _
    [.arrive false ⟨.plain 0,utf8 "MULTI",[]⟩,.arrive false ⟨.plain 0,utf8 "EXEC",[]⟩,
      .call false (.plain 0)] _ _ _ _ _ _ _ h (by decide) id rfl hfresh hkeep [_] [] _ rfl
    (by
      rintro _ hx
      obtain rfl := List.mem_singleton.mp hx
      rintro (hq | ⟨hq,_⟩ | ⟨hq,_⟩) <;> exact absurd hq (by decide))
    ⟨by decide,.inl ⟨by decide,by decide⟩⟩
  exact ⟨_,_,rfl,List.mem_append_right _ (List.mem_singleton.mpr rfl),hresult⟩

/-- `WATCH k`, `SET k b` by another connection, `WATCH k` again, `MULTI`, `SET k a`, `EXEC`: the
second `WATCH` records the version that the other connection left, and `EXEC` goes through. -/
theorem rewatch_commits :
    ∃ (a b c : List (ServerEvent Bool)) (w : World) (ev : ServerEvent Bool)
      (p₁ p₂ p₃ p₄ p₅ : Server Bool Int) (mid : List Turned) (e : Turned),
      Intrusion false .new false [107] a b w ev p₁ p₂ p₃ p₄ ∧ Touched [107] p₃.shared p₄.shared ∧
      ¬Compared [107] (p₃.clients false) ∧ run c p₄=.ok p₅ ∧
      NeverRepeats [107] (a++.call false w::b++ev::c) (init (I := Bool) (F := Int) false .new) ∧
      p₅.log false=p₄.log false++mid++[e] ∧ Calm mid ∧
      e.request.verb=.exec ∧ e.request.Closes e.reply ∧
      dispatched e.made=[[utf8 "SET",[107],[97]]] := by
  have h : Intrusion (F := Int) false .new false [107]
      [.arrive false ⟨.plain 0,utf8 "WATCH",[[107]]⟩]
      [.arrive true ⟨.plain 0,utf8 "SET",[[107],[98]]⟩] (.plain 0) (.call true (.plain 0)) _ _ _ _ :=
    ⟨rfl,⟨_,_,_,_,rfl,by decide⟩,rfl,rfl,⟨[],rfl,by simp [Calm]⟩,by decide,rfl⟩
  have hfresh : NeverRepeats (I := Bool) (F := Int) [107]
      [.arrive false ⟨.plain 0,utf8 "WATCH",[[107]]⟩,.call false (.plain 0),
        .arrive true ⟨.plain 0,utf8 "SET",[[107],[98]]⟩,.call true (.plain 0),
        .arrive false ⟨.plain 0,utf8 "WATCH",[[107]]⟩,.call false (.plain 0),
        .arrive false ⟨.plain 0,utf8 "MULTI",[]⟩,.arrive false ⟨.plain 0,utf8 "SET",[[107],[97]]⟩,
        .arrive false ⟨.plain 0,utf8 "EXEC",[]⟩,.call false (.plain 0),.call false (.plain 0)]
      (init false .new) := by
    apply neverRepeats_of_countsUp
    iterate 11
      refine ⟨?_,?_⟩
      · rintro _ ⟨⟩
        decide
      rintro _ ⟨⟩
    exact trivial
  refine ⟨_,_,[.arrive false ⟨.plain 0,utf8 "WATCH",[[107]]⟩,.call false (.plain 0),
    .arrive false ⟨.plain 0,utf8 "MULTI",[]⟩,.arrive false ⟨.plain 0,utf8 "SET",[[107],[97]]⟩,
    .arrive false ⟨.plain 0,utf8 "EXEC",[]⟩,.call false (.plain 0),.call false (.plain 0)],
    _,_,_,_,_,_,_,[_,_,_],_,h,by decide,id,rfl,?_,rfl,?_,by decide,.inl ⟨by decide,by decide⟩,
    by decide⟩
  · exact hfresh
  · intro x hx
    simp only [List.mem_cons,List.not_mem_nil,or_false] at hx
    rcases hx with rfl | rfl | rfl <;> rintro (hq | ⟨hq,_⟩ | ⟨hq,_⟩) <;> exact absurd hq (by decide)

end Server
end GoRedis
