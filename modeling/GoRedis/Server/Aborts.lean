import GoRedis.Server.Watch
/-!
# A transaction with an unknown command

`handleExec` would give up a transaction if `txErrors` were above zero, but nothing counts it up:
a command is put into the queue without a look at the router. So `EXEC` dispatches what it has,
the unknown commands and the others.
-/
namespace GoRedis
open Calls

/-- The reply of an `EXEC` that gives up because of a command it could not queue. -/
def execAbort : Response := .error (utf8 "EXECABORT Transaction discarded because of previous errors.")

/-- The `EXEC` replies with `EXECABORT`, dispatches nothing and leaves the store unchanged. -/
def Discards {F : Type} (exec : Turned) (s s' : MemoryStore F) : Prop :=
  exec.reply=[serialize execAbort] ∧ dispatched exec.made=[] ∧ s'=s

/-- The handler of a connection, from before the request that it is serving. -/
def handlerOf : Conn → Handler
  | .idle h => h
  | .busy h .. => h

namespace Handler

theorem Turn.exec {q : Request} {h h' : Handler} {l : List (Made Call.Result)} {sent : List Bytes}
    (ht : Turn q h l (.pure (sent,h'))) (hq : q.verb=.exec) (hin : h.inMulti=true) :
    dispatched l=h.txQueue ∧ sent=[serialize (.array (dispatchReplies l))] ∨
      dispatched l=[] ∧ sent=[serialize .nullArray] := by
  cases ht with
  | aborted => exact .inr ⟨by simp,rfl⟩
  | committed _ _ seen hqueue => exact .inl ⟨by simp [hqueue],by simp⟩
  | subscription hq' => simp [hq] at hq'
  | _ => simp_all

end Handler

theorem serialize_ne_execAbort {r : Response} (h : r=.nullArray ∨ ∃ rs, r=.array rs) :
    [serialize r] ≠ [serialize execAbort] := by
  rcases h with rfl | ⟨rs,rfl⟩
  · simp only [serialize,execAbort]
    decide
  · simp [serialize,execAbort]

namespace Server
variable {I F : Type} [DecidableEq I] [Float64 F]

theorem session_of_run {broker : Bool} {s : MemoryStore F} {evs : List (ServerEvent I)}
    {p : Server I F} (hrun : run evs (init broker s)=.ok p) (i : I) :
    Session Handler.serve (.new broker) (p.log i) (handlerOf (p.clients i)) := by
  have hp := Pool.run_consistent hrun (Pool.start_consistent Handler.serve (.new broker) s)
  obtain ⟨h,hlog,hat⟩ := hp i
  cases hc : p.clients i with
  | idle h' =>
    rw [hc] at hat
    obtain rfl : h'=h := hat
    exact hlog
  | busy h' q calls c next =>
    rw [hc] at hat
    obtain ⟨rfl,_⟩ := hat
    exact hlog

/-- In a run of the server the `EXEC` of a connection that has not subscribed sends the replies of
all queued commands, which were all dispatched, or the null array because a watched key has
changed. -/
theorem exec_replies {broker : Bool} {s : MemoryStore F} {evs : List (ServerEvent I)}
    {p : Server I F} {i : I} {pre mid : List Turned} {multi exec : Turned}
    (hrun : run evs (init broker s)=.ok p) (hlog : p.log i=pre++multi::mid++[exec])
    (hsub : (handlerOf (p.clients i)).sub=false) (hmulti : multi.request.Opens multi.reply)
    (hmid : ∀ x ∈ mid, ¬x.request.Closes x.reply) (hexec : exec.request.verb=.exec) :
    dispatched exec.made=commands mid ∧
        exec.reply=[serialize (.array (dispatchReplies exec.made))] ∨
      dispatched exec.made=[] ∧ exec.reply=[serialize .nullArray] := by
  have herr : (Handler.new broker).txErrors ≤ 0 := le_refl _
  have hs := session_of_run hrun i
  rw [hlog] at hs
  obtain ⟨h,hs,hs'⟩ := session_append.mp hs
  obtain ⟨h',ht,_,hs'⟩ := Handler.session_cons_turn (Handler.session_txErrors herr hs) hs'
  obtain rfl := session_nil.mp hs'
  obtain ⟨hin,hqueue,_⟩ := Handler.session_transaction herr hs (ht.sub hsub) hmulti hmid
  rw [← hqueue]
  exact ht.exec hexec hin

theorem exec_reply_ne_execAbort {broker : Bool} {s : MemoryStore F} {evs : List (ServerEvent I)}
    {p : Server I F} {i : I} {pre mid : List Turned} {multi exec : Turned}
    (hrun : run evs (init broker s)=.ok p) (hlog : p.log i=pre++multi::mid++[exec])
    (hsub : (handlerOf (p.clients i)).sub=false) (hmulti : multi.request.Opens multi.reply)
    (hmid : ∀ x ∈ mid, ¬x.request.Closes x.reply) (hexec : exec.request.verb=.exec) :
    exec.reply ≠ [serialize execAbort] := by
  rcases exec_replies hrun hlog hsub hmulti hmid hexec with ⟨_,harray⟩ | ⟨_,hnull⟩
  · rw [harray]
    exact serialize_ne_execAbort (.inr ⟨_,rfl⟩)
  · rw [hnull]
    exact serialize_ne_execAbort (.inl rfl)

/-- In no run of the server is a transaction discarded because of an unknown command in it. -/
theorem unknown_not_discarded (broker : Bool) (s : MemoryStore F) (evs evs' : List (ServerEvent I))
    (p p' : Server I F) (i : I) (pre mid : List Turned) (multi exec : Turned)
    (hrun : run evs (init broker s)=.ok p) (hrun' : run evs' p=.ok p')
    (_ : p.log i=pre++multi::mid) (hlog' : p'.log i=pre++multi::mid++[exec])
    (hsub : (handlerOf (p'.clients i)).sub=false) (hmulti : multi.request.Opens multi.reply)
    (hmid : ∀ x ∈ mid, ¬x.request.Closes x.reply) (hexec : exec.request.verb=.exec)
    (_ : ∃ c ∈ commands mid, commandOf c=none) :
    ¬Discards exec p.shared p'.shared ∧
      (dispatched exec.made=commands mid ∧
          exec.reply=[serialize (.array (dispatchReplies exec.made))] ∨
        dispatched exec.made=[] ∧ exec.reply=[serialize .nullArray]) := by
  have hwhole := Machine.run_append_ok.mpr ⟨p,hrun,hrun'⟩
  refine ⟨?_,exec_replies hwhole hlog' hsub hmulti hmid hexec⟩
  rintro ⟨hreply,_,_⟩
  exact exec_reply_ne_execAbort hwhole hlog' hsub hmulti hmid hexec hreply

/-- `MULTI`, `SET k v`, `NOPE`: the beginning of a transaction. -/
def halfValid : List (ServerEvent Bool) :=
  [.arrive false ⟨.plain 0,utf8 "MULTI",[]⟩,.arrive false ⟨.plain 0,utf8 "SET",[[107],[118]]⟩,
    .arrive false ⟨.plain 0,utf8 "NOPE",[]⟩]

/-- Its `EXEC`, with two calls of the router. -/
def halfValidExec : List (ServerEvent Bool) :=
  [.arrive false ⟨.plain 0,utf8 "EXEC",[]⟩,.call false (.plain 0),.call false (.plain 0)]

theorem halfValid_open {p : Server Bool Int} (h : run halfValid (init false .new)=.ok p) :
    ∃ multi mid, p.log false=[]++multi::mid ∧ multi.request.Opens multi.reply ∧
      (∀ x ∈ mid, ¬x.request.Closes x.reply) ∧
      commands mid=[[utf8 "SET",[107],[118]],[utf8 "NOPE"]] := by
  obtain rfl := Except.ok.inj h
  refine ⟨_,[_,_],rfl,⟨rfl,rfl⟩,?_,by decide⟩
  simp only [List.forall_mem_cons]
  refine ⟨?_,?_,by simp⟩
  · rintro (⟨hq,_⟩ | ⟨hq,_⟩) <;> exact absurd hq (by decide)
  · rintro (⟨hq,_⟩ | ⟨hq,_⟩) <;> exact absurd hq (by decide)

/-- The transaction is not discarded. -/
theorem unknown_not_discarded_nope : ∃ (p p' : Server Bool Int) (exec : Turned),
    run halfValid (init false .new)=.ok p ∧ run halfValidExec p=.ok p' ∧
      p'.log false=p.log false++[exec] ∧ ¬Discards exec p.shared p'.shared := by
  refine ⟨_,_,_,rfl,rfl,rfl,?_⟩
  obtain ⟨multi,mid,hlog,hmulti,hmid,hcommands⟩ := halfValid_open rfl
  refine (unknown_not_discarded false .new halfValid halfValidExec _ _ false [] mid multi _ rfl rfl
    hlog ?_ rfl hmulti hmid rfl ⟨[utf8 "NOPE"],by simp [hcommands],by decide⟩).1
  rw [← hlog]
  rfl

/-- The reply is an array, the command that is known was executed, and `k` is set. -/
theorem unknown_half_applied : ∃ (p p' : Server Bool Int) (exec : Turned),
    run halfValid (init false .new)=.ok p ∧ run halfValidExec p=.ok p' ∧
      p'.log false=p.log false++[exec] ∧ exec.request.verb=.exec ∧
      commandOf [utf8 "NOPE"]=none ∧ exec.reply ≠ [serialize execAbort] ∧
      dispatched exec.made=[[utf8 "SET",[107],[118]],[utf8 "NOPE"]] ∧
      p.shared.get 0 [107]=none ∧ p'.shared.get 0 [107]=some [118] := by
  refine ⟨_,_,_,rfl,rfl,rfl,by decide,by decide,?_,by decide,by decide,by decide⟩
  obtain ⟨multi,mid,hlog,hmulti,hmid,_⟩ := halfValid_open rfl
  refine @exec_reply_ne_execAbort Bool Int _ _ false .new (halfValid++halfValidExec) _ false [] mid
    multi _ rfl ?_ rfl hmulti hmid rfl
  rw [← hlog]
  rfl

end Server
end GoRedis
