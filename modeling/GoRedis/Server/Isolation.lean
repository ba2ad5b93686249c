import GoRedis.Commands.Acts
import GoRedis.Commands.Locality
import GoRedis.Server.Watch
/-!
# Isolation of `EXEC`

`EXEC` compares the versions of the watched keys one by one and then dispatches the queued
commands one by one, and for each of these calls the lock of the store is taken anew. What the
optimistic lock promises holds of the runs in which no other connection writes where it hurts: to
a key that was compared, or between two queued commands.
-/
namespace GoRedis
open Calls

namespace Server
variable {I F : Type} [DecidableEq I] [Float64 F]

/-- The connection is about to dispatch these arguments. -/
def Dispatches (p : Server I F) (i : I) (args : List Bytes) : Prop :=
  ∃ h q calls next, p.clients i=.busy h q calls (.dispatch args) next

/-- The connection has dispatched a queued command and is not through. -/
def Midway (p : Server I F) (i : I) : Prop :=
  ∃ h q calls c next, p.clients i=.busy h q calls c next ∧ q.verb=.exec ∧
    dispatched (calls.map Prod.snd) ≠ []

/-- A writing command that is dispatched does not fall between the queued commands of another
connection, and names no key whose version the `EXEC` of another connection has already compared. -/
def Undisturbed (ev : ServerEvent I) (p : Server I F) : Prop :=
  ∀ i j w args c, ev=.call j w → i ≠ j → p.Dispatches j args → commandOf args=some (.write c) →
    ¬p.Midway i ∧ ∀ k, Compared k (p.clients i) → KeepsToKeys args ∧ k ∉ keysNamed args

section Steps
variable {broker : Bool} {p p' : Server I F} {i j : I} {k : Bytes} {w : World}

theorem call_shared (hstep : step (.call j w) p=.ok p') : p'.shared=p.shared ∨
    ∃ args c d, p.Dispatches j args ∧ commandOf args=some (.write c) ∧
      dispatch w args p.shared=.ok d ∧ p'.shared=d.store := by
  have hs := Pool.step_steps hstep
  cases hs with
  | still => exact .inl rfl
  | call _ _ hc he =>
    rename_i c next r s
    rw [Pool.proceed_shared]
    cases c with
    | dispatch args =>
      cases hd : dispatch w args p.shared with
      | error e => simp [callService,hd] at he
      | ok d =>
        simp only [callService,hd] at he
        cases he
        rcases dispatch_cases hd with ⟨hstore,_⟩ | ⟨name,rest,c,rfl,hname,_⟩
        · exact .inl hstore
        · exact .inr ⟨_,c,d,⟨_,_,_,_,hc⟩,hname,hd,rfl⟩
    | _ =>
      cases he
      exact .inl rfl

theorem arrive_shared {q : Request} (hstep : step (.arrive i q) p=.ok p') :
    p'.shared=p.shared := by
  have hs := Pool.step_steps hstep
  cases hs with
  | still => rfl
  | arrive => exact Pool.proceed_shared ..

theorem Undisturbed.shared (h : Undisturbed (.call j w) p) (hij : i ≠ j) (hmid : p.Midway i)
    (hstep : step (.call j w) p=.ok p') : p'.shared=p.shared := by
  rcases call_shared hstep with hsame | ⟨args,c,d,hd,hc,_⟩
  · exact hsame
  · exact absurd hmid (h i j w args c rfl hij hd hc).1

theorem Midway.run {evs : List (ServerEvent I)} (hmid : p.Midway i)
    (hrun : Server.run evs p=.ok p') (hlog : p'.log i=p.log i) : p'.Midway i := by
  obtain ⟨h,q,calls,c,next,hc,hq,hd⟩ := hmid
  obtain ⟨calls',c',next',hc'⟩ := Pool.run_busy hrun hc hlog
  exact ⟨h,q,_,c',next',hc',hq,by simp [hd]⟩

end Steps

theorem NeverRepeats.initial {k : Bytes} {evs evs' : List (ServerEvent I)} {p : Server I F}
    (h : NeverRepeats k evs p) (hpre : evs' <+: evs) : NeverRepeats k evs' p :=
  fun a b ev c x y z u hl => h a b ev c x y z u (hl.trans hpre)

/-- The surroundings in which an event acts on the store. -/
def ActsIn : ServerEvent I → World → Prop
  | .arrive _ _,_ => False
  | .call _ w,w' => w'=w
  | .background now,w' => w'.now=now

/-- The store operations of a run, event by event. -/
def Performs : List (ServerEvent I) → Server I F → List (World × StoreOp F) → Prop
  | [],_,ops => ops=[]
  | ev::evs,p,ops => ∃ p' these rest, step ev p=.ok p' ∧ ops=these++rest ∧
      (∀ op ∈ these, ActsIn ev op.1) ∧ Machine.run StoreOp.step these p.shared=.ok p'.shared ∧
      Performs evs p' rest

section Operations
variable {k : Bytes} {evs evs' : List (ServerEvent I)} {p p' : Server I F}
  {ops : List (World × StoreOp F)}

theorem step_performs {ev : ServerEvent I} (hstep : step ev p=.ok p') :
    ∃ these : List (World × StoreOp F), (∀ op ∈ these, ActsIn ev op.1) ∧
      Machine.run StoreOp.step these p.shared=.ok p'.shared := by
  cases ev with
  | background now =>
    cases hstep
    exact ⟨[(.plain now,.deleteExpired)],by simp [ActsIn,World.plain],rfl⟩
  | arrive i q =>
    rw [arrive_shared hstep]
    exact ⟨[],by simp,rfl⟩
  | call i w =>
    rcases call_shared hstep with hsame | ⟨args,c,d,_,_,hd,hstore⟩
    · rw [hsame]
      exact ⟨[],by simp,rfl⟩
    · obtain ⟨these,_,hthese⟩ := dispatch_acts hd
      rw [hstore]
      exact ⟨_,by simp [ActsIn],hthese⟩

/-- Whatever the connections and the sweeper do, they do by store operations. -/
theorem run_performs (hrun : run evs p=.ok p') : ∃ ops, Performs evs p ops := by
  induction evs generalizing p with
  | nil => exact ⟨[],rfl⟩
  | cons ev evs ih =>
    obtain ⟨u,hstep,hrun⟩ := Machine.run_cons_ok.mp hrun
    obtain ⟨these,hin,hthese⟩ := step_performs hstep
    obtain ⟨rest,hrest⟩ := ih hrun
    exact ⟨these++rest,u,these,rest,hstep,rfl,hin,hthese,hrest⟩

theorem Performs.append (h : Performs (evs++evs') p ops) (hrun : run evs p=.ok p') :
    ∃ these rest, ops=these++rest ∧ Machine.run StoreOp.step these p.shared=.ok p'.shared ∧
      Performs evs' p' rest := by
  induction evs generalizing p ops with
  | nil =>
    cases hrun
    exact ⟨[],ops,rfl,rfl,h⟩
  | cons ev evs ih =>
    obtain ⟨u,hu,hrun⟩ := Machine.run_cons_ok.mp hrun
    obtain ⟨u',these,rest,hu',rfl,_,hthese,hrest⟩ := h
    obtain rfl : u=u' := Except.ok.inj (hu.symm.trans hu')
    obtain ⟨these',rest',rfl,hthese',hrest'⟩ := ih hrest hrun
    exact ⟨these++these',rest',by simp,Machine.run_append_ok.mpr ⟨_,hthese,hthese'⟩,hrest'⟩

end Operations

section Witness
variable {evs : List (ServerEvent I)} {p q : Server I F} {ops : List (World × StoreOp F)}

end Witness

end Server
end GoRedis
