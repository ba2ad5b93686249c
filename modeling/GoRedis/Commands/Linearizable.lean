import GoRedis.Commands.Stepwise
import GoRedis.Storage.Graft
import GoRedis.Storage.Typed
/-!
# Commands of several clients

Clients issue commands that take several calls of the store, and the calls of different clients
fall between each other. Nothing goes wrong as long as no call hits a key on which another
command has made a call and is not through yet, unless both calls only read: then the commands
might as well have been executed one at a time, in the order in which they were answered.
-/
namespace GoRedis
open Calls

/-- A request for one of these commands. -/
structure CompoundRequest where
  args : List Bytes
  command : Compound
  named : commandOf args=some command.command

namespace CompoundRequest

def program (q : CompoundRequest) : StoreM Response := q.command.program q.args

/-- A client keeps nothing between two requests. -/
def serve (q : CompoundRequest) (_ : Unit) : StoreM (Response × Unit) := do
  let resp ← q.program
  pure (resp,())

end CompoundRequest

/-- A command that was answered: its calls with the instants at which they were made. -/
abbrev Answered := Exchange World CompoundRequest Response StoreCall.Result

/-- Clients on one store. -/
abbrev Clients (I F : Type) :=
  Pool I World CompoundRequest Unit Response (MemoryStore F) StoreCall.Result

/-- A client issues a command or makes its next call; nothing else happens to the store. -/
abbrev ClientEvent (I : Type) := Calls.Event I CompoundRequest World Empty

namespace StoreCall

/-- The keys a call is about. -/
def keys : StoreCall → List Bytes
  | get key | set key _ | hGet key _ | hSet key _ => [key]
  | del keys => keys

/-- The call takes the lock for reading. -/
def reads : StoreCall → Bool
  | get _ | hGet _ _ => true
  | _ => false

/-- Both calls are about a key, and one of them writes. -/
def Conflict (c d : StoreCall) : Prop := (∃ k ∈ c.keys, k ∈ d.keys) ∧ (c.reads && d.reads)=false

instance (c d : StoreCall) : Decidable (c.Conflict d) := inferInstanceAs (Decidable (_ ∧ _))

section
variable {F : Type} {c d : StoreCall}

theorem perform_local (w : World) (c : StoreCall) :
    MemoryStore.cells.Local c.keys (perform (F := F) w c) := by
  intro s t
  show perform w c (s.graft c.keys t)=_
  cases c with
  | get key => simp [perform,keys,Except.map,MemoryStore.cells]
  | set key value => simp [perform,keys,Except.map,MemoryStore.cells]
  | del ks =>
    simp [perform,keys,Except.map,MemoryStore.cells,MemoryStore.del_graft (List.Subset.refl ks),
      MemoryStore.grafted]
  | hGet key field => simp [perform,keys,Except.map,MemoryStore.cells]
  | hSet key fields => simp [perform,keys,Except.map,MemoryStore.cells,MemoryStore.grafted]

theorem perform_of_reads (hc : c.reads=true) {w : World} {s s' : MemoryStore F} {r : c.Result}
    (h : perform w c s=.ok (r,s')) : s'=s := by
  cases c with
  | get | hGet =>
    cases h
    rfl
  | _ => cases hc

theorem exchanges (h : ¬c.Conflict d) : Exchanges (perform (F := F)) c d := by
  intro w w' s s₁ s₂ r r' hs₁ hs₂
  by_cases hkeys : ∃ k ∈ c.keys, k ∈ d.keys
  · have hreads : c.reads=true ∧ d.reads=true := by
      by_contra hno
      refine h ⟨hkeys,?_⟩
      simpa using hno
    obtain rfl := perform_of_reads hreads.1 hs₁
    obtain rfl := perform_of_reads hreads.2 hs₂
    exact ⟨_,hs₂,hs₁⟩
  · have hdisjoint : c.keys.Disjoint d.keys := fun k hk hk' => hkeys ⟨k,hk,hk'⟩
    exact (perform_local w c).commute (perform_local w' d) hdisjoint hs₁ hs₂

end
end StoreCall

namespace Clients
variable {I F : Type}

def start (s : MemoryStore F) : Clients I F := Pool.start () s

def step [DecidableEq I] : ClientEvent I → Clients I F → Go (Clients I F) :=
  Pool.step CompoundRequest.serve StoreCall.perform Empty.elim

def run [DecidableEq I] : List (ClientEvent I) → Clients I F → Go (Clients I F) := Machine.run step

/-- The call that is made is in no conflict with one that another client has made for a command
it has not answered yet. -/
def Undisturbed (ev : ClientEvent I) (p : Clients I F) : Prop :=
  ∀ i w l q calls c next, ev=.call i w → p.clients i=.busy l q calls c next →
    ∀ j, j ≠ i → ∀ m ∈ (p.clients j).calls, ¬m.2.1.Conflict c

theorem undisturbed_arrive (i : I) (q : CompoundRequest) (p : Clients I F) :
    Undisturbed (.arrive i q) p := by
  intro j w l q' calls c next he
  cases he

/-- No command is being executed. -/
def Quiet (p : Clients I F) : Prop := ∀ i, p.clients i=.idle ()

end Clients

/-- The command executed as a whole: all its calls, one right after the other. -/
def Whole {F : Type} (x : Answered) (s s' : MemoryStore F) : Prop :=
  x.request.program.Returns x.made x.reply ∧ Replay StoreCall.perform x.calls s s'

theorem Whole.dispatch {F : Type} [Float64 F] {x : Answered} {s s' : MemoryStore F} {w : World}
    (h : Whole x s s') (hw : ∀ m ∈ x.calls, m.1=w) :
    (dispatch w x.request.args s).map (fun d => (d.resp,d.store))=.ok (x.reply,s') := by
  rw [← x.request.command.program_alone x.request.named]
  exact Prog.exec_of_returns hw h.1 h.2

/-- Whole commands one at a time. -/
inductive Serially {F : Type} : List Answered → MemoryStore F → MemoryStore F → Prop
  | nil (s : MemoryStore F) : Serially [] s s
  | cons {x : Answered} {xs : List Answered} {s s₁ s₂ : MemoryStore F} (h : Whole x s s₁)
      (hs : Serially xs s₁ s₂) : Serially (x::xs) s s₂

/-- Replies and store are those of executing the answered commands one at a time: in an order that
keeps to the one in which each client was answered and puts what was answered earlier first. -/
def Linearizable {I F : Type} [DecidableEq I] (s : MemoryStore F) (evs : List (ClientEvent I))
    (p : Clients I F) : Prop :=
  ∃ (xs : List (I × Answered)) (t : MemoryStore F), (∀ i, ofClient i xs=p.log i) ∧
    Serially (xs.map Prod.snd) s t ∧ (p.Quiet → p.shared=t) ∧
    ∀ pre u, pre <+: evs → Clients.run pre (.start s)=.ok u →
      ∃ ys, ys <+: xs ∧ ∀ i, ofClient i ys=u.log i

section
variable {I F : Type} [DecidableEq I]

theorem serially_of_replay {xs : List Answered} {s t : MemoryStore F}
    (hxs : ∀ x ∈ xs, x.request.program.Returns x.made x.reply)
    (h : Replay StoreCall.perform (xs.flatMap fun x => x.calls) s t) : Serially xs s t := by
  induction xs generalizing s with
  | nil =>
    obtain rfl : t=s := h
    exact .nil t
  | cons x xs ih =>
    rw [List.forall_mem_cons] at hxs
    rw [List.flatMap_cons] at h
    obtain ⟨u,hx,h⟩ := replay_append.mp h
    exact .cons ⟨hxs.1,hx⟩ (ih hxs.2 h)

theorem returns_of_session {xs : List Answered} {l l' : Unit}
    (h : Session CompoundRequest.serve l xs l') :
    ∀ x ∈ xs, x.request.program.Returns x.made x.reply := by
  induction h with
  | nil => simp
  | cons hret _ ih =>
    refine List.forall_mem_cons.mpr ⟨?_,ih⟩
    obtain ⟨l₁,a,l₂,hl,hprog,hend⟩ := Prog.returns_bind.mp hret
    obtain ⟨rfl,heq⟩ := Prog.returns_pure.mp hend
    cases heq
    rw [hl,List.append_nil]
    exact hprog

/-- Where no call is in conflict with one of a command still being executed, the commands of any
clients are linearizable. -/
theorem commands_linearizable (s : MemoryStore F) (evs : List (ClientEvent I)) (p : Clients I F)
    (hrun : Clients.run evs (.start s)=.ok p)
    (hcond : Machine.Along Clients.step Clients.Undisturbed evs (.start s)) :
    Linearizable s evs p := by
  have hundisturbing : Machine.Along Clients.step (Pool.Undisturbing StoreCall.perform) evs
      (.start s) := hcond.mono fun ev u hev =>
    ⟨fun b => b.elim,fun i w l q calls c next he hc j hj m hm =>
      StoreCall.exchanges (hev i w l q calls c next he hc j hj m hm)⟩
  obtain ⟨xs,pending,t,_,hsorted,hstates⟩ := (Pool.sorted_start () s).run hundisturbing hrun
  have hlogs := Pool.run_consistent hrun (Pool.start_consistent CompoundRequest.serve () s)
  have hreturns : ∀ x ∈ xs.map Prod.snd, x.request.program.Returns x.made x.reply := by
    intro x hx
    obtain ⟨y,hy,rfl⟩ := List.mem_map.mp hx
    obtain ⟨l,hsession,_⟩ := hlogs y.1
    rw [← hsorted.log y.1] at hsession
    exact returns_of_session hsession y.2 (mem_ofClient hy)
  refine ⟨xs,t,hsorted.log,serially_of_replay hreturns ?_,fun hquiet => ?_,hstates⟩
  · rw [List.flatMap_map]
    exact hsorted.answered
  · exact hsorted.rest fun i => by rw [hquiet i]; rfl

/-- `INCR` of different keys, with both reads before both writes. -/
theorem commands_linearizable_incr : ∃ (evs : List (ClientEvent Bool)) (p : Clients Bool Int),
    Clients.run evs (.start .new)=.ok p ∧ p.Quiet ∧ (∀ i, (p.log i).map (·.reply)=[.integer 1]) ∧
      Linearizable .new evs p := by
  let evs : List (ClientEvent Bool) :=
    [.arrive false ⟨[utf8 "INCR",[97]],.incr,by decide⟩,
     .arrive true ⟨[utf8 "INCR",[98]],.incr,by decide⟩,
     .call false (.plain 0),.call true (.plain 0),.call false (.plain 0),.call true (.plain 0)]
  refine ⟨evs,_,rfl,?_,?_,commands_linearizable .new evs _ rfl ?_⟩
  · intro i
    cases i <;> rfl
  · intro i
    cases i <;> rfl
  · refine .cons (Clients.undisturbed_arrive _ _ _) rfl (.cons (Clients.undisturbed_arrive _ _ _) rfl
      (.cons ?_ rfl (.cons ?_ rfl (.cons ?_ rfl (.cons ?_ rfl trivial)))))
    all_goals
      intro i w l q calls c next he hc j hj m hm
      cases he
      cases hc
      obtain rfl := Bool.eq_not_of_ne hj
      revert m
      decide

theorem not_serially_twice {x : Answered} {w w' : World} {k v : Bytes}
    (hx : x.calls=[(w,⟨.get k,none⟩),(w',⟨.set k v,()⟩)]) {xs : List Answered}
    {s t : MemoryStore F} : ¬Serially (x::x::xs) s t := by
  rintro (_ | ⟨⟨_,h⟩,_ | ⟨⟨_,h'⟩,_⟩⟩)
  rw [hx] at h h'
  obtain ⟨u,_,u',hset,rfl⟩ := h
  obtain ⟨v',hget,_⟩ := h'
  cases hset
  have hnone : (u.set k v).get w.now k=none := congrArg Prod.fst (Except.ok.inj hget)
  rw [MemoryStore.get_set] at hnone
  cases hnone

/-- `INCR` of one key by each of two clients that first both read and then both write: both are
told 1 and the key is 1, where one after the other gives 1 and 2. -/
theorem incr_lost : ∃ (evs : List (ClientEvent Bool)) (p : Clients Bool Int),
    Clients.run evs (.start .new)=.ok p ∧ p.Quiet ∧
      (∀ i, (p.log i).map (fun x => (x.request.args,x.reply))=[([utf8 "INCR",[107]],.integer 1)]) ∧
      p.shared.get 0 [107]=some (utf8 "1") ∧ ¬Linearizable .new evs p ∧
      ∃ d d' : Dispatched Int, dispatch (.plain 0) [utf8 "INCR",[107]] .new=.ok d ∧
        dispatch (.plain 0) [utf8 "INCR",[107]] d.store=.ok d' ∧ d.resp=.integer 1 ∧
        d'.resp=.integer 2 := by
  let q : CompoundRequest := ⟨[utf8 "INCR",[107]],.incr,by decide⟩
  let x : Answered := ⟨q,[(.plain 0,⟨.get [107],none⟩),(.plain 0,⟨.set [107] (utf8 "1"),()⟩)],
    .integer 1⟩
  have hdispatch : ∀ s : MemoryStore Int, dispatch (.plain 0) q.args s=_ :=
    dispatch_write (c := .incr) (by decide) (.plain 0)
  have hagain : ∀ s : MemoryStore Int, s.get 0 [107]=some (utf8 "1") →
      (handleIncr (.plain 0) q.args s).1=.integer 2 := by
    intro s hs
    have hget : s.get (World.plain 0).now [107]=some (utf8 "1") := hs
    have hparse : parseInt (utf8 "1")=some 1 := by decide
    show (incrBy (.plain 0) [107] 1 s).1=_
    rw [incrBy,hget]
    simp only [hparse]
    rw [if_neg (by decide),if_neg (by decide)]
    rfl
  refine ⟨[.arrive false q,.arrive true q,.call false (.plain 0),.call true (.plain 0),
    .call false (.plain 0),.call true (.plain 0)],_,rfl,?_,?_,by decide,?_,_,_,hdispatch _,
    hdispatch _,rfl,hagain _ (by decide)⟩
  · intro i
    cases i <;> rfl
  · intro i
    cases i <;> rfl
  · rintro ⟨xs,t,hlog,hserial,_⟩
    have hx : ∀ y ∈ xs, y.2=x := by
      rintro ⟨i,y⟩ hy
      have hmem : y ∈ ofClient i xs := mem_ofClient hy
      rw [hlog i] at hmem
      cases i <;> exact List.mem_singleton.mp hmem
    have hfalse : ofClient false xs=[x] := hlog false
    have htrue : ofClient true xs=[x] := hlog true
    cases xs with
    | nil => cases hfalse
    | cons y xs => cases xs with
      | nil =>
        obtain ⟨i,y⟩ := y
        cases i with
        | false => cases htrue
        | true => cases hfalse
      | cons z xs =>
        rw [List.map_cons,List.map_cons,hx y (by simp),hx z (by simp)] at hserial
        exact not_serially_twice rfl hserial

end
end GoRedis
