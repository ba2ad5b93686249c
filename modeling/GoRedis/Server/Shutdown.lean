import GoRedis.Lib.Machine
/-!
# Accepting and shutting down

The accept loop, one handler for each connection and the shutdown goroutine as program counters
of one state. An interleaving is a list of their steps; a step that is not enabled fails.
-/
namespace GoRedis
namespace Serve
open Machine
variable {C : Type}

/-- Where `acceptLoop` stands, with the connection it holds. -/
inductive AcceptLoop (C : Type)
  /-- in `ln.Accept` -/
  | accepting
  /-- before the limit is asked -/
  | accepted (c : C)
  /-- before `conn.Close` -/
  | rejecting (c : C)
  /-- before `trackConn` -/
  | admitted (c : C)
  /-- before `connCount.Add(1)` -/
  | tracked (c : C)
  /-- before `wg.Add(1)` -/
  | counted (c : C)
  /-- before the handler is started -/
  | added (c : C)
  | returned
  deriving DecidableEq

/-- Where the goroutine of a connection stands. -/
inductive Handler
  | serving
  /-- `serve` has returned and closed the connection -/
  | left
  /-- behind `untrackConn` -/
  | untracked
  /-- behind `connCount.Add(-1)` -/
  | uncounted
  /-- behind `wg.Done` -/
  | exited
  deriving DecidableEq

/-- Where the shutdown goroutine of `Serve` stands. -/
inductive Shutdown (C : Type)
  | waiting
  | cancelled
  | listenerClosed
  /-- in the loop of `closeAllConns`, which holds `connsMu` -/
  | closing (todo : List C)
  | finished
  deriving DecidableEq

structure State (C : Type) where
  listening : Bool
  loop : AcceptLoop C
  shutdown : Shutdown C
  handler : C → Option Handler
  conns : Finset C
  connCount : Int
  wg : Int
  /-- the connections the server has closed -/
  closed : Finset C
  /-- history: what `Accept` has returned -/
  accepted : Finset C

/-- `Serve` has been called. -/
def State.initial : State C where
  listening := true
  loop := .accepting
  shutdown := .waiting
  handler _ := none
  conns := ∅
  connCount := 0
  wg := 0
  closed := ∅
  accepted := ∅

/-- The steps of the accept loop, of the handlers and of the shutdown goroutine. -/
inductive Event (C : Type)
  | accept (c : C)
  | acceptError
  | acceptClosed
  | refuse (c : C)
  | permit (c : C)
  | reject (c : C)
  | track (c : C)
  | count (c : C)
  | add (c : C)
  | start (c : C)
  | leave (c : C)
  | untrack (c : C)
  | uncount (c : C)
  | done (c : C)
  | cancel
  | closeListener
  | lockConns (order : List C)
  | close (c : C) (todo : List C)
  | unlockConns

/-- `closeAllConns` does not hold `connsMu`. -/
def Shutdown.mutexFree : Shutdown C → Bool
  | closing _ => false
  | _ => true

/-- The limit `MaxClients` is set and reached. -/
def State.full (s : State C) (maxClients : Int) : Prop := 0 < maxClients ∧ maxClients ≤ s.connCount

instance (s : State C) (maxClients : Int) : Decidable (s.full maxClients) :=
  inferInstanceAs (Decidable (_ ∧ _))

/-- The connection the accept loop holds. -/
@[simp] def AcceptLoop.holds : AcceptLoop C → Option C
  | accepted c => some c
  | rejecting c => some c
  | admitted c => some c
  | tracked c => some c
  | counted c => some c
  | added c => some c
  | _ => none

/-- The connection the accept loop holds is tracked. -/
@[simp] def AcceptLoop.hasTracked : AcceptLoop C → Bool
  | tracked _ => true
  | counted _ => true
  | added _ => true
  | _ => false

/-- Where a connection can be, and what the closing pass makes of it. -/
structure Inv (s : State C) : Prop where
  known : ∀ c, c ∈ s.conns ∨ c ∈ s.closed ∨ s.handler c≠none → c ∈ s.accepted
  fresh : ∀ c, s.loop.holds=some c → c ∈ s.accepted ∧ s.handler c=none
  untouched : ∀ c, s.loop.holds=some c → ¬s.loop.hasTracked → c ∉ s.conns ∧ c ∉ s.closed
  registered : ∀ c, s.loop.holds=some c → s.loop.hasTracked → c ∈ s.conns
  placed : ∀ c ∈ s.accepted, s.loop.holds=some c ∨ s.handler c≠none ∨ c ∈ s.closed
  serving : ∀ c, s.handler c=some .serving → c ∈ s.conns
  left : ∀ c h, s.handler c=some h → h≠.serving → c ∈ s.closed
  closing : ∀ todo, s.shutdown=.closing todo →
    (∀ c ∈ todo, c ∈ s.conns) ∧ ∀ c ∈ s.conns, c ∈ s.closed ∨ c ∈ todo
  finished : s.shutdown=.finished → ∀ c ∈ s.conns, c ∈ s.closed
  deaf : s.shutdown≠.waiting → s.shutdown≠.cancelled → s.listening=false

theorem Inv.initial : Inv (State.initial : State C) := by
  constructor <;> simp [State.initial]

theorem Inv.goOn {s : State C} (hs : Inv s) {l : AcceptLoop C} (hheld : l.holds=s.loop.holds)
    (htracked : l.hasTracked=s.loop.hasTracked) : Inv { s with loop := l } :=
  { hs with
    fresh := fun c hc => hs.fresh c (hheld ▸ hc)
    untouched := fun c hc ht => hs.untouched c (hheld ▸ hc) (htracked ▸ ht)
    registered := fun c hc ht => hs.registered c (hheld ▸ hc) (htracked ▸ ht)
    placed := fun c hc => hheld ▸ hs.placed c hc }

theorem Inv.cancel {s : State C} (hs : Inv s) : Inv { s with shutdown := .cancelled } :=
  { hs with
    closing := nofun
    finished := nofun
    deaf := fun _ h => absurd rfl h }

theorem Inv.closeListener {s : State C} (hs : Inv s) :
    Inv { s with listening := false,shutdown := .listenerClosed } :=
  { hs with
    closing := nofun
    finished := nofun
    deaf := fun _ _ => rfl }

theorem Inv.unlockConns {s : State C} (hs : Inv s) (hd : s.shutdown=.closing []) :
    Inv { s with shutdown := .finished } := by
  obtain ⟨_,hrest⟩ := hs.closing [] hd
  exact { hs with
    closing := nofun
    finished := fun _ c hc => (hrest c hc).resolve_right List.not_mem_nil
    deaf := fun _ _ => hs.deaf (by simp [hd]) (by simp [hd]) }

/-- The shutdown goroutine has finished and the accept loop has returned. -/
def State.Over (s : State C) : Prop := s.shutdown=.finished ∧ s.loop=.returned

/-- A connection that `Accept` has returned and whose handler has not exited. -/
def State.Lives (s : State C) (c : C) : Prop := c ∈ s.accepted ∧ s.handler c≠some .exited

theorem Inv.closed_of_over {s : State C} (hs : Inv s) (hover : s.Over) {c : C}
    (hc : c ∈ s.accepted) : c ∈ s.closed := by
  have hplaced := hs.placed c hc
  rw [hover.2] at hplaced
  cases hh : s.handler c with
  | none => simpa [hh] using hplaced
  | some h =>
    by_cases hserving : h=.serving
    · subst hserving
      exact hs.finished hover.1 c (hs.serving c hh)
    · exact hs.left c h hh hserving

/-- `trackConn` does not run after `closeAllConns` has returned. -/
def TracksInTime : Event C → State C → Prop
  | .track _,s => s.shutdown≠.finished
  | _,_ => True

variable [DecidableEq C]

/-- One step of `Serve`. -/
def step (maxClients : Int) : Event C → State C → Except Unit (State C)
  -- `acceptLoop`; what `Accept` returns is new
  | .accept c,s => guarded (s.loop=.accepting ∧ s.listening ∧ c ∉ s.accepted)
      { s with loop := .accepted c,accepted := insert c s.accepted }
  | .acceptError,s => guarded (s.loop=.accepting) s
  | .acceptClosed,s => guarded (s.loop=.accepting ∧ ¬s.listening) { s with loop := .returned }
  | .refuse c,s => guarded (s.loop=.accepted c ∧ s.full maxClients) { s with loop := .rejecting c }
  | .reject c,s => guarded (s.loop=.rejecting c)
      { s with loop := .accepting,closed := insert c s.closed }
  | .permit c,s => guarded (s.loop=.accepted c ∧ ¬s.full maxClients) { s with loop := .admitted c }
  | .track c,s => guarded (s.loop=.admitted c ∧ s.shutdown.mutexFree)
      { s with loop := .tracked c,conns := insert c s.conns }
  | .count c,s => guarded (s.loop=.tracked c)
      { s with loop := .counted c,connCount := s.connCount+1 }
  | .add c,s => guarded (s.loop=.counted c) { s with loop := .added c,wg := s.wg+1 }
  | .start c,s => guarded (s.loop=.added c)
      { s with loop := .accepting,handler := Function.update s.handler c (some .serving) }
  -- the goroutine of `c`: the deferred `conn.Close` of `serve`, then its own deferred calls
  | .leave c,s => guarded (s.handler c=some .serving)
      { s with handler := Function.update s.handler c (some .left),closed := insert c s.closed }
  | .untrack c,s => guarded (s.handler c=some .left ∧ s.shutdown.mutexFree)
      { s with handler := Function.update s.handler c (some .untracked),conns := s.conns.erase c }
  | .uncount c,s => guarded (s.handler c=some .untracked)
      { s with handler := Function.update s.handler c (some .uncounted)
               connCount := s.connCount-1 }
  | .done c,s => guarded (s.handler c=some .uncounted)
      { s with handler := Function.update s.handler c (some .exited),wg := s.wg-1 }
  -- the shutdown goroutine; `closeAllConns` meets the connections in any order
  | .cancel,s => guarded (s.shutdown=.waiting) { s with shutdown := .cancelled }
  | .closeListener,s => guarded (s.shutdown=.cancelled)
      { s with listening := false,shutdown := .listenerClosed }
  | .lockConns order,s =>
      guarded (s.shutdown=.listenerClosed ∧ order.Nodup ∧ order.toFinset=s.conns)
        { s with shutdown := .closing order }
  | .close c todo,s => guarded (s.shutdown=.closing (c::todo))
      { s with shutdown := .closing todo,closed := insert c s.closed }
  | .unlockConns,s => guarded (s.shutdown=.closing []) { s with shutdown := .finished }

namespace Inv
variable {s : State C} {c : C}

theorem accept (hs : Inv s) (hl : s.loop=.accepting) (hc : c ∉ s.accepted) :
    Inv { s with loop := .accepted c,accepted := insert c s.accepted } := by
  have hnew : c ∉ s.conns ∧ c ∉ s.closed ∧ s.handler c=none := by
    have := mt (hs.known c) hc
    tauto
  exact { hs with
    known := fun d hd => Finset.mem_insert_of_mem (hs.known d hd)
    fresh := by
      intro d hd
      cases hd
      exact ⟨Finset.mem_insert_self _ _,hnew.2.2⟩
    untouched := by
      intro d hd _
      cases hd
      exact ⟨hnew.1,hnew.2.1⟩
    registered := by simp
    placed := by
      intro d hd
      have := hs.placed d
      grind [AcceptLoop.holds] }

theorem reject (hs : Inv s) (hl : s.loop=.rejecting c) :
    Inv { s with loop := .accepting,closed := insert c s.closed } := by
  obtain ⟨hknown,hfresh⟩ := hs.fresh c (by simp [hl])
  exact { hs with
    known := by
      intro d hd
      have := hs.known d
      grind
    fresh := by simp
    untouched := by simp
    registered := by simp
    placed := by
      intro d hd
      have := hs.placed d
      grind [AcceptLoop.holds]
    left := fun d h hd hh => Finset.mem_insert_of_mem (hs.left d h hd hh)
    closing := by
      intro todo htodo
      have := hs.closing todo htodo
      grind
    finished := by
      intro hf d hd
      have := hs.finished hf d hd
      grind }

theorem track (hs : Inv s) (hl : s.loop=.admitted c) (hmu : s.shutdown.mutexFree)
    (htime : s.shutdown≠.finished) : Inv { s with loop := .tracked c,conns := insert c s.conns } := by
  obtain ⟨hknown,hfresh⟩ := hs.fresh c (by simp [hl])
  exact { hs with
    known := by
      intro d hd
      have := hs.known d
      grind
    fresh := by
      intro d hd
      cases hd
      exact ⟨hknown,hfresh⟩
    untouched := by simp
    registered := by
      intro d hd _
      cases hd
      exact Finset.mem_insert_self _ _
    placed := by
      intro d hd
      have := hs.placed d hd
      rwa [hl] at this
    serving := fun d hd => Finset.mem_insert_of_mem (hs.serving d hd)
    closing := by
      intro todo htodo
      change s.shutdown=_ at htodo
      simp [htodo,Shutdown.mutexFree] at hmu
    finished := fun hf => absurd hf htime }

theorem start (hs : Inv s) (hl : s.loop=.added c) :
    Inv { s with
      loop := .accepting,handler := Function.update s.handler c (some .serving) } := by
  obtain ⟨hknown,hfresh⟩ := hs.fresh c (by simp [hl])
  have hreg := hs.registered c (by simp [hl]) (by simp [hl])
  exact { hs with
    known := by
      intro d hd
      have := hs.known d
      grind [Function.update_apply]
    fresh := by simp
    untouched := by simp
    registered := by simp
    placed := by
      intro d hd
      have := hs.placed d hd
      grind [Function.update_apply,AcceptLoop.holds]
    serving := by
      intro d hd
      have := hs.serving d
      grind [Function.update_apply]
    left := by
      intro d h hd hh
      have := hs.left d h
      grind [Function.update_apply] }

theorem leave (hs : Inv s) (hc : s.handler c=some .serving) :
    Inv { s with
      handler := Function.update s.handler c (some .left),closed := insert c s.closed } := by
  have hknown := hs.known c (.inr (.inr (by simp [hc])))
  have hheld : s.loop.holds≠some c := by
    intro hl
    simp [(hs.fresh c hl).2] at hc
  exact { hs with
    known := by
      intro d hd
      have := hs.known d
      grind [Function.update_apply]
    fresh := by
      intro d hd
      have := hs.fresh d hd
      grind [Function.update_apply]
    untouched := by
      intro d hd ht
      have := hs.untouched d hd ht
      grind
    placed := by
      intro d hd
      have := hs.placed d hd
      grind [Function.update_apply]
    serving := by
      intro d hd
      have := hs.serving d
      grind [Function.update_apply]
    left := by
      intro d h hd hh
      have := hs.left d h
      grind [Function.update_apply]
    closing := by
      intro todo htodo
      have := hs.closing todo htodo
      grind
    finished := by
      intro hf d hd
      have := hs.finished hf d hd
      grind }

theorem unwind (hs : Inv s) {g h : Handler} (hc : s.handler c=some g) (hg : g≠.serving)
    (hh : h≠.serving) : Inv { s with handler := Function.update s.handler c (some h) } := by
  have hclosed := hs.left c g hc hg
  exact { hs with
    known := by
      intro d hd
      have := hs.known d
      grind [Function.update_apply]
    fresh := by
      intro d hd
      have := hs.fresh d hd
      grind [Function.update_apply]
    placed := by
      intro d hd
      have := hs.placed d hd
      grind [Function.update_apply]
    serving := by
      intro d hd
      have := hs.serving d
      grind [Function.update_apply]
    left := by
      intro d k hd hk
      have := hs.left d k
      grind [Function.update_apply] }

theorem forget (hs : Inv s) {h : Handler} (hc : s.handler c=some h) (hh : h≠.serving)
    (hmu : s.shutdown.mutexFree) : Inv { s with conns := s.conns.erase c } := by
  exact { hs with
    known := by
      intro d hd
      have := hs.known d
      grind
    untouched := by
      intro d hd ht
      have := hs.untouched d hd ht
      grind
    registered := by
      intro d hd ht
      have := hs.registered d hd ht
      have := hs.fresh d hd
      grind
    serving := by
      intro d hd
      have := hs.serving d hd
      grind
    closing := by
      intro todo htodo
      change s.shutdown=_ at htodo
      simp [htodo,Shutdown.mutexFree] at hmu
    finished := fun hf d hd => hs.finished hf d (Finset.mem_of_mem_erase hd) }

theorem lockConns (hs : Inv s) {order : List C} (hd : s.shutdown=.listenerClosed)
    (horder : order.toFinset=s.conns) : Inv { s with shutdown := .closing order } := by
  have hmem : ∀ c, c ∈ order ↔ c ∈ s.conns := by
    intro c
    rw [← horder,List.mem_toFinset]
  exact { hs with
    closing := by
      intro todo htodo
      cases htodo
      exact ⟨fun c hc => (hmem c).mp hc,fun c hc => .inr ((hmem c).mpr hc)⟩
    finished := nofun
    deaf := fun _ _ => hs.deaf (by simp [hd]) (by simp [hd]) }

theorem close (hs : Inv s) {todo : List C} (hd : s.shutdown=.closing (c::todo)) :
    Inv { s with shutdown := .closing todo,closed := insert c s.closed } := by
  obtain ⟨htodo,hrest⟩ := hs.closing (c::todo) hd
  exact { hs with
    known := by
      intro d hd
      have := hs.known d
      grind
    untouched := by
      intro d hd ht
      have := hs.untouched d hd ht
      grind
    placed := by
      intro d hd
      have := hs.placed d hd
      grind
    left := fun d h hd hh => Finset.mem_insert_of_mem (hs.left d h hd hh)
    closing := by
      intro todo' h
      cases h
      grind
    finished := nofun
    deaf := fun _ _ => hs.deaf (by simp [hd]) (by simp [hd]) }

end Inv

theorem step_inv {maxClients : Int} {e : Event C} {s s' : State C} (hs : Inv s)
    (htime : TracksInTime e s) (h : step maxClients e s=.ok s') : Inv s' := by
  cases e with
  | accept c =>
    obtain ⟨⟨hl,_,hc⟩,rfl⟩ := guarded_ok.mp h
    exact hs.accept hl hc
  | acceptError =>
    obtain ⟨_,rfl⟩ := guarded_ok.mp h
    exact hs
  | acceptClosed =>
    obtain ⟨⟨hl,_⟩,rfl⟩ := guarded_ok.mp h
    exact hs.goOn (by simp [hl]) (by simp [hl])
  | refuse c =>
    obtain ⟨⟨hl,_⟩,rfl⟩ := guarded_ok.mp h
    exact hs.goOn (by simp [hl]) (by simp [hl])
  | permit c =>
    obtain ⟨⟨hl,_⟩,rfl⟩ := guarded_ok.mp h
    exact hs.goOn (by simp [hl]) (by simp [hl])
  | reject c =>
    obtain ⟨hl,rfl⟩ := guarded_ok.mp h
    exact hs.reject hl
  | track c =>
    obtain ⟨⟨hl,hmu⟩,rfl⟩ := guarded_ok.mp h
    exact hs.track hl hmu htime
  | count c =>
    obtain ⟨hl,rfl⟩ := guarded_ok.mp h
    exact { hs.goOn (l := .counted c) (by simp [hl]) (by simp [hl]) with }
  | add c =>
    obtain ⟨hl,rfl⟩ := guarded_ok.mp h
    exact { hs.goOn (l := .added c) (by simp [hl]) (by simp [hl]) with }
  | start c =>
    obtain ⟨hl,rfl⟩ := guarded_ok.mp h
    exact hs.start hl
  | leave c =>
    obtain ⟨hc,rfl⟩ := guarded_ok.mp h
    exact hs.leave hc
  | untrack c =>
    obtain ⟨⟨hc,hmu⟩,rfl⟩ := guarded_ok.mp h
    exact { (hs.forget hc nofun hmu).unwind (h := .untracked) hc nofun nofun with }
  | uncount c =>
    obtain ⟨hc,rfl⟩ := guarded_ok.mp h
    exact { hs.unwind (h := .uncounted) hc nofun nofun with }
  | done c =>
    obtain ⟨hc,rfl⟩ := guarded_ok.mp h
    exact { hs.unwind (h := .exited) hc nofun nofun with }
  | cancel =>
    obtain ⟨_,rfl⟩ := guarded_ok.mp h
    exact hs.cancel
  | closeListener =>
    obtain ⟨_,rfl⟩ := guarded_ok.mp h
    exact hs.closeListener
  | lockConns order =>
    obtain ⟨⟨hd,_,horder⟩,rfl⟩ := guarded_ok.mp h
    exact hs.lockConns hd horder
  | close c todo =>
    obtain ⟨hd,rfl⟩ := guarded_ok.mp h
    exact hs.close hd
  | unlockConns =>
    obtain ⟨hd,rfl⟩ := guarded_ok.mp h
    exact hs.unlockConns hd

theorem Inv.left_open {maxClients : Int} {s : State C} (hs : Inv s) {c : C}
    (hl : s.loop=.admitted c) (hd : s.shutdown=.finished) :
    ∃ u, run (step maxClients) [.track c,.count c,.add c,.start c,.acceptClosed] s=.ok u ∧
      u.Over ∧ u.Lives c ∧ c ∉ u.closed := by
  have hdeaf := hs.deaf (by simp [hd]) (by simp [hd])
  have hc := (hs.fresh c (by simp [hl])).1
  have hopen := (hs.untouched c (by simp [hl]) (by simp [hl])).2
  refine ⟨{ s with
    loop := .returned,conns := insert c s.conns,connCount := s.connCount+1,wg := s.wg+1
    handler := Function.update s.handler c (some .serving) },?_,⟨hd,rfl⟩,⟨hc,by simp⟩,hopen⟩
  simp [run,step,guarded,hl,hd,hdeaf,Shutdown.mutexFree]

/-- As long as `trackConn` runs in time, every live connection is closed when shutdown is over;
the first time it does not, the connection at hand can stay open. -/
theorem shutdown_closes_all {maxClients : Int} {es : List (Event C)} {s : State C}
    (htime : Along (step maxClients) TracksInTime es State.initial)
    (hrun : run (step maxClients) es State.initial=.ok s) :
    (s.Over → ∀ c, s.Lives c → c ∈ s.closed) ∧
    ∀ c, s.loop=.admitted c → ¬TracksInTime (.track c) s →
      ∃ u, run (step maxClients) [.track c,.count c,.add c,.start c,.acceptClosed] s=.ok u ∧
        u.Over ∧ u.Lives c ∧ c ∉ u.closed := by
  have hs : Inv s := htime.invariant (fun _ _ _ hs ht h => step_inv hs ht h) hrun .initial
  constructor
  · intro hover c hc
    exact hs.closed_of_over hover hc.1
  · intro c hl hlate
    exact hs.left_open hl (not_not.mp hlate)

/-- A client connects and is being served when the context is cancelled. -/
def orderly : List (Event Nat) :=
  [.accept 1,.permit 1,.track 1,.count 1,.add 1,.start 1,.cancel,.closeListener,
    .lockConns [1],.close 1 [],.unlockConns,.acceptClosed]

theorem shutdown_closes_served : ∃ s, run (step 10) orderly State.initial=.ok s ∧
    s.Over ∧ s.Lives 1 ∧ ∀ c, s.Lives c → c ∈ s.closed := by
  have hend : ∃ s, run (step 10) orderly State.initial=.ok s ∧ s.Over ∧ s.Lives 1 :=
    ⟨_,rfl,⟨rfl,rfl⟩,⟨by decide,by decide⟩⟩
  have htime : Along (step 10) TracksInTime orderly State.initial :=
    .cons trivial rfl (.cons trivial rfl (.cons nofun rfl (.cons trivial rfl (.cons trivial rfl
      (.cons trivial rfl (.cons trivial rfl (.cons trivial rfl (.cons trivial rfl
        (.cons trivial rfl (.cons trivial rfl (.cons trivial rfl trivial)))))))))))
  obtain ⟨s,hrun,hover,hlives⟩ := hend
  exact ⟨s,hrun,hover,hlives,(shutdown_closes_all htime hrun).1 hover⟩

/-- A connection accepted just before the listener is closed and tracked after the pass:
nobody closes it, and `wg.Wait` waits for its client. -/
theorem shutdown_leaves_open : ∃ s : State Nat,
    run (step 0) [.accept 1,.cancel,.closeListener,.lockConns [],.unlockConns,
      .permit 1,.track 1,.count 1,.add 1,.start 1,.acceptClosed] State.initial=.ok s ∧
    s.Over ∧ s.Lives 1 ∧ 1 ∉ s.closed ∧ s.wg=1 :=
  ⟨_,rfl,⟨rfl,rfl⟩,⟨by decide,by decide⟩,by decide,rfl⟩

end Serve
end GoRedis
