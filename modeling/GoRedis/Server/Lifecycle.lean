import GoRedis.Server.Shutdown
/-!
# The life of the server

Two counters follow the connections: `connCount`, which the limit is compared with, and the wait
group. They are exact in every interleaving, so the limit holds and `Serve` returns behind the last
handler. Once the listener is closed the server takes a bounded number of steps, and it does not
stop before all handlers have returned.
-/
namespace GoRedis
namespace Serve
open Machine

section Total
variable {C M : Type} [DecidableEq C] [AddCommMonoid M] {A : Finset C} {f : C → Option Handler}
  {c : C}

/-- What the handlers count together. -/
def total (g : Handler → M) (A : Finset C) (f : C → Option Handler) : M :=
  ∑ c ∈ A, (f c).elim 0 g

theorem total_insert (g : Handler → M) (hc : c ∉ A) (hf : f c=none) :
    total g (insert c A) f=total g A f := by
  rw [total,Finset.sum_insert hc,hf]
  exact zero_add _

theorem total_update (g : Handler → M) (hc : c ∈ A) (v : Option Handler) :
    total g A (Function.update f c v)+(f c).elim 0 g=total g A f+v.elim 0 g := by
  have hrest : ∑ d ∈ A.erase c, (Function.update f c v d).elim 0 g=
      ∑ d ∈ A.erase c, (f d).elim 0 g := by
    refine Finset.sum_congr rfl fun d hd => ?_
    rw [Function.update_of_ne (Finset.ne_of_mem_erase hd)]
  rw [total,total,← Finset.add_sum_erase A _ hc,
    ← Finset.add_sum_erase A (fun d => (f d).elim 0 g) hc,
    Function.update_self,hrest]
  abel

end Total

/-- The handlers that `connCount` counts. -/
def Handler.inCount : Handler → Int
  | serving | left | untracked => 1
  | uncounted | exited => 0

/-- The handlers that the wait group counts. -/
def Handler.inGroup : Handler → Int
  | exited => 0
  | _ => 1

namespace AcceptLoop
variable {C : Type}

/-- The connection at hand is in `connCount`. -/
def inCount : AcceptLoop C → Int
  | counted _ | added _ => 1
  | _ => 0

/-- The connection at hand is in the wait group. -/
def inGroup : AcceptLoop C → Int
  | added _ => 1
  | _ => 0

/-- The connection at hand is below the limit and not yet in `connCount`. -/
def promised : AcceptLoop C → Int
  | admitted _ | tracked _ => 1
  | _ => 0

theorem inCount_nonneg (l : AcceptLoop C) : 0 ≤ l.inCount := by cases l <;> simp [inCount]

theorem inGroup_nonneg (l : AcceptLoop C) : 0 ≤ l.inGroup := by cases l <;> simp [inGroup]

theorem promised_nonneg (l : AcceptLoop C) : 0 ≤ l.promised := by cases l <;> simp [promised]

end AcceptLoop

/-- Every connection is at one place, and the counters say how many there are. -/
structure Account {C : Type} (maxClients : Int) (s : State C) : Prop where
  known : ∀ c, s.handler c≠none → c ∈ s.accepted
  fresh : ∀ c, s.loop.holds=some c → c ∈ s.accepted ∧ s.handler c=none
  placed : ∀ c ∈ s.accepted, s.loop.holds=some c ∨ s.handler c=some .serving ∨ c ∈ s.closed
  connCount : s.connCount=total Handler.inCount s.accepted s.handler+s.loop.inCount
  wg : s.wg=total Handler.inGroup s.accepted s.handler+s.loop.inGroup
  limit : 0 < maxClients → s.connCount+s.loop.promised ≤ maxClients
  deaf : s.listening=false → s.shutdown≠.waiting ∧ s.shutdown≠.cancelled

namespace Account
variable {C : Type} {maxClients : Int} {s s' : State C} {c : C}

theorem initial : Account maxClients (State.initial : State C) := by
  constructor <;> simp [State.initial,total,AcceptLoop.inCount,AcceptLoop.inGroup,
    AcceptLoop.promised]
  exact fun h : 0 < maxClients => h.le

theorem goOn (hs : Account maxClients s) {l : AcceptLoop C} (hheld : l.holds=s.loop.holds)
    (hcount : l.inCount=s.loop.inCount) (hwait : l.inGroup=s.loop.inGroup)
    (hlimit : 0 < maxClients → s.connCount+l.promised ≤ maxClients) :
    Account maxClients { s with loop := l } :=
  { hs with
    fresh := fun c hc => hs.fresh c (hheld ▸ hc)
    placed := fun c hc => hheld ▸ hs.placed c hc
    connCount := by rw [hs.connCount,← hcount]
    wg := by rw [hs.wg,← hwait]
    limit := hlimit }

theorem closed_of_left (hs : Account maxClients s) {h : Handler} (hc : s.handler c=some h)
    (hne : h≠.serving) : c ∈ s.closed := by
  rcases hs.placed c (hs.known c (by simp [hc])) with hl | hl | hl
  · rw [(hs.fresh c hl).2] at hc
    cases hc
  · rw [hc] at hl
    cases hl
    exact absurd rfl hne
  · exact hl

theorem serving_le (hs : Account maxClients s) :
    ((s.accepted.filter fun c => s.handler c=some .serving).card : Int) ≤ s.connCount := by
  have hle : ((s.accepted.filter fun c => s.handler c=some .serving).card : Int) ≤
      total Handler.inCount s.accepted s.handler := by
    rw [Finset.card_filter,Nat.cast_sum]
    refine Finset.sum_le_sum fun c _ => ?_
    split_ifs with hc
    · rw [hc]
      exact le_rfl
    · cases s.handler c with
      | none => exact le_rfl
      | some h => cases h <;> decide
  have hloop := s.loop.inCount_nonneg
  have := hs.connCount
  omega

theorem exited (hs : Account maxClients s) (hwg : s.wg=0) (hc : c ∈ s.accepted) :
    s.handler c=none ∨ s.handler c=some .exited := by
  have hpos : ∀ d ∈ s.accepted, 0 ≤ (s.handler d).elim 0 Handler.inGroup := by
    intro d _
    cases s.handler d with
    | none => exact le_rfl
    | some h => cases h <;> decide
  have hloop := s.loop.inGroup_nonneg
  have hle : (s.handler c).elim 0 Handler.inGroup ≤ total Handler.inGroup s.accepted s.handler :=
    Finset.single_le_sum hpos hc
  have hwait := hs.wg
  cases hh : s.handler c with
  | none => exact .inl rfl
  | some h =>
    rw [hh] at hle
    cases h with
    | exited => exact .inr rfl
    | _ =>
      simp only [Option.elim,Handler.inGroup] at hle
      omega

variable [DecidableEq C]

theorem accept (hs : Account maxClients s) (hl : s.loop=.accepting) (hc : c ∉ s.accepted) :
    Account maxClients { s with loop := .accepted c,accepted := insert c s.accepted } := by
  have hnone : s.handler c=none := not_not.mp (mt (hs.known c) hc)
  have hlimit := hs.limit
  have hcount := hs.connCount
  have hwait := hs.wg
  rw [hl] at hlimit hcount hwait
  exact { hs with
    known := fun d hd => Finset.mem_insert_of_mem (hs.known d hd)
    fresh := by
      intro d hd
      cases hd
      exact ⟨Finset.mem_insert_self _ _,hnone⟩
    placed := by
      intro d hd
      rcases Finset.mem_insert.mp hd with rfl | hd
      · exact .inl rfl
      · have := hs.placed d hd
        rw [hl] at this
        exact .inr (this.resolve_left (by simp))
    connCount := by rw [total_insert _ hc hnone]; exact hcount
    wg := by rw [total_insert _ hc hnone]; exact hwait
    limit := hlimit }

theorem reject (hs : Account maxClients s) (hl : s.loop=.rejecting c) :
    Account maxClients { s with loop := .accepting,closed := insert c s.closed } := by
  have hlimit := hs.limit
  have hcount := hs.connCount
  have hwait := hs.wg
  rw [hl] at hlimit hcount hwait
  exact { hs with
    fresh := by simp
    placed := by
      intro d hd
      have hplaced := hs.placed d hd
      rw [hl] at hplaced
      rcases hplaced with hd | hd | hd
      · exact .inr (.inr (by cases hd; exact Finset.mem_insert_self _ _))
      · exact .inr (.inl hd)
      · exact .inr (.inr (Finset.mem_insert_of_mem hd))
    connCount := hcount
    wg := hwait
    limit := hlimit }

theorem start (hs : Account maxClients s) (hl : s.loop=.added c) :
    Account maxClients { s with
      loop := .accepting,handler := Function.update s.handler c (some .serving) } := by
  obtain ⟨hknown,hnone⟩ := hs.fresh c (by simp [hl])
  have hlimit := hs.limit
  have hcount := hs.connCount
  have hwait := hs.wg
  rw [hl] at hlimit hcount hwait
  have htotal := total_update Handler.inCount hknown (f := s.handler) (some .serving)
  have htotal' := total_update Handler.inGroup hknown (f := s.handler) (some .serving)
  rw [hnone] at htotal htotal'
  exact { hs with
    known := by
      intro d hd
      by_cases he : d=c
      · exact he ▸ hknown
      · exact hs.known d (by simpa [he] using hd)
    fresh := by simp
    placed := by
      intro d hd
      by_cases he : d=c
      · exact .inr (.inl (by rw [he]; exact Function.update_self ..))
      · have hplaced := hs.placed d hd
        rw [hl] at hplaced
        simpa [he,Ne.symm he] using hplaced
    connCount := by
      simp only [Option.elim,Handler.inCount,AcceptLoop.inCount] at htotal hcount ⊢
      omega
    wg := by
      simp only [Option.elim,Handler.inGroup,AcceptLoop.inGroup] at htotal' hwait ⊢
      omega
    limit := hlimit }

theorem move (hs : Account maxClients s) {h h' : Handler} (hc : s.handler c=some h)
    {closed conns : Finset C} (hclosed : s.closed ⊆ closed) (hmem : c ∈ closed) {n m : Int}
    (hn : n+h.inCount=s.connCount+h'.inCount) (hm : m+h.inGroup=s.wg+h'.inGroup)
    (hle : n ≤ s.connCount) :
    Account maxClients { s with
      handler := Function.update s.handler c (some h'),closed := closed,conns := conns
      connCount := n,wg := m } := by
  have hknown := hs.known c (by simp [hc])
  have hheld : ∀ d, s.loop.holds=some d → d ≠ c := by
    rintro d hd rfl
    rw [(hs.fresh d hd).2] at hc
    cases hc
  have htotal := total_update Handler.inCount hknown (f := s.handler) (some h')
  have htotal' := total_update Handler.inGroup hknown (f := s.handler) (some h')
  rw [hc] at htotal htotal'
  simp only [Option.elim] at htotal htotal'
  have hcount := hs.connCount
  have hwait := hs.wg
  exact { hs with
    known := by
      intro d hd
      by_cases he : d=c
      · exact he ▸ hknown
      · exact hs.known d (by simpa [he] using hd)
    fresh := by
      intro d hd
      simpa [hheld d hd] using hs.fresh d hd
    placed := by
      intro d hd
      by_cases he : d=c
      · exact .inr (.inr (he ▸ hmem))
      · rcases hs.placed d hd with hd | hd | hd
        · exact .inl hd
        · exact .inr (.inl (by simpa [he] using hd))
        · exact .inr (.inr (hclosed hd))
    connCount := by
      dsimp only
      omega
    wg := by
      dsimp only
      omega
    limit := fun hpos => by
      have := hs.limit hpos
      dsimp only
      omega }

theorem close (hs : Account maxClients s) {d : Shutdown C} (hd : d≠.waiting ∧ d≠.cancelled)
    (c : C) : Account maxClients { s with shutdown := d,closed := insert c s.closed } :=
  { hs with
    placed := fun e he => (hs.placed e he).imp_right (.imp_right Finset.mem_insert_of_mem)
    deaf := fun _ => hd }

theorem step {e : Event C} (hs : Account maxClients s) (h : step maxClients e s=.ok s') :
    Account maxClients s' := by
  cases e with
  | accept c =>
    obtain ⟨⟨hl,_,hc⟩,rfl⟩ := guarded_ok.mp h
    exact hs.accept hl hc
  | acceptError =>
    obtain ⟨_,rfl⟩ := guarded_ok.mp h
    exact hs
  | acceptClosed =>
    obtain ⟨⟨hl,_⟩,rfl⟩ := guarded_ok.mp h
    exact hs.goOn (by simp [hl]) (by simp [hl,AcceptLoop.inCount])
      (by simp [hl,AcceptLoop.inGroup]) (by simpa [hl,AcceptLoop.promised] using hs.limit)
  | refuse c =>
    obtain ⟨⟨hl,_⟩,rfl⟩ := guarded_ok.mp h
    exact hs.goOn (by simp [hl]) (by simp [hl,AcceptLoop.inCount])
      (by simp [hl,AcceptLoop.inGroup]) (by simpa [hl,AcceptLoop.promised] using hs.limit)
  | permit c =>
    obtain ⟨⟨hl,hfull⟩,rfl⟩ := guarded_ok.mp h
    refine hs.goOn (by simp [hl]) (by simp [hl,AcceptLoop.inCount])
      (by simp [hl,AcceptLoop.inGroup]) fun hpos => ?_
    -- there was room, and nobody but the loop takes it
    have hroom : ¬maxClients ≤ s.connCount := fun hle => hfull ⟨hpos,hle⟩
    show s.connCount+1 ≤ maxClients
    omega
  | reject c =>
    obtain ⟨hl,rfl⟩ := guarded_ok.mp h
    exact hs.reject hl
  | track c =>
    obtain ⟨⟨hl,hmu⟩,rfl⟩ := guarded_ok.mp h
    exact { hs.goOn (l := .tracked c) (by simp [hl]) (by simp [hl,AcceptLoop.inCount])
      (by simp [hl,AcceptLoop.inGroup]) (by simpa [hl,AcceptLoop.promised] using hs.limit) with }
  | count c =>
    obtain ⟨hl,rfl⟩ := guarded_ok.mp h
    have hlimit := hs.limit
    have hcount := hs.connCount
    have hwait := hs.wg
    rw [hl] at hlimit hcount hwait
    exact { hs with
      fresh := by simpa [hl] using hs.fresh
      placed := by simpa [hl] using hs.placed
      connCount := by
        simp only [AcceptLoop.inCount] at hcount ⊢
        omega
      wg := hwait
      limit := by simpa [AcceptLoop.promised] using hlimit }
  | add c =>
    obtain ⟨hl,rfl⟩ := guarded_ok.mp h
    have hlimit := hs.limit
    have hcount := hs.connCount
    have hwait := hs.wg
    rw [hl] at hlimit hcount hwait
    exact { hs with
      fresh := by simpa [hl] using hs.fresh
      placed := by simpa [hl] using hs.placed
      connCount := hcount
      wg := by
        simp only [AcceptLoop.inGroup] at hwait ⊢
        omega
      limit := hlimit }
  | start c =>
    obtain ⟨hl,rfl⟩ := guarded_ok.mp h
    exact hs.start hl
  | leave c =>
    obtain ⟨hc,rfl⟩ := guarded_ok.mp h
    exact hs.move hc (Finset.subset_insert ..) (Finset.mem_insert_self ..) rfl rfl le_rfl
  | untrack c =>
    obtain ⟨⟨hc,_⟩,rfl⟩ := guarded_ok.mp h
    exact hs.move hc subset_rfl (hs.closed_of_left hc (by decide)) rfl rfl le_rfl
  | uncount c =>
    obtain ⟨hc,rfl⟩ := guarded_ok.mp h
    refine hs.move hc subset_rfl (hs.closed_of_left hc (by decide)) ?_ rfl (by omega)
    simp [Handler.inCount]
  | done c =>
    obtain ⟨hc,rfl⟩ := guarded_ok.mp h
    refine hs.move hc subset_rfl (hs.closed_of_left hc (by decide)) rfl ?_ le_rfl
    simp [Handler.inGroup]
  | cancel =>
    obtain ⟨hd,rfl⟩ := guarded_ok.mp h
    exact { hs with deaf := fun hdeaf => absurd hd (hs.deaf hdeaf).1 }
  | closeListener =>
    obtain ⟨_,rfl⟩ := guarded_ok.mp h
    exact { hs with deaf := by simp }
  | lockConns order =>
    obtain ⟨_,rfl⟩ := guarded_ok.mp h
    exact { hs with deaf := by simp }
  | close c todo =>
    obtain ⟨_,rfl⟩ := guarded_ok.mp h
    exact hs.close (d := .closing todo) (by simp) c
  | unlockConns =>
    obtain ⟨_,rfl⟩ := guarded_ok.mp h
    exact { hs with deaf := by simp }

theorem run {es : List (Event C)} (hs : Account maxClients s)
    (hrun : Machine.run (Serve.step maxClients) es s=.ok s') : Account maxClients s' :=
  run_invariant (fun _ _ _ hs h => hs.step h) hrun hs

end Account

section Limits
variable {C : Type} [DecidableEq C] {maxClients : Int}

/-- In every interleaving no more than `MaxClients` connections are served at a time, and when the
accept loop has returned and the wait group is empty, so that `Serve` returns, every connection
that was ever accepted is closed and its handler, if it got one, has returned. -/
theorem clients_accounted {es : List (Event C)} {s : State C}
    (hrun : run (step maxClients) es State.initial=.ok s) :
    (0 < maxClients →
      ((s.accepted.filter fun c => s.handler c=some .serving).card : Int) ≤ maxClients) ∧
    (s.loop=.returned → s.wg=0 →
      ∀ c ∈ s.accepted, c ∈ s.closed ∧ (s.handler c=none ∨ s.handler c=some .exited)) := by
  have hs : Account maxClients s := Account.initial.run hrun
  constructor
  · intro hpos
    have hlimit := hs.limit hpos
    have hpromised := s.loop.promised_nonneg
    have := hs.serving_le
    omega
  · intro hloop hwg c hc
    have hexited := hs.exited hwg hc
    refine ⟨?_,hexited⟩
    rcases hs.placed c hc with hl | hl | hl
    · rw [hloop] at hl
      cases hl
    · rw [hl] at hexited
      simp at hexited
    · exact hl

/-- One client comes and goes before the server is stopped. -/
theorem clients_accounted_one : ∃ s : State Nat,
    run (step 10) [.accept 1,.permit 1,.track 1,.count 1,.add 1,.start 1,.leave 1,.untrack 1,
      .uncount 1,.done 1,.cancel,.closeListener,.lockConns [],.unlockConns,.acceptClosed]
      State.initial=.ok s ∧ 1 ∈ s.accepted ∧ s.wg=0 ∧
    ∀ c ∈ s.accepted, c ∈ s.closed ∧ (s.handler c=none ∨ s.handler c=some .exited) := by
  obtain ⟨s,hrun,hmem,hloop,hwg⟩ : ∃ s : State Nat,
      run (step 10) [.accept 1,.permit 1,.track 1,.count 1,.add 1,.start 1,.leave 1,.untrack 1,
        .uncount 1,.done 1,.cancel,.closeListener,.lockConns [],.unlockConns,.acceptClosed]
        State.initial=.ok s ∧ 1 ∈ s.accepted ∧ s.loop=.returned ∧ s.wg=0 :=
    ⟨_,rfl,by decide,rfl,rfl⟩
  exact ⟨s,hrun,hmem,hwg,(clients_accounted hrun).2 hloop hwg⟩

end Limits

/-- The steps a handler still has to take. -/
def Handler.work : Handler → Nat
  | serving => 4
  | left => 3
  | untracked => 2
  | uncounted => 1
  | exited => 0

/-- The steps of the accept loop and of the handler it may still start. -/
def AcceptLoop.work {C : Type} : AcceptLoop C → Nat
  | accepted _ => 10
  | admitted _ => 9
  | tracked _ => 8
  | counted _ => 7
  | added _ => 6
  | rejecting _ => 2
  | accepting => 1
  | returned => 0

/-- The connection at hand may still be tracked. -/
def AcceptLoop.untracked {C : Type} : AcceptLoop C → Nat
  | accepted _ | admitted _ => 1
  | _ => 0

/-- The steps of the shutdown goroutine with `n` connections to close. -/
def Shutdown.work {C : Type} (n : Nat) : Shutdown C → Nat
  | waiting => n+4
  | cancelled => n+3
  | listenerClosed => n+2
  | closing todo => todo.length+1
  | finished => 0

theorem Shutdown.work_mono {C : Type} {n n' : Nat} (h : n ≤ n') (d : Shutdown C) :
    d.work n ≤ d.work n' := by
  cases d <;> simp [work,h]

def State.work {C : Type} (s : State C) : Nat :=
  total Handler.work s.accepted s.handler+s.loop.work+
    s.shutdown.work (s.conns.card+s.loop.untracked)

/-- A transient error of `Accept` changes nothing; every other step counts. -/
def Event.cost {C : Type} : Event C → Nat
  | acceptError => 0
  | _ => 1

section Ends
variable {C : Type} [DecidableEq C] {maxClients : Int} {s s' : State C}

theorem total_move {g : Handler → Nat} (hs : Account maxClients s) {c : C} {h : Handler}
    (hc : s.handler c=some h) (h' : Handler) :
    total g s.accepted (Function.update s.handler c (some h'))+g h=
      total g s.accepted s.handler+g h' := by
  have := total_update g (hs.known c (by simp [hc])) (f := s.handler) (some h')
  rw [hc] at this
  exact this

theorem step_work {e : Event C} (hs : Account maxClients s ∧ s.listening=false)
    (h : step maxClients e s=.ok s') :
    (Account maxClients s' ∧ s'.listening=false) ∧ s'.work+e.cost ≤ s.work := by
  obtain ⟨hs,hdeaf⟩ := hs
  have hs' : Account maxClients s' := hs.step h
  cases e with
  | accept c =>
    obtain ⟨⟨_,hl,_⟩,rfl⟩ := guarded_ok.mp h
    exact absurd hl (by simp [hdeaf])
  | acceptError =>
    obtain ⟨_,rfl⟩ := guarded_ok.mp h
    exact ⟨⟨hs,hdeaf⟩,le_rfl⟩
  | acceptClosed =>
    obtain ⟨⟨hl,_⟩,rfl⟩ := guarded_ok.mp h
    refine ⟨⟨hs',hdeaf⟩,?_⟩
    simp only [State.work,hl,AcceptLoop.work,AcceptLoop.untracked,Event.cost]
    omega
  | refuse c =>
    obtain ⟨⟨hl,_⟩,rfl⟩ := guarded_ok.mp h
    refine ⟨⟨hs',hdeaf⟩,?_⟩
    have := s.shutdown.work_mono (Nat.le_add_right s.conns.card 1)
    simp only [State.work,hl,AcceptLoop.work,AcceptLoop.untracked,Event.cost,Nat.add_zero]
    omega
  | permit c =>
    obtain ⟨⟨hl,_⟩,rfl⟩ := guarded_ok.mp h
    refine ⟨⟨hs',hdeaf⟩,?_⟩
    simp only [State.work,hl,AcceptLoop.work,AcceptLoop.untracked,Event.cost]
    omega
  | reject c =>
    obtain ⟨hl,rfl⟩ := guarded_ok.mp h
    refine ⟨⟨hs',hdeaf⟩,?_⟩
    simp only [State.work,hl,AcceptLoop.work,AcceptLoop.untracked,Event.cost]
    omega
  | track c =>
    obtain ⟨⟨hl,_⟩,rfl⟩ := guarded_ok.mp h
    refine ⟨⟨hs',hdeaf⟩,?_⟩
    have := s.shutdown.work_mono (Finset.card_insert_le c s.conns)
    simp only [State.work,hl,AcceptLoop.work,AcceptLoop.untracked,Event.cost,Nat.add_zero]
    omega
  | count c =>
    obtain ⟨hl,rfl⟩ := guarded_ok.mp h
    refine ⟨⟨hs',hdeaf⟩,?_⟩
    simp only [State.work,hl,AcceptLoop.work,AcceptLoop.untracked,Event.cost]
    omega
  | add c =>
    obtain ⟨hl,rfl⟩ := guarded_ok.mp h
    refine ⟨⟨hs',hdeaf⟩,?_⟩
    simp only [State.work,hl,AcceptLoop.work,AcceptLoop.untracked,Event.cost]
    omega
  | start c =>
    obtain ⟨hl,rfl⟩ := guarded_ok.mp h
    refine ⟨⟨hs',hdeaf⟩,?_⟩
    obtain ⟨hknown,hnone⟩ := hs.fresh c (by simp [hl])
    have htotal := total_update Handler.work hknown (f := s.handler) (some .serving)
    rw [hnone] at htotal
    simp only [Option.elim,Handler.work] at htotal
    simp only [State.work,hl,AcceptLoop.work,AcceptLoop.untracked,Event.cost]
    omega
  | leave c =>
    obtain ⟨hc,rfl⟩ := guarded_ok.mp h
    refine ⟨⟨hs',hdeaf⟩,?_⟩
    have htotal := total_move (g := Handler.work) hs hc .left
    simp only [Handler.work] at htotal
    simp only [State.work,Event.cost]
    omega
  | untrack c =>
    obtain ⟨⟨hc,_⟩,rfl⟩ := guarded_ok.mp h
    refine ⟨⟨hs',hdeaf⟩,?_⟩
    have htotal := total_move (g := Handler.work) hs hc .untracked
    have hless := s.shutdown.work_mono
      (Nat.add_le_add_right (Finset.card_erase_le (s := s.conns) (a := c)) s.loop.untracked)
    simp only [Handler.work] at htotal
    simp only [State.work,Event.cost]
    omega
  | uncount c =>
    obtain ⟨hc,rfl⟩ := guarded_ok.mp h
    refine ⟨⟨hs',hdeaf⟩,?_⟩
    have htotal := total_move (g := Handler.work) hs hc .uncounted
    simp only [Handler.work] at htotal
    simp only [State.work,Event.cost]
    omega
  | done c =>
    obtain ⟨hc,rfl⟩ := guarded_ok.mp h
    refine ⟨⟨hs',hdeaf⟩,?_⟩
    have htotal := total_move (g := Handler.work) hs hc .exited
    simp only [Handler.work] at htotal
    simp only [State.work,Event.cost]
    omega
  | cancel =>
    obtain ⟨hd,rfl⟩ := guarded_ok.mp h
    exact absurd hd (hs.deaf hdeaf).1
  | closeListener =>
    obtain ⟨hd,rfl⟩ := guarded_ok.mp h
    exact absurd hd (hs.deaf hdeaf).2
  | lockConns order =>
    obtain ⟨⟨hd,hnodup,horder⟩,rfl⟩ := guarded_ok.mp h
    refine ⟨⟨hs',hdeaf⟩,?_⟩
    have hcard : s.conns.card=order.length := by
      rw [← horder,List.toFinset_card_of_nodup hnodup]
    simp only [State.work,hd,Shutdown.work,Event.cost]
    omega
  | close c todo =>
    obtain ⟨hd,rfl⟩ := guarded_ok.mp h
    refine ⟨⟨hs',hdeaf⟩,?_⟩
    simp only [State.work,hd,Shutdown.work,Event.cost,List.length_cons]
    omega
  | unlockConns =>
    obtain ⟨hd,rfl⟩ := guarded_ok.mp h
    refine ⟨⟨hs',hdeaf⟩,?_⟩
    simp only [State.work,hd,Shutdown.work,Event.cost,List.length_nil]
    omega

/-- The steps that the server takes by itself: a handler leaves once its connection is closed. -/
def Forced (s : State C) : Event C → Prop
  | .accept _ | .acceptError | .cancel => False
  | .leave c => c ∈ s.closed
  | _ => True

/-- None of them can be taken. -/
def Stuck (maxClients : Int) (s : State C) : Prop :=
  ∀ e, Forced s e → ∀ s', step maxClients e s≠.ok s'

theorem Stuck.not_guard {e : Event C} (h : Stuck maxClients s) (hf : Forced s e) {p : Prop}
    [Decidable p] {u : State C} (hstep : step maxClients e s=guarded p u) : ¬p :=
  fun hp => h e hf u (hstep.trans (if_pos hp))

theorem Stuck.finished (h : Stuck maxClients s) (hs : Account maxClients s)
    (hdeaf : s.listening=false) : s.shutdown=.finished := by
  cases hd : s.shutdown with
  | waiting => exact absurd hd (hs.deaf hdeaf).1
  | cancelled => exact absurd hd (hs.deaf hdeaf).2
  | listenerClosed =>
    refine absurd ?_ (h.not_guard (e := .lockConns s.conns.toList) trivial rfl)
    exact ⟨hd,s.conns.nodup_toList,s.conns.toList_toFinset⟩
  | closing todo =>
    cases todo with
    | nil => exact absurd hd (h.not_guard (e := .unlockConns) trivial rfl)
    | cons c todo => exact absurd hd (h.not_guard (e := .close c todo) trivial rfl)
  | finished => rfl

theorem Stuck.returned (h : Stuck maxClients s) (hdeaf : s.listening=false)
    (hd : s.shutdown=.finished) : s.loop=.returned := by
  cases hl : s.loop with
  | accepting =>
    exact absurd ⟨hl,by simp [hdeaf]⟩ (h.not_guard (e := .acceptClosed) trivial rfl)
  | accepted c =>
    by_cases hfull : s.full maxClients
    · exact absurd ⟨hl,hfull⟩ (h.not_guard (e := .refuse c) trivial rfl)
    · exact absurd ⟨hl,hfull⟩ (h.not_guard (e := .permit c) trivial rfl)
  | rejecting c => exact absurd hl (h.not_guard (e := .reject c) trivial rfl)
  | admitted c =>
    exact absurd ⟨hl,by simp [hd,Shutdown.mutexFree]⟩ (h.not_guard (e := .track c) trivial rfl)
  | tracked c => exact absurd hl (h.not_guard (e := .count c) trivial rfl)
  | counted c => exact absurd hl (h.not_guard (e := .add c) trivial rfl)
  | added c => exact absurd hl (h.not_guard (e := .start c) trivial rfl)
  | returned => rfl

theorem Stuck.exited (h : Stuck maxClients s) (hd : s.shutdown=.finished) {c : C} {g : Handler}
    (hc : s.handler c=some g) (hclosed : g=.serving → c ∈ s.closed) : g=.exited := by
  cases g with
  | serving => exact absurd hc (h.not_guard (e := .leave c) (hclosed rfl) rfl)
  | left =>
    exact absurd ⟨hc,by simp [hd,Shutdown.mutexFree]⟩ (h.not_guard (e := .untrack c) trivial rfl)
  | untracked => exact absurd hc (h.not_guard (e := .uncount c) trivial rfl)
  | uncounted => exact absurd hc (h.not_guard (e := .done c) trivial rfl)
  | exited => rfl

/-- Once the listener is closed, the server takes at most as many steps as its state says, errors
of `Accept` apart. If no connection is tracked too late, the server does not come to a halt before
the shutdown goroutine and the accept loop are done and the wait group is empty, so that `Serve`
returns. -/
theorem shutdown_completes {es : List (Event C)}
    (htime : Along (step maxClients) TracksInTime es State.initial)
    (hrun : run (step maxClients) es State.initial=.ok s) (hdeaf : s.listening=false) :
    (∀ es' s', run (step maxClients) es' s=.ok s' → (es'.map Event.cost).sum ≤ s.work) ∧
    ∀ es' s', Along (step maxClients) TracksInTime es' s → run (step maxClients) es' s=.ok s' →
      Stuck maxClients s' → s'.Over ∧ s'.wg=0 := by
  have hs : Inv s := htime.invariant (fun _ _ _ hs ht h => step_inv hs ht h) hrun .initial
  have ha : Account maxClients s ∧ s.listening=false := ⟨Account.initial.run hrun,hdeaf⟩
  constructor
  · intro es' s' hrun'
    exact (Nat.le_add_left _ _).trans (run_measure (fun _ _ _ hs h => step_work hs h) hrun' ha)
  · intro es' s' htime' hrun' hstuck
    have hs' : Inv s' := htime'.invariant (fun _ _ _ hs ht h => step_inv hs ht h) hrun' hs
    obtain ⟨ha',hdeaf'⟩ : Account maxClients s' ∧ s'.listening=false :=
      run_invariant (fun _ _ _ hs h => (step_work hs h).1) hrun' ha
    have hfinished := hstuck.finished ha' hdeaf'
    have hreturned := hstuck.returned hdeaf' hfinished
    refine ⟨⟨hfinished,hreturned⟩,?_⟩
    -- whoever is still served has been closed, so no handler is left
    have hzero : total Handler.inGroup s'.accepted s'.handler=0 := by
      refine Finset.sum_eq_zero fun c hc => ?_
      cases hh : s'.handler c with
      | none => rfl
      | some g =>
        rw [hstuck.exited hfinished hh fun hg => hs'.finished hfinished c (hs'.serving c (hg ▸ hh))]
        rfl
    rw [ha'.wg,hzero,hreturned]
    rfl

/-- The server is stopped while it serves a client: eight steps are left at most. -/
theorem shutdown_completes_serving : ∃ s : State Nat,
    run (step 10) [.accept 1,.permit 1,.track 1,.count 1,.add 1,.start 1,.cancel,.closeListener]
      State.initial=.ok s ∧
    (∀ es s', run (step 10) es s=.ok s' → (es.map Event.cost).sum ≤ 8) ∧
    ∀ es s', Along (step 10) TracksInTime es s → run (step 10) es s=.ok s' → Stuck 10 s' →
      s'.Over ∧ s'.wg=0 := by
  have hwaiting : (Shutdown.waiting : Shutdown Nat)≠.finished := by decide
  have htime : Along (step 10) TracksInTime
      [.accept 1,.permit 1,.track 1,.count 1,.add 1,.start 1,.cancel,.closeListener]
      (State.initial : State Nat) :=
    .cons trivial rfl (.cons trivial rfl (.cons hwaiting rfl (.cons trivial rfl
      (.cons trivial rfl (.cons trivial rfl (.cons trivial rfl (.cons trivial rfl trivial)))))))
  exact ⟨_,rfl,shutdown_completes htime rfl rfl⟩

end Ends
end Serve
end GoRedis
