import GoRedis.Lib.Calls
import GoRedis.Lib.Machine
/-!
# Clients that share a service

Every client serves its requests by a program of calls. An event is the arrival of a request,
the next call of a client, or something the shared state does by itself; any order of events
is a run. What a client has done is logged, with the calls of each request in their order.
-/
namespace Calls
variable {C : Type} {R : C → Type} {I Q L A W S B ε : Type}

/-- A client between two requests, or in the middle of one: the local state from before it, the
request, the calls made so far and the next one. -/
inductive Client (W Q L A : Type) (R : C → Type)
  | idle (l : L)
  | busy (l : L) (q : Q) (calls : List (W × Made R)) (c : C) (next : R c → Prog C R (A × L))

structure Pool (I W Q L A S : Type) (R : C → Type) where
  clients : I → Client W Q L A R
  log : I → List (Exchange W Q A R)
  shared : S

/-- A request comes in, a client makes its next call, or the shared state moves by itself. -/
inductive Event (I Q W B : Type)
  | arrive (i : I) (q : Q)
  | call (i : I) (w : W)
  | background (b : B)

/-- The client whose event it is. -/
def Event.client : Event I Q W B → Option I
  | arrive i _ => some i
  | call i _ => some i
  | background _ => none

namespace Pool

/-- All clients begin in one local state. -/
def start (l : L) (s : S) : Pool I W Q L A S R := ⟨fun _ => .idle l,fun _ => [],s⟩

variable [DecidableEq I]

/-- A client has this much of its program left, and the shared state is now `s`. -/
def proceed (p : Pool I W Q L A S R) (s : S) (i : I) (l : L) (q : Q)
    (calls : List (W × Made R)) : Prog C R (A × L) → Pool I W Q L A S R
  | .pure (a,l') =>
    { clients := Function.update p.clients i (.idle l')
      log := Function.update p.log i (p.log i++[⟨q,calls,a⟩])
      shared := s }
  | .call c next =>
    { clients := Function.update p.clients i (.busy l q calls c next),log := p.log,shared := s }

section Step
variable (serve : Q → L → Prog C R (A × L)) (exec : W → (c : C) → S → Except ε (R c × S))
  (background : B → S → S)

/-- One event. A request for a busy client and a call of an idle one are no events. -/
def step : Event I Q W B → Pool I W Q L A S R → Except ε (Pool I W Q L A S R)
  | .arrive i q,p => match p.clients i with
    | .idle l => .ok (p.proceed p.shared i l q [] (serve q l))
    | .busy .. => .ok p
  | .call i w,p => match p.clients i with
    | .idle _ => .ok p
    | .busy l q calls c next => match exec w c p.shared with
      | .error e => .error e
      | .ok (r,s) => .ok (p.proceed s i l q (calls++[(w,⟨c,r⟩)]) (next r))
  | .background b,p => .ok { p with shared := background b p.shared }

end Step

section Proceed
variable (p : Pool I W Q L A S R) (s : S) (i : I) (l : L) (q : Q) (calls : List (W × Made R))
  (prog : Prog C R (A × L))

@[simp] theorem proceed_shared : (p.proceed s i l q calls prog).shared=s := by
  cases prog <;> rfl

theorem proceed_clients_of_ne {j : I} (h : j ≠ i) :
    (p.proceed s i l q calls prog).clients j=p.clients j := by
  cases prog <;> simp [proceed,h]

theorem proceed_log_of_ne {j : I} (h : j ≠ i) :
    (p.proceed s i l q calls prog).log j=p.log j := by
  cases prog <;> simp [proceed,h]

end Proceed

variable {serve : Q → L → Prog C R (A × L)} {exec : W → (c : C) → S → Except ε (R c × S)}
  {background : B → S → S}

/-- What an event does. -/
inductive Steps (serve : Q → L → Prog C R (A × L)) (exec : W → (c : C) → S → Except ε (R c × S))
    (background : B → S → S) (p : Pool I W Q L A S R) :
    Event I Q W B → Pool I W Q L A S R → Prop
  | still (ev : Event I Q W B) (hidle : ∀ i w, ev=.call i w → ∃ l, p.clients i=.idle l) :
      Steps serve exec background p ev p
  | background (b : B) :
      Steps serve exec background p (.background b) { p with shared := background b p.shared }
  | arrive (i : I) (q : Q) (l : L) (hc : p.clients i=.idle l) :
      Steps serve exec background p (.arrive i q) (p.proceed p.shared i l q [] (serve q l))
  | call (i : I) (w : W) {l : L} {q : Q} {calls : List (W × Made R)} {c : C}
      {next : R c → Prog C R (A × L)} (hc : p.clients i=.busy l q calls c next) {r : R c} {s : S}
      (he : exec w c p.shared=.ok (r,s)) : Steps serve exec background p (.call i w)
        (p.proceed s i l q (calls++[(w,⟨c,r⟩)]) (next r))

theorem step_steps {ev : Event I Q W B} {p p' : Pool I W Q L A S R}
    (h : step serve exec background ev p=.ok p') : Steps serve exec background p ev p' := by
  cases ev with
  | arrive i q =>
    rw [step] at h
    cases hc : p.clients i with
    | idle l =>
      rw [hc] at h
      cases h
      exact .arrive i q l hc
    | busy l q' calls c next =>
      rw [hc] at h
      cases h
      exact .still _ fun _ _ he => by cases he
  | call i w =>
    rw [step] at h
    cases hc : p.clients i with
    | idle l =>
      rw [hc] at h
      cases h
      refine .still _ fun _ _ he => ?_
      cases he
      exact ⟨l,hc⟩
    | busy l q calls c next =>
      rw [hc] at h
      dsimp only at h
      cases he : exec w c p.shared with
      | error e =>
        rw [he] at h
        cases h
      | ok rs =>
        rw [he] at h
        cases h
        exact .call i w hc he
  | background b =>
    cases h
    exact .background b

theorem Steps.other {ev : Event I Q W B} {p p' : Pool I W Q L A S R}
    (h : Steps serve exec background p ev p') {i : I} (hi : ev.client ≠ some i) :
    p'.clients i=p.clients i ∧ p'.log i=p.log i := by
  cases h with
  | still => exact ⟨rfl,rfl⟩
  | background => exact ⟨rfl,rfl⟩
  | arrive j q l hc =>
    have hne : i ≠ j := fun e => hi (by rw [e]; rfl)
    exact ⟨proceed_clients_of_ne _ _ _ _ _ _ _ hne,proceed_log_of_ne _ _ _ _ _ _ _ hne⟩
  | call j w hc he =>
    have hne : i ≠ j := fun e => hi (by rw [e]; rfl)
    exact ⟨proceed_clients_of_ne _ _ _ _ _ _ _ hne,proceed_log_of_ne _ _ _ _ _ _ _ hne⟩

theorem Steps.log {ev : Event I Q W B} {p p' : Pool I W Q L A S R}
    (h : Steps serve exec background p ev p') (i : I) :
    p'.log i=p.log i ∨ ∃ x, p'.log i=p.log i++[x] := by
  have hproceed : ∀ (s : S) (j : I) (l : L) (q : Q) (calls : List (W × Made R)) prog,
      (p.proceed s j l q calls prog).log i=p.log i ∨
        ∃ x, (p.proceed s j l q calls prog).log i=p.log i++[x] := by
    intro s j l q calls prog
    by_cases hj : i=j
    · subst hj
      cases prog with
      | pure r => exact .inr ⟨_,Function.update_self ..⟩
      | call c next => exact .inl rfl
    · exact .inl (proceed_log_of_ne _ _ _ _ _ _ _ hj)
  cases h with
  | still => exact .inl rfl
  | background => exact .inl rfl
  | arrive j q l hc => exact hproceed ..
  | call j w hc he => exact hproceed ..

theorem Steps.log_grows {ev : Event I Q W B} {p p' : Pool I W Q L A S R}
    (h : Steps serve exec background p ev p') (i : I) : p.log i <+: p'.log i := by
  rcases h.log i with h | ⟨x,h⟩ <;> simp [h]

theorem run_log_grows {evs : List (Event I Q W B)} {p p' : Pool I W Q L A S R}
    (h : Machine.run (step serve exec background) evs p=.ok p') (i : I) : p.log i <+: p'.log i := by
  induction evs generalizing p with
  | nil =>
    cases h
    exact List.prefix_refl _
  | cons ev evs ih =>
    obtain ⟨u,hu,h⟩ := Machine.run_cons_ok.mp h
    exact ((step_steps hu).log_grows i).trans (ih h)

theorem Steps.busy {ev : Event I Q W B} {p p' : Pool I W Q L A S R}
    (h : Steps serve exec background p ev p') {i : I} {l : L} {q : Q} {calls : List (W × Made R)}
    {c : C} {next : R c → Prog C R (A × L)} (hi : p.clients i=.busy l q calls c next)
    (hlog : p'.log i=p.log i) :
    ∃ calls' c' next', p'.clients i=.busy l q (calls++calls') c' next' := by
  by_cases hev : ev.client=some i
  · cases h with
    | still => exact ⟨[],c,next,by rw [List.append_nil,hi]⟩
    | background => exact ⟨[],c,next,by rw [List.append_nil]; exact hi⟩
    | arrive j q' l' hc =>
      obtain rfl : j=i := Option.some.inj hev
      rw [hi] at hc
      cases hc
    | call j w hc he =>
      obtain rfl : j=i := Option.some.inj hev
      rw [hi] at hc
      cases hc
      rename_i s r
      generalize next r=prog at hlog ⊢
      cases prog with
      | pure r' => simp [proceed] at hlog
      | call c' next' => exact ⟨_,c',next',Function.update_self ..⟩
  · exact ⟨[],c,next,by rw [List.append_nil,(h.other hev).1,hi]⟩

theorem run_busy {evs : List (Event I Q W B)} {p p' : Pool I W Q L A S R}
    (h : Machine.run (step serve exec background) evs p=.ok p') {i : I} {l : L} {q : Q}
    {calls : List (W × Made R)} {c : C} {next : R c → Prog C R (A × L)}
    (hi : p.clients i=.busy l q calls c next) (hlog : p'.log i=p.log i) :
    ∃ calls' c' next', p'.clients i=.busy l q (calls++calls') c' next' := by
  induction evs generalizing p calls c next with
  | nil =>
    cases h
    exact ⟨[],c,next,by rw [List.append_nil,hi]⟩
  | cons ev evs ih =>
    obtain ⟨u,hu,h⟩ := Machine.run_cons_ok.mp h
    have hlogu : u.log i=p.log i := by
      have hup := run_log_grows h i
      rw [hlog] at hup
      exact hup.eq_of_length_le ((step_steps hu).log_grows i).length_le
    obtain ⟨calls₁,c₁,next₁,hi₁⟩ := (step_steps hu).busy hi hlogu
    obtain ⟨calls₂,c₂,next₂,hi₂⟩ := ih h hi₁ (hlog.trans hlogu.symm)
    exact ⟨calls₁++calls₂,c₂,next₂,by rw [← List.append_assoc,hi₂]⟩

end Pool

/-- The client is where the local state and the program for its request say. -/
def Client.At (serve : Q → L → Prog C R (A × L)) (l : L) : Client W Q L A R → Prop
  | .idle l' => l'=l
  | .busy l' q calls c next => l'=l ∧ (serve q l).Makes (calls.map Prod.snd) (.call c next)

namespace Pool

/-- The log of every client is a session that leads to where the client is. -/
def Consistent (serve : Q → L → Prog C R (A × L)) (l₀ : L) (p : Pool I W Q L A S R) : Prop :=
  ∀ i, ∃ l, Session serve l₀ (p.log i) l ∧ (p.clients i).At serve l

theorem start_consistent (serve : Q → L → Prog C R (A × L)) (l₀ : L) (s : S) :
    (start l₀ s : Pool I W Q L A S R).Consistent serve l₀ :=
  fun _ => ⟨l₀,.nil l₀,rfl⟩

variable [DecidableEq I] {serve : Q → L → Prog C R (A × L)}
  {exec : W → (c : C) → S → Except ε (R c × S)} {background : B → S → S} {l₀ : L}

theorem proceed_consistent {p : Pool I W Q L A S R} (hp : p.Consistent serve l₀) {s : S} {i : I}
    {l : L} {q : Q} {calls : List (W × Made R)} {prog : Prog C R (A × L)}
    (hlog : Session serve l₀ (p.log i) l) (hprog : (serve q l).Makes (calls.map Prod.snd) prog) :
    (p.proceed s i l q calls prog).Consistent serve l₀ := by
  intro j
  by_cases hj : j=i
  · subst hj
    cases prog with
    | pure r =>
      obtain ⟨a,l'⟩ := r
      refine ⟨l',?_,?_⟩
      · simp only [proceed,Function.update_self]
        exact hlog.append (.cons hprog (.nil _))
      · simp only [proceed,Function.update_self]
        rfl
    | call c next =>
      refine ⟨l,hlog,?_⟩
      simp only [proceed,Function.update_self]
      exact ⟨rfl,hprog⟩
  · rw [proceed_log_of_ne _ _ _ _ _ _ _ hj,proceed_clients_of_ne _ _ _ _ _ _ _ hj]
    exact hp j

theorem Steps.consistent {ev : Event I Q W B} {p p' : Pool I W Q L A S R}
    (h : Steps serve exec background p ev p') (hp : p.Consistent serve l₀) :
    p'.Consistent serve l₀ := by
  cases h with
  | still => exact hp
  | background => exact hp
  | arrive i q l hc =>
    obtain ⟨l',hlog,hat⟩ := hp i
    rw [hc] at hat
    obtain rfl : l=l' := hat
    exact proceed_consistent hp hlog rfl
  | call i w hc he =>
    obtain ⟨l',hlog,hat⟩ := hp i
    rw [hc] at hat
    obtain ⟨rfl,hmakes⟩ := hat
    refine proceed_consistent hp hlog ?_
    rw [List.map_append]
    exact hmakes.snoc _

theorem run_consistent {evs : List (Event I Q W B)} {p p' : Pool I W Q L A S R}
    (h : Machine.run (step serve exec background) evs p=.ok p') (hp : p.Consistent serve l₀) :
    p'.Consistent serve l₀ :=
  Machine.run_invariant (fun _ _ _ hp hstep => (step_steps hstep).consistent hp) h hp

end Pool
end Calls
