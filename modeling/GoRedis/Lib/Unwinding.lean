import GoRedis.Lib.Pool
/-!
# A group of clients on its own

Some clients of a pool form a group. If no call of the others touches what the calls of the group
depend on, the group does in every run exactly what it does in the run without the others. What
has to be known of single calls is the unwinding condition; which calls a client makes follows from
its requests.
-/
namespace Calls
variable {C : Type} {R : C → Type} {I Q L A W S B ε : Type}

theorem Prog.Always.imp {α : Type} {P P' : C → Prop} {T T' : α → Prop} {prog : Prog C R α}
    (h : prog.Always P T) (hcall : ∀ c, P c → P' c) (hret : ∀ a, T a → T' a) :
    prog.Always P' T' := by
  induction prog with
  | pure a => exact hret a h
  | call c next ih => exact ⟨hcall c h.1,fun r => ih r (h.2 r)⟩

/-- Programs that keep to some calls as long as the requests keep to some kind. -/
structure Discipline (serve : Q → L → Prog C R (A × L)) where
  requests : Q → Prop
  states : L → Prop
  calls : C → Prop
  keeps : ∀ q l, requests q → states l → (serve q l).Always calls fun r => states r.2

/-- A program of the discipline. -/
def Discipline.Obeyed {serve : Q → L → Prog C R (A × L)} (d : Discipline serve)
    (prog : Prog C R (A × L)) : Prop := prog.Always d.calls fun r => d.states r.2

/-- The client keeps to the discipline, whatever the calls still to come return. -/
def Client.Follows {serve : Q → L → Prog C R (A × L)} (d : Discipline serve) :
    Client W Q L A R → Prop
  | .idle l => d.states l
  | .busy _ _ _ c next => d.Obeyed (.call c next)

/-- States are the same for the group when its own calls cannot tell them apart and foreign calls
do not matter. -/
structure Unwinding (exec : W → (c : C) → S → Except ε (R c × S)) (background : B → S → S)
    (own foreign : C → Prop) (Same : S → S → Prop) : Prop where
  own : ∀ {w c s t r s'}, own c → Same s t → exec w c s=.ok (r,s') →
    ∃ t', exec w c t=.ok (r,t') ∧ Same s' t'
  foreign : ∀ {w c s t r s'}, foreign c → Same s t → exec w c s=.ok (r,s') → Same s' t
  background : ∀ {s t} b, Same s t → Same (background b s) (background b t)

/-- The event is one of the group, or nobody's. -/
def Event.concerns (G : I → Bool) : Event I Q W B → Bool
  | arrive i _ => G i
  | call i _ => G i
  | background _ => true

namespace Pool
variable {serve : Q → L → Prog C R (A × L)}

/-- Both pools look the same to the group, and every client keeps to its discipline. -/
structure Alike (G : I → Bool) (Same : S → S → Prop) (d d' : Discipline serve)
    (p u : Pool I W Q L A S R) : Prop where
  clients : ∀ i, G i=true → u.clients i=p.clients i
  log : ∀ i, G i=true → u.log i=p.log i
  shared : Same p.shared u.shared
  own : ∀ i, G i=true → (p.clients i).Follows d
  others : ∀ i, G i=false → (p.clients i).Follows d'

variable [DecidableEq I] {exec : W → (c : C) → S → Except ε (R c × S)} {background : B → S → S}
  {G : I → Bool} {Same : S → S → Prop} {d d' : Discipline serve} {p p' u : Pool I W Q L A S R}
  {s t : S} {i j : I} {l : L} {q : Q} {calls : List (W × Made R)} {prog : Prog C R (A × L)}

theorem follows_proceed (hprog : d.Obeyed prog) :
    ((p.proceed s i l q calls prog).clients i).Follows d := by
  cases prog with
  | pure r =>
    simp only [proceed,Function.update_self]
    exact hprog
  | call c next =>
    simp only [proceed,Function.update_self]
    exact hprog

theorem proceed_alike (hclient : u.clients j=p.clients j) (hlog : u.log j=p.log j)
    (hi : u.log i=p.log i) :
    (u.proceed t i l q calls prog).clients j=(p.proceed s i l q calls prog).clients j ∧
      (u.proceed t i l q calls prog).log j=(p.proceed s i l q calls prog).log j := by
  by_cases hj : j=i
  · subst hj
    cases prog with
    | pure r => simp [proceed,hi]
    | call c next => simp [proceed,hi]
  · rw [proceed_clients_of_ne _ _ _ _ _ _ _ hj,proceed_clients_of_ne _ _ _ _ _ _ _ hj,
      proceed_log_of_ne _ _ _ _ _ _ _ hj,proceed_log_of_ne _ _ _ _ _ _ _ hj]
    exact ⟨hclient,hlog⟩

theorem Alike.proceed_own (h : Alike G Same d d' p u) (hi : G i=true) (hst : Same s t)
    (hprog : d.Obeyed prog) :
    Alike G Same d d' (p.proceed s i l q calls prog) (u.proceed t i l q calls prog) where
  clients j hj := (proceed_alike (h.clients j hj) (h.log j hj) (h.log i hi)).1
  log j hj := (proceed_alike (h.clients j hj) (h.log j hj) (h.log i hi)).2
  shared := by
    rw [proceed_shared,proceed_shared]
    exact hst
  own j hj := by
    by_cases he : j=i
    · subst he
      exact follows_proceed hprog
    · rw [proceed_clients_of_ne _ _ _ _ _ _ _ he]
      exact h.own j hj
  others j hj := by
    have he : j ≠ i := by
      rintro rfl
      exact absurd hi (by rw [hj]; decide)
    rw [proceed_clients_of_ne _ _ _ _ _ _ _ he]
    exact h.others j hj

theorem Alike.proceed_other (h : Alike G Same d d' p u) (hi : G i=false) (hst : Same s u.shared)
    (hprog : d'.Obeyed prog) : Alike G Same d d' (p.proceed s i l q calls prog) u := by
  have hne : ∀ j, G j=true → j ≠ i := by
    rintro j hj rfl
    exact absurd hj (by rw [hi]; decide)
  constructor
  · intro j hj
    rw [proceed_clients_of_ne _ _ _ _ _ _ _ (hne j hj)]
    exact h.clients j hj
  · intro j hj
    rw [proceed_log_of_ne _ _ _ _ _ _ _ (hne j hj)]
    exact h.log j hj
  · rw [proceed_shared]
    exact hst
  · intro j hj
    rw [proceed_clients_of_ne _ _ _ _ _ _ _ (hne j hj)]
    exact h.own j hj
  · intro j hj
    by_cases he : j=i
    · subst he
      exact follows_proceed hprog
    · rw [proceed_clients_of_ne _ _ _ _ _ _ _ he]
      exact h.others j hj

theorem step_arrive (hc : p.clients i=.idle l) : step serve exec background (.arrive i q) p=
    .ok (p.proceed p.shared i l q [] (serve q l)) := by
  rw [step,hc]

theorem step_call {w : W} {c : C} {next : R c → Prog C R (A × L)} {r : R c}
    (hc : p.clients i=.busy l q calls c next) (he : exec w c p.shared=.ok (r,s)) :
    step serve exec background (.call i w) p=
      .ok (p.proceed s i l q (calls++[(w,⟨c,r⟩)]) (next r)) := by
  rw [step,hc]
  dsimp only
  rw [he]

theorem Alike.step_own {ev : Event I Q W B} (hun : Unwinding exec background d.calls d'.calls Same)
    (h : Alike G Same d d' p u) (hev : ev.concerns G=true)
    (hreq : ∀ i q, ev=.arrive i q → d.requests q) (hstep : step serve exec background ev p=.ok p') :
    ∃ u', step serve exec background ev u=.ok u' ∧ Alike G Same d d' p' u' := by
  cases ev with
  | arrive i q =>
    have hi : G i=true := hev
    have hcu := h.clients i hi
    cases hc : p.clients i with
    | idle l =>
      rw [step_arrive hc] at hstep
      cases hstep
      have hl : d.states l := by
        have := h.own i hi
        rw [hc] at this
        exact this
      refine ⟨_,step_arrive (hcu.trans hc),h.proceed_own hi h.shared ?_⟩
      exact d.keeps q l (hreq i q rfl) hl
    | busy l q' calls c next =>
      rw [step,hc] at hstep
      cases hstep
      exact ⟨u,by rw [step,hcu,hc],h⟩
  | call i w =>
    have hi : G i=true := hev
    have hcu := h.clients i hi
    cases hc : p.clients i with
    | idle l =>
      rw [step,hc] at hstep
      cases hstep
      exact ⟨u,by rw [step,hcu,hc],h⟩
    | busy l q calls c next =>
      have hfollows : d.Obeyed (.call c next) := by
        have := h.own i hi
        rw [hc] at this
        exact this
      cases he : exec w c p.shared with
      | error e =>
        rw [step,hc] at hstep
        dsimp only at hstep
        rw [he] at hstep
        cases hstep
      | ok rs =>
        obtain ⟨r,s⟩ := rs
        rw [step_call hc he] at hstep
        cases hstep
        obtain ⟨t,ht,hst⟩ := hun.own hfollows.1 h.shared he
        exact ⟨_,step_call (hcu.trans hc) ht,h.proceed_own hi hst (hfollows.2 r)⟩
  | background b =>
    cases hstep
    exact ⟨_,rfl,h.clients,h.log,hun.background b h.shared,h.own,h.others⟩

theorem Alike.step_other {ev : Event I Q W B}
    (hun : Unwinding exec background d.calls d'.calls Same) (h : Alike G Same d d' p u)
    (hev : ev.concerns G=false) (hreq : ∀ i q, ev=.arrive i q → d'.requests q)
    (hstep : step serve exec background ev p=.ok p') : Alike G Same d d' p' u := by
  cases ev with
  | arrive i q =>
    have hi : G i=false := hev
    cases hc : p.clients i with
    | idle l =>
      rw [step_arrive hc] at hstep
      cases hstep
      have hl : d'.states l := by
        have := h.others i hi
        rw [hc] at this
        exact this
      exact h.proceed_other hi h.shared (d'.keeps q l (hreq i q rfl) hl)
    | busy l q' calls c next =>
      rw [step,hc] at hstep
      cases hstep
      exact h
  | call i w =>
    have hi : G i=false := hev
    cases hc : p.clients i with
    | idle l =>
      rw [step,hc] at hstep
      cases hstep
      exact h
    | busy l q calls c next =>
      have hfollows : d'.Obeyed (.call c next) := by
        have := h.others i hi
        rw [hc] at this
        exact this
      cases he : exec w c p.shared with
      | error e =>
        rw [step,hc] at hstep
        dsimp only at hstep
        rw [he] at hstep
        cases hstep
      | ok rs =>
        obtain ⟨r,s⟩ := rs
        rw [step_call hc he] at hstep
        cases hstep
        exact h.proceed_other hi (hun.foreign hfollows.1 h.shared he) (hfollows.2 r)
  | background b => cases hev

/-- The group's part of a run is a run of its own. -/
theorem run_alone {evs : List (Event I Q W B)}
    (hun : Unwinding exec background d.calls d'.calls Same) (h : Alike G Same d d' p u)
    (hown : ∀ i q, Event.arrive i q ∈ evs → G i=true → d.requests q)
    (hothers : ∀ i q, Event.arrive i q ∈ evs → G i=false → d'.requests q)
    (hrun : Machine.run (step serve exec background) evs p=.ok p') :
    ∃ u', Machine.run (step serve exec background) (evs.filter (Event.concerns G)) u=.ok u' ∧
      Alike G Same d d' p' u' := by
  induction evs generalizing p u with
  | nil =>
    cases hrun
    exact ⟨u,rfl,h⟩
  | cons ev evs ih =>
    obtain ⟨p₁,hstep,hrun⟩ := Machine.run_cons_ok.mp hrun
    have hown' : ∀ i q, Event.arrive i q ∈ evs → G i=true → d.requests q :=
      fun i q hmem => hown i q (List.mem_cons_of_mem _ hmem)
    have hothers' : ∀ i q, Event.arrive i q ∈ evs → G i=false → d'.requests q :=
      fun i q hmem => hothers i q (List.mem_cons_of_mem _ hmem)
    cases hev : ev.concerns G with
    | true =>
      have hreq : ∀ i q, ev=.arrive i q → d.requests q := by
        rintro i q rfl
        exact hown i q List.mem_cons_self hev
      obtain ⟨u₁,hu₁,h₁⟩ := h.step_own hun hev hreq hstep
      obtain ⟨u',hu',h'⟩ := ih h₁ hown' hothers' hrun
      refine ⟨u',?_,h'⟩
      rw [List.filter_cons_of_pos hev]
      exact Machine.run_cons_ok.mpr ⟨u₁,hu₁,hu'⟩
    | false =>
      have hreq : ∀ i q, ev=.arrive i q → d'.requests q := by
        rintro i q rfl
        exact hothers i q List.mem_cons_self hev
      rw [List.filter_cons_of_neg (by rw [hev]; decide)]
      exact ih (h.step_other hun hev hreq hstep) hown' hothers' hrun

end Pool
end Calls
