import GoRedis.Lib.Pool
/-!
# Requests that could have been served one at a time

Two calls can be exchanged when the second, made first, returns the same, and so does the first
after it. If every call of a run can be exchanged with those which other clients have made for
requests still being served, the requests could have been served one at a time, in the order in
which they were answered.
-/
namespace Calls
variable {C : Type} {R : C → Type} {I Q L A W S B ε α : Type}

/-- Alone, without another client between two calls, and with the same surroundings for each. -/
def Prog.exec (exec : W → (c : C) → S → Except ε (R c × S)) (w : W) :
    Prog C R α → S → Except ε (α × S)
  | .pure a,s => .ok (a,s)
  | .call c next,s => match exec w c s with
    | .error e => .error e
    | .ok (r,s') => (next r).exec exec w s'

namespace Prog
variable {exec : W → (c : C) → S → Except ε (R c × S)} {β : Type} (w : W) (s : S)

@[simp] theorem exec_pure (a : α) : (.pure a : Prog C R α).exec exec w s=.ok (a,s) := rfl

theorem exec_bind (p : Prog C R α) (f : α → Prog C R β) :
    (p >>= f).exec exec w s=(p.exec exec w s).bind fun r => (f r.1).exec exec w r.2 := by
  induction p generalizing s with
  | pure a => rfl
  | call c next ih =>
    rw [call_bind,Prog.exec,Prog.exec]
    cases exec w c s with
    | error e => rfl
    | ok r => exact ih r.1 r.2

end Prog

/-- These calls, one right after the other, lead from one state to the other. -/
def Replay (exec : W → (c : C) → S → Except ε (R c × S)) : List (W × Made R) → S → S → Prop
  | [],s,s' => s'=s
  | (w,m)::l,s,s' => ∃ u, exec w m.1 s=.ok (m.2,u) ∧ Replay exec l u s'

/-- The second call can be made before the first. -/
def Exchanges (exec : W → (c : C) → S → Except ε (R c × S)) (c d : C) : Prop :=
  ∀ {w w' : W} {s s₁ s₂ : S} {r : R c} {r' : R d}, exec w c s=.ok (r,s₁) →
    exec w' d s₁=.ok (r',s₂) → ∃ u, exec w' d s=.ok (r',u) ∧ exec w c u=.ok (r,s₂)

section Replay
variable {exec : W → (c : C) → S → Except ε (R c × S)} {s s' t : S} {l l' : List (W × Made R)}

theorem replay_append :
    Replay exec (l++l') s s' ↔ ∃ u, Replay exec l s u ∧ Replay exec l' u s' := by
  induction l generalizing s with
  | nil => simp [Replay]
  | cons m l ih =>
    simp only [List.cons_append,Replay,ih]
    constructor
    · rintro ⟨u,hu,v,hv,h⟩
      exact ⟨v,⟨u,hu,hv⟩,h⟩
    · rintro ⟨v,⟨u,hu,hv⟩,h⟩
      exact ⟨u,hu,v,hv,h⟩

theorem Prog.exec_of_returns {p : Prog C R α} {a : α} {w : W} (hl : ∀ m ∈ l, m.1=w)
    (hret : p.Returns (l.map Prod.snd) a) (h : Replay exec l s s') :
    p.exec exec w s=.ok (a,s') := by
  induction l generalizing p s with
  | nil =>
    obtain rfl : Prog.pure a=p := hret
    obtain rfl : s'=s := h
    rfl
  | cons m l ih =>
    obtain ⟨w',c,r⟩ := m
    obtain ⟨rfl,hl⟩ := List.forall_mem_cons.mp hl
    obtain ⟨next,rfl,hret⟩ := hret
    obtain ⟨u,hu,h⟩ := h
    rw [Prog.exec,hu]
    exact ih hl hret h

theorem replay_exchange {w : W} {c : C} {r : R c} {u : S} (hc : ∀ m ∈ l, Exchanges exec c m.2.1)
    (hu : exec w c s=.ok (r,u)) (h : Replay exec l u s') :
    ∃ v, Replay exec l s v ∧ exec w c v=.ok (r,s') := by
  induction l generalizing s u with
  | nil =>
    obtain rfl : s'=u := h
    exact ⟨s,rfl,hu⟩
  | cons m l ih =>
    rw [List.forall_mem_cons] at hc
    obtain ⟨u',hm,h⟩ := h
    obtain ⟨v,hv,hu'⟩ := hc.1 hu hm
    obtain ⟨v',hv',hr⟩ := ih hc.2 hu' h
    exact ⟨v',⟨v,hv,hv'⟩,hr⟩

end Replay

section Clients
variable [DecidableEq I] {β : Type} {i j : I} {xs ys : List (I × β)}

/-- What belongs to a client. -/
def ofClient (i : I) (xs : List (I × β)) : List β := (xs.filter fun x => x.1=i).map Prod.snd

/-- What belongs to the others. -/
def ofOthers (i : I) (xs : List (I × β)) : List (I × β) := xs.filter fun x => x.1 ≠ i

theorem ofClient_append : ofClient i (xs++ys)=ofClient i xs++ofClient i ys := by
  simp [ofClient]

theorem ofClient_self (b : β) : ofClient i [(i,b)]=[b] := by simp [ofClient]

theorem ofClient_of_ne (hij : j ≠ i) (b : β) : ofClient j [(i,b)]=[] := by
  simp [ofClient,hij.symm]

theorem mem_ofClient {x : I × β} (hx : x ∈ xs) : x.2 ∈ ofClient x.1 xs :=
  List.mem_map.mpr ⟨x,List.mem_filter.mpr ⟨hx,by simp⟩,rfl⟩

theorem ofClient_ofOthers_self : ofClient i (ofOthers i xs)=[] := by
  simp [ofClient,ofOthers]

theorem ofClient_ofOthers (hij : j ≠ i) : ofClient j (ofOthers i xs)=ofClient j xs := by
  rw [ofClient,ofOthers,List.filter_filter,ofClient]
  congr 1
  apply List.filter_congr
  intro x _
  by_cases hx : x.1=j
  · simp [hx,hij]
  · simp [hx]

variable {exec : W → (c : C) → S → Except ε (R c × S)} {s s' : S}

/-- Calls of different clients can be exchanged, where they follow each other. -/
def Orderly (exec : W → (c : C) → S → Except ε (R c × S)) (xs : List (I × W × Made R)) : Prop :=
  xs.Pairwise fun x y => x.1 ≠ y.1 → Exchanges exec x.2.2.1 y.2.2.1

theorem Orderly.first {xs : List (I × W × Made R)} (ho : Orderly exec xs)
    (h : Replay exec (xs.map Prod.snd) s s') (i : I) :
    ∃ t, Replay exec (ofClient i xs) s t ∧ Replay exec ((ofOthers i xs).map Prod.snd) t s' := by
  induction xs generalizing s with
  | nil => exact ⟨s,rfl,h⟩
  | cons x xs ih =>
    obtain ⟨j,w,m⟩ := x
    obtain ⟨hx,ho⟩ := List.pairwise_cons.mp ho
    obtain ⟨u,hu,h⟩ := h
    obtain ⟨t,hmine,hothers⟩ := ih ho h
    by_cases hj : j=i
    · subst hj
      refine ⟨t,?_,?_⟩
      · rw [ofClient,List.filter_cons_of_pos (by simp)]
        exact ⟨u,hu,hmine⟩
      · rw [ofOthers,List.filter_cons_of_neg (by simp)]
        exact hothers
    · -- the call is another client's: it is made after those of the client
      have hlater : ∀ y ∈ ofClient i xs, Exchanges exec m.1 y.2.1 := by
        intro y hy
        obtain ⟨z,hz,rfl⟩ := List.mem_map.mp hy
        obtain ⟨hz,hzi⟩ := List.mem_filter.mp hz
        refine hx z hz fun hjz => hj ?_
        rw [decide_eq_true_eq] at hzi
        exact hjz.trans hzi
      obtain ⟨v,hv,hmv⟩ := replay_exchange hlater hu hmine
      refine ⟨v,?_,?_⟩
      · rw [ofClient,List.filter_cons_of_neg (by simp [hj])]
        exact hv
      · rw [ofOthers,List.filter_cons_of_pos (by simp [hj])]
        exact ⟨t,hmv,hothers⟩

end Clients

/-- The calls a client has made for the request it is serving. -/
def Client.calls : Client W Q L A R → List (W × Made R)
  | .idle _ => []
  | .busy _ _ calls _ _ => calls

namespace Pool

/-- The call that is made can be exchanged with those that other clients have made for requests
still being served. -/
def Undisturbing (exec : W → (c : C) → S → Except ε (R c × S)) (ev : Event I Q W B)
    (p : Pool I W Q L A S R) : Prop :=
  (∀ b, ev ≠ .background b) ∧ ∀ i w l q calls c next, ev=.call i w →
    p.clients i=.busy l q calls c next → ∀ j, j ≠ i → ∀ m ∈ (p.clients j).calls,
      Exchanges exec m.2.1 c

variable [DecidableEq I]

/-- The answered requests one after the other lead to `t`, and from there the calls made for the
others to the present state. -/
structure Sorted (exec : W → (c : C) → S → Except ε (R c × S)) (s₀ : S) (p : Pool I W Q L A S R)
    (xs : List (I × Exchange W Q A R)) (pending : List (I × W × Made R)) (t : S) : Prop where
  answered : Replay exec (xs.flatMap fun x => x.2.calls) s₀ t
  made : Replay exec (pending.map Prod.snd) t p.shared
  log : ∀ i, ofClient i xs=p.log i
  calls : ∀ i, ofClient i pending=(p.clients i).calls
  orderly : Orderly exec pending

variable {exec : W → (c : C) → S → Except ε (R c × S)} {serve : Q → L → Prog C R (A × L)}
  {background : B → S → S} {s₀ s t : S} {p p' : Pool I W Q L A S R}
  {xs : List (I × Exchange W Q A R)} {pending : List (I × W × Made R)} {i : I}

theorem sorted_start (l₀ : L) (s₀ : S) :
    Sorted exec s₀ (start l₀ s₀ : Pool I W Q L A S R) [] [] s₀ :=
  ⟨rfl,rfl,fun _ => rfl,fun _ => rfl,List.Pairwise.nil⟩

theorem proceed_sorted {l : L} {q : Q} {calls : List (W × Made R)}
    (hxs : Replay exec (xs.flatMap fun x => x.2.calls) s₀ t)
    (hmade : Replay exec (pending.map Prod.snd) t s) (hlog : ∀ j, ofClient j xs=p.log j)
    (hi : ofClient i pending=calls)
    (hcalls : ∀ j, j ≠ i → ofClient j pending=(p.clients j).calls) (ho : Orderly exec pending)
    (prog : Prog C R (A × L)) :
    ∃ xs' pending' t', xs <+: xs' ∧
      Sorted exec s₀ (p.proceed s i l q calls prog) xs' pending' t' := by
  cases prog with
  | call c next =>
    refine ⟨xs,pending,t,List.prefix_refl xs,hxs,hmade,hlog,fun j => ?_,ho⟩
    by_cases hj : j=i
    · subst hj
      simp only [proceed,Function.update_self]
      exact hi
    · rw [proceed_clients_of_ne _ _ _ _ _ _ _ hj]
      exact hcalls j hj
  | pure r =>
    obtain ⟨a,l'⟩ := r
    obtain ⟨t',hmine,hothers⟩ := ho.first hmade i
    rw [hi] at hmine
    refine ⟨xs++[(i,⟨q,calls,a⟩)],ofOthers i pending,t',List.prefix_append _ _,?_,hothers,
      fun j => ?_,fun j => ?_,ho.filter _⟩
    · rw [List.flatMap_append,List.flatMap_singleton]
      exact replay_append.mpr ⟨t,hxs,hmine⟩
    · rw [ofClient_append,hlog j]
      by_cases hj : j=i
      · subst hj
        rw [ofClient_self]
        simp only [proceed,Function.update_self]
      · rw [ofClient_of_ne hj,List.append_nil,proceed_log_of_ne _ _ _ _ _ _ _ hj]
    · by_cases hj : j=i
      · subst hj
        rw [ofClient_ofOthers_self]
        simp only [proceed,Function.update_self]
        rfl
      · rw [ofClient_ofOthers hj,proceed_clients_of_ne _ _ _ _ _ _ _ hj]
        exact hcalls j hj

theorem Sorted.step {ev : Event I Q W B} (h : Sorted exec s₀ p xs pending t)
    (hcond : Undisturbing exec ev p) (hstep : Steps serve exec background p ev p') :
    ∃ xs' pending' t', xs <+: xs' ∧ Sorted exec s₀ p' xs' pending' t' := by
  cases hstep with
  | still => exact ⟨xs,pending,t,List.prefix_refl xs,h⟩
  | background b => exact absurd rfl (hcond.1 b)
  | arrive i q l hc =>
    refine proceed_sorted h.answered h.made h.log ?_ (fun j _ => h.calls j) h.orderly _
    rw [h.calls i,hc]
    rfl
  | call i w hc he =>
    rename_i l q calls c next r s
    have hclear := hcond.2 i w l q calls c next rfl hc
    have hmade : Replay exec ((pending++[(i,w,Sigma.mk c r)]).map Prod.snd) t s := by
      rw [List.map_append]
      exact replay_append.mpr ⟨_,h.made,s,he,rfl⟩
    refine proceed_sorted h.answered hmade h.log ?_ ?_ ?_ _
    · rw [ofClient_append,h.calls i,hc,ofClient_self]
      rfl
    · intro j hj
      rw [ofClient_append,ofClient_of_ne hj,List.append_nil,h.calls j]
    · refine List.pairwise_append.mpr ⟨h.orderly,List.pairwise_singleton _ _,?_⟩
      intro x hx y hy hne
      obtain rfl := List.mem_singleton.mp hy
      refine hclear x.1 hne x.2 ?_
      rw [← h.calls x.1]
      exact mem_ofClient hx

/-- At every point of the run the requests answered so far come first. -/
theorem Sorted.run {evs : List (Event I Q W B)} (h : Sorted exec s₀ p xs pending t)
    (hcond : Machine.Along (Pool.step serve exec background) (Undisturbing exec) evs p)
    (hrun : Machine.run (Pool.step serve exec background) evs p=.ok p') :
    ∃ xs' pending' t', xs <+: xs' ∧ Sorted exec s₀ p' xs' pending' t' ∧
      ∀ pre u, pre <+: evs → Machine.run (Pool.step serve exec background) pre p=.ok u →
        ∃ ys, ys <+: xs' ∧ ∀ i, ofClient i ys=u.log i := by
  induction evs generalizing p xs pending t with
  | nil =>
    cases hrun
    exact ⟨xs,pending,t,List.prefix_refl xs,h,
      Machine.states_nil.mpr ⟨xs,List.prefix_refl xs,h.log⟩⟩
  | cons ev evs ih =>
    obtain ⟨v,hv,hrun⟩ := Machine.run_cons_ok.mp hrun
    obtain ⟨xs₁,pending₁,t₁,hpre₁,h₁⟩ := h.step hcond.1 (step_steps hv)
    obtain ⟨xs',pending',t',hpre',h',hstates⟩ := ih h₁ (hcond.2 v hv) hrun
    refine ⟨xs',pending',t',hpre₁.trans hpre',h',
      Machine.states_cons.mpr ⟨⟨xs,hpre₁.trans hpre',h.log⟩,fun v' hv' => ?_⟩⟩
    obtain rfl : v=v' := Except.ok.inj (hv.symm.trans hv')
    exact hstates

theorem Sorted.rest (h : Sorted exec s₀ p xs pending t)
    (hidle : ∀ i, (p.clients i).calls=[]) : p.shared=t := by
  have hnone : pending=[] := by
    by_contra hne
    obtain ⟨x,hx⟩ := List.exists_mem_of_ne_nil pending hne
    have hmem := mem_ofClient hx
    rw [h.calls,hidle] at hmem
    cases hmem
  have hmade := h.made
  rw [hnone] at hmade
  exact hmade

end Pool
end Calls
