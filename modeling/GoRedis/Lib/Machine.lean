import Mathlib
/-!
# Deterministic machines

A step takes a request in a state to the next state or fails for good. What is proved of one
step is lifted to every state a run goes through.
-/
namespace Machine
variable {S Q ε : Type*}

/-- Run requests one after the other. -/
def run (step : Q → S → Except ε S) : List Q → S → Except ε S
  | [],s => .ok s
  | q::qs,s => match step q s with
    | .error e => .error e
    | .ok s' => run step qs s'

/-- A step to `s'` that can only be taken under `p`. -/
def guarded (p : Prop) [Decidable p] (s' : S) : Except Unit S := if p then .ok s' else .error ()

theorem guarded_ok {p : Prop} [Decidable p] {s' u : S} : guarded p s'=.ok u ↔ p ∧ s'=u := by
  unfold guarded
  split_ifs with hp
  · simp [hp]
  · simp [hp]

/-- Every request meets a state in which `P` holds of it. -/
def Along (step : Q → S → Except ε S) (P : Q → S → Prop) : List Q → S → Prop
  | [],_ => True
  | q::qs,s => P q s ∧ ∀ s', step q s=.ok s' → Along step P qs s'

variable {step : Q → S → Except ε S} {P : Q → S → Prop} {I : S → Prop}

theorem run_cons_ok {q : Q} {qs : List Q} {s s' : S} :
    run step (q::qs) s=.ok s' ↔ ∃ u, step q s=.ok u ∧ run step qs u=.ok s' := by
  rw [run]
  cases step q s <;> simp

theorem run_append_ok {qs qs' : List Q} {s s' : S} :
    run step (qs++qs') s=.ok s' ↔ ∃ u, run step qs s=.ok u ∧ run step qs' u=.ok s' := by
  induction qs generalizing s with
  | nil => simp [run]
  | cons q qs ih =>
    simp only [List.cons_append,run_cons_ok,ih]
    constructor
    · rintro ⟨u,hu,v,hv,hs⟩
      exact ⟨v,⟨u,hu,hv⟩,hs⟩
    · rintro ⟨v,⟨u,hu,hv⟩,hs⟩
      exact ⟨u,hu,v,hv,hs⟩

theorem Along.cons {q : Q} {qs : List Q} {s u : S} (hq : P q s) (hu : step q s=.ok u)
    (h : Along step P qs u) : Along step P (q::qs) s := by
  refine ⟨hq,fun u' hu' => ?_⟩
  obtain rfl : u=u' := Except.ok.inj (hu.symm.trans hu')
  exact h

theorem Along.append {qs qs' : List Q} {s u : S} (h : Along step P (qs++qs') s)
    (hu : run step qs s=.ok u) : Along step P qs s ∧ Along step P qs' u := by
  induction qs generalizing s with
  | nil =>
    cases hu
    exact ⟨trivial,h⟩
  | cons q qs ih =>
    obtain ⟨v,hv,hu⟩ := run_cons_ok.mp hu
    refine ⟨⟨h.1,fun v' hv' => ?_⟩,(ih (h.2 v hv) hu).2⟩
    obtain rfl : v=v' := Except.ok.inj (hv.symm.trans hv')
    exact (ih (h.2 v hv) hu).1

theorem Along.initial {qs qs' : List Q} {s : S} (h : Along step P qs s) (hpre : qs' <+: qs) :
    Along step P qs' s := by
  induction qs' generalizing qs s with
  | nil => trivial
  | cons q qs' ih =>
    obtain ⟨rest,rfl⟩ := hpre
    exact ⟨h.1,fun u hu => ih (h.2 u hu) (List.prefix_append _ _)⟩

theorem Along.mono {P' : Q → S → Prop} {qs : List Q} {s : S} (h : Along step P qs s)
    (himp : ∀ q s, P q s → P' q s) : Along step P' qs s := by
  induction qs generalizing s with
  | nil => trivial
  | cons q qs ih => exact ⟨himp q s h.1,fun u hu => ih (h.2 u hu)⟩

theorem run_invariant (hstep : ∀ q s s', I s → step q s=.ok s' → I s') {qs : List Q} {s s' : S}
    (hrun : run step qs s=.ok s') (hs : I s) : I s' := by
  induction qs generalizing s with
  | nil =>
    cases hrun
    exact hs
  | cons q qs ih =>
    obtain ⟨u,hu,hrun⟩ := run_cons_ok.mp hrun
    exact ih hrun (hstep q s u hs hu)

theorem states_cons {q : Q} {qs : List Q} {s : S} :
    (∀ pre u, pre <+: q::qs → run step pre s=.ok u → I u) ↔
      I s ∧ ∀ s', step q s=.ok s' → ∀ pre u, pre <+: qs → run step pre s'=.ok u → I u := by
  constructor
  · intro h
    refine ⟨h [] s List.nil_prefix rfl,fun s' hs' pre u hpre hu => ?_⟩
    exact h (q::pre) u (List.cons_prefix_cons.mpr ⟨rfl,hpre⟩) (run_cons_ok.mpr ⟨s',hs',hu⟩)
  · rintro ⟨hs,hrest⟩ pre u hpre hu
    cases pre with
    | nil =>
      cases hu
      exact hs
    | cons q' pre =>
      obtain ⟨rfl,hpre'⟩ := List.cons_prefix_cons.mp hpre
      obtain ⟨s',hs',hu⟩ := run_cons_ok.mp hu
      exact hrest s' hs' pre u hpre' hu

theorem states_nil {s : S} : (∀ pre u, pre <+: [] → run step pre s=.ok u → I u) ↔ I s := by
  constructor
  · intro h
    exact h [] s (List.prefix_refl []) rfl
  · intro hs pre u hpre hu
    obtain rfl := List.prefix_nil.mp hpre
    cases hu
    exact hs

/-- What holds in every state of a run holds before and after each of its steps. -/
theorem along_of_states {qs : List Q} {s : S}
    (h : ∀ pre u, pre <+: qs → run step pre s=.ok u → I u) :
    Along step (fun q u => I u ∧ ∀ u', step q u=.ok u' → I u') qs s := by
  induction qs generalizing s with
  | nil => trivial
  | cons q qs ih =>
    obtain ⟨hs,hrest⟩ := states_cons.mp h
    exact ⟨⟨hs,fun u hu => hrest u hu [] u List.nil_prefix rfl⟩,fun u hu => ih (hrest u hu)⟩

theorem along_of_mem {P : Q → Prop} {qs : List Q} (h : ∀ q ∈ qs, P q) (s : S) :
    Along step (fun q _ => P q) qs s := by
  induction qs generalizing s with
  | nil => trivial
  | cons q qs ih =>
    rw [List.forall_mem_cons] at h
    exact ⟨h.1,fun u _ => ih h.2 u⟩

theorem Along.and {P' : Q → S → Prop} {qs : List Q} {s : S} (h : Along step P qs s)
    (h' : Along step P' qs s) : Along step (fun q u => P q u ∧ P' q u) qs s := by
  induction qs generalizing s with
  | nil => trivial
  | cons q qs ih => exact ⟨⟨h.1,h'.1⟩,fun u hu => ih (h.2 u hu) (h'.2 u hu)⟩

/-- A step that meets its condition keeps the invariant, and so does a run of such steps. -/
theorem Along.invariant (hstep : ∀ q s s', I s → P q s → step q s=.ok s' → I s') {qs : List Q}
    {s s' : S} (h : Along step P qs s) (hrun : run step qs s=.ok s') (hs : I s) : I s' := by
  induction qs generalizing s with
  | nil =>
    cases hrun
    exact hs
  | cons q qs ih =>
    obtain ⟨u,hu,hrun⟩ := run_cons_ok.mp hrun
    exact ih (h.2 u hu) hrun (hstep q s u hs h.1 hu)

/-- A measure that every step lowers by at least the cost of its request bounds the cost of a
run. -/
theorem run_measure {cost : Q → Nat} {measure : S → Nat}
    (hstep : ∀ q s s', I s → step q s=.ok s' → I s' ∧ measure s'+cost q ≤ measure s) {qs : List Q}
    {s s' : S} (hrun : run step qs s=.ok s') (hs : I s) :
    measure s'+(qs.map cost).sum ≤ measure s := by
  induction qs generalizing s with
  | nil =>
    cases hrun
    exact le_rfl
  | cons q qs ih =>
    obtain ⟨u,hu,hrun⟩ := run_cons_ok.mp hrun
    obtain ⟨hI,hle⟩ := hstep q s u hs hu
    have := ih hrun hI
    rw [List.map_cons,List.sum_cons]
    omega

/-- All states of a run satisfy `I` exactly when every step meets a condition under which,
from a state satisfying `I`, it leads to such a state again. -/
theorem states_iff_along (hstep : ∀ q s, I s → ((∀ s', step q s=.ok s' → I s') ↔ P q s))
    (qs : List Q) (s : S) (hs : I s) :
    (∀ pre s', pre <+: qs → run step pre s=.ok s' → I s') ↔ Along step P qs s := by
  induction qs generalizing s with
  | nil => exact states_nil.trans (iff_of_true hs trivial)
  | cons q qs ih =>
    rw [states_cons]
    constructor
    · rintro ⟨_,hrest⟩
      have hnext : ∀ u, step q s=.ok u → I u := fun u hu => hrest u hu [] u List.nil_prefix rfl
      exact ⟨(hstep q s hs).mp hnext,fun u hu => (ih u (hnext u hu)).mp (hrest u hu)⟩
    · rintro ⟨hp,hrest⟩
      exact ⟨hs,fun u hu => (ih u ((hstep _ s hs).mpr hp u hu)).mpr (hrest u hu)⟩

end Machine
