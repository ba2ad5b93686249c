import Mathlib
/-!
# Machines that keep a journal

A machine answers requests one by one; every step may fail for good and otherwise appends
records to a journal. The journal is redone on another state, record by record, where the
`i`-th record may be applied differently from the others. The rules below lift what one
step does to whole runs: simulation, invariants, and what a journal cut short contains.
-/
namespace Journal
variable {S T Q R ε : Type*}

/-- Run requests from a state: the final state and the records of all steps, in order. -/
def run (step : Q → S → Except ε (S × List R)) : List Q → S → Except ε (S × List R)
  | [],s => .ok (s,[])
  | q::qs,s => match step q s with
    | .error e => .error e
    | .ok (s',rs) => match run step qs s' with
      | .error e => .error e
      | .ok (s'',log) => .ok (s'',rs++log)

/-- Redo a journal whose first record has number `i`. -/
def redo (apply : Nat → R → T → Option T) : Nat → List R → T → Option T
  | _,[],t => some t
  | i,r::rs,t => (apply i r t).bind (redo apply (i+1) rs)

/-- Every request meets a state in which `P` holds of it. -/
def Along (step : Q → S → Except ε (S × List R)) (P : Q → S → Prop) : List Q → S → Prop
  | [],_ => True
  | q::qs,s => P q s ∧ ∀ s' rs, step q s=.ok (s',rs) → Along step P qs s'

variable {step : Q → S → Except ε (S × List R)} {apply : Nat → R → T → Option T}
  {P : Q → S → Prop}

theorem run_cons {q : Q} {qs : List Q} {s s'' : S} {log : List R}
    (h : run step (q::qs) s=.ok (s'',log)) :
    ∃ s' rs log', step q s=.ok (s',rs) ∧ run step qs s'=.ok (s'',log') ∧ log=rs++log' := by
  rw [run] at h
  cases hq : step q s with
  | error e => simp [hq] at h
  | ok p =>
    obtain ⟨s',rs⟩ := p
    simp only [hq] at h
    cases hqs : run step qs s' with
    | error e => simp [hqs] at h
    | ok p' =>
      obtain ⟨u,log'⟩ := p'
      simp only [hqs,Except.ok.injEq,Prod.mk.injEq] at h
      obtain ⟨rfl,rfl⟩ := h
      exact ⟨s',rs,log',rfl,hqs,rfl⟩

theorem redo_append (i : Nat) (a b : List R) (t : T) :
    redo apply i (a++b) t=(redo apply i a t).bind (redo apply (i+a.length) b) := by
  induction a generalizing i t with
  | nil => simp [redo]
  | cons r a ih =>
    simp only [List.cons_append,redo,List.length_cons]
    cases apply i r t with
    | none => rfl
    | some t' =>
      simp only [Option.bind_some,ih]
      congr 2
      omega

/-- Where a state holds a queue and every step takes its first element into the journal, as many
steps as the queue has elements in front take these, in order. -/
theorem run_takes {α : Type*} {record : α → R} (Holds : S → List α → Prop) {qs : List Q}
    (hstep : ∀ q ∈ qs, ∀ s x xs, Holds s (x::xs) → ∃ s', step q s=.ok (s',[record x]) ∧ Holds s' xs)
    {s : S} {xs ys : List α} (hlen : qs.length=xs.length) (hs : Holds s (xs++ys)) :
    ∃ s', run step qs s=.ok (s',xs.map record) ∧ Holds s' ys := by
  induction qs generalizing s xs with
  | nil =>
    rw [List.eq_nil_of_length_eq_zero hlen.symm] at hs ⊢
    exact ⟨s,rfl,hs⟩
  | cons q qs ih =>
    cases xs with
    | nil => cases hlen
    | cons x xs =>
      obtain ⟨u,hu,hholds⟩ := hstep q List.mem_cons_self s x (xs++ys) hs
      obtain ⟨s',hrun,hs'⟩ := ih (fun q' hq' => hstep q' (List.mem_cons_of_mem _ hq'))
        (Nat.succ.inj hlen) hholds
      refine ⟨s',?_,hs'⟩
      rw [run,hu]
      simp only [hrun]
      rfl

theorem along_of_forall {P : Q → Prop} (qs : List Q) (h : ∀ q ∈ qs, P q) (s : S) :
    Along step (fun q _ => P q) qs s := by
  induction qs generalizing s with
  | nil => trivial
  | cons q qs ih =>
    exact ⟨h q List.mem_cons_self,fun s' _ _ => ih (fun x hx => h x (List.mem_cons_of_mem _ hx)) s'⟩

theorem run_invariant {I : S → Prop}
    (hstep : ∀ q s s' rs, P q s → I s → step q s=.ok (s',rs) → I s') {qs : List Q} {s s' : S}
    {log : List R} (ha : Along step P qs s) (hrun : run step qs s=.ok (s',log)) (hi : I s) :
    I s' := by
  induction qs generalizing s log with
  | nil =>
    cases hrun
    exact hi
  | cons q qs ih =>
    obtain ⟨u,rs,log',hq,hqs,_⟩ := run_cons hrun
    exact ih (ha.2 u rs hq) hqs (hstep q s u rs ha.1 hi hq)

theorem forall_log_iff {A : R → Prop} {qs : List Q} {s s' : S} {log : List R}
    (hrun : run step qs s=.ok (s',log)) :
    (∀ r ∈ log, A r) ↔ Along step (fun q u => ∀ u' rs, step q u=.ok (u',rs) → ∀ r ∈ rs, A r) qs s := by
  induction qs generalizing s log with
  | nil =>
    cases hrun
    simp [Along]
  | cons q qs ih =>
    obtain ⟨u,rs,log',hq,hqs,rfl⟩ := run_cons hrun
    have hstep : ∀ {P : S → List R → Prop}, (∀ u' rs', step q s=.ok (u',rs') → P u' rs') ↔ P u rs := by
      intro P
      rw [hq]
      exact ⟨fun h => h u rs rfl,fun h u' rs' he => by cases he; exact h⟩
    rw [List.forall_mem_append,ih hqs,Along,hstep,hstep (P := fun u' _ => Along step _ qs u')]

theorem forall_log {A : R → Prop} (hstep : ∀ q s s' rs, step q s=.ok (s',rs) → ∀ r ∈ rs, A r)
    {qs : List Q} {s s' : S} {log : List R} (hrun : run step qs s=.ok (s',log)) :
    ∀ r ∈ log, A r := by
  rw [forall_log_iff hrun]
  clear hrun
  induction qs generalizing s with
  | nil => trivial
  | cons q qs ih => exact ⟨fun u' rs => hstep q s u' rs,fun u' rs _ => ih⟩

theorem along_congr {P' : Q → S → Prop} (h : ∀ q s, P q s ↔ P' q s) (qs : List Q) (s : S) :
    Along step P qs s ↔ Along step P' qs s := by
  induction qs generalizing s with
  | nil => exact Iff.rfl
  | cons q qs ih => simp only [Along,h,ih]

/-- Simulation: if redoing the records of one step restores the relation between the machine
and the state that is rebuilt, redoing the journal of a run does. The relation may look at the
journal written so far. -/
theorem redo_run_past {Rel : List R → S → T → Prop}
    (hstep : ∀ past q s s' rs i t, P q s → step q s=.ok (s',rs) → Rel past s t →
      ∃ t', redo apply i rs t=some t' ∧ Rel (past++rs) s' t')
    {qs : List Q} {s s' : S} {log : List R} (past : List R) (i : Nat) {t : T}
    (ha : Along step P qs s)
    (hrun : run step qs s=.ok (s',log)) (hr : Rel past s t) :
    ∃ t', redo apply i log t=some t' ∧ Rel (past++log) s' t' := by
  induction qs generalizing s log past i t with
  | nil =>
    cases hrun
    exact ⟨t,rfl,by simpa using hr⟩
  | cons q qs ih =>
    obtain ⟨u,rs,log',hq,hqs,rfl⟩ := run_cons hrun
    obtain ⟨t₁,ht₁,hr₁⟩ := hstep past q s u rs i t ha.1 hq hr
    obtain ⟨t₂,ht₂,hr₂⟩ := ih (past++rs) (i+rs.length) (ha.2 u rs hq) hqs hr₁
    refine ⟨t₂,?_,by simpa using hr₂⟩
    rw [redo_append,ht₁,Option.bind_some,ht₂]

theorem redo_run {Rel : S → T → Prop}
    (hstep : ∀ q s s' rs i t, P q s → step q s=.ok (s',rs) → Rel s t →
      ∃ t', redo apply i rs t=some t' ∧ Rel s' t')
    {qs : List Q} {s s' : S} {log : List R} (i : Nat) {t : T} (ha : Along step P qs s)
    (hrun : run step qs s=.ok (s',log)) (hr : Rel s t) :
    ∃ t', redo apply i log t=some t' ∧ Rel s' t' :=
  redo_run_past (fun _ => hstep) [] i ha hrun hr

/-- Every state of a run satisfies `I` together with its journal exactly when every step meets a
condition under which, from such a state, it leads to one again. -/
theorem pasts_iff_along {I : List R → S → Prop} {C : Q → S → Prop}
    (hstep : ∀ past q s, C q s → I past s →
      ((∀ s' rs, step q s=.ok (s',rs) → I (past++rs) s') ↔ P q s))
    (qs : List Q) (past : List R) (s : S) (hc : Along step C qs s) (hs : I past s) :
    (∀ pre s' log, pre <+: qs → run step pre s=.ok (s',log) → I (past++log) s') ↔
      Along step P qs s := by
  induction qs generalizing past s with
  | nil =>
    refine ⟨fun _ => trivial,fun _ pre s' log hpre hrun => ?_⟩
    obtain rfl := List.prefix_nil.mp hpre
    cases hrun
    simpa using hs
  | cons q qs ih =>
    have hq := hstep past q s hc.1 hs
    constructor
    · intro h
      have hnext : ∀ u rs, step q s=.ok (u,rs) → I (past++rs) u := fun u rs hu =>
        h [q] u rs (by simp) (by simp [run,hu])
      refine ⟨hq.mp hnext,fun u rs hu => (ih (past++rs) u (hc.2 u rs hu) (hnext u rs hu)).mp ?_⟩
      intro pre s' log hpre hrun
      have := h (q::pre) s' (rs++log) (List.cons_prefix_cons.mpr ⟨rfl,hpre⟩)
        (by simp only [run,hu,hrun])
      rwa [List.append_assoc]
    · rintro ⟨hp,hrest⟩ pre s' log hpre hrun
      cases pre with
      | nil =>
        cases hrun
        simpa using hs
      | cons q' pre =>
        obtain ⟨rfl,hpre'⟩ := List.cons_prefix_cons.mp hpre
        obtain ⟨u,rs,log',hu,hrun',rfl⟩ := run_cons hrun
        have := (ih (past++rs) u (hc.2 u rs hu) (hq.mpr hp u rs hu)).mpr (hrest u rs hu) pre s'
          log' hpre' hrun'
        rwa [List.append_assoc] at this

theorem run_first_part {qs pre : List Q} {s s' u : S} {log log' : List R}
    (hrun : run step qs s=.ok (s',log)) (hpre : pre <+: qs) (hrun' : run step pre s=.ok (u,log')) :
    log' <+: log := by
  induction pre generalizing qs s log log' with
  | nil =>
    cases hrun'
    exact List.nil_prefix
  | cons q pre ih =>
    cases qs with
    | nil => exact absurd (List.prefix_nil.mp hpre) (by simp)
    | cons q' qs =>
      obtain ⟨rfl,hpre'⟩ := List.cons_prefix_cons.mp hpre
      obtain ⟨v,rs,l,hq,hqs,rfl⟩ := run_cons hrun
      obtain ⟨v',rs',l',hq',hqs',rfl⟩ := run_cons hrun'
      cases hq.symm.trans hq'
      exact (List.prefix_append_right_inj rs).mpr (ih hqs hpre' hqs')

theorem along_and {P' : Q → S → Prop} {qs : List Q} {s : S} (h : Along step P qs s)
    (h' : Along step P' qs s) : Along step (fun q s => P q s ∧ P' q s) qs s := by
  induction qs generalizing s with
  | nil => trivial
  | cons q qs ih => exact ⟨⟨h.1,h'.1⟩,fun s' rs hq => ih (h.2 s' rs hq) (h'.2 s' rs hq)⟩

end Journal
