import Mathlib
/-!
# Requests in two steps

Clients work through their requests one after the other. A request is executed in one step and
logged in a later one, and between the two any other client may step. A schedule says whose
step is next; what comes of it is the order of execution and the order of the log.
-/
namespace TwoPhase
variable {I Q : Type*}

structure State (I Q : Type*) where
  todo : I → List Q
  owed : I → List Q
  executed : List Q
  logged : List Q

/-- Clients with requests to send. -/
def start (todo : I → List Q) : State I Q := ⟨todo,fun _ => [],[],[]⟩

/-- All requests are executed and logged. -/
def Finished (st : State I Q) : Prop := ∀ i, st.todo i=[] ∧ st.owed i=[]

variable [DecidableEq I]

/-- The next step of a client: it logs what it owes, or executes its next request. -/
def step (st : State I Q) (i : I) : State I Q :=
  match st.owed i with
  | q::qs => { st with owed := Function.update st.owed i qs,logged := st.logged++[q] }
  | [] => match st.todo i with
    | [] => st
    | q::qs =>
      { st with
        todo := Function.update st.todo i qs
        owed := Function.update st.owed i [q]
        executed := st.executed++[q] }

def run (schedule : List I) (st : State I Q) : State I Q := schedule.foldl step st

/-- What is executed is logged, or one of `debts`, in the order of each client. -/
structure Accounted (st : State I Q) (debts : List (I × Q)) : Prop where
  owed : ∀ i, st.owed i=(debts.filter fun o => o.1=i).map Prod.snd
  perm : (st.logged++debts.map Prod.snd).Perm st.executed

theorem Accounted.log {st : State I Q} {debts : List (I × Q)} (h : Accounted st debts) {i : I}
    {q : Q} {qs : List Q} (hq : st.owed i=q::qs) : ∃ debts', Accounted
      { st with owed := Function.update st.owed i qs,logged := st.logged++[q] } debts' := by
  rw [h.owed i] at hq
  obtain ⟨⟨i',_⟩,os,hfilter,rfl,rfl⟩ := List.map_eq_cons_iff.mp hq
  obtain ⟨l₁,l₂,rfl,hl₁,hi,hl₂⟩ := List.filter_eq_cons_iff.mp hfilter
  obtain rfl : i'=i := of_decide_eq_true hi
  refine ⟨l₁++l₂,fun j => ?_,?_⟩
  · have hj := h.owed j
    by_cases hji : j=i'
    · subst hji
      simp [List.filter_append,hl₂,List.filter_eq_nil_iff.mpr hl₁]
    · have hij : i' ≠ j := fun e => hji e.symm
      simpa [hji,hij,List.filter_append] using hj
  · refine List.Perm.trans ?_ h.perm
    simp only [List.map_append,List.map_cons,List.append_assoc,List.singleton_append]
    exact List.perm_middle.symm.append_left st.logged

theorem Accounted.exec {st : State I Q} {debts : List (I × Q)} (h : Accounted st debts) {i : I}
    (hi : st.owed i=[]) (q : Q) (qs : List Q) : Accounted
      { st with
        todo := Function.update st.todo i qs
        owed := Function.update st.owed i [q]
        executed := st.executed++[q] } (debts++[(i,q)]) := by
  refine ⟨fun j => ?_,?_⟩
  · have hj := h.owed j
    by_cases hji : j=i
    · subst hji
      rw [hi] at hj
      simp [List.filter_append,← hj]
    · have hij : i ≠ j := fun e => hji e.symm
      simpa [hji,hij,List.filter_append] using hj
  · simpa only [List.map_append,List.map_cons,List.map_nil,← List.append_assoc] using
      h.perm.append_right [q]

theorem step_accounted {st : State I Q} (h : ∃ debts, Accounted st debts) (i : I) :
    ∃ debts, Accounted (step st i) debts := by
  obtain ⟨debts,h⟩ := h
  unfold step
  split
  · exact h.log ‹_›
  · split
    · exact ⟨debts,h⟩
    · exact ⟨_,h.exec ‹_› _ _⟩

theorem run_accounted (schedule : List I) {st : State I Q} (h : ∃ debts, Accounted st debts) :
    ∃ debts, Accounted (run schedule st) debts := by
  induction schedule generalizing st with
  | nil => exact h
  | cons i schedule ih => exact ih (step_accounted h i)

theorem logged_perm_executed (schedule : List I) (todo : I → List Q)
    (hdone : Finished (run schedule (start todo))) :
    (run schedule (start todo)).logged.Perm (run schedule (start todo)).executed := by
  have hstart : ∃ debts, Accounted (start todo) debts := ⟨[],fun _ => rfl,.nil⟩
  obtain ⟨debts,h⟩ := run_accounted schedule hstart
  cases debts with
  | nil => simpa using h.perm
  | cons o debts =>
    have ho := h.owed o.1
    rw [(hdone o.1).2] at ho
    simp at ho

end TwoPhase
