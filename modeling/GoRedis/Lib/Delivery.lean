import Mathlib
/-!
# Delivery to many boxes

Messages are sent one after the other, each to the box of its addressee, which may refuse it.
What a box holds in the end depends on the messages to its own addressee alone, and the number
of messages taken is the sum over the addressees.
-/
namespace Delivery
variable {A M B : Type*} (send : B → M → Bool × B)

/-- Sends the messages to one box: the number of those it takes and the box. -/
def receive : List M → B → Nat × B
  | [],b => (0,b)
  | m::ms,b => ((send b m).1.toNat+(receive ms (send b m).2).1,(receive ms (send b m).2).2)

variable [DecidableEq A]

/-- Sends each message to its addressee; the count goes up for each one that is taken. -/
def deliver : List (A × M) → Nat → (A → B) → Nat × (A → B)
  | [],count,f => (count,f)
  | (a,m)::l,count,f =>
    deliver l (if (send (f a) m).1 then count+1 else count) (Function.update f a (send (f a) m).2)

/-- The messages to one addressee, in their order. -/
def sentTo (a : A) (l : List (A × M)) : List M := (l.filter fun x => x.1=a).map Prod.snd

variable {send} {a : A} {m : M} {l : List (A × M)}

@[simp] theorem sentTo_nil : sentTo a ([] : List (A × M))=[] := rfl

theorem sentTo_cons (b : A) :
    sentTo a ((b,m)::l)=if b=a then m::sentTo a l else sentTo a l := by
  unfold sentTo
  by_cases h : b=a
  · simp [h]
  · simp [h]

@[simp] theorem sentTo_append (l' : List (A × M)) :
    sentTo a (l++l')=sentTo a l++sentTo a l' := by simp [sentTo]

theorem sentTo_eq_nil (h : ∀ x ∈ l, x.1 ≠ a) : sentTo a l=[] := by
  simp only [sentTo,List.map_eq_nil_iff,List.filter_eq_nil_iff,decide_eq_true_iff]
  exact h

theorem sentTo_broadcast {as : List A} (h : as.Nodup) :
    sentTo a (as.map fun b => (b,m))=if a ∈ as then [m] else [] := by
  induction as with
  | nil => rfl
  | cons b as ih =>
    obtain ⟨hb,has⟩ := List.nodup_cons.mp h
    rw [List.map_cons,sentTo_cons,ih has]
    by_cases hba : b=a
    · subst hba
      simp [hb]
    · have hab : ¬a=b := fun h => hba h.symm
      simp [hba,hab]

theorem deliver_apply (l : List (A × M)) (count : Nat) (f : A → B) (a : A) :
    (deliver send l count f).2 a=(receive send (sentTo a l) (f a)).2 := by
  induction l generalizing count f with
  | nil => rfl
  | cons x l ih =>
    obtain ⟨b,m⟩ := x
    rw [deliver,ih,sentTo_cons]
    by_cases hba : b=a
    · subst hba
      rw [if_pos rfl,Function.update_self,receive]
    · rw [if_neg hba,Function.update_of_ne (Ne.symm hba)]

theorem deliver_count (s : Finset A) (l : List (A × M)) (hl : ∀ x ∈ l, x.1 ∈ s) (count : Nat)
    (f : A → B) : (deliver send l count f).1=
      count+∑ a ∈ s, (receive send (sentTo a l) (f a)).1 := by
  induction l generalizing count f with
  | nil => simp [deliver,receive]
  | cons x l ih =>
    obtain ⟨b,m⟩ := x
    obtain ⟨hb,hl⟩ := List.forall_mem_cons.mp hl
    -- the addressee of the first message contributes one more if it takes it, the others the same
    have hsplit : ∀ a ∈ s, (receive send (sentTo a ((b,m)::l)) (f a)).1=
        (if a=b then (send (f b) m).1.toNat else 0)+
          (receive send (sentTo a l) (Function.update f b (send (f b) m).2 a)).1 := by
      intro a _
      rw [sentTo_cons]
      by_cases hab : a=b
      · subst hab
        rw [if_pos rfl,if_pos rfl,Function.update_self,receive]
      · rw [if_neg hab,if_neg (Ne.symm hab),Function.update_of_ne hab,zero_add]
    rw [deliver,ih hl,Finset.sum_congr rfl hsplit,Finset.sum_add_distrib,Finset.sum_ite_eq',
      if_pos hb]
    cases (send (f b) m).1 with
    | false => simp
    | true => simp [Nat.add_assoc]

theorem deliver_append (l l' : List (A × M)) (count : Nat) (f : A → B) :
    deliver send (l++l') count f=
      deliver send l' (deliver send l count f).1 (deliver send l count f).2 := by
  induction l generalizing count f with
  | nil => rfl
  | cons x l ih => exact ih _ _

end Delivery
