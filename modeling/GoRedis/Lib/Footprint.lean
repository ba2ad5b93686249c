import Mathlib
/-!
# Operations that keep to a footprint

A state holds a value in each of many cells. Grafting one state onto another takes the cells
of a footprint from the first and the rest from the second. An operation is local to a
footprint when it commutes with grafting: it then reads and writes no other cell, and two
operations with disjoint footprints commute.
-/
namespace Footprint

/-- A state seen as its cells. -/
structure Cells (S I V : Type*) where
  cell : S → I → V
  ext : ∀ {s t : S}, cell s=cell t → s=t
  graft : List I → S → S → S
  graft_of_mem : ∀ {K : List I} {s t : S} {i : I}, i ∈ K → cell (graft K s t) i=cell s i
  graft_of_notMem : ∀ {K : List I} {s t : S} {i : I}, i ∉ K → cell (graft K s t) i=cell t i

namespace Cells
variable {S I V P A B : Type*} (C : Cells S I V) {K L : List I} {s t : S} {i : I}

/-- Two states hold the same in a footprint. -/
def Agree (K : List I) (s t : S) : Prop := ∀ i ∈ K, C.cell s i=C.cell t i

/-- An operation, which may fail, reads and writes the cells of `K` only. -/
def Local (K : List I) (op : S → Except P (A × S)) : Prop :=
  ∀ s t, op (C.graft K s t)=(op s).map fun r => (r.1,C.graft K r.2 t)

theorem graft_of_agree (h : C.Agree K s t) : C.graft K s t=t := by
  apply C.ext
  funext i
  by_cases hi : i ∈ K
  · rw [C.graft_of_mem hi,h i hi]
  · rw [C.graft_of_notMem hi]

variable {C} {op : S → Except P (A × S)} {op' : S → Except P (B × S)}

/-- From states that agree on the footprint the results are the same, and so is what is left
in the footprint. -/
theorem Local.agree (h : C.Local K op) (hst : C.Agree K s t) :
    op t=(op s).map fun r => (r.1,C.graft K r.2 t) := by
  have := h s t
  rwa [C.graft_of_agree hst] at this

theorem Local.frame (h : C.Local K op) {a : A} {s' : S} (hs : op s=.ok (a,s')) (hi : i ∉ K) :
    C.cell s' i=C.cell s i := by
  have hself := h.agree (fun _ _ => rfl : C.Agree K s s)
  rw [hs] at hself
  have hs' : s'=C.graft K s' s := congrArg Prod.snd (Except.ok.inj hself)
  rw [hs',C.graft_of_notMem hi]

theorem Local.commute (h : C.Local K op) (h' : C.Local L op') (hd : K.Disjoint L) {a : A} {b : B}
    {s₁ s₂ : S} (hs₁ : op s=.ok (a,s₁)) (hs₂ : op' s₁=.ok (b,s₂)) :
    ∃ s₁', op' s=.ok (b,s₁') ∧ op s₁'=.ok (a,s₂) := by
  -- the second operation does not see what the first one did
  have hL : C.Agree L s s₁ := fun i hi => (h.frame hs₁ fun hK => hd hK hi).symm
  have hfirst := h'.agree hL
  rw [hs₂] at hfirst
  cases hop : op' s with
  | error p =>
    rw [hop] at hfirst
    cases hfirst
  | ok r =>
    obtain ⟨b',s₁'⟩ := r
    rw [hop] at hfirst
    obtain ⟨rfl,hs⟩ := Prod.mk.inj (Except.ok.inj hfirst)
    refine ⟨s₁',rfl,?_⟩
    -- nor the first one what the second did
    have hK : C.Agree K s s₁' := fun i hi => (h'.frame hop fun hL => hd hi hL).symm
    rw [h.agree hK,hs₁]
    show Except.ok (a,C.graft K s₁ s₁')=_
    rw [show s₂=C.graft K s₁ s₁' from ?_]
    apply C.ext
    funext i
    rw [hs]
    dsimp only
    by_cases hiK : i ∈ K
    · rw [C.graft_of_mem hiK,C.graft_of_notMem (fun hiL => hd hiK hiL)]
    · rw [C.graft_of_notMem hiK]
      by_cases hiL : i ∈ L
      · rw [C.graft_of_mem hiL]
      · rw [C.graft_of_notMem hiL,h.frame hs₁ hiK,h'.frame hop hiL]

end Cells
end Footprint
