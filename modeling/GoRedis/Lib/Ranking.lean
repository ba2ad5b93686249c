import Mathlib
/-!
# Ranks

Elements sorted by a strict total order: the list is strictly increasing, and the place of an
element is the number of elements below it.
-/
namespace Ranking
variable {α β : Type*} {r : α → α → Prop} [DecidableRel r] {l : List α}

theorem pairwise_sort [IsStrictTotalOrder α r] (hl : l.Nodup) :
    (l.insertionSort fun a b => ¬r b a).Pairwise r := by
  have htotal : Std.Total fun a b => ¬r b a := by
    refine ⟨fun a b => ?_⟩
    by_cases h : r b a
    · exact .inr (asymm h)
    · exact .inl h
  have htrans : IsTrans α fun a b => ¬r b a := by
    refine ⟨fun a b c hab hbc hca => ?_⟩
    rcases trichotomous_of r a b with h | rfl | h
    · exact hbc (trans_of r hca h)
    · exact hbc hca
    · exact hab h
  have hsorted := List.pairwise_insertionSort (fun a b => ¬r b a) l
  have hnodup : (l.insertionSort fun a b => ¬r b a).Nodup :=
    (List.perm_insertionSort _ l).nodup_iff.mpr hl
  refine (hsorted.and hnodup).imp ?_
  rintro a b ⟨hba,hne⟩
  rcases trichotomous_of r a b with h | h | h
  · exact h
  · exact absurd h hne
  · exact absurd h hba

theorem countP_lt_eq [IsStrictOrder α r] (hl : l.Pairwise r) {i : Nat} {a : α}
    (hi : l[i]?=some a) : l.countP (fun b => r b a)=i := by
  induction l generalizing i with
  | nil => simp at hi
  | cons b l ih =>
    rw [List.pairwise_cons] at hl
    cases i with
    | zero =>
      cases hi
      rw [List.countP_eq_zero]
      intro c hc
      rcases List.mem_cons.mp hc with rfl | hc
      · simpa using irrefl c
      · simpa using asymm (hl.1 c hc)
    | succ i =>
      have hb : r b a := hl.1 a (List.mem_of_getElem? hi)
      rw [List.countP_cons_of_pos (by simpa using hb),ih hl.2 hi]

theorem findIdx?_key_iff [DecidableEq β] {key : α → β} (hl : (l.map key).Nodup) {i : Nat} {b : β} :
    l.findIdx? (fun a => key a=b)=some i ↔ ∃ a, l[i]?=some a ∧ key a=b := by
  induction l generalizing i with
  | nil => simp
  | cons a l ih =>
    rw [List.map_cons,List.nodup_cons] at hl
    rw [List.findIdx?_cons]
    by_cases ha : key a=b
    · rw [if_pos (by simpa using ha)]
      cases i with
      | zero => simp [ha]
      | succ i =>
        refine iff_of_false (by simp) ?_
        rintro ⟨c,hc,hcb⟩
        have hmem : key c ∈ l.map key := List.mem_map_of_mem (List.mem_of_getElem? hc)
        rw [hcb,← ha] at hmem
        exact hl.1 hmem
    · rw [if_neg (by simpa using ha)]
      cases i with
      | zero => simp [ha]
      | succ i => simpa using ih hl.2

end Ranking
