import Mathlib
/-!
# Append-only storage and crashes

A device shows everything that was written to it, but keeps for sure only what lies before its
stable mark: a crash leaves some first part of the content that reaches at least there. Where the
content is a sequence of pieces, a crash leaves the first pieces whole and a part of the next.
-/
namespace Durable
variable {β : Type*}

/-- What was written, and how much of it is stable. -/
structure Device (β : Type*) where
  content : List β
  stable : Nat
  stable_le : stable ≤ content.length

/-- A crash may leave this of the content. -/
structure Device.Leaves (d : Device β) (image : List β) : Prop where
  part : image <+: d.content
  reaches : d.stable ≤ image.length

instance [DecidableEq β] (d : Device β) (image : List β) : Decidable (d.Leaves image) :=
  decidable_of_iff (image <+: d.content ∧ d.stable ≤ image.length)
    ⟨fun h => ⟨h.1,h.2⟩,fun h => ⟨h.part,h.reaches⟩⟩

/-- The piece number `k`, if there is one, was begun with `tail` and not finished. -/
def Part (pieces : List (List β)) (k : Nat) (tail : List β) : Prop :=
  tail=[] ∨ ∃ c, pieces[k]?=some c ∧ tail <+: c ∧ tail ≠ c

variable {pieces : List (List β)} {image tail : List β} {i j k : Nat}

theorem Part.cons (h : Part pieces k tail) (c : List β) : Part (c::pieces) (k+1) tail := by
  rcases h with h | h
  · exact .inl h
  · exact .inr h

theorem Part.append (h : Part pieces k tail) (more : List (List β)) :
    Part (pieces++more) k tail := by
  rcases h with h | ⟨c,hc,hpart⟩
  · exact .inl h
  · obtain ⟨hk,_⟩ := List.getElem?_eq_some_iff.mp hc
    exact .inr ⟨c,by rw [List.getElem?_append_left hk,hc],hpart⟩

theorem prefix_pieces (h : image <+: pieces.flatten) :
    ∃ k ≤ pieces.length, ∃ tail, Part pieces k tail ∧ image=(pieces.take k).flatten++tail := by
  induction pieces generalizing image with
  | nil => exact ⟨0,le_rfl,[],.inl rfl,List.prefix_nil.mp h⟩
  | cons c pieces ih =>
    rw [List.flatten_cons] at h
    by_cases hlen : c.length ≤ image.length
    · obtain ⟨rest,rfl⟩ := List.prefix_of_prefix_length_le (List.prefix_append c _) h hlen
      obtain ⟨k,hk,tail,hpart,rfl⟩ := ih ((List.prefix_append_right_inj c).mp h)
      exact ⟨k+1,Nat.succ_le_succ hk,tail,hpart.cons c,by simp⟩
    · have hc : image <+: c :=
        List.prefix_of_prefix_length_le h (List.prefix_append c _) (by omega)
      refine ⟨0,Nat.zero_le _,image,.inr ⟨c,rfl,hc,?_⟩,by simp⟩
      rintro rfl
      exact hlen le_rfl

theorem length_take_succ {c : List β} (h : pieces[k]?=some c) :
    (pieces.take (k+1)).flatten.length=(pieces.take k).flatten.length+c.length := by
  rw [List.take_add_one,h]
  simp

theorem length_take_mono (pieces : List (List β)) (h : i ≤ j) :
    (pieces.take i).flatten.length ≤ (pieces.take j).flatten.length := by
  have hpre : pieces.take i <+: pieces.take j := List.take_prefix_take_left h
  exact hpre.flatten.length_le

section
variable (hne : ∀ c ∈ pieces, c ≠ [])
include hne

theorem Part.lt (h : Part pieces k tail) (hkj : k < j) (hj : j ≤ pieces.length) :
    ((pieces.take k).flatten++tail).length < (pieces.take j).flatten.length := by
  have hk : k < pieces.length := by omega
  have hget : pieces[k]?=some pieces[k] := List.getElem?_eq_getElem hk
  have htail : tail.length < pieces[k].length := by
    rcases h with rfl | ⟨c,hc,hpre,htc⟩
    · exact List.length_pos_iff.mpr (hne _ (List.getElem_mem hk))
    · obtain rfl : pieces[k]=c := Option.some.inj (hget.symm.trans hc)
      exact lt_of_le_of_ne hpre.length_le fun e => htc (hpre.eq_of_length e)
  have hnext := length_take_succ hget
  have hmono := length_take_mono pieces (show k+1 ≤ j from hkj)
  rw [List.length_append]
  omega

/-- A crash of a device that holds the first `k` pieces and a part of the next leaves the first
`j` of them and a part of the next. Pieces before the stable mark are all left. -/
theorem Device.Leaves.whole {d : Device β} (himage : d.Leaves image) (hk : k ≤ pieces.length)
    (hpart : Part pieces k tail) (hcontent : d.content=(pieces.take k).flatten++tail) :
    ∃ j ≤ k, ∃ tail', Part pieces j tail' ∧ image=(pieces.take j).flatten++tail' ∧
      ∀ i ≤ k, (pieces.take i).flatten.length ≤ d.stable → i ≤ j := by
  have hflat : d.content <+: pieces.flatten := by
    rw [hcontent]
    nth_rewrite 2 [← List.take_append_drop k pieces]
    rw [List.flatten_append,List.prefix_append_right_inj]
    rcases hpart with rfl | ⟨c,hc,hpre,_⟩
    · exact List.nil_prefix
    · obtain ⟨hlt,rfl⟩ := List.getElem?_eq_some_iff.mp hc
      rw [List.drop_eq_getElem_cons hlt,List.flatten_cons]
      exact hpre.trans (List.prefix_append _ _)
  obtain ⟨j,hj,tail',hpart',rfl⟩ := prefix_pieces (himage.part.trans hflat)
  refine ⟨j,?_,tail',hpart',rfl,?_⟩
  · -- more whole pieces than the device has would be longer than its content
    by_contra hlt
    have hlong := hpart.lt hne (show k < j by omega) hj
    have hshort := himage.part.length_le
    rw [hcontent] at hshort
    rw [List.length_append] at hshort
    omega
  · intro i hi hstable
    by_contra hlt
    have hlong := hpart'.lt hne (show j < i by omega) (hi.trans hk)
    have hreach := himage.reaches
    omega

end
end Durable
