import Mathlib
/-!
# Slices of a list

The elements between two positions, windows that skip and keep, and how both behave when the
list is reversed.
-/
namespace Slices
variable {α β : Type*} {l : List α}

/-- The elements whose position lies between two integers. -/
def between (lo hi : Int) (l : List α) : List α :=
  (l.zipIdx.filter fun p => lo ≤ p.2 ∧ (p.2:Int) ≤ hi).map Prod.fst

/-- A position of a list of `n` elements; a negative one counts from the tail. -/
def position (i : Int) (n : Nat) : Int := if i < 0 then n+i else i

/-- The elements from `start` to `stop`, both included. -/
def range (start stop : Int) (l : List α) : List α :=
  between (position start l.length) (position stop l.length) l

/-- Skip `offset` elements and keep up to `count` of the others, all when it is negative. -/
def window (offset : Nat) (count : Int) (l : List α) : List α :=
  if count < 0 then l.drop offset else (l.drop offset).take count.toNat

theorem filter_zipIdx (lo hi : Int) (l : List α) (k : Nat) :
    ((l.zipIdx k).filter fun p => lo ≤ p.2 ∧ (p.2:Int) ≤ hi).map Prod.fst=
      (l.drop (lo-k).toNat).take (hi+1-max lo k).toNat := by
  induction l generalizing k with
  | nil => simp
  | cons a l ih =>
    rw [List.zipIdx_cons]
    have hcast : ((k+1:Nat):Int)=k+1 := by omega
    by_cases hlo : lo ≤ k
    · have hdrop : (lo-k).toNat=0 := by omega
      have hdrop' : (lo-(k+1)).toNat=0 := by omega
      by_cases hhi : (k:Int) ≤ hi
      · rw [List.filter_cons_of_pos (by simpa using ⟨hlo,hhi⟩),List.map_cons,ih,hcast,hdrop,hdrop',
          max_eq_right hlo,max_eq_right (by omega)]
        have htake : (hi+1-k).toNat=(hi+1-(k+1)).toNat+1 := by omega
        rw [htake,List.drop_zero,List.drop_zero,List.take_succ_cons]
      · rw [List.filter_cons_of_neg (by simp [hhi]),ih,hcast,max_eq_right hlo,
          max_eq_right (by omega)]
        have htake : (hi+1-k).toNat=0 := by omega
        have htake' : (hi+1-(k+1)).toNat=0 := by omega
        rw [htake,htake',List.take_zero,List.take_zero]
    · rw [List.filter_cons_of_neg (by simp [hlo]),ih,hcast,max_eq_left (by omega),
        max_eq_left (by omega)]
      have hdrop : (lo-k).toNat=(lo-(k+1)).toNat+1 := by omega
      rw [hdrop,List.drop_succ_cons]

theorem between_eq (lo hi : Int) (l : List α) :
    between lo hi l=(l.drop lo.toNat).take (hi+1-max lo 0).toNat := by
  have h := filter_zipIdx lo hi l 0
  simp only [Nat.cast_zero,sub_zero] at h
  exact h

theorem between_map (f : α → β) (lo hi : Int) :
    between lo hi (l.map f)=(between lo hi l).map f := by
  rw [between_eq,between_eq,List.map_take,List.map_drop]

theorem range_map (f : α → β) (start stop : Int) :
    range start stop (l.map f)=(range start stop l).map f := by
  rw [range,range,List.length_map,between_map]

/-- The first position of a range that a list of `n` elements has. -/
def first (start : Int) (n : Nat) : Int := max (position start n) 0

/-- The last position of a range that a list of `n` elements has. -/
def last (stop : Int) (n : Nat) : Int := min (position stop n) (n-1)

theorem range_eq_take (start stop : Int) (l : List α) : range start stop l=
    (l.drop (first start l.length).toNat).take
      (last stop l.length+1-first start l.length).toNat := by
  have hdrop : (position start l.length).toNat=(first start l.length).toNat := by
    unfold first
    omega
  rw [range,between_eq,hdrop,List.take_eq_take_iff,List.length_drop]
  unfold first last
  omega

theorem range_eq_nil_iff {start stop : Int} :
    range start stop l=[] ↔ last stop l.length < first start l.length := by
  rw [range_eq_take,← List.length_eq_zero_iff,List.length_take,List.length_drop]
  unfold first last
  omega

@[simp] theorem range_all (l : List α) : range 0 (-1) l=l := by
  have hfirst : first 0 l.length=0 := rfl
  have hlast : last (-1) l.length=l.length-1 := by
    unfold last position
    rw [if_pos (by decide)]
    omega
  have htake : ((l.length:Int)-1+1-0).toNat=l.length := by omega
  rw [range_eq_take,hfirst,hlast,htake]
  exact List.take_length

theorem range_self (i : Int) (l : List α) : range i i l=
    if 0 ≤ position i l.length then l[(position i l.length).toNat]?.toList else [] := by
  rw [range,between_eq]
  split_ifs with hpos
  · have hone : (position i l.length+1-max (position i l.length) 0).toNat=1 := by omega
    rw [hone,List.take_one,List.head?_drop]
  · have hzero : (position i l.length+1-max (position i l.length) 0).toNat=0 := by omega
    rw [hzero,List.take_zero]

theorem reverse_take_drop {lo k : Nat} (h : 2*lo+k=l.length) :
    ((l.drop lo).take k).reverse=(l.reverse.drop lo).take k := by
  have hlen : l.length-lo=lo+k := by omega
  rw [List.drop_reverse,List.take_reverse,List.length_take,hlen,min_eq_left (by omega),
    Nat.add_sub_cancel,List.drop_take,Nat.add_sub_cancel_left]

/-- Where no element is held twice, only a slice in the middle survives that its own order and the
order of the whole list are exchanged. -/
theorem reverse_take_drop_iff (hl : l.Nodup) {lo k : Nat} (hk : 0 < k) (hfit : lo+k ≤ l.length) :
    ((l.drop lo).take k).reverse=(l.reverse.drop lo).take k ↔ 2*lo+k=l.length := by
  refine ⟨fun h => ?_,reverse_take_drop⟩
  have hlast : ((l.drop lo).take k).reverse.head?=l[lo+(k-1)]? := by
    rw [List.head?_reverse,List.getLast?_eq_getElem?,List.getElem?_take_of_lt (by simp; omega),
      List.getElem?_drop,List.length_take,List.length_drop,min_eq_left (by omega)]
  have hfirst : ((l.reverse.drop lo).take k).head?=l[l.length-1-lo]? := by
    rw [List.head?_eq_getElem?,List.getElem?_take_of_lt hk,List.getElem?_drop,
      List.getElem?_reverse (by omega),Nat.add_zero]
  rw [h,hfirst] at hlast
  have hpos := (List.getElem?_inj (by omega) hl).mp hlast
  omega

/-- A range that has no position, or as many positions before it as behind it. -/
def Centred (start stop : Int) (n : Nat) : Prop :=
  last stop n < first start n ∨ first start n+last stop n=n-1

instance (start stop : Int) (n : Nat) : Decidable (Centred start stop n) :=
  inferInstanceAs (Decidable (_ ∨ _))

theorem reverse_range_iff (hl : l.Nodup) (start stop : Int) :
    (range start stop l).reverse=range start stop l.reverse ↔ Centred start stop l.length := by
  unfold Centred
  by_cases hempty : last stop l.length < first start l.length
  · have hempty' : last stop l.reverse.length < first start l.reverse.length := by
      rwa [List.length_reverse]
    rw [range_eq_nil_iff.mpr hempty,range_eq_nil_iff.mpr hempty']
    exact iff_of_true rfl (.inl hempty)
  · have hfirst : 0 ≤ first start l.length := le_max_right _ _
    have hlast : last stop l.length ≤ l.length-1 := min_le_right _ _
    rw [range_eq_take,range_eq_take,List.length_reverse,
      reverse_take_drop_iff hl (by omega) (by omega)]
    omega

theorem length_le_one_of_reverse_eq (hl : l.Nodup) (h : l.reverse=l) : l.length ≤ 1 := by
  by_contra hlen
  have hends : l[0]?=l[l.length-1-0]? := by
    rw [← List.getElem?_reverse (by omega),h]
  have hpos := (List.getElem?_inj (by omega) hl).mp hends
  omega

/-- How many elements a window keeps. -/
def kept (offset : Nat) (count : Int) (n : Nat) : Nat :=
  if count < 0 then n-offset else min count.toNat (n-offset)

theorem window_eq_take (offset : Nat) (count : Int) (l : List α) :
    window offset count l=(l.drop offset).take (kept offset count l.length) := by
  unfold window kept
  split_ifs with h
  · rw [List.take_of_length_le (by simp)]
  · rw [← List.length_drop,List.take_eq_take_min]

@[simp] theorem window_all (l : List α) : window 0 (-1) l=l := rfl

theorem window_succ_cons (offset : Nat) (count : Int) (a : α) (l : List α) :
    window (offset+1) count (a::l)=window offset count l := rfl

theorem window_zero_cons {count : Int} (hc : count ≠ 0) (a : α) (l : List α) :
    window 0 count (a::l)=a::window 0 (if count < 0 then count else count-1) l := by
  unfold window
  by_cases hneg : count < 0
  · simp only [if_pos hneg]
    rfl
  · have hsucc : count.toNat=(count-1).toNat+1 := by omega
    simp only [if_neg hneg]
    rw [if_neg (by omega),hsucc]
    rfl

theorem length_window (offset : Nat) (count : Int) (l : List α) :
    (window offset count l).length=kept offset count l.length := by
  rw [window_eq_take,List.length_take,List.length_drop]
  unfold kept
  split_ifs <;> omega

theorem kept_eq_zero_iff {offset : Nat} {count : Int} {n : Nat} :
    kept offset count n=0 ↔ n ≤ offset ∨ count=0 := by
  unfold kept
  split_ifs <;> omega

theorem window_eq_nil_iff {offset : Nat} {count : Int} :
    window offset count l=[] ↔ l.length ≤ offset ∨ count=0 := by
  rw [← List.length_eq_zero_iff,length_window,kept_eq_zero_iff]

/-- A window and the same window turned round are both the window of the reversed list only when
it is empty or the element in the middle. -/
theorem window_reverse_iff (hl : l.Nodup) (offset : Nat) (count : Int) :
    window offset count l=window offset count l.reverse ∧
        (window offset count l).reverse=window offset count l.reverse ↔
      l.length ≤ offset ∨ count=0 ∨ l.length=2*offset+1 ∧ (count=1 ∨ offset=0) := by
  by_cases hzero : kept offset count l.length=0
  · have hcase := kept_eq_zero_iff.mp hzero
    have hcase' : l.reverse.length ≤ offset ∨ count=0 := by rwa [List.length_reverse]
    rw [window_eq_nil_iff.mpr hcase,window_eq_nil_iff.mpr hcase']
    simp only [List.reverse_nil,and_self,true_iff]
    exact hcase.imp_right .inl
  · have hfit : offset+kept offset count l.length ≤ l.length := by
      unfold kept at hzero ⊢
      split_ifs at hzero ⊢ <;> omega
    have hmiddle : l.length=2*offset+1 → (kept offset count l.length=1 ↔ count=1 ∨ offset=0) := by
      intro hlen
      have hcount : ¬(l.length ≤ offset ∨ count=0) := fun h => hzero (kept_eq_zero_iff.mpr h)
      unfold kept
      split_ifs <;> omega
    have hturn := reverse_take_drop_iff hl (Nat.pos_of_ne_zero hzero) hfit
    rw [window_eq_take,window_eq_take,List.length_reverse,hturn]
    constructor
    · rintro ⟨hsame,hlen⟩
      have hpal : ((l.drop offset).take (kept offset count l.length)).reverse=
          (l.drop offset).take (kept offset count l.length) := (hturn.mpr hlen).trans hsame.symm
      have hnodup : ((l.drop offset).take (kept offset count l.length)).Nodup :=
        (hl.sublist (List.drop_sublist _ _)).sublist (List.take_sublist _ _)
      have hone := length_le_one_of_reverse_eq hnodup hpal
      rw [List.length_take,List.length_drop,min_eq_left (by omega)] at hone
      have hone' : kept offset count l.length=1 := by omega
      have hodd : l.length=2*offset+1 := by omega
      exact .inr (.inr ⟨hodd,(hmiddle hodd).mp hone'⟩)
    · intro h
      have hcount : ¬(l.length ≤ offset ∨ count=0) := fun h => hzero (kept_eq_zero_iff.mpr h)
      have hcase : l.length=2*offset+1 ∧ (count=1 ∨ offset=0) :=
        (or_assoc.mpr h).resolve_left hcount
      have hone := (hmiddle hcase.1).mpr hcase.2
      have hlen : 2*offset+kept offset count l.length=l.length := by omega
      refine ⟨?_,hlen⟩
      rw [← reverse_take_drop hlen,hone]
      cases (l.drop offset) <;> simp

/-- Windows of what is behind a position and of what is before another one, in a list without
repetition: both are empty, or they start at the same place and the shorter list is long enough. -/
theorem window_drop_take_iff (hl : l.Nodup) {h t offset : Nat} {count : Int} (hc : count ≠ 0)
    (ht : t ≤ l.length) :
    window offset count (l.drop h)=window offset count (l.take t) ↔
      l.length ≤ h+offset ∧ t ≤ offset ∨
        h=0 ∧ (t=l.length ∨ 0 < count ∧ offset+count ≤ t) := by
  have hleft : window offset count (l.drop h)=
      (l.drop (h+offset)).take (kept offset count (l.length-h)) := by
    rw [window_eq_take,List.drop_drop,List.length_drop]
  have hright : window offset count (l.take t)=(l.drop offset).take (kept offset count t) := by
    have hle : kept offset count t ≤ t-offset := by
      unfold kept
      split_ifs <;> omega
    rw [window_eq_take,List.length_take,min_eq_left ht,List.drop_take,List.take_take,
      min_eq_left hle]
  constructor
  · intro heq
    have hlen := congrArg List.length heq
    rw [length_window,length_window,List.length_drop,List.length_take,min_eq_left ht] at hlen
    by_cases hzero : kept offset count t=0
    · have hgone := kept_eq_zero_iff.mp (hlen.trans hzero)
      have hgone' := kept_eq_zero_iff.mp hzero
      left
      omega
    · -- both begin with an element, and it is in one place only
      have hpos : 0 < kept offset count (l.length-h) := by omega
      rw [hleft,hright] at heq
      have hhead := congrArg List.head? heq
      rw [List.head?_eq_getElem?,List.head?_eq_getElem?,List.getElem?_take_of_lt hpos,
        List.getElem?_take_of_lt (by omega),List.getElem?_drop,List.getElem?_drop] at hhead
      have hin : offset < l.length := by
        have hnot := mt kept_eq_zero_iff.mpr hzero
        omega
      have hsame := (List.getElem?_inj (by omega) hl).mp hhead.symm
      have hh : h=0 := by omega
      subst hh
      refine .inr ⟨rfl,?_⟩
      unfold kept at hlen hzero
      split_ifs at hlen hzero <;> omega
  · rintro (⟨hgone,hgone'⟩ | ⟨rfl,hlong⟩)
    · rw [window_eq_nil_iff.mpr (.inl (by rw [List.length_drop]; omega)),
        window_eq_nil_iff.mpr (.inl (by rw [List.length_take]; omega))]
    · have hkept : kept offset count (l.length-0)=kept offset count t := by
        unfold kept
        split_ifs <;> omega
      rw [hleft,hright,hkept,Nat.zero_add]

theorem window_map (f : α → β) (offset : Nat) (count : Int) (l : List α) :
    window offset count (l.map f)=(window offset count l).map f := by
  unfold window
  split_ifs
  · rw [List.map_drop]
  · rw [List.map_take,List.map_drop]

theorem findIdxs_reverse (p : α → Bool) (l : List α) :
    l.reverse.findIdxs p=((l.findIdxs p).map fun i => l.length-1-i).reverse := by
  induction l with
  | nil => rfl
  | cons a l ih =>
    have hshift : ((l.findIdxs p 1).map fun i => (a::l).length-1-i)=
        (l.findIdxs p).map fun i => l.length-1-i := by
      rw [List.findIdxs_start,List.map_map]
      apply List.map_congr_left
      intro i _
      simp only [Function.comp_apply,List.length_cons]
      omega
    rw [List.reverse_cons,List.findIdxs_append,ih,List.findIdxs_cons,List.findIdxs_cons,
      List.findIdxs_nil,List.length_reverse]
    by_cases ha : p a=true
    · rw [if_pos ha,if_pos ha,List.map_cons,List.reverse_cons,Nat.zero_add,hshift]
      simp
    · rw [if_neg ha,if_neg ha,List.append_nil,hshift]

/-- The matches among the first `k` elements, from the last to the first, and those that a scan of
the reversed list finds among its first `k`, that is among the last `k`: the same windows of both,
exactly when both windows are empty, or no match is behind the first `k` elements and none that the
window would reach is before the last `k`. -/
theorem window_mirror_iff (p : α → Bool) (k offset : Nat) {count : Int} (hc : count ≠ 0) :
    window offset count ((l.take k).findIdxs p).reverse=
        (window offset count ((l.reverse.take k).findIdxs p)).map (fun i => l.length-1-i) ↔
      (l.take k).countP p ≤ offset ∧ (l.drop (l.length-k)).countP p ≤ offset ∨
        (l.drop k).countP p=0 ∧ ((l.take (l.length-k)).countP p=0 ∨
          0 < count ∧ offset+count ≤ (l.drop (l.length-k)).countP p) := by
  have hcut : (l.take k).countP p+(l.drop k).countP p=l.countP p := by
    rw [← List.countP_append,List.take_append_drop]
  have hcut' : (l.take (l.length-k)).countP p+(l.drop (l.length-k)).countP p=l.countP p := by
    rw [← List.countP_append,List.take_append_drop]
  have hlen : (l.findIdxs p).reverse.length=l.countP p := by
    rw [List.length_reverse,List.length_findIdxs]
  have hfirst : ((l.take k).findIdxs p).reverse=
      (l.findIdxs p).reverse.drop ((l.drop k).countP p) := by
    rw [List.findIdxs_take,List.reverse_take,List.length_findIdxs,← hcut,Nat.add_sub_cancel_left]
  have htwice : ((l.findIdxs p).map fun i => l.length-1-i).map (fun i => l.length-1-i)=
      l.findIdxs p := by
    rw [List.map_map]
    apply List.map_congr_left (g := id) _ |>.trans (List.map_id _)
    intro i hi
    have hlt := List.lt_add_of_mem_findIdxs i hi
    simp only [Function.comp_apply,id]
    omega
  have hlast : (window offset count ((l.reverse.take k).findIdxs p)).map (fun i => l.length-1-i)=
      window offset count ((l.findIdxs p).reverse.take ((l.drop (l.length-k)).countP p)) := by
    have hcount : (l.reverse.take k).countP p=(l.drop (l.length-k)).countP p := by
      rw [List.take_reverse,List.countP_reverse]
    rw [← window_map,List.findIdxs_take,findIdxs_reverse,List.map_take,List.map_reverse,htwice,
      hcount]
  have hnodup : (l.findIdxs p).reverse.Nodup := List.nodup_reverse.mpr List.nodup_findIdxs
  rw [hfirst,hlast,window_drop_take_iff hnodup hc (by omega),hlen]
  omega

end Slices
