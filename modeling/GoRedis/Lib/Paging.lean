import Mathlib
/-!
# Paging through a sorted list by position

A reader goes through a sorted list page by page and keeps the position of the next page. The
list may change between two pages. An element that was not reached yet stays ahead of the
position as long as nothing that stands before the position is taken out. On a list that stays as
it is the pages together are the list.
-/
namespace Paging
variable {α : Type*} (r : α → α → Prop) [DecidableRel r]

/-- The number of elements that stand before `a`. -/
def rank (l : List α) (a : α) : Nat := l.countP fun x => ¬r a x

variable {r} {l l' : List α} {a : α} {pos n : Nat}

theorem rank_lt_length [Std.Refl r] (ha : a ∈ l) : rank r l a < l.length := by
  apply List.countP_lt_length_iff.mpr
  exact ⟨a,ha,by simp [Std.Refl.refl a]⟩

theorem rank_cons_of_le [IsTrans α r] {x : α} (hl : (x::l).Pairwise r) (hx : r a x) :
    rank r (x::l) a=0 := by
  rw [rank,List.countP_eq_zero]
  intro y hy
  have hay : r a y := by
    rcases List.mem_cons.mp hy with rfl | hy
    · exact hx
    · exact IsTrans.trans a x y hx ((List.pairwise_cons.mp hl).1 y hy)
  simp [hay]

theorem rank_cons_of_lt {x : α} (hx : ¬r a x) : rank r (x::l) a=rank r l a+1 := by
  simp [rank,hx]

/-- The elements that stand before `a` come first. -/
theorem before_of_mem_take [IsTrans α r] (hl : l.Pairwise r) (hpos : pos ≤ rank r l a) :
    ∀ x ∈ l.take pos, ¬r a x := by
  induction l generalizing pos with
  | nil => simp
  | cons x l ih =>
    by_cases hx : r a x
    · rw [rank_cons_of_le hl hx] at hpos
      simp [Nat.le_zero.mp hpos]
    · rw [rank_cons_of_lt hx] at hpos
      cases pos with
      | zero => simp
      | succ pos =>
        have hrest := ih (List.pairwise_cons.mp hl).2 (Nat.le_of_succ_le_succ hpos)
        simpa [hx] using hrest

theorem getElem?_rank [Std.Refl r] [IsTrans α r] [Std.Antisymm r] (hl : l.Pairwise r) (ha : a ∈ l) :
    l[rank r l a]?=some a := by
  induction l with
  | nil => cases ha
  | cons x l ih =>
    have hcons := List.pairwise_cons.mp hl
    by_cases hx : r a x
    · have hax : a=x := by
        rcases List.mem_cons.mp ha with rfl | ha
        · rfl
        · exact Std.Antisymm.antisymm a x hx (hcons.1 a ha)
      rw [rank_cons_of_le hl hx,hax]
      rfl
    · have hal : a ∈ l := by
        rcases List.mem_cons.mp ha with rfl | ha
        · exact absurd (Std.Refl.refl a) hx
        · exact ha
      rw [rank_cons_of_lt hx]
      exact ih hcons.2 hal

theorem mem_page_or_ahead [Std.Refl r] [IsTrans α r] [Std.Antisymm r] (hl : l.Pairwise r)
    (ha : a ∈ l) (hpos : pos ≤ rank r l a) : a ∈ (l.drop pos).take n ∨ pos+n ≤ rank r l a := by
  by_cases hn : pos+n ≤ rank r l a
  · exact .inr hn
  · have hget : ((l.drop pos).take n)[rank r l a-pos]?=some a := by
      rw [List.getElem?_take,if_pos (by omega),List.getElem?_drop,
        show pos+(rank r l a-pos)=rank r l a by omega]
      exact getElem?_rank hl ha
    exact .inl (List.mem_of_getElem? hget)

theorem ahead_of_subperm [IsTrans α r] (hl : l.Pairwise r) (hpos : pos ≤ rank r l a)
    (hsub : (l.take pos).Subperm l') : pos ≤ rank r l' a := by
  have hall : rank r (l.take pos) a=(l.take pos).length := by
    rw [rank,List.countP_eq_length]
    intro x hx
    simpa using before_of_mem_take hl hpos x hx
  have hlen : (l.take pos).length=pos := by
    rw [List.length_take]
    have := List.countP_le_length (p := fun x => decide ¬r a x) (l := l)
    unfold rank at hpos
    omega
  have hle : rank r (l.take pos) a ≤ rank r l' a := hsub.countP_le _
  omega

section Reading
variable {β ε : Type*}

/-- Passes back each position that a call returns until it is 0: all that was returned, or `none`
when there are no more calls to make. -/
def readAll : List (Nat → Except ε (Nat × List β)) → Nat → Except ε (Option (List β))
  | [],_ => .ok none
  | call::calls,pos => (call pos).bind fun r =>
    if r.1=0 then .ok (some r.2) else (readAll calls r.1).map fun rest => rest.map (r.2++·)

/-- The call goes on by some number of elements and returns what `g` makes of each. Behind the
last element the next position is 0. -/
def Pages (items : List α) (g : α → List β) (call : Nat → Except ε (Nat × List β)) : Prop :=
  ∃ n, 0 < n ∧ ∀ pos, pos < items.length ∨ pos=0 →
    call pos=.ok (if items.length ≤ pos+n then 0 else pos+n,((items.drop pos).take n).flatMap g)

theorem flatMap_filter (p : α → Bool) (f : α → List β) (l : List α) :
    (l.filter p).flatMap f=l.flatMap fun x => if p x then f x else [] := by
  induction l with
  | nil => rfl
  | cons x l ih =>
    cases hx : p x with
    | false => simp [hx,ih]
    | true => simp [hx,ih]

theorem readAll_of_pages {items : List α} {g : α → List β}
    {calls : List (Nat → Except ε (Nat × List β))} (hcalls : ∀ call ∈ calls, Pages items g call)
    (hpos : pos < items.length ∨ pos=0) :
    readAll calls pos=.ok none ∧ (calls=[] ∨ pos+calls.length < items.length) ∨
      readAll calls pos=.ok (some ((items.drop pos).flatMap g)) := by
  induction calls generalizing pos with
  | nil => exact .inl ⟨rfl,.inl rfl⟩
  | cons call calls ih =>
    obtain ⟨⟨n,hn,hcall⟩,hcalls⟩ := List.forall_mem_cons.mp hcalls
    simp only [readAll,hcall pos hpos,Except.bind]
    by_cases hlast : items.length ≤ pos+n
    · have hrest : (items.drop pos).take n=items.drop pos := by
        apply List.take_of_length_le
        rw [List.length_drop]
        omega
      rw [if_pos hlast,if_pos rfl,hrest]
      exact .inr rfl
    · have hnext : pos+n ≠ 0 := by omega
      rw [if_neg hlast,if_neg hnext]
      rcases ih hcalls (.inl (Nat.lt_of_not_le hlast)) with ⟨hnone,hfew⟩ | hsome
      · rw [hnone]
        refine .inl ⟨rfl,.inr ?_⟩
        rw [List.length_cons]
        rcases hfew with rfl | hfew
        · rw [List.length_nil]
          omega
        · omega
      · have hsplit : ((items.drop pos).take n).flatMap g++(items.drop (pos+n)).flatMap g=
            (items.drop pos).flatMap g := by
          rw [← List.flatMap_append,← List.drop_drop,List.take_append_drop]
        rw [hsome,← hsplit]
        exact .inr rfl

end Reading

end Paging
