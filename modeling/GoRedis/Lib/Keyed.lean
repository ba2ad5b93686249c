import Mathlib
/-!
# Updates at keys

A fold whose every step rewrites the entry of one key. What it leaves at a key is the fold of
the updates at that key. Values gathered at a key are combined in the order they come, and in any
other where the operation allows it.
-/
namespace Keyed
variable {M K V X : Type*} [DecidableEq K] {get : M → K → V} {step : M → X → M} {key : X → K}
  {upd : V → X → V}

/-- Every step rewrites the entry of its key and no other. -/
def Updates (get : M → K → V) (key : X → K) (upd : V → X → V) (step : M → X → M) : Prop :=
  ∀ m x k, get (step m x) k=if key x=k then upd (get m k) x else get m k

theorem Updates.get_foldl (h : Updates get key upd step) (xs : List X) (m : M) (k : K) :
    get (xs.foldl step m) k=(xs.filter fun x => key x=k).foldl upd (get m k) := by
  induction xs generalizing m with
  | nil => rfl
  | cons x xs ih =>
    rw [List.foldl_cons,ih,h]
    by_cases hk : key x=k
    · rw [if_pos hk,List.filter_cons_of_pos (by simpa using hk),List.foldl_cons]
    · rw [if_neg hk,List.filter_cons_of_neg (by simpa using hk)]

theorem Updates.get_foldl_of_notMem (h : Updates get key upd step) {xs : List X} {k : K}
    (hk : k ∉ xs.map key) (m : M) : get (xs.foldl step m) k=get m k := by
  have hnone : (xs.filter fun x => key x=k)=[] := by
    rw [List.filter_eq_nil_iff]
    intro x hx hkey
    exact hk (List.mem_map.mpr ⟨x,hx,by simpa using hkey⟩)
  rw [h.get_foldl,hnone]
  rfl

theorem filter_key_eq {xs : List X} (hd : (xs.map key).Nodup) {x : X} (hx : x ∈ xs) :
    (xs.filter fun y => key y=key x)=[x] := by
  induction xs with
  | nil => cases hx
  | cons y xs ih =>
    rw [List.map_cons,List.nodup_cons] at hd
    rcases List.mem_cons.mp hx with rfl | hx
    · rw [List.filter_cons_of_pos (by simp),List.cons.injEq]
      refine ⟨rfl,List.filter_eq_nil_iff.mpr fun z hz hkey => hd.1 ?_⟩
      exact List.mem_map.mpr ⟨z,hz,by simpa using hkey⟩
    · have hne : key y ≠ key x := fun h => hd.1 (List.mem_map.mpr ⟨x,hx,h.symm⟩)
      rw [List.filter_cons_of_neg (by simpa using hne),ih hd.2 hx]

/-- A counter that goes up with every step that changes the entry of its key has counted, where
the keys differ, the keys whose entry the whole fold has changed. -/
theorem Updates.count_foldl [DecidableEq V] (h : Updates get key upd step) (count : M → Int)
    (hcount : ∀ m x, count (step m x)=count m+if upd (get m (key x)) x=get m (key x) then 0 else 1)
    {xs : List X} (hd : (xs.map key).Nodup) (m : M) :
    count (xs.foldl step m)=
      count m+(xs.countP fun x => get (xs.foldl step m) (key x) ≠ get m (key x)) := by
  induction xs generalizing m with
  | nil => simp
  | cons x xs ih =>
    rw [List.map_cons,List.nodup_cons] at hd
    have hself : get (xs.foldl step (step m x)) (key x)=upd (get m (key x)) x := by
      rw [h.get_foldl_of_notMem hd.1,h,if_pos rfl]
    have hrest : ∀ y ∈ xs, get (step m x) (key y)=get m (key y) := by
      intro y hy
      have hne : key x ≠ key y := fun hkey => hd.1 (List.mem_map.mpr ⟨y,hy,hkey.symm⟩)
      rw [h,if_neg hne]
    have hcongr :
        (xs.countP fun y => get (xs.foldl step (step m x)) (key y) ≠ get (step m x) (key y))=
        xs.countP fun y => get (xs.foldl step (step m x)) (key y) ≠ get m (key y) := by
      apply List.countP_congr
      intro y hy
      rw [hrest y hy]
    rw [List.foldl_cons,ih hd.2,hcount,hcongr,List.countP_cons,hself]
    split_ifs with hsame hne
    · exact absurd hsame (by simpa using hne)
    · simp
    · push_cast
      omega
    · rename_i hne
      simp [hsame] at hne

section Gather
variable {W : Type*} {f : W → W → W} {l l' : List W}

/-- Take in one more value; the first one is taken as it is. -/
def gather (f : W → W → W) (acc : Option W) (v : W) : Option W := some (acc.elim v fun c => f c v)

theorem foldl_gather_some (f : W → W → W) (c : W) (l : List W) :
    l.foldl (gather f) (some c)=some (l.foldl f c) := by
  induction l generalizing c with
  | nil => rfl
  | cons v l ih => exact ih (f c v)

theorem foldl_gather_perm (hcomm : ∀ a b, f a b=f b a) (hassoc : ∀ a b c, f (f a b) c=f a (f b c))
    (h : l.Perm l') (acc : Option W) : l.foldl (gather f) acc=l'.foldl (gather f) acc := by
  refine h.foldl_eq' (fun u _ v _ c => ?_) acc
  cases c with
  | none => exact congrArg some (hcomm u v)
  | some c =>
    have hswap : f (f c u) v=f (f c v) u := by rw [hassoc,hcomm u v,← hassoc]
    exact congrArg some hswap

end Gather

section Weights
variable {R : Type*} [CommSemiring R] {A B : List (K × R)}

/-- The sum of the weights that are given to a key. -/
def weightAt (A : List (K × R)) (k : K) : R := ((A.filter fun p => p.1=k).map Prod.snd).sum

theorem weightAt_cons (p : K × R) (A : List (K × R)) (k : K) :
    weightAt (p::A) k=(if p.1=k then p.2 else 0)+weightAt A k := by
  unfold weightAt
  by_cases hk : p.1=k
  · rw [List.filter_cons_of_pos (by simpa using hk),if_pos hk,List.map_cons,List.sum_cons]
  · rw [List.filter_cons_of_neg (by simpa using hk),if_neg hk,zero_add]

theorem sum_eq_sum_weightAt (f : K → R) {keys : Finset K} (hA : ∀ p ∈ A, p.1 ∈ keys) :
    (A.map fun p => f p.1*p.2).sum=∑ k ∈ keys, f k*weightAt A k := by
  induction A with
  | nil => simp [weightAt]
  | cons p A ih =>
    have hp : p.1 ∈ keys := hA p List.mem_cons_self
    rw [List.map_cons,List.sum_cons,ih fun q hq => hA q (List.mem_cons_of_mem p hq)]
    simp only [weightAt_cons,mul_add,Finset.sum_add_distrib,mul_ite,mul_zero,Finset.sum_ite_eq,
      if_pos hp]

theorem sum_congr_weightAt (f : K → R) (h : ∀ k, weightAt A k=weightAt B k) :
    (A.map fun p => f p.1*p.2).sum=(B.map fun p => f p.1*p.2).sum := by
  have hA : ∀ p ∈ A, p.1 ∈ (A.map Prod.fst).toFinset ∪ (B.map Prod.fst).toFinset := by
    intro p hp
    simp only [Finset.mem_union,List.mem_toFinset]
    exact .inl (List.mem_map_of_mem hp)
  have hB : ∀ p ∈ B, p.1 ∈ (A.map Prod.fst).toFinset ∪ (B.map Prod.fst).toFinset := by
    intro p hp
    simp only [Finset.mem_union,List.mem_toFinset]
    exact .inr (List.mem_map_of_mem hp)
  rw [sum_eq_sum_weightAt f hA,sum_eq_sum_weightAt f hB]
  simp only [h]

theorem sum_indicator (k : K) (A : List (K × R)) :
    (A.map fun p => (if p.1=k then 1 else 0)*p.2).sum=weightAt A k := by
  induction A with
  | nil => rfl
  | cons p A ih =>
    rw [List.map_cons,List.sum_cons,ih,weightAt_cons]
    split_ifs <;> simp

end Weights

section Signs
variable {R : Type*} [CommRing R] [LinearOrder R] [IsStrictOrderedRing R] {A : List (K × R)}

/-- Where no summand of a weighted sum lies below the sum without weights, whatever the signs, there
is one key, and each weight is the number of entries. -/
theorem single_key (h : ∀ g : K → R, (∀ k, g k=-1 ∨ g k=0 ∨ g k=1) →
    ∀ p ∈ A, (A.map fun q => g q.1).sum ≤ g p.1*p.2) {p q : K × R} (hp : p ∈ A) (hq : q ∈ A) :
    p.1=q.1 ∧ p.2=A.length := by
  constructor
  · by_contra hne
    have hprobe := h (fun k => if k=q.1 then 1 else 0) (fun k => by split_ifs <;> simp) p hp
    have hone : (1:R) ≤ (A.map fun r => if r.1=q.1 then (1:R) else 0).sum := by
      apply List.single_le_sum
      · intro x hx
        obtain ⟨r,_,rfl⟩ := List.mem_map.mp hx
        split_ifs <;> simp
      · exact List.mem_map.mpr ⟨q,hq,if_pos rfl⟩
    rw [if_neg hne,zero_mul] at hprobe
    exact absurd (hone.trans hprobe) (not_le.mpr one_pos)
  · have hup := h (fun _ => 1) (fun _ => .inr (.inr rfl)) p hp
    have hdown := h (fun _ => -1) (fun _ => .inl rfl) p hp
    simp only [List.map_const',List.sum_replicate,nsmul_eq_mul,mul_one,one_mul,mul_neg,neg_mul,
      neg_le_neg_iff] at hup hdown
    exact le_antisymm hdown hup

end Signs

end Keyed
