import GoRedis.Go.World
/-!
# Slices with their bounds checks

What a Go program does with a slice and an `int`: allocate it, index it, cut it. Each operation
panics when the number is not in its range.
-/
namespace GoRedis

theorem MakeOk.mono {size size' : Nat} {n n' : Int} (h : MakeOk size n) (hsize : size' ≤ size)
    (hpos : 0 ≤ n') (hle : n' ≤ n) : MakeOk size' n' := by
  refine ⟨hpos,le_trans ?_ h.2⟩
  exact mul_le_mul hle (Int.ofNat_le.mpr hsize) (Int.natCast_nonneg _) (le_trans hpos hle)

theorem MakeOk.small {size : Nat} {n : Int} (h : MakeOk size n) (hsize : 0 < size) : n ≤ 2^48 := by
  have hmul : n*1 ≤ n*size := mul_le_mul_of_nonneg_left (by exact_mod_cast hsize) h.1
  have hle : n*size ≤ maxAlloc := h.2
  unfold maxAlloc at hle
  omega

namespace Go
variable {α β : Type}

/-- `make([]T, n)` for elements of `size` bytes: the length. -/
def make (size : Nat) (n : Int) : Go Nat := if MakeOk size n then .ok n.toNat else .error .makeLen

/-- `l[i]` -/
def index (l : List α) (i : Int) : Go α :=
  if i < 0 then .error .sliceBounds
  else match l[i.toNat]? with
    | none => .error .sliceBounds
    | some a => .ok a

/-- `l[i] = a` -/
def put (l : List α) (i : Int) (a : α) : Go (List α) :=
  if 0 ≤ i ∧ i < l.length then .ok (l.set i.toNat a) else .error .sliceBounds

/-- `l[lo:hi]`, bounded by the length and not by the capacity. -/
def cut (l : List α) (lo hi : Int) : Go (List α) :=
  if 0 ≤ lo ∧ lo ≤ hi ∧ hi ≤ l.length then .ok ((l.drop lo.toNat).take (hi-lo).toNat)
  else .error .sliceBounds

/-- A new slice of length `n` after `copy` from `l`; the rest has the zero value. -/
def copied (n : Nat) (l : List Bytes) : List Bytes := l.take n++List.replicate (n-l.length) []

theorem make_ok {size : Nat} {n : Int} (h : MakeOk size n) : make size n=.ok n.toNat := if_pos h

theorem make_error {size : Nat} {n : Int} (h : ¬MakeOk size n) : make size n=.error .makeLen :=
  if_neg h

theorem index_ok {l : List α} {i : Int} {a : α} (hi : 0 ≤ i) (h : l[i.toNat]?=some a) :
    index l i=.ok a := by
  rw [index,if_neg (not_lt.mpr hi),h]

theorem put_ok {l : List α} {i : Int} (hi : 0 ≤ i) (h : i < l.length) (a : α) :
    put l i a=.ok (l.set i.toNat a) := if_pos ⟨hi,h⟩

theorem cut_ok {l : List α} {lo hi : Int} (hlo : 0 ≤ lo) (hle : lo ≤ hi) (hhi : hi ≤ l.length) :
    cut l lo hi=.ok ((l.drop lo.toNat).take (hi-lo).toNat) := if_pos ⟨hlo,hle,hhi⟩

theorem cut_error {l : List α} {lo hi : Int} (h : hi < lo) : cut l lo hi=.error .sliceBounds :=
  if_neg fun h' => absurd h'.2.1 (not_le.mpr h)

theorem copied_of_le {n : Nat} {l : List Bytes} (h : n ≤ l.length) : copied n l=l.take n := by
  rw [copied,Nat.sub_eq_zero_of_le h,List.replicate_zero,List.append_nil]

theorem mapM_index {l part : List α} {is : List Int} (hpos : ∀ i ∈ is, 0 ≤ i)
    (hpart : is.map (fun i => l[i.toNat]?)=part.map some) : is.mapM (index l)=.ok part := by
  induction is generalizing part with
  | nil =>
    rw [List.map_nil] at hpart
    rw [List.map_eq_nil_iff.mp hpart.symm]
    rfl
  | cons i is ih =>
    obtain ⟨hi,his⟩ := List.forall_mem_cons.mp hpos
    cases part with
    | nil => cases hpart
    | cons a part =>
      obtain ⟨ha,hrest⟩ := List.cons.inj hpart
      rw [List.mapM_cons,index_ok hi ha,ih his hrest]
      rfl

theorem mapM_index_range {l part : List α} {f : Nat → Int} {n : Nat} (hlen : part.length=n)
    (hf : ∀ i < n, 0 ≤ f i ∧ l[(f i).toNat]?=part[i]?) :
    ((List.range n).map f).mapM (index l)=.ok part := by
  apply mapM_index
  · intro i hi
    obtain ⟨j,hj,rfl⟩ := List.mem_map.mp hi
    exact (hf j (List.mem_range.mp hj)).1
  · apply List.ext_getElem?
    intro i
    by_cases hi : i < n
    · have hsome : i < part.length := hlen ▸ hi
      simp [hi,(hf i hi).2,hsome]
    · simp [hi,hlen]

end Go
end GoRedis
