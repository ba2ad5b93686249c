import GoRedis.Lib.Keyed
import GoRedis.Storage.Edits
import GoRedis.Storage.Typed
/-!
# Weighted unions and intersections of sorted sets

`ZUnionStore` and `ZInterStore` accumulate scores key by key, each in its own way. What a member
gets is the aggregate of its weighted scores, and in exact arithmetic the order of the keys does
not matter.
-/
namespace GoRedis

/-- Arithmetic without rounding: scores and weights stand for real numbers, and sums, products and
comparisons for those of the numbers. -/
class ExactArithmetic (F : Type) [Float64 F] where
  value : F → ℝ
  value_strictMono : StrictMono value
  value_add : ∀ a b : F, value (a+b)=value a+value b
  value_mul : ∀ a b : F, value (a*b)=value a*value b
  value_zero : value 0=0
  value_one : value 1=1
  exists_neg_one : ∃ a : F, value a=-1

noncomputable instance : ExactArithmetic Int where
  value n := n
  value_strictMono := Int.cast_strictMono
  value_add := Int.cast_add
  value_mul := Int.cast_mul
  value_zero := Int.cast_zero
  value_one := Int.cast_one
  exists_neg_one := ⟨-1,by simp⟩

namespace ExactArithmetic
variable {F : Type} [Float64 F] [ExactArithmetic F]

theorem value_inj {a b : F} : value a=value b ↔ a=b := value_strictMono.injective.eq_iff

attribute [simp] value_add value_mul value_zero value_one

theorem value_sum (l : List F) : value l.sum=(l.map value).sum := by
  induction l with
  | nil => exact value_zero
  | cons a l ih => rw [List.sum_cons,value_add,ih,List.map_cons,List.sum_cons]

end ExactArithmetic

/-- The aggregates a client can ask for. -/
inductive Aggregate
  | sum
  | min
  | max
  deriving DecidableEq, Repr

variable {F : Type} [Float64 F]

namespace Aggregate
variable {agg : Aggregate} {l l' : List F}

/-- The aggregate a word stands for; a word of no other meaning is `SUM`. -/
def ofWord (word : Bytes) : Aggregate :=
  if toUpper word=utf8 "MIN" then min else if toUpper word=utf8 "MAX" then max else sum

/-- The aggregate of two values. -/
def apply : Aggregate → F → F → F
  | sum,a,b => a+b
  | min,a,b => a ⊓ b
  | max,a,b => a ⊔ b

theorem applyAggregate_eq (word : Bytes) (a b : F) :
    applyAggregate a b word=(ofWord word).apply a b := by
  unfold applyAggregate ofWord
  split_ifs with hmin hlt hmax hlt
  · exact (min_eq_right hlt.le).symm
  · exact (min_eq_left (not_lt.mp hlt)).symm
  · exact (max_eq_right hlt.le).symm
  · exact (max_eq_left (not_lt.mp hlt)).symm
  · rfl

/-- The aggregate of a list of values; none has no aggregate. -/
def of (agg : Aggregate) (l : List F) : Option F :=
  match agg with
  | sum => if l.isEmpty then none else some l.sum
  | min => l.min?
  | max => l.max?

theorem of_nil (agg : Aggregate) : agg.of ([] : List F)=none := by
  cases agg <;> rfl

section Exact
variable [ExactArithmetic F]
open ExactArithmetic

theorem apply_comm (agg : Aggregate) (a b : F) : agg.apply a b=agg.apply b a := by
  cases agg with
  | sum =>
    rw [← value_inj]
    simp only [apply,value_add,add_comm]
  | min => exact min_comm a b
  | max => exact max_comm a b

theorem apply_assoc (agg : Aggregate) (a b c : F) :
    agg.apply (agg.apply a b) c=agg.apply a (agg.apply b c) := by
  cases agg with
  | sum =>
    rw [← value_inj]
    simp only [apply,value_add,add_assoc]
  | min => exact min_assoc a b c
  | max => exact max_assoc a b c

theorem foldl_apply_sum (c : F) (l : List F) : l.foldl sum.apply c=c+l.sum := by
  induction l generalizing c with
  | nil =>
    rw [← value_inj]
    simp
  | cons v l ih =>
    rw [List.foldl_cons,ih,List.sum_cons,← value_inj]
    simp only [apply,value_add,add_assoc]

theorem foldl_gather (agg : Aggregate) (l : List F) :
    l.foldl (Keyed.gather agg.apply) none=agg.of l := by
  cases l with
  | nil => exact agg.of_nil.symm
  | cons v l =>
    have hfirst : Keyed.gather agg.apply none v=some v := rfl
    rw [List.foldl_cons,hfirst,Keyed.foldl_gather_some]
    cases agg with
    | sum =>
      rw [foldl_apply_sum]
      rfl
    | min => exact List.min?_cons'.symm
    | max => exact List.max?_cons'.symm

theorem of_perm (agg : Aggregate) (h : l.Perm l') : agg.of l=agg.of l' := by
  rw [← foldl_gather,← foldl_gather]
  exact Keyed.foldl_gather_perm agg.apply_comm agg.apply_assoc h none

end Exact
end Aggregate

/-- The keys with their weights; one without a weight has weight 1. -/
def sources : List Bytes → List F → List (Bytes × F)
  | [],_ => []
  | k::ks,weights => (k,weights.headD 1)::sources ks weights.tail

theorem map_fst_sources (ks : List Bytes) (weights : List F) :
    (sources ks weights).map Prod.fst=ks := by
  induction ks generalizing weights with
  | nil => rfl
  | cons k ks ih => exact congrArg _ (ih _)

namespace Maps
variable {m : Maps F} {now : Int} {k x : Bytes} {ks : List Bytes} {agg : Aggregate}

omit [Float64 F] in
theorem getZSet_of_typeOf (h : m.typeOf now k=none ∨ m.typeOf now k=some .zset) :
    ∃ oz, m.getZSet now k=.ok oz := by
  rcases h with h | h
  · exact ⟨none,by rw [getZSet,h]⟩
  · exact ⟨m.zsets[k]?,by rw [getZSet,h]⟩

/-- The sorted set a reader finds under a key, empty when there is none. -/
def zsetAt (m : Maps F) (now : Int) (k : Bytes) : Map F :=
  ((m.getZSet now k).toOption.bind id).getD ∅

omit [Float64 F] in
theorem zsetAt_eq {oz : Option (Map F)} (h : m.getZSet now k=.ok oz) :
    m.zsetAt now k=oz.getD ∅ := by
  rw [zsetAt,h]
  rfl

/-- The weighted scores of a member, over the sources that have it. -/
def weighted (m : Maps F) (now : Int) (srcs : List (Bytes × F)) (x : Bytes) : List F :=
  srcs.filterMap fun p => (m.zsetAt now p.1)[x]?.map fun sc => sc*p.2

theorem weighted_cons (p : Bytes × F) (srcs : List (Bytes × F)) : m.weighted now (p::srcs) x=
    ((m.zsetAt now p.1)[x]?.map fun sc => sc*p.2).toList++m.weighted now srcs x := by
  rw [weighted,List.filterMap_cons]
  cases (m.zsetAt now p.1)[x]? <;> rfl

omit [Float64 F] in
theorem getElem?_foldl_gather {f : F → F → F} {g : F → F} {step : Map F → Bytes × F → Map F}
    (hstep : Keyed.Updates (fun (m : Map F) (k : Bytes) => m[k]?) Prod.fst
      (fun old p => Keyed.gather f old (g p.2)) step) (z scores : Map F) (x : Bytes) :
    (z.toList.foldl step scores)[x]?=
      (z[x]?.map g).toList.foldl (Keyed.gather f) scores[x]? := by
  have hkeys : (z.toList.map Prod.fst).Nodup := by
    rw [Std.ExtTreeMap.map_fst_toList_eq_keys]
    exact Std.ExtTreeMap.nodup_keys
  cases hx : z[x]? with
  | none =>
    have hnot : x ∉ z.toList.map Prod.fst := by
      rw [Std.ExtTreeMap.map_fst_toList_eq_keys,Std.ExtTreeMap.mem_keys,
        Std.ExtTreeMap.mem_iff_isSome_getElem?,hx]
      simp
    exact hstep.get_foldl_of_notMem hnot scores
  | some sc =>
    have hmem : (x,sc) ∈ z.toList := Std.ExtTreeMap.mem_toList_iff_getElem?_eq_some.mpr hx
    have hfold := hstep.get_foldl z.toList scores x
    rw [Keyed.filter_key_eq hkeys hmem] at hfold
    exact hfold

theorem getElem?_unionScores (word : Bytes) (v : F) (z scores : Map F) (x : Bytes) :
    (unionScores word v z scores)[x]?=(z[x]?.map fun sc => sc*v).toList.foldl
      (Keyed.gather (Aggregate.ofWord word).apply) scores[x]? := by
  rw [unionScores]
  apply getElem?_foldl_gather
  intro acc p k
  dsimp only
  by_cases hk : p.1=k
  · subst hk
    rw [if_pos rfl]
    cases acc[p.1]? with
    | none => simp [Keyed.gather]
    | some cur => simp [Keyed.gather,Aggregate.applyAggregate_eq]
  · rw [if_neg hk]
    cases acc[p.1]? with
    | none => simp [Map.getElem?_insert,hk]
    | some cur => simp [Map.getElem?_insert,hk]

theorem zUnionLoop_eq (hks : ∀ k ∈ ks, m.typeOf now k=none ∨ m.typeOf now k=some .zset)
    (word : Bytes) (weights : List F) (scores : Map F) :
    ∃ r, m.zUnionLoop now word ks weights scores=.ok r ∧ ∀ x : Bytes,
      r[x]?=(m.weighted now (sources ks weights) x).foldl
        (Keyed.gather (Aggregate.ofWord word).apply) scores[x]? := by
  induction ks generalizing weights scores with
  | nil => exact ⟨scores,rfl,fun x => rfl⟩
  | cons k ks ih =>
    obtain ⟨oz,hoz⟩ := getZSet_of_typeOf (hks k List.mem_cons_self)
    have hrest := fun j hj => hks j (List.mem_cons_of_mem k hj)
    simp only [zUnionLoop,hoz,sources,weighted_cons,zsetAt_eq hoz,List.foldl_append]
    cases oz with
    | none =>
      obtain ⟨r,hr,hget⟩ := ih hrest weights.tail scores
      refine ⟨r,hr,fun x => ?_⟩
      rw [hget]
      simp
    | some z =>
      obtain ⟨r,hr,hget⟩ := ih hrest weights.tail (unionScores word (weights.headD 1) z scores)
      refine ⟨r,hr,fun x => ?_⟩
      rw [hget,getElem?_unionScores]
      rfl

theorem getElem?_interScores (word : Bytes) (v : F) (oz : Option (Map F)) (scores : Map F)
    (x : Bytes) : (interScores word v oz scores)[x]?=scores[x]?.bind fun c =>
      (oz.getD ∅)[x]?.map fun sc => (Aggregate.ofWord word).apply c (sc*v) := by
  cases oz with
  | none => simp [interScores]
  | some z =>
    simp only [interScores,Std.ExtTreeMap.getElem?_filterMap',Option.getD_some,
      Aggregate.applyAggregate_eq]

theorem zInterLoop_eq (hks : ∀ k ∈ ks, m.typeOf now k=none ∨ m.typeOf now k=some .zset)
    (word : Bytes) (weights : List F) (scores : Map F) :
    ∃ r, m.zInterLoop now word ks weights scores=.ok r ∧ ∀ x : Bytes,
      r[x]?=scores[x]?.bind fun c => if ∀ k ∈ ks, x ∈ m.zsetAt now k then
        some ((m.weighted now (sources ks weights) x).foldl (Aggregate.ofWord word).apply c)
      else none := by
  induction ks generalizing weights scores with
  | nil =>
    refine ⟨scores,rfl,fun x => ?_⟩
    cases scores[x]? <;> simp [sources,weighted]
  | cons k ks ih =>
    obtain ⟨oz,hoz⟩ := getZSet_of_typeOf (hks k List.mem_cons_self)
    have hrest := fun j hj => hks j (List.mem_cons_of_mem k hj)
    obtain ⟨r,hr,hget⟩ := ih hrest weights.tail (interScores word (weights.headD 1) oz scores)
    refine ⟨r,?_,fun x => ?_⟩
    · rw [zInterLoop,hoz]
      exact hr
    · rw [hget,getElem?_interScores]
      simp only [sources,weighted_cons,zsetAt_eq hoz,List.foldl_append,List.forall_mem_cons,
        Std.ExtTreeMap.mem_iff_isSome_getElem?]
      cases scores[x]? with
      | none => rfl
      | some c => cases (oz.getD ∅)[x]? <;> simp

end Maps

/-- `ZUNIONSTORE` and `ZINTERSTORE`. -/
inductive ZSetOp
  | union
  | inter
  deriving DecidableEq, Repr

namespace ZSetOp
variable {op : ZSetOp} {agg : Aggregate} {m : Maps F} {s : MemoryStore F} {now : Int}
  {x dst : Bytes} {ks : List Bytes} {weights : List F}

/-- The store operation. -/
def run : ZSetOp → MemoryStore F → Int → Bytes → List Bytes → List F → Bytes →
    Except StoreError (Nat × MemoryStore F)
  | union => MemoryStore.zUnionStore
  | inter => MemoryStore.zInterStore

/-- A member belongs to the result: it is in one of the sorted sets, or in all of them. -/
def Keeps (sets : Bytes → Map F) (ks : List Bytes) (x : Bytes) : ZSetOp → Prop
  | union => ∃ k ∈ ks, x ∈ sets k
  | inter => ∀ k ∈ ks, x ∈ sets k

instance (sets : Bytes → Map F) (ks : List Bytes) (x : Bytes) :
    (op : ZSetOp) → Decidable (op.Keeps sets ks x)
  | union => inferInstanceAs (Decidable (∃ k ∈ ks, x ∈ sets k))
  | inter => inferInstanceAs (Decidable (∀ k ∈ ks, x ∈ sets k))

/-- What a member is worth in the result, if it is there. -/
def score (op : ZSetOp) (agg : Aggregate) (m : Maps F) (now : Int) (srcs : List (Bytes × F))
    (x : Bytes) : Option F :=
  if op.Keeps (m.zsetAt now) (srcs.map Prod.fst) x then agg.of (m.weighted now srcs x) else none

theorem weighted_eq_nil_iff {srcs : List (Bytes × F)} :
    m.weighted now srcs x=[] ↔ ¬union.Keeps (m.zsetAt now) (srcs.map Prod.fst) x := by
  simp [Maps.weighted,Keeps,List.filterMap_eq_nil_iff]

theorem zInterStore_eq {k : Bytes} {oz : Option (Map F)} (hoz : s.getZSet now k=.ok oz)
    (word : Bytes) : s.zInterStore now dst (k::ks) weights word=
      s.storeScores dst (s.zInterLoop now word ks weights.tail
        ((oz.getD ∅).map fun _ sc => sc*weights.headD 1)) := by
  rw [MemoryStore.zInterStore,hoz]
  cases oz with
  | none =>
    have hempty : (∅ : Map F).map (fun _ sc => sc*weights.headD 1)=∅ := by
      rw [Map.eq_empty_iff]
      intro x
      simp
    rw [Option.getD_none,hempty]
  | some z => rfl

theorem inter_score_eq [ExactArithmetic F] {k : Bytes} {oz : Option (Map F)}
    (hoz : m.getZSet now k=.ok oz) (agg : Aggregate) (weights : List F) (x : Bytes) :
    ((oz.getD ∅)[x]?.map fun sc => sc*weights.headD 1).bind (fun c =>
      if ∀ j ∈ ks, x ∈ m.zsetAt now j then
        some ((m.weighted now (sources ks weights.tail) x).foldl agg.apply c)
      else none)=inter.score agg m now (sources (k::ks) weights) x := by
  rw [score,← Aggregate.foldl_gather]
  simp only [Keeps,map_fst_sources,List.forall_mem_cons]
  rw [sources,Maps.weighted_cons,Maps.zsetAt_eq hoz]
  simp only [Std.ExtTreeMap.mem_iff_isSome_getElem?]
  cases (oz.getD ∅)[x]? with
  | none => simp
  | some sc =>
    simp only [Option.map_some,Option.bind_some,Option.isSome_some,true_and]
    split_ifs
    · exact (Keyed.foldl_gather_some _ _ _).symm
    · rfl

theorem run_eq [ExactArithmetic F] (op : ZSetOp) (dst word : Bytes) (weights : List F)
    (hks : ∀ k ∈ ks, s.typeOf now k=none ∨ s.typeOf now k=some .zset) (hne : ks ≠ []) :
    ∃ scores : Map F, op.run s now dst ks weights word=s.storeScores dst (.ok scores) ∧
      ∀ x : Bytes, scores[x]?=
        op.score (Aggregate.ofWord word) s.toMaps now (sources ks weights) x := by
  cases op with
  | union =>
    obtain ⟨r,hr,hget⟩ := Maps.zUnionLoop_eq hks word weights ∅
    refine ⟨r,?_,fun x => ?_⟩
    · rw [run,MemoryStore.zUnionStore,hr]
    · rw [hget,Std.ExtTreeMap.getElem?_empty,Aggregate.foldl_gather,score]
      split_ifs with hkeep
      · rfl
      · rw [weighted_eq_nil_iff.mpr hkeep,Aggregate.of_nil]
  | inter =>
    cases ks with
    | nil => exact absurd rfl hne
    | cons k ks =>
      obtain ⟨oz,hoz⟩ := Maps.getZSet_of_typeOf (hks k List.mem_cons_self)
      have hrest := fun j hj => hks j (List.mem_cons_of_mem k hj)
      obtain ⟨r,hr,hget⟩ := Maps.zInterLoop_eq hrest word weights.tail
        ((oz.getD ∅).map fun _ sc => sc*weights.headD 1)
      refine ⟨r,?_,fun x => ?_⟩
      · rw [run,zInterStore_eq hoz,hr]
      · rw [hget,Std.ExtTreeMap.getElem?_map]
        exact inter_score_eq hoz (Aggregate.ofWord word) weights x

theorem score_perm [ExactArithmetic F] (op : ZSetOp) (agg : Aggregate)
    {srcs srcs' : List (Bytes × F)} (h : srcs.Perm srcs') :
    op.score agg m now srcs x=op.score agg m now srcs' x := by
  have hkeys : ∀ k, k ∈ srcs.map Prod.fst ↔ k ∈ srcs'.map Prod.fst :=
    fun k => (h.map Prod.fst).mem_iff
  have hkeep : op.Keeps (m.zsetAt now) (srcs.map Prod.fst) x ↔
      op.Keeps (m.zsetAt now) (srcs'.map Prod.fst) x := by
    cases op <;> simp only [Keeps,hkeys]
  have hvalues : (m.weighted now srcs x).Perm (m.weighted now srcs' x) := h.filterMap _
  unfold score
  rw [agg.of_perm hvalues]
  simp only [hkeep]

theorem storeScores_ok (s : MemoryStore F) (dst : Bytes) (scores : Map F) :
    ∃ s' : MemoryStore F, s.storeScores dst (.ok scores)=.ok (scores.size,s') ∧
      s'.toMaps.row dst=
        (if scores=∅ then .absent else { (Row.absent : Row F) with zset := some scores }) ∧
      ∀ j, j ≠ dst → s'.slot j=s.slot j := by
  by_cases hempty : scores=∅
  · subst hempty
    refine ⟨s.deleteKey dst,?_,?_,fun j hj => ?_⟩
    · rw [MemoryStore.storeScores,if_pos (by simp)]
      simp
    · rw [if_pos rfl,MemoryStore.row_deleteKey_self]
    · rw [MemoryStore.slot_deleteKey,Function.update_of_ne hj]
  · have hsome : ¬scores.isEmpty=true := by simpa [Std.ExtTreeMap.isEmpty_iff] using hempty
    refine ⟨((s.deleteKey dst).putZSet dst scores).bumpVersion dst,?_,?_,fun j hj => ?_⟩
    · rw [MemoryStore.storeScores,if_neg hsome]
    · rw [if_neg hempty,← MemoryStore.slot_toRow,MemoryStore.slot_storeZSet,Function.update_self]
      rfl
    · rw [MemoryStore.slot_storeZSet,Function.update_of_ne hj]

end ZSetOp
end GoRedis
