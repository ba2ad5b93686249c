import GoRedis.Storage.WeightedStores
/-!
# Weighted stores without their options

Where the options of a weighted store are forgotten, every key has weight 1 and scores are added
up. The weights and the aggregate alone decide whether that makes a difference on some store.
-/
namespace GoRedis
variable {F : Type} [Float64 F] {m : Maps F} {now : Int} {x : Bytes} {agg : Aggregate}
  {srcs : List (Bytes × F)}

/-- The sources without their weights. -/
def plain (srcs : List (Bytes × F)) : List (Bytes × F) := srcs.map fun p => (p.1,1)

theorem sources_nil (ks : List Bytes) (weights : List F) :
    sources ks []=plain (sources ks weights) := by
  induction ks generalizing weights with
  | nil => rfl
  | cons k ks ih => exact congrArg _ (ih _)

theorem map_fst_plain (srcs : List (Bytes × F)) :
    (plain srcs).map Prod.fst=srcs.map Prod.fst := by
  rw [plain,List.map_map]
  rfl

theorem weighted_isEmpty_plain (m : Maps F) (now : Int) (srcs : List (Bytes × F)) (x : Bytes) :
    (m.weighted now (plain srcs) x).isEmpty=(m.weighted now srcs x).isEmpty := by
  rw [Bool.eq_iff_iff,List.isEmpty_iff,List.isEmpty_iff,ZSetOp.weighted_eq_nil_iff,
    ZSetOp.weighted_eq_nil_iff,map_fst_plain]

theorem weighted_replicate (m : Maps F) (now : Int) (n : Nat) (k : Bytes) (v : F) (x : Bytes) :
    m.weighted now (List.replicate n (k,v)) x=
      ((m.zsetAt now k)[x]?.map fun sc => List.replicate n (sc*v)).getD [] := by
  induction n with
  | zero => cases (m.zsetAt now k)[x]? <;> rfl
  | succ n ih =>
    rw [List.replicate_succ,Maps.weighted_cons,ih]
    cases (m.zsetAt now k)[x]? <;> rfl

/-- The weights and the aggregate make no difference: the weights of every key add up to the number
of times it is listed; for `MIN` and `MAX` there is one key, and each of its weights is that
number. -/
def Aggregate.Harmless (agg : Aggregate) (srcs : List (Bytes × F)) : Prop :=
  match agg with
  | .sum => ∀ k, ((srcs.filter fun p => p.1=k).map Prod.snd).sum=
      ((srcs.filter fun p => p.1=k).map fun _ => (1:F)).sum
  | .min | .max => ∃ k, ∀ p ∈ srcs, p.1=k ∧ p.2=(srcs.map fun _ => (1:F)).sum

section Exact
variable [ExactArithmetic F]
open ExactArithmetic

/-- The sources as numbers. -/
noncomputable def values (srcs : List (Bytes × F)) : List (Bytes × ℝ) :=
  srcs.map fun p => (p.1,value p.2)

theorem value_ones {α : Type} (l : List α) : value ((l.map fun _ => (1:F)).sum)=l.length := by
  rw [value_sum,List.map_map]
  simp [Function.comp_def]

theorem weightAt_values (srcs : List (Bytes × F)) (k : Bytes) : Keyed.weightAt (values srcs) k=
    value ((srcs.filter fun p => p.1=k).map Prod.snd).sum := by
  rw [Keyed.weightAt,values,List.filter_map,List.map_map,value_sum,List.map_map]
  rfl

theorem weightAt_plain (srcs : List (Bytes × F)) (k : Bytes) :
    Keyed.weightAt (values (plain srcs)) k=
      value ((srcs.filter fun p => p.1=k).map fun _ => (1:F)).sum := by
  rw [weightAt_values,plain,List.filter_map,List.map_map]
  rfl

theorem harmless_sum_iff : Aggregate.sum.Harmless srcs ↔
    ∀ k, Keyed.weightAt (values srcs) k=Keyed.weightAt (values (plain srcs)) k := by
  simp only [weightAt_values srcs,weightAt_plain,value_inj]
  rfl

theorem value_weighted_sum (m : Maps F) (now : Int) (srcs : List (Bytes × F)) (x : Bytes) :
    value (m.weighted now srcs x).sum=((values srcs).map fun p =>
      ((m.zsetAt now p.1)[x]?.map value).getD 0*p.2).sum := by
  induction srcs with
  | nil => exact value_zero
  | cons p srcs ih =>
    have hcons : values (p::srcs)=(p.1,value p.2)::values srcs := rfl
    rw [Maps.weighted_cons,hcons,List.map_cons,List.sum_cons,← ih]
    cases (m.zsetAt now p.1)[x]? with
    | none => simp
    | some sc => simp

theorem sum_replicate_mul (n : Nat) (sc : F) :
    (List.replicate n (sc*1)).sum=sc*((List.replicate n (1:F)).sum) := by
  rw [← value_inj,value_mul,value_sum,value_sum]
  simp [mul_comm]

/-- A list of one key is harmless for `MIN` and `MAX` because all the weighted scores are equal. -/
theorem of_weighted_single {k : Bytes}
    (h : ∀ p ∈ srcs, p.1=k ∧ p.2=(srcs.map fun _ => (1:F)).sum)
    (hagg : ∀ (n : Nat) (a : F), agg.of (List.replicate n a)=if n=0 then none else some a) :
    agg.of (m.weighted now srcs x)=Aggregate.sum.of (m.weighted now (plain srcs) x) := by
  have hone : (srcs.map fun _ => (1:F))=List.replicate srcs.length 1 := List.map_const'
  have hsrcs : srcs=List.replicate srcs.length (k,(List.replicate srcs.length (1:F)).sum) := by
    rw [List.eq_replicate_iff]
    refine ⟨rfl,fun p hp => ?_⟩
    rw [← hone]
    exact Prod.ext (h p hp).1 (h p hp).2
  have hplain : plain srcs=List.replicate srcs.length (k,1) := by
    rw [plain,List.eq_replicate_iff]
    refine ⟨List.length_map _,fun p hp => ?_⟩
    obtain ⟨q,hq,rfl⟩ := List.mem_map.mp hp
    rw [(h q hq).1]
  rw [hplain,weighted_replicate,hsrcs,weighted_replicate]
  cases (m.zsetAt now k)[x]? with
  | none => exact agg.of_nil
  | some sc =>
    simp only [Option.map_some,Option.getD_some,hagg,List.length_replicate]
    cases srcs.length with
    | zero => rfl
    | succ n =>
      rw [if_neg n.succ_ne_zero,← sum_replicate_mul]
      rfl

theorem score_plain (op : ZSetOp) (h : agg.Harmless srcs) :
    op.score agg m now srcs x=op.score .sum m now (plain srcs) x := by
  unfold ZSetOp.score
  simp only [map_fst_plain]
  split_ifs with hkeep
  · cases agg with
    | sum =>
      have hsum : (m.weighted now srcs x).sum=(m.weighted now (plain srcs) x).sum := by
        rw [← value_inj,value_weighted_sum,value_weighted_sum]
        exact Keyed.sum_congr_weightAt (fun k => ((m.zsetAt now k)[x]?.map value).getD 0)
          (harmless_sum_iff.mp h)
      rw [Aggregate.of,Aggregate.of,hsum,weighted_isEmpty_plain]
    | min =>
      obtain ⟨k,hk⟩ := h
      exact of_weighted_single hk fun n a => List.min?_replicate
    | max =>
      obtain ⟨k,hk⟩ := h
      exact of_weighted_single hk fun n a => List.max?_replicate
  · rfl

end Exact

section Probe
omit [Float64 F]
variable {f : Bytes → F} {ks : List Bytes} {k : Bytes}

/-- A store in which every one of the keys gives the empty name the score that `f` says. -/
def probe (f : Bytes → F) (ks : List Bytes) : MemoryStore F :=
  { (MemoryStore.new : MemoryStore F) with
    zsets := ks.foldr (fun k zs => zs.insert k ((∅ : Map F).insert [] (f k))) ∅ }

theorem zsets_probe (hk : k ∈ ks) :
    (probe f ks).zsets[k]?=some ((∅ : Map F).insert [] (f k)) := by
  induction ks with
  | nil => cases hk
  | cons j ks ih =>
    have hstep : (probe f (j::ks)).zsets=
        (probe f ks).zsets.insert j ((∅ : Map F).insert [] (f j)) := rfl
    rw [hstep,Map.getElem?_insert]
    split_ifs with hj
    · rw [hj]
    · exact ih ((List.mem_cons.mp hk).resolve_left fun h => hj h.symm)

theorem typeOf_probe (now : Int) (hk : k ∈ ks) : (probe f ks).typeOf now k=some .zset := by
  have hmem : k ∈ (probe f ks).zsets := by
    rw [Std.ExtTreeMap.mem_iff_isSome_getElem?,zsets_probe hk]
    rfl
  rw [Maps.typeOf,Maps.keyExpiredNonStr]
  simp only [hmem]
  simp [probe,MemoryStore.new,Maps.empty,Maps.liveString,expired]

theorem zsetAt_probe (now : Int) (hk : k ∈ ks) :
    (probe f ks).toMaps.zsetAt now k=(∅ : Map F).insert [] (f k) := by
  have hget : (probe f ks).toMaps.getZSet now k=.ok (some ((∅ : Map F).insert [] (f k))) := by
    rw [Maps.getZSet,typeOf_probe now hk,zsets_probe hk]
  exact Maps.zsetAt_eq hget

end Probe

section Converse
variable {f : Bytes → F} {ks : List Bytes}

theorem weighted_probe (f : Bytes → F) (now : Int) (h : ∀ p ∈ srcs, p.1 ∈ ks) :
    (probe f ks).toMaps.weighted now srcs []=srcs.map fun p => f p.1*p.2 := by
  induction srcs with
  | nil => rfl
  | cons p srcs ih =>
    have hp := h p List.mem_cons_self
    rw [Maps.weighted_cons,zsetAt_probe now hp,ih fun q hq => h q (List.mem_cons_of_mem p hq)]
    simp

theorem score_probe (op : ZSetOp) (agg : Aggregate) (f : Bytes → F) (now : Int)
    (hsrcs : srcs.map Prod.fst=ks) (hne : ks ≠ []) :
    op.score agg (probe f ks).toMaps now srcs []=agg.of (srcs.map fun p => f p.1*p.2) := by
  have hmem : ∀ k ∈ ks, [] ∈ (probe f ks).toMaps.zsetAt now k := by
    intro k hk
    rw [zsetAt_probe now hk]
    simp
  have hkeep : op.Keeps ((probe f ks).toMaps.zsetAt now) ks [] := by
    cases op with
    | union =>
      obtain ⟨k,hk⟩ := List.exists_mem_of_ne_nil ks hne
      exact ⟨k,hk,hmem k hk⟩
    | inter => exact hmem
  have hkeys : ∀ p ∈ srcs, p.1 ∈ ks := fun p hp => hsrcs ▸ List.mem_map_of_mem hp
  rw [ZSetOp.score,hsrcs,if_pos hkeep,weighted_probe f now hkeys]

variable [ExactArithmetic F]
open ExactArithmetic

theorem exists_signs {g : Bytes → ℝ} (hg : ∀ k, g k=-1 ∨ g k=0 ∨ g k=1) :
    ∃ f : Bytes → F, ∀ k, value (f k)=g k := by
  have hone : ∀ k, ∃ a : F, value a=g k := by
    intro k
    rcases hg k with h | h | h
    · rw [h]
      exact exists_neg_one
    · exact ⟨0,value_zero.trans h.symm⟩
    · exact ⟨1,value_one.trans h.symm⟩
  exact Classical.axiomOfChoice hone

theorem value_probe_sum (f : Bytes → F) (srcs : List (Bytes × F)) :
    value (srcs.map fun p => f p.1*p.2).sum=((values srcs).map fun p => value (f p.1)*p.2).sum := by
  rw [value_sum,values,List.map_map,List.map_map]
  simp [Function.comp_def]

theorem value_probe_plain (f : Bytes → F) (srcs : List (Bytes × F)) :
    value ((plain srcs).map fun p => f p.1*p.2).sum=
      ((values srcs).map fun p => value (f p.1)).sum := by
  rw [value_sum,plain,values,List.map_map,List.map_map,List.map_map]
  simp [Function.comp_def]

theorem harmless_of_signs (hne : srcs ≠ [])
    (h : ∀ g : Bytes → ℝ, (∀ k, g k=-1 ∨ g k=0 ∨ g k=1) →
      ∀ p ∈ values srcs, ((values srcs).map fun q => g q.1).sum ≤ g p.1*p.2) :
    ∃ k, ∀ p ∈ srcs, p.1=k ∧ p.2=(srcs.map fun _ => (1:F)).sum := by
  obtain ⟨q,hq⟩ := List.exists_mem_of_ne_nil srcs hne
  have hvalue : ∀ p ∈ srcs, (p.1,value p.2) ∈ values srcs := fun p hp =>
    List.mem_map.mpr ⟨p,hp,rfl⟩
  refine ⟨q.1,fun p hp => ?_⟩
  have hsingle := Keyed.single_key h (hvalue p hp) (hvalue q hq)
  have hlen : (values srcs).length=srcs.length := List.length_map _
  rw [hlen] at hsingle
  refine ⟨hsingle.1,?_⟩
  rw [← value_inj,value_ones]
  exact hsingle.2

theorem harmless_of_probe (hne : srcs ≠ []) (h : ∀ f : Bytes → F,
    agg.of (srcs.map fun p => f p.1*p.2)=
      Aggregate.sum.of ((plain srcs).map fun p => f p.1*p.2)) : agg.Harmless srcs := by
  have hsum : ∀ f : Bytes → F, agg.of (srcs.map fun p => f p.1*p.2)=
      some ((plain srcs).map fun p => f p.1*p.2).sum := by
    intro f
    rw [h f]
    cases srcs with
    | nil => exact absurd rfl hne
    | cons p srcs => rfl
  cases agg with
  | sum =>
    rw [harmless_sum_iff]
    intro k
    obtain ⟨f,hf⟩ := exists_signs (F := F) (g := fun j => if j=k then 1 else 0)
      (fun j => by split_ifs <;> simp)
    have hprobe := hsum f
    rw [Aggregate.of,if_neg (by simpa using hne),Option.some.injEq,← value_inj,value_probe_sum,
      value_probe_sum] at hprobe
    simp only [hf,Keyed.sum_indicator] at hprobe
    exact hprobe
  | min =>
    apply harmless_of_signs hne
    intro g hg p hp
    obtain ⟨f,hf⟩ := exists_signs (F := F) hg
    obtain ⟨q,hq,rfl⟩ := List.mem_map.mp hp
    have hle := (List.min?_eq_some_iff.mp (hsum f)).2 _ (List.mem_map_of_mem hq)
    rw [← value_strictMono.le_iff_le,value_probe_plain,value_mul] at hle
    simpa only [hf] using hle
  | max =>
    -- the largest score of a probe is the smallest one of the probe with the signs changed
    apply harmless_of_signs hne
    intro g hg p hp
    have hneg : ∀ k, -g k=-1 ∨ -g k=0 ∨ -g k=1 := by
      intro k
      rcases hg k with h | h | h <;> simp [h]
    obtain ⟨f,hf⟩ := exists_signs (F := F) hneg
    obtain ⟨q,hq,rfl⟩ := List.mem_map.mp hp
    have hle := (List.max?_eq_some_iff.mp (hsum f)).2 _ (List.mem_map_of_mem hq)
    rw [← value_strictMono.le_iff_le,value_probe_plain,value_mul] at hle
    have hsigns : ((values srcs).map fun r => -g r.1).sum=
        -((values srcs).map fun r => g r.1).sum := by
      rw [List.sum_neg,List.map_map]
      rfl
    simp only [hf,hsigns,neg_mul,neg_le_neg_iff] at hle
    exact hle

end Converse
end GoRedis
