import GoRedis.Lib.Keyed
import GoRedis.Lib.Loops
import GoRedis.Storage.ZSets
/-!
# What `ZADD` makes of a score

The loop of `ZAdd` is a fold of updates, each at its own member, so the score it leaves is a
function of the old score and of the scores listed for that member.
-/
namespace GoRedis
variable {F : Type} [Float64 F] {fl : ZAddFlags}

/-- What one round makes of the score of its member. -/
def ZAddFlags.settle (fl : ZAddFlags) (old : Option F) (sc : F) : Option F :=
  match old with
  | some o =>
    if fl.nx then some o
    else if fl.gt ∧ sc ≤ o then some o
    else if fl.lt ∧ o ≤ sc then some o
    else some sc
  | none => if fl.xx then none else some sc

/-- The score that `ZADD` promises, given the old one and those listed. -/
def ZAddFlags.finalScore (fl : ZAddFlags) (old : Option F) (scores : List F) : Option F :=
  if fl.xx ∧ old=none then none
  else if fl.nx then old.or scores.head?
  else if fl.gt then (old.toList++scores).max?
  else if fl.lt then (old.toList++scores).min?
  else scores.getLast?

/-- The scores listed for a member, in order. -/
def listedScores (ms : List (ZMember F)) (x : Bytes) : List F :=
  (ms.filter fun m => m.member=x).map ZMember.score

omit [Float64 F] in
theorem foldl_keep {f : Option F → F → Option F} {o : F} (h : ∀ sc, f (some o) sc=some o)
    (scores : List F) : scores.foldl f (some o)=some o := by
  induction scores with
  | nil => rfl
  | cons sc scores ih => rw [List.foldl_cons,h,ih]

omit [Float64 F] in
theorem foldl_combine {f : Option F → F → Option F} {g : F → F → F}
    (h : ∀ o sc, f (some o) sc=some (g o sc)) (scores : List F) (o : F) :
    scores.foldl f (some o)=some (scores.foldl g o) := by
  induction scores generalizing o with
  | nil => rfl
  | cons sc scores ih => rw [List.foldl_cons,h,ih,List.foldl_cons]

theorem settle_gt (hgt : fl.gt=true) (hnx : fl.nx=false) (hlt : fl.lt=false) (o sc : F) :
    fl.settle (some o) sc=some (max o sc) := by
  simp only [ZAddFlags.settle,hgt,hnx,hlt,Bool.false_eq_true,if_false,true_and,false_and]
  split_ifs with h
  · rw [max_eq_left h]
  · rw [max_eq_right (le_of_not_ge h)]

theorem settle_lt (hlt : fl.lt=true) (hnx : fl.nx=false) (hgt : fl.gt=false) (o sc : F) :
    fl.settle (some o) sc=some (min o sc) := by
  simp only [ZAddFlags.settle,hgt,hnx,hlt,Bool.false_eq_true,if_false,true_and,false_and]
  split_ifs with h
  · rw [min_eq_left h]
  · rw [min_eq_right (le_of_not_ge h)]

theorem settle_plain (hnx : fl.nx=false) (hgt : fl.gt=false) (hlt : fl.lt=false) (o sc : F) :
    fl.settle (some o) sc=some sc := by
  simp [ZAddFlags.settle,hnx,hgt,hlt]

theorem settle_none (hxx : fl.xx=false) (sc : F) : fl.settle (none : Option F) sc=some sc := by
  simp [ZAddFlags.settle,hxx]

omit [Float64 F] in
theorem foldl_last (scores : List F) (o : F) :
    some (scores.foldl (fun _ sc => sc) o)=(o::scores).getLast? := by
  induction scores generalizing o with
  | nil => rfl
  | cons sc scores ih => rw [List.foldl_cons,ih,List.getLast?_cons_cons]

theorem foldl_settle_absent (hxx : fl.xx=true) (scores : List F) :
    scores.foldl fl.settle none=none := by
  induction scores with
  | nil => rfl
  | cons sc scores ih =>
    have hstay : fl.settle (none : Option F) sc=none := by simp [ZAddFlags.settle,hxx]
    rw [List.foldl_cons,hstay,ih]

theorem foldl_settle_start {g : F → F → F} (hg : ∀ o sc, fl.settle (some o) sc=some (g o sc))
    {old : Option F} (hold : ¬(fl.xx ∧ old=none)) {scores : List F} (hne : scores ≠ []) :
    ∃ o rest, old.toList++scores=o::rest ∧
      scores.foldl fl.settle old=some (rest.foldl g o) := by
  cases old with
  | some o => exact ⟨o,scores,rfl,foldl_combine hg scores o⟩
  | none =>
    obtain ⟨sc,rest,rfl⟩ := List.exists_cons_of_ne_nil hne
    have hxx : fl.xx=false := by simpa using hold
    refine ⟨sc,rest,rfl,?_⟩
    rw [List.foldl_cons,settle_none hxx,foldl_combine hg]

theorem foldl_settle (hnx : ¬(fl.nx ∧ fl.xx)) (hboth : ¬(fl.gt ∧ fl.lt)) (old : Option F)
    {scores : List F} (hne : scores ≠ []) :
    scores.foldl fl.settle old=fl.finalScore old scores := by
  unfold ZAddFlags.finalScore
  split_ifs with hxx hnx₁ hgt hlt
  · obtain ⟨hxx,rfl⟩ := hxx
    exact foldl_settle_absent hxx scores
  · have hkeep : ∀ o sc : F, fl.settle (some o) sc=some o := by
      intro o sc
      simp [ZAddFlags.settle,hnx₁]
    cases old with
    | some o =>
      rw [foldl_keep (hkeep o)]
      rfl
    | none =>
      obtain ⟨sc,rest,rfl⟩ := List.exists_cons_of_ne_nil hne
      have hfalse : fl.xx=false := by simpa [hnx₁] using hnx
      rw [List.foldl_cons,settle_none hfalse,foldl_keep (hkeep sc)]
      rfl
  · have hlt : fl.lt=false := by simpa [hgt] using hboth
    have hnx₂ : fl.nx=false := by simpa using hnx₁
    obtain ⟨o,rest,hlist,hfold⟩ := foldl_settle_start (settle_gt hgt hnx₂ hlt) hxx hne
    rw [hfold,hlist,List.max?_cons']
  · have hgt₂ : fl.gt=false := by simpa using hgt
    have hnx₂ : fl.nx=false := by simpa using hnx₁
    obtain ⟨o,rest,hlist,hfold⟩ := foldl_settle_start (settle_lt hlt hnx₂ hgt₂) hxx hne
    rw [hfold,hlist,List.min?_cons']
  · have hgt₂ : fl.gt=false := by simpa using hgt
    have hlt₂ : fl.lt=false := by simpa using hlt
    have hnx₂ : fl.nx=false := by simpa using hnx₁
    obtain ⟨o,rest,hlist,hfold⟩ := foldl_settle_start (settle_plain hnx₂ hgt₂ hlt₂) hxx hne
    rw [hfold,foldl_last,← hlist,List.getLast?_append,Option.or_of_isSome]
    simpa using hne

theorem zAddMember_updates (fl : ZAddFlags) :
    Keyed.Updates (fun (acc : Int × Map F) x => acc.2[x]?) ZMember.member
      (fun old m => fl.settle old m.score) (zAddMember fl) := by
  intro acc m x
  dsimp only
  by_cases hx : m.member=x
  · subst hx
    rw [if_pos rfl,zAddMember]
    cases hold : acc.2[m.member]? with
    | none =>
      simp only [ZAddFlags.settle]
      split_ifs
      · exact hold
      · rw [Map.getElem?_insert,if_pos rfl]
    | some o =>
      simp only [ZAddFlags.settle]
      split_ifs
      all_goals first | exact hold | rw [Map.getElem?_insert,if_pos rfl]
  · rw [if_neg hx,zAddMember]
    cases acc.2[m.member]? with
    | none =>
      dsimp only
      split_ifs
      · rfl
      · rw [Map.getElem?_insert,if_neg hx]
    | some o =>
      dsimp only
      split_ifs
      all_goals first | rfl | rw [Map.getElem?_insert,if_neg hx]

theorem zAddMember_size (hch : fl.ch=false) (acc : Int × Map F) (m : ZMember F) :
    (zAddMember fl acc m).1-(zAddMember fl acc m).2.size=acc.1-acc.2.size := by
  rw [zAddMember]
  cases hold : acc.2[m.member]? with
  | none =>
    have hnew : m.member ∉ acc.2 := by
      rw [Std.ExtTreeMap.mem_iff_isSome_getElem?,hold]
      simp
    dsimp only
    split_ifs
    · rfl
    · dsimp only
      rw [Std.ExtTreeMap.size_insert,if_neg (by simpa using hnew)]
      push_cast
      omega
  | some o =>
    have hmem : m.member ∈ acc.2 := by
      rw [Std.ExtTreeMap.mem_iff_isSome_getElem?,hold]
      rfl
    simp only [hch,Bool.false_eq_true,false_and,if_false]
    split_ifs
    all_goals first
      | rfl
      | (dsimp only; rw [Std.ExtTreeMap.size_insert,if_pos (by simpa using hmem)])

theorem foldl_zAddMember_size (hch : fl.ch=false) (ms : List (ZMember F)) (acc : Int × Map F) :
    (ms.foldl (zAddMember fl) acc).1-(ms.foldl (zAddMember fl) acc).2.size=acc.1-acc.2.size := by
  exact Loops.foldl_constant (fun acc : Int × Map F => acc.1-acc.2.size) (zAddMember_size hch) ms acc

theorem zAddMember_changed (hch : fl.ch=true) (acc : Int × Map F) (m : ZMember F) :
    (zAddMember fl acc m).1=
      acc.1+if fl.settle acc.2[m.member]? m.score=acc.2[m.member]? then 0 else 1 := by
  rw [zAddMember]
  cases acc.2[m.member]? with
  | none =>
    simp only [ZAddFlags.settle]
    split_ifs <;> simp_all
  | some o =>
    simp only [ZAddFlags.settle,hch,true_and]
    split_ifs <;> simp_all

theorem foldl_zAddMember (hnx : ¬(fl.nx ∧ fl.xx)) (hboth : ¬(fl.gt ∧ fl.lt))
    (ms : List (ZMember F)) (acc : Int × Map F) (x : Bytes) :
    (ms.foldl (zAddMember fl) acc).2[x]?=
      if x ∈ ms.map ZMember.member then fl.finalScore acc.2[x]? (listedScores ms x)
      else acc.2[x]? := by
  split_ifs with hx
  · have hne : listedScores ms x ≠ [] := by
      obtain ⟨m,hm,hmx⟩ := List.mem_map.mp hx
      rw [listedScores,Ne,List.map_eq_nil_iff,List.filter_eq_nil_iff]
      intro hall
      exact hall m hm (by simpa using hmx)
    rw [(zAddMember_updates fl).get_foldl ms acc x,← foldl_settle hnx hboth _ hne,listedScores,
      List.foldl_map]
  · exact (zAddMember_updates fl).get_foldl_of_notMem hx acc

namespace MemoryStore
variable {s : MemoryStore F} {now : Int} {key : Bytes}

omit [Float64 F] in
theorem typeOf_putZSet (h : s.typeOf now key=none ∨ s.typeOf now key=some .zset)
    (hexp : s.keyExpiredNonStr now key=false) (z : Map F) :
    (s.putZSet key z).typeOf now key=some .zset := by
  have hexp' : (s.putZSet key z).keyExpiredNonStr now key=false := hexp
  have hmem : key ∈ (s.putZSet key z).zsets := by simp [putZSet]
  simp only [Maps.typeOf,hexp,hexp',hmem,Bool.not_false] at h ⊢
  split_ifs at h with h₁ h₂ h₃ h₄ h₅
  all_goals simp_all [putZSet,Maps.liveString]

theorem zAdd_eq (h : s.typeOf now key=none ∨ s.typeOf now key=some .zset)
    (ms : List (ZMember F)) (fl : ZAddFlags) :
    s.zAdd now key ms fl=.ok ((ms.foldl (zAddMember fl) (0,s.zsets.getD key ∅)).1,
      (s.putZSet key (ms.foldl (zAddMember fl) (0,s.zsets.getD key ∅)).2).bumpVersion key) := by
  have hguard : s.zsetGuard now key=true := by simpa [zsetGuard] using h
  rw [zAdd,if_pos hguard]

end MemoryStore
end GoRedis
