import GoRedis.Lib.Slices
import GoRedis.Storage.Ranks
/-!
# Ranges of lists and sorted sets

The index arithmetic of the source selects a slice, and its `LIMIT` loops select a window of the
elements they accept.
-/
namespace GoRedis

section Lists
variable {α : Type}

theorem clampRange_eq (start stop : Int) (n : Nat) :
    clampRange start stop n=(Slices.first start n,Slices.last stop n) := by
  unfold clampRange Slices.first Slices.last Slices.position
  refine Prod.ext ?_ ?_
  · dsimp only
    split_ifs <;> omega
  · dsimp only
    split_ifs <;> omega

theorem slice_clampRange (start stop : Int) (l : List α) :
    (if (clampRange start stop l.length).2 < (clampRange start stop l.length).1 then []
      else slice l (clampRange start stop l.length).1 (clampRange start stop l.length).2)=
      Slices.range start stop l := by
  rw [clampRange_eq]
  split_ifs with hempty
  · exact (Slices.range_eq_nil_iff.mpr hempty).symm
  · have hlen : Slices.last stop l.length-Slices.first start l.length+1=
        Slices.last stop l.length+1-Slices.first start l.length := by omega
    rw [slice,Slices.range_eq_take,hlen]

theorem limitLoop_eq (accept : α → Bool) (offset count skipped taken : Int) (l : List α) :
    limitLoop accept offset count skipped taken l=
      if count < 0 then (l.filter accept).drop (offset-skipped).toNat
      else ((l.filter accept).drop (offset-skipped).toNat).take (count-taken).toNat := by
  induction l generalizing skipped taken with
  | nil => simp [limitLoop]
  | cons x l ih =>
    rw [limitLoop]
    cases hx : accept x with
    | false =>
      rw [List.filter_cons_of_neg (by simp [hx]),← ih]
      rfl
    | true =>
      rw [List.filter_cons_of_pos hx]
      by_cases hskip : skipped < offset
      · have hdrop : (offset-skipped).toNat=(offset-(skipped+1)).toNat+1 := by omega
        rw [if_neg (by simp),if_pos hskip,ih,hdrop,List.drop_succ_cons]
      · have hdrop : (offset-skipped).toNat=0 := by omega
        rw [if_neg (by simp),if_neg hskip,ih,hdrop,List.drop_zero,List.drop_zero]
        by_cases hcount : count < 0
        · rw [if_neg (by omega),if_pos hcount,if_pos hcount]
        · by_cases hfull : count ≤ taken
          · have htake : (count-taken).toNat=0 := by omega
            rw [if_pos ⟨by omega,hfull⟩,if_neg hcount,htake,List.take_zero]
          · have htake : (count-taken).toNat=(count-(taken+1)).toNat+1 := by omega
            rw [if_neg (by omega),if_neg hcount,if_neg hcount,htake,List.take_succ_cons]

theorem limitLoop_window (accept : α → Bool) (offset count : Int) (l : List α) :
    limitLoop accept offset count 0 0 l=
      Slices.window offset.toNat count (l.filter accept) := by
  rw [limitLoop_eq,Slices.window,sub_zero,sub_zero]

end Lists

variable {F : Type} [Float64 F] {z : Map F} {m : Maps F} {now : Int} {key : Bytes}
  {oz : Option (Map F)}

theorem mem_sortedMembers {e : ZMember F} : e ∈ sortedMembers z ↔ z[e.member]?=some e.score := by
  rw [(sortedMembers_perm z).mem_iff,zMembers,List.mem_map]
  constructor
  · rintro ⟨p,hp,rfl⟩
    exact Std.ExtTreeMap.mem_toList_iff_getElem?_eq_some.mp hp
  · intro h
    exact ⟨(e.member,e.score),Std.ExtTreeMap.mem_toList_iff_getElem?_eq_some.mpr h,rfl⟩

theorem mem_sortedMembers_keys {x : Bytes} : x ∈ (sortedMembers z).map ZMember.member ↔ x ∈ z := by
  rw [((sortedMembers_perm z).map _).mem_iff,zMembers_map_member,Std.ExtTreeMap.mem_keys]

@[simp] theorem sortedMembers_empty : sortedMembers (∅ : Map F)=[] := by
  rw [← List.length_eq_zero_iff,length_sortedMembers,Std.ExtTreeMap.size_empty]

theorem Maps.zRange_eq (hz : m.getZSet now key=.ok oz) (start stop : Int) (rev scores : Bool) :
    m.zRange now key start stop rev scores=.ok (withScores scores
      (if rev then (Slices.range start stop (sortedMembers (oz.getD ∅))).reverse
        else Slices.range start stop (sortedMembers (oz.getD ∅)))) := by
  have hnone : Slices.range start stop ([] : List (ZMember F))=[] := rfl
  simp only [zRange,hz,Except.map]
  cases oz with
  | none =>
    simp only [Option.getD_none,sortedMembers_empty,hnone,List.reverse_nil,ite_self]
    rfl
  | some z =>
    dsimp only [Option.getD_some]
    by_cases hnil : sortedMembers z=[]
    · simp only [hnil,if_true,hnone,List.reverse_nil,ite_self]
      rfl
    · rw [if_neg hnil,← slice_clampRange,zRangeBounds_eq_clampRange]
      split_ifs <;> rfl

/-- A score is within two bounds, each a value and whether it is left out. -/
def ScoreWithin (min max : F × Bool) (sc : F) : Prop :=
  (if min.2 then min.1 < sc else min.1 ≤ sc) ∧ if max.2 then sc < max.1 else sc ≤ max.1

instance (min max : F × Bool) (sc : F) : Decidable (ScoreWithin min max sc) :=
  inferInstanceAs (Decidable (_ ∧ _))

/-- The members whose score is within the bounds, in the order of the sorted set. -/
def scoresWithin (z : Map F) (min max : F × Bool) : List (ZMember F) :=
  (sortedMembers z).filter fun e => ScoreWithin min max e.score

theorem mem_scoresWithin {min max : F × Bool} {e : ZMember F} :
    e ∈ scoresWithin z min max ↔ z[e.member]?=some e.score ∧ ScoreWithin min max e.score := by
  rw [scoresWithin,List.mem_filter,mem_sortedMembers,decide_eq_true_iff]

theorem scoresWithin_sorted (z : Map F) (min max : F × Bool) :
    (scoresWithin z min max).Pairwise zLess := (sortedMembers_strict z).filter _

theorem scoresWithin_empty (min max : F × Bool) : scoresWithin (∅ : Map F) min max=[] := by
  rw [scoresWithin,sortedMembers_empty]
  rfl

theorem scoreInRange_eq (min max : F × Bool) (sc : F) :
    scoreInRange min.1 max.1 min.2 max.2 sc=decide (ScoreWithin min max sc) := by
  obtain ⟨min,minExcl⟩ := min
  obtain ⟨max,maxExcl⟩ := max
  rw [Bool.eq_iff_iff]
  cases minExcl <;> cases maxExcl <;> simp [scoreInRange,ScoreWithin]

theorem Maps.zRangeByScore_eq (hz : m.getZSet now key=.ok oz) (min max : F × Bool)
    (scores : Bool) (offset count : Int) :
    m.zRangeByScore now key min.1 max.1 min.2 max.2 scores offset count=.ok (withScores scores
      (Slices.window offset.toNat count (scoresWithin (oz.getD ∅) min max))) := by
  simp only [zRangeByScore,hz,Except.map,limitLoop_window]
  cases oz with
  | none =>
    rw [Option.getD_none,scoresWithin_empty]
    simp [Slices.window,withScores]
  | some z => simp only [Option.getD_some,scoreInRange_eq,scoresWithin]

theorem Maps.zRevRangeByScore_eq (hz : m.getZSet now key=.ok oz) (min max : F × Bool)
    (scores : Bool) (offset count : Int) :
    m.zRevRangeByScore now key max.1 min.1 max.2 min.2 scores offset count=.ok (withScores scores
      (Slices.window offset.toNat count (scoresWithin (oz.getD ∅) min max).reverse)) := by
  simp only [zRevRangeByScore,hz,Except.map,limitLoop_window,List.filter_reverse]
  cases oz with
  | none =>
    rw [Option.getD_none,scoresWithin_empty]
    simp [Slices.window,withScores]
  | some z => simp only [Option.getD_some,scoreInRange_eq,scoresWithin]

theorem Maps.zCount_eq (hz : m.getZSet now key=.ok oz) (min max : F × Bool) :
    m.zCount now key min.1 max.1 min.2 max.2=.ok (scoresWithin (oz.getD ∅) min max).length := by
  simp only [zCount,hz,Except.map]
  cases oz with
  | none =>
    rw [Option.getD_none,scoresWithin_empty]
    rfl
  | some z =>
    dsimp only [Option.getD_some]
    rw [scoresWithin,← List.countP_eq_length_filter,(sortedMembers_perm z).countP_eq]
    congr 2
    funext e
    obtain ⟨min,minExcl⟩ := min
    obtain ⟨max,maxExcl⟩ := max
    cases minExcl <;> cases maxExcl <;> simp [ScoreWithin]

theorem withScores_true_getElem? {es : List (ZMember F)} {i : Nat} {e : ZMember F}
    (he : es[i]?=some e) : (withScores true es)[2*i]?=some e.member ∧
      (withScores true es)[2*i+1]?=some (formatScore e.score) := by
  induction es generalizing i with
  | nil => cases he
  | cons e' es ih =>
    have hcons : withScores true (e'::es)=e'.member::formatScore e'.score::withScores true es := rfl
    rw [hcons]
    cases i with
    | zero =>
      cases he
      exact ⟨rfl,rfl⟩
    | succ i => exact ih he

/-- A bound of a lexicographic range. -/
inductive LexEnd
  | neg
  | pos
  | incl (v : Bytes)
  | excl (v : Bytes)
  deriving DecidableEq, Repr

namespace LexEnd

/-- How a client writes it. -/
def text : LexEnd → Bytes
  | neg => utf8 "-"
  | pos => utf8 "+"
  | incl v => 91::v
  | excl v => 40::v

/-- The bound a text stands for; a text of no other form is the bound itself. -/
def ofText (s : Bytes) : LexEnd :=
  if s=utf8 "-" then neg
  else if s=utf8 "+" then pos
  else match stripByte 40 s,stripByte 91 s with
    | some v,_ => excl v
    | none,some v => incl v
    | none,none => incl s

/-- The bound lies below a member, or at it where it is included. -/
def Below (x : Bytes) : LexEnd → Prop
  | neg => True
  | pos => False
  | incl v => compare v x ≠ .gt
  | excl v => compare v x=.lt

/-- The bound lies above a member, or at it where it is included. -/
def Above (x : Bytes) : LexEnd → Prop
  | neg => False
  | pos => True
  | incl v => compare x v ≠ .gt
  | excl v => compare x v=.lt

instance (x : Bytes) : (b : LexEnd) → Decidable (b.Below x)
  | neg => .isTrue trivial
  | pos => .isFalse id
  | incl v => inferInstanceAs (Decidable (compare v x ≠ .gt))
  | excl v => inferInstanceAs (Decidable (compare v x=.lt))

instance (x : Bytes) : (b : LexEnd) → Decidable (b.Above x)
  | neg => .isFalse id
  | pos => .isTrue trivial
  | incl v => inferInstanceAs (Decidable (compare x v ≠ .gt))
  | excl v => inferInstanceAs (Decidable (compare x v=.lt))

@[simp] theorem ofText_text (b : LexEnd) : ofText b.text=b := by
  have hneg : utf8 "-"=[45] := by decide
  have hpos : utf8 "+"=[43] := by decide
  cases b <;> simp [text,ofText,hneg,hpos,stripByte]

/-- What `ZRangeByLex` takes a lower bound for: it has no test for `+`. -/
def asMin : LexEnd → LexEnd
  | pos => incl []
  | b => b

/-- What `ZRangeByLex` takes an upper bound for: it has no test for `-`. -/
def asMax : LexEnd → LexEnd
  | neg => incl []
  | b => b

/-- The flags a bound is parsed into. -/
def parsed : LexEnd → LexBound
  | neg => ⟨[],false,true,false⟩
  | pos => ⟨[],false,false,true⟩
  | incl v => ⟨v,false,false,false⟩
  | excl v => ⟨v,true,false,false⟩

theorem parseLexBound_eq (s : Bytes) : parseLexBound s=(ofText s).parsed := by
  unfold parseLexBound ofText
  split_ifs with hneg hpos
  · rfl
  · rfl
  · cases stripByte 40 s with
    | some v => rfl
    | none => cases stripByte 91 s <;> rfl

/-- The members between two bounds. -/
def Within (min max : LexEnd) (x : Bytes) : Prop := min.Below x ∧ max.Above x

instance (min max : LexEnd) (x : Bytes) : Decidable (Within min max x) :=
  inferInstanceAs (Decidable (_ ∧ _))

theorem lexInRange_eq (min max : LexEnd) (x : Bytes) :
    lexInRange min.parsed max.parsed x=decide (Within min.asMin max.asMax x) := by
  have hlow : ∀ v, compare x v=.lt ↔ compare v x=.gt := fun v => Std.OrientedCmp.gt_iff_lt.symm
  have hlow' : ∀ v, compare x v=.gt ↔ compare v x=.lt := fun v => Std.OrientedCmp.gt_iff_lt
  rw [Bool.eq_iff_iff]
  cases min <;> cases max <;>
    simp [lexInRange,parsed,Within,asMin,asMax,Below,Above,hlow,hlow']

theorem compare_nil_ne_gt (x : Bytes) : compare ([] : Bytes) x ≠ .gt := by
  cases x <;> nofun

theorem compare_nil_right (x : Bytes) : compare x ([] : Bytes) ≠ .gt ↔ x=[] := by
  cases x with
  | nil => simp
  | cons b x =>
    have hgt : compare (b::x) ([] : Bytes)=.gt := rfl
    simp [hgt]

theorem below_nil (b : LexEnd) : b.Below [] ↔ b=neg ∨ b=incl [] := by
  have hlt : ∀ v : Bytes, compare v ([] : Bytes) ≠ .lt := by
    intro v h
    rw [← Std.OrientedCmp.gt_iff_lt] at h
    exact compare_nil_ne_gt v h
  cases b with
  | neg => simp [Below]
  | pos => simp [Below]
  | incl v => simp only [Below,compare_nil_right,reduceCtorEq,incl.injEq,false_or]
  | excl v => simp [Below,hlt]

theorem asMin_of_ne {b : LexEnd} (h : b ≠ pos) : b.asMin=b := by
  cases b <;> first | rfl | exact absurd rfl h

theorem asMax_of_ne {b : LexEnd} (h : b ≠ neg) : b.asMax=b := by
  cases b <;> first | rfl | exact absurd rfl h

theorem Within.asRead {min max : LexEnd} {x : Bytes} (h : Within min max x) :
    Within min.asMin max.asMax x := by
  cases min with
  | pos => exact absurd h.1 id
  | neg | incl v | excl v =>
    cases max with
    | neg => exact absurd h.2 id
    | pos | incl v | excl v => exact h

/-- The members a misread bound lets through: with `+` as the lower bound what is below the upper
one, and with `-` as the upper bound the empty member, unless the lower bound is above it. -/
theorem misread_iff {min max : LexEnd} {x : Bytes} :
    Within min.asMin max.asMax x ∧ ¬Within min max x ↔
      min=pos ∧ max.Above x ∨ max=neg ∧ x=[] ∧ (min=neg ∨ min=pos ∨ min=incl []) := by
  by_cases hmax : max=neg
  · subst hmax
    have habove : neg.asMax.Above x ↔ x=[] := compare_nil_right x
    have hempty : min.asMin.Below [] ↔ min=neg ∨ min=pos ∨ min=incl [] := by
      rw [below_nil]
      cases min <;> simp [asMin]
    have hnone : ¬neg.Above x := id
    simp only [Within,habove,hnone,and_false,not_false_eq_true,and_true,false_or,true_and]
    constructor
    · rintro ⟨hbelow,rfl⟩
      exact ⟨rfl,hempty.mp hbelow⟩
    · rintro ⟨rfl,hmin⟩
      exact ⟨hempty.mpr hmin,rfl⟩
  · have hsame := asMax_of_ne hmax
    cases min with
    | pos =>
      have hbelow : asMin pos |>.Below x := compare_nil_ne_gt x
      have hnone : ¬pos.Below x := id
      simp [Within,hsame,hmax,hbelow,hnone]
    | neg | incl v | excl v => simp [Within,hsame,hmax,asMin]

omit [Float64 F] in
theorem read_iff (min max : LexEnd) (z : Map F) :
    (∀ x ∈ z, Within min.asMin max.asMax x ↔ Within min max x) ↔
      (min=pos → ∀ x ∈ z, ¬max.Above x) ∧
      (max=neg → [] ∈ z → min ≠ neg ∧ min ≠ pos ∧ min ≠ incl []) := by
  have hmis : (∀ x ∈ z, Within min.asMin max.asMax x ↔ Within min max x) ↔
      ∀ x ∈ z, ¬(Within min.asMin max.asMax x ∧ ¬Within min max x) := by
    refine forall₂_congr fun x _ => ?_
    have hread : Within min max x → Within min.asMin max.asMax x := Within.asRead
    tauto
  rw [hmis]
  simp only [misread_iff,not_or,not_and]
  constructor
  · intro h
    exact ⟨fun hmin x hx => (h x hx).1 hmin,fun hmax hx => (h [] hx).2 hmax rfl⟩
  · rintro ⟨hmin,hmax⟩ x hx
    refine ⟨fun h => hmin h x hx,fun h hnil => hmax h (hnil ▸ hx)⟩

end LexEnd

/-- All members have one score. -/
def SameScore (z : Map F) : Prop :=
  ∀ (x y : Bytes) (a b : F), z[x]?=some a → z[y]?=some b → a=b

/-- The members between two bounds, in the order of the sorted set. -/
def namesWithin (z : Map F) (min max : LexEnd) : List Bytes :=
  ((sortedMembers z).map ZMember.member).filter fun x => LexEnd.Within min max x

theorem mem_namesWithin {min max : LexEnd} {x : Bytes} :
    x ∈ namesWithin z min max ↔ x ∈ z ∧ LexEnd.Within min max x := by
  rw [namesWithin,List.mem_filter,mem_sortedMembers_keys,decide_eq_true_iff]

theorem namesWithin_nodup (z : Map F) (min max : LexEnd) : (namesWithin z min max).Nodup :=
  (sortedMembers_keys_nodup z).sublist List.filter_sublist

theorem namesWithin_sorted (hsame : SameScore z) (min max : LexEnd) :
    (namesWithin z min max).Pairwise fun x y => compare x y=.lt := by
  apply List.Pairwise.filter
  rw [List.pairwise_map]
  refine (sortedMembers_strict z).imp_of_mem fun {a b} ha hb hlt => ?_
  have hscore : a.score=b.score :=
    hsame _ _ _ _ (mem_sortedMembers.mp ha) (mem_sortedMembers.mp hb)
  rcases hlt with hlt | ⟨_,hlt⟩
  · exact absurd hscore hlt.ne
  · exact hlt

theorem length_namesWithin (z : Map F) (min max : LexEnd) :
    (namesWithin z min max).length=z.keys.countP fun x => LexEnd.Within min max x := by
  rw [namesWithin,← List.countP_eq_length_filter,((sortedMembers_perm z).map _).countP_eq,
    zMembers_map_member]

theorem reverse_namesWithin_sorted (hsame : SameScore z) (min max : LexEnd) :
    (namesWithin z min max).reverse.Pairwise fun x y => compare x y=.gt := by
  rw [List.pairwise_reverse]
  exact (namesWithin_sorted hsame min max).imp Std.OrientedCmp.gt_iff_lt.mpr

theorem eq_reverse_namesWithin (hsame : SameScore z) {min max : LexEnd} {xs : List Bytes}
    (hxs : xs.Pairwise fun x y => compare x y=.gt)
    (hmem : ∀ x, x ∈ xs ↔ x ∈ z ∧ LexEnd.Within min max x) :
    xs=(namesWithin z min max).reverse := by
  have hdesc := reverse_namesWithin_sorted hsame min max
  have hne : ∀ {x y : Bytes}, compare x y=.gt → x ≠ y := by
    rintro x y h rfl
    simp at h
  have hperm : xs.Perm (namesWithin z min max).reverse := by
    rw [List.perm_ext_iff_of_nodup (hxs.imp hne) (hdesc.imp hne)]
    intro x
    rw [hmem,List.mem_reverse,mem_namesWithin]
  refine hperm.eq_of_pairwise (fun x y _ _ hxy hyx => ?_) hxs hdesc
  rw [Std.OrientedCmp.gt_iff_lt] at hyx
  rw [hyx] at hxy
  cases hxy

theorem namesWithin_eq_nil {min max : LexEnd} (h : min=.pos ∨ max=.neg) :
    namesWithin z min max=[] := by
  rw [List.eq_nil_iff_forall_not_mem]
  intro x hx
  obtain ⟨_,hbelow,habove⟩ := mem_namesWithin.mp hx
  rcases h with rfl | rfl
  · exact hbelow
  · exact habove

theorem Maps.zRangeByLex_eq (hz : m.getZSet now key=.ok oz) (a b : Bytes) (offset count : Int) :
    m.zRangeByLex now key a b offset count=.ok (Slices.window offset.toNat count
      (namesWithin (oz.getD ∅) (LexEnd.ofText a).asMin (LexEnd.ofText b).asMax)) := by
  simp only [zRangeByLex,hz,Except.map,limitLoop_window,LexEnd.parseLexBound_eq]
  cases oz with
  | none =>
    rw [Option.getD_none,namesWithin,sortedMembers_empty]
    simp [Slices.window]
  | some z =>
    simp only [Option.getD_some,namesWithin]
    congr 3
    funext x
    exact LexEnd.lexInRange_eq _ _ x

end GoRedis
