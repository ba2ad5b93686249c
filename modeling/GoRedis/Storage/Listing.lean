import GoRedis.Storage.Scan
import GoRedis.Storage.View
/-!
# How often a key is listed

`Len` and `allKeys` go through the five maps one after the other. A key is listed once for every
entry of it that they take for live, and their test of a string is not the one of `typeOf`: at
the very instant of its deadline a string is still there, but no longer listed.
-/
namespace GoRedis
variable {F : Type}

/-- The test that `Len` and `allKeys` make of a string: the deadline lies ahead. -/
def StrEntry.ahead (now : Int) (e : StrEntry) : Bool :=
  match e.expiresAt with
  | none => true
  | some t => now < t

theorem StrEntry.ahead_iff (now : Int) (e : StrEntry) :
    e.ahead now=true ↔ expired now e.expiresAt=false ∧ e.expiresAt ≠ some now := by
  unfold ahead expired
  cases e.expiresAt with
  | none => simp
  | some t =>
    simp only [decide_eq_true_eq,decide_eq_false_iff_not,ne_eq,Option.some.injEq]
    omega

namespace Row
variable (r : Row F) (now : Int)

/-- The number of entries of a key in the maps without own deadlines that have not expired. -/
def collections : Nat :=
  if expired now r.expiry then 0
  else r.hash.isSome.toNat+r.list.isSome.toNat+r.set.isSome.toNat+r.zset.isSome.toNat

/-- The number of times that a key is listed. -/
def listed : Nat := (r.string.any (·.ahead now)).toNat+r.collections now

theorem typeOf_ne_none_iff : r.typeOf now ≠ none ↔
    (∃ e, r.string=some e ∧ expired now e.expiresAt=false) ∨ 0 < r.collections now := by
  obtain ⟨str,h,l,st,z,x⟩ := r
  unfold typeOf collections
  cases hx : expired now x with
  | true =>
    cases str with
    | none => simp
    | some e => cases he : expired now e.expiresAt <;> simp [Option.filter,he]
  | false =>
    cases str with
    | none => cases h <;> cases l <;> cases st <;> cases z <;> simp
    | some e =>
      cases he : expired now e.expiresAt <;> cases h <;> cases l <;> cases st <;> cases z <;>
        simp [Option.filter,he]

theorem typeOf_ne_none_of_listed (h : 0 < r.listed now) : r.typeOf now ≠ none := by
  rw [typeOf_ne_none_iff]
  by_cases hc : 0 < r.collections now
  · exact .inr hc
  · cases hs : r.string with
    | none =>
      simp only [listed,hs,Option.any_none,Bool.toNat_false,Nat.zero_add] at h
      exact absurd h hc
    | some e =>
      have hahead : e.ahead now=true := by
        by_contra hno
        simp only [listed,hs,Option.any_some,Bool.eq_false_of_not_eq_true hno,Bool.toNat_false,
          Nat.zero_add] at h
        exact hc h
      exact .inl ⟨e,rfl,((e.ahead_iff now).mp hahead).1⟩

/-- What a key needs for all views of it to agree: one live entry at most, and a string only by
itself. At the instant of its deadline a string is not listed, and only a collection of the same
name makes up for it. -/
def Clear : Prop :=
  match r.string with
  | none => r.collections now ≤ 1
  | some e => r.collections now=if e.expiresAt=some now then 1 else 0

/-- `TTL` takes the key for missing: it looks at the string first, and at the other maps only
when there is no string. -/
def NoTTL : Prop :=
  match r.string with
  | none => r.typeOf now=none
  | some e => expired now e.expiresAt=true

theorem clear_iff : r.Clear now ↔
    (r.typeOf now ≠ none → r.listed now=1) ∧ (r.NoTTL now ↔ r.typeOf now=none) := by
  have htype := r.typeOf_ne_none_iff now
  cases hs : r.string with
  | none =>
    simp only [hs,reduceCtorEq,false_and,exists_false,false_or] at htype
    simp only [Clear,NoTTL,listed,hs,htype,Option.any_none,Bool.toNat_false,and_true]
    omega
  | some e =>
    simp only [hs,Option.some.injEq,exists_eq_left'] at htype
    simp only [Clear,NoTTL,listed,hs,Option.any_some]
    by_cases hexp : expired now e.expiresAt=true
    · -- a string that has expired hides a collection from `TTL` only
      have hnow : e.expiresAt ≠ some now := by
        rintro he
        simp [he,expired] at hexp
      have hnone : r.typeOf now=none ↔ r.collections now=0 := by
        rw [← not_iff_not]
        simp only [hexp,Bool.true_eq_false,false_or] at htype
        rw [← ne_eq,htype]
        omega
      rw [if_neg hnow,hnone]
      simp [hexp]
      tauto
    · have hlive : r.typeOf now ≠ none := htype.mpr (.inl (Bool.eq_false_of_not_eq_true hexp))
      have hahead := e.ahead_iff now
      by_cases hnow : e.expiresAt=some now
      · have : e.ahead now=false := by simpa [hnow] using hahead
        simp [hnow,this,hlive,expired]
      · have : e.ahead now=true := hahead.mpr ⟨Bool.eq_false_of_not_eq_true hexp,hnow⟩
        simp [hnow,this,hlive,hexp]

end Row

/-- `sort.Strings` puts the strings in this order. -/
def notAfter (a b : Bytes) : Prop := compare a b ≠ .gt

instance : DecidableRel notAfter := fun a b => inferInstanceAs (Decidable (compare a b ≠ .gt))

theorem notAfter_iff (a b : Bytes) : notAfter a b ↔ (compare a b).isLE=true := by
  unfold notAfter
  cases compare a b <;> decide

instance : Std.Refl notAfter := ⟨fun a => by simp [notAfter]⟩

instance : IsTrans Bytes notAfter := ⟨fun a b c hab hbc => by
  rw [notAfter_iff] at *
  exact Std.TransCmp.isLE_trans hab hbc⟩

instance : Std.Total notAfter := ⟨fun a b => by
  by_cases h : compare a b=.gt
  · right
    rw [notAfter,Std.OrientedCmp.gt_iff_lt.mp h]
    decide
  · exact .inl h⟩

instance : Std.Antisymm notAfter := ⟨fun a b hab hba => by
  rw [notAfter_iff] at *
  exact (compare_eq_iff a b).mp (Std.OrientedCmp.isLE_antisymm hab hba)⟩

theorem sortStrings_perm (l : List Bytes) : (sortStrings l).Perm l :=
  List.perm_insertionSort notAfter l

theorem sortStrings_sorted (l : List Bytes) : (sortStrings l).Pairwise notAfter :=
  List.pairwise_insertionSort notAfter l

theorem Map.count_keys {V : Type} (m : Map V) (k : Bytes) :
    m.keys.count k=m[k]?.isSome.toNat := by
  have hnodup : m.keys.Nodup := Std.ExtTreeMap.nodup_keys
  rw [hnodup.count]
  simp only [Std.ExtTreeMap.mem_keys,Std.ExtTreeMap.mem_iff_isSome_getElem?]
  cases m[k]? <;> rfl

namespace Maps
variable (m : Maps F) (now : Int)

theorem len_eq_length_allKeys : m.len now=(m.allKeys now).length := by
  rw [allKeys,(sortStrings_perm _).length_eq,List.length_append,len]

theorem sorted_allKeys : (m.allKeys now).Pairwise notAfter := sortStrings_sorted _

theorem allKeys_eq_sort : m.allKeys now=sortStrings
    ((m.strings.toList.filter fun p => p.2.ahead now).map Prod.fst++m.collectionKeys now) := by
  have hkeys : m.countedStrings now=(m.strings.filter fun _ e => e.ahead now).keys := rfl
  rw [allKeys,hkeys,← Std.ExtTreeMap.map_fst_toList_eq_keys,Std.ExtTreeMap.toList_filter]

theorem count_countedStrings (k : Bytes) :
    (m.countedStrings now).count k=((m.row k).string.any (·.ahead now)).toNat := by
  have hkeys : m.countedStrings now=(m.strings.filter fun _ e => e.ahead now).keys := rfl
  rw [hkeys,Map.count_keys,Std.ExtTreeMap.getElem?_filter',Option.isSome_filter]
  rfl

theorem count_collectionKeys (k : Bytes) :
    (m.collectionKeys now).count k=(m.row k).collections now := by
  rw [collectionKeys,Row.collections]
  cases hx : m.keyExpiredNonStr now k with
  | true =>
    have hx' : expired now (m.row k).expiry=true := hx
    rw [if_pos hx',List.count_eq_zero]
    simp [hx]
  | false =>
    have hx' : expired now (m.row k).expiry=false := hx
    rw [if_neg (by simp [hx']),List.count_filter (by simp [hx])]
    simp only [List.count_append,Map.count_keys,row]

theorem count_allKeys (k : Bytes) : (m.allKeys now).count k=(m.row k).listed now := by
  rw [allKeys,(sortStrings_perm _).count_eq,List.count_append,count_countedStrings,
    count_collectionKeys,Row.listed]

theorem typeOf_ne_none_of_mem {k : Bytes} (h : k ∈ m.allKeys now) : m.typeOf now k ≠ none := by
  rw [typeOf_eq_row]
  apply Row.typeOf_ne_none_of_listed
  rw [← count_allKeys]
  exact List.count_pos_iff.mpr h

/-- The keys that are there. -/
def existing : Set Bytes := { k | m.type now k ≠ none }

theorem length_allKeys_of_once (h : ∀ k ∈ m.existing now, (m.allKeys now).count k=1) :
    (m.allKeys now).length=(m.existing now).ncard := by
  have hmem : ∀ k, k ∈ m.allKeys now → k ∈ m.existing now := fun k => m.typeOf_ne_none_of_mem now
  have hset : m.existing now=((m.allKeys now).toFinset : Set Bytes) := by
    ext k
    rw [List.coe_toFinset]
    constructor
    · intro hk
      exact List.count_pos_iff.mp (by rw [h k hk]; decide)
    · exact hmem k
  have hnodup : (m.allKeys now).Nodup := by
    rw [List.nodup_iff_count_eq_one]
    intro k hk
    exact h k (hmem k hk)
  rw [hset,Set.ncard_coe_finset,List.toFinset_card_of_nodup hnodup]

theorem ttl_eq_missing_iff (k : Bytes) : m.ttl now k=-2*second ↔ (m.row k).NoTTL now := by
  have huntil : ∀ t, ¬t < now → timeUntil now t ≠ -2*second := by
    intro t ht
    unfold timeUntil second
    split_ifs <;> omega
  have hone : (-1*second : Int) ≠ -2*second := by decide
  cases hs : m.strings[k]? with
  | some e =>
    have hs' : (m.row k).string=some e := hs
    simp only [ttl,Row.NoTTL,hs,hs']
    cases he : e.expiresAt with
    | none => exact iff_of_false hone (by simp [expired])
    | some t =>
      by_cases ht : t < now
      · exact iff_of_true (if_pos (by simp [expired,ht])) (by simp [expired,ht])
      · simp only [expired,ht,decide_false,Bool.false_eq_true,if_false,iff_false]
        exact huntil t ht
  | none =>
    have hs' : (m.row k).string=none := hs
    simp only [ttl,Row.NoTTL,hs,hs',← typeOf_eq_row]
    by_cases htype : m.typeOf now k=none
    · exact iff_of_true (if_pos htype) htype
    · have hlive : expired now m.keyExpiry[k]?=false := by
        by_contra hexp
        have hexp' : expired now (m.row k).expiry=true := Bool.eq_true_of_not_eq_false hexp
        exact htype (by simp [typeOf_eq_row,Row.typeOf,hs',hexp'])
      rw [if_neg htype]
      cases hx : m.keyExpiry[k]? with
      | none => exact iff_of_false hone htype
      | some t =>
        have ht : ¬t < now := by simpa [hx,expired] using hlive
        simp only [if_neg ht]
        exact iff_of_false (huntil t ht) htype

end Maps

/-- Neither the key nor its string has a deadline. -/
def Row.Lasting (r : Row F) : Prop := r.expiry=none ∧ ∀ e, r.string=some e → e.expiresAt=none

/-- There are no expiring keys. -/
def Maps.Lasting (m : Maps F) : Prop := ∀ k, (m.row k).Lasting

theorem Row.Lasting.listed {r : Row F} (h : r.Lasting) (now now' : Int) :
    r.listed now=r.listed now' ∧ (r.typeOf now ≠ none → 0 < r.listed now) := by
  obtain ⟨str,hash,list,set,zset,x⟩ := r
  obtain ⟨rfl,hstr⟩ := h
  have hahead : ∀ (e : StrEntry) t, str=some e → e.ahead t=true := by
    intro e t he
    simp [StrEntry.ahead,hstr e he]
  constructor
  · cases str with
    | none => rfl
    | some e => simp [Row.listed,hahead e _ rfl,Row.collections,expired]
  · intro htype
    rcases (Row.typeOf_ne_none_iff _ _).mp htype with ⟨e,he,_⟩ | hpos
    · have : str=some e := he
      simp [Row.listed,this,hahead e now this]
    · exact Nat.lt_of_lt_of_le hpos (Nat.le_add_left _ _)

theorem Map.forall_of_toList {V : Type} {m : Map V} {P : Bytes → V → Prop}
    (h : ∀ x ∈ m.toList, P x.1 x.2) : ∀ k v, m[k]?=some v → P k v :=
  fun k v hv => h (k,v) (Std.ExtTreeMap.mem_toList_iff_getElem?_eq_some.mpr hv)

namespace Maps
variable {m : Maps F}

theorem lasting_iff : m.Lasting ↔
    m.keyExpiry=∅ ∧ ∀ p ∈ m.strings.toList, p.2.expiresAt=none := by
  constructor
  · intro h
    refine ⟨(Map.eq_empty_iff _).mpr fun k => (h k).1,fun p hp => ?_⟩
    exact (h p.1).2 p.2 (Std.ExtTreeMap.mem_toList_iff_getElem?_eq_some.mp hp)
  · intro h k
    refine ⟨(Map.eq_empty_iff _).mp h.1 k,fun e he => ?_⟩
    exact h.2 (k,e) (Std.ExtTreeMap.mem_toList_iff_getElem?_eq_some.mpr he)

instance : DecidablePred (Maps.Lasting (F := F)) := fun _ => decidable_of_iff' _ lasting_iff

theorem Lasting.allKeys_eq (h : m.Lasting) (now now' : Int) : m.allKeys now=m.allKeys now' := by
  have hperm : (m.allKeys now).Perm (m.allKeys now') := by
    rw [List.perm_iff_count]
    intro k
    rw [count_allKeys,count_allKeys,((h k).listed now now').1]
  exact hperm.eq_of_pairwise' (m.sorted_allKeys now) (m.sorted_allKeys now')

theorem Lasting.mem_allKeys (h : m.Lasting) {now : Int} {k : Bytes}
    (hk : m.typeOf now k ≠ none) : k ∈ m.allKeys now := by
  rw [typeOf_eq_row] at hk
  rw [← List.count_pos_iff,count_allKeys]
  exact ((h k).listed now now).2 hk

end Maps
end GoRedis
