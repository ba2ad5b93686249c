import GoRedis.Go.Slices
import GoRedis.Lib.Paging
import GoRedis.Protocol.Parser
import GoRedis.Storage.ListRanges
import GoRedis.Storage.Listing
import GoRedis.Storage.Remains
/-!
# The store operations with their bounds checks

The operations that make a slice, index it or cut it at a number of the client, once more, with
the arithmetic of `int64` and a check at every such place. On a store that fits in memory they
are the operations of the model: none of the checks fails that the model does not have.
-/
namespace GoRedis
variable {F : Type}

/-- Everything the store has can be listed in one reply; a field or a member with its score takes
two places of it. -/
structure Maps.Fits (m : Maps F) : Prop where
  lists : ∀ (k : Bytes) (l : List Bytes), m.lists[k]?=some l → MakeOk responseSize l.length
  sets : ∀ (k : Bytes) (st : KeySet), m.sets[k]?=some st → MakeOk responseSize st.size
  hashes : ∀ (k : Bytes) (h : Map Bytes), m.hashes[k]?=some h → MakeOk responseSize (2*h.size)
  zsets : ∀ (k : Bytes) (z : Map F), m.zsets[k]?=some z → MakeOk responseSize (2*z.size)
  keys : ∀ now, MakeOk responseSize (m.allKeys now).length

namespace Checked

/-- `normaliseIndex` on `int64` -/
def normaliseIndex64 (idx length : Int) : Int :=
  let idx := if idx < 0 then wrap64 (length+idx) else idx
  if idx < 0 ∨ length ≤ idx then -1 else idx

/-- `clampRange` on `int64`, which goes through the same steps as `ZRange`. -/
def clampRange64 (start stop length : Int) : Int × Int := zRangeBounds64 start stop length

/-- `make([]string, hi-lo+1)` and `copy` from `l[lo:hi+1]`. -/
def copyRange (l : List Bytes) (lo hi : Int) : Go (List Bytes) := do
  let n ← Go.make 16 (wrap64 (wrap64 (hi-lo)+1))
  let part ← Go.cut l lo (wrap64 (hi+1))
  return Go.copied n part

def lRange (m : Maps F) (now : Int) (key : Bytes) (start stop : Int) :
    Go (Except StoreError (List Bytes)) :=
  match m.getList now key with
  | .error e => .ok (.error e)
  | .ok l =>
    let l := l.getD []
    if l=[] then .ok (.ok [])
    else
      let r := clampRange64 start stop l.length
      if r.2 < r.1 then .ok (.ok []) else (copyRange l r.1 r.2).map .ok

def lIndex (m : Maps F) (now : Int) (key : Bytes) (index : Int) :
    Go (Except StoreError (Option Bytes)) :=
  match m.getList now key with
  | .error e => .ok (.error e)
  | .ok l =>
    let l := l.getD []
    let idx := normaliseIndex64 index l.length
    if idx < 0 then .ok (.ok none) else (Go.index l idx).map fun v => .ok (some v)

def lSet (s : MemoryStore F) (now : Int) (key : Bytes) (index : Int) (value : Bytes) :
    Go (Except StoreError (MemoryStore F)) :=
  match s.typeOf now key with
  | none => .ok (.error .noSuchKey)
  | some .list =>
    let l := s.lists.getD key []
    let idx := normaliseIndex64 index l.length
    if idx < 0 then .ok (.error .indexOutOfRange)
    else (Go.put l idx value).map fun l' => .ok ((s.putList key l').bumpVersion key)
  | some _ => .ok (.error .wrongType)

def lTrim (s : MemoryStore F) (now : Int) (key : Bytes) (start stop : Int) :
    Go (Except StoreError (MemoryStore F)) :=
  match s.typeOf now key with
  | none => .ok (.ok s)
  | some .list =>
    let l := s.lists.getD key []
    let r := clampRange64 start stop l.length
    if r.2 < r.1 then .ok (.ok ((s.dropList key).bumpVersion key))
    else (copyRange l r.1 r.2).map fun l' => .ok ((s.putList key l').bumpVersion key)
  | some _ => .ok (.error .wrongType)

/-- What `LPop` cuts off: the popped part, copied, and the rest. -/
def popHead (l : List Bytes) (count : Int) : Go (List Bytes × List Bytes) := do
  let n ← Go.make 16 count
  let rest ← Go.cut l count l.length
  return (Go.copied n l,rest)

/-- What `RPop` cuts off; the popped part is read in a loop. -/
def popTail (l : List Bytes) (count : Int) : Go (List Bytes × List Bytes) := do
  let n ← Go.make 16 count
  let popped ← ((List.range n).map fun i : Nat =>
    wrap64 (wrap64 (l.length-count)+i)).mapM (Go.index l)
  let rest ← Go.cut l 0 (wrap64 (l.length-count))
  return (popped,rest)

/-- `LPop` and `RPop` -/
def popList (pop : List Bytes → Int → Go (List Bytes × List Bytes)) (s : MemoryStore F)
    (now : Int) (key : Bytes) (count : Int) :
    Go (Except StoreError (Option (List Bytes) × MemoryStore F)) :=
  match s.getList now key with
  | .error e => .ok (.error e)
  | .ok none => .ok (.ok (none,s))
  | .ok (some l) =>
    (pop l (if l.length < count then l.length else count)).map fun r =>
      .ok (some r.1,(s.keepList key r.2).bumpVersion key)

def lPop (s : MemoryStore F) := popList popHead s

def rPop (s : MemoryStore F) := popList popTail s

def sRandMember (m : Maps F) (w : World) (key : Bytes) (count : Int) :
    Go (Except StoreError (List Bytes)) :=
  match m.getSet w.now key with
  | .error e => .ok (.error e)
  | .ok none => .ok (.ok [])
  | .ok (some st) =>
    let all := w.rangeOrder st.toList
    if count=0 then .ok (.ok [])
    else if 0 < count then
      if all.length ≤ count then .ok (.ok all) else (Go.cut (w.shuffle all) 0 count).map .ok
    else do
      let n ← Go.make 16 (wrap64 (-count))
      if all=[] then .error .emptyRange
      else
        let result ← ((List.range n).map fun i => ((w.intN i all.length : Nat) : Int)).mapM
          (Go.index all)
        return .ok result

def sPop (s : MemoryStore F) (w : World) (key : Bytes) (count : Int) :
    Go (Except StoreError (List Bytes × MemoryStore F)) :=
  match s.getSet w.now key with
  | .error e => .ok (.error e)
  | .ok none => .ok (.ok ([],s))
  | .ok (some st) =>
    let all := w.rangeOrder st.toList
    if all.length ≤ count then .ok (.ok (all,(s.dropSet key).bumpVersion key))
    else (Go.cut (w.shuffle all) 0 count).map fun result =>
      .ok (result,(s.putSet key (result.foldl (fun acc x => acc.erase x) st)).bumpVersion key)

def zRange [Float64 F] (m : Maps F) (now : Int) (key : Bytes) (start stop : Int)
    (rev scores : Bool) : Go (Except StoreError (List Bytes)) :=
  match m.getZSet now key with
  | .error e => .ok (.error e)
  | .ok none => .ok (.ok [])
  | .ok (some z) =>
    let sorted := sortedMembers z
    if sorted=[] then .ok (.ok [])
    else
      let r := zRangeBounds64 start stop sorted.length
      if r.2 < r.1 then .ok (.ok [])
      else (Go.cut sorted r.1 (wrap64 (r.2+1))).map fun part =>
        .ok (withScores scores (if rev then part.reverse else part))

/-- `ZPopMin` and `ZPopMax` read the sorted members at the places that `place` gives for a length
and a round. -/
def popZSet [Float64 F] (place : Int → Nat → Int) (s : MemoryStore F) (now : Int) (key : Bytes)
    (count : Int) : Go (Except StoreError (List (ZMember F) × MemoryStore F)) :=
  match s.getZSet now key with
  | .error e => .ok (.error e)
  | .ok none => .ok (.ok ([],s))
  | .ok (some z) =>
    if z.isEmpty then .ok (.ok ([],s))
    else do
      let sorted := sortedMembers z
      let n ← Go.make 24 (if sorted.length < count then sorted.length else count)
      let result ← ((List.range n).map (place sorted.length)).mapM (Go.index sorted)
      let z' := result.foldl (fun acc m => acc.erase m.member) z
      return .ok (result,(s.keepZSet key z').bumpVersion key)

def zPopMin [Float64 F] (s : MemoryStore F) := popZSet (fun _ i => i) s

def zPopMax [Float64 F] (s : MemoryStore F) := popZSet (fun n i => wrap64 (wrap64 (n-1)-i)) s

/-- The loop of the four scans from `pos` on; `rounds` is enough when it is the length. -/
def scanLoop {α : Type} (items : List α) (cursor : Nat) (count : Int) (emit : α → List Bytes) :
    Nat → Nat → Go (Nat × List Bytes)
  | 0,pos => .ok (pos,[])
  | rounds+1,pos =>
    if wrap64 (pos-cursor) < count ∧ pos < items.length then do
      let item ← Go.index items pos
      let r ← scanLoop items cursor count emit rounds (pos+1)
      return (r.1,emit item++r.2)
    else .ok (pos,[])

/-- What the four scans do with their sorted list. -/
def scanItems {α : Type} (items : List α) (cursor : Nat) (count : Int) (emit : α → List Bytes) :
    Go (Nat × List Bytes) := do
  let count := if count ≤ 0 then 10 else count
  let cursor := if items.length ≤ cursor then 0 else cursor
  let r ← scanLoop items cursor count emit items.length cursor
  return (if items.length ≤ r.1 then 0 else r.1,r.2)

def scan (m : Maps F) (w : World) (cursor : Nat) (pattern : Bytes) (count : Int) :
    Go (Nat × List Bytes) :=
  scanItems (m.allKeys w.now) cursor count fun k => if scanMatches w pattern k then [k] else []

def hScan (m : Maps F) (w : World) (key : Bytes) (cursor : Nat) (pattern : Bytes) (count : Int) :
    Go (Except StoreError (Nat × List Bytes)) :=
  match m.liveHash w.now key with
  | none => .ok (.ok (0,[]))
  | some h =>
    if m.typeOf w.now key ≠ some .hash then .ok (.error .wrongType)
    else (scanItems (sortStrings h.keys) cursor count fun f =>
      if scanMatches w pattern f then [f,h.getD f []] else []).map .ok

def sScan (m : Maps F) (w : World) (key : Bytes) (cursor : Nat) (pattern : Bytes) (count : Int) :
    Go (Except StoreError (Nat × List Bytes)) :=
  match if m.keyExpiredNonStr w.now key then none else m.sets[key]? with
  | none => .ok (.ok (0,[]))
  | some st =>
    if m.typeOf w.now key ≠ some .set then .ok (.error .wrongType)
    else (scanItems (sortStrings st.toList) cursor count fun x =>
      if scanMatches w pattern x then [x] else []).map .ok

def zScan [Float64 F] (m : Maps F) (w : World) (key : Bytes) (cursor : Nat) (pattern : Bytes)
    (count : Int) : Go (Except StoreError (Nat × List Bytes)) :=
  match if m.keyExpiredNonStr w.now key then none else m.zsets[key]? with
  | none => .ok (.ok (0,[]))
  | some z =>
    if m.typeOf w.now key ≠ some .zset then .ok (.error .wrongType)
    else (scanItems (sortedMembers z) cursor count fun x =>
      if scanMatches w pattern x.member then [x.member,formatScore x.score] else []).map .ok

theorem normaliseIndex64_cases {idx : Int} {n : Nat} (hidx : InInt64 idx)
    (hn : MakeOk responseSize n) :
    normaliseIndex idx n=none ∧ normaliseIndex64 idx n=-1 ∨
      ∃ i : Nat, i < n ∧ normaliseIndex idx n=some i ∧ normaliseIndex64 idx n=i := by
  have hlen := hn.small (by decide)
  have hsum : (if idx < 0 then wrap64 (n+idx) else idx)=if idx < 0 then n+idx else idx := by
    split_ifs
    · apply wrap64_of_inInt64
      unfold InInt64 at *
      omega
    · rfl
  simp only [normaliseIndex64,normaliseIndex,hsum]
  generalize (if idx < 0 then (n:Int)+idx else idx)=i
  by_cases hout : i < 0 ∨ (n:Int) ≤ i
  · rw [if_pos hout,if_pos hout]
    exact .inl ⟨rfl,rfl⟩
  · rw [if_neg hout,if_neg hout]
    exact .inr ⟨i.toNat,by omega,rfl,by omega⟩

theorem cut_slice {α : Type} {l : List α} {lo hi : Int} (hlen : (l.length:Int) ≤ 2^48)
    (hlo : 0 ≤ lo) (hle : lo ≤ hi) (hhi : hi < l.length) :
    Go.cut l lo (wrap64 (hi+1))=.ok (slice l lo hi) := by
  have hend : wrap64 (hi+1)=hi+1 := wrap64_of_inInt64 (by unfold InInt64; omega)
  have hsize : hi+1-lo=hi-lo+1 := by omega
  rw [hend,Go.cut_ok hlo (by omega) (by omega),hsize,slice]

theorem copyRange_eq {l : List Bytes} {lo hi : Int} (hfit : MakeOk 16 l.length) (hlo : 0 ≤ lo)
    (hle : lo ≤ hi) (hhi : hi < l.length) : copyRange l lo hi=.ok (slice l lo hi) := by
  have hlen := hfit.small (by decide)
  have hsub : wrap64 (hi-lo)=hi-lo := wrap64_of_inInt64 (by unfold InInt64; omega)
  have hadd : wrap64 (hi-lo+1)=hi-lo+1 := wrap64_of_inInt64 (by unfold InInt64; omega)
  have hmake : MakeOk 16 (hi-lo+1) := hfit.mono (le_refl _) (by omega) (by omega)
  have hwhole : (slice l lo hi).length=(hi-lo+1).toNat := by
    rw [slice,List.length_take,List.length_drop]
    omega
  rw [copyRange,hsub,hadd,Go.make_ok hmake,cut_slice hlen hlo hle hhi]
  simp only [bind,Except.bind,pure,Except.pure]
  rw [Go.copied_of_le (by omega),List.take_of_length_le (by omega)]

variable {m : Maps F} {s : MemoryStore F} {now : Int} {key : Bytes}

theorem fits_getList (h : m.Fits) {ol : Option (List Bytes)} (hl : m.getList now key=.ok ol) :
    MakeOk responseSize (ol.getD []).length := by
  cases ol with
  | none => decide
  | some l => exact h.lists key l (Maps.getList_eq_some_iff.mp hl).2

theorem clampRange64_eq {start stop : Int} {n : Nat} (hstart : InInt64 start)
    (hstop : InInt64 stop) (hn : MakeOk responseSize n) :
    clampRange64 start stop n=clampRange start stop n ∧
      0 ≤ (clampRange start stop n).1 ∧ (clampRange start stop n).2 < n := by
  have hlen := hn.small (by decide)
  have hint : InInt64 n := by
    unfold InInt64
    omega
  have hbounds := clampRange_bounds hstart hstop hint
  exact ⟨zRangeBounds64_eq_clampRange hstart hstop hint,hbounds.2.2.2⟩

theorem copyRange_clampRange {l : List Bytes} {start stop : Int} (hstart : InInt64 start)
    (hstop : InInt64 stop) (hfit : MakeOk responseSize l.length)
    (hle : ¬(clampRange start stop l.length).2 < (clampRange start stop l.length).1) :
    copyRange l (clampRange start stop l.length).1 (clampRange start stop l.length).2=
      .ok (slice l (clampRange start stop l.length).1 (clampRange start stop l.length).2) := by
  obtain ⟨_,hlo,hhi⟩ := clampRange64_eq hstart hstop hfit
  exact copyRange_eq (hfit.mono (by decide) (by omega) (le_refl _)) hlo (by omega) hhi

theorem lRange_eq (h : m.Fits) {start stop : Int} (hstart : InInt64 start)
    (hstop : InInt64 stop) :
    lRange m now key start stop=.ok (m.lRange now key start stop) := by
  unfold lRange Maps.lRange
  cases hl : m.getList now key with
  | error e => rfl
  | ok ol =>
    have hfit := fits_getList h hl
    simp only [Except.map,(clampRange64_eq hstart hstop hfit).1]
    split_ifs with hnil hempty
    · rfl
    · rfl
    · rw [copyRange_clampRange hstart hstop hfit hempty]

theorem lIndex_eq (h : m.Fits) {index : Int} (hindex : InInt64 index) :
    lIndex m now key index=.ok (m.lIndex now key index) := by
  unfold lIndex Maps.lIndex
  cases hl : m.getList now key with
  | error e => rfl
  | ok ol =>
    simp only [Except.map]
    rcases normaliseIndex64_cases hindex (fits_getList h hl) with ⟨hnone,hneg⟩ | ⟨i,hi,hsome,hpos⟩
    · rw [hnone,hneg]
      rfl
    · have hget : (ol.getD [])[(i:Int).toNat]?=some ((ol.getD []).get ⟨i,hi⟩) := by simp [hi]
      rw [hsome,hpos,if_neg (by omega),Go.index_ok (Int.natCast_nonneg i) hget,Option.bind_some]
      exact congrArg (fun v => Except.ok (Except.ok v)) hget.symm

theorem fits_lists (h : s.Fits) (key : Bytes) :
    MakeOk responseSize (s.lists.getD key []).length := by
  rw [Std.ExtTreeMap.getD_eq_getD_getElem?]
  cases hl : s.lists[key]? with
  | none => decide
  | some l => exact h.lists key l hl

theorem lSet_eq (h : s.Fits) {index : Int} (hindex : InInt64 index) (value : Bytes) :
    lSet s now key index value=.ok (s.lSet now key index value) := by
  unfold lSet MemoryStore.lSet
  cases s.typeOf now key with
  | none => rfl
  | some t =>
    cases t
    case list =>
      rcases normaliseIndex64_cases hindex (fits_lists h key) with
        ⟨hnone,hneg⟩ | ⟨i,hi,hsome,hpos⟩
      · simp only [hnone,hneg]
        rfl
      · have hput := Go.put_ok (Int.natCast_nonneg i) (Int.ofNat_lt.mpr hi) value
        simp only [hsome,hpos,hput]
        rw [if_neg (by omega)]
        rfl
    all_goals rfl

theorem lTrim_eq (h : s.Fits) {start stop : Int} (hstart : InInt64 start)
    (hstop : InInt64 stop) : lTrim s now key start stop=.ok (s.lTrim now key start stop) := by
  unfold lTrim MemoryStore.lTrim
  cases s.typeOf now key with
  | none => rfl
  | some t =>
    cases t
    case list =>
      have hfit := fits_lists h key
      simp only [(clampRange64_eq hstart hstop hfit).1]
      split_ifs with hempty
      · rfl
      · rw [copyRange_clampRange hstart hstop hfit hempty]
        rfl
    all_goals rfl

theorem popHead_eq {l : List Bytes} {count : Int} (hfit : MakeOk responseSize l.length)
    (hle : count ≤ l.length) : popHead l count=
      if count < 0 then .error .makeLen else .ok (MemoryStore.cutHead count.toNat l) := by
  split_ifs with hneg
  · rw [popHead,Go.make_error fun h => absurd h.1 (not_le.mpr hneg)]
    rfl
  · have hmake : MakeOk 16 count := hfit.mono (by decide) (not_lt.mp hneg) hle
    have hrest : (l.drop count.toNat).take ((l.length:Int)-count).toNat=l.drop count.toNat :=
      List.take_of_length_le (by rw [List.length_drop]; omega)
    rw [popHead,Go.make_ok hmake,Go.cut_ok (not_lt.mp hneg) hle (le_refl _),hrest]
    simp only [bind,Except.bind,pure,Except.pure]
    rw [Go.copied_of_le (by omega),MemoryStore.cutHead]

theorem popTail_eq {l : List Bytes} {count : Int} (hfit : MakeOk responseSize l.length)
    (hle : count ≤ l.length) : popTail l count=
      if count < 0 then .error .makeLen else .ok (MemoryStore.cutTail count.toNat l) := by
  split_ifs with hneg
  · rw [popTail,Go.make_error fun h => absurd h.1 (not_le.mpr hneg)]
    rfl
  · have hlen := hfit.small (by decide)
    have hmake : MakeOk 16 count := hfit.mono (by decide) (not_lt.mp hneg) hle
    have hsub : wrap64 (l.length-count)=l.length-count := wrap64_of_inInt64 (by
      unfold InInt64
      omega)
    have hread : ((List.range count.toNat).map fun i : Nat =>
        wrap64 ((l.length:Int)-count+i)).mapM (Go.index l)=
          .ok (l.drop (l.length-count.toNat)) := by
      apply Go.mapM_index_range
      · rw [List.length_drop]
        omega
      · intro i hi
        have hplace : wrap64 ((l.length:Int)-count+i)=((l.length-count.toNat+i : Nat) : Int) := by
          rw [wrap64_of_inInt64 (by unfold InInt64; omega)]
          omega
        rw [hplace,List.getElem?_drop]
        exact ⟨Int.natCast_nonneg _,rfl⟩
    have hend : (l.length:Int)-count-0=((l.length-count.toNat : Nat) : Int) := by omega
    rw [popTail,hsub,Go.make_ok hmake]
    simp only [bind,Except.bind,hread]
    rw [Go.cut_ok (le_refl 0) (by omega) (by omega),hend]
    rfl

theorem popList_eq (h : s.Fits) {pop : List Bytes → Int → Go (List Bytes × List Bytes)}
    {cut : Nat → List Bytes → List Bytes × List Bytes}
    (hpop : ∀ {l : List Bytes} {count : Int}, MakeOk responseSize l.length → count ≤ l.length →
      pop l count=if count < 0 then .error .makeLen else .ok (cut count.toNat l)) (count : Int) :
    popList pop s now key count=MemoryStore.popList cut s now key count := by
  unfold popList MemoryStore.popList
  cases hl : s.getList now key with
  | error e => rfl
  | ok ol =>
    cases ol with
    | none => rfl
    | some l =>
      have hfit : MakeOk responseSize l.length := fits_getList h hl
      have hle : (if (l.length:Int) < count then (l.length:Int) else count) ≤ l.length := by
        split_ifs <;> omega
      dsimp only
      rw [hpop hfit hle]
      split_ifs <;> rfl

theorem lPop_eq (h : s.Fits) (count : Int) : lPop s now key count=s.lPop now key count :=
  popList_eq h popHead_eq count

theorem rPop_eq (h : s.Fits) (count : Int) : rPop s now key count=s.rPop now key count :=
  popList_eq h popTail_eq count

theorem cut_front {l : List Bytes} {count : Int} (hpos : 0 ≤ count) (hle : count ≤ l.length) :
    Go.cut l 0 count=.ok (l.take count.toNat) := by
  rw [Go.cut_ok (le_refl 0) hpos hle,sub_zero]
  rfl

theorem draw_eq (w : World) {all : List Bytes} (hne : all ≠ []) (n : Nat) :
    ((List.range n).map fun i => ((w.intN i all.length : Nat) : Int)).mapM (Go.index all)=
      .ok ((List.range n).map fun i => all.getD (w.intN i all.length) []) := by
  apply Go.mapM_index_range
  · simp
  · intro i hi
    have hlt : w.intN i all.length < all.length := w.intN_lt i _ (List.length_pos_iff.mpr hne)
    refine ⟨Int.natCast_nonneg _,?_⟩
    simp [hi,hlt]

theorem sRandMember_eq (m : Maps F) (w : World) (key : Bytes) (count : Int) :
    sRandMember m w key count=m.sRandMember w key count := by
  unfold sRandMember Maps.sRandMember
  cases m.getSet w.now key with
  | error e => rfl
  | ok ost =>
    cases ost with
    | none => rfl
    | some st =>
      dsimp only
      by_cases hzero : count=0
      · rw [if_pos hzero,if_pos hzero]
      rw [if_neg hzero,if_neg hzero]
      by_cases hpos : 0 < count
      · have hlen : (w.shuffle (w.rangeOrder st.toList)).length=(w.rangeOrder st.toList).length :=
          (w.shuffle_perm _).length_eq
        rw [if_pos hpos,if_pos hpos]
        split_ifs with hall
        · rfl
        · rw [cut_front (by omega) (by omega)]
          rfl
      rw [if_neg hpos,if_neg hpos]
      by_cases hmake : MakeOk 16 (wrap64 (-count))
      · rw [Go.make_ok hmake,if_neg (not_not.mpr hmake)]
        simp only [bind,Except.bind]
        split_ifs with hnil
        · rfl
        · rw [draw_eq w hnil]
          rfl
      · rw [Go.make_error hmake,if_pos hmake]
        rfl

theorem sPop_eq (s : MemoryStore F) (w : World) (key : Bytes) (count : Int) :
    sPop s w key count=s.sPop w key count := by
  unfold sPop MemoryStore.sPop
  cases s.getSet w.now key with
  | error e => rfl
  | ok ost =>
    cases ost with
    | none => rfl
    | some st =>
      have hlen : (w.shuffle (w.rangeOrder st.toList)).length=(w.rangeOrder st.toList).length :=
        (w.shuffle_perm _).length_eq
      dsimp only
      split_ifs with hall hneg
      · rfl
      · rw [Go.cut_error hneg]
        rfl
      · rw [cut_front (by omega) (by omega)]
        rfl

section ZSets
variable [Float64 F]

theorem fits_getZSet (h : m.Fits) {z : Map F} (hz : m.getZSet now key=.ok (some z)) :
    MakeOk responseSize (2*(sortedMembers z).length) := by
  rw [length_sortedMembers]
  exact h.zsets key z (Maps.getZSet_eq_some_iff.mp hz).2

theorem zRange_eq (h : m.Fits) {start stop : Int} (hstart : InInt64 start) (hstop : InInt64 stop)
    (rev scores : Bool) :
    zRange m now key start stop rev scores=.ok (m.zRange now key start stop rev scores) := by
  unfold zRange Maps.zRange
  cases hz : m.getZSet now key with
  | error e => rfl
  | ok oz =>
    cases oz with
    | none => rfl
    | some z =>
      have hfit : MakeOk responseSize (sortedMembers z).length :=
        (fits_getZSet h hz).mono (le_refl _) (by omega) (by omega)
      have hlen := hfit.small (by decide)
      obtain ⟨hbounds,hlo,hhi⟩ := clampRange64_eq hstart hstop hfit
      rw [clampRange64] at hbounds
      simp only [Except.map,hbounds]
      rw [Maps.zRangeBounds_eq_clampRange]
      by_cases hnil : sortedMembers z=[]
      · rw [if_pos hnil,if_pos hnil]
      rw [if_neg hnil,if_neg hnil]
      by_cases hempty : (clampRange start stop (sortedMembers z).length).2 <
          (clampRange start stop (sortedMembers z).length).1
      · rw [if_pos hempty,if_pos hempty]
      · rw [if_neg hempty,if_neg hempty,cut_slice hlen hlo (by omega) hhi]

theorem popZSet_eq (h : s.Fits) {place : Int → Nat → Int}
    {order : List (ZMember F) → List (ZMember F)} (hlen : ∀ l, (order l).length=l.length)
    (hplace : ∀ l : List (ZMember F), (l.length:Int) ≤ 2^48 → ∀ i < l.length,
      0 ≤ place l.length i ∧ l[(place l.length i).toNat]?=(order l)[i]?) (count : Int) :
    popZSet place s now key count=MemoryStore.popZSet order s now key count := by
  unfold popZSet MemoryStore.popZSet
  cases hz : s.getZSet now key with
  | error e => rfl
  | ok oz =>
    cases oz with
    | none => rfl
    | some z =>
      have hfit : MakeOk responseSize (sortedMembers z).length :=
        (fits_getZSet h hz).mono (le_refl _) (by omega) (by omega)
      dsimp only
      by_cases hempty : z.isEmpty=true
      · rw [if_pos hempty,if_pos hempty]
      rw [if_neg hempty,if_neg hempty,hlen]
      generalize hn : (if ((sortedMembers z).length:Int) < count then
        ((sortedMembers z).length:Int) else count)=n
      have hle : n ≤ (sortedMembers z).length := by
        rw [← hn]
        split_ifs <;> omega
      split_ifs with hneg
      · rw [Go.make_error fun hmake => absurd hmake.1 (not_le.mpr hneg)]
        rfl
      · have hmake : MakeOk 24 n := hfit.mono (by decide) (not_lt.mp hneg) hle
        have hread : ((List.range n.toNat).map (place (sortedMembers z).length)).mapM
            (Go.index (sortedMembers z))=.ok ((order (sortedMembers z)).take n.toNat) := by
          apply Go.mapM_index_range
          · rw [List.length_take,hlen]
            omega
          · intro i hi
            obtain ⟨hpos,hget⟩ := hplace (sortedMembers z) (hfit.small (by decide)) i (by omega)
            rw [List.getElem?_take,if_pos hi]
            exact ⟨hpos,hget⟩
        rw [Go.make_ok hmake]
        simp only [bind,Except.bind,hread]
        rfl

theorem zPopMin_eq (h : s.Fits) (count : Int) : zPopMin s now key count=s.zPopMin now key count := by
  apply popZSet_eq h (fun l => rfl)
  intro l _ i _
  exact ⟨Int.natCast_nonneg i,rfl⟩

theorem zPopMax_eq (h : s.Fits) (count : Int) : zPopMax s now key count=s.zPopMax now key count := by
  apply popZSet_eq h (fun l => List.length_reverse)
  intro l hl i hi
  have hlast : wrap64 ((l.length:Int)-1)=l.length-1 := wrap64_of_inInt64 (by
    unfold InInt64
    omega)
  have hplace : wrap64 ((l.length:Int)-1-i)=((l.length-1-i : Nat) : Int) := by
    rw [wrap64_of_inInt64 (by unfold InInt64; omega)]
    omega
  rw [hlast,hplace,List.getElem?_reverse hi]
  exact ⟨Int.natCast_nonneg _,rfl⟩

end ZSets

section Scans
variable {α : Type} {items : List α} {emit : α → List Bytes} {cursor : Nat} {count : Int}

theorem scanLoop_eq (hlen : (items.length:Int) ≤ 2^48) {rounds pos : Nat} (hcursor : cursor ≤ pos)
    (hpos : pos ≤ items.length) (hrounds : items.length ≤ pos+rounds) :
    scanLoop items cursor count emit rounds pos=
      .ok (pos+((items.drop pos).take (count-(pos-cursor)).toNat).length,
        ((items.drop pos).take (count-(pos-cursor)).toNat).flatMap emit) := by
  induction rounds generalizing pos with
  | zero =>
    have hend : items.drop pos=[] := List.drop_eq_nil_of_le (by omega)
    simp [scanLoop,hend]
  | succ rounds ih =>
    have hwrap : wrap64 ((pos:Int)-cursor)=pos-cursor := wrap64_of_inInt64 (by
      unfold InInt64
      omega)
    rw [scanLoop,hwrap]
    split_ifs with hgo
    · have hget : items[(pos:Int).toNat]?=some (items.get ⟨pos,hgo.2⟩) := by simp [hgo.2]
      have htake : (count-((pos:Int)-cursor)).toNat=(count-((pos+1 : Nat)-cursor)).toNat+1 := by
        omega
      have hdrop : items.drop pos=items.get ⟨pos,hgo.2⟩::items.drop (pos+1) :=
        List.drop_eq_getElem_cons hgo.2
      have hnext : pos+1 ≤ items.length := hgo.2
      rw [Go.index_ok (Int.natCast_nonneg pos) hget,hdrop,htake,List.take_succ_cons]
      simp only [bind,Except.bind,ih (by omega) hnext (by omega),pure,Except.pure,List.length_cons,
        List.flatMap_cons]
      congr 2
      omega
    · have hnone : (items.drop pos).take (count-((pos:Int)-cursor)).toNat=[] := by
        by_cases hcount : (pos:Int)-cursor < count
        · rw [List.drop_eq_nil_of_le (by omega),List.take_nil]
        · rw [show (count-((pos:Int)-cursor)).toNat=0 by omega,List.take_zero]
      rw [hnone]
      rfl

theorem scanItems_eq (hlen : (items.length:Int) ≤ 2^48) (cursor : Nat) (count : Int) :
    scanItems items cursor count emit=.ok ((scanPage items cursor count).1,
      (scanPage items cursor count).2.flatMap emit) := by
  have hin : (if items.length ≤ cursor then 0 else cursor) ≤ items.length := by
    split_ifs <;> omega
  unfold scanItems scanPage
  dsimp only
  rw [scanLoop_eq hlen (le_refl _) hin (by omega)]
  simp only [bind,Except.bind,pure,Except.pure,sub_self,sub_zero]

theorem scan_eq (h : m.Fits) (w : World) (cursor : Nat) (pattern : Bytes) (count : Int) :
    scan m w cursor pattern count=.ok (m.scan w cursor pattern count) := by
  rw [scan,scanItems_eq ((h.keys w.now).small (by decide)),← Paging.flatMap_filter,
    List.flatMap_singleton',Maps.scan]

theorem fits_fields (h : m.Fits) {hash : Map Bytes} (hh : m.liveHash now key=some hash) :
    MakeOk responseSize ((2*(sortStrings hash.keys).length : Nat):Int) := by
  rw [(sortStrings_perm _).length_eq,Std.ExtTreeMap.length_keys]
  unfold Maps.liveHash at hh
  split_ifs at hh
  exact h.hashes key hash hh

theorem fits_setMembers (h : m.Fits) {st : KeySet}
    (hst : (if m.keyExpiredNonStr now key then none else m.sets[key]?)=some st) :
    MakeOk responseSize (sortStrings st.toList).length := by
  rw [(sortStrings_perm _).length_eq,Std.ExtTreeSet.length_toList]
  split_ifs at hst
  exact h.sets key st hst

theorem fits_zsetMembers [Float64 F] (h : m.Fits) {z : Map F}
    (hz : (if m.keyExpiredNonStr now key then none else m.zsets[key]?)=some z) :
    MakeOk responseSize ((2*(sortedMembers z).length : Nat):Int) := by
  rw [length_sortedMembers]
  split_ifs at hz
  exact h.zsets key z hz

theorem hScan_eq (h : m.Fits) (w : World) (cursor : Nat) (pattern : Bytes) (count : Int) :
    hScan m w key cursor pattern count=.ok (m.hScan w key cursor pattern count) := by
  unfold hScan Maps.hScan
  cases hh : m.liveHash w.now key with
  | none => rfl
  | some hash =>
    have hlen := (fits_fields h hh).small (by decide)
    dsimp only
    split_ifs with htype
    · rfl
    · rw [scanItems_eq (by omega),← Paging.flatMap_filter]
      rfl

theorem sScan_eq (h : m.Fits) (w : World) (cursor : Nat) (pattern : Bytes) (count : Int) :
    sScan m w key cursor pattern count=.ok (m.sScan w key cursor pattern count) := by
  unfold sScan Maps.sScan
  cases hst : if m.keyExpiredNonStr w.now key then none else m.sets[key]? with
  | none => rfl
  | some st =>
    have hlen := (fits_setMembers h hst).small (by decide)
    dsimp only
    split_ifs with htype
    · rfl
    · rw [scanItems_eq hlen,← Paging.flatMap_filter,List.flatMap_singleton']
      rfl

theorem zScan_eq [Float64 F] (h : m.Fits) (w : World) (cursor : Nat) (pattern : Bytes)
    (count : Int) : zScan m w key cursor pattern count=.ok (m.zScan w key cursor pattern count) := by
  unfold zScan Maps.zScan
  cases hz : if m.keyExpiredNonStr w.now key then none else m.zsets[key]? with
  | none => rfl
  | some z =>
    have hlen := (fits_zsetMembers h hz).small (by decide)
    dsimp only
    split_ifs with htype
    · rfl
    · rw [scanItems_eq (by omega),← Paging.flatMap_filter]
      rfl

end Scans

end Checked
end GoRedis
