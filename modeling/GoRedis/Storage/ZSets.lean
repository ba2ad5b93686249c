import GoRedis.Storage.Strings
/-!
# Store operations on sorted sets
-/
namespace GoRedis

structure ZMember (F : Type) where
  member : Bytes
  score : F
  deriving DecidableEq

/-- A parsed lexicographic bound. -/
structure LexBound where
  value : Bytes
  exclusive : Bool
  negInf : Bool
  posInf : Bool
  deriving DecidableEq, Repr

def parseLexBound (s : Bytes) : LexBound :=
  if s=utf8 "-" then ⟨[],false,true,false⟩
  else if s=utf8 "+" then ⟨[],false,false,true⟩
  else match stripByte 40 s with
    | some v => ⟨v,true,false,false⟩
    | none => match stripByte 91 s with
      | some v => ⟨v,false,false,false⟩
      | none => ⟨s,false,false,false⟩

/-- The flags of `ZAdd`. -/
structure ZAddFlags where
  nx : Bool := false
  xx : Bool := false
  gt : Bool := false
  lt : Bool := false
  ch : Bool := false
  deriving DecidableEq, Repr

section Scores
variable {F : Type} [Float64 F]
open Float64

def formatScore (f : F) : Bytes :=
  if f=posInf then utf8 "inf" else if f=negInf then utf8 "-inf" else formatGeneral f

/-- The comparison of `sortedMembers`: by score, then by member. -/
def zLess (a b : ZMember F) : Prop :=
  a.score < b.score ∨ a.score=b.score ∧ compare a.member b.member=.lt

instance (a b : ZMember F) : Decidable (zLess a b) := inferInstanceAs (Decidable (_ ∨ _))

/-- The members of a sorted set, in no particular order. -/
def zMembers (z : Map F) : List (ZMember F) := z.toList.map fun p => ⟨p.1,p.2⟩

def sortedMembers (z : Map F) : List (ZMember F) :=
  (zMembers z).insertionSort fun a b => ¬zLess b a

def applyAggregate (a b : F) (agg : Bytes) : F :=
  if toUpper agg=utf8 "MIN" then (if b < a then b else a)
  else if toUpper agg=utf8 "MAX" then (if a < b then b else a)
  else a+b

/-- One round of the `ZAdd` loop: the reply so far and the scores. -/
def zAddMember (fl : ZAddFlags) (acc : Int × Map F) (m : ZMember F) : Int × Map F :=
  match acc.2[m.member]? with
  | some old =>
    if fl.nx then acc
    else if fl.gt ∧ m.score ≤ old then acc
    else if fl.lt ∧ old ≤ m.score then acc
    else (if fl.ch ∧ m.score ≠ old then acc.1+1 else acc.1,acc.2.insert m.member m.score)
  | none => if fl.xx then acc else (acc.1+1,acc.2.insert m.member m.score)

/-- One round of the `ZRem` loop. -/
def zRemMember (acc : Int × Map F) (x : Bytes) : Int × Map F :=
  if x ∈ acc.2 then (acc.1+1,acc.2.erase x) else acc

/-- Whether a score lies within the bounds, as the range loops test it. -/
def scoreInRange (min max : F) (minExcl maxExcl : Bool) (sc : F) : Bool :=
  !((minExcl && sc ≤ min) || (!minExcl && sc < min) ||
    (maxExcl && max ≤ sc) || (!maxExcl && max < sc))

/-- Whether a member lies within the lexicographic bounds, as the range loop tests it. -/
def lexInRange (min max : LexBound) (m : Bytes) : Bool :=
  !((!min.negInf && ((min.exclusive && compare m min.value ≠ .gt) ||
      (!min.exclusive && compare m min.value = .lt))) ||
    (!max.posInf && ((max.exclusive && compare m max.value ≠ .lt) ||
      (!max.exclusive && compare m max.value = .gt))))

/-- The `LIMIT` part of a range loop: skip `offset` accepted elements, take up to `count`. -/
def limitLoop {α : Type} (accept : α → Bool) (offset count : Int) : Int → Int → List α → List α
  | _,_,[] => []
  | skipped,taken,x::xs =>
    if !accept x then limitLoop accept offset count skipped taken xs
    else if skipped < offset then limitLoop accept offset count (skipped+1) taken xs
    else if 0 ≤ count ∧ count ≤ taken then []
    else x::limitLoop accept offset count skipped (taken+1) xs

/-- Members, each followed by its score when asked for. -/
def withScores (scores : Bool) (ms : List (ZMember F)) : List Bytes :=
  ms.flatMap fun m => if scores then [m.member,formatScore m.score] else [m.member]

end Scores

namespace Maps
variable {F : Type}

/-- `getZSet`; `none` is the nil pointer of an absent key. -/
def getZSet (m : Maps F) (now : Int) (key : Bytes) : Except StoreError (Option (Map F)) :=
  match m.typeOf now key with
  | none => .ok none
  | some .zset => .ok m.zsets[key]?
  | some _ => .error .wrongType

def zScore (m : Maps F) (now : Int) (key member : Bytes) : Except StoreError (Option F) :=
  (m.getZSet now key).map fun z => z.bind fun z => z[member]?

/-- `ZCard`: the pointer is dereferenced without asking whether the key exists. -/
def zCard (m : Maps F) (now : Int) (key : Bytes) : Go (Except StoreError Nat) :=
  match m.getZSet now key with
  | .error e => .ok (.error e)
  | .ok none => .error .nilDereference
  | .ok (some z) => .ok (.ok z.size)

variable [Float64 F]
open Float64

def zRank (m : Maps F) (now : Int) (key member : Bytes) : Except StoreError (Option Nat) :=
  (m.getZSet now key).map fun z => z.bind fun z =>
    if member ∈ z then (sortedMembers z).findIdx? fun x => x.member=member else none

def zRevRank (m : Maps F) (now : Int) (key member : Bytes) : Except StoreError (Option Nat) :=
  (m.getZSet now key).map fun z => z.bind fun z =>
    if member ∈ z then
      ((sortedMembers z).findIdx? fun x => x.member=member).map fun i =>
        (sortedMembers z).length-1-i
    else none

/-- The bounds that `ZRange` computes itself, without a call of `clampRange`. -/
def zRangeBounds (start stop : Int) (n : Nat) : Int × Int :=
  let start := if start < 0 then n+start else start
  let stop := if stop < 0 then n+stop else stop
  (if start < 0 then 0 else start,if n ≤ stop then n-1 else stop)

def zRange (m : Maps F) (now : Int) (key : Bytes) (start stop : Int) (rev scores : Bool) :
    Except StoreError (List Bytes) :=
  (m.getZSet now key).map fun z => match z with
    | none => []
    | some z =>
      let sorted := sortedMembers z
      if sorted=[] then []
      else
        let (lo,hi) := zRangeBounds start stop sorted.length
        if hi < lo then []
        else withScores scores (if rev then (slice sorted lo hi).reverse else slice sorted lo hi)

def zRangeByScore (m : Maps F) (now : Int) (key : Bytes) (min max : F)
    (minExcl maxExcl scores : Bool) (offset count : Int) : Except StoreError (List Bytes) :=
  (m.getZSet now key).map fun z => match z with
    | none => []
    | some z => withScores scores (limitLoop
        (fun x => scoreInRange min max minExcl maxExcl x.score) offset count 0 0 (sortedMembers z))

def zRevRangeByScore (m : Maps F) (now : Int) (key : Bytes) (max min : F)
    (maxExcl minExcl scores : Bool) (offset count : Int) : Except StoreError (List Bytes) :=
  (m.getZSet now key).map fun z => match z with
    | none => []
    | some z => withScores scores (limitLoop
        (fun x => scoreInRange min max minExcl maxExcl x.score) offset count 0 0
        (sortedMembers z).reverse)

def zCount (m : Maps F) (now : Int) (key : Bytes) (min max : F) (minExcl maxExcl : Bool) :
    Except StoreError Nat :=
  (m.getZSet now key).map fun z => match z with
    | none => 0
    | some z => (zMembers z).countP fun x =>
        ((!minExcl && min ≤ x.score) || (minExcl && min < x.score)) &&
        ((!maxExcl && x.score ≤ max) || (maxExcl && x.score < max))

def zRangeByLex (m : Maps F) (now : Int) (key min max : Bytes) (offset count : Int) :
    Except StoreError (List Bytes) :=
  (m.getZSet now key).map fun z => match z with
    | none => []
    | some z => limitLoop (lexInRange (parseLexBound min) (parseLexBound max)) offset count 0 0
        ((sortedMembers z).map ZMember.member)

def zLexCount (m : Maps F) (now : Int) (key min max : Bytes) : Except StoreError Nat :=
  (m.zRangeByLex now key min max 0 (-1)).map List.length

/-- The inner loop of `ZUnionStore`: fold one weighted sorted set into the scores. -/
def unionScores (agg : Bytes) (w : F) (z : Map F) (scores : Map F) : Map F :=
  z.toList.foldl (fun acc p => match acc[p.1]? with
    | none => acc.insert p.1 (p.2*w)
    | some cur => acc.insert p.1 (applyAggregate cur (p.2*w) agg)) scores

/-- The outer loop of `ZUnionStore`; the weight of a key beyond the weights is 1. -/
def zUnionLoop (m : Maps F) (now : Int) (agg : Bytes) :
    List Bytes → List F → Map F → Except StoreError (Map F)
  | [],_,scores => .ok scores
  | k::ks,weights,scores => match m.getZSet now k with
    | .error e => .error e
    | .ok none => zUnionLoop m now agg ks weights.tail scores
    | .ok (some z) => zUnionLoop m now agg ks weights.tail
        (unionScores agg (weights.headD 1) z scores)

/-- The body of the `ZInterStore` loop: keep the members that `z` holds as well. -/
def interScores (agg : Bytes) (w : F) (z : Option (Map F)) (scores : Map F) : Map F :=
  match z with
  | none => ∅
  | some z => scores.filterMap fun m sc => (z[m]?).map fun zsc => applyAggregate sc (zsc*w) agg

/-- The loop of `ZInterStore` over the second and further keys. -/
def zInterLoop (m : Maps F) (now : Int) (agg : Bytes) :
    List Bytes → List F → Map F → Except StoreError (Map F)
  | [],_,scores => .ok scores
  | k::ks,weights,scores => match m.getZSet now k with
    | .error e => .error e
    | .ok z => zInterLoop m now agg ks weights.tail (interScores agg (weights.headD 1) z scores)

end Maps

namespace MemoryStore
variable {F : Type}

/-- `s.zsets[key] = z` -/
def putZSet (s : MemoryStore F) (key : Bytes) (z : Map F) : MemoryStore F :=
  { s with zsets := s.zsets.insert key z }

/-- `delete(s.zsets, key); delete(s.keyExpiry, key)` -/
def dropZSet (s : MemoryStore F) (key : Bytes) : MemoryStore F :=
  { s with zsets := s.zsets.erase key,keyExpiry := s.keyExpiry.erase key }

/-- Store what is left of a sorted set, or remove the key when nothing is. -/
def keepZSet (s : MemoryStore F) (key : Bytes) (z : Map F) : MemoryStore F :=
  if z.isEmpty then s.dropZSet key else s.putZSet key z

/-- The type guard of the writing sorted-set operations. -/
def zsetGuard (s : MemoryStore F) (now : Int) (key : Bytes) : Bool :=
  s.typeOf now key=none ∨ s.typeOf now key=some .zset

def zRem (s : MemoryStore F) (now : Int) (key : Bytes) (members : List Bytes) :
    Except StoreError (Int × MemoryStore F) :=
  match s.getZSet now key with
  | .error e => .error e
  | .ok none => .ok (0,s)
  | .ok (some z) =>
    let (n,z') := members.foldl zRemMember (0,z)
    .ok (n,(s.keepZSet key z').bumpVersion key)

variable [Float64 F]

/-- `ZAdd`. The sorted set is created before the loop decides whether anything goes in. -/
def zAdd (s : MemoryStore F) (now : Int) (key : Bytes) (members : List (ZMember F))
    (fl : ZAddFlags) : Except StoreError (Int × MemoryStore F) :=
  if s.zsetGuard now key then
    let (changed,z) := members.foldl (zAddMember fl) (0,s.zsets.getD key ∅)
    .ok (changed,(s.putZSet key z).bumpVersion key)
  else .error .wrongType

def zIncrBy (s : MemoryStore F) (now : Int) (key : Bytes) (increment : F) (member : Bytes) :
    Except StoreError (F × MemoryStore F) :=
  if s.zsetGuard now key then
    let z := s.zsets.getD key ∅
    let score := z.getD member 0+increment
    .ok (score,(s.putZSet key (z.insert member score)).bumpVersion key)
  else .error .wrongType

/-- `ZPopMin` and `ZPopMax` differ in the end of the order they start from. -/
def popZSet (order : List (ZMember F) → List (ZMember F)) (s : MemoryStore F) (now : Int)
    (key : Bytes) (count : Int) : Go (Except StoreError (List (ZMember F) × MemoryStore F)) :=
  match s.getZSet now key with
  | .error e => .ok (.error e)
  | .ok none => .ok (.ok ([],s))
  | .ok (some z) =>
    if z.isEmpty then .ok (.ok ([],s))
    else
      let sorted := order (sortedMembers z)
      let count : Int := if sorted.length < count then sorted.length else count
      if count < 0 then .error .makeLen
      else
        let result := sorted.take count.toNat
        let z' := result.foldl (fun acc m => acc.erase m.member) z
        .ok (.ok (result,(s.keepZSet key z').bumpVersion key))

theorem popZSet_total (order : List (ZMember F) → List (ZMember F))
    (s : MemoryStore F) (now : Int) (key : Bytes) {count : Int} (h : 0 ≤ count) :
    ∃ r, popZSet order s now key count=.ok r := by
  unfold popZSet
  split
  · exact ⟨_,rfl⟩
  · exact ⟨_,rfl⟩
  · rename_i z _
    split_ifs with hz
    · exact ⟨_,rfl⟩
    · have hcut : ¬(if ((order (sortedMembers z)).length:Int) < count
          then ((order (sortedMembers z)).length:Int) else count) < 0 := by
        split <;> omega
      dsimp only
      rw [if_neg hcut]
      exact ⟨_,rfl⟩

def zPopMin (s : MemoryStore F) := popZSet id s

def zPopMax (s : MemoryStore F) := popZSet List.reverse s

/-- The common tail of `ZUnionStore` and `ZInterStore`. -/
def storeScores (s : MemoryStore F) (dst : Bytes) (scores : Except StoreError (Map F)) :
    Except StoreError (Nat × MemoryStore F) :=
  match scores with
  | .error e => .error e
  | .ok scores =>
    let s := s.deleteKey dst
    if scores.isEmpty then .ok (0,s)
    else .ok (scores.size,(s.putZSet dst scores).bumpVersion dst)

def zUnionStore (s : MemoryStore F) (now : Int) (dst : Bytes) (keys : List Bytes)
    (weights : List F) (agg : Bytes) : Except StoreError (Nat × MemoryStore F) :=
  s.storeScores dst (s.zUnionLoop now agg keys weights ∅)

def zInterStore (s : MemoryStore F) (now : Int) (dst : Bytes) (keys : List Bytes)
    (weights : List F) (agg : Bytes) : Except StoreError (Nat × MemoryStore F) :=
  match keys with
  | [] => .ok (0,s)
  | k::ks => match s.getZSet now k with
    | .error e => .error e
    | .ok first =>
      let scores := match first with
        | none => ∅
        | some z => z.map fun _ sc => sc*weights.headD 1
      s.storeScores dst (s.zInterLoop now agg ks weights.tail scores)

end MemoryStore
end GoRedis
