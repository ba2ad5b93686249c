import GoRedis.Storage.Strings
/-!
# Store operations on sets
-/
namespace GoRedis

namespace Maps
variable {F : Type}

/-- `getSet`; `none` is the nil map of an absent key. -/
def getSet (m : Maps F) (now : Int) (key : Bytes) : Except StoreError (Option KeySet) :=
  match m.typeOf now key with
  | none => .ok none
  | some .set => .ok m.sets[key]?
  | some _ => .error .wrongType

/-- `_, ok := st[member]`, also on a nil map. -/
def inSet (st : Option KeySet) (member : Bytes) : Bool := st.any fun st => st.contains member

def sMembers (m : Maps F) (w : World) (key : Bytes) : Except StoreError (List Bytes) :=
  (m.getSet w.now key).map fun st => match st with
    | none => []
    | some st => w.rangeOrder st.toList

def sCard (m : Maps F) (now : Int) (key : Bytes) : Except StoreError Nat :=
  (m.getSet now key).map fun st => (st.map Std.ExtTreeSet.size).getD 0

def sIsMember (m : Maps F) (now : Int) (key member : Bytes) : Except StoreError Bool :=
  (m.getSet now key).map fun st => inSet st member

def sMIsMember (m : Maps F) (now : Int) (key : Bytes) (members : List Bytes) :
    Except StoreError (List Bool) :=
  (m.getSet now key).map fun st => members.map (inSet st)

/-- The inner loop of `setInter`: is `member` in every further key? It stops at the first
key without it, so a later key of the wrong type goes unnoticed. -/
def inAll (m : Maps F) (now : Int) (member : Bytes) : List Bytes → Except StoreError Bool
  | [] => .ok true
  | k::ks => match m.getSet now k with
    | .error e => .error e
    | .ok st => if inSet st member then inAll m now member ks else .ok false

/-- The inner loop of `setDiff`: is `member` in some further key? -/
def inOther (m : Maps F) (now : Int) (member : Bytes) : List Bytes → Except StoreError Bool
  | [] => .ok false
  | k::ks => match m.getSet now k with
    | .error e => .error e
    | .ok st => if inSet st member then .ok true else inOther m now member ks

/-- The outer loop of `setInter` and `setDiff`: keep what `test` accepts. -/
def filterLoop (test : Bytes → Except StoreError Bool) : List Bytes → Except StoreError (List Bytes)
  | [] => .ok []
  | x::xs => match test x with
    | .error e => .error e
    | .ok keep => match filterLoop test xs with
      | .error e => .error e
      | .ok ys => .ok (if keep then x::ys else ys)

def setInter (m : Maps F) (w : World) : List Bytes → Except StoreError (List Bytes)
  | [] => .ok []
  | k::ks => match m.getSet w.now k with
    | .error e => .error e
    | .ok none => .ok []
    | .ok (some first) => filterLoop (fun x => m.inAll w.now x ks) (w.rangeOrder first.toList)

/-- The accumulating loop of `setUnion`. -/
def unionLoop (m : Maps F) (now : Int) (seen : KeySet) : List Bytes → Except StoreError KeySet
  | [] => .ok seen
  | k::ks => match m.getSet now k with
    | .error e => .error e
    | .ok st => unionLoop m now (((st.map Std.ExtTreeSet.toList).getD []).foldl
        (fun acc x => acc.insert x) seen) ks

def setUnion (m : Maps F) (w : World) (keys : List Bytes) : Except StoreError (List Bytes) :=
  (m.unionLoop w.now ∅ keys).map fun seen => w.rangeOrder seen.toList

def setDiff (m : Maps F) (w : World) : List Bytes → Except StoreError (List Bytes)
  | [] => .ok []
  | k::ks => match m.getSet w.now k with
    | .error e => .error e
    | .ok first => filterLoop (fun x => (m.inOther w.now x ks).map not)
        (w.rangeOrder ((first.map Std.ExtTreeSet.toList).getD []))

/-- `SRandMember`. A negative `count` asks for repetitions; its negation is an `int`. -/
def sRandMember (m : Maps F) (w : World) (key : Bytes) (count : Int) :
    Go (Except StoreError (List Bytes)) :=
  match m.getSet w.now key with
  | .error e => .ok (.error e)
  | .ok none => .ok (.ok [])
  | .ok (some st) =>
    let all := w.rangeOrder st.toList
    if count=0 then .ok (.ok [])
    else if 0 < count then
      if all.length ≤ count then .ok (.ok all) else .ok (.ok ((w.shuffle all).take count.toNat))
    else
      let abs := wrap64 (-count)
      if ¬MakeOk 16 abs then .error .makeLen
      else if all=[] then .error .emptyRange
      else .ok (.ok ((List.range abs.toNat).map fun i => all.getD (w.intN i all.length) []))

end Maps

namespace MemoryStore
variable {F : Type}

/-- `s.sets[key] = st` -/
def putSet (s : MemoryStore F) (key : Bytes) (st : KeySet) : MemoryStore F :=
  { s with sets := s.sets.insert key st }

/-- `delete(s.sets, key); delete(s.keyExpiry, key)` -/
def dropSet (s : MemoryStore F) (key : Bytes) : MemoryStore F :=
  { s with sets := s.sets.erase key,keyExpiry := s.keyExpiry.erase key }

/-- Store what is left of a set, or remove the key when nothing is. -/
def keepSet (s : MemoryStore F) (key : Bytes) (st : KeySet) : MemoryStore F :=
  if st.isEmpty then s.dropSet key else s.putSet key st

/-- The type guard of the writing set operations. -/
def setGuard (s : MemoryStore F) (now : Int) (key : Bytes) : Bool :=
  s.typeOf now key=none ∨ s.typeOf now key=some .set

/-- One round of the `SAdd` loop. -/
def sAddMember (acc : Nat × KeySet) (x : Bytes) : Nat × KeySet :=
  if x ∈ acc.2 then acc else (acc.1+1,acc.2.insert x)

/-- One round of the `SRem` loop. -/
def sRemMember (acc : Nat × KeySet) (x : Bytes) : Nat × KeySet :=
  if x ∈ acc.2 then (acc.1+1,acc.2.erase x) else acc

def sAdd (s : MemoryStore F) (now : Int) (key : Bytes) (members : List Bytes) :
    Except StoreError (Nat × MemoryStore F) :=
  if s.setGuard now key then
    let (added,st) := members.foldl sAddMember (0,s.sets.getD key ∅)
    .ok (added,(s.putSet key st).bumpVersion key)
  else .error .wrongType

def sRem (s : MemoryStore F) (now : Int) (key : Bytes) (members : List Bytes) :
    Except StoreError (Nat × MemoryStore F) :=
  match s.getSet now key with
  | .error e => .error e
  | .ok none => .ok (0,s)
  | .ok (some st) =>
    let (n,st') := members.foldl sRemMember (0,st)
    .ok (n,(s.keepSet key st').bumpVersion key)

/-- The common tail of `SInterStore`, `SUnionStore` and `SDiffStore`. -/
def storeMembers (s : MemoryStore F) (dst : Bytes) (members : Except StoreError (List Bytes)) :
    Except StoreError (Nat × MemoryStore F) :=
  match members with
  | .error e => .error e
  | .ok members =>
    let s := s.deleteKey dst
    if members=[] then .ok (0,s)
    else .ok (members.length,
      (s.putSet dst (members.foldl (fun acc x => acc.insert x) ∅)).bumpVersion dst)

def sInterStore (s : MemoryStore F) (w : World) (dst : Bytes) (keys : List Bytes) :
    Except StoreError (Nat × MemoryStore F) := s.storeMembers dst (s.setInter w keys)

def sUnionStore (s : MemoryStore F) (w : World) (dst : Bytes) (keys : List Bytes) :
    Except StoreError (Nat × MemoryStore F) := s.storeMembers dst (s.setUnion w keys)

def sDiffStore (s : MemoryStore F) (w : World) (dst : Bytes) (keys : List Bytes) :
    Except StoreError (Nat × MemoryStore F) := s.storeMembers dst (s.setDiff w keys)

def sPop (s : MemoryStore F) (w : World) (key : Bytes) (count : Int) :
    Go (Except StoreError (List Bytes × MemoryStore F)) :=
  match s.getSet w.now key with
  | .error e => .ok (.error e)
  | .ok none => .ok (.ok ([],s))
  | .ok (some st) =>
    let all := w.rangeOrder st.toList
    if all.length ≤ count then .ok (.ok (all,(s.dropSet key).bumpVersion key))
    else if count < 0 then .error .sliceBounds
    else
      let result := (w.shuffle all).take count.toNat
      .ok (.ok (result,(s.putSet key (result.foldl (fun acc x => acc.erase x) st)).bumpVersion key))

theorem sPop_total (s : MemoryStore F) (w : World) (key : Bytes) {count : Int} (h : 0 ≤ count) :
    ∃ r, s.sPop w key count=.ok r := by
  unfold sPop
  split
  · exact ⟨_,rfl⟩
  · exact ⟨_,rfl⟩
  · dsimp only
    split_ifs
    · exact ⟨_,rfl⟩
    · omega
    · exact ⟨_,rfl⟩

/-- `SMove`. The source set is read from the map without asking for its deadline. -/
def sMove (s : MemoryStore F) (now : Int) (src dst member : Bytes) :
    Except StoreError (Bool × MemoryStore F) :=
  if ¬s.setGuard now src then .error .wrongType
  else if ¬s.setGuard now dst then .error .wrongType
  else match s.sets[src]? with
    | none => .ok (false,s)
    | some srcSet =>
      if member ∉ srcSet then .ok (false,s)
      else
        let s := s.keepSet src (srcSet.erase member)
        let s := s.putSet dst ((s.sets.getD dst ∅).insert member)
        .ok (true,(s.bumpVersion src).bumpVersion dst)

end MemoryStore
end GoRedis
