import GoRedis.Storage.Strings
/-!
# Store operations on lists

A key present in `lists` holds a non-nil slice: no caller pushes an empty list of values.
-/
namespace GoRedis

namespace Maps
variable {F : Type}

/-- `getList`; `none` is the nil slice of an absent key. -/
def getList (m : Maps F) (now : Int) (key : Bytes) : Except StoreError (Option (List Bytes)) :=
  match m.typeOf now key with
  | none => .ok none
  | some .list => .ok m.lists[key]?
  | some _ => .error .wrongType

def lLen (m : Maps F) (now : Int) (key : Bytes) : Except StoreError Nat :=
  (m.getList now key).map fun l => (l.getD []).length

def lRange (m : Maps F) (now : Int) (key : Bytes) (start stop : Int) :
    Except StoreError (List Bytes) :=
  (m.getList now key).map fun l =>
    let l := l.getD []
    if l=[] then []
    else
      let (lo,hi) := clampRange start stop l.length
      if hi < lo then [] else slice l lo hi

def lIndex (m : Maps F) (now : Int) (key : Bytes) (index : Int) :
    Except StoreError (Option Bytes) :=
  (m.getList now key).map fun l =>
    (normaliseIndex index (l.getD []).length).bind fun i => (l.getD [])[i]?

end Maps

/-- The loop of `LRem`: drop matches as long as `more` allows it, counting them. -/
def lRemLoop (value : Bytes) (more : Nat → Bool) : Nat → List Bytes → Nat × List Bytes
  | removed,[] => (removed,[])
  | removed,v::l =>
    if v=value ∧ more removed then lRemLoop value more (removed+1) l
    else
      let (n,l') := lRemLoop value more removed l
      (n,v::l')

/-- What `LRem` removes and keeps. The negated `count` is computed in `int64`. -/
def lRemSplit (l : List Bytes) (count : Int) (value : Bytes) : Nat × List Bytes :=
  let abs := if count < 0 then wrap64 (-count) else count
  if 0 ≤ count then lRemLoop value (fun removed => count=0 ∨ (removed:Int) < abs) 0 l
  else
    -- the source walks from the tail and prepends what it keeps
    let (n,l') := lRemLoop value (fun removed => (removed:Int) < abs) 0 l.reverse
    (n,l'.reverse)

namespace MemoryStore
variable {F : Type}

/-- `s.lists[key] = l` -/
def putList (s : MemoryStore F) (key : Bytes) (l : List Bytes) : MemoryStore F :=
  { s with lists := s.lists.insert key l }

/-- `delete(s.lists, key); delete(s.keyExpiry, key)` -/
def dropList (s : MemoryStore F) (key : Bytes) : MemoryStore F :=
  { s with lists := s.lists.erase key,keyExpiry := s.keyExpiry.erase key }

/-- Store what is left of a list, or remove the key when nothing is. -/
def keepList (s : MemoryStore F) (key : Bytes) (l : List Bytes) : MemoryStore F :=
  if l=[] then s.dropList key else s.putList key l

/-- The type guard of the writing list operations. -/
def listGuard (s : MemoryStore F) (now : Int) (key : Bytes) : Bool :=
  s.typeOf now key=none ∨ s.typeOf now key=some .list

def lPush (s : MemoryStore F) (now : Int) (key : Bytes) (values : List Bytes) :
    Except StoreError (Nat × MemoryStore F) :=
  if s.listGuard now key then
    let l := values.reverse++s.lists.getD key []
    .ok (l.length,(s.putList key l).bumpVersion key)
  else .error .wrongType

def rPush (s : MemoryStore F) (now : Int) (key : Bytes) (values : List Bytes) :
    Except StoreError (Nat × MemoryStore F) :=
  if s.listGuard now key then
    let l := s.lists.getD key []++values
    .ok (l.length,(s.putList key l).bumpVersion key)
  else .error .wrongType

/-- `LPop` and `RPop` differ in how a list is cut into the popped and the kept part. -/
def popList (cut : Nat → List Bytes → List Bytes × List Bytes) (s : MemoryStore F) (now : Int)
    (key : Bytes) (count : Int) : Go (Except StoreError (Option (List Bytes) × MemoryStore F)) :=
  match s.getList now key with
  | .error e => .ok (.error e)
  | .ok none => .ok (.ok (none,s))
  | .ok (some l) =>
    let count : Int := if l.length < count then l.length else count
    if count < 0 then .error .makeLen
    else
      let (popped,rest) := cut count.toNat l
      .ok (.ok (some popped,(s.keepList key rest).bumpVersion key))

theorem popList_total (cut : Nat → List Bytes → List Bytes × List Bytes) (s : MemoryStore F)
    (now : Int) (key : Bytes) {count : Int} (h : 0 ≤ count) :
    ∃ r, popList cut s now key count=.ok r := by
  unfold popList
  split
  · exact ⟨_,rfl⟩
  · exact ⟨_,rfl⟩
  · rename_i l _
    have hcut : ¬(if (l.length:Int) < count then (l.length:Int) else count) < 0 := by
      split <;> omega
    rw [if_neg hcut]
    exact ⟨_,rfl⟩

def cutHead (n : Nat) (l : List Bytes) : List Bytes × List Bytes := (l.take n,l.drop n)

def cutTail (n : Nat) (l : List Bytes) : List Bytes × List Bytes :=
  (l.drop (l.length-n),l.take (l.length-n))

def lPop (s : MemoryStore F) := popList cutHead s

def rPop (s : MemoryStore F) := popList cutTail s

def lSet (s : MemoryStore F) (now : Int) (key : Bytes) (index : Int) (value : Bytes) :
    Except StoreError (MemoryStore F) :=
  match s.typeOf now key with
  | none => .error .noSuchKey
  | some .list =>
    let l := s.lists.getD key []
    match normaliseIndex index l.length with
    | none => .error .indexOutOfRange
    | some i => .ok ((s.putList key (l.set i value)).bumpVersion key)
  | some _ => .error .wrongType

/-- `LInsert`: -1 when the pivot is absent, 0 when the key is. -/
def lInsert (s : MemoryStore F) (now : Int) (key : Bytes) (before : Bool) (pivot value : Bytes) :
    Except StoreError (Int × MemoryStore F) :=
  match s.typeOf now key with
  | none => .ok (0,s)
  | some .list =>
    let l := s.lists.getD key []
    match l.idxOf? pivot with
    | none => .ok (-1,s)
    | some pos =>
      let pos := if before then pos else pos+1
      let l' := l.take pos++value::l.drop pos
      .ok (l'.length,(s.putList key l').bumpVersion key)
  | some _ => .error .wrongType

def lRem (s : MemoryStore F) (now : Int) (key : Bytes) (count : Int) (value : Bytes) :
    Except StoreError (Nat × MemoryStore F) :=
  match s.getList now key with
  | .error e => .error e
  | .ok none => .ok (0,s)
  | .ok (some l) =>
    let (removed,l') := lRemSplit l count value
    if removed=0 then .ok (0,s)
    else .ok (removed,(s.keepList key l').bumpVersion key)

def lTrim (s : MemoryStore F) (now : Int) (key : Bytes) (start stop : Int) :
    Except StoreError (MemoryStore F) :=
  match s.typeOf now key with
  | none => .ok s
  | some .list =>
    let l := s.lists.getD key []
    let (lo,hi) := clampRange start stop l.length
    if hi < lo then .ok ((s.dropList key).bumpVersion key)
    else .ok ((s.putList key (slice l lo hi)).bumpVersion key)
  | some _ => .error .wrongType

/-- The end of a non-empty list that `LMove` takes, and the rest. -/
def takeEnd (left : Bool) (l : List Bytes) : Bytes × List Bytes :=
  if left then (l.headD [],l.tail) else (l.getLastD [],l.dropLast)

/-- `LMove`. The source list is read from the map without asking for its deadline. -/
def lMove (s : MemoryStore F) (now : Int) (src dst : Bytes) (srcLeft dstLeft : Bool) :
    Except StoreError (Option Bytes × MemoryStore F) :=
  if ¬s.listGuard now src then .error .wrongType
  else if ¬s.listGuard now dst then .error .wrongType
  else
    let l := s.lists.getD src []
    if l=[] then .ok (none,s)
    else
      let (elem,rest) := takeEnd srcLeft l
      let s := s.keepList src rest
      let d := s.lists.getD dst []
      let s := s.putList dst (if dstLeft then elem::d else d++[elem])
      .ok (some elem,(s.bumpVersion src).bumpVersion dst)

end MemoryStore
end GoRedis
