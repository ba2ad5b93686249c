import GoRedis.Storage.Strings
/-!
# Store operations on hashes
-/
namespace GoRedis

namespace Maps
variable {F : Type}

/-- The hash of `key` unless the key's deadline has passed. -/
def liveHash (m : Maps F) (now : Int) (key : Bytes) : Option (Map Bytes) :=
  if m.keyExpiredNonStr now key then none else m.hashes[key]?

def hGet (m : Maps F) (now : Int) (key field : Bytes) : Option Bytes :=
  (m.liveHash now key).bind fun h => h[field]?

/-- `HGetAll`: the pairs of the copied hash in `range` order. -/
def hGetAll (m : Maps F) (w : World) (key : Bytes) : List (Bytes × Bytes) :=
  match m.liveHash w.now key with
  | none => []
  | some h => (w.rangeOrder h.keys).map fun f => (f,h.getD f [])

def hLen (m : Maps F) (now : Int) (key : Bytes) : Nat :=
  ((m.liveHash now key).map Std.ExtTreeMap.size).getD 0

def hExists (m : Maps F) (now : Int) (key field : Bytes) : Bool :=
  (m.liveHash now key).any fun h => h.contains field

def hKeys (m : Maps F) (w : World) (key : Bytes) : List Bytes :=
  (m.hGetAll w key).map Prod.fst

def hVals (m : Maps F) (w : World) (key : Bytes) : List Bytes :=
  (m.hGetAll w key).map Prod.snd

end Maps

/-- One round of the `HSet` loop: the count of new fields and the hash so far. -/
def hSetField (acc : Nat × Map Bytes) (p : Bytes × Bytes) : Nat × Map Bytes :=
  (if p.1 ∈ acc.2 then acc.1 else acc.1+1,acc.2.insert p.1 p.2)

/-- One round of the `HDel` loop. -/
def hDelField (acc : Nat × Map Bytes) (f : Bytes) : Nat × Map Bytes :=
  if f ∈ acc.2 then (acc.1+1,acc.2.erase f) else acc

namespace MemoryStore
variable {F : Type}

/-- `HSet`. Only the string map is cleared; the other type maps are left as they are. -/
def hSet (s : MemoryStore F) (key : Bytes) (fields : Map Bytes) : Nat × MemoryStore F :=
  let (added,h) := fields.toList.foldl hSetField (0,s.hashes.getD key ∅)
  (added,{ s with strings := s.strings.erase key,hashes := s.hashes.insert key h }.bumpVersion key)

def hDel (s : MemoryStore F) (now : Int) (key : Bytes) (fields : List Bytes) :
    Nat × MemoryStore F :=
  match s.liveHash now key with
  | none => (0,s)
  | some h =>
    let (n,h') := fields.foldl hDelField (0,h)
    if h'.isEmpty then
      (n,{ s with
        hashes := s.hashes.erase key
        keyExpiry := s.keyExpiry.erase key
        keyVersion := s.keyVersion.erase key })
    else (n,{ s with hashes := s.hashes.insert key h' }.bumpVersion key)

/-- The hash that `HSet` stores: the new fields over the old ones. -/
def mergeFields (old fields : Map Bytes) : Map Bytes :=
  fields.toList.foldl (fun h p => h.insert p.1 p.2) old

theorem foldl_hSetField (l : List (Bytes × Bytes)) (n : Nat) (h : Map Bytes) :
    (l.foldl hSetField (n,h)).2=l.foldl (fun h p => h.insert p.1 p.2) h := by
  induction l generalizing n h with
  | nil => rfl
  | cons p l ih => rw [List.foldl_cons,List.foldl_cons,hSetField,ih]

theorem hSet_toMaps (s : MemoryStore F) (key : Bytes) (fields : Map Bytes) :
    (s.hSet key fields).2.toMaps={ s.toMaps with
      strings := s.strings.erase key
      hashes := s.hashes.insert key (mergeFields (s.hashes.getD key ∅) fields) } := by
  unfold hSet mergeFields
  rw [← foldl_hSetField fields.toList 0]
  rfl

end MemoryStore
end GoRedis
