import GoRedis.Lib.Machine
import GoRedis.Storage.Hashes
import GoRedis.Storage.Lists
import GoRedis.Storage.Sets
import GoRedis.Storage.ZSets
/-!
# The store as a machine

One step is one call through the `Store` interface, under its lock, or one background sweep.
The calls that only read are a single constructor: they are functions of the maps.
-/
namespace GoRedis

inductive StoreOp (F : Type)
  | read
  | deleteExpired
  | set (key value : Bytes)
  | setWithTTL (key value : Bytes) (ttl : Int)
  | setAdv (key value : Bytes) (ttl : Int) (opts : SetAdvOpts)
  | getEx (key : Bytes) (ttl : Int) (persist hasTTL : Bool)
  | del (keys : List Bytes)
  | flush
  | expire (key : Bytes) (ttl : Int)
  | persist (key : Bytes)
  | rename (src dst : Bytes)
  | hSet (key : Bytes) (fields : Map Bytes)
  | hDel (key : Bytes) (fields : List Bytes)
  /-- pushes take one or more values -/
  | lPush (key value : Bytes) (values : List Bytes)
  | rPush (key value : Bytes) (values : List Bytes)
  | lPop (key : Bytes) (count : Int)
  | rPop (key : Bytes) (count : Int)
  | lSet (key : Bytes) (index : Int) (value : Bytes)
  | lInsert (key : Bytes) (before : Bool) (pivot value : Bytes)
  | lRem (key : Bytes) (count : Int) (value : Bytes)
  | lTrim (key : Bytes) (start stop : Int)
  | lMove (src dst : Bytes) (srcLeft dstLeft : Bool)
  | sAdd (key : Bytes) (members : List Bytes)
  | sRem (key : Bytes) (members : List Bytes)
  | sInterStore (dst : Bytes) (keys : List Bytes)
  | sUnionStore (dst : Bytes) (keys : List Bytes)
  | sDiffStore (dst : Bytes) (keys : List Bytes)
  | sPop (key : Bytes) (count : Int)
  | sMove (src dst member : Bytes)
  | zAdd (key : Bytes) (members : List (ZMember F)) (flags : ZAddFlags)
  | zRem (key : Bytes) (members : List Bytes)
  | zIncrBy (key : Bytes) (increment : F) (member : Bytes)
  | zPopMin (key : Bytes) (count : Int)
  | zPopMax (key : Bytes) (count : Int)
  | zUnionStore (dst : Bytes) (keys : List Bytes) (weights : List F) (agg : Bytes)
  | zInterStore (dst : Bytes) (keys : List Bytes) (weights : List F) (agg : Bytes)

namespace StoreOp
variable {F : Type}

/-- An operation as the handlers call it: no `SAdd` without members. -/
def Proper : StoreOp F → Prop
  | sAdd _ members => members ≠ []
  | _ => True

/-- The store after an operation that may panic. -/
def dropResult {α : Type} (s : MemoryStore F) :
    Go (Except StoreError (α × MemoryStore F)) → Go (MemoryStore F)
  | .error p => .error p
  | .ok r => .ok (dropError s r)

/-- One operation at the instant of `w`. -/
def apply [Float64 F] (w : World) (s : MemoryStore F) : StoreOp F → Go (MemoryStore F)
  | read => .ok s
  | deleteExpired => .ok (s.deleteExpired w.now)
  | set k v => .ok (s.set k v)
  | setWithTTL k v ttl => .ok (s.setWithTTL w.now k v ttl)
  | setAdv k v ttl opts => .ok (s.setAdv w.now k v ttl opts).2.2
  | getEx k ttl p h => .ok (s.getEx w.now k ttl p h).2
  | del ks => .ok (s.del w.now ks).2
  | flush => .ok s.flush
  | expire k ttl => .ok (s.expire w.now k ttl).2
  | persist k => .ok (s.persist w.now k).2
  | rename src dst => match s.rename w.now src dst with
    | .error p => .error p
    | .ok (_,s') => .ok s'
  | hSet k fields => .ok (s.hSet k fields).2
  | hDel k fields => .ok (s.hDel w.now k fields).2
  | lPush k v vs => .ok (dropError s (s.lPush w.now k (v::vs)))
  | rPush k v vs => .ok (dropError s (s.rPush w.now k (v::vs)))
  | lPop k n => dropResult s (s.lPop w.now k n)
  | rPop k n => dropResult s (s.rPop w.now k n)
  | lSet k i v => .ok ((s.lSet w.now k i v).toOption.getD s)
  | lInsert k before pivot v => .ok (dropError s (s.lInsert w.now k before pivot v))
  | lRem k n v => .ok (dropError s (s.lRem w.now k n v))
  | lTrim k a b => .ok ((s.lTrim w.now k a b).toOption.getD s)
  | lMove src dst a b => .ok (dropError s (s.lMove w.now src dst a b))
  | sAdd k xs => .ok (dropError s (s.sAdd w.now k xs))
  | sRem k xs => .ok (dropError s (s.sRem w.now k xs))
  | sInterStore dst ks => .ok (dropError s (s.sInterStore w dst ks))
  | sUnionStore dst ks => .ok (dropError s (s.sUnionStore w dst ks))
  | sDiffStore dst ks => .ok (dropError s (s.sDiffStore w dst ks))
  | sPop k n => dropResult s (s.sPop w k n)
  | sMove src dst x => .ok (dropError s (s.sMove w.now src dst x))
  | zAdd k ms fl => .ok (dropError s (s.zAdd w.now k ms fl))
  | zRem k xs => .ok (dropError s (s.zRem w.now k xs))
  | zIncrBy k incr x => .ok (dropError s (s.zIncrBy w.now k incr x))
  | zPopMin k n => dropResult s (s.zPopMin w.now k n)
  | zPopMax k n => dropResult s (s.zPopMax w.now k n)
  | zUnionStore dst ks ws agg => .ok (dropError s (s.zUnionStore w.now dst ks ws agg))
  | zInterStore dst ks ws agg => .ok (dropError s (s.zInterStore w.now dst ks ws agg))

/-- The store's step: an operation in the surroundings it meets. -/
def step [Float64 F] (op : World × StoreOp F) (s : MemoryStore F) : Go (MemoryStore F) :=
  op.2.apply op.1 s

end StoreOp
end GoRedis
