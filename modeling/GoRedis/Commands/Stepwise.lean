import GoRedis.Commands.Router
import GoRedis.Lib.Serial
/-!
# Handlers call by call

Every call of the store takes its lock and releases it, so a handler that makes several calls is
a program of them. The handlers that read and then write, or go through several keys, are given
here as such programs; run alone they are the handlers of the router.
-/
namespace GoRedis
open Calls

/-- The methods of the store that these handlers call. -/
inductive StoreCall
  | get (key : Bytes)
  | set (key value : Bytes)
  | del (keys : List Bytes)
  | hGet (key field : Bytes)
  | hSet (key : Bytes) (fields : Map Bytes)

namespace StoreCall

@[reducible] def Result : StoreCall → Type
  | get _ | hGet _ _ => Option Bytes
  | set _ _ => Unit
  | del _ | hSet _ _ => Nat

/-- One call. -/
def perform {F : Type} (w : World) : (c : StoreCall) → MemoryStore F → Go (c.Result × MemoryStore F)
  | get key,s => .ok (s.get w.now key,s)
  | set key value,s => .ok ((),s.set key value)
  | del keys,s => .ok (s.del w.now keys)
  | hGet key field,s => .ok (s.hGet w.now key field,s)
  | hSet key fields,s => .ok (s.hSet key fields)

end StoreCall

abbrev StoreM := Prog StoreCall StoreCall.Result

namespace Stepwise

def get (key : Bytes) : StoreM (Option Bytes) := Prog.request (StoreCall.get key)

def set (key value : Bytes) : StoreM Unit := Prog.request (StoreCall.set key value)

def del (keys : List Bytes) : StoreM Nat := Prog.request (StoreCall.del keys)

def hGet (key field : Bytes) : StoreM (Option Bytes) := Prog.request (StoreCall.hGet key field)

def hSet (key : Bytes) (fields : Map Bytes) : StoreM Nat :=
  Prog.request (StoreCall.hSet key fields)

def incrBy (key : Bytes) (delta : Int) : StoreM Response := do
  let old ← get key
  match (match old with
    | none => some 0
    | some raw => parseInt raw) with
  | none => pure notInteger
  | some current =>
    let next := wrap64 (current+delta)
    if 0 < delta ∧ next < current then pure (.error (utf8 "ERR increment would overflow"))
    else if delta < 0 ∧ current < next then pure (.error (utf8 "ERR decrement would overflow"))
    else do
      set key (formatInt next)
      pure (.integer next)

/-- `handleIncr` and `handleDecr` -/
def handleStep (name : String) (delta : Int) (args : List Bytes) : StoreM Response :=
  match args with
  | [_,key] => incrBy key delta
  | _ => pure (wrongArgs name)

def handleIncr := handleStep "INCR" 1

def handleDecr := handleStep "DECR" (-1)

/-- `handleIncrBy` and `handleDecrBy` -/
def handleStepBy (name : String) (sign : Int → Int) (args : List Bytes) : StoreM Response :=
  match args with
  | [_,key,n] => match parseInt n with
    | none => pure notInteger
    | some delta => incrBy key (sign delta)
  | _ => pure (wrongArgs name)

def handleIncrBy := handleStepBy "INCRBY" id

def handleDecrBy := handleStepBy "DECRBY" fun d => wrap64 (-d)

def handleHIncrBy (args : List Bytes) : StoreM Response :=
  match args with
  | [_,key,field,n] => do
    let old ← hGet key field
    match (match old with
      | none => some 0
      | some raw => parseInt raw) with
    | none => pure (.error (utf8 "ERR hash value is not an integer"))
    | some current => match parseInt n with
      | none => pure notInteger
      | some delta => do
        let next := wrap64 (current+delta)
        let _ ← hSet key ((∅ : Map Bytes).insert field (formatInt next))
        pure (.integer next)
  | _ => pure (wrongArgs "HINCRBY")

def handleAppend (args : List Bytes) : StoreM Response :=
  match args with
  | [_,key,value] => do
    let existing ← get key
    let newVal := existing.getD []++value
    set key newVal
    pure (.integer newVal.length)
  | _ => pure (wrongArgs "APPEND")

def handleSetNX (args : List Bytes) : StoreM Response :=
  match args with
  | [_,key,value] => do
    let old ← get key
    if old.isSome then pure (.integer 0)
    else do
      set key value
      pure (.integer 1)
  | _ => pure (wrongArgs "SETNX")

def handleGetSet (args : List Bytes) : StoreM Response :=
  match args with
  | [_,key,value] => do
    let old ← get key
    set key value
    pure (optReply old)
  | _ => pure (wrongArgs "GETSET")

def handleGetDel (args : List Bytes) : StoreM Response :=
  match args with
  | [_,key] => do
    let old ← get key
    match old with
    | none => pure .nullBulkString
    | some v => do
      let _ ← del [key]
      pure (.bulkString v)
  | _ => pure (wrongArgs "GETDEL")

/-- The loop of `handleMSet`. -/
def msetLoop : List Bytes → StoreM Unit
  | k::v::rest => do
    set k v
    msetLoop rest
  | _ => pure ()

def handleMSet (args : List Bytes) : StoreM Response :=
  if args.length < 3 ∨ args.length%2=0 then pure (wrongArgs "MSET")
  else do
    msetLoop args.tail
    pure okReply

/-- The loop of `handleMGet`. -/
def mgetLoop : List Bytes → StoreM (List Response)
  | [] => pure []
  | key::keys => do
    let val ← get key
    let elems ← mgetLoop keys
    pure (optReply val::elems)

def handleMGet (args : List Bytes) : StoreM Response :=
  match args with
  | _::key::keys => do
    let elems ← mgetLoop (key::keys)
    pure (.array elems)
  | _ => pure (wrongArgs "MGET")

end Stepwise

/-- The commands in question. -/
inductive Compound
  | incr | incrby | decr | decrby | hincrby | append | setnx | getset | getdel | mset | mget
  deriving DecidableEq, Repr

namespace Compound

def command : Compound → Command
  | incr => .write .incr
  | incrby => .write .incrby
  | decr => .write .decr
  | decrby => .write .decrby
  | hincrby => .write .hincrby
  | append => .write .append
  | setnx => .write .setnx
  | getset => .write .getset
  | getdel => .write .getdel
  | mset => .write .mset
  | mget => .read .mget

def program (args : List Bytes) : Compound → StoreM Response
  | incr => Stepwise.handleIncr args
  | incrby => Stepwise.handleIncrBy args
  | decr => Stepwise.handleDecr args
  | decrby => Stepwise.handleDecrBy args
  | hincrby => Stepwise.handleHIncrBy args
  | append => Stepwise.handleAppend args
  | setnx => Stepwise.handleSetNX args
  | getset => Stepwise.handleGetSet args
  | getdel => Stepwise.handleGetDel args
  | mset => Stepwise.handleMSet args
  | mget => Stepwise.handleMGet args

end Compound

namespace Stepwise
variable {F : Type} (w : World) (s : MemoryStore F)

/-- Alone, with the clock standing still. -/
abbrev alone {α : Type} (p : StoreM α) (w : World) (s : MemoryStore F) : Go (α × MemoryStore F) :=
  p.exec StoreCall.perform w s

section Calls
variable {α : Type}

@[simp] theorem alone_get (key : Bytes) (f : Option Bytes → StoreM α) :
    alone (get key >>= f) w s=alone (f (s.get w.now key)) w s := rfl

@[simp] theorem alone_set (key value : Bytes) (f : Unit → StoreM α) :
    alone (set key value >>= f) w s=alone (f ()) w (s.set key value) := rfl

@[simp] theorem alone_del (keys : List Bytes) (f : Nat → StoreM α) :
    alone (del keys >>= f) w s=alone (f (s.del w.now keys).1) w (s.del w.now keys).2 := rfl

@[simp] theorem alone_hGet (key field : Bytes) (f : Option Bytes → StoreM α) :
    alone (hGet key field >>= f) w s=alone (f (s.hGet w.now key field)) w s := rfl

@[simp] theorem alone_hSet (key : Bytes) (fields : Map Bytes) (f : Nat → StoreM α) :
    alone (hSet key fields >>= f) w s=alone (f (s.hSet key fields).1) w (s.hSet key fields).2 := rfl

@[simp] theorem alone_pure (a : α) : alone (pure a) w s=.ok (a,s) := rfl

end Calls

theorem incrBy_alone (key : Bytes) (delta : Int) :
    alone (incrBy key delta) w s=.ok (GoRedis.incrBy w key delta s) := by
  rw [incrBy,alone_get,GoRedis.incrBy]
  cases s.get w.now key with
  | none =>
    dsimp only
    split_ifs <;> rfl
  | some raw =>
    dsimp only
    cases parseInt raw with
    | none => rfl
    | some current =>
      dsimp only
      split_ifs <;> rfl

theorem handleStep_alone (name : String) (delta : Int) (args : List Bytes) :
    alone (handleStep name delta args) w s=.ok (GoRedis.handleStep name delta w args s) := by
  unfold GoRedis.handleStep
  split
  · exact incrBy_alone w s _ delta
  · rename_i hshape
    rw [handleStep.eq_2 _ _ _ hshape,alone_pure]

theorem handleStepBy_alone (name : String) (sign : Int → Int) (args : List Bytes) :
    alone (handleStepBy name sign args) w s=.ok (GoRedis.handleStepBy name sign w args s) := by
  unfold GoRedis.handleStepBy
  split
  · rename_i key n
    rw [handleStepBy]
    cases parseInt n with
    | none => rfl
    | some delta => exact incrBy_alone w s key (sign delta)
  · rename_i hshape
    rw [handleStepBy.eq_2 _ _ _ hshape,alone_pure]

theorem handleHIncrBy_alone (args : List Bytes) :
    alone (handleHIncrBy args) w s=.ok (GoRedis.handleHIncrBy w args s) := by
  unfold GoRedis.handleHIncrBy
  split
  · rename_i key field n
    rw [handleHIncrBy,alone_hGet]
    cases s.hGet w.now key field with
    | none =>
      dsimp only
      cases parseInt n <;> rfl
    | some raw =>
      dsimp only
      cases parseInt raw with
      | none => rfl
      | some current =>
        dsimp only
        cases parseInt n <;> rfl
  · rename_i hshape
    rw [handleHIncrBy.eq_2 _ hshape,alone_pure]

theorem handleAppend_alone (args : List Bytes) :
    alone (handleAppend args) w s=.ok (GoRedis.handleAppend w args s) := by
  unfold GoRedis.handleAppend
  split
  · rfl
  · rename_i hshape
    rw [handleAppend.eq_2 _ hshape,alone_pure]

theorem handleSetNX_alone (args : List Bytes) :
    alone (handleSetNX args) w s=.ok (GoRedis.handleSetNX w args s) := by
  unfold GoRedis.handleSetNX
  split
  · rw [handleSetNX,alone_get]
    split_ifs <;> rfl
  · rename_i hshape
    rw [handleSetNX.eq_2 _ hshape,alone_pure]

theorem handleGetSet_alone (args : List Bytes) :
    alone (handleGetSet args) w s=.ok (GoRedis.handleGetSet w args s) := by
  unfold GoRedis.handleGetSet
  split
  · rfl
  · rename_i hshape
    rw [handleGetSet.eq_2 _ hshape,alone_pure]

theorem handleGetDel_alone (args : List Bytes) :
    alone (handleGetDel args) w s=.ok (GoRedis.handleGetDel w args s) := by
  unfold GoRedis.handleGetDel
  split
  · rename_i key
    rw [handleGetDel,alone_get]
    cases s.get w.now key <;> rfl
  · rename_i hshape
    rw [handleGetDel.eq_2 _ hshape,alone_pure]

theorem msetLoop_alone (kvs : List Bytes) :
    alone (msetLoop kvs) w s=.ok ((),GoRedis.msetLoop s kvs) := by
  induction s,kvs using GoRedis.msetLoop.induct with
  | case1 s k v rest ih =>
    rw [msetLoop,alone_set,GoRedis.msetLoop]
    exact ih
  | case2 s kvs hshort =>
    rw [msetLoop,GoRedis.msetLoop]
    · rfl
    · exact hshort
    · exact hshort

theorem handleMSet_alone (args : List Bytes) :
    alone (handleMSet args) w s=.ok (GoRedis.handleMSet args s) := by
  unfold handleMSet GoRedis.handleMSet
  split
  · rfl
  · rw [alone,Prog.exec_bind]
    have hloop := msetLoop_alone w s args.tail
    rw [alone] at hloop
    rw [hloop]
    rfl

theorem mgetLoop_alone (keys : List Bytes) :
    alone (mgetLoop keys) w s=.ok (keys.map fun k => optReply (s.get w.now k),s) := by
  induction keys with
  | nil => rfl
  | cons key keys ih =>
    rw [mgetLoop,alone_get,alone,Prog.exec_bind]
    rw [alone] at ih
    rw [ih]
    rfl

theorem handleMGet_alone (args : List Bytes) :
    alone (handleMGet args) w s=.ok (GoRedis.handleMGet w args s.toMaps,s) := by
  unfold GoRedis.handleMGet
  split
  · rename_i key keys
    have hloop := mgetLoop_alone w s (key::keys)
    rw [alone] at hloop
    rw [handleMGet,alone,Prog.exec_bind,hloop]
    rfl
  · rename_i hshape
    rw [handleMGet.eq_2 _ hshape,alone_pure]

end Stepwise

theorem Compound.program_alone {F : Type} [Float64 F] {c : Compound} {args : List Bytes}
    (hc : commandOf args=some c.command) (w : World) (s : MemoryStore F) :
    Stepwise.alone (c.program args) w s=(dispatch w args s).map fun d => (d.resp,d.store) := by
  have hwrite : ∀ {c' : WriteCommand} {p : StoreM Response} {r : Response × MemoryStore F},
      commandOf args=some (.write c') → execute w c' args s=.ok r → Stepwise.alone p w s=.ok r →
        Stepwise.alone p w s=(dispatch w args s).map fun d => (d.resp,d.store) := by
    intro c' p r hc he hp
    rw [hp,dispatch_write hc,he]
    rfl
  cases c with
  | incr => exact hwrite hc rfl (Stepwise.handleStep_alone w s _ _ args)
  | incrby => exact hwrite hc rfl (Stepwise.handleStepBy_alone w s _ _ args)
  | decr => exact hwrite hc rfl (Stepwise.handleStep_alone w s _ _ args)
  | decrby => exact hwrite hc rfl (Stepwise.handleStepBy_alone w s _ _ args)
  | hincrby => exact hwrite hc rfl (Stepwise.handleHIncrBy_alone w s args)
  | append => exact hwrite hc rfl (Stepwise.handleAppend_alone w s args)
  | setnx => exact hwrite hc rfl (Stepwise.handleSetNX_alone w s args)
  | getset => exact hwrite hc rfl (Stepwise.handleGetSet_alone w s args)
  | getdel => exact hwrite hc rfl (Stepwise.handleGetDel_alone w s args)
  | mset => exact hwrite hc rfl (Stepwise.handleMSet_alone w s args)
  | mget =>
    rw [dispatch_read hc]
    exact Stepwise.handleMGet_alone w s args

end GoRedis
