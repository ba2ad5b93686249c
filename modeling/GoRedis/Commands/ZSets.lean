import GoRedis.Commands.Reply
import GoRedis.Storage.ZSets
/-!
# Sorted set commands
-/
namespace GoRedis
variable {F : Type}

section Scores
variable [Float64 F]
open Float64

/-- `parseScore`: the infinities in any case, everything else through `ParseFloat`. -/
def parseScore (s : Bytes) : Option F :=
  if toLower s=utf8 "+inf" ∨ toLower s=utf8 "inf" then some posInf
  else if toLower s=utf8 "-inf" then some negInf
  else parseFloat s

/-- `parseScoreBound`: the value and whether the bound is exclusive. -/
def parseScoreBound (s : Bytes) : Option (F × Bool) :=
  match stripByte 40 s with
  | some t => (parseScore t).map fun f => (f,true)
  | none => (parseScore s).map fun f => (f,false)

end Scores

/-- The flag words of `ZADD`. -/
def zaddFlag (word : Bytes) (fl : ZAddFlags) : Option ZAddFlags :=
  if toUpper word=utf8 "NX" then some { fl with nx := true }
  else if toUpper word=utf8 "XX" then some { fl with xx := true }
  else if toUpper word=utf8 "GT" then some { fl with gt := true }
  else if toUpper word=utf8 "LT" then some { fl with lt := true }
  else if toUpper word=utf8 "CH" then some { fl with ch := true }
  else none

/-- The flag loop of `ZADD`, live and in replay: the flags and the arguments behind them. -/
def zaddFlags : List Bytes → ZAddFlags → ZAddFlags × List Bytes
  | [],fl => (fl,[])
  | a::rest,fl => match zaddFlag a fl with
    | some fl' => zaddFlags rest fl'
    | none => (fl,a::rest)

/-- The member loop of `ZADD`, live and in replay, which read scores differently. -/
def zaddMembers (parse : Bytes → Option F) : List Bytes → Except Bytes (List (ZMember F))
  | sc::x::rest => match parse sc with
    | none => .error sc
    | some f => match zaddMembers parse rest with
      | .error e => .error e
      | .ok ms => .ok (⟨x,f⟩::ms)
  | _ => .ok []

/-- The options of the range commands. -/
structure ZRangeOpts where
  rev : Bool := false
  scores : Bool := false
  byScore : Bool := false
  byLex : Bool := false
  offset : Int := 0
  count : Int := -1
  deriving DecidableEq, Repr

/-- The single-word options of `ZRANGE`. -/
def zrangeFlag (word : Bytes) (o : ZRangeOpts) : Option ZRangeOpts :=
  if toUpper word=utf8 "REV" then some { o with rev := true }
  else if toUpper word=utf8 "WITHSCORES" then some { o with scores := true }
  else if toUpper word=utf8 "BYSCORE" then some { o with byScore := true }
  else if toUpper word=utf8 "BYLEX" then some { o with byLex := true }
  else none

/-- The option loop of `handleZRange`. -/
def zrangeOptions : List Bytes → ZRangeOpts → Except Response ZRangeOpts
  | [],o => .ok o
  | a::rest,o => match zrangeFlag a o with
    | some o' => zrangeOptions rest o'
    | none =>
      if toUpper a=utf8 "LIMIT" then match rest with
        | x::y::rest' => match parseInt x,parseInt y with
          | some offset,some count => zrangeOptions rest' { o with offset,count }
          | _,_ => .error notInteger
        | _ => .error syntaxError
      else .error syntaxError

/-- The option loop of the four `BYSCORE` and `BYLEX` commands, which skips what it does not
know. The `BYLEX` ones never look at `scores`. -/
def limitOptions : List Bytes → ZRangeOpts → Except Response ZRangeOpts
  | [],o => .ok o
  | a::rest,o =>
    if toUpper a=utf8 "LIMIT" then match rest with
      | x::y::rest' => match parseInt x,parseInt y with
        | some offset,some count => limitOptions rest' { o with offset,count }
        | _,_ => .error notInteger
      | _ => .error syntaxError
    else if toUpper a=utf8 "WITHSCORES" then limitOptions rest { o with scores := true }
    else limitOptions rest o

theorem zrangeOptions_error {opts : List Bytes} {o : ZRangeOpts} {r : Response}
    (h : zrangeOptions opts o=.error r) : r.isError=true := by
  fun_induction zrangeOptions opts o <;> first | solve_by_elim | (cases h <;> rfl)

theorem limitOptions_error {opts : List Bytes} {o : ZRangeOpts} {r : Response}
    (h : limitOptions opts o=.error r) : r.isError=true := by
  fun_induction limitOptions opts o <;> first | solve_by_elim | (cases h <;> rfl)

def notFloatRange : Response := .error (utf8 "ERR min or max is not a float")

def handleZRem (w : World) (args : List Bytes) (s : MemoryStore F) : Response × MemoryStore F :=
  match args with
  | _::key::x::xs => commit s .integer (s.zRem w.now key (x::xs))
  | _ => (wrongArgs "ZREM",s)

def handleZCard (w : World) (args : List Bytes) (m : Maps F) : Go Response :=
  match args with
  | [_,key] => match m.zCard w.now key with
    | .error p => .error p
    | .ok r => .ok (replyOf (fun n : Nat => .integer n) r)
  | _ => .ok (wrongArgs "ZCARD")

variable [Float64 F]

def handleZAdd (w : World) (args : List Bytes) (s : MemoryStore F) : Response × MemoryStore F :=
  match args with
  | _::key::a::b::rest =>
    let (fl,tail) := zaddFlags (a::b::rest) {}
    if fl.nx ∧ fl.xx then
      (.error (utf8 "ERR XX and NX options at the same time are not compatible"),s)
    else if (fl.gt ∧ fl.nx) ∨ (fl.lt ∧ fl.nx) then
      (.error (utf8 "ERR GT, LT, and NX options at the same time are not compatible"),s)
    else if tail.length%2 ≠ 0 ∨ tail=[] then (syntaxError,s)
    else match zaddMembers parseScore tail with
      | .error _ => (notFloat,s)
      | .ok members => commit s .integer (s.zAdd w.now key members fl)
  | _ => (wrongArgs "ZADD",s)

def handleZScore (w : World) (args : List Bytes) (m : Maps F) : Response :=
  match args with
  | [_,key,x] => replyOf (fun sc => optReply (sc.map formatScore)) (m.zScore w.now key x)
  | _ => wrongArgs "ZSCORE"

/-- `handleZRank` and `handleZRevRank`. -/
def handleRankOf (name : String)
    (rank : Maps F → Int → Bytes → Bytes → Except StoreError (Option Nat)) (w : World)
    (args : List Bytes) (m : Maps F) : Response :=
  match args with
  | [_,key,x] => replyOf (fun r => match r with
      | none => .nullBulkString
      | some n => .integer n) (rank m w.now key x)
  | _ => wrongArgs name

def handleZRank (w : World) := handleRankOf (F := F) "ZRANK" Maps.zRank w

def handleZRevRank (w : World) := handleRankOf (F := F) "ZREVRANK" Maps.zRevRank w

def handleZIncrBy (w : World) (args : List Bytes) (s : MemoryStore F) :
    Response × MemoryStore F :=
  match args with
  | [_,key,n,x] => match (parseScore n : Option F) with
    | none => (notFloat,s)
    | some incr => commit s (fun sc => .bulkString (formatScore sc)) (s.zIncrBy w.now key incr x)
  | _ => (wrongArgs "ZINCRBY",s)

def handleZRange (w : World) (args : List Bytes) (m : Maps F) : Response :=
  match args with
  | _::key::a::b::rest => match zrangeOptions rest {} with
    | .error r => r
    | .ok o =>
      if o.byLex then
        replyOf .bulks (if o.rev then m.zRangeByLex w.now key b a o.offset o.count
          else m.zRangeByLex w.now key a b o.offset o.count)
      else if o.byScore then match (parseScoreBound a : Option (F × Bool)),parseScoreBound b with
        | some (x,xExcl),some (y,yExcl) =>
          replyOf .bulks (if o.rev then
              m.zRevRangeByScore w.now key x y xExcl yExcl o.scores o.offset o.count
            else m.zRangeByScore w.now key x y xExcl yExcl o.scores o.offset o.count)
        | _,_ => notFloatRange
      else match parseInt a,parseInt b with
        | some start,some stop => replyOf .bulks (m.zRange w.now key start stop o.rev o.scores)
        | _,_ => notInteger
  | _ => wrongArgs "ZRANGE"

def handleZRevRange (w : World) (args : List Bytes) (m : Maps F) : Response :=
  match args with
  | _::key::a::b::rest => match parseInt a,parseInt b with
    | some start,some stop =>
      let scores := match rest with
        | [word] => toUpper word=utf8 "WITHSCORES"
        | _ => false
      replyOf .bulks (m.zRange w.now key start stop true scores)
    | _,_ => notInteger
  | _ => wrongArgs "ZREVRANGE"

/-- `handleZRangeByScore` and `handleZRevRangeByScore`. -/
def handleByScore (name : String)
    (range : Maps F → Int → Bytes → F → F → Bool → Bool → Bool → Int → Int →
      Except StoreError (List Bytes)) (w : World) (args : List Bytes) (m : Maps F) : Response :=
  match args with
  | _::key::a::b::rest =>
    match (parseScoreBound a : Option (F × Bool)),(parseScoreBound b : Option (F × Bool)) with
    | some (x,xExcl),some (y,yExcl) => match limitOptions rest {} with
      | .error r => r
      | .ok o => replyOf .bulks (range m w.now key x y xExcl yExcl o.scores o.offset o.count)
    | _,_ => notFloatRange
  | _ => wrongArgs name

def handleZRangeByScore (w : World) := handleByScore (F := F) "ZRANGEBYSCORE" Maps.zRangeByScore w

def handleZRevRangeByScore (w : World) :=
  handleByScore (F := F) "ZREVRANGEBYSCORE" Maps.zRevRangeByScore w

def handleZCount (w : World) (args : List Bytes) (m : Maps F) : Response :=
  match args with
  | [_,key,a,b] =>
    match (parseScoreBound a : Option (F × Bool)),(parseScoreBound b : Option (F × Bool)) with
    | some (min,minExcl),some (max,maxExcl) =>
      replyOf (fun n : Nat => .integer n) (m.zCount w.now key min max minExcl maxExcl)
    | _,_ => notFloatRange
  | _ => wrongArgs "ZCOUNT"

def handleZRangeByLex (w : World) (args : List Bytes) (m : Maps F) : Response :=
  match args with
  | _::key::a::b::rest => match limitOptions rest {} with
    | .error r => r
    | .ok o => replyOf .bulks (m.zRangeByLex w.now key a b o.offset o.count)
  | _ => wrongArgs "ZRANGEBYLEX"

/-- `handleZRevRangeByLex`: `LIMIT` is applied before the result is reversed. -/
def handleZRevRangeByLex (w : World) (args : List Bytes) (m : Maps F) : Response :=
  match args with
  | _::key::a::b::rest => match limitOptions rest {} with
    | .error r => r
    | .ok o => replyOf (fun vs => .bulks vs.reverse) (m.zRangeByLex w.now key b a o.offset o.count)
  | _ => wrongArgs "ZREVRANGEBYLEX"

def handleZLexCount (w : World) (args : List Bytes) (m : Maps F) : Response :=
  match args with
  | [_,key,a,b] => replyOf (fun n : Nat => .integer n) (m.zLexCount w.now key a b)
  | _ => wrongArgs "ZLEXCOUNT"

/-- A store operation that pops a number of scored members. -/
abbrev ZPop (F : Type) :=
  MemoryStore F → Int → Bytes → Int → Go (Except StoreError (List (ZMember F) × MemoryStore F))

/-- `handleZPopMin` and `handleZPopMax`. -/
def handleZPop (name : String) (pop : ZPop F) (w : World) (args : List Bytes)
    (s : MemoryStore F) : Go (Response × MemoryStore F) :=
  let run (key : Bytes) (count : Int) : Go (Response × MemoryStore F) :=
    match pop s w.now key count with
    | .error p => .error p
    | .ok r => .ok (commit s (fun ms => .bulks (withScores true ms)) r)
  match args with
  | [_,key] => run key 1
  | [_,key,n] => match (parseInt n).filter fun n => 0 ≤ n with
    | none => .ok (notInteger,s)
    | some count => run key count
  | _ => .ok (wrongArgs name,s)

theorem handleZPop_of_popArgs {args : List Bytes} {key : Bytes} {count : Int} {withCount : Bool}
    (hargs : PopArgs args key count withCount) (name : String) (pop : ZPop F) (w : World)
    (s : MemoryStore F) :
    handleZPop name pop w args s=
      (pop s w.now key count).map (commit s fun ms => .bulks (withScores true ms)) := by
  cases hargs with
  | one =>
    simp only [handleZPop]
    cases pop s w.now key 1 <;> rfl
  | counted hn hpos =>
    simp only [handleZPop,hn,Option.filter_some,hpos,decide_true,if_true]
    cases pop s w.now key count <;> rfl

theorem handleZPop_cases (name : String) (pop : ZPop F) (w : World) (args : List Bytes) :
    (∃ r, (r=notInteger ∨ r=wrongArgs name) ∧ ∀ s : MemoryStore F,
      handleZPop name pop w args s=.ok (r,s)) ∨
    ∃ key count withCount, PopArgs args key count withCount ∧ ∀ s : MemoryStore F,
      handleZPop name pop w args s=
        (pop s w.now key count).map (commit s fun ms => .bulks (withScores true ms)) := by
  rcases args with _ | ⟨cmd,_ | ⟨key,_ | ⟨n,_ | ⟨_,_⟩⟩⟩⟩
  · exact .inl ⟨_,.inr rfl,fun s => rfl⟩
  · exact .inl ⟨_,.inr rfl,fun s => rfl⟩
  · exact .inr ⟨key,1,false,.one,handleZPop_of_popArgs .one name pop w⟩
  · cases hn : (parseInt n).filter fun n => 0 ≤ n with
    | none =>
      refine .inl ⟨_,.inl rfl,fun s => ?_⟩
      simp only [handleZPop,hn]
    | some count =>
      have hargs : PopArgs [cmd,key,n] key count true := .of_filter hn
      exact .inr ⟨key,count,true,hargs,handleZPop_of_popArgs hargs name pop w⟩
  · exact .inl ⟨_,.inr rfl,fun s => rfl⟩

def handleZPopMin (w : World) := handleZPop (F := F) "ZPOPMIN" MemoryStore.zPopMin w

def handleZPopMax (w : World) := handleZPop (F := F) "ZPOPMAX" MemoryStore.zPopMax w

/-- The option loop of `handleZSetStore`; `pending` weights are still to be read. -/
def zstoreOptions (numkeys : Nat) :
    Nat → List Bytes → List F → Bytes → Except Response (List F × Bytes)
  | _,[],weights,agg => .ok (weights,agg)
  | pending+1,a::rest,weights,agg => match (Float64.parseFloat a : Option F) with
    | none => .error (.error (utf8 "ERR weight value is not a float"))
    | some f => zstoreOptions numkeys pending rest (weights.set (numkeys-(pending+1)) f) agg
  | 0,a::rest,weights,agg =>
    if toUpper a=utf8 "WEIGHTS" then zstoreOptions numkeys numkeys rest weights agg
    else if toUpper a=utf8 "AGGREGATE" then match rest with
      | [] => .error syntaxError
      | v::rest' => zstoreOptions numkeys 0 rest' weights (toUpper v)
    else .error syntaxError

/-- A store operation that combines sorted sets. -/
abbrev ZStore (F : Type) := MemoryStore F → Int → Bytes → List Bytes → List F → Bytes →
  Except StoreError (Nat × MemoryStore F)

theorem zstoreOptions_error {numkeys pending : Nat} {l : List Bytes} {weights : List F}
    {agg : Bytes} {r : Response} (h : zstoreOptions numkeys pending l weights agg=.error r) :
    r.isError=true := by
  fun_induction zstoreOptions numkeys pending l weights agg with
  | case1 => cases h
  | case2 pending a rest weights agg hf =>
    cases h
    rfl
  | case3 pending a rest weights agg f hf ih => exact ih h
  | case4 a rest weights agg hw ih => exact ih h
  | case5 a weights agg hw ha =>
    cases h
    rfl
  | case6 a weights agg hw ha v rest ih => exact ih h
  | case7 a rest weights agg hw ha =>
    cases h
    rfl

/-- `handleZSetStore`. The sum `3+numkeys` is an `int` and slicing up to it may panic. -/
def handleZSetStore (name : String) (op : ZStore F) (w : World) (args : List Bytes)
    (s : MemoryStore F) : Go (Response × MemoryStore F) :=
  match args with
  | _::dst::n::a::rest => match (parseInt n).filter fun n => 1 ≤ n with
    | none => .ok (notInteger,s)
    | some numkeys =>
      if (args.length:Int) < wrap64 (3+numkeys) then .ok (syntaxError,s)
      else if wrap64 (3+numkeys) < 3 then .error .sliceBounds
      else
        let n := numkeys.toNat
        match zstoreOptions n 0 ((a::rest).drop n) (List.replicate n 1) (utf8 "SUM") with
        | .error r => .ok (r,s)
        | .ok (weights,agg) => .ok (commit s (fun n : Nat => .integer n)
            (op s w.now dst ((a::rest).take n) weights agg))
  | _ => .ok (wrongArgs name,s)

def handleZUnionStore (w : World) :=
  handleZSetStore (F := F) "ZUNIONSTORE" MemoryStore.zUnionStore w

def handleZInterStore (w : World) :=
  handleZSetStore (F := F) "ZINTERSTORE" MemoryStore.zInterStore w

end GoRedis
