import GoRedis.Commands.Reply
import GoRedis.Storage.Lists
/-!
# List commands
-/
namespace GoRedis
variable {F : Type}

/-- A store operation that pushes values. -/
abbrev Push (F : Type) :=
  MemoryStore F → Int → Bytes → List Bytes → Except StoreError (Nat × MemoryStore F)

/-- `handleLPush` and `handleRPush`. -/
def handlePush (name : String) (push : Push F) (w : World) (args : List Bytes)
    (s : MemoryStore F) : Response × MemoryStore F :=
  match args with
  | _::key::v::vs => commit s (fun n : Nat => .integer n) (push s w.now key (v::vs))
  | _ => (wrongArgs name,s)

def handleLPush (w : World) := handlePush (F := F) "LPUSH" MemoryStore.lPush w

def handleRPush (w : World) := handlePush (F := F) "RPUSH" MemoryStore.rPush w

/-- `handleLPushX` and `handleRPushX`. -/
def handlePushX (name : String) (push : Push F) (w : World) (args : List Bytes)
    (s : MemoryStore F) : Response × MemoryStore F :=
  match args with
  | _::key::v::vs =>
    if s.type w.now key ≠ some .list then (.integer 0,s)
    else commit s (fun n : Nat => .integer n) (push s w.now key (v::vs))
  | _ => (wrongArgs name,s)

def handleLPushX (w : World) := handlePushX (F := F) "LPUSHX" MemoryStore.lPush w

def handleRPushX (w : World) := handlePushX (F := F) "RPUSHX" MemoryStore.rPush w

/-- A store operation that pops a number of values. -/
abbrev Pop (F : Type) :=
  MemoryStore F → Int → Bytes → Int → Go (Except StoreError (Option (List Bytes) × MemoryStore F))

/-- The reply to a pop without and with a count. -/
def popReply (withCount : Bool) : Option (List Bytes) → Response
  | none => .nullBulkString
  | some vals => if withCount then .bulks vals else optReply vals.head?

/-- `handleLPop` and `handleRPop`. -/
def handlePop (name : String) (pop : Pop F) (w : World) (args : List Bytes)
    (s : MemoryStore F) : Go (Response × MemoryStore F) :=
  let run (key : Bytes) (withCount : Bool) (count : Int) : Go (Response × MemoryStore F) :=
    match pop s w.now key count with
    | .error p => .error p
    | .ok r => .ok (commit s (popReply withCount) r)
  match args with
  | [_,key] => run key false 1
  | [_,key,n] => match (parseInt n).filter fun n => 0 ≤ n with
    | none => .ok (notInteger,s)
    | some count => run key true count
  | _ => .ok (wrongArgs name,s)

theorem handlePop_of_popArgs {args : List Bytes} {key : Bytes} {count : Int} {withCount : Bool}
    (hargs : PopArgs args key count withCount) (name : String) (pop : Pop F) (w : World)
    (s : MemoryStore F) :
    handlePop name pop w args s=(pop s w.now key count).map (commit s (popReply withCount)) := by
  cases hargs with
  | one =>
    simp only [handlePop]
    cases pop s w.now key 1 <;> rfl
  | counted hn hpos =>
    simp only [handlePop,hn,Option.filter_some,hpos,decide_true,if_true]
    cases pop s w.now key count <;> rfl

theorem handlePop_cases (name : String) (pop : Pop F) (w : World) (args : List Bytes) :
    (∃ r, (r=notInteger ∨ r=wrongArgs name) ∧ ∀ s : MemoryStore F,
      handlePop name pop w args s=.ok (r,s)) ∨
    ∃ key count withCount, PopArgs args key count withCount ∧ ∀ s : MemoryStore F,
      handlePop name pop w args s=(pop s w.now key count).map (commit s (popReply withCount)) := by
  rcases args with _ | ⟨cmd,_ | ⟨key,_ | ⟨n,_ | ⟨_,_⟩⟩⟩⟩
  · exact .inl ⟨_,.inr rfl,fun s => rfl⟩
  · exact .inl ⟨_,.inr rfl,fun s => rfl⟩
  · exact .inr ⟨key,1,false,.one,handlePop_of_popArgs .one name pop w⟩
  · cases hn : (parseInt n).filter fun n => 0 ≤ n with
    | none =>
      refine .inl ⟨_,.inl rfl,fun s => ?_⟩
      simp only [handlePop,hn]
    | some count =>
      have hargs : PopArgs [cmd,key,n] key count true := .of_filter hn
      exact .inr ⟨key,count,true,hargs,handlePop_of_popArgs hargs name pop w⟩
  · exact .inl ⟨_,.inr rfl,fun s => rfl⟩

def handleLPop (w : World) := handlePop (F := F) "LPOP" MemoryStore.lPop w

def handleRPop (w : World) := handlePop (F := F) "RPOP" MemoryStore.rPop w

def handleLLen (w : World) (args : List Bytes) (m : Maps F) : Response :=
  match args with
  | [_,key] => replyOf (fun n : Nat => .integer n) (m.lLen w.now key)
  | _ => wrongArgs "LLEN"

def handleLRange (w : World) (args : List Bytes) (m : Maps F) : Response :=
  match args with
  | [_,key,a,b] => match parseInt a,parseInt b with
    | some start,some stop => replyOf .bulks (m.lRange w.now key start stop)
    | _,_ => notInteger
  | _ => wrongArgs "LRANGE"

def handleLIndex (w : World) (args : List Bytes) (m : Maps F) : Response :=
  match args with
  | [_,key,i] => match parseInt i with
    | none => notInteger
    | some idx => replyOf optReply (m.lIndex w.now key idx)
  | _ => wrongArgs "LINDEX"

def handleLSet (w : World) (args : List Bytes) (s : MemoryStore F) : Response × MemoryStore F :=
  match args with
  | [_,key,i,value] => match parseInt i with
    | none => (notInteger,s)
    | some idx => commit s (fun _ : Unit => okReply)
        ((s.lSet w.now key idx value).map fun s' => ((),s'))
  | _ => (wrongArgs "LSET",s)

/-- `BEFORE` or `AFTER`. -/
def insertSide (word : Bytes) : Option Bool :=
  if toUpper word=utf8 "BEFORE" then some true
  else if toUpper word=utf8 "AFTER" then some false
  else none

def handleLInsert (w : World) (args : List Bytes) (s : MemoryStore F) :
    Response × MemoryStore F :=
  match args with
  | [_,key,side,pivot,value] => match insertSide side with
    | none => (syntaxError,s)
    | some before => commit s .integer (s.lInsert w.now key before pivot value)
  | _ => (wrongArgs "LINSERT",s)

def handleLRem (w : World) (args : List Bytes) (s : MemoryStore F) : Response × MemoryStore F :=
  match args with
  | [_,key,n,value] => match parseInt n with
    | none => (notInteger,s)
    | some count => commit s (fun n : Nat => .integer n) (s.lRem w.now key count value)
  | _ => (wrongArgs "LREM",s)

def handleLTrim (w : World) (args : List Bytes) (s : MemoryStore F) : Response × MemoryStore F :=
  match args with
  | [_,key,a,b] => match parseInt a,parseInt b with
    | some start,some stop => commit s (fun _ : Unit => okReply)
        ((s.lTrim w.now key start stop).map fun s' => ((),s'))
    | _,_ => (notInteger,s)
  | _ => (wrongArgs "LTRIM",s)

/-- `LEFT` or `RIGHT`. -/
def listEnd (word : Bytes) : Option Bool :=
  if toUpper word=utf8 "LEFT" then some true
  else if toUpper word=utf8 "RIGHT" then some false
  else none

def handleLMove (w : World) (args : List Bytes) (s : MemoryStore F) : Response × MemoryStore F :=
  match args with
  | [_,src,dst,a,b] => match listEnd a,listEnd b with
    | some srcLeft,some dstLeft => commit s optReply (s.lMove w.now src dst srcLeft dstLeft)
    | _,_ => (syntaxError,s)
  | _ => (wrongArgs "LMOVE",s)

def handleRPopLPush (w : World) (args : List Bytes) (s : MemoryStore F) :
    Response × MemoryStore F :=
  match args with
  | [_,src,dst] => commit s optReply (s.lMove w.now src dst false true)
  | _ => (wrongArgs "RPOPLPUSH",s)

/-- The options of `LPOS`. -/
structure LPosOpts where
  rank : Int := 1
  count : Int := 1
  hasCount : Bool := false
  maxlen : Int := 0
  deriving DecidableEq, Repr

def rankZero : Response := .error (utf8 "ERR RANK can't be zero: use 1 to start from the first match, 2 from the second … or use negative to start from the end of the list")

/-- The option loop of `handleLPos`. -/
def lposOptions : List Bytes → LPosOpts → Except Response LPosOpts
  | [],o => .ok o
  | a::rest,o =>
    if toUpper a=utf8 "RANK" then match rest with
      | [] => .error syntaxError
      | v::rest' => match (parseInt v).filter fun n => n ≠ 0 with
        | none => .error rankZero
        | some n => lposOptions rest' { o with rank := n }
    else if toUpper a=utf8 "COUNT" then match rest with
      | [] => .error syntaxError
      | v::rest' => match (parseInt v).filter fun n => 0 ≤ n with
        | none => .error notInteger
        | some n => lposOptions rest' { o with count := n,hasCount := true }
    else if toUpper a=utf8 "MAXLEN" then match rest with
      | [] => .error syntaxError
      | v::rest' => match (parseInt v).filter fun n => 0 ≤ n with
        | none => .error notInteger
        | some n => lposOptions rest' { o with maxlen := n }
    else .error syntaxError

theorem lposOptions_error {opts : List Bytes} {o : LPosOpts} {r : Response}
    (h : lposOptions opts o=.error r) : r.isError=true := by
  fun_induction lposOptions opts o <;> first | solve_by_elim | (cases h <;> rfl)

/-- The scan of `handleLPos` over indexed values: the positions from the `rank`-th match on. -/
def lposLoop (target : Bytes) (rank : Int) (hasCount : Bool) (count : Int) :
    Int → Nat → List (Nat × Bytes) → List Nat
  | _,_,[] => []
  | seen,found,(i,v)::rest =>
    if v=target then
      if rank ≤ seen+1 then
        if hasCount ∧ 0 < count ∧ count ≤ found+1 then [i]
        else i::lposLoop target rank hasCount count (seen+1) (found+1) rest
      else lposLoop target rank hasCount count (seen+1) found rest
    else lposLoop target rank hasCount count seen found rest

/-- The positions `handleLPos` collects. A negative rank walks the same window backwards. -/
def lposPositions (target : Bytes) (o : LPosOpts) (vals : List Bytes) : List Nat :=
  let limit := if 0 < o.maxlen ∧ o.maxlen < vals.length then o.maxlen.toNat else vals.length
  let window := (List.range limit).zip (vals.take limit)
  if 0 ≤ o.rank then lposLoop target o.rank o.hasCount o.count 0 0 window
  else lposLoop target (wrap64 (-o.rank)) o.hasCount o.count 0 0 window.reverse

def handleLPos (w : World) (args : List Bytes) (m : Maps F) : Response :=
  match args with
  | _::key::target::rest => match lposOptions rest {} with
    | .error r => r
    | .ok o => replyOf (fun vals =>
        let positions := lposPositions target o vals
        if o.hasCount then .array (positions.map fun i => .integer i)
        else match positions with
          | [] => .nullBulkString
          | i::_ => .integer i) (m.lRange w.now key 0 (-1))
  | _ => wrongArgs "LPOS"

end GoRedis
