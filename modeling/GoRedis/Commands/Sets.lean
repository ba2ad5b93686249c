import GoRedis.Commands.Reply
import GoRedis.Storage.Sets
/-!
# Set commands
-/
namespace GoRedis
variable {F : Type}

def handleSAdd (w : World) (args : List Bytes) (s : MemoryStore F) : Response × MemoryStore F :=
  match args with
  | _::key::x::xs => commit s (fun n : Nat => .integer n) (s.sAdd w.now key (x::xs))
  | _ => (wrongArgs "SADD",s)

def handleSRem (w : World) (args : List Bytes) (s : MemoryStore F) : Response × MemoryStore F :=
  match args with
  | _::key::x::xs => commit s (fun n : Nat => .integer n) (s.sRem w.now key (x::xs))
  | _ => (wrongArgs "SREM",s)

def handleSMembers (w : World) (args : List Bytes) (m : Maps F) : Response :=
  match args with
  | [_,key] => replyOf .bulks (m.sMembers w key)
  | _ => wrongArgs "SMEMBERS"

def handleSCard (w : World) (args : List Bytes) (m : Maps F) : Response :=
  match args with
  | [_,key] => replyOf (fun n : Nat => .integer n) (m.sCard w.now key)
  | _ => wrongArgs "SCARD"

def handleSIsMember (w : World) (args : List Bytes) (m : Maps F) : Response :=
  match args with
  | [_,key,x] => replyOf boolReply (m.sIsMember w.now key x)
  | _ => wrongArgs "SISMEMBER"

def handleSMIsMember (w : World) (args : List Bytes) (m : Maps F) : Response :=
  match args with
  | _::key::x::xs => replyOf (fun flags => .array (flags.map boolReply))
      (m.sMIsMember w.now key (x::xs))
  | _ => wrongArgs "SMISMEMBER"

/-- `handleSInter`, `handleSUnion` and `handleSDiff`. -/
def handleSetOp (name : String) (op : Maps F → World → List Bytes → Except StoreError (List Bytes))
    (w : World) (args : List Bytes) (m : Maps F) : Response :=
  match args with
  | _::key::keys => replyOf .bulks (op m w (key::keys))
  | _ => wrongArgs name

def handleSInter (w : World) := handleSetOp (F := F) "SINTER" Maps.setInter w

def handleSUnion (w : World) := handleSetOp (F := F) "SUNION" Maps.setUnion w

def handleSDiff (w : World) := handleSetOp (F := F) "SDIFF" Maps.setDiff w

/-- `handleSInterStore`, `handleSUnionStore` and `handleSDiffStore`. -/
def handleSetOpStore (name : String)
    (op : MemoryStore F → World → Bytes → List Bytes → Except StoreError (Nat × MemoryStore F))
    (w : World) (args : List Bytes) (s : MemoryStore F) : Response × MemoryStore F :=
  match args with
  | _::dst::key::keys => commit s (fun n : Nat => .integer n) (op s w dst (key::keys))
  | _ => (wrongArgs name,s)

def handleSInterStore (w : World) :=
  handleSetOpStore (F := F) "SINTERSTORE" MemoryStore.sInterStore w

def handleSUnionStore (w : World) :=
  handleSetOpStore (F := F) "SUNIONSTORE" MemoryStore.sUnionStore w

def handleSDiffStore (w : World) :=
  handleSetOpStore (F := F) "SDIFFSTORE" MemoryStore.sDiffStore w

/-- The reply of `SRANDMEMBER` and `SPOP`, without and with a count. -/
def membersReply (withCount : Bool) (members : List Bytes) : Response :=
  if withCount then .bulks members else optReply members.head?

def handleSRandMember (w : World) (args : List Bytes) (m : Maps F) : Go Response :=
  let run (key : Bytes) (withCount : Bool) (count : Int) : Go Response :=
    match m.sRandMember w key count with
    | .error p => .error p
    | .ok r => .ok (replyOf (membersReply withCount) r)
  match args with
  | [_,key] => run key false 1
  | [_,key,n] => match parseInt n with
    | none => .ok notInteger
    | some count => run key true count
  | _ => .ok (wrongArgs "SRANDMEMBER")

def handleSPop (w : World) (args : List Bytes) (s : MemoryStore F) :
    Go (Response × MemoryStore F) :=
  let run (key : Bytes) (withCount : Bool) (count : Int) : Go (Response × MemoryStore F) :=
    match s.sPop w key count with
    | .error p => .error p
    | .ok r => .ok (commit s (membersReply withCount) r)
  match args with
  | [_,key] => run key false 1
  | [_,key,n] => match (parseInt n).filter fun n => 0 ≤ n with
    | none => .ok (notInteger,s)
    | some count => run key true count
  | _ => .ok (wrongArgs "SPOP",s)

theorem handleSRandMember_cases (w : World) (args : List Bytes) (m : Maps F) :
    (∃ r, (r=notInteger ∨ r=wrongArgs "SRANDMEMBER") ∧ handleSRandMember w args m=.ok r) ∨
    ∃ key count withCount, (count=1 ∨ ∃ n ∈ args, parseInt n=some count) ∧
      handleSRandMember w args m=
        (m.sRandMember w key count).map (replyOf (membersReply withCount)) := by
  unfold handleSRandMember
  dsimp only
  split
  · rename_i key
    refine .inr ⟨key,1,false,.inl rfl,?_⟩
    cases m.sRandMember w key 1 <;> rfl
  · rename_i key n
    split
    · exact .inl ⟨_,.inl rfl,rfl⟩
    · rename_i count hcount
      refine .inr ⟨key,count,true,.inr ⟨n,by simp,hcount⟩,?_⟩
      cases m.sRandMember w key count <;> rfl
  · exact .inl ⟨_,.inr rfl,rfl⟩

theorem handleSPop_of_popArgs {args : List Bytes} {key : Bytes} {count : Int} {withCount : Bool}
    (hargs : PopArgs args key count withCount) (w : World) (s : MemoryStore F) :
    handleSPop w args s=(s.sPop w key count).map (commit s (membersReply withCount)) := by
  cases hargs with
  | one =>
    simp only [handleSPop]
    cases s.sPop w key 1 <;> rfl
  | counted hn hpos =>
    simp only [handleSPop,hn,Option.filter_some,hpos,decide_true,if_true]
    cases s.sPop w key count <;> rfl

theorem handleSPop_cases (w : World) (args : List Bytes) :
    (∃ r, (r=notInteger ∨ r=wrongArgs "SPOP") ∧ ∀ s : MemoryStore F, handleSPop w args s=.ok (r,s)) ∨
    ∃ key count withCount, PopArgs args key count withCount ∧ ∀ s : MemoryStore F,
      handleSPop w args s=(s.sPop w key count).map (commit s (membersReply withCount)) := by
  rcases args with _ | ⟨cmd,_ | ⟨key,_ | ⟨n,_ | ⟨_,_⟩⟩⟩⟩
  · exact .inl ⟨_,.inr rfl,fun s => rfl⟩
  · exact .inl ⟨_,.inr rfl,fun s => rfl⟩
  · exact .inr ⟨key,1,false,.one,handleSPop_of_popArgs .one w⟩
  · cases hn : (parseInt n).filter fun n => 0 ≤ n with
    | none =>
      refine .inl ⟨_,.inl rfl,fun s => ?_⟩
      simp only [handleSPop,hn]
    | some count =>
      have hargs : PopArgs [cmd,key,n] key count true := .of_filter hn
      exact .inr ⟨key,count,true,hargs,handleSPop_of_popArgs hargs w⟩
  · exact .inl ⟨_,.inr rfl,fun s => rfl⟩

def handleSMove (w : World) (args : List Bytes) (s : MemoryStore F) : Response × MemoryStore F :=
  match args with
  | [_,src,dst,x] => commit s boolReply (s.sMove w.now src dst x)
  | _ => (wrongArgs "SMOVE",s)

end GoRedis
