import GoRedis.Commands.Panics
import GoRedis.Commands.Positions
import GoRedis.Storage.Checked
/-!
# The handlers with their bounds checks

The handlers that pass a number of the client on to a slice, once more, over the checked
operations of the store. On a store that fits in memory they are the handlers of the model, and
what they list fits in a reply.
-/
namespace GoRedis
variable {F : Type}

namespace Checked

/-- The elements of a reply are made before they are filled in. -/
def built : Response → Go Response
  | .array es => (Go.make responseSize es.length).map fun _ => .array es
  | r => .ok r

/-- The reply of a writing handler. -/
def builtReply (x : Go (Response × MemoryStore F)) : Go (Response × MemoryStore F) := do
  let p ← x
  let r ← built p.1
  return (r,p.2)

def handleLPop (w : World) (args : List Bytes) (s : MemoryStore F) :
    Go (Response × MemoryStore F) := builtReply (handlePop "LPOP" lPop w args s)

def handleRPop (w : World) (args : List Bytes) (s : MemoryStore F) :
    Go (Response × MemoryStore F) := builtReply (handlePop "RPOP" rPop w args s)

def handleLRange (w : World) (args : List Bytes) (m : Maps F) : Go Response :=
  match args with
  | [_,key,a,b] => match parseInt a,parseInt b with
    | some start,some stop =>
      (lRange m w.now key start stop).bind fun r => built (replyOf .bulks r)
    | _,_ => .ok notInteger
  | _ => .ok (wrongArgs "LRANGE")

def handleLIndex (w : World) (args : List Bytes) (m : Maps F) : Go Response :=
  match args with
  | [_,key,i] => match parseInt i with
    | none => .ok notInteger
    | some idx => (lIndex m w.now key idx).map (replyOf optReply)
  | _ => .ok (wrongArgs "LINDEX")

def handleLSet (w : World) (args : List Bytes) (s : MemoryStore F) :
    Go (Response × MemoryStore F) :=
  match args with
  | [_,key,i,value] => match parseInt i with
    | none => .ok (notInteger,s)
    | some idx => (lSet s w.now key idx value).map fun r =>
        commit s (fun _ : Unit => okReply) (r.map fun s' => ((),s'))
  | _ => .ok (wrongArgs "LSET",s)

def handleLTrim (w : World) (args : List Bytes) (s : MemoryStore F) :
    Go (Response × MemoryStore F) :=
  match args with
  | [_,key,a,b] => match parseInt a,parseInt b with
    | some start,some stop => (lTrim s w.now key start stop).map fun r =>
        commit s (fun _ : Unit => okReply) (r.map fun s' => ((),s'))
    | _,_ => .ok (notInteger,s)
  | _ => .ok (wrongArgs "LTRIM",s)

/-- The loop of `handleLPos` over the places it goes through. -/
def lposScan (vals : List Bytes) (target : Bytes) (rank : Int) (hasCount : Bool) (count : Int) :
    Int → Nat → List Int → Go (List Nat)
  | _,_,[] => .ok []
  | seen,found,i::is => do
    let v ← Go.index vals i
    if v=target then
      if rank ≤ seen+1 then
        if hasCount ∧ 0 < count ∧ count ≤ found+1 then return [i.toNat]
        else
          let rest ← lposScan vals target rank hasCount count (seen+1) (found+1) is
          return i.toNat::rest
      else lposScan vals target rank hasCount count (seen+1) found is
    else lposScan vals target rank hasCount count seen found is

/-- The positions `handleLPos` collects. -/
def lposPositions (target : Bytes) (o : LPosOpts) (vals : List Bytes) : Go (List Nat) :=
  let limit : Int := if 0 < o.maxlen ∧ o.maxlen < vals.length then o.maxlen else vals.length
  let places := (List.range limit.toNat).map fun i : Nat => (i:Int)
  if 0 ≤ o.rank then lposScan vals target o.rank o.hasCount o.count 0 0 places
  else lposScan vals target (wrap64 (-o.rank)) o.hasCount o.count 0 0 places.reverse

def handleLPos (w : World) (args : List Bytes) (m : Maps F) : Go Response :=
  match args with
  | _::key::target::rest => match lposOptions rest {} with
    | .error r => .ok r
    | .ok o => (lRange m w.now key 0 (-1)).bind fun r => match r with
      | .error e => .ok (.error e.text)
      | .ok vals => (lposPositions target o vals).bind fun positions =>
          built (lposReply o.hasCount positions)
  | _ => .ok (wrongArgs "LPOS")

def handleSRandMember (w : World) (args : List Bytes) (m : Maps F) : Go Response :=
  let run (key : Bytes) (withCount : Bool) (count : Int) : Go Response :=
    (sRandMember m w key count).bind fun r => built (replyOf (membersReply withCount) r)
  match args with
  | [_,key] => run key false 1
  | [_,key,n] => match parseInt n with
    | none => .ok notInteger
    | some count => run key true count
  | _ => .ok (wrongArgs "SRANDMEMBER")

def handleSPop (w : World) (args : List Bytes) (s : MemoryStore F) :
    Go (Response × MemoryStore F) :=
  let run (key : Bytes) (withCount : Bool) (count : Int) : Go (Response × MemoryStore F) :=
    builtReply ((sPop s w key count).map (commit s (membersReply withCount)))
  match args with
  | [_,key] => run key false 1
  | [_,key,n] => match (parseInt n).filter fun n => 0 ≤ n with
    | none => .ok (notInteger,s)
    | some count => run key true count
  | _ => .ok (wrongArgs "SPOP",s)

section ZSets
variable [Float64 F]

def handleZRange (w : World) (args : List Bytes) (m : Maps F) : Go Response :=
  match args with
  | _::key::a::b::rest => match zrangeOptions rest {} with
    | .error r => .ok r
    | .ok o =>
      if o.byLex then
        built (replyOf .bulks (if o.rev then m.zRangeByLex w.now key b a o.offset o.count
          else m.zRangeByLex w.now key a b o.offset o.count))
      else if o.byScore then match (parseScoreBound a : Option (F × Bool)),parseScoreBound b with
        | some (x,xExcl),some (y,yExcl) =>
          built (replyOf .bulks (if o.rev then
              m.zRevRangeByScore w.now key x y xExcl yExcl o.scores o.offset o.count
            else m.zRangeByScore w.now key x y xExcl yExcl o.scores o.offset o.count))
        | _,_ => .ok notFloatRange
      else match parseInt a,parseInt b with
        | some start,some stop => (zRange m w.now key start stop o.rev o.scores).bind fun r =>
            built (replyOf .bulks r)
        | _,_ => .ok notInteger
  | _ => .ok (wrongArgs "ZRANGE")

def handleZRevRange (w : World) (args : List Bytes) (m : Maps F) : Go Response :=
  match args with
  | _::key::a::b::rest => match parseInt a,parseInt b with
    | some start,some stop =>
      let scores := match rest with
        | [word] => toUpper word=utf8 "WITHSCORES"
        | _ => false
      (zRange m w.now key start stop true scores).bind fun r => built (replyOf .bulks r)
    | _,_ => .ok notInteger
  | _ => .ok (wrongArgs "ZREVRANGE")

def handleZPopMin (w : World) (args : List Bytes) (s : MemoryStore F) :
    Go (Response × MemoryStore F) := builtReply (handleZPop "ZPOPMIN" zPopMin w args s)

def handleZPopMax (w : World) (args : List Bytes) (s : MemoryStore F) :
    Go (Response × MemoryStore F) := builtReply (handleZPop "ZPOPMAX" zPopMax w args s)

/-- `handleZSetStore`: `args[3 : 3+numkeys]`, `make([]float64, numkeys)`, and the options from
`3+numkeys` on. -/
def handleZSetStore (name : String) (op : ZStore F) (w : World) (args : List Bytes)
    (s : MemoryStore F) : Go (Response × MemoryStore F) :=
  match args with
  | _::dst::n::_::_ => match (parseInt n).filter fun n => 1 ≤ n with
    | none => .ok (notInteger,s)
    | some numkeys =>
      if (args.length:Int) < wrap64 (3+numkeys) then .ok (syntaxError,s)
      else do
        let keys ← Go.cut args 3 (wrap64 (3+numkeys))
        let n ← Go.make 8 numkeys
        match zstoreOptions n 0 (args.drop (wrap64 (3+numkeys)).toNat) (List.replicate n 1)
            (utf8 "SUM") with
        | .error r => return (r,s)
        | .ok (weights,agg) =>
          return commit s (fun n : Nat => .integer n) (op s w.now dst keys weights agg)
  | _ => .ok (wrongArgs name,s)

end ZSets

/-- The page is made, the pair of the cursor and the page is written out. -/
def scanReply : Except StoreError (Nat × List Bytes) → Go Response
  | .error e => .ok (.error e.text)
  | .ok p => (built (.bulks p.2)).map fun page => .array [.bulkString (formatNat p.1),page]

/-- The part the four scan handlers share. -/
def scanWith (cursor : Bytes) (opts : List Bytes)
    (run : Nat → Bytes → Int → Go (Except StoreError (Nat × List Bytes))) : Go Response :=
  match parseUint cursor with
  | none => .ok notInteger
  | some c => match parseScanArgs opts (utf8 "*") 10 with
    | .error r => .ok r
    | .ok (pattern,count) =>
      (run c (if pattern=utf8 "*" then [] else pattern) count).bind scanReply

def handleScan (w : World) (args : List Bytes) (m : Maps F) : Go Response :=
  match args with
  | _::cursor::opts => scanWith cursor opts fun c pattern count =>
      (scan m w c pattern count).map .ok
  | _ => .ok (wrongArgs "SCAN")

def handleHScan (w : World) (args : List Bytes) (m : Maps F) : Go Response :=
  match args with
  | _::key::cursor::opts => scanWith cursor opts (hScan m w key)
  | _ => .ok (wrongArgs "HSCAN")

def handleSScan (w : World) (args : List Bytes) (m : Maps F) : Go Response :=
  match args with
  | _::key::cursor::opts => scanWith cursor opts (sScan m w key)
  | _ => .ok (wrongArgs "SSCAN")

def handleZScan [Float64 F] (w : World) (args : List Bytes) (m : Maps F) : Go Response :=
  match args with
  | _::key::cursor::opts => scanWith cursor opts (zScan m w key)
  | _ => .ok (wrongArgs "ZSCAN")

section Router
variable [Float64 F]

/-- The reading handlers; those without a number of the client are the ones of the model. -/
def answer (w : World) (c : ReadCommand) (args : List Bytes) (m : Maps F) : Go Response :=
  match c with
  | .lrange => handleLRange w args m
  | .lindex => handleLIndex w args m
  | .lpos => handleLPos w args m
  | .srandmember => handleSRandMember w args m
  | .zrange => handleZRange w args m
  | .zrevrange => handleZRevRange w args m
  | .zrangebyscore => built (handleZRangeByScore w args m)
  | .zrevrangebyscore => built (handleZRevRangeByScore w args m)
  | .zrangebylex => built (handleZRangeByLex w args m)
  | .zrevrangebylex => built (handleZRevRangeByLex w args m)
  | .scan => handleScan w args m
  | .hscan => handleHScan w args m
  | .sscan => handleSScan w args m
  | .zscan => handleZScan w args m
  | c => GoRedis.answer w c args m

/-- The writing handlers. -/
def execute (w : World) (c : WriteCommand) (args : List Bytes) (s : MemoryStore F) :
    Go (Response × MemoryStore F) :=
  match c with
  | .lpop => handleLPop w args s
  | .rpop => handleRPop w args s
  | .lset => handleLSet w args s
  | .ltrim => handleLTrim w args s
  | .spop => handleSPop w args s
  | .zpopmin => handleZPopMin w args s
  | .zpopmax => handleZPopMax w args s
  | .zunionstore => handleZSetStore "ZUNIONSTORE" MemoryStore.zUnionStore w args s
  | .zinterstore => handleZSetStore "ZINTERSTORE" MemoryStore.zInterStore w args s
  | c => GoRedis.execute w c args s

/-- `Dispatch` over the checked handlers. -/
def dispatch (w : World) (args : List Bytes) (s : MemoryStore F) : Go (Dispatched F) :=
  match commandOf args with
  | none => GoRedis.dispatch w args s
  | some (.read c) => (answer w c args s.toMaps).map fun r => ⟨r,s,[]⟩
  | some (.write c) => (execute w c args s).map fun p =>
      ⟨p.1,p.2,if p.1.isError then [] else appendToAOF w c args p.1 p.2.toMaps⟩

end Router

theorem built_bulks {vs : List Bytes} (h : MakeOk responseSize vs.length) :
    built (.bulks vs)=.ok (.bulks vs) := by
  rw [Response.bulks,built,List.length_map,Go.make_ok h]
  rfl

theorem built_bulks_error {vs : List Bytes} (h : ¬MakeOk responseSize vs.length) :
    built (.bulks vs)=.error .makeLen := by
  rw [Response.bulks,built,List.length_map,Go.make_error h]
  rfl

theorem built_optReply (v : Option Bytes) : built (optReply v)=.ok (optReply v) := by
  cases v <;> rfl

theorem built_members (withCount : Bool) {vs : List Bytes} (h : MakeOk responseSize vs.length) :
    built (membersReply withCount vs)=.ok (membersReply withCount vs) := by
  cases withCount with
  | false => exact built_optReply _
  | true => exact built_bulks h

theorem built_of_isError {r : Response} (h : r.isError=true) : built r=.ok r := by
  cases r <;> first | rfl | cases h

theorem built_replyOf {α : Type} {f : α → Response} {r : Except StoreError α}
    (h : ∀ a, r=.ok a → built (f a)=.ok (f a)) : built (replyOf f r)=.ok (replyOf f r) := by
  cases r with
  | error e => rfl
  | ok a => exact h a rfl

theorem builtReply_eq {x : Go (Response × MemoryStore F)}
    (h : ∀ p, x=.ok p → built p.1=.ok p.1) : builtReply x=x := by
  cases x with
  | error p => rfl
  | ok p =>
    rw [builtReply]
    simp only [bind,Except.bind,h p rfl]
    rfl

theorem fits_nil : MakeOk responseSize ([] : List Bytes).length := by decide

theorem fits_of_le {n k : Nat} (h : MakeOk responseSize n) (hle : k ≤ n) :
    MakeOk responseSize k :=
  h.mono (le_refl _) (Int.natCast_nonneg k) (Int.ofNat_le.mpr hle)

theorem length_slice_le {α : Type} (l : List α) (lo hi : Int) : (slice l lo hi).length ≤ l.length := by
  rw [slice,List.length_take,List.length_drop]
  omega

theorem length_flatMap_le {α β : Type} {f : α → List β} {k : Nat} (hf : ∀ a, (f a).length ≤ k)
    (l : List α) : (l.flatMap f).length ≤ k*l.length := by
  induction l with
  | nil => exact Nat.zero_le _
  | cons a l ih =>
    rw [List.flatMap_cons,List.length_append,List.length_cons,Nat.mul_succ]
    have ha := hf a
    omega

theorem length_withScores_le [Float64 F] (scores : Bool) (ms : List (ZMember F)) :
    (withScores scores ms).length ≤ 2*ms.length := by
  apply length_flatMap_le
  intro m
  cases scores <;> simp

theorem length_limitLoop_le {α : Type} (accept : α → Bool) (offset count skipped taken : Int)
    (l : List α) : (limitLoop accept offset count skipped taken l).length ≤ l.length := by
  induction l generalizing skipped taken with
  | nil => exact Nat.le_refl _
  | cons x l ih =>
    have h₁ := ih skipped taken
    have h₂ := ih (skipped+1) taken
    have h₃ := ih skipped (taken+1)
    unfold limitLoop
    split_ifs <;> simp only [List.length_cons,List.length_nil] <;> omega

theorem length_lposLoop_le (target : Bytes) (rank : Int) (hasCount : Bool) (count seen : Int)
    (found : Nat) (ps : List (Nat × Bytes)) :
    (lposLoop target rank hasCount count seen found ps).length ≤ ps.length := by
  induction ps generalizing seen found with
  | nil => exact Nat.le_refl _
  | cons p ps ih =>
    have h₁ := ih (seen+1) (found+1)
    have h₂ := ih (seen+1) found
    have h₃ := ih seen found
    unfold lposLoop
    split_ifs <;> simp only [List.length_cons,List.length_nil] <;> omega

theorem length_filtered_le {α : Type} (p : α → Bool) (items : List α) (cursor : Nat) (count : Int) :
    ((scanPage items cursor count).2.filter p).length ≤ items.length := by
  have hfilter := List.length_filter_le p (scanPage items cursor count).2
  simp only [scanPage,List.length_take,List.length_drop] at hfilter ⊢
  omega

theorem fits_page {α : Type} {items : List α} {k : Nat}
    (hfit : MakeOk responseSize ((k*items.length : Nat):Int)) {f : α → List Bytes}
    (hf : ∀ a, (f a).length ≤ k) (p : α → Bool) (cursor : Nat) (count : Int) :
    MakeOk responseSize (((scanPage items cursor count).2.filter p).flatMap f).length := by
  apply fits_of_le hfit
  apply le_trans (length_flatMap_le hf _)
  exact Nat.mul_le_mul_left k (length_filtered_le p items cursor count)

section Listed
variable {m : Maps F} {s : MemoryStore F} {now : Int} {key : Bytes} {vs : List Bytes}

theorem fits_lRange (h : m.Fits) {start stop : Int} (hr : m.lRange now key start stop=.ok vs) :
    MakeOk responseSize vs.length := by
  unfold Maps.lRange at hr
  cases hl : m.getList now key with
  | error e =>
    rw [hl] at hr
    cases hr
  | ok ol =>
    rw [hl] at hr
    cases hr
    apply fits_of_le (fits_getList h hl)
    dsimp only
    split_ifs
    · exact Nat.zero_le _
    · exact Nat.zero_le _
    · exact length_slice_le _ _ _

theorem fits_popped (h : s.Fits) {cut : Nat → List Bytes → List Bytes × List Bytes}
    (hcut : ∀ n l, (cut n l).1.length ≤ l.length) {count : Int} {s' : MemoryStore F}
    (hr : MemoryStore.popList cut s now key count=.ok (.ok (some vs,s'))) :
    MakeOk responseSize vs.length := by
  unfold MemoryStore.popList at hr
  split at hr
  · cases hr
  · cases hr
  · rename_i l hl
    dsimp only at hr
    generalize (if (l.length:Int) < count then (l.length:Int) else count)=n at hr
    by_cases hneg : n < 0
    · rw [if_pos hneg] at hr
      cases hr
    · rw [if_neg hneg] at hr
      cases hr
      exact fits_of_le (fits_getList h hl) (hcut _ l)

theorem fits_getSet (h : m.Fits) {st : KeySet} (hst : m.getSet now key=.ok (some st)) (w : World) :
    MakeOk responseSize (w.rangeOrder st.toList).length := by
  rw [(w.rangeOrder_perm st.toList).length_eq,Std.ExtTreeSet.length_toList]
  exact h.sets key st (Maps.getSet_eq_some hst)

theorem fits_sPop (h : s.Fits) {w : World} {count : Int} {s' : MemoryStore F}
    (hr : s.sPop w key count=.ok (.ok (vs,s'))) : MakeOk responseSize vs.length := by
  unfold MemoryStore.sPop at hr
  split at hr
  · cases hr
  · cases hr
    exact fits_nil
  · rename_i st hst
    have hfit := fits_getSet h hst w
    dsimp only at hr
    split_ifs at hr
    · cases hr
      exact hfit
    · cases hr
      apply fits_of_le hfit
      rw [List.length_take,(w.shuffle_perm _).length_eq]
      omega

theorem fits_hashPage (h : m.Fits) {w : World} {cursor : Nat} {pattern : Bytes} {count : Int}
    {p : Nat × List Bytes} (hr : m.hScan w key cursor pattern count=.ok p) :
    MakeOk responseSize p.2.length := by
  unfold Maps.hScan at hr
  split at hr
  · cases hr
    exact fits_nil
  · rename_i hash hh
    split_ifs at hr
    cases hr
    apply fits_page (fits_fields h hh)
    intro f
    exact Nat.le_refl 2

theorem fits_setPage (h : m.Fits) {w : World} {cursor : Nat} {pattern : Bytes} {count : Int}
    {p : Nat × List Bytes} (hr : m.sScan w key cursor pattern count=.ok p) :
    MakeOk responseSize p.2.length := by
  unfold Maps.sScan at hr
  split at hr
  · cases hr
    exact fits_nil
  · rename_i st hst
    split_ifs at hr
    cases hr
    exact fits_of_le (fits_setMembers h hst) (length_filtered_le _ _ cursor count)

theorem fits_keyPage (h : m.Fits) (w : World) (cursor : Nat) (pattern : Bytes) (count : Int) :
    MakeOk responseSize (m.scan w cursor pattern count).2.length := by
  exact fits_of_le (h.keys w.now) (length_filtered_le _ _ cursor count)

variable [Float64 F]

theorem fits_ranged (h : m.Fits) {f : Option (Map F) → List Bytes} (hnone : f none=[])
    (hsome : ∀ z, (f (some z)).length ≤ 2*(sortedMembers z).length)
    (hr : (m.getZSet now key).map f=.ok vs) : MakeOk responseSize vs.length := by
  cases hz : m.getZSet now key with
  | error e =>
    rw [hz] at hr
    cases hr
  | ok oz =>
    rw [hz] at hr
    cases hr
    cases oz with
    | none =>
      rw [hnone]
      exact fits_nil
    | some z =>
      have hfit : MakeOk responseSize ((2*(sortedMembers z).length : Nat):Int) :=
        fits_getZSet h hz
      exact fits_of_le hfit (hsome z)

theorem length_members_le (scores : Bool) {ms : List (ZMember F)} {z : Map F}
    (hle : ms.length ≤ (sortedMembers z).length) :
    (withScores scores ms).length ≤ 2*(sortedMembers z).length :=
  le_trans (length_withScores_le scores ms) (Nat.mul_le_mul_left 2 hle)

theorem fits_zRange (h : m.Fits) {start stop : Int} {rev scores : Bool}
    (hr : m.zRange now key start stop rev scores=.ok vs) : MakeOk responseSize vs.length := by
  apply fits_ranged h rfl _ hr
  intro z
  dsimp only
  split_ifs
  · exact Nat.zero_le _
  · exact Nat.zero_le _
  · apply length_members_le
    rw [List.length_reverse]
    exact length_slice_le _ _ _
  · exact length_members_le _ (length_slice_le _ _ _)

theorem fits_zRangeByScore (h : m.Fits) {min max : F} {minExcl maxExcl scores : Bool}
    {offset count : Int}
    (hr : m.zRangeByScore now key min max minExcl maxExcl scores offset count=.ok vs) :
    MakeOk responseSize vs.length := by
  apply fits_ranged h rfl _ hr
  intro z
  exact length_members_le _ (length_limitLoop_le _ _ _ _ _ _)

theorem fits_zRevRangeByScore (h : m.Fits) {min max : F} {minExcl maxExcl scores : Bool}
    {offset count : Int}
    (hr : m.zRevRangeByScore now key max min maxExcl minExcl scores offset count=.ok vs) :
    MakeOk responseSize vs.length := by
  apply fits_ranged h rfl _ hr
  intro z
  apply length_members_le
  refine le_trans (length_limitLoop_le _ _ _ _ _ _) ?_
  rw [List.length_reverse]

theorem fits_zRangeByLex (h : m.Fits) {min max : Bytes} {offset count : Int}
    (hr : m.zRangeByLex now key min max offset count=.ok vs) : MakeOk responseSize vs.length := by
  apply fits_ranged h rfl _ hr
  intro z
  refine le_trans (length_limitLoop_le _ _ _ _ _ _) ?_
  rw [List.length_map]
  omega

theorem fits_zPopped (h : s.Fits) {order : List (ZMember F) → List (ZMember F)}
    (horder : ∀ l, (order l).length=l.length) {count : Int} {ms : List (ZMember F)}
    {s' : MemoryStore F} (hr : MemoryStore.popZSet order s now key count=.ok (.ok (ms,s'))) :
    MakeOk responseSize (withScores true ms).length := by
  unfold MemoryStore.popZSet at hr
  split at hr
  · cases hr
  · cases hr
    exact fits_nil
  · rename_i z hz
    dsimp only at hr
    by_cases hempty : z.isEmpty=true
    · rw [if_pos hempty] at hr
      cases hr
      exact fits_nil
    rw [if_neg hempty] at hr
    generalize (if ((order (sortedMembers z)).length:Int) < count then
      ((order (sortedMembers z)).length:Int) else count)=n at hr
    by_cases hneg : n < 0
    · rw [if_pos hneg] at hr
      cases hr
    · rw [if_neg hneg] at hr
      cases hr
      have hfit : MakeOk responseSize ((2*(sortedMembers z).length : Nat):Int) :=
        fits_getZSet h hz
      apply fits_of_le hfit
      apply length_members_le
      rw [List.length_take,horder]
      omega

theorem fits_zsetPage (h : m.Fits) {w : World} {cursor : Nat} {pattern : Bytes} {count : Int}
    {p : Nat × List Bytes} (hr : m.zScan w key cursor pattern count=.ok p) :
    MakeOk responseSize p.2.length := by
  unfold Maps.zScan at hr
  split at hr
  · cases hr
    exact fits_nil
  · rename_i z hz
    split_ifs at hr
    cases hr
    apply fits_page (fits_zsetMembers h hz)
    intro x
    exact Nat.le_refl 2

end Listed

section Handlers
variable {w : World} {args : List Bytes} {m : Maps F} {s : MemoryStore F}

theorem handlePop_congr {pop pop' : Pop F}
    (hpop : ∀ key count, pop s w.now key count=pop' s w.now key count) (name : String) :
    handlePop name pop w args s=handlePop name pop' w args s := by
  simp only [handlePop,hpop]

theorem builtReply_handlePop (h : s.Fits) {cut : Nat → List Bytes → List Bytes × List Bytes}
    (hcut : ∀ n l, (cut n l).1.length ≤ l.length) (name : String) :
    builtReply (handlePop name (MemoryStore.popList cut) w args s)=
      handlePop name (MemoryStore.popList cut) w args s := by
  apply builtReply_eq
  intro p hp
  obtain ⟨r,hr,heq⟩ | ⟨key,count,withCount,_,heq⟩ :=
    handlePop_cases name (MemoryStore.popList cut) w args
  · rw [heq] at hp
    cases hp
    rcases hr with rfl | rfl <;> rfl
  · rw [heq] at hp
    obtain ⟨r,hr,rfl⟩ := Go.map_eq_ok.mp hp
    cases r with
    | error e => rfl
    | ok q =>
      obtain ⟨ovs,s'⟩ := q
      cases ovs with
      | none => rfl
      | some vs => exact built_members withCount (fits_popped h hcut hr)

theorem handleLPop_eq (h : s.Fits) : handleLPop w args s=GoRedis.handleLPop w args s := by
  rw [handleLPop,handlePop_congr fun key count => lPop_eq h count]
  apply builtReply_handlePop h
  intro n l
  exact List.length_take_le' n l

theorem handleRPop_eq (h : s.Fits) : handleRPop w args s=GoRedis.handleRPop w args s := by
  rw [handleRPop,handlePop_congr fun key count => rPop_eq h count]
  apply builtReply_handlePop h
  intro n l
  exact (List.drop_sublist (l.length-n) l).length_le

theorem handleLRange_eq (h : m.Fits) :
    handleLRange w args m=.ok (GoRedis.handleLRange w args m) := by
  rcases args with _ | ⟨cmd,_ | ⟨key,_ | ⟨a,_ | ⟨b,_ | ⟨c,rest⟩⟩⟩⟩⟩
  case cons.cons.cons.cons.nil =>
    simp only [handleLRange,GoRedis.handleLRange]
    cases ha : parseInt a with
    | none => rfl
    | some start =>
      cases hb : parseInt b with
      | none => rfl
      | some stop =>
        dsimp only
        rw [lRange_eq h (parseInt_inInt64 ha) (parseInt_inInt64 hb)]
        exact built_replyOf fun vs hvs => built_bulks (fits_lRange h hvs)
  all_goals rfl

theorem handleLIndex_eq (h : m.Fits) :
    handleLIndex w args m=.ok (GoRedis.handleLIndex w args m) := by
  rcases args with _ | ⟨cmd,_ | ⟨key,_ | ⟨i,_ | ⟨c,rest⟩⟩⟩⟩
  case cons.cons.cons.nil =>
    simp only [handleLIndex,GoRedis.handleLIndex]
    cases hi : parseInt i with
    | none => rfl
    | some idx =>
      dsimp only
      rw [lIndex_eq h (parseInt_inInt64 hi)]
      rfl
  all_goals rfl

theorem handleLSet_eq (h : s.Fits) : handleLSet w args s=.ok (GoRedis.handleLSet w args s) := by
  rcases args with _ | ⟨cmd,_ | ⟨key,_ | ⟨i,_ | ⟨value,_ | ⟨c,rest⟩⟩⟩⟩⟩
  case cons.cons.cons.cons.nil =>
    simp only [handleLSet,GoRedis.handleLSet]
    cases hi : parseInt i with
    | none => rfl
    | some idx =>
      dsimp only
      rw [lSet_eq h (parseInt_inInt64 hi)]
      rfl
  all_goals rfl

theorem handleLTrim_eq (h : s.Fits) : handleLTrim w args s=.ok (GoRedis.handleLTrim w args s) := by
  rcases args with _ | ⟨cmd,_ | ⟨key,_ | ⟨a,_ | ⟨b,_ | ⟨c,rest⟩⟩⟩⟩⟩
  case cons.cons.cons.cons.nil =>
    simp only [handleLTrim,GoRedis.handleLTrim]
    cases ha : parseInt a with
    | none => rfl
    | some start =>
      cases hb : parseInt b with
      | none => rfl
      | some stop =>
        dsimp only
        rw [lTrim_eq h (parseInt_inInt64 ha) (parseInt_inInt64 hb)]
        rfl
  all_goals rfl

theorem lposScan_eq {vals : List Bytes} {is : List Nat} (his : ∀ i ∈ is, i < vals.length)
    (target : Bytes) (rank : Int) (hasCount : Bool) (count seen : Int) (found : Nat) :
    lposScan vals target rank hasCount count seen found (is.map fun i : Nat => (i:Int))=
      .ok (lposLoop target rank hasCount count seen found
        (is.map fun i => (i,vals.getD i []))) := by
  induction is generalizing seen found with
  | nil => rfl
  | cons i is ih =>
    obtain ⟨hi,his⟩ := List.forall_mem_cons.mp his
    have hget : vals[((i:Int)).toNat]?=some (vals.getD i []) := by
      rw [Int.toNat_natCast,List.getElem?_eq_getElem hi,List.getD_eq_getElem _ _ hi]
    rw [List.map_cons,List.map_cons,lposScan,lposLoop,Go.index_ok (Int.natCast_nonneg i) hget]
    simp only [bind,Except.bind,pure,Except.pure,ih his,Int.toNat_natCast]
    split_ifs <;> rfl

theorem zip_range_take {vals : List Bytes} {limit : Nat} (h : limit ≤ vals.length) :
    (List.range limit).zip (vals.take limit)=(List.range limit).map fun i => (i,vals.getD i []) := by
  apply List.ext_getElem
  · simp [h]
  · intro i hi hi'
    have hlt : i < vals.length := by
      rw [List.length_map,List.length_range] at hi'
      omega
    simp [hlt]

theorem lposPositions_eq (target : Bytes) (o : LPosOpts) (vals : List Bytes) :
    lposPositions target o vals=.ok (GoRedis.lposPositions target o vals) := by
  have hlimit : (if 0 < o.maxlen ∧ o.maxlen < vals.length then o.maxlen
      else (vals.length:Int)).toNat=
      if 0 < o.maxlen ∧ o.maxlen < vals.length then o.maxlen.toNat else vals.length := by
    split_ifs <;> simp
  unfold lposPositions GoRedis.lposPositions
  dsimp only
  rw [hlimit]
  have hle : (if 0 < o.maxlen ∧ o.maxlen < vals.length then o.maxlen.toNat else vals.length) ≤
      vals.length := by
    split_ifs <;> omega
  generalize (if 0 < o.maxlen ∧ o.maxlen < vals.length then o.maxlen.toNat
    else vals.length)=limit at hle
  have hinside : ∀ i ∈ List.range limit, i < vals.length := by
    intro i hi
    have := List.mem_range.mp hi
    omega
  rw [zip_range_take hle,← List.map_reverse,← List.map_reverse]
  split_ifs
  · exact lposScan_eq hinside target _ _ _ _ _
  · exact lposScan_eq (fun i hi => hinside i (List.mem_reverse.mp hi)) target _ _ _ _ _

theorem length_lposPositions_le (target : Bytes) (o : LPosOpts) (vals : List Bytes) :
    (GoRedis.lposPositions target o vals).length ≤ vals.length := by
  unfold GoRedis.lposPositions
  dsimp only
  split_ifs
  all_goals
    refine le_trans (length_lposLoop_le _ _ _ _ _ _ _) ?_
    simp

theorem built_lposReply (hasCount : Bool) {positions : List Nat}
    (h : MakeOk responseSize positions.length) :
    built (lposReply hasCount positions)=.ok (lposReply hasCount positions) := by
  cases hasCount with
  | false => cases positions <;> rfl
  | true =>
    show built (.array _)=.ok _
    rw [built,List.length_map,Go.make_ok h]
    rfl

theorem handleLPos_eq (h : m.Fits) : handleLPos w args m=.ok (GoRedis.handleLPos w args m) := by
  rcases args with _ | ⟨cmd,_ | ⟨key,_ | ⟨target,rest⟩⟩⟩
  case cons.cons.cons =>
    simp only [handleLPos,GoRedis.handleLPos]
    cases lposOptions rest {} with
    | error r => rfl
    | ok o =>
      dsimp only
      rw [lRange_eq h (by decide) (by decide)]
      cases hr : m.lRange w.now key 0 (-1) with
      | error e => rfl
      | ok vals =>
        have hfit := fits_of_le (fits_lRange h hr) (length_lposPositions_le target o vals)
        simp only [Except.bind,lposPositions_eq]
        rw [built_lposReply _ hfit]
        simp only [replyOf,lposReply]
        cases o.hasCount with
        | true =>
          simp only [List.bind_eq_flatMap,List.pure_def,← List.map_eq_flatMap,List.map_map]
          rfl
        | false => cases GoRedis.lposPositions target o vals <;> rfl
  all_goals rfl

theorem handleSPop_eq (h : s.Fits) : handleSPop w args s=GoRedis.handleSPop w args s := by
  have hrun : ∀ key withCount count,
      builtReply ((s.sPop w key count).map (commit s (membersReply withCount)))=
        (s.sPop w key count).map (commit s (membersReply withCount)) := by
    intro key withCount count
    apply builtReply_eq
    intro p hp
    obtain ⟨r,hr,rfl⟩ := Go.map_eq_ok.mp hp
    cases r with
    | error e => rfl
    | ok q => exact built_members withCount (fits_sPop h hr)
  rcases args with _ | ⟨cmd,_ | ⟨key,_ | ⟨n,_ | ⟨c,rest⟩⟩⟩⟩
  case cons.cons.nil =>
    simp only [handleSPop,sPop_eq,hrun]
    exact (handleSPop_of_popArgs .one w s).symm
  case cons.cons.cons.nil =>
    simp only [handleSPop,GoRedis.handleSPop,sPop_eq,hrun]
    cases (parseInt n).filter fun n => 0 ≤ n with
    | none => rfl
    | some count =>
      dsimp only
      cases s.sPop w key count <;> rfl
  all_goals rfl

theorem scanReply_eq {r : Except StoreError (Nat × List Bytes)}
    (h : ∀ p, r=.ok p → MakeOk responseSize p.2.length) :
    scanReply r=.ok (replyOf GoRedis.scanReply r) := by
  cases r with
  | error e => rfl
  | ok p =>
    rw [scanReply,built_bulks (h p rfl)]
    rfl

theorem scanWith_eq {run : Nat → Bytes → Int → Go (Except StoreError (Nat × List Bytes))}
    {run' : Nat → Bytes → Int → Except StoreError (Nat × List Bytes)}
    (hrun : ∀ c pattern count, run c pattern count=.ok (run' c pattern count))
    (hfit : ∀ {c pattern count p}, run' c pattern count=.ok p → MakeOk responseSize p.2.length)
    (cursor : Bytes) (opts : List Bytes) :
    scanWith cursor opts run=.ok (GoRedis.scanWith cursor opts run') := by
  unfold scanWith GoRedis.scanWith
  cases parseUint cursor with
  | none => rfl
  | some c =>
    dsimp only
    cases parseScanArgs opts (utf8 "*") 10 with
    | error r => rfl
    | ok p =>
      dsimp only
      rw [hrun]
      exact scanReply_eq fun q hq => hfit hq

theorem handleScan_eq (h : m.Fits) : handleScan w args m=.ok (GoRedis.handleScan w args m) := by
  rcases args with _ | ⟨cmd,_ | ⟨cursor,opts⟩⟩
  case cons.cons =>
    simp only [handleScan,GoRedis.handleScan]
    apply scanWith_eq
    · intro c pattern count
      rw [scan_eq h]
      rfl
    · intro c pattern count p hp
      cases hp
      exact fits_keyPage h w c pattern count
  all_goals rfl

theorem handleHScan_eq (h : m.Fits) : handleHScan w args m=.ok (GoRedis.handleHScan w args m) := by
  rcases args with _ | ⟨cmd,_ | ⟨key,_ | ⟨cursor,opts⟩⟩⟩
  case cons.cons.cons => exact scanWith_eq (hScan_eq h w) (fits_hashPage h) cursor opts
  all_goals rfl

theorem handleSScan_eq (h : m.Fits) : handleSScan w args m=.ok (GoRedis.handleSScan w args m) := by
  rcases args with _ | ⟨cmd,_ | ⟨key,_ | ⟨cursor,opts⟩⟩⟩
  case cons.cons.cons => exact scanWith_eq (sScan_eq h w) (fits_setPage h) cursor opts
  all_goals rfl

variable [Float64 F]

theorem handleZScan_eq (h : m.Fits) : handleZScan w args m=.ok (GoRedis.handleZScan w args m) := by
  rcases args with _ | ⟨cmd,_ | ⟨key,_ | ⟨cursor,opts⟩⟩⟩
  case cons.cons.cons => exact scanWith_eq (zScan_eq h w) (fits_zsetPage h) cursor opts
  all_goals rfl

theorem handleZRange_eq (h : m.Fits) :
    handleZRange w args m=.ok (GoRedis.handleZRange w args m) := by
  rcases args with _ | ⟨cmd,_ | ⟨key,_ | ⟨a,_ | ⟨b,rest⟩⟩⟩⟩
  case cons.cons.cons.cons =>
    simp only [handleZRange,GoRedis.handleZRange]
    cases zrangeOptions rest {} with
    | error r => rfl
    | ok o =>
      dsimp only
      by_cases hlex : o.byLex=true
      · rw [if_pos hlex,if_pos hlex]
        apply built_replyOf
        intro vs hvs
        apply built_bulks
        split_ifs at hvs
        · exact fits_zRangeByLex h hvs
        · exact fits_zRangeByLex h hvs
      rw [if_neg hlex,if_neg hlex]
      by_cases hscore : o.byScore=true
      · rw [if_pos hscore,if_pos hscore]
        cases (parseScoreBound a : Option (F × Bool)) with
        | none => rfl
        | some x =>
          cases (parseScoreBound b : Option (F × Bool)) with
          | none => rfl
          | some y =>
            apply built_replyOf
            intro vs hvs
            apply built_bulks
            split_ifs at hvs
            · exact fits_zRevRangeByScore h hvs
            · exact fits_zRangeByScore h hvs
      rw [if_neg hscore,if_neg hscore]
      cases ha : parseInt a with
      | none => rfl
      | some start =>
        cases hb : parseInt b with
        | none => rfl
        | some stop =>
          dsimp only
          rw [zRange_eq h (parseInt_inInt64 ha) (parseInt_inInt64 hb)]
          exact built_replyOf fun vs hvs => built_bulks (fits_zRange h hvs)
  all_goals rfl

theorem handleZRevRange_eq (h : m.Fits) :
    handleZRevRange w args m=.ok (GoRedis.handleZRevRange w args m) := by
  rcases args with _ | ⟨cmd,_ | ⟨key,_ | ⟨a,_ | ⟨b,rest⟩⟩⟩⟩
  case cons.cons.cons.cons =>
    unfold handleZRevRange GoRedis.handleZRevRange
    dsimp only
    cases ha : parseInt a with
    | none => rfl
    | some start =>
      cases hb : parseInt b with
      | none => rfl
      | some stop =>
        have hrange : ∀ scores, ((zRange m w.now key start stop true scores).bind fun r =>
            built (replyOf .bulks r))=
              .ok (replyOf .bulks (m.zRange w.now key start stop true scores)) := by
          intro scores
          rw [zRange_eq h (parseInt_inInt64 ha) (parseInt_inInt64 hb)]
          exact built_replyOf fun vs hvs => built_bulks (fits_zRange h hvs)
        rcases rest with _ | ⟨word,_ | ⟨c,rest⟩⟩
        · exact hrange false
        · exact hrange (decide (toUpper word=utf8 "WITHSCORES"))
        · exact hrange false
  all_goals rfl

theorem built_handleByScore
    {range : Maps F → Int → Bytes → F → F → Bool → Bool → Bool → Int → Int →
      Except StoreError (List Bytes)}
    (hrange : ∀ {now key x y xExcl yExcl scores offset count vs},
      range m now key x y xExcl yExcl scores offset count=.ok vs → MakeOk responseSize vs.length)
    (name : String) :
    built (handleByScore name range w args m)=.ok (handleByScore name range w args m) := by
  unfold handleByScore
  split
  · split
    · split
      · rename_i r hr
        exact built_of_isError (limitOptions_error hr)
      · exact built_replyOf fun vs hvs => built_bulks (hrange hvs)
    · rfl
  · rfl

theorem built_handleZRangeByLex (h : m.Fits) :
    built (handleZRangeByLex w args m)=.ok (handleZRangeByLex w args m) := by
  unfold handleZRangeByLex
  split
  · split
    · rename_i r hr
      exact built_of_isError (limitOptions_error hr)
    · exact built_replyOf fun vs hvs => built_bulks (fits_zRangeByLex h hvs)
  · rfl

theorem built_handleZRevRangeByLex (h : m.Fits) :
    built (handleZRevRangeByLex w args m)=.ok (handleZRevRangeByLex w args m) := by
  unfold handleZRevRangeByLex
  split
  · split
    · rename_i r hr
      exact built_of_isError (limitOptions_error hr)
    · apply built_replyOf
      intro vs hvs
      apply built_bulks
      rw [List.length_reverse]
      exact fits_zRangeByLex h hvs
  · rfl

theorem handleZPop_congr {pop pop' : ZPop F}
    (hpop : ∀ key count, pop s w.now key count=pop' s w.now key count) (name : String) :
    handleZPop name pop w args s=handleZPop name pop' w args s := by
  simp only [handleZPop,hpop]

theorem builtReply_handleZPop (h : s.Fits) {order : List (ZMember F) → List (ZMember F)}
    (horder : ∀ l, (order l).length=l.length) (name : String) :
    builtReply (handleZPop name (MemoryStore.popZSet order) w args s)=
      handleZPop name (MemoryStore.popZSet order) w args s := by
  apply builtReply_eq
  intro p hp
  obtain ⟨r,hr,heq⟩ | ⟨key,count,withCount,_,heq⟩ :=
    handleZPop_cases name (MemoryStore.popZSet order) w args
  · rw [heq] at hp
    cases hp
    rcases hr with rfl | rfl <;> rfl
  · rw [heq] at hp
    obtain ⟨r,hr,rfl⟩ := Go.map_eq_ok.mp hp
    cases r with
    | error e => rfl
    | ok q => exact built_bulks (fits_zPopped h horder hr)

theorem handleZPopMin_eq (h : s.Fits) :
    handleZPopMin w args s=GoRedis.handleZPopMin w args s := by
  rw [handleZPopMin,handleZPop_congr fun key count => zPopMin_eq h count]
  exact builtReply_handleZPop h (fun l => rfl) _

theorem handleZPopMax_eq (h : s.Fits) :
    handleZPopMax w args s=GoRedis.handleZPopMax w args s := by
  rw [handleZPopMax,handleZPop_congr fun key count => zPopMax_eq h count]
  exact builtReply_handleZPop h (fun l => List.length_reverse) _

theorem wrap64_three_add {numkeys : Int} (hin : InInt64 numkeys) (hone : 1 ≤ numkeys) :
    2^63-3 ≤ numkeys ∧ wrap64 (3+numkeys) < 3 ∨
      numkeys < 2^63-3 ∧ wrap64 (3+numkeys)=3+numkeys := by
  unfold InInt64 at hin
  unfold wrap64
  omega

theorem handleZSetStore_eq (hargs : MakeOk 16 args.length) (name : String) (op : ZStore F) :
    handleZSetStore name op w args s=GoRedis.handleZSetStore name op w args s := by
  rcases args with _ | ⟨cmd,_ | ⟨dst,_ | ⟨n,_ | ⟨a,rest⟩⟩⟩⟩
  case cons.cons.cons.cons =>
    simp only [handleZSetStore,GoRedis.handleZSetStore]
    cases hnum : (parseInt n).filter fun n => 1 ≤ n with
    | none => rfl
    | some numkeys =>
      dsimp only
      by_cases hlong : ((cmd::dst::n::a::rest).length:Int) < wrap64 (3+numkeys)
      · rw [if_pos hlong,if_pos hlong]
      rw [if_neg hlong,if_neg hlong]
      obtain ⟨hparse,hpos⟩ := Option.filter_eq_some_iff.mp hnum
      have hone : 1 ≤ numkeys := by simpa using hpos
      obtain ⟨_,hwrap⟩ | ⟨_,hwrap⟩ := wrap64_three_add (parseInt_inInt64 hparse) hone
      · rw [if_pos hwrap,Go.cut_error hwrap]
        rfl
      · rw [hwrap] at hlong ⊢
        have hmake : MakeOk 8 numkeys := hargs.mono (by decide) (by omega) (by omega)
        have hkeys : (3+numkeys-3).toNat=numkeys.toNat := by omega
        have hrest : (3+numkeys).toNat=numkeys.toNat+3 := by omega
        rw [if_neg (by omega),Go.cut_ok (by decide) (by omega) (by omega),Go.make_ok hmake,hkeys,
          hrest]
        simp only [bind,Except.bind,List.drop_succ_cons]
        cases zstoreOptions numkeys.toNat 0 ((a::rest).drop numkeys.toNat)
          (List.replicate numkeys.toNat (1 : F)) (utf8 "SUM") <;> rfl
  all_goals rfl

end Handlers

end Checked
end GoRedis
