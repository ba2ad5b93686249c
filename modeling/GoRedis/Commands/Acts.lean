import GoRedis.Commands.Router
import GoRedis.Storage.Operations
/-!
# Handlers act through the store interface

Every writing handler is a sequence of store operations at the instant of the request, and
one that replies with an error has left the store alone. Invariants of the store machine
therefore hold along everything the router does.
-/
namespace GoRedis
variable {F : Type} [Float64 F]

/-- An operation out of which no collection comes empty: `Proper`, no `HSet` without fields
and no `ZAdd`. -/
def StoreOp.Plain : StoreOp F → Prop
  | sAdd _ members => members ≠ []
  | hSet _ fields => fields ≠ ∅
  | zAdd .. => False
  | _ => True

open StoreOp (Plain Proper)

omit [Float64 F] in
theorem StoreOp.Plain.proper {op : StoreOp F} (h : op.Plain) : op.Proper := by
  cases op <;> first | exact h | trivial

/-- `s'` is reached from `s` by store operations in one world, all of them such that `P`. -/
def ActsBy (P : StoreOp F → Prop) (w : World) (s s' : MemoryStore F) : Prop :=
  ∃ ops : List (StoreOp F), (∀ op ∈ ops, P op) ∧
    Machine.run StoreOp.step (ops.map fun op => (w,op)) s=.ok s'

/-- `s'` is reached from `s` by store operations in one world. -/
abbrev Acts (w : World) (s s' : MemoryStore F) : Prop := ActsBy Proper w s s'

/-- What a handler returns: it acted through the interface, and not at all if it failed. -/
structure SoundBy (P : StoreOp F → Prop) (w : World) (s : MemoryStore F)
    (p : Response × MemoryStore F) : Prop where
  acts : ActsBy P w s p.2
  failed : p.1.isError → p.2=s

/-- What every handler returns. -/
abbrev Sound (w : World) (s : MemoryStore F) (p : Response × MemoryStore F) : Prop :=
  SoundBy Proper w s p

section
variable {P : StoreOp F → Prop} {w : World} {s s' s'' : MemoryStore F}

theorem ActsBy.refl (w : World) (s : MemoryStore F) : ActsBy P w s s := ⟨[],by simp,rfl⟩

theorem ActsBy.step (op : StoreOp F) (hp : P op) (h : op.apply w s=.ok s')
    (hrest : ActsBy P w s' s'') : ActsBy P w s s'' := by
  obtain ⟨ops,hops,hrun⟩ := hrest
  refine ⟨op::ops,?_,Machine.run_cons_ok.mpr ⟨s',h,hrun⟩⟩
  intro op' hop'
  rcases List.mem_cons.mp hop' with rfl | hop'
  · exact hp
  · exact hops op' hop'

theorem ActsBy.single (op : StoreOp F) (hp : P op) (h : op.apply w s=.ok s') : ActsBy P w s s' :=
  .step op hp h (.refl w s')

theorem ActsBy.mono {Q : StoreOp F → Prop} (h : ActsBy P w s s') (hPQ : ∀ op, P op → Q op) :
    ActsBy Q w s s' := by
  obtain ⟨ops,hops,hrun⟩ := h
  exact ⟨ops,fun op hop => hPQ op (hops op hop),hrun⟩

theorem ActsBy.invariant {I : MemoryStore F → Prop} (h : ActsBy P w s s')
    (hstep : ∀ op : StoreOp F, P op → ∀ u u', I u → op.apply w u=.ok u' → I u')
    (hs : I s) : I s' := by
  obtain ⟨ops,hops,hrun⟩ := h
  induction ops generalizing s with
  | nil =>
    cases hrun
    exact hs
  | cons op ops ih =>
    obtain ⟨u,hu,hrun⟩ := Machine.run_cons_ok.mp hrun
    exact ih (hstep op (hops op List.mem_cons_self) s u hs hu)
      (fun op' h' => hops op' (List.mem_cons_of_mem _ h')) hrun

theorem SoundBy.keep (w : World) (s : MemoryStore F) (r : Response) : SoundBy P w s (r,s) :=
  ⟨.refl w s,fun _ => rfl⟩

theorem SoundBy.op {r : Response} (op : StoreOp F) (hp : P op) (h : op.apply w s=.ok s')
    (hr : r.isError=false) : SoundBy P w s (r,s') :=
  ⟨.single op hp h,fun he => by simp [hr] at he⟩

theorem SoundBy.ofCommit {α : Type} {f : α → Response}
    {res : Except StoreError (α × MemoryStore F)} (op : StoreOp F) (hp : P op)
    (h : op.apply w s=.ok (dropError s res)) (hf : ∀ a, (f a).isError=false) :
    SoundBy P w s (commit s f res) := by
  cases res with
  | error e => exact .keep w s _
  | ok p => exact .op op hp h (hf p.1)

end

@[simp] theorem setReply_isError (opts : SetAdvOpts) (old : Option Bytes) (wasSet : Bool) :
    (setReply opts old wasSet).isError=false := by
  unfold setReply
  split
  · exact optReply_isError old
  · split <;> rfl

theorem handleSet_sound (w : World) (args : List Bytes) (s : MemoryStore F) :
    SoundBy Plain w s (handleSet w args s) := by
  unfold handleSet
  split
  · split
    · exact .keep w s _
    · split
      · exact .keep w s _
      · rename_i key value _ _ opts ttl _ _
        exact .op (.setAdv key value ttl opts) trivial rfl (setReply_isError _ _ _)
  · exact .keep w s _

theorem handleDel_sound (w : World) (args : List Bytes) (s : MemoryStore F) :
    SoundBy Plain w s (handleDel w args s) := by
  unfold handleDel
  split
  · rename_i key keys
    exact .op (.del (key::keys)) trivial rfl rfl
  · exact .keep w s _

theorem handleSetNX_sound (w : World) (args : List Bytes) (s : MemoryStore F) :
    SoundBy Plain w s (handleSetNX w args s) := by
  unfold handleSetNX
  split
  · split
    · exact .keep w s _
    · exact .op (.set _ _) trivial rfl rfl
  · exact .keep w s _

theorem handleSetTTL_sound (name : String) (unit : Int) (w : World) (args : List Bytes)
    (s : MemoryStore F) : SoundBy Plain w s (handleSetTTL name unit w args s) := by
  unfold handleSetTTL
  split
  · split
    · exact .keep w s _
    · exact .op (.setWithTTL _ _ _) trivial rfl rfl
  · exact .keep w s _

theorem msetLoop_acts (w : World) (args : List Bytes) (s : MemoryStore F) :
    ActsBy Plain w s (msetLoop s args) := by
  fun_induction msetLoop s args with
  | case1 s k v rest ih => exact .step (.set k v) trivial rfl ih
  | case2 => exact .refl w _

theorem handleMSet_sound (w : World) (args : List Bytes) (s : MemoryStore F) :
    SoundBy Plain w s (handleMSet args s) := by
  unfold handleMSet
  split
  · exact .keep w s _
  · exact ⟨msetLoop_acts w args.tail s,fun h => by simp at h⟩

theorem handleGetSet_sound (w : World) (args : List Bytes) (s : MemoryStore F) :
    SoundBy Plain w s (handleGetSet w args s) := by
  unfold handleGetSet
  split
  · exact .op (.set _ _) trivial rfl (optReply_isError _)
  · exact .keep w s _

theorem handleGetDel_sound (w : World) (args : List Bytes) (s : MemoryStore F) :
    SoundBy Plain w s (handleGetDel w args s) := by
  unfold handleGetDel
  split
  · split
    · exact .keep w s _
    · exact .op (.del _) trivial rfl rfl
  · exact .keep w s _

theorem handleGetEX_sound (w : World) (args : List Bytes) (s : MemoryStore F) :
    SoundBy Plain w s (handleGetEX w args s) := by
  unfold handleGetEX
  split
  · split
    · exact .keep w s _
    · exact .op (.getEx _ _ _ _) trivial rfl (optReply_isError _)
  · exact .keep w s _

theorem handleAppend_sound (w : World) (args : List Bytes) (s : MemoryStore F) :
    SoundBy Plain w s (handleAppend w args s) := by
  unfold handleAppend
  split
  · exact .op (.set _ _) trivial rfl rfl
  · exact .keep w s _

theorem incrBy_sound (w : World) (key : Bytes) (delta : Int) (s : MemoryStore F) :
    SoundBy Plain w s (incrBy w key delta s) := by
  unfold incrBy
  split
  · exact .keep w s _
  · dsimp only
    split_ifs
    · exact .keep w s _
    · exact .keep w s _
    · exact .op (.set _ _) trivial rfl rfl

theorem handleStep_sound (name : String) (delta : Int) (w : World) (args : List Bytes)
    (s : MemoryStore F) : SoundBy Plain w s (handleStep name delta w args s) := by
  unfold handleStep
  split
  · exact incrBy_sound w _ delta s
  · exact .keep w s _

theorem handleStepBy_sound (name : String) (sign : Int → Int) (w : World) (args : List Bytes)
    (s : MemoryStore F) : SoundBy Plain w s (handleStepBy name sign w args s) := by
  unfold handleStepBy
  split
  · split
    · exact .keep w s _
    · exact incrBy_sound w _ _ s
  · exact .keep w s _

theorem handleIncrByFloat_sound (w : World) (args : List Bytes) (s : MemoryStore F) :
    SoundBy Plain w s (handleIncrByFloat w args s) := by
  unfold handleIncrByFloat
  split
  · split
    · exact .keep w s _
    · split
      · exact .keep w s _
      · exact .op (.set _ _) trivial rfl rfl
  · exact .keep w s _

theorem handleExpireIn_sound (name : String) (unit : Int) (w : World) (args : List Bytes)
    (s : MemoryStore F) : SoundBy Plain w s (handleExpireIn name unit w args s) := by
  unfold handleExpireIn
  split
  · split
    · exact .keep w s _
    · exact .op (.expire _ _) trivial rfl (boolReply_isError _)
  · exact .keep w s _

theorem handleExpireOn_sound (name : String) (instant : Int → Int) (w : World)
    (args : List Bytes) (s : MemoryStore F) :
    SoundBy Plain w s (handleExpireOn name instant w args s) := by
  unfold handleExpireOn
  split
  · split
    · exact .keep w s _
    · dsimp only
      split
      · exact .op (.del _) trivial rfl rfl
      · exact .op (.expire _ _) trivial rfl (boolReply_isError _)
  · exact .keep w s _

theorem handlePersist_sound (w : World) (args : List Bytes) (s : MemoryStore F) :
    SoundBy Plain w s (handlePersist w args s) := by
  unfold handlePersist
  split
  · exact .op (.persist _) trivial rfl (boolReply_isError _)
  · exact .keep w s _

theorem insert_ne_empty (m : Map Bytes) (f v : Bytes) : m.insert f v ≠ ∅ := by
  intro he
  have := congrArg (fun m : Map Bytes => m[f]?) he
  simp at this

theorem pairsMap_ne_empty {m : Map Bytes} (hm : m ≠ ∅) (l : List Bytes) : pairsMap m l ≠ ∅ := by
  fun_induction pairsMap m l with
  | case1 m f v rest ih => exact ih (insert_ne_empty m f v)
  | case2 => exact hm

theorem handleHSet_sound (w : World) (args : List Bytes) (s : MemoryStore F) :
    SoundBy Plain w s (handleHSet args s) := by
  unfold handleHSet
  split
  · rename_i hshape
    have hlen : 4 ≤ args.length := (of_decide_eq_true hshape).1
    obtain ⟨a,b,f,v,rest,rfl⟩ : ∃ a b f v rest, args=a::b::f::v::rest := by
      match args,hlen with
      | a::b::f::v::rest,_ => exact ⟨a,b,f,v,rest,rfl⟩
    exact .op (.hSet _ _) (pairsMap_ne_empty (insert_ne_empty ∅ f v) rest) rfl rfl
  · exact .keep w s _

theorem handleHDel_sound (w : World) (args : List Bytes) (s : MemoryStore F) :
    SoundBy Plain w s (handleHDel w args s) := by
  unfold handleHDel
  split
  · rename_i key field fields
    exact .op (.hDel key (field::fields)) trivial rfl rfl
  · exact .keep w s _

theorem handleHIncrBy_sound (w : World) (args : List Bytes) (s : MemoryStore F) :
    SoundBy Plain w s (handleHIncrBy w args s) := by
  unfold handleHIncrBy
  split
  · split
    · exact .keep w s _
    · split
      · exact .keep w s _
      · exact .op (.hSet _ _) (insert_ne_empty _ _ _) rfl rfl
  · exact .keep w s _

theorem handleHIncrByFloat_sound (w : World) (args : List Bytes) (s : MemoryStore F) :
    SoundBy Plain w s (handleHIncrByFloat w args s) := by
  unfold handleHIncrByFloat
  split
  · split
    · exact .keep w s _
    · split
      · exact .keep w s _
      · exact .op (.hSet _ _) (insert_ne_empty _ _ _) rfl rfl
  · exact .keep w s _

theorem handlePush_sound (name : String) {push : Push F} (op : Bytes → Bytes → List Bytes → StoreOp F)
    (hp : ∀ k v vs, (op k v vs).Plain)
    (h : ∀ w s k v vs, (op k v vs).apply w s=.ok (dropError s (push s w.now k (v::vs))))
    (w : World) (args : List Bytes) (s : MemoryStore F) :
    SoundBy Plain w s (handlePush name push w args s) := by
  unfold handlePush
  split
  · exact .ofCommit _ (hp _ _ _) (h w s _ _ _) fun _ => rfl
  · exact .keep w s _

theorem handlePushX_sound (name : String) {push : Push F}
    (op : Bytes → Bytes → List Bytes → StoreOp F) (hp : ∀ k v vs, (op k v vs).Plain)
    (h : ∀ w s k v vs, (op k v vs).apply w s=.ok (dropError s (push s w.now k (v::vs))))
    (w : World) (args : List Bytes) (s : MemoryStore F) :
    SoundBy Plain w s (handlePushX name push w args s) := by
  unfold handlePushX
  split
  · split
    · exact .keep w s _
    · exact .ofCommit _ (hp _ _ _) (h w s _ _ _) fun _ => rfl
  · exact .keep w s _

@[simp] theorem popReply_isError (withCount : Bool) (vals : Option (List Bytes)) :
    (popReply withCount vals).isError=false := by
  cases vals with
  | none => rfl
  | some vals =>
    simp only [popReply]
    split
    · rfl
    · exact optReply_isError _

@[simp] theorem membersReply_isError (withCount : Bool) (members : List Bytes) :
    (membersReply withCount members).isError=false := by
  unfold membersReply
  split
  · rfl
  · exact optReply_isError _

theorem SoundBy.ofCommitGo {P : StoreOp F → Prop} {α : Type} {w : World} {s : MemoryStore F}
    {f : α → Response} {res : Go (Except StoreError (α × MemoryStore F))}
    {p : Response × MemoryStore F} (hrun : res.map (commit s f)=.ok p) (op : StoreOp F) (hp : P op)
    (h : op.apply w s=StoreOp.dropResult s res) (hf : ∀ a, (f a).isError=false) :
    SoundBy P w s p := by
  obtain ⟨r,hres,rfl⟩ := Go.map_eq_ok.mp hrun
  refine .ofCommit op hp ?_ hf
  rw [h,hres]
  rfl

theorem handlePop_sound (name : String) {pop : Pop F} (op : Bytes → Int → StoreOp F)
    (hp : ∀ k n, (op k n).Plain)
    (h : ∀ w s k n, (op k n).apply w s=StoreOp.dropResult s (pop s w.now k n))
    {w : World} {args : List Bytes} {s : MemoryStore F} {p : Response × MemoryStore F}
    (hrun : handlePop name pop w args s=.ok p) : SoundBy Plain w s p := by
  obtain ⟨r,_,heq⟩ | ⟨key,count,withCount,_,heq⟩ := handlePop_cases name pop w args
  · cases (heq s).symm.trans hrun
    exact .keep w s _
  · rw [heq] at hrun
    exact .ofCommitGo hrun _ (hp key count) (h w s key count) (popReply_isError _)

theorem handleLSet_sound (w : World) (args : List Bytes) (s : MemoryStore F) :
    SoundBy Plain w s (handleLSet w args s) := by
  unfold handleLSet
  split
  · split
    · exact .keep w s _
    · exact .ofCommit (.lSet _ _ _) trivial (by rw [dropError_map_unit,StoreOp.apply]) fun _ => rfl
  · exact .keep w s _

theorem handleLInsert_sound (w : World) (args : List Bytes) (s : MemoryStore F) :
    SoundBy Plain w s (handleLInsert w args s) := by
  unfold handleLInsert
  split
  · split
    · exact .keep w s _
    · exact .ofCommit (.lInsert _ _ _ _) trivial rfl fun _ => rfl
  · exact .keep w s _

theorem handleLRem_sound (w : World) (args : List Bytes) (s : MemoryStore F) :
    SoundBy Plain w s (handleLRem w args s) := by
  unfold handleLRem
  split
  · split
    · exact .keep w s _
    · exact .ofCommit (.lRem _ _ _) trivial rfl fun _ => rfl
  · exact .keep w s _

theorem handleLTrim_sound (w : World) (args : List Bytes) (s : MemoryStore F) :
    SoundBy Plain w s (handleLTrim w args s) := by
  unfold handleLTrim
  split
  · split
    · exact .ofCommit (.lTrim _ _ _) trivial (by rw [dropError_map_unit,StoreOp.apply]) fun _ => rfl
    · exact .keep w s _
  · exact .keep w s _

theorem handleLMove_sound (w : World) (args : List Bytes) (s : MemoryStore F) :
    SoundBy Plain w s (handleLMove w args s) := by
  unfold handleLMove
  split
  · split
    · exact .ofCommit (.lMove _ _ _ _) trivial rfl optReply_isError
    · exact .keep w s _
  · exact .keep w s _

theorem handleRPopLPush_sound (w : World) (args : List Bytes) (s : MemoryStore F) :
    SoundBy Plain w s (handleRPopLPush w args s) := by
  unfold handleRPopLPush
  split
  · exact .ofCommit (.lMove _ _ false true) trivial rfl optReply_isError
  · exact .keep w s _

theorem handleSAdd_sound (w : World) (args : List Bytes) (s : MemoryStore F) :
    SoundBy Plain w s (handleSAdd w args s) := by
  unfold handleSAdd
  split
  · exact .ofCommit (.sAdd _ (_::_)) (List.cons_ne_nil _ _) rfl fun _ => rfl
  · exact .keep w s _

theorem handleSRem_sound (w : World) (args : List Bytes) (s : MemoryStore F) :
    SoundBy Plain w s (handleSRem w args s) := by
  unfold handleSRem
  split
  · exact .ofCommit (.sRem _ _) trivial rfl fun _ => rfl
  · exact .keep w s _

theorem handleSetOpStore_sound (name : String)
    {store : MemoryStore F → World → Bytes → List Bytes → Except StoreError (Nat × MemoryStore F)}
    (op : Bytes → List Bytes → StoreOp F) (hp : ∀ dst ks, (op dst ks).Plain)
    (h : ∀ w s dst ks, (op dst ks).apply w s=.ok (dropError s (store s w dst ks)))
    (w : World) (args : List Bytes) (s : MemoryStore F) :
    SoundBy Plain w s (handleSetOpStore name store w args s) := by
  unfold handleSetOpStore
  split
  · exact .ofCommit _ (hp _ _) (h w s _ _) fun _ => rfl
  · exact .keep w s _

theorem handleSPop_sound {w : World} {args : List Bytes} {s : MemoryStore F}
    {p : Response × MemoryStore F} (hrun : handleSPop w args s=.ok p) : SoundBy Plain w s p := by
  obtain ⟨r,_,heq⟩ | ⟨key,count,withCount,_,heq⟩ := handleSPop_cases (F := F) w args
  · cases (heq s).symm.trans hrun
    exact .keep w s _
  · rw [heq] at hrun
    exact .ofCommitGo hrun (.sPop key count) trivial rfl (membersReply_isError _)

theorem handleSMove_sound (w : World) (args : List Bytes) (s : MemoryStore F) :
    SoundBy Plain w s (handleSMove w args s) := by
  unfold handleSMove
  split
  · exact .ofCommit (.sMove _ _ _) trivial rfl boolReply_isError
  · exact .keep w s _

theorem handleZAdd_sound (w : World) (args : List Bytes) (s : MemoryStore F) :
    Sound w s (handleZAdd w args s) := by
  unfold handleZAdd
  split
  · dsimp only
    split_ifs
    · exact .keep w s _
    · exact .keep w s _
    · exact .keep w s _
    · split
      · exact .keep w s _
      · exact .ofCommit (.zAdd _ _ _) trivial rfl fun _ => rfl
  · exact .keep w s _

/-- What `ZADD` asks of the arguments behind the key before it calls the store. -/
def zaddAccepts (F : Type) [Float64 F] (rest : List Bytes) : Prop :=
  ¬((zaddFlags rest {}).1.nx ∧ (zaddFlags rest {}).1.xx) ∧
  ¬((zaddFlags rest {}).1.gt ∧ (zaddFlags rest {}).1.nx ∨
    (zaddFlags rest {}).1.lt ∧ (zaddFlags rest {}).1.nx) ∧
  (zaddFlags rest {}).2.length%2=0 ∧ (zaddFlags rest {}).2 ≠ [] ∧
  ∃ ms : List (ZMember F), zaddMembers parseScore (zaddFlags rest {}).2=.ok ms

omit [Float64 F] in
theorem length_zaddFlags_le (l : List Bytes) (fl : ZAddFlags) :
    (zaddFlags l fl).2.length ≤ l.length := by
  fun_induction zaddFlags l fl with
  | case1 => simp
  | case2 a rest fl fl' _ ih => exact ih.trans (by simp)
  | case3 => simp

omit [Float64 F] in
theorem zaddMembers_ne_nil {parse : Bytes → Option F} {l : List Bytes} {ms : List (ZMember F)}
    (hlen : l.length%2=0) (hl : l ≠ []) (h : zaddMembers parse l=.ok ms) : ms ≠ [] := by
  match l with
  | [] => exact absurd rfl hl
  | [_] => simp at hlen
  | sc::x::rest =>
    rw [zaddMembers] at h
    cases hp : parse sc with
    | none => simp [hp] at h
    | some f =>
      cases hr : zaddMembers parse rest with
      | error e => simp [hp,hr] at h
      | ok ms' =>
        simp only [hp,hr,Except.ok.injEq] at h
        rw [← h]
        exact List.cons_ne_nil _ _

theorem handleZAdd_accepted {rest : List Bytes} {ms : List (ZMember F)} (h : zaddAccepts F rest)
    (hms : zaddMembers parseScore (zaddFlags rest {}).2=.ok ms) (w : World) (name key : Bytes)
    (s : MemoryStore F) : handleZAdd w (name::key::rest) s=
      commit s .integer (s.zAdd w.now key ms (zaddFlags rest {}).1) := by
  obtain ⟨hnx,hgt,hlen,hne,_⟩ := h
  -- flags and an even, positive number of further words are at least two words
  have hle := length_zaddFlags_le rest {}
  have hpos := List.length_pos_iff.mpr hne
  rcases rest with _ | ⟨a,_ | ⟨b,rest⟩⟩
  · exact absurd rfl hne
  · rw [List.length_singleton] at hle
    omega
  · unfold handleZAdd
    dsimp only
    rw [if_neg hnx,if_neg hgt,if_neg (by rw [not_or,not_not]; exact ⟨hlen,hne⟩),hms]

theorem handleZAdd_refused {rest : List Bytes} (h : ¬zaddAccepts F rest) (w : World)
    (name key : Bytes) : ∃ r, ∀ s : MemoryStore F, handleZAdd w (name::key::rest) s=(r,s) := by
  rcases rest with _ | ⟨a,_ | ⟨b,rest⟩⟩
  · exact ⟨_,fun s => rfl⟩
  · exact ⟨_,fun s => rfl⟩
  · unfold handleZAdd
    dsimp only
    split_ifs with h₁ h₂ h₃
    · exact ⟨_,fun s => rfl⟩
    · exact ⟨_,fun s => rfl⟩
    · exact ⟨_,fun s => rfl⟩
    · cases hms : zaddMembers (parseScore : Bytes → Option F) (zaddFlags (a::b::rest) {}).2 with
      | error e => exact ⟨_,fun s => rfl⟩
      | ok ms =>
        rw [not_or,not_not] at h₃
        exact absurd ⟨h₁,h₂,h₃.1,h₃.2,ms,hms⟩ h

theorem handleZAdd_cases (w : World) (args : List Bytes) (s : MemoryStore F) :
    (∃ name key rest ms, args=name::key::rest ∧ zaddAccepts F rest ∧
      zaddMembers parseScore (zaddFlags rest {}).2=.ok ms ∧ ms ≠ [] ∧
      (handleZAdd w args s).2=dropError s (s.zAdd w.now key ms (zaddFlags rest {}).1)) ∨
    ((handleZAdd w args s).2=s ∧
      ∀ name key rest, args=name::key::rest → ¬zaddAccepts F rest) := by
  rcases args with _ | ⟨name,_ | ⟨key,rest⟩⟩
  · exact .inr ⟨rfl,by simp⟩
  · exact .inr ⟨rfl,by simp⟩
  · by_cases h : zaddAccepts F rest
    · obtain ⟨ms,hms⟩ := h.2.2.2.2
      refine .inl ⟨name,key,rest,ms,rfl,h,hms,zaddMembers_ne_nil h.2.2.1 h.2.2.2.1 hms,?_⟩
      rw [handleZAdd_accepted h hms]
      cases s.zAdd w.now key ms (zaddFlags rest {}).1 <;> rfl
    · obtain ⟨r,hr⟩ := handleZAdd_refused h w name key
      refine .inr ⟨by rw [hr s],?_⟩
      rintro _ _ _ ⟨⟩
      exact h

theorem handleZRem_sound (w : World) (args : List Bytes) (s : MemoryStore F) :
    SoundBy Plain w s (handleZRem w args s) := by
  unfold handleZRem
  split
  · exact .ofCommit (.zRem _ _) trivial rfl fun _ => rfl
  · exact .keep w s _

theorem handleZIncrBy_sound (w : World) (args : List Bytes) (s : MemoryStore F) :
    SoundBy Plain w s (handleZIncrBy w args s) := by
  unfold handleZIncrBy
  split
  · split
    · exact .keep w s _
    · exact .ofCommit (.zIncrBy _ _ _) trivial rfl fun _ => rfl
  · exact .keep w s _

theorem handleZPop_sound (name : String) {pop : ZPop F} (op : Bytes → Int → StoreOp F)
    (hp : ∀ k n, (op k n).Plain)
    (h : ∀ w s k n, (op k n).apply w s=StoreOp.dropResult s (pop s w.now k n))
    {w : World} {args : List Bytes} {s : MemoryStore F} {p : Response × MemoryStore F}
    (hrun : handleZPop name pop w args s=.ok p) : SoundBy Plain w s p := by
  obtain ⟨r,_,heq⟩ | ⟨key,count,withCount,_,heq⟩ := handleZPop_cases name pop w args
  · cases (heq s).symm.trans hrun
    exact .keep w s _
  · rw [heq] at hrun
    exact .ofCommitGo hrun _ (hp key count) (h w s key count) fun _ => rfl

theorem handleZSetStore_sound (name : String) {store : ZStore F}
    (op : Bytes → List Bytes → List F → Bytes → StoreOp F)
    (hp : ∀ dst ks ws agg, (op dst ks ws agg).Plain)
    (h : ∀ w s dst ks ws agg, (op dst ks ws agg).apply w s=
      .ok (dropError s (store s w.now dst ks ws agg)))
    {w : World} {args : List Bytes} {s : MemoryStore F} {p : Response × MemoryStore F}
    (hrun : handleZSetStore name store w args s=.ok p) : SoundBy Plain w s p := by
  unfold handleZSetStore at hrun
  split at hrun
  · split at hrun
    · cases hrun
      exact .keep w s _
    · split_ifs at hrun
      · cases hrun
        exact .keep w s _
      · dsimp only at hrun
        split at hrun <;> cases hrun
        · exact .keep w s _
        · exact .ofCommit _ (hp _ _ _ _) (h w s _ _ _ _) fun _ => rfl
  · cases hrun
    exact .keep w s _

theorem handleRename_sound {w : World} {args : List Bytes} {s : MemoryStore F}
    {p : Response × MemoryStore F} (hrun : handleRename w args s=.ok p) : SoundBy Plain w s p := by
  unfold handleRename at hrun
  split at hrun
  · rename_i src dst
    split at hrun
    · cases hrun
      exact .keep w s _
    · cases hr : s.rename w.now src dst with
      | error e => simp [hr] at hrun
      | ok q =>
        obtain ⟨ok,s'⟩ := q
        simp only [hr] at hrun
        cases hrun
        refine ⟨.single (.rename src dst) trivial (by simp [StoreOp.apply,hr]),?_⟩
        -- a rename that fails is one of a key that is not there
        cases ht : s.typeOf w.now src with
        | none =>
          rw [MemoryStore.rename_none ht] at hr
          cases hr
          exact fun _ => rfl
        | some t =>
          obtain ⟨rfl,_⟩ := MemoryStore.rename_ok ht hr
          intro he
          simp at he
  · cases hrun
    exact .keep w s _

theorem handleFlush_sound (name : String) (w : World) (args : List Bytes) (s : MemoryStore F) :
    SoundBy Plain w s (handleFlush name args s) := by
  unfold handleFlush
  split
  · exact .keep w s _
  · exact .op .flush trivial rfl rfl

theorem execute_plain {w : World} {c : WriteCommand} {args : List Bytes} {s : MemoryStore F}
    {p : Response × MemoryStore F} (hc : c ≠ .zadd) (h : execute w c args s=.ok p) :
    SoundBy Plain w s p := by
  cases c <;> simp only [execute] at h
  case lpop => exact handlePop_sound _ .lPop (fun _ _ => trivial) (fun _ _ _ _ => rfl) h
  case rpop => exact handlePop_sound _ .rPop (fun _ _ => trivial) (fun _ _ _ _ => rfl) h
  case spop => exact handleSPop_sound h
  case zpopmin => exact handleZPop_sound _ .zPopMin (fun _ _ => trivial) (fun _ _ _ _ => rfl) h
  case zpopmax => exact handleZPop_sound _ .zPopMax (fun _ _ => trivial) (fun _ _ _ _ => rfl) h
  case zunionstore =>
    exact handleZSetStore_sound _ .zUnionStore (fun _ _ _ _ => trivial) (fun _ _ _ _ _ _ => rfl) h
  case zinterstore =>
    exact handleZSetStore_sound _ .zInterStore (fun _ _ _ _ => trivial) (fun _ _ _ _ _ _ => rfl) h
  case rename => exact handleRename_sound h
  all_goals obtain rfl := Except.ok.inj h
  case set => exact handleSet_sound w args s
  case getex => exact handleGetEX_sound w args s
  case del => exact handleDel_sound w args s
  case setnx => exact handleSetNX_sound w args s
  case setex => exact handleSetTTL_sound _ _ w args s
  case psetex => exact handleSetTTL_sound _ _ w args s
  case mset => exact handleMSet_sound w args s
  case getset => exact handleGetSet_sound w args s
  case getdel => exact handleGetDel_sound w args s
  case append => exact handleAppend_sound w args s
  case expire => exact handleExpireIn_sound _ _ w args s
  case pexpire => exact handleExpireIn_sound _ _ w args s
  case expireat => exact handleExpireOn_sound _ _ w args s
  case pexpireat => exact handleExpireOn_sound _ _ w args s
  case persist => exact handlePersist_sound w args s
  case incr => exact handleStep_sound _ _ w args s
  case incrby => exact handleStepBy_sound _ _ w args s
  case incrbyfloat => exact handleIncrByFloat_sound w args s
  case decr => exact handleStep_sound _ _ w args s
  case decrby => exact handleStepBy_sound _ _ w args s
  case hset => exact handleHSet_sound w args s
  case hdel => exact handleHDel_sound w args s
  case hincrby => exact handleHIncrBy_sound w args s
  case hincrbyfloat => exact handleHIncrByFloat_sound w args s
  case lpush => exact handlePush_sound _ .lPush (fun _ _ _ => trivial) (fun _ _ _ _ _ => rfl) w args s
  case rpush => exact handlePush_sound _ .rPush (fun _ _ _ => trivial) (fun _ _ _ _ _ => rfl) w args s
  case lpushx => exact handlePushX_sound _ .lPush (fun _ _ _ => trivial) (fun _ _ _ _ _ => rfl) w args s
  case rpushx => exact handlePushX_sound _ .rPush (fun _ _ _ => trivial) (fun _ _ _ _ _ => rfl) w args s
  case lset => exact handleLSet_sound w args s
  case linsert => exact handleLInsert_sound w args s
  case lrem => exact handleLRem_sound w args s
  case ltrim => exact handleLTrim_sound w args s
  case lmove => exact handleLMove_sound w args s
  case rpoplpush => exact handleRPopLPush_sound w args s
  case sadd => exact handleSAdd_sound w args s
  case srem => exact handleSRem_sound w args s
  case sinterstore =>
    exact handleSetOpStore_sound _ .sInterStore (fun _ _ => trivial) (fun _ _ _ _ => rfl) w args s
  case sunionstore =>
    exact handleSetOpStore_sound _ .sUnionStore (fun _ _ => trivial) (fun _ _ _ _ => rfl) w args s
  case sdiffstore =>
    exact handleSetOpStore_sound _ .sDiffStore (fun _ _ => trivial) (fun _ _ _ _ => rfl) w args s
  case smove => exact handleSMove_sound w args s
  case zadd => exact absurd rfl hc
  case zrem => exact handleZRem_sound w args s
  case zincrby => exact handleZIncrBy_sound w args s
  case flushdb => exact handleFlush_sound _ w args s
  case flushall => exact handleFlush_sound _ w args s

theorem execute_sound {w : World} {c : WriteCommand} {args : List Bytes} {s : MemoryStore F}
    {p : Response × MemoryStore F} (h : execute w c args s=.ok p) : Sound w s p := by
  by_cases hc : c=.zadd
  · subst hc
    obtain rfl := Except.ok.inj h
    exact handleZAdd_sound w args s
  · have hplain := execute_plain hc h
    exact ⟨hplain.acts.mono fun _ => StoreOp.Plain.proper,hplain.failed⟩

/-- What one call of `Dispatch` can be: the name is not that of a writing command, the store
stays and nothing is logged; or a writing handler ran. -/
theorem dispatch_cases {w : World} {args : List Bytes} {s : MemoryStore F} {d : Dispatched F}
    (h : dispatch w args s=.ok d) :
    (d.store=s ∧ d.records=[] ∧
      ∀ name rest c, args=name::rest → lookup (toUpper name) ≠ some (.write c)) ∨
    ∃ name rest c, args=name::rest ∧ lookup (toUpper name)=some (.write c) ∧
      execute w c args s=.ok (d.resp,d.store) ∧
      d.records=if d.resp.isError then [] else appendToAOF w c args d.resp d.store.toMaps := by
  unfold dispatch at h
  split at h
  · cases h
    exact .inl ⟨rfl,rfl,by simp⟩
  · rename_i name rest
    split at h
    · rename_i hl
      cases h
      exact .inl ⟨rfl,rfl,by rintro _ _ c ⟨⟩; simp [hl]⟩
    · rename_i hl
      split at h
      · cases h
      · cases h
        exact .inl ⟨rfl,rfl,by rintro _ _ c ⟨⟩; simp [hl]⟩
    · rename_i c hc
      split at h
      · cases h
      · rename_i hexec
        cases h
        exact .inr ⟨name,rest,c,rfl,hc,hexec,rfl⟩

theorem dispatch_acts {w : World} {args : List Bytes} {s : MemoryStore F} {d : Dispatched F}
    (h : dispatch w args s=.ok d) : Acts w s d.store := by
  rcases dispatch_cases h with ⟨hs,_⟩ | ⟨_,_,_,_,_,hexec,_⟩
  · rw [hs]
    exact .refl w s
  · exact (execute_sound hexec).acts

/-- A call of `Dispatch` changes nothing and logs nothing, or a writing handler ran without an
error. -/
theorem dispatch_effect {w : World} {args : List Bytes} {s : MemoryStore F} {d : Dispatched F}
    (h : dispatch w args s=.ok d) :
    (d.store=s ∧ d.records=[]) ∨
    ∃ name rest c, args=name::rest ∧ lookup (toUpper name)=some (.write c) ∧
      execute w c args s=.ok (d.resp,d.store) ∧ d.resp.isError=false ∧
      d.records=appendToAOF w c args d.resp d.store.toMaps := by
  rcases dispatch_cases h with ⟨hs,hnil,_⟩ | ⟨name,rest,c,rfl,hname,hexec,hrec⟩
  · exact .inl ⟨hs,hnil⟩
  · cases he : d.resp.isError with
    | true =>
      rw [he,if_pos rfl] at hrec
      exact .inl ⟨(execute_sound hexec).failed he,hrec⟩
    | false =>
      rw [he] at hrec
      exact .inr ⟨name,rest,c,rfl,hname,hexec,rfl,hrec⟩

/-- A reply of type error has changed nothing, in none of the seven maps, and nothing was
appended to the log. -/
theorem dispatch_error_atomic (w : World) (args : List Bytes) (s : MemoryStore F)
    (d : Dispatched F) (h : dispatch w args s=.ok d) (he : d.resp.isError=true) :
    d.store=s ∧ d.records=[] := by
  rcases dispatch_cases h with ⟨hs,hnil,_⟩ | ⟨_,_,_,_,_,hexec,hrec⟩
  · exact ⟨hs,hnil⟩
  · refine ⟨(execute_sound hexec).failed he,?_⟩
    rw [hrec,if_pos he]

/-- `LMOVE l s LEFT LEFT` where `s` is a string: the error is found after `l` was read. -/
theorem dispatch_error_atomic_lmove :
    ∃ s d, Machine.run StoreOp.step [(.plain 0,.lPush [108] [97] []),
        (.plain 0,(.set [115] [118] : StoreOp Int))] .new=.ok s ∧
      dispatch (.plain 0) [utf8 "LMOVE",[108],[115],utf8 "LEFT",utf8 "LEFT"] s=.ok d ∧
      d.resp=.error StoreError.wrongType.text ∧ d.store=s ∧ d.records=[] :=
  ⟨_,_,rfl,rfl,rfl,dispatch_error_atomic (.plain 0)
    [utf8 "LMOVE",[108],[115],utf8 "LEFT",utf8 "LEFT"] _ _ rfl rfl⟩

end GoRedis
