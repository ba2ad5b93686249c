import GoRedis.Persistence.Reachable
import GoRedis.Storage.Edits
import GoRedis.Storage.Typed
/-!
# Writing a key only if it exists

`SET` with `NX` or `XX` and `SETNX` look for the key among the strings. `EXISTS` asks all five
maps. The two agree on a key that is a string or not there, and on no other.
-/
namespace GoRedis
variable {F : Type} {w : World} {s s' : MemoryStore F} {key value : Bytes}

/-- The value was stored: the key is a string and nothing else, its version went up, and every
other key is as it was. -/
def Stored (s s' : MemoryStore F) (key value : Bytes) : Prop :=
  ∃ x, s'.slot=Function.update s.slot key
    ((s.slot key).setRow { Row.absent with string := some ⟨value,x⟩ }).bump

theorem stored_setString (s : MemoryStore F) (key value : Bytes) (x : Option Int) :
    Stored s (((s.deleteKey key).putString key ⟨value,x⟩).bumpVersion key) key value :=
  ⟨x,s.slot_setString key _⟩

theorem not_stored_self (s : MemoryStore F) (key value : Bytes) : ¬Stored s s key value := by
  rintro ⟨x,hx⟩
  have hslot := congrFun hx key
  rw [Function.update_self] at hslot
  have hversion := congrArg Slot.version hslot
  rw [Slot.bump_version,Slot.setRow_version] at hversion
  have hcount := congrArg (Option.getD · 0) hversion
  simp at hcount

/-- The key is a string or not there. -/
def StringOrAbsent (m : Maps F) (now : Int) (key : Bytes) : Prop :=
  m.typeOf now key=none ∨ m.typeOf now key=some .string

theorem exists_eq_zero_iff (m : Maps F) (now : Int) (key : Bytes) :
    m.exists_ now [key]=0 ↔ m.typeOf now key=none := by
  simp [Maps.exists_]

theorem exists_eq_one_iff (m : Maps F) (now : Int) (key : Bytes) :
    m.exists_ now [key]=1 ↔ m.typeOf now key ≠ none := by
  cases h : m.typeOf now key <;> simp [Maps.exists_,h]

theorem absent_agrees_iff (m : Maps F) (now : Int) (key : Bytes) :
    (¬(m.get now key).isSome ↔ m.exists_ now [key]=0) ↔ StringOrAbsent m now key := by
  rw [Maps.get_isSome_iff,exists_eq_zero_iff,StringOrAbsent]
  cases h : m.typeOf now key with
  | none => simp
  | some t => cases t <;> simp

theorem present_agrees_iff (m : Maps F) (now : Int) (key : Bytes) :
    ((m.get now key).isSome ↔ m.exists_ now [key]=1) ↔ StringOrAbsent m now key := by
  rw [Maps.get_isSome_iff,exists_eq_one_iff,StringOrAbsent]
  cases h : m.typeOf now key with
  | none => simp
  | some t => cases t <;> simp

theorem setRefused_of_nx {o : SetAdvOpts} (hnx : o.nx=true) (hok : ¬(o.nx=true ∧ o.xx=true))
    (present : Bool) : SetRefused o present ↔ present=true := by
  have hxx : o.xx ≠ true := fun h => hok ⟨hnx,h⟩
  simp [SetRefused,hnx,hxx]

theorem setRefused_of_xx {o : SetAdvOpts} (hxx : o.xx=true) (hok : ¬(o.nx=true ∧ o.xx=true))
    (present : Bool) : SetRefused o present ↔ ¬present=true := by
  have hnx : o.nx ≠ true := fun h => hok ⟨h,hxx⟩
  simp [SetRefused,hnx,hxx]

theorem setAdv_stored_iff (s : MemoryStore F) (now : Int) (key value : Bytes) (ttl : Int)
    (o : SetAdvOpts) : Stored s (s.setAdv now key value ttl o).2.2 key value ↔
      ¬SetRefused o (s.get now key).isSome := by
  rcases s.setAdv_cases now key value ttl o with ⟨hrefused,hrun⟩ | ⟨hok,hrun⟩
  · rw [hrun]
    exact iff_of_false (not_stored_self s key value) (not_not_intro hrefused)
  · rw [hrun]
    exact iff_of_true (stored_setString s key value _) hok

theorem setAdv_unchanged {now : Int} {ttl : Int} {o : SetAdvOpts}
    (h : ¬Stored s (s.setAdv now key value ttl o).2.2 key value) :
    (s.setAdv now key value ttl o).2.2=s := by
  rw [setAdv_stored_iff,not_not] at h
  rcases s.setAdv_cases now key value ttl o with ⟨_,hrun⟩ | ⟨hok,_⟩
  · rw [hrun]
  · exact absurd h hok

theorem handleSet_store {name : Bytes} {opts : List Bytes} {o : SetAdvOpts} {ttl : Int}
    (hopts : setOptions w.now opts {} 0=.ok (o,ttl)) (hok : ¬(o.nx=true ∧ o.xx=true)) :
    (handleSet w (name::key::value::opts) s).2=(s.setAdv w.now key value ttl o).2.2 := by
  simp only [handleSet,hopts,if_neg hok]

theorem handleSetNX_cases (w : World) (s : MemoryStore F) (name key value : Bytes) :
    ((s.get w.now key).isSome ∧ handleSetNX w [name,key,value] s=(.integer 0,s)) ∨
      (¬(s.get w.now key).isSome ∧
        handleSetNX w [name,key,value] s=(.integer 1,s.set key value)) := by
  simp only [handleSetNX]
  by_cases hsome : (s.get w.now key).isSome
  · exact .inl ⟨hsome,if_pos hsome⟩
  · exact .inr ⟨hsome,if_neg hsome⟩

/-- The existence conditions of `SET` and `SETNX` are those of `EXISTS` exactly for a key that
is a string or not there, and a value that is not stored leaves the store as it is. -/
theorem conditional_set_iff [Float64 F] (w : World) (s : MemoryStore F) (key value : Bytes) :
    (∀ name opts o ttl, commandOf (name::key::value::opts)=some (.write .set) →
      setOptions w.now opts {} 0=.ok (o,ttl) → ¬(o.nx=true ∧ o.xx=true) →
      ∃ d, dispatch w (name::key::value::opts) s=.ok d ∧
        (¬Stored s d.store key value → d.store=s) ∧
        (o.nx=true → ((Stored s d.store key value ↔ s.exists_ w.now [key]=0) ↔
          StringOrAbsent s.toMaps w.now key)) ∧
        (o.xx=true → ((Stored s d.store key value ↔ s.exists_ w.now [key]=1) ↔
          StringOrAbsent s.toMaps w.now key))) ∧
    ∀ name, commandOf [name,key,value]=some (.write .setnx) →
      ∃ d, dispatch w [name,key,value] s=.ok d ∧
        (d.resp=.integer 1 ↔ Stored s d.store key value) ∧
        (¬Stored s d.store key value → d.store=s) ∧
        ((d.resp=.integer 1 ↔ s.exists_ w.now [key]=0) ↔ StringOrAbsent s.toMaps w.now key) := by
  constructor
  · intro name opts o ttl hc hopts hok
    rw [dispatch_write hc]
    refine ⟨_,rfl,?_⟩
    dsimp only
    rw [handleSet_store hopts hok]
    refine ⟨setAdv_unchanged,?_,?_⟩
    · intro hnx
      rw [setAdv_stored_iff,setRefused_of_nx hnx hok]
      exact absent_agrees_iff s.toMaps w.now key
    · intro hxx
      rw [setAdv_stored_iff,setRefused_of_xx hxx hok,not_not]
      exact present_agrees_iff s.toMaps w.now key
  · intro name hc
    rw [dispatch_write hc]
    refine ⟨_,rfl,?_⟩
    rw [← absent_agrees_iff]
    rcases handleSetNX_cases w s name key value with ⟨hsome,hrun⟩ | ⟨hnone,hrun⟩
    · rw [hrun]
      have hne : Response.integer 0 ≠ .integer 1 := by
        intro h
        cases h
      exact ⟨iff_of_false hne (not_stored_self s key value),fun _ => rfl,by simp [hsome]⟩
    · rw [hrun]
      have hstored : Stored s (s.set key value) key value := stored_setString s key value none
      exact ⟨iff_of_true rfl hstored,fun h => absurd hstored h,by simp [hnone]⟩

/-- `SET k w NX` on a string, and `SETNX` on a missing key. -/
theorem conditional_set_string :
    (∃ d, dispatch (World.plain 0) [utf8 "SET",utf8 "k",utf8 "w",utf8 "NX"]
        ((MemoryStore.new : MemoryStore Int).set (utf8 "k") (utf8 "v"))=.ok d ∧
      (Stored ((MemoryStore.new : MemoryStore Int).set (utf8 "k") (utf8 "v")) d.store (utf8 "k")
        (utf8 "w") ↔ (MemoryStore.new.set (F := Int) (utf8 "k") (utf8 "v")).exists_ 0 [utf8 "k"]=0)) ∧
    ∃ d, dispatch (World.plain 0) [utf8 "SETNX",utf8 "k",utf8 "w"]
        (MemoryStore.new : MemoryStore Int)=.ok d ∧
      (d.resp=.integer 1 ↔ (MemoryStore.new : MemoryStore Int).exists_ 0 [utf8 "k"]=0) := by
  constructor
  · obtain ⟨d,hd,_,hnx,_⟩ := (conditional_set_iff (World.plain 0)
      ((MemoryStore.new : MemoryStore Int).set (utf8 "k") (utf8 "v")) (utf8 "k") (utf8 "w")).1
      (utf8 "SET") [utf8 "NX"] { nx := true } 0 (by decide) rfl (by decide)
    exact ⟨d,hd,(hnx rfl).mpr (.inr (by decide))⟩
  · obtain ⟨d,hd,_,_,hiff⟩ := (conditional_set_iff (World.plain 0)
      (MemoryStore.new : MemoryStore Int) (utf8 "k") (utf8 "w")).2 (utf8 "SETNX") (by decide)
    exact ⟨d,hd,hiff.mpr (.inl (by decide))⟩

/-- A hash under `k`: `EXISTS` says 1, yet `SET k w NX` and `SETNX` replace it by a string, and
`SET k w XX` stores nothing. -/
theorem nx_replaces_hash : ∃ s : MemoryStore Int, Reachable s ∧ s.exists_ 0 [utf8 "k"]=1 ∧
    (∃ d, dispatch (World.plain 0) [utf8 "SET",utf8 "k",utf8 "w",utf8 "NX"] s=.ok d ∧
      d.resp=okReply ∧ d.store.view 0 (utf8 "k")=some (.string (utf8 "w"),none)) ∧
    (∃ d, dispatch (World.plain 0) [utf8 "SETNX",utf8 "k",utf8 "w"] s=.ok d ∧
      d.resp=.integer 1 ∧ d.store.view 0 (utf8 "k")=some (.string (utf8 "w"),none)) ∧
    ∃ d, dispatch (World.plain 0) [utf8 "SET",utf8 "k",utf8 "w",utf8 "XX"] s=.ok d ∧
      d.resp=.nullBulkString ∧ d.store=s := by
  have hset : Reachable _ :=
    .dispatch (F := Int) (World.plain 0) [utf8 "HSET",utf8 "k",utf8 "f",utf8 "v"] .new rfl
  exact ⟨_,hset,by decide,⟨_,rfl,rfl,by decide⟩,⟨_,rfl,rfl,by decide⟩,_,rfl,rfl,rfl⟩

end GoRedis
