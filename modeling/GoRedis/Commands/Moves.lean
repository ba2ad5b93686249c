import GoRedis.Commands.Acts
import GoRedis.Persistence.Reachable
import GoRedis.Storage.Moves
/-!
# `LMOVE`, `RPOPLPUSH` and `SMOVE`
-/
namespace GoRedis
variable {F : Type} [Float64 F] {w : World} {s : MemoryStore F} {args : List Bytes}
  {src dst x : Bytes} {srcLeft dstLeft : Bool} {c : WriteCommand}
open MemoryStore

/-- The arguments of a move between lists: the two keys, and for each of them whether it is the
head. -/
inductive MoveArgs : WriteCommand → List Bytes → Bytes → Bytes → Bool → Bool → Prop
  | lmove {name src dst a b : Bytes} {srcLeft dstLeft : Bool} (ha : listEnd a=some srcLeft)
      (hb : listEnd b=some dstLeft) :
      MoveArgs .lmove [name,src,dst,a,b] src dst srcLeft dstLeft
  | rpoplpush {name src dst : Bytes} : MoveArgs .rpoplpush [name,src,dst] src dst false true

theorem execute_listMove (h : MoveArgs c args src dst srcLeft dstLeft) (w : World)
    (s : MemoryStore F) :
    execute w c args s=.ok (commit s optReply (s.lMove w.now src dst srcLeft dstLeft)) := by
  cases h with
  | lmove ha hb => simp only [execute,handleLMove,ha,hb]
  | rpoplpush => rfl

/-- A move between lists replies with an error or with nothing and changes nothing, or replies
with the element it has moved. -/
theorem dispatch_move_cases (h : MoveArgs c args src dst srcLeft dstLeft)
    (hc : commandOf args=some (.write c)) (w : World) (s : MemoryStore F) :
    ∃ d, dispatch w args s=.ok d ∧
      ((¬(s.listGuard w.now src=true ∧ s.listGuard w.now dst=true) ∧
          d.resp=.error StoreError.wrongType.text ∧ d.store=s) ∨
        (s.listGuard w.now src=true ∧ s.listGuard w.now dst=true) ∧
          (s.lists.getD src []=[] ∧ d.resp=.nullBulkString ∧ d.store=s ∨
            ∃ x rest, s.lists.getD src []=attach srcLeft x rest ∧ d.resp=.bulkString x ∧
              Moved s d.store src dst (.list rest)
                fun r => .list (attach dstLeft x (r.list.getD [])))) := by
  obtain ⟨d,hd,hresp,hstore⟩ := dispatch_of_execute hc (execute_listMove h w s)
  refine ⟨d,hd,?_⟩
  rcases lMove_cases s w.now src dst srcLeft dstLeft with
    ⟨hguard,hmove⟩ | ⟨hguard,⟨hnil,hmove⟩ | ⟨x,rest,s',hl,hmove,hmoved⟩⟩
  · rw [hmove] at hresp hstore
    exact .inl ⟨hguard,hresp,hstore⟩
  · rw [hmove] at hresp hstore
    exact .inr ⟨hguard,.inl ⟨hnil,hresp,hstore⟩⟩
  · rw [hmove] at hresp hstore
    refine .inr ⟨hguard,.inr ⟨x,rest,hl,hresp,?_⟩⟩
    rw [hstore]
    exact hmoved

theorem dispatch_smove_cases {name : Bytes}
    (hc : commandOf [name,src,dst,x]=some (.write .smove)) (w : World) (s : MemoryStore F) :
    ∃ d, dispatch w [name,src,dst,x] s=.ok d ∧
      ((¬(s.setGuard w.now src=true ∧ s.setGuard w.now dst=true) ∧
          d.resp=.error StoreError.wrongType.text ∧ d.store=s) ∨
        (s.setGuard w.now src=true ∧ s.setGuard w.now dst=true) ∧
          (x ∉ s.sets.getD src ∅ ∧ d.resp=.integer 0 ∧ d.store=s ∨
            x ∈ s.sets.getD src ∅ ∧ d.resp=.integer 1 ∧
              Moved s d.store src dst (.set ((s.sets.getD src ∅).erase x))
                fun r => .set ((r.set.getD ∅).insert x))) := by
  have hexec : execute w .smove [name,src,dst,x] s=
      .ok (commit s boolReply (s.sMove w.now src dst x)) := rfl
  obtain ⟨d,hd,hresp,hstore⟩ := dispatch_of_execute hc hexec
  refine ⟨d,hd,?_⟩
  rcases sMove_cases s w.now src dst x with
    ⟨hguard,hmove⟩ | ⟨hguard,⟨hx,hmove⟩ | ⟨hx,s',hmove,hmoved⟩⟩
  · rw [hmove] at hresp hstore
    exact .inl ⟨hguard,hresp,hstore⟩
  · rw [hmove] at hresp hstore
    exact .inr ⟨hguard,.inl ⟨hx,hresp,hstore⟩⟩
  · rw [hmove] at hresp hstore
    refine .inr ⟨hguard,.inr ⟨hx,hresp,?_⟩⟩
    rw [hstore]
    exact hmoved

/-- A move that replies with an element has moved it and nothing else, and any other reply means
that nothing has changed. -/
theorem moves_conserve (w : World) (s : MemoryStore F) :
    (∀ c args src dst srcLeft dstLeft, MoveArgs c args src dst srcLeft dstLeft →
      commandOf args=some (.write c) → s.keyExpiredNonStr w.now src=false →
      s.keyExpiredNonStr w.now dst=false →
      ∃ d, dispatch w args s=.ok d ∧
        ((∃ x rest, d.resp=.bulkString x ∧
          ListMoved w.now s d.store src dst srcLeft dstLeft x rest) ∨
        (∀ x, d.resp ≠ .bulkString x) ∧ d.store=s)) ∧
    (∀ name src dst x, commandOf [name,src,dst,x]=some (.write .smove) →
      s.keyExpiredNonStr w.now src=false → s.keyExpiredNonStr w.now dst=false →
      ∃ d, dispatch w [name,src,dst,x] s=.ok d ∧
        ((∃ st, d.resp=.integer 1 ∧ SetMoved w.now s d.store src dst x st) ∨
        d.resp ≠ .integer 1 ∧ d.store=s)) ∧
    ∀ c args d, c=.lmove ∨ c=.rpoplpush ∨ c=.smove → commandOf args=some (.write c) →
      dispatch w args s=.ok d → d.resp.isError=true → d.store=s := by
  refine ⟨?_,?_,?_⟩
  · intro c args src dst srcLeft dstLeft hargs hc hsrc hdst
    obtain ⟨d,hd,⟨_,hresp,hstore⟩ | ⟨hguard,⟨_,hresp,hstore⟩ | ⟨x,rest,hl,hresp,hmoved⟩⟩⟩ :=
      dispatch_move_cases hargs hc w s
    · refine ⟨d,hd,.inr ⟨fun x hx => ?_,hstore⟩⟩
      rw [hresp] at hx
      cases hx
    · refine ⟨d,hd,.inr ⟨fun x hx => ?_,hstore⟩⟩
      rw [hresp] at hx
      cases hx
    · exact ⟨d,hd,.inl ⟨x,rest,hresp,hmoved.list hguard hsrc hdst hl⟩⟩
  · intro name src dst x hc hsrc hdst
    obtain ⟨d,hd,⟨_,hresp,hstore⟩ | ⟨hguard,⟨_,hresp,hstore⟩ | ⟨hx,hresp,hmoved⟩⟩⟩ :=
      dispatch_smove_cases hc w s
    · refine ⟨d,hd,.inr ⟨fun hone => ?_,hstore⟩⟩
      rw [hresp] at hone
      cases hone
    · refine ⟨d,hd,.inr ⟨fun hone => ?_,hstore⟩⟩
      rw [hresp] at hone
      cases hone
    · exact ⟨d,hd,.inl ⟨_,hresp,hmoved.set hguard hsrc hdst hx⟩⟩
  · intro c args d _ hc hd he
    exact (execute_sound (execute_of_dispatch hc hd)).failed he

/-- A list of two elements is turned round. -/
theorem moves_conserve_rotation :
    let s : MemoryStore Int := MemoryStore.new.putList (utf8 "l") [utf8 "a",utf8 "b"]
    ∃ d rest, dispatch (World.plain 0) [utf8 "RPOPLPUSH",utf8 "l",utf8 "l"] s=.ok d ∧
      ListMoved 0 s d.store (utf8 "l") (utf8 "l") false true (utf8 "b") rest := by
  intro s
  have hrun : ∃ d, dispatch (World.plain 0) [utf8 "RPOPLPUSH",utf8 "l",utf8 "l"] s=.ok d ∧
      d.resp=.bulkString (utf8 "b") := ⟨_,rfl,rfl⟩
  obtain ⟨d,hd,hresp⟩ := hrun
  obtain ⟨d',hd',h⟩ := (moves_conserve (World.plain 0) s).1 .rpoplpush
    [utf8 "RPOPLPUSH",utf8 "l",utf8 "l"] (utf8 "l") (utf8 "l") false true .rpoplpush (by decide)
    (by decide) (by decide)
  rw [hd] at hd'
  cases hd'
  rcases h with ⟨x,rest,hx,hmoved⟩ | ⟨hno,_⟩
  · rw [hresp] at hx
    cases hx
    exact ⟨d,rest,hd,hmoved⟩
  · exact absurd hresp (hno _)

/-- From a key that is not there a move replies with nothing and changes nothing to be seen,
exactly when no list, or no set with the member, is left under the key in the maps, and the
destination is free or of the type. -/
theorem expired_moves_iff (w : World) (s : MemoryStore F) (src : Bytes)
    (hsrc : s.typeOf w.now src=none) :
    (∀ c args dst srcLeft dstLeft, MoveArgs c args src dst srcLeft dstLeft →
      commandOf args=some (.write c) →
      ((∃ d, dispatch w args s=.ok d ∧ d.resp=.nullBulkString ∧
        ∀ k, d.store.view w.now k=s.view w.now k) ↔
      s.lists.getD src []=[] ∧
        (s.typeOf w.now dst=none ∨ s.typeOf w.now dst=some .list))) ∧
    ∀ name dst x, commandOf [name,src,dst,x]=some (.write .smove) →
      ((∃ d, dispatch w [name,src,dst,x] s=.ok d ∧ d.resp=.integer 0 ∧
        ∀ k, d.store.view w.now k=s.view w.now k) ↔
      x ∉ s.sets.getD src ∅ ∧ (s.typeOf w.now dst=none ∨ s.typeOf w.now dst=some .set)) := by
  constructor
  · intro c args dst srcLeft dstLeft hargs hc
    have hguard : (s.listGuard w.now src=true ∧ s.listGuard w.now dst=true) ↔
        s.typeOf w.now dst=none ∨ s.typeOf w.now dst=some .list := by
      simp [listGuard,hsrc]
    rw [← hguard]
    obtain ⟨d,hd,⟨hno,hresp,_⟩ | ⟨hyes,⟨hnil,hresp,hstore⟩ | ⟨x,rest,hl,hresp,_⟩⟩⟩ :=
      dispatch_move_cases hargs hc w s
    all_goals simp only [hd,Except.ok.injEq,exists_eq_left',hresp]
    · exact iff_of_false (fun h => by cases h.1) fun h => hno h.2
    · refine iff_of_true ⟨trivial,fun k => ?_⟩ ⟨hnil,hyes⟩
      rw [hstore]
    · refine iff_of_false (fun h => by cases h.1) fun h => ?_
      rw [h.1] at hl
      exact attach_ne_nil _ _ _ hl.symm
  · intro name dst x hc
    have hguard : (s.setGuard w.now src=true ∧ s.setGuard w.now dst=true) ↔
        s.typeOf w.now dst=none ∨ s.typeOf w.now dst=some .set := by
      simp [setGuard,hsrc]
    rw [← hguard]
    obtain ⟨d,hd,⟨hno,hresp,_⟩ | ⟨hyes,⟨hx,hresp,hstore⟩ | ⟨hx,hresp,_⟩⟩⟩ :=
      dispatch_smove_cases hc w s
    all_goals simp only [hd,Except.ok.injEq,exists_eq_left',hresp]
    · exact iff_of_false (fun h => by cases h.1) fun h => hno h.2
    · refine iff_of_true ⟨trivial,fun k => ?_⟩ ⟨hx,hyes⟩
      rw [hstore]
    · exact iff_of_false (fun h => by cases h.1) fun h => h.1 hx

/-- A set that has expired but was not swept, as the source of a list move to a live list, and of
a member that it does not have. -/
theorem expired_moves_unswept :
    ∃ (s : MemoryStore Int) (d d' : Dispatched Int), Reachable s ∧
      s.typeOf 2000000 (utf8 "m")=none ∧ s.sets[utf8 "m"]?=some {utf8 "x"} ∧
      s.view 2000000 (utf8 "l")=some (.list [utf8 "a"],none) ∧
      dispatch (World.plain 2000000) [utf8 "RPOPLPUSH",utf8 "m",utf8 "l"] s=.ok d ∧
      d.resp=.nullBulkString ∧ (∀ k, d.store.view 2000000 k=s.view 2000000 k) ∧
      dispatch (World.plain 2000000) [utf8 "SMOVE",utf8 "m",utf8 "e",utf8 "y"] s=.ok d' ∧
      d'.resp=.integer 0 ∧ ∀ k, d'.store.view 2000000 k=s.view 2000000 k := by
  have hpush : Reachable (F := Int) _ :=
    .dispatch (World.plain 0) [utf8 "RPUSH",utf8 "l",utf8 "a"] .new rfl
  have hadd : Reachable (F := Int) _ :=
    .dispatch (World.plain 0) [utf8 "SADD",utf8 "m",utf8 "x"] hpush rfl
  have hexpire : Reachable (F := Int) _ :=
    .dispatch (World.plain 0) [utf8 "PEXPIRE",utf8 "m",utf8 "1"] hadd rfl
  obtain ⟨s,hs,hsrc,hset,hlist,hnil,hdst,hmem,hfree⟩ : ∃ s : MemoryStore Int, Reachable s ∧
      s.typeOf 2000000 (utf8 "m")=none ∧ s.sets[utf8 "m"]?=some {utf8 "x"} ∧
      s.view 2000000 (utf8 "l")=some (.list [utf8 "a"],none) ∧
      s.lists.getD (utf8 "m") []=[] ∧ s.typeOf 2000000 (utf8 "l")=some .list ∧
      utf8 "y" ∉ s.sets.getD (utf8 "m") ∅ ∧ s.typeOf 2000000 (utf8 "e")=none :=
    ⟨_,hexpire,rfl,rfl,rfl,rfl,rfl,by decide,rfl⟩
  obtain ⟨hmove,hsmove⟩ := expired_moves_iff (World.plain 2000000) s (utf8 "m") hsrc
  obtain ⟨d,hd,hresp,hview⟩ := (hmove .rpoplpush [utf8 "RPOPLPUSH",utf8 "m",utf8 "l"] (utf8 "l")
    false true .rpoplpush (by decide)).mpr ⟨hnil,.inr hdst⟩
  obtain ⟨d',hd',hresp',hview'⟩ :=
    (hsmove (utf8 "SMOVE") (utf8 "e") (utf8 "y") (by decide)).mpr ⟨hmem,.inl hfree⟩
  exact ⟨s,d,d',hs,hsrc,hset,hlist,hd,hresp,hview,hd',hresp',hview'⟩

/-- A list and a set that have expired but were not swept: an element of each turns up under
another key. -/
theorem expired_moves_revive :
    ∃ (s : MemoryStore Int) (d d' : Dispatched Int), Reachable s ∧
      s.typeOf 2000000 (utf8 "l")=none ∧ s.typeOf 2000000 (utf8 "m")=none ∧
      dispatch (World.plain 2000000) [utf8 "LMOVE",utf8 "l",utf8 "d",utf8 "LEFT",utf8 "LEFT"] s=
        .ok d ∧
      d.resp=.bulkString (utf8 "a") ∧ s.view 2000000 (utf8 "d")=none ∧
      d.store.view 2000000 (utf8 "d")=some (.list [utf8 "a"],none) ∧
      dispatch (World.plain 2000000) [utf8 "SMOVE",utf8 "m",utf8 "d",utf8 "x"] s=.ok d' ∧
      d'.resp=.integer 1 ∧ d'.store.getSet 2000000 (utf8 "d")=.ok (some {utf8 "x"}) := by
  have hpush : Reachable (F := Int) _ :=
    .dispatch (World.plain 0) [utf8 "RPUSH",utf8 "l",utf8 "a"] .new rfl
  have hadd : Reachable (F := Int) _ :=
    .dispatch (World.plain 0) [utf8 "SADD",utf8 "m",utf8 "x"] hpush rfl
  have hexpire : Reachable (F := Int) _ :=
    .dispatch (World.plain 0) [utf8 "PEXPIRE",utf8 "l",utf8 "1"] hadd rfl
  have hexpire' : Reachable (F := Int) _ :=
    .dispatch (World.plain 0) [utf8 "PEXPIRE",utf8 "m",utf8 "1"] hexpire rfl
  exact ⟨_,_,_,hexpire',rfl,rfl,rfl,rfl,rfl,rfl,rfl,rfl,rfl⟩

end GoRedis
