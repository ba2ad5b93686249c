import GoRedis.Commands.Acts
import GoRedis.Commands.Ranks
import GoRedis.Storage.ScoreUpdates
/-!
# `ZADD`
-/
namespace GoRedis
variable {F : Type} [Float64 F] {w : World} {s : MemoryStore F} {key : Bytes}

theorem answers_zscore {name x : Bytes} {z : Map F}
    (hc : commandOf [name,key,x]=some (.read .zscore)) (hz : s.getZSet w.now key=.ok (some z)) :
    Answers w [name,key,x] s (optReply (z[x]?.map formatScore)) := by
  rw [Answers,dispatch_read hc]
  simp only [answer,handleZScore,Maps.zScore,hz]
  rfl

theorem dispatch_zadd {name : Bytes} {rest : List Bytes} {ms : List (ZMember F)}
    (hc : commandOf (name::key::rest)=some (.write .zadd)) (hacc : zaddAccepts F rest)
    (hms : zaddMembers parseScore (zaddFlags rest {}).2=.ok ms)
    (htype : s.typeOf w.now key=none ∨ s.typeOf w.now key=some .zset) :
    ∃ d : Dispatched F, dispatch w (name::key::rest) s=.ok d ∧
      d.resp=.integer (ms.foldl (zAddMember (zaddFlags rest {}).1) (0,s.zsets.getD key ∅)).1 ∧
      d.store=(s.putZSet key (ms.foldl (zAddMember (zaddFlags rest {}).1)
        (0,s.zsets.getD key ∅)).2).bumpVersion key := by
  rw [dispatch_write hc]
  simp only [execute,handleZAdd_accepted hacc hms,MemoryStore.zAdd_eq htype,commit_ok]
  exact ⟨_,rfl,rfl,rfl⟩

/-- What `ZADD` leaves and replies, for a sorted set that is live or absent. -/
theorem zadd_update_law (w : World) (s : MemoryStore F) (name key : Bytes) (rest : List Bytes)
    (ms : List (ZMember F)) (hc : commandOf (name::key::rest)=some (.write .zadd))
    (hacc : zaddAccepts F rest) (hms : zaddMembers parseScore (zaddFlags rest {}).2=.ok ms)
    (hboth : ¬((zaddFlags rest {}).1.gt ∧ (zaddFlags rest {}).1.lt))
    (hold : s.getZSet w.now key=.ok s.zsets[key]?) (z : Map F) (hz : s.zsets.getD key ∅=z) :
    ∃ (d : Dispatched F) (z' : Map F) (n : Int),
      dispatch w (name::key::rest) s=.ok d ∧ d.resp=.integer n ∧ d.store.zsets[key]?=some z' ∧
      (∀ x ∈ ms.map ZMember.member,
        z'[x]?=(zaddFlags rest {}).1.finalScore z[x]? (listedScores ms x)) ∧
      (∀ x, x ∉ ms.map ZMember.member → z'[x]?=z[x]?) ∧
      ((zaddFlags rest {}).1.ch=false → n=z'.size-z.size) ∧
      ((zaddFlags rest {}).1.ch=true → (ms.map ZMember.member).Nodup →
        n=ms.countP fun m => z'[m.member]? ≠ z[m.member]?) ∧
      (s.keyExpiredNonStr w.now key=false → ∀ name' x,
        commandOf [name',key,x]=some (.read .zscore) →
        Answers w [name',key,x] d.store (optReply (z'[x]?.map formatScore))) := by
  have htype := Maps.typeOf_of_getZSet hold
  obtain ⟨d,hd,hresp,hstore⟩ := dispatch_zadd hc hacc hms htype
  rw [hz] at hresp hstore
  have hscore := foldl_zAddMember hacc.1 hboth ms (0,z)
  refine ⟨d,(ms.foldl (zAddMember (zaddFlags rest {}).1) (0,z)).2,_,hd,hresp,?_,?_,?_,?_,?_,?_⟩
  · rw [hstore]
    exact (Map.getElem?_insert _ _ _ _).trans (if_pos rfl)
  · intro x hx
    rw [hscore,if_pos hx]
  · intro x hx
    rw [hscore,if_neg hx]
  · intro hch
    have hsize := foldl_zAddMember_size hch ms (0,z)
    dsimp only at hsize
    omega
  · intro hch hd
    have hcount := (zAddMember_updates (zaddFlags rest {}).1).count_foldl Prod.fst
      (zAddMember_changed hch) hd (0,z)
    simpa using hcount
  · intro hexp name' x hc'
    apply answers_zscore hc'
    rw [hstore,MemoryStore.bumpVersion_toMaps,Maps.getZSet,
      MemoryStore.typeOf_putZSet htype hexp]
    exact congrArg _ ((Map.getElem?_insert _ _ _ _).trans (if_pos rfl))

/-- `ZADD z GT 3 a 1 a` over a score of 2: the largest one stays. -/
theorem zadd_update_law_gt :
    ∃ (d : Dispatched Int) (z' : Map Int),
      dispatch (World.plain 0) [utf8 "ZADD",utf8 "z",utf8 "GT",utf8 "3",utf8 "a",utf8 "1",utf8 "a"]
        (MemoryStore.new.putZSet (utf8 "z") ((∅ : Map Int).insert (utf8 "a") 2))=.ok d ∧
      d.store.zsets[utf8 "z"]?=some z' ∧ z'[utf8 "a"]?=some 3 := by
  obtain ⟨d,z',n,hd,_,hz',hlisted,_⟩ := zadd_update_law (World.plain 0)
    (MemoryStore.new.putZSet (utf8 "z") ((∅ : Map Int).insert (utf8 "a") 2)) (utf8 "ZADD")
    (utf8 "z") [utf8 "GT",utf8 "3",utf8 "a",utf8 "1",utf8 "a"] [⟨utf8 "a",3⟩,⟨utf8 "a",1⟩]
    (by decide) ⟨by decide,by decide,by decide,by decide,_,rfl⟩ rfl (by decide) (by decide) _ rfl
  refine ⟨d,z',hd,hz',?_⟩
  rw [hlisted (utf8 "a") (by decide)]
  decide

end GoRedis
