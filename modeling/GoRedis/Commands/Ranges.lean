import GoRedis.Commands.Ranks
import GoRedis.Persistence.Reachable
import GoRedis.Storage.Ranges
/-!
# Ranges of sorted sets: `ZRANGE`, `ZRANGEBYSCORE`, `ZRANGEBYLEX` and their reverses
-/
namespace GoRedis
variable {F : Type} [Float64 F] {w : World} {s : MemoryStore F} {key a b name : Bytes}
  {oz : Option (Map F)} {rest : List Bytes} {o : ZRangeOpts} {start stop : Int}

/-- The members from the highest to the lowest. -/
def descending (z : Map F) : List Bytes := ((sortedMembers z).map ZMember.member).reverse

theorem length_descending (z : Map F) : (descending z).length=z.size := by
  rw [descending,List.length_reverse,List.length_map,length_sortedMembers]

theorem replyOf_zRange_rev (hget : s.getZSet w.now key=.ok oz) (start stop : Int) :
    replyOf .bulks (s.zRange w.now key start stop true false)=.bulks
      (Slices.range start stop ((sortedMembers (oz.getD ∅)).map ZMember.member)).reverse := by
  rw [Maps.zRange_eq hget,if_pos rfl,Maps.withScores_false,Slices.range_map,← List.map_reverse]
  rfl

theorem answers_zrange_rev {rev : Bytes} (hc : commandOf [name,key,a,b,rev]=some (.read .zrange))
    (hrev : toUpper rev=utf8 "REV") (ha : parseInt a=some start) (hb : parseInt b=some stop)
    (hget : s.getZSet w.now key=.ok oz) : Answers w [name,key,a,b,rev] s (.bulks
      (Slices.range start stop ((sortedMembers (oz.getD ∅)).map ZMember.member)).reverse) := by
  have hopts : zrangeOptions [rev] {}=.ok { rev := true } := by
    simp only [zrangeOptions,zrangeFlag,hrev,if_true]
  have hrun : answer w .zrange [name,key,a,b,rev] s.toMaps=
      .ok (replyOf .bulks (s.zRange w.now key start stop true false)) := by
    simp only [answer,handleZRange,hopts,ha,hb]
    rfl
  rw [Answers,dispatch_read hc,hrun,replyOf_zRange_rev hget]
  rfl

theorem handleZRevRange_eq (ha : parseInt a=some start) (hb : parseInt b=some stop) (m : Maps F) :
    handleZRevRange w [name,key,a,b] m=
      replyOf .bulks (m.zRange w.now key start stop true false) := by
  unfold handleZRevRange
  dsimp only
  rw [ha,hb]

theorem answers_zrevrange (hc : commandOf [name,key,a,b]=some (.read .zrevrange))
    (ha : parseInt a=some start) (hb : parseInt b=some stop)
    (hget : s.getZSet w.now key=.ok oz) : Answers w [name,key,a,b] s (.bulks
      (Slices.range start stop ((sortedMembers (oz.getD ∅)).map ZMember.member)).reverse) := by
  have hrun : answer w .zrevrange [name,key,a,b] s.toMaps=
      .ok (replyOf .bulks (s.zRange w.now key start stop true false)) :=
    congrArg Except.ok (handleZRevRange_eq ha hb s.toMaps)
  rw [Answers,dispatch_read hc,hrun,replyOf_zRange_rev hget]
  rfl

theorem descending_zRevRank {x : Bytes} {r : Nat} (hget : s.getZSet w.now key=.ok oz)
    (h : s.zRevRank w.now key x=.ok (some r)) : (descending (oz.getD ∅))[r]?=some x := by
  cases oz with
  | none =>
    simp [Maps.zRevRank,hget,Except.map] at h
  | some z =>
    have hx : x ∈ z := by
      by_contra hx
      simp [Maps.zRevRank,hget,Except.map,hx] at h
    obtain ⟨i,hi⟩ := Maps.exists_zRank hget hx
    obtain ⟨hlt,hrev⟩ := Maps.zRevRank_of_zRank hget hi
    rw [hrev,Except.ok.injEq,Option.some.injEq] at h
    obtain ⟨e,he,rfl⟩ := (Maps.zRank_eq_some_iff hget).mp hi
    have hlen : ((sortedMembers z).map ZMember.member).length=z.size := by
      rw [List.length_map,length_sortedMembers]
    have hpos : ((sortedMembers z).map ZMember.member).length-1-r=i := by omega
    rw [Option.getD_some,descending,List.getElem?_reverse (by omega),hpos,List.getElem?_map,he]
    rfl

theorem answers_zrevrank_iff {x : Bytes} {r : Nat}
    (hc : commandOf [name,key,x]=some (.read .zrevrank)) :
    Answers w [name,key,x] s (.integer r) ↔ s.zRevRank w.now key x=.ok (some r) := by
  rw [Answers,dispatch_read hc]
  simp only [answer,handleZRevRank,handleRankOf,Except.map,Except.ok.injEq,Dispatched.mk.injEq,
    and_true]
  cases s.zRevRank w.now key x with
  | error e => simp [replyOf]
  | ok r => cases r <;> simp [replyOf]

/-- The reverse ranges cut the ascending order and turn the piece round: they take the range of
the descending order exactly when it lies in the middle. -/
theorem reverse_ranges_iff (w : World) (s : MemoryStore F) (key : Bytes) (oz : Option (Map F))
    (hget : s.getZSet w.now key=.ok oz) :
    (∀ name name' rev a b start stop, commandOf [name,key,a,b,rev]=some (.read .zrange) →
      toUpper rev=utf8 "REV" → commandOf [name',key,a,b]=some (.read .zrevrange) →
      parseInt a=some start → parseInt b=some stop →
      (Answers w [name,key,a,b,rev] s
          (.bulks (Slices.range start stop (descending (oz.getD ∅)))) ∧
        Answers w [name',key,a,b] s (.bulks (Slices.range start stop (descending (oz.getD ∅)))) ↔
        Slices.Centred start stop (oz.getD ∅).size)) ∧
    ∀ name name' x c (r : Nat), commandOf [name,key,x]=some (.read .zrevrank) →
      commandOf [name',key,c,c]=some (.read .zrevrange) → parseInt c=some (r:Int) →
      Answers w [name,key,x] s (.integer r) →
      (Answers w [name',key,c,c] s (.bulks [x]) ↔ 2*r+1=(oz.getD ∅).size) := by
  have hlen : ((sortedMembers (oz.getD ∅)).map ZMember.member).length=(oz.getD ∅).size := by
    rw [List.length_map,length_sortedMembers]
  have hturn := Slices.reverse_range_iff (sortedMembers_keys_nodup (oz.getD ∅))
  rw [hlen] at hturn
  constructor
  · intro name name' rev a b start stop hc hrev hc' ha hb
    rw [(answers_zrange_rev hc hrev ha hb hget).bulks_iff,
      (answers_zrevrange hc' ha hb hget).bulks_iff,and_self,descending,hturn]
  · intro name name' x c r hc hc' hr hrank
    have hx := descending_zRevRank hget ((answers_zrevrank_iff hc).mp hrank)
    have hlt : r < (oz.getD ∅).size := by
      rw [← length_descending]
      exact (List.getElem?_eq_some_iff.mp hx).1
    have hself : Slices.range r r (descending (oz.getD ∅))=[x] := by
      have hpos : Slices.position r (descending (oz.getD ∅)).length=r := if_neg (by omega)
      rw [Slices.range_self,hpos,if_pos (by omega),Int.toNat_natCast,hx]
      rfl
    rw [(answers_zrevrange hc' hr hr hget).bulks_iff,← hself,descending,hturn]
    unfold Slices.Centred Slices.first Slices.last Slices.position
    rw [if_neg (by omega)]
    omega

/-- The whole of three members is turned round as a whole. -/
theorem reverse_ranges_whole :
    ∃ s : MemoryStore Int, Answers (World.plain 0)
      [utf8 "ZREVRANGE",utf8 "z",utf8 "0",utf8 "-1"] s (.bulks [utf8 "c",utf8 "b",utf8 "a"]) := by
  let z : Map Int := (((∅ : Map Int).insert (utf8 "a") 1).insert (utf8 "b") 2).insert (utf8 "c") 3
  let s : MemoryStore Int := MemoryStore.new.putZSet (utf8 "z") z
  have hboth := (reverse_ranges_iff (World.plain 0) s (utf8 "z") (some z) (by decide)).1
    (utf8 "ZRANGE") (utf8 "ZREVRANGE") (utf8 "rev") (utf8 "0") (utf8 "-1") 0 (-1) (by decide)
    (by decide) (by decide) (by decide) (by decide)
  have hwhole := (hboth.mpr (by decide)).2
  exact ⟨s,hwhole.bulks_iff.mpr (by decide)⟩

/-- The member of reverse rank 0 is `c`; the reverse ranges from 0 to 0 reply with `a`. -/
theorem reverse_ranges_lowest :
    ∃ s : MemoryStore Int, Reachable s ∧
      Answers (World.plain 0) [utf8 "ZREVRANK",utf8 "z",utf8 "c"] s (.integer 0) ∧
      Answers (World.plain 0) [utf8 "ZREVRANGE",utf8 "z",utf8 "0",utf8 "0"] s
        (.bulks [utf8 "a"]) ∧
      Answers (World.plain 0) [utf8 "ZRANGE",utf8 "z",utf8 "0",utf8 "0",utf8 "REV"] s
        (.bulks [utf8 "a"]) := by
  refine ⟨_,.dispatch (World.plain 0) [utf8 "ZADD",utf8 "z",utf8 "1",utf8 "a",utf8 "2",utf8 "b",
    utf8 "3",utf8 "c"] .new rfl,?_,?_,?_⟩
  · rfl
  · rfl
  · rfl

theorem answers_byScore (title : String) (name : Bytes) {a b : Bytes} {x y : F × Bool} {r : Response}
    {range : Maps F → Int → Bytes → F → F → Bool → Bool → Bool → Int → Int →
      Except StoreError (List Bytes)}
    (hx : parseScoreBound a=some x) (hy : parseScoreBound b=some y)
    (ho : limitOptions rest {}=.ok o)
    (hr : replyOf .bulks (range s.toMaps w.now key x.1 y.1 x.2 y.2 o.scores o.offset o.count)=r) :
    handleByScore title range w (name::key::a::b::rest) s.toMaps=r := by
  simp only [handleByScore,hx,hy,ho]
  exact hr

theorem answers_zrangebyscore {min max : F × Bool}
    (hc : commandOf (name::key::a::b::rest)=some (.read .zrangebyscore))
    (ha : parseScoreBound a=some min) (hb : parseScoreBound b=some max)
    (ho : limitOptions rest {}=.ok o) (hget : s.getZSet w.now key=.ok oz) :
    Answers w (name::key::a::b::rest) s (.bulks (withScores o.scores
      (Slices.window o.offset.toNat o.count (scoresWithin (oz.getD ∅) min max)))) := by
  rw [Answers,dispatch_read hc]
  have hrun := answers_byScore "ZRANGEBYSCORE" name ha hb ho
    (congrArg (replyOf .bulks) (Maps.zRangeByScore_eq hget min max o.scores o.offset o.count))
  exact congrArg (fun r => Except.ok (Dispatched.mk r s [])) hrun

theorem answers_zrevrangebyscore {min max : F × Bool}
    (hc : commandOf (name::key::b::a::rest)=some (.read .zrevrangebyscore))
    (ha : parseScoreBound a=some min) (hb : parseScoreBound b=some max)
    (ho : limitOptions rest {}=.ok o) (hget : s.getZSet w.now key=.ok oz) :
    Answers w (name::key::b::a::rest) s (.bulks (withScores o.scores
      (Slices.window o.offset.toNat o.count (scoresWithin (oz.getD ∅) min max).reverse))) := by
  rw [Answers,dispatch_read hc]
  have hrun := answers_byScore "ZREVRANGEBYSCORE" name hb ha ho
    (congrArg (replyOf .bulks) (Maps.zRevRangeByScore_eq hget min max o.scores o.offset o.count))
  exact congrArg (fun r => Except.ok (Dispatched.mk r s [])) hrun

theorem answers_zcount {min max : F × Bool} (hc : commandOf [name,key,a,b]=some (.read .zcount))
    (ha : parseScoreBound a=some min) (hb : parseScoreBound b=some max)
    (hget : s.getZSet w.now key=.ok oz) :
    Answers w [name,key,a,b] s (.integer (scoresWithin (oz.getD ∅) min max).length) := by
  rw [Answers,dispatch_read hc]
  simp only [answer,handleZCount,ha,hb,Maps.zCount_eq hget]
  rfl

theorem limitOptions_noLimit (hno : utf8 "LIMIT" ∉ rest.map toUpper) {o o' : ZRangeOpts}
    (h : limitOptions rest o=.ok o') : o'.offset=o.offset ∧ o'.count=o.count := by
  induction rest generalizing o with
  | nil =>
    cases h
    exact ⟨rfl,rfl⟩
  | cons a rest ih =>
    rw [List.map_cons,List.mem_cons,not_or] at hno
    unfold limitOptions at h
    rw [if_neg (Ne.symm hno.1)] at h
    split_ifs at h
    · have hsame := ih hno.2 h
      exact hsame
    · exact ih hno.2 h

/-- The score ranges are windows of the members within the bounds, from either end; `ZCOUNT`
counts them. -/
theorem score_ranges_agree (w : World) (s : MemoryStore F) (key : Bytes) (oz : Option (Map F))
    (hget : s.getZSet w.now key=.ok oz) (a b : Bytes) (min max : F × Bool)
    (ha : parseScoreBound a=some min) (hb : parseScoreBound b=some max) :
    (scoresWithin (oz.getD ∅) min max).Pairwise zLess ∧
    (∀ e, e ∈ scoresWithin (oz.getD ∅) min max ↔
      (oz.getD ∅)[e.member]?=some e.score ∧ ScoreWithin min max e.score) ∧
    (∀ name rest o, commandOf (name::key::a::b::rest)=some (.read .zrangebyscore) →
      limitOptions rest {}=.ok o → 0 ≤ o.offset →
      Answers w (name::key::a::b::rest) s (.bulks (withScores o.scores
        (Slices.window o.offset.toNat o.count (scoresWithin (oz.getD ∅) min max))))) ∧
    (∀ name rest o, commandOf (name::key::b::a::rest)=some (.read .zrevrangebyscore) →
      limitOptions rest {}=.ok o → 0 ≤ o.offset →
      Answers w (name::key::b::a::rest) s (.bulks (withScores o.scores
        (Slices.window o.offset.toNat o.count (scoresWithin (oz.getD ∅) min max).reverse)))) ∧
    (∀ name name' name'' rest o, commandOf (name::key::a::b::rest)=some (.read .zrangebyscore) →
      commandOf (name'::key::b::a::rest)=some (.read .zrevrangebyscore) →
      commandOf [name'',key,a,b]=some (.read .zcount) → limitOptions rest {}=.ok o →
      utf8 "LIMIT" ∉ rest.map toUpper →
      ∃ es : List (ZMember F),
        Answers w (name::key::a::b::rest) s (.bulks (withScores o.scores es)) ∧
        Answers w (name'::key::b::a::rest) s (.bulks (withScores o.scores es.reverse)) ∧
        Answers w [name'',key,a,b] s (.integer es.length)) ∧
    (∀ es : List (ZMember F), withScores false es=es.map ZMember.member) ∧
    ∀ (es : List (ZMember F)) i e, es[i]?=some e →
      (withScores true es)[2*i]?=some e.member ∧
      (withScores true es)[2*i+1]?=some (formatScore e.score) := by
  refine ⟨scoresWithin_sorted _ min max,fun e => mem_scoresWithin,?_,?_,?_,Maps.withScores_false,
    fun es i e => withScores_true_getElem?⟩
  · intro name rest o hc ho _
    exact answers_zrangebyscore hc ha hb ho hget
  · intro name rest o hc ho _
    exact answers_zrevrangebyscore hc ha hb ho hget
  · intro name name' name'' rest o hc hc' hc'' ho hno
    obtain ⟨hoffset,hcount⟩ := limitOptions_noLimit hno ho
    have hup := answers_zrangebyscore hc ha hb ho hget
    have hdown := answers_zrevrangebyscore hc' ha hb ho hget
    rw [hoffset,hcount] at hup hdown
    exact ⟨scoresWithin (oz.getD ∅) min max,hup,hdown,answers_zcount hc'' ha hb hget⟩

/-- The second of two members above 1, from the top. -/
theorem score_ranges_agree_second :
    ∃ s : MemoryStore Int, Answers (World.plain 0) [utf8 "ZREVRANGEBYSCORE",utf8 "z",utf8 "9",
      utf8 "(1",utf8 "LIMIT",utf8 "1",utf8 "5"] s (.bulks [utf8 "b"]) := by
  let z : Map Int := (((∅ : Map Int).insert (utf8 "a") 1).insert (utf8 "b") 2).insert (utf8 "c") 3
  let s : MemoryStore Int := MemoryStore.new.putZSet (utf8 "z") z
  have hall := score_ranges_agree (World.plain 0) s (utf8 "z") (some z) (by decide) (utf8 "(1")
    (utf8 "9") (1,true) (9,false) (by decide) (by decide)
  have hrev := hall.2.2.2.1 (utf8 "ZREVRANGEBYSCORE") [utf8 "LIMIT",utf8 "1",utf8 "5"]
    { offset := 1,count := 5 } (by decide) rfl (by decide)
  exact ⟨s,hrev.bulks_iff.mpr (by decide)⟩

theorem answers_zrangebylex (hc : commandOf (name::key::a::b::rest)=some (.read .zrangebylex))
    (ho : limitOptions rest {}=.ok o) (hget : s.getZSet w.now key=.ok oz) :
    Answers w (name::key::a::b::rest) s (.bulks (Slices.window o.offset.toNat o.count
      (namesWithin (oz.getD ∅) (LexEnd.ofText a).asMin (LexEnd.ofText b).asMax))) := by
  rw [Answers,dispatch_read hc]
  simp only [answer,handleZRangeByLex,ho,Maps.zRangeByLex_eq hget]
  rfl

theorem answers_zlexcount (hc : commandOf [name,key,a,b]=some (.read .zlexcount))
    (hget : s.getZSet w.now key=.ok oz) : Answers w [name,key,a,b] s
      (.integer (namesWithin (oz.getD ∅) (LexEnd.ofText a).asMin
        (LexEnd.ofText b).asMax).length) := by
  rw [Answers,dispatch_read hc]
  simp only [answer,handleZLexCount,Maps.zLexCount,Maps.zRangeByLex_eq hget]
  rfl

theorem answers_zrevrangebylex
    (hc : commandOf (name::key::a::b::rest)=some (.read .zrevrangebylex))
    (ho : limitOptions rest {}=.ok o) (hget : s.getZSet w.now key=.ok oz) :
    Answers w (name::key::a::b::rest) s (.bulks (Slices.window o.offset.toNat o.count
      (namesWithin (oz.getD ∅) (LexEnd.ofText b).asMin (LexEnd.ofText a).asMax)).reverse) := by
  rw [Answers,dispatch_read hc]
  simp only [answer,handleZRevRangeByLex,ho,Maps.zRangeByLex_eq hget]
  rfl

theorem answers_zrange_bylex_rev (hc : commandOf (name::key::a::b::rest)=some (.read .zrange))
    (ho : zrangeOptions rest {}=.ok o) (hlex : o.byLex=true) (hrev : o.rev=true)
    (hget : s.getZSet w.now key=.ok oz) :
    Answers w (name::key::a::b::rest) s (.bulks (Slices.window o.offset.toNat o.count
      (namesWithin (oz.getD ∅) (LexEnd.ofText b).asMin (LexEnd.ofText a).asMax))) := by
  rw [Answers,dispatch_read hc]
  simp only [answer,handleZRange,ho,hlex,hrev,if_true,Maps.zRangeByLex_eq hget]
  rfl

/-- `ZRANGEBYLEX` replies with the members between the bounds, in order, and `ZLEXCOUNT` with
their number, exactly when `+` as the lower bound finds no member below the upper one and `-` as
the upper bound does not find the empty member. -/
theorem lex_interval_iff (w : World) (s : MemoryStore F) (key : Bytes) (oz : Option (Map F))
    (hget : s.getZSet w.now key=.ok oz) (hsame : SameScore (oz.getD ∅)) (min max : LexEnd)
    (name name' : Bytes)
    (hc : commandOf [name,key,min.text,max.text]=some (.read .zrangebylex))
    (hc' : commandOf [name',key,min.text,max.text]=some (.read .zlexcount)) :
    (∃ xs : List Bytes, Answers w [name,key,min.text,max.text] s (.bulks xs) ∧
      xs.Pairwise (fun x y => compare x y=.lt) ∧
      (∀ x, x ∈ xs ↔ x ∈ oz.getD ∅ ∧ min.Below x ∧ max.Above x) ∧
      Answers w [name',key,min.text,max.text] s (.integer xs.length)) ↔
    (min=.pos → ∀ x ∈ oz.getD ∅, ¬max.Above x) ∧
      (max=.neg → [] ∈ oz.getD ∅ → min ≠ .neg ∧ min ≠ .pos ∧ min ≠ .incl []) := by
  have hrange := answers_zrangebylex hc (rfl : limitOptions [] {}=.ok {}) hget
  have hcount := answers_zlexcount hc' hget
  simp only [LexEnd.ofText_text] at hrange hcount
  rw [← LexEnd.read_iff]
  constructor
  · rintro ⟨xs,hxs,_,hmem,_⟩ x hx
    have hlist := hrange.bulks_iff.mp hxs
    have hboth : x ∈ oz.getD ∅ ∧ LexEnd.Within min.asMin max.asMax x ↔
        x ∈ oz.getD ∅ ∧ LexEnd.Within min max x := by
      rw [← mem_namesWithin,← Slices.window_all (namesWithin _ _ _)]
      exact hlist ▸ hmem x
    simpa [hx] using hboth
  · intro hsound
    refine ⟨_,hrange,namesWithin_sorted hsame _ _,fun x => ?_,hcount⟩
    have hmem : x ∈ namesWithin (oz.getD ∅) min.asMin max.asMax ↔
        x ∈ oz.getD ∅ ∧ min.Below x ∧ max.Above x := by
      rw [mem_namesWithin]
      exact and_congr_right (hsound x)
    exact hmem

/-- From `-` to `[a`, the empty member included. -/
theorem lex_interval_closed :
    ∃ (s : MemoryStore Int) (xs : List Bytes), Answers (World.plain 0)
      [utf8 "ZRANGEBYLEX",utf8 "z",utf8 "-",utf8 "[a"] s (.bulks xs) ∧ [] ∈ xs ∧
      utf8 "b" ∉ xs := by
  let z : Map Int := (((∅ : Map Int).insert [] 0).insert (utf8 "a") 0).insert (utf8 "b") 0
  let s : MemoryStore Int := MemoryStore.new.putZSet (utf8 "z") z
  have hz : ∀ (x : Bytes) (y : Int), z[x]?=some y → y=0 := by
    intro x y h
    simp only [z,Map.getElem?_insert] at h
    split_ifs at h <;> simp_all
  have hsame : SameScore z := fun x y a b ha hb => (hz x a ha).trans (hz y b hb).symm
  obtain ⟨xs,hxs,_,hmem,_⟩ := (lex_interval_iff (World.plain 0) s (utf8 "z") (some z) (by decide)
    hsame .neg (.incl (utf8 "a")) (utf8 "ZRANGEBYLEX") (utf8 "ZLEXCOUNT") (by decide)
    (by decide)).mpr ⟨nofun,nofun⟩
  refine ⟨s,xs,hxs,(hmem []).mpr (by decide),?_⟩
  rw [hmem]
  decide

/-- `+` as the lower bound and `-` as the upper one let members through. -/
theorem lex_interval_misread :
    ∃ s : MemoryStore Int, Reachable s ∧
      Answers (World.plain 0) [utf8 "ZRANGEBYLEX",utf8 "z",utf8 "+",utf8 "+"] s
        (.bulks [[],utf8 "a"]) ∧
      Answers (World.plain 0) [utf8 "ZLEXCOUNT",utf8 "z",utf8 "+",utf8 "[a"] s (.integer 2) ∧
      Answers (World.plain 0) [utf8 "ZRANGEBYLEX",utf8 "z",utf8 "-",utf8 "-"] s (.bulks [[]]) := by
  refine ⟨_,.dispatch (World.plain 0) [utf8 "ZADD",utf8 "z",utf8 "0",[],utf8 "0",utf8 "a"]
    .new rfl,?_,?_,?_⟩
  · rfl
  · rfl
  · rfl

/-- `ZREVRANGEBYLEX` applies `LIMIT` before it turns the members round, `ZRANGE` with `BYLEX` and
`REV` does not turn them round at all. Both reply with the window of the descending members exactly
when it is empty or the single member in the middle. -/
theorem reverse_lex_iff (w : World) (s : MemoryStore F) (key : Bytes) (oz : Option (Map F))
    (hget : s.getZSet w.now key=.ok oz) (hsame : SameScore (oz.getD ∅)) (name name' max min : Bytes)
    (rest rest' : List Bytes) (o o' : ZRangeOpts)
    (hc : commandOf (name::key::max::min::rest)=some (.read .zrevrangebylex))
    (hc' : commandOf (name'::key::max::min::rest')=some (.read .zrange))
    (ho : limitOptions rest {}=.ok o) (ho' : zrangeOptions rest' {}=.ok o')
    (hlex : o'.byLex=true) (hrev : o'.rev=true) (offset : Nat) (hoffset : o.offset=offset)
    (hoffset' : o'.offset=offset) (hcount : o'.count=o.count) :
    (∃ xs : List Bytes, xs.Pairwise (fun x y => compare x y=.gt) ∧
      (∀ x, x ∈ xs ↔
        x ∈ oz.getD ∅ ∧ (LexEnd.ofText min).Below x ∧ (LexEnd.ofText max).Above x) ∧
      Answers w (name::key::max::min::rest) s (.bulks (Slices.window offset o.count xs)) ∧
      Answers w (name'::key::max::min::rest') s (.bulks (Slices.window offset o.count xs))) ↔
    ((oz.getD ∅).keys.countP fun x =>
        LexEnd.Within (LexEnd.ofText min).asMin (LexEnd.ofText max).asMax x) ≤ offset ∨
      o.count=0 ∨
      LexEnd.ofText min ≠ .pos ∧ LexEnd.ofText max ≠ .neg ∧
        ((oz.getD ∅).keys.countP fun x =>
          LexEnd.Within (LexEnd.ofText min) (LexEnd.ofText max) x)=2*offset+1 ∧
        (o.count=1 ∨ offset=0) := by
  have hdown := answers_zrevrangebylex hc ho hget
  have hup := answers_zrange_bylex_rev hc' ho' hlex hrev hget
  rw [hoffset,Int.toNat_natCast] at hdown
  rw [hoffset',hcount,Int.toNat_natCast] at hup
  generalize LexEnd.ofText min=lo at *
  generalize LexEnd.ofText max=hi at *
  -- the list is unique, so this is about the windows of what is and what should be collected
  have hwindows : (∃ xs : List Bytes, xs.Pairwise (fun x y => compare x y=.gt) ∧
      (∀ x, x ∈ xs ↔ x ∈ oz.getD ∅ ∧ lo.Below x ∧ hi.Above x) ∧
      Answers w (name::key::max::min::rest) s (.bulks (Slices.window offset o.count xs)) ∧
      Answers w (name'::key::max::min::rest') s (.bulks (Slices.window offset o.count xs))) ↔
      (Slices.window offset o.count (namesWithin (oz.getD ∅) lo.asMin hi.asMax)).reverse=
        Slices.window offset o.count (namesWithin (oz.getD ∅) lo hi).reverse ∧
      Slices.window offset o.count (namesWithin (oz.getD ∅) lo.asMin hi.asMax)=
        Slices.window offset o.count (namesWithin (oz.getD ∅) lo hi).reverse := by
    simp only [hdown.bulks_iff,hup.bulks_iff]
    constructor
    · rintro ⟨xs,hxs,hmem,hboth⟩
      rwa [eq_reverse_namesWithin hsame hxs hmem] at hboth
    · intro hboth
      refine ⟨_,reverse_namesWithin_sorted hsame lo hi,fun x => ?_,hboth⟩
      rw [List.mem_reverse,mem_namesWithin,LexEnd.Within]
  rw [hwindows,← length_namesWithin,← length_namesWithin]
  by_cases hread : lo=.pos ∨ hi=.neg
  · have hnil : Slices.window offset o.count ([] : List Bytes)=[] :=
      Slices.window_eq_nil_iff.mpr (.inl (Nat.zero_le _))
    rw [namesWithin_eq_nil hread,List.reverse_nil,hnil,List.reverse_eq_nil_iff,and_self,
      Slices.window_eq_nil_iff]
    constructor
    · exact Or.imp_right .inl
    · rintro (hfew | hnone | ⟨hlo,hhi,_⟩)
      · exact .inl hfew
      · exact .inr hnone
      · exact absurd hread (not_or.mpr ⟨hlo,hhi⟩)
  · rw [not_or] at hread
    rw [LexEnd.asMin_of_ne hread.1,LexEnd.asMax_of_ne hread.2,and_comm,
      Slices.window_reverse_iff (namesWithin_nodup _ lo hi)]
    simp only [ne_eq,hread.1,hread.2,not_false_eq_true,true_and]

/-- One member between the bounds, from the first one on. -/
theorem reverse_lex_single :
    ∃ s : MemoryStore Int, Answers (World.plain 0)
      [utf8 "ZREVRANGEBYLEX",utf8 "z",utf8 "[b",utf8 "(a"] s (.bulks [utf8 "b"]) := by
  let z : Map Int := (((∅ : Map Int).insert (utf8 "a") 0).insert (utf8 "b") 0).insert (utf8 "c") 0
  let s : MemoryStore Int := MemoryStore.new.putZSet (utf8 "z") z
  have hz : ∀ (x : Bytes) (y : Int), z[x]?=some y → y=0 := by
    intro x y h
    simp only [z,Map.getElem?_insert] at h
    split_ifs at h <;> simp_all
  have hsame : SameScore z := fun x y a b ha hb => (hz x a ha).trans (hz y b hb).symm
  obtain ⟨xs,hxs,hmem,hrange,_⟩ := (reverse_lex_iff (World.plain 0) s (utf8 "z") (some z)
    (by decide) hsame (utf8 "ZREVRANGEBYLEX") (utf8 "ZRANGE") (utf8 "[b") (utf8 "(a") []
    [utf8 "BYLEX",utf8 "REV"] {} { byLex := true,rev := true } (by decide) (by decide) rfl rfl rfl
    rfl 0 rfl rfl rfl).mpr (.inr (.inr ⟨by decide,by decide,by decide,.inr rfl⟩))
  rw [eq_reverse_namesWithin hsame hxs hmem] at hrange
  exact ⟨s,hrange.bulks_iff.mpr (by decide)⟩

/-- Of three members, the first of the descending order is `c`: both commands reply with `a`.
With nothing left out, `ZRANGE` replies in ascending order. -/
theorem reverse_lex_ascending :
    ∃ s : MemoryStore Int, Reachable s ∧
      Answers (World.plain 0) [utf8 "ZREVRANGEBYLEX",utf8 "z",utf8 "+",utf8 "-",utf8 "LIMIT",
        utf8 "0",utf8 "1"] s (.bulks [utf8 "a"]) ∧
      Answers (World.plain 0) [utf8 "ZRANGE",utf8 "z",utf8 "+",utf8 "-",utf8 "BYLEX",utf8 "REV",
        utf8 "LIMIT",utf8 "0",utf8 "1"] s (.bulks [utf8 "a"]) ∧
      Answers (World.plain 0) [utf8 "ZREVRANGEBYLEX",utf8 "z",utf8 "+",utf8 "-",utf8 "LIMIT",
        utf8 "0",utf8 "-1"] s (.bulks [utf8 "c",utf8 "b",utf8 "a"]) ∧
      Answers (World.plain 0) [utf8 "ZRANGE",utf8 "z",utf8 "+",utf8 "-",utf8 "BYLEX",utf8 "REV",
        utf8 "LIMIT",utf8 "0",utf8 "-1"] s (.bulks [utf8 "a",utf8 "b",utf8 "c"]) := by
  refine ⟨_,.dispatch (World.plain 0) [utf8 "ZADD",utf8 "z",utf8 "0",utf8 "a",utf8 "0",utf8 "b",
    utf8 "0",utf8 "c"] .new rfl,?_,?_,?_,?_⟩
  · rfl
  · rfl
  · rfl
  · rfl

end GoRedis
