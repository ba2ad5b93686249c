import GoRedis.Commands.ListRanges
/-!
# `LPOS`

The scan from the head is a window of the positions of the value. The scan from the tail is meant
to be its mirror image, but `MAXLEN` cuts the list at the same end.
-/
namespace GoRedis
variable {F : Type} [Float64 F] {w : World} {s : MemoryStore F} {key name x : Bytes}
  {opts l : List Bytes} {o : LPosOpts}

namespace LPosOpts

/-- How many matches are asked for; a negative number stands for all. -/
def limit (o : LPosOpts) : Int :=
  if o.hasCount then (if o.count=0 then -1 else o.count) else 1

/-- How many of `n` elements are scanned. -/
def scanned (o : LPosOpts) (n : Nat) : Nat := if o.maxlen=0 then n else min o.maxlen.toNat n

end LPosOpts

/-- What `LPOS` is for: the `r`-th and the following positions of the value among the elements
that are scanned from the head, as many as are asked for. -/
def matchesFrom (o : LPosOpts) (r : Int) (x : Bytes) (l : List Bytes) : List Nat :=
  Slices.window (r-1).toNat o.limit ((l.take (o.scanned l.length)).idxsOf x)

/-- The reply with `COUNT` and without. -/
def lposReply (hasCount : Bool) (ps : List Nat) : Response :=
  if hasCount then .array (ps.map fun i : Nat => .integer i)
  else (ps.head?.map fun i : Nat => Response.integer i).getD .nullBulkString

/-- A list command reads the list `l` under the key, the empty list when the key is absent. -/
def Maps.HoldsList (now : Int) (m : Maps F) (key : Bytes) (l : List Bytes) : Prop :=
  ∃ ol, m.getList now key=.ok ol ∧ ol.getD []=l

theorem lposLoop_eq (target : Bytes) (rank : Int) (hasCount : Bool) (count : Int) (seen : Int)
    (found : Nat) (ps : List (Nat × Bytes))
    (hfound : hasCount=true ∧ 0 < count → (found:Int) < count) :
    lposLoop target rank hasCount count seen found ps=
      Slices.window (rank-1-seen).toNat (if hasCount=true ∧ 0 < count then count-found else -1)
        ((ps.filter fun p => p.2=target).map Prod.fst) := by
  induction ps generalizing seen found with
  | nil =>
    rw [lposLoop]
    exact (Slices.window_eq_nil_iff.mpr (.inl (Nat.zero_le _))).symm
  | cons p ps ih =>
    obtain ⟨i,v⟩ := p
    rw [lposLoop]
    by_cases hv : v=target
    · rw [if_pos hv,List.filter_cons_of_pos (by simpa using hv),List.map_cons]
      by_cases hrank : rank ≤ seen+1
      · -- the match counts, and may be the last one asked for
        have hzero : (rank-1-seen).toNat=0 := by omega
        have hzero' : (rank-1-(seen+1)).toNat=0 := by omega
        rw [if_pos hrank,hzero]
        by_cases hlim : hasCount=true ∧ 0 < count
        · have hlt := hfound hlim
          have hpos : ¬count-found < 0 := by omega
          rw [if_pos hlim,Slices.window_zero_cons (by omega),if_neg hpos]
          by_cases hlast : count ≤ found+1
          · have hnone : count-found-1=0 := by omega
            rw [if_pos ⟨hlim.1,hlim.2,hlast⟩,hnone]
            rfl
          · rw [if_neg (fun h => hlast h.2.2),ih (seen+1) (found+1) (fun _ => by omega),
              if_pos hlim,hzero']
            have hcast : count-(found+1:Nat)=count-found-1 := by omega
            rw [hcast]
        · rw [if_neg (fun h => hlim ⟨h.1,h.2.1⟩),if_neg hlim,
            Slices.window_zero_cons (by decide),if_pos (by decide),
            ih (seen+1) (found+1) (fun h => absurd h hlim),if_neg hlim,hzero']
      · have hsucc : (rank-1-seen).toNat=(rank-1-(seen+1)).toNat+1 := by omega
        rw [if_neg hrank,ih (seen+1) found hfound,hsucc,Slices.window_succ_cons]
    · rw [if_neg hv,List.filter_cons_of_neg (by simpa using hv),ih seen found hfound]

theorem filter_zip_range (x : Bytes) (l : List Bytes) :
    (((List.range l.length).zip l).filter fun p => p.2=x).map Prod.fst=l.idxsOf x := by
  have hstart : ∀ start, (((List.range' start l.length).zip l).filter fun p => p.2=x).map
      Prod.fst=l.idxsOf x start := by
    induction l with
    | nil => exact fun _ => rfl
    | cons v l ih =>
      intro start
      rw [List.length_cons,List.range'_succ,List.zip_cons_cons,List.idxsOf_cons]
      by_cases hv : v=x
      · rw [List.filter_cons_of_pos (by simpa using hv),List.map_cons,ih,if_pos (by simpa using hv)]
      · rw [List.filter_cons_of_neg (by simpa using hv),ih,if_neg (by simpa using hv)]
  rw [List.range_eq_range']
  exact hstart 0

theorem lposPositions_eq (hmax : 0 ≤ o.maxlen) (hrank : InInt64 o.rank) (hleast : o.rank ≠ -2^63)
    (x : Bytes) (l : List Bytes) :
    lposPositions x o l=Slices.window (o.rank.natAbs-1)
      (if o.hasCount=true ∧ 0 < o.count then o.count else -1)
      (if 0 ≤ o.rank then (l.take (o.scanned l.length)).idxsOf x
        else ((l.take (o.scanned l.length)).idxsOf x).reverse) := by
  have hcut : (if 0 < o.maxlen ∧ o.maxlen < l.length then o.maxlen.toNat else l.length)=
      o.scanned l.length := by
    unfold LPosOpts.scanned
    by_cases hzero : o.maxlen=0
    · rw [if_pos hzero,if_neg (by omega)]
    · rw [if_neg hzero]
      by_cases hlong : o.maxlen < l.length
      · rw [if_pos (by omega)]
        omega
      · rw [if_neg (by omega)]
        omega
  have hlen : (l.take (o.scanned l.length)).length=o.scanned l.length := by
    rw [List.length_take,LPosOpts.scanned]
    split <;> omega
  have hmatches := filter_zip_range x (l.take (o.scanned l.length))
  rw [hlen] at hmatches
  unfold lposPositions
  simp only [hcut]
  by_cases hsign : 0 ≤ o.rank
  · have hoff : (o.rank-1-0).toNat=o.rank.natAbs-1 := by omega
    rw [if_pos hsign,if_pos hsign,lposLoop_eq _ _ _ _ _ _ _ (fun h => by simpa using h.2),hmatches,
      hoff,Int.natCast_zero,Int.sub_zero]
  · have hneg : wrap64 (-o.rank)=-o.rank := by
      apply wrap64_of_inInt64
      unfold InInt64 at hrank ⊢
      omega
    have hoff : (-o.rank-1-0).toNat=o.rank.natAbs-1 := by omega
    rw [if_neg hsign,if_neg hsign,hneg,lposLoop_eq _ _ _ _ _ _ _ (fun h => by simpa using h.2),
      List.filter_reverse,List.map_reverse,hmatches,hoff,Int.natCast_zero,Int.sub_zero]

theorem lposReply_limit (hcount : 0 ≤ o.count) (offset : Nat) (ps : List Nat) :
    lposReply o.hasCount (Slices.window offset
      (if o.hasCount=true ∧ 0 < o.count then o.count else -1) ps)=
      lposReply o.hasCount (Slices.window offset o.limit ps) := by
  unfold LPosOpts.limit
  cases hhas : o.hasCount with
  | true =>
    by_cases hzero : o.count=0
    · simp [hzero]
    · have hpos : 0 < o.count := by omega
      simp [hzero,hpos]
  | false =>
    have hhead : (Slices.window offset (-1) ps).head?=(Slices.window offset 1 ps).head? := by
      simp [Slices.window,List.head?_take]
    simp only [lposReply,Bool.false_eq_true,false_and,if_false,hhead]

theorem lposReply_eq_iff {hasCount : Bool} {ps qs : List Nat} :
    lposReply hasCount ps=lposReply hasCount qs ↔
      if hasCount then ps=qs else ps.head?=qs.head? := by
  have hinj : Function.Injective fun i : Nat => Response.integer i := by
    intro i j h
    injection h with h
    exact Int.ofNat_inj.mp h
  cases hasCount with
  | true =>
    show Response.array _=.array _ ↔ ps=qs
    rw [Response.array.injEq]
    exact hinj.list_map.eq_iff
  | false =>
    show (ps.head?.map _).getD _=(qs.head?.map _).getD _ ↔ ps.head?=qs.head?
    cases ps.head? <;> cases qs.head? <;> simp

theorem lposReply_map {hasCount : Bool} {ps qs : List Nat} (f : Nat → Nat)
    (h : lposReply hasCount ps=lposReply hasCount qs) :
    lposReply hasCount (ps.map f)=lposReply hasCount (qs.map f) := by
  rw [lposReply_eq_iff] at h ⊢
  cases hasCount with
  | true => exact congrArg (List.map f) h
  | false =>
    have h : ps.head?=qs.head? := h
    show (ps.map f).head?=(qs.map f).head?
    rw [List.head?_map,List.head?_map,h]

theorem lposReply_window_iff {offset offset' : Nat} {ps qs : List Nat} (f : Nat → Nat) :
    lposReply o.hasCount (Slices.window offset o.limit ps)=
        lposReply o.hasCount ((Slices.window offset' o.limit qs).map f) ↔
      Slices.window offset o.limit ps=(Slices.window offset' o.limit qs).map f := by
  rw [lposReply_eq_iff]
  cases hhas : o.hasCount with
  | true => rfl
  | false =>
    have hone : o.limit=1 := by rw [LPosOpts.limit,hhas]; rfl
    have hshort : ∀ (k : Nat) (l : List Nat), Slices.window k 1 l=l[k]?.toList := by
      intro k l
      show (l.drop k).take 1=l[k]?.toList
      rw [List.take_one,List.head?_drop]
    rw [hone,hshort,hshort]
    cases ps[offset]? <;> cases qs[offset']? <;> simp

theorem lposOptions_ok {o₀ : LPosOpts} (h : lposOptions opts o₀=.ok o)
    (h₀ : o₀.rank ≠ 0 ∧ InInt64 o₀.rank ∧ 0 ≤ o₀.count ∧ 0 ≤ o₀.maxlen) :
    o.rank ≠ 0 ∧ InInt64 o.rank ∧ 0 ≤ o.count ∧ 0 ≤ o.maxlen := by
  have hparse : ∀ {v : Bytes} {n : Int} {P : Int → Prop} [DecidablePred P],
      (parseInt v).filter (fun n => P n)=some n → InInt64 n ∧ P n := by
    intro v n P _ hn
    have hn := Option.filter_eq_some_iff.mp hn
    exact ⟨parseInt_inInt64 hn.1,of_decide_eq_true hn.2⟩
  fun_induction lposOptions opts o₀ with
  | case1 =>
    cases h
    exact h₀
  | case4 a o _ v rest n hn ih => exact ih h ⟨(hparse hn).2,(hparse hn).1,h₀.2.2⟩
  | case7 a o _ _ v rest n hn ih => exact ih h ⟨h₀.1,h₀.2.1,(hparse hn).2,h₀.2.2.2⟩
  | case10 a o _ _ _ v rest n hn ih => exact ih h ⟨h₀.1,h₀.2.1,h₀.2.2.1,(hparse hn).2⟩
  | _ => cases h

theorem answers_lpos (hl : s.HoldsList w.now key l)
    (hc : commandOf (name::key::x::opts)=some (.read .lpos)) (ho : lposOptions opts {}=.ok o) :
    Answers w (name::key::x::opts) s (lposReply o.hasCount (lposPositions x o l)) := by
  obtain ⟨ol,hl,rfl⟩ := hl
  rw [Answers,dispatch_read hc]
  simp only [answer,handleLPos,ho,Maps.lRange_eq hl,Slices.range_all,replyOf,lposReply]
  cases o.hasCount with
  | true =>
    simp only [List.bind_eq_flatMap,List.pure_def,← List.map_eq_flatMap,List.map_map]
    rfl
  | false => cases lposPositions x o (ol.getD []) <;> rfl

theorem answers_lpos_forward (hl : s.HoldsList w.now key l)
    (hc : commandOf (name::key::x::opts)=some (.read .lpos)) (ho : lposOptions opts {}=.ok o)
    (hpos : 0 < o.rank) :
    Answers w (name::key::x::opts) s
      (lposReply o.hasCount (matchesFrom o o.rank x l)) := by
  have hok := lposOptions_ok ho (by decide)
  have h := answers_lpos hl hc ho
  have hoff : o.rank.natAbs-1=(o.rank-1).toNat := by omega
  rwa [lposPositions_eq hok.2.2.2 hok.2.1 (by omega),lposReply_limit hok.2.2.1,if_pos hpos.le,
    hoff] at h

theorem answers_lpos_backward (hl : s.HoldsList w.now key l)
    (hc : commandOf (name::key::x::opts)=some (.read .lpos)) (ho : lposOptions opts {}=.ok o)
    (hneg : o.rank < 0) (hleast : o.rank ≠ -2^63) :
    Answers w (name::key::x::opts) s (lposReply o.hasCount (Slices.window (-o.rank-1).toNat o.limit
      ((l.take (o.scanned l.length)).idxsOf x).reverse)) := by
  have hok := lposOptions_ok ho (by decide)
  have h := answers_lpos hl hc ho
  have hoff : o.rank.natAbs-1=(-o.rank-1).toNat := by omega
  rwa [lposPositions_eq hok.2.2.2 hok.2.1 hleast,lposReply_limit hok.2.2.1,if_neg (by omega),
    hoff] at h

/-- `LPOS` counts the matches among the first `MAXLEN` elements from the head. With a negative
`RANK` it is the mirror image of the scan of the reversed list exactly when neither of the two ends
of `MAXLEN` elements has enough matches, or there is no match beyond the first `MAXLEN` elements and
either none before the last `MAXLEN` elements or so many among these that no other is asked for. -/
theorem lpos_symmetric_iff (w : World) (s : MemoryStore F) (key : Bytes) (l : List Bytes)
    (name x : Bytes) (opts : List Bytes) (o : LPosOpts) (hl : s.HoldsList w.now key l)
    (hc : commandOf (name::key::x::opts)=some (.read .lpos)) (ho : lposOptions opts {}=.ok o) :
    (0 < o.rank →
      Answers w (name::key::x::opts) s (lposReply o.hasCount (matchesFrom o o.rank x l))) ∧
    ∀ (w' : World) (s' : MemoryStore F) (key' name' : Bytes) (opts' : List Bytes) (ps : List Nat)
      (k : Nat), o.rank < 0 → k=o.scanned l.length → s'.HoldsList w'.now key' l.reverse →
      commandOf (name'::key'::x::opts')=some (.read .lpos) →
      lposOptions opts' {}=.ok { o with rank := -o.rank } →
      Answers w' (name'::key'::x::opts') s' (lposReply o.hasCount ps) →
      (Answers w (name::key::x::opts) s (lposReply o.hasCount (ps.map fun p => l.length-1-p)) ↔
        (l.take k).count x < -o.rank ∧ (l.drop (l.length-k)).count x < -o.rank ∨
          x ∉ l.drop k ∧ (x ∉ l.take (l.length-k) ∨
            0 < o.limit ∧ -o.rank-1+o.limit ≤ (l.drop (l.length-k)).count x)) := by
  constructor
  · exact answers_lpos_forward hl hc ho
  intro w' s' key' name' opts' ps k hneg hk hl' hc' ho' hps
  have hrank := (lposOptions_ok ho' (by decide)).2.1.2
  have hcount := (lposOptions_ok ho (by decide)).2.2.1
  dsimp only at hrank
  have hforward := answers_lpos_forward hl' hc' ho' (by dsimp only; omega)
  have hback := answers_lpos_backward hl hc ho hneg (by omega)
  rw [hforward.iff_eq] at hps
  rw [hback.iff_eq,← lposReply_map _ hps,matchesFrom,List.length_reverse]
  have hlimit : o.limit ≠ 0 := by
    unfold LPosOpts.limit
    split_ifs <;> omega
  have hle : ∀ m : Nat, m ≤ (-o.rank-1).toNat ↔ (m:Int) < -o.rank := by omega
  have hoff : (((-o.rank-1).toNat:Nat):Int)=-o.rank-1 := by omega
  have hmirror := Slices.window_mirror_iff (l := l) (· == x) k (-o.rank-1).toNat hlimit
  rw [hle,hle,hoff] at hmirror
  subst hk
  rw [← List.count_eq_zero,← List.count_eq_zero]
  exact (lposReply_window_iff _).trans hmirror

/-- From the head the first `a` is found, and from the tail the last one, where the scan of the
reversed list finds it. -/
theorem lpos_symmetric_ends :
    let s : MemoryStore Int := MemoryStore.new.putList (utf8 "l") [utf8 "a",utf8 "b",utf8 "a"]
    Answers (World.plain 0) [utf8 "LPOS",utf8 "l",utf8 "a",utf8 "RANK",utf8 "1"] s (.integer 0) ∧
      Answers (World.plain 0) [utf8 "LPOS",utf8 "l",utf8 "a",utf8 "RANK",utf8 "-1"] s
        (.integer 2) := by
  intro s
  have hforward := (lpos_symmetric_iff (World.plain 0) s (utf8 "l") [utf8 "a",utf8 "b",utf8 "a"]
    (utf8 "LPOS") (utf8 "a") [utf8 "RANK",utf8 "1"] { rank := 1 } ⟨_,rfl,rfl⟩ (by decide)
    rfl).1 (by decide)
  refine ⟨hforward,?_⟩
  exact ((lpos_symmetric_iff (World.plain 0) s (utf8 "l") [utf8 "a",utf8 "b",utf8 "a"]
    (utf8 "LPOS") (utf8 "a") [utf8 "RANK",utf8 "-1"] { rank := -1 } ⟨_,rfl,rfl⟩ (by decide)
    rfl).2 (World.plain 0) s (utf8 "l") (utf8 "LPOS") [utf8 "RANK",utf8 "1"] [0] 3
    (by decide) (by decide) ⟨_,rfl,rfl⟩ (by decide) rfl hforward).mpr (.inr (by decide))

/-- With `MAXLEN 1` the scan from the tail finds the first element of the list. -/
theorem lpos_symmetric_maxlen :
    ∃ s : MemoryStore Int, Reachable s ∧
      s.HoldsList 0 (utf8 "l") [utf8 "a",utf8 "b",utf8 "a"] ∧
      Answers (World.plain 0) [utf8 "LPOS",utf8 "l",utf8 "a",utf8 "RANK",utf8 "1",utf8 "MAXLEN",
        utf8 "1"] s (.integer 0) ∧
      Answers (World.plain 0) [utf8 "LPOS",utf8 "l",utf8 "a",utf8 "RANK",utf8 "-1",utf8 "MAXLEN",
        utf8 "1"] s (.integer 0) :=
  ⟨_,.dispatch (World.plain 0) [utf8 "RPUSH",utf8 "l",utf8 "a",utf8 "b",utf8 "a"] .new rfl,
    ⟨_,rfl,rfl⟩,rfl,rfl⟩

end GoRedis
