import GoRedis.Persistence.Reachable
import GoRedis.Storage.Look
import GoRedis.Storage.Versions
/-!
# What an accepted expiration means

A duration is a number of nanoseconds in an `int64`; a count of seconds or milliseconds becomes
one by a multiplication that wraps. Where the product fits, the deadline is the one asked for;
where it does not, the key has another one, none at all, or one that has passed. A deadline given
as an instant that has passed is answered by 1 for keys that are not there.
-/
namespace GoRedis
variable {F : Type} {w : World} {s : MemoryStore F} {key value : Bytes} {now n unit : Int}

theorem scale_eq_iff (n unit : Int) : scale n unit=n*unit ↔ InInt64 (n*unit) := by
  constructor
  · intro h
    rw [← h]
    exact wrap64_inInt64 _
  · exact scale_of_inInt64

namespace Row

/-- The deadline of a key of the given type. -/
def deadline (r : Row F) : KeyType → Option Int
  | .string => r.string.bind StrEntry.expiresAt
  | _ => r.expiry

/-- The row with another deadline for the given type. -/
def stamp (r : Row F) (t : KeyType) (d : Int) : Row F :=
  match t with
  | .string => { r with string := r.string.map fun e => ⟨e.value,some d⟩ }
  | _ => { r with expiry := some d }

variable {r : Row F} {t : KeyType} {d : Int}

theorem deadline_stamp (h : r.typeOf now=some t) : (r.stamp t d).deadline t=some d := by
  have hsome := isSome_of_typeOf h
  cases t with
  | string =>
    obtain ⟨e,he⟩ := Option.isSome_iff_exists.mp hsome
    simp [stamp,deadline,he]
  | _ => rfl

theorem typeOf_congr_expiry (r : Row F) {x : Option Int} (h : expired now x=expired now r.expiry) :
    { r with expiry := x }.typeOf now=r.typeOf now := by
  unfold typeOf
  dsimp only
  rw [h]

theorem typeOf_stamp (h : r.typeOf now=some t) (hd : now ≤ d) : (r.stamp t d).typeOf now=some t := by
  have hnew : expired now (some d)=false := by
    simpa [expired] using hd
  cases t with
  | string =>
    obtain ⟨e,he,_⟩ := (typeOf_eq_string_iff r now).mp h
    refine (typeOf_eq_string_iff _ now).mpr ⟨⟨e.value,some d⟩,?_,hnew⟩
    simp [stamp,he]
  | hash | list | set | zset =>
    have hold := not_expired_of_typeOf h (by decide)
    exact (typeOf_congr_expiry r (hnew.trans hold.symm)).trans h

end Row

theorem row_expire {t : KeyType} (h : s.typeOf now key=some t) (ttl : Int) :
    (s.expire now key ttl).2.row key=(s.row key).stamp t (now+ttl) := by
  refine (MemoryStore.row_of_slot (s.slot_expire now key ttl)).trans ?_
  rw [MemoryStore.typeOf_eq_slot] at h
  unfold Slot.expire
  cases hlive : (s.slot key).liveString now with
  | some e =>
    obtain ⟨he,hexp⟩ := Slot.liveString_eq_some hlive
    have ht : (s.slot key).typeOf now=some .string := (Row.typeOf_eq_string_iff _ now).mpr ⟨e,he,hexp⟩
    cases h.symm.trans ht
    have he' : (s.row key).string=some e := he
    simp only [Slot.setRow_toRow,Row.stamp,he',Option.map_some]
    rfl
  | none =>
    have ht : t ≠ .string := by
      rintro rfl
      obtain ⟨e,he,hexp⟩ := (Row.typeOf_eq_string_iff _ now).mp h
      rw [Slot.liveString_of_live he hexp] at hlive
      cases hlive
    dsimp only
    rw [if_neg (by rw [h]; simp),Slot.setRow_toRow]
    cases t with
    | string => exact absurd rfl ht
    | _ => rfl

theorem expire_fst (s : MemoryStore F) (now : Int) (key : Bytes) (ttl : Int) :
    (s.expire now key ttl).1=(s.typeOf now key).isSome := by
  unfold MemoryStore.expire
  cases hlive : s.liveString now key with
  | some e =>
    rw [Maps.typeOf_eq_live,hlive]
    rfl
  | none =>
    cases ht : s.typeOf now key with
    | none => rfl
    | some t => simp

/-- The key is live, of the given type, and expires at `d`. -/
def Expires (m : Maps F) (now : Int) (key : Bytes) (t : KeyType) (d : Int) : Prop :=
  m.typeOf now key=some t ∧ (m.row key).deadline t=some d

theorem expire_expires_iff {t : KeyType} (h : s.typeOf now key=some t) (hn : 0 ≤ n)
    (hunit : 0 < unit) :
    Expires (s.expire now key (scale n unit)).2.toMaps now key t (now+n*unit) ↔
      InInt64 (n*unit) := by
  have hrow := Maps.typeOf_eq_row s.toMaps now key
  rw [h] at hrow
  rw [Expires,Maps.typeOf_eq_row,row_expire h,Row.deadline_stamp hrow.symm,← scale_eq_iff]
  constructor
  · rintro ⟨_,hd⟩
    have := Option.some.inj hd
    omega
  · intro hscale
    have hpos : 0 ≤ n*unit := Int.mul_nonneg hn hunit.le
    rw [hscale]
    exact ⟨Row.typeOf_stamp hrow.symm (by omega),rfl⟩

theorem setString_expires_iff (s : MemoryStore F) (x : Option Int) {d : Int} (hd : now ≤ d) :
    Expires (((s.deleteKey key).putString key ⟨value,x⟩).bumpVersion key).toMaps now key .string d ↔
      x=some d := by
  have hrow : (((s.deleteKey key).putString key ⟨value,x⟩).bumpVersion key).row key=
      { Row.absent with string := some ⟨value,x⟩ } :=
    MemoryStore.row_of_slot (s.slot_setString key ⟨value,x⟩)
  rw [Expires,Maps.typeOf_eq_row,hrow]
  constructor
  · intro h
    exact h.2
  · rintro rfl
    have hlive : expired now (some d)=false := by simpa [expired] using hd
    exact ⟨(Row.typeOf_eq_string_iff _ now).mpr ⟨_,rfl,hlive⟩,rfl⟩

/-- The expiry option of a `SET` that counts: a later one replaces an earlier one. -/
def expiryOption : List Bytes → Option (ExpireUnit × Int)
  | [] => none
  | a::rest =>
    if (setFlag a {}).isSome then expiryOption rest
    else match rest with
      | [] => none
      | v::rest' => (expiryOption rest').or
          ((expireUnit a).bind fun u => (parseInt v).map fun n => (u,n))

theorem setFlag_isSome (a : Bytes) (o o' : SetAdvOpts) :
    (setFlag a o).isSome=(setFlag a o').isSome := by
  unfold setFlag
  split_ifs <;> rfl

theorem setOptions_ttl {opts : List Bytes} {o o' : SetAdvOpts} {ttl ttl' : Int}
    (h : setOptions now opts o ttl=.ok (o',ttl')) :
    ttl'=((expiryOption opts).map fun p => p.1.setTTL now p.2).getD ttl ∧
      ∀ p ∈ expiryOption opts, 0 < p.2 := by
  fun_induction setOptions now opts o ttl with
  | case1 o ttl =>
    cases h
    exact ⟨rfl,by simp [expiryOption]⟩
  | case2 a rest o ttl o₁ hflag ih =>
    have hsome : (setFlag a {}).isSome=true := by
      rw [setFlag_isSome a {} o,hflag]
      rfl
    have hopt : expiryOption (a::rest)=expiryOption rest := by
      rw [expiryOption.eq_def]
      exact if_pos hsome
    rw [hopt]
    exact ih h
  | case3 => cases h
  | case4 => cases h
  | case5 => cases h
  | case6 a o ttl hflag u hu v rest n hn ih =>
    obtain ⟨hn,hpos⟩ := Option.filter_eq_some_iff.mp hn
    have hnone : ¬(setFlag a {}).isSome=true := by
      rw [setFlag_isSome a {} o,hflag]
      decide
    have hopt : expiryOption (a::v::rest)=(expiryOption rest).or (some (u,n)) := by
      rw [expiryOption,if_neg hnone,hu,hn]
      rfl
    obtain ⟨hih,hpos'⟩ := ih h
    rw [hopt,hih]
    cases hrest : expiryOption rest with
    | none =>
      refine ⟨rfl,fun p hp => ?_⟩
      cases hp
      exact of_decide_eq_true hpos
    | some p =>
      refine ⟨rfl,fun q hq => ?_⟩
      cases hq
      exact hpos' p hrest

theorem handleSet_ok {name : Bytes} {opts : List Bytes} {o : SetAdvOpts} {ttl : Int}
    (hopts : setOptions w.now opts {} 0=.ok (o,ttl))
    (hok : (handleSet w (name::key::value::opts) s).1=okReply) :
    (handleSet w (name::key::value::opts) s).2=((s.deleteKey key).putString key ⟨value,
      if o.keepTTL then s.strings[key]?.bind StrEntry.expiresAt
      else if 0 < ttl then some (w.now+ttl) else none⟩).bumpVersion key := by
  have hrefused : ∀ old, setReply o old false ≠ okReply := by
    intro old h
    unfold setReply at h
    cases hget : o.get <;> rw [hget] at h
    · cases h
    · cases old <;> cases h
  simp only [handleSet,hopts] at hok ⊢
  by_cases hboth : o.nx=true ∧ o.xx=true
  · rw [if_pos hboth] at hok
    cases hok
  · rw [if_neg hboth] at hok ⊢
    rcases s.setAdv_cases w.now key value ttl o with ⟨_,hrun⟩ | ⟨_,hrun⟩
    · rw [hrun] at hok
      exact absurd hok (hrefused _)
    · rw [hrun]

theorem handleExpireIn_of_parse {cmd : String} {name n : Bytes} {v : Int} (hn : parseInt n=some v)
    (hpos : 0 ≤ v) : handleExpireIn cmd unit w [name,key,n] s=
      (boolReply (s.typeOf w.now key).isSome,(s.expire w.now key (scale v unit)).2) := by
  have hfilter : (parseInt n).filter (fun n => 0 ≤ n)=some v :=
    Option.filter_eq_some_iff.mpr ⟨hn,decide_eq_true hpos⟩
  simp only [handleExpireIn,hfilter,expire_fst]

theorem handleSetTTL_of_parse {cmd : String} {name n : Bytes} {v : Int} (hn : parseInt n=some v)
    (hpos : 0 < v) : handleSetTTL cmd unit w [name,key,n,value] s=
      (okReply,s.setWithTTL w.now key value (scale v unit)) := by
  have hfilter : (parseInt n).filter (fun n => 0 < n)=some v :=
    Option.filter_eq_some_iff.mpr ⟨hn,decide_eq_true hpos⟩
  simp only [handleSetTTL,hfilter]

theorem boolReply_eq_one_iff (b : Bool) : boolReply b=.integer 1 ↔ b=true := by
  cases b <;> simp [boolReply]

theorem handleExpireOn_one_iff {cmd : String} {instant : Int → Int} {name n : Bytes} {v : Int}
    (hn : parseInt n=some v) : (handleExpireOn cmd instant w [name,key,n] s).1=.integer 1 ↔
      s.typeOf w.now key ≠ none ∨ instant v ≤ w.now := by
  simp only [handleExpireOn,hn]
  by_cases hpast : instant v ≤ w.now
  · rw [if_pos ((timeUntil_nonpos_iff _ _).mpr hpast)]
    simp [hpast]
  · rw [if_neg fun h => hpast ((timeUntil_nonpos_iff _ _).mp h)]
    simp only [boolReply_eq_one_iff,expire_fst,Option.isSome_iff_ne_none,hpast,or_false]

/-- The nanoseconds of the units that are counts and not instants. -/
def ExpireUnit.nanos : ExpireUnit → Option Int
  | ex => some second
  | px => some millisecond
  | _ => none

theorem ExpireUnit.setTTL_of_nanos {u : ExpireUnit} (h : u.nanos=some unit) (now n : Int) :
    u.setTTL now n=scale n unit := by
  cases u <;> cases h <;> rfl

theorem ExpireUnit.nanos_pos {u : ExpireUnit} (h : u.nanos=some unit) : 0 < unit := by
  cases u <;> cases h <;> decide

/-- The deadline of a `SET` that replied OK is the one its option asks for exactly when the
product fits, or when `KEEPTTL` keeps a deadline that happens to be the same. -/
theorem handleSet_expires_iff {name : Bytes} {opts : List Bytes} {o : SetAdvOpts} {ttl : Int}
    {u : ExpireUnit} (hopts : setOptions w.now opts {} 0=.ok (o,ttl))
    (hopt : expiryOption opts=some (u,n)) (hu : u.nanos=some unit)
    (hok : (handleSet w (name::key::value::opts) s).1=okReply) :
    Expires (handleSet w (name::key::value::opts) s).2.toMaps w.now key .string (w.now+n*unit) ↔
      if o.keepTTL then s.strings[key]?.bind StrEntry.expiresAt=some (w.now+n*unit)
      else InInt64 (n*unit) := by
  obtain ⟨httl,hpos⟩ := setOptions_ttl hopts
  rw [hopt] at httl hpos
  have hn : 0 < n*unit := Int.mul_pos (hpos _ rfl) (ExpireUnit.nanos_pos hu)
  have hscale : ttl=scale n unit := httl.trans (ExpireUnit.setTTL_of_nanos hu _ _)
  rw [handleSet_ok hopts hok,setString_expires_iff s _ (by omega)]
  split_ifs with hkeep hpos
  · rfl
  · rw [← scale_eq_iff,← hscale]
    constructor
    · intro h
      have := Option.some.inj h
      omega
    · intro h
      rw [h]
  · refine iff_of_false (by simp) fun hfit => ?_
    rw [← scale_eq_iff,← hscale] at hfit
    omega

section
variable [Float64 F]

/-- Expirations mean what they say exactly as far as the product of the number and the unit is
an `int64`, the instant lies ahead, and `KEEPTTL` does not take the place of the number. -/
theorem expirations_iff (w : World) (s : MemoryStore F) (key : Bytes) :
    (∀ c unit, (c=.expire ∧ unit=second ∨ c=.pexpire ∧ unit=millisecond) →
      ∀ name n v, commandOf [name,key,n]=some (.write c) → parseInt n=some v → 0 ≤ v →
        ∃ d, dispatch w [name,key,n] s=.ok d ∧
          (d.resp=.integer 1 ↔ s.typeOf w.now key ≠ none) ∧
          ∀ t, s.typeOf w.now key=some t →
            (Expires d.store.toMaps w.now key t (w.now+v*unit) ↔ InInt64 (v*unit))) ∧
    (∀ c instant, (c=.expireat ∧ instant=unix ∨ c=.pexpireat ∧ instant=unixMilli) →
      ∀ name n v, commandOf [name,key,n]=some (.write c) → parseInt n=some v →
        ∃ d, dispatch w [name,key,n] s=.ok d ∧
          ((d.resp=.integer 1 ↔ s.typeOf w.now key ≠ none) ↔
            s.typeOf w.now key ≠ none ∨ w.now < instant v)) ∧
    (∀ c unit, (c=.setex ∧ unit=second ∨ c=.psetex ∧ unit=millisecond) →
      ∀ name n value v, commandOf [name,key,n,value]=some (.write c) → parseInt n=some v → 0 < v →
        ∃ d, dispatch w [name,key,n,value] s=.ok d ∧ d.resp=okReply ∧
          (Expires d.store.toMaps w.now key .string (w.now+v*unit) ↔ InInt64 (v*unit))) ∧
    ∀ name value opts o ttl u n unit, commandOf (name::key::value::opts)=some (.write .set) →
      setOptions w.now opts {} 0=.ok (o,ttl) → expiryOption opts=some (u,n) → u.nanos=some unit →
        ∃ d, dispatch w (name::key::value::opts) s=.ok d ∧ (d.resp=okReply →
          (Expires d.store.toMaps w.now key .string (w.now+n*unit) ↔
            if o.keepTTL then s.strings[key]?.bind StrEntry.expiresAt=some (w.now+n*unit)
            else InInt64 (n*unit))) := by
  refine ⟨?_,?_,?_,?_⟩
  · intro c unit hcu name n v hc hn hpos
    rw [dispatch_write hc]
    have hunit : 0 < unit := by
      rcases hcu with ⟨_,rfl⟩ | ⟨_,rfl⟩ <;> decide
    have hrun : ∃ cmd, execute w c [name,key,n] s=.ok (handleExpireIn cmd unit w [name,key,n] s) := by
      rcases hcu with ⟨rfl,rfl⟩ | ⟨rfl,rfl⟩ <;> exact ⟨_,rfl⟩
    obtain ⟨cmd,hrun⟩ := hrun
    rw [hrun,handleExpireIn_of_parse hn hpos]
    refine ⟨_,rfl,?_,fun t ht => expire_expires_iff ht hpos hunit⟩
    simp only [boolReply_eq_one_iff,Option.isSome_iff_ne_none]
  · intro c instant hci name n v hc hn
    rw [dispatch_write hc]
    have hrun : ∃ cmd, execute w c [name,key,n] s=
        .ok (handleExpireOn cmd instant w [name,key,n] s) := by
      rcases hci with ⟨rfl,rfl⟩ | ⟨rfl,rfl⟩ <;> exact ⟨_,rfl⟩
    obtain ⟨cmd,hrun⟩ := hrun
    rw [hrun]
    refine ⟨_,rfl,?_⟩
    simp only [handleExpireOn_one_iff hn]
    rw [← not_le]
    tauto
  · intro c unit hcu name n value v hc hn hpos
    rw [dispatch_write hc]
    have hunit : 0 < v*unit := by
      rcases hcu with ⟨_,rfl⟩ | ⟨_,rfl⟩ <;> exact Int.mul_pos hpos (by decide)
    have hrun : ∃ cmd, execute w c [name,key,n,value] s=
        .ok (handleSetTTL cmd unit w [name,key,n,value] s) := by
      rcases hcu with ⟨rfl,rfl⟩ | ⟨rfl,rfl⟩ <;> exact ⟨_,rfl⟩
    obtain ⟨cmd,hrun⟩ := hrun
    rw [hrun,handleSetTTL_of_parse hn hpos]
    refine ⟨_,rfl,rfl,?_⟩
    refine (setString_expires_iff s _ (by omega)).trans ?_
    rw [← scale_eq_iff,Option.some.injEq]
    omega
  · intro name value opts o ttl u n unit hc hopts hopt hu
    rw [dispatch_write hc]
    exact ⟨_,rfl,handleSet_expires_iff hopts hopt hu⟩

end

/-- A string, ten seconds from now: by `EXPIRE`, `EXPIREAT`, `SETEX` and `SET EX`. -/
theorem expirations_ten_seconds :
    (∃ d, dispatch (World.plain 0) [utf8 "EXPIRE",utf8 "k",utf8 "10"]
        (MemoryStore.new.set (F := Int) (utf8 "k") (utf8 "v"))=.ok d ∧
      Expires d.store.toMaps 0 (utf8 "k") .string (0+10*second)) ∧
    (∃ d, dispatch (World.plain 0) [utf8 "EXPIREAT",utf8 "k",utf8 "10"]
        (MemoryStore.new.set (F := Int) (utf8 "k") (utf8 "v"))=.ok d ∧ d.resp=.integer 1) ∧
    (∃ d, dispatch (World.plain 0) [utf8 "SETEX",utf8 "k",utf8 "10",utf8 "w"]
        (MemoryStore.new.set (F := Int) (utf8 "k") (utf8 "v"))=.ok d ∧
      Expires d.store.toMaps 0 (utf8 "k") .string (0+10*second)) ∧
    ∃ d, dispatch (World.plain 0) [utf8 "SET",utf8 "k",utf8 "w",utf8 "EX",utf8 "10"]
        (MemoryStore.new.set (F := Int) (utf8 "k") (utf8 "v"))=.ok d ∧
      (d.resp=okReply → Expires d.store.toMaps 0 (utf8 "k") .string (0+10*second)) := by
  have hlive : (MemoryStore.new.set (F := Int) (utf8 "k") (utf8 "v")).typeOf 0 (utf8 "k")=
      some .string := by decide
  have hten : parseInt (utf8 "10")=some 10 := by decide
  have hfit : InInt64 (10*second) := by decide
  obtain ⟨hin,hat,hset,hopt⟩ := expirations_iff (World.plain 0)
    (MemoryStore.new.set (F := Int) (utf8 "k") (utf8 "v")) (utf8 "k")
  refine ⟨?_,?_,?_,?_⟩
  · obtain ⟨d,hd,_,hiff⟩ := hin .expire second (.inl ⟨rfl,rfl⟩) (utf8 "EXPIRE") (utf8 "10") 10
      (by decide) hten (by decide)
    exact ⟨d,hd,(hiff .string hlive).mpr hfit⟩
  · obtain ⟨d,hd,hiff⟩ := hat .expireat unix (.inl ⟨rfl,rfl⟩) (utf8 "EXPIREAT") (utf8 "10") 10
      (by decide) hten
    have hne : (MemoryStore.new.set (F := Int) (utf8 "k") (utf8 "v")).typeOf
        (World.plain 0).now (utf8 "k") ≠ none := by decide
    exact ⟨d,hd,(hiff.mpr (.inl hne)).mpr hne⟩
  · obtain ⟨d,hd,_,hiff⟩ := hset .setex second (.inl ⟨rfl,rfl⟩) (utf8 "SETEX") (utf8 "10")
      (utf8 "w") 10 (by decide) hten (by decide)
    exact ⟨d,hd,hiff.mpr hfit⟩
  · obtain ⟨d,hd,hiff⟩ := hopt (utf8 "SET") (utf8 "w") [utf8 "EX",utf8 "10"] {} _ .ex 10
      second (by decide) rfl (by decide) rfl
    exact ⟨d,hd,fun hok => (hiff hok).mpr hfit⟩

/-- `EXPIREAT` of a missing key to a passed instant replies 1. `EXPIRE k 9223372037` replies 1
and the key is gone; `SET k w EX 9223372037` replies OK and the key never expires. -/
theorem expirations_misread : ∃ s : MemoryStore Int, Reachable s ∧
    s.typeOf 1000000000 (utf8 "k")=some .string ∧ s.typeOf 1000000000 (utf8 "x")=none ∧
    (∃ d, dispatch (World.plain 1000000000) [utf8 "EXPIREAT",utf8 "x",utf8 "0"] s=.ok d ∧
      d.resp=.integer 1) ∧
    (∃ d, dispatch (World.plain 1000000000) [utf8 "EXPIRE",utf8 "k",utf8 "9223372037"] s=.ok d ∧
      d.resp=.integer 1 ∧ d.store.typeOf 1000000000 (utf8 "k")=none) ∧
    ∃ d, dispatch (World.plain 1000000000)
        [utf8 "SET",utf8 "k",utf8 "w",utf8 "EX",utf8 "9223372037"] s=.ok d ∧ d.resp=okReply ∧
      d.store.view 1000000000 (utf8 "k")=some (.string (utf8 "w"),none) := by
  have hset : Reachable _ :=
    .dispatch (F := Int) (World.plain 0) [utf8 "SET",utf8 "k",utf8 "v"] .new rfl
  exact ⟨_,hset,by decide,by decide,⟨_,rfl,rfl⟩,⟨_,rfl,rfl,by decide⟩,_,rfl,rfl,by decide⟩

end GoRedis
