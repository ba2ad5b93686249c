import GoRedis.Commands.Router
import GoRedis.Storage.Typed
/-!
# Integer counters

`incrBy` adds in wrapping arithmetic and looks at signs afterwards. The signs tell every sum
outside the `int64` range from every sum inside it, so the counters are as good as the number
they are asked to add; only `DECRBY` asks for the wrong one, once. `HINCRBY` looks at nothing.
-/
namespace GoRedis
variable {F : Type} {w : World} {s : MemoryStore F} {key : Bytes} {v d : Int}

theorem increment_overflows_iff (hv : InInt64 v) (hd : InInt64 d) :
    0 < d ∧ wrap64 (v+d) < v ↔ 2^63 ≤ v+d := by
  unfold InInt64 at hv hd
  unfold wrap64
  omega

theorem decrement_overflows_iff (hv : InInt64 v) (hd : InInt64 d) :
    d < 0 ∧ v < wrap64 (v+d) ↔ v+d < -2^63 := by
  unfold InInt64 at hv hd
  unfold wrap64
  omega

/-- The key holds the integer `v` as a text, or is not there and counts as 0. -/
def Holds (m : Maps F) (now : Int) (key : Bytes) (v : Int) : Prop :=
  (m.typeOf now key=none ∧ v=0) ∨ ∃ raw, m.get now key=some raw ∧ parseInt raw=some v

/-- The integer `n` is the reply and its decimal form the value of the key, if an `int64` can
hold it; otherwise the reply is an error and nothing has changed. -/
def Exact (key : Bytes) (s : MemoryStore F) (n : Int) (r : Response × MemoryStore F) : Prop :=
  if InInt64 n then r=(.integer n,s.set key (formatInt n)) else r.1.isError=true ∧ r.2=s

theorem Holds.inInt64 {m : Maps F} {now : Int} (h : Holds m now key v) : InInt64 v := by
  rcases h with ⟨_,rfl⟩ | ⟨raw,_,hraw⟩
  · decide
  · exact parseInt_inInt64 hraw

theorem incrBy_of_holds (h : Holds s.toMaps w.now key v) (hd : InInt64 d) :
    incrBy w key d s=
      if 2^63 ≤ v+d then (.error (utf8 "ERR increment would overflow"),s)
      else if v+d < -2^63 then (.error (utf8 "ERR decrement would overflow"),s)
      else (.integer (wrap64 (v+d)),s.set key (formatInt (wrap64 (v+d)))) := by
  have hv := h.inInt64
  simp only [← increment_overflows_iff hv hd,← decrement_overflows_iff hv hd]
  rcases h with ⟨habsent,rfl⟩ | ⟨raw,hget,hraw⟩
  · have hget : s.get w.now key=none := Maps.get_eq_none (by rw [habsent]; decide)
    simp only [incrBy,hget]
  · simp only [incrBy,hget,hraw]

theorem incrBy_exact (h : Holds s.toMaps w.now key v) (hd : InInt64 d) :
    Exact key s (v+d) (incrBy w key d s) := by
  rw [incrBy_of_holds h hd]
  unfold Exact
  by_cases hup : 2^63 ≤ v+d
  · rw [if_pos hup,if_neg (by unfold InInt64; omega)]
    exact ⟨rfl,rfl⟩
  · by_cases hdown : v+d < -2^63
    · rw [if_neg hup,if_pos hdown,if_neg (by unfold InInt64; omega)]
      exact ⟨rfl,rfl⟩
    · have hin : InInt64 (v+d) := by
        unfold InInt64
        omega
      rw [if_neg hup,if_neg hdown,if_pos hin,wrap64_of_inInt64 hin]

theorem Exact.unique {n n' : Int} {r : Response × MemoryStore F} (h : Exact key s n r)
    (h' : Exact key s n' r) (hin : InInt64 n ∨ InInt64 n') : n=n' := by
  unfold Exact at h h'
  split_ifs at h h' with hn hn' hn'
  · exact Response.integer.inj (Prod.mk.inj (h.symm.trans h')).1
  · rw [h] at h'
    cases h'.1
  · rw [h'] at h
    cases h.1
  · exact absurd hin (by tauto)

/-- A request to count: the key it names and the integer it asks for where the key holds `v`. -/
inductive CountRequest (v : Int) : WriteCommand → List Bytes → Bytes → Int → Prop
  | incr {name key : Bytes} : CountRequest v .incr [name,key] key (v+1)
  | decr {name key : Bytes} : CountRequest v .decr [name,key] key (v-1)
  | incrby {name key n : Bytes} {d : Int} (hn : parseInt n=some d) :
      CountRequest v .incrby [name,key,n] key (v+d)
  | decrby {name key n : Bytes} {d : Int} (hn : parseInt n=some d) :
      CountRequest v .decrby [name,key,n] key (v-d)

theorem decrBy_exact_iff (h : Holds s.toMaps w.now key v) (hd : InInt64 d) :
    Exact key s (v-d) (incrBy w key (wrap64 (-d)) s) ↔ d ≠ -2^63 := by
  constructor
  · rintro hexact rfl
    have hv := h.inInt64
    have hmin : wrap64 (-(-2^63))=-2^63 := by decide
    rw [hmin] at hexact
    have hother := incrBy_exact h (d := -2^63) (by decide)
    have hone : InInt64 (v - -2^63) ∨ InInt64 (v+-2^63) := by
      unfold InInt64 at hv ⊢
      omega
    have := hexact.unique hother hone
    omega
  · intro hne
    have hneg : InInt64 (-d) := by
      unfold InInt64 at hd ⊢
      omega
    rw [wrap64_of_inInt64 hneg,sub_eq_add_neg]
    exact incrBy_exact h hneg

theorem handleIncrBy_of_parse {name n : Bytes} (hn : parseInt n=some d) :
    handleIncrBy w [name,key,n] s=incrBy w key d s := by
  simp only [handleIncrBy,handleStepBy,hn,id]

/-- The counters reply with the exact integer and store it, or refuse, except `DECRBY` of the
smallest `int64`. -/
theorem counters_exact_iff [Float64 F] (w : World) (args : List Bytes) (s : MemoryStore F)
    {c : WriteCommand} {n : Int} (hc : commandOf args=some (.write c))
    (hreq : CountRequest v c args key n) (hv : Holds s.toMaps w.now key v) :
    ∃ d, dispatch w args s=.ok d ∧ (Exact key s n (d.resp,d.store) ↔
      ¬(c=.decrby ∧ parseInt (args.getD 2 [])=some (-2^63))) := by
  rw [dispatch_write hc]
  cases hreq with
  | incr => exact ⟨_,rfl,iff_of_true (incrBy_exact hv (by decide)) (by simp)⟩
  | decr => exact ⟨_,rfl,iff_of_true (incrBy_exact hv (by decide)) (by simp)⟩
  | incrby hn =>
    refine ⟨_,rfl,iff_of_true ?_ (by simp)⟩
    rw [handleIncrBy_of_parse hn]
    exact incrBy_exact hv (parseInt_inInt64 hn)
  | decrby hn =>
    refine ⟨_,rfl,?_⟩
    simp only [handleDecrBy,handleStepBy,hn]
    rw [decrBy_exact_iff hv (parseInt_inInt64 hn)]
    simp [hn]

/-- `INCRBY` on a missing key, up to the largest `int64`. -/
theorem counters_exact_max :
    ∃ d, dispatch (World.plain 0) [utf8 "INCRBY",utf8 "k",utf8 "9223372036854775807"]
        (.new : MemoryStore Int)=.ok d ∧
      Exact (utf8 "k") .new (0+9223372036854775807) (d.resp,d.store) := by
  obtain ⟨d,hd,hiff⟩ := counters_exact_iff (F := Int) (World.plain 0)
    [utf8 "INCRBY",utf8 "k",utf8 "9223372036854775807"] .new (c := .incrby) (by decide)
    (.incrby (d := 9223372036854775807) (by decide)) (.inl ⟨by decide,rfl⟩)
  exact ⟨d,hd,hiff.mpr (by decide)⟩

/-- `DECRBY` of the smallest `int64`: 0 becomes the smallest `int64`, where the exact
difference is out of range. -/
theorem decrby_min_inexact :
    ∃ d, dispatch (World.plain 0) [utf8 "DECRBY",utf8 "k",utf8 "-9223372036854775808"]
        (.new : MemoryStore Int)=.ok d ∧
      Holds (F := Int) MemoryStore.new.toMaps 0 (utf8 "k") 0 ∧ ¬InInt64 (0 - -9223372036854775808) ∧
      d.resp=.integer (-9223372036854775808) ∧
      d.store.get 0 (utf8 "k")=some (utf8 "-9223372036854775808") := by
  refine ⟨_,rfl,.inl ⟨by decide,rfl⟩,by decide,rfl,?_⟩
  exact MemoryStore.get_set _ _ _ _

section Hashes
variable {s₁ s₂ : MemoryStore F} {key₁ key₂ field : Bytes}

/-- Both commands reply with the same integer and store its decimal form, or both refuse and
change nothing. -/
def Agree (now : Int) (key₁ field key₂ : Bytes) (s₁ s₂ : MemoryStore F)
    (r₁ r₂ : Response × MemoryStore F) : Prop :=
  (∃ n, r₁.1=.integer n ∧ r₂.1=.integer n ∧ r₁.2.hGet now key₁ field=some (formatInt n) ∧
    r₂.2.get now key₂=some (formatInt n)) ∨
  r₁.1.isError=true ∧ r₂.1.isError=true ∧ r₁.2=s₁ ∧ r₂.2=s₂

theorem not_expired_of_hGet {now : Int} {raw : Bytes} (h : s.hGet now key field=some raw) :
    s.keyExpiredNonStr now key=false := by
  cases hexp : s.keyExpiredNonStr now key with
  | false => rfl
  | true =>
    rw [Maps.hGet,Maps.liveHash,hexp] at h
    cases h

theorem handleHIncrBy_of_holds {name n raw : Bytes} (hraw : s.hGet w.now key field=some raw)
    (hv : parseInt raw=some v) (hn : parseInt n=some d) :
    handleHIncrBy w [name,key,field,n] s=(.integer (wrap64 (v+d)),
      (s.hSet key ((∅ : Map Bytes).insert field (formatInt (wrap64 (v+d))))).2) := by
  simp only [handleHIncrBy,hraw,hv,hn]

/-- `HINCRBY` of a field and `INCRBY` of a string agree exactly when the sum is an `int64`. -/
theorem counters_agree_iff [Float64 F] (w : World) (name₁ name₂ n₁ n₂ : Bytes)
    {raw₁ raw₂ : Bytes} (hc₁ : commandOf [name₁,key₁,field,n₁]=some (.write .hincrby))
    (hc₂ : commandOf [name₂,key₂,n₂]=some (.write .incrby))
    (hraw₁ : s₁.hGet w.now key₁ field=some raw₁) (hv₁ : parseInt raw₁=some v)
    (hraw₂ : s₂.get w.now key₂=some raw₂) (hv₂ : parseInt raw₂=some v)
    (hn₁ : parseInt n₁=some d) (hn₂ : parseInt n₂=some d) :
    ∃ d₁ d₂, dispatch w [name₁,key₁,field,n₁] s₁=.ok d₁ ∧ dispatch w [name₂,key₂,n₂] s₂=.ok d₂ ∧
      (Agree w.now key₁ field key₂ s₁ s₂ (d₁.resp,d₁.store) (d₂.resp,d₂.store) ↔
        InInt64 (v+d)) := by
  have hexact := incrBy_exact (w := w) (.inr ⟨raw₂,hraw₂,hv₂⟩) (parseInt_inInt64 hn₂)
  rw [dispatch_write hc₁,dispatch_write hc₂]
  refine ⟨_,_,rfl,rfl,?_⟩
  rw [handleHIncrBy_of_holds hraw₁ hv₁ hn₁,handleIncrBy_of_parse hn₂]
  unfold Exact at hexact
  constructor
  · intro hagree
    by_contra hout
    rw [if_neg hout] at hexact
    rcases hagree with ⟨n,_,hint,_⟩ | ⟨herr,_⟩
    · have hint' : (incrBy w key₂ d s₂).1=.integer n := hint
      rw [hint'] at hexact
      cases hexact.1
    · cases herr
  · intro hin
    rw [if_pos hin] at hexact
    have hstored := MemoryStore.hGet_hSet s₁ (not_expired_of_hGet hraw₁) field (formatInt (v+d))
    rw [wrap64_of_inInt64 hin,hexact]
    exact .inl ⟨v+d,rfl,rfl,hstored,MemoryStore.get_set _ _ _ _⟩

/-- Both counters at 41, asked for one more. -/
theorem counters_agree_41 :
    ∃ (s₁ s₂ : MemoryStore Int) (d₁ d₂ : Dispatched Int),
      dispatch (World.plain 0) [utf8 "HINCRBY",utf8 "h",utf8 "f",utf8 "1"] s₁=.ok d₁ ∧
      dispatch (World.plain 0) [utf8 "INCRBY",utf8 "k",utf8 "1"] s₂=.ok d₂ ∧
      Agree 0 (utf8 "h") (utf8 "f") (utf8 "k") s₁ s₂ (d₁.resp,d₁.store) (d₂.resp,d₂.store) := by
  have hs₁ : ((MemoryStore.new : MemoryStore Int).hSet (utf8 "h")
      ((∅ : Map Bytes).insert (utf8 "f") (utf8 "41"))).2.hGet 0 (utf8 "h") (utf8 "f")=
      some (utf8 "41") := MemoryStore.hGet_hSet _ rfl _ _
  have hs₂ : ((MemoryStore.new : MemoryStore Int).set (utf8 "k") (utf8 "41")).get 0 (utf8 "k")=
      some (utf8 "41") := MemoryStore.get_set _ _ _ _
  obtain ⟨d₁,d₂,hd₁,hd₂,hiff⟩ := counters_agree_iff (v := 41) (d := 1) (World.plain 0)
    (utf8 "HINCRBY") (utf8 "INCRBY") (utf8 "1") (utf8 "1") (by decide) (by decide) hs₁
    (by decide) hs₂ (by decide) (by decide) (by decide)
  exact ⟨_,_,d₁,d₂,hd₁,hd₂,hiff.mpr (by decide)⟩

/-- Both counters at the largest `int64`, asked for one more: the string refuses, the field
wraps to the smallest one. -/
theorem counters_disagree :
    ∃ s₁ s₂ : MemoryStore Int, ∃ d₁ d₂ : Dispatched Int,
      s₁.hGet 0 (utf8 "h") (utf8 "f")=some (utf8 "9223372036854775807") ∧
      s₂.get 0 (utf8 "k")=some (utf8 "9223372036854775807") ∧
      dispatch (World.plain 0) [utf8 "HINCRBY",utf8 "h",utf8 "f",utf8 "1"] s₁=.ok d₁ ∧
      dispatch (World.plain 0) [utf8 "INCRBY",utf8 "k",utf8 "1"] s₂=.ok d₂ ∧
      d₁.resp=.integer (-9223372036854775808) ∧
      d₁.store.hGet 0 (utf8 "h") (utf8 "f")=some (utf8 "-9223372036854775808") ∧
      d₂.resp.isError=true ∧ d₂.store=s₂ := by
  let s₁ : MemoryStore Int := (MemoryStore.new.hSet (utf8 "h")
    ((∅ : Map Bytes).insert (utf8 "f") (utf8 "9223372036854775807"))).2
  let s₂ : MemoryStore Int := MemoryStore.new.set (utf8 "k") (utf8 "9223372036854775807")
  have hs₁ : s₁.hGet 0 (utf8 "h") (utf8 "f")=some (utf8 "9223372036854775807") :=
    MemoryStore.hGet_hSet _ rfl _ _
  have hs₂ : s₂.get 0 (utf8 "k")=some (utf8 "9223372036854775807") := MemoryStore.get_set _ _ _ _
  have hmax : parseInt (utf8 "9223372036854775807")=some 9223372036854775807 := by decide
  have hone : parseInt (utf8 "1")=some 1 := by decide
  have hfield : handleHIncrBy (World.plain 0) [utf8 "HINCRBY",utf8 "h",utf8 "f",utf8 "1"] s₁=_ :=
    handleHIncrBy_of_holds hs₁ hmax hone
  have hstring : handleIncrBy (World.plain 0) [utf8 "INCRBY",utf8 "k",utf8 "1"] s₂=_ :=
    (handleIncrBy_of_parse hone).trans (incrBy_of_holds (.inr ⟨_,hs₂,hmax⟩) (by decide))
  refine ⟨s₁,s₂,_,_,hs₁,hs₂,dispatch_write (c := .hincrby) (by decide) _ _,
    dispatch_write (c := .incrby) (by decide) _ _,?_⟩
  rw [hfield,hstring]
  exact ⟨rfl,MemoryStore.hGet_hSet _ rfl _ _,rfl,rfl⟩

end Hashes
end GoRedis
