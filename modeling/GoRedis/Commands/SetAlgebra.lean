import GoRedis.Persistence.Reachable
import GoRedis.Storage.Edits
import GoRedis.Storage.SetAlgebra
/-!
# `SINTER`, `SUNION`, `SDIFF` and their `STORE` forms
-/
namespace GoRedis
variable {F : Type} {s : MemoryStore F} {w : World} {op : SetOp} {k dst : Bytes} {ks : List Bytes}

namespace SetOp

/-- The command that replies with the members. -/
def read : SetOp → ReadCommand
  | inter => .sinter
  | union => .sunion
  | diff => .sdiff

/-- The command that stores them. -/
def store : SetOp → WriteCommand
  | inter => .sinterstore
  | union => .sunionstore
  | diff => .sdiffstore

theorem dispatch_read_op [Float64 F] {name : Bytes}
    (hc : commandOf (name::k::ks)=some (.read op.read)) :
    dispatch w (name::k::ks) s=.ok ⟨replyOf .bulks (op.members s.toMaps w (k::ks)),s,[]⟩ := by
  rw [dispatch_read hc]
  cases op <;> rfl

theorem dispatch_store_op [Float64 F] {name : Bytes}
    (hc : commandOf (name::dst::k::ks)=some (.write op.store)) :
    ∃ d, dispatch w (name::dst::k::ks) s=.ok d ∧ (d.resp,d.store)=
      commit s (fun n : Nat => .integer n) (s.storeMembers dst (op.members s.toMaps w (k::ks))) := by
  rw [dispatch_write hc]
  cases op <;> exact ⟨_,rfl,rfl⟩

end SetOp

/-- The six commands notice a key that is not a set exactly when the operation comes across
it. -/
theorem setOp_wrongType_iff [Float64 F] (w : World) (op : SetOp) (s : MemoryStore F) (k : Bytes)
    (ks : List Bytes) :
    (∀ name, commandOf (name::k::ks)=some (.read op.read) →
      ∃ d, dispatch w (name::k::ks) s=.ok d ∧
        ((d.resp=.error StoreError.wrongType.text ↔ ∃ j ∈ k::ks, s.toMaps.NotASet w.now j) ↔
          ((∃ j ∈ k::ks, s.toMaps.NotASet w.now j) → op.Notices s.toMaps w.now k ks))) ∧
    ∀ name dst, commandOf (name::dst::k::ks)=some (.write op.store) →
      ∃ d, dispatch w (name::dst::k::ks) s=.ok d ∧
        ((d.resp=.error StoreError.wrongType.text ↔ ∃ j ∈ k::ks, s.toMaps.NotASet w.now j) ↔
          ((∃ j ∈ k::ks, s.toMaps.NotASet w.now j) → op.Notices s.toMaps w.now k ks)) := by
  have hagree : ∀ {resp : Response},
      (resp=.error StoreError.wrongType.text ↔ op.Notices s.toMaps w.now k ks) →
      ((resp=.error StoreError.wrongType.text ↔ ∃ j ∈ k::ks, s.toMaps.NotASet w.now j) ↔
        ((∃ j ∈ k::ks, s.toMaps.NotASet w.now j) → op.Notices s.toMaps w.now k ks)) := by
    intro resp hresp
    rw [hresp]
    exact ⟨Iff.mpr,fun h => ⟨SetOp.Notices.notASet,h⟩⟩
  constructor
  · intro name hc
    refine ⟨_,SetOp.dispatch_read_op hc,hagree ?_⟩
    rcases op.members_cases s.toMaps w k ks with ⟨hnotices,hrun⟩ | ⟨hnot,xs,hrun,_⟩
    · rw [hrun]
      exact iff_of_true rfl hnotices
    · rw [hrun]
      exact iff_of_false nofun hnot
  · intro name dst hc
    obtain ⟨d,hd,hcommit⟩ := SetOp.dispatch_store_op (w := w) (s := s) hc
    refine ⟨d,hd,hagree ?_⟩
    rcases op.members_cases s.toMaps w k ks with ⟨hnotices,hrun⟩ | ⟨hnot,xs,hrun,hxs,_⟩
    · rw [hrun] at hcommit
      exact iff_of_true (congrArg Prod.fst hcommit) hnotices
    · obtain ⟨st,s',hstore,_⟩ := s.storeMembers_ok dst hxs
      rw [hrun,hstore] at hcommit
      have hresp : d.resp=.integer st.size := congrArg Prod.fst hcommit
      rw [hresp]
      exact iff_of_false nofun hnot

/-- `SUNION` asks every key, `SUNIONSTORE` too. -/
theorem sunion_notices_string :
    let s : MemoryStore Int := MemoryStore.new.set (utf8 "str") (utf8 "v")
    (∃ d, dispatch (World.plain 0) [utf8 "SUNION",utf8 "none",utf8 "str"] s=.ok d ∧
      d.resp=.error StoreError.wrongType.text) ∧
    ∃ d, dispatch (World.plain 0) [utf8 "SUNIONSTORE",utf8 "none",utf8 "none",utf8 "str"] s=.ok d ∧
      d.resp=.error StoreError.wrongType.text := by
  intro s
  have hbad : ∃ j ∈ [utf8 "none",utf8 "str"], s.toMaps.NotASet 0 j :=
    ⟨utf8 "str",by decide,.string,by decide,by decide⟩
  have hboth := setOp_wrongType_iff (World.plain 0) .union s (utf8 "none") [utf8 "str"]
  obtain ⟨d₁,hd₁,hiff₁⟩ := hboth.1 (utf8 "SUNION") (by decide)
  obtain ⟨d₂,hd₂,hiff₂⟩ := hboth.2 (utf8 "SUNIONSTORE") (utf8 "none") (by decide)
  exact ⟨⟨d₁,hd₁,(hiff₁.mpr id).mpr hbad⟩,d₂,hd₂,(hiff₂.mpr id).mpr hbad⟩

/-- A missing key hides the string behind it from `SINTER`. -/
theorem sinter_misses_string :
    ∃ s : MemoryStore Int, Reachable s ∧ s.toMaps.NotASet 0 (utf8 "str") ∧
      ∃ d, dispatch (World.plain 0) [utf8 "SINTER",utf8 "none",utf8 "str"] s=.ok d ∧
        d.resp=.bulks [] := by
  refine ⟨_,.dispatch (World.plain 0) [utf8 "SET",utf8 "str",utf8 "v"] .new rfl,
    ⟨.string,by decide,by decide⟩,_,rfl,rfl⟩

/-- Over keys that are sets or not there, the commands reply with exactly the intersection, the
union or the difference, and the `STORE` forms put it in the place of the destination. -/
theorem setOp_exact [Float64 F] (w : World) (op : SetOp) (s : MemoryStore F) (k : Bytes)
    (ks : List Bytes) (hks : ∀ j ∈ k::ks, ¬s.toMaps.NotASet w.now j) :
    (∀ name, commandOf (name::k::ks)=some (.read op.read) →
      ∃ xs, dispatch w (name::k::ks) s=.ok ⟨.bulks xs,s,[]⟩ ∧ xs.Nodup ∧
        ∀ x, x ∈ xs ↔ x ∈ op.combine (s.toMaps.setAt w.now) k ks) ∧
    ∀ name dst, commandOf (name::dst::k::ks)=some (.write op.store) →
      ∃ (d : Dispatched F) (st : KeySet), dispatch w (name::dst::k::ks) s=.ok d ∧
        (∀ x, x ∈ st ↔ x ∈ op.combine (s.toMaps.setAt w.now) k ks) ∧ d.resp=.integer st.size ∧
        d.store.toMaps.row dst=(if st=∅ then .absent else { Row.absent with set := some st }) ∧
        ∀ j, j ≠ dst → d.store.slot j=s.slot j := by
  have hnot : ¬op.Notices s.toMaps w.now k ks := by
    intro hnotices
    obtain ⟨j,hj,hbad⟩ := hnotices.notASet
    exact hks j hj hbad
  rcases op.members_cases s.toMaps w k ks with ⟨hnotices,_⟩ | ⟨_,xs,hrun,hxs,hmem⟩
  · exact absurd hnotices hnot
  constructor
  · intro name hc
    refine ⟨xs,?_,hxs,hmem⟩
    rw [SetOp.dispatch_read_op hc,hrun]
    rfl
  · intro name dst hc
    obtain ⟨d,hd,hcommit⟩ := SetOp.dispatch_store_op (w := w) (s := s) hc
    obtain ⟨st,s',hstore,hst,hrow,hothers⟩ := s.storeMembers_ok dst hxs
    rw [hrun,hstore] at hcommit
    have hresp : d.resp=.integer st.size := congrArg Prod.fst hcommit
    have hs' : d.store=s' := congrArg Prod.snd hcommit
    refine ⟨d,st,hd,fun x => (hst x).trans (hmem x),hresp,?_,?_⟩
    · rw [hs',hrow]
    · rw [hs']
      exact hothers

/-- A set from which a missing key is taken, into the set itself. -/
theorem setOp_exact_sdiff :
    let s : MemoryStore Int := MemoryStore.new.putSet (utf8 "a") ((∅ : KeySet).insert (utf8 "x"))
    (∃ xs, dispatch (World.plain 0) [utf8 "SDIFF",utf8 "a",utf8 "b"] s=.ok ⟨.bulks xs,s,[]⟩ ∧
      xs.Nodup ∧ ∀ x, x ∈ xs ↔ x ∈ SetOp.diff.combine (s.toMaps.setAt 0) (utf8 "a") [utf8 "b"]) ∧
    ∃ (d : Dispatched Int) (st : KeySet),
      dispatch (World.plain 0) [utf8 "SDIFFSTORE",utf8 "a",utf8 "a",utf8 "b"] s=.ok d ∧
      (∀ x, x ∈ st ↔ x ∈ SetOp.diff.combine (s.toMaps.setAt 0) (utf8 "a") [utf8 "b"]) ∧
      d.resp=.integer st.size ∧ ∀ j, j ≠ utf8 "a" → d.store.slot j=s.slot j := by
  intro s
  have hkeys : ∀ j ∈ [utf8 "a",utf8 "b"], s.typeOf 0 j=none ∨ s.typeOf 0 j=some .set := by decide
  have hboth := setOp_exact (World.plain 0) .diff s (utf8 "a") [utf8 "b"]
    fun j hj => Maps.not_notASet_iff.mpr (hkeys j hj)
  obtain ⟨d,st,hd,hst,hresp,_,hothers⟩ := hboth.2 (utf8 "SDIFFSTORE") (utf8 "a") (by decide)
  exact ⟨hboth.1 (utf8 "SDIFF") (by decide),d,st,hd,hst,hresp,hothers⟩

end GoRedis
