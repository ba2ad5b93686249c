import GoRedis.Commands.Router
import GoRedis.Storage.Counts
/-!
# Counts in replies
-/
namespace GoRedis
variable {F : Type} [Float64 F] {w : World} {s : MemoryStore F} {args rest : List Bytes}
  {name key : Bytes} {c : WriteCommand} {n : MemoryStore F → Int}
open MemoryStore

/-- An error, or the integer `n` of the store afterwards. -/
def Counts (n : MemoryStore F → Int) (p : Response × MemoryStore F) : Prop :=
  p.1.isError=false → p.1=.integer (n p.2)

/-- The request is answered, and unless it is refused the reply is the integer `n` of the store
afterwards. -/
def RepliesCount (w : World) (args : List Bytes) (s : MemoryStore F) (n : MemoryStore F → Int) :
    Prop :=
  ∃ d, dispatch w args s=.ok d ∧ Counts n (d.resp,d.store)

theorem repliesCount_of_execute {p : Response × MemoryStore F}
    (hc : commandOf args=some (.write c)) (h : execute w c args s=.ok p) (hp : Counts n p) :
    RepliesCount w args s n := by
  obtain ⟨d,hd,hresp,hstore⟩ := dispatch_of_execute hc h
  refine ⟨d,hd,?_⟩
  rw [hresp,hstore]
  exact hp

section
omit [Float64 F]

theorem counts_error {r : Response} (hr : r.isError=true) : Counts n (r,s) := by
  intro he
  rw [hr] at he
  cases he

theorem counts_commit {α : Type} {f : α → Response} {res : Except StoreError (α × MemoryStore F)}
    (h : ∀ a s', res=.ok (a,s') → f a=.integer (n s')) : Counts n (commit s f res) := by
  cases res with
  | error e => exact counts_error rfl
  | ok p => exact fun _ => h p.1 p.2 rfl

end

theorem sadd_count (hc : commandOf (name::key::rest)=some (.write .sadd))
    (hexp : s.keyExpiredNonStr w.now key=false) : RepliesCount w (name::key::rest) s
      fun s' => s'.setSize w.now key-s.setSize w.now key := by
  apply repliesCount_of_execute hc rfl
  cases rest with
  | nil => exact counts_error rfl
  | cons x xs => exact counts_commit fun a s' h => congrArg Response.integer (sAdd_size hexp h)

theorem srem_count (hc : commandOf (name::key::rest)=some (.write .srem)) :
    RepliesCount w (name::key::rest) s
      fun s' => s.setSize w.now key-s'.setSize w.now key := by
  apply repliesCount_of_execute hc rfl
  cases rest with
  | nil => exact counts_error rfl
  | cons x xs => exact counts_commit fun a s' h => congrArg Response.integer (sRem_size h)

theorem zadd_count (hc : commandOf (name::key::rest)=some (.write .zadd))
    (hch : (zaddFlags rest {}).1.ch=false) (hexp : s.keyExpiredNonStr w.now key=false) :
    RepliesCount w (name::key::rest) s
      fun s' => s'.zsetSize w.now key-s.zsetSize w.now key := by
  apply repliesCount_of_execute hc rfl
  unfold handleZAdd
  split
  · rename_i heq
    cases heq
    dsimp only
    split_ifs
    · exact counts_error rfl
    · exact counts_error rfl
    · exact counts_error rfl
    · split
      · exact counts_error rfl
      · exact counts_commit fun a s' h => congrArg Response.integer (zAdd_size hch hexp h)
  · exact counts_error rfl

theorem zrem_count (hc : commandOf (name::key::rest)=some (.write .zrem)) :
    RepliesCount w (name::key::rest) s
      fun s' => s.zsetSize w.now key-s'.zsetSize w.now key := by
  apply repliesCount_of_execute hc rfl
  cases rest with
  | nil => exact counts_error rfl
  | cons x xs => exact counts_commit fun a s' h => congrArg Response.integer (zRem_size h)

theorem hset_count (hc : commandOf (name::key::rest)=some (.write .hset))
    (hexp : s.keyExpiredNonStr w.now key=false) :
    RepliesCount w (name::key::rest) s fun s' => s'.hLen w.now key-s.hLen w.now key := by
  apply repliesCount_of_execute hc rfl
  unfold handleHSet
  split_ifs
  · exact fun _ => congrArg Response.integer (hSet_size _ hexp)
  · exact counts_error rfl

theorem hdel_count (hc : commandOf (name::key::rest)=some (.write .hdel)) :
    RepliesCount w (name::key::rest) s fun s' => s.hLen w.now key-s'.hLen w.now key := by
  apply repliesCount_of_execute hc rfl
  cases rest with
  | nil => exact counts_error rfl
  | cons f fs => exact fun _ => congrArg Response.integer (hDel_size s w.now key (f::fs))

/-- Counts in replies are changes of size: what `SADD`, `HSET` and `ZADD` without `CH` reply is how
much the collection has grown, what `SREM`, `HDEL` and `ZREM` reply is how much it has shrunk, and
`DEL` replies how many of the keys it names there were, none of which is left. -/
theorem counts_are_size_changes (w : World) (s : MemoryStore F) :
    (∀ name key rest, s.keyExpiredNonStr w.now key=false →
      (commandOf (name::key::rest)=some (.write .sadd) →
        RepliesCount w (name::key::rest) s
          fun s' => s'.setSize w.now key-s.setSize w.now key) ∧
      (commandOf (name::key::rest)=some (.write .hset) →
        RepliesCount w (name::key::rest) s fun s' => s'.hLen w.now key-s.hLen w.now key) ∧
      (commandOf (name::key::rest)=some (.write .zadd) → (zaddFlags rest {}).1.ch=false →
        RepliesCount w (name::key::rest) s
          fun s' => s'.zsetSize w.now key-s.zsetSize w.now key) ∧
      (commandOf (name::key::rest)=some (.write .srem) →
        RepliesCount w (name::key::rest) s
          fun s' => s.setSize w.now key-s'.setSize w.now key) ∧
      (commandOf (name::key::rest)=some (.write .hdel) →
        RepliesCount w (name::key::rest) s fun s' => s.hLen w.now key-s'.hLen w.now key) ∧
      (commandOf (name::key::rest)=some (.write .zrem) →
        RepliesCount w (name::key::rest) s
          fun s' => s.zsetSize w.now key-s'.zsetSize w.now key)) ∧
    ∀ name keys, commandOf (name::keys)=some (.write .del) →
      ∃ d, dispatch w (name::keys) s=.ok d ∧ (d.resp.isError=false →
        d.resp=.integer (keys.toFinset.filter fun k => s.typeOf w.now k ≠ none).card ∧
          ∀ k ∈ keys, d.store.typeOf w.now k=none) := by
  constructor
  · intro name key rest hexp
    exact ⟨fun hc => sadd_count hc hexp,fun hc => hset_count hc hexp,
      fun hc hch => zadd_count hc hch hexp,srem_count,hdel_count,zrem_count⟩
  · intro name keys hc
    obtain ⟨d,hd,hresp,hstore⟩ := dispatch_of_execute (w := w) (s := s) hc rfl
    refine ⟨d,hd,?_⟩
    rw [hresp,hstore]
    cases keys with
    | nil =>
      intro he
      cases he
    | cons k keys =>
      intro _
      refine ⟨?_,fun k' hk' => ?_⟩
      · rw [← del_count]
        rfl
      · exact (typeOf_del s w.now (k::keys) k').trans (if_pos hk')

/-- A member that is named twice is counted once, and so is a key. -/
theorem counts_are_size_changes_repeated :
    let s : MemoryStore Int := MemoryStore.new.putSet (utf8 "k") ((∅ : KeySet).insert (utf8 "a"))
    (∃ d, dispatch (World.plain 0) [utf8 "SADD",utf8 "k",utf8 "a",utf8 "b",utf8 "b"] s=.ok d ∧
      d.resp=.integer (d.store.setSize 0 (utf8 "k")-s.setSize 0 (utf8 "k"))) ∧
    ∃ d, dispatch (World.plain 0) [utf8 "DEL",utf8 "k",utf8 "k"] s=.ok d ∧ d.resp=.integer 1 := by
  intro s
  constructor
  · obtain ⟨d,hd,hcount⟩ := ((counts_are_size_changes (World.plain 0) s).1 (utf8 "SADD") (utf8 "k")
      [utf8 "a",utf8 "b",utf8 "b"] (by decide)).1 (by decide)
    have hreply : dispatch (World.plain 0)
        [utf8 "SADD",utf8 "k",utf8 "a",utf8 "b",utf8 "b"] s=.ok _ := rfl
    cases hreply.symm.trans hd
    exact ⟨_,hd,hcount rfl⟩
  · obtain ⟨d,hd,hcount⟩ := (counts_are_size_changes (World.plain 0) s).2 (utf8 "DEL")
      [utf8 "k",utf8 "k"] (by decide)
    have hreply : dispatch (World.plain 0) [utf8 "DEL",utf8 "k",utf8 "k"] s=.ok _ := rfl
    cases hreply.symm.trans hd
    exact ⟨_,hd,(hcount rfl).1⟩

end GoRedis
