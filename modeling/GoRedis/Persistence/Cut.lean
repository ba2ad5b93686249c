import GoRedis.Persistence.Expiry
/-!
# A log cut between two records

`SETEX` and `PSETEX` are the commands that `appendToAOF` writes as two records, by two calls of
`Append`. A crash between the calls leaves the value without its deadline. The deadline itself is
recorded in milliseconds.
-/
namespace GoRedis
open PrefixCode Journal

section
variable {F : Type} [Float64 F] {world : Nat → World} {t : Int}

omit [Float64 F] in
theorem Tracks.toMaps_eq {s r : MemoryStore F} (h : Tracks t (fun _ => false) s r) :
    r.toMaps=s.toMaps := by
  obtain ⟨f,g,hs,hr,hf⟩ := h
  obtain rfl : f=g := funext fun k => (hf k).1
  exact hr.unique hs

/-- Keys and values, taken in turn. -/
def pairs : List Bytes → List (Bytes × Bytes)
  | k::v::rest => (k,v)::pairs rest
  | _ => []

/-- The store holds strings, and not this value under this key without a deadline. -/
def Avoids (key value : Bytes) (s : MemoryStore F) : Prop :=
  ∃ f, s.HoldsCells f ∧ f key ≠ some ⟨value,none⟩

omit [Float64 F] in
theorem Avoids.update {key value k : Bytes} {s : MemoryStore F} {f : Bytes → Cell} {c : Cell}
    (hs : s.HoldsCells (Function.update f k c)) (hf : f key ≠ some ⟨value,none⟩)
    (hc : k=key → c ≠ some ⟨value,none⟩) : Avoids key value s := by
  refine ⟨_,hs,?_⟩
  by_cases hk : k=key
  · subst hk
    rw [Function.update_self]
    exact hc rfl
  · rwa [Function.update_of_ne fun e => hk e.symm]

omit [Float64 F] in
theorem Avoids.set {key value : Bytes} {s : MemoryStore F} (h : Avoids key value s) {k v : Bytes}
    (hne : (key,value) ≠ (k,v)) : Avoids key value (s.set k v) := by
  obtain ⟨f,hs,hf⟩ := h
  refine .update (MemoryStore.holds_set hs k v) hf ?_
  rintro rfl hv
  cases hv
  exact hne rfl

omit [Float64 F] in
theorem Avoids.mset {key value : Bytes} {s : MemoryStore F} (h : Avoids key value s)
    {kvs : List Bytes} (hne : (key,value) ∉ pairs kvs) : Avoids key value (msetLoop s kvs) := by
  fun_induction pairs kvs generalizing s with
  | case1 k v rest ih =>
    rw [msetLoop]
    rw [List.mem_cons,not_or] at hne
    exact ih (h.set hne.1) hne.2
  | case2 kvs hshape =>
    rw [msetLoop.eq_2 _ _ hshape]
    exact h

omit [Float64 F] in
theorem Avoids.del {key value : Bytes} {s : MemoryStore F} (h : Avoids key value s) (now : Int)
    (ks : List Bytes) : Avoids key value (s.del now ks).2 := by
  induction ks generalizing s with
  | nil => exact h
  | cons k ks ih =>
    rw [MemoryStore.del_cons]
    obtain ⟨f,hs,hf⟩ := h
    refine ih (.update (MemoryStore.holds_del hs now k) hf ?_)
    rintro rfl
    unfold Cell.del
    split
    · simp
    · exact hf

section
variable (F)

end

end

end GoRedis
