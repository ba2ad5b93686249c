import Mathlib
/-!
# Go strings and maps

A Go string is a sequence of bytes with no encoding invariant, so keys, values and
arguments are lists of bytes ordered bytewise. Go maps are extensional tree maps: two of
them are equal exactly when they hold the same entries.
-/
namespace GoRedis

/-- A Go `string`: any sequence of bytes. -/
abbrev Bytes := List UInt8

instance instLawfulBEqBytes : LawfulBEq Bytes := inferInstance

/-- The bytes of a string literal of the source, which Go source files hold in UTF-8. -/
def utf8 (s : String) : Bytes := s.toUTF8.data.toList

/-- A Go `map[string]V`. -/
abbrev Map (V : Type) := Std.ExtTreeMap Bytes V compare

/-- A Go `map[string]struct{}` used as a set. -/
abbrev KeySet := Std.ExtTreeSet Bytes compare

def upperByte (b : UInt8) : UInt8 := if 97 ≤ b ∧ b ≤ 122 then b-32 else b

def lowerByte (b : UInt8) : UInt8 := if 65 ≤ b ∧ b ≤ 90 then b+32 else b

/-- `strings.ToUpper`, as far as a comparison with an ASCII word can see it: the two
non-ASCII letters whose upper case is ASCII are U+0131 (to `I`) and U+017F (to `S`), and
every other non-ASCII byte stays outside ASCII. -/
def toUpper : Bytes → Bytes
  | [] => []
  | [b] => [upperByte b]
  | b::c::s =>
    if b=0xC4 ∧ c=0xB1 then 73::toUpper s
    else if b=0xC5 ∧ c=0xBF then 83::toUpper s
    else upperByte b::toUpper (c::s)

/-- `strings.ToLower`, with the same reading: U+0130 goes to `i` and U+212A to `k`. -/
def toLower : Bytes → Bytes
  | [] => []
  | [b] => [lowerByte b]
  | [b,c] => if b=0xC4 ∧ c=0xB0 then [105] else [lowerByte b,lowerByte c]
  | b::c::d::s =>
    if b=0xC4 ∧ c=0xB0 then 105::toLower (d::s)
    else if b=0xE2 ∧ c=0x84 ∧ d=0xAA then 107::toLower s
    else lowerByte b::toLower (c::d::s)

/-- `strings.HasPrefix(s, "(")` and the remainder behind the byte. -/
def stripByte (b : UInt8) : Bytes → Option Bytes
  | [] => none
  | c::s => if c=b then some s else none

section Maps
variable {V : Type}

@[simp] theorem compare_eq_iff (a b : Bytes) : compare a b=.eq ↔ a=b :=
  Std.LawfulEqCmp.compare_eq_iff_eq

theorem Map.getElem?_insert (m : Map V) (k a : Bytes) (v : V) :
    (m.insert k v)[a]? = if k=a then some v else m[a]? := by
  simp [Std.ExtTreeMap.getElem?_insert]

theorem Map.getElem?_erase (m : Map V) (k a : Bytes) :
    (m.erase k)[a]? = if k=a then none else m[a]? := by
  simp [Std.ExtTreeMap.getElem?_erase]

theorem Map.eq_empty_iff (m : Map V) : m=∅ ↔ ∀ k : Bytes, m[k]?=none := by
  constructor
  · rintro rfl k
    simp
  · intro h
    apply Std.ExtTreeMap.ext_getElem?
    intro k
    simp [h k]

theorem Map.isEmpty_iff_forall {m : Map V} : m.isEmpty=true ↔ ∀ k, k ∉ m := by
  rw [Std.ExtTreeMap.isEmpty_iff,Map.eq_empty_iff]
  simp only [Std.ExtTreeMap.mem_iff_isSome_getElem?,Option.not_isSome_iff_eq_none]

theorem Map.mem_erase_iff {m : Map V} {k x : Bytes} : k ∈ m.erase x ↔ k ∈ m ∧ k ≠ x := by
  rw [Std.ExtTreeMap.mem_erase,ne_eq,compare_eq_iff,eq_comm (a := x)]
  exact and_comm

theorem Map.getElem?_foldl_insert_of_notMem (l : List (Bytes × V)) (m : Map V) {k : Bytes}
    (hk : k ∉ l.map Prod.fst) : (l.foldl (fun m p => m.insert p.1 p.2) m)[k]?=m[k]? := by
  induction l generalizing m with
  | nil => rfl
  | cons p l ih =>
    simp only [List.map_cons,List.mem_cons,not_or] at hk
    rw [List.foldl_cons,ih _ hk.2,Map.getElem?_insert,if_neg fun h => hk.1 h.symm]

theorem Map.getElem?_foldl_insert_of_mem (l : List (Bytes × V)) (m : Map V) {k : Bytes} {v : V}
    (hd : (l.map Prod.fst).Nodup) (hk : (k,v) ∈ l) :
    (l.foldl (fun m p => m.insert p.1 p.2) m)[k]?=some v := by
  induction l generalizing m with
  | nil => cases hk
  | cons p l ih =>
    rw [List.map_cons,List.nodup_cons] at hd
    rw [List.foldl_cons]
    rcases List.mem_cons.mp hk with rfl | hk
    · rw [Map.getElem?_foldl_insert_of_notMem l _ hd.1,Map.getElem?_insert,if_pos rfl]
    · exact ih _ hd.2 hk

theorem Map.getElem?_foldl_toList (m fields : Map V) (k : Bytes) :
    (fields.toList.foldl (fun m p => m.insert p.1 p.2) m)[k]?=fields[k]?.or m[k]? := by
  cases h : fields[k]? with
  | some v =>
    apply Map.getElem?_foldl_insert_of_mem
    · rw [Std.ExtTreeMap.map_fst_toList_eq_keys]
      exact Std.ExtTreeMap.nodup_keys
    · exact Std.ExtTreeMap.mem_toList_iff_getElem?_eq_some.mpr h
  | none =>
    apply Map.getElem?_foldl_insert_of_notMem
    rw [Std.ExtTreeMap.map_fst_toList_eq_keys,Std.ExtTreeMap.mem_keys,
      Std.ExtTreeMap.mem_iff_isSome_getElem?,h]
    simp

theorem Map.getElem?_moved {m : Map V} {src dst : Bytes} {v : V} (hne : src ≠ dst)
    (hsrc : m[src]?=some v) (d : V) (k : Bytes) :
    (((m.erase dst).insert dst ((m.erase dst).getD src d)).erase src)[k]?=
      if src=k then none else if dst=k then m[src]? else m[k]? := by
  have hkept : (m.erase dst).getD src d=v := by
    rw [Std.ExtTreeMap.getD_eq_getD_getElem?,Map.getElem?_erase,if_neg hne.symm,hsrc]
    rfl
  rw [Map.getElem?_erase,Map.getElem?_insert,hkept,Map.getElem?_erase,hsrc]
  split_ifs <;> rfl

theorem Map.getElem?_move {m : Map V} {src dst k : Bytes} {d v : V} (hsrc : src ∈ m)
    (h : (((m.erase dst).insert dst ((m.erase dst).getD src d)).erase src)[k]?=some v) :
    ∃ k' : Bytes, m[k']?=some v := by
  rw [Map.getElem?_erase,Map.getElem?_insert,Map.getElem?_erase,
    Std.ExtTreeMap.getD_eq_getD_getElem?,Map.getElem?_erase] at h
  rw [Std.ExtTreeMap.mem_iff_isSome_getElem?] at hsrc
  obtain ⟨u,hu⟩ := Option.isSome_iff_exists.mp hsrc
  split_ifs at h with h₁ h₂ h₃
  · exact absurd (h₃.symm.trans h₂) h₁
  · exact ⟨src,by simpa [hu] using h⟩
  · exact ⟨k,h⟩

end Maps

section Sets

theorem KeySet.nodup_toList (st : KeySet) : st.toList.Nodup :=
  Std.ExtTreeSet.distinct_toList.imp fun h => by simpa using h

theorem KeySet.mem_foldl_insert (l : List Bytes) (st : KeySet) (x : Bytes) :
    x ∈ l.foldl (fun acc y => acc.insert y) st ↔ x ∈ st ∨ x ∈ l := by
  induction l generalizing st with
  | nil => simp
  | cons y l ih =>
    rw [List.foldl_cons,ih,Std.ExtTreeSet.mem_insert,List.mem_cons,compare_eq_iff,
      eq_comm (a := y)]
    tauto

theorem KeySet.mem_foldl_erase (l : List Bytes) (st : KeySet) (x : Bytes) :
    x ∈ l.foldl (fun acc y => acc.erase y) st ↔ x ∈ st ∧ x ∉ l := by
  induction l generalizing st with
  | nil => simp
  | cons y l ih =>
    rw [List.foldl_cons,ih,Std.ExtTreeSet.mem_erase,List.mem_cons,ne_eq,compare_eq_iff,
      eq_comm (a := y)]
    tauto

theorem KeySet.isEmpty_iff_forall {st : KeySet} : st.isEmpty=true ↔ ∀ x, x ∉ st := by
  rw [Std.ExtTreeSet.isEmpty_iff]
  constructor
  · rintro rfl x
    exact Std.ExtTreeSet.not_mem_empty
  · intro h
    apply Std.ExtTreeSet.ext_mem
    intro x
    simp [h x]

theorem KeySet.mem_erase_iff {st : KeySet} {x y : Bytes} : x ∈ st.erase y ↔ x ∈ st ∧ x ≠ y := by
  rw [Std.ExtTreeSet.mem_erase,ne_eq,compare_eq_iff,eq_comm (a := y)]
  exact and_comm

theorem KeySet.ne_empty_of_mem {st : KeySet} {x : Bytes} (h : x ∈ st) : st ≠ ∅ := by
  rintro rfl
  simp at h

theorem KeySet.foldl_erase_ne_empty {st : KeySet} {l : List Bytes} {n : Nat}
    (hl : l.Perm st.toList) (hn : n < l.length) :
    (l.take n).foldl (fun acc y => acc.erase y) st ≠ ∅ := by
  have hnodup : l.Nodup := hl.nodup_iff.mpr (KeySet.nodup_toList st)
  have hmem : l[n] ∈ st := by
    rw [← Std.ExtTreeSet.mem_toList,← hl.mem_iff]
    exact List.getElem_mem hn
  refine KeySet.ne_empty_of_mem ((KeySet.mem_foldl_erase _ _ _).mpr ⟨hmem,?_⟩)
  intro h
  obtain ⟨i,hi,he⟩ := List.mem_take_iff_getElem.mp h
  have := (hnodup.getElem_inj_iff).mp he
  omega

end Sets
end GoRedis
