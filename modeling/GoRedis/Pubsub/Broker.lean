import GoRedis.Go.World
/-!
# The broker

Two maps from names to the sets of their subscribers, one for channels and one for patterns.
Both are written by the same few operations; an entry that loses its last subscriber is deleted.
-/
namespace GoRedis

/-- A `map[string]map[*Subscriber]struct{}`. -/
abbrev Subscribers (S : Type) := Map (Finset S)

/-- The fields of `Broker` that its lock protects. -/
structure Broker (S : Type) where
  channels : Subscribers S
  patterns : Subscribers S

namespace Subscribers
variable {S : Type} [DecidableEq S]

/-- The body that `Subscribe` and `PSubscribe` share. -/
def add (m : Subscribers S) (key : Bytes) (sub : S) : Subscribers S :=
  m.insert key (insert sub (m.getD key ∅))

def removeFromMap (m : Subscribers S) (key : Bytes) (sub : S) : Subscribers S :=
  match m[key]? with
  | none => m
  | some subs => if subs.erase sub=∅ then m.erase key else m.insert key (subs.erase sub)

/-- The loop of `removeSubFromAllChannels` over the keys in the order in which they are visited:
the keys the subscriber was removed from and the map. -/
def removeLoop (sub : S) : List Bytes → Subscribers S → List Bytes × Subscribers S
  | [],m => ([],m)
  | key::keys,m =>
    if sub ∈ m.getD key ∅ then
      let (removed,m') := removeLoop sub keys (m.removeFromMap key sub)
      (key::removed,m')
    else removeLoop sub keys m

def removeSubFromAllChannels (w : World) (m : Subscribers S) (sub : S) :
    List Bytes × Subscribers S := removeLoop sub (w.rangeOrder m.keys) m

/-- The subscriber is in the entry of that name. -/
def Has (m : Subscribers S) (key : Bytes) (sub : S) : Prop := sub ∈ m.getD key ∅

instance (m : Subscribers S) (key : Bytes) (sub : S) : Decidable (m.Has key sub) :=
  inferInstanceAs (Decidable (sub ∈ m.getD key ∅))

/-- No entry is empty. -/
def NoEmpty (m : Subscribers S) : Prop :=
  ∀ (key : Bytes) (subs : Finset S), m[key]?=some subs → subs ≠ ∅

/-- The number of entries that contain the subscriber. -/
def count (m : Subscribers S) (sub : S) : Nat := m.keys.countP fun key => m.Has key sub

variable {m : Subscribers S} {key k : Bytes} {sub j : S}

omit [DecidableEq S] in
theorem has_empty (k : Bytes) (j : S) : ¬(∅ : Subscribers S).Has k j := by simp [Has]

omit [DecidableEq S] in
theorem mem_of_has (h : m.Has k j) : k ∈ m := by
  by_contra hk
  simp [Has,Std.ExtTreeMap.getD_eq_fallback hk] at h

theorem has_add : (m.add key sub).Has k j ↔ k=key ∧ j=sub ∨ m.Has k j := by
  by_cases hk : k=key
  · subst hk
    simp [Has,add]
  · have hne : ¬key=k := fun h => hk h.symm
    simp [Has,add,Std.ExtTreeMap.getD_insert,hk,hne]

theorem getD_removeFromMap (m : Subscribers S) (key : Bytes) (sub : S) (k : Bytes) :
    (m.removeFromMap key sub).getD k ∅=
      if key=k then (m.getD k ∅).erase sub else m.getD k ∅ := by
  unfold removeFromMap
  simp only [Std.ExtTreeMap.getD_eq_getD_getElem?]
  cases hm : m[key]? with
  | none =>
    split_ifs with hk
    · subst hk
      simp [hm]
    · rfl
  | some subs =>
    dsimp only
    split_ifs with he hk hk
    · subst hk
      simp [hm,he]
    · rw [Map.getElem?_erase,if_neg hk]
    · subst hk
      simp [hm]
    · rw [Map.getElem?_insert,if_neg hk]

theorem has_removeFromMap :
    (m.removeFromMap key sub).Has k j ↔ m.Has k j ∧ ¬(k=key ∧ j=sub) := by
  rw [Has,getD_removeFromMap,Has]
  split_ifs with hk
  · subst hk
    simp [and_comm]
  · simp [Ne.symm hk]

theorem noEmpty_add (h : m.NoEmpty) : (m.add key sub).NoEmpty := by
  intro k subs hk
  rw [add,Map.getElem?_insert] at hk
  split_ifs at hk
  · cases hk
    exact Finset.insert_ne_empty _ _
  · exact h k subs hk

theorem noEmpty_removeFromMap (h : m.NoEmpty) : (m.removeFromMap key sub).NoEmpty := by
  unfold removeFromMap
  split
  · exact h
  · intro k subs hk
    split_ifs at hk with he
    · rw [Map.getElem?_erase] at hk
      split_ifs at hk
      exact h k subs hk
    · rw [Map.getElem?_insert] at hk
      split_ifs at hk
      · cases hk
        exact he
      · exact h k subs hk

theorem has_removeLoop (keys : List Bytes) :
    (removeLoop sub keys m).2.Has k j ↔ m.Has k j ∧ ¬(k ∈ keys ∧ j=sub) := by
  induction keys generalizing m with
  | nil => simp [removeLoop]
  | cons key keys ih =>
    rw [removeLoop]
    split_ifs with hmem
    · rw [ih,has_removeFromMap,List.mem_cons]
      tauto
    · rw [ih,List.mem_cons]
      have : k=key → j=sub → ¬m.Has k j := by
        rintro rfl rfl
        exact hmem
      tauto

theorem noEmpty_removeLoop (h : m.NoEmpty) (keys : List Bytes) :
    (removeLoop sub keys m).2.NoEmpty := by
  induction keys generalizing m with
  | nil => exact h
  | cons key keys ih =>
    rw [removeLoop]
    split_ifs
    · exact ih (noEmpty_removeFromMap h)
    · exact ih h

theorem has_removeSubFromAllChannels (w : World) :
    (m.removeSubFromAllChannels w sub).2.Has k j ↔ m.Has k j ∧ j ≠ sub := by
  have hvisit : m.Has k j → k ∈ w.rangeOrder m.keys := by
    intro h
    rw [World.mem_rangeOrder,Std.ExtTreeMap.mem_keys]
    exact mem_of_has h
  rw [removeSubFromAllChannels,has_removeLoop]
  tauto

theorem noEmpty_removeSubFromAllChannels (h : m.NoEmpty) (w : World) :
    (m.removeSubFromAllChannels w sub).2.NoEmpty := noEmpty_removeLoop h _

theorem count_eq_size {names : KeySet} (h : ∀ k, k ∈ names ↔ m.Has k sub) :
    m.count sub=names.size := by
  have hkeys : ∀ k, k ∈ (m.keys.filter fun key => m.Has key sub) ↔ k ∈ names.toList := by
    intro k
    rw [List.mem_filter,Std.ExtTreeSet.mem_toList,h k,Std.ExtTreeMap.mem_keys,decide_eq_true_iff]
    exact ⟨fun hk => hk.2,fun hk => ⟨mem_of_has hk,hk⟩⟩
  have hnodup : (m.keys.filter fun key => m.Has key sub).Nodup :=
    Std.ExtTreeMap.nodup_keys.filter _
  have hperm := (List.perm_ext_iff_of_nodup hnodup (KeySet.nodup_toList names)).mpr hkeys
  rw [count,List.countP_eq_length_filter,hperm.length_eq,Std.ExtTreeSet.length_toList]

end Subscribers

namespace Broker
variable {S : Type}

/-- `NewBroker` -/
def new : Broker S := ⟨∅,∅⟩

variable [DecidableEq S]

def subscribe (b : Broker S) (channel : Bytes) (sub : S) : Broker S :=
  { b with channels := b.channels.add channel sub }

def unsubscribe (b : Broker S) (channel : Bytes) (sub : S) : Broker S :=
  { b with channels := b.channels.removeFromMap channel sub }

def unsubscribeAll (w : World) (b : Broker S) (sub : S) : List Bytes × Broker S :=
  let (removed,m) := b.channels.removeSubFromAllChannels w sub
  (removed,{ b with channels := m })

def psubscribe (b : Broker S) (pattern : Bytes) (sub : S) : Broker S :=
  { b with patterns := b.patterns.add pattern sub }

def punsubscribe (b : Broker S) (pattern : Bytes) (sub : S) : Broker S :=
  { b with patterns := b.patterns.removeFromMap pattern sub }

def punsubscribeAll (w : World) (b : Broker S) (sub : S) : List Bytes × Broker S :=
  let (removed,m) := b.patterns.removeSubFromAllChannels w sub
  (removed,{ b with patterns := m })

/-- No entry of either map is empty. -/
def NoEmpty (b : Broker S) : Prop := b.channels.NoEmpty ∧ b.patterns.NoEmpty

/-- The number of entries of both maps that contain the subscriber. -/
def count (b : Broker S) (sub : S) : Nat := b.channels.count sub+b.patterns.count sub

end Broker
end GoRedis
