import Mathlib
/-!
# Last write wins

Writes and deletions of single keys. After a sequence of them every key has the value of the
last one that was about it, so two orders of the same writes agree where their last ones do.
-/
namespace LastWrite
variable {K V : Type*} [DecidableEq K]

/-- A write of a key, or its deletion. -/
structure Write (K V : Type*) where
  key : K
  value : Option V
  deriving DecidableEq

/-- The value that the last write of `k` gives it, and none if there is no such write. -/
def lastWrite (ws : List (Write K V)) (k : K) : Option V :=
  ((ws.filter fun w => w.key=k).getLast?).bind Write.value

@[simp] theorem lastWrite_nil : lastWrite ([] : List (Write K V))=fun _ => none := rfl

theorem lastWrite_concat (ws : List (Write K V)) (w : Write K V) :
    lastWrite (ws++[w])=Function.update (lastWrite ws) w.key w.value := by
  funext k
  rw [Function.update_apply,lastWrite,List.filter_append]
  by_cases hk : k=w.key
  · simp [hk]
  · have hk' : w.key ≠ k := fun e => hk e.symm
    simp [lastWrite,hk,hk']

end LastWrite
