import Mathlib
/-!
# Loops over lists

A test answers or fails. A loop over a list asks it of one element after the other and stops at
the first one that says no, or at the first failure: what stands behind is never looked at. Other
loops run to the end and gather what their rounds do.
-/
namespace Loops
variable {α ε : Type*}

/-- Does the test say yes to every element? -/
def all (test : α → Except ε Bool) : List α → Except ε Bool
  | [] => .ok true
  | a::as => match test a with
    | .error e => .error e
    | .ok false => .ok false
    | .ok true => all test as

/-- A walk over `as` comes to an element with `P`: everything before has `Q`. -/
def Reaches (P Q : α → Prop) (as : List α) : Prop :=
  ∃ as₁ a as₂, as=as₁++a::as₂ ∧ P a ∧ ∀ b ∈ as₁, Q b

section
variable {P Q : α → Prop} {a : α} {as : List α}

theorem not_reaches_nil : ¬Reaches P Q [] := by
  rintro ⟨as₁,a,as₂,heq,_⟩
  simp at heq

theorem reaches_cons : Reaches P Q (a::as) ↔ P a ∨ (Q a ∧ Reaches P Q as) := by
  constructor
  · rintro ⟨as₁,b,as₂,heq,hb,hall⟩
    cases as₁ with
    | nil =>
      cases heq
      exact .inl hb
    | cons c as₁ =>
      cases heq
      rw [List.forall_mem_cons] at hall
      exact .inr ⟨hall.1,as₁,b,as₂,rfl,hb,hall.2⟩
  · rintro (ha | ⟨ha,as₁,b,as₂,rfl,hb,hall⟩)
    · exact ⟨[],a,as,rfl,ha,by simp⟩
    · exact ⟨a::as₁,b,as₂,rfl,hb,List.forall_mem_cons.mpr ⟨ha,hall⟩⟩

theorem reaches_first : Reaches P (fun b => ¬P b ∧ Q b) as ↔ Reaches P Q as := by
  induction as with
  | nil => exact iff_of_false not_reaches_nil not_reaches_nil
  | cons a as ih =>
    rw [reaches_cons,reaches_cons,ih]
    tauto

theorem Reaches.mem (h : Reaches P Q as) : ∃ a ∈ as, P a := by
  obtain ⟨as₁,a,as₂,rfl,ha,_⟩ := h
  exact ⟨a,by simp,ha⟩

theorem reaches_of_mem (ha : a ∈ as) (hP : P a) (hQ : ∀ b ∈ as, Q b) : Reaches P Q as := by
  obtain ⟨as₁,as₂,rfl⟩ := List.append_of_mem ha
  exact ⟨as₁,a,as₂,rfl,hP,fun b hb => hQ b (List.mem_append_left _ hb)⟩

end

variable {test : α → Except ε Bool} {as : List α}

theorem all_eq_true_iff : all test as=.ok true ↔ ∀ a ∈ as, test a=.ok true := by
  induction as with
  | nil => simp [all]
  | cons a as ih =>
    rw [all,List.forall_mem_cons,← ih]
    cases h : test a with
    | error e => simp
    | ok b => cases b <;> simp

theorem all_eq_error_iff {e : ε} : all test as=.error e ↔
    Reaches (fun a => test a=.error e) (fun a => test a=.ok true) as := by
  induction as with
  | nil => exact iff_of_false (by simp [all]) not_reaches_nil
  | cons a as ih =>
    rw [all,reaches_cons,← ih]
    cases h : test a with
    | error e' => simp
    | ok b => cases b <;> simp

section Gather
variable {σ β : Type*} {round : σ → α → σ}

theorem foldl_constant (measure : σ → β) (hround : ∀ s a, measure (round s a)=measure s)
    (as : List α) (s : σ) : measure (as.foldl round s)=measure s := by
  induction as generalizing s with
  | nil => rfl
  | cons a as ih => rw [List.foldl_cons,ih,hround]

theorem foldl_adds (Has : σ → α → Prop)
    (hround : ∀ s a b, Has (round s a) b ↔ Has s b ∨ b=a) (as : List α) (s : σ) (b : α) :
    Has (as.foldl round s) b ↔ Has s b ∨ b ∈ as := by
  induction as generalizing s with
  | nil => simp
  | cons a as ih => rw [List.foldl_cons,ih,hround,List.mem_cons,or_assoc]

theorem foldl_removes (Has : σ → α → Prop)
    (hfound : ∀ s a, Has s a → ∀ b, Has (round s a) b ↔ Has s b ∧ b ≠ a)
    (hmissing : ∀ s a, ¬Has s a → round s a=s) (as : List α) (s : σ) (b : α) :
    Has (as.foldl round s) b ↔ Has s b ∧ b ∉ as := by
  induction as generalizing s with
  | nil => simp
  | cons a as ih =>
    have hround : Has (round s a) b ↔ Has s b ∧ b ≠ a := by
      by_cases ha : Has s a
      · exact hfound s a ha b
      · rw [hmissing s a ha]
        refine ⟨fun hb => ⟨hb,?_⟩,And.left⟩
        rintro rfl
        exact ha hb
    rw [List.foldl_cons,ih,hround,List.mem_cons,not_or,and_assoc]

end Gather
end Loops
