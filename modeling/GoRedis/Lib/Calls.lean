import Mathlib
/-!
# Programs that call a shared service

A program makes calls one at a time and goes on with what each returns; between two calls
anything may happen to the service. `Makes` and `Returns` say which calls a program can make,
whatever the answers are. A pool is a set of clients that each serve requests by such
programs, call by call in any interleaving, against one shared state.
-/
namespace Calls
variable {C : Type} {R : C → Type} {α β : Type}

inductive Prog (C : Type) (R : C → Type) (α : Type)
  | pure (a : α)
  | call (c : C) (next : R c → Prog C R α)

/-- A call and what it returned. -/
abbrev Made (R : C → Type) := Σ c, R c

namespace Prog

def bind : Prog C R α → (α → Prog C R β) → Prog C R β
  | pure a,f => f a
  | call c next,f => call c fun r => (next r).bind f

instance : Monad (Prog C R) where
  pure := Prog.pure
  bind := Prog.bind

/-- A single call. -/
def request (c : C) : Prog C R (R c) := call c pure

@[simp] theorem pure_eq (a : α) : (Pure.pure a : Prog C R α)=.pure a := rfl

@[simp] theorem pure_bind (a : α) (f : α → Prog C R β) : (.pure a : Prog C R α) >>= f=f a := rfl

@[simp] theorem call_bind (c : C) (next : R c → Prog C R α) (f : α → Prog C R β) :
    .call c next >>= f=.call c fun r => next r >>= f := rfl

@[simp] theorem request_bind (c : C) (f : R c → Prog C R β) : request c >>= f=.call c f := rfl

/-- The program gets from here to there by these calls. -/
def Makes : Prog C R α → List (Made R) → Prog C R α → Prop
  | p,[],p' => p'=p
  | p,⟨c,r⟩::l,p' => ∃ next, p=.call c next ∧ Makes (next r) l p'

/-- The program returns a value after these calls. -/
def Returns (p : Prog C R α) (l : List (Made R)) (a : α) : Prop := p.Makes l (.pure a)

@[simp] theorem makes_nil {p p' : Prog C R α} : p.Makes [] p' ↔ p'=p := Iff.rfl

theorem makes_cons {p p' : Prog C R α} {c : C} {r : R c} {l : List (Made R)} :
    p.Makes (⟨c,r⟩::l) p' ↔ ∃ next, p=.call c next ∧ (next r).Makes l p' := Iff.rfl

theorem makes_append {p p' : Prog C R α} {l l' : List (Made R)} :
    p.Makes (l++l') p' ↔ ∃ q, p.Makes l q ∧ q.Makes l' p' := by
  induction l generalizing p with
  | nil => simp
  | cons m l ih =>
    obtain ⟨c,r⟩ := m
    simp only [List.cons_append,makes_cons,ih]
    constructor
    · rintro ⟨next,rfl,q,h,h'⟩
      exact ⟨q,⟨next,rfl,h⟩,h'⟩
    · rintro ⟨q,⟨next,rfl,h⟩,h'⟩
      exact ⟨next,rfl,q,h,h'⟩

theorem Makes.snoc {p : Prog C R α} {l : List (Made R)} {c : C} {next : R c → Prog C R α}
    (h : p.Makes l (.call c next)) (r : R c) : p.Makes (l++[⟨c,r⟩]) (next r) :=
  makes_append.mpr ⟨_,h,next,rfl,rfl⟩

@[simp] theorem makes_pure {a : α} {l : List (Made R)} {p : Prog C R α} :
    (pure a : Prog C R α).Makes l p ↔ l=[] ∧ p=.pure a := by
  cases l with
  | nil => simp
  | cons m l =>
    obtain ⟨c,r⟩ := m
    simp [makes_cons]

theorem makes_call {c : C} {next : R c → Prog C R α} {l : List (Made R)} {p : Prog C R α} :
    (call c next).Makes l p ↔ (l=[] ∧ p=.call c next) ∨
      ∃ r l', l=⟨c,r⟩::l' ∧ (next r).Makes l' p := by
  cases l with
  | nil => simp
  | cons m l =>
    obtain ⟨c',r⟩ := m
    simp only [makes_cons,reduceCtorEq,false_and,List.cons.injEq,false_or]
    constructor
    · rintro ⟨next',heq,h⟩
      cases heq
      exact ⟨r,l,⟨rfl,rfl⟩,h⟩
    · rintro ⟨r',l',⟨hm,rfl⟩,h⟩
      cases hm
      exact ⟨next,rfl,h⟩

@[simp] theorem returns_pure {a b : α} {l : List (Made R)} :
    (pure a : Prog C R α).Returns l b ↔ l=[] ∧ b=a := by
  simp [Returns]

@[simp] theorem returns_call {c : C} {next : R c → Prog C R α} {l : List (Made R)} {a : α} :
    (call c next).Returns l a ↔ ∃ r l', l=⟨c,r⟩::l' ∧ (next r).Returns l' a := by
  simp [Returns,makes_call]

theorem makes_bind {p : Prog C R α} {f : α → Prog C R β} {l : List (Made R)} {x : Prog C R β} :
    (p >>= f).Makes l x ↔ (∃ c next, p.Makes l (.call c next) ∧ x=.call c next >>= f) ∨
      ∃ l₁ a l₂, l=l₁++l₂ ∧ p.Returns l₁ a ∧ (f a).Makes l₂ x := by
  induction p generalizing l with
  | pure a => simp
  | call c next ih =>
    simp only [call_bind,makes_call,ih,returns_call]
    constructor
    · rintro (⟨rfl,rfl⟩ | ⟨r,l',rfl,⟨c',next',h,rfl⟩ | ⟨l₁,a,l₂,rfl,h,h'⟩⟩)
      · exact .inl ⟨c,next,.inl ⟨rfl,rfl⟩,rfl⟩
      · exact .inl ⟨c',next',.inr ⟨r,l',rfl,h⟩,rfl⟩
      · exact .inr ⟨⟨c,r⟩::l₁,a,l₂,rfl,⟨r,l₁,rfl,h⟩,h'⟩
    · rintro (⟨c',next',⟨rfl,h⟩ | ⟨r,l',rfl,h⟩,rfl⟩ | ⟨_,a,l₂,rfl,⟨r,l₁,rfl,h⟩,h'⟩)
      · cases h
        exact .inl ⟨rfl,rfl⟩
      · exact .inr ⟨r,l',rfl,.inl ⟨c',next',h,rfl⟩⟩
      · exact .inr ⟨r,l₁++l₂,rfl,.inr ⟨l₁,a,l₂,rfl,h,h'⟩⟩

theorem returns_bind {p : Prog C R α} {f : α → Prog C R β} {l : List (Made R)} {b : β} :
    (p >>= f).Returns l b ↔ ∃ l₁ a l₂, l=l₁++l₂ ∧ p.Returns l₁ a ∧ (f a).Returns l₂ b := by
  simp [Returns,makes_bind]

/-- Every call the program can make satisfies `P`, every value it can return `P'`. -/
def Always (P : C → Prop) (P' : α → Prop) : Prog C R α → Prop
  | pure a => P' a
  | call c next => P c ∧ ∀ r, (next r).Always P P'

theorem Always.mono {P : C → Prop} {P' P'' : α → Prop} {p : Prog C R α} (h : p.Always P P')
    (himp : ∀ a, P' a → P'' a) : p.Always P P'' := by
  induction p with
  | pure a => exact himp a h
  | call c next ih => exact ⟨h.1,fun r => ih r (h.2 r)⟩

theorem Always.bind {P : C → Prop} {P' : α → Prop} {P'' : β → Prop} {p : Prog C R α}
    {f : α → Prog C R β} (h : p.Always P P') (hf : ∀ a, P' a → (f a).Always P P'') :
    (p >>= f).Always P P'' := by
  induction p with
  | pure a => exact hf a h
  | call c next ih => exact ⟨h.1,fun r => ih r (h.2 r)⟩

theorem Always.makes {P : C → Prop} {P' : α → Prop} {p p' : Prog C R α} {l : List (Made R)}
    (h : p.Always P P') (hm : p.Makes l p') : (∀ m ∈ l, P m.1) ∧ p'.Always P P' := by
  induction l generalizing p with
  | nil =>
    obtain rfl := hm
    exact ⟨by simp,h⟩
  | cons m l ih =>
    obtain ⟨next,rfl,hm⟩ := hm
    obtain ⟨hl,hp⟩ := ih (h.2 m.2) hm
    exact ⟨List.forall_mem_cons.mpr ⟨h.1,hl⟩,hp⟩

theorem Always.returns {P : C → Prop} {P' : α → Prop} {p : Prog C R α} {l : List (Made R)} {a : α}
    (h : p.Always P P') (hret : p.Returns l a) : P' a := (h.makes hret).2

end Prog

section Pool
variable {I Q L A W S B ε : Type}

/-- A request that was served: the calls it took, with what surrounded each, and the reply. -/
structure Exchange (W Q A : Type) (R : C → Type) where
  request : Q
  calls : List (W × Made R)
  reply : A

/-- The calls of an exchange. -/
def Exchange.made (x : Exchange W Q A R) : List (Made R) := x.calls.map Prod.snd

/-- Requests served one after the other, each from the local state the last one left. -/
inductive Session (serve : Q → L → Prog C R (A × L)) : L → List (Exchange W Q A R) → L → Prop
  | nil (l : L) : Session serve l [] l
  | cons {l l' l'' : L} {x : Exchange W Q A R} {xs : List (Exchange W Q A R)}
      (h : (serve x.request l).Returns x.made (x.reply,l')) (hs : Session serve l' xs l'') :
      Session serve l (x::xs) l''

theorem Session.append {serve : Q → L → Prog C R (A × L)} {l l' l'' : L}
    {xs ys : List (Exchange W Q A R)} (hx : Session serve l xs l') (hy : Session serve l' ys l'') :
    Session serve l (xs++ys) l'' := by
  induction hx with
  | nil => exact hy
  | cons h _ ih => exact .cons h (ih hy)

theorem session_append {serve : Q → L → Prog C R (A × L)} {l l'' : L}
    {xs ys : List (Exchange W Q A R)} :
    Session serve l (xs++ys) l'' ↔ ∃ l', Session serve l xs l' ∧ Session serve l' ys l'' := by
  constructor
  · intro h
    induction xs generalizing l with
    | nil => exact ⟨l,.nil l,h⟩
    | cons x xs ih =>
      cases h with
      | cons h hs =>
        obtain ⟨l',hx,hy⟩ := ih hs
        exact ⟨l',.cons h hx,hy⟩
  · rintro ⟨l',hx,hy⟩
    exact hx.append hy

theorem session_cons {serve : Q → L → Prog C R (A × L)} {l l'' : L} {x : Exchange W Q A R}
    {xs : List (Exchange W Q A R)} :
    Session serve l (x::xs) l'' ↔
      ∃ l', (serve x.request l).Returns x.made (x.reply,l') ∧ Session serve l' xs l'' := by
  constructor
  · rintro (_ | ⟨h,hs⟩)
    exact ⟨_,h,hs⟩
  · rintro ⟨l',h,hs⟩
    exact .cons h hs

theorem session_nil {serve : Q → L → Prog C R (A × L)} {l l' : L} :
    Session serve l ([] : List (Exchange W Q A R)) l' ↔ l'=l := by
  constructor
  · rintro ⟨⟩
    rfl
  · rintro rfl
    exact .nil _

end Pool
end Calls
