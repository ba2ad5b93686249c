import GoRedis.Go.Time
/-!
# What the process reads from outside

One `World` is what a single request sees: the clock, which stands still during the request but
for `OBJECT ENCODING`, Go's map iteration order, the random source, `filepath.Match`, the runtime
counters behind `INFO` and the publisher wired into the router. Scores are `float64` without NaN:
a linear order with the operations and the text conversions the source applies to them.
-/
namespace GoRedis

/-- A Go runtime panic; it ends the process. -/
inductive Panic
  | nilDereference
  | makeLen
  | sliceBounds
  | emptyRange
  | stackOverflow
  deriving DecidableEq, Repr

/-- A computation that may panic. -/
abbrev Go (α : Type) := Except Panic α

theorem Go.map_eq_ok {α β : Type} {x : Go α} {f : α → β} {b : β} :
    x.map f=.ok b ↔ ∃ a, x=.ok a ∧ f a=b := by
  cases x with
  | error p => simp [Except.map]
  | ok a => simp [Except.map]

theorem Go.map_eq_error {α β : Type} {x : Go α} {f : α → β} {p : Panic} :
    x.map f=.error p ↔ x=.error p := by
  cases x with
  | error p => simp [Except.map]
  | ok a => simp [Except.map]

/-- The address space: `make` panics when it is asked for more bytes. -/
def maxAlloc : Nat := 2^48

/-- Whether `make` of `len` elements of `size` bytes succeeds. -/
def MakeOk (size : Nat) (len : Int) : Prop := 0 ≤ len ∧ len*size ≤ maxAlloc

instance (size : Nat) (len : Int) : Decidable (MakeOk size len) :=
  inferInstanceAs (Decidable (_ ∧ _))

/-- `float64` without NaN. -/
class Float64 (F : Type) extends LinearOrder F, Add F, Mul F, Zero F, One F where
  /-- `math.Inf(1)` -/
  posInf : F
  /-- `math.Inf(-1)` -/
  negInf : F
  /-- `strconv.ParseFloat(s, 64)` -/
  parseFloat : Bytes → Option F
  /-- `strconv.FormatFloat(f, 'f', -1, 64)` -/
  formatFixed : F → Bytes
  /-- `strconv.FormatFloat(f, 'g', -1, 64)` -/
  formatGeneral : F → Bytes

/-- The values `INFO` prints that are not part of the store. -/
structure RuntimeInfo where
  os : Bytes
  goVersion : Bytes
  uptime : Int
  alloc : Nat
  allocHuman : Bytes

/-- Everything outside the store that one request reads. -/
structure World where
  now : Int
  /-- The clock at the second store call of `OBJECT ENCODING`. -/
  later : Int
  now_le_later : now ≤ later
  /-- The order in which `range` visits the keys of a map. -/
  rangeOrder : List Bytes → List Bytes
  rangeOrder_perm : ∀ l, (rangeOrder l).Perm l
  /-- `rand.Shuffle` -/
  shuffle : List Bytes → List Bytes
  shuffle_perm : ∀ l, (shuffle l).Perm l
  /-- The `i`-th call of `rand.IntN(n)` -/
  intN : Nat → Nat → Nat
  intN_lt : ∀ i n, 0 < n → intN i n < n
  /-- `filepath.Match(pattern, name)`; `none` is `ErrBadPattern`. -/
  filepathMatch : Bytes → Bytes → Option Bool
  /-- `int64(d.Seconds())`, which goes through `float64`. -/
  wholeSeconds : Int → Int
  runtime : RuntimeInfo
  /-- `pub.Publish`, when a publisher is wired in. -/
  publish : Option (Bytes → Bytes → Int)

namespace World

@[simp] theorem mem_rangeOrder (w : World) (l : List Bytes) (k : Bytes) :
    k ∈ w.rangeOrder l ↔ k ∈ l := (w.rangeOrder_perm l).mem_iff

@[simp] theorem mem_shuffle (w : World) (l : List Bytes) (k : Bytes) :
    k ∈ w.shuffle l ↔ k ∈ l := (w.shuffle_perm l).mem_iff

/-- Plain surroundings at an instant: maps are visited in order, nothing is shuffled. -/
def plain (now : Int) : World where
  now := now
  later := now
  now_le_later := le_rfl
  rangeOrder := id
  rangeOrder_perm _ := .refl _
  shuffle := id
  shuffle_perm _ := .refl _
  intN _ _ := 0
  intN_lt _ _ h := h
  filepathMatch pattern name := some (pattern=name)
  wholeSeconds d := d.tdiv second
  runtime := ⟨[],[],0,0,[]⟩
  publish := none

end World

/-- Whole-number scores between two values that stand for the infinities. `ParseFloat` folds
the case of ASCII letters only. -/
instance wholeScores : Float64 Int where
  posInf := 10^309
  negInf := -10^309
  parseFloat s :=
    if s.map upperByte ∈ [utf8 "INF",utf8 "+INF"] then some (10^309)
    else if s.map upperByte=utf8 "-INF" then some (-10^309)
    else parseInt s
  formatFixed := formatInt
  formatGeneral := formatInt

end GoRedis
