import GoRedis.Storage.Hashes
import GoRedis.Storage.Sets
import GoRedis.Storage.ZSets
/-!
# Cursor-based iteration
-/
namespace GoRedis

/-- `sort.Strings` -/
def sortStrings (l : List Bytes) : List Bytes := l.insertionSort fun a b => compare a b ≠ .gt

/-- The paging loop of the four scans: the next cursor and the elements it visits. -/
def scanPage {α : Type} (items : List α) (cursor : Nat) (count : Int) : Nat × List α :=
  let count := if count ≤ 0 then 10 else count
  let cursor := if items.length ≤ cursor then 0 else cursor
  let page := (items.drop cursor).take count.toNat
  let pos := cursor+page.length
  (if items.length ≤ pos then 0 else pos,page)

/-- The pattern test of the four scans. -/
def scanMatches (w : World) (pattern name : Bytes) : Bool :=
  pattern=[] ∨ pattern=utf8 "*" ∨ w.filepathMatch pattern name=some true

namespace Maps
variable {F : Type}

def allKeys (m : Maps F) (now : Int) : List Bytes :=
  sortStrings (m.countedStrings now++m.collectionKeys now)

def scan (m : Maps F) (w : World) (cursor : Nat) (pattern : Bytes) (count : Int) :
    Nat × List Bytes :=
  let (next,page) := scanPage (m.allKeys w.now) cursor count
  (next,page.filter (scanMatches w pattern))

def hScan (m : Maps F) (w : World) (key : Bytes) (cursor : Nat) (pattern : Bytes) (count : Int) :
    Except StoreError (Nat × List Bytes) :=
  match m.liveHash w.now key with
  | none => .ok (0,[])
  | some h =>
    if m.typeOf w.now key ≠ some .hash then .error .wrongType
    else
      let (next,page) := scanPage (sortStrings h.keys) cursor count
      .ok (next,(page.filter (scanMatches w pattern)).flatMap fun f => [f,h.getD f []])

def sScan (m : Maps F) (w : World) (key : Bytes) (cursor : Nat) (pattern : Bytes) (count : Int) :
    Except StoreError (Nat × List Bytes) :=
  match if m.keyExpiredNonStr w.now key then none else m.sets[key]? with
  | none => .ok (0,[])
  | some st =>
    if m.typeOf w.now key ≠ some .set then .error .wrongType
    else
      let (next,page) := scanPage (sortStrings st.toList) cursor count
      .ok (next,page.filter (scanMatches w pattern))

def zScan [Float64 F] (m : Maps F) (w : World) (key : Bytes) (cursor : Nat) (pattern : Bytes)
    (count : Int) : Except StoreError (Nat × List Bytes) :=
  match if m.keyExpiredNonStr w.now key then none else m.zsets[key]? with
  | none => .ok (0,[])
  | some z =>
    if m.typeOf w.now key ≠ some .zset then .error .wrongType
    else
      let (next,page) := scanPage (sortedMembers z) cursor count
      .ok (next,withScores true (page.filter fun x => scanMatches w pattern x.member))

end Maps
end GoRedis
