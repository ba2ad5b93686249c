import GoRedis.Protocol.Serializer
import GoRedis.Storage.Store
/-!
# How handlers reply

A handler that only reads is a function of the maps and returns its reply; one that writes
returns the store as well. The helpers here are the error texts that many handlers share
and the translation of a store operation's result into a reply.
-/
namespace GoRedis

def wrongArgs (cmd : String) : Response :=
  .error (utf8 "ERR wrong number of arguments for '"++utf8 cmd++utf8 "' command")

def notInteger : Response := .error (utf8 "ERR value is not an integer or out of range")

def notFloat : Response := .error (utf8 "ERR value is not a valid float")

def syntaxError : Response := .error (utf8 "ERR syntax error")

def okReply : Response := .simpleString (utf8 "OK")

def boolReply (b : Bool) : Response := .integer (if b then 1 else 0)

/-- A bulk string, or the null bulk string when there is no value. -/
def optReply : Option Bytes → Response
  | none => .nullBulkString
  | some v => .bulkString v

namespace Response

@[simp] theorem int_integer (n : Int) : (integer n).int=n := rfl

@[simp] theorem isNullBulk_bulkString (v : Bytes) : (bulkString v).isNullBulk=false := rfl

@[simp] theorem isNullBulk_bulks (vs : List Bytes) : (bulks vs).isNullBulk=false := rfl

@[simp] theorem elems_bulks (vs : List Bytes) : (bulks vs).elems=vs.map bulkString := rfl

end Response

@[simp] theorem optReply_isNullBulk (v : Option Bytes) : (optReply v).isNullBulk=v.isNone := by
  cases v <;> rfl

@[simp] theorem optReply_isNullArray (v : Option Bytes) : (optReply v).isNullArray=false := by
  cases v <;> rfl

@[simp] theorem boolReply_int (b : Bool) : (boolReply b).int=1 ↔ b=true := by
  cases b <;> decide

@[simp] theorem okReply_isError : okReply.isError=false := rfl

@[simp] theorem boolReply_isError (b : Bool) : (boolReply b).isError=false := rfl

@[simp] theorem optReply_isError (v : Option Bytes) : (optReply v).isError=false := by
  cases v <;> rfl

/-- The reply of a reading operation that may find the wrong type. -/
def replyOf {α : Type} (f : α → Response) : Except StoreError α → Response
  | .error e => .error e.text
  | .ok a => f a

section
variable {F α : Type}

/-- The reply and the store after a writing operation; a failed one leaves the store alone. -/
def commit (s : MemoryStore F) (f : α → Response) :
    Except StoreError (α × MemoryStore F) → Response × MemoryStore F
  | .error e => (.error e.text,s)
  | .ok (a,s') => (f a,s')

@[simp] theorem commit_error (s : MemoryStore F) (f : α → Response) (e : StoreError) :
    commit s f (.error e)=(.error e.text,s) := rfl

@[simp] theorem commit_ok (s : MemoryStore F) (f : α → Response) (p : α × MemoryStore F) :
    commit s f (.ok p)=(f p.1,p.2) := rfl

end

/-- The arguments of a pop: a key and a number of elements, which is 1 unless it is given, and
whether it is. -/
inductive PopArgs : List Bytes → Bytes → Int → Bool → Prop
  | one {cmd key : Bytes} : PopArgs [cmd,key] key 1 false
  | counted {cmd key n : Bytes} {count : Int} (hn : parseInt n=some count) (hpos : 0 ≤ count) :
      PopArgs [cmd,key,n] key count true

namespace PopArgs
variable {args : List Bytes} {key : Bytes} {count : Int} {withCount : Bool}

theorem nonneg (h : PopArgs args key count withCount) : 0 ≤ count := by
  cases h with
  | one => decide
  | counted _ hpos => exact hpos

theorem eq_one (h : PopArgs args key count false) : count=1 := by
  cases h
  rfl

theorem named (h : PopArgs args key count withCount) : (args.drop 1).take 1=[key] := by
  cases h <;> rfl

theorem of_filter {cmd n : Bytes} (h : (parseInt n).filter (fun n => 0 ≤ n)=some count) :
    PopArgs [cmd,key,n] key count true := by
  obtain ⟨hn,hpos⟩ := Option.filter_eq_some_iff.mp h
  exact .counted hn (of_decide_eq_true hpos)

end PopArgs
end GoRedis
