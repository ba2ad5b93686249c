import GoRedis.Protocol.Parser
/-!
# The append-only file

The file is its bytes: `Append` puts one encoded command behind what is there and `Open`
keeps the content. When a write reaches the disk is a matter of the sync policy, which no
result here depends on.
-/
namespace GoRedis

/-- An argument list that `Append` can turn into a slice of responses, each argument a string
the process can hold. -/
structure Fits (args : List Bytes) : Prop where
  elems : MakeOk responseSize args.length
  bytes : ∀ a ∈ args, MakeOk 1 a.length

instance (args : List Bytes) : Decidable (Fits args) :=
  decidable_of_iff (MakeOk responseSize args.length ∧ ∀ a ∈ args, MakeOk 1 a.length)
    ⟨fun h => ⟨h.1,h.2⟩,fun h => ⟨h.elems,h.bytes⟩⟩

def append (file : Bytes) (args : List Bytes) : Bytes := file++encode args

/-- `Open`: an absent file is created, an existing one keeps its content. -/
def openAppend (file : Option Bytes) : Bytes := file.getD []

/-- The bytes of a log that was written record by record. -/
def encodeAll (log : List (List Bytes)) : Bytes := log.flatMap encode

@[simp] theorem encodeAll_nil : encodeAll []=[] := rfl

@[simp] theorem encodeAll_cons (args : List Bytes) (log : List (List Bytes)) :
    encodeAll (args::log)=encode args++encodeAll log := by simp [encodeAll]

theorem encodeAll_append (a b : List (List Bytes)) :
    encodeAll (a++b)=encodeAll a++encodeAll b := by simp [encodeAll]

theorem foldl_append (log : List (List Bytes)) (file : Bytes) :
    log.foldl append file=file++encodeAll log := by
  induction log generalizing file with
  | nil => simp
  | cons args log ih => simp [ih,append]

end GoRedis
