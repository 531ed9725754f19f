import Purgo.Domain
import Purgo.Lib.Bytes
import Purgo.Lib.Exec
import Purgo.Lib.Text
import Mathlib.Logic.Relation

/-!
# The PDF disarmer

`disarm_inner` works on the object graph that `lopdf` loads: a trailer dictionary and a map of
indirect objects. It deletes dictionary entries by their key (`classifyKey`) at every inline depth,
then whole objects (the payload sweep), and leaves unreachable objects to `prune_objects`.

`lopdf` itself is not modelled. What the disarmer uses of it is the parameter `Lopdf`, and what it
relies on is `Lopdf.Lawful`.
-/

namespace Purgo

open Rust

namespace Pdf

/-! ## The object graph -/

/-- The bytes of a PDF name. -/
abbrev Name := List UInt8

/-- `ObjectId`. -/
structure ObjectId where
  number : UInt32
  generation : UInt16
  deriving DecidableEq, Repr

/-- The order of the object map. -/
instance : LT ObjectId where
  lt a b := a.number < b.number ∨ (a.number = b.number ∧ a.generation < b.generation)

instance (a b : ObjectId) : Decidable (a < b) :=
  inferInstanceAs (Decidable (a.number < b.number ∨ (a.number = b.number ∧ _)))

/-- `StringFormat`. The disarmer does not look at it. -/
inductive StringFormat where
  | literal | hexadecimal
  deriving DecidableEq, Repr

/-- The objects the disarmer never looks into. A real is its bits. -/
inductive Scalar where
  | null : Scalar
  | boolean : Bool → Scalar
  | integer : Int64 → Scalar
  | real : UInt32 → Scalar

/-- `Object`, where all that is neither a text nor made of other objects is a scalar. A dictionary
is the list of its entries, in their order. -/
inductive Object where
  | scalar : Scalar → Object
  | name : Name → Object
  | string : List UInt8 → StringFormat → Object
  | array : List Object → Object
  | dictionary : List (Name × Object) → Object
  | stream : List (Name × Object) → List UInt8 → Object
  | reference : ObjectId → Object

/-- A dictionary, in the order its entries are iterated in. -/
abbrev Dictionary := List (Name × Object)

/-- What is loaded from a file. The disarmer changes the trailer and the objects; what it never
looks at goes from the file it loads to the file it saves. -/
@[ext]
structure Document where
  trailer : Dictionary
  /-- the object map, in the order of the ids -/
  objects : List (ObjectId × Object)
  /-- everything else: the version, the binary mark, the largest id and the kind of the
  cross-reference table -/
  rest : List UInt8

namespace Dictionary

/-- `Dictionary::get`, as an option. -/
def get (dict : Dictionary) (key : Name) : Option Object := dict.lookup key

/-- `dict.get(key).and_then(Object::as_name)`, as an option. -/
def getName (dict : Dictionary) (key : Name) : Option Name :=
  match get dict key with
  | some (.name n) => some n
  | _ => none

/-- No key stands twice. -/
def UniqueKeys (dict : Dictionary) : Prop := (dict.map Prod.fst).Nodup

end Dictionary

namespace Object

/-- The elements of an array. -/
def items : Object → List Object
  | array items => items
  | _ => []

/-- The entries of a dictionary, or of the dictionary of a stream. -/
def entries : Object → Dictionary
  | dictionary dict => dict
  | stream dict _ => dict
  | _ => []

/-- The second object is written inline in the first one, as an element or as the value of an
entry. -/
def Child (parent child : Object) : Prop :=
  child ∈ parent.items ∨ ∃ key, (key, child) ∈ parent.entries

/-- No key stands twice in a dictionary, at any inline depth. -/
def UniqueKeys (o : Object) : Prop :=
  ∀ p, Relation.ReflTransGen Child o p → Dictionary.UniqueKeys p.entries

end Object

/-- What the maps of `lopdf` guarantee. -/
structure Document.WellFormed (doc : Document) : Prop where
  sorted : doc.objects.Pairwise fun a b => a.1 < b.1
  trailer : (Object.dictionary doc.trailer).UniqueKeys
  objects : ∀ entry ∈ doc.objects, entry.2.UniqueKeys

/-- A document as `lopdf` holds it. -/
structure LoadedDocument extends Document where
  wellFormed : toDocument.WellFormed

/-- The object an id refers to, or is nothing. -/
def Document.Links (doc : Document) (p q : Object) : Prop :=
  p.Child q ∨ ∃ id, p = .reference id ∧ (id, q) ∈ doc.objects

/-- A reference to the id is reachable from the trailer. -/
def Document.Reachable (doc : Document) (id : ObjectId) : Prop :=
  Relation.ReflTransGen doc.Links (.dictionary doc.trailer) (.reference id)

/-! ## The library -/

/-- The functions of `lopdf` the disarmer calls. Loading and saving may panic on hostile input;
their errors are given by their text. -/
structure Lopdf where
  /-- `Document::load_mem` -/
  loadMem : List UInt8 → Exec String LoadedDocument
  /-- `Dictionary::remove`, by what it leaves -/
  remove : Dictionary → Name → Dictionary
  /-- `Document::prune_objects` -/
  pruneObjects : Document → Document
  /-- `Document::save_to` -/
  saveTo : Document → Exec String (List UInt8)

/-- What the disarmer relies on: removing an entry leaves the others, in some order, and pruning
leaves the objects reachable from the trailer, and all that is no object. -/
structure Lopdf.Lawful (L : Lopdf) : Prop where
  remove_perm : ∀ {dict : Dictionary} (key : Name), dict.UniqueKeys →
    (L.remove dict key).Perm (dict.filter fun entry => entry.1 != key)
  prune_trailer : ∀ doc : Document, (L.pruneObjects doc).trailer = doc.trailer
  prune_rest : ∀ doc : Document, (L.pruneObjects doc).rest = doc.rest
  prune_objects : ∀ doc : Document, (L.pruneObjects doc).objects.Sublist doc.objects
  mem_prune : ∀ (doc : Document) (id : ObjectId) (o : Object),
    (id, o) ∈ (L.pruneObjects doc).objects ↔ (id, o) ∈ doc.objects ∧ doc.Reachable id

/-! ## What is dangerous -/

/-- `ACTIVE_CONTENT_KEYS`. -/
def activeContentKeys : List Name :=
  [ascii "OpenAction", ascii "AA", ascii "JavaScript", ascii "JS"]

/-- `EMBEDDED_FILE_KEYS`. -/
def embeddedFileKeys : List Name := [ascii "EmbeddedFiles", ascii "EF"]

/-- The keys whose values are actions; these entries go only when the action is dangerous. -/
def actionHolderKeys : List Name := [ascii "A", ascii "Next"]

/-- `DANGEROUS_ACTION_SUBTYPES`. -/
def dangerousActionSubtypes : List Name :=
  [ascii "Launch", ascii "JavaScript", ascii "GoToR", ascii "URI", ascii "SubmitForm",
    ascii "ImportData", ascii "Rendition"]

/-- `MAX_DEPTH`. -/
def maxDepth : Nat := 64

/-- `malformed`. -/
def malformed (reason : String) : DomainError := .malformedInput .pdf reason

/-- `is_dangerous_action_subtype`. -/
def isDangerousActionSubtype (dict : Dictionary) : Bool :=
  match Dictionary.getName dict (ascii "S") with
  | some subtype => dangerousActionSubtypes.contains subtype
  | none => false

/-- `is_dangerous_action_object`. -/
def isDangerousActionObject : Object → Bool
  | .dictionary dict => isDangerousActionSubtype dict
  | .stream dict _ => isDangerousActionSubtype dict
  | _ => false

/-- `is_dangerous_action_holder`. -/
def isDangerousActionHolder (value : Object) (dangerousActions : List ObjectId) : Bool :=
  match value with
  | .reference id => dangerousActions.contains id
  | .dictionary dict => isDangerousActionSubtype dict
  -- an array of actions is none, whatever is written in it
  | _ => false

/-- `classify_key`. -/
def classifyKey (key : Name) (value : Object) (dangerousActions : List ObjectId) :
    Option ThreatClass :=
  if activeContentKeys.contains key then
    some .activeContent
  else if embeddedFileKeys.contains key then
    some .embeddedFile
  else if actionHolderKeys.contains key && isDangerousActionHolder value dangerousActions then
    some .activeContent
  else
    none

/-- `is_embedded_file_object`. -/
def isEmbeddedFileObject (object : Object) : Bool :=
  let typeName := match object with
    | .stream dict _ => Dictionary.getName dict (ascii "Type")
    | .dictionary dict => Dictionary.getName dict (ascii "Type")
    | _ => none
  typeName == some (ascii "EmbeddedFile") || typeName == some (ascii "Filespec")

mutual

/-- `object_size`. -/
def objectSize : Object → Nat
  | .stream _ content => content.length
  | .string bytes _ => bytes.length
  | .name bytes => bytes.length
  | .array items => itemsSize items
  | .dictionary dict => entriesSize dict
  | .scalar _ => 0
  | .reference _ => 0

/-- The sizes of the items of an array. -/
def itemsSize : List Object → Nat
  | [] => 0
  | item :: items => objectSize item + itemsSize items

/-- The keys of a dictionary, and the sizes of its values. -/
def entriesSize : List (Name × Object) → Nat
  | [] => 0
  | (key, value) :: entries => key.length + objectSize value + entriesSize entries

end

/-! ## The recursive sanitiser -/

/-- A run that pushes items to the report. -/
abbrev Reporting (α : Type) : Type := StateT (List RemovedItem) (Except DomainError) α

/-- `removed.push(item)`. -/
def push (item : RemovedItem) : Reporting Unit := modify (· ++ [item])

/-- The entries of a dictionary to be removed, with what is reported of them. -/
def toRemove (dangerousActions : List ObjectId) (dict : Dictionary) :
    List (Name × ThreatClass × String) :=
  dict.filterMap fun (key, value) =>
    (classifyKey key value dangerousActions).map fun threat =>
      let name := fromUtf8Lossy key
      let detail := match threat with
        | .embeddedFile => s!"embedded-file reference /{name}"
        | _ => s!"active-content entry /{name}"
      (key, threat, detail)

variable (L : Lopdf)

/-- Remove one entry, if it is there. -/
def removeEntry (location : String) (dict : Dictionary) :
    Name × ThreatClass × String → Reporting Dictionary
  | (key, threat, detail) =>
    match Dictionary.get dict key with
    | some value => do
      let name := fromUtf8Lossy key
      push { location := s!"{location} /{name}", threat := threat, detail := detail,
             bytesRemoved := objectSize value }
      return L.remove dict key
    | none => return dict

/-- The body of `sanitize_dictionary` below the check of the depth; `visit` is `sanitize_object` one
level deeper. -/
def sanitizeEntries (visit : Object → Reporting Object) (location : String)
    (dangerousActions : List ObjectId) (dict : Dictionary) : Reporting Dictionary := do
  -- everything is classified before anything is removed
  let dict ← (toRemove dangerousActions dict).foldlM (removeEntry L location) dict
  dict.mapM fun (key, value) => return (key, ← visit value)

/-- `sanitize_object`, with the number of levels left instead of the depth: no level is left at
`depth >= MAX_DEPTH`. -/
def sanitizeObject (location : String) (dangerousActions : List ObjectId) :
    Nat → Object → Reporting Object
  | 0, _ => throw (malformed "PDF object nesting too deep")
  | levels + 1, object =>
    let visit := sanitizeObject location dangerousActions levels
    match object with
    -- a dictionary is at the depth of its object, its values are one deeper
    | .dictionary dict => .dictionary <$> sanitizeEntries L visit location dangerousActions dict
    | .stream dict content =>
      (.stream · content) <$> sanitizeEntries L visit location dangerousActions dict
    | .array items => .array <$> items.mapM visit
    | other => return other

/-- `sanitize_dictionary`, with the number of levels left instead of the depth. -/
def sanitizeDictionary (location : String) (dangerousActions : List ObjectId) :
    Nat → Dictionary → Reporting Dictionary
  | 0, _ => throw (malformed "PDF object nesting too deep")
  | levels + 1, dict =>
    sanitizeEntries L (sanitizeObject L location dangerousActions levels) location
      dangerousActions dict

/-! ## The document -/

/-- The ids of the dangerous action objects. -/
def dangerousActions (doc : Document) : List ObjectId :=
  (doc.objects.filter fun entry => isDangerousActionObject entry.2).map Prod.fst

/-- The location of an object in the report. -/
def objectLocation (id : ObjectId) : String :=
  let number := id.number
  let generation := id.generation
  s!"object {number}_{generation}"

/-- Sanitise one indirect object in place. -/
def sanitizeEntry (dangerous : List ObjectId) (entry : ObjectId × Object) :
    Reporting (ObjectId × Object) := do
  return (entry.1, ← sanitizeObject L (objectLocation entry.1) dangerous maxDepth entry.2)

/-- The object goes in the payload sweep. -/
def isPayload (dangerous : List ObjectId) (entry : ObjectId × Object) : Bool :=
  dangerous.contains entry.1 || isEmbeddedFileObject entry.2

/-- Remove one object from the map, if it is there. -/
def removePayload (dangerous : List ObjectId) (objects : List (ObjectId × Object)) (id : ObjectId) :
    Reporting (List (ObjectId × Object)) :=
  match objects.lookup id with
  | some object => do
    let (threat, detail) :=
      if dangerous.contains id then
        (ThreatClass.activeContent, "dangerous action object (/S launch/javascript/uri/…)")
      else
        (ThreatClass.embeddedFile, "embedded file payload (/EmbeddedFile or /Filespec)")
    push { location := objectLocation id, threat := threat, detail := detail,
           bytesRemoved := objectSize object }
    return objects.filter fun entry => entry.1 != id
  | none => return objects

/-- The payload sweep. -/
def sweep (dangerous : List ObjectId) (objects : List (ObjectId × Object)) :
    Reporting (List (ObjectId × Object)) :=
  ((objects.filter (isPayload dangerous)).map Prod.fst).foldlM (removePayload dangerous) objects

/-- The sanitising phase of `disarm_inner`. -/
def sanitizeDocument (doc : Document) : Reporting Document := do
  let dangerous := dangerousActions doc
  let trailer ← sanitizeDictionary L "trailer" dangerous maxDepth doc.trailer
  let objects ← doc.objects.mapM (sanitizeEntry L dangerous)
  -- embedded files are recognised by what is left of them
  let objects ← sweep dangerous objects
  return { doc with trailer := trailer, objects := objects }

/-- What `disarm_inner` makes of a loaded document: sanitise, then prune. -/
def rebuild (doc : Document) : Except DomainError (Document × List RemovedItem) := do
  let (sanitized, removed) ← (sanitizeDocument L doc).run []
  return (L.pruneObjects sanitized, removed)

/-- `disarm_inner`. -/
def disarmInner (data : List UInt8) : Exec DomainError DisarmOutput := do
  let doc ← (L.loadMem data).mapErr fun e => malformed s!"cannot parse: {e}"
  let (rebuilt, removed) ← Exec.lift (rebuild L doc.toDocument)
  let out ← (L.saveTo rebuilt).mapErr fun e => malformed s!"cannot re-serialise: {e}"
  return { bytes := out, removed := removed }

end Pdf

open Pdf in
/-- `PdfDisarmer::disarm`: a panic is caught and reported. -/
def PdfDisarmer.disarm (L : Lopdf) (artifact : Artifact) (_policy : Policy) :
    Exec DomainError DisarmOutput :=
  match disarmInner L artifact.bytes with
  | .error .panic => Exec.fail (malformed "parser panicked on hostile input")
  | inner => inner

end Purgo
