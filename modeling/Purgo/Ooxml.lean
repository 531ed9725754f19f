import Mathlib.Data.List.Infix
import Purgo.Domain
import Purgo.Lib.Exec
import Purgo.Lib.Text

/-!
# The OOXML disarmer

`disarm_inner` copies a ZIP archive entry by entry: directories and ordinary parts as they are,
macro projects and embedded OLE objects not at all, and relationships parts (`.rels`) after
`sanitize_rels` has taken out the relationships that are external or of an active type.

The `zip` and `quick-xml` libraries are not modelled. What the disarmer uses of them are the
parameters `ZipCrate` and `QuickXml`: an archive is a list of entries, a text is a list of events,
and a writer is the list of what has been written to it.
-/

namespace Purgo

open Rust

namespace Ooxml

/-- `malformed`. -/
def malformed (reason : String) : DomainError := .malformedInput .ooxml reason

/-! ## XML events -/

/-- A qualified name: what stands before the colon, and the local name. -/
structure QName where
  space : Option String
  localName : String
  deriving DecidableEq, Repr

/-- An attribute. Its normalised value may be an error. -/
structure Attribute where
  key : QName
  value : Except String String

/-- A start tag or an empty tag: its text between the brackets, its name, and what the iterator over
its attributes yields, which is an error for the second of two attributes with the same qualified
name. -/
structure Tag where
  content : String
  name : QName
  attributes : List (Except String Attribute)
  distinct : ((attributes.filterMap Except.toOption).map Attribute.key).Nodup

/-- The events that are written back whatever they say. -/
inductive Markup where
  | text | cData | comment | decl | pi | docType | generalRef
  deriving DecidableEq, Repr

/-- What the reader reports, and what the writer writes. -/
inductive Event where
  | start : Tag → Event
  | empty : Tag → Event
  | stop : QName → Event
  | other : Markup → String → Event

/-- What the disarmer uses of `quick-xml`. -/
structure QuickXml where
  /-- what `read_event` answers, one call after the other, up to the end of the text -/
  readEvents : String → List (Exec String Event)
  /-- `write_event`, to a writer that the events have been written to -/
  writeEvent : List Event → Event → Exec String Unit
  /-- the bytes in a writer that the events have been written to -/
  intoInner : List Event → List UInt8

/-! ## Relationships -/

/-- `ACTIVE_TYPE_SUFFIXES`: the ends of relationship types that lead to active content. -/
def activeTypeSuffixes : List String := ["oleobject", "vbaproject"]

/-- The type ends with an active suffix. -/
def isActiveType (typeValue : String) : Bool :=
  activeTypeSuffixes.any fun suffix => suffix.toList.isSuffixOf (asciiLower typeValue)

/-- What has been seen of the attributes of a relationship. -/
structure Seen where
  targetModeExternal : Bool
  typeValue : String
  idValue : String

/-- Look at one attribute. -/
def seeAttribute (seen : Seen) (attr : Except String Attribute) : Except DomainError Seen :=
  match attr with
  | .error e => throw (malformed s!"malformed relationship attribute: {e}")
  | .ok attr =>
    match attr.value with
    | .error e => throw (malformed s!"malformed relationship attribute value: {e}")
    | .ok value =>
      -- a prefix does not matter, and a later attribute overrides an earlier one
      let key := attr.key.localName
      if key = "TargetMode" then
        return { seen with targetModeExternal := eqIgnoreAsciiCase value "external" }
      else if key = "Type" then
        return { seen with typeValue := value }
      else if key = "Id" then
        return { seen with idValue := value }
      else
        return seen

/-- `classify_relationship`. -/
def classifyRelationship (element : Tag) :
    Except DomainError (Option (ThreatClass × String × Nat)) := do
  let seen ← element.attributes.foldlM seeAttribute
    { targetModeExternal := false, typeValue := "", idValue := "" }
  let typeValue := seen.typeValue
  let size := element.content.utf8ByteSize
  let id := if seen.idValue.isEmpty then "?" else seen.idValue
  if isActiveType typeValue then
    return some (.activeContent, s!"relationship {id} of active type '{typeValue}'", size)
  else if seen.targetModeExternal then
    return some (.externalReference, s!"external relationship {id} -> '{typeValue}'", size)
  else
    return none

/-- The local name is `Relationship`. -/
def QName.isRelationship (name : QName) : Bool := name.localName == "Relationship"

/-- The tag of a relationship, if the event is one. -/
def Event.relationship? : Event → Option Tag
  | start tag => if tag.name.isRelationship then some tag else none
  | empty tag => if tag.name.isRelationship then some tag else none
  | _ => none

/-- A start tag, whose element goes on until its end tag. -/
def Event.isStart : Event → Bool
  | start _ => true
  | _ => false

/-- `skip_to_end`, at a number of open relationships. -/
def skipToEnd (part : String) : Nat → List (Exec String Event) →
    Exec DomainError (List (Exec String Event))
  | _, [] => Exec.fail (malformed s!"unterminated element in '{part}'")
  | depth, event :: rest => do
    match ← event.mapErr fun e => malformed s!"malformed relationships XML in '{part}': {e}" with
    | .start tag => skipToEnd part (if tag.name.isRelationship then depth + 1 else depth) rest
    | .stop name =>
      -- elements of other names are passed over, open or closed
      if name.isRelationship then
        if depth - 1 = 0 then return rest else skipToEnd part (depth - 1) rest
      else
        skipToEnd part depth rest
    | _ => skipToEnd part depth rest

/-- The variables of the loop of `sanitize_rels`: what is still to be read, what has been written,
and what has been removed. -/
structure RelsState where
  rest : List (Exec String Event)
  written : List Event
  removed : List RemovedItem

variable (X : QuickXml)

/-- Write an event. -/
def reEmit (part : String) (rest : List (Exec String Event)) (event : Event) (st : RelsState) :
    Exec DomainError (LoopFlow RelsState RelsState) := do
  (X.writeEvent st.written event).mapErr fun e => malformed s!"cannot re-emit '{part}': {e}"
  return .next { st with rest := rest, written := st.written ++ [event] }

/-- One round of the loop: one event. -/
def relsRound (part : String) (st : RelsState) :
    Exec DomainError (LoopFlow RelsState RelsState) := do
  match st.rest with
  | [] => return .done st
  | event :: rest =>
    let event ← event.mapErr fun e => malformed s!"malformed relationships XML in '{part}': {e}"
    match event.relationship? with
    | none => reEmit X part rest event st
    | some element =>
      match ← Exec.lift (classifyRelationship element) with
      | none => reEmit X part rest event st
      | some (threat, detail, size) =>
        let item : RemovedItem :=
          { location := s!"part {part}", threat := threat, detail := detail, bytesRemoved := size }
        -- an empty tag has no subtree to skip
        let rest ← (if event.isStart then skipToEnd part 1 rest else .ok rest)
        return .next { st with rest := rest, removed := st.removed ++ [item] }

/-- The loop of `sanitize_rels`. Every round reads an event, so their number bounds the rounds. -/
def sanitizeEvents (part : String) (events : List (Exec String Event)) :
    Exec DomainError RelsState :=
  loop (relsRound X part) (events.length + 1) { rest := events, written := [], removed := [] }

/-- `sanitize_rels`. -/
def sanitizeRels (raw : List UInt8) (part : String) :
    Exec DomainError (List UInt8 × List RemovedItem) := do
  match fromUtf8 raw with
  | none => Exec.fail (malformed s!"relationships part '{part}' is not valid UTF-8")
  | some text =>
    let st ← sanitizeEvents X part (X.readEvents text)
    return (X.intoInner st.written, st.removed)

/-! ## The archive -/

/-- An entry of an archive: its name, the size it declares, and what reading it gives, up to a
failure or to the end. -/
structure ZipEntry where
  name : String
  size : Nat
  data : List UInt8
  failure : Option (Fault String)
  /-- everything else that a copy takes along: the compression method and the compressed bytes, the
  time and the permissions -/
  rest : List UInt8
  deriving DecidableEq, Repr

/-- What the disarmer uses of `zip`. -/
structure ZipCrate where
  /-- `ZipArchive::new`, and `by_index` at each index -/
  openArchive : List UInt8 → Exec String (List (Exec String ZipEntry))
  isDir : ZipEntry → Bool
  rawCopyFileRename : List ZipEntry → ZipEntry → String → Exec String (List ZipEntry)
  startFile : List ZipEntry → String → Exec String (List ZipEntry)
  writeAll : List ZipEntry → List UInt8 → Exec String (List ZipEntry)
  finish : List ZipEntry → Exec String (List UInt8)

/-- The name is that of a directory. -/
def isDirName (name : String) : Bool :=
  name.toList.getLast? == some '/' || name.toList.getLast? == some '\\'

/-- What the disarmer relies on. A copy is a copy of all of an entry, and how a part is compressed
that is written anew is up to the library. -/
structure ZipCrate.Lawful (Z : ZipCrate) : Prop where
  isDir_eq : ∀ entry, Z.isDir entry = isDirName entry.name
  rawCopy : ∀ {written written' entry name},
    Z.rawCopyFileRename written entry name = .ok written' →
      written' = written ++ [{ entry with name := name }]
  startFile : ∀ {written written' name}, Z.startFile written name = .ok written' →
    ∃ rest, written' = written ++ [{ name, size := 0, data := [], failure := none, rest }]
  writeAll : ∀ {written written' entry bytes},
    Z.writeAll (written ++ [entry]) bytes = .ok written' →
      ∃ rest, written' = written ++
        [{ entry with size := entry.size + bytes.length, data := entry.data ++ bytes, rest }]

/-- What becomes of an entry, by its name. -/
inductive Decision where
  | keep : Decision
  | drop : ThreatClass → String → Decision
  | rewrite : Decision
  deriving DecidableEq, Repr

/-- `base_name`: what stands after the last slash. -/
def baseName (name : List Char) : List Char := (name.reverse.takeWhile (· != '/')).reverse

/-- `is_vba_project`. -/
def isVbaProject (name : String) : Bool :=
  "vbaproject".toList.isPrefixOf ((baseName name.toList).map Char.toLower) &&
    ".bin".toList.isSuffixOf (asciiLower name)

/-- `is_embedded_ole`: in a directory of embedded files, or named as one. -/
def isEmbeddedOle (name : String) : Bool :=
  decide ("/embeddings/".toList <:+: asciiLower name) ||
    "embeddings/".toList.isPrefixOf (asciiLower name) ||
    "oleobject".toList.isPrefixOf (baseName (asciiLower name))

/-- `is_rels`. -/
def isRels (name : String) : Bool := ".rels".toList.isSuffixOf (asciiLower name)

/-- `decide`: the first rule that fits. -/
protected def decide (name : String) : Decision :=
  if isVbaProject name then
    .drop .activeContent s!"VBA macro project '{name}'"
  else if isEmbeddedOle name then
    .drop .activeContent s!"embedded OLE object '{name}'"
  else if isRels name then
    .rewrite
  else
    .keep

/-- `MAX_RELS_SIZE`: a relationship part is read into memory, so its size is bounded. -/
def maxRelsSize : Nat := 64 * 1024 * 1024

/-- `entry.take(limit).read_to_end`. -/
def ZipEntry.readToEnd (entry : ZipEntry) (limit : Nat) : Exec String (List UInt8) :=
  if limit ≤ entry.data.length then
    .ok (entry.data.take limit)
  else
    match entry.failure with
    | none => .ok entry.data
    | some fault => .error fault

/-- `read_entry`. -/
def readEntry (byIndex : Exec String ZipEntry) (name : String) :
    Exec DomainError (List UInt8) := do
  let entry ← byIndex.mapErr fun e => malformed s!"cannot read part '{name}': {e}"
  let buf ← (entry.readToEnd (maxRelsSize + 1)).mapErr
    fun e => malformed s!"cannot decompress part '{name}': {e}"
  if buf.length > maxRelsSize then
    Exec.fail (malformed s!"relationships part '{name}' is too large")
  else
    return buf

/-- The variables of the loop of `disarm_inner`. -/
structure State where
  written : List ZipEntry
  removed : List RemovedItem
  deriving DecidableEq, Repr

variable (Z : ZipCrate)

/-- One round of the loop: the entry at an index. -/
def disarmEntry (i : Nat) (byIndex : Exec String ZipEntry) (st : State) :
    Exec DomainError State := do
  let cannotRead (e : String) := malformed s!"cannot read ZIP entry {i}: {e}"
  let entry ← byIndex.mapErr cannotRead
  let name := entry.name
  if Z.isDir entry then
    -- copied with its data, before anything is decided by its name
    let entry ← byIndex.mapErr cannotRead
    let written ← (Z.rawCopyFileRename st.written entry name).mapErr
      fun e => malformed s!"cannot copy directory entry: {e}"
    return { st with written := written }
  else
    match Ooxml.decide name with
    | .keep =>
      let entry ← byIndex.mapErr cannotRead
      let written ← (Z.rawCopyFileRename st.written entry name).mapErr
        fun e => malformed s!"cannot copy part '{name}': {e}"
      return { st with written := written }
    | .drop threat detail =>
      -- the size is the one the archive declares
      let entry ← byIndex.mapErr cannotRead
      let item : RemovedItem :=
        { location := s!"part {name}", threat := threat, detail := detail,
          bytesRemoved := entry.size }
      return { st with removed := st.removed ++ [item] }
    | .rewrite =>
      let raw ← readEntry byIndex name
      let (cleaned, dropped) ← sanitizeRels X raw name
      let written ← (Z.startFile st.written name).mapErr
        fun e => malformed s!"cannot write part '{name}': {e}"
      let written ← (Z.writeAll written cleaned).mapErr
        fun e => malformed s!"cannot write part '{name}': {e}"
      return { written := written, removed := st.removed ++ dropped }

/-- The loop of `disarm_inner`. -/
def disarmEntries : Nat → List (Exec String ZipEntry) → State → Exec DomainError State
  | _, [], st => return st
  | i, byIndex :: archive, st => do
    let st ← disarmEntry X Z i byIndex st
    disarmEntries (i + 1) archive st

/-- `disarm_inner`. -/
def disarmInner (data : List UInt8) : Exec DomainError DisarmOutput := do
  let archive ← (Z.openArchive data).mapErr
    fun e => malformed s!"cannot open ZIP container: {e}"
  let st ← disarmEntries X Z 0 archive { written := [], removed := [] }
  let bytes ← (Z.finish st.written).mapErr
    fun e => malformed s!"cannot finalise ZIP container: {e}"
  return { bytes := bytes, removed := st.removed }

end Ooxml

open Ooxml in
/-- `OoxmlDisarmer::disarm`: a panic is caught and reported. -/
def OoxmlDisarmer.disarm (X : QuickXml) (Z : ZipCrate) (artifact : Artifact) (_policy : Policy) :
    Exec DomainError DisarmOutput :=
  match Ooxml.disarmInner X Z artifact.bytes with
  | .error .panic => Exec.fail (malformed "parser panicked on hostile input")
  | inner => inner

end Purgo
