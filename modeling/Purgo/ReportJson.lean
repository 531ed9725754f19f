import Purgo.Domain
import Purgo.Lib.Json
import Purgo.Lib.Text

/-!
# The JSON report

The report is written by hand, as one concatenation of strings. Nothing that a file can put into a
location or a detail breaks it: the text parses, to the values of the report
(`parse_reportToJson`).
-/

namespace Purgo

open Rust

/-! ## The writer -/

/-- What `escape` pushes for one character. -/
def escapeChar (c : Char) : String :=
  if c = '"' then "\\\""
  else if c = '\\' then "\\\\"
  else if c = '\n' then "\\n"
  else if c = '\r' then "\\r"
  else if c = '\t' then "\\t"
  else if c.toNat < 0x20 then "\\u" ++ lowerHex 4 c.toNat
  else String.singleton c

/-- `escape`. -/
def escape (raw : String) : String := String.join (raw.toList.map escapeChar)

/-- The object that is written for one item. -/
def itemToJson (item : RemovedItem) : String :=
  "    \x7b\n" ++
  "      \"location\": \"" ++ escape item.location ++ "\",\n" ++
  "      \"class\": \"" ++ item.threat.asStr ++ "\",\n" ++
  "      \"detail\": \"" ++ escape item.detail ++ "\",\n" ++
  "      \"bytes_removed\": " ++ toString item.bytesRemoved ++ "\n" ++
  "    \x7d"

/-- `report_to_json`. -/
def reportToJson (report : DisarmReport) : String :=
  "\x7b\n" ++
  "  \"format\": \"" ++ report.format.asStr ++ "\",\n" ++
  "  \"original_size\": " ++ toString report.originalSize ++ ",\n" ++
  "  \"sanitized_size\": " ++ toString report.sanitizedSize ++ ",\n" ++
  "  \"modified\": " ++ toString report.isModified ++ ",\n" ++
  "  \"removed\": [" ++
  String.join (report.removed.zipIdx.map fun entry =>
    (if entry.2 = 0 then "\n" else ",\n") ++ itemToJson entry.1) ++
  (if report.removed.isEmpty then "]\n" else "\n  ]\n") ++
  "\x7d\n"

/-! ## What it writes -/

/-- The values of an item. -/
def itemJson (item : RemovedItem) : Json :=
  .object [("location", .string item.location), ("class", .string item.threat.asStr),
    ("detail", .string item.detail), ("bytes_removed", .number item.bytesRemoved 0)]

/-- The values of a report. -/
def reportJson (report : DisarmReport) : Json :=
  .object [("format", .string report.format.asStr),
    ("original_size", .number report.originalSize 0),
    ("sanitized_size", .number report.sanitizedSize 0), ("modified", .bool report.isModified),
    ("removed", .array (report.removed.map itemJson))]

/-! ## Strings -/

/-- A control character is written in four digits, which are read back. -/
theorem hexDigits_lowerHex {n : Nat} (hn : n < 0x20) (rest : List Char) :
    Json.hexDigits ((lowerHex 4 n).toList ++ rest) = some (n, rest) := by
  have htext : ∀ n < 0x20,
      (lowerHex 4 n).toList = ['0', '0', (n / 16).digitChar, (n % 16).digitChar] := by decide
  have hdigit : ∀ d < 16, Json.hexDigit d.digitChar = some d := by decide
  have hzero : Json.hexDigit '0' = some 0 := rfl
  rw [htext n hn]
  simp [Json.hexDigits, hzero, hdigit (n / 16) (by omega), hdigit (n % 16) (by omega)]
  omega

/-- One character, escaped. -/
theorem escapeChar_spells (c : Char) {text cs : List Char} (h : Json.Spells text cs) :
    Json.Spells ((escapeChar c).toList ++ text) (c :: cs) := by
  rw [escapeChar]
  split
  · subst_vars
    exact h.escaped ['"'] fun rest => rfl
  split
  · subst_vars
    exact h.escaped ['\\'] fun rest => rfl
  split
  · subst_vars
    exact h.escaped ['n'] fun rest => rfl
  split
  · subst_vars
    exact h.escaped ['r'] fun rest => rfl
  split
  · subst_vars
    exact h.escaped ['t'] fun rest => rfl
  split
  · rename_i hcontrol
    have hunit : ∀ rest, Json.escaped ('u' :: (lowerHex 4 c.toNat).toList ++ rest) =
        some (c, rest) := by
      intro rest
      have hhigh : ¬ (0xD800 ≤ c.toNat ∧ c.toNat < 0xDC00) := by omega
      have hlow : ¬ (0xDC00 ≤ c.toNat ∧ c.toNat < 0xE000) := by omega
      rw [List.cons_append, Json.escaped, if_pos rfl, hexDigits_lowerHex hcontrol]
      simp [hhigh, hlow]
    rw [String.toList_append]
    exact h.escaped _ hunit
  · rename_i hquote hslash _ _ _ hcontrol
    rw [String.toList_singleton]
    exact h.cons hquote hslash hcontrol

/-- **Escaping is inverted**: an escaped string is the inside of a string with its characters. -/
theorem escape_spells (raw : String) : Json.Spells (escape raw).toList raw.toList := by
  rw [escape, String.toList_join, List.flatMap_map]
  induction raw.toList with
  | nil => exact .nil
  | cons c cs ih => exact escapeChar_spells c ih

/-- A string in quotes, escaped, is parsed as the string. -/
theorem parses_escape (raw : String) :
    Json.Parses ('"' :: ((escape raw).toList ++ ['"'])) (.string raw) := by
  have hparses := Json.Parses.string (escape_spells raw)
  rwa [String.ofList_toList] at hparses

/-- A string that needs no escaping. -/
theorem parses_plain {s : String} (h : ∀ c ∈ s.toList, Json.isPlain c = true) :
    Json.Parses ('"' :: (s.toList ++ ['"'])) (.string s) := by
  have hparses := Json.Parses.string (Json.Spells.plain h)
  rwa [String.ofList_toList] at hparses

/-- The name of a format needs no escape. -/
theorem FileFormat.plain (format : FileFormat) :
    ∀ c ∈ format.asStr.toList, Json.isPlain c = true := by
  cases format <;> exact List.all_eq_true.mp rfl

theorem ThreatClass.plain (threat : ThreatClass) :
    ∀ c ∈ threat.asStr.toList, Json.isPlain c = true := by
  cases threat <;> exact List.all_eq_true.mp rfl

/-! ## Items -/

/-- What is written for an item is the object with its values. -/
theorem itemToJson_parses (item : RemovedItem) :
    Json.Parses ('\n' :: (itemToJson item).toList) (itemJson item) := by
  have hindent : ∀ c ∈ "\n      ".toList, Json.isSpace c = true := List.all_eq_true.mp rfl
  have hlocation := Json.Member.plain _ hindent "location" (List.all_eq_true.mp rfl)
    (parses_escape item.location)
  have hclass := Json.Member.plain _ hindent "class" (List.all_eq_true.mp rfl)
    (parses_plain item.threat.plain)
  have hdetail := Json.Member.plain _ hindent "detail" (List.all_eq_true.mp rfl)
    (parses_escape item.detail)
  have hbytes := Json.Member.plain _ hindent "bytes_removed" (List.all_eq_true.mp rfl)
    (Json.Parses.nat item.bytesRemoved)
  have hclose : ∀ c ∈ "\n    ".toList, Json.isSpace c = true := List.all_eq_true.mp rfl
  have hobject := Json.Parses.object
    (.cons hlocation (.cons hclass (.cons hdetail (.one hbytes)))) _ hclose
  refine (hobject.space _ hclose).of_eq ?_
  unfold itemToJson
  simp

/-- The loop writes a comma before every item but the first. -/
theorem toList_join_items (first : RemovedItem) (others : List RemovedItem) :
    (String.join ((first :: others).zipIdx.map fun entry =>
      (if entry.2 = 0 then "\n" else ",\n") ++ itemToJson entry.1)).toList =
    '\n' :: (itemToJson first).toList ++
      others.flatMap fun item => ',' :: '\n' :: (itemToJson item).toList := by
  have hothers : ∀ (k : Nat), (others.zipIdx (k + 1)).flatMap (fun entry =>
      ((if entry.2 = 0 then "\n" else ",\n") ++ itemToJson entry.1).toList) =
      others.flatMap fun item => ',' :: '\n' :: (itemToJson item).toList := by
    induction others with
    | nil => exact fun k => rfl
    | cons item others ih =>
      intro k
      rw [List.zipIdx_cons, List.flatMap_cons, ih (k + 1), List.flatMap_cons]
      simp
  rw [String.toList_join, List.flatMap_map, List.zipIdx_cons, List.flatMap_cons, hothers 0]
  simp

/-- The items of a report, with commas and newlines between them, by induction on the items. -/
theorem commas_items (first : RemovedItem) (others : List RemovedItem) :
    Json.Commas Json.Parses
      ('\n' :: (itemToJson first).toList ++
        others.flatMap fun item => ',' :: '\n' :: (itemToJson item).toList)
      ((first :: others).map itemJson) := by
  induction others generalizing first with
  | nil =>
    rw [List.flatMap_nil, List.append_nil]
    exact .one (itemToJson_parses first)
  | cons item others ih =>
    rw [List.flatMap_cons]
    exact .cons (itemToJson_parses first) (ih item)

/-- What is written for the items is the array with their values. -/
theorem removed_parses (removed : List RemovedItem) :
    Json.Parses ('[' :: ((String.join (removed.zipIdx.map fun entry =>
        (if entry.2 = 0 then "\n" else ",\n") ++ itemToJson entry.1)).toList ++
      (if removed.isEmpty then "]" else "\n  ]").toList)) (.array (removed.map itemJson)) := by
  cases removed with
  | nil => exact Json.Parses.emptyArray
  | cons first others =>
    have hclose : ∀ c ∈ "\n  ".toList, Json.isSpace c = true := List.all_eq_true.mp rfl
    refine (Json.Parses.array (commas_items first others) _ hclose).of_eq ?_
    rw [toList_join_items]
    simp

/-! ## The report -/

/-- **The report is JSON, with the values of the report**: whatever stands in the locations and the
details, the text parses to an object with the five keys, and the items come back as they were. -/
theorem parse_reportToJson (report : DisarmReport) :
    Json.parse (reportToJson report) = some (reportJson report) := by
  have hindent : ∀ c ∈ "\n  ".toList, Json.isSpace c = true := List.all_eq_true.mp rfl
  have hformat := Json.Member.plain _ hindent "format" (List.all_eq_true.mp rfl)
    (parses_plain report.format.plain)
  have horiginal := Json.Member.plain _ hindent "original_size" (List.all_eq_true.mp rfl)
    (Json.Parses.nat report.originalSize)
  have hsanitized := Json.Member.plain _ hindent "sanitized_size" (List.all_eq_true.mp rfl)
    (Json.Parses.nat report.sanitizedSize)
  have hmodified := Json.Member.plain _ hindent "modified" (List.all_eq_true.mp rfl)
    (Json.Parses.bool report.isModified)
  have hremoved := Json.Member.plain _ hindent "removed" (List.all_eq_true.mp rfl)
    (removed_parses report.removed)
  have hclose : ∀ c ∈ "\n".toList, Json.isSpace c = true := List.all_eq_true.mp rfl
  have hobject := Json.Parses.object
    (.cons hformat (.cons horiginal (.cons hsanitized (.cons hmodified (.one hremoved))))) _ hclose
  refine hobject.parse_eq hclose ?_
  unfold reportToJson
  cases report.removed.isEmpty <;> simp

/-! ## Its bytes -/

/-- A report begins with a brace. -/
theorem asBytes_reportToJson (report : DisarmReport) :
    ∃ rest, asBytes (reportToJson report) = 0x7B :: rest := by
  unfold reportToJson
  simp only [asBytes_append, List.append_assoc]
  exact ⟨_, rfl⟩

/-- A report is longer than a signature. -/
theorem lt_length_reportToJson (report : DisarmReport) :
    64 < (asBytes (reportToJson report)).length := by
  unfold reportToJson
  simp only [asBytes_append, List.length_append]
  have hformat : (asBytes "  \"format\": \"").length = 13 := rfl
  have horiginal : (asBytes "  \"original_size\": ").length = 19 := rfl
  have hsanitized : (asBytes "  \"sanitized_size\": ").length = 20 := rfl
  have hmodified : (asBytes "  \"modified\": ").length = 14 := rfl
  omega

end Purgo
