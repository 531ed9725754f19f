import Mathlib.Data.List.Nodup
import Mathlib.Data.List.TakeWhile
import Purgo.Pdf

/-!
# A library to disarm with

What the disarmer relies on of `lopdf` is met by removal that moves the last entry into the gap, by
pruning as it is specified, and by a writer that lays the objects out one after the other, with a
table of where each of them starts. `Lopdf.ofDocuments` puts the three together, and opens the
files it writes of some documents and no others: that is enough to disarm whole files.
-/

namespace Purgo

open Rust

namespace Pdf

/-! ## Removing an entry -/

/-- Remove an entry and put the last one in its place. -/
def swapRemove (dict : Dictionary) (key : Name) : Dictionary :=
  match dict.dropWhile fun entry => entry.1 != key with
  | [] => dict
  | _ :: after =>
    (dict.takeWhile fun entry => entry.1 != key) ++ after.getLast?.toList ++ after.dropLast

/-- Moving the last element to the front loses none. -/
theorem last_dropLast_perm {α : Type} (xs : List α) :
    (xs.getLast?.toList ++ xs.dropLast).Perm xs := by
  cases hlast : xs.getLast? with
  | none =>
    obtain rfl : xs = [] := List.getLast?_eq_none_iff.mp hlast
    rfl
  | some last =>
    exact List.perm_append_comm.trans (.of_eq (List.dropLast_append_getLast? last hlast))

/-- When keys are unique, an entry is the only one that goes with its key. -/
theorem filter_key {before after : Dictionary} {e : Name × Object}
    (h : Dictionary.UniqueKeys (before ++ e :: after)) :
    ((before ++ e :: after).filter fun entry => entry.1 != e.1) = before ++ after := by
  rw [Dictionary.UniqueKeys, List.map_append, List.map_cons, List.nodup_middle,
    List.nodup_cons, ← List.map_append] at h
  have hothers : ∀ entry ∈ before ++ after, (entry.1 != e.1) = true := by
    intro entry hentry
    rw [bne_iff_ne]
    intro hsame
    exact h.1 (hsame ▸ List.mem_map_of_mem hentry)
  rw [List.filter_append, List.filter_cons_of_neg (by simp), ← List.filter_append,
    List.filter_eq_self.mpr hothers]

/-- Removing an entry moves another one into its place, and loses none. -/
theorem swapRemove_perm {dict : Dictionary} (key : Name) (h : dict.UniqueKeys) :
    (swapRemove dict key).Perm (dict.filter fun entry => entry.1 != key) := by
  have hsplit := List.takeWhile_append_dropWhile (p := fun e => e.1 != key) (l := dict)
  rw [swapRemove]
  split
  · rename_i hdrop
    have habsent : ∀ e ∈ dict, (e.1 != key) = true := List.dropWhile_eq_nil_iff.mp hdrop
    rw [List.filter_eq_self.mpr habsent]
  · rename_i e after hdrop
    have hhead := List.head_dropWhile_not (fun e : Name × Object => e.1 != key) (l := dict)
      (by rw [hdrop]; exact List.cons_ne_nil _ _)
    simp only [hdrop, List.head_cons] at hhead
    obtain rfl : e.1 = key := by simpa using hhead
    rw [hdrop] at hsplit
    have hleft := filter_key (hsplit.symm ▸ h)
    rw [hsplit] at hleft
    rw [hleft, List.append_assoc]
    exact List.Perm.append_left _ (last_dropLast_perm after)

/-! ## Pruning -/

open Classical in
/-- The document without the objects that are not reachable. -/
noncomputable def pruneReachable (doc : Document) : Document :=
  { doc with objects := doc.objects.filter fun entry => doc.Reachable entry.1 }

/-- Pruning leaves the objects that the trailer refers to. -/
theorem pruneReachable_of_trailer {doc : Document}
    (h : ∀ entry ∈ doc.objects, ∃ key, (key, .reference entry.1) ∈ doc.trailer) :
    pruneReachable doc = doc := by
  classical
  have hall : ∀ entry ∈ doc.objects, doc.Reachable entry.1 := by
    intro entry hentry
    obtain ⟨key, hkey⟩ := h entry hentry
    exact .single (.inl (.inr ⟨key, hkey⟩))
  rw [pruneReachable,
    List.filter_eq_self.mpr fun entry hentry => decide_eq_true (hall entry hentry)]

/-! ## Writing a document -/

/-- The decimal digits of a number. -/
def digits (n : Nat) : List UInt8 := ascii (toString n)

/-- The digits behind as many zeros as fill the column. -/
def column (width n : Nat) : List UInt8 :=
  List.replicate (width - (digits n).length) 0x30 ++ digits n

/-- A byte as two hexadecimal digits. -/
def hexByte (b : UInt8) : List UInt8 :=
  [Nat.digitChar (b.toNat / 16), Nat.digitChar (b.toNat % 16)].map fun c =>
    UInt8.ofNat c.toUpper.toNat

/-- A byte of a name. One that would end it is written by its number. -/
def nameByte (b : UInt8) : List UInt8 :=
  if b < 0x21 || 0x7E < b || (ascii "()<>[]\x7b\x7d/%#").contains b then
    ascii "#" ++ hexByte b
  else
    [b]

/-- A name, with its unusual bytes escaped. -/
def writeName (name : Name) : List UInt8 := ascii "/" ++ name.flatMap nameByte

/-- A byte of a literal string. One that would end the string is escaped. -/
def literalByte (b : UInt8) : List UInt8 :=
  if (ascii "()\\").contains b then ascii "\\" ++ [b]
  else if b == 0x0D then ascii "\\r"
  else [b]

/-- A string, in the format it was read in. -/
def writeString (bytes : List UInt8) : StringFormat → List UInt8
  | .literal => ascii "(" ++ bytes.flatMap literalByte ++ ascii ")"
  | .hexadecimal => ascii "<" ++ bytes.flatMap hexByte ++ ascii ">"

/-- What is neither a name nor a string is written as it is displayed. -/
def Scalar.write : Scalar → List UInt8
  | .null => ascii "null"
  | .boolean b => ascii (toString b)
  | .integer n => ascii (toString n.toInt)
  | .real bits => ascii (toString (Float32.ofBits bits))

/-- The two numbers of an id. -/
def ObjectId.write (id : ObjectId) : List UInt8 :=
  digits id.number.toNat ++ ascii " " ++ digits id.generation.toNat

/-- An object that begins with no delimiter has to be set off from what stands before it. -/
def needSeparator : Object → Bool
  | .scalar _ | .reference _ => true
  | _ => false

/-- A blank before what would otherwise run into the key. -/
def separator (object : Object) : List UInt8 := if needSeparator object then ascii " " else []

mutual

/-- What is written of an object. -/
def Object.write : Object → List UInt8
  | .scalar value => value.write
  | .name name => writeName name
  | .string bytes format => writeString bytes format
  | .array items => ascii "[" ++ writeItems false items ++ ascii "]"
  | .dictionary dict => ascii "<<" ++ writeEntries dict ++ ascii ">>"
  | .stream dict content =>
    ascii "<<" ++ writeEntries dict ++ ascii ">>stream\n" ++ content ++ ascii "\nendstream"
  | .reference id => id.write ++ ascii " R"

-- nothing stands before the first item that it had to be set off from
/-- The items of an array, with blanks between them where needed. -/
def writeItems (later : Bool) : List Object → List UInt8
  | [] => []
  | item :: items =>
    (if later then separator item else []) ++ item.write ++ writeItems true items

/-- The entries of a dictionary, each under its key. -/
def writeEntries : List (Name × Object) → List UInt8
  | [] => []
  | (key, value) :: entries =>
    writeName key ++ separator value ++ value.write ++ writeEntries entries

end

/-- What is written of an indirect object. -/
def writeIndirect (entry : ObjectId × Object) : List UInt8 :=
  entry.1.write ++ ascii " obj\n" ++ separator entry.2 ++ entry.2.write ++ ascii "\nendobj\n"

/-- The rows of the table for objects that start at a position: the number, and where the object of
that number stands. -/
def rows (position : Nat) : List (ObjectId × Object) → List (Nat × List UInt8)
  | [] => []
  | entry :: objects =>
    (entry.1.number.toNat, column 10 position ++ ascii " " ++
      column 5 entry.1.generation.toNat ++ ascii " n \n") ::
    rows (position + (writeIndirect entry).length) objects

/-- A section of the table: its first number, how many rows it has, and the rows. -/
def writeSection : List (Nat × List UInt8) → List UInt8
  | [] => []
  | row :: rows =>
    digits row.1 ++ ascii " " ++ digits (rows.length + 1) ++ ascii "\n" ++
      (row :: rows).flatMap Prod.snd

/-- What is saved of a document. The numbers of a section of the table follow one another, and the
first row of the table is that of no object. -/
def Document.write (doc : Document) : List UInt8 :=
  let header := ascii "%PDF-" ++ doc.rest ++ ascii "\n"
  let body := header ++ doc.objects.flatMap writeIndirect
  let table := (0, ascii "0000000000 65535 f \n") :: rows header.length doc.objects
  body ++
    ascii "xref\n" ++ (table.splitBy fun a b => a.1 + 1 == b.1).flatMap writeSection ++
    ascii "trailer\n" ++ (Object.dictionary doc.trailer).write ++
    ascii "\nstartxref\n" ++ digits body.length ++ ascii "\n%%EOF"

/-- A file begins with its version. -/
theorem Document.write_prefix (doc : Document) : ascii "%PDF-" <+: doc.write := by
  simp only [Document.write, List.append_assoc]
  exact List.prefix_append _ _

/-- A file of version 1.5, with the binary mark of `lopdf`. -/
def version15 : List UInt8 := ascii "1.5\n%" ++ [0xBB, 0xAD, 0xC0, 0xDE]

/-! ## The library -/

/-- A library that opens what it writes of the documents, and nothing else. -/
noncomputable def Lopdf.ofDocuments (docs : List LoadedDocument) : Lopdf where
  loadMem data :=
    match docs.find? fun doc => doc.toDocument.write == data with
    | some doc => .ok doc
    | none => Exec.fail "invalid file header"
  remove := swapRemove
  pruneObjects := pruneReachable
  saveTo doc := .ok doc.write

/-- The PDF library of the samples keeps the laws that are asked of `lopdf`. -/
theorem Lopdf.ofDocuments_lawful {docs : List LoadedDocument} :
    (Lopdf.ofDocuments docs).Lawful where
  remove_perm := swapRemove_perm
  prune_trailer _ := rfl
  prune_rest _ := rfl
  prune_objects _ := List.filter_sublist
  mem_prune doc id o := by
    classical
    change (id, o) ∈ doc.objects.filter _ ↔ _
    rw [List.mem_filter, decide_eq_true_iff]

/-- The first document is opened. -/
theorem Lopdf.loadMem_head (doc : LoadedDocument) (docs : List LoadedDocument) :
    (Lopdf.ofDocuments (doc :: docs)).loadMem doc.toDocument.write = .ok doc := by
  simp [ofDocuments]

/-- A document behind one that is written otherwise is opened. -/
theorem Lopdf.loadMem_cons {doc : LoadedDocument} {docs : List LoadedDocument} {data : List UInt8}
    (h : doc.toDocument.write ≠ data) :
    (Lopdf.ofDocuments (doc :: docs)).loadMem data = (Lopdf.ofDocuments docs).loadMem data := by
  simp [ofDocuments, h]

/-- **A file that is disarmed**: the document it holds is sanitised, and written again. -/
theorem Lopdf.disarmInner_ofDocuments {docs : List LoadedDocument} {data : List UInt8}
    {doc : LoadedDocument} {sanitized : Document} {removed : List RemovedItem}
    (hload : (Lopdf.ofDocuments docs).loadMem data = .ok doc)
    (hrun : (sanitizeDocument (Lopdf.ofDocuments docs) doc.toDocument).run [] =
      .ok (sanitized, removed))
    (hroots : ∀ entry ∈ sanitized.objects, ∃ key, (key, .reference entry.1) ∈ sanitized.trailer) :
    disarmInner (Lopdf.ofDocuments docs) data =
      .ok { bytes := sanitized.write, removed := removed } := by
  have hpruned : (Lopdf.ofDocuments docs).pruneObjects sanitized = sanitized :=
    pruneReachable_of_trailer hroots
  have hrebuild : rebuild (Lopdf.ofDocuments docs) doc.toDocument = .ok (sanitized, removed) := by
    rw [rebuild, hrun]
    exact congrArg (fun doc => Except.ok (doc, removed)) hpruned
  rw [disarmInner, hload, Exec.mapErr, Exec.ok_bind, hrebuild]
  rfl

end Pdf

end Purgo
