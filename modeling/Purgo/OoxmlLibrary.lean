import Purgo.Lib.Bytes
import Purgo.Ooxml

/-!
# A library to rebuild packages with

What the disarmer relies on of `zip` is met by a writer that appends to the list of what it has been
given. `ZipCrate.ofArchives` lays an archive of stored files out as `zip` does, each file behind a
header and the directory at the end, and opens the files it writes of some archives and no others:
that is enough to disarm whole packages.
-/

namespace Purgo

open Rust

namespace Ooxml

/-! ## The check sum -/

/-- One bit of the check sum. -/
def crcBit (crc : UInt32) : UInt32 :=
  if crc &&& 1 = 1 then (crc >>> 1) ^^^ 0xEDB88320 else crc >>> 1

/-- One byte of the check sum. -/
def crcByte (crc : UInt32) (b : UInt8) : UInt32 := crcBit^[8] (crc ^^^ b.toUInt32)

/-- CRC-32. -/
def crc32 (data : List UInt8) : UInt32 := data.foldl crcByte 0xFFFFFFFF ^^^ 0xFFFFFFFF

/-! ## Writing an archive -/

/-- What a file is copied with that is stored, dated to the first day of 1980, and readable: the
compression method, the time and the date, and the attributes. -/
def stored : List UInt8 := [0, 0, 0, 0, 0x21, 0] ++ [0, 0, 0xA4, 0x81]

/-- What both headers of a file hold: the version that is needed, no flags, the compression method,
the time and the date, the check sum and the sizes, and the length of the name. -/
def ZipEntry.header (entry : ZipEntry) : List UInt8 :=
  [10, 0, 0, 0] ++ entry.rest.take 6 ++ toLe 4 (crc32 entry.data).toNat ++
    toLe 4 entry.data.length ++ toLe 4 entry.data.length ++
    toLe 2 (asBytes entry.name).length ++ [0, 0]

/-- A file behind its header. -/
def ZipEntry.writeFile (entry : ZipEntry) : List UInt8 :=
  [0x50, 0x4B, 0x03, 0x04] ++ entry.header ++ asBytes entry.name ++ entry.data

/-- The entry of the directory for a file whose header stands at an offset. -/
def ZipEntry.writeCentral (entry : ZipEntry) (offset : Nat) : List UInt8 :=
  [0x50, 0x4B, 0x01, 0x02] ++ [10, 3] ++ entry.header ++ [0, 0, 0, 0, 0, 0] ++
    entry.rest.drop 6 ++ toLe 4 offset ++ asBytes entry.name

/-- The directory of files the first of which stands at an offset. -/
def writeDirectory (offset : Nat) : List ZipEntry → List UInt8
  | [] => []
  | entry :: entries =>
    entry.writeCentral offset ++ writeDirectory (offset + entry.writeFile.length) entries

/-- What is written of an archive of stored files. -/
def writeArchive (entries : List ZipEntry) : List UInt8 :=
  let files := entries.flatMap ZipEntry.writeFile
  let directory := writeDirectory 0 entries
  files ++ directory ++ [0x50, 0x4B, 0x05, 0x06] ++ [0, 0, 0, 0] ++
    toLe 2 entries.length ++ toLe 2 entries.length ++
    toLe 4 directory.length ++ toLe 4 files.length ++ [0, 0]

/-- An archive begins with the header of its first file. -/
theorem writeArchive_prefix {entries : List ZipEntry} (h : entries ≠ []) :
    [0x50, 0x4B, 0x03, 0x04] <+: writeArchive entries := by
  cases entries with
  | nil => exact absurd rfl h
  | cons entry entries =>
    simp only [writeArchive, List.flatMap_cons, ZipEntry.writeFile, List.append_assoc]
    exact List.prefix_append _ _

/-! ## The library -/

/-- The archive that is written as the bytes, if it is one of the archives. -/
def readArchive (archives : List (List ZipEntry)) (data : List UInt8) :
    Exec String (List ZipEntry) :=
  match archives.find? fun entries => writeArchive entries == data with
  | some entries => .ok entries
  | none => Exec.fail "Could not find EOCD"

/-- A library that opens what it writes of the archives, and nothing else. A file that is not copied
would be compressed, and no such file stands in them. -/
def ZipCrate.ofArchives (archives : List (List ZipEntry)) : ZipCrate where
  openArchive data := List.map Except.ok <$> readArchive archives data
  isDir entry := isDirName entry.name
  rawCopyFileRename written entry name := .ok (written ++ [{ entry with name := name }])
  startFile written name :=
    .ok (written ++ [{ name := name, size := 0, data := [], failure := none, rest := [] }])
  writeAll written bytes :=
    match written.getLast? with
    | none => Exec.fail "No file has been started"
    | some entry => .ok (written.dropLast ++
        [{ entry with size := entry.size + bytes.length, data := entry.data ++ bytes }])
  finish written :=
    if written ∈ archives then .ok (writeArchive written) else Exec.fail "another archive"

/-- The ZIP crate of the samples keeps the laws that are asked of `zip`. -/
theorem ZipCrate.ofArchives_lawful {archives : List (List ZipEntry)} :
    (ofArchives archives).Lawful where
  isDir_eq _ := rfl
  rawCopy h := (Except.ok.inj h).symm
  startFile h := ⟨[], (Except.ok.inj h).symm⟩
  writeAll {written written' entry bytes} h := by
    simp only [ofArchives, List.getLast?_concat, List.dropLast_concat] at h
    exact ⟨entry.rest, (Except.ok.inj h).symm⟩

/-- It writes the archives it knows, each as the bytes it has. -/
theorem ZipCrate.finish_ofArchives {archives : List (List ZipEntry)} {written : List ZipEntry}
    {out : List UInt8} (h : (ofArchives archives).finish written = .ok out) :
    written ∈ archives ∧ out = writeArchive written := by
  change ite _ _ _ = _ at h
  split_ifs at h with hmem
  · exact ⟨hmem, (Except.ok.inj h).symm⟩
  · cases h

/-- What is written of one of the archives is read back, when no other one is written the same. -/
theorem readArchive_writeArchive {archives : List (List ZipEntry)} {entries : List ZipEntry}
    (hmem : entries ∈ archives)
    (hinj : ∀ other ∈ archives, writeArchive other = writeArchive entries → other = entries) :
    readArchive archives (writeArchive entries) = .ok entries := by
  rw [readArchive]
  cases hfind : archives.find? fun other => writeArchive other == writeArchive entries with
  | none => simpa using List.find?_eq_none.mp hfind entries hmem
  | some other =>
    have hsame := List.find?_some hfind
    rw [hinj other (List.mem_of_find?_eq_some hfind) (beq_iff_eq.mp hsame)]

/-- What the library opens it has read. -/
theorem ZipCrate.open_ofArchives {archives : List (List ZipEntry)} {data : List UInt8}
    {entries : List ZipEntry} :
    (ofArchives archives).openArchive data = .ok (entries.map Except.ok) ↔
      readArchive archives data = .ok entries := by
  change List.map Except.ok <$> readArchive archives data = _ ↔ _
  cases readArchive archives data with
  | error e => exact iff_of_false (by rintro ⟨⟩) (by rintro ⟨⟩)
  | ok read =>
    refine ⟨fun h => ?_, ?_⟩
    · rw [List.map_injective_iff.mpr (fun _ _ => Except.ok.inj) (Except.ok.inj h)]
    · rintro ⟨⟩
      rfl

end Ooxml

end Purgo
