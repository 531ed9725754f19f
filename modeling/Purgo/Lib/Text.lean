import Mathlib.Data.List.Basic
import Mathlib.Tactic.Cases

/-!
# Rust strings

A Rust `String` is a Lean `String`: both are sequences of Unicode scalar values held in UTF-8.
What the standard library adds to that is modelled here: decoding (`fromUtf8`, and `fromUtf8Lossy`
with its replacement of every maximal invalid part by U+FFFD), and the ASCII case-insensitive
comparisons, which work on the scalar values.
-/

namespace Rust

/-- `s.as_bytes()`. -/
def asBytes (s : String) : List UInt8 := s.toByteArray.data.toList

@[simp] theorem length_asBytes (s : String) : (asBytes s).length = s.utf8ByteSize := rfl

theorem asBytes_append (s t : String) : asBytes (s ++ t) = asBytes s ++ asBytes t := by
  rw [asBytes, String.toByteArray_append, ByteArray.data_append, Array.toList_append]
  rfl

/-! ## Decoding -/

/-- `str::from_utf8`. -/
def fromUtf8 (bytes : List UInt8) : Option String := String.fromUTF8? ⟨bytes.toArray⟩

/-- The bytes of a string decode to it. -/
@[simp] theorem fromUtf8_asBytes (s : String) : fromUtf8 (asBytes s) = some s := by
  have hbytes : (⟨(asBytes s).toArray⟩ : ByteArray) = s.toByteArray := by
    rw [asBytes, Array.toArray_toList]
  rw [fromUtf8, hbytes, String.fromUTF8?, dif_pos s.isValidUTF8]
  rfl

/-- Bytes that decode are the bytes of the string. -/
theorem asBytes_of_fromUtf8 {bytes : List UInt8} {s : String} (h : fromUtf8 bytes = some s) :
    asBytes s = bytes := by
  rw [fromUtf8, String.fromUTF8?] at h
  split_ifs at h with hvalid
  rw [← Option.some.inj h]
  rfl

/-- A continuation byte of UTF-8. -/
def isContinuation (b : UInt8) : Bool := 0x80 ≤ b && b ≤ 0xBF

/-- The second byte may follow the first one of a three-byte sequence. -/
def isSecondOfThree (b₀ b₁ : UInt8) : Bool :=
  (b₀ == 0xE0 && 0xA0 ≤ b₁ && b₁ ≤ 0xBF) || (0xE1 ≤ b₀ && b₀ ≤ 0xEC && isContinuation b₁) ||
    (b₀ == 0xED && 0x80 ≤ b₁ && b₁ ≤ 0x9F) || (0xEE ≤ b₀ && b₀ ≤ 0xEF && isContinuation b₁)

/-- The second byte may follow the first one of a four-byte sequence. -/
def isSecondOfFour (b₀ b₁ : UInt8) : Bool :=
  (b₀ == 0xF0 && 0x90 ≤ b₁ && b₁ ≤ 0xBF) || (0xF1 ≤ b₀ && b₀ ≤ 0xF3 && isContinuation b₁) ||
    (b₀ == 0xF4 && 0x80 ≤ b₁ && b₁ ≤ 0x8F)

/-- The scalar value whose UTF-8 bits are the given ones. -/
def scalar (b₀ : Nat) (tail : List UInt8) : Char :=
  Char.ofNat (tail.foldl (fun n b => n * 64 + b.toNat % 64) b₀)

/-- U+FFFD, what an invalid part is replaced by. -/
def replacement : Char := Char.ofNat 0xFFFD

/-- The head of a byte string, decoded: a character, and how many bytes it stands for. An invalid
part ends before the first byte that could not continue a valid sequence. -/
def decodeHead (b₀ : UInt8) (rest : List UInt8) : Char × Nat :=
  if b₀ < 0x80 then (scalar b₀.toNat [], 1)
  else if 0xC2 ≤ b₀ && b₀ ≤ 0xDF then
    match rest with
    | b₁ :: _ => if isContinuation b₁ then (scalar (b₀.toNat % 32) [b₁], 2) else (replacement, 1)
    | [] => (replacement, 1)
  else if 0xE0 ≤ b₀ && b₀ ≤ 0xEF then
    match rest with
    | b₁ :: b₂ :: _ =>
      if isSecondOfThree b₀ b₁ then
        if isContinuation b₂ then (scalar (b₀.toNat % 16) [b₁, b₂], 3) else (replacement, 2)
      else (replacement, 1)
    | [b₁] => (replacement, if isSecondOfThree b₀ b₁ then 2 else 1)
    | [] => (replacement, 1)
  else if 0xF0 ≤ b₀ && b₀ ≤ 0xF4 then
    match rest with
    | b₁ :: b₂ :: b₃ :: _ =>
      if isSecondOfFour b₀ b₁ then
        if isContinuation b₂ then
          if isContinuation b₃ then (scalar (b₀.toNat % 8) [b₁, b₂, b₃], 4) else (replacement, 3)
        else (replacement, 2)
      else (replacement, 1)
    | [b₁, b₂] =>
      (replacement, if isSecondOfFour b₀ b₁ then (if isContinuation b₂ then 3 else 2) else 1)
    | [b₁] => (replacement, if isSecondOfFour b₀ b₁ then 2 else 1)
    | [] => (replacement, 1)
  else (replacement, 1)

/-- The characters of a byte string; the fuel is its length. -/
def lossyChars : Nat → List UInt8 → List Char
  | 0, _ => []
  | _ + 1, [] => []
  | n + 1, b :: rest =>
    (decodeHead b rest).1 :: lossyChars n (rest.drop ((decodeHead b rest).2 - 1))

/-- `String::from_utf8_lossy`. -/
def fromUtf8Lossy (bytes : List UInt8) : String := String.ofList (lossyChars bytes.length bytes)

example : fromUtf8Lossy [0x61, 0xF0, 0x9F, 0x92, 0x62, 0xC3, 0xA9, 0xFF] = "a\uFFFDbé\uFFFD" := by
  decide

theorem utf8Size_scalar_one {b₀ : UInt8} (h : b₀ < 0x80) :
    (scalar b₀.toNat []).utf8Size = 1 := by
  have hlt : b₀.toNat < 128 := h
  generalize b₀.toNat = n at hlt
  revert n
  decide

/-- A character of the lossy decoding is at most three times as long as what it stands for, and
it stands for at least one of the bytes there. -/
theorem utf8Size_decodeHead (b₀ : UInt8) (rest : List UInt8) :
    (decodeHead b₀ rest).1.utf8Size ≤ 3 * (decodeHead b₀ rest).2 ∧
      1 ≤ (decodeHead b₀ rest).2 ∧ (decodeHead b₀ rest).2 ≤ rest.length + 1 := by
  have hrep : replacement.utf8Size = 3 := by decide
  have hlong : ∀ (c : Char) (n : Nat), 4 ≤ n → c.utf8Size ≤ n :=
    fun c n hn => Nat.le_trans c.utf8Size_le_four hn
  unfold decodeHead
  split
  · rename_i h
    simp [utf8Size_scalar_one h]
  split
  · -- two bytes
    split
    · split <;> simp [hrep, hlong]
    · simp [hrep]
  split
  · -- three bytes
    split
    · split
      · split <;> simp [hrep, hlong]
      · simp [hrep]
    · split <;> simp [hrep]
    · simp [hrep]
  split
  · -- four bytes
    split
    · split
      · split
        · split <;> simp [hrep, hlong]
        · simp [hrep]
      · simp [hrep]
    · split
      · split <;> simp [hrep]
      · simp [hrep]
    · split <;> simp [hrep]
    · simp [hrep]
  · simp [hrep]

theorem utf8ByteSize_ofList_cons (c : Char) (cs : List Char) :
    (String.ofList (c :: cs)).utf8ByteSize = c.utf8Size + (String.ofList cs).utf8ByteSize := by
  rw [String.ofList_cons, String.utf8ByteSize_append, String.utf8ByteSize_singleton]

theorem utf8ByteSize_lossyChars (n : Nat) :
    ∀ (bytes : List UInt8), bytes.length ≤ n →
      (String.ofList (lossyChars n bytes)).utf8ByteSize ≤ 3 * bytes.length := by
  induction n with
  | zero =>
    intro bytes _
    simp [lossyChars]
  | succ n ih =>
    intro bytes hn
    cases bytes with
    | nil => simp [lossyChars]
    | cons b rest =>
      obtain ⟨hsize, hpos, hlen⟩ := utf8Size_decodeHead b rest
      have hrest := ih (rest.drop ((decodeHead b rest).2 - 1)) (by
        rw [List.length_drop]
        simp only [List.length_cons] at hn
        omega)
      rw [List.length_drop] at hrest
      rw [lossyChars, utf8ByteSize_ofList_cons, List.length_cons]
      omega

/-- Lossy decoding at most triples the length. -/
theorem length_fromUtf8Lossy (bytes : List UInt8) :
    (fromUtf8Lossy bytes).utf8ByteSize ≤ 3 * bytes.length :=
  utf8ByteSize_lossyChars bytes.length bytes (Nat.le_refl _)

/-! ## Comparisons -/

/-- `s.to_ascii_lowercase()`, as characters. -/
def asciiLower (s : String) : List Char := s.toList.map Char.toLower

/-- `s.eq_ignore_ascii_case(t)`. -/
def eqIgnoreAsciiCase (s t : String) : Bool := asciiLower s == asciiLower t

/-! ## Formatting -/

/-- A number formatted with `{:0width$x}`. -/
def lowerHex (width n : Nat) : String :=
  let digits := Nat.toDigits 16 n
  String.ofList (List.replicate (width - digits.length) '0' ++ digits)

end Rust
