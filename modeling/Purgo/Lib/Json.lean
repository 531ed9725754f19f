import Mathlib.Algebra.Ring.Nat
import Mathlib.Data.List.Basic
import Mathlib.Data.List.TakeDrop
import Mathlib.Data.Option.Basic
import Mathlib.Tactic.Cases

/-!
# JSON texts

`Json.parse` reads the JSON grammar and nothing more: no comments, no trailing commas, no bare
control characters, no unpaired surrogates, nothing after the value but white space. Numbers are
kept exactly, as a mantissa and a power of ten.

A writer is verified against it by composing its output from parts. `Spells` says that a text is the
inside of a string, `Parses` that a text is a value, `Member` that it is a member of an object.
Each has one rule for each way of writing it, and the rules never mention fuel, which is a device of
the parser alone.
-/

/-- A JSON value. A number is a mantissa and the power of ten it is multiplied by. -/
inductive Json where
  | null : Json
  | bool : Bool → Json
  | number : Int → Int → Json
  | string : String → Json
  | array : List Json → Json
  | object : List (String × Json) → Json
  deriving Repr

namespace Json

/-- A reader takes a value off a text and leaves the rest. -/
abbrev Reader (α : Type) : Type := List Char → Option (α × List Char)

/-! ## The parser -/

def isSpace (c : Char) : Bool := c = ' ' || c = '\t' || c = '\n' || c = '\r'

def skip (text : List Char) : List Char := text.dropWhile isSpace

def hexDigit (c : Char) : Option Nat :=
  if '0' ≤ c ∧ c ≤ '9' then some (c.toNat - 48)
  else if 'a' ≤ c ∧ c ≤ 'f' then some (c.toNat - 87)
  else if 'A' ≤ c ∧ c ≤ 'F' then some (c.toNat - 55)
  else none

def hexDigits : Reader Nat
  | a :: b :: c :: d :: rest => do
    let a ← hexDigit a
    let b ← hexDigit b
    let c ← hexDigit c
    let d ← hexDigit d
    return (((a * 16 + b) * 16 + c) * 16 + d, rest)
  | _ => none

/-- The second half of a surrogate pair. -/
def lowSurrogate (high : Nat) : Reader Char
  | '\\' :: 'u' :: rest => do
    let (low, rest) ← hexDigits rest
    guard (0xDC00 ≤ low ∧ low < 0xE000)
    return (Char.ofNat (0x10000 + (high - 0xD800) * 0x400 + (low - 0xDC00)), rest)
  | _ => none

/-- What the characters stand for after a backslash. -/
def escapes : List (Char × Char) :=
  [('"', '"'), ('\\', '\\'), ('/', '/'), ('b', '\x08'), ('f', '\x0c'), ('n', '\n'), ('r', '\r'),
    ('t', '\t')]

/-- What follows a backslash. -/
def escaped : Reader Char
  | [] => none
  | c :: rest =>
    if c = 'u' then do
      let (unit, rest) ← hexDigits rest
      if 0xD800 ≤ unit ∧ unit < 0xDC00 then lowSurrogate unit rest
      else if 0xDC00 ≤ unit ∧ unit < 0xE000 then none
      else return (Char.ofNat unit, rest)
    else
      (escapes.lookup c).map fun c => (c, rest)

/-- One character of a string that has not ended. -/
def character (c : Char) (rest : List Char) : Option (Char × List Char) :=
  if c = '\\' then escaped rest
  else if c.toNat < 0x20 then none
  else some (c, rest)

/-- A string, after its opening quote. -/
def characters : Nat → Reader (List Char)
  | _, [] => none
  | 0, _ => none
  | fuel + 1, c :: rest =>
    if c = '"' then some ([], rest)
    else do
      let (c, rest) ← character c rest
      let (cs, rest) ← characters fuel rest
      return (c :: cs, rest)

def digits : Reader (List Char) := fun text => some (text.span Char.isDigit)

/-- One digit or more. -/
def someDigits : Reader (List Char) := fun text => do
  let (ds, rest) ← digits text
  guard (ds ≠ [])
  return (ds, rest)

/-- The whole part of a number: a zero, or digits that do not begin with one. -/
def whole : Reader (List Char)
  | [] => none
  | c :: rest => if c = '0' then some (['0'], rest) else someDigits (c :: rest)

def fraction : Reader (List Char)
  | [] => some ([], [])
  | c :: rest => if c = '.' then someDigits rest else some ([], c :: rest)

def exponent : Reader Int
  | [] => some (0, [])
  | c :: rest =>
    if c = 'e' ∨ c = 'E' then do
      let sign : Int := if rest.head? = some '-' then -1 else 1
      let rest := if rest.head? = some '-' ∨ rest.head? = some '+' then rest.tail else rest
      let (ds, rest) ← someDigits rest
      return (sign * Nat.ofDigitChars 10 ds 0, rest)
    else some (0, c :: rest)

def numeral : Reader Json := fun text => do
  let sign : Int := if text.head? = some '-' then -1 else 1
  let text := if text.head? = some '-' then text.tail else text
  let (ds, text) ← whole text
  let (places, text) ← fraction text
  let (power, text) ← exponent text
  return (.number (sign * Nat.ofDigitChars 10 (ds ++ places) 0) (power - places.length), text)

/-- A fixed word. -/
def word (spelling : List Char) (value : Json) : Reader Json := fun text =>
  if spelling.isPrefixOf text then some (value, text.drop spelling.length) else none

/-- Items with commas between them, up to the closing bracket. -/
def items {α : Type} (item : Reader α) (close : Char) : Nat → Reader (List α)
  | 0, _ => none
  | fuel + 1, text => do
    let (a, text) ← item text
    match skip text with
    | [] => none
    | c :: text =>
      if c = close then some ([a], text)
      else do
        guard (c = ',')
        let (as, text) ← items item close fuel text
        return (a :: as, text)

/-- What stands between brackets, after the opening one. -/
def bracketed {α : Type} (item : Reader α) (close : Char) (fuel : Nat) : Reader (List α) :=
  fun text => if (skip text).head? = some close then some ([], (skip text).tail)
    else items item close fuel text

/-- A member of an object, with a reader for its value. -/
def member (value : Reader Json) (fuel : Nat) : Reader (String × Json) := fun text => do
  guard ((skip text).head? = some '"')
  let (key, text) ← characters fuel (skip text).tail
  guard ((skip text).head? = some ':')
  let (v, text) ← value (skip text).tail
  return ((String.ofList key, v), text)

def value : Nat → Reader Json
  | 0, _ => none
  | fuel + 1, text =>
    match skip text with
    | [] => none
    | c :: rest =>
      if c = '"' then
        (characters fuel rest).map fun (cs, rest) => (.string (String.ofList cs), rest)
      else if c = '[' then
        (bracketed (value fuel) ']' fuel rest).map fun (vs, rest) => (.array vs, rest)
      else if c = '{' then
        (bracketed (member (value fuel) fuel) '}' fuel rest).map fun (ms, rest) =>
          (.object ms, rest)
      else if c = 't' then word ['r', 'u', 'e'] (.bool true) rest
      else if c = 'f' then word ['a', 'l', 's', 'e'] (.bool false) rest
      else if c = 'n' then word ['u', 'l', 'l'] .null rest
      else numeral (c :: rest)

/-- Parse a JSON text. -/
def parse (text : String) : Option Json := do
  let (v, rest) ← value (text.toList.length + 1) text.toList
  guard (skip rest = [])
  return v

/-! ## White space and what ends a value -/

theorem skip_append {ws : List Char} (hws : ∀ c ∈ ws, isSpace c = true) (text : List Char) :
    skip (ws ++ text) = skip text := by
  induction ws with
  | nil => rfl
  | cons c ws ih =>
    have hc := hws c List.mem_cons_self
    rw [List.cons_append, skip, List.dropWhile_cons_of_pos hc]
    exact ih fun d hd => hws d (List.mem_cons_of_mem c hd)

theorem skip_cons {c : Char} (hc : isSpace c = false) (text : List Char) :
    skip (c :: text) = c :: text := List.dropWhile_cons_of_neg (by simp [hc])

theorem skip_spaces {ws : List Char} (hws : ∀ c ∈ ws, isSpace c = true) : skip ws = [] := by
  have hskip := skip_append hws []
  rwa [List.append_nil] at hskip

/-- A value may end before the text. -/
def Delimited (text : List Char) : Prop :=
  ∀ c ∈ text.head?, isSpace c = true ∨ c = ',' ∨ c = ']' ∨ c = '}'

theorem delimited_cons {c : Char} (hc : isSpace c = true ∨ c = ',' ∨ c = ']' ∨ c = '}')
    (text : List Char) : Delimited (c :: text) := by
  rintro d hd
  obtain rfl := Option.some.inj hd
  exact hc

theorem delimited_append {ws : List Char} (hws : ∀ c ∈ ws, isSpace c = true) {text : List Char}
    (h : Delimited text) : Delimited (ws ++ text) := by
  cases ws with
  | nil => exact h
  | cons c ws => exact delimited_cons (.inl (hws c List.mem_cons_self)) _

/-- A reader takes the text for the value, when something ends it. -/
def Reads {α : Type} (read : Reader α) (text : List Char) (a : α) : Prop :=
  ∀ rest, Delimited rest → read (text ++ rest) = some (a, rest)

/-! ## Strings -/

/-- The text is the inside of a string of these characters. -/
def Spells (text cs : List Char) : Prop :=
  ∀ fuel, text.length < fuel → ∀ rest, characters fuel (text ++ '"' :: rest) = some (cs, rest)

theorem Spells.nil : Spells [] [] := by
  intro fuel hfuel rest
  obtain ⟨fuel, rfl⟩ := Nat.exists_eq_add_one_of_ne_zero (Nat.ne_of_gt hfuel)
  rfl

/-- One character more. -/
theorem Spells.append (text : List Char) {text' cs : List Char} {c d : Char} (hc : c ≠ '"')
    (hd : ∀ rest, character c (text ++ rest) = some (d, rest)) (h : Spells text' cs) :
    Spells (c :: (text ++ text')) (d :: cs) := by
  intro fuel hfuel rest
  cases fuel with
  | zero => cases hfuel
  | succ fuel =>
    rw [List.length_cons, List.length_append] at hfuel
    rw [List.cons_append, characters, if_neg hc, List.append_assoc, hd]
    simp [h fuel (by omega) rest]

theorem Spells.cons {text cs : List Char} {c : Char} (hc : c ≠ '"') (hslash : c ≠ '\\')
    (hcontrol : ¬ c.toNat < 0x20) (h : Spells text cs) : Spells (c :: text) (c :: cs) :=
  Spells.append [] hc
    (fun rest => by rw [character, if_neg hslash, if_neg hcontrol]; rfl) h

theorem Spells.escaped (text : List Char) {text' cs : List Char} {c : Char}
    (hc : ∀ rest, Json.escaped (text ++ rest) = some (c, rest)) (h : Spells text' cs) :
    Spells ('\\' :: (text ++ text')) (c :: cs) :=
  Spells.append text (by decide) (fun rest => by rw [character, if_pos rfl, hc]) h

/-- The character stands for itself in a string. -/
def isPlain (c : Char) : Bool := c ≠ '"' && c ≠ '\\' && !(c.toNat < 0x20)

theorem Spells.plain {cs : List Char} (h : ∀ c ∈ cs, isPlain c = true) : Spells cs cs := by
  induction cs with
  | nil => exact .nil
  | cons c cs ih =>
    have hc := h c List.mem_cons_self
    simp only [isPlain, Bool.and_eq_true, decide_eq_true_eq, Bool.not_eq_true',
      decide_eq_false_iff_not] at hc
    exact .cons hc.1.1 hc.1.2 hc.2 (ih fun d hd => h d (List.mem_cons_of_mem c hd))

/-! ## Numbers -/

theorem Delimited.not_numeral {rest : List Char} (h : Delimited rest) :
    ∀ c ∈ rest.head?, c.isDigit = false ∧ c ≠ '.' ∧ c ≠ 'e' ∧ c ≠ 'E' := by
  intro c hc
  rcases h c hc with hspace | rfl | rfl | rfl
  · simp only [isSpace, Bool.or_eq_true, decide_eq_true_eq] at hspace
    rcases hspace with ((rfl | rfl) | rfl) | rfl <;> decide
  · decide
  · decide
  · decide

theorem someDigits_append {ds : List Char} (hne : ds ≠ []) (hds : ∀ c ∈ ds, c.isDigit = true)
    {rest : List Char} (hrest : Delimited rest) : someDigits (ds ++ rest) = some (ds, rest) := by
  have hspan : digits (ds ++ rest) = some (ds, rest) := by
    rw [digits, List.span_eq_takeWhile_dropWhile, List.takeWhile_append_of_pos hds,
      List.dropWhile_append_of_pos hds]
    cases rest with
    | nil => simp
    | cons c rest =>
      have hc := (hrest.not_numeral c rfl).1
      rw [List.takeWhile_cons_of_neg (by simp [hc]), List.dropWhile_cons_of_neg (by simp [hc]),
        List.append_nil]
  rw [someDigits, hspan]
  simp [hne]

/-- A number of more than one digit does not begin with a zero. -/
theorem head_toDigits {n : Nat} (hn : n ≠ 0) {c : Char} {ds : List Char}
    (h : Nat.toDigits 10 n = c :: ds) : c ≠ '0' := by
  induction n using Nat.strong_induction_on generalizing ds with
  | _ n ih =>
    rw [Nat.toDigits_eq_if (by decide)] at h
    split at h
    · rename_i hlt
      have hdigit : ∀ m < 10, m ≠ 0 → m.digitChar ≠ '0' := by decide
      obtain rfl := (List.cons.inj h).1
      exact hdigit n hlt hn
    · rename_i hge
      cases hdigits : Nat.toDigits 10 (n / 10) with
      | nil => exact absurd hdigits Nat.toDigits_ne_nil
      | cons d ds' =>
        rw [hdigits, List.cons_append] at h
        obtain rfl := (List.cons.inj h).1
        exact ih (n / 10) (by omega) (by omega) hdigits

theorem toDigits_cons (n : Nat) :
    ∃ c ds, Nat.toDigits 10 n = c :: ds ∧ ∀ d : Char, d.isDigit = false → c ≠ d := by
  cases hdigits : Nat.toDigits 10 n with
  | nil => exact absurd hdigits Nat.toDigits_ne_nil
  | cons c ds =>
    refine ⟨c, ds, rfl, ?_⟩
    rintro d hd rfl
    rw [Nat.isDigit_of_mem_toDigits (b := 10) (n := n) (by decide) (by decide)
      (hdigits ▸ List.mem_cons_self)] at hd
    cases hd

theorem whole_toDigits (n : Nat) {rest : List Char} (hrest : Delimited rest) :
    whole (Nat.toDigits 10 n ++ rest) = some (Nat.toDigits 10 n, rest) := by
  by_cases hn : n = 0
  · subst hn
    rfl
  · obtain ⟨c, ds, hdigits, -⟩ := toDigits_cons n
    have hwhole : whole (Nat.toDigits 10 n ++ rest) = someDigits (Nat.toDigits 10 n ++ rest) := by
      rw [hdigits, List.cons_append, whole, if_neg (head_toDigits hn hdigits)]
    rw [hwhole]
    exact someDigits_append Nat.toDigits_ne_nil
      (fun d hd => Nat.isDigit_of_mem_toDigits (by decide) (by decide) hd) hrest

theorem numeral_toDigits (n : Nat) {rest : List Char} (hrest : Delimited rest) :
    numeral (Nat.toDigits 10 n ++ rest) = some (.number n 0, rest) := by
  have hfraction : fraction rest = some ([], rest) := by
    cases rest with
    | nil => rfl
    | cons c rest => rw [fraction, if_neg (hrest.not_numeral c rfl).2.1]
  have hexponent : exponent rest = some (0, rest) := by
    cases rest with
    | nil => rfl
    | cons c rest =>
      obtain ⟨-, -, he, hE⟩ := hrest.not_numeral c rfl
      rw [exponent, if_neg (not_or.mpr ⟨he, hE⟩)]
  have hsign : (Nat.toDigits 10 n ++ rest).head? ≠ some '-' := by
    obtain ⟨c, ds, hdigits, hne⟩ := toDigits_cons n
    rw [hdigits, List.cons_append, List.head?_cons, ne_eq, Option.some.injEq]
    exact hne '-' (by decide)
  simp only [numeral, hsign, if_false]
  simp [whole_toDigits n hrest, hfraction, hexponent]

/-! ## Values -/

/-- The text is the value. -/
def Parses (text : List Char) (v : Json) : Prop :=
  ∀ fuel, text.length ≤ fuel → Reads (value (fuel + 1)) text v

theorem Parses.of_eq {text text' : List Char} {v : Json} (h : Parses text v) (heq : text' = text) :
    Parses text' v := heq ▸ h

theorem Parses.space (ws : List Char) (hws : ∀ c ∈ ws, isSpace c = true) {text : List Char}
    {v : Json} (h : Parses text v) : Parses (ws ++ text) v := by
  intro fuel hfuel rest hrest
  rw [List.length_append] at hfuel
  rw [← h fuel (by omega) rest hrest, value, value, List.append_assoc, skip_append hws]

theorem Parses.string {text cs : List Char} (h : Spells text cs) :
    Parses ('"' :: (text ++ ['"'])) (.string (String.ofList cs)) := by
  intro fuel hfuel rest hrest
  rw [List.length_cons, List.length_append, List.length_singleton] at hfuel
  rw [List.cons_append, List.append_assoc, value, skip_cons (by decide)]
  simp [h fuel (by omega) rest]

theorem Parses.bool (b : Bool) : Parses (toString b).toList (.bool b) := by
  intro fuel hfuel rest hrest
  cases b <;> rfl

theorem Parses.nat (n : Nat) : Parses (toString n).toList (.number n 0) := by
  intro fuel hfuel rest hrest
  rw [Nat.toString_eq_repr, Nat.toList_repr]
  obtain ⟨c, ds, hdigits, hne⟩ := toDigits_cons n
  have hspace : isSpace c = false := by
    simp [isSpace, hne]
  have hvalue : value (fuel + 1) (Nat.toDigits 10 n ++ rest) =
      numeral (Nat.toDigits 10 n ++ rest) := by
    rw [hdigits, List.cons_append, value, skip_cons hspace]
    simp only [hne '"' (by decide), hne '[' (by decide), hne '{' (by decide),
      hne 't' (by decide), hne 'f' (by decide), hne 'n' (by decide), if_false]
  rw [hvalue]
  exact numeral_toDigits n hrest

/-! ## Arrays and objects -/

/-- Texts of items, with commas between them. -/
inductive Commas {α : Type} (Item : List Char → α → Prop) : List Char → List α → Prop
  | one {text : List Char} {a : α} : Item text a → Commas Item text [a]
  | cons {text texts : List Char} {a : α} {as : List α} :
      Item text a → Commas Item texts as → Commas Item (text ++ ',' :: texts) (a :: as)

theorem Commas.length_le {α : Type} {Item : List Char → α → Prop} {text : List Char}
    {as : List α} (h : Commas Item text as) : as.length ≤ text.length + 1 := by
  induction h with
  | one _ => simp
  | cons _ _ ih =>
    simp only [List.length_cons, List.length_append]
    omega

/-- What holds of the items may depend on how long they are. -/
theorem Commas.imp {α : Type} {Item Item' : List Char → α → Prop} {text : List Char}
    {as : List α} (h : Commas Item text as)
    (himp : ∀ t a, t.length ≤ text.length → Item t a → Item' t a) : Commas Item' text as := by
  induction h with
  | one ha => exact .one (himp _ _ (Nat.le_refl _) ha)
  | cons ha _ ih =>
    simp only [List.length_append, List.length_cons] at himp
    exact .cons (himp _ _ (by omega) ha) (ih fun t a ht => himp t a (by omega))

theorem items_commas {α : Type} {item : Reader α} {close : Char}
    (hclose : close = ']' ∨ close = '}') {text : List Char} {as : List α}
    (h : Commas (Reads item) text as) (ws : List Char) (hws : ∀ c ∈ ws, isSpace c = true)
    {fuel : Nat} (hfuel : as.length ≤ fuel) (rest : List Char) :
    items item close fuel (text ++ (ws ++ close :: rest)) = some (as, rest) := by
  induction h generalizing fuel with
  | one ha =>
    obtain ⟨fuel, rfl⟩ := Nat.exists_eq_add_one_of_ne_zero (Nat.ne_of_gt hfuel)
    have hend : Delimited (ws ++ close :: rest) :=
      delimited_append hws (delimited_cons (.inr (.inr hclose)) rest)
    have hspace : isSpace close = false := by
      rcases hclose with rfl | rfl <;> rfl
    rw [items, ha _ hend]
    simp [skip_append hws, skip_cons hspace]
  | cons ha _ ih =>
    obtain ⟨fuel, rfl⟩ := Nat.exists_eq_add_one_of_ne_zero (Nat.ne_of_gt (Nat.zero_lt_of_lt hfuel))
    have hcomma : ',' ≠ close := by
      rcases hclose with rfl | rfl <;> decide
    have hskip : ∀ text, skip (',' :: text) = ',' :: text := skip_cons rfl
    have hnext := ih (Nat.le_of_succ_le_succ hfuel)
    rw [List.append_assoc, List.cons_append, items, ha _ (delimited_cons (.inr (.inl rfl)) _)]
    simp [hskip, hcomma, hnext]

theorem bracketed_of_items {α : Type} {item : Reader α} {close : Char} {fuel : Nat}
    {text rest : List Char} {as : List α}
    (hnone : ∀ r, skip text = close :: r → item text = none)
    (h : items item close fuel text = some (as, rest)) :
    bracketed item close fuel text = some (as, rest) := by
  rw [bracketed, if_neg, h]
  intro hhead
  obtain ⟨r, hr⟩ := List.head?_eq_some_iff.mp hhead
  cases fuel with
  | zero => cases h
  | succ fuel =>
    rw [items, hnone r hr] at h
    cases h

/-- No value begins with a closing bracket. -/
theorem value_eq_none {fuel : Nat} {text rest : List Char} (h : skip text = ']' :: rest) :
    value fuel text = none := by
  cases fuel with
  | zero => rfl
  | succ fuel =>
    rw [value, h]
    rfl

/-- The text is a member of an object. -/
def Member (text : List Char) (m : String × Json) : Prop :=
  ∀ fuel, text.length ≤ fuel → Reads (member (value fuel) fuel) text m

theorem Member.mk (ws : List Char) (hws : ∀ c ∈ ws, isSpace c = true) {key cs text : List Char}
    {v : Json} (hkey : Spells key cs) (h : Parses text v) :
    Member (ws ++ '"' :: (key ++ '"' :: ':' :: text)) (String.ofList cs, v) := by
  intro fuel hfuel rest hrest
  simp only [List.length_append, List.length_cons] at hfuel
  have hquote := skip_append hws ('"' :: (key ++ '"' :: ':' :: (text ++ rest)))
  rw [skip_cons rfl] at hquote
  have hvalue : value fuel (text ++ rest) = some (v, rest) := by
    cases fuel with
    | zero => omega
    | succ fuel => exact h fuel (by omega) rest hrest
  have hcolon : skip (':' :: (text ++ rest)) = ':' :: (text ++ rest) := skip_cons rfl _
  simp only [List.append_assoc, List.cons_append, member, hquote]
  simp [hkey fuel (by omega), hcolon, hvalue]

/-- A member as most writers lay it out: its key needs no escaping, and a blank follows the
colon. -/
theorem Member.plain (ws : List Char) (hws : ∀ c ∈ ws, isSpace c = true) (key : String)
    (hkey : ∀ c ∈ key.toList, isPlain c = true) {text : List Char} {v : Json}
    (h : Parses text v) :
    Member (ws ++ '"' :: (key.toList ++ '"' :: ':' :: ' ' :: text)) (key, v) := by
  have hmember := Member.mk ws hws (Spells.plain hkey) (h.space [' '] (by simp [isSpace]))
  rwa [String.ofList_toList] at hmember

theorem Parses.emptyArray : Parses ['[', ']'] (.array []) := by
  intro fuel hfuel rest hrest
  rfl

theorem Parses.array {text : List Char} {vs : List Json} (h : Commas Parses text vs)
    (ws : List Char) (hws : ∀ c ∈ ws, isSpace c = true) :
    Parses ('[' :: (text ++ (ws ++ [']']))) (.array vs) := by
  intro fuel hfuel rest hrest
  rw [List.length_cons, List.length_append] at hfuel
  have hcount : vs.length ≤ fuel := Nat.le_trans h.length_le (by omega)
  have hreads : Commas (Reads (value fuel)) text vs := by
    refine h.imp fun t v ht hv => ?_
    cases fuel with
    | zero => omega
    | succ fuel => exact hv fuel (by omega)
  have hitems := items_commas (.inl rfl) hreads ws hws hcount rest
  have hbracketed := bracketed_of_items (fun r => value_eq_none) hitems
  rw [List.cons_append, value, skip_cons rfl]
  simp only [List.append_assoc, List.singleton_append]
  simp [hbracketed]

theorem Parses.object {text : List Char} {ms : List (String × Json)} (h : Commas Member text ms)
    (ws : List Char) (hws : ∀ c ∈ ws, isSpace c = true) :
    Parses ('{' :: (text ++ (ws ++ ['}']))) (.object ms) := by
  intro fuel hfuel rest hrest
  rw [List.length_cons, List.length_append] at hfuel
  have hcount : ms.length ≤ fuel := Nat.le_trans h.length_le (by omega)
  have hreads : Commas (Reads (member (value fuel) fuel)) text ms :=
    h.imp fun t m ht hm => hm fuel (by omega)
  have hitems := items_commas (.inr rfl) hreads ws hws hcount rest
  have hbracketed := bracketed_of_items (fun r hr => by rw [member, hr]; rfl) hitems
  rw [List.cons_append, value, skip_cons rfl]
  simp only [List.append_assoc, List.singleton_append]
  simp [hbracketed]

/-- A text that is a value parses to it, whatever white space follows. -/
theorem Parses.parse_eq {text ws : List Char} {v : Json} (h : Parses text v)
    (hws : ∀ c ∈ ws, isSpace c = true) {s : String} (hs : s.toList = text ++ ws) :
    parse s = some v := by
  have hend : Delimited ws := by
    rw [← List.append_nil ws]
    exact delimited_append hws fun c hc => by cases hc
  have hvalue := h (text ++ ws).length (by simp) ws hend
  rw [parse, hs, hvalue]
  simp [skip_spaces hws]

end Json
