import Purgo.JpegScan
import Purgo.Lib.Lexing

/-!
# The JPEG marker grammar

After `SOI` a file is a sequence of tokens, each introduced by a run of `FF` and a marker:
standalone markers, segments with a length field, scans with their entropy-coded data, and `EOI`,
after which nothing is read. A scan takes the longest run of entropy-coded bytes, so it fits only
before bytes that do not continue it; this is the one place where a token looks at what follows.

`lexer` reads one token off a suffix of the file, and `round_spec` says that a round of the
disarmer's loop does the same. Hence `disarm_eq_lift`: the disarmer neither panics nor runs on,
and returns what reading the tokens and sorting them under the policy gives.
-/

namespace Purgo

open Rust Lexing

namespace Jpeg

/-! ## Tokens -/

/-- A token. `fill` counts the `FF` bytes before the one that introduces the marker. -/
inductive Token where
  /-- a marker on its own -/
  | standalone : (fill : Nat) → (marker : UInt8) → Token
  /-- a marker, a length field and what it measures -/
  | segment : (fill : Nat) → (marker : UInt8) → (payload : List UInt8) → Token
  /-- `SOS`, the scan header and the entropy-coded data -/
  | scan : (fill : Nat) → (header data : List UInt8) → Token
  /-- `EOI` -/
  | eoi : (fill : Nat) → Token
  deriving DecidableEq, Repr

/-- A length field and what it measures. -/
def field (payload : List UInt8) : List UInt8 := toBe 2 (payload.length + 2) ++ payload

/-- The length counts itself. -/
@[simp] theorem length_field (payload : List UInt8) :
    (field payload).length = payload.length + 2 := by
  rw [field, List.length_append, length_toBe]
  omega

namespace Token

/-- The run of `FF` and the marker. -/
def introduce (fill : Nat) (marker : UInt8) : List UInt8 := ffs (fill + 1) ++ [marker]

/-- The bytes of a token. -/
def encode : Token → List UInt8
  | standalone fill marker => introduce fill marker
  | segment fill marker payload => introduce fill marker ++ field payload
  | scan fill header data => introduce fill sos ++ field header ++ data
  | eoi fill => introduce fill Jpeg.eoi

/-- The token is one, and may stand before `rest`. -/
def Fits : Token → List UInt8 → Prop
  | standalone _ marker, _ => isStandalone marker = true ∧ marker ≠ Jpeg.eoi
  | segment _ marker payload, _ =>
    isStandalone marker = false ∧ marker ≠ 0xFF ∧ marker ≠ sos ∧ payload.length + 2 < 2 ^ 16
  | scan _ header data, rest =>
    header.length + 2 < 2 ^ 16 ∧ IsEntropyCoded data ∧ IsMaximal data rest
  | eoi _, _ => True

/-- The end of the image. -/
def isEoi : Token → Bool
  | eoi _ => true
  | _ => false

/-- A scan. -/
def isScan : Token → Bool
  | scan _ _ _ => true
  | _ => false

/-- The token with a single `FF` before its marker. -/
def unfilled : Token → Token
  | standalone _ marker => standalone 0 marker
  | segment _ marker payload => segment 0 marker payload
  | scan _ header data => scan 0 header data
  | eoi _ => eoi 0

/-- The disarmer leaves the token out. -/
def isDropped (policy : Policy) : Token → Bool
  | segment _ marker _ => dropIt policy marker
  | _ => false

/-- The record of a token that is left out. -/
def removedItem (policy : Policy) : Token → Option RemovedItem
  | segment _ marker payload =>
    if dropIt policy marker then some (removedSegment marker (payload.length + 4)) else none
  | _ => none

/-- A marker takes the byte before it, its own and the fill bytes. -/
theorem length_introduce (fill : Nat) (marker : UInt8) :
    (introduce fill marker).length = fill + 2 := by
  simp [introduce]

theorem encode_ne_nil (t : Token) : t.encode ≠ [] := by
  cases t <;> simp [encode, introduce]

end Token

/-- The grammar of the tokens. -/
def lexicon : Lexicon UInt8 Token where
  encode := Token.encode
  Fits := Token.Fits
  last := Token.isEoi

/-! ## Reading a token -/

/-- Read a length field and what it measures. -/
def readField (truncated invalid pastEnd : String) (s : List UInt8) :
    Except DomainError (List UInt8 × List UInt8) :=
  if s.length < 2 then .error (malformed truncated)
  else if fromBe (s.take 2) < 2 then .error (malformed invalid)
  else if s.length < fromBe (s.take 2) then .error (malformed pastEnd)
  else .ok ((s.drop 2).take (fromBe (s.take 2) - 2), s.drop (fromBe (s.take 2)))

section Field

variable {truncated invalid pastEnd : String}

/-- A field that is read is what stands there, and its length fits. -/
theorem readField_sound {s payload rest : List UInt8}
    (h : readField truncated invalid pastEnd s = .ok (payload, rest)) :
    s = field payload ++ rest ∧ payload.length + 2 < 2 ^ 16 := by
  rw [readField] at h
  split_ifs at h with h₁ h₂ h₃
  obtain ⟨rfl, rfl⟩ := Prod.mk.inj (Except.ok.inj h)
  have hlen : (s.take 2).length = 2 := by rw [List.length_take]; omega
  have hlt : fromBe (s.take 2) < 2 ^ 16 := by
    have := fromBe_lt (s.take 2)
    rw [hlen] at this
    omega
  have hround : toBe 2 (fromBe (s.take 2)) = s.take 2 := by
    have := toBe_fromBe (s.take 2)
    rwa [hlen] at this
  have hpay : ((s.drop 2).take (fromBe (s.take 2) - 2)).length + 2 = fromBe (s.take 2) := by
    rw [List.length_take, List.length_drop]
    omega
  refine ⟨?_, by omega⟩
  rw [field, hpay, hround, ← List.take_add, Nat.add_sub_cancel' (by omega), List.take_append_drop]

/-- A field that stands there is read, whatever follows. -/
theorem readField_complete {payload : List UInt8} (rest : List UInt8)
    (h : payload.length + 2 < 2 ^ 16) :
    readField truncated invalid pastEnd (field payload ++ rest) = .ok (payload, rest) := by
  have hlen : (toBe 2 (payload.length + 2)).length = 2 := length_toBe 2 _
  have hcut : field payload ++ rest = toBe 2 (payload.length + 2) ++ (payload ++ rest) := by
    rw [field, List.append_assoc]
  have hbe : fromBe ((field payload ++ rest).take 2) = payload.length + 2 := by
    rw [hcut, List.take_left' hlen, fromBe_toBe]
    exact Nat.mod_eq_of_lt h
  have hall : (field payload ++ rest).length = payload.length + 2 + rest.length := by
    rw [List.length_append, length_field]
  have hrest : (field payload ++ rest).drop (payload.length + 2) = rest :=
    List.drop_left' (length_field payload)
  rw [readField]
  rw [hbe, if_neg (by omega), if_neg (by omega), if_neg (by omega), hrest, hcut,
    List.drop_left' hlen, Nat.add_sub_cancel, List.take_left' rfl]

end Field

/-- Read what follows the marker of a token. -/
def readMarker (fill : Nat) (marker : UInt8) (s : List UInt8) :
    Except DomainError (Token × List UInt8) :=
  if marker = eoi then .ok (.eoi fill, s)
  else if marker = sos then
    match readField "truncated scan header length" "invalid scan header length"
        "scan header runs past end of file" s with
    | .error e => .error e
    | .ok (header, rest) =>
      .ok (.scan fill header (rest.take (scanLength rest)), rest.drop (scanLength rest))
  else if isStandalone marker then .ok (.standalone fill marker, s)
  else
    match readField "truncated segment length" "invalid segment length"
        "segment runs past end of file" s with
    | .error e => .error e
    | .ok (payload, rest) => .ok (.segment fill marker payload, rest)

/-- Read the token at the head of a list. -/
def readToken (s : List UInt8) : Except DomainError (Token × List UInt8) :=
  match (s.takeWhile (· == 0xFF)).length, s.dropWhile (· == 0xFF) with
  | 0, _ => .error (malformed "expected a marker")
  | _ + 1, [] => .error (malformed "dangling marker prefix")
  | fill + 1, marker :: rest => readMarker fill marker rest

/-- A run of `0xFF` ends at the first other byte. -/
theorem takeWhile_run (n : Nat) {t : List UInt8} (ht : NoFill t) :
    (ffs n ++ t).takeWhile (· == 0xFF) = ffs n ∧ (ffs n ++ t).dropWhile (· == 0xFF) = t := by
  induction n with
  | zero =>
    cases t with
    | nil => exact ⟨rfl, rfl⟩
    | cons b t =>
      have hb : (b == 0xFF) = false := beq_eq_false_iff_ne.mpr ht.head_ne
      simp [hb]
  | succ n ih => simpa using ih

/-! ### Equation lemmas -/

theorem readToken_noFill {s : List UInt8} (hs : NoFill s) :
    readToken s = .error (malformed "expected a marker") := by
  obtain ⟨htake, hdrop⟩ := takeWhile_run 0 hs
  rw [ffs_zero, List.nil_append] at htake hdrop
  rw [readToken, htake, hdrop]
  rfl

/-- A run of `0xFF` to the end of the file is no token. -/
theorem readToken_dangling (n : Nat) :
    readToken (ffs (n + 1)) = .error (malformed "dangling marker prefix") := by
  obtain ⟨htake, hdrop⟩ := takeWhile_run (n + 1) (t := []) (by simp [NoFill])
  rw [List.append_nil] at htake hdrop
  rw [readToken, htake, hdrop, length_ffs]

/-- After a run of `0xFF` comes the marker, and the rest depends on it. -/
theorem readToken_marker (fill : Nat) {marker : UInt8} (hm : marker ≠ 0xFF) (s : List UInt8) :
    readToken (ffs (fill + 1) ++ marker :: s) = readMarker fill marker s := by
  obtain ⟨htake, hdrop⟩ := takeWhile_run (fill + 1) (noFill_cons s hm)
  rw [readToken, htake, hdrop, length_ffs]

/-! ### Soundness and completeness -/

theorem readMarker_sound {fill : Nat} {marker : UInt8} {s rest : List UInt8} {t : Token}
    (hm : marker ≠ 0xFF) (h : readMarker fill marker s = .ok (t, rest)) :
    Token.introduce fill marker ++ s = t.encode ++ rest ∧ t.Fits rest := by
  rw [readMarker] at h
  split_ifs at h with heoi hsos halone
  · obtain ⟨rfl, rfl⟩ := Prod.mk.inj (Except.ok.inj h)
    rw [heoi]
    exact ⟨rfl, trivial⟩
  · rcases hf : readField _ _ _ s with e | ⟨header, left⟩
    · rw [hf] at h
      cases h
    · rw [hf] at h
      obtain ⟨rfl, rfl⟩ := Prod.mk.inj (Except.ok.inj h)
      obtain ⟨rfl, hlt⟩ := readField_sound hf
      obtain ⟨-, htake, hdrop⟩ := isEntropyCoded_take left.length left (Nat.le_refl _)
      refine ⟨?_, hlt, htake, (isMaximal_iff htake).mpr hdrop⟩
      simp only [Token.encode, hsos, List.append_assoc, List.take_append_drop]
  · obtain ⟨rfl, rfl⟩ := Prod.mk.inj (Except.ok.inj h)
    exact ⟨rfl, halone, heoi⟩
  · rcases hf : readField _ _ _ s with e | ⟨payload, left⟩
    · rw [hf] at h
      cases h
    · rw [hf] at h
      obtain ⟨rfl, rfl⟩ := Prod.mk.inj (Except.ok.inj h)
      obtain ⟨rfl, hlt⟩ := readField_sound hf
      refine ⟨?_, by simpa using halone, hm, hsos, hlt⟩
      simp only [Token.encode, List.append_assoc]

/-- A token that is read is what stands there, and may stand before what is left. -/
theorem readToken_sound {s rest : List UInt8} {t : Token} (h : readToken s = .ok (t, rest)) :
    s = t.encode ++ rest ∧ t.Fits rest := by
  obtain ⟨n, u, rfl, hu⟩ := exists_run s
  cases n with
  | zero =>
    rw [ffs_zero, List.nil_append, readToken_noFill hu] at h
    cases h
  | succ fill =>
    cases u with
    | nil =>
      rw [List.append_nil, readToken_dangling] at h
      cases h
    | cons marker s =>
      rw [readToken_marker fill hu.head_ne] at h
      obtain ⟨hsplit, hfits⟩ := readMarker_sound hu.head_ne h
      refine ⟨?_, hfits⟩
      rw [← hsplit, Token.introduce, List.append_assoc, List.singleton_append]

/-- The byte of a run is no marker. -/
theorem isStandalone_ne_ff {marker : UInt8} (h : isStandalone marker = true) :
    marker ≠ 0xFF := by
  rintro rfl
  exact absurd h (by decide)

theorem isStandalone_ne_sos {marker : UInt8} (h : isStandalone marker = true) :
    marker ≠ sos := by
  rintro rfl
  exact absurd h (by decide)

/-- The end of the image stands alone. -/
theorem ne_eoi_of_not_standalone {marker : UInt8} (h : isStandalone marker = false) :
    marker ≠ eoi := by
  rintro rfl
  exact absurd h (by decide)

/-- A token that stands where it may is read. -/
theorem readToken_complete {t : Token} {rest : List UInt8} (h : t.Fits rest) :
    readToken (t.encode ++ rest) = .ok (t, rest) := by
  cases t with
  | standalone fill marker =>
    obtain ⟨halone, heoi⟩ := h
    rw [Token.encode, Token.introduce, List.append_assoc, List.singleton_append,
      readToken_marker fill (isStandalone_ne_ff halone), readMarker, if_neg heoi,
      if_neg (isStandalone_ne_sos halone), if_pos halone]
  | segment fill marker payload =>
    obtain ⟨halone, hff, hsos, hlt⟩ := h
    rw [Token.encode, Token.introduce, List.append_assoc, List.append_assoc,
      List.singleton_append, readToken_marker fill hff, readMarker,
      if_neg (ne_eoi_of_not_standalone halone), if_neg hsos, if_neg (by simp [halone]),
      readField_complete rest hlt]
  | scan fill header data =>
    obtain ⟨hlt, hdata, hmax⟩ := h
    have hlen : scanLength (data ++ rest) = data.length := by
      rw [hdata.scanLength_append, (isMaximal_iff hdata).mp hmax, Nat.add_zero]
    rw [Token.encode, Token.introduce, List.append_assoc, List.append_assoc, List.append_assoc,
      List.singleton_append, readToken_marker fill (by decide), readMarker, if_neg (by decide),
      if_pos rfl, readField_complete (data ++ rest) hlt]
    simp only [hlen, List.take_left', List.drop_left']
  | eoi fill =>
    rw [Token.encode, Token.introduce, List.append_assoc, List.singleton_append,
      readToken_marker fill (by decide), readMarker, if_pos rfl]

/-- The reader of tokens. -/
def lexer : Lexer lexicon DomainError where
  read := readToken
  sound h := readToken_sound h
  complete h := readToken_complete h
  progress {t _} _ := t.encode_ne_nil

/-! ## The loop reads tokens

One round of the loop reads one token. The invariant is that `i` is inside the file; the result
expected from a state is what is already there, followed by what the tokens from `i` on give,
provided the file ends with `EOI` or with a scan somewhere before. -/

/-- Sort tokens into what is copied and what is recorded. -/
def sortTokens (policy : Policy) (ts : List Token) : List UInt8 × List RemovedItem :=
  ((ts.filter fun t => !t.isDropped policy).flatMap fun t => t.unfilled.encode,
    ts.filterMap (Token.removedItem policy))

/-- What the loop returns from a state, when the tokens from there on are read. -/
def expected (data : List UInt8) (policy : Policy) (st : State) :
    Except DomainError DisarmOutput :=
  match lexer.readAll (data.drop st.i) with
  | .error e => .error e
  | .ok (ts, _) =>
    if st.seenScan || ts.any fun t => t.isScan || t.isEoi then
      .ok { bytes := st.out ++ (sortTokens policy ts).1,
            removed := st.removed ++ (sortTokens policy ts).2 }
    else .error (malformed "truncated before start of scan")

/-- The state after a token. -/
def State.push (st : State) (policy : Policy) (t : Token) : State where
  i := st.i + t.encode.length
  out := if t.isDropped policy then st.out else st.out ++ t.unfilled.encode
  removed := st.removed ++ (t.removedItem policy).toList
  seenScan := st.seenScan || t.isScan

/-- Sorting a token first is the same as pushing it on the state. -/
theorem State.push_sortTokens (st : State) (policy : Policy) (t : Token) (ts : List Token) :
    (st.out ++ (sortTokens policy (t :: ts)).1, st.removed ++ (sortTokens policy (t :: ts)).2) =
      ((st.push policy t).out ++ (sortTokens policy ts).1,
        (st.push policy t).removed ++ (sortTokens policy ts).2) := by
  have hout : st.out ++ (sortTokens policy (t :: ts)).1 =
      (st.push policy t).out ++ (sortTokens policy ts).1 := by
    cases h : t.isDropped policy with
    | true => simp [push, sortTokens, h]
    | false => simp [push, sortTokens, h]
  have hremoved : st.removed ++ (sortTokens policy (t :: ts)).2 =
      (st.push policy t).removed ++ (sortTokens policy ts).2 := by
    cases h : t.removedItem policy with
    | none => simp [push, sortTokens, h]
    | some item => simp [push, sortTokens, h]
  rw [hout, hremoved]

section Expected

variable {data : List UInt8} {policy : Policy} {st : State}

/-- Where no token can be read, the whole run is expected to fail likewise. -/
theorem expected_of_error {e : DomainError} (hne : data.drop st.i ≠ [])
    (hread : lexer.read (data.drop st.i) = .error e) : expected data policy st = .error e := by
  rw [expected, lexer.readAll_of_error hne hread]

/-- Nothing more is read after `EOI`. -/
theorem expected_of_eoi {fill : Nat} {rest : List UInt8}
    (hread : lexer.read (data.drop st.i) = .ok (.eoi fill, rest)) :
    expected data policy st = .ok { bytes := st.out ++ [0xFF, eoi], removed := st.removed } := by
  rw [expected, lexer.readAll_of_last hread rfl]
  simp [sortTokens, Token.isEoi, Token.isDropped, Token.removedItem, Token.unfilled, Token.encode,
    Token.introduce]

/-- After any other token the result expected is the one expected from the next state. -/
theorem expected_of_next {t : Token} {j : Nat} (hj : j = st.i + t.encode.length)
    (hread : lexer.read (data.drop st.i) = .ok (t, data.drop j)) (hl : t.isEoi = false) :
    expected data policy st = expected data policy (st.push policy t) := by
  have hpush : (st.push policy t).i = j := hj.symm
  rw [expected, lexer.readAll_of_next hread hl, expected, hpush]
  rcases lexer.readAll (data.drop j) with e | ⟨ts, left⟩
  · rfl
  · have hseen : (st.seenScan || (t :: ts).any fun t => t.isScan || t.isEoi) =
        ((st.push policy t).seenScan || ts.any fun t => t.isScan || t.isEoi) := by
      simp [State.push, hl, Bool.or_assoc]
    obtain ⟨hout, hremoved⟩ := Prod.mk.inj (st.push_sortTokens policy t ts)
    simp only [Except.map, hseen, hout, hremoved]

end Expected

/-- The code's length check is the reading of a field off the suffix. -/
theorem lengthField_eq {w : Width} {data : List UInt8} (hfit : w.Fits data.length)
    (hsoi : 2 ≤ data.length) (truncated invalid pastEnd : String) {a : Nat}
    (ha : a ≤ data.length) :
    lengthField w data a truncated invalid pastEnd =
      match readField truncated invalid pastEnd (data.drop a) with
      | .error e => Exec.fail e
      | .ok (payload, _) => .ok (payload.length + 2, a + (payload.length + 2)) := by
  have hlen : (data.drop a).length = data.length - a := List.length_drop
  rw [lengthField, add_eq_ok (hfit.holds_add ha hsoi), Exec.ok_bind, readField]
  by_cases hroom : a + 2 > data.length
  · rw [if_pos hroom, if_pos (by omega)]
  rw [if_neg hroom, if_neg (by omega)]
  obtain ⟨hi, lo, rest, hs⟩ : ∃ hi lo rest, data.drop a = hi :: lo :: rest := by
    match hs : data.drop a, hlen with
    | hi :: lo :: rest, _ => exact ⟨hi, lo, rest, rfl⟩
    | [b], hlen => exact absurd hlen (by simp only [List.length_singleton]; omega)
    | [], hlen => exact absurd hlen (by simp only [List.length_nil]; omega)
  have htake : (data.drop a).take 2 = [hi, lo] := by rw [hs]; rfl
  rw [index_eq_ok (getElem?_of_drop hs), Exec.ok_bind, add_eq_ok (hfit.holds_add ha (by omega)),
    Exec.ok_bind, index_eq_ok (getElem?_of_drop (drop_succ_of_drop hs)), Exec.ok_bind, htake]
  simp only []
  by_cases hsmall : fromBe [hi, lo] < 2
  · rw [if_pos hsmall, if_pos hsmall]
  rw [if_neg hsmall, if_neg hsmall]
  have hu16 : fromBe [hi, lo] < 2 ^ 16 := by simpa using fromBe_lt [hi, lo]
  rw [add_eq_ok (hfit.holds_add_u16 ha hu16), Exec.ok_bind]
  by_cases hpast : (data.drop a).length < fromBe [hi, lo]
  · rw [if_pos hpast, if_pos (by omega)]
  · have hpay :
        (((data.drop a).drop 2).take (fromBe [hi, lo] - 2)).length = fromBe [hi, lo] - 2 := by
      rw [List.length_take, List.length_drop]
      omega
    rw [if_neg hpast, if_neg (by omega)]
    simp only [Exec.pure_eq, hpay]
    rw [Nat.sub_add_cancel (by omega)]

/-- Pushing the token read is a good round. -/
theorem round_next {data : List UInt8} {policy : Policy} {st : State} (hi : st.i ≤ data.length)
    {t : Token} {rest : List UInt8} (hread : lexer.read (data.drop st.i) = .ok (t, rest))
    (hl : t.isEoi = false) :
    Round (fun st : State => st.i ≤ data.length) (fun st => data.length - st.i)
      (expected data policy) st (.ok (.next (st.push policy t))) := by
  obtain ⟨hsplit, hfits⟩ := lexer.sound hread
  have hpos : 0 < t.encode.length := List.length_pos_iff.mpr t.encode_ne_nil
  have hle : st.i + t.encode.length ≤ data.length := add_length_le hi hsplit
  have hrest : data.drop (st.i + t.encode.length) = rest := drop_of_drop _ hsplit
  rw [← hrest] at hread
  refine .next hle ?_ (expected_of_next rfl hread hl)
  change data.length - (st.i + t.encode.length) < data.length - st.i
  omega

section Bodies

variable {w : Width} {data u : List UInt8} {policy : Policy} {st : State} {fill a : Nat}
  {marker : UInt8}

/-- The part of a round at `SOS`, behind the marker: the header and the entropy-coded data are
copied. -/
theorem round_scan (hfit : w.Fits data.length) (hsoi : 2 ≤ data.length) (hi : st.i ≤ data.length)
    (ha : a = st.i + (fill + 2)) (hale : a ≤ data.length) (hafter : data.drop a = u)
    (hne : data.drop st.i ≠ []) (hread : lexer.read (data.drop st.i) = readMarker fill sos u) :
    Round (fun st : State => st.i ≤ data.length) (fun st => data.length - st.i)
      (expected data policy) st (do
        let (_, headerEnd) ← lengthField w data a "truncated scan header length"
          "invalid scan header length" "scan header runs past end of file"
        let dataEnd ← scanDataEnd w data headerEnd
        let copied ← slice data a dataEnd
        return .next
          { st with i := dataEnd, out := st.out ++ [0xFF, sos] ++ copied, seenScan := true }) := by
  rw [readMarker, if_neg (by decide), if_pos rfl] at hread
  rw [lengthField_eq hfit hsoi _ _ _ hale, hafter]
  rcases hfield : readField _ _ _ u with e | ⟨header, rest⟩
  · rw [hfield] at hread
    exact .fail (expected_of_error hne hread)
  rw [hfield] at hread
  obtain ⟨rfl, -⟩ := readField_sound hfield
  have hheader : data.drop (a + (header.length + 2)) = rest := by
    have := drop_of_drop _ hafter
    rwa [length_field] at this
  have hheaderle : a + (header.length + 2) ≤ data.length := by
    have := add_length_le hale hafter
    rwa [length_field] at this
  have hscan := scanLength_le rest
  have hstop : a + (header.length + 2) + scanLength rest ≤ data.length := by
    have hlen := congrArg List.length hheader
    rw [List.length_drop] at hlen
    omega
  have hcopied : (data.drop a).take (a + (header.length + 2) + scanLength rest - a) =
      field header ++ rest.take (scanLength rest) := by
    have hn : a + (header.length + 2) + scanLength rest - a =
        (field header).length + scanLength rest := by
      rw [length_field]
      omega
    rw [hafter, hn, List.take_length_add_append]
  have hpush : ({ st with i := a + (header.length + 2) + scanLength rest,
                          out := st.out ++ [0xFF, sos] ++
                            (field header ++ rest.take (scanLength rest)),
                          seenScan := true } : State) =
      st.push policy (.scan fill header (rest.take (scanLength rest))) := by
    have hi' : a + (header.length + 2) + scanLength rest =
        st.i + (Token.scan fill header (rest.take (scanLength rest))).encode.length := by
      simp only [Token.encode, List.length_append, Token.length_introduce, length_field,
        List.length_take_of_le hscan]
      omega
    simp [State.push, hi', Token.isDropped, Token.unfilled, Token.encode, Token.introduce,
      Token.removedItem, Token.isScan]
  simp only [Exec.ok_bind]
  rw [scanDataEnd_eq hfit hheaderle, Exec.ok_bind, hheader, slice_eq_ok (by omega) hstop,
    Exec.ok_bind, hcopied, hpush]
  exact round_next hi hread rfl

/-- The part of a round at a segment, behind the marker: the segment is dropped and reported, or
copied. -/
theorem round_segment (hfit : w.Fits data.length) (hsoi : 2 ≤ data.length)
    (hi : st.i ≤ data.length) (ha : a = st.i + (fill + 2)) (hale : a ≤ data.length)
    (hafter : data.drop a = u) (hne : data.drop st.i ≠ [])
    (hread : lexer.read (data.drop st.i) = readMarker fill marker u) (heoi : marker ≠ eoi)
    (hsos : marker ≠ sos) (halone : isStandalone marker = false) :
    Round (fun st : State => st.i ≤ data.length) (fun st => data.length - st.i)
      (expected data policy) st (do
        let (len, segEnd) ← lengthField w data a "truncated segment length"
          "invalid segment length" "segment runs past end of file"
        if dropIt policy marker then
          let bytesRemoved ← add w len 2
          return .next
            { st with i := segEnd, removed := st.removed ++ [removedSegment marker bytesRemoved] }
        else
          let copied ← slice data a segEnd
          return .next { st with i := segEnd, out := st.out ++ [0xFF, marker] ++ copied }) := by
  rw [readMarker, if_neg heoi, if_neg hsos, if_neg (by simp [halone])] at hread
  rw [lengthField_eq hfit hsoi _ _ _ hale, hafter]
  rcases hfield : readField _ _ _ u with e | ⟨payload, rest⟩
  · rw [hfield] at hread
    exact .fail (expected_of_error hne hread)
  rw [hfield] at hread
  obtain ⟨rfl, hlt⟩ := readField_sound hfield
  have hstop : a + (payload.length + 2) ≤ data.length := by
    have := add_length_le hale hafter
    rwa [length_field] at this
  have hi' : a + (payload.length + 2) =
      st.i + (Token.segment fill marker payload).encode.length := by
    simp only [Token.encode, List.length_append, Token.length_introduce, length_field]
    omega
  have hround : Round _ _ (expected data policy) st _ := round_next hi hread rfl
  simp only [Exec.ok_bind]
  cases hdrop : dropIt policy marker with
  | true =>
    rw [if_pos rfl, add_eq_ok (hfit.holds_add (by omega) hsoi), Exec.ok_bind, hi']
    simpa [State.push, Token.isDropped, Token.removedItem, Token.isScan, hdrop] using hround
  | false =>
    have hcopied : (data.drop a).take (a + (payload.length + 2) - a) = field payload := by
      rw [hafter, Nat.add_sub_cancel_left, ← length_field, List.take_left' rfl]
    rw [if_neg (by simp), slice_eq_ok (by omega) hstop, Exec.ok_bind, hcopied, hi']
    simpa [State.push, Token.isDropped, Token.removedItem, Token.isScan, Token.unfilled,
      Token.encode, Token.introduce, hdrop] using hround

end Bodies

/-- **Step lemma**: a round reads the token at `i`, or reports that there is none. -/
theorem round_spec {w : Width} {data : List UInt8} {policy : Policy} (hfit : w.Fits data.length)
    (hsoi : 2 ≤ data.length) (st : State) (hi : st.i ≤ data.length) :
    Round (fun st : State => st.i ≤ data.length) (fun st => data.length - st.i)
      (expected data policy) st (round w data policy st) := by
  by_cases hend : st.i ≥ data.length
  · -- the end of the file
    have hnil : data.drop st.i = [] := List.drop_eq_nil_of_le hend
    rw [round, if_pos hend]
    cases hseen : st.seenScan with
    | true =>
      refine .done ?_
      simp [expected, hnil, hseen, sortTokens]
    | false =>
      refine .fail ?_
      simp [expected, hnil, hseen]
  rw [round, if_neg hend]
  obtain ⟨n, u, hrun, hu⟩ := exists_run (data.drop st.i)
  have hne : data.drop st.i ≠ [] := by
    intro h
    have hlen := congrArg List.length h
    simp only [List.length_drop, List.length_nil] at hlen
    omega
  cases n with
  | zero =>
    -- no marker
    rw [ffs_zero, List.nil_append] at hrun
    cases u with
    | nil => exact absurd hrun hne
    | cons b u =>
      rw [index_eq_ok (getElem?_of_drop hrun), Exec.ok_bind, if_pos hu.head_ne]
      refine .fail (expected_of_error hne ?_)
      rw [hrun]
      exact readToken_noFill hu
  | succ fill =>
    have hrun' := hrun
    rw [ffs_succ, List.cons_append] at hrun'
    rw [index_eq_ok (getElem?_of_drop hrun'), Exec.ok_bind, if_neg (by simp),
      fillEnd_eq hfit hi hrun hu, Exec.ok_bind]
    have hj : data.drop (st.i + (fill + 1)) = u := by
      have := drop_of_drop _ hrun
      rwa [length_ffs] at this
    have hjle : st.i + (fill + 1) ≤ data.length := by
      have := add_length_le hi hrun
      rwa [length_ffs] at this
    cases u with
    | nil =>
      -- a run of `FF` up to the end of the file
      have hlen := congrArg List.length hj
      simp only [List.length_drop, List.length_nil] at hlen
      rw [if_pos (by omega)]
      refine .fail (expected_of_error hne ?_)
      rw [hrun, List.append_nil]
      exact readToken_dangling fill
    | cons marker u =>
      have hjlt := lt_length_of_drop hj
      have hread : lexer.read (data.drop st.i) = readMarker fill marker u := by
        rw [hrun]
        exact readToken_marker fill hu.head_ne u
      have hafter := drop_succ_of_drop hj
      have hale : st.i + (fill + 1) + 1 ≤ data.length := hjlt
      rw [if_neg (by omega), index_eq_ok (getElem?_of_drop hj), Exec.ok_bind,
        add_eq_ok (hfit.holds_add hjle (by omega)), Exec.ok_bind]
      have ha : st.i + (fill + 1) + 1 = st.i + (fill + 2) := by omega
      by_cases heoi : marker = eoi
      · rw [if_pos heoi]
        rw [readMarker, if_pos heoi] at hread
        exact .done (expected_of_eoi hread)
      by_cases hsos : marker = sos
      · subst hsos
        rw [if_neg heoi, if_pos rfl]
        exact round_scan hfit hsoi hi ha hale hafter hne hread
      rw [if_neg heoi, if_neg hsos]
      cases halone : isStandalone marker with
      | true =>
        rw [readMarker, if_neg heoi, if_neg hsos, if_pos halone] at hread
        rw [if_pos rfl]
        have hpush : ({ st with i := st.i + (fill + 1) + 1, out := st.out ++ [0xFF, marker] } :
            State) = st.push policy (.standalone fill marker) := by
          simp [State.push, Token.isDropped, Token.unfilled, Token.encode, Token.introduce,
            Token.removedItem, Token.isScan]
          omega
        rw [hpush]
        exact round_next hi hread rfl
      | false =>
        rw [if_neg (by simp)]
        exact round_segment hfit hsoi hi ha hale hafter hne hread heoi hsos halone

/-- The state before the first round. -/
def start : State := { i := 2, out := [0xFF, soi], removed := [], seenScan := false }

/-- The disarmer, read off the grammar. -/
def disarmTokens (data : List UInt8) (policy : Policy) : Except DomainError DisarmOutput :=
  if [0xFF, soi] <+: data then expected data policy start
  else .error (malformed "missing SOI marker")

/-- **The loop is the grammar**: on a file in memory the disarmer neither panics nor runs on, and
returns what reading the tokens gives, whatever the width of `usize`. -/
theorem disarm_eq_lift {w : Width} {artifact : Artifact} (hfit : w.Fits artifact.bytes.length)
    (policy : Policy) :
    JpegDisarmer.disarm w artifact policy = Exec.lift (disarmTokens artifact.bytes policy) := by
  rw [JpegDisarmer.disarm, disarmTokens]
  by_cases hsoi : [0xFF, soi] <+: artifact.bytes
  · have hlen : 2 ≤ artifact.bytes.length := hsoi.length_le
    rw [if_pos hsoi, if_pos hsoi]
    exact loop_eq_lift (I := fun st : State => st.i ≤ artifact.bytes.length)
      (fun st hi => round_spec hfit hlen st hi) _ start hlen (by omega)
  · rw [if_neg hsoi, if_neg hsoi]
    rfl

/-! ## The marker grammar, and the disarmer over it -/

/-- The file is `SOI`, then the tokens, then what is left over. `EOI` is at most the last token;
either it is there, or the file ends after a scan and nothing is left over. -/
structure Marked (data : List UInt8) (ts : List Token) (trailing : List UInt8) : Prop where
  split : data = [0xFF, soi] ++ ts.flatMap Token.encode ++ trailing
  fits : ∀ us t vs, ts = us ++ t :: vs → t.Fits (vs.flatMap Token.encode ++ trailing)
  eoi_last : ∀ t ∈ ts.dropLast, t.isEoi = false
  ending : (∃ fill, ts.getLast? = some (.eoi fill)) ∨ (trailing = [] ∧ ∃ t ∈ ts, t.isScan = true)

theorem isEoi_iff {t : Token} : t.isEoi = true ↔ ∃ fill, t = .eoi fill := by
  cases t <;> simp [Token.isEoi]

/-- A marked file is the first marker and what the loop over the tokens may read, with a scan or an
end in it. -/
theorem marked_iff {data : List UInt8} {ts : List Token} {trailing : List UInt8} :
    Marked data ts trailing ↔
      data = [0xFF, soi] ++ (lexicon.encodeAll ts ++ trailing) ∧ lexicon.Admits ts trailing ∧
        (ts.any fun t => t.isScan || t.isEoi) = true := by
  refine ⟨?_, ?_⟩
  · rintro ⟨hsplit, hfits, heoi, hend⟩
    refine ⟨by rw [hsplit, List.append_assoc]; rfl, ?_, ?_⟩
    · refine Lexicon.admits_iff.mpr ⟨hfits, heoi, ?_⟩
      intro hne
      rcases hend with ⟨fill, hlast⟩ | ⟨hnil, -⟩
      · exact ⟨_, hlast, rfl⟩
      · exact absurd hnil hne
    · rw [List.any_eq_true]
      rcases hend with ⟨fill, hlast⟩ | ⟨-, t, ht, hscan⟩
      · exact ⟨_, List.mem_of_getLast? hlast, by simp [Token.isEoi]⟩
      · exact ⟨t, ht, by simp [hscan]⟩
  · rintro ⟨hsplit, hadm, hany⟩
    obtain ⟨hfits, heoi, hrest⟩ := Lexicon.admits_iff.mp hadm
    refine ⟨by rw [hsplit, List.append_assoc]; rfl, hfits, heoi, ?_⟩
    obtain ⟨t, ht, hkind⟩ := List.any_eq_true.mp hany
    rcases Bool.or_eq_true_iff.mp hkind with hscan | hteoi
    · by_cases hne : trailing = []
      · exact .inr ⟨hne, t, ht, hscan⟩
      · obtain ⟨u, hlast, hu⟩ := hrest hne
        obtain ⟨fill, rfl⟩ := isEoi_iff.mp hu
        exact .inl ⟨fill, hlast⟩
    · obtain ⟨us, vs, rfl⟩ := List.append_of_mem ht
      obtain rfl := hadm.last_eq_nil hteoi
      obtain ⟨fill, rfl⟩ := isEoi_iff.mp hteoi
      exact .inl ⟨fill, List.getLast?_concat⟩

/-- A file is split into tokens in at most one way. -/
theorem Marked.unique {data : List UInt8} {ts us : List Token} {t u : List UInt8}
    (ht : Marked data ts t) (hu : Marked data us u) : ts = us ∧ t = u := by
  obtain ⟨hsplit, hadm, -⟩ := marked_iff.mp ht
  obtain ⟨hsplit', hadm', -⟩ := marked_iff.mp hu
  rw [hsplit] at hsplit'
  exact lexer.admits_unique (List.append_cancel_left hsplit') hadm hadm'

/-- The rebuilt file. -/
def rebuild (policy : Policy) (ts : List Token) : DisarmOutput where
  bytes := [0xFF, soi] ++
    (ts.filter fun t => !t.isDropped policy).flatMap fun t => t.unfilled.encode
  removed := ts.filterMap (Token.removedItem policy)

/-- What the disarmer returns is exactly what the tokens of the file give. -/
theorem disarmTokens_eq_ok {data : List UInt8} {policy : Policy} {out : DisarmOutput} :
    disarmTokens data policy = .ok out ↔
      ∃ ts trailing, Marked data ts trailing ∧ out = rebuild policy ts := by
  refine ⟨?_, ?_⟩
  · intro h
    rw [disarmTokens] at h
    split_ifs at h with hsoi
    obtain ⟨l, rfl⟩ := hsoi
    have hdrop : ([0xFF, soi] ++ l).drop start.i = l := rfl
    rw [expected, hdrop] at h
    rcases hall : lexer.readAll l with e | ⟨ts, trailing⟩
    · rw [hall] at h
      cases h
    · rw [hall] at h
      simp only [start, Bool.false_or] at h
      split_ifs at h with hany
      obtain ⟨rfl, hadm⟩ := lexer.readAll_eq_ok.mp hall
      exact ⟨ts, trailing, marked_iff.mpr ⟨rfl, hadm, hany⟩, (Except.ok.inj h).symm⟩
  · rintro ⟨ts, trailing, hmarked, rfl⟩
    obtain ⟨rfl, hadm, hany⟩ := marked_iff.mp hmarked
    have hdrop : ([0xFF, soi] ++ (lexicon.encodeAll ts ++ trailing)).drop start.i =
        lexicon.encodeAll ts ++ trailing := rfl
    rw [disarmTokens, if_pos (List.prefix_append _ _), expected, hdrop,
      lexer.readAll_encodeAll hadm]
    simp only [start, Bool.false_or, hany, if_true]
    rfl

/-- The same of the index loops, on a file that fits. -/
theorem disarm_eq_ok {w : Width} {artifact : Artifact} (hfit : w.Fits artifact.bytes.length)
    {policy : Policy} {out : DisarmOutput} :
    JpegDisarmer.disarm w artifact policy = .ok out ↔
      ∃ ts trailing, Marked artifact.bytes ts trailing ∧ out = rebuild policy ts := by
  rw [disarm_eq_lift hfit, Exec.lift_eq_ok, disarmTokens_eq_ok]

/-- The segments the policy takes out: comments, and application segments except a JFIF one that
is kept. -/
def Strips (policy : Policy) : Token → Prop
  | .segment _ marker _ =>
    policy.stripMetadata = true ∧
      (marker = com ∨ (app0 ≤ marker ∧ marker ≤ app15) ∧ ¬ (marker = app0 ∧ policy.keepJfif = true))
  | _ => False

/-- The test of the code is the rule of the policy. -/
theorem isDropped_iff (policy : Policy) (t : Token) :
    t.isDropped policy = true ↔ Strips policy t := by
  cases t with
  | segment fill marker payload => simp [Token.isDropped, Strips, dropIt, imp_iff_not_or]
  | _ => simp [Token.isDropped, Strips]

/-- **JPEG disarming over the marker grammar**: the disarmer succeeds on exactly the files made of
tokens, which are then split in one way only. It copies the tokens that are not stripped, in
order, with a single `FF` before the marker, and records the stripped ones in order. -/
theorem disarm_marked (w : Width) (artifact : Artifact) (policy : Policy)
    (hfit : w.Fits artifact.bytes.length) :
    ((∃ out, JpegDisarmer.disarm w artifact policy = .ok out) ↔
      ∃ ts trailing, Marked artifact.bytes ts trailing) ∧
    (∀ ts trailing, Marked artifact.bytes ts trailing →
      JpegDisarmer.disarm w artifact policy = .ok
        { bytes := [0xFF, soi] ++
            (ts.filter fun t => !t.isDropped policy).flatMap fun t => t.unfilled.encode,
          removed := ts.filterMap (Token.removedItem policy) }) ∧
    (∀ ts us t u, Marked artifact.bytes ts t → Marked artifact.bytes us u → ts = us ∧ t = u) ∧
    ∀ t, t.isDropped policy = true ↔ Strips policy t := by
  refine ⟨⟨?_, ?_⟩, ?_, ?_, isDropped_iff policy⟩
  · rintro ⟨out, hout⟩
    obtain ⟨ts, trailing, hmarked, -⟩ := (disarm_eq_ok hfit).mp hout
    exact ⟨ts, trailing, hmarked⟩
  · rintro ⟨ts, trailing, hmarked⟩
    exact ⟨_, (disarm_eq_ok hfit).mpr ⟨ts, trailing, hmarked, rfl⟩⟩
  · intro ts trailing hmarked
    exact (disarm_eq_ok hfit).mpr ⟨ts, trailing, hmarked, rfl⟩
  · intro ts us t u ht hu
    exact ht.unique hu

/-- The tokens of a file with an EXIF segment, a filled marker and bytes after `EOI`. -/
def sampleTokens : List Token :=
  [.segment 0 0xE1 [0x45], .scan 2 [] [0xAA, 0xFF, 0x00, 0xBB], .eoi 0]

/-- The sample file is marked, with one byte after the end. -/
theorem sample_marked :
    Marked ([0xFF, soi] ++ sampleTokens.flatMap Token.encode ++ [0x99]) sampleTokens [0x99] := by
  have hdata : IsEntropyCoded [0xAA, 0xFF, 0x00, 0xBB] :=
    .byte (by decide) (.run (n := 0) (by decide) (.byte (by decide) .nil))
  have hmax : IsMaximal [0xAA, 0xFF, 0x00, 0xBB] [0xFF, 0xD9, 0x99] :=
    (isMaximal_iff hdata).mpr (by decide)
  refine marked_iff.mpr ⟨by decide, ⟨⟨?_, ?_, ?_, ?_⟩, ⟨?_, hdata, hmax⟩, trivial, rfl⟩, rfl⟩
  all_goals decide

/-- On that file the EXIF segment goes, and so do the fill bytes and what follows `EOI`. -/
theorem disarm_marked_sample :
    JpegDisarmer.disarm .w64
      (Artifact.new ([0xFF, soi] ++ sampleTokens.flatMap Token.encode ++ [0x99])) Policy.strict =
    .ok { bytes := [0xFF, soi, 0xFF, sos, 0, 2, 0xAA, 0xFF, 0x00, 0xBB, 0xFF, eoi],
          removed := [removedSegment 0xE1 5] } :=
  (disarm_marked .w64 (Artifact.new _) Policy.strict (by decide)).2.1 sampleTokens [0x99]
    sample_marked

end Jpeg

end Purgo
