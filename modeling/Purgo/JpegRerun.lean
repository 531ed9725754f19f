import Purgo.JpegMarkers

/-!
# Disarming a JPEG file twice

A second run reads the file the first one wrote, and the tokens that survived the first run are
not always the tokens the second one finds. Where stripped segments stood between a scan and a
token whose marker is `00` or `RSTn`, that token now directly follows the scan, and the scan rules
read its `FF` and marker as entropy-coded data. For `RSTn` nothing else changes. A segment with
marker `00` has a length field and a payload, which the scan rules now read as well: a marker
*inside the payload* ends the scan, and reading goes on from there.

`Settled` is the condition under which this does no harm, as a condition on the surviving tokens
of the input; `clean_iff_settled` shows it exact, by induction on these tokens, once for reading
at a marker and once for reading inside a scan.
-/

namespace Purgo

open Rust Lexing

namespace Jpeg

/-! ## Surviving tokens -/

/-- The tokens of the rebuilt file, as the first run saw them. -/
def survivors (policy : Policy) (ts : List Token) : List Token :=
  (ts.filter fun t => !t.isDropped policy).map Token.unfilled

/-- The token is copied as it is. -/
def Token.Kept (policy : Policy) (t : Token) : Prop := t.unfilled = t ∧ t.isDropped policy = false

/-- The output is the first marker and the survivors. -/
theorem rebuild_bytes (policy : Policy) (ts : List Token) :
    (rebuild policy ts).bytes = [0xFF, soi] ++ lexicon.encodeAll (survivors policy ts) := by
  rw [rebuild, survivors, Lexicon.encodeAll, List.flatMap_map]
  rfl

/-- Fill bytes are gone after the first time. -/
@[simp] theorem Token.unfilled_unfilled (t : Token) : t.unfilled.unfilled = t.unfilled := by
  cases t <;> rfl

/-- Whether a token goes does not depend on its fill bytes. -/
@[simp] theorem Token.isDropped_unfilled (policy : Policy) (t : Token) :
    t.unfilled.isDropped policy = t.isDropped policy := by
  cases t <;> rfl

@[simp] theorem Token.isEoi_unfilled (t : Token) : t.unfilled.isEoi = t.isEoi := by
  cases t <;> rfl

@[simp] theorem Token.isScan_unfilled (t : Token) : t.unfilled.isScan = t.isScan := by
  cases t <;> rfl

/-- A token without its fill bytes may stand where it stood. -/
theorem Token.fits_unfilled {t : Token} {rest : List UInt8} (h : t.Fits rest) :
    t.unfilled.Fits rest := by
  cases t <;> exact h

variable {policy : Policy}

/-- The survivors are kept, and have no fill bytes. -/
theorem kept_of_mem_survivors {ts : List Token} {t : Token} (ht : t ∈ survivors policy ts) :
    t.Kept policy := by
  obtain ⟨u, hu, rfl⟩ := List.mem_map.mp ht
  refine ⟨u.unfilled_unfilled, ?_⟩
  simpa using (List.mem_filter.mp hu).2

/-- `EOI` is the final one of the survivors too. -/
theorem eoi_last_survivors {ts : List Token} {rest : List UInt8} (h : lexicon.Admits ts rest) :
    ∀ t ∈ (survivors policy ts).dropLast, t.isEoi = false := by
  induction ts with
  | nil => exact fun t ht => absurd ht List.not_mem_nil
  | cons t ts ih =>
    cases heoi : t.isEoi with
    | true =>
      obtain rfl : ts = [] :=
        Lexicon.Admits.last_eq_nil (show lexicon.Admits ([] ++ t :: ts) rest from h) heoi
      cases t with
      | eoi fill => exact fun u hu => absurd hu List.not_mem_nil
      | _ => cases heoi
    | false =>
      have hts := ih (h.tail heoi)
      cases hdrop : t.isDropped policy with
      | true =>
        have hsurv : survivors policy (t :: ts) = survivors policy ts := by simp [survivors, hdrop]
        rwa [hsurv]
      | false =>
        have hsurv : survivors policy (t :: ts) = t.unfilled :: survivors policy ts := by
          simp [survivors, hdrop]
        rw [hsurv]
        intro u hu
        rcases hcase : survivors policy ts with _ | ⟨v, vs⟩
        · rw [hcase] at hu
          cases hu
        · rw [hcase, List.dropLast_cons_cons] at hu
          rcases List.mem_cons.mp hu with rfl | hu
          · rwa [Token.isEoi_unfilled]
          · exact hts u (by rwa [hcase])

/-! ## Clean bytes

A file is rebuilt as it is when it is spelled by tokens that are copied as they are. -/

/-- The bytes are spelled by tokens that are copied as they are. -/
def Clean (policy : Policy) (s : List UInt8) : Prop := lexicon.Spelled (Token.Kept policy) s

/-- What is left of the bytes when the scan rules have read all they can is clean. -/
def CleanAfterScan (policy : Policy) (s : List UInt8) : Prop :=
  Clean policy (s.drop (scanLength s))

/-- A token that does not care what follows it adds nothing to be checked. -/
theorem clean_encode_append {t : Token} (hk : t.Kept policy) (hfits : ∀ r, t.Fits r)
    (hl : t.isEoi = false) (s : List UInt8) : Clean policy (t.encode ++ s) ↔ Clean policy s := by
  have hread : lexer.read (t.encode ++ s) = .ok (t, s) := readToken_complete (hfits s)
  rw [Clean, lexer.spelled_of_next hread hl]
  exact and_iff_right hk

/-- A scan before more bytes takes what is entropy-coded of them. -/
theorem read_scan {fill : Nat} {header data : List UInt8} (hlt : header.length + 2 < 2 ^ 16)
    (hdata : IsEntropyCoded data) (s : List UInt8) :
    lexer.read ((Token.scan fill header data).encode ++ s) =
      .ok (.scan fill header (data ++ s.take (scanLength s)), s.drop (scanLength s)) := by
  obtain ⟨-, htake, hdrop⟩ := isEntropyCoded_take s.length s (Nat.le_refl _)
  have hsplit : (Token.scan fill header data).encode ++ s =
      (Token.scan fill header (data ++ s.take (scanLength s))).encode ++ s.drop (scanLength s) := by
    simp only [Token.encode, List.append_assoc, List.take_append_drop]
  rw [hsplit]
  exact readToken_complete
    ⟨hlt, hdata.append htake, (isMaximal_iff (hdata.append htake)).mpr hdrop⟩

/-- A clean file that begins with a scan goes on with what is clean after a scan. -/
theorem clean_scan_append {header data : List UInt8} (hlt : header.length + 2 < 2 ^ 16)
    (hdata : IsEntropyCoded data) (s : List UInt8) :
    Clean policy ((Token.scan 0 header data).encode ++ s) ↔ CleanAfterScan policy s := by
  rw [Clean, lexer.spelled_of_next (read_scan hlt hdata s) rfl]
  exact and_iff_right ⟨rfl, rfl⟩

theorem clean_eoi : Clean policy (Token.eoi 0).encode := by
  have hfits : (Token.eoi 0).Fits [] := trivial
  have hread : lexer.read ((Token.eoi 0).encode ++ []) = .ok (.eoi 0, []) :=
    readToken_complete hfits
  rw [List.append_nil] at hread
  exact (lexer.spelled_of_last hread rfl).mpr ⟨⟨rfl, rfl⟩, rfl⟩

/-! ### Inside a scan -/

/-- Entropy-coded data is passed over. -/
theorem cleanAfterScan_append {e : List UInt8} (he : IsEntropyCoded e) (s : List UInt8) :
    CleanAfterScan policy (e ++ s) ↔ CleanAfterScan policy s := by
  rw [CleanAfterScan, he.scanLength_append, List.drop_length_add_append, CleanAfterScan]

/-- Where no entropy-coded data stands, the scan is over. -/
theorem cleanAfterScan_of_stop {s : List UInt8} (hs : scanLength s = 0) :
    CleanAfterScan policy s ↔ Clean policy s := by
  rw [CleanAfterScan, hs, List.drop_zero]

/-- The number of fill bytes of a token. -/
def Token.fill : Token → Nat
  | standalone fill _ => fill
  | segment fill _ _ => fill
  | scan fill _ _ => fill
  | eoi fill => fill

/-- A token that is its own normal form has no fill bytes. -/
theorem Token.fill_eq_zero {t : Token} (h : t.unfilled = t) : t.fill = 0 := by
  rw [← h]
  cases t <;> rfl

theorem fill_of_readMarker {fill : Nat} {marker : UInt8} {s rest : List UInt8} {t : Token}
    (h : readMarker fill marker s = .ok (t, rest)) : t.fill = fill := by
  rw [readMarker] at h
  split_ifs at h
  · obtain ⟨rfl, -⟩ := Prod.mk.inj (Except.ok.inj h)
    rfl
  · split at h
    · cases h
    · obtain ⟨rfl, -⟩ := Prod.mk.inj (Except.ok.inj h)
      rfl
  · obtain ⟨rfl, -⟩ := Prod.mk.inj (Except.ok.inj h)
    rfl
  · split at h
    · cases h
    · obtain ⟨rfl, -⟩ := Prod.mk.inj (Except.ok.inj h)
      rfl

/-- A run of more than one `FF` before a marker is not copied as it is. -/
theorem not_clean_of_fill (n : Nat) {marker : UInt8} (hm : marker ≠ 0xFF) (s : List UInt8) :
    ¬ Clean policy (ffs (n + 2) ++ marker :: s) := by
  intro h
  rcases hread : readMarker (n + 1) marker s with e | ⟨t, rest⟩
  · exact lexer.not_spelled_of_error (by simp) ((readToken_marker (n + 1) hm s).trans hread) h
  · have hk : t.Kept policy := by
      have hread' := (readToken_marker (n + 1) hm s).trans hread
      cases hl : t.isEoi with
      | true => exact ((lexer.spelled_of_last hread' hl).mp h).1
      | false => exact ((lexer.spelled_of_next hread' hl).mp h).1
    have hzero := Token.fill_eq_zero hk.1
    rw [fill_of_readMarker hread] at hzero
    cases hzero

/-- A run of `0xFF` to the end of the file is not clean. -/
theorem not_clean_of_dangling (n : Nat) : ¬ Clean policy (ffs (n + 1)) :=
  lexer.not_spelled_of_error (by simp) (readToken_dangling n)

/-! ## The condition -/

/-- The marker of a token. -/
def Token.marker : Token → UInt8
  | standalone _ marker => marker
  | segment _ marker _ => marker
  | scan _ _ _ => sos
  | eoi _ => Jpeg.eoi

/-- What follows the marker of a token. -/
def Token.body : Token → List UInt8
  | standalone _ _ => []
  | segment _ _ payload => field payload
  | scan _ header data => field header ++ data
  | eoi _ => []

/-- What the scan rules leave of the body of a token. -/
def Token.unread (t : Token) : List UInt8 := t.body.drop (scanLength t.body)

/-- The surviving tokens are found again in the rebuilt file, or what is found instead does no
harm. The flag says that the token before is read by the scan rules. -/
def Settled (policy : Policy) : Bool → List Token → Prop
  | _, [] => True
  | false, t :: ts => Settled policy t.isScan ts
  | true, t :: ts =>
    if isStuffing t.marker then
      if t.unread.all (· == 0xFF) then
        -- the body holds no marker; a run it ends in has to be continued by the next token
        (t.unread = [] ∨ ∃ u ∈ ts.head?, isStuffing u.marker = true) ∧ Settled policy true ts
      else
        -- a marker in the body: from there on the bytes have to be clean as they stand
        Clean policy (t.unread ++ lexicon.encodeAll ts)
    else Settled policy t.isScan ts

/-- The token is one, before some bytes. -/
def Token.Valid (t : Token) : Prop := ∃ rest, t.Fits rest

/-- A kept token is `0xFF`, its marker and its body. -/
theorem encode_of_kept {t : Token} (hk : t.Kept policy) :
    t.encode = 0xFF :: t.marker :: t.body := by
  rw [← hk.1]
  cases t <;> simp [Token.unfilled, Token.encode, Token.introduce, Token.marker, Token.body]

/-- The marker of a valid token ends the run before it. -/
theorem Token.Valid.marker_ne_ff {t : Token} (hv : t.Valid) : t.marker ≠ 0xFF := by
  obtain ⟨rest, hfits⟩ := hv
  cases t with
  | standalone fill marker => exact isStandalone_ne_ff hfits.1
  | segment fill marker payload => exact hfits.2.1
  | scan fill header data => exact (by decide : sos ≠ 0xFF)
  | eoi fill => exact (by decide : Jpeg.eoi ≠ 0xFF)

/-- What is left unread starts no entropy-coded data. -/
theorem scanLength_unread (t : Token) : scanLength t.unread = 0 :=
  (isEntropyCoded_take t.body.length t.body (Nat.le_refl _)).2.2

/-- A list with no entropy-coded data in front is a run of `FF`, and then nothing or a marker. -/
theorem run_of_scanLength {s : List UInt8} (hs : scanLength s = 0) :
    (∃ n, s = ffs n) ∨
      ∃ n b t, s = ffs (n + 1) ++ b :: t ∧ b ≠ 0xFF ∧ isStuffing b = false := by
  obtain ⟨n, t, rfl, ht⟩ := exists_run s
  cases t with
  | nil => exact .inl ⟨n, List.append_nil _⟩
  | cons b t =>
    have hb := ht.head_ne
    cases n with
    | zero =>
      rw [ffs_zero, List.nil_append, scanLength_byte _ hb] at hs
      cases hs
    | succ n =>
      refine .inr ⟨n, b, t, rfl, hb, ?_⟩
      cases hstuff : isStuffing b with
      | false => rfl
      | true =>
        rw [scanLength_run _ _ hstuff] at hs
        omega

/-- A run of `FF` before surviving tokens goes on into the first of them. -/
theorem cleanAfterScan_ffs_append (n : Nat) {ts : List Token} (hv : ∀ t ∈ ts, t.Valid)
    (hk : ∀ t ∈ ts, t.Kept policy) :
    CleanAfterScan policy (ffs (n + 1) ++ lexicon.encodeAll ts) ↔
      (∃ u ∈ ts.head?, isStuffing u.marker = true) ∧
        CleanAfterScan policy (lexicon.encodeAll ts) := by
  cases ts with
  | nil =>
    have hstop : scanLength (ffs (n + 1) ++ []) = 0 :=
      scanLength_stop n (by simp [NoFill]) (by simp)
    rw [Lexicon.encodeAll_nil, cleanAfterScan_of_stop hstop, List.append_nil]
    exact iff_of_false (not_clean_of_dangling n) (by simp)
  | cons t ts =>
    have hm := (hv t List.mem_cons_self).marker_ne_ff
    have henc : lexicon.encodeAll (t :: ts) =
        0xFF :: t.marker :: (t.body ++ lexicon.encodeAll ts) := by
      rw [Lexicon.encodeAll_cons]
      change t.encode ++ _ = _
      rw [encode_of_kept (hk t List.mem_cons_self)]
      rfl
    have hrun : ffs (n + 1) ++ lexicon.encodeAll (t :: ts) =
        ffs (n + 2) ++ t.marker :: (t.body ++ lexicon.encodeAll ts) := by
      rw [henc, ffs_add (n + 1) 1, List.append_assoc]
      rfl
    cases hstuff : isStuffing t.marker with
    | true =>
      have hlong : IsEntropyCoded (ffs (n + 1 + 1) ++ [t.marker]) := .run hstuff .nil
      have hshort : IsEntropyCoded (ffs (0 + 1) ++ [t.marker]) := .run hstuff .nil
      have h₁ : CleanAfterScan policy _ ↔ CleanAfterScan policy _ :=
        cleanAfterScan_append hlong (t.body ++ lexicon.encodeAll ts)
      have h₂ : CleanAfterScan policy _ ↔ CleanAfterScan policy _ :=
        cleanAfterScan_append hshort (t.body ++ lexicon.encodeAll ts)
      rw [hrun, henc]
      rw [List.append_assoc, List.singleton_append] at h₁ h₂
      rw [h₁]
      change _ ↔ _ ∧ CleanAfterScan policy (ffs (0 + 1) ++ _)
      rw [h₂]
      simp [hstuff]
    | false =>
      have hstop :
          scanLength (ffs (n + 1 + 1) ++ t.marker :: (t.body ++ lexicon.encodeAll ts)) = 0 :=
        scanLength_stop _ (noFill_cons _ hm) (by simpa using hstuff)
      rw [hrun, cleanAfterScan_of_stop hstop]
      exact iff_of_false (not_clean_of_fill n hm _) (by simp [hstuff])

/-- A token the scan rules go on into: they read its `FF` and marker, and what they can of its
body. -/
theorem cleanAfterScan_stuffing {t : Token} (hk : t.Kept policy)
    (hstuff : isStuffing t.marker = true) (s : List UInt8) :
    CleanAfterScan policy (t.encode ++ s) ↔ CleanAfterScan policy (t.unread ++ s) := by
  have hmark : IsEntropyCoded (ffs (0 + 1) ++ [t.marker]) := .run hstuff .nil
  have hbody := (isEntropyCoded_take t.body.length t.body (Nat.le_refl _)).2.1
  have hsplit : t.encode ++ s =
      (ffs (0 + 1) ++ [t.marker] ++ t.body.take (scanLength t.body)) ++ (t.unread ++ s) := by
    rw [encode_of_kept hk, Token.unread, List.append_assoc, ← List.append_assoc (List.take _ _),
      List.take_append_drop]
    rfl
  rw [hsplit]
  exact cleanAfterScan_append (hmark.append hbody) _

/-- A token the scan rules stop at. -/
theorem scanLength_encode_of_not_stuffing {t : Token} (hk : t.Kept policy) (hv : t.Valid)
    (hstuff : isStuffing t.marker = false) (s : List UInt8) : scanLength (t.encode ++ s) = 0 := by
  rw [encode_of_kept hk]
  exact scanLength_stop 0 (noFill_cons _ hv.marker_ne_ff) (by simpa using hstuff)

/-- **The condition is exact**: surviving tokens are clean as they stand in the file exactly when
they are settled, both where reading is at a marker and where it is inside a scan. -/
theorem clean_iff_settled {ts : List Token} (hv : ∀ t ∈ ts, t.Valid)
    (hk : ∀ t ∈ ts, t.Kept policy) (heoi : ∀ t ∈ ts.dropLast, t.isEoi = false) :
    (Clean policy (lexicon.encodeAll ts) ↔ Settled policy false ts) ∧
      (CleanAfterScan policy (lexicon.encodeAll ts) ↔ Settled policy true ts) := by
  induction ts with
  | nil =>
    have hnil : Clean policy [] := Lexicon.spelled_nil
    exact ⟨iff_of_true hnil trivial, iff_of_true hnil trivial⟩
  | cons t ts ih =>
    have hkt := hk t List.mem_cons_self
    have hvt := hv t List.mem_cons_self
    have heoi' : ∀ u ∈ ts.dropLast, u.isEoi = false := by
      intro u hu
      refine heoi u ?_
      cases ts with
      | nil => cases hu
      | cons v vs => exact List.mem_cons_of_mem _ hu
    obtain ⟨ihmarker, ihscan⟩ := ih (fun u hu => hv u (List.mem_cons_of_mem _ hu))
      (fun u hu => hk u (List.mem_cons_of_mem _ hu)) heoi'
    rw [Lexicon.encodeAll_cons]
    change (Clean policy (t.encode ++ _) ↔ _) ∧ (CleanAfterScan policy (t.encode ++ _) ↔ _)
    -- at a marker
    have hmarker : Clean policy (t.encode ++ lexicon.encodeAll ts) ↔
        Settled policy t.isScan ts := by
      obtain ⟨r, hfits⟩ := hvt
      cases t with
      | standalone fill marker => rw [clean_encode_append hkt (fun _ => hfits) rfl, ihmarker]; rfl
      | segment fill marker payload =>
        rw [clean_encode_append hkt (fun _ => hfits) rfl, ihmarker]; rfl
      | scan fill header data =>
        obtain rfl : fill = 0 := Token.fill_eq_zero hkt.1
        rw [clean_scan_append hfits.1 hfits.2.1, ihscan]; rfl
      | eoi fill =>
        obtain rfl : fill = 0 := Token.fill_eq_zero hkt.1
        cases ts with
        | nil =>
          rw [Lexicon.encodeAll_nil, List.append_nil]
          exact iff_of_true clean_eoi trivial
        | cons u us => exact absurd (heoi (.eoi 0) (by simp)) (by simp [Token.isEoi])
    refine ⟨hmarker, ?_⟩
    -- inside a scan
    rw [Settled]
    cases hstuff : isStuffing t.marker with
    | false =>
      rw [if_neg (by simp), cleanAfterScan_of_stop
        (scanLength_encode_of_not_stuffing hkt hvt hstuff _), hmarker]
    | true =>
      rw [if_pos rfl, cleanAfterScan_stuffing hkt hstuff]
      rcases run_of_scanLength (scanLength_unread t) with ⟨n, hn⟩ | ⟨n, b, u, hu, hb, hns⟩
      · have hall : (ffs n).all (· == 0xFF) = true :=
          List.all_eq_true.mpr fun b hb => beq_iff_eq.mpr (List.eq_of_mem_replicate hb)
        rw [hn, if_pos hall]
        cases n with
        | zero =>
          rw [ffs_zero, List.nil_append, ihscan]
          simp
        | succ n =>
          rw [cleanAfterScan_ffs_append n (fun u hu => hv u (List.mem_cons_of_mem _ hu))
            (fun u hu => hk u (List.mem_cons_of_mem _ hu)), ihscan]
          simp
      · have hstop : scanLength (t.unread ++ lexicon.encodeAll ts) = 0 := by
          rw [hu, List.append_assoc, List.cons_append]
          exact scanLength_stop n (noFill_cons _ hb) (by simpa using hns)
        have hmark : ¬ t.unread.all (· == 0xFF) = true := by
          intro hall
          exact hb (beq_iff_eq.mp (List.all_eq_true.mp hall b (by rw [hu]; simp)))
        rw [if_neg hmark, cleanAfterScan_of_stop hstop]

/-! ## The second run -/

/-- Nothing is reported of a token exactly when it is kept. -/
theorem Token.removedItem_eq_none {t : Token} :
    t.removedItem policy = none ↔ t.isDropped policy = false := by
  cases t with
  | segment fill marker payload => simp [removedItem, isDropped]
  | _ => simp [removedItem, isDropped]

theorem Token.length_unfilled (t : Token) :
    t.unfilled.encode.length + t.fill = t.encode.length := by
  cases t <;> simp [unfilled, encode, introduce, fill] <;> omega

theorem Token.unfilled_eq_self {t : Token} (h : t.fill = 0) : t.unfilled = t := by
  cases t <;> simp_all [fill, unfilled]

/-- Dropping tokens and fill bytes makes the bytes fewer, and as many only when it changed
nothing. -/
theorem length_survivors (policy : Policy) (ts : List Token) :
    (lexicon.encodeAll (survivors policy ts)).length ≤ (lexicon.encodeAll ts).length ∧
      ((lexicon.encodeAll (survivors policy ts)).length = (lexicon.encodeAll ts).length →
        ∀ t ∈ ts, t.Kept policy) := by
  induction ts with
  | nil => exact ⟨Nat.le_refl _, fun _ _ ht => absurd ht List.not_mem_nil⟩
  | cons t ts ih =>
    obtain ⟨hle, heq⟩ := ih
    have hlen := t.length_unfilled
    have hpos : 0 < t.encode.length := List.length_pos_iff.mpr t.encode_ne_nil
    have hall : (lexicon.encodeAll (t :: ts)).length =
        t.encode.length + (lexicon.encodeAll ts).length := List.length_append
    cases hdrop : t.isDropped policy with
    | true =>
      have hsurv : survivors policy (t :: ts) = survivors policy ts := by
        simp [survivors, hdrop]
      rw [hsurv, hall]
      exact ⟨by omega, fun h => by omega⟩
    | false =>
      have hsurv : (lexicon.encodeAll (survivors policy (t :: ts))).length =
          t.unfilled.encode.length + (lexicon.encodeAll (survivors policy ts)).length := by
        have : survivors policy (t :: ts) = t.unfilled :: survivors policy ts := by
          simp [survivors, hdrop]
        rw [this, Lexicon.encodeAll_cons, List.length_append]
        rfl
      rw [hsurv, hall]
      refine ⟨by omega, fun h u hu => ?_⟩
      rcases List.mem_cons.mp hu with rfl | hu
      · exact ⟨Token.unfilled_eq_self (by omega), hdrop⟩
      · exact heq (by omega) u hu

/-- Tokens that are copied as they are make a file that is rebuilt as it is. -/
theorem rebuild_of_kept {ts : List Token} (hk : ∀ t ∈ ts, t.Kept policy) :
    rebuild policy ts = { bytes := [0xFF, soi] ++ lexicon.encodeAll ts, removed := [] } := by
  have hsurv : survivors policy ts = ts := by
    have hfilter : (ts.filter fun t => !t.isDropped policy) = ts :=
      List.filter_eq_self.mpr fun t ht => by simp [(hk t ht).2]
    rw [survivors, hfilter]
    calc ts.map Token.unfilled
        _ = ts.map id := List.map_congr_left fun t ht => (hk t ht).1
        _ = ts := List.map_id ts
  have hbytes := rebuild_bytes policy ts
  rw [hsurv] at hbytes
  have hremoved : ts.filterMap (Token.removedItem policy) = [] :=
    List.filterMap_eq_nil_iff.mpr fun t ht => Token.removedItem_eq_none.mpr (hk t ht).2
  rw [← hbytes, ← hremoved]
  rfl

/-- A file that is rebuilt no shorter is made of tokens that are copied as they are. -/
theorem kept_of_length {s left : List UInt8} {ts : List Token} (hm : Marked s ts left)
    (h : (rebuild policy ts).bytes.length = s.length) : left = [] ∧ ∀ t ∈ ts, t.Kept policy := by
  obtain ⟨hsplit, -, -⟩ := marked_iff.mp hm
  rw [rebuild_bytes, hsplit] at h
  simp only [List.length_append] at h
  obtain ⟨hle, heq⟩ := length_survivors policy ts
  have hleft : left = [] := List.eq_nil_of_length_eq_zero (by omega)
  exact ⟨hleft, heq (by omega)⟩

/-- Bytes of tokens with a scan or `EOI` among them are not spelled without one. -/
theorem any_of_same_bytes {ts : List Token} (hv : ∀ t ∈ ts, t.Valid)
    (hany : (ts.any fun t => t.isScan || t.isEoi) = true) :
    ∀ {us : List Token}, lexicon.encodeAll us = lexicon.encodeAll ts → lexicon.Admits us [] →
      (us.any fun t => t.isScan || t.isEoi) = true := by
  induction ts with
  | nil => cases hany
  | cons t ts ih =>
    intro us hbytes hadm
    cases us with
    | nil =>
      have := congrArg List.length hbytes
      have hpos : 0 < t.encode.length := List.length_pos_iff.mpr t.encode_ne_nil
      have hall : (lexicon.encodeAll (t :: ts)).length =
          t.encode.length + (lexicon.encodeAll ts).length := List.length_append
      rw [hall, Lexicon.encodeAll_nil, List.length_nil] at this
      omega
    | cons u us =>
      have hread := lexer.read_of_spelled hbytes.symm hadm
      obtain ⟨r, hfits⟩ := hv t List.mem_cons_self
      have hnext : ∀ (hf : t.Fits (lexicon.encodeAll ts)),
          u = t ∧ lexicon.encodeAll us = lexicon.encodeAll ts := by
        intro hf
        have hread' : lexer.read (lexicon.encodeAll (t :: ts)) =
            .ok (t, lexicon.encodeAll ts) := readToken_complete hf
        rw [hread'] at hread
        obtain ⟨h₁, h₂⟩ := Prod.mk.inj (Except.ok.inj hread)
        exact ⟨h₁.symm, h₂.symm⟩
      cases t with
      | scan fill header data =>
        have hread' :
            lexer.read ((Token.scan fill header data).encode ++ lexicon.encodeAll ts) = _ :=
          read_scan hfits.1 hfits.2.1 (lexicon.encodeAll ts)
        rw [Lexicon.encodeAll_cons] at hread
        obtain ⟨rfl, -⟩ := Prod.mk.inj (Except.ok.inj (hread'.symm.trans hread))
        simp [Token.isScan]
      | eoi fill =>
        obtain ⟨rfl, -⟩ := hnext trivial
        simp [Token.isEoi]
      | standalone fill marker =>
        obtain ⟨rfl, hus⟩ := hnext hfits
        have hrest := ih (fun v hv' => hv v (List.mem_cons_of_mem _ hv'))
          (by simpa [Token.isScan, Token.isEoi] using hany) hus (hadm.tail rfl)
        rw [List.any_cons, hrest, Bool.or_true]
      | segment fill marker payload =>
        obtain ⟨rfl, hus⟩ := hnext hfits
        have hrest := ih (fun v hv' => hv v (List.mem_cons_of_mem _ hv'))
          (by simpa [Token.isScan, Token.isEoi] using hany) hus (hadm.tail rfl)
        rw [List.any_cons, hrest, Bool.or_true]

/-- The second run returns the file of the first one exactly when its tokens are clean. -/
theorem rerun_iff_clean {data trailing : List UInt8} {ts : List Token}
    (hm : Marked data ts trailing) :
    disarmTokens (rebuild policy ts).bytes policy =
        .ok { bytes := (rebuild policy ts).bytes, removed := [] } ↔
      Clean policy (lexicon.encodeAll (survivors policy ts)) := by
  obtain ⟨-, hadm, hany⟩ := marked_iff.mp hm
  rw [disarmTokens_eq_ok, rebuild_bytes]
  refine ⟨?_, ?_⟩
  · rintro ⟨us, left, hus, hsame⟩
    obtain ⟨rfl, hk⟩ := kept_of_length hus (congrArg (fun out => out.bytes.length) hsame.symm)
    obtain ⟨hsplit, husadm, -⟩ := marked_iff.mp hus
    have hbytes := List.append_cancel_left hsplit
    rw [List.append_nil] at hbytes
    exact ⟨us, hbytes, husadm, hk⟩
  · rintro ⟨us, hbytes, husadm, hk⟩
    have hv : ∀ t ∈ survivors policy ts, t.Valid := by
      intro t ht
      obtain ⟨u, hu, rfl⟩ := List.mem_map.mp ht
      obtain ⟨r, hfits⟩ := hadm.mem (List.mem_filter.mp hu).1
      exact ⟨r, Token.fits_unfilled hfits⟩
    have hsurv : ((survivors policy ts).any fun t => t.isScan || t.isEoi) = true := by
      obtain ⟨t, ht, hends⟩ := List.any_eq_true.mp hany
      refine List.any_eq_true.mpr ⟨t.unfilled, List.mem_map.mpr ⟨t, ?_, rfl⟩, by simpa using hends⟩
      refine List.mem_filter.mpr ⟨ht, ?_⟩
      cases t with
      | segment fill marker payload => simp [Token.isScan, Token.isEoi] at hends
      | _ => rfl
    have husany := any_of_same_bytes hv hsurv hbytes.symm husadm
    refine ⟨us, [], marked_iff.mpr ⟨?_, husadm, husany⟩, ?_⟩
    · rw [List.append_nil, hbytes]
    · rw [rebuild_of_kept hk, hbytes]

/-- Disarming the rebuilt file changes nothing, and its tokens are none of those stripped. -/
def FixedPoint (w : Width) (policy : Policy) (artifact : Artifact) : Prop :=
  ∀ out, JpegDisarmer.disarm w artifact policy = .ok out →
    JpegDisarmer.disarm w (Artifact.new out.bytes) policy =
        .ok { bytes := out.bytes, removed := [] } ∧
      ∀ ts trailing, Marked out.bytes ts trailing → ∀ t ∈ ts, ¬ Strips policy t

/-- **When disarming is a fixed point**: exactly when the surviving tokens of the file are
settled. -/
theorem fixedPoint_iff (w : Width) (policy : Policy) (artifact : Artifact)
    (hfit : w.Fits artifact.bytes.length) :
    FixedPoint w policy artifact ↔
      ∀ ts trailing, Marked artifact.bytes ts trailing →
        Settled policy false (survivors policy ts) := by
  have hone : ∀ {ts trailing}, Marked artifact.bytes ts trailing →
      JpegDisarmer.disarm w artifact policy = .ok (rebuild policy ts) := by
    intro ts trailing hm
    exact (disarm_eq_ok hfit).mpr ⟨ts, trailing, hm, rfl⟩
  have htwo : ∀ {ts trailing}, Marked artifact.bytes ts trailing →
      JpegDisarmer.disarm w (Artifact.new (rebuild policy ts).bytes) policy =
        Exec.lift (disarmTokens (rebuild policy ts).bytes policy) := by
    intro ts trailing hm
    refine disarm_eq_lift (hfit.mono ?_) policy
    obtain ⟨hsplit, -, -⟩ := marked_iff.mp hm
    have hle := (length_survivors policy ts).1
    change (rebuild policy ts).bytes.length ≤ _
    rw [rebuild_bytes, hsplit, List.length_append, List.length_append, List.length_append]
    omega
  have hiff : ∀ {ts trailing}, Marked artifact.bytes ts trailing →
      (Clean policy (lexicon.encodeAll (survivors policy ts)) ↔
        Settled policy false (survivors policy ts)) := by
    intro ts trailing hm
    obtain ⟨-, hadm, -⟩ := marked_iff.mp hm
    refine (clean_iff_settled ?_ (fun t ht => kept_of_mem_survivors ht) ?_).1
    · intro t ht
      obtain ⟨u, hu, rfl⟩ := List.mem_map.mp ht
      obtain ⟨r, hfits⟩ := hadm.mem (List.mem_filter.mp hu).1
      exact ⟨r, Token.fits_unfilled hfits⟩
    · exact eoi_last_survivors hadm
  refine ⟨?_, ?_⟩
  · intro hfix ts trailing hm
    obtain ⟨hsecond, -⟩ := hfix _ (hone hm)
    rw [htwo hm, Exec.lift_eq_ok] at hsecond
    exact (hiff hm).mp ((rerun_iff_clean hm).mp hsecond)
  · intro hsettled out hout
    obtain ⟨ts, trailing, hm, rfl⟩ := (disarm_eq_ok hfit).mp hout
    have hclean := (hiff hm).mpr (hsettled ts trailing hm)
    have hsecond := (rerun_iff_clean hm).mpr hclean
    refine ⟨by rw [htwo hm, hsecond]; rfl, ?_⟩
    intro us left hus t ht hstrips
    obtain ⟨vs, left', hvs, hsame⟩ := disarmTokens_eq_ok.mp hsecond
    obtain ⟨rfl, rfl⟩ := hus.unique hvs
    have hlen := congrArg (fun out => out.bytes.length) hsame.symm
    have hkept := ((kept_of_length hus hlen).2 t ht).2
    rw [(isDropped_iff policy t).mpr hstrips] at hkept
    cases hkept

/-- On the sample file the stripped segment stands before the scan, and disarming is a fixed
point. -/
theorem fixedPoint_sample : FixedPoint .w64 Policy.strict
    (Artifact.new ([0xFF, soi] ++ sampleTokens.flatMap Token.encode ++ [0x99])) := by
  refine (fixedPoint_iff .w64 Policy.strict (Artifact.new _) (by decide)).mpr ?_
  intro ts trailing hm
  obtain ⟨rfl, rfl⟩ := hm.unique sample_marked
  exact trivial

/-- A stripped segment between a scan and a segment with marker `00`, whose payload spells another
stripped segment. -/
def smuggled : Artifact :=
  Artifact.new [0xFF, soi, 0xFF, sos, 0, 2, 0xFF, 0xE1, 0, 2, 0xFF, 0, 0, 6, 0xFF, 0xE1, 0, 2,
    0xFF, Jpeg.eoi]

/-- The file that is written for `smuggled`. -/
def smuggledOut : List UInt8 :=
  [0xFF, soi, 0xFF, sos, 0, 2, 0xFF, 0, 0, 6, 0xFF, 0xE1, 0, 2, 0xFF, Jpeg.eoi]

/-- The second run strips a segment of the file the first one wrote. -/
theorem smuggled_not_fixedPoint : ¬ FixedPoint .w64 Policy.strict smuggled := by
  have hfirst : JpegDisarmer.disarm .w64 smuggled Policy.strict =
      .ok { bytes := smuggledOut, removed := [removedSegment 0xE1 4] } := rfl
  have hsecond : JpegDisarmer.disarm .w64 (Artifact.new smuggledOut) Policy.strict =
      .ok { bytes := [0xFF, soi, 0xFF, sos, 0, 2, 0xFF, 0, 0, 6, 0xFF, Jpeg.eoi],
            removed := [removedSegment 0xE1 4] } := rfl
  intro hfix
  have hsame := hsecond.symm.trans (hfix _ hfirst).1
  cases hsame

end Jpeg

end Purgo
