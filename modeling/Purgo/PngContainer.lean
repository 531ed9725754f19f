import Purgo.Lib.Lexing
import Purgo.Png

/-!
# The PNG container grammar

A PNG file is the signature and a sequence of chunks, the last of which is `IEND` when there is
one. The grammar is a `Lexicon` whose tokens are chunks; `readChunk` reads one of them off a
suffix of the file. `disarmPng_eq_lift` is the link to the index loop: on every file that fits in
memory the loop returns what reading the chunks and sorting them gives, so it never panics.
-/

namespace Purgo

open Rust Lexing

/-- A chunk. The length field is the length of the data, so it has to fit in 32 bits. -/
structure Chunk where
  /-- the four bytes of the type -/
  kind : List UInt8
  /-- the data -/
  data : List UInt8
  /-- the checksum, which nobody checks -/
  crc : List UInt8
  kind_length : kind.length = 4
  data_length : data.length < 2 ^ 32
  crc_length : crc.length = 4

namespace Chunk

/-- The bytes of a chunk. -/
def encode (c : Chunk) : List UInt8 := toBe 4 c.data.length ++ c.kind ++ c.data ++ c.crc

/-- A chunk takes its data and twelve bytes. -/
@[simp] theorem length_encode (c : Chunk) : c.encode.length = c.data.length + 12 := by
  simp only [encode, List.length_append, length_toBe, c.kind_length, c.crc_length]
  omega

/-- Chunks are determined by their three fields. -/
theorem eq_of_fields {c d : Chunk} (hk : c.kind = d.kind) (hd : c.data = d.data)
    (hc : c.crc = d.crc) : c = d := by
  cases c; cases d
  subst hk; subst hd; subst hc
  rfl

/-- The record of a chunk that is left out. -/
def removed (c : Chunk) : RemovedChunk := ⟨fromUtf8Lossy c.kind, c.data.length + 12⟩

end Chunk

namespace Png

/-- The grammar: a chunk says how long it is, so it may stand before anything. -/
def lexicon : Lexicon UInt8 Chunk where
  encode := Chunk.encode
  Fits _ _ := True
  last c := c.kind == iend

/-! ## Reading a chunk -/

/-- A length in the file fits into 32 bits, whatever stands there. -/
theorem fromBe_take_lt (s : List UInt8) : fromBe (s.take 4) < 2 ^ 32 := by
  have h := fromBe_lt (s.take 4)
  have hle : 256 ^ (s.take 4).length ≤ 256 ^ 4 :=
    Nat.pow_le_pow_right (by decide) (List.length_take_le 4 s)
  omega

/-- The chunk whose bytes start the list, when they are all there. -/
def chunkAt (s : List UInt8) (h : fromBe (s.take 4) + 12 ≤ s.length) : Chunk where
  kind := (s.drop 4).take 4
  data := (s.drop 8).take (fromBe (s.take 4))
  crc := (s.drop (fromBe (s.take 4) + 8)).take 4
  kind_length := by rw [List.length_take, List.length_drop]; omega
  data_length := by
    have := fromBe_take_lt s
    rw [List.length_take, List.length_drop]
    omega
  crc_length := by rw [List.length_take, List.length_drop]; omega

/-- Read the chunk at the head of a list. -/
def readChunk (s : List UInt8) : Except FilterError (Chunk × List UInt8) :=
  if s.length < 8 then .error (.malformed "truncated chunk header")
  else if h : fromBe (s.take 4) + 12 ≤ s.length then
    .ok (chunkAt s h, s.drop (fromBe (s.take 4) + 12))
  else .error (.malformed "chunk runs past end of file")

theorem chunkAt_data_length (s : List UInt8) (h : fromBe (s.take 4) + 12 ≤ s.length) :
    (chunkAt s h).data.length = fromBe (s.take 4) := by
  change ((s.drop 8).take (fromBe (s.take 4))).length = _
  rw [List.length_take, List.length_drop]
  omega

/-- The bytes of the chunk at the head are the head of the list. -/
theorem encode_chunkAt (s : List UInt8) (h : fromBe (s.take 4) + 12 ≤ s.length) :
    (chunkAt s h).encode = s.take (fromBe (s.take 4) + 12) := by
  have hlen : (s.take 4).length = 4 := by rw [List.length_take]; omega
  have hhead : toBe 4 (chunkAt s h).data.length = s.take 4 := by
    have hround := toBe_fromBe (s.take 4)
    rw [hlen] at hround
    rw [chunkAt_data_length, hround]
  rw [Chunk.encode, hhead]
  change s.take 4 ++ (s.drop 4).take 4 ++ (s.drop 8).take (fromBe (s.take 4)) ++
    (s.drop (fromBe (s.take 4) + 8)).take 4 = _
  generalize fromBe (s.take 4) = n
  rw [← List.take_add, ← List.take_add, show 4 + 4 + n = n + 8 by omega, ← List.take_add]

/-- A chunk that is read is what stands there. -/
theorem readChunk_sound {s rest : List UInt8} {c : Chunk} (h : readChunk s = .ok (c, rest)) :
    s = c.encode ++ rest := by
  rw [readChunk] at h
  split_ifs at h with h₁ h₂
  obtain ⟨rfl, rfl⟩ := Prod.mk.inj (Except.ok.inj h)
  rw [encode_chunkAt, List.take_append_drop]

/-- A chunk that stands there is read, whatever follows. -/
theorem readChunk_complete (c : Chunk) (rest : List UInt8) :
    readChunk (c.encode ++ rest) = .ok (c, rest) := by
  have hk := c.kind_length
  have hc := c.crc_length
  have hlen : (toBe 4 c.data.length).length = 4 := length_toBe 4 _
  have htake : (c.encode ++ rest).take 4 = toBe 4 c.data.length := by
    rw [Chunk.encode, List.append_assoc, List.append_assoc, List.append_assoc]
    exact List.take_left' hlen
  have hbe : fromBe ((c.encode ++ rest).take 4) = c.data.length := by
    rw [htake, fromBe_toBe]
    exact Nat.mod_eq_of_lt c.data_length
  have hroom : fromBe ((c.encode ++ rest).take 4) + 12 ≤ (c.encode ++ rest).length := by
    rw [hbe, List.length_append, Chunk.length_encode]
    omega
  have hrest : (c.encode ++ rest).drop (fromBe ((c.encode ++ rest).take 4) + 12) = rest := by
    rw [hbe]
    exact List.drop_left' c.length_encode
  have hcut : (c.encode ++ rest) =
      toBe 4 c.data.length ++ (c.kind ++ (c.data ++ (c.crc ++ rest))) := by
    simp only [Chunk.encode, List.append_assoc]
  have hchunk : chunkAt (c.encode ++ rest) hroom = c := by
    apply Chunk.eq_of_fields
    · change ((c.encode ++ rest).drop 4).take 4 = c.kind
      rw [hcut, List.drop_left' hlen, List.take_left' hk]
    · change ((c.encode ++ rest).drop 8).take (fromBe ((c.encode ++ rest).take 4)) = c.data
      rw [hbe, show 8 = 4 + 4 from rfl, ← List.drop_drop, hcut, List.drop_left' hlen,
        List.drop_left' hk, List.take_left' rfl]
    · change ((c.encode ++ rest).drop (fromBe ((c.encode ++ rest).take 4) + 8)).take 4 = c.crc
      rw [hbe, show c.data.length + 8 = 4 + (4 + c.data.length) by omega, ← List.drop_drop,
        ← List.drop_drop, hcut, List.drop_left' hlen, List.drop_left' hk, List.drop_left' rfl,
        List.take_left' hc]
  rw [readChunk, if_neg (by rw [List.length_append, Chunk.length_encode]; omega), dif_pos hroom,
    hchunk, hrest]

/-- The reader of chunks. -/
def lexer : Lexer lexicon FilterError where
  read := readChunk
  sound h := ⟨readChunk_sound h, trivial⟩
  complete {t rest} _ := readChunk_complete t rest
  progress {t _} _ h := by
    have hlen := congrArg List.length h
    change t.encode.length = 0 at hlen
    rw [Chunk.length_encode] at hlen
    omega

/-! ## The loop reads chunks

One round of the loop reads one chunk. The invariant is that `i` is inside the file; the result
expected from a state is what is already there, followed by what the chunks from `i` on give. -/

/-- Sort chunks into what is copied and what is recorded. -/
def sortChunks (options : PngOptions) (cs : List Chunk) : List UInt8 × List RemovedChunk :=
  ((cs.filter fun c => keeps options c.kind).flatMap Chunk.encode,
    (cs.filter fun c => !keeps options c.kind).map Chunk.removed)

/-- A chunk that is kept goes to the output. -/
theorem sortChunks_cons_keep {options : PngOptions} {c : Chunk} (cs : List Chunk)
    (h : keeps options c.kind = true) :
    sortChunks options (c :: cs) =
      (c.encode ++ (sortChunks options cs).1, (sortChunks options cs).2) := by
  simp [sortChunks, h]

/-- A chunk that is dropped goes to the records. -/
theorem sortChunks_cons_drop {options : PngOptions} {c : Chunk} (cs : List Chunk)
    (h : keeps options c.kind = false) :
    sortChunks options (c :: cs) =
      ((sortChunks options cs).1, c.removed :: (sortChunks options cs).2) := by
  simp [sortChunks, h]

/-- What the loop returns from a state, when the chunks from there on are read. -/
def expected (data : List UInt8) (options : PngOptions) (st : State) :
    Except FilterError (List UInt8 × List RemovedChunk) :=
  (lexer.readAll (data.drop st.i)).map fun p =>
    (st.out ++ (sortChunks options p.1).1, st.removed ++ (sortChunks options p.1).2)

/-- The state after a chunk. -/
def State.push (st : State) (options : PngOptions) (c : Chunk) : State :=
  if keeps options c.kind then
    { i := st.i + (c.data.length + 12), out := st.out ++ c.encode, removed := st.removed }
  else
    { i := st.i + (c.data.length + 12), out := st.out, removed := st.removed ++ [c.removed] }

/-- The index moves past the chunk, kept or not. -/
@[simp] theorem State.push_i (st : State) (options : PngOptions) (c : Chunk) :
    (st.push options c).i = st.i + (c.data.length + 12) := by
  rw [push]
  split <;> rfl

/-- Sorting a chunk first is the same as pushing it on the state. -/
theorem State.push_sortChunks (st : State) (options : PngOptions) (c : Chunk) (cs : List Chunk) :
    (st.out ++ (sortChunks options (c :: cs)).1, st.removed ++ (sortChunks options (c :: cs)).2) =
      ((st.push options c).out ++ (sortChunks options cs).1,
        (st.push options c).removed ++ (sortChunks options cs).2) := by
  cases h : keeps options c.kind with
  | true => simp [push, h, sortChunks_cons_keep cs h]
  | false => simp [push, h, sortChunks_cons_drop cs h]

/-- Nothing more is read after `IEND`. -/
theorem expected_of_last {data : List UInt8} {options : PngOptions} {st : State} {c : Chunk}
    {rest : List UInt8} (hread : lexer.read (data.drop st.i) = .ok (c, rest))
    (hl : lexicon.last c = true) :
    expected data options st =
      .ok ((st.push options c).out, (st.push options c).removed) := by
  rw [expected, lexer.readAll_of_last hread hl]
  have hpush := st.push_sortChunks options c []
  simp only [sortChunks, List.filter_nil, List.flatMap_nil, List.map_nil, List.append_nil] at hpush
  exact congrArg Except.ok hpush

/-- After any other chunk the result expected is the one expected from the next state. -/
theorem expected_of_next {data : List UInt8} {options : PngOptions} {st : State} {c : Chunk}
    (hread : lexer.read (data.drop st.i) = .ok (c, data.drop (st.i + (c.data.length + 12))))
    (hl : lexicon.last c = false) :
    expected data options st = expected data options (st.push options c) := by
  rw [expected, lexer.readAll_of_next hread hl, expected, State.push_i]
  rcases lexer.readAll (data.drop (st.i + (c.data.length + 12))) with e | ⟨cs, left⟩
  · rfl
  · exact congrArg Except.ok (st.push_sortChunks options c cs)

/-- The chunk end the code computes is checked against the end of the file. -/
theorem crcEnd_filter {w : Width} {n a length : Nat} (hfit : w.Fits n) (ha : a + 4 ≤ n) :
    (crcEnd w a length).filter (· ≤ n) =
      if a + length + 8 ≤ n then some (a + length + 8) else none := by
  have h₁ : checkedAdd w a 4 = some (a + 4) :=
    checkedAdd_eq_some (hfit.holds_add (by omega) (by omega))
  rw [crcEnd, h₁, Option.bind_some]
  rcases h₂ : checkedAdd w (a + 4) length with _ | b
  · have hroom : ¬ a + length + 8 ≤ n := by
      intro hle
      exact checkedAdd_none h₂ (hfit.holds_add (by omega) (by omega))
    rw [if_neg hroom]
    rfl
  · obtain rfl := checkedAdd_some h₂
    rw [Option.bind_some]
    rcases h₃ : checkedAdd w (a + 4 + length) 4 with _ | b
    · have hroom : ¬ a + length + 8 ≤ n := by
        intro hle
        exact checkedAdd_none h₃ (hfit.holds_add (by omega) (by omega))
      rw [if_neg hroom]
      rfl
    · obtain rfl := checkedAdd_some h₃
      have hb : a + 4 + length + 4 = a + length + 8 := by omega
      rw [hb, Option.filter_some]
      by_cases hroom : a + length + 8 ≤ n
      · simp [hroom]
      · simp [hroom]

/-- A suffix with room for a chunk header starts with eight bytes. -/
theorem exists_header {s : List UInt8} (h : 8 ≤ s.length) :
    ∃ b₀ b₁ b₂ b₃ rest, s = b₀ :: b₁ :: b₂ :: b₃ :: rest ∧ 4 ≤ rest.length := by
  match s, h with
  | b₀ :: b₁ :: b₂ :: b₃ :: rest, h =>
    refine ⟨b₀, b₁, b₂, b₃, rest, rfl, ?_⟩
    simp only [List.length_cons] at h
    omega

/-- **Step lemma**: a round reads the chunk at `i`, or reports that there is none. -/
theorem round_spec {w : Width} {data : List UInt8} (options : PngOptions)
    (hfit : w.Fits data.length) (hsig : 8 ≤ data.length) (st : State) (hi : st.i ≤ data.length) :
    Round (fun st : State => st.i ≤ data.length) (fun st => data.length - st.i)
      (expected data options) st (round w data options st) := by
  have hlen : (data.drop st.i).length = data.length - st.i := List.length_drop
  by_cases hend : st.i = data.length
  · -- nothing is left
    rw [round, if_pos hend]
    refine .done ?_
    have hnil : data.drop st.i = [] := List.drop_eq_nil_of_le (by omega)
    simp [expected, hnil, sortChunks, Except.map]
  have hne : data.drop st.i ≠ [] := by
    intro h
    rw [h] at hlen
    simp only [List.length_nil] at hlen
    omega
  rw [round, if_neg hend, add_eq_ok (hfit.holds_add hi hsig), Exec.ok_bind]
  by_cases hhead : st.i + 8 > data.length
  · -- no room for a header
    rw [if_pos hhead]
    refine .fail ?_
    have hread : lexer.read (data.drop st.i) = .error (.malformed "truncated chunk header") :=
      if_pos (by omega)
    rw [expected, lexer.readAll_of_error hne hread]
    rfl
  rw [if_neg hhead]
  obtain ⟨b₀, b₁, b₂, b₃, rest, hs, hrest⟩ := exists_header (s := data.drop st.i) (by omega)
  have hi₀ : data[st.i]? = some b₀ := getElem?_of_drop hs
  have hi₁ : data[st.i + 1]? = some b₁ := getElem?_of_drop (drop_of_drop [b₀] hs)
  have hi₂ : data[st.i + 2]? = some b₂ := getElem?_of_drop (drop_of_drop [b₀, b₁] hs)
  have hi₃ : data[st.i + 3]? = some b₃ := getElem?_of_drop (drop_of_drop [b₀, b₁, b₂] hs)
  have hbe : [b₀, b₁, b₂, b₃] = (data.drop st.i).take 4 := by rw [hs]; rfl
  have hkind : (data.drop (st.i + 4)).take (st.i + 4 + 4 - (st.i + 4)) =
      ((data.drop st.i).drop 4).take 4 := by
    rw [List.drop_drop, Nat.add_sub_cancel_left]
  rw [index_eq_ok hi₀, Exec.ok_bind, add_eq_ok (hfit.holds_add hi (by omega)), Exec.ok_bind,
    index_eq_ok hi₁, Exec.ok_bind, add_eq_ok (hfit.holds_add hi (by omega)), Exec.ok_bind,
    index_eq_ok hi₂, Exec.ok_bind, add_eq_ok (hfit.holds_add hi (by omega)), Exec.ok_bind,
    index_eq_ok hi₃, Exec.ok_bind, add_eq_ok (hfit.holds_add hi (by omega)), Exec.ok_bind,
    add_eq_ok (hfit.holds_add (by omega) (by omega)), Exec.ok_bind,
    slice_eq_ok (by omega) (by omega), Exec.ok_bind, hbe, hkind,
    crcEnd_filter hfit (by omega)]
  by_cases hroom : fromBe ((data.drop st.i).take 4) + 12 ≤ (data.drop st.i).length
  · -- the whole chunk is there
    rw [if_pos (by omega)]
    have hread : lexer.read (data.drop st.i) =
        .ok (chunkAt _ hroom, (data.drop st.i).drop (fromBe ((data.drop st.i).take 4) + 12)) := by
      change readChunk _ = _
      rw [readChunk, if_neg (by omega), dif_pos hroom]
    have hdl := chunkAt_data_length _ hroom
    have henc := encode_chunkAt _ hroom
    have hk : ((data.drop st.i).drop 4).take 4 = (chunkAt _ hroom).kind := rfl
    generalize chunkAt (data.drop st.i) hroom = c at hread hdl henc hk
    have hwhole : (data.drop st.i).take (st.i + 4 + fromBe ((data.drop st.i).take 4) + 8 - st.i) =
        c.encode := by
      rw [henc]
      congr 1
      omega
    have hstop : st.i + 4 + fromBe ((data.drop st.i).take 4) + 8 = st.i + (c.data.length + 12) := by
      omega
    simp only []
    rw [slice_eq_ok (by omega) (by omega), Exec.ok_bind, hwhole, hk, hstop, Chunk.length_encode]
    rw [List.drop_drop, ← hdl] at hread
    have hpush : (if keeps options c.kind then
          ({ i := st.i + (c.data.length + 12), out := st.out ++ c.encode,
             removed := st.removed } : State)
        else
          { i := st.i + (c.data.length + 12), out := st.out,
            removed := st.removed ++ [⟨fromUtf8Lossy c.kind, c.data.length + 12⟩] }) =
        st.push options c := rfl
    rw [hpush]
    by_cases hlast : c.kind = iend
    · rw [if_pos hlast]
      exact .done (expected_of_last hread (beq_iff_eq.mpr hlast))
    · rw [if_neg hlast]
      refine .next ?_ ?_ (expected_of_next hread (beq_eq_false_iff_ne.mpr hlast))
      · simp only [State.push_i]
        omega
      · simp only [State.push_i]
        omega
  · -- the chunk runs past the end
    rw [if_neg (by omega)]
    refine .fail ?_
    have hread :
        lexer.read (data.drop st.i) = .error (.malformed "chunk runs past end of file") := by
      change readChunk _ = _
      rw [readChunk, if_neg (by omega), dif_neg hroom]
    rw [expected, lexer.readAll_of_error hne hread]
    rfl

end Png

open Png

/-- The filter, read off the grammar. -/
def disarmChunks (data : List UInt8) (options : PngOptions) :
    Except FilterError (List UInt8 × List RemovedChunk) :=
  if signature <+: data then
    (lexer.readAll (data.drop 8)).map fun p =>
      (signature ++ (sortChunks options p.1).1, (sortChunks options p.1).2)
  else .error (.malformed "missing PNG signature")

/-- **The loop is the grammar**: on a file that fits in memory the filter neither panics nor runs
on, and returns what reading the chunks gives, whatever the width of `usize`. -/
theorem disarmPng_eq_lift {w : Width} {data : List UInt8} (hfit : w.Fits data.length)
    (options : PngOptions) :
    disarmPng w data options = Exec.lift (disarmChunks data options) := by
  rw [disarmPng, disarmChunks]
  by_cases hsig : signature <+: data
  · have hlen : 8 ≤ data.length := hsig.length_le
    rw [if_pos hsig, if_pos hsig,
      loop_eq_lift (I := fun st : State => st.i ≤ data.length)
        (μ := fun st => data.length - st.i) (F := expected data options)
        (fun st hi => round_spec options hfit hlen st hi) _ _ hlen (by simp only []; omega)]
    rfl
  · rw [if_neg hsig, if_neg hsig]
    rfl

/-- The state the loop starts from. -/
def Png.initial : State := { i := signature.length, out := signature, removed := [] }

/-- **The width does not matter**: on a file shorter than half the address space the run in machine
words returns what the run over unbounded integers does, and so do the runs in words of any two
widths. No sum wraps and no index or slice is out of range, which would be a panic, and every round
moves on. -/
theorem disarmPng_width (w : Width) (data : List UInt8) (options : PngOptions)
    (hfit : w.Fits data.length) :
    disarmPng w data options = disarmPng .unbounded data options ∧
    (∀ w' : Width, w'.Fits data.length → disarmPng w data options = disarmPng w' data options) ∧
    (∃ r, disarmPng w data options = Exec.lift r) ∧
    ∀ st, signature <+: data → Visits (round w data options) initial st →
      st.i ≤ data.length ∧ round w data options st ≠ .error .panic ∧
        ∀ st', round w data options st = .ok (.next st') → st.i < st'.i := by
  have heq : ∀ w' : Width, w'.Fits data.length →
      disarmPng w data options = disarmPng w' data options := by
    intro w' hfit'
    rw [disarmPng_eq_lift hfit, disarmPng_eq_lift hfit']
  refine ⟨heq .unbounded trivial, heq, ⟨_, disarmPng_eq_lift hfit options⟩, ?_⟩
  intro st hsig hvisits
  have hadvances : Advances (round w data options) State.i data.length initial :=
    advances_of_rounds (round_spec options hfit hsig.length_le) (fun _ hi => hi) hsig.length_le
  obtain ⟨hi, ⟨r, hr⟩, hnext⟩ := hadvances st hvisits
  refine ⟨hi, ?_, hnext⟩
  rw [hr]
  exact Exec.lift_ne_panic r

/-- A chunk that claims the whole address space of 32 bits: both widths reject it. -/
theorem disarmPng_width_sample :
    disarmPng .w32 (signature ++ [0xFF, 0xFF, 0xFF, 0xFF] ++ ascii "IDAT") ⟨true⟩ =
      disarmPng .w64 (signature ++ [0xFF, 0xFF, 0xFF, 0xFF] ++ ascii "IDAT") ⟨true⟩ :=
  (disarmPng_width .w32 _ ⟨true⟩ (by decide)).2.1 .w64 (by decide)

/-! ## The container grammar, and the filter over it -/

/-- The file is the signature, then the chunks, then what is left over: `IEND` is at most the last
chunk, and only after it may anything be left over. -/
structure Container (data : List UInt8) (cs : List Chunk) (trailing : List UInt8) : Prop where
  split : data = signature ++ cs.flatMap Chunk.encode ++ trailing
  iend_last : ∀ c ∈ cs.dropLast, c.kind ≠ iend
  trailing_after : trailing ≠ [] → ∃ c, cs.getLast? = some c ∧ c.kind = iend

/-- A container is a signature and what the loop over the chunks may read. -/
theorem container_iff {data : List UInt8} {cs : List Chunk} {trailing : List UInt8} :
    Container data cs trailing ↔
      data = signature ++ (lexicon.encodeAll cs ++ trailing) ∧ lexicon.Admits cs trailing := by
  rw [Lexicon.admits_iff]
  refine ⟨?_, ?_⟩
  · rintro ⟨hsplit, hiend, htrail⟩
    refine ⟨by rw [hsplit, List.append_assoc]; rfl, fun _ _ _ _ => trivial, ?_, ?_⟩
    · exact fun c hc => beq_eq_false_iff_ne.mpr (hiend c hc)
    · intro hne
      obtain ⟨c, hc, hk⟩ := htrail hne
      exact ⟨c, hc, beq_iff_eq.mpr hk⟩
  · rintro ⟨hsplit, -, hiend, htrail⟩
    refine ⟨by rw [hsplit, List.append_assoc]; rfl, ?_, ?_⟩
    · exact fun c hc => beq_eq_false_iff_ne.mp (hiend c hc)
    · intro hne
      obtain ⟨c, hc, hk⟩ := htrail hne
      exact ⟨c, hc, beq_iff_eq.mp hk⟩

/-- A file is a container in at most one way. -/
theorem Container.unique {data : List UInt8} {cs ds : List Chunk} {t u : List UInt8}
    (hc : Container data cs t) (hd : Container data ds u) : cs = ds ∧ t = u := by
  obtain ⟨hsplit, hadm⟩ := container_iff.mp hc
  obtain ⟨hsplit', hadm'⟩ := container_iff.mp hd
  rw [hsplit] at hsplit'
  exact lexer.admits_unique (List.append_cancel_left hsplit') hadm hadm'

/-- What the filter returns is exactly what the chunks of a container give. -/
theorem disarmChunks_eq_ok {data : List UInt8} {options : PngOptions}
    {r : List UInt8 × List RemovedChunk} :
    disarmChunks data options = .ok r ↔
      ∃ cs trailing, Container data cs trailing ∧
        r = (signature ++ (sortChunks options cs).1, (sortChunks options cs).2) := by
  have hdrop : ∀ l : List UInt8, (signature ++ l).drop 8 = l := fun l => List.drop_left' rfl
  refine ⟨?_, ?_⟩
  · intro h
    rw [disarmChunks] at h
    split_ifs at h with hsig
    obtain ⟨l, rfl⟩ := hsig
    rw [hdrop] at h
    rcases hall : lexer.readAll l with e | ⟨cs, trailing⟩
    · rw [hall] at h
      cases h
    · rw [hall] at h
      obtain ⟨rfl, hadm⟩ := lexer.readAll_eq_ok.mp hall
      exact ⟨cs, trailing, container_iff.mpr ⟨rfl, hadm⟩, (Except.ok.inj h).symm⟩
  · rintro ⟨cs, trailing, hcont, rfl⟩
    obtain ⟨rfl, hadm⟩ := container_iff.mp hcont
    rw [disarmChunks, if_pos (List.prefix_append _ _), hdrop, lexer.readAll_encodeAll hadm]
    rfl

/-- The same of the index loop, on a file that fits. -/
theorem disarmPng_eq_ok {w : Width} {data : List UInt8} (hfit : w.Fits data.length)
    {options : PngOptions} {r : List UInt8 × List RemovedChunk} :
    disarmPng w data options = .ok r ↔
      ∃ cs trailing, Container data cs trailing ∧
        r = (signature ++ (sortChunks options cs).1, (sortChunks options cs).2) := by
  rw [disarmPng_eq_lift hfit, Exec.lift_eq_ok, disarmChunks_eq_ok]

/-- What the disarmer makes of it. -/
theorem pngDisarm_eq_ok {w : Width} {artifact : Artifact} (hfit : w.Fits artifact.bytes.length)
    {policy : Policy} {output : DisarmOutput}
    (h : PngDisarmer.disarm w artifact policy = .ok output) :
    ∃ cs trailing, Container artifact.bytes cs trailing ∧
      output = { bytes := signature ++ (sortChunks ⟨policy.stripMetadata⟩ cs).1,
                 removed := (sortChunks ⟨policy.stripMetadata⟩ cs).2.map pngRemovedItem } := by
  obtain ⟨r, hrun, h⟩ := Exec.bind_eq_ok.mp h
  obtain ⟨cs, trailing, hcont, rfl⟩ := (disarmPng_eq_ok hfit).mp (Exec.mapErr_eq_ok.mp hrun)
  exact ⟨cs, trailing, hcont, (Except.ok.inj h).symm⟩

/-- **PNG disarming over the container grammar**: the filter succeeds on exactly the containers.
Of a container it copies the chunks of the types kept, byte for byte and in order, records the
other chunks in order under their types with their full sizes, and drops what follows `IEND`. -/
theorem disarmPng_container (w : Width) (data : List UInt8) (options : PngOptions)
    (hfit : w.Fits data.length) :
    ((∃ r, disarmPng w data options = .ok r) ↔
      ∃ cs trailing, Container data cs trailing) ∧
    ∀ cs trailing, Container data cs trailing →
      disarmPng w data options = .ok
        (signature ++ (cs.filter fun c => !options.stripMetadata || c.kind ∈ keep).flatMap
            Chunk.encode,
          (cs.filter fun c => !(!options.stripMetadata || c.kind ∈ keep)).map fun c =>
            ⟨fromUtf8Lossy c.kind, c.data.length + 12⟩) := by
  have hkeeps : ∀ c : Chunk,
      keeps options c.kind = (!options.stripMetadata || decide (c.kind ∈ keep)) := by
    intro c
    rw [keeps, List.any_beq]
    simp
  refine ⟨?_, ?_⟩
  · constructor
    · rintro ⟨r, hr⟩
      obtain ⟨cs, trailing, hcont, -⟩ := (disarmPng_eq_ok hfit).mp hr
      exact ⟨cs, trailing, hcont⟩
    · rintro ⟨cs, trailing, hcont⟩
      exact ⟨_, (disarmPng_eq_ok hfit).mpr ⟨cs, trailing, hcont, rfl⟩⟩
  · intro cs trailing hcont
    refine (disarmPng_eq_ok hfit).mpr ⟨cs, trailing, hcont, ?_⟩
    simp only [sortChunks, hkeeps]
    rfl

/-- A file of one chunk. -/
def samplePng : List UInt8 := signature ++ ([0, 0, 0, 0] ++ iend ++ [5, 6, 7, 8])

/-- The same file with a text chunk, and two bytes behind its end. -/
def commentedPng : List UInt8 :=
  signature ++ ([0, 0, 0, 1] ++ ascii "tEXt" ++ [7, 1, 2, 3, 4]) ++
    ([0, 0, 0, 0] ++ iend ++ [5, 6, 7, 8]) ++ [9, 9]

/-- On the 64-bit host the text chunk goes, and so do the bytes. -/
theorem disarmPng_container_sample :
    disarmPng .w64 commentedPng ⟨true⟩ =
      .ok (samplePng, [⟨fromUtf8Lossy (ascii "tEXt"), 13⟩]) := by
  have hcont : Container commentedPng
      [⟨ascii "tEXt", [7], [1, 2, 3, 4], by decide, by decide, by decide⟩,
        ⟨iend, [], [5, 6, 7, 8], by decide, by decide, by decide⟩] [9, 9] :=
    ⟨by decide, by decide, fun _ => ⟨_, rfl, rfl⟩⟩
  refine ((disarmPng_container .w64 _ ⟨true⟩ (by decide)).2 _ _ hcont).trans ?_
  exact congrArg Except.ok (by decide +kernel)

end Purgo
