import Purgo.Cli

/-!
# The grammar of the arguments

The arguments are options with their values, in any order, and one path. `parse` reads them from
left to right and stops at the first that is wrong. What it returns is told here without a loop: the
arguments are split into items (`Item`), the path is the only one of its kind, and of an option that
is given more than once the last value counts. Every error is told with the argument it is about
(`parse_grammar`).
-/

namespace Purgo

open Rust

/-- An option that takes a value. -/
inductive Flag where
  | output : Flag
  | report : Flag
  | sign : Flag
  deriving DecidableEq, Repr

namespace Flag

/-- The short name of an option. -/
def short : Flag → String
  | output => "-o"
  | report => "-r"
  | sign => "-s"

/-- The long name of an option. -/
def long : Flag → String
  | output => "--output"
  | report => "--report"
  | sign => "--sign"

/-- What is missing when the value is. -/
def value : Flag → String
  | output => "--output value"
  | report => "--report value"
  | sign => "--sign value"

end Flag

/-- What the arguments are made of. -/
inductive Item where
  | input : Path → Item
  | option : Flag → String → Path → Item
  deriving DecidableEq, Repr

namespace Item

/-- The arguments an item consists of. -/
def spell : Item → List String
  | input path => [path]
  | option _ name value => [name, value]

/-- The item is written as it should be. -/
def Fits : Item → Prop
  | input path => path.toList.head? ≠ some '-'
  | option flag name _ => name = flag.short ∨ name = flag.long

/-- The path, if the item is one. -/
def path : Item → Option Path
  | input path => some path
  | option _ _ _ => none

/-- The value, if the item is this option. -/
def valueOf (flag : Flag) : Item → Option Path
  | input _ => none
  | option flag' _ value => if flag' = flag then some value else none

end Item

/-- What is known after the items. -/
def known (items : List Item) : Parsed where
  input := (items.filterMap Item.path).getLast?
  output := (items.filterMap (Item.valueOf .output)).getLast?
  report := (items.filterMap (Item.valueOf .report)).getLast?
  sign := (items.filterMap (Item.valueOf .sign)).getLast?

/-- The items can be read one after the other. -/
structure Legible (items : List Item) : Prop where
  fits : ∀ item ∈ items, item.Fits
  once : (items.filterMap Item.path).length ≤ 1

/-- What is wrong with the next argument, after the items. -/
inductive Stops (items : List Item) : List String → ArgError → Prop where
  | help {arg : String} {rest : List String} : arg = "-h" ∨ arg = "--help" →
      Stops items (arg :: rest) .help
  | missing {flag : Flag} {name : String} : name = flag.short ∨ name = flag.long →
      Stops items [name] (.missing flag.value)
  | unknown {arg : String} {rest : List String} : arg.toList.head? = some '-' →
      arg ≠ "-h" → arg ≠ "--help" → (∀ flag : Flag, arg ≠ flag.short ∧ arg ≠ flag.long) →
      Stops items (arg :: rest) (.unexpected arg)
  | second {arg : String} {rest : List String} : arg.toList.head? ≠ some '-' →
      items.filterMap Item.path ≠ [] → Stops items (arg :: rest) (.unexpected arg)

/-! ## The loop -/

/-- One more path, which counts as it is the last. -/
theorem known_input (items : List Item) (path : Path) :
    known (items ++ [.input path]) = { known items with input := some path } := by
  simp [known, Item.path, Item.valueOf]

/-- One more option, whose value replaces an earlier one. -/
theorem known_option (items : List Item) (flag : Flag) (name value : String) :
    known (items ++ [.option flag name value]) =
      match flag with
      | .output => { known items with output := some value }
      | .report => { known items with report := some value }
      | .sign => { known items with sign := some value } := by
  cases flag <;> simp [known, Item.path, Item.valueOf]

/-- The names of an option are told apart from all other arguments. -/
theorem parseArgs_option {flag : Flag} {name : String} (h : name = flag.short ∨ name = flag.long)
    (items : List Item) (rest : List String) :
    parseArgs (name :: rest) (known items) =
      match rest with
      | [] => .error (.missing flag.value)
      | value :: rest => parseArgs rest (known (items ++ [.option flag name value])) := by
  cases flag <;> rcases h with rfl | rfl <;> cases rest <;>
    simp [parseArgs, Flag.short, Flag.long, Flag.value, known_option]

/-- What is read of an argument that is no option. -/
theorem parseArgs_other {arg : String} (hhelp : arg ≠ "-h" ∧ arg ≠ "--help")
    (hother : ∀ flag : Flag, arg ≠ flag.short ∧ arg ≠ flag.long) (items : List Item)
    (rest : List String) :
    parseArgs (arg :: rest) (known items) =
      if arg.toList.head? = some '-' ∨ items.filterMap Item.path ≠ [] then
        .error (.unexpected arg)
      else
        parseArgs rest (known (items ++ [.input arg])) := by
  have houtput := hother .output
  have hreport := hother .report
  have hsign := hother .sign
  simp only [Flag.short, Flag.long] at houtput hreport hsign
  have hinput : (known items).input.isSome = true ↔ items.filterMap Item.path ≠ [] :=
    List.getLast?_isSome
  conv_lhs => unfold parseArgs
  simp only [hhelp, houtput, hreport, hsign, or_self, if_false, hinput, known_input]
  by_cases hdash : arg.toList.head? = some '-'
  · simp only [hdash, true_or, if_true]
  · simp only [hdash, false_or, if_false]

/-- A path is not taken for an option, since it does not begin with a dash. -/
theorem Item.Fits.not_help {path : Path} (h : (Item.input path).Fits) :
    (path ≠ "-h" ∧ path ≠ "--help") ∧ ∀ flag : Flag, path ≠ flag.short ∧ path ≠ flag.long := by
  have hne : ∀ name : String, name.toList.head? = some '-' → path ≠ name := by
    rintro name hname rfl
    exact h hname
  refine ⟨⟨hne _ (by decide), hne _ (by decide)⟩, fun flag => ?_⟩
  cases flag with
  | output => exact ⟨hne _ (by decide), hne _ (by decide)⟩
  | report => exact ⟨hne _ (by decide), hne _ (by decide)⟩
  | sign => exact ⟨hne _ (by decide), hne _ (by decide)⟩

/-- The loop reads items, one after the other. -/
theorem parseArgs_legible {items : List Item} (h : Legible items) (rest : List String) :
    parseArgs (items.flatMap Item.spell ++ rest) (known []) = parseArgs rest (known items) := by
  induction items using List.reverseRecOn generalizing rest with
  | nil => rfl
  | append_singleton items item ih =>
    have hitem := h.fits item (by simp)
    have honce := h.once
    rw [List.filterMap_append, List.length_append] at honce
    have hitems : Legible items :=
      ⟨fun item' hitem' => h.fits item' (List.mem_append_left _ hitem'), by omega⟩
    rw [List.flatMap_append, List.append_assoc, ih hitems, List.flatMap_singleton]
    cases item with
    | input path =>
      have hfirst : items.filterMap Item.path = [] := by
        simpa [Item.path] using honce
      obtain ⟨hhelp, hother⟩ := hitem.not_help
      have hdash : ¬ path.toList.head? = some '-' := hitem
      exact (parseArgs_other hhelp hother items rest).trans (if_neg (by simp [hdash, hfirst]))
    | option flag name value => exact parseArgs_option hitem items (value :: rest)

/-- The loop stops where the items end. -/
theorem parseArgs_stops {items : List Item} {rest : List String} {e : ArgError}
    (h : Stops items rest e) : parseArgs rest (known items) = .error e := by
  cases h with
  | help hhelp =>
    unfold parseArgs
    exact if_pos hhelp
  | missing hname => exact parseArgs_option hname items []
  | unknown hdash hh hhelp hother =>
    exact (parseArgs_other ⟨hh, hhelp⟩ hother items _).trans (if_pos (.inl hdash))
  | second hdash hseen =>
    obtain ⟨hhelp, hother⟩ := Item.Fits.not_help hdash
    exact (parseArgs_other hhelp hother items _).trans (if_pos (.inr hseen))

/-- All arguments are items, up to the first that is wrong. -/
theorem exists_legible (args : List String) {items : List Item} (h : Legible items) :
    ∃ items' rest, Legible items' ∧
      items.flatMap Item.spell ++ args = items'.flatMap Item.spell ++ rest ∧
      (rest = [] ∨ ∃ e, Stops items' rest e) := by
  match args with
  | [] => exact ⟨items, [], h, rfl, .inl rfl⟩
  | arg :: rest =>
    by_cases hhelp : arg = "-h" ∨ arg = "--help"
    · exact ⟨items, _, h, rfl, .inr ⟨_, .help hhelp⟩⟩
    by_cases hoption : ∃ flag : Flag, arg = flag.short ∨ arg = flag.long
    · obtain ⟨flag, hname⟩ := hoption
      match rest with
      | [] => exact ⟨items, _, h, rfl, .inr ⟨_, .missing hname⟩⟩
      | value :: rest =>
        have hnext : Legible (items ++ [.option flag arg value]) := by
          have hpath : [Item.option flag arg value].filterMap Item.path = [] := rfl
          refine ⟨?_, by rw [List.filterMap_append, hpath, List.append_nil]; exact h.once⟩
          simpa [or_imp, forall_and] using ⟨h.fits, hname⟩
        simpa [Item.spell] using exists_legible rest hnext
    have hother : ∀ flag : Flag, arg ≠ flag.short ∧ arg ≠ flag.long :=
      fun flag => not_or.mp fun hname => hoption ⟨flag, hname⟩
    by_cases hdash : arg.toList.head? = some '-'
    · obtain ⟨hh, hhelp'⟩ := not_or.mp hhelp
      exact ⟨items, _, h, rfl, .inr ⟨_, .unknown hdash hh hhelp' hother⟩⟩
    by_cases hseen : items.filterMap Item.path = []
    · have hnext : Legible (items ++ [.input arg]) := by
        refine ⟨?_, by simp [Item.path, hseen]⟩
        simpa [or_imp, forall_and] using ⟨h.fits, hdash⟩
      simpa [Item.spell] using exists_legible rest hnext
    · exact ⟨items, _, h, rfl, .inr ⟨_, .second hdash hseen⟩⟩
termination_by args.length

/-! ## The result -/

/-- The items have all that is needed. -/
def Supplies (items : List Item) (args : Args) : Prop :=
  known items = { input := some args.input, output := some args.output, report := args.report,
                  sign := args.sign }

/-- What is wrong with arguments that can all be read. -/
inductive Lacks (items : List Item) : ArgError → Prop where
  | input : (known items).input = none → Lacks items (.missing "input file")
  | output : (known items).input ≠ none → (known items).output = none →
      Lacks items (.missing "--output")

/-- Items supply at most one set of arguments. -/
theorem Supplies.unique {items : List Item} {args args' : Args} (h : Supplies items args)
    (h' : Supplies items args') : args = args' := by
  have hsame := Parsed.mk.inj (h.symm.trans h')
  cases args
  cases args'
  simpa using hsame

/-- Of two things that are missing, the input is named. -/
theorem Lacks.unique {items : List Item} {e e' : ArgError} (h : Lacks items e)
    (h' : Lacks items e') : e = e' := by
  cases h with
  | input hinput =>
    cases h' with
    | input => rfl
    | output hinput' => exact absurd hinput hinput'
  | output hinput =>
    cases h' with
    | input hinput' => exact absurd hinput' hinput
    | output => rfl

/-- Nothing is missing of items that supply everything. -/
theorem Supplies.not_lacks {items : List Item} {args : Args} (h : Supplies items args)
    (e : ArgError) : ¬ Lacks items e := by
  rw [Supplies] at h
  rintro (hinput | ⟨-, houtput⟩)
  · rw [h] at hinput
    cases hinput
  · rw [h] at houtput
    cases houtput

/-- Arguments that can all be read are accepted, unless they lack something. -/
theorem parse_of_legible {items : List Item} (h : Legible items) :
    (∃ args, parse (items.flatMap Item.spell) = .ok args ∧ Supplies items args) ∨
    ∃ e, parse (items.flatMap Item.spell) = .error e ∧ Lacks items e := by
  have hrun := parseArgs_legible h []
  have hdone : ∀ st, parseArgs [] st = .ok st := fun st => by rw [parseArgs]
  rw [List.append_nil, hdone] at hrun
  have hparse : parse (items.flatMap Item.spell) = (parseArgs _ (known []) >>= _) := rfl
  rw [hrun] at hparse
  rcases hknown : known items with ⟨input, output, report, sign⟩
  rw [hknown] at hparse
  cases input with
  | none => exact .inr ⟨_, hparse, .input (by rw [hknown])⟩
  | some input =>
    cases output with
    | none => exact .inr ⟨_, hparse, .output (by simp [hknown]) (by rw [hknown])⟩
    | some output =>
      exact .inl ⟨{ input := input, output := output, report := report, sign := sign }, hparse,
        hknown⟩

/-- Items that can be read are read, and the argument after them decides. -/
theorem parse_of_stops {items : List Item} {rest : List String} {e : ArgError}
    (h : Legible items) (hstops : Stops items rest e) :
    parse (items.flatMap Item.spell ++ rest) = .error e := by
  change (parseArgs _ (known []) >>= _) = _
  rw [parseArgs_legible h rest, parseArgs_stops hstops]
  rfl

/-- **The grammar of the arguments**: they are accepted when they are items that have a path and an
output among them, and what is returned is the path and the last value of each option. They are
refused for the first argument that is not part of an item, or for what the items lack. -/
theorem parse_grammar (argv : List String) :
    (∀ args, parse argv = .ok args ↔
      ∃ items, Legible items ∧ argv = items.flatMap Item.spell ∧ Supplies items args) ∧
    ∀ e, parse argv = .error e ↔
      (∃ items rest, Legible items ∧ argv = items.flatMap Item.spell ++ rest ∧
        Stops items rest e) ∨
      ∃ items, Legible items ∧ argv = items.flatMap Item.spell ∧ Lacks items e := by
  have hnil : Legible [] := ⟨nofun, Nat.zero_le 1⟩
  obtain ⟨items, rest, hlegible, hargv, hends⟩ := exists_legible argv hnil
  rw [List.flatMap_nil, List.nil_append] at hargv
  refine ⟨fun args => ⟨fun h => ?_, ?_⟩, fun e => ⟨fun h => ?_, ?_⟩⟩
  · rcases hends with rfl | ⟨e, hstops⟩
    · rw [List.append_nil] at hargv
      subst hargv
      rcases parse_of_legible hlegible with ⟨args', hparse, hsupplies⟩ | ⟨e, hparse, -⟩
      · obtain rfl := Except.ok.inj (hparse.symm.trans h)
        exact ⟨items, hlegible, rfl, hsupplies⟩
      · rw [h] at hparse
        cases hparse
    · rw [hargv, parse_of_stops hlegible hstops] at h
      cases h
  · rintro ⟨items, hlegible, rfl, hsupplies⟩
    rcases parse_of_legible hlegible with ⟨args', hparse, hsupplies'⟩ | ⟨e, -, hlacks⟩
    · rw [hparse, hsupplies.unique hsupplies']
    · exact absurd hlacks (hsupplies.not_lacks e)
  · rcases hends with rfl | ⟨e', hstops⟩
    · rw [List.append_nil] at hargv
      subst hargv
      rcases parse_of_legible hlegible with ⟨args, hparse, -⟩ | ⟨e', hparse, hlacks⟩
      · rw [h] at hparse
        cases hparse
      · obtain rfl := Except.error.inj (hparse.symm.trans h)
        exact .inr ⟨items, hlegible, rfl, hlacks⟩
    · rw [hargv, parse_of_stops hlegible hstops] at h
      obtain rfl := Except.error.inj h
      exact .inl ⟨items, rest, hlegible, hargv, hstops⟩
  · rintro (⟨items, rest, hlegible, rfl, hstops⟩ | ⟨items, hlegible, rfl, hlacks⟩)
    · exact parse_of_stops hlegible hstops
    · rcases parse_of_legible hlegible with ⟨args, -, hsupplies⟩ | ⟨e', hparse, hlacks'⟩
      · exact absurd hlacks (hsupplies.not_lacks e)
      · rw [hparse, hlacks.unique hlacks']

end Purgo
