/-
This file compares reading a tree from a text of any nesting with reading it where
nesting is bounded. The nesting of a text is read off its brackets alone: how many
are open at once, not counting those in strings. It is defined for every text, be
it a document or not.

Whatever value is read, the text it is read from is balanced, and the bound on
nesting matters only through its depth: a value that is read within some bound is
read within every bound that is no less than the depth of its text. So the two
readings agree on the texts within the bound, except that the bounded one looks at
the value first and at what follows it afterwards. A text that goes on after a
value that is no node is no document for the one and no node for the other.
-/

import EstreeScopes.Proofs.ReadBack

namespace EstreeScopes.Json

/-! ### The nesting of a text -/

/-- Where a character of a text stands: outside of strings, inside of one, or inside of one behind a
backslash. -/
inductive Mode where
  | outside
  | inside
  | escaped

/-- The greatest number of brackets that are open at once, with `level` brackets open in front of
the text. -/
def deepest : Mode → Nat → List Char → Nat
  | _, level, [] => level
  | .outside, level, char :: rest =>
    if char = '"' then deepest .inside level rest
    else if char = '[' ∨ char = '\x7b' then deepest .outside (level + 1) rest
    else if char = ']' ∨ char = '\x7d' then max level (deepest .outside (level - 1) rest)
    else deepest .outside level rest
  | .inside, level, char :: rest =>
    if char = '"' then deepest .outside level rest
    else if char = '\\' then deepest .escaped level rest
    else deepest .inside level rest
  | .escaped, level, _ :: rest => deepest .inside level rest

/-- How many arrays and objects are nested in each other in a text. -/
def nesting (text : String) : Nat :=
  deepest .outside 0 text.toList

theorem le_deepest (mode : Mode) (level : Nat) (text : List Char) :
    level ≤ deepest mode level text := by
  fun_induction deepest mode level text with
  | case1 => exact Nat.le_refl _
  | case3 level char rest _ _ inductionHypothesis => omega
  | case4 level char rest => exact Nat.le_max_left _ _
  | _ => assumption

/-- Every level takes a character. -/
theorem deepest_le (mode : Mode) (level : Nat) (text : List Char) :
    deepest mode level text ≤ level + text.length := by
  fun_induction deepest mode level text with
  | case1 => exact Nat.le_refl _
  | _ => simp only [List.length_cons] at *; omega

/-- A character that is neither a bracket nor a quote. -/
def isPlain (char : Char) : Bool :=
  !"\"[]\x7b\x7d".toList.contains char

theorem nesting_le_length (text : String) : nesting text ≤ text.length := by
  have bounded := deepest_le .outside 0 text.toList
  rwa [Nat.zero_add, String.length_toList] at bounded

theorem nesting_ofList (chars : List Char) :
    nesting (String.ofList chars) = deepest .outside 0 chars := by
  rw [nesting, String.toList_ofList]

/-- The text goes on as `rest` behind a part that leaves as many brackets open as it finds and opens
at most `deep` of its own at once. -/
def Passes (text rest : List Char) (deep : Nat) : Prop :=
  ∀ level, deepest .outside level text = max (level + deep) (deepest .outside level rest)

/-- The text goes on as `rest` behind the quote that closes the string it starts in. -/
def ClosesString (text rest : List Char) : Prop :=
  ∀ level, deepest .inside level text = deepest .outside level rest

namespace Passes

theorem refl (text : List Char) : Passes text text 0 := fun level =>
  (Nat.max_eq_right (le_deepest .outside level text)).symm

variable {text middle rest : List Char} {deep deeper : Nat}

theorem trans (first : Passes text middle deep) (second : Passes middle rest deeper) :
    Passes text rest (max deep deeper) := by
  intro level
  rw [first, second]
  omega

/-- What has no brackets of its own adds nothing to the depth. -/
theorem flat (first : Passes text middle 0) (second : Passes middle rest deep) :
    Passes text rest deep := by
  simpa using first.trans second

theorem plain {char : Char} (plain : isPlain char = true) : Passes (char :: text) text 0 := by
  intro level
  have apart : char ≠ '"' ∧ char ≠ '[' ∧ char ≠ ']' ∧ char ≠ '\x7b' ∧ char ≠ '\x7d' := by
    simpa [isPlain] using plain
  rw [deepest]
  simp only [apart, if_false, or_self]
  exact refl text level

theorem word (word : List Char) (plainEach : ∀ char ∈ word, isPlain char = true) :
    Passes (word ++ text) text 0 := by
  induction word with
  | nil => exact refl text
  | cons char word inductionHypothesis =>
    obtain ⟨first, others⟩ := List.forall_mem_cons.mp plainEach
    exact (plain first).flat (inductionHypothesis others)

theorem dropWhile {among : Char → Bool} (plainAmong : ∀ char, among char = true →
    isPlain char = true) (text : List Char) : Passes text (text.dropWhile among) 0 := by
  induction text with
  | nil => exact refl []
  | cons char text inductionHypothesis =>
    by_cases dropped : among char = true
    · rw [List.dropWhile_cons_of_pos dropped]
      exact (plain (plainAmong char dropped)).flat inductionHypothesis
    · rw [List.dropWhile_cons_of_neg dropped]
      exact refl _

theorem quoted (closes : ClosesString text rest) : Passes ('"' :: text) rest 0 := by
  intro level
  rw [deepest, if_pos rfl, closes]
  exact refl rest level

theorem nested {opening closing : Char} (opens : opening = '[' ∨ opening = '\x7b')
    (closes : closing = ']' ∨ closing = '\x7d') (inner : Passes text (closing :: rest) deep) :
    Passes (opening :: text) rest (deep + 1) := by
  intro level
  have notQuote : opening ≠ '"' := by rintro rfl; simp at opens
  have closingApart : closing ≠ '"' ∧ ¬(closing = '[' ∨ closing = '\x7b') := by
    rcases closes with rfl | rfl <;> decide
  rw [deepest, if_neg notQuote, if_pos opens, inner, deepest, if_neg closingApart.1,
    if_neg closingApart.2, if_pos closes, Nat.add_sub_cancel]
  omega

end Passes

namespace ClosesString

variable {text rest : List Char}

theorem cons {char : Char} (apart : char ≠ '"' ∧ char ≠ '\\') (closes : ClosesString text rest) :
    ClosesString (char :: text) rest := by
  intro level
  rw [deepest, if_neg apart.1, if_neg apart.2]
  exact closes level

theorem escaped {char : Char} (closes : ClosesString text rest) :
    ClosesString ('\\' :: char :: text) rest := by
  intro level
  rw [deepest, if_neg (by decide), if_pos rfl, deepest]
  exact closes level

end ClosesString

namespace Reader

/-- A reader that makes something of what another one reads leaves the same rest. -/
theorem exists_of_map {α β : Type} {found : Option (α × List Char)} {make : α → β} {made : β}
    {rest : List Char}
    (read : found.map (fun (value, rest) => (make value, rest)) = some (made, rest)) :
    ∃ value, found = some (value, rest) ∧ make value = made := by
  obtain ⟨⟨value, last⟩, same, equal⟩ := Option.map_eq_some_iff.mp read
  obtain ⟨makes, rfl⟩ := Prod.mk.inj equal
  exact ⟨value, same, makes⟩

/-! ### Strings, numerals and blanks -/

theorem hexDigit?_apart {char : Char} {digit : Nat} (read : hexDigit? char = some digit) :
    char ≠ '"' ∧ char ≠ '\\' := by
  constructor
  all_goals
    rintro rfl
    simp [hexDigit?] at read

theorem codeUnit?_apart {first second third fourth : Char} {unit : Nat}
    (read : codeUnit? first second third fourth = some unit) :
    ∀ char ∈ [first, second, third, fourth], char ≠ '"' ∧ char ≠ '\\' := by
  simp only [codeUnit?, Option.pure_def, Option.bind_eq_bind, Option.bind_eq_some_iff] at read
  obtain ⟨_, one, _, two, _, three, _, four, _⟩ := read
  simpa using ⟨hexDigit?_apart one, hexDigit?_apart two, hexDigit?_apart three,
    hexDigit?_apart four⟩

theorem closesString_unit {first second third fourth : Char} {unit : Nat} {text rest : List Char}
    (read : codeUnit? first second third fourth = some unit) (closes : ClosesString text rest) :
    ClosesString ('\\' :: 'u' :: first :: second :: third :: fourth :: text) rest := by
  have apart := codeUnit?_apart read
  simp only [List.forall_mem_cons] at apart
  obtain ⟨one, two, three, four, _⟩ := apart
  exact ((((closes.cons four).cons three).cons two).cons one).escaped

/-- A string is read up to its closing quote. -/
theorem stringBody_closes {text chars rest : List Char}
    (read : stringBody text = some (chars, rest)) : ClosesString text rest := by
  fun_induction stringBody text generalizing chars rest with
  | case2 after =>
    obtain ⟨_, rfl⟩ := Prod.mk.inj (Option.some.inj read)
    intro level
    rw [deepest, if_pos rfl]
  | case5 a b c d high highRead _ e f g h after low lowRead _ inductionHypothesis =>
    obtain ⟨others, othersRead, _⟩ := exists_of_map read
    exact closesString_unit highRead (closesString_unit lowRead (inductionHypothesis othersRead))
  | case9 a b c d after unit unitRead _ _ inductionHypothesis =>
    obtain ⟨others, othersRead, _⟩ := exists_of_map read
    exact closesString_unit unitRead (inductionHypothesis othersRead)
  | case11 letter after _ plain _ inductionHypothesis =>
    obtain ⟨others, othersRead, _⟩ := exists_of_map read
    exact (inductionHypothesis othersRead).escaped
  | case13 char after notQuote _ _ printable inductionHypothesis =>
    obtain ⟨others, othersRead, _⟩ := exists_of_map read
    exact (inductionHypothesis othersRead).cons ⟨notQuote, (not_or.mp printable).2⟩
  | _ => cases read

theorem skipBlanks_passes (text : List Char) : Passes text (skipBlanks text) 0 := by
  refine Passes.dropWhile (fun char blank => ?_) text
  simp only [isBlank, Bool.or_eq_true, beq_iff_eq] at blank
  rcases blank with ((rfl | rfl) | rfl) | rfl <;> decide

theorem passes_of_skipBlanks {text opened : List Char} (skipped : skipBlanks text = opened) :
    Passes text opened 0 :=
  skipped ▸ skipBlanks_passes text

theorem isPlain_of_isPart {char : Char} (part : Numeral.isPart char = true) :
    isPlain char = true := by
  rw [isPlain, Bool.not_eq_true', ← Bool.not_eq_true]
  intro special
  have marks : char = '"' ∨ char = '[' ∨ char = ']' ∨ char = '\x7b' ∨ char = '\x7d' := by
    simpa using special
  rcases marks with rfl | rfl | rfl | rfl | rfl <;> exact absurd part (by decide)

theorem digitRun_passes {text digits rest : List Char}
    (run : Numeral.digitRun text = (digits, rest)) : Passes text rest 0 := by
  obtain ⟨_, rfl⟩ := Prod.mk.inj run
  exact Passes.dropWhile
    (fun char digit => isPlain_of_isPart (Bool.or_eq_true_iff.mpr (.inl digit))) text

theorem scanSign_passes (text : List Char) : Passes text (Numeral.scanSign text).2 0 := by
  fun_cases Numeral.scanSign text with
  | case1 => exact .plain (by decide)
  | case2 => exact .refl text

theorem powerSign_passes (text : List Char) : Passes text (Numeral.powerSign text).2 0 := by
  fun_cases Numeral.powerSign text with
  | case1 => exact .plain (by decide)
  | case2 => exact .plain (by decide)
  | case3 => exact .refl text

theorem scanFraction_passes {text fraction rest : List Char}
    (scanned : Numeral.scanFraction text = some (fraction, rest)) : Passes text rest 0 := by
  by_cases pointed : ∃ inner, text = '.' :: inner
  · obtain ⟨inner, rfl⟩ := pointed
    have run := (Numeral.scanFraction_point.mp scanned).1
    exact Passes.flat (.plain (by decide)) (digitRun_passes run)
  · rw [Numeral.scanFraction.eq_2 text fun inner equal => pointed ⟨inner, equal⟩] at scanned
    obtain ⟨_, rfl⟩ := Prod.mk.inj (Option.some.inj scanned)
    exact .refl text

theorem scanPower_passes {text rest : List Char} {power : Int}
    (scanned : Numeral.scanPower text = some (power, rest)) : Passes text rest 0 := by
  obtain ⟨digits, run, _⟩ := Numeral.scanPower_eq_some.mp scanned
  exact (powerSign_passes text).flat (digitRun_passes run)

theorem scanExponent_passes {text rest : List Char} {power : Option Int}
    (scanned : Numeral.scanExponent text = some (power, rest)) : Passes text rest 0 := by
  fun_cases Numeral.scanExponent text with
  | case1 after =>
    obtain ⟨_, powerRead, _⟩ := exists_of_map scanned
    exact Passes.flat (.plain (by decide)) (scanPower_passes powerRead)
  | case2 after =>
    obtain ⟨_, powerRead, _⟩ := exists_of_map scanned
    exact Passes.flat (.plain (by decide)) (scanPower_passes powerRead)
  | case3 _ notSmall notCapital =>
    rw [Numeral.scanExponent.eq_3 text notSmall notCapital] at scanned
    obtain ⟨_, rfl⟩ := Prod.mk.inj (Option.some.inj scanned)
    exact .refl text

theorem scan?_passes {text rest : List Char} {numeral : Numeral}
    (scanned : Numeral.scan? text = some (numeral, rest)) : Passes text rest 0 := by
  simp only [Numeral.scan?, Option.bind_eq_bind, Option.bind_eq_some_iff, Option.pure_def,
    Prod.exists, Option.some.injEq, Prod.mk.injEq] at scanned
  obtain ⟨whole, afterWhole, wholeRead, fraction, afterFraction, fractionRead, power, last,
    powerRead, _, rfl⟩ := scanned
  have wholePasses := digitRun_passes (Numeral.scanWhole_eq_some.mp wholeRead).1
  exact (scanSign_passes text).flat (wholePasses.flat
    ((scanFraction_passes fractionRead).flat (scanExponent_passes powerRead)))

/-! ### The steps of a reader -/

variable {α : Type}

/-- What a sequence is read from: an item, and then a comma and more items, or the closing
character. -/
theorem items_eq_some {close : Char} {item : List Char → Option (α × List Char)} {bound : Nat}
    {text rest : List Char} {found : List α} :
    items close item (bound + 1) text = some (found, rest) ↔
      ∃ first after, item text = some (first, after) ∧
        ((∃ others behind, skipBlanks after = ',' :: behind ∧
            items close item bound behind = some (others, rest) ∧ first :: others = found) ∨
          (close ≠ ',' ∧ skipBlanks after = close :: rest ∧ [first] = found)) := by
  rw [items]
  constructor
  · intro read
    split at read
    · cases read
    · rename_i first after firstRead
      refine ⟨first, after, firstRead, ?_⟩
      split at read
      · rename_i behind skipped
        obtain ⟨others, othersRead, same⟩ := exists_of_map read
        exact .inl ⟨others, behind, skipped, othersRead, same⟩
      · rename_i char behind notComma skipped
        split at read
        · rename_i closes
          obtain ⟨same, rfl⟩ := Prod.mk.inj (Option.some.inj read)
          exact .inr ⟨closes ▸ notComma, closes ▸ skipped, same⟩
        · cases read
      · cases read
  · rintro ⟨first, after, firstRead,
      ⟨others, behind, skipped, othersRead, rfl⟩ | ⟨notComma, skipped, rfl⟩⟩
    · simp only [firstRead, skipped, othersRead, Option.map_some]
    · simp [firstRead, skipped]

/-- Between the opening and the closing character stands nothing, or a sequence. -/
theorem enclosed_eq_some {close : Char} {item : List Char → Option (α × List Char)} {bound : Nat}
    {text rest : List Char} {found : List α} :
    enclosed close item bound text = some (found, rest) ↔
      (skipBlanks text = close :: rest ∧ [] = found) ∨
        (∃ char behind, skipBlanks text = char :: behind ∧ char ≠ close ∧
          items close item bound text = some (found, rest)) := by
  rw [enclosed]
  cases skipBlanks text with
  | nil => simp
  | cons char behind =>
    by_cases closes : char = close
    · simp [closes, and_comm]
    · simp [closes]

/-- A member is read from a string, a colon and a value. -/
theorem member_eq_some {value : List Char → Option (α × List Char)} {text rest : List Char}
    {found : String × α} :
    member value text = some (found, rest) ↔
      ∃ quoted name after behind inner, skipBlanks text = '"' :: quoted ∧
        stringBody quoted = some (name, after) ∧ skipBlanks after = ':' :: behind ∧
        value behind = some (inner, rest) ∧ (String.ofList name, inner) = found := by
  rw [member]
  constructor
  · intro read
    split at read
    · rename_i quoted opened
      split at read
      · cases read
      · rename_i name after nameRead
        split at read
        · rename_i behind skipped
          obtain ⟨inner, valueRead, same⟩ := exists_of_map read
          exact ⟨quoted, name, after, behind, inner, opened, nameRead, skipped, valueRead, same⟩
        · cases read
    · cases read
  · rintro ⟨quoted, name, after, behind, inner, opened, nameRead, skipped, valueRead, rfl⟩
    simp only [opened, nameRead, skipped, valueRead, Option.map_some]

/-- What opens an array or an object, with its parts read one level below and something made of
them. -/
def nested (close : Char) (part : Nat → List Char → Option (α × List Char))
    (make : List α → Value) (width depth : Nat) (text : List Char) : Option (Value × List Char) :=
  match depth with
  | 0 => none
  | inner + 1 =>
    (enclosed close (part inner) width text).map fun (parts, rest) => (make parts, rest)

theorem value_array {text behind : List Char} (opened : skipBlanks text = '[' :: behind)
    (width depth : Nat) :
    value width depth text = nested ']' (value width) .array width depth behind := by
  rw [value]
  simp only [opened]
  rfl

theorem value_object {text behind : List Char} (opened : skipBlanks text = '\x7b' :: behind)
    (width depth : Nat) :
    value width depth text = nested '\x7d' (fun depth => member (value width depth))
      (fun members => .object (Entries.ofPairs members)) width depth behind := by
  rw [value]
  simp only [opened]
  rfl

/-- The bound on nesting plays no part for a value that is neither an array nor an object. -/
theorem value_leaf {text : List Char} (width depth other : Nat)
    (notArray : ∀ behind, skipBlanks text ≠ '[' :: behind)
    (notObject : ∀ behind, skipBlanks text ≠ '\x7b' :: behind) :
    value width depth text = value width other text := by
  rw [value, value]
  split
  case h_5 behind opened => exact absurd opened (notArray behind)
  case h_6 behind opened => exact absurd opened (notObject behind)
  all_goals rfl

theorem value_leaf_passes {text rest : List Char} {width depth : Nat} {found : Value}
    (notArray : ∀ behind, skipBlanks text ≠ '[' :: behind)
    (notObject : ∀ behind, skipBlanks text ≠ '\x7b' :: behind)
    (read : value width depth text = some (found, rest)) : Passes text rest 0 := by
  refine (skipBlanks_passes text).flat ?_
  rw [value] at read
  split at read
  case h_1 after opened =>
    obtain ⟨_, rfl⟩ := Prod.mk.inj (Option.some.inj read)
    exact opened ▸ Passes.word ['n', 'u', 'l', 'l'] (by simp [isPlain])
  case h_2 after opened =>
    obtain ⟨_, rfl⟩ := Prod.mk.inj (Option.some.inj read)
    exact opened ▸ Passes.word ['t', 'r', 'u', 'e'] (by simp [isPlain])
  case h_3 after opened =>
    obtain ⟨_, rfl⟩ := Prod.mk.inj (Option.some.inj read)
    exact opened ▸ Passes.word ['f', 'a', 'l', 's', 'e'] (by simp [isPlain])
  case h_4 after opened =>
    obtain ⟨chars, charsRead, equal⟩ := Option.map_eq_some_iff.mp read
    obtain ⟨_, rfl⟩ := Prod.mk.inj equal
    exact opened ▸ .quoted (stringBody_closes charsRead)
  case h_5 behind opened => exact absurd opened (notArray behind)
  case h_6 behind opened => exact absurd opened (notObject behind)
  case h_7 =>
    split at read
    · cases read
    · rename_i numeral after scanned
      obtain ⟨number, _, equal⟩ := Option.map_eq_some_iff.mp read
      obtain ⟨_, rfl⟩ := Prod.mk.inj equal
      exact scan?_passes scanned

/-! ### The text of a value -/

/-- A reader whose nesting is bounded has found something between two places of a text, and finds
the same within every bound that is no less than the depth of what stands between them. -/
def Finds (read : Nat → Option α) (depth : Nat) (text after : List Char) (found : α) : Prop :=
  ∃ deep ≤ depth, Passes text after deep ∧ ∀ other, deep ≤ other → read other = some found

/-- Whatever is read within a bound on nesting is read within every bound that is no less than the
depth of its text. -/
def NeedsDepth (read : Nat → List Char → Option (α × List Char)) (depth : Nat) : Prop :=
  ∀ text found rest, read depth text = some (found, rest) →
    Finds (read · text) depth text rest (found, rest)

section Sequences

variable {item : Nat → List Char → Option (α × List Char)} {depth : Nat}
  (each : NeedsDepth item depth) {close : Char}
include each

theorem items_finds (bound : Nat) {text : List Char} {found : List α} {rest : List Char}
    (read : items close (item depth) bound text = some (found, rest)) :
    Finds (fun depth => items close (item depth) bound text) depth text (close :: rest)
      (found, rest) := by
  induction bound generalizing text found rest with
  | zero => cases read
  | succ bound inductionHypothesis =>
    obtain ⟨first, after, firstRead, others⟩ := items_eq_some.mp read
    obtain ⟨deep, within, passes, again⟩ := each _ _ _ firstRead
    rcases others with ⟨others, behind, skipped, othersRead, made⟩ | ⟨notComma, skipped, made⟩
    · obtain ⟨deepLater, withinLater, passesLater, againLater⟩ := inductionHypothesis othersRead
      have spaced := passes_of_skipBlanks skipped
      have comma : Passes (',' :: behind) behind 0 := .plain (by decide)
      -- The deepest item decides which bounds are enough for all of them.
      refine ⟨max deep deepLater, Nat.max_le.mpr ⟨within, withinLater⟩,
        passes.trans (spaced.flat (comma.flat passesLater)), fun other enough => ?_⟩
      obtain ⟨enoughFirst, enoughLater⟩ := Nat.max_le.mp enough
      exact items_eq_some.mpr ⟨first, after, again other enoughFirst,
        .inl ⟨others, behind, skipped, againLater other enoughLater, made⟩⟩
    · have closed := passes.trans (passes_of_skipBlanks skipped)
      rw [Nat.max_zero] at closed
      refine ⟨deep, within, closed, fun other enough => ?_⟩
      exact items_eq_some.mpr ⟨first, after, again other enough, .inr ⟨notComma, skipped, made⟩⟩

theorem enclosed_finds (bound : Nat) {text : List Char} {found : List α} {rest : List Char}
    (read : enclosed close (item depth) bound text = some (found, rest)) :
    Finds (fun depth => enclosed close (item depth) bound text) depth text (close :: rest)
      (found, rest) := by
  rcases enclosed_eq_some.mp read with ⟨skipped, made⟩ | ⟨char, behind, skipped, apart, itemsRead⟩
  · exact ⟨0, Nat.zero_le _, passes_of_skipBlanks skipped,
      fun _ _ => enclosed_eq_some.mpr (.inl ⟨skipped, made⟩)⟩
  · obtain ⟨deep, within, passes, again⟩ := items_finds each bound itemsRead
    exact ⟨deep, within, passes, fun other enough =>
      enclosed_eq_some.mpr (.inr ⟨char, behind, skipped, apart, again other enough⟩)⟩

theorem member_needsDepth : NeedsDepth (fun depth => member (item depth)) depth := by
  intro text found rest read
  obtain ⟨quoted, name, after, behind, inner, opened, nameRead, skipped, valueRead, made⟩ :=
    member_eq_some.mp read
  obtain ⟨deep, within, passes, again⟩ := each _ _ _ valueRead
  have beforeName := passes_of_skipBlanks opened
  have afterName := passes_of_skipBlanks skipped
  have nameText : Passes ('"' :: quoted) after 0 := .quoted (stringBody_closes nameRead)
  have colon : Passes (':' :: behind) behind 0 := .plain (by decide)
  exact ⟨deep, within, beforeName.flat (nameText.flat (afterName.flat (colon.flat passes))),
    fun other enough => member_eq_some.mpr
      ⟨quoted, name, after, behind, inner, opened, nameRead, skipped, again other enough, made⟩⟩

end Sequences

/-- The level that an opening character adds takes one of the bound. -/
theorem nested_finds {part : Nat → List Char → Option (α × List Char)} {make : List α → Value}
    {opening close : Char} (opens : opening = '[' ∨ opening = '\x7b')
    (closes : close = ']' ∨ close = '\x7d') {depth : Nat}
    (each : ∀ inner < depth, NeedsDepth part inner) {width : Nat} {text rest : List Char}
    {found : Value} (read : nested close part make width depth text = some (found, rest)) :
    Finds (nested close part make width · text) depth (opening :: text) rest (found, rest) := by
  cases depth with
  | zero => cases read
  | succ inner =>
    obtain ⟨parts, partsRead, made⟩ := exists_of_map read
    obtain ⟨deep, within, passes, again⟩ :=
      enclosed_finds (each inner (Nat.lt_succ_self inner)) width partsRead
    refine ⟨deep + 1, Nat.succ_le_succ within, passes.nested opens closes, fun other enough => ?_⟩
    obtain ⟨below, rfl⟩ := Nat.exists_eq_add_of_le' (Nat.le_trans (Nat.le_add_left 1 deep) enough)
    have partsAgain := again below (Nat.le_of_succ_le_succ enough)
    simp only [nested, partsAgain, Option.map_some, made]

/-- A value is read within every bound that is no less than the depth of its text. -/
theorem value_needsDepth (width depth : Nat) : NeedsDepth (value width) depth := by
  -- The induction is on the bound, since what stands in brackets is read within a smaller one.
  induction depth using Nat.strongRecOn with
  | _ depth inductionHypothesis =>
    intro text found rest read
    by_cases array : ∃ behind, skipBlanks text = '[' :: behind
    · obtain ⟨behind, opened⟩ := array
      rw [value_array opened] at read
      obtain ⟨deep, within, passes, again⟩ :=
        nested_finds (.inl rfl) (.inl rfl) inductionHypothesis read
      exact ⟨deep, within, (passes_of_skipBlanks opened).flat passes, fun other enough =>
        (value_array opened width other).trans (again other enough)⟩
    by_cases object : ∃ behind, skipBlanks text = '\x7b' :: behind
    · obtain ⟨behind, opened⟩ := object
      rw [value_object opened] at read
      obtain ⟨deep, within, passes, again⟩ :=
        nested_finds (.inr rfl) (.inr rfl)
          (fun inner below => member_needsDepth (inductionHypothesis inner below)) read
      exact ⟨deep, within, (passes_of_skipBlanks opened).flat passes, fun other enough =>
        (value_object opened width other).trans (again other enough)⟩
    · have notArray : ∀ behind, skipBlanks text ≠ '[' :: behind := fun behind opened =>
        array ⟨behind, opened⟩
      have notObject : ∀ behind, skipBlanks text ≠ '\x7b' :: behind := fun behind opened =>
        object ⟨behind, opened⟩
      exact ⟨0, Nat.zero_le _, value_leaf_passes notArray notObject read, fun other _ =>
        (value_leaf width other depth notArray notObject).trans read⟩

/-- A text that is not nested deeper than the limit is read within the limit as it is without
one. -/
theorem value_eq_of_nesting_le {text : String} {limit : Nat} (shallow : nesting text ≤ limit)
    (width : Nat) :
    value width limit text.toList = value width text.length text.toList := by
  have bounded := nesting_le_length text
  -- What is found within either bound has a depth that the nesting of the text bounds.
  have shared {depth other : Nat} (enough : nesting text ≤ other) {found : Value × List Char}
      (read : value width depth text.toList = some found) :
      value width other text.toList = some found := by
    obtain ⟨deep, _, passes, again⟩ := value_needsDepth width depth _ _ _ read
    have level := passes 0
    have deepEnough : deep ≤ nesting text := by
      rw [nesting, level]
      omega
    exact again other (Nat.le_trans deepEnough enough)
  exact Option.ext fun found => ⟨shared bounded, shared shallow⟩

theorem deepest_of_isAtEnd {rest : List Char} (atEnd : isAtEnd rest = true) (level : Nat) :
    deepest .outside level rest = level := by
  have blank := skipBlanks_passes rest level
  rw [List.isEmpty_iff.mp atEnd] at blank
  simpa [deepest] using blank

/-- A text that is read to its end is not nested deeper than the bound it is read within. -/
theorem nesting_le_of_value {text : String} {width limit : Nat} {found : Value} {rest : List Char}
    (read : value width limit text.toList = some (found, rest)) (atEnd : isAtEnd rest = true) :
    nesting text ≤ limit := by
  obtain ⟨deep, within, passes, _⟩ := value_needsDepth width limit _ _ _ read
  have level := passes 0
  rw [deepest_of_isAtEnd atEnd] at level
  rw [nesting, level]
  omega

end Reader

end EstreeScopes.Json

namespace EstreeScopes

open Json

namespace Node

/-- More text follows a first value that is no node. -/
def GoesOnAfterNoNode (text : String) : Prop :=
  ∃ value rest, Reader.value text.length text.length text.toList = some (value, rest) ∧
    ofValue? value = none ∧ Reader.isAtEnd rest = false

theorem ofText_of_goesOn {text : String} (goesOn : GoesOnAfterNoNode text) :
    ofText text = .error .notDocument := by
  obtain ⟨value, rest, read, _, notAtEnd⟩ := goesOn
  simp [ofText, Value.ofText?, read, notAtEnd]

theorem ofNestedText_of_goesOn {text : String} (shallow : nesting text ≤ nestingLimit)
    (goesOn : GoesOnAfterNoNode text) : ofNestedText text = .error .notNode := by
  obtain ⟨value, rest, read, notNode, _⟩ := goesOn
  simp [ofNestedText, Reader.value_eq_of_nesting_le shallow, read, notNode]

/-- Within the limit the two readings differ only where a text goes on after a value that is no
node. -/
theorem ofNestedText_eq {text : String} (shallow : nesting text ≤ nestingLimit)
    (ends : ¬GoesOnAfterNoNode text) : ofNestedText text = ofText text := by
  rw [ofNestedText, ofText, Value.ofText?, Reader.value_eq_of_nesting_le shallow]
  cases read : Reader.value text.length text.length text.toList with
  | none => rfl
  | some found =>
    obtain ⟨value, rest⟩ := found
    cases atEnd : Reader.isAtEnd rest with
    | true => simp [atEnd]
    | false =>
      cases node : ofValue? value with
      | none => exact absurd ⟨value, rest, read, node, atEnd⟩ ends
      | some node => simp [atEnd, node]

theorem nesting_le_of_ofNestedText {text : String} {node : Node}
    (read : ofNestedText text = .ok node) : nesting text ≤ nestingLimit := by
  rw [ofNestedText] at read
  split at read
  · cases read
  · rename_i value rest valueRead
    split at read
    · cases read
    · split at read
      · rename_i atEnd
        exact Reader.nesting_le_of_value valueRead atEnd
      · cases read

end Node

open Node (GoesOnAfterNoNode nestingLimit ofNestedText ofText)

/-- The two readings of a text agree up to the limit on nesting, and beyond it the bounded one
refuses every text. Within the limit they find the same nodes, and the same roots that are none,
except that the bounded reading also refuses a root that more text follows. -/
theorem bounded_reading_agrees (text : String) :
    (∀ node, ofNestedText text = .ok node → ofText text = .ok node) ∧
      (nesting text ≤ nestingLimit → ∀ node, ofText text = .ok node →
        ofNestedText text = .ok node) ∧
      (nestingLimit < nesting text → ∃ error, ofNestedText text = .error error) ∧
      (nesting text ≤ nestingLimit → (ofNestedText text = .error .notNode ↔
        ofText text = .error .notNode ∨ GoesOnAfterNoNode text)) ∧
      (GoesOnAfterNoNode text → ofText text = .error .notDocument) := by
  refine ⟨fun node read => ?_, fun shallow node read => ?_, fun deep => ?_, fun shallow => ?_,
    Node.ofText_of_goesOn⟩
  · have shallow := Node.nesting_le_of_ofNestedText read
    have ends : ¬GoesOnAfterNoNode text := by
      intro goesOn
      cases (Node.ofNestedText_of_goesOn shallow goesOn).symm.trans read
    exact (Node.ofNestedText_eq shallow ends).symm.trans read
  · have ends : ¬GoesOnAfterNoNode text := by
      intro goesOn
      cases (Node.ofText_of_goesOn goesOn).symm.trans read
    exact (Node.ofNestedText_eq shallow ends).trans read
  · cases read : ofNestedText text with
    | error error => exact ⟨error, rfl⟩
    | ok node => exact absurd (Node.nesting_le_of_ofNestedText read) (Nat.not_le.mpr deep)
  · by_cases goesOn : GoesOnAfterNoNode text
    · simp [goesOn, Node.ofNestedText_of_goesOn shallow goesOn]
    · simp [goesOn, Node.ofNestedText_eq shallow goesOn]

/-- A tree with that many arrays nested in each other below its root. -/
def towerText (levels : Nat) : String :=
  String.ofList ("\x7b\"type\":\"A\",\"x\":".toList ++ List.replicate levels '[' ++
    List.replicate levels ']' ++ ['\x7d'])

/-- A flat tree is read in both ways, a tree with a level too many is refused in one, and a text
that goes on after a value that is no node is refused in both. -/
theorem flat_deep_and_doubled_texts :
    (nesting "\x7b\"type\":\"A\",\"x\":[]\x7d" ≤ nestingLimit ∧
      ∃ node, ofText "\x7b\"type\":\"A\",\"x\":[]\x7d" = .ok node ∧
        ofNestedText "\x7b\"type\":\"A\",\"x\":[]\x7d" = .ok node) ∧
      (nestingLimit < nesting (towerText 127) ∧
        ∃ error, ofNestedText (towerText 127) = .error error) ∧
      (GoesOnAfterNoNode "null 1" ∧ ofNestedText "null 1" = .error .notNode ∧
        ofText "null 1" = .error .notDocument) := by
  have flat : nesting "\x7b\"type\":\"A\",\"x\":[]\x7d" ≤ nestingLimit := by decide
  have deep : nestingLimit < nesting (towerText 127) :=
    Nat.lt_of_lt_of_eq (by decide +kernel) (Json.nesting_ofList _).symm
  have doubled : nesting "null 1" ≤ nestingLimit := by decide
  have goesOn : GoesOnAfterNoNode "null 1" := ⟨.null, [' ', '1'], by cbv, rfl, by cbv⟩
  obtain ⟨node, read⟩ : ∃ node, ofText "\x7b\"type\":\"A\",\"x\":[]\x7d" = .ok node :=
    ⟨_, by cbv⟩
  obtain ⟨-, flatAgrees, -⟩ := bounded_reading_agrees "\x7b\"type\":\"A\",\"x\":[]\x7d"
  obtain ⟨-, -, refuses, -⟩ := bounded_reading_agrees (towerText 127)
  obtain ⟨-, -, -, roots, noDocument⟩ := bounded_reading_agrees "null 1"
  exact ⟨⟨flat, node, read, flatAgrees flat node read⟩, ⟨deep, refuses deep⟩,
    goesOn, (roots doubled).mpr (.inr goesOn), noDocument goesOn⟩

/-- A root that is no node is not reported alike where another root follows it. -/
theorem two_roots_reported_apart :
    nesting "[] []" ≤ nestingLimit ∧ ofNestedText "[] []" = .error .notNode ∧
      ofText "[] []" = .error .notDocument :=
  ⟨by decide, by cbv, by cbv⟩

end EstreeScopes
