/-
This file runs the reader on what the writer wrote. Every value reads back, with
any text behind it that does not go on with a numeral, as the value itself, except
that an object keeps one member for each name: the last value, in the place of the
first. So a value whose objects repeat no name reads back unchanged. The bounds of
the reader are met by the length of the text, since every item and every level of
nesting takes a character.
-/

import EstreeScopes.Proofs.Numbers
import EstreeScopes.Proofs.WellFormed

namespace EstreeScopes.Json

open Numeral (Ends)

/-- Induction over values, with the hypothesis for each item and for each member. -/
@[elab_as_elim]
theorem Value.inductionOn {motive : Value → Prop} (value : Value) (null : motive .null)
    (bool : ∀ flag, motive (.bool flag)) (number : ∀ number, motive (.number number))
    (string : ∀ text, motive (.string text))
    (array : ∀ items, (∀ item ∈ items, motive item) → motive (.array items))
    (object : ∀ members, (∀ member ∈ members, motive member.2) → motive (.object members)) :
    motive value :=
  @Value.rec motive (fun items => ∀ item ∈ items, motive item)
    (fun members => ∀ member ∈ members, motive member.2) (fun member => motive member.2)
    null bool number string array object
    (fun _ member => nomatch member)
    (fun _ _ first others => List.forall_mem_cons.mpr ⟨first, others⟩)
    (fun _ member => nomatch member)
    (fun _ _ first others => List.forall_mem_cons.mpr ⟨first, others⟩)
    (fun _ _ held => held) value

/-! ### Strings -/

namespace Reader

open Writer

/-- A backslash and a letter stand for one character. -/
theorem stringBody_escaped {letter plain : Char} (stands : escaped? letter = some plain)
    (rest : List Char) :
    stringBody ('\\' :: letter :: rest) =
      (stringBody rest).map fun (chars, rest) => (plain :: chars, rest) := by
  have notUnit : letter ≠ 'u' := by
    rintro rfl
    simp [escaped?] at stands
  rw [stringBody.eq_4 letter rest fun _ _ _ _ _ equal _ => notUnit equal, stands]

/-- A control character is written by its code. -/
theorem stringBody_control {char : Char} (control : char.toNat < 32) (rest : List Char) :
    stringBody ('\\' :: 'u' :: '0' :: '0' :: hexChar (char.toNat / 16) ::
        hexChar (char.toNat % 16) :: rest) =
      (stringBody rest).map fun (chars, rest) => (char :: chars, rest) := by
  have unit : ∀ code < 32, codeUnit? '0' '0' (hexChar (code / 16)) (hexChar (code % 16)) =
      some code := by decide
  have notHigh : isHighSurrogate char.toNat = false := by
    simp only [isHighSurrogate, Bool.and_eq_false_iff, decide_eq_false_iff_not]
    omega
  have notLow : isLowSurrogate char.toNat = false := by
    simp only [isLowSurrogate, Bool.and_eq_false_iff, decide_eq_false_iff_not]
    omega
  rw [stringBody, unit _ control]
  simp [notHigh, notLow, Char.ofNat_toNat]

theorem stringBody_plain {char : Char} (notQuote : char ≠ '"') (notBackslash : char ≠ '\\')
    (printable : ¬char.toNat < 32) (rest : List Char) :
    stringBody (char :: rest) =
      (stringBody rest).map fun (chars, rest) => (char :: chars, rest) := by
  rw [stringBody.eq_5 char rest notQuote (fun _ _ _ _ _ equal _ => notBackslash equal)
    fun _ _ equal _ => notBackslash equal]
  exact if_neg (not_or.mpr ⟨printable, notBackslash⟩)

theorem stringBody_escape (char : Char) (rest : List Char) :
    stringBody (escape char ++ rest) =
      (stringBody rest).map fun (chars, rest) => (char :: chars, rest) := by
  fun_cases escape char with
  | case1 equal | case2 _ equal | case3 _ _ equal | case4 _ _ _ equal | case5 _ _ _ _ equal
  | case6 _ _ _ _ _ equal | case7 _ _ _ _ _ _ equal =>
    subst equal
    exact stringBody_escaped rfl rest
  | case8 _ _ _ _ _ _ _ control => exact stringBody_control control rest
  | case9 notQuote notBackslash _ _ _ _ _ printable =>
    exact stringBody_plain notQuote notBackslash printable rest

/-- What stands between quotes reads back as the characters. -/
theorem stringBody_flatMap_escape (chars rest : List Char) :
    stringBody (chars.flatMap escape ++ '"' :: rest) = some (chars, rest) := by
  induction chars with
  | nil => rfl
  | cons char chars inductionHypothesis =>
    rw [List.flatMap_cons, List.append_assoc, stringBody_escape, inductionHypothesis]
    rfl

end Reader

/-! ### Sequences -/

namespace Writer

variable {α : Type} (write : α → List Char → List Char)

/-- The texts of the values, with commas between them. -/
def joined : List α → List Char → List Char
  | [], rest => rest
  | [value], rest => write value rest
  | value :: values, rest => write value (',' :: joined values rest)

theorem joined_cons_cons (value next : α) (values : List α) (rest : List Char) :
    joined write (value :: next :: values) rest =
      write value (',' :: joined write (next :: values) rest) := rfl

/-- A member of an object. -/
def compactMember (member : String × Value) (rest : List Char) : List Char :=
  quoted member.1 (':' :: compact member.2 rest)

theorem compactItems_eq_joined (items : List Value) (rest : List Char) :
    compactItems items rest = joined compact items rest := by
  induction items generalizing rest with
  | nil => rfl
  | cons item items inductionHypothesis =>
    cases items with
    | nil => rfl
    | cons next items =>
      rw [joined_cons_cons, ← inductionHypothesis]
      rfl

theorem compactMembers_eq_joined (members : List (String × Value)) (rest : List Char) :
    compactMembers members rest = joined compactMember members rest := by
  induction members generalizing rest with
  | nil => rfl
  | cons member members inductionHypothesis =>
    cases members with
    | nil => rfl
    | cons next members =>
      rw [joined_cons_cons, ← inductionHypothesis]
      rfl

/-- The writer puts the text of a value in front of the rest. -/
def Prepends (value : α) : Prop :=
  ∀ rest, write value rest = write value [] ++ rest

/-- The text of a value starts with a character that is neither a blank nor the given one. -/
def OpensApart (close : Char) (value : α) : Prop :=
  ∃ char others, write value [] = char :: others ∧ Reader.isBlank char = false ∧ char ≠ close

variable {write}

theorem joined_append {values : List α} (each : ∀ value ∈ values, Prepends write value)
    (rest : List Char) : joined write values rest = joined write values [] ++ rest := by
  induction values with
  | nil => rfl
  | cons value values inductionHypothesis =>
    obtain ⟨first, others⟩ := List.forall_mem_cons.mp each
    cases values with
    | nil => exact first rest
    | cons next values =>
      rw [joined_cons_cons, joined_cons_cons, first, first (',' :: _), inductionHypothesis others,
        List.append_assoc, List.cons_append]

theorem length_joined_cons_cons {value : α} (prepends : Prepends write value) (next : α)
    (values : List α) :
    (joined write (value :: next :: values) []).length =
      (write value []).length + (joined write (next :: values) []).length + 1 := by
  rw [joined_cons_cons, prepends, List.length_append, List.length_cons, Nat.add_assoc]

/-- The text of each value is part of the joined text. -/
theorem length_le_joined {values : List α} (each : ∀ value ∈ values, Prepends write value)
    {value : α} (member : value ∈ values) :
    (write value []).length ≤ (joined write values []).length := by
  induction values with
  | nil => cases member
  | cons first values inductionHypothesis =>
    obtain ⟨prepends, others⟩ := List.forall_mem_cons.mp each
    cases values with
    | nil => rw [List.mem_singleton.mp member, joined]
    | cons next values =>
      rw [length_joined_cons_cons prepends]
      rcases List.mem_cons.mp member with rfl | later
      · omega
      · have := inductionHypothesis others later
        omega

/-- Every value takes a character. -/
theorem length_le_length_joined {values : List α} (each : ∀ value ∈ values, Prepends write value)
    (written : ∀ value ∈ values, write value [] ≠ []) :
    values.length ≤ (joined write values []).length := by
  induction values with
  | nil => exact Nat.le_refl 0
  | cons first values inductionHypothesis =>
    obtain ⟨prepends, others⟩ := List.forall_mem_cons.mp each
    obtain ⟨firstWritten, othersWritten⟩ := List.forall_mem_cons.mp written
    cases values with
    | nil => exact List.length_pos_of_ne_nil firstWritten
    | cons next values =>
      have := inductionHypothesis others othersWritten
      rw [length_joined_cons_cons prepends, List.length_cons]
      omega

end Writer

namespace Reader

open Writer

/-! ### Reading sequences -/

theorem skipBlanks_cons {char : Char} (notBlank : isBlank char = false) (rest : List Char) :
    skipBlanks (char :: rest) = char :: rest :=
  List.dropWhile_cons_of_neg (by simp [notBlank])

theorem isBlank_of_isStart {char : Char} (start : Numeral.isStart char = true) :
    isBlank char = false := by
  rw [← Bool.not_eq_true]
  intro blank
  simp only [isBlank, Bool.or_eq_true, beq_iff_eq] at blank
  rcases blank with ((rfl | rfl) | rfl) | rfl <;> exact absurd start (by decide)

/-- A character that can close a sequence: no blank, no comma and no part of a numeral. -/
structure IsClosing (close : Char) : Prop where
  notBlank : isBlank close = false
  notComma : close ≠ ','
  notPart : Numeral.isPart close = false

section Sequences

variable {α β : Type} (read : List Char → Option (β × List Char))
  (write : α → List Char → List Char) (make : α → β)

/-- What is written of a value is read as what is made of it, in front of any text that does not go
on with a numeral. -/
def ReadsBack (value : α) : Prop :=
  ∀ rest, Ends rest → read (write value rest) = some (make value, rest)

variable {read write make} {close : Char} (closing : IsClosing close) {values : List α}
include closing

/-- Values that read back one by one read back with commas between them. -/
theorem items_joined (notEmpty : values ≠ [])
    (each : ∀ value ∈ values, ReadsBack read write make value) {bound : Nat}
    (enough : values.length ≤ bound) (rest : List Char) :
    items close read bound (joined write values (close :: rest)) =
      some (values.map make, rest) := by
  induction values generalizing bound with
  | nil => exact absurd rfl notEmpty
  | cons value values inductionHypothesis =>
    obtain ⟨first, others⟩ := List.forall_mem_cons.mp each
    obtain ⟨bound, rfl⟩ := Nat.exists_eq_add_of_le' (Nat.le_trans (Nat.le_add_left 1 _) enough)
    cases values with
    | nil =>
      have notComma := closing.notComma
      rw [joined, items, first _ (Numeral.ends_cons.mpr closing.notPart)]
      simp [skipBlanks_cons closing.notBlank]
    | cons next values =>
      have comma : Ends (',' :: joined write (next :: values) (close :: rest)) :=
        Numeral.ends_cons.mpr (by decide)
      rw [joined_cons_cons, items, first _ comma]
      simp only [skipBlanks_cons (show isBlank ',' = false by decide)]
      rw [inductionHypothesis (List.cons_ne_nil _ _) others (Nat.le_of_succ_le_succ enough)]
      rfl

/-- The same between an opening and a closing character, when no value starts like the latter. -/
theorem enclosed_joined (prepends : ∀ value ∈ values, Prepends write value)
    (opens : ∀ value ∈ values, OpensApart write close value)
    (each : ∀ value ∈ values, ReadsBack read write make value) {bound : Nat}
    (enough : values.length ≤ bound) (rest : List Char) :
    enclosed close read bound (joined write values (close :: rest)) =
      some (values.map make, rest) := by
  cases values with
  | nil =>
    rw [joined, enclosed, skipBlanks_cons closing.notBlank]
    exact if_pos rfl
  | cons value values =>
    obtain ⟨char, others, equal, notBlank, notClose⟩ := opens value List.mem_cons_self
    have starts (rest : List Char) : write value rest = char :: (others ++ rest) := by
      rw [prepends value List.mem_cons_self, equal, List.cons_append]
    obtain ⟨tail, opened⟩ : ∃ tail,
        joined write (value :: values) (close :: rest) = char :: tail := by
      cases values <;> exact ⟨_, starts _⟩
    rw [enclosed]
    nth_rewrite 1 [opened]
    rw [skipBlanks_cons notBlank]
    simp only [if_neg notClose]
    exact items_joined closing (List.cons_ne_nil _ _) each enough rest

end Sequences

/-- A sequence is read within bounds that its text meets, if each of its values is: every value
takes a character, and so does the level. -/
theorem enclosed_reads {α β : Type} {read : Nat → List Char → Option (β × List Char)}
    {write : α → List Char → List Char} {make : α → β} {opening close : Char}
    (closing : IsClosing close) {values : List α}
    (prepends : ∀ value ∈ values, Prepends write value)
    (opens : ∀ value ∈ values, OpensApart write close value) {width depth : Nat}
    (wide : (opening :: joined write values [close]).length ≤ width)
    (deep : (opening :: joined write values [close]).length ≤ depth)
    (each : ∀ value ∈ values, ∀ inner, (write value []).length ≤ width →
      (write value []).length ≤ inner → ReadsBack (read inner) write make value)
    (rest : List Char) :
    ∃ inner, depth = inner + 1 ∧
      enclosed close (read inner) width (joined write values (close :: rest)) =
        some (values.map make, rest) := by
  rw [List.length_cons, joined_append prepends, List.length_append] at wide deep
  have written : ∀ value ∈ values, write value [] ≠ [] := by
    intro value member empty
    obtain ⟨char, others, equal, _⟩ := opens value member
    exact List.cons_ne_nil char others (equal ▸ empty)
  have enough := length_le_length_joined prepends written
  obtain ⟨inner, rfl⟩ : ∃ inner, depth = inner + 1 := Nat.exists_eq_add_one.mpr (by omega)
  refine ⟨inner, rfl,
    enclosed_joined closing prepends opens (fun value member => ?_) (by omega) rest⟩
  have part := length_le_joined prepends member
  exact each value member inner (by omega) (by omega)

end Reader

/-! ### Values -/

namespace Writer

theorem compact_opensApart (value : Value) : OpensApart compact ']' value := by
  cases value with
  | null => exact ⟨_, _, rfl, by decide⟩
  | bool flag => cases flag <;> exact ⟨_, _, rfl, by decide⟩
  | string text => exact ⟨_, _, rfl, by decide⟩
  | array items => exact ⟨_, _, rfl, by decide⟩
  | object members => exact ⟨_, _, rfl, by decide⟩
  | number number =>
    obtain ⟨char, others, equal, start⟩ := number.text_opens
    exact ⟨char, others ++ [], by rw [compact, equal, List.cons_append],
      Reader.isBlank_of_isStart start, Numeral.ne_of_isStart start (by decide)⟩

theorem compactMember_opensApart (member : String × Value) :
    OpensApart compactMember '\x7d' member :=
  ⟨_, _, rfl, by decide⟩

theorem compactMember_prepends {member : String × Value} (value : Prepends compact member.2) :
    Prepends compactMember member := by
  intro rest
  simp only [compactMember, quoted]
  rw [value]
  simp

theorem compact_prepends (value : Value) : Prepends compact value := by
  induction value using Value.inductionOn with
  | null => exact fun _ => rfl
  | bool flag => cases flag <;> exact fun _ => rfl
  | number number => exact fun rest => by rw [compact, compact, List.append_nil]
  | string text => exact fun rest => by simp [compact, quoted]
  | array items each =>
    intro rest
    simp only [compact, compactItems_eq_joined]
    rw [joined_append each, joined_append each [']']]
    simp
  | object members each =>
    have eachMember : ∀ member ∈ members, Prepends compactMember member :=
      fun member belongs => compactMember_prepends (each member belongs)
    intro rest
    simp only [compact, compactMembers_eq_joined]
    rw [joined_append eachMember, joined_append eachMember ['\x7d']]
    simp

/-- A member takes more room than its value. -/
theorem length_le_compactMember (member : String × Value) :
    (compact member.2 []).length ≤ (compactMember member []).length := by
  simp only [compactMember, quoted, List.length_cons, List.length_append]
  omega

end Writer

namespace Value

mutual

/-- A value as it is read back: of the members of one name the last value is kept, in the place of
the first. -/
def reread : Value → Value
  | .array items => .array (rereadItems items)
  | .object members => .object (Entries.ofPairs (rereadMembers members))
  | plain => plain

/-- The items of an array as they are read back. -/
def rereadItems : List Value → List Value
  | [] => []
  | item :: items => item.reread :: rereadItems items

/-- The members of an object as they are read back, repeated names included. -/
def rereadMembers : List (String × Value) → List (String × Value)
  | [] => []
  | (name, value) :: members => (name, value.reread) :: rereadMembers members

end

theorem rereadItems_eq_map (items : List Value) : rereadItems items = items.map reread := by
  induction items with
  | nil => rfl
  | cons item items inductionHypothesis => rw [rereadItems, inductionHypothesis, List.map_cons]

theorem rereadMembers_eq_map (members : List (String × Value)) :
    rereadMembers members = members.map fun member => (member.1, member.2.reread) := by
  induction members with
  | nil => rfl
  | cons member members inductionHypothesis =>
    rw [rereadMembers, inductionHypothesis, List.map_cons]

end Value

namespace Reader

open Writer

theorem isClosing_bracket : IsClosing ']' := ⟨by decide, by decide, by decide⟩

theorem isClosing_brace : IsClosing '\x7d' := ⟨by decide, by decide, by decide⟩

theorem value_number (number : Number) (width depth : Nat) {rest : List Char} (ends : Ends rest) :
    value width depth (compact (.number number) rest) = some (.number number, rest) := by
  obtain ⟨numeral, scanned, read⟩ := number.scan?_text_append ends
  obtain ⟨char, others, opened, start⟩ := number.text_opens
  have skipped : skipBlanks (number.text ++ rest) = number.text ++ rest := by
    rw [opened, List.cons_append, skipBlanks_cons (isBlank_of_isStart start)]
  -- None of the other values starts like a numeral.
  have elsewhere {mark : Char} {tail : List Char} (notStart : Numeral.isStart mark = false)
      (equal : number.text ++ rest = mark :: tail) : False := by
    rw [opened, List.cons_append] at equal
    exact Numeral.ne_of_isStart start notStart (List.cons.inj equal).1
  rw [compact, value, skipped]
  split
  case h_7 => simp only [scanned, read, Option.map_some]
  all_goals
    rename_i equal
    exact (elsewhere (by decide) equal).elim

theorem member_readsBack {read : List Char → Option (Value × List Char)} {entry : String × Value}
    (value : ReadsBack read compact Value.reread entry.2) :
    ReadsBack (member read) compactMember (fun entry => (entry.1, entry.2.reread)) entry := by
  intro rest ends
  have quote : isBlank '"' = false := by decide
  have colon : isBlank ':' = false := by decide
  rw [compactMember, quoted, member, skipBlanks_cons quote]
  simp only [stringBody_flatMap_escape, skipBlanks_cons colon, value rest ends, Option.map_some,
    String.ofList_toList]

/-- Every value reads back, within bounds that its text meets. -/
theorem value_readsBack (written : Value) {width depth : Nat}
    (wide : (compact written []).length ≤ width) (deep : (compact written []).length ≤ depth) :
    ReadsBack (value width depth) compact Value.reread written := by
  intro rest ends
  induction written using Value.inductionOn generalizing depth rest with
  | null =>
    rw [value]
    rfl
  | bool flag =>
    rw [value]
    cases flag <;> rfl
  | number number => exact value_number number width depth ends
  | string text =>
    rw [compact, quoted, value, skipBlanks_cons (by decide)]
    simp only [stringBody_flatMap_escape, Option.map_some, String.ofList_toList, Value.reread]
  | array items each =>
    rw [compact, compactItems_eq_joined] at wide deep
    obtain ⟨inner, rfl, read⟩ := enclosed_reads isClosing_bracket
      (fun item _ => compact_prepends item) (fun item _ => compact_opensApart item) wide deep
      (fun item member inner fits nested => each item member fits nested) rest
    rw [compact, compactItems_eq_joined, value, skipBlanks_cons (by decide)]
    simp only [read, Option.map_some, Value.reread, Value.rereadItems_eq_map]
  | object members each =>
    rw [compact, compactMembers_eq_joined] at wide deep
    obtain ⟨inner, rfl, read⟩ := enclosed_reads isClosing_brace
      (fun entry _ => compactMember_prepends (compact_prepends entry.2))
      (fun entry _ => compactMember_opensApart entry) wide deep
      (fun entry belongs inner fits nested => member_readsBack (each entry belongs
        (Nat.le_trans (length_le_compactMember entry) fits)
        (Nat.le_trans (length_le_compactMember entry) nested))) rest
    rw [compact, compactMembers_eq_joined, value, skipBlanks_cons (by decide)]
    simp only [read, Option.map_some, Value.reread, Value.rereadMembers_eq_map]

end Reader

/-- Every value reads back from its text, an object with one member for each name. -/
theorem Value.ofText?_compactText (value : Value) :
    Value.ofText? value.compactText = some value.reread := by
  have length : value.compactText.length = (Writer.compact value []).length :=
    String.length_ofList
  rw [ofText?, length, compactText, String.toList_ofList,
    Reader.value_readsBack value (Nat.le_refl _) (Nat.le_refl _) [] Numeral.ends_nil]
  rfl

/-- A value whose objects repeat no name reads back as itself. -/
theorem Value.reread_of_unambiguous {value : Value} (unambiguous : value.Unambiguous) :
    value.reread = value := by
  induction unambiguous with
  | null => rfl
  | bool flag => rfl
  | number quantity => rfl
  | string text => rfl
  | array each inductionHypothesis =>
    rw [reread, rereadItems_eq_map, List.map_congr_left inductionHypothesis, List.map_id']
  | @object members distinct each inductionHypothesis =>
    have members : rereadMembers members = members := by
      rw [rereadMembers_eq_map]
      refine (List.map_congr_left fun member belongs => ?_).trans (List.map_id' members)
      rw [inductionHypothesis member belongs]
    rw [reread, members, Entries.ofPairs_of_nodup distinct]

end EstreeScopes.Json
