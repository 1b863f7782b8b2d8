/-
This file relates texts and their bytes. Not every list of bytes is that of a text.
Where such bytes are shown all the same, a replacement character stands for every
stretch of them that belongs to no character: the start of a character that does
not go on as it must, or a byte that begins none.
-/

namespace EstreeScopes.Text

/-- The bytes of a text. -/
def bytes (text : String) : List UInt8 := text.toUTF8.data.toList

/-- The text that has these bytes, if they are those of a text. -/
def ofBytes? (bytes : List UInt8) : Option String := String.fromUTF8? { data := bytes.toArray }

@[simp]
theorem ofBytes?_bytes (text : String) : ofBytes? (bytes text) = some text := by
  show String.fromUTF8? text.toByteArray = some text
  rw [String.fromUTF8?, dif_pos text.isValidUTF8]
  rfl

/-! ### Bytes that are no text -/

/-- A character that was begun: how many bytes it still needs, the bounds of the next one, and the
code so far. -/
structure Begun where
  missing : Nat
  low : UInt8
  high : UInt8
  code : Nat

/-- What a byte begins. Some first bytes have narrower bounds for the second, so that no character
has two forms and no form is beyond the characters. -/
def begun? (byte : UInt8) : Option Begun :=
  let low := if byte = 0xe0 then 0xa0 else if byte = 0xf0 then 0x90 else 0x80
  let high := if byte = 0xed then 0x9f else if byte = 0xf4 then 0x8f else 0xbf
  if byte < 0x80 then some { missing := 0, low, high, code := byte.toNat }
  else if byte < 0xc2 then none
  else if byte < 0xe0 then some { missing := 1, low, high, code := byte.toNat % 0x20 }
  else if byte < 0xf0 then some { missing := 2, low, high, code := byte.toNat % 0x10 }
  else if byte < 0xf5 then some { missing := 3, low, high, code := byte.toNat % 0x08 }
  else none

/-- What stands for bytes that belong to no character. -/
def replacement : Char := '\uFFFD'

/-- What is shown for a byte behind whole characters, and the character that is begun then. -/
def start (byte : UInt8) : List Char × Option Begun :=
  match begun? byte with
  | none => ([replacement], none)
  | some begun => if begun.missing = 0 then ([Char.ofNat begun.code], none) else ([], some begun)

/-- What is shown for a byte, and the character that is begun then. -/
def goOn (begun : Option Begun) (byte : UInt8) : List Char × Option Begun :=
  match begun with
  | none => start byte
  | some begun =>
    if begun.low ≤ byte ∧ byte ≤ begun.high then
      let code := begun.code * 0x40 + byte.toNat % 0x40
      if begun.missing = 1 then ([Char.ofNat code], none)
      else ([], some { missing := begun.missing - 1, low := 0x80, high := 0xbf, code })
    else
      let (shown, next) := start byte
      (replacement :: shown, next)

/-- The characters that are shown for bytes, behind what was begun before them. -/
def repaired : Option Begun → List UInt8 → List Char
  | none, [] => []
  | some _, [] => [replacement]
  | begun, byte :: rest =>
    let (shown, next) := goOn begun byte
    shown ++ repaired next rest

/-- The text that is shown for bytes: theirs, if they are those of a text. -/
def shown (bytes : List UInt8) : String :=
  (ofBytes? bytes).getD (String.ofList (repaired none bytes))

end EstreeScopes.Text
