/-
This file gives the names that paths are made of. A name is a list of bytes; texts
are written for names, but a name need not be the bytes of a text.
-/

import EstreeScopes.Text.Encoding

namespace EstreeScopes

/-- A name, or what stands in place of one in a path. -/
structure FileName where
  bytes : List UInt8
deriving DecidableEq

namespace FileName

/-- The name that a text writes. -/
def ofText (text : String) : FileName := { bytes := Text.bytes text }

/-- The name without bytes, which stands in place of a name only. -/
def empty : FileName := { bytes := [] }

instance : Coe String FileName where
  coe := ofText

/-- The text of a name, if it has one. -/
def text? (name : FileName) : Option String := Text.ofBytes? name.bytes

/-- The text that is shown for a name. -/
def shown (name : FileName) : String := Text.shown name.bytes

@[simp]
theorem text?_ofText (text : String) : (ofText text).text? = some text := Text.ofBytes?_bytes text

@[simp]
theorem shown_ofText (text : String) : (ofText text).shown = text := by
  rw [shown, Text.shown]
  show ((ofText text).text?).getD _ = text
  rw [text?_ofText, Option.getD_some]

@[simp]
theorem shown_empty : empty.shown = "" := shown_ofText ""

/-- The byte of a point. -/
def point : UInt8 := 0x2e

/-- What stands behind the last point of a name; a point that opens the name does not count. -/
def extension? (name : FileName) : Option FileName :=
  let reversed := name.bytes.reverse
  match reversed.dropWhile (· != point) with
  | _ :: _ :: _ => some { bytes := (reversed.takeWhile (· != point)).reverse }
  | _ => none

end FileName

end EstreeScopes
