import ScriptHost.Text.Utf8

/-!
# NUL-terminated text

Strings that cross into a machine as terminated buffers cannot hold a NUL.  Depending on the
direction the first NUL ends the text (`cut`), the NULs are left out (`strip`), or the text is
refused with the position of the first one (`firstNul?`).
-/

namespace ScriptHost.Text

/-- The bytes in front of the first NUL. -/
def cut (bytes : List UInt8) : List UInt8 := bytes.takeWhile (· != 0)

/-- The text a reader of the terminated buffer sees: up to the first NUL, decoded lossily. -/
def readTerminated (bytes : List UInt8) : String := Utf8.decodeLossy (cut bytes)

/-- A text as a reader of its terminated buffer sees it. -/
def cutText (s : String) : String := String.ofList (s.toList.takeWhile (· != '\x00'))

/-- A text without its NULs. -/
def strip (s : String) : String := String.ofList (s.toList.filter (· != '\x00'))

/-- The number of bytes in front of the first NUL, if there is one. -/
def firstNul? (s : String) : Option Nat := (Utf8.encode s).findIdx? (· == 0)

end ScriptHost.Text
