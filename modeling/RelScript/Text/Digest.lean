/-!
A 64-bit digest of text: the bytes of the text are absorbed one after another.
-/

namespace RelScript.Text

/-- The digest of no text. -/
def emptyDigest : UInt64 := 0xcbf29ce484222325

/-- The digest after one more byte. -/
def absorb (digest : UInt64) (b : UInt8) : UInt64 := (digest ^^^ b.toUInt64) * 0x100000001b3

/-- The digest of a text. -/
def digest (text : String) : UInt64 := text.toUTF8.toList.foldl absorb emptyDigest

end RelScript.Text
