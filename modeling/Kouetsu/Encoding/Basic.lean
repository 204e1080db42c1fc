import Kouetsu.Encoding.Utf16
import Kouetsu.Encoding.Windows31J
/-!
# Encodings

How the bytes of a file become a text.  UTF-8 is tried first, then UTF-16 where the file
starts with a byte order mark, then Windows-31J.
-/

namespace Kouetsu

def decodeUtf8? (bytes : ByteArray) : Option Text := bytes.utf8Decode?.map (·.toList)

/-- Decodes UTF-16 by its byte order mark, or else with the mark as a character, in either
byte order. -/
def decodeUtf16? (bytes : List UInt8) : Option Text := do
  let order ← Utf16.order? bytes
  Utf16.decode? order (bytes.drop 2) <|> Utf16.decode? .little bytes <|>
    Utf16.decode? .big bytes

/-- The text of a file without byte order marks at its start. -/
def decodeBytes? (bytes : ByteArray) : Option Text :=
  let raw := bytes.data.toList
  (decodeUtf8? bytes <|> decodeUtf16? raw <|> Windows31J.decode? raw).map
    (·.dropWhile (· = '\ufeff'))

/-- Bytes that seldom stand in a text: control characters other than the tab, the two line
ends and the delete character. -/
def isControlByte (b : UInt8) : Bool := b ≤ 8 || b = 11 || b = 12 || (14 ≤ b && b ≤ 31)

def looksLikeText (bytes : ByteArray) : Bool :=
  bytes.isEmpty || 10 * (bytes.data.toList.countP isControlByte) < 3 * bytes.size

def readableText? (bytes : ByteArray) : Option Text :=
  if looksLikeText bytes then decodeBytes? bytes else none

end Kouetsu
