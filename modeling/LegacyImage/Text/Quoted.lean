import LegacyImage.Text.Printable

/-!
Quoted texts, as messages show them. The quote is the single one, unless the text holds single
quotes and no double ones. The quote in use and the backslash get a backslash, three controls have
a letter, and every other code point that is not printable is written in hexadecimal, with as many
digits as its size asks for.
-/

namespace LegacyImage.Text

/-- The quote that needs the fewest escapes, in favour of the single one. -/
def quoteFor (t : Text) : CodePoint :=
  if (↑ '\'' : CodePoint) ∈ t ∧ (↑ '"' : CodePoint) ∉ t then ↑ '"' else ↑ '\''

def quoteOne (quote c : CodePoint) : Text :=
  if c = quote ∨ c = ↑ '\\' then [↑ '\\', c]
  else if c = ↑ '\n' then ofChars ['\\', 'n']
  else if c = ↑ '\r' then ofChars ['\\', 'r']
  else if c = ↑ '\t' then ofChars ['\\', 't']
  else if c.isPrintable then [c]
  else if c.val < 0x100 then ofChars ['\\', 'x'] ++ ofHexFixed 2 c.val
  else if c.val < 0x10000 then ofChars ['\\', 'u'] ++ ofHexFixed 4 c.val
  else ofChars ['\\', 'U'] ++ ofHexFixed 8 c.val

def quoted (t : Text) : Text :=
  let quote := quoteFor t
  quote :: t.flatMap (quoteOne quote) ++ [quote]

/-- A byte string between quotes, after a letter `b`: only printable ASCII stands for itself. -/
def quotedBytes (bs : Bytes) : Text :=
  let t : Text := bs.map fun b => ⟨b.toNat, Nat.lt_of_lt_of_le b.toNat_lt (by decide)⟩
  let quote := quoteFor t
  let one (c : CodePoint) : Text :=
    if c.val < 0x7F then quoteOne quote c else ofChars ['\\', 'x'] ++ ofHexFixed 2 c.val
  ↑ 'b' :: quote :: t.flatMap one ++ [quote]

end LegacyImage.Text
