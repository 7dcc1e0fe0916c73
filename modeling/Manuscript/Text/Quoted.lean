import Manuscript.Text.Printable
/-!
# Quoted text

How a text or a byte string is shown inside a message: between quotes, with a backslash before whatever
cannot stand there as itself. Single quotes are used unless the text holds a single quote and no double
quote.
-/
namespace Manuscript.Text

/-- A digit of base sixteen, in lower case. -/
def hexDigit (n : Nat) : Char :=
  if n % 16 < 10 then Char.ofNat (48 + n % 16) else Char.ofNat (87 + n % 16)

/-- The last `width` digits of `n` in base sixteen. -/
def hexDigits : Nat → Nat → List Char
  | 0, _ => []
  | width + 1, n => hexDigits width (n / 16) ++ [hexDigit n]

/-- A code point by its number, with as few digits as the three forms allow. -/
def numberedForm (n : Nat) : List Char :=
  if n < 0x100 then '\\' :: 'x' :: hexDigits 2 n
  else if n < 0x10000 then '\\' :: 'u' :: hexDigits 4 n
  else '\\' :: 'U' :: hexDigits 8 n

/-- The forms that a quoted text and a quoted byte string share. -/
def quotedForm (quote : Char) (printable : Char → Bool) (c : Char) : List Char :=
  if c = quote ∨ c = '\\' then ['\\', c]
  else if c = '\n' then ['\\', 'n']
  else if c = '\r' then ['\\', 'r']
  else if c = '\t' then ['\\', 't']
  else if printable c then [c]
  else numberedForm c.toNat

def quoteFor (cs : List Char) : Char :=
  if '\'' ∈ cs ∧ '"' ∉ cs then '"' else '\''

def quotedChars (printable : Char → Bool) (cs : List Char) : List Char :=
  let quote := quoteFor cs
  quote :: cs.flatMap (quotedForm quote printable) ++ [quote]

def quoted (text : String) : String := String.ofList (quotedChars isPrintable text.toList)

/-- Bytes are quoted after a `b`; those outside printable ASCII are shown by number. -/
def quotedBytes (bytes : List UInt8) : String :=
  String.ofList ('b' :: quotedChars (fun c => 0x20 ≤ c.toNat && c.toNat < 0x7f)
    (bytes.map fun b => Char.ofNat b.toNat))

end Manuscript.Text
