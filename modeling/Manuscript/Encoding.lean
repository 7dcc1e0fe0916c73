import Manuscript.Encoding.CodePage
import Manuscript.Text.Quoted
/-!
# Character encodings

An encoding writes a text character by character, after an optional mark that names its byte order. Some
encodings have no bytes for some characters; the refusal of a text reports its first run of them.
-/
namespace Manuscript

/-- The supported encodings. The ones with a mark are little-endian. -/
inductive Encoding
  | utf8 | utf8Marked | ascii | latin1 | codePage
  | utf16Marked | utf16Little | utf16Big
  | utf32Marked | utf32Little | utf32Big
  deriving DecidableEq, Repr

/-- A refused text: the first run of characters without bytes, by its first character, its position and
its length. -/
structure Refusal where
  encoding : Encoding
  character : Char
  position : Nat
  length : Nat
  deriving DecidableEq, Repr

namespace Encoding

def byte (n : Nat) : UInt8 := UInt8.ofNat n

def utf8Bytes (n : Nat) : List UInt8 :=
  if n < 0x80 then [byte n]
  else if n < 0x800 then [byte (0xc0 + n / 0x40), byte (0x80 + n % 0x40)]
  else if n < 0x10000 then
    [byte (0xe0 + n / 0x1000), byte (0x80 + n / 0x40 % 0x40), byte (0x80 + n % 0x40)]
  else
    [byte (0xf0 + n / 0x40000), byte (0x80 + n / 0x1000 % 0x40), byte (0x80 + n / 0x40 % 0x40),
      byte (0x80 + n % 0x40)]

/-- The 16-bit units of a code point: one, or a pair of surrogates. -/
def units (n : Nat) : List Nat :=
  if n < 0x10000 then [n] else [0xd800 + (n - 0x10000) / 0x400, 0xdc00 + (n - 0x10000) % 0x400]

def littlePair (n : Nat) : List UInt8 := [byte (n % 0x100), byte (n / 0x100)]

def bigPair (n : Nat) : List UInt8 := [byte (n / 0x100), byte (n % 0x100)]

def littleWord (n : Nat) : List UInt8 := littlePair (n % 0x10000) ++ littlePair (n / 0x10000)

def bigWord (n : Nat) : List UInt8 := bigPair (n / 0x10000) ++ bigPair (n % 0x10000)

/-- The bytes of one character. -/
def charBytes? (e : Encoding) (c : Char) : Option (List UInt8) :=
  let n := c.toNat
  match e with
  | utf8 | utf8Marked => some (utf8Bytes n)
  | ascii => if n < 0x80 then some [byte n] else none
  | latin1 => if n < 0x100 then some [byte n] else none
  | codePage => (codePageByte? n).map ([·])
  | utf16Marked | utf16Little => some ((units n).flatMap littlePair)
  | utf16Big => some ((units n).flatMap bigPair)
  | utf32Marked | utf32Little => some (littleWord n)
  | utf32Big => some (bigWord n)

/-- The mark that comes before everything else. -/
def mark : Encoding → List UInt8
  | utf8Marked => [0xef, 0xbb, 0xbf]
  | utf16Marked => [0xff, 0xfe]
  | utf32Marked => [0xff, 0xfe, 0, 0]
  | _ => []

/-- The name of the function that turns a piece into bytes. The ones that put a mark before the first piece
leave the others to another. -/
def writerName (e : Encoding) (started : Bool) : String :=
  match e with
  | utf8 | utf8Marked => "utf_8_encode"
  | ascii => "ascii_encode"
  | latin1 => "latin_1_encode"
  | codePage => "charmap_encode"
  | utf16Marked => if started then "utf_16_le_encode" else "utf_16_encode"
  | utf16Little => "utf_16_le_encode"
  | utf16Big => "utf_16_be_encode"
  | utf32Marked => if started then "utf_32_le_encode" else "utf_32_encode"
  | utf32Little => "utf_32_le_encode"
  | utf32Big => "utf_32_be_encode"

def represents (e : Encoding) (c : Char) : Bool := (e.charBytes? c).isSome

/-- The first run of characters that the encoding does not represent, from position `position` on. -/
def refusal? (e : Encoding) (position : Nat) : List Char → Option Refusal
  | [] => none
  | c :: cs =>
    if e.represents c then refusal? e (position + 1) cs
    else some ⟨e, c, position, ((c :: cs).takeWhile fun d => !e.represents d).length⟩

/-- The bytes of a piece of text, without a mark. -/
def body (e : Encoding) (text : String) : Except Refusal (List UInt8) :=
  match e.refusal? 0 text.toList with
  | some r => .error r
  | none => .ok (text.toList.flatMap fun c => (e.charBytes? c).getD [])

/-- The bytes of a whole text, mark included. -/
def encode (e : Encoding) (text : String) : Except Refusal (List UInt8) :=
  (e.body text).map (e.mark ++ ·)

theorem refusal?_eq_none_iff (e : Encoding) (n : Nat) (cs : List Char) :
    e.refusal? n cs = none ↔ ∀ c ∈ cs, e.represents c = true := by
  induction cs generalizing n with
  | nil => simp [refusal?]
  | cons c cs ih =>
    rw [List.forall_mem_cons, refusal?]
    by_cases h : e.represents c <;> simp [h, ih]

theorem body_eq_ok_iff (e : Encoding) (text : String) (bytes : List UInt8) :
    e.body text = .ok bytes ↔ (∀ c ∈ text.toList, e.represents c = true) ∧
      bytes = text.toList.flatMap fun c => (e.charBytes? c).getD [] := by
  rw [← e.refusal?_eq_none_iff 0, body]
  cases e.refusal? 0 text.toList <;> simp [eq_comm]

/-- Encoding works piece by piece. -/
theorem body_append {e : Encoding} {s t : String} {xs ys : List UInt8} (hs : e.body s = .ok xs)
    (ht : e.body t = .ok ys) : e.body (s ++ t) = .ok (xs ++ ys) := by
  rw [body_eq_ok_iff] at *
  obtain ⟨hs, rfl⟩ := hs
  obtain ⟨ht, rfl⟩ := ht
  refine ⟨fun c hc => ?_, by simp⟩
  rw [String.toList_append, List.mem_append] at hc
  exact hc.elim (hs c) (ht c)

end Encoding

namespace Refusal

/-- The name by which an encoding reports a refusal. -/
def label : Encoding → String
  | .ascii => "ascii"
  | .latin1 => "latin-1"
  | .codePage => "charmap"
  | .utf8 | .utf8Marked => "utf-8"
  | .utf16Marked | .utf16Little | .utf16Big => "utf-16"
  | .utf32Marked | .utf32Little | .utf32Big => "utf-32"

def reason : Encoding → String
  | .ascii => "ordinal not in range(128)"
  | .latin1 => "ordinal not in range(256)"
  | _ => "character maps to <undefined>"

def message (r : Refusal) : String :=
  "'" ++ label r.encoding ++ "' codec can't encode " ++
    (if r.length ≤ 1 then
      "character '" ++ String.ofList (Text.numberedForm r.character.toNat) ++ "' in position " ++
        toString r.position
    else
      "characters in position " ++ toString r.position ++ "-" ++
        toString (r.position + r.length - 1)) ++
    ": " ++ reason r.encoding

end Refusal

end Manuscript
