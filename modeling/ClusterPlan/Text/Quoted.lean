/-!
# Text between double quotes

`encode` escapes what may not stand between the quotes of a JSON text, and `decode` reads escapes back. `isQuotable` is the
form of a text that may stand between quotes whether or not anybody reads it: half of a surrogate pair is quotable but stands
for no character.
-/

namespace ClusterPlan.Text.Quoted

/-- A hexadecimal digit in lower case. -/
def hexDigit (n : Nat) : Char :=
  if n < 10 then Char.ofNat ('0'.toNat + n) else Char.ofNat ('a'.toNat + (n - 10))

/-- The value of a hexadecimal digit. -/
def hexValue? (c : Char) : Option Nat :=
  if c.isDigit then some (c.toNat - '0'.toNat)
  else if 'a' ≤ c ∧ c ≤ 'f' then some (c.toNat - 'a'.toNat + 10)
  else if 'A' ≤ c ∧ c ≤ 'F' then some (c.toNat - 'A'.toNat + 10)
  else none

/-- The code unit that four hexadecimal digits name. -/
def unit? (a b c d : Char) : Option Nat :=
  match hexValue? a, hexValue? b, hexValue? c, hexValue? d with
  | some a, some b, some c, some d => some (4096 * a + 256 * b + 16 * c + d)
  | _, _, _, _ => none

/-- The letter of an escape, for the characters that have one. -/
def escapeLetter? (c : Char) : Option Char :=
  match c.toNat with
  | 0x22 => some c
  | 0x5C => some c
  | 0x08 => some 'b'
  | 0x09 => some 't'
  | 0x0A => some 'n'
  | 0x0C => some 'f'
  | 0x0D => some 'r'
  | _ => none

/-- The character that the letter of an escape stands for. -/
def ofEscapeLetter? (c : Char) : Option Char :=
  match c with
  | '\x22' => some c
  | '\\' => some c
  | '/' => some c
  | 'b' => some '\x08'
  | 't' => some '\t'
  | 'n' => some '\n'
  | 'f' => some '\x0c'
  | 'r' => some '\r'
  | _ => none

/-- The escaped form of one character. -/
def encodeChar (c : Char) : List Char :=
  match escapeLetter? c with
  | some letter => ['\\', letter]
  | none =>
    if c.toNat < 0x20 then ['\\', 'u', '0', '0', hexDigit (c.toNat / 16), hexDigit (c.toNat % 16)]
    else [c]

/-- Escapes the quote, the backslash and the control characters. -/
def encode (cs : List Char) : List Char := cs.flatMap encodeChar

def isHighHalf (n : Nat) : Bool := 0xD800 ≤ n && n < 0xDC00

def isLowHalf (n : Nat) : Bool := 0xDC00 ≤ n && n < 0xE000

/-- Reads the escapes of a text. Two escaped halves of a surrogate pair are one character; a half alone is none. -/
def decode : List Char → Option (List Char)
  | [] => some []
  | '\\' :: 'u' :: a :: b :: c :: d :: '\\' :: 'u' :: e :: f :: g :: h :: rest =>
    match unit? a b c d with
    | none => none
    | some unit =>
      if isHighHalf unit then
        match unit? e f g h with
        | some low =>
          if isLowHalf low then
            (decode rest).map (Char.ofNat (0x10000 + (unit - 0xD800) * 0x400 + (low - 0xDC00)) :: ·)
          else none
        | none => none
      else if isLowHalf unit then none
      else (decode ('\\' :: 'u' :: e :: f :: g :: h :: rest)).map (Char.ofNat unit :: ·)
  | '\\' :: 'u' :: a :: b :: c :: d :: rest =>
    match unit? a b c d with
    | some unit => if isHighHalf unit || isLowHalf unit then none else (decode rest).map (Char.ofNat unit :: ·)
    | none => none
  | '\\' :: letter :: rest =>
    match ofEscapeLetter? letter with
    | some c => (decode rest).map (c :: ·)
    | none => none
  | c :: rest => if c = '\\' ∨ c = '\x22' ∨ c.toNat < 0x20 then none else (decode rest).map (c :: ·)

/-- May the text stand between quotes? Escapes are complete and there are no control characters and no bare quotes. -/
def isQuotable : List Char → Bool
  | [] => true
  | '\\' :: 'u' :: a :: b :: c :: d :: rest => (unit? a b c d).isSome && isQuotable rest
  | '\\' :: letter :: rest => (ofEscapeLetter? letter).isSome && isQuotable rest
  | c :: rest => c != '\\' && c != '\x22' && decide (0x20 ≤ c.toNat) && isQuotable rest

/-- Cuts a text at the quote that ends it: what stands before, and what follows the quote. -/
def cut : List Char → Option (List Char × List Char)
  | [] => none
  | '\x22' :: rest => some ([], rest)
  | '\\' :: c :: rest => (cut rest).map fun (before, after) => ('\\' :: c :: before, after)
  | c :: rest => (cut rest).map fun (before, after) => (c :: before, after)

end ClusterPlan.Text.Quoted
