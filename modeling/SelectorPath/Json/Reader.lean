import SelectorPath.Json

/-! Reading JSON. Numbers are refused, since no value has one. The readers take fuel, of which a
value needs at most two for each character. -/

namespace SelectorPath.Json

/-- The character that a letter after a backslash stands for. -/
def unescape? : Char → Option Char
  | '"' => some '"'
  | '\\' => some '\\'
  | '/' => some '/'
  | 'b' => some '\x08'
  | 'f' => some '\x0c'
  | 'n' => some '\n'
  | 'r' => some '\r'
  | 't' => some '\t'
  | _ => none

def hexDigit? (c : Char) : Option Nat :=
  if c.isDigit then some (c.toNat - '0'.toNat)
  else if 'a' ≤ c ∧ c ≤ 'f' then some (c.toNat - 'a'.toNat + 10)
  else if 'A' ≤ c ∧ c ≤ 'F' then some (c.toNat - 'A'.toNat + 10)
  else none

/-- The number that hexadecimal digits write. -/
def hex? (digits : List Char) : Option Nat :=
  digits.foldlM (fun n c => (hexDigit? c).map (16 * n + ·)) 0

/-- The character of a number, if it is that of one. -/
def char? (n : Nat) : Option Char :=
  if h : n.isValidChar then some (Char.ofNatAux n h) else none

/-- The number that a pair of surrogates stands for. -/
def pair? (high low : Nat) : Option Nat :=
  if 0xd800 ≤ high ∧ high ≤ 0xdbff ∧ 0xdc00 ≤ low ∧ low ≤ 0xdfff then
    some (0x10000 + (high - 0xd800) * 0x400 + (low - 0xdc00))
  else none

/-- Reads a quoted text from after its opening mark. -/
def readText : List Char → Option (List Char × List Char)
  | [] => none
  | '"' :: rest => some ([], rest)
  | '\\' :: 'u' :: a :: b :: c :: d :: rest => do
    let unit ← hex? [a, b, c, d]
    match char? unit with
    | some char =>
      let (text, rest) ← readText rest
      return (char :: text, rest)
    | none =>
      match rest with
      | '\\' :: 'u' :: a :: b :: c :: d :: rest => do
        let char ← char? (← pair? unit (← hex? [a, b, c, d]))
        let (text, rest) ← readText rest
        return (char :: text, rest)
      | _ => none
  | '\\' :: c :: rest => do
    let char ← unescape? c
    let (text, rest) ← readText rest
    return (char :: text, rest)
  | c :: rest =>
    if c.toNat < 0x20 then none
    else do
      let (text, rest) ← readText rest
      return (c :: text, rest)

def skipBlanks (cs : List Char) : List Char :=
  cs.dropWhile Char.isWhitespace

mutual

/-- Reads a value at the start of a text without blanks before it. -/
def read (fuel : Nat) (cs : List Char) : Option (Json × List Char) :=
  match fuel with
  | 0 => none
  | fuel + 1 =>
    match cs with
    | 'n' :: 'u' :: 'l' :: 'l' :: rest => some (null, rest)
    | 't' :: 'r' :: 'u' :: 'e' :: rest => some (bool true, rest)
    | 'f' :: 'a' :: 'l' :: 's' :: 'e' :: rest => some (bool false, rest)
    | '"' :: rest => do
      let (text, rest) ← readText rest
      return (string (String.ofList text), rest)
    | '[' :: rest =>
      match skipBlanks rest with
      | ']' :: rest => some (array [], rest)
      | rest => do
        let (items, rest) ← readItems fuel rest
        return (array items, rest)
    | '\x7b' :: rest =>
      match skipBlanks rest with
      | '\x7d' :: rest => some (object [], rest)
      | rest => do
        let (fields, rest) ← readFields fuel rest
        return (object fields, rest)
    | _ => none

/-- Reads the items of an array up to its end. -/
def readItems (fuel : Nat) (cs : List Char) : Option (List Json × List Char) :=
  match fuel with
  | 0 => none
  | fuel + 1 => do
    let (item, rest) ← read fuel cs
    match skipBlanks rest with
    | ']' :: rest => return ([item], rest)
    | ',' :: rest =>
      let (items, rest) ← readItems fuel (skipBlanks rest)
      return (item :: items, rest)
    | _ => none

/-- Reads the fields of an object up to its end. -/
def readFields (fuel : Nat) (cs : List Char) : Option (List (String × Json) × List Char) :=
  match fuel, cs with
  | fuel + 1, '"' :: rest => do
    let (key, rest) ← readText rest
    match skipBlanks rest with
    | ':' :: rest =>
      let (value, rest) ← read fuel (skipBlanks rest)
      match skipBlanks rest with
      | '\x7d' :: rest => return ([(String.ofList key, value)], rest)
      | ',' :: rest =>
        let (fields, rest) ← readFields fuel (skipBlanks rest)
        return ((String.ofList key, value) :: fields, rest)
      | _ => none
    | _ => none
  | _, _ => none

end

/-- The value that a whole text writes. -/
def parse? (text : String) : Option Json := do
  let cs := skipBlanks text.toList
  match ← read (2 * cs.length + 1) cs with
  | (value, rest) => if skipBlanks rest = [] then return value else none

end SelectorPath.Json
