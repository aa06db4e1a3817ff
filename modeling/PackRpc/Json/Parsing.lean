import PackRpc.Json.Number
import PackRpc.OrderedMap

namespace PackRpc.Json

def isBlank (c : Char) : Bool := c == ' ' || c == '\n' || c == '\t' || c == '\r'

def skipBlanks (cs : List Char) : List Char := cs.dropWhile isBlank

def word : List Char → (result : Json) → Parser Json
  | [], result, cs => .ok (result, cs)
  | _ :: _, _, [] => .error .ended
  | w :: ws, result, c :: cs => if c = w then word ws result cs else .error .malformed

def hexDigit? (c : Char) : Option Nat :=
  if c.isDigit then some (digit c)
  else if 'a' ≤ c ∧ c ≤ 'f' then some (c.toNat - 'a'.toNat + 10)
  else if 'A' ≤ c ∧ c ≤ 'F' then some (c.toNat - 'A'.toNat + 10)
  else none

def hasBytes (count : Nat) (cs : List Char) : Bool :=
  count ≤ (String.ofList (cs.take count)).utf8ByteSize

def fourHex : Parser Nat := fun cs =>
  match cs with
  | a :: b :: c :: d :: rest =>
    match hexDigit? a, hexDigit? b, hexDigit? c, hexDigit? d with
    | some a, some b, some c, some d => .ok (((16 * a + b) * 16 + c) * 16 + d, rest)
    | _, _, _, _ => .error .malformed
  | cs => .error (if hasBytes 4 cs then .malformed else .ended)

def inString (c : Char) : List Char → Except JsonError (List Char)
  | [] => .error .ended
  | d :: rest => if d = c then .ok rest else .error .malformed

/-- Reads a character given by its UTF-16 units, after the letter that says so. -/
def unicodeEscape : Parser Char := fun cs => do
  let (unit, cs) ← fourHex cs
  if 0xdc00 ≤ unit ∧ unit ≤ 0xdfff then .error .malformed
  else if unit < 0xd800 ∨ 0xdbff < unit then .ok (Char.ofNat unit, cs)
  else
    let cs ← inString '\\' cs
    let cs ← inString 'u' cs
    let (low, cs) ← fourHex cs
    if low < 0xdc00 ∨ 0xdfff < low then .error .malformed
    else .ok (Char.ofNat (0x10000 + (unit - 0xd800) * 0x400 + (low - 0xdc00)), cs)

def escaped : Parser Char := fun cs =>
  match cs with
  | [] => .error .ended
  | '"' :: rest => .ok ('"', rest)
  | '\\' :: rest => .ok ('\\', rest)
  | '/' :: rest => .ok ('/', rest)
  | 'b' :: rest => .ok (Char.ofNat 8, rest)
  | 'f' :: rest => .ok (Char.ofNat 12, rest)
  | 'n' :: rest => .ok ('\n', rest)
  | 'r' :: rest => .ok ('\r', rest)
  | 't' :: rest => .ok ('\t', rest)
  | 'u' :: rest => unicodeEscape rest
  | _ => .error .malformed

/-- Reads a string after its opening quote, the characters already read standing in `done`, the last of
them first. The number of characters bounds the number of steps. -/
def stringOnto : (fuel : Nat) → List Char → Parser String
  | 0, _, _ => .error .ended
  | fuel + 1, done, cs =>
    match cs with
    | [] => .error .ended
    | '"' :: rest => .ok (.ofList done.reverse, rest)
    | '\\' :: rest =>
      match escaped rest with
      | .error e => .error e
      | .ok (c, rest) => stringOnto fuel (c :: done) rest
    | c :: rest => if c.toNat < 0x20 then .error .malformed else stringOnto fuel (c :: done) rest

def stringBody : Parser String := fun cs => stringOnto (cs.length + 1) [] cs

def scalar : Parser Json := fun cs =>
  match cs with
  | 'n' :: rest => word ['u', 'l', 'l'] .null rest
  | 't' :: rest => word ['r', 'u', 'e'] (.bool true) rest
  | 'f' :: rest => word ['a', 'l', 's', 'e'] (.bool false) rest
  | '-' :: rest => number true rest
  | '"' :: rest => (stringBody rest).map fun r => (.string r.1, r.2)
  | c :: _ => if c.isDigit then number false cs else .error .malformed
  | [] => .error .ended

/-- Goes on to the next item of a container: it stands after a comma, the first one at once. There is
none before the closing character. -/
def nextItem (close : Char) (first : Bool) (cs : List Char) : Except JsonError (Option (List Char)) :=
  match skipBlanks cs with
  | [] => .error .ended
  | c :: rest =>
    if c = close then .ok none
    else if first then .ok (some (c :: rest))
    else if c ≠ ',' then .error .malformed
    else
      match skipBlanks rest with
      | [] => .error .ended
      | d :: rest => if d = close then .error .malformed else .ok (some (d :: rest))

def itemsOnto (value : Parser Json) : (fuel : Nat) → List Json → Parser (List Json)
  | 0, _, _ => .error .ended
  | fuel + 1, done, cs =>
    match nextItem ']' done.isEmpty cs with
    | .error e => .error e
    | .ok none => .ok (done.reverse, skipBlanks cs)
    | .ok (some cs) =>
      match value cs with
      | .error e => .error e
      | .ok (v, cs) => itemsOnto value fuel (v :: done) cs

def memberName : Parser String := fun cs =>
  match cs with
  | '"' :: rest => stringBody rest
  | _ => .error .malformed

def colon (cs : List Char) : Except JsonError (List Char) :=
  match skipBlanks cs with
  | [] => .error .ended
  | c :: rest => if c = ':' then .ok rest else .error .malformed

def membersOnto (value : Parser Json) :
    (fuel : Nat) → List (String × Json) → Parser (List (String × Json))
  | 0, _, _ => .error .ended
  | fuel + 1, done, cs =>
    match nextItem '}' done.isEmpty cs with
    | .error e => .error e
    | .ok none => .ok (done.reverse, skipBlanks cs)
    | .ok (some cs) => do
      let (name, cs) ← memberName cs
      let cs ← colon cs
      let (v, cs) ← value cs
      membersOnto value fuel ((name, v) :: done) cs

/-- Reads a value whose items are read with `inner`, which is absent where nesting has to end. -/
def valueWith (inner : Option (Parser Json)) : Parser Json := fun cs =>
  match skipBlanks cs with
  | '[' :: rest =>
    match inner with
    | none => .error .malformed
    | some value => (itemsOnto value (rest.length + 1) [] rest).map fun r => (.array r.1, r.2.drop 1)
  | '{' :: rest =>
    match inner with
    | none => .error .malformed
    | some value =>
      (membersOnto value (rest.length + 1) [] rest).map fun r =>
        (.object (OrderedMap.ofList r.1).entries, r.2.drop 1)
  | cs => scalar cs

def valueAt : (levels : Nat) → Parser Json
  | 0 => valueWith none
  | levels + 1 => valueWith (some (valueAt levels))

def maxDepth : Nat := 127

def parse (text : String) : Except JsonError Json :=
  match valueAt maxDepth text.toList with
  | .error e => .error e
  | .ok (v, rest) =>
    match skipBlanks rest with
    | [] => .ok v
    | _ => .error .malformed

end PackRpc.Json
