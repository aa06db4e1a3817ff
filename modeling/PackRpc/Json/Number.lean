import PackRpc.Json.Basic
import PackRpc.Binary.Arithmetic
/-!
# Numbers in JSON texts

An integer within 64 bits is kept as it is; every other number becomes a float. Its digits are gathered
in a word for as long as they fit, and the float is the word scaled by a power of ten, with a rounding at
every step. A number too large for a float is refused.
-/
namespace PackRpc

inductive JsonError where
  /-- Something stands where it cannot. -/
  | malformed
  /-- The text ends too early. -/
  | ended
  deriving DecidableEq

def JsonError.message : JsonError → String
  | malformed => "malformed JSON"
  | ended => "the text ends too early"

namespace Json

abbrev Parser (α : Type) := List Char → Except JsonError (α × List Char)

def digit (c : Char) : Nat := c.toNat - '0'.toNat

/-- The greatest number that the digits of a word are gathered to. -/
def greatestWord : Nat := 2 ^ 64 - 1

/-- Gathers digits in a word while they fit. Gives the word, how many digits were taken and what
follows them: a digit only if it did not fit. -/
def gather (word count : Nat) : List Char → Nat × Nat × List Char
  | [] => (word, count, [])
  | c :: cs =>
    if c.isDigit ∧ 10 * word + digit c ≤ greatestWord then
      gather (10 * word + digit c) (count + 1) cs
    else (word, count, c :: cs)

def powerOfTen (k : Nat) : Binary64 := Binary64.ofRatio false (10 ^ k) 1

/-- Scales by a power of ten. A large negative exponent takes several steps; their number is bounded,
since each takes 308 off and a float is zero after two. -/
def scale (x : Binary64) (exponent : Int) : (steps : Nat) → Option Binary64
  | 0 => some (.zero false)
  | steps + 1 =>
    if exponent.natAbs ≤ 308 then
      if 0 ≤ exponent then
        let y := x.mul (powerOfTen exponent.natAbs)
        if y.classify = .infinite false then none else some y
      else some (x.div (powerOfTen exponent.natAbs))
    else if x = .zero false then some x
    else if 0 ≤ exponent then none
    else scale (x.div (powerOfTen 308)) (exponent + 308) steps

def scaled (negative : Bool) (word : Nat) (exponent : Int) : Except JsonError Binary64 :=
  match scale (.ofInt word) exponent 5 with
  | some x => .ok (if negative then x.mul (.ofInt (-1)) else x)
  | none => .error .malformed

def greatestExponent : Nat := 2 ^ 31 - 1

/-- Gathers the digits of an exponent; none when there are too many. -/
def gatherExponent (exponent : Nat) : List Char → Option Nat × List Char
  | [] => (some exponent, [])
  | c :: cs =>
    if c.isDigit then
      if 10 * exponent + digit c ≤ greatestExponent then
        gatherExponent (10 * exponent + digit c) cs
      else (none, c :: cs)
    else (some exponent, c :: cs)

/-- Reads the digits of an exponent. With too many of them the number is zero or refused. -/
def exponentDigits (negative down : Bool) (word : Nat) (shift : Int) : Parser Binary64
  | [] => .error .ended
  | c :: cs =>
    if !c.isDigit then .error .malformed
    else
      match gatherExponent (digit c) cs with
      | (some e, rest) =>
        (scaled negative word (if down then shift - e else shift + e)).map (·, rest)
      | (none, rest) =>
        if word ≠ 0 ∧ !down then .error .malformed
        else .ok (.zero negative, rest.dropWhile Char.isDigit)

def exponentPart (negative : Bool) (word : Nat) (shift : Int) : Parser Binary64
  | '+' :: cs => exponentDigits negative false word shift cs
  | '-' :: cs => exponentDigits negative true word shift cs
  | cs => exponentDigits negative false word shift cs

def finish (negative : Bool) (word : Nat) (shift : Int) : Parser Binary64 := fun cs =>
  match cs with
  | 'e' :: rest | 'E' :: rest => exponentPart negative word shift rest
  | cs => (scaled negative word shift).map (·, cs)

/-- Reads what follows a decimal point. Digits that the word has no room for are dropped. -/
def fractionPart (negative : Bool) (word : Nat) (shift : Int) : Parser Binary64 := fun cs =>
  let (word, count, rest) := gather word 0 cs
  match rest with
  | c :: _ =>
    if c.isDigit then finish negative word (shift - count) (rest.dropWhile Char.isDigit)
    else if count = 0 then .error .malformed
    else finish negative word (shift - count) rest
  | [] => if count = 0 then .error .ended else finish negative word (shift - count) []

/-- Reads the rest of a number whose whole part is `word * 10 ^ shift`. -/
def afterWhole (negative : Bool) (word : Nat) (shift : Int) : Parser Binary64 := fun cs =>
  match cs with
  | '.' :: rest => fractionPart negative word shift rest
  | cs => finish negative word shift cs

/-- A whole number, as an integer if it fits in 64 bits; there is no negative zero among those. -/
def whole (negative : Bool) (word : Nat) : Json :=
  if h : word < 2 ^ 64 ∧ negative = false then
    .int ⟨word, by omega, by omega⟩
  else if h : word ≤ 2 ^ 63 ∧ 0 < word then
    .int ⟨-(word : Int), by omega, by omega⟩
  else .float ((Binary64.ofInt word).mul (.ofInt (-1)))

def afterDigits (negative zero : Bool) (word : Nat) : Parser Json := fun cs =>
  match cs with
  | [] => .ok (whole negative word, [])
  | c :: _ =>
    if c.isDigit then
      -- A number starts with a zero only if that is all of its whole part.
      if zero then .error .malformed
      else
        let extra := cs.takeWhile Char.isDigit
        (afterWhole negative word extra.length (cs.drop extra.length)).map fun r => (.float r.1, r.2)
    else if c = '.' ∨ c = 'e' ∨ c = 'E' then
      (afterWhole negative word 0 cs).map fun r => (.float r.1, r.2)
    else .ok (whole negative word, cs)

def number (negative : Bool) : Parser Json
  | [] => .error .ended
  | c :: cs =>
    if !c.isDigit then .error .malformed
    else if c = '0' then afterDigits negative true 0 cs
    else
      let (word, _, rest) := gather (digit c) 0 cs
      afterDigits negative false word rest

end Json

end PackRpc
