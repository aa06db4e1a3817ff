import PackRpc.Binary.Arithmetic
import PackRpc.Text.Integer
import PackRpc.Text.WhiteSpace

namespace PackRpc

def nanosPerSecond : Nat := 1000000000

structure Duration where
  nanos : Nat
  lt : nanos < 2 ^ 64 * nanosPerSecond := by decide
  deriving DecidableEq

namespace Duration

def zero : Duration := ⟨0, by decide⟩

instance : Inhabited Duration := ⟨zero⟩

def isZero (d : Duration) : Bool := d.nanos == 0

/-- The duration of so many nanoseconds, if there is one. -/
def ofNanos? (n : Nat) : Option Duration :=
  if h : n < 2 ^ 64 * nanosPerSecond then some ⟨n, h⟩ else none

def ofSeconds (n : UInt64) : Duration :=
  ⟨n.toNat * nanosPerSecond, Nat.mul_lt_mul_of_pos_right n.toNat_lt (by decide)⟩

def ofMillis (n : UInt64) : Duration :=
  ⟨n.toNat * 1000000, by
    have := n.toNat_lt
    simp only [nanosPerSecond]
    omega⟩

/-- The duration nearest to a number of seconds, a tie going to the even nanosecond. There is none for
a negative number, for what is no number, and beyond the range. -/
def ofBinary64? (seconds : Binary64) : Option Duration :=
  match seconds.classify with
  | .finite negative m e =>
    if negative && m != 0 then none
    else ofNanos? (Binary.roundedQuotient (m * 2 ^ e.toNat * nanosPerSecond) (2 ^ (-e).toNat))
  | _ => none

/-- The number of seconds, formed from the whole seconds and the rest. -/
def toBinary64 (d : Duration) : Binary64 :=
  (Binary64.ofInt (d.nanos / nanosPerSecond : Nat)).add
    ((Binary64.ofInt (d.nanos % nanosPerSecond : Nat)).div (Binary64.ofInt nanosPerSecond))

/-- A whole number of units and a decimal fraction of one, written without zeros at the end. -/
def withFraction (whole rest places : Nat) : String :=
  let digits := (toString rest).toList
  let padded := List.replicate (places - digits.length) '0' ++ digits
  let shown := (padded.reverse.dropWhile (· == '0')).reverse
  toString whole ++ (if shown.isEmpty then "" else "." ++ .ofList shown)

/-- The text of a duration, in the largest unit of which it holds at least one. -/
def text (d : Duration) : String :=
  let n := d.nanos
  if nanosPerSecond ≤ n then withFraction (n / nanosPerSecond) (n % nanosPerSecond) 9 ++ "s"
  else if 1000000 ≤ n then withFraction (n / 1000000) (n % 1000000) 6 ++ "ms"
  else if 1000 ≤ n then withFraction (n / 1000) (n % 1000) 3 ++ "µs"
  else toString n ++ "ns"

inductive TimeoutError where
  | empty
  /-- No number in the text, which is given without the blanks around it. -/
  | invalid (text : String)
  deriving DecidableEq

def TimeoutError.message : TimeoutError → String
  | empty => "timeout must not be empty"
  | invalid text => "invalid timeout value: " ++ text

def before? (ending cs : List Char) : Option (List Char) :=
  if ending <:+ cs then some (cs.take (cs.length - ending.length)) else none

/-- Reads a timeout: a number of milliseconds before `ms`, of seconds before `s` or on its own. -/
def parse (text : String) : Except TimeoutError Duration :=
  let cs := Text.trim text.toList
  if cs.isEmpty then .error .empty
  else
    let (number, unit) := match before? ['m', 's'] cs with
      | some number => (number, ofMillis)
      | none => ((before? ['s'] cs).getD cs, ofSeconds)
    match Text.unsigned? 64 number with
    | some n => .ok (unit (.ofNat n))
    | none => .error (.invalid (.ofList cs))

end Duration

/-- A moment, as a number of nanoseconds on a clock whose seconds are a signed word. -/
structure Instant where
  nanos : Int
  deriving DecidableEq

namespace Instant

/-- The moment a duration later, unless the clock cannot tell it. -/
def after? (now : Instant) (d : Duration) : Option Instant :=
  let later := now.nanos + d.nanos
  if later < 2 ^ 63 * (nanosPerSecond : Int) then some ⟨later⟩ else none

end Instant

end PackRpc
