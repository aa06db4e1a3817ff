import PackRpc.Command.Level
/-!
# Scanning a command line

Words are taken from left to right, and the first one that is wrong, or that asks for help, ends
everything. Only the value of an option right before a command is looked at after the words of that
command.
-/
namespace PackRpc.Command

/-- Whether a text behind a dash makes a negative number: digits, with at most one point that is not the
first, and at most one exponent mark that is neither first nor last and has no point after it. -/
def isNumber (cs : List Char) : Bool :=
  let isMark := fun c => c == 'e' || c == 'E'
  let front := cs.takeWhile fun c => !isMark c
  let exponent := cs.dropWhile fun c => !isMark c
  let whole := front.takeWhile (· != '.')
  let fraction := front.dropWhile (· != '.')
  whole.all Char.isDigit && (fraction.drop 1).all Char.isDigit && (exponent.drop 1).all Char.isDigit &&
    (whole.length != 0 || front.isEmpty && exponent.isEmpty) && exponent.length != 1

structure Part where
  /-- The options with their values, the last one first. -/
  given : List (Setting × String) := []
  /-- An option the value of which has not been looked at yet. -/
  unchecked : Option (Setting × String) := none
  /-- The operands, the last one first. -/
  operands : List String := []

namespace Part

def give (p : Part) (setting : Setting) (text : String) : Except Usage Part :=
  if setting.accepts text && (setting.repeats || !p.given.any (·.1 == setting)) then
    .ok { p with given := (setting, text) :: p.given }
  else .error .wrong

def settle (p : Part) : Except Usage Part :=
  match p.unchecked with
  | none => .ok p
  | some (setting, text) => give { p with unchecked := none } setting text

def mark (p : Part) (setting : Setting) : Except Usage Part := do
  let p ← p.settle
  if setting.shows then .error .shown else p.give setting ""

def operand (p : Part) (level : Level) (text : String) : Except Usage Part := do
  let p ← p.settle
  match level.operand? p.operands.length with
  | some slot =>
    if slot.accepts text then return { p with operands := text :: p.operands } else .error .wrong
  | none => .error .wrong

def allowsNegative (p : Part) (level : Level) : Bool :=
  ((level.operand? p.operands.length).map Operand.allowsNegative).getD false

/-- Whether a word cannot be the value of the option before it. -/
def refuses (p : Part) (level : Level) (word : String) : Bool :=
  match word.toList with
  | ['-'] => false
  | '-' :: cs => !(p.allowsNegative level && isNumber cs)
  | _ => false

/-- Takes the letters behind one dash. The last one may be an option whose value is the rest of the word
or, if there is no rest, the next word: then it is given back. -/
def letters (p : Part) (level : Level) : List Char → Except Usage (Part × Option Setting)
  | [] => .ok (p, none)
  | c :: cs => do
    match level.letter? c with
    | none => .error .wrong
    | some setting =>
      if setting.takesValue then
        let p ← p.settle
        match cs with
        | [] => return (p, some setting)
        | '=' :: cs => return (← p.give setting (.ofList cs), none)
        | cs => return (← p.give setting (.ofList cs), none)
      else letters (← p.mark setting) level cs

/-- Whether all is there that has to be, given the variables of the environment. -/
def isComplete (p : Part) (level : Level) (env : String → Option String) : Bool :=
  level.required ≤ p.operands.length &&
    level.settings.all fun setting =>
      p.given.any (·.1 == setting) ||
        match setting.environment?.bind env with
        | some text => setting.accepts text
        | none => true

def finish (p : Part) (level : Level) (env : String → Option String) : Except Usage Part := do
  let p ← p.settle
  if p.isComplete level env then return p else .error .wrong

end Part

inductive Word where
  | escape
  | long (name : String) (value : Option String)
  | letters (cs : List Char)
  | plain

def Word.ofText (text : String) : Word :=
  match text.toList with
  | ['-', '-'] => .escape
  | '-' :: '-' :: cs =>
    .long (.ofList (cs.takeWhile (· != '=')))
      (if cs.contains '=' then some (.ofList ((cs.dropWhile (· != '=')).drop 1)) else none)
  | '-' :: c :: cs => .letters (c :: cs)
  | _ => .plain

/-- Takes the words of a level and of those below it. Gives the levels with their parts, from the top. -/
def scan (env : String → Option String) :
    Level → Part → List String → Except Usage (List (Level × Part))
  | level, p, [] => do
    if !level.below.isEmpty then .error .wrong
    else return [(level, ← p.finish level env)]
  | level, p, word :: rest =>
    match Word.ofText word with
    | .escape => do
      let p ← rest.foldlM (fun (p : Part) word => p.operand level word) p
      if !level.below.isEmpty then .error .wrong
      else return [(level, ← p.finish level env)]
    | .long name value =>
      match level.long? name with
      | none => .error .wrong
      | some setting =>
        match setting.takesValue, value with
        | true, some text => do
          let p ← p.settle
          scan env level (← p.give setting text) rest
        | false, none => do scan env level (← p.mark setting) rest
        | false, some _ => .error .wrong
        | true, none => do
          let p ← p.settle
          match rest with
          | [] => .error .wrong
          | text :: rest =>
            if p.refuses level text then .error .wrong
            else scan env level { p with unchecked := some (setting, text) } rest
    | .letters cs =>
      if p.allowsNegative level && isNumber cs then do
        scan env level (← p.operand level word) rest
      else do
        match ← p.letters level cs with
        | (p, none) => scan env level p rest
        | (p, some setting) =>
          match rest with
          | [] => .error .wrong
          | text :: rest =>
            if p.refuses level text then .error .wrong
            else scan env level { p with unchecked := some (setting, text) } rest
    | .plain =>
      match level.below.lookup word with
      | some lower => do
        let deeper ← scan env lower {} rest
        return (level, ← p.finish level env) :: deeper
      | none =>
        if !level.below.isEmpty && word == "help" then
          .error (if level.helps rest then .shown else .wrong)
        else do scan env level (← p.operand level word) rest

end PackRpc.Command
