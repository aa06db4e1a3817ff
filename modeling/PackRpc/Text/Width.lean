import PackRpc.Text.Emoji
import PackRpc.Text.Wide
import PackRpc.Text.Widthless
/-!
# The width of text

How many columns a text takes on a terminal. On its own a character takes none, one or two columns. Next to
others it may take more or less: letters of some scripts are written as one, pictographs are joined to
one, and a selector behind a character chooses between text and pictograph. So a text is measured from its
end, and each character meets what of the characters behind it can still join.
-/
namespace PackRpc.Text

/-- The joiner, which asks for one sign instead of two. -/
def joiner : Char := '\u200d'

/-- Letters that may be written as one with what stands before them. -/
inductive Letter where
  | alef
  | lamed
  | ya
  /-- A Buginese `i` before a `ya`. -/
  | vowelYa
  | tifinagh
  /-- A Tifinagh letter behind the sign that joins two of them. -/
  | joinedTifinagh
  | lisuTone
  | orkhonI
  /-- A Khmer letter that has a form to stand below another. -/
  | khmer
  deriving DecidableEq

/-- What the text begins with that a character may join. -/
inductive Joint where
  | none
  | lineFeed
  /-- A letter, and whether a joiner stands before it. -/
  | letter (letter : Letter) (joined : Bool)
  | kiratE
  | kiratAi
  | skinTone
  /-- A letter of a flag, and whether it stands before another one. -/
  | flagLetter (several : Bool)
  | pictograph
  /-- A joiner before a pictograph. -/
  | joinedPictograph
  /-- The frame of a key before such a joiner. -/
  | joinedKey
  /-- So many letters of flags before such a joiner. -/
  | joinedFlag (count : Nat)
  /-- So many letters and digits of the tag of a flag before such a joiner. -/
  | joinedTag (letters digits : Nat)
  deriving DecidableEq

inductive Form where
  | text
  | pictograph
  deriving DecidableEq

/-- What a text begins with, as far as the character before it is concerned. -/
structure Ahead where
  joint : Joint := .none
  selector : Option Form := none
  deriving DecidableEq

def ownWidth (c : Char) : Nat :=
  if c = '\u17d8' then 3
  else if isWidthless c then 0
  else if isWide c then 2
  else 1

def alefRanges : Ranges := ⟨#[
  (0x622, 0x623), (0x625, 0x625), (0x627, 0x627), (0x671, 0x673), (0x675, 0x675), (0x773, 0x774),
  (0x870, 0x882)], by decide⟩

def lamRanges : Ranges := ⟨#[
  (0x644, 0x644), (0x6b5, 0x6b8), (0x76a, 0x76a), (0x8a6, 0x8a6), (0x8c7, 0x8c7)], by decide⟩

/-- The Khmer letters with a form to stand below another that takes no column. -/
def khmerRanges : Ranges := ⟨#[
  (0x1780, 0x1782), (0x1784, 0x1787), (0x1789, 0x178c), (0x178e, 0x1793), (0x1795, 0x1798),
  (0x179b, 0x179d), (0x17a0, 0x17a0), (0x17a2, 0x17a2), (0x17a7, 0x17a7), (0x17ab, 0x17ac),
  (0x17af, 0x17af)], by decide⟩

def tifinaghRanges : Ranges := ⟨#[(0x2d31, 0x2d65), (0x2d6f, 0x2d6f)], by decide⟩

/-- The invisible marks at which letters that join are not looked at apart. -/
def ignorableRanges : Ranges := ⟨#[
  (0x34f, 0x34f), (0x17b4, 0x17b5), (0x180b, 0x180d), (0x180f, 0x180f), (0xfe00, 0xfe0f),
  (0xe0100, 0xe01ef)], by decide⟩

def letter? (c : Char) : Option Letter :=
  if alefRanges.holds c then some .alef
  else if c = '\u05dc' then some .lamed
  else if khmerRanges.holds c then some .khmer
  else if c = '\u1a10' then some .ya
  else if tifinaghRanges.holds c then some .tifinagh
  else if c = '\ua4fc' ∨ c = '\ua4fd' then some .lisuTone
  else if c.toNat = 0x10c03 then some .orkhonI
  else none

def ownJoint (c : Char) : Joint :=
  if isPictograph c then .pictograph
  else if isSkinTone c then .skinTone
  else if isFlagLetter c then .flagLetter false
  else if c.toNat = 0x16d67 then .kiratE
  else if c.toNat = 0x16d68 then .kiratAi
  else ((letter? c).map (.letter · false)).getD .none

namespace Joint

/-- What is ahead once a letter or an invisible mark has been put before a letter, and the columns that it
takes. -/
def beforeLetter (c : Char) (joined : Bool) : Letter → Option (Int × Joint)
  | .alef =>
    if lamRanges.holds c then some (0, .none)
    else if isTransparent c then some (0, .letter .alef false)
    else Option.none
  | .lamed => if joined ∧ c = '\u05d0' then some (0, .none) else Option.none
  | .ya => if joined ∧ c = '\u1a17' then some (0, .letter .vowelYa true) else Option.none
  | .vowelYa => if c = '\u1a15' then some (0, .none) else Option.none
  | .tifinagh =>
    if c = '\u2d7f' then some (1, .letter .joinedTifinagh true)
    else if joined ∧ tifinaghRanges.holds c then some (0, .none)
    else Option.none
  | .joinedTifinagh => if tifinaghRanges.holds c then some (-1, .none) else Option.none
  | .lisuTone => if '\ua4f8' ≤ c ∧ c ≤ '\ua4fb' then some (0, .none) else Option.none
  | .orkhonI => if joined ∧ c.toNat = 0x10c32 then some (0, .none) else Option.none
  | .khmer => if c = '\u17d2' then some (-1, .none) else Option.none

def beforeJoiner (c : Char) : Option (Int × Joint) :=
  if c = '\u20e3' then some (0, .joinedKey)
  else if isFlagLetter c then some (1, .joinedFlag 1)
  else if isSkinTone c then some (0, .skinTone)
  else if c.toNat = 0xe007f then some (0, .joinedTag 0 0)
  else if isPictograph c then some (0, .pictograph)
  else Option.none

/-- The same before a tag: its letters and digits, and the flag that it belongs to. -/
def beforeTag (c : Char) (letters digits : Nat) : Option (Int × Joint) :=
  if 0xe0061 ≤ c.toNat ∧ c.toNat ≤ 0xe007a ∧ letters < 6 ∧ digits = 0 then
    some (0, .joinedTag (letters + 1) 0)
  else if 0xe0030 ≤ c.toNat ∧ c.toNat ≤ 0xe0039 ∧ digits < 3 ∧ (digits ≠ 0 ∨ letters < 5) then
    some (0, .joinedTag letters (digits + 1))
  else if c.toNat = 0x1f3f4 ∧ (digits = 3 ∨ digits = 0 ∧ 3 ≤ letters) then some (0, .pictograph)
  else Option.none

/-- What is ahead once a character has been put before something that it joins, and the columns that it
takes: fewer than none if it also takes from those behind it. -/
def before (c : Char) : Joint → Option (Int × Joint)
  | .letter l joined =>
    if l ≠ .alef ∧ c = joiner then some (0, .letter l true)
    else if l ≠ .alef ∧ ignorableRanges.holds c then some (0, .letter l joined)
    else beforeLetter c joined l
  | .kiratE =>
    if c.toNat = 0x16d63 ∨ c.toNat = 0x16d69 then some (0, .none)
    else if c.toNat = 0x16d67 then some (0, .kiratAi)
    else if c.toNat = 0x16d68 then some (1, .kiratE)
    else Option.none
  | .kiratAi => if c.toNat = 0x16d63 then some (0, .none) else Option.none
  | .skinTone =>
    if showsSkin c then some (0, .pictograph)
    else if c = joiner then some (0, .joinedPictograph)
    else Option.none
  | .flagLetter several =>
    if isFlagLetter c then some (1, .flagLetter true)
    else if several ∧ c = joiner then some (0, .joinedPictograph)
    else Option.none
  | .pictograph => if c = joiner then some (0, .joinedPictograph) else Option.none
  | .joinedPictograph => beforeJoiner c
  | .joinedFlag count =>
    if isFlagLetter c then some (if count % 2 = 1 then -1 else 3, .joinedFlag (count + 1))
    else if 2 ≤ count ∧ c = joiner then some (0, .joinedPictograph)
    else Option.none
  | .joinedTag letters digits => beforeTag c letters digits
  | .none | .lineFeed | .joinedKey => Option.none

def passes (form : Form) : Joint → Bool
  | .letter .. => true
  | .joinedPictograph | .joinedKey => form = .pictograph
  | _ => false

end Joint

namespace Ahead

def select (a : Ahead) (form : Form) : Ahead :=
  ⟨if a.joint.passes form then a.joint else .none, some form⟩

/-- What is ahead when a selector has nothing to choose for. Only letters join across it. -/
def withoutSelector (a : Ahead) : Joint :=
  match a.joint, a.selector with
  | joint, none => joint
  | .letter l joined, _ => .letter l joined
  | _, _ => .none

/-- The columns that a character takes before a text, and what is ahead of it then. -/
def put (c : Char) (a : Ahead) : Int × Ahead :=
  if a.selector = some .pictograph ∧ turnsToPictograph c then
    (if a.joint = .none ∨ a.joint.passes .text then 2 else 0, ⟨.pictograph, none⟩)
  else if c.toNat ≤ 0xa0 then
    (if c = '\r' ∧ a.withoutSelector = .lineFeed then 0 else 1,
      ⟨if c = '\n' then .lineFeed else .none, none⟩)
  else if c = '\ufe0f' then (0, (Ahead.mk a.withoutSelector none).select .pictograph)
  else if c = '\ufe0e' then (0, (Ahead.mk a.withoutSelector none).select .text)
  else if a.selector = some .text ∧ turnsToText c then (1, {})
  else
    let (columns, joint) := (a.withoutSelector.before c).getD (ownWidth c, ownJoint c)
    (columns, ⟨joint, none⟩)

end Ahead

def measure (cs : List Char) : Int × Ahead :=
  cs.foldr (fun c (columns, a) => let (own, a) := a.put c; (own + columns, a)) (0, {})

def width (text : String) : Nat := (measure text.toList).1.toNat

end PackRpc.Text
