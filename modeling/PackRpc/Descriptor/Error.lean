import PackRpc.Descriptor.Text
import PackRpc.Packed.Basic
import PackRpc.Value.Basic

namespace PackRpc

inductive PathSegment where
  | index (i : Nat)
  | field (name : String)
  /-- The key of an entry. -/
  | key (i : Nat)
  /-- The value of an entry. -/
  | value (i : Nat)
  deriving DecidableEq

namespace PathSegment

def text : PathSegment → String
  | index i => "[" ++ toString i ++ "]"
  | field name => "." ++ name
  | key i => "key #" ++ toString i
  | value i => "value #" ++ toString i

/-- Whether the segment is set off by a space from those before it. -/
def isSetOff : PathSegment → Bool
  | key _ | value _ => true
  | _ => false

def pathText (path : List PathSegment) : String :=
  path.foldl (fun out s => out ++ (if s.isSetOff && !out.isEmpty then " " else "") ++ s.text) ""

end PathSegment

inductive EncodeCause where
  | typeMismatch (expected : Descriptor) (found : Value.Kind)
  | arityMismatch (expected found : Nat)
  | outOfRange (n : Int) (signed : Bool) (width : IntWidth)
  | recordMismatch (expected found : String)
  deriving DecidableEq

inductive DecodeCause where
  | kindMismatch (expected : Descriptor) (found : Packed.Kind)
  | arityMismatch (expected found : Nat)
  | outOfRange (n : Int) (signed : Bool) (width : IntWidth)
  | invalidUtf8
  /-- A value that no packed value of this shape decodes to. -/
  | unexpectedValue (expected : Descriptor) (found : Value.Kind)
  deriving DecidableEq

def EncodeCause.message : EncodeCause → String
  | typeMismatch expected found => "expected " ++ expected.text ++ ", found " ++ found.name
  | arityMismatch expected found =>
    "expected " ++ toString expected ++ " elements, found " ++ toString found
  | outOfRange n signed width =>
    toString n ++ " is out of range for " ++ (Descriptor.int signed width).text ++ " (" ++
      toString (width.least signed) ++ "..=" ++ toString (width.greatest signed) ++ ")"
  | recordMismatch expected found => "expected record " ++ expected ++ ", found record " ++ found

def DecodeCause.message : DecodeCause → String
  | kindMismatch expected found => "expected " ++ expected.text ++ ", found " ++ found.name
  | arityMismatch expected found =>
    "expected " ++ toString expected ++ " elements, found " ++ toString found
  | outOfRange n signed width =>
    toString n ++ " is out of range for " ++ (Descriptor.int signed width).text
  | invalidUtf8 => "string payload is not valid utf-8"
  | unexpectedValue expected found => "expected " ++ expected.text ++ ", found " ++ found.name ++ " value"

/-- A cause and where it arose. -/
structure Located (C : Type) where
  path : List PathSegment
  cause : C
  deriving DecidableEq

abbrev EncodeError := Located EncodeCause

abbrev DecodeError := Located DecodeCause

namespace Located

variable {C : Type}

def here (cause : C) : Located C := ⟨[], cause⟩

/-- The same error, seen from one step further out. -/
def within (s : PathSegment) (e : Located C) : Located C := ⟨s :: e.path, e.cause⟩

def message (describe : C → String) (e : Located C) : String :=
  e.path.foldr (fun s text => "at " ++ s.text ++ ": " ++ text) (describe e.cause)

end Located

def encodeMessage (e : EncodeError) : String := e.message EncodeCause.message

def decodeMessage (e : DecodeError) : String := e.message DecodeCause.message

end PackRpc
