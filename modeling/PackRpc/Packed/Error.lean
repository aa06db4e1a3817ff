namespace PackRpc

inductive Malformation where
  /-- The one marker that the format never assigned. -/
  | reservedMarker
  /-- The bytes end inside the value. -/
  | truncated (size : Nat)
  /-- Bytes follow the value. -/
  | trailing (count : Nat)
  deriving DecidableEq

def Malformation.message : Malformation → String
  | .reservedMarker => "reserved marker 0xc1"
  | .truncated size => "truncated input (" ++ toString size ++ " bytes)"
  | .trailing count => toString count ++ " trailing bytes after value"

inductive FormatError where
  | malformed (cause : Malformation)
  | tooLarge (size max : Nat)
  | tooDeep (max : Nat)
  deriving DecidableEq

def FormatError.message : FormatError → String
  | .malformed cause => "malformed msgpack: " ++ cause.message
  | .tooLarge size max =>
    "message too large (" ++ toString size ++ " bytes, max " ++ toString max ++ ")"
  | .tooDeep max => "nesting deeper than " ++ toString max ++ " levels"

end PackRpc
