import PackRpc.Text.Unprintable
import PackRpc.Bytes

namespace PackRpc.Text

/-- The lower-case hexadecimal digits of a number. -/
def hex (n : Nat) : String :=
  .ofList (Nat.toDigits 16 n)

def hexByte (b : UInt8) : String :=
  .ofList (Nat.toDigits 16 (b.toNat / 16) ++ Nat.toDigits 16 (b.toNat % 16))

def quotedChar (c : Char) : String :=
  if c = '\x00' then "\\0"
  else if c = '\t' then "\\t"
  else if c = '\r' then "\\r"
  else if c = '\n' then "\\n"
  else if c = '"' then "\\\""
  else if c = '\\' then "\\\\"
  else if isUnprintable c then "\\u\x7b" ++ hex c.toNat ++ "\x7d"
  else .singleton c

def quoted (text : String) : String :=
  "\"" ++ text.foldl (fun out c => out ++ quotedChar c) "" ++ "\""

def quotedByte (b : UInt8) : String :=
  if b = 0 then "\\0"
  else if b = 9 then "\\t"
  else if b = 13 then "\\r"
  else if b = 10 then "\\n"
  else if b = 34 then "\\\""
  else if b = 92 then "\\\\"
  else if 0x20 ≤ b ∧ b < 0x7f then .singleton (Char.ofNat b.toNat)
  else "\\x" ++ hexByte b

def quotedBytes (bytes : Bytes) : String :=
  "b\"" ++ bytes.foldl (fun out b => out ++ quotedByte b) "" ++ "\""

end PackRpc.Text
