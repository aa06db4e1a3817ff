namespace PackRpc.Text

def splitAt (separator : Char) : List Char → List (List Char)
  | [] => [[]]
  | c :: cs =>
    match splitAt separator cs with
    | [] => [[c]]
    | part :: parts => if c = separator then [] :: part :: parts else (c :: part) :: parts

/-- The characters before and after the last separator, if there is one. -/
def splitLast (separator : Char) (cs : List Char) : Option (List Char × List Char) :=
  if cs.contains separator then
    let after := (cs.reverse.takeWhile (· != separator)).reverse
    some (cs.take (cs.length - after.length - 1), after)
  else none

end PackRpc.Text
