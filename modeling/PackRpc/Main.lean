import PackRpc.Loopback.System

namespace PackRpc

def faultOf : IO.Error → Fault
  | .noFileOrDirectory .. => ⟨.notFound, some "No such file or directory (os error 2)"⟩
  | .permissionDenied .. => ⟨.permissionDenied, some "Permission denied (os error 13)"⟩
  | e => ⟨.other, some e.toString⟩

def readText (path : String) : IO (Except Fault String) := do
  try
    let bytes ← IO.FS.readBinFile path
    match String.fromUTF8? bytes with
    | some text => return .ok text
    | none => return .error ⟨.invalidData, some "stream did not contain valid UTF-8"⟩
  catch e => return .error (faultOf e)

def variableNames : List String :=
  Command.Level.everywhere.filterMap Command.Setting.environment?

def report : Command.Outcome → IO UInt32
  | .printed text => do
    IO.print text
    return 0
  | .serving announcement _ => do
    IO.print announcement
    return 0
  | .failed failure => do
    IO.eprintln ("error: " ++ failure.message)
    return .ofNat failure.code.toNat

end PackRpc

open PackRpc in
def main (args : List String) : IO UInt32 := do
  let values ← variableNames.filterMapM fun name => do
    return (← IO.getEnv name).map (name, ·)
  let run := Loopback.World.run (values.lookup ·) readText args .empty
  match ← run.run with
  | some (.ok outcome, _) => report outcome
  | some (.error usage, _) => return .ofNat usage.code
  | none => throw (IO.userError "the deadline cannot be told")
