import PackRpc.Kvs.Stub
import PackRpc.Server.Basic

namespace PackRpc

structure Store where
  data : OrderedMap String Int32 := .empty
  sum : Int64 := 0

namespace Store

def empty : Store := {}

def size (s : Store) : Nat := s.data.size

def put (s : Store) (key : String) (value : Int32) : Store where
  data := s.data.insert key value
  sum := s.sum + (value.toInt64 - ((s.data.get? key).getD 0).toInt64)

def get? (s : Store) (key : String) : Option Entry :=
  (s.data.get? key).map fun value => ⟨key, value⟩

def average (s : Store) : Binary64 :=
  (Binary64.ofInt s.sum.toInt).div (Binary64.ofInt s.size)

end Store

/-- The state of the service: its id and configuration, the live store and the snapshots. -/
structure Kvs where
  id : String
  config : String := "\x7b\x7d"
  store : Store := .empty
  saved : OrderedMap String Store := .empty

namespace Kvs

def new (id : String) : Kvs := { id }

def put (k : Kvs) (key : String) (value : Int32) : Kvs :=
  { k with store := k.store.put key value }

def clear (k : Kvs) : Kvs := { k with store := .empty }

/-- Keeps the live store under a name. -/
def save (k : Kvs) (name : String) : Kvs :=
  { k with saved := k.saved.insert name k.store }

def load? (k : Kvs) (name : String) : Option Kvs :=
  (k.saved.get? name).map fun store => { k with store }

def texts (entries : List (String × String)) : StaticValue :=
  .orderedMap (OrderedMap.ofList (entries.map fun e => (.text e.1, .text e.2))).entries

def status (k : Kvs) : StaticValue :=
  .orderedMap [(.text k.id,
    texts [("type", "kvs"), ("local_size", toString k.store.size), ("global_size", "0")])]

def reply (t : StaticType) (x : StaticValue) : Except Packed Packed :=
  match t.encode x with
  | .ok w => .ok w
  | .error e => .error (.str (encodeMessage e))

def typeMismatch : Packed := .ofNat typeMismatchCode

def textArg (w : Packed) : Option String :=
  match StaticType.text.decode w with
  | .ok (.text s) => some s
  | _ => none

def valueArg (w : Packed) : Option Int32 :=
  match Entry.valueType.decode w with
  | .ok (.int n) => some n.toInt32
  | _ => none

/-- Runs a method on arguments, the service name not being one of them. -/
abbrev Action := List Packed → Kvs → Except Packed Packed × Kvs

def withText (action : String → Kvs → Except Packed Packed × Kvs) : Action
  | [w], k =>
    match textArg w with
    | some text => action text k
    | none => (.error typeMismatch, k)
  | _, k => (.error typeMismatch, k)

def withNothing (action : Kvs → Except Packed Packed × Kvs) : Action
  | [], k => action k
  | _, k => (.error typeMismatch, k)

def putAction : Action
  | [key, value], k =>
    match textArg key, valueArg value with
    | some key, some value => (reply .bool (.bool true), k.put key value)
    | _, _ => (.error typeMismatch, k)
  | _, k => (.error typeMismatch, k)

def getAction : Action := withText fun key k =>
  match k.store.get? key with
  | some entry => (reply Entry.staticType entry.toStatic, k)
  | none => (.error (.str (key ++ " not found")), k)

def averageAction : Action := withNothing fun k => (reply .float64 (.float64 k.store.average), k)

def configAction : Action := withNothing fun k => (reply .text (.text k.config), k)

def statusAction : Action := withNothing fun k => (reply Admin.statusType k.status, k)

def clearAction : Action := withNothing fun k => (reply .bool (.bool true), k.clear)

def mixAction : Action := withNothing fun k => (reply .bool (.bool true), k)

def saveAction : Action := withText fun name k =>
  (reply Admin.save.result (texts [(k.id, "memory:" ++ name)]), k.save name)

def loadAction : Action := withText fun name k =>
  match k.load? name with
  | some loaded => (reply .bool (.bool true), loaded)
  | none => (.error (.str ("model " ++ name ++ " not found")), k)

def proxyAction : Action := withNothing fun k => (.error (.str (k.id ++ " is not a proxy")), k)

def actions : List (String × Action) := [
  ("put", putAction),
  ("get", getAction),
  ("get_average", averageAction),
  ("get_config", configAction),
  ("get_status", statusAction),
  ("clear", clearAction),
  ("do_mix", mixAction),
  ("save", saveAction),
  ("load", loadAction),
  ("get_proxy_status", proxyAction)]

/-- Runs a method on all parameters, of which the service name is the first and is not looked at. -/
def handler (action : Action) : Handler Kvs := fun params k =>
  match params with
  | _ :: args => action args k
  | [] => (.error typeMismatch, k)

def server : Server Kvs :=
  actions.foldl (fun s a => s.method a.1 (handler a.2)) {}

end Kvs

end PackRpc
