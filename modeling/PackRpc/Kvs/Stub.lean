import PackRpc.Client.Basic

namespace PackRpc

structure Entry where
  key : String
  value : Int32
  deriving DecidableEq

namespace Entry

def valueType : StaticType := .int true .w32

def staticType : StaticType := .record "entry" [("key", .text), ("value", valueType)]

def recordType : RecordType := ⟨"entry", [("key", .string), ("value", .int true .w32)]⟩

def toStatic (e : Entry) : StaticValue :=
  .record recordType [.text e.key, .int e.value.toInt64]

end Entry

/-! The methods of the service itself. -/
namespace KvsMethod

def put : Method := ⟨"put", [.text, Entry.valueType], .bool⟩
def get : Method := ⟨"get", [.text], Entry.staticType⟩
def getAverage : Method := ⟨"get_average", [], .float64⟩

def all : List Method := [put, get, getAverage]

end KvsMethod

end PackRpc
