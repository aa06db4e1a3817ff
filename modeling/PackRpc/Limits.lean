namespace PackRpc

/-- Bounds on the size of a message and on the nesting of its arrays and maps. -/
structure Limits where
  maxSize : Nat
  maxDepth : Nat
  deriving DecidableEq

/-- Sixteen mebibytes. -/
def defaultMaxSize : Nat := 16 * 1024 * 1024

def defaultMaxDepth : Nat := 64

def Limits.default : Limits := ⟨defaultMaxSize, defaultMaxDepth⟩

instance : Inhabited Limits := ⟨.default⟩

end PackRpc
