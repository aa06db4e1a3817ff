import PackRpc.Bytes
import PackRpc.Fault
/-!
# Channels

A channel carries bytes between two ends. An end is held by one or more handles and is open until the
last of them is dropped or the end is shut down. Nothing is lost on the way and nothing overtakes: what
is read at one end is what was written at the other, in order.
-/
namespace PackRpc.Loopback

inductive Side where
  /-- The end of the one who connected. -/
  | near
  /-- The end of the one who accepted. -/
  | far
  deriving DecidableEq

def Side.other : Side → Side
  | near => far
  | far => near

structure End where
  handles : Nat := 1
  isShut : Bool := false
  /-- What has been written at the other end and was not read yet. -/
  incoming : Bytes := []

def End.isOpen (e : End) : Bool := e.handles != 0 && !e.isShut

structure Channel where
  near : End := {}
  far : End := {}

namespace Channel

def endAt (c : Channel) : Side → End
  | .near => c.near
  | .far => c.far

def modify (c : Channel) (side : Side) (f : End → End) : Channel :=
  match side with
  | .near => { c with near := f c.near }
  | .far => { c with far := f c.far }

/-- Writes at an end, if both ends are open. -/
def write (c : Channel) (side : Side) (bytes : Bytes) : Except Fault Channel :=
  if (c.endAt side).isOpen && (c.endAt side.other).isOpen then
    .ok (c.modify side.other fun e => { e with incoming := e.incoming ++ bytes })
  else .error (.ofKind .brokenPipe)

/-- Reads at most `n` bytes at an end. There are none once an end is closed and all is read; before that,
a read that finds nothing fails, as nobody can write while it waits. -/
def read (c : Channel) (side : Side) (n : Nat) : Except Fault (Bytes × Channel) :=
  let e := c.endAt side
  if n = 0 then .ok ([], c)
  else if !e.incoming.isEmpty then
    .ok (e.incoming.take n, c.modify side fun e => { e with incoming := e.incoming.drop n })
  else if e.isOpen && (c.endAt side.other).isOpen then .error (.ofKind .wouldBlock)
  else .ok ([], c)

def clone (c : Channel) (side : Side) : Channel :=
  c.modify side fun e => { e with handles := e.handles + 1 }

def drop (c : Channel) (side : Side) : Channel :=
  c.modify side fun e => { e with handles := e.handles - 1 }

/-- Closes both directions at an end, for all of its handles. -/
def shutdown (c : Channel) (side : Side) : Channel :=
  c.modify side fun e => { e with isShut := true }

end Channel

end PackRpc.Loopback
