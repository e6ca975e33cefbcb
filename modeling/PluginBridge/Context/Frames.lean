import PluginBridge.Tree.Node
namespace PluginBridge

structure Variable where
  name : String
  value : Node
  important : Bool

structure Frame where
  id : Nat
  definitions : List Variable

-- What a call can see while it runs: the frames around it, the innermost at depth 0. The evaluator
-- says what a frame defines under a name.
structure EvalContext where
  count : Nat
  frameId : Nat → Nat
  lookup? : Nat → String → Option Variable

def EvalContext.resolve? (context : EvalContext) (start : Nat) (name : String) : Option Variable :=
  (List.range' start (context.count - start)).findSome? fun depth => context.lookup? depth name

structure FrameStack where
  frames : List Frame

namespace Frame

def find? (frame : Frame) (name : String) : Option Variable :=
  frame.definitions.find? fun definition => definition.name == name

def define (frame : Frame) (definition : Variable) : Frame :=
  { frame with
    definitions := frame.definitions.filter (fun other => other.name != definition.name) ++ [definition] }

end Frame

namespace FrameStack

def empty : FrameStack := ⟨[]⟩

def count (stack : FrameStack) : Nat := stack.frames.length

def push (stack : FrameStack) (id : Nat) : FrameStack := ⟨⟨id, []⟩ :: stack.frames⟩

def pop (stack : FrameStack) : Option Nat × FrameStack :=
  match stack.frames with
  | [] => (none, stack)
  | frame :: rest => (some frame.id, ⟨rest⟩)

-- Defines a variable in the innermost frame. Without a frame there is made one.
def define (stack : FrameStack) (definition : Variable) : FrameStack :=
  match stack.frames with
  | [] => ⟨[(Frame.mk 0 []).define definition]⟩
  | frame :: rest => ⟨frame.define definition :: rest⟩

def frameId (stack : FrameStack) (depth : Nat) : Nat := ((stack.frames[depth]?).map Frame.id).getD 0

def lookup? (stack : FrameStack) (depth : Nat) (name : String) : Option Variable :=
  (stack.frames[depth]?).bind fun frame => frame.find? name

def context (stack : FrameStack) : EvalContext := ⟨stack.count, stack.frameId, stack.lookup?⟩

def resolve? (stack : FrameStack) (start : Nat) (name : String) : Option Variable :=
  stack.context.resolve? start name

instance : Coe (Option FrameStack) (Option EvalContext) := ⟨Option.map context⟩

end FrameStack

-- Tells contexts apart by the frames they consist of and not by what these define.
structure Fingerprint where
  frames : Nat
  hash : UInt64
deriving DecidableEq, Inhabited, Repr

def Fingerprint.mix (hash : UInt64) (id : Nat) : UInt64 :=
  (hash + UInt64.ofNat id) * 0xf1357aea2e62a9c5

def Fingerprint.ofContext (context : EvalContext) : Fingerprint :=
  ⟨context.count, ((List.range context.count).map context.frameId).foldl Fingerprint.mix 0⟩

def Fingerprint.ofStack (stack : FrameStack) : Fingerprint := .ofContext stack.context

end PluginBridge
