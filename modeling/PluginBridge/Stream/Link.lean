import PluginBridge.Stream.Multiplexer
namespace PluginBridge

-- A multiplexer that reads bytes as they come. `part` is what has come of the current
-- line, `callbacks` are the functions that the other side may ask for by name.
structure Link where
  mux : Multiplexer
  callbacks : List (String × (Json → Except String Json))
  part : List UInt8

namespace Link

def new : Link := ⟨.new, [], []⟩

def register (name : String) (function : Json → Except String Json) (link : Link) : Link :=
  { link with callbacks := (name, function) :: link.callbacks }

def unregister (name : String) (link : Link) : Bool × Link :=
  ((link.callbacks.lookup name).isSome,
    { link with callbacks := link.callbacks.filter fun entry => entry.1 != name })

def perform (link : Link) (callback : Callback) : Except String Json :=
  match link.callbacks.lookup callback.name with
  | some function => function callback.data
  | none => .error (Multiplexer.unknownCallback callback.name)

-- Takes one line. Bytes that are no text end the stream.
def take (link : Link) (line : StreamLine) : Link :=
  match line with
  | .garbled => { link with mux := link.mux.close }
  | .text text =>
    match link.mux.receive text with
    | (none, mux) => { link with mux := mux }
    | (some callback, mux) =>
      { link with mux := mux.answer callback.id (link.perform callback) }

def feed (bytes : ByteArray) (link : Link) : Link :=
  let (lines, part) := StreamLine.splitFrom link.part.reverse (Bytes.toList bytes)
  { lines.foldl take link with part := part }

def finish (link : Link) : Link :=
  let link := (StreamLine.ofRest link.part).foldl take link
  { link with mux := link.mux.close, part := [] }

end Link
end PluginBridge
