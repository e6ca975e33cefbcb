import PluginBridge.Peer.Echo
namespace PluginBridge.Main

-- The peer with functions of its own, on the standard streams. Its shared regions are
-- files: what they hold is read before each step and written back after it.

structure World where
  talk : Conversation EchoState
  memory : Memory

def World.start : World := ⟨.start Echo.initial, .empty⟩

def pathsOf (line : StreamLine) : List String :=
  let named := fun (json : Json) (keys : List String) =>
    keys.filterMap fun key => (json.get key).toString?
  match line with
  | .garbled => []
  | .text text =>
    match Message.parse? text with
    | some (.request request) => named request.data ["shmPath", "path"]
    | some (.response response) => named (response.outcome.toOption.getD .null) ["shmPath"]
    | _ => []

def servesRegion (world : World) : Bool :=
  world.talk.state.protocol.isSome && !world.talk.isGone

def load (memory : Memory) (path : String) : IO Memory := do
  try return memory.putFile path (← IO.FS.readBinFile path)
  catch _ => return memory

def save (file : BackingFile) : IO Unit := do
  let handle ← IO.FS.Handle.mk file.path .readWrite
  handle.write file.bytes
  handle.flush

def saveChanged (before after : Memory) : IO Unit :=
  (before.files.zip after.files).forM fun (old, new) =>
    if old.bytes == new.bytes then pure () else save new

def perform (paths : List String) (act : World → PeerStep (Conversation EchoState))
    (world : World) : IO World := do
  let known := world.memory.files.toList.map BackingFile.path
  let fresh := paths.filter fun path => !known.contains path
  let memory ← (known ++ fresh).foldlM load world.memory
  let step := act { world with memory := memory }
  saveChanged memory step.memory
  let output ← IO.getStdout
  (step.output.filterMap PeerOutput.line?).forM output.putStrLn
  output.flush
  return ⟨step.state, step.memory⟩

def hear (line : Option StreamLine) : World → IO World :=
  perform ((line.map pathsOf).getD []) fun world =>
    world.talk.advance Echo.service line.toList line.isNone world.memory

def poll : World → IO World :=
  perform [] fun world =>
    let (talk, memory) := Echo.service.peer.poll world.talk world.memory
    ⟨talk, [], memory⟩

partial def readLine (input : IO.FS.Stream) (line : ByteArray) : IO ByteArray := do
  let byte ← input.read 1
  if byte.isEmpty || byte == ⟨#[10]⟩ then return line ++ byte
  else readLine input (line ++ byte)

def nextLine : IO (Option StreamLine) := do
  return (StreamLine.ofStream (← readLine (← IO.getStdin) .empty)).head?

partial def run (world : World) (next : Task (Except IO.Error (Option StreamLine))) : IO UInt32 := do
  if servesRegion world && !(← IO.hasFinished next) then
    let world ← poll world
    IO.sleep 1
    run world next
  else
    let line := ((← IO.wait next).toOption).getD none
    let world ← hear line world
    if world.talk.isGone || line.isNone then return if world.talk.hasFailed then 1 else 0
    else run world (← IO.asTask nextLine Task.Priority.dedicated)

end PluginBridge.Main

def main : IO UInt32 := do
  PluginBridge.Main.run .start (← IO.asTask PluginBridge.Main.nextLine Task.Priority.dedicated)
