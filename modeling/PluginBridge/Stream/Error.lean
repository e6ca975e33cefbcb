import PluginBridge.Text.Duration
namespace PluginBridge

inductive StreamError where
  | garbled
  | broken
  | malformed
  | timeout (command : String) (waited : Duration)
  | disconnected
  | remote (text : String)
deriving DecidableEq, Repr

def StreamError.message : StreamError → String
  | .garbled => "I/O error on command stream: stream did not contain valid UTF-8"
  | .broken => "I/O error on command stream: broken pipe"
  | .malformed => "Invalid message"
  | .timeout command waited => "Command \"" ++ command ++ "\" timed out after " ++ waited.text
  | .disconnected => "Peer disconnected"
  | .remote text => text

end PluginBridge
