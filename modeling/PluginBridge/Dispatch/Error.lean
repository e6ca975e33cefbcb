import PluginBridge.Codec
import PluginBridge.Json.Printer
import PluginBridge.Protocol.Error
import PluginBridge.Region.Error
import PluginBridge.Stream.Error
namespace PluginBridge

inductive InvalidResponse where
  | missing (key : String) (response : Json)
  | region (error : RegionError)
  | tree (error : CodecError)
deriving Repr

def InvalidResponse.message : InvalidResponse → String
  | .missing key response => "missing \"" ++ key ++ "\" in " ++ response.render
  | .region e => "unreadable result: " ++ e.message
  | .tree e => "unreadable result: " ++ e.message

inductive DispatchError where
  | codec (error : CodecError)
  | region (error : RegionError)
  | protocol (error : ProtocolError)
  | stream (error : StreamError)
  | peer (text : String)
  | invalidResponse (reason : InvalidResponse)
deriving Repr

namespace DispatchError

def message : DispatchError → String
  | .codec e => e.message
  | .region e => e.message
  | .protocol e => e.message
  | .stream e => e.message
  | .peer text => "Plugin error: " ++ text
  | .invalidResponse reason => "Invalid response from peer: " ++ reason.message

-- An error that the peer answered is a failure of the plugin, any other one of the stream.
def ofStream : StreamError → DispatchError
  | .remote text => .peer text
  | e => .stream e

end DispatchError
end PluginBridge
