import PluginBridge.Listing.Basic
import PluginBridge.Settings
namespace PluginBridge

instance : Listed Duration := ⟨fun duration => listing duration.millis⟩

instance : Listed Settings :=
  ⟨fun settings => .ofEntries [("mode", listing settings.mode.name),
    ("command", listing settings.command), ("args", listing settings.arguments),
    ("call_ms", listing settings.callTimeout), ("protocol_ms", listing settings.protocolTimeout),
    ("poll_us", listing settings.pollMicros), ("startup_ms", listing settings.startupTimeout),
    ("grace_ms", listing settings.shutdownGrace), ("cache", listing settings.cacheResults),
    ("preload", listing settings.preloadNames), ("limit", listing settings.capacity),
    ("log", listing settings.logFilter)]⟩

end PluginBridge
