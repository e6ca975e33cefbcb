namespace PluginBridge.Text

-- A class of characters as the first and last number of each run of them.
abbrev Runs := List (Nat × Nat)

def Runs.hold (runs : Runs) (c : Char) : Bool :=
  runs.any fun run => run.1 ≤ c.toNat && c.toNat ≤ run.2

end PluginBridge.Text
