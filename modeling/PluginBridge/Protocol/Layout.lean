import PluginBridge.Codec
import PluginBridge.Json.Printer
import PluginBridge.Json.Record
import PluginBridge.Json.Shape
namespace PluginBridge

-- Offsets inside the control section. Every field is a 32-bit word; the argument slots
-- are `maxArgs` such words in a row.
structure ControlFields where
  requestReady : Nat
  responseReady : Nat
  functionId : Nat
  argCount : Nat
  argOffsets : Nat
  maxArgs : Nat
  resultOffset : Nat
  resultSize : Nat
  errorFlag : Nat
  errorOffset : Nat
  errorSize : Nat
  shutdown : Nat
  peerReady : Nat
deriving DecidableEq, Inhabited, Repr

structure Layout where
  controlOffset : Nat
  controlSize : Nat
  preloadOffset : Nat
  preloadSize : Nat
  argsOffset : Nat
  argsSize : Nat
  resultsOffset : Nat
  resultsSize : Nat
  errorOffset : Nat
  errorSize : Nat
  totalSize : Nat
  fields : ControlFields
deriving DecidableEq, Inhabited, Repr

def ControlFields.standard : ControlFields where
  requestReady := 0
  responseReady := 4
  functionId := 8
  argCount := 12
  argOffsets := 16
  maxArgs := 16
  resultOffset := 80
  resultSize := 84
  errorFlag := 88
  errorOffset := 92
  errorSize := 96
  shutdown := 100
  peerReady := 104

namespace Layout

def maxArgs : Nat := 16

def standard : Layout where
  controlOffset := 0
  controlSize := 4096
  preloadOffset := 4096
  preloadSize := 1048576
  argsOffset := 1052672
  argsSize := 1048576
  resultsOffset := 2101248
  resultsSize := 1048576
  errorOffset := 3149824
  errorSize := 65536
  totalSize := 3215360
  fields := .standard

def control (layout : Layout) (field : Nat) : Nat := layout.controlOffset + field

def argSlot (layout : Layout) (index : Nat) : Nat := layout.control layout.fields.argOffsets + index * 4

def sections (layout : Layout) : List (Nat × Nat) :=
  [(layout.controlOffset, layout.controlSize), (layout.preloadOffset, layout.preloadSize),
    (layout.argsOffset, layout.argsSize), (layout.resultsOffset, layout.resultsSize),
    (layout.errorOffset, layout.errorSize)]

def sectionLe (a b : Nat × Nat) : Bool := a.1 < b.1 || (a.1 == b.1 && a.2 ≤ b.2)

def apart : List (Nat × Nat) → Bool
  | a :: b :: rest => saturatingAdd a.1 a.2 ≤ b.1 && apart (b :: rest)
  | _ => true

-- Every section lies inside the region, none overlaps another, and the last control
-- field and the argument slots lie inside the control section.
def isConsistent (layout : Layout) : Bool :=
  let fields := layout.fields
  layout.sections.all (fun part => part.1 + part.2 < wordLimit && part.1 + part.2 ≤ layout.totalSize) &&
    apart (layout.sections.mergeSort sectionLe) &&
    saturatingAdd fields.peerReady 4 ≤ layout.controlSize &&
    saturatingAdd fields.argOffsets (saturatingMul fields.maxArgs 4) ≤ layout.controlSize

def fieldEntries (fields : ControlFields) : List (String × Nat) :=
  [("requestReady", fields.requestReady), ("responseReady", fields.responseReady),
    ("functionId", fields.functionId), ("argCount", fields.argCount),
    ("argOffsets", fields.argOffsets), ("maxArgs", fields.maxArgs),
    ("resultOffset", fields.resultOffset), ("resultSize", fields.resultSize),
    ("errorFlag", fields.errorFlag), ("errorOffset", fields.errorOffset),
    ("errorSize", fields.errorSize), ("shutdown", fields.shutdown), ("peerReady", fields.peerReady)]

def sectionEntries (layout : Layout) : List (String × Nat) :=
  [("controlOffset", layout.controlOffset), ("controlSize", layout.controlSize),
    ("preloadOffset", layout.preloadOffset), ("preloadSize", layout.preloadSize),
    ("argsOffset", layout.argsOffset), ("argsSize", layout.argsSize),
    ("resultsOffset", layout.resultsOffset), ("resultsSize", layout.resultsSize),
    ("errorOffset", layout.errorOffset), ("errorSize", layout.errorSize),
    ("totalSize", layout.totalSize)]

def naturals (entries : List (String × Nat)) : List (String × Json) :=
  entries.map fun entry => (entry.1, .natural entry.2)

def toJson (layout : Layout) : Json :=
  .ofEntries (naturals layout.sectionEntries ++ [("fields", .ofEntries (naturals (fieldEntries layout.fields)))])

def render (layout : Layout) : String :=
  Json.renderFields (naturals layout.sectionEntries ++
    [("fields", .object (naturals (fieldEntries layout.fields)))])

def fieldsOfJson? (json : Json) : Option ControlFields := do
  let members ← json.record? ((fieldEntries .standard).map Prod.fst)
  let field := fun name => Json.required members name Json.toWord?
  return {
    requestReady := ← field "requestReady"
    responseReady := ← field "responseReady"
    functionId := ← field "functionId"
    argCount := ← field "argCount"
    argOffsets := ← field "argOffsets"
    maxArgs := ← field "maxArgs"
    resultOffset := ← field "resultOffset"
    resultSize := ← field "resultSize"
    errorFlag := ← field "errorFlag"
    errorOffset := ← field "errorOffset"
    errorSize := ← field "errorSize"
    shutdown := ← field "shutdown"
    peerReady := ← field "peerReady" }

def ofJson? (json : Json) : Option Layout := do
  let members ← json.record? (((sectionEntries .standard).map Prod.fst) ++ ["fields"])
  let field := fun name => Json.required members name Json.toWord?
  return {
    controlOffset := ← field "controlOffset"
    controlSize := ← field "controlSize"
    preloadOffset := ← field "preloadOffset"
    preloadSize := ← field "preloadSize"
    argsOffset := ← field "argsOffset"
    argsSize := ← field "argsSize"
    resultsOffset := ← field "resultsOffset"
    resultsSize := ← field "resultsSize"
    errorOffset := ← field "errorOffset"
    errorSize := ← field "errorSize"
    totalSize := ← field "totalSize"
    fields := ← Json.required members "fields" fieldsOfJson? }

def wordShapes (entries : List (String × Nat)) : List (String × Bool × Json.Shape) :=
  entries.map fun entry => (entry.1, true, .word "usize")

def shape : Json.Shape :=
  let fields := Json.Shape.record "ControlFields" (wordShapes (fieldEntries .standard))
  .record "Layout" (wordShapes standard.sectionEntries ++ [("fields", true, fields)])

def ofJson : Json → Except Json.Fault Layout := shape.read ofJson?

end Layout
end PluginBridge
