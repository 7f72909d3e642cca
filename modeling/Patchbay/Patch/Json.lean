/-
  Patchbay.Patch.Json — a patch as a JSON value. Diagnostics are left out.
-/

import Patchbay.Json.Value
import Patchbay.Patch

namespace Patchbay

open Json (Value)

/-- An object with the given members. -/
def jsonObject (members : List (String × Value)) : Value := .object (members.map fun (k, v) => (some k, v))

def Rate.toJson (r : Rate) : Value := .ofString (toString r)

def Description.toJson (d : Description) : Value := jsonObject [
  ("active_variation", .ofNat d.activeVariation),
  ("voices", .ofNat d.voices),
  ("mono", .bool d.mono)]

def PatchModule.toJson (m : PatchModule) : Value := jsonObject [
  ("type_id", .ofNat m.typeId),
  ("type_name", (m.typeName.map Value.ofString).getD .null),
  ("id", .ofNat m.id),
  ("area", .ofString m.area.name),
  ("inlet_rates", .array (m.inletRates.map Rate.toJson)),
  ("outlet_rates", .array (m.outletRates.map Rate.toJson)),
  ("inlet_buses", .array (m.inletBuses.map Value.ofNat)),
  ("outlet_buses", .array (m.outletBuses.map Value.ofNat))]

def Cable.toJson (c : Cable) : Value := jsonObject [
  ("area", .ofString c.area.name),
  ("kind", .ofString c.kind.name),
  ("color", .ofString c.color.name),
  ("module_from", .ofNat c.moduleFrom),
  ("jack_from", .ofNat c.jackFrom),
  ("module_to", .ofNat c.moduleTo),
  ("jack_to", .ofNat c.jackTo)]

def ParameterBlock.toJson (b : ParameterBlock) : Value := jsonObject [
  ("area", .ofString b.area.name),
  ("module_id", .ofNat b.moduleId),
  ("declared", .ofNat b.declared),
  ("values", .array (b.values.map Value.ofNat))]

def Patch.toJson (p : Patch) : Value := jsonObject [
  ("description", p.description.toJson),
  ("modules", .array (p.modules.map PatchModule.toJson)),
  ("cables", .array (p.cables.map Cable.toJson)),
  ("params", .array (p.params.map ParameterBlock.toJson))]

end Patchbay
