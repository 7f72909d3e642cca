/-
  Patchbay.Report.TemplateCheck — the state of templates, one type at a time or all.

  A check fails if the catalog lacks the type, its template cannot be loaded, or the
  template does not agree with the catalog; it then has findings, one text for each.
-/

import Patchbay.Template.Source

namespace Patchbay.Report

structure TemplateCheck where
  valid : Bool
  findings : List String
  deriving DecidableEq, Repr

def failed (finding : String) : TemplateCheck := ⟨false, [finding]⟩

def checkTemplate (catalog : Catalog) (source : Template.Source) (typeId : Nat) : Logged TemplateCheck := do
  match catalog.lookup typeId with
  | none => return failed s!"error: unknown module type '{typeId}'"
  | some _ =>
    match ← source.load typeId with
    | .error (.notFound _) => return failed s!"error: no template {typeId}.txt"
    | .error e => return failed s!"error: {e.message}"
    | .ok t =>
      let v := t.validate catalog
      return ⟨v.isValid, v.diagnostics.map Diagnostic.text⟩

/-- The text of a check and whether it passed. -/
def checkReport (catalog : Catalog) (source : Template.Source) (typeId : Nat) : Logged (String × Bool) := do
  let check ← checkTemplate catalog source typeId
  let name := match catalog.lookup typeId with
    | some t => s!"module name: {t.name}\n"
    | none => ""
  let findings := String.join (check.findings.map (· ++ "\n"))
  let verdict := if check.valid then "ok\n" else ""
  return (s!"checking module type '{typeId}' ({typeId}.txt)\n" ++ name ++ findings ++ verdict, check.valid)

/-! ## Status page -/

/-- The state of a type's template in few words. -/
def templateStatus (catalog : Catalog) (source : Template.Source) (typeId : Nat) : Logged String := do
  if source.contains typeId then
    let check ← checkTemplate catalog source typeId
    return if check.valid then "ok" else "<br>".intercalate check.findings
  else return "not implemented"

def statusRow (catalog : Catalog) (source : Template.Source) (t : ModuleType) : Logged String := do
  let status ← templateStatus catalog source t.id
  return s!"| {t.id}.txt | {t.name} | {status} |\n"

def statusHeading : String :=
  "This file is automatically generated.\n\n| Template | Module name | Status |\n|----------|-------------|--------|\n"

/-- A row for each type of the catalog, in the order of their ids. -/
def statusPage (catalog : Catalog) (source : Template.Source) : Logged String := do
  let rows ← catalog.types.mapM (statusRow catalog source)
  return statusHeading ++ String.join rows

end Patchbay.Report
