/-
  Patchbay.Proofs.TemplateChecks — a check, the status page and compiling judge a template alike.

  Each asks the catalog and the source in an order of its own. What a check comes to is `Checked`,
  with one constructor for each way it can end:
  - `valid_checkTemplate_iff`, `findings_checkTemplate_eq_nil_iff`: when a check passes, and that
    it has findings else.
  - `templateStatus_eq_ok_iff`, `value_statusPage`: the rows of the status page.
  - `Compilation.accounted`: a type that compiles is missing, or has one validation.
  - `template_checkers_agree`: all three, for sources in which only regular files can be read.
-/

import Patchbay.Proofs.Compilation
import Patchbay.Report.TemplateCheck

namespace Patchbay

/-! ## Notes do not touch values -/

instance : LawfulMonad Logged :=
  .mk' Logged (fun l => congrArg (Logged.mk · l.value) (List.append_nil _)) (fun _ _ => rfl)
    fun _ _ _ => congrArg (Logged.mk · _) (List.append_assoc ..)

theorem Logged.value_mapM {α β : Type} (f : α → Logged β) (l : List α) :
    (l.mapM f).value = l.map fun a => (f a).value := by
  induction l with
  | nil => rfl
  | cons a l ih => rw [List.mapM_cons, value_bind, value_bind, value_pure, ih, List.map_cons]

/-! ## Sources of regular files -/

/-- What can be read is a regular file, not a device or a pipe. -/
def Disk.Plain (d : Disk) : Prop := ∀ p bytes, d.read p = .ok bytes → d.isFile p = true

theorem FileTree.plain_disk (t : FileTree) : t.disk.Plain := by
  intro p bytes h
  show (t.read p).isOk = true
  have hread : t.read p = .ok bytes := h
  rw [hread]
  rfl

namespace Template.Source

def Plain : Source → Prop
  | .directory disk _ => disk.Plain
  | .texts _ => True

variable {source : Source} {typeId : Nat}

/-- What can be loaded is there. -/
theorem contains_of_load (hplain : source.Plain) {t : Template} (h : (source.load typeId).value = .ok t) :
    source.contains typeId = true := by
  cases source with
  | directory disk root =>
    simp only [load, Disk.readText] at h
    cases hread : disk.read (pathFor root typeId) with
    | error fault =>
      rw [hread] at h
      cases fault <;> cases h
    | ok bytes => exact hplain _ _ hread
  | texts entries =>
    simp only [load] at h
    cases htext : textFor? entries typeId with
    | none => rw [htext] at h; cases h
    | some text => simp only [contains, htext, Option.isSome_some]

end Template.Source

namespace Report

open Template (Source)

variable {catalog : Catalog} {source : Source} {typeId : Nat}

/-! ## Checks -/

inductive Checked (catalog : Catalog) (source : Source) (typeId : Nat) : TemplateCheck → Prop
  | unknown : catalog.lookup typeId = none →
      Checked catalog source typeId (failed s!"error: unknown module type '{typeId}'")
  | absent {m : ModuleType} {n : Nat} : catalog.lookup typeId = some m →
      (source.load typeId).value = .error (.notFound n) →
      Checked catalog source typeId (failed s!"error: no template {typeId}.txt")
  | unloadable {m : ModuleType} {e : TemplateError} : catalog.lookup typeId = some m →
      (source.load typeId).value = .error e → (∀ n, e ≠ .notFound n) →
      Checked catalog source typeId (failed s!"error: {e.message}")
  | loaded {m : ModuleType} {t : Template} : catalog.lookup typeId = some m →
      (source.load typeId).value = .ok t → Checked catalog source typeId
        ⟨(t.validate catalog).isValid, (t.validate catalog).diagnostics.map Diagnostic.text⟩

theorem checked_checkTemplate (catalog : Catalog) (source : Source) (typeId : Nat) :
    Checked catalog source typeId (checkTemplate catalog source typeId).value := by
  unfold checkTemplate
  cases hlookup : catalog.lookup typeId with
  | none => exact .unknown hlookup
  | some m =>
    simp only [Logged.value_bind]
    cases hload : (source.load typeId).value with
    | ok t => exact .loaded hlookup hload
    | error e =>
      cases e with
      | notFound n => exact .absent hlookup hload
      | unreadable | malformed => exact .unloadable hlookup hload (by rintro n ⟨⟩)

theorem isValid_iff (v : Validation) : v.isValid = true ↔ v.mismatches = [] := List.isEmpty_iff

theorem valid_checkTemplate_iff : (checkTemplate catalog source typeId).value.valid = true ↔
    ∃ m t, catalog.lookup typeId = some m ∧ (source.load typeId).value = .ok t ∧
      (t.validate catalog).mismatches = [] := by
  have hcheck := checked_checkTemplate catalog source typeId
  generalize (checkTemplate catalog source typeId).value = check at hcheck ⊢
  cases hcheck with
  | unknown hlookup => simp [failed, hlookup]
  | absent hlookup hload => simp [failed, hload]
  | unloadable hlookup hload => simp [failed, hload]
  | loaded hlookup hload => simp [hlookup, hload, isValid_iff]

theorem findings_checkTemplate_eq_nil_iff : (checkTemplate catalog source typeId).value.findings = [] ↔
    (checkTemplate catalog source typeId).value.valid = true := by
  have hcheck := checked_checkTemplate catalog source typeId
  generalize (checkTemplate catalog source typeId).value = check at hcheck ⊢
  cases hcheck with
  | unknown | absent | unloadable => simp [failed]
  | loaded => simp [isValid_iff, Validation.diagnostics]

/-- The words that every finding starts with, and no state of a template that is well. -/
theorem exists_of_mem_findings {finding : String}
    (h : finding ∈ (checkTemplate catalog source typeId).value.findings) : ∃ rest, finding = "error" ++ rest := by
  have hcheck := checked_checkTemplate catalog source typeId
  generalize (checkTemplate catalog source typeId).value = check at hcheck h
  have hword (word : String) {start text : String} (hstart : start = "error" ++ word) :
      ∃ rest, start ++ text = "error" ++ rest := ⟨word ++ text, by rw [hstart, String.append_assoc]⟩
  have hfailed {text : String} (h : finding ∈ (failed text).findings) : finding = text := List.mem_singleton.1 h
  cases hcheck with
  | unknown =>
    obtain rfl := hfailed h
    simp only [String.append_assoc]
    exact hword ": unknown module type '" rfl
  | absent =>
    obtain rfl := hfailed h
    simp only [String.append_assoc]
    exact hword ": no template " rfl
  | unloadable =>
    obtain rfl := hfailed h
    exact hword ": " rfl
  | loaded =>
    obtain ⟨d, hd, rfl⟩ := List.mem_map.1 h
    obtain ⟨mismatch, -, rfl⟩ := List.mem_map.1 hd
    simp only [Diagnostic.text, String.append_assoc]
    exact ⟨_, rfl⟩

/-! ## Status page -/

theorem templateStatus_eq_ok_iff (hplain : source.Plain) : (templateStatus catalog source typeId).value = "ok" ↔
    (checkTemplate catalog source typeId).value.valid = true := by
  unfold templateStatus
  cases hcontains : source.contains typeId with
  | false =>
    -- What is not there is not loaded either, so its check fails.
    have hinvalid : ¬(checkTemplate catalog source typeId).value.valid = true := by
      rw [valid_checkTemplate_iff]
      rintro ⟨m, t, -, hload, -⟩
      rw [Source.contains_of_load hplain hload] at hcontains
      cases hcontains
    exact iff_of_false (show "not implemented" ≠ "ok" by decide) hinvalid
  | true =>
    simp only [if_true, Logged.value_bind, Logged.value_pure]
    cases hvalid : (checkTemplate catalog source typeId).value.valid with
    | true => exact iff_of_true rfl rfl
    | false =>
      refine iff_of_false ?_ Bool.false_ne_true
      rw [if_neg Bool.false_ne_true]
      cases hfindings : (checkTemplate catalog source typeId).value.findings with
      | nil =>
        rw [findings_checkTemplate_eq_nil_iff.1 hfindings] at hvalid
        cases hvalid
      | cons finding rest =>
        obtain ⟨text, rfl⟩ := exists_of_mem_findings (hfindings ▸ List.mem_cons_self)
        rw [String.intercalate_cons_append]
        intro heq
        have hletters := congrArg String.toList heq
        rw [String.toList_append] at hletters
        cases hletters

theorem value_statusPage (catalog : Catalog) (source : Source) : (statusPage catalog source).value =
    statusHeading ++ String.join (catalog.types.map fun t => (statusRow catalog source t).value) := by
  unfold statusPage
  rw [Logged.value_bind, Logged.value_pure, Logged.value_mapM]

end Report

/-! ## Compiled patches -/

theorem Template.typeId_validate (catalog : Catalog) (t : Template) : (t.validate catalog).typeId = t.typeId := by
  unfold validate
  cases catalog.lookup t.typeId <;> rfl

/-- A type has the validation of its template, if there is one, and no other. -/
theorem TemplateSet.filter_validations (s : TemplateSet) (catalog : Catalog) {types : List UsedType}
    (hnodup : (types.map UsedType.typeId).Nodup) {u : UsedType} (hu : u ∈ types) :
    (s.validations catalog types).filter (·.typeId = u.typeId) =
      ((s.get? u.typeId).map (Template.validate catalog)).toList := by
  have hother {l : List UsedType} (hl : u.typeId ∉ l.map UsedType.typeId) :
      (s.validations catalog l).filter (·.typeId = u.typeId) = [] := by
    refine List.filter_eq_nil_iff.2 fun v hv => ?_
    obtain ⟨t, ht, rfl⟩ := List.mem_map.1 hv
    obtain ⟨w, hw, hget⟩ := List.mem_filterMap.1 ht
    rw [Template.typeId_validate, typeId_of_get? hget, decide_eq_true_eq]
    exact fun heq => hl (heq ▸ List.mem_map_of_mem hw)
  obtain ⟨before, after, rfl⟩ := List.append_of_mem hu
  have hsplit : s.validations catalog (before ++ u :: after) = s.validations catalog before ++
      (((s.get? u.typeId).map (Template.validate catalog)).toList ++ s.validations catalog after) := by
    unfold validations
    rw [List.filterMap_append, List.filterMap_cons, List.map_append]
    cases s.get? u.typeId <;> rfl
  rw [List.map_append, List.map_cons, List.nodup_middle, List.nodup_cons, List.mem_append, not_or] at hnodup
  rw [hsplit, List.filter_append, List.filter_append, hother hnodup.1.1, hother hnodup.1.2, List.nil_append,
    List.append_nil, List.filter_eq_self]
  intro v hv
  obtain ⟨t, hget, rfl⟩ := Option.map_eq_some_iff.1 (Option.mem_toList.1 hv)
  rw [Template.typeId_validate, typeId_of_get? hget, decide_eq_true_eq]

namespace Compilation

variable {catalog : Catalog} {source : Template.Source} {o : DocumentOptions} {p : Patch} {c : Compiled}

/-- Of a type that occurs, the template is missing and there is no validation, or the template
    was loaded and has the one validation of the type. -/
theorem accounted (h : Compilation catalog source o p c) {m : PatchModule} (hm : m ∈ p.modules) :
    (m.typeId ∈ c.missing ∧ (∃ n, (source.load m.typeId).value = .error (.notFound n)) ∧
        c.validations.filter (·.typeId = m.typeId) = []) ∨
      (m.typeId ∉ c.missing ∧ ∃ t, (source.load m.typeId).value = .ok t ∧
        c.validations.filter (·.typeId = m.typeId) = [t.validate catalog]) := by
  have htypes : c.types = p.usedTypes := h.usedTypes_eq.trans (Patch.usedTypes_of_withoutBuses h.withoutBuses_eq)
  obtain ⟨u, hu, hum⟩ := Patch.exists_usedType_of_mem hm
  rw [← htypes] at hu
  have hnodup : (c.types.map UsedType.typeId).Nodup := htypes ▸ p.nodup_usedTypes
  have hload := h.types_eq ▸ h.load_eq
  have hasked : u.typeId ∈ c.types.map UsedType.typeId := List.mem_map_of_mem hu
  have hget := TemplateSet.get?_of_load hload u.typeId
  rw [if_pos hasked] at hget
  have hmissing : u.typeId ∈ c.missing ↔ c.templates.get? u.typeId = none := TemplateSet.mem_missing_of_load hload hu
  rw [← hum, hmissing, h.validations_eq, c.templates.filter_validations catalog hnodup hu, hget]
  unfold Template.Source.given?
  rcases TemplateSet.load_of_loadInto hload hasked with ⟨t, ht⟩ | ⟨n, hn⟩
  · rw [ht]
    exact Or.inr ⟨Option.some_ne_none t, t, rfl, rfl⟩
  · rw [hn]
    exact Or.inl ⟨rfl, ⟨n, rfl⟩, rfl⟩

end Compilation

namespace Report

open Template (Source)

theorem checkTemplate_of_absent {catalog : Catalog} {source : Source} {typeId : Nat} {m : ModuleType} {n : Nat}
    (hlookup : catalog.lookup typeId = some m) (hload : (source.load typeId).value = .error (.notFound n)) :
    (checkTemplate catalog source typeId).value = failed s!"error: no template {typeId}.txt" := by
  simp only [checkTemplate, hlookup, Logged.value_bind, hload, Logged.value_pure]

/-- A check passes iff the catalog has the type, the source loads its template, and the template
    agrees with the catalog; it has findings iff it does not pass. The status page is its heading
    and a row for each type of the catalog, by ascending id, which says `ok` iff the check of the
    type passes. When a patch compiles, a type that occurs in it and that the catalog has is
    missing, and then the check finds that it has no template, or it has one validation, which is
    valid iff the check passes. -/
theorem template_checkers_agree {catalog : Catalog} {source : Source} (hplain : source.Plain) :
    (∀ typeId, ((checkTemplate catalog source typeId).value.valid = true ↔
        ∃ m t, catalog.lookup typeId = some m ∧ (source.load typeId).value = .ok t ∧
          (t.validate catalog).mismatches = []) ∧
      ((checkTemplate catalog source typeId).value.findings = [] ↔
        (checkTemplate catalog source typeId).value.valid = true)) ∧
    ((statusPage catalog source).value = statusHeading ++ String.join (catalog.types.map fun t =>
        s!"| {t.id}.txt | {t.name} | {(templateStatus catalog source t.id).value} |\n") ∧
      catalog.types.Pairwise (fun t u => t.id < u.id) ∧
      ∀ typeId, (templateStatus catalog source typeId).value = "ok" ↔
        (checkTemplate catalog source typeId).value.valid = true) ∧
    ∀ (o : DocumentOptions) (p : Patch) (c : Compiled), (p.compile catalog source o).value = .ok c →
      ∀ m ∈ p.modules, (catalog.lookup m.typeId).isSome →
        (m.typeId ∈ c.missing ∧ c.validations.filter (·.typeId = m.typeId) = [] ∧
          (checkTemplate catalog source m.typeId).value = ⟨false, [s!"error: no template {m.typeId}.txt"]⟩) ∨
        (m.typeId ∉ c.missing ∧ ∃ v, c.validations.filter (·.typeId = m.typeId) = [v] ∧
          (v.isValid = true ↔ (checkTemplate catalog source m.typeId).value.valid = true)) := by
  refine ⟨fun typeId => ⟨valid_checkTemplate_iff, findings_checkTemplate_eq_nil_iff⟩,
    ⟨value_statusPage catalog source, catalog.ascending, fun typeId => templateStatus_eq_ok_iff hplain⟩,
    fun o p c hc m hm hknown => ?_⟩
  obtain ⟨h⟩ := Patch.exists_compilation hc
  obtain ⟨type, hlookup⟩ := Option.isSome_iff_exists.1 hknown
  rcases h.accounted hm with ⟨hmissing, ⟨n, hload⟩, hnone⟩ | ⟨hpresent, t, hload, hone⟩
  · exact Or.inl ⟨hmissing, hnone, checkTemplate_of_absent hlookup hload⟩
  · refine Or.inr ⟨hpresent, _, hone, ?_⟩
    rw [isValid_iff, valid_checkTemplate_iff]
    refine ⟨fun hvalid => ⟨type, t, hlookup, hload, hvalid⟩, ?_⟩
    rintro ⟨-, t', -, hload', hvalid⟩
    obtain rfl : t = t' := Except.ok.inj (hload.symm.trans hload')
    exact hvalid

def mixerTree : FileTree where
  files := [(["mixers", "7.txt"], ";@ args\n;@ ins a\n;@ outs a\n".toUTF8.toList)]

open Routing in
theorem template_checkers_agree_bridgedMixers :
    Source.Plain (.directory mixerTree.disk ⟨"mixers"⟩) ∧
    (checkTemplate mixers (.directory mixerTree.disk ⟨"mixers"⟩) 7).value = ⟨true, []⟩ ∧
    (templateStatus mixers (.directory mixerTree.disk ⟨"mixers"⟩) 7).value = "ok" ∧
    ∃ c v, (bridgedMixers.compile mixers (.directory mixerTree.disk ⟨"mixers"⟩) {}).value = .ok c ∧
      c.validations.filter (·.typeId = 7) = [v] ∧ v.isValid = true := by
  have hplain : Source.Plain (.directory mixerTree.disk ⟨"mixers"⟩) := mixerTree.plain_disk
  obtain ⟨hchecks, ⟨-, -, hstatus⟩, hcompiled⟩ := @template_checkers_agree mixers _ hplain
  have hcheck : (checkTemplate mixers (.directory mixerTree.disk ⟨"mixers"⟩) 7).value = ⟨true, []⟩ := by
    decide +kernel
  have hvalid := congrArg TemplateCheck.valid hcheck
  have hcompiles : (bridgedMixers.compile mixers (.directory mixerTree.disk ⟨"mixers"⟩) {}).value.toOption.isSome := by
    decide +kernel
  obtain ⟨c, hc⟩ := Option.isSome_iff_exists.1 hcompiles
  have hc := eq_ok_of_toOption_eq_some hc
  refine ⟨hplain, hcheck, (hstatus 7).2 hvalid, c, ?_⟩
  have hfirst : PatchModule.place mixers .voice 7 1 ∈ bridgedMixers.modules := List.mem_cons_self
  rcases hcompiled {} bridgedMixers c hc _ hfirst rfl with ⟨-, -, habsent⟩ | ⟨-, v, hone, hiff⟩
  · have hboth := habsent.symm.trans hcheck
    cases hboth
  · exact ⟨v, hc, hone, hiff.2 hvalid⟩

end Report

end Patchbay
