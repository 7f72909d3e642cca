/-
  Patchbay.Proofs.Compilation — a compiled patch, stage by stage.

  - `nodup_usedTypes`, `firstSeen_usedTypes`: the types of a patch, each once, as they come first.
  - `Patch.exists_compilation`: what compiles was routed, has its templates loaded and
    validated, and noted what each of these stages did.
  - `definition_eq_definitionOf`, `callLine_eq_callOf`: a definition and a call, written out.
  - `render_eq_assembled`: a document as the numbers, definitions and calls it consists of.
-/

import Patchbay.Conversion
import Patchbay.Proofs.SignalFlow
import Patchbay.Proofs.TemplateLoading

namespace Patchbay

namespace Patch

/-! ## Used types -/

/-- One element more, unless one with its key was seen. -/
theorem firstBy_concat {α : Type} (key : α → Nat) (l : List α) (a : α) :
    firstBy key (l ++ [a]) = if key a ∈ (firstBy key l).map key then firstBy key l else firstBy key l ++ [a] := by
  have hseen (seen : List α) : seen.any (key · == key a) = decide (key a ∈ seen.map key) := by
    rw [Bool.eq_iff_iff]
    simp
  have hconcat : firstBy key (l ++ [a]) =
      if (firstBy key l).any (key · == key a) then firstBy key l else firstBy key l ++ [a] := List.foldl_append ..
  rw [hconcat, hseen]
  simp only [decide_eq_true_eq]

theorem mem_map_firstBy {α : Type} {key : α → Nat} {l : List α} {k : Nat} :
    k ∈ (firstBy key l).map key ↔ k ∈ l.map key := by
  induction l using List.reverseRecOn with
  | nil => exact Iff.rfl
  | append_singleton l a ih =>
    rw [firstBy_concat, List.map_append, List.mem_append, ← ih]
    by_cases ha : key a ∈ (firstBy key l).map key
    · rw [if_pos ha]
      refine ⟨Or.inl, fun h => ?_⟩
      rcases h with h | h
      · exact h
      · rw [List.mem_singleton.1 h]
        exact ha
    · rw [if_neg ha, List.map_append, List.mem_append]

theorem mem_of_mem_firstBy {α : Type} {key : α → Nat} {l : List α} {a : α} (h : a ∈ firstBy key l) : a ∈ l := by
  induction l using List.reverseRecOn with
  | nil => exact h
  | append_singleton l b ih =>
    rw [firstBy_concat] at h
    split at h
    · exact List.mem_append_left _ (ih h)
    · rcases List.mem_append.1 h with h | h
      · exact List.mem_append_left _ (ih h)
      · exact List.mem_append_right _ h

theorem nodup_map_firstBy {α : Type} (key : α → Nat) (l : List α) : ((firstBy key l).map key).Nodup := by
  induction l using List.reverseRecOn with
  | nil => exact List.nodup_nil
  | append_singleton l a ih =>
    rw [firstBy_concat]
    split
    · exact ih
    · next ha =>
      rw [List.map_append, List.map_singleton, ← List.concat_eq_append]
      exact List.Nodup.concat ha ih

/-- The keys of a list, each once, in the order in which they come first there. -/
def FirstSeen (l keys : List Nat) : Prop := (∀ k, k ∈ keys ↔ k ∈ l) ∧ keys.Pairwise fun a b => l.idxOf a < l.idxOf b

theorem firstSeen_firstBy {α : Type} (key : α → Nat) (l : List α) :
    FirstSeen (l.map key) ((firstBy key l).map key) := by
  refine ⟨fun k => mem_map_firstBy, ?_⟩
  induction l using List.reverseRecOn with
  | nil => exact .nil
  | append_singleton l a ih =>
    have hold {k : Nat} (hk : k ∈ (firstBy key l).map key) :
        ((l ++ [a]).map key).idxOf k = (l.map key).idxOf k := by
      rw [List.map_append, List.idxOf_append_of_mem (mem_map_firstBy.1 hk)]
    have hih : ((firstBy key l).map key).Pairwise
        fun b c => ((l ++ [a]).map key).idxOf b < ((l ++ [a]).map key).idxOf c :=
      ih.imp_of_mem fun hb hc h => by rwa [hold hb, hold hc]
    rw [firstBy_concat]
    split
    · exact hih
    · next ha =>
      have hkeys : (firstBy key l ++ [a]).map key = (firstBy key l).map key ++ [key a] := List.map_append
      rw [hkeys, List.pairwise_append]
      refine ⟨hih, List.pairwise_singleton _ _, fun b hb c hc => ?_⟩
      obtain rfl := List.mem_singleton.1 hc
      have hnew : key a ∉ l.map key := fun h => ha (mem_map_firstBy.2 h)
      rw [hold hb, List.map_append, List.idxOf_append_of_notMem hnew]
      exact Nat.lt_add_right _ (List.idxOf_lt_length_of_mem (mem_map_firstBy.1 hb))

variable {p q : Patch}

theorem nodup_usedTypes (p : Patch) : (p.usedTypes.map UsedType.typeId).Nodup := nodup_map_firstBy _ _

theorem firstSeen_usedTypes (p : Patch) :
    FirstSeen (p.modules.map PatchModule.typeId) (p.usedTypes.map UsedType.typeId) := by
  have hseen := firstSeen_firstBy UsedType.typeId (p.modules.map fun m => (⟨m.typeId, m.typeName⟩ : UsedType))
  rwa [List.map_map] at hseen

theorem exists_module_of_mem_usedTypes {u : UsedType} (h : u ∈ p.usedTypes) :
    ∃ m ∈ p.modules, u = ⟨m.typeId, m.typeName⟩ := by
  obtain ⟨m, hm, rfl⟩ := List.mem_map.1 (mem_of_mem_firstBy h)
  exact ⟨m, hm, rfl⟩

theorem exists_usedType_of_mem {m : PatchModule} (h : m ∈ p.modules) : ∃ u ∈ p.usedTypes, u.typeId = m.typeId := by
  have hmem : m.typeId ∈ p.usedTypes.map UsedType.typeId :=
    mem_map_firstBy.2 (List.mem_map_of_mem (List.mem_map_of_mem h))
  exact List.mem_map.1 hmem

/-! ## Patches that differ in buses only -/

theorem cables_of_withoutBuses (h : q.withoutBuses = p.withoutBuses) : q.cables = p.cables :=
  show q.withoutBuses.cables = p.withoutBuses.cables from congrArg Patch.cables h

theorem paramValues_of_withoutBuses (h : q.withoutBuses = p.withoutBuses) (area : Area) (id : Nat) :
    q.paramValues area id = p.paramValues area id :=
  show q.withoutBuses.paramValues area id = p.withoutBuses.paramValues area id from
    congrArg (Patch.paramValues · area id) h

theorem map_withoutBuses_eq (h : q.withoutBuses = p.withoutBuses) :
    q.modules.map PatchModule.withoutBuses = p.modules.map PatchModule.withoutBuses := congrArg Patch.modules h

theorem getElem?_of_withoutBuses (h : q.withoutBuses = p.withoutBuses) (k : Nat) :
    q.modules[k]?.map PatchModule.withoutBuses = p.modules[k]?.map PatchModule.withoutBuses := by
  rw [← List.getElem?_map, ← List.getElem?_map, map_withoutBuses_eq h]

theorem exists_module_of_withoutBuses (h : q.withoutBuses = p.withoutBuses) {k : Nat} {m : PatchModule}
    (hm : q.modules[k]? = some m) : ∃ n, p.modules[k]? = some n ∧ m.withoutBuses = n.withoutBuses := by
  have hk := getElem?_of_withoutBuses h k
  rw [hm, Option.map_some] at hk
  obtain ⟨n, hn, hmn⟩ := Option.map_eq_some_iff.1 hk.symm
  exact ⟨n, hn, hmn.symm⟩

theorem rate?_of_withoutBuses (h : q.withoutBuses = p.withoutBuses) (j : Jack) : q.rate? j = p.rate? j := by
  have hrate (p : Patch) : p.rate? j = p.withoutBuses.rate? j := by
    simp only [rate?, withoutBuses, List.getElem?_map, Option.bind_map]
    rfl
  rw [hrate q, hrate p, h]

theorem usedTypes_of_withoutBuses (h : q.withoutBuses = p.withoutBuses) : q.usedTypes = p.usedTypes := by
  have htypes (p : Patch) : p.usedTypes =
      firstBy UsedType.typeId ((p.modules.map PatchModule.withoutBuses).map fun m => ⟨m.typeId, m.typeName⟩) := by
    rw [List.map_map]
    rfl
  rw [htypes, htypes, map_withoutBuses_eq h]

/-- Modules that differ in buses only, and have the same ones, are one module. -/
theorem getElem?_eq_of_bus?_eq {i k : Nat}
    (h : q.modules[i]?.map PatchModule.withoutBuses = p.modules[k]?.map PatchModule.withoutBuses)
    (hbus : ∀ kind index, q.bus? ⟨i, kind, index⟩ = p.bus? ⟨k, kind, index⟩) : q.modules[i]? = p.modules[k]? := by
  simp only [bus?] at hbus
  cases hm : q.modules[i]? with
  | none =>
    rw [hm, Option.map_none] at h
    exact (Option.map_eq_none_iff.1 h.symm).symm
  | some m =>
    rw [hm, Option.map_some] at h
    obtain ⟨n, hn, hmn⟩ := Option.map_eq_some_iff.1 h.symm
    have hbuses (kind : JackKind) : m.buses kind = n.buses kind := by
      refine List.ext_getElem? fun index => ?_
      have := hbus kind index
      rwa [hm, hn] at this
    rw [hn, PatchModule.eq_of_buses_eq hmn.symm hbuses]

/-- Patches with the same jacks on the same buses are one patch. -/
theorem eq_of_bus?_eq (h : q.withoutBuses = p.withoutBuses) (hbus : ∀ j, q.bus? j = p.bus? j) : q = p := by
  have hmodules : q.modules = p.modules :=
    List.ext_getElem? fun k =>
      getElem?_eq_of_bus?_eq (getElem?_of_withoutBuses h k) fun kind index => hbus ⟨k, kind, index⟩
  have hparts (p : Patch) : p = { p.withoutBuses with modules := p.modules } := rfl
  rw [hparts q, hparts p, h, hmodules]

end Patch

/-! ## Stages -/

theorem Patch.types_of_connect {counter : BusCounter} {p : Patch} {routed : Routing.Routed}
    (h : p.connect counter = .ok routed) : routed.types = routed.patch.usedTypes := by
  unfold Patch.connect at h
  rw [Routing.route_eq] at h
  cases hl : Routing.links p [] 0 p.cables with
  | error e => simp [hl] at h
  | ok ls =>
    simp only [hl, Except.ok.injEq] at h
    subst h
    rfl

structure Compilation (catalog : Catalog) (source : Template.Source) (o : DocumentOptions) (p : Patch) (c : Compiled) where
  routed : Routing.Routed
  connect_eq : p.connect {} = .ok routed
  load_eq : (TemplateSet.load source routed.types).value = .ok c.templates
  patch_eq : c.patch = routed.patch
  types_eq : c.types = routed.types
  validations_eq : c.validations = c.templates.validations catalog c.types
  text_eq : c.text = Document.render c.patch routed.counter c.types c.templates o
  events_eq : (p.compile catalog source o).events = routed.events ++ ((TemplateSet.load source routed.types).events ++
    (c.validations.flatMap Validation.events ++ Document.warnings c.patch c.templates))

section

variable {catalog : Catalog} {source : Template.Source} {o : DocumentOptions} {p : Patch} {c : Compiled}

theorem Patch.exists_compilation (h : (p.compile catalog source o).value = .ok c) :
    Nonempty (Compilation catalog source o p c) := by
  unfold Patch.compile at h
  cases hconnect : p.connect {} with
  | error e => rw [hconnect] at h; cases h
  | ok routed =>
    cases hload : (TemplateSet.load source routed.types).value with
    | error e => simp only [hconnect, Logged.value_bind, hload] at h; cases h
    | ok templates =>
      simp only [hconnect, Logged.value_bind, hload] at h
      cases h
      refine ⟨⟨routed, hconnect, hload, rfl, rfl, rfl, rfl, ?_⟩⟩
      unfold Patch.compile
      simp only [hconnect, Logged.events_bind, hload]
      simp [Logged.noteAll]

namespace Compilation

theorem withoutBuses_eq (h : Compilation catalog source o p c) : c.patch.withoutBuses = p.withoutBuses := by
  obtain ⟨ls, -, hrouted⟩ := Patch.exists_links_of_connect h.connect_eq
  rw [h.patch_eq, hrouted]
  exact Routing.withoutBuses_committed _ _

theorem fitted (h : Compilation catalog source o p c) (hfit : p.Fitted) : c.patch.Fitted := by
  obtain ⟨ls, -, hrouted⟩ := Patch.exists_links_of_connect h.connect_eq
  rw [h.patch_eq, hrouted]
  exact Routing.fitted_committed hfit _

theorem usedTypes_eq (h : Compilation catalog source o p c) : c.types = c.patch.usedTypes := by
  rw [h.types_eq, h.patch_eq]
  exact Patch.types_of_connect h.connect_eq

/-- The validations are those of the templates of the types. -/
theorem mem_validations_iff (h : Compilation catalog source o p c) {v : Validation} :
    v ∈ c.validations ↔ ∃ u ∈ c.types, ∃ t, c.templates.get? u.typeId = some t ∧ t.validate catalog = v := by
  rw [h.validations_eq]
  unfold TemplateSet.validations
  simp only [List.mem_map, List.mem_filterMap]
  grind

end Compilation

end

/-! ## Documents -/

namespace Document

def assembled (o : DocumentOptions) (space : Rate → Nat) (definitions calls : List String) : String :=
  "<CsoundSynthesizer>\n<CsInstruments>\n" ++
  settings o ++
  s!"zakinit {space .audio}, {space .control}\n\n" ++
  String.join definitions ++
  "instr 1\n" ++
  String.join calls ++
  s!"zacl 0, {space .audio - 1}\nzkcl 0, {space .control - 1}\n" ++
  "endin\n</CsInstruments>\n<CsScore>\n" ++
  score o ++
  "</CsScore>\n</CsoundSynthesizer>\n"

/-- The lines that define a type's opcode: a comment with its name, the head with the inputs, the
    body unless it is empty, and the end. -/
def definitionOf (typeId : Nat) (name : Option String) (inputs body : String) : String :=
  let title := name.getD "?"
  s!"; {title} (type {typeId})\n" ++
  s!"opcode Mod{typeId}, 0, {inputs}\n" ++
  (if body = "" then "" else body ++ "\n") ++
  "endop\n"

theorem definition_eq_definitionOf (t : Template) (name : Option String) :
    t.definition name = definitionOf t.typeId name t.signature t.body := by
  have hhead : toString "opcode Mod" = toString "opcode " ++ "Mod" := rfl
  have hname : toString (Template.opcodeName t.typeId) = "Mod" ++ toString t.typeId := rfl
  simp only [Template.definition, definitionOf, hhead, hname, ← String.append_assoc]

/-- The line that passes arguments to a type's opcode; with none it is the bare name. -/
def callOf (typeId : Nat) (arguments : List Nat) : String :=
  if arguments = [] then s!"Mod{typeId}" ++ "\n"
  else s!"Mod{typeId}" ++ " " ++ ", ".intercalate (arguments.map toString) ++ "\n"

theorem callLine_eq_callOf (p : Patch) (m : PatchModule) :
    callLine p m = callOf m.typeId (p.paramValues m.area m.id ++ m.inletBuses ++ m.outletBuses) := by
  unfold callLine callOf Template.call Template.callArguments
  by_cases h : p.paramValues m.area m.id ++ m.inletBuses ++ m.outletBuses = []
  · simp only [h, List.isEmpty_nil, if_true]
    rfl
  · simp only [h, List.isEmpty_iff, if_false]
    rfl

theorem render_eq_assembled (p : Patch) (counter : BusCounter) (types : List UsedType) (templates : TemplateSet)
    (o : DocumentOptions) : render p counter types templates o =
      assembled o counter.spaceSize (types.map (definition templates)) (p.modules.map fun m =>
        callOf m.typeId (p.paramValues m.area m.id ++ m.inletBuses ++ m.outletBuses)) := by
  have hcalls : p.modules.map (callLine p) = p.modules.map fun m =>
      callOf m.typeId (p.paramValues m.area m.id ++ m.inletBuses ++ m.outletBuses) :=
    List.map_congr_left fun m _ => callLine_eq_callOf p m
  have hhighest (r : Rate) : counter.highest r = counter.spaceSize r - 1 := rfl
  unfold render assembled busSpace clearing
  rw [hcalls, hhighest, hhighest]

end Document

end Patchbay
