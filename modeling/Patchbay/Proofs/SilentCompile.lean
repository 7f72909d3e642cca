/-
  Patchbay.Proofs.SilentCompile — a compile that warns of nothing calls every opcode as it is
  defined.

  Templates, validation and stored parameters are warned of by three stages, none of which
  looks at a call. Together they leave no way for one to go wrong:
  - `Silent.exists_template`, `Silent.agrees`, `Silent.filled`: what each stage would have
    warned of.
  - `callFits_of_silent`: one call. It goes through the module type in the catalog: a module has
    the jacks of its type, and so has a template without mismatches.
  - `calls_fit_of_silent`: the document.
-/

import Patchbay.Proofs.Compilation

namespace Patchbay

/-! ## What fits -/

/-- From `start` on, the arguments are the buses of a module's jacks of one kind, and the jacks
    have these rates. -/
def PassesBuses (p : Patch) (position : Nat) (kind : JackKind) (rates : List Rate) (start : Nat)
    (arguments : List Nat) : Prop :=
  ∀ j < rates.length, ∃ bus, arguments[start + j]? = some bus ∧ p.bus? ⟨position, kind, j⟩ = some bus ∧
    p.rate? ⟨position, kind, j⟩ = rates[j]?

/-- The arguments of a module's call fit the opcode of a template: the signature has a letter for each,
    or is `0`. -/
structure CallFits (p : Patch) (position : Nat) (m : PatchModule) (t : Template) (arguments : List Nat) : Prop where
  opcode : t.typeId = m.typeId
  length : arguments.length = t.slots.count .args + t.slots.count .inlets + t.slots.count .outlets
  signature : if arguments = [] then t.signature = "0"
    else t.signature.length = arguments.length ∧ ∀ c ∈ t.signature.toList, c.isAlpha
  params : arguments.take (t.slots.count .args) = p.paramValues m.area m.id
  inlets : ∃ ins, t.slots.inlets = some ins ∧ PassesBuses p position .inlet ins (t.slots.count .args) arguments
  outlets : ∃ outs, t.slots.outlets = some outs ∧
    PassesBuses p position .outlet outs (t.slots.count .args + t.slots.count .inlets) arguments

theorem Template.signature_eq {t : Template} {n : Nat}
    (h : n = t.slots.count .args + t.slots.count .inlets + t.slots.count .outlets) :
    if n = 0 then t.signature = "0" else t.signature.length = n ∧ ∀ c ∈ t.signature.toList, c.isAlpha := by
  have hlen : ((t.slots.args.getD []).map ArgRate.letter ++
      List.replicate (t.slots.count .inlets + t.slots.count .outlets) 'i').length = n := by
    rw [List.length_append, List.length_map, List.length_replicate, h, ← Nat.add_assoc]
    rfl
  have hletters : ∀ c ∈ (t.slots.args.getD []).map ArgRate.letter ++
      List.replicate (t.slots.count .inlets + t.slots.count .outlets) 'i', c.isAlpha := by
    intro c hc
    rcases List.mem_append.1 hc with hc | hc
    · obtain ⟨r, -, rfl⟩ := List.mem_map.1 hc
      cases r <;> rfl
    · rw [List.eq_of_mem_replicate hc]
      rfl
  unfold signature
  generalize (t.slots.args.getD []).map ArgRate.letter ++
    List.replicate (t.slots.count .inlets + t.slots.count .outlets) 'i' = letters at hlen hletters
  subst hlen
  by_cases hnil : letters = []
  · simp [hnil]
  · simpa [hnil] using hletters

/-! ## Modules of a type -/

theorem PatchModule.rates_place {catalog : Catalog} {type : ModuleType} {typeId : Nat}
    (h : catalog.lookup typeId = some type) (area : Area) (id : Nat) :
    (place catalog area typeId id).inletRates = type.inlets ∧
      (place catalog area typeId id).outletRates = type.outlets := by
  unfold place
  rw [h]
  exact ⟨rfl, rfl⟩

/-- The buses of a fitted module stand in its call behind what comes before them. -/
theorem passesBuses_of_getElem? {p : Patch} (hfit : p.Fitted) {position : Nat} {m : PatchModule}
    (hm : p.modules[position]? = some m) (kind : JackKind) (before after : List Nat) :
    PassesBuses p position kind (m.rates kind) before.length (before ++ m.buses kind ++ after) := by
  intro j hj
  have hlen := hfit m (List.mem_of_getElem? hm) kind
  rw [← hlen] at hj
  refine ⟨(m.buses kind)[j], ?_, ?_, ?_⟩
  · rw [List.append_assoc, List.getElem?_append_right (Nat.le_add_right _ _), Nat.add_sub_cancel_left,
      List.getElem?_append_left hj, List.getElem?_eq_getElem hj]
  · simp only [Patch.bus?, hm, Option.bind_some, List.getElem?_eq_getElem hj]
  · simp only [Patch.rate?, hm, Option.bind_some]

/-- Types with their templates, where each has one. -/
theorem exists_defined {templates : TemplateSet} {types : List UsedType}
    (h : ∀ u ∈ types, ∃ t, templates.get? u.typeId = some t) :
    ∃ defined : List (UsedType × Template), defined.map Prod.fst = types ∧
      ∀ d ∈ defined, templates.get? d.1.typeId = some d.2 := by
  induction types with
  | nil => exact ⟨[], rfl, fun _ hd => absurd hd List.not_mem_nil⟩
  | cons u types ih =>
    obtain ⟨t, ht⟩ := h u List.mem_cons_self
    obtain ⟨defined, rfl, hdefined⟩ := ih fun v hv => h v (List.mem_cons_of_mem _ hv)
    refine ⟨(u, t) :: defined, rfl, fun d hd => ?_⟩
    rcases List.mem_cons.1 hd with rfl | hd
    · exact ht
    · exact hdefined d hd

/-! ## Silence -/

def Silent (events : List Event) : Prop := ∀ e ∈ events, e.level ≠ .warn

instance (events : List Event) : Decidable (Silent events) := inferInstanceAs (Decidable (∀ e ∈ events, _))

section

variable {catalog : Catalog} {source : Template.Source} {o : DocumentOptions} {p : Patch} {c : Compiled}

variable (h : Compilation catalog source o p c) (hs : Silent (p.compile catalog source o).events)

include h hs

namespace Silent

theorem exists_template {u : UsedType} (hu : u ∈ c.types) : ∃ t, c.templates.get? u.typeId = some t := by
  cases ht : c.templates.get? u.typeId with
  | some t => exact ⟨t, rfl⟩
  | none =>
    have hevent := TemplateSet.noTemplate_mem_events h.load_eq (h.types_eq ▸ hu) ht
    have hmem : .noTemplate u.typeId ∈ (p.compile catalog source o).events := by
      rw [h.events_eq]
      exact List.mem_append_right _ (List.mem_append_left _ hevent)
    exact absurd rfl (hs _ hmem)

theorem agrees {u : UsedType} (hu : u ∈ c.types) {t : Template} (ht : c.templates.get? u.typeId = some t) :
    ∃ type, catalog.lookup t.typeId = some type ∧ t.Matches type := by
  refine Template.mismatches_validate_eq_nil.1 (List.eq_nil_iff_forall_not_mem.2 fun mismatch hmem => ?_)
  have hv : t.validate catalog ∈ c.validations := h.mem_validations_iff.2 ⟨u, hu, t, ht, rfl⟩
  have hmem : .invalidTemplate (t.validate catalog).typeId mismatch ∈ (p.compile catalog source o).events := by
    rw [h.events_eq]
    refine List.mem_append_right _ (List.mem_append_right _ (List.mem_append_left _ ?_))
    exact List.mem_flatMap.2 ⟨_, hv, List.mem_map_of_mem hmem⟩
  exact absurd rfl (hs _ hmem)

theorem filled {m : PatchModule} (hm : m ∈ c.patch.modules) {t : Template}
    (ht : c.templates.get? m.typeId = some t) : (c.patch.paramValues m.area m.id).length = t.slots.count .args := by
  by_cases heq : t.slots.count .args = (c.patch.paramValues m.area m.id).length
  · exact heq.symm
  · have hwarning : Document.parameterWarning? c.patch c.templates m =
        some (.parameterCount m.area m.id (t.slots.count .args) (c.patch.paramValues m.area m.id).length) := by
      simp only [Document.parameterWarning?, ht, heq, if_false]
    have hmem : .parameterCount m.area m.id (t.slots.count .args) (c.patch.paramValues m.area m.id).length ∈
        (p.compile catalog source o).events := by
      rw [h.events_eq]
      refine List.mem_append_right _ (List.mem_append_right _ (List.mem_append_right _ ?_))
      exact List.mem_filterMap.2 ⟨m, hm, hwarning⟩
    exact absurd rfl (hs _ hmem)

end Silent

/-! ## Calls -/

/-- The call of a module fits the template of its type. -/
theorem callFits_of_silent {bytes : List UInt8} (hp : (Patch.ofBytes catalog bytes).value = .ok p) {position : Nat}
    {m : PatchModule} (hm : c.patch.modules[position]? = some m) {u : UsedType} (hu : u ∈ c.types)
    (hum : u.typeId = m.typeId) {t : Template} (ht : c.templates.get? u.typeId = some t) :
    CallFits c.patch position m t (c.patch.paramValues m.area m.id ++ m.inletBuses ++ m.outletBuses) := by
  have hfit := h.fitted (Patch.placed_ofBytes hp).fitted
  have hmem := List.mem_of_getElem? hm
  have htypeId : t.typeId = m.typeId := (TemplateSet.typeId_of_get? ht).trans hum
  obtain ⟨type, hlookup, hagrees⟩ := Silent.agrees h hs hu ht
  obtain ⟨n, hn, hmn⟩ := Patch.exists_module_of_withoutBuses h.withoutBuses_eq hm
  obtain ⟨area, typeId, id, rfl⟩ := Patch.eq_place_of_mem_ofBytes hp (List.mem_of_getElem? hn)
  have hplaced : m.typeId = typeId := (congrArg PatchModule.typeId hmn).trans (PatchModule.typeId_place ..)
  rw [htypeId, hplaced] at hlookup
  have hrates := PatchModule.rates_place hlookup area id
  have hinlets : m.inletRates = type.inlets := (congrArg PatchModule.inletRates hmn).trans hrates.1
  have houtlets : m.outletRates = type.outlets := (congrArg PatchModule.outletRates hmn).trans hrates.2
  -- The module and the template have the jacks of one catalog type; what is left is counting.
  have hparams := Silent.filled h hs hmem (hum ▸ ht)
  have hins : m.inletBuses.length = t.slots.count .inlets := by
    rw [Slots.count, hagrees.inlets, ← hinlets]
    exact hfit m hmem .inlet
  have houts : m.outletBuses.length = t.slots.count .outlets := by
    rw [Slots.count, hagrees.outlets, ← houtlets]
    exact hfit m hmem .outlet
  have hlength : (c.patch.paramValues m.area m.id ++ m.inletBuses ++ m.outletBuses).length =
      t.slots.count .args + t.slots.count .inlets + t.slots.count .outlets := by
    rw [List.length_append, List.length_append, hparams, hins, houts]
  refine ⟨htypeId, hlength, ?_, ?_, ⟨type.inlets, hagrees.inlets, ?_⟩, ⟨type.outlets, hagrees.outlets, ?_⟩⟩
  · have hsignature := Template.signature_eq hlength
    simpa only [List.length_eq_zero_iff] using hsignature
  · rw [← hparams, List.append_assoc, List.take_left]
  · rw [← hparams, ← hinlets]
    exact passesBuses_of_getElem? hfit hm .inlet _ _
  · rw [← hparams, ← hins, ← houtlets, ← List.length_append]
    have hpasses := passesBuses_of_getElem? hfit hm .outlet (c.patch.paramValues m.area m.id ++ m.inletBuses) []
    rw [List.append_nil] at hpasses
    exact hpasses

end

/-- A patch that compiles without a warning becomes a document in which every type of its
    modules has one definition, from the template of the source, and the call of each module fits
    that of its type. -/
theorem calls_fit_of_silent {catalog : Catalog} {bytes : List UInt8} {p : Patch} {source : Template.Source}
    {o : DocumentOptions} {c : Compiled} (hp : (Patch.ofBytes catalog bytes).value = .ok p)
    (hc : (p.compile catalog source o).value = .ok c) (hs : Silent (p.compile catalog source o).events) :
    c.patch.withoutBuses = p.withoutBuses ∧ ∃ (space : Rate → Nat) (defined : List (UsedType × Template)),
      c.text = Document.assembled o space
        (defined.map fun d => Document.definitionOf d.2.typeId d.1.name d.2.signature d.2.body ++ "\n")
        (c.patch.modules.map fun m =>
          Document.callOf m.typeId (c.patch.paramValues m.area m.id ++ m.inletBuses ++ m.outletBuses)) ∧
      (defined.map fun d => d.2.typeId).Nodup ∧
      (∀ d ∈ defined, (source.load d.2.typeId).value = .ok d.2 ∧
        ∃ m ∈ c.patch.modules, d.1.name = m.typeName ∧ d.2.typeId = m.typeId) ∧
      ∀ position m, c.patch.modules[position]? = some m → ∃ d ∈ defined,
        CallFits c.patch position m d.2 (c.patch.paramValues m.area m.id ++ m.inletBuses ++ m.outletBuses) := by
  obtain ⟨h⟩ := Patch.exists_compilation hc
  obtain ⟨defined, htypes, hdefined⟩ := exists_defined fun u hu => Silent.exists_template h hs hu
  have htypeId {d : UsedType × Template} (hd : d ∈ defined) : d.2.typeId = d.1.typeId :=
    TemplateSet.typeId_of_get? (hdefined d hd)
  have hmem {d : UsedType × Template} (hd : d ∈ defined) : d.1 ∈ c.types := htypes ▸ List.mem_map_of_mem hd
  have hdefinitions : c.types.map (Document.definition c.templates) =
      defined.map fun d => Document.definitionOf d.2.typeId d.1.name d.2.signature d.2.body ++ "\n" := by
    rw [← htypes, List.map_map]
    refine List.map_congr_left fun d hd => ?_
    simp only [Function.comp_apply, Document.definition, hdefined d hd, Document.definition_eq_definitionOf]
  refine ⟨h.withoutBuses_eq, h.routed.counter.spaceSize, defined, ?_, ?_, ?_, ?_⟩
  · rw [h.text_eq, Document.render_eq_assembled, hdefinitions]
  · have hids : defined.map (fun d => d.2.typeId) = c.types.map UsedType.typeId := by
      rw [← htypes, List.map_map]
      exact List.map_congr_left fun d hd => htypeId hd
    rw [hids, h.usedTypes_eq]
    exact c.patch.nodup_usedTypes
  · intro d hd
    obtain ⟨m, hm, hd'⟩ := Patch.exists_module_of_mem_usedTypes (h.usedTypes_eq ▸ hmem hd)
    refine ⟨?_, m, hm, congrArg UsedType.name hd', (htypeId hd).trans (congrArg UsedType.typeId hd')⟩
    rw [htypeId hd]
    exact TemplateSet.load_of_get? (h.types_eq ▸ h.load_eq) (hdefined d hd)
  · intro position m hm
    obtain ⟨u, hu, hum⟩ := Patch.exists_usedType_of_mem (List.mem_of_getElem? hm)
    rw [← h.usedTypes_eq, ← htypes] at hu
    obtain ⟨d, hd, rfl⟩ := List.mem_map.1 hu
    exact ⟨d, hd, callFits_of_silent h hs hp hm (hmem hd) hum (hdefined d hd)⟩

def mixerTexts : Template.Source := .texts [(7, ";@ args\n;@ ins a\n;@ outs a\niIn, iOut xin\nzaw zar(iIn), iOut\n")]

def mixerTemplate : Template :=
  ⟨7, ⟨some [], some [.audio], some [.audio]⟩, "iIn, iOut xin\nzaw zar(iIn), iOut", "<template 7>"⟩

open Routing in
theorem calls_fit_of_silent_bridgedMixers :
    (Patch.ofBytes mixers bridgedMixersFile).value = .ok bridgedMixers ∧
    Silent (bridgedMixers.compile mixers mixerTexts {}).events ∧
    ∃ c, (bridgedMixers.compile mixers mixerTexts {}).value = .ok c ∧
      (∃ space calls, c.text = Document.assembled {} space
        ["; Mixer (type 7)\nopcode Mod7, 0, ii\niIn, iOut xin\nzaw zar(iIn), iOut\nendop\n\n"] calls) ∧
      ∃ m, c.patch.modules[2]? = some m ∧
        CallFits c.patch 2 m mixerTemplate (c.patch.paramValues m.area m.id ++ m.inletBuses ++ m.outletBuses) := by
  have hbytes : (Patch.ofBytes mixers bridgedMixersFile).value = .ok bridgedMixers := by decide +kernel
  have hsilent : Silent (bridgedMixers.compile mixers mixerTexts {}).events := by decide +kernel
  have htypes : ((bridgedMixers.compile mixers mixerTexts {}).value.toOption.map fun c =>
      c.patch.modules.map fun m => (m.typeId, m.typeName)) = some (List.replicate 3 (7, some "Mixer")) := by
    decide +kernel
  have hload : (mixerTexts.load 7).value = .ok mixerTemplate := by decide +kernel
  obtain ⟨c, hc, htypes⟩ := Option.map_eq_some_iff.1 htypes
  have hc := eq_ok_of_toOption_eq_some hc
  obtain ⟨-, space, defined, htext, hnodup, hloaded, hcalls⟩ := calls_fit_of_silent hbytes hc hsilent
  have hdefined {d : UsedType × Template} (hd : d ∈ defined) : d.1.name = some "Mixer" ∧ d.2 = mixerTemplate := by
    obtain ⟨hd, m, hm, hname, htype⟩ := hloaded d hd
    have hmem := List.mem_map_of_mem (f := fun m => (m.typeId, m.typeName)) hm
    rw [htypes] at hmem
    obtain ⟨hseven, hmixer⟩ := Prod.mk.inj (List.eq_of_mem_replicate hmem)
    rw [htype, hseven] at hd
    exact ⟨hname.trans hmixer, Except.ok.inj (hd.symm.trans hload)⟩
  have hthird : (c.patch.modules.map fun m => (m.typeId, m.typeName))[2]? = some (7, some "Mixer") := by
    rw [htypes]
    rfl
  rw [List.getElem?_map] at hthird
  obtain ⟨m, hm, -⟩ := Option.map_eq_some_iff.1 hthird
  obtain ⟨d, hd, hfits⟩ := hcalls 2 m hm
  obtain ⟨hname, hdt⟩ := hdefined hd
  rw [hdt] at hfits
  -- All modules are of one type, so there is one definition.
  have hone : defined = [d] := by
    cases defined with
    | nil => cases hd
    | cons e rest =>
      cases rest with
      | nil => rw [List.mem_singleton.1 hd]
      | cons e' rest =>
        have he := hdefined (d := e) List.mem_cons_self
        have he' := hdefined (d := e') (List.mem_cons_of_mem _ List.mem_cons_self)
        simp [he.2, he'.2] at hnodup
  have hblock : Document.definitionOf mixerTemplate.typeId (some "Mixer") mixerTemplate.signature mixerTemplate.body ++
      "\n" = "; Mixer (type 7)\nopcode Mod7, 0, ii\niIn, iOut xin\nzaw zar(iIn), iOut\nendop\n\n" := by decide +kernel
  rw [hone, List.map_singleton, hname, hdt, hblock] at htext
  exact ⟨hbytes, hsilent, c, hc, ⟨space, _, htext⟩, m, hm, hfits⟩

end Patchbay
