/-
  Patchbay.Proofs.DecodedPatch — what holds of every patch that was decoded.

  A decoded patch says what the sections of a file say, and a section can say only what its
  fields hold, so the ranges and counts of `Decoded` need no check of their own:
  - `fits_said`, `decoded_patch`: the values of a file, section by section and then all together.
  - `findModule?_eq_some_iff`: where no module is declared twice, a lookup finds the module itself.
  - `holds_of_mem_located`, `forall₂_diagnostics`: each finding names the bytes of the section that
    declares its module.
  - `decoded_patches_are_well_formed`: all of this for bytes that decode.
-/

import Patchbay.Proofs.Acceptance
import Patchbay.Proofs.Compilation

namespace Patchbay

open Container

/-- A module has the name and the jacks of its type, none if the catalog lacks the type, and its
    jacks are on the reserved buses. -/
structure PatchModule.AsCataloged (catalog : Catalog) (m : PatchModule) : Prop where
  typeName_eq : m.typeName = (catalog.lookup m.typeId).map (·.name)
  inletRates_eq : m.inletRates = ((catalog.lookup m.typeId).map (·.inlets)).getD []
  outletRates_eq : m.outletRates = ((catalog.lookup m.typeId).map (·.outlets)).getD []
  inletBuses_eq : m.inletBuses = List.replicate m.inletRates.length 0
  outletBuses_eq : m.outletBuses = List.replicate m.outletRates.length 1

structure Patch.Decoded (catalog : Catalog) (p : Patch) : Prop where
  description_lt : p.description.activeVariation < 256 ∧ p.description.voices < 32
  nodup_addresses : (p.modules.map PatchModule.address).Nodup
  module_spec : ∀ m ∈ p.modules, m.AsCataloged catalog ∧ m.typeId < 256 ∧ m.id < 256
  cable_lt : ∀ c ∈ p.cables, c.moduleFrom < 256 ∧ c.jackFrom < 64 ∧ c.moduleTo < 256 ∧ c.jackTo < 64
  block_spec : ∀ b ∈ p.params, b.moduleId < 256 ∧ b.declared = b.values.length ∧ b.values.length ≤ 127 ∧
    ∀ v ∈ b.values, v < 128

/-! ## Lookups -/

theorem PatchModule.asCataloged_place (catalog : Catalog) (area : Area) (typeId id : Nat) :
    (place catalog area typeId id).AsCataloged catalog := by
  unfold place
  cases h : catalog.lookup typeId with
  | none => exact ⟨by rw [h]; rfl, by rw [h]; rfl, by rw [h]; rfl, rfl, rfl⟩
  | some t =>
    exact ⟨by rw [h]; rfl, by rw [h]; rfl, by rw [h]; rfl, List.map_const' .., List.map_const' ..⟩

theorem PatchModule.AsCataloged.isKnown_eq {catalog : Catalog} {m : PatchModule} (h : m.AsCataloged catalog) :
    m.isKnown = (catalog.lookup m.typeId).isSome := by
  rw [isKnown, h.typeName_eq, Option.isSome_map]

namespace Patch

variable {p : Patch}

/-- Where every address is that of one module, a lookup finds the module itself. -/
theorem findModule?_eq_some_iff (h : (p.modules.map PatchModule.address).Nodup) {id : Nat} {area : Area}
    {m : PatchModule} : p.findModule? id area = some m ↔ m ∈ p.modules ∧ m.id = id ∧ m.area = area := by
  constructor
  · intro hfind
    have hkey := List.find?_some hfind
    exact ⟨List.mem_of_find?_eq_some hfind, by simpa using hkey⟩
  · rintro ⟨hm, rfl, rfl⟩
    cases hfind : p.findModule? m.id m.area with
    | none =>
      have := List.find?_eq_none.1 hfind m hm
      simp at this
    | some n =>
      have hkey : n.id = m.id ∧ n.area = m.area := by simpa using List.find?_some hfind
      have haddress : n.address = m.address := Prod.ext hkey.2 hkey.1
      rw [List.inj_on_of_nodup_map h (List.mem_of_find?_eq_some hfind) hm haddress]

theorem map_address_of_withoutBuses {q : Patch} (h : q.withoutBuses = p.withoutBuses) :
    q.modules.map PatchModule.address = p.modules.map PatchModule.address := by
  have haddress (p : Patch) : p.modules.map PatchModule.address =
      (p.modules.map PatchModule.withoutBuses).map PatchModule.address := by
    rw [List.map_map]
    rfl
  rw [haddress q, haddress p, map_withoutBuses_eq h]

theorem findModule?_eq_none_iff {id : Nat} {area : Area} :
    p.findModule? id area = none ↔ ∀ m ∈ p.modules, ¬(m.id = id ∧ m.area = area) := by
  unfold findModule?
  simp

/-- The unknown types of a decoded patch are those that the catalog lacks. -/
theorem Decoded.firstSeen_unknownTypes {catalog : Catalog} (h : p.Decoded catalog) :
    FirstSeen ((p.unknownModules catalog).map PatchModule.typeId) p.unknownTypes := by
  have hfilter : (p.modules.filter fun m => !m.isKnown) = p.unknownModules catalog := by
    refine List.filter_congr fun m hm => ?_
    rw [(h.module_spec m hm).1.isKnown_eq]
    cases catalog.lookup m.typeId <;> rfl
  have hseen := firstSeen_firstBy id ((p.unknownModules catalog).map PatchModule.typeId)
  rw [List.map_id, List.map_id] at hseen
  rw [unknownTypes, hfilter]
  exact hseen

end Patch

namespace Container

/-! ## What a section says -/

theorem ParameterEntry.fits_block {variations : Nat} (e : ParameterEntry variations) {b : StoredBlock}
    (h : e.block? = some b) : b.Fits := by
  obtain ⟨v, -, rfl⟩ := Option.map_eq_some_iff.1 h
  have hdeclared := e.declared.isLt
  have hlen := v.length_values
  refine ⟨e.moduleId.isLt, ?_, ?_, fun n hn => ?_⟩
  · rw [List.length_map, hlen]
  · rw [List.length_map, hlen]
    omega
  · obtain ⟨w, -, rfl⟩ := List.mem_map.1 hn
    exact w.isLt

/-- What a section says fits the fields of the call that says the same. -/
theorem WrittenSection.fits_said (s : WrittenSection) : s.said.Fits := by
  obtain ⟨content, payload, hlen, -⟩ := s
  cases content with
  | description activeVariation voices mono reserved => exact ⟨activeVariation.isLt, voices.isLt⟩
  | modules area entries =>
    refine ⟨by rw [List.length_map]; exact Nat.le_of_lt_succ entries.2, fun e he => ?_⟩
    obtain ⟨entry, -, rfl⟩ := List.mem_map.1 he
    exact ⟨entry.typeId.isLt, entry.id.isLt⟩
  | cables area reserved entries =>
    refine ⟨by rw [List.length_map]; exact Nat.le_of_lt_succ entries.2, fun c hc => ?_⟩
    obtain ⟨entry, -, rfl⟩ := List.mem_map.1 hc
    exact ⟨entry.moduleFrom.isLt, entry.jackFrom.isLt, entry.moduleTo.isLt, entry.jackTo.isLt⟩
  | parameters area variations entries =>
    refine ⟨Nat.le_trans (List.length_filterMap_le _ _) (Nat.le_of_lt_succ entries.2), fun b hb => ?_⟩
    obtain ⟨entry, -, hblock⟩ := List.mem_filterMap.1 hb
    exact entry.fits_block hblock
  | other kind unknown => exact ⟨unknown, Nat.le_of_lt_succ hlen⟩

namespace Part

variable {part : Part}

theorem description_lt_of_fits (h : part.Fits) {d : Description} (hd : part.description? = some d) :
    d.activeVariation < 256 ∧ d.voices < 32 := by
  cases part with
  | description => cases hd; exact h
  | _ => cases hd

theorem exists_place_of_fits (h : part.Fits) {catalog : Catalog} {m : PatchModule} (hm : m ∈ part.placed catalog) :
    ∃ area typeId id, m = .place catalog area typeId id ∧ typeId < 256 ∧ id < 256 := by
  cases part with
  | modules area entries =>
    obtain ⟨e, he, rfl⟩ := List.mem_map.1 hm
    exact ⟨area, e.1, e.2, rfl, h.2 e he⟩
  | _ => cases hm

theorem cable_lt_of_fits (h : part.Fits) {c : Cable} (hc : c ∈ part.wired) :
    c.moduleFrom < 256 ∧ c.jackFrom < 64 ∧ c.moduleTo < 256 ∧ c.jackTo < 64 := by
  cases part with
  | cables area entries =>
    obtain ⟨e, he, rfl⟩ := List.mem_map.1 hc
    exact h.2 e he
  | _ => cases hc

theorem block_spec_of_fits (h : part.Fits) {b : ParameterBlock} (hb : b ∈ part.stored) :
    b.moduleId < 256 ∧ b.declared = b.values.length ∧ b.values.length ≤ 127 ∧ ∀ v ∈ b.values, v < 128 := by
  cases part with
  | parameters area blocks =>
    obtain ⟨e, he, rfl⟩ := List.mem_map.1 hb
    exact h.2 e he
  | _ => cases hb

end Part

/-! ## Where sections stand -/

theorem WrittenSection.exists_of_mem_located {offset : Nat} {ss : List WrittenSection} {s : WrittenSection}
    {span : Span} (h : (s, span) ∈ located offset ss) : ∃ before after, ss = before ++ s :: after ∧
      span = ⟨offset + (before.flatMap bytes).length, offset + (before.flatMap bytes).length + s.bytes.length⟩ := by
  induction ss generalizing offset with
  | nil => cases h
  | cons t ts ih =>
    rcases List.mem_cons.1 h with heq | h
    · cases heq
      exact ⟨[], ts, rfl, rfl⟩
    · obtain ⟨before, after, rfl, rfl⟩ := ih h
      refine ⟨t :: before, after, rfl, ?_⟩
      rw [List.flatMap_cons, List.length_append, ← Nat.add_assoc]

namespace File

/-- A section of a file takes the bytes of a span, between the header and the trailer. -/
structure Holds (f : File) (s : WrittenSection) (span : Span) : Prop where
  mem_located : (s, span) ∈ WrittenSection.located f.start f.sections
  start_le : f.start ≤ span.start
  stop_le : span.stop + 2 ≤ f.bytes.length
  extract_eq : f.bytes.extract span.start span.stop = s.bytes

variable (f : File)

theorem holds_of_mem_located {s : WrittenSection} {span : Span}
    (h : (s, span) ∈ WrittenSection.located f.start f.sections) : f.Holds s span := by
  obtain ⟨before, after, hsections, rfl⟩ := WrittenSection.exists_of_mem_located h
  have hbytes : f.bytes = (f.text ++ [0, formatVersion, patchFileType] ++ before.flatMap WrittenSection.bytes) ++
      (s.bytes ++ (after.flatMap WrittenSection.bytes ++ [f.trailer.1, f.trailer.2])) := by
    simp only [bytes, hsections, List.flatMap_append, List.flatMap_cons, List.append_assoc]
  have hfront : (f.text ++ [0, formatVersion, patchFileType] ++ before.flatMap WrittenSection.bytes).length =
      f.start + (before.flatMap WrittenSection.bytes).length := by
    simp only [List.length_append, start, List.length_cons, List.length_nil]
  refine ⟨h, Nat.le_add_right _ _, ?_, ?_⟩
  · rw [hbytes, List.length_append, hfront]
    simp only [List.length_append, List.length_cons, List.length_nil]
    omega
  · rw [hbytes, List.extract_eq_take_drop, List.drop_left' hfront, Nat.add_sub_cancel_left, List.take_left' rfl]

/-! ## What a file says -/

theorem map_address_modules (catalog : Catalog) :
    (f.patch catalog).modules.map PatchModule.address = f.sections.flatMap fun s => s.said.declared := by
  rw [patch, List.map_flatMap]
  exact List.flatMap_congr fun s _ => s.said.map_address_placed catalog

theorem decoded_patch (catalog : Catalog) : (f.patch catalog).Decoded catalog where
  description_lt := by
    unfold patch
    cases h : (f.sections.filterMap fun s => s.said.description?).getLast? with
    | none => exact ⟨Nat.zero_lt_succ _, Nat.zero_lt_succ _⟩
    | some d =>
      obtain ⟨s, -, hd⟩ := List.mem_filterMap.1 (List.mem_of_getLast? h)
      exact Part.description_lt_of_fits s.fits_said hd
  nodup_addresses := by
    rw [map_address_modules]
    exact f.nodup_declared
  module_spec := by
    intro m hm
    obtain ⟨s, -, hm⟩ := List.mem_flatMap.1 hm
    obtain ⟨area, typeId, id, rfl, ht, hi⟩ := Part.exists_place_of_fits s.fits_said hm
    refine ⟨PatchModule.asCataloged_place .., ?_, ?_⟩
    · rwa [PatchModule.typeId_place]
    · rwa [PatchModule.id_place]
  cable_lt := by
    intro c hc
    obtain ⟨s, -, hc⟩ := List.mem_flatMap.1 hc
    exact Part.cable_lt_of_fits s.fits_said hc
  block_spec := by
    intro b hb
    obtain ⟨s, -, hb⟩ := List.mem_flatMap.1 hb
    exact Part.block_spec_of_fits s.fits_said hb

/-- The findings of a file, one for each module of an unknown type and in the same order. -/
theorem forall₂_diagnostics (catalog : Catalog) :
    List.Forall₂ (fun m d => ∃ s span, f.Holds s span ∧ m.address ∈ s.said.declared ∧ d.WarnsOf m span)
      ((f.patch catalog).unknownModules catalog) (f.patch catalog).diagnostics := by
  have h := Part.forall₂_flatMap_findings catalog (fun a => a.1.said) Prod.snd
    (WrittenSection.located f.start f.sections)
  rw [WrittenSection.flatMap_located fun s => s.said.placed catalog] at h
  refine h.imp fun m d hd => ?_
  obtain ⟨⟨s, span⟩, hs, hd⟩ := hd
  exact ⟨s, span, f.holds_of_mem_located hs, hd⟩

end File

theorem decoded_ofBytes {catalog : Catalog} {bytes : List UInt8} {p : Patch}
    (h : (Patch.ofBytes catalog bytes).value = .ok p) : p.Decoded catalog := by
  obtain ⟨f, rfl⟩ := exists_file_of_ofBytes h
  obtain rfl : f.patch catalog = p := Except.ok.inj ((f.ofBytes_file catalog).symm.trans h)
  exact f.decoded_patch catalog

/-- Every patch that is decoded keeps to `Decoded`. Its modules are found by their addresses, and
    nothing is found by others; its findings warn of the modules of unknown types, in their order,
    and name the bytes of the section that declares the module; and its unknown types are the types
    of these modules, each once, as they come first. -/
theorem decoded_patches_are_well_formed {catalog : Catalog} {bytes : List UInt8} {p : Patch}
    (h : (Patch.ofBytes catalog bytes).value = .ok p) :
    p.Decoded catalog ∧
      (∀ m ∈ p.modules, p.findModule? m.id m.area = some m) ∧
      (∀ id area, (∀ m ∈ p.modules, ¬(m.id = id ∧ m.area = area)) → p.findModule? id area = none) ∧
      (∃ f : File, f.bytes = bytes) ∧
      (∀ f : File, f.bytes = bytes → List.Forall₂ (fun m d => ∃ s span, f.Holds s span ∧
          m.address ∈ s.said.declared ∧ d.WarnsOf m span)
        (p.unknownModules catalog) p.diagnostics) ∧
      Patch.FirstSeen ((p.unknownModules catalog).map PatchModule.typeId) p.unknownTypes := by
  have hpatch (f : File) (hf : f.bytes = bytes) : f.patch catalog = p := by
    subst hf
    exact Except.ok.inj ((f.ofBytes_file catalog).symm.trans h)
  obtain ⟨f, hf⟩ := exists_file_of_ofBytes h
  have hdecoded : p.Decoded catalog := hpatch f hf ▸ f.decoded_patch catalog
  refine ⟨hdecoded, fun m hm => ?_, fun id area hno => Patch.findModule?_eq_none_iff.2 hno, ⟨f, hf⟩,
    fun g hg => ?_, hdecoded.firstSeen_unknownTypes⟩
  · exact (Patch.findModule?_eq_some_iff hdecoded.nodup_addresses).2 ⟨hm, rfl, rfl⟩
  · rw [← hpatch g hg]
    exact g.forall₂_diagnostics catalog

theorem decoded_patches_are_well_formed_sampleFile :
    (Patch.ofBytes sampleCatalog sampleFile.bytes).value = .ok (sampleFile.patch sampleCatalog) ∧
      (sampleFile.patch sampleCatalog).findModule? 2 .voice = some (.place sampleCatalog .voice 9 2) ∧
      (sampleFile.patch sampleCatalog).findModule? 2 .fx = none ∧
      (∃ d, (sampleFile.patch sampleCatalog).diagnostics = [d] ∧
        d.WarnsOf (.place sampleCatalog .voice 9 2) ⟨45, 63⟩) ∧
      9 ∈ (sampleFile.patch sampleCatalog).unknownTypes := by
  have h := sampleFile.ofBytes_file sampleCatalog
  obtain ⟨-, hfind, hnone, -, hfindings, htypes, -⟩ := decoded_patches_are_well_formed h
  have hunknown : (sampleFile.patch sampleCatalog).unknownModules sampleCatalog =
      [.place sampleCatalog .voice 9 2] := by decide
  have hplace : ∀ a ∈ WrittenSection.located sampleFile.start sampleFile.sections,
      (.voice, 2) ∈ a.1.said.declared → a.2 = ⟨45, 63⟩ := by decide
  have htype : 9 ∈ (sampleFile.patch sampleCatalog).unknownTypes := (htypes 9).2 (by rw [hunknown]; decide)
  refine ⟨h, hfind (.place sampleCatalog .voice 9 2) (by decide), hnone _ _ (by decide), ?_, htype⟩
  have hone := hfindings sampleFile rfl
  rw [hunknown] at hone
  obtain ⟨d, ds, ⟨s, span, hholds, hdeclared, hwarns⟩, hnil, hdiagnostics⟩ := List.forall₂_cons_left_iff.1 hone
  obtain rfl := List.forall₂_nil_left_iff.1 hnil
  obtain rfl := hplace (s, span) hholds.mem_located hdeclared
  exact ⟨d, hdiagnostics, hwarns⟩

end Container

end Patchbay
