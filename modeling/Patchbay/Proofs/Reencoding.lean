/-
  Patchbay.Proofs.Reencoding — every patch that is decoded can be built again.

  A decoded patch has only values that the builder can write, so the file built from it, with one
  call for each thing in it, decodes to the same patch. What is lost is what decoding passed over.
  - `Decoded.fits_parts`, `Decoded.patchOf_parts`: the calls can be made, and they say the patch.
  - `reencoding_keeps_patch`: the built file decodes to the patch, up to the places that the
    findings name.
-/

import Patchbay.Proofs.DecodedPatch
import Patchbay.Proofs.Rearrangement

namespace Patchbay

open Container

theorem PatchModule.AsCataloged.eq_place {catalog : Catalog} {m : PatchModule} (h : m.AsCataloged catalog) :
    m = .place catalog m.area m.typeId m.id := by
  obtain ⟨typeId, typeName, id, area, inletRates, outletRates, inletBuses, outletBuses⟩ := m
  obtain ⟨hname, hin, hout, hinBuses, houtBuses⟩ := h
  simp only at hname hin hout hinBuses houtBuses
  subst hinBuses houtBuses hname hin hout
  unfold place
  cases catalog.lookup typeId with
  | none => rfl
  | some t => simp [Bus.silent, Bus.discard]

namespace Patch

/-- The calls of the builder that say a patch, one for each thing in it. -/
def parts (p : Patch) : List Part :=
  .description p.description.activeVariation p.description.voices p.description.mono ::
    (p.modules.map (fun m => .modules m.area [(m.typeId, m.id)]) ++
      (p.cables.map (fun c => .cables c.area [⟨c.kind, c.color, c.moduleFrom, c.jackFrom, c.moduleTo, c.jackTo⟩]) ++
        p.params.map fun b => .parameters b.area [⟨b.moduleId, b.values.length, b.values⟩]))

/-- Calls that say nothing of a kind say nothing of it together. -/
@[simp] private theorem flatMap_silent {α β : Type} (l : List α) : (l.flatMap fun _ => ([] : List β)) = [] :=
  List.flatMap_eq_nil_iff.2 fun _ _ => rfl

/-- What the calls say together is what they say of each thing. -/
theorem flatMap_parts {α : Type} (f : Part → List α) (p : Patch) :
    p.parts.flatMap f = f (.description p.description.activeVariation p.description.voices p.description.mono) ++
      (p.modules.flatMap (fun m => f (.modules m.area [(m.typeId, m.id)])) ++
        (p.cables.flatMap (fun c =>
            f (.cables c.area [⟨c.kind, c.color, c.moduleFrom, c.jackFrom, c.moduleTo, c.jackTo⟩])) ++
          p.params.flatMap fun b => f (.parameters b.area [⟨b.moduleId, b.values.length, b.values⟩]))) := by
  simp only [parts, List.flatMap_cons, List.flatMap_append, List.flatMap_map]

theorem declared_parts (p : Patch) : p.parts.flatMap Part.declared = p.modules.map PatchModule.address := by
  simp [flatMap_parts, Part.declared, List.map_eq_flatMap, PatchModule.address]

section

variable {catalog : Catalog} {p : Patch} (h : p.Decoded catalog)

include h

theorem Decoded.fits_parts : ∀ part ∈ p.parts, part.Fits := by
  intro part hpart
  simp only [parts, List.mem_cons, List.mem_append, List.mem_map] at hpart
  rcases hpart with rfl | ⟨m, hm, rfl⟩ | ⟨c, hc, rfl⟩ | ⟨b, hb, rfl⟩
  · exact h.description_lt
  · exact ⟨Nat.le_add_left _ _, List.forall_mem_singleton.2 (h.module_spec m hm).2⟩
  · exact ⟨Nat.le_add_left _ _, List.forall_mem_singleton.2 (h.cable_lt c hc)⟩
  · obtain ⟨hid, -, hlen, hvalues⟩ := h.block_spec b hb
    exact ⟨Nat.le_add_left _ _, List.forall_mem_singleton.2 ⟨hid, rfl, hlen, hvalues⟩⟩

/-- The calls say the patch, and name its findings at the places where their sections stand. -/
theorem Decoded.patchOf_parts :
    patchOf catalog p.parts = { p with diagnostics := (patchOf catalog p.parts).diagnostics } := by
  have hdescription : (p.parts.filterMap Part.description?).getLast?.getD {} = p.description := by
    rw [List.filterMap_eq_flatMap_toList, flatMap_parts]
    simp [Part.description?]
  have hmodules : p.parts.flatMap (Part.placed catalog) = p.modules := by
    have hplace : p.modules.map (fun m => PatchModule.place catalog m.area m.typeId m.id) = p.modules := by
      rw [List.map_congr_left fun m hm => ((h.module_spec m hm).1.eq_place).symm, List.map_id']
    simpa [flatMap_parts, Part.placed, List.map_eq_flatMap] using hplace
  have hcables : p.parts.flatMap Part.wired = p.cables := by
    simp [flatMap_parts, Part.wired, StoredCable.inArea]
  have hparams : p.parts.flatMap Part.stored = p.params := by
    have hblock : p.params.map (fun b => (⟨b.area, b.moduleId, b.values.length, b.values⟩ : ParameterBlock)) =
        p.params := by
      rw [List.map_congr_left fun b hb => by rw [← (h.block_spec b hb).2.1], List.map_id']
    simpa [flatMap_parts, Part.stored, StoredBlock.inArea, List.map_eq_flatMap] using hblock
  simp only [patchOf, hdescription, hmodules, hcables, hparams]

end

/-- The findings that the calls name are on the modules of unknown types. -/
theorem map_unplaced_patchOf_parts (catalog : Catalog) (p : Patch) :
    (patchOf catalog p.parts).diagnostics.map Diagnostic.unplaced =
      (p.unknownModules catalog).map fun m => (unknownModule m.area m.typeId m.id ⟨0, 0⟩).unplaced := by
  have hplaceless : (patchOf catalog p.parts).diagnostics.map Diagnostic.unplaced =
      p.parts.flatMap fun part => (part.findings catalog ⟨0, 0⟩).map Diagnostic.unplaced := by
    rw [patchOf, List.map_flatMap, ← flatMap_spanned _ (preamble.length + 3)]
    exact List.flatMap_congr fun a _ => a.1.map_unplaced_findings catalog _ _
  rw [hplaceless, flatMap_parts, unknownModules]
  simp only [Part.findings, List.map_nil, List.nil_append, flatMap_silent, List.append_nil]
  -- Only the calls for modules have findings, one for each module of an unknown type.
  induction p.modules with
  | nil => rfl
  | cons m ms ih =>
    rw [List.flatMap_cons, ih]
    cases hm : catalog.lookup m.typeId <;> simp [hm]

end Patch

namespace Container

/-- Whatever bytes a patch is decoded from, the file built from it decodes to the same patch, but
    for the places that the findings name; and that file is the one built from what it decodes to. -/
theorem reencoding_keeps_patch {catalog : Catalog} {bytes : List UInt8} {p : Patch}
    (h : (Patch.ofBytes catalog bytes).value = .ok p) :
    ∃ q, (Patch.ofBytes catalog (build p.parts)).value = .ok q ∧ q = { p with diagnostics := q.diagnostics } ∧
      q.diagnostics.map Diagnostic.unplaced = p.diagnostics.map Diagnostic.unplaced ∧
      build q.parts = build p.parts := by
  obtain ⟨f, rfl⟩ := exists_file_of_ofBytes h
  obtain rfl : f.patch catalog = p := Except.ok.inj ((f.ofBytes_file catalog).symm.trans h)
  have hdecoded := f.decoded_patch catalog
  have hnodup : ((f.patch catalog).parts.flatMap Part.declared).Nodup := by
    rw [Patch.declared_parts]
    exact hdecoded.nodup_addresses
  have hpatch := hdecoded.patchOf_parts
  refine ⟨patchOf catalog (f.patch catalog).parts, ?_, hpatch, ?_, ?_⟩
  · rw [ofBytes_build_eq catalog hdecoded.fits_parts hnodup]
  · rw [Patch.map_unplaced_patchOf_parts]
    rw [← List.forall₂_eq_eq_eq, List.forall₂_map_left_iff, List.forall₂_map_right_iff]
    refine (f.forall₂_diagnostics catalog).imp fun m d hd => ?_
    obtain ⟨s, span, -, -, hwarns⟩ := hd
    rw [warnsOf_iff.1 hwarns]
    rfl
  · rw [hpatch]
    rfl

theorem reencoding_keeps_patch_sampleFile :
    (Patch.ofBytes sampleCatalog sampleFile.bytes).value = .ok (sampleFile.patch sampleCatalog) ∧
      ∃ q, (Patch.ofBytes sampleCatalog (build (sampleFile.patch sampleCatalog).parts)).value = .ok q ∧
        q.modules = [.place sampleCatalog .voice 7 1, .place sampleCatalog .voice 9 2] := by
  have h := sampleFile.ofBytes_file sampleCatalog
  obtain ⟨q, hq, heq, -, -⟩ := reencoding_keeps_patch h
  have hmodules : (sampleFile.patch sampleCatalog).modules =
      [.place sampleCatalog .voice 7 1, .place sampleCatalog .voice 9 2] := by decide
  exact ⟨h, q, hq, (congrArg Patch.modules heq).trans hmodules⟩

end Container

end Patchbay
