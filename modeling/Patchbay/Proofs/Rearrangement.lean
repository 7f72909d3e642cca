/-
  Patchbay.Proofs.Rearrangement — sections of different kinds do not look at each other.

  Sections may change places as long as those of one kind that is looked into keep their order,
  and sections that are not looked into may come and go.
  - `SameKnown.flatMap_eq`: what only sections of one known kind say is said in the same order.
  - `rearrangement_keeps_patch`: the rearranged file decodes to the same patch, only that the
    findings name the bytes where the sections stand now.
-/

import Patchbay.Proofs.DecodedPatch

namespace Patchbay

def Diagnostic.unplaced (d : Diagnostic) : Diagnostic := { d with span := none }

namespace Container

/-! ## Sections of a kind -/

namespace WrittenSection

def ofKind (kind : UInt8) (ss : List WrittenSection) : List WrittenSection := ss.filter fun s => s.content.kind = kind

/-- The same sections of every kind that is looked into, each kind in the same order. -/
def SameKnown (ss ts : List WrittenSection) : Prop := ∀ kind ∈ knownKinds, ofKind kind ss = ofKind kind ts

theorem flatMap_ofKind {α : Type} {kind : UInt8} {f : WrittenSection → List α}
    (hf : ∀ s, s.content.kind ≠ kind → f s = []) (ss : List WrittenSection) :
    (ofKind kind ss).flatMap f = ss.flatMap f := by
  induction ss with
  | nil => rfl
  | cons s ss ih =>
    unfold ofKind at ih ⊢
    by_cases hs : s.content.kind = kind
    · rw [List.filter_cons_of_pos (by simpa using hs), List.flatMap_cons, List.flatMap_cons, ih]
    · rw [List.filter_cons_of_neg (by simpa using hs), List.flatMap_cons, hf s hs, List.nil_append, ih]

theorem SameKnown.flatMap_eq {α : Type} {ss ts : List WrittenSection} (h : SameKnown ss ts) (kind : UInt8)
    (hkind : kind ∈ knownKinds) {f : WrittenSection → List α} (hf : ∀ s, s.content.kind ≠ kind → f s = []) :
    ss.flatMap f = ts.flatMap f := by
  rw [← flatMap_ofKind hf ss, ← flatMap_ofKind hf ts, h kind hkind]

/-! ## What only sections of one kind say -/

variable (s : WrittenSection)

theorem description_eq_none (h : s.content.kind ≠ descriptionKind) : s.said.description? = none := by
  obtain ⟨content, payload, hlen, hspelled⟩ := s
  cases content with
  | description => exact absurd rfl h
  | _ => rfl

theorem modules_eq_nil (catalog : Catalog) (span : Span) (h : s.content.kind ≠ moduleListKind) :
    s.said.declared = [] ∧ s.said.placed catalog = [] ∧ s.said.findings catalog span = [] := by
  obtain ⟨content, payload, hlen, hspelled⟩ := s
  cases content with
  | modules => exact absurd rfl h
  | _ => exact ⟨rfl, rfl, rfl⟩

theorem wired_eq_nil (h : s.content.kind ≠ cableListKind) : s.said.wired = [] := by
  obtain ⟨content, payload, hlen, hspelled⟩ := s
  cases content with
  | cables => exact absurd rfl h
  | _ => rfl

theorem stored_eq_nil (h : s.content.kind ≠ parametersKind) : s.said.stored = [] := by
  obtain ⟨content, payload, hlen, hspelled⟩ := s
  cases content with
  | parameters => exact absurd rfl h
  | _ => rfl

end WrittenSection

/-- The place of a section enters its findings as their span, and nowhere else. -/
theorem Part.map_unplaced_findings (catalog : Catalog) (span span' : Span) (p : Part) :
    (p.findings catalog span).map Diagnostic.unplaced = (p.findings catalog span').map Diagnostic.unplaced := by
  cases p with
  | modules area entries =>
    simp only [findings, List.map_map]
    rfl
  | _ => rfl

/-! ## Files -/

namespace File

open WrittenSection

theorem map_unplaced_findings (catalog : Catalog) (span : Span) (f : File) :
    (f.findings catalog).map Diagnostic.unplaced =
      f.sections.flatMap fun s => (s.said.findings catalog span).map Diagnostic.unplaced := by
  rw [findings, List.map_flatMap, ← flatMap_located _ f.start]
  exact List.flatMap_congr fun a _ => a.1.said.map_unplaced_findings catalog _ _

variable {f g : File} (h : SameKnown f.sections g.sections)

include h

theorem patch_eq_of_sameKnown (catalog : Catalog) :
    g.patch catalog = { f.patch catalog with diagnostics := g.findings catalog } := by
  have hdescription : (f.sections.filterMap fun s => s.said.description?) =
      g.sections.filterMap fun s => s.said.description? := by
    rw [List.filterMap_eq_flatMap_toList, List.filterMap_eq_flatMap_toList]
    refine h.flatMap_eq descriptionKind (by decide) fun s hs => ?_
    rw [s.description_eq_none hs]
    rfl
  have hplaced := h.flatMap_eq moduleListKind (by decide)
    fun s hs => (s.modules_eq_nil catalog ⟨0, 0⟩ hs).2.1
  have hwired := h.flatMap_eq cableListKind (by decide) fun s hs => s.wired_eq_nil hs
  have hstored := h.flatMap_eq parametersKind (by decide) fun s hs => s.stored_eq_nil hs
  simp only [patch, findings, hdescription, hplaced, hwired, hstored]

theorem map_unplaced_findings_eq (catalog : Catalog) :
    (g.findings catalog).map Diagnostic.unplaced = (f.findings catalog).map Diagnostic.unplaced := by
  rw [map_unplaced_findings catalog ⟨0, 0⟩, map_unplaced_findings catalog ⟨0, 0⟩]
  refine (h.flatMap_eq moduleListKind (by decide) fun s hs => ?_).symm
  rw [(s.modules_eq_nil catalog _ hs).2.2]
  rfl

end File

/-- Bytes that decode are those of a file. Any sections that are, kind by known kind, those of
    the file in their order make a file again, and it decodes to the same patch, up to the places
    that the findings name: each names the bytes of the section that declares its module now. -/
theorem rearrangement_keeps_patch {catalog : Catalog} {bytes : List UInt8} {p : Patch}
    (h : (Patch.ofBytes catalog bytes).value = .ok p) :
    (∃ f : File, f.bytes = bytes) ∧ ∀ f : File, f.bytes = bytes → ∀ ss, WrittenSection.SameKnown f.sections ss →
      ∃ (g : File) (q : Patch), g.text = f.text ∧ g.sections = ss ∧ g.trailer = f.trailer ∧
        (Patch.ofBytes catalog g.bytes).value = .ok q ∧ q = { p with diagnostics := q.diagnostics } ∧
        q.diagnostics.map Diagnostic.unplaced = p.diagnostics.map Diagnostic.unplaced ∧
        List.Forall₂ (fun m d => ∃ s span, g.Holds s span ∧ m.address ∈ s.said.declared ∧ d.WarnsOf m span)
          (q.unknownModules catalog) q.diagnostics := by
  refine ⟨exists_file_of_ofBytes h, ?_⟩
  rintro f rfl ss hss
  obtain rfl : f.patch catalog = p := Except.ok.inj ((f.ofBytes_file catalog).symm.trans h)
  have hdeclared : (f.sections.flatMap fun s => s.said.declared) = ss.flatMap fun s => s.said.declared :=
    hss.flatMap_eq moduleListKind (by decide) fun s hs => (s.modules_eq_nil catalog ⟨0, 0⟩ hs).1
  let g : File := ⟨f.text, ss, f.trailer, f.starts, f.zero_notMem, hdeclared ▸ f.nodup_declared⟩
  exact ⟨g, g.patch catalog, rfl, rfl, rfl, g.ofBytes_file catalog,
    File.patch_eq_of_sameKnown (f := f) (g := g) hss catalog,
    File.map_unplaced_findings_eq (f := f) (g := g) hss catalog, g.forall₂_diagnostics catalog⟩

/-- The parameters moved before the modules, the section that is not looked into left out and
    another one put in at the start. -/
def rearranged : List WrittenSection :=
  ⟨.other 0x70 (by decide), [9], by decide, by rintro _ ⟨⟩⟩ ::
    [sampleFile.sections[3], sampleFile.sections[0], sampleFile.sections[1]]

theorem rearrangement_keeps_patch_rearranged :
    (Patch.ofBytes sampleCatalog sampleFile.bytes).value = .ok (sampleFile.patch sampleCatalog) ∧
      WrittenSection.SameKnown sampleFile.sections rearranged ∧
      ∃ (g : File) (d : Diagnostic), g.sections = rearranged ∧ (Patch.ofBytes sampleCatalog g.bytes).value =
          .ok { sampleFile.patch sampleCatalog with diagnostics := [d] } ∧
        d.WarnsOf (.place sampleCatalog .voice 9 2) ⟨64, 82⟩ := by
  have h := sampleFile.ofBytes_file sampleCatalog
  have hsame : WrittenSection.SameKnown sampleFile.sections rearranged := by
    intro kind hkind
    simp only [knownKinds, List.mem_cons, List.not_mem_nil, or_false] at hkind
    rcases hkind with rfl | rfl | rfl | rfl <;> rfl
  obtain ⟨g, q, htext, hsections, -, hvalue, hq, -, hfindings⟩ :=
    (rearrangement_keeps_patch h).2 sampleFile rfl rearranged hsame
  have hunknown : q.unknownModules sampleCatalog = [.place sampleCatalog .voice 9 2] := by
    rw [hq]
    show (sampleFile.patch sampleCatalog).unknownModules sampleCatalog = _
    decide
  have hplace : ∀ a ∈ WrittenSection.located g.start g.sections, (.voice, 2) ∈ a.1.said.declared → a.2 = ⟨64, 82⟩ := by
    rw [File.start, htext, hsections]
    decide
  rw [hunknown] at hfindings
  obtain ⟨d, ds, ⟨s, span, hholds, hdeclared, hwarns⟩, hnil, hdiagnostics⟩ := List.forall₂_cons_left_iff.1 hfindings
  obtain rfl := List.forall₂_nil_left_iff.1 hnil
  obtain rfl := hplace (s, span) hholds.mem_located hdeclared
  exact ⟨h, hsame, g, d, hsections, by rw [hvalue, hq, hdiagnostics], hwarns⟩

end Container

end Patchbay
