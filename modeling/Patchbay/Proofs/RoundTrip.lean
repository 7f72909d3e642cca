/-
  Patchbay.Proofs.RoundTrip — decoding undoes building.

  A part says what its call of the builder was given. Where its values fit their fields, the
  section it becomes is read back into the records it says, and so is a file of such parts:
  - `records_toSection`: one part, by its kind.
  - `frame_parts`: the parts of a file, cut apart again.
  - `forall₂_findings`: each finding reports a module of a type the catalog lacks, at its section.
  - `ofBytes_build`: the patch in a built file is the one its parts say.
-/

import Mathlib.Data.List.Basic
import Mathlib.Data.List.Forall2
import Patchbay.Container.Builder
import Patchbay.Container.Decoding
import Patchbay.Proofs.Cutting
import Patchbay.Proofs.Reading

namespace Patchbay

def PatchModule.address (m : PatchModule) : Area × Nat := (m.area, m.id)

def Patch.unknownModules (catalog : Catalog) (p : Patch) : List PatchModule :=
  p.modules.filter fun m => (catalog.lookup m.typeId).isNone

/-- A finding warns of a module of an unknown type, and names the bytes of a section. -/
structure Diagnostic.WarnsOf (d : Diagnostic) (m : PatchModule) (span : Span) : Prop where
  code_eq : d.code = some "W0100"
  severity_eq : d.severity = .warning
  span_eq : d.span = some span
  message_eq : d.message = s!"{m.area} module {m.id} has unknown type {m.typeId}"
  hint_eq : d.hint = some "the module keeps no jacks; cables to it cannot be routed"

namespace Container

open Bits Fields

theorem warnsOf_iff {d : Diagnostic} {m : PatchModule} {span : Span} :
    d.WarnsOf m span ↔ d = unknownModule m.area m.typeId m.id span := by
  constructor
  · intro h
    obtain ⟨code, severity, place, message, hint⟩ := d
    obtain ⟨rfl, rfl, rfl, rfl, rfl⟩ := h
    rfl
  · rintro rfl
    exact ⟨rfl, rfl, rfl, rfl, rfl⟩

/-! ## What parts say -/

def StoredCable.inArea (c : StoredCable) (area : Area) : Cable :=
  ⟨area, c.kind, c.color, c.moduleFrom, c.jackFrom, c.moduleTo, c.jackTo⟩

def StoredBlock.inArea (b : StoredBlock) (area : Area) : ParameterBlock := ⟨area, b.moduleId, b.declared, b.values⟩

def StoredCable.Fits (c : StoredCable) : Prop :=
  c.moduleFrom < 256 ∧ c.jackFrom < 64 ∧ c.moduleTo < 256 ∧ c.jackTo < 64

def StoredBlock.Fits (b : StoredBlock) : Prop :=
  b.moduleId < 256 ∧ b.declared = b.values.length ∧ b.values.length ≤ 127 ∧ ∀ v ∈ b.values, v < 128

instance (c : StoredCable) : Decidable c.Fits := inferInstanceAs (Decidable (_ ∧ _))

instance (b : StoredBlock) : Decidable b.Fits := inferInstanceAs (Decidable (_ ∧ _))

namespace Part

/-- Every value fits its field, and a raw section is of no kind that is looked into. -/
def Fits : Part → Prop
  | .description activeVariation voices _ => activeVariation < 256 ∧ voices < 32
  | .modules _ entries => entries.length ≤ 255 ∧ ∀ e ∈ entries, e.1 < 256 ∧ e.2 < 256
  | .cables _ entries => entries.length ≤ 1023 ∧ ∀ c ∈ entries, c.Fits
  | .parameters _ blocks => blocks.length ≤ 255 ∧ ∀ b ∈ blocks, b.Fits
  | .raw kind payload =>
    kind ∉ [descriptionKind, moduleListKind, cableListKind, parametersKind] ∧ payload.length ≤ 65535

instance : (p : Part) → Decidable p.Fits
  | .description .. => inferInstanceAs (Decidable (_ ∧ _))
  | .modules .. => inferInstanceAs (Decidable (_ ∧ _))
  | .cables .. => inferInstanceAs (Decidable (_ ∧ _))
  | .parameters .. => inferInstanceAs (Decidable (_ ∧ _))
  | .raw .. => inferInstanceAs (Decidable (_ ∧ _))

def declared : Part → List (Area × Nat)
  | .modules area entries => entries.map fun e => (area, e.2)
  | _ => []

def description? : Part → Option Description
  | .description activeVariation voices mono => some ⟨activeVariation, voices, mono⟩
  | _ => none

def placed (catalog : Catalog) : Part → List PatchModule
  | .modules area entries => entries.map fun e => .place catalog area e.1 e.2
  | _ => []

def wired : Part → List Cable
  | .cables area entries => entries.map (·.inArea area)
  | _ => []

def stored : Part → List ParameterBlock
  | .parameters area blocks => blocks.map (·.inArea area)
  | _ => []

/-- The findings on modules of types the catalog lacks; `span` is where the part stands. -/
def findings (catalog : Catalog) (span : Span) : Part → List Diagnostic
  | .modules area entries =>
    (entries.filter fun e => (catalog.lookup e.1).isNone).map fun e => unknownModule area e.1 e.2 span
  | _ => []

end Part

/-- Parts with the bytes they become, from `offset` on. -/
def spanned (offset : Nat) : List Part → List (Part × Span)
  | [] => []
  | p :: ps => (p, ⟨offset, offset + p.bytes.length⟩) :: spanned (offset + p.bytes.length) ps

def patchOf (catalog : Catalog) (parts : List Part) : Patch where
  description := (parts.filterMap Part.description?).getLast?.getD {}
  modules := parts.flatMap (Part.placed catalog)
  cables := parts.flatMap Part.wired
  params := parts.flatMap Part.stored
  diagnostics := (spanned (preamble.length + 3) parts).flatMap fun (p, span) => p.findings catalog span

/-! ## Findings -/

namespace Part

theorem map_address_placed (catalog : Catalog) (part : Part) :
    (part.placed catalog).map PatchModule.address = part.declared := by
  cases part with
  | modules area entries =>
    simp only [placed, declared, List.map_map, Function.comp_def, PatchModule.address, PatchModule.area_place,
      PatchModule.id_place]
  | _ => rfl

/-- The findings of a part are on those of its modules whose type the catalog lacks. -/
theorem forall₂_findings (catalog : Catalog) (span : Span) (part : Part) :
    List.Forall₂ (fun m d => m.address ∈ part.declared ∧ d.WarnsOf m span)
      ((part.placed catalog).filter fun m => (catalog.lookup m.typeId).isNone) (part.findings catalog span) := by
  cases part with
  | modules area entries =>
    have hfilter : ((placed catalog (.modules area entries)).filter fun m => (catalog.lookup m.typeId).isNone) =
        (entries.filter fun e => (catalog.lookup e.1).isNone).map fun e => .place catalog area e.1 e.2 := by
      rw [placed, List.filter_map]
      simp only [Function.comp_def, PatchModule.typeId_place]
    rw [hfilter, findings, List.forall₂_map_left_iff, List.forall₂_map_right_iff, List.forall₂_same]
    intro e he
    rw [warnsOf_iff, PatchModule.address, PatchModule.area_place, PatchModule.id_place, PatchModule.typeId_place]
    exact ⟨List.mem_map_of_mem (List.mem_of_mem_filter he), rfl⟩
  | _ => exact .nil

/-- The same of things in a row that say parts and have places. -/
theorem forall₂_flatMap_findings {α : Type} (catalog : Catalog) (said : α → Part) (span : α → Span) (l : List α) :
    List.Forall₂ (fun m d => ∃ a ∈ l, m.address ∈ (said a).declared ∧ d.WarnsOf m (span a))
      ((l.flatMap fun a => (said a).placed catalog).filter fun m => (catalog.lookup m.typeId).isNone)
      (l.flatMap fun a => (said a).findings catalog (span a)) := by
  rw [List.filter_flatMap]
  have hself : List.Forall₂ (fun a b => a ∈ l ∧ a = b) l l := List.forall₂_same.2 fun a ha => ⟨ha, rfl⟩
  refine List.rel_flatMap hself fun a b hab => ?_
  obtain ⟨ha, rfl⟩ := hab
  exact (forall₂_findings catalog (span a) (said a)).imp fun m d h => ⟨a, ha, h⟩

end Part

/-! ## Records of a part -/

namespace Part

def records (span : Span) : Part → List Record
  | .description activeVariation voices mono => [.description ⟨activeVariation, voices, mono⟩]
  | .modules area entries => .moduleList area entries.length :: entries.map fun e => .placed area e.1 e.2 span
  | .cables area entries => .cableList area entries.length :: entries.map fun c => .cable (c.inArea area)
  | .parameters area blocks =>
    .parameterList area blocks.length 1 :: blocks.map fun b => .parameters (b.inArea area)
  | .raw kind payload => [.skipped kind payload.length]

def toSection (p : Part) (offset : Nat) : Section := ⟨p.kind, offset, p.payload⟩

theorem length_bytes (p : Part) : p.bytes.length = Section.headerSize + p.payload.length := by
  simp only [bytes, List.length_cons, Section.headerSize]; omega

theorem span_toSection (p : Part) (offset : Nat) : (p.toSection offset).span = ⟨offset, offset + p.bytes.length⟩ := by
  rw [length_bytes, ← Nat.add_assoc]; rfl

end Part

theorem reads_moduleFields {e : Nat × Nat} (h : e.1 < 256 ∧ e.2 < 256) :
    Reads moduleRecord ((moduleFields e.1 e.2).flatMap Field.bits) e := by
  have hlooks : (List.replicate 30 false).length = 30 := rfl
  have hmodes : 0 < 2 ^ 4 := by decide
  have hnone : ([] : List Bool).length = 0 * 6 := rfl
  have := reads_moduleRecord h.1 h.2 hlooks hmodes hnone
  exact this

theorem reads_cableFields (area : Area) {c : StoredCable} (h : c.Fits) :
    Reads (cableRecord area) ((cableFields c).flatMap Field.bits) (c.inArea area) := by
  obtain ⟨hm, hj, hm', hj'⟩ := h
  have := reads_cableRecord area c.color c.kind hm hj hm' hj'
  simpa [cableFields, Field.bits, StoredCable.inArea] using this

theorem reads_blockFields (area : Area) {b : StoredBlock} (h : b.Fits) :
    Reads (parameterRecord area 1) ((blockFields b).flatMap Field.bits) (some (b.inArea area)) := by
  obtain ⟨hm, hd, hlen, hv⟩ := h
  have hvariations : ∀ v ∈ [(ofNat 8 0, b.values)],
      v.1.length = 8 ∧ v.2.length = b.declared ∧ ∀ n ∈ v.2, n < 2 ^ 7 := by
    simpa [hd, length_ofNat] using hv
  have := reads_parameterRecord area hm (by omega) hvariations
  simpa [blockFields, Field.bits, StoredBlock.inArea, variationLayout, List.flatMap_map] using this

/-- The section of a part is read into what the part says. -/
theorem records_toSection {p : Part} (h : p.Fits) (offset : Nat) :
    (p.toSection offset).records = (p.records ⟨offset, offset + p.bytes.length⟩, none) := by
  rw [← Part.span_toSection]
  have hpadded (fields : List Field) (hpay : p.payload = pack fields) : ∃ padding : List Bool, padding.length < 8 ∧
      ofBytes (p.toSection offset).payload = fields.flatMap Field.bits ++ padding := by
    obtain ⟨k, hk, hbits⟩ := ofBytes_toBytes (fields.flatMap Field.bits)
    exact ⟨List.replicate k false, by simpa using hk, by rw [← hbits, ← pack, ← hpay]; rfl⟩
  cases p with
  | description activeVariation voices mono =>
    obtain ⟨padding, hpad, hbits⟩ := hpadded _ rfl
    have hreserved : (ofNat 2 0).length = 2 := rfl
    refine Section.records_description hpad rfl h.1 h.2 hreserved ?_
    simpa [descriptionFields, Field.bits] using hbits
  | modules area entries =>
    obtain ⟨padding, hpad, hbits⟩ := hpadded _ rfl
    refine Section.records_moduleList hpad rfl id (Nat.lt_succ_of_le h.1)
      (fun e he => reads_moduleFields (h.2 e he)) ?_
    simpa [moduleListFields, Field.bits, List.flatMap_assoc] using hbits
  | cables area entries =>
    obtain ⟨padding, hpad, hbits⟩ := hpadded _ rfl
    have hreserved : (ofNat 12 0).length = 12 := rfl
    refine Section.records_cableList hpad rfl hreserved (Nat.lt_succ_of_le h.1)
      (fun c hc => reads_cableFields area (h.2 c hc)) ?_
    simpa [cableListFields, Field.bits, List.flatMap_assoc] using hbits
  | parameters area blocks =>
    obtain ⟨padding, hpad, hbits⟩ := hpadded _ rfl
    have hone : 1 < 2 ^ 8 := by decide
    rw [Section.records_parameters hpad rfl hone (Nat.lt_succ_of_le h.1)
      (fun b hb => reads_blockFields area (h.2 b hb))
      (by simpa [parameterFields, Field.bits, List.flatMap_assoc] using hbits)]
    simp [Part.records, List.map_eq_flatMap]
  | raw kind payload =>
    obtain ⟨hkind, -⟩ := h
    simp only [List.mem_cons, List.not_mem_nil, or_false, not_or] at hkind
    exact Section.records_of_unknown_kind hkind.1 hkind.2.1 hkind.2.2.1 hkind.2.2.2

/-! ## Lengths -/

theorem lengthOf_ofNat {n : Nat} (h : n ≤ 65535) : lengthOf (UInt8.ofNat (n / 256)) (UInt8.ofNat n) = n := by
  have hhigh : n / 256 < 256 := by omega
  simp only [lengthOf, UInt8.toNat_ofNat', Nat.mod_eq_of_lt hhigh]
  omega

theorem length_flatMap_le {α β : Type} {l : List α} {f : α → List β} {n : Nat} (h : ∀ a ∈ l, (f a).length ≤ n) :
    (l.flatMap f).length ≤ l.length * n := by
  induction l with
  | nil => simp
  | cons a l ih =>
    have ha := h a List.mem_cons_self
    have hl := ih fun b hb => h b (List.mem_cons_of_mem _ hb)
    rw [List.flatMap_cons, List.length_append, List.length_cons, Nat.succ_mul]
    omega

/-- A list of items, each of `n` bits at most, after some fields. -/
theorem length_pack_le {γ : Type} (head : List Field) {items : List γ} {fields : γ → List Field} {n : Nat}
    (h : ∀ i ∈ items, ((fields i).flatMap Field.bits).length ≤ n) :
    8 * (pack (head ++ items.flatMap fields)).length ≤ (head.flatMap Field.bits).length + items.length * n + 7 := by
  have hle := length_flatMap_le h
  rw [pack, length_toBytes, List.flatMap_append, List.length_append, List.flatMap_assoc]
  omega

theorem length_blockFields {b : StoredBlock} (h : b.Fits) : ((blockFields b).flatMap Field.bits).length ≤ 919 := by
  obtain ⟨-, -, hlen, -⟩ := h
  have hvalues : (b.values.flatMap fun v => ofNat 7 v).length ≤ b.values.length * 7 :=
    length_flatMap_le fun v _ => Nat.le_of_eq (length_ofNat 7 v)
  rw [blockFields, List.flatMap_append, List.length_append, List.flatMap_map]
  show 30 + (b.values.flatMap fun v => ofNat 7 v).length ≤ 919
  omega

theorem length_payload_le {p : Part} (h : p.Fits) : p.payload.length ≤ 65535 := by
  cases p with
  | description activeVariation voices mono =>
    show (toBytes _).length ≤ 65535
    rw [length_toBytes]
    show (16 + 7) / 8 ≤ 65535
    omega
  | modules area entries =>
    have hentry : ∀ e ∈ entries, ((moduleFields e.1 e.2).flatMap Field.bits).length ≤ 50 := fun e _ => Nat.le_refl 50
    have hle : 8 * (pack (moduleListFields area entries)).length ≤ 10 + entries.length * 50 + 7 :=
      length_pack_le [⟨2, area.code⟩, ⟨8, entries.length⟩] hentry
    obtain ⟨hlen, -⟩ := h
    show (pack (moduleListFields area entries)).length ≤ 65535
    omega
  | cables area entries =>
    have hentry : ∀ c ∈ entries, ((cableFields c).flatMap Field.bits).length ≤ 32 := fun c _ => Nat.le_refl 32
    have hle : 8 * (pack (cableListFields area entries)).length ≤ 24 + entries.length * 32 + 7 :=
      length_pack_le [⟨2, area.code⟩, ⟨12, 0⟩, ⟨10, entries.length⟩] hentry
    obtain ⟨hlen, -⟩ := h
    show (pack (cableListFields area entries)).length ≤ 65535
    omega
  | parameters area blocks =>
    have hle : 8 * (pack (parameterFields area blocks)).length ≤ 18 + blocks.length * 919 + 7 :=
      length_pack_le [⟨2, area.code⟩, ⟨8, blocks.length⟩, ⟨8, 1⟩] fun b hb => length_blockFields (h.2 b hb)
    obtain ⟨hlen, -⟩ := h
    show (pack (parameterFields area blocks)).length ≤ 65535
    omega
  | raw kind payload => exact h.2

/-! ## Files of parts -/

/-- The parts of a file are cut apart again. -/
theorem frame_parts {parts : List Part} (h : ∀ p ∈ parts, p.Fits) (offset : Nat) :
    frame offset (parts.flatMap Part.bytes ++ [0, 0]) =
      ⟨(spanned offset parts).map fun (p, span) => p.toSection span.start, none⟩ := by
  induction parts generalizing offset with
  | nil => exact frame_trailer _ _ _
  | cons p parts ih =>
    have hp := h p List.mem_cons_self
    have hbytes : (p :: parts).flatMap Part.bytes ++ [0, 0] = p.kind :: UInt8.ofNat (p.payload.length / 256) ::
        UInt8.ofNat p.payload.length :: (p.payload ++ (parts.flatMap Part.bytes ++ [0, 0])) := by
      simp [Part.bytes]
    rw [hbytes, frame_section _ _ _ _ (lengthOf_ofNat (length_payload_le hp)).symm (by simp), Nat.add_assoc,
      ← Part.length_bytes, ih fun q hq => h q (List.mem_cons_of_mem _ hq)]
    rfl

/-- Sections without a fault are all read. -/
theorem scan_eq (last : Option Corruption) {ss : List Section} (h : ∀ s ∈ ss, s.records.2 = none) :
    scan last ss = (ss.flatMap fun s => s.records.1, last) := by
  induction ss with
  | nil => rfl
  | cons s ss ih =>
    have hs : s.records = (s.records.1, none) := by rw [← h s List.mem_cons_self]
    rw [scan, hs]
    simp only [ih fun t ht => h t (List.mem_cons_of_mem _ ht), List.flatMap_cons]

def Record.declared? : Record → Option (Area × Nat)
  | .placed area _ id _ => some (area, id)
  | _ => none

/-- Records that declare no module twice, nor one seen before, are all kept. -/
theorem untilRepeated_eq {seen : List (Area × Nat)} {records : List Record}
    (hnew : ∀ k ∈ records.filterMap Record.declared?, k ∉ seen) (hnodup : (records.filterMap Record.declared?).Nodup) :
    untilRepeated seen records = (records, none) := by
  induction records generalizing seen with
  | nil => rfl
  | cons r records ih =>
    cases r with
    | placed area typeId id span =>
      have hkey : Record.declared? (.placed area typeId id span) = some (area, id) := rfl
      rw [List.filterMap_cons_some hkey] at hnew hnodup
      obtain ⟨hfirst, hnodup⟩ := List.nodup_cons.1 hnodup
      have hrest : ∀ k ∈ records.filterMap Record.declared?, k ∉ (area, id) :: seen := fun k hk hmem => by
        rcases List.mem_cons.1 hmem with rfl | hmem
        · exact hfirst hk
        · exact hnew k (List.mem_cons_of_mem _ hk) hmem
      rw [untilRepeated, if_neg (hnew _ List.mem_cons_self), ih hrest hnodup]
    | _ =>
      rw [List.filterMap_cons_none rfl] at hnew hnodup
      simp only [untilRepeated, ih hnew hnodup]

/-! ## The patch of a file -/

theorem fst_of_mem_spanned {offset : Nat} {parts : List Part} {a : Part × Span} (h : a ∈ spanned offset parts) :
    a.1 ∈ parts := by
  induction parts generalizing offset with
  | nil => cases h
  | cons p parts ih =>
    rcases List.mem_cons.1 h with rfl | h
    · exact List.mem_cons_self
    · exact List.mem_cons_of_mem _ (ih h)

theorem stop_of_mem_spanned {offset : Nat} {parts : List Part} {a : Part × Span} (h : a ∈ spanned offset parts) :
    a.2 = ⟨a.2.start, a.2.start + a.1.bytes.length⟩ := by
  induction parts generalizing offset with
  | nil => cases h
  | cons p parts ih =>
    rcases List.mem_cons.1 h with rfl | h
    · rfl
    · exact ih h

/-- What does not hang on the place of a part. -/
theorem flatMap_spanned {α : Type} (f : Part → List α) (offset : Nat) (parts : List Part) :
    (spanned offset parts).flatMap (fun a => f a.1) = parts.flatMap f := by
  induction parts generalizing offset with
  | nil => rfl
  | cons p parts ih => rw [spanned, List.flatMap_cons, List.flatMap_cons, ih]

namespace Part

section

variable (catalog : Catalog) (span : Span) (p : Part)

theorem declared_records : (p.records span).filterMap Record.declared? = p.declared := by
  cases p <;> simp [records, declared, Record.declared?, List.filterMap_cons, List.filterMap_map, Function.comp_def]

theorem description_records : (p.records span).filterMap Record.description? = p.description?.toList := by
  cases p <;> simp [records, description?, Record.description?, List.filterMap_cons, List.filterMap_map,
    Function.comp_def]

theorem placed_records : (p.records span).filterMap (Record.placedModule? catalog) = p.placed catalog := by
  cases p <;> simp [records, placed, Record.placedModule?, List.filterMap_cons, List.filterMap_map, Function.comp_def]

theorem wired_records : (p.records span).filterMap Record.cable? = p.wired := by
  cases p <;> simp [records, wired, Record.cable?, List.filterMap_cons, List.filterMap_map, Function.comp_def]

theorem stored_records : (p.records span).filterMap Record.parameters? = p.stored := by
  cases p <;> simp [records, stored, Record.parameters?, List.filterMap_cons, List.filterMap_map, Function.comp_def]

theorem findings_records : (p.records span).filterMap (Record.diagnostic? catalog) = p.findings catalog span := by
  cases p with
  | modules area entries =>
    simp only [records, findings, List.filterMap_cons, Record.diagnostic?, List.filterMap_map, Function.comp_def]
    induction entries with
    | nil => rfl
    | cons e entries ih => cases h : catalog.lookup e.1 <;> simp [h, ih]
  | _ => simp [records, findings, Record.diagnostic?, List.filterMap_cons, List.filterMap_map, Function.comp_def]

end

end Part

def recordsOf (parts : List Part) : List Record :=
  (spanned (preamble.length + 3) parts).flatMap fun a => a.1.records a.2

theorem filterMap_recordsOf {α : Type} {f : Record → Option α} {g : Part → List α}
    (h : ∀ (span : Span) (p : Part), (p.records span).filterMap f = g p) (parts : List Part) :
    (recordsOf parts).filterMap f = parts.flatMap g := by
  simp only [recordsOf, List.filterMap_flatMap, h, flatMap_spanned]

theorem ofRecords_recordsOf (catalog : Catalog) (parts : List Part) :
    Patch.ofRecords catalog (recordsOf parts) = patchOf catalog parts := by
  have hdescription : (recordsOf parts).filterMap Record.description? = parts.filterMap Part.description? := by
    rw [filterMap_recordsOf Part.description_records, List.filterMap_eq_flatMap_toList]
  have hfindings : (recordsOf parts).filterMap (Record.diagnostic? catalog) =
      (spanned (preamble.length + 3) parts).flatMap fun (p, span) => p.findings catalog span := by
    simp only [recordsOf, List.filterMap_flatMap, Part.findings_records]
  simp only [Patch.ofRecords, patchOf, hdescription, hfindings, filterMap_recordsOf (Part.placed_records catalog),
    filterMap_recordsOf Part.wired_records, filterMap_recordsOf Part.stored_records]

theorem header_build (parts : List Part) :
    header (build parts) = .ok (preamble.length + 3, parts.flatMap Part.bytes ++ [0, 0]) := by
  have hmagic : magic <+: preamble := by decide +kernel
  have hzero : 0 ∉ preamble := by decide +kernel
  rw [build, List.append_assoc, header_append hmagic hzero]

/-- The sections of a built file are read into the records of its parts. -/
theorem scan_parts {parts : List Part} (h : ∀ p ∈ parts, p.Fits) :
    scan none ((spanned (preamble.length + 3) parts).map fun (p, span) => p.toSection span.start) =
      (recordsOf parts, none) := by
  have hrecords : ∀ a ∈ spanned (preamble.length + 3) parts,
      (a.1.toSection a.2.start).records = (a.1.records a.2, none) := by
    intro a ha
    rw [records_toSection (h _ (fst_of_mem_spanned ha)), ← stop_of_mem_spanned ha]
  rw [scan_eq, List.flatMap_map, recordsOf]
  · rw [List.flatMap_congr fun a ha => congrArg Prod.fst (hrecords a ha)]
  · intro s hs
    obtain ⟨a, ha, rfl⟩ := List.mem_map.1 hs
    rw [hrecords a ha]

/-- What is decoded from the file of some parts, and what is noted on the way. -/
theorem ofBytes_build_eq (catalog : Catalog) {parts : List Part} (hfits : ∀ p ∈ parts, p.Fits)
    (hnodup : (parts.flatMap Part.declared).Nodup) : Patch.ofBytes catalog (build parts) =
      ⟨(recordsOf parts).filterMap (Record.event? catalog), .ok (patchOf catalog parts)⟩ := by
  have hkept : untilRepeated [] (recordsOf parts) = (recordsOf parts, none) := by
    refine untilRepeated_eq (fun _ _ h => absurd h List.not_mem_nil) ?_
    rwa [filterMap_recordsOf Part.declared_records]
  simp only [Patch.ofBytes, header_build, frame_parts hfits, scan_parts hfits, hkept, ofRecords_recordsOf]
  rfl

theorem forall₂_diagnostics_patchOf (catalog : Catalog) (parts : List Part) :
    List.Forall₂ (fun m d => ∃ part span, (part, span) ∈ spanned (preamble.length + 3) parts ∧
        m.address ∈ part.declared ∧ d.WarnsOf m span)
      ((patchOf catalog parts).unknownModules catalog) (patchOf catalog parts).diagnostics := by
  have h := Part.forall₂_flatMap_findings catalog Prod.fst Prod.snd (spanned (preamble.length + 3) parts)
  rw [flatMap_spanned (Part.placed catalog)] at h
  refine h.imp fun m d hd => ?_
  obtain ⟨⟨part, span⟩, ha, hd⟩ := hd
  exact ⟨part, span, ha, hd⟩

/-- Decoding undoes building: where all values fit and no module is declared twice, the patch
    in the built file is the one the parts say. Its findings are warnings, one for each module of
    an unknown type and in the order of these, and name the bytes of the part that declares it. -/
theorem ofBytes_build (catalog : Catalog) {parts : List Part} (hfits : ∀ p ∈ parts, p.Fits)
    (hnodup : (parts.flatMap Part.declared).Nodup) :
    (Patch.ofBytes catalog (build parts)).value = .ok (patchOf catalog parts) ∧
      List.Forall₂ (fun m d => ∃ part span, (part, span) ∈ spanned (preamble.length + 3) parts ∧
          m.address ∈ part.declared ∧ d.WarnsOf m span)
        ((patchOf catalog parts).unknownModules catalog) (patchOf catalog parts).diagnostics := by
  refine ⟨?_, forall₂_diagnostics_patchOf catalog parts⟩
  rw [ofBytes_build_eq catalog hfits hnodup]

/-- One part of each kind; the catalog lacks the type of the second module. -/
def sampleParts : List Part :=
  [.description 3 8 true, .modules .voice [(7, 1), (9, 2)], .raw 0x69 [1, 2, 3],
    .cables .voice [⟨.outToIn, .blue, 1, 0, 1, 0⟩], .parameters .voice [⟨1, 2, [64, 127]⟩]]

def sampleCatalog : Catalog := ⟨[⟨7, "Mixer", [.audio], [.audio], 2⟩], by decide⟩

theorem ofBytes_build_sampleParts :
    (∀ p ∈ sampleParts, p.Fits) ∧ (sampleParts.flatMap Part.declared).Nodup ∧
      ∃ d, (Patch.ofBytes sampleCatalog (build sampleParts)).value = .ok
          { description := ⟨3, 8, true⟩
            modules := [.place sampleCatalog .voice 7 1, .place sampleCatalog .voice 9 2]
            cables := [⟨.voice, .outToIn, .blue, 1, 0, 1, 0⟩]
            params := [⟨.voice, 1, 2, [64, 127]⟩]
            diagnostics := [d] } ∧
        d.WarnsOf (.place sampleCatalog .voice 9 2) ⟨87, 104⟩ := by
  have hfits : ∀ p ∈ sampleParts, p.Fits := by decide
  have hnodup : (sampleParts.flatMap Part.declared).Nodup := by decide
  obtain ⟨hvalue, hfindings⟩ := ofBytes_build sampleCatalog hfits hnodup
  have hunknown : (patchOf sampleCatalog sampleParts).unknownModules sampleCatalog =
      [.place sampleCatalog .voice 9 2] := by decide +kernel
  have hplace : ∀ a ∈ spanned (preamble.length + 3) sampleParts, (.voice, 2) ∈ a.1.declared → a.2 = ⟨87, 104⟩ := by
    decide +kernel
  rw [hunknown] at hfindings
  obtain ⟨d, ds, ⟨part, span, hmem, hdeclared, hwarns⟩, hnil, hdiagnostics⟩ := List.forall₂_cons_left_iff.1 hfindings
  obtain rfl := List.forall₂_nil_left_iff.1 hnil
  obtain rfl := hplace (part, span) hmem hdeclared
  refine ⟨hfits, hnodup, d, ?_, hwarns⟩
  rw [hvalue, ← hdiagnostics]
  rfl

end Container

end Patchbay
