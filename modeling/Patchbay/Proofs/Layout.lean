/-
  Patchbay.Proofs.Layout — patch files as their format lays them out, apart from decoding.

  A `BitVec` is a field of its width. An entry is the fields of one record, all of them, also
  those that decoding passes over; a `Content` is what a section of a kind spells, and a `File`
  is a text, a header, sections that spell their contents, and a trailer. A file says what its
  sections say, each as the call of the builder that says the same.
  - `records_toSection_of_spelled`: decoding a section that spells a content gives, headings
    apart, what the content says.
  - `ofBytes_file`: the patch in the bytes of a file is the one the file says.
-/

import Patchbay.Proofs.RoundTrip

namespace Patchbay.Container

open Bits Fields

/-! ## Entries -/

def fieldBits {width : Nat} (v : BitVec width) : List Bool := ofNat width v.toNat

/-- A list that a count of `width` bits can count. -/
abbrev Counted (width : Nat) (α : Type) := { l : List α // l.length < 2 ^ width }

def Counted.countBits {width : Nat} {α : Type} (l : Counted width α) : List Bool := ofNat width l.1.length

structure ModuleEntry where
  typeId : BitVec 8
  id : BitVec 8
  x : BitVec 7
  y : BitVec 7
  color : BitVec 8
  uprate : BitVec 1
  leds : BitVec 1
  reserved : BitVec 6
  modes : Counted 4 (BitVec 6)

namespace ModuleEntry

def looks (e : ModuleEntry) : List Bool :=
  fieldBits e.x ++ fieldBits e.y ++ fieldBits e.color ++ fieldBits e.uprate ++ fieldBits e.leds ++ fieldBits e.reserved

def bits (e : ModuleEntry) : List Bool :=
  fieldBits e.typeId ++ fieldBits e.id ++ e.looks ++ e.modes.countBits ++ e.modes.1.flatMap fieldBits

def key (e : ModuleEntry) : Nat × Nat := (e.typeId.toNat, e.id.toNat)

end ModuleEntry

structure CableEntry where
  color : CableColor
  moduleFrom : BitVec 8
  jackFrom : BitVec 6
  kind : CableKind
  moduleTo : BitVec 8
  jackTo : BitVec 6

namespace CableEntry

def bits (e : CableEntry) : List Bool :=
  ofNat 3 e.color.code ++ fieldBits e.moduleFrom ++ fieldBits e.jackFrom ++ ofNat 1 e.kind.code ++
    fieldBits e.moduleTo ++ fieldBits e.jackTo

def stored (e : CableEntry) : StoredCable :=
  ⟨e.kind, e.color, e.moduleFrom.toNat, e.jackFrom.toNat, e.moduleTo.toNat, e.jackTo.toNat⟩

end CableEntry

structure VariationEntry (declared : Nat) where
  number : BitVec 8
  values : List (BitVec 7)
  length_values : values.length = declared

def VariationEntry.bits {declared : Nat} (v : VariationEntry declared) : List Bool :=
  fieldBits v.number ++ ofNat 7 v.values.length ++ v.values.flatMap fieldBits

structure ParameterEntry (variations : Nat) where
  moduleId : BitVec 8
  declared : BitVec 7
  stored : List (VariationEntry declared.toNat)
  length_stored : stored.length = variations

namespace ParameterEntry

variable {variations : Nat}

def bits (e : ParameterEntry variations) : List Bool :=
  fieldBits e.moduleId ++ fieldBits e.declared ++ e.stored.flatMap VariationEntry.bits

/-- The first variation, if there is one. -/
def block? (e : ParameterEntry variations) : Option StoredBlock :=
  e.stored.head?.map fun v => ⟨e.moduleId.toNat, e.declared.toNat, v.values.map BitVec.toNat⟩

end ParameterEntry

/-! ## Contents -/

def knownKinds : List UInt8 := [descriptionKind, moduleListKind, cableListKind, parametersKind]

inductive Content where
  | description (activeVariation : BitVec 8) (voices : BitVec 5) (mono : Bool) (reserved : BitVec 2)
  | modules (area : Area) (entries : Counted 8 ModuleEntry)
  | cables (area : Area) (reserved : BitVec 12) (entries : Counted 10 CableEntry)
  | parameters (area : Area) (variations : BitVec 8) (entries : Counted 8 (ParameterEntry variations.toNat))
  /-- A section that is not looked into. -/
  | other (kind : UInt8) (unknown : kind ∉ knownKinds)

namespace Content

def kind : Content → UInt8
  | .description .. => descriptionKind
  | .modules .. => moduleListKind
  | .cables .. => cableListKind
  | .parameters .. => parametersKind
  | .other kind _ => kind

def bits? : Content → Option (List Bool)
  | .description activeVariation voices mono reserved =>
    some (fieldBits activeVariation ++ fieldBits voices ++ ofNat 1 mono.toNat ++ fieldBits reserved)
  | .modules area entries => some (ofNat 2 area.code ++ entries.countBits ++ entries.1.flatMap ModuleEntry.bits)
  | .cables area reserved entries =>
    some (ofNat 2 area.code ++ fieldBits reserved ++ entries.countBits ++ entries.1.flatMap CableEntry.bits)
  | .parameters area variations entries =>
    some (ofNat 2 area.code ++ entries.countBits ++ fieldBits variations ++ entries.1.flatMap ParameterEntry.bits)
  | .other .. => none

/-- A payload spells a content if it is its bits and less than a byte of padding. Nothing is
    asked of the payload of a section that is not looked into. -/
def Spelled (c : Content) (payload : List UInt8) : Prop :=
  ∀ bits, c.bits? = some bits → ∃ padding, padding.length < 8 ∧ ofBytes payload = bits ++ padding

def said (payload : List UInt8) : Content → Part
  | .description activeVariation voices mono _ => .description activeVariation.toNat voices.toNat mono
  | .modules area entries => .modules area (entries.1.map ModuleEntry.key)
  | .cables area _ entries => .cables area (entries.1.map CableEntry.stored)
  | .parameters area _ entries => .parameters area (entries.1.filterMap ParameterEntry.block?)
  | .other kind _ => .raw kind payload

end Content

/-! ## Files -/

structure WrittenSection where
  content : Content
  payload : List UInt8
  /-- The length is stored in two bytes. -/
  length_payload : payload.length < 2 ^ 16
  spelled : content.Spelled payload

namespace WrittenSection

/-- The kind, the length with its high byte first, and the payload. -/
def bytes (s : WrittenSection) : List UInt8 :=
  s.content.kind :: UInt8.ofNat (s.payload.length / 256) :: UInt8.ofNat s.payload.length :: s.payload

def said (s : WrittenSection) : Part := s.content.said s.payload

/-- Sections with the bytes they take, from `offset` on. -/
def located (offset : Nat) : List WrittenSection → List (WrittenSection × Span)
  | [] => []
  | s :: ss => (s, ⟨offset, offset + s.bytes.length⟩) :: located (offset + s.bytes.length) ss

end WrittenSection

structure File where
  text : List UInt8
  sections : List WrittenSection
  trailer : UInt8 × UInt8
  starts : magic <+: text
  zero_notMem : 0 ∉ text
  /-- No module of an area is declared twice, in one list or in several. -/
  nodup_declared : (sections.flatMap fun s => s.said.declared).Nodup

namespace File

def bytes (f : File) : List UInt8 :=
  f.text ++ [0, formatVersion, patchFileType] ++ f.sections.flatMap WrittenSection.bytes ++ [f.trailer.1, f.trailer.2]

def start (f : File) : Nat := f.text.length + 3

/-- The findings on the modules of a file, each with the bytes of the section that declares the
    module. -/
def findings (catalog : Catalog) (f : File) : List Diagnostic :=
  (WrittenSection.located f.start f.sections).flatMap fun (s, span) => s.said.findings catalog span

/-- The patch that a file says: the last description, and modules, cables and first variations
    in the order of the file. -/
def patch (catalog : Catalog) (f : File) : Patch where
  description := (f.sections.filterMap fun s => s.said.description?).getLast?.getD {}
  modules := f.sections.flatMap fun s => s.said.placed catalog
  cables := f.sections.flatMap fun s => s.said.wired
  params := f.sections.flatMap fun s => s.said.stored
  diagnostics := f.findings catalog

end File

/-! ## Entries are read -/

theorem length_fieldBits {width : Nat} (v : BitVec width) : (fieldBits v).length = width := length_ofNat _ _

theorem length_flatMap_fieldBits {width : Nat} (vs : List (BitVec width)) :
    (vs.flatMap fieldBits).length = vs.length * width := by
  induction vs with
  | nil => simp
  | cons v vs ih => rw [List.flatMap_cons, List.length_append, length_fieldBits, ih, List.length_cons]; grind

theorem reads_moduleEntry (e : ModuleEntry) : Reads moduleRecord e.bits e.key := by
  have hlooks : e.looks.length = 30 := by simp only [ModuleEntry.looks, List.length_append, length_fieldBits]
  have hmodes := length_flatMap_fieldBits e.modes.1
  have h := reads_moduleRecord e.typeId.isLt e.id.isLt hlooks e.modes.2 hmodes
  unfold ModuleEntry.bits
  simp only [List.append_assoc]
  exact h

theorem reads_cableEntry (area : Area) (e : CableEntry) : Reads (cableRecord area) e.bits (e.stored.inArea area) := by
  have h := reads_cableRecord area e.color e.kind e.moduleFrom.isLt e.jackFrom.isLt e.moduleTo.isLt e.jackTo.isLt
  unfold CableEntry.bits
  simp only [List.append_assoc]
  exact h

theorem reads_parameterEntry (area : Area) {variations : Nat} (e : ParameterEntry variations) :
    Reads (parameterRecord area variations) e.bits (e.block?.map (·.inArea area)) := by
  have hvariations : ∀ v ∈ e.stored.map fun v => (fieldBits v.number, v.values.map BitVec.toNat),
      v.1.length = 8 ∧ v.2.length = e.declared.toNat ∧ ∀ n ∈ v.2, n < 2 ^ 7 := by
    intro v hv
    obtain ⟨w, -, rfl⟩ := List.mem_map.1 hv
    refine ⟨length_fieldBits w.number, by rw [List.length_map, w.length_values], fun n hn => ?_⟩
    obtain ⟨b, -, rfl⟩ := List.mem_map.1 hn
    exact b.isLt
  have hlayout (v : VariationEntry e.declared.toNat) :
      variationLayout (fieldBits v.number, v.values.map BitVec.toNat) = v.bits := by
    simp only [variationLayout, VariationEntry.bits, List.length_map, List.flatMap_map, List.append_assoc]
    rfl
  have hfirst : ((e.stored.map fun v => (fieldBits v.number, v.values.map BitVec.toNat)).head?.map fun v =>
      (⟨area, e.moduleId.toNat, e.declared.toNat, v.2⟩ : ParameterBlock)) = e.block?.map (·.inArea area) := by
    unfold ParameterEntry.block?
    cases e.stored <;> rfl
  have h := reads_parameterRecord area e.moduleId.isLt e.declared.isLt hvariations
  rw [List.length_map, e.length_stored, hfirst] at h
  simp only [List.flatMap_map, hlayout] at h
  unfold ParameterEntry.bits
  rw [List.append_assoc]
  exact h

/-! ## Sections are read -/

/-- Records that announce others, or a section that is not looked into: they say nothing of
    the patch. -/
def Record.isHeading : Record → Bool
  | .moduleList .. | .cableList .. | .parameterList .. | .skipped .. => true
  | _ => false

theorem Record.nothing_of_isHeading (catalog : Catalog) {r : Record} (h : r.isHeading) :
    r.declared? = none ∧ r.description? = none ∧ r.placedModule? catalog = none ∧ r.cable? = none ∧
      r.parameters? = none ∧ r.diagnostic? catalog = none := by
  cases r with
  | moduleList | cableList | parameterList | skipped => exact ⟨rfl, rfl, rfl, rfl, rfl, rfl⟩
  | _ => cases h

def sayings (records : List Record) : List Record := records.filter fun r => !r.isHeading

theorem filterMap_sayings {α : Type} {f : Record → Option α} (h : ∀ r : Record, r.isHeading → f r = none)
    (records : List Record) : (sayings records).filterMap f = records.filterMap f := by
  induction records with
  | nil => rfl
  | cons r records ih =>
    unfold sayings at ih ⊢
    by_cases hr : r.isHeading
    · rw [List.filter_cons_of_neg (by simp [hr]), ih, List.filterMap_cons_none (h r hr)]
    · rw [List.filter_cons_of_pos (by simpa using hr), List.filterMap_cons, List.filterMap_cons, ih]

namespace WrittenSection

def toSection (s : WrittenSection) (offset : Nat) : Section := ⟨s.content.kind, offset, s.payload⟩

theorem length_bytes (s : WrittenSection) : s.bytes.length = Section.headerSize + s.payload.length := by
  simp only [bytes, List.length_cons, Section.headerSize]; omega

theorem span_toSection (s : WrittenSection) (offset : Nat) :
    (s.toSection offset).span = ⟨offset, offset + s.bytes.length⟩ := by
  rw [length_bytes, ← Nat.add_assoc]; rfl

/-- A section is read without fault into what it says, and headings. -/
theorem records_toSection_of_spelled (s : WrittenSection) (offset : Nat) :
    (s.toSection offset).records.2 = none ∧
      sayings (s.toSection offset).records.1 = sayings (s.said.records ⟨offset, offset + s.bytes.length⟩) := by
  rw [← span_toSection]
  obtain ⟨content, payload, hlen, hspelled⟩ := s
  unfold Content.Spelled at hspelled
  cases content with
  | description activeVariation voices mono reserved =>
    obtain ⟨padding, hpad, hbits⟩ := hspelled _ rfl
    have h := Section.records_description (s := toSection ⟨_, payload, hlen, hspelled⟩ offset) hpad rfl
      activeVariation.isLt voices.isLt (length_fieldBits reserved) (by simpa [toSection, fieldBits] using hbits)
    rw [h]
    exact ⟨rfl, rfl⟩
  | modules area entries =>
    obtain ⟨padding, hpad, hbits⟩ := hspelled _ rfl
    have h := Section.records_moduleList (s := toSection ⟨_, payload, hlen, hspelled⟩ offset) hpad rfl
      ModuleEntry.key entries.2 (fun e _ => reads_moduleEntry e)
      (by simpa [toSection, Counted.countBits] using hbits)
    rw [h]
    exact ⟨rfl, by simp only [said, Content.said, Part.records, List.length_map, List.map_map]; rfl⟩
  | cables area reserved entries =>
    obtain ⟨padding, hpad, hbits⟩ := hspelled _ rfl
    have h := Section.records_cableList (s := toSection ⟨_, payload, hlen, hspelled⟩ offset) hpad rfl
      (length_fieldBits reserved) entries.2 (fun e _ => reads_cableEntry area e)
      (by simpa [toSection, Counted.countBits] using hbits)
    rw [h]
    exact ⟨rfl, by simp only [said, Content.said, Part.records, List.length_map, List.map_map]; rfl⟩
  | parameters area variations entries =>
    obtain ⟨padding, hpad, hbits⟩ := hspelled _ rfl
    have h := Section.records_parameters (s := toSection ⟨_, payload, hlen, hspelled⟩ offset) hpad rfl
      variations.isLt entries.2 (fun e _ => reads_parameterEntry area e)
      (by simpa [toSection, Counted.countBits, fieldBits] using hbits)
    have hblocks : (entries.1.flatMap fun e => (e.block?.map (·.inArea area)).toList.map Record.parameters) =
        (entries.1.filterMap ParameterEntry.block?).map fun b => Record.parameters (b.inArea area) := by
      rw [List.filterMap_eq_flatMap_toList, List.map_flatMap]
      refine List.flatMap_congr fun e _ => ?_
      cases e.block? <;> rfl
    rw [h]
    refine ⟨rfl, ?_⟩
    simp only [hblocks]
    rfl
  | other kind unknown =>
    simp only [knownKinds, List.mem_cons, List.not_mem_nil, or_false, not_or] at unknown
    rw [Section.records_of_unknown_kind unknown.1 unknown.2.1 unknown.2.2.1 unknown.2.2.2]
    exact ⟨rfl, rfl⟩

/-! ## Files are decoded -/

theorem frame_located (offset : Nat) (ss : List WrittenSection) (first second : UInt8) :
    frame offset (ss.flatMap bytes ++ [first, second]) =
      ⟨(located offset ss).map fun (s, span) => s.toSection span.start, none⟩ := by
  induction ss generalizing offset with
  | nil => exact frame_trailer _ _ _
  | cons s ss ih =>
    have hlen : s.payload.length ≤ 65535 := by have := s.length_payload; omega
    have hbytes : (s :: ss).flatMap bytes ++ [first, second] = s.content.kind :: UInt8.ofNat (s.payload.length / 256) ::
        UInt8.ofNat s.payload.length :: (s.payload ++ (ss.flatMap bytes ++ [first, second])) := by
      simp [bytes]
    rw [hbytes, frame_section _ _ _ _ (lengthOf_ofNat hlen).symm (by simp), Nat.add_assoc, ← length_bytes, ih]
    rfl

/-- What does not hang on the place of a section. -/
theorem flatMap_located {α : Type} (f : WrittenSection → List α) (offset : Nat) (ss : List WrittenSection) :
    (located offset ss).flatMap (fun a => f a.1) = ss.flatMap f := by
  induction ss generalizing offset with
  | nil => rfl
  | cons s ss ih => rw [located, List.flatMap_cons, List.flatMap_cons, ih]

def recordsFrom (offset : Nat) (ss : List WrittenSection) : List Record :=
  ((located offset ss).map fun (s, span) => s.toSection span.start).flatMap fun s => s.records.1

/-- What is taken from the records, headings apart, is taken from what the sections say. -/
theorem filterMap_recordsFrom {α : Type} {f : Record → Option α} {g : Span → Part → List α}
    (hf : ∀ r : Record, r.isHeading → f r = none)
    (h : ∀ (span : Span) (p : Part), (p.records span).filterMap f = g span p)
    (offset : Nat) (ss : List WrittenSection) :
    (recordsFrom offset ss).filterMap f = (located offset ss).flatMap fun (s, span) => g span s.said := by
  induction ss generalizing offset with
  | nil => rfl
  | cons s ss ih =>
    have hs : (s.toSection offset).records.1.filterMap f = g ⟨offset, offset + s.bytes.length⟩ s.said := by
      rw [← filterMap_sayings hf, (s.records_toSection_of_spelled offset).2, filterMap_sayings hf, h]
    have hcons : recordsFrom offset (s :: ss) =
        (s.toSection offset).records.1 ++ recordsFrom (offset + s.bytes.length) ss := rfl
    rw [hcons, List.filterMap_append, hs, ih]
    rfl

theorem filterMap_recordsFrom_of_const {α : Type} {f : Record → Option α} {g : Part → List α}
    (hf : ∀ r : Record, r.isHeading → f r = none) (h : ∀ (span : Span) (p : Part), (p.records span).filterMap f = g p)
    (offset : Nat) (ss : List WrittenSection) :
    (recordsFrom offset ss).filterMap f = ss.flatMap fun s => g s.said := by
  rw [filterMap_recordsFrom hf h]
  exact flatMap_located (fun s => g s.said) offset ss

theorem declared_recordsFrom (offset : Nat) (ss : List WrittenSection) :
    (recordsFrom offset ss).filterMap Record.declared? = ss.flatMap fun s => s.said.declared :=
  filterMap_recordsFrom_of_const (fun r hr => (r.nothing_of_isHeading .empty hr).1)
    (fun span p => p.declared_records span) offset ss

theorem scan_located (last : Option Corruption) (offset : Nat) (ss : List WrittenSection) :
    scan last ((located offset ss).map fun (s, span) => s.toSection span.start) = (recordsFrom offset ss, last) := by
  rw [scan_eq]
  · rfl
  · intro t ht
    obtain ⟨a, -, rfl⟩ := List.mem_map.1 ht
    exact (a.1.records_toSection_of_spelled a.2.start).1

end WrittenSection

namespace File

open WrittenSection

variable (f : File)

theorem header_bytes :
    header f.bytes = .ok (f.start, f.sections.flatMap WrittenSection.bytes ++ [f.trailer.1, f.trailer.2]) := by
  unfold bytes
  rw [List.append_assoc, header_append f.starts f.zero_notMem]
  rfl

theorem untilRepeated_records :
    untilRepeated [] (recordsFrom f.start f.sections) = (recordsFrom f.start f.sections, none) := by
  refine untilRepeated_eq (fun _ _ h => absurd h List.not_mem_nil) ?_
  rw [declared_recordsFrom]
  exact f.nodup_declared

theorem ofRecords_records (catalog : Catalog) :
    Patch.ofRecords catalog (recordsFrom f.start f.sections) = f.patch catalog := by
  have nothing {r : Record} (h : r.isHeading) := r.nothing_of_isHeading catalog h
  have hdescription : (recordsFrom f.start f.sections).filterMap Record.description? =
      f.sections.filterMap fun s => s.said.description? := by
    rw [filterMap_recordsFrom_of_const (fun r hr => (nothing hr).2.1) (fun span p => p.description_records span),
      List.filterMap_eq_flatMap_toList]
  have hplaced := filterMap_recordsFrom_of_const (fun r hr => (nothing hr).2.2.1)
    (fun span p => p.placed_records catalog span) f.start f.sections
  have hwired := filterMap_recordsFrom_of_const (fun r hr => (nothing hr).2.2.2.1)
    (fun span p => p.wired_records span) f.start f.sections
  have hstored := filterMap_recordsFrom_of_const (fun r hr => (nothing hr).2.2.2.2.1)
    (fun span p => p.stored_records span) f.start f.sections
  have hfindings := filterMap_recordsFrom (fun r hr => (nothing hr).2.2.2.2.2)
    (fun span p => p.findings_records catalog span) f.start f.sections
  simp only [Patch.ofRecords, patch, findings, hdescription, hplaced, hwired, hstored, hfindings]

/-- The patch in the bytes of a file is the one the file says. -/
theorem ofBytes_file (catalog : Catalog) : (Patch.ofBytes catalog f.bytes).value = .ok (f.patch catalog) := by
  unfold Patch.ofBytes
  simp only [header_bytes, frame_located, scan_located, untilRepeated_records, ofRecords_records]
  rfl

end File

/-! ## A small file -/

def sampleEntries : Counted 8 ModuleEntry :=
  ⟨[⟨7, 1, 0, 0, 0, 0, 0, 0, ⟨[5], by decide⟩⟩, ⟨9, 2, 0, 0, 0, 0, 0, 0, ⟨[], by decide⟩⟩], by decide⟩

def sampleParameters : Counted 8 (ParameterEntry (2 : BitVec 8).toNat) :=
  ⟨[⟨1, 2, [⟨0, [64, 127], rfl⟩, ⟨1, [3, 4], rfl⟩], rfl⟩], by decide⟩

def sampleFile : File where
  text := magic ++ [0x20, 0x31]
  sections := [
    ⟨.description 3 8 true 0, [3, 68], by decide, by rintro _ ⟨⟩; exact ⟨[], by decide⟩⟩,
    ⟨.modules .voice sampleEntries, [64, 129, 192, 64, 0, 0, 0, 17, 66, 64, 128, 0, 0, 0, 0], by decide, by
      rintro _ ⟨⟩; exact ⟨List.replicate 4 false, by decide⟩⟩,
    ⟨.other 0x69 (by decide), [1, 2, 3], by decide, by rintro _ ⟨⟩⟩,
    ⟨.parameters .voice 2 sampleParameters, [64, 64, 128, 65, 0, 2, 129, 252, 4, 16, 48, 128], by decide, by
      rintro _ ⟨⟩; exact ⟨List.replicate 5 false, by decide⟩⟩]
  trailer := (0xab, 0xcd)
  starts := List.prefix_append _ _
  zero_notMem := by decide
  nodup_declared := by decide

end Patchbay.Container
