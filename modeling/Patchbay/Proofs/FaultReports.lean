/-
  Patchbay.Proofs.FaultReports — what decoding says of a damaged file is true of the file.

  - `exists_repeated`, `exists_clean_of_scan`: where reading stops; the sections before have no
    fault.
  - `sectionAt_of_cut`: the next section, in the bytes of the file.
  - `Corruption.TrueAt`: what a corruption says of a file, at the end of some of its sections.
  - `decoding_is_safe_and_faults_are_true`: no step of decoding fails, and its faults are true.
-/

import Patchbay.Proofs.Positions
import Patchbay.Proofs.SectionFaults

namespace Patchbay

namespace Container

open Bits Fields

/-! ## Modules that are declared again -/

/-- Records are kept up to a module that was seen or declared before. -/
theorem exists_repeated {seen : List (Area × Nat)} {records : List Record} {c : Corruption}
    (h : (untilRepeated seen records).2 = some c) : ∃ before area typeId id span after,
      records = before ++ .placed area typeId id span :: after ∧ c = .duplicateModule area id ∧
        ((area, id) ∈ seen ∨ (area, id) ∈ before.filterMap Record.declared?) := by
  induction records generalizing seen with
  | nil => cases h
  | cons r records ih =>
    cases r with
    | placed area typeId id span =>
      unfold untilRepeated at h
      by_cases hseen : (area, id) ∈ seen
      · simp only [hseen, if_true, Option.some.injEq] at h
        exact ⟨[], area, typeId, id, span, records, rfl, h.symm, .inl hseen⟩
      · simp only [hseen, if_false] at h
        obtain ⟨before, area', typeId', id', span', after, rfl, rfl, hmem⟩ := ih h
        refine ⟨.placed area typeId id span :: before, area', typeId', id', span', after, rfl, rfl, ?_⟩
        rw [List.filterMap_cons_some (by rfl : Record.declared? _ = some (area, id))]
        rcases hmem with hmem | hmem
        · rcases List.mem_cons.1 hmem with heq | hmem
          · exact .inr (heq ▸ List.mem_cons_self)
          · exact .inl hmem
        · exact .inr (List.mem_cons_of_mem _ hmem)
    | _ =>
      obtain ⟨before, area, typeId, id, span, after, rfl, rfl, hmem⟩ := ih h
      exact ⟨_ :: before, area, typeId, id, span, after, rfl, rfl, hmem⟩

/-! ## Where reading stops -/

/-- A record that was read is of a section, and the sections before it have no fault. -/
theorem exists_section_of_scan {last : Option Corruption} {ss : List Section} {before after : List Record} {r : Record}
    (h : (scan last ss).1 = before ++ r :: after) : ∃ pre s post front back, ss = pre ++ s :: post ∧
      (∀ t ∈ pre, t.records.2 = none) ∧ s.records.1 = front ++ r :: back ∧
        before = pre.flatMap (fun t => t.records.1) ++ front := by
  induction ss generalizing before with
  | nil => exact absurd h (List.append_ne_nil_of_right_ne_nil _ (List.cons_ne_nil _ _)).symm
  | cons s ss ih =>
    have hhere {back : List Record} (hs : s.records.1 = before ++ r :: back) : ∃ pre s' post front back,
        s :: ss = pre ++ s' :: post ∧ (∀ t ∈ pre, t.records.2 = none) ∧ s'.records.1 = front ++ r :: back ∧
          before = pre.flatMap (fun t => t.records.1) ++ front :=
      ⟨[], s, ss, before, back, rfl, fun _ ht => absurd ht List.not_mem_nil, hs, rfl⟩
    unfold scan at h
    rcases hs : s.records with ⟨records, fault⟩
    cases fault with
    | some fault =>
      simp only [hs] at h
      exact hhere (by rw [hs, h])
    | none =>
      simp only [hs] at h
      have hsplit : (∃ back, records = before ++ r :: back) ∨
          ∃ more, before = records ++ more ∧ (scan last ss).1 = more ++ r :: after := by
        obtain ⟨more, hbefore, hlater⟩ | ⟨more, hrecords, hlater⟩ := List.append_eq_append_iff.1 h
        · exact .inr ⟨more, hbefore, hlater⟩
        · cases more with
          | nil => exact .inr ⟨[], by rw [hrecords, List.append_nil, List.append_nil], hlater.symm⟩
          | cons r' back =>
            obtain ⟨rfl, -⟩ := List.cons_eq_cons.1 hlater
            exact .inl ⟨back, hrecords⟩
      obtain ⟨back, hback⟩ | ⟨more, rfl, hlater⟩ := hsplit
      · exact hhere (by rw [hs, hback])
      · obtain ⟨pre, s', post, front, back, rfl, hclean, hs', rfl⟩ := ih hlater
        refine ⟨s :: pre, s', post, front, back, rfl, fun t ht => ?_, hs', ?_⟩
        · rcases List.mem_cons.1 ht with rfl | ht
          · rw [hs]
          · exact hclean t ht
        · rw [List.flatMap_cons, hs, List.append_assoc]

/-- A fault is that of a section, or the last one; the sections before it have no fault. -/
theorem exists_clean_of_scan {last : Option Corruption} {ss : List Section} {c : Corruption}
    (h : (scan last ss).2 = some c) : ∃ pre post, ss = pre ++ post ∧ (∀ t ∈ pre, t.records.2 = none) ∧
      ((post = [] ∧ last = some c) ∨ ∃ s post', post = s :: post' ∧ s.records.2 = some c) := by
  induction ss with
  | nil => exact ⟨[], [], rfl, fun _ ht => absurd ht List.not_mem_nil, .inl ⟨rfl, h⟩⟩
  | cons s ss ih =>
    unfold scan at h
    rcases hs : s.records with ⟨records, fault⟩
    cases fault with
    | some fault =>
      simp only [hs] at h
      exact ⟨[], s :: ss, rfl, fun _ ht => absurd ht List.not_mem_nil, .inr ⟨s, ss, rfl, by rw [hs, h]⟩⟩
    | none =>
      simp only [hs] at h
      obtain ⟨pre, post, rfl, hclean, hpost⟩ := ih h
      refine ⟨s :: pre, post, rfl, fun t ht => ?_, hpost⟩
      rcases List.mem_cons.1 ht with rfl | ht
      · rw [hs]
      · exact hclean t ht

/-! ## Reports -/

def HeadingAt (bytes : List UInt8) (here : Nat) (kind : UInt8) (declared : Nat) : Prop :=
  ∃ high low, bytes[here]? = some kind ∧ bytes[here + 1]? = some high ∧ bytes[here + 2]? = some low ∧
    declared = lengthOf high low

structure SectionAt (bytes : List UInt8) (here : Nat) (kind : UInt8) (payload : List UInt8) : Prop where
  heading : HeadingAt bytes here kind payload.length
  slice_eq : Positions.slice bytes (here + 3) (here + 3 + payload.length) = some payload
  trailer : here + 3 + payload.length + 2 ≤ bytes.length

/-- A whole section that spells no content of its kind. -/
structure DamagedAt (bytes : List UInt8) (here : Nat) (kind : UInt8) (payload : List UInt8) : Prop
    extends SectionAt bytes here kind payload where
  not_spelled : ∀ c : Content, c.kind = kind → ¬c.Spelled payload

/-- The payload is a module list that declares a module of this id, and it does so after these
    others. -/
def DeclaresAfter (area : Area) (earlier : List ModuleEntry) (id : Nat) (payload : List UInt8) : Prop :=
  ∃ (count : BitVec 8) (e : ModuleEntry) (rest : List Bool), e.id.toNat = id ∧
    ofBytes payload = ofNat 2 area.code ++ (fieldBits count ++ (earlier.flatMap ModuleEntry.bits ++ (e.bits ++ rest)))

end Container

open Container

/-- What a corruption reports is so of a file of these bytes in which some whole sections end at
    `here`. -/
def Corruption.TrueAt (bytes : List UInt8) (before : List WrittenSection) (here : Nat) : Corruption → Prop
  | .missingTrailer => bytes.length < here + 2
  | .truncatedHeader offset => offset = here ∧ (bytes.length = here + 3 ∨ bytes.length = here + 4)
  | .sectionOverrun kind offset declared available => offset = here ∧ HeadingAt bytes here kind declared ∧
    available < declared ∧ here + 3 + available + 2 = bytes.length
  | .sectionLength kind offset declared consumed => offset = here ∧ consumed < declared ∧
    here + 3 + declared + 2 ≤ bytes.length ∧ ∃ payload, payload.length = declared ∧ DamagedAt bytes here kind payload
  | .truncated kind offset => offset = here ∧ ∃ payload, DamagedAt bytes here kind payload
  | .invalidCode kind offset e => offset = here ∧ ∃ payload, DamagedAt bytes here kind payload ∧
    (RecordFault.badCode e).StandsIn kind (Bits.ofBytes payload)
  | .parameterCount area moduleId declared stored => ∃ kind payload, DamagedAt bytes here kind payload ∧
    (RecordFault.parameterCount area moduleId declared stored).StandsIn kind (Bits.ofBytes payload)
  | .duplicateModule area id => ∃ payload earlier, SectionAt bytes here moduleListKind payload ∧
    DeclaresAfter area earlier id payload ∧
    (area, id) ∈ (before.flatMap fun s => s.said.declared) ++ earlier.map fun e => (area, e.id.toNat)

namespace Container

section

variable {front rest : List UInt8} {before : List WrittenSection}

theorem headingAt_append (kind high low : UInt8) (body : List UInt8) :
    HeadingAt (front ++ kind :: high :: low :: body) front.length kind (lengthOf high low) :=
  ⟨high, low, by simp, by simp, by simp, rfl⟩

theorem HeadingAt.lt {bytes : List UInt8} {here declared : Nat} {kind : UInt8} (h : HeadingAt bytes here kind declared) :
    declared < 2 ^ 16 := by
  obtain ⟨high, low, -, -, -, rfl⟩ := h
  exact lengthOf_lt high low

/-- A section that is cut off first stands where the cutting starts. -/
theorem sectionAt_of_cut {s : Section} {post : List Section} {fault : Option Corruption}
    (h : Cut front.length rest ⟨s :: post, fault⟩) :
    s.offset = front.length ∧ SectionAt (front ++ rest) front.length s.kind s.payload := by
  generalize hframing : (⟨s :: post, fault⟩ : Framing) = framing at h
  cases h with
  | @whole _ kind high low payload more later hlen hmore _ =>
    cases hframing
    refine ⟨rfl, ?_, ?_, ?_⟩
    · rw [hlen]
      exact headingAt_append _ _ _ _
    · have hslice : Positions.slice (front ++ [kind, high, low] ++ (payload ++ more)) (front.length + 3)
          (front.length + 3 + payload.length) = some payload := Positions.slice_append (by simp) (by simp)
      rw [List.append_assoc] at hslice
      exact hslice
    · simp only [List.length_append, List.length_cons]
      omega
  | _ => cases hframing

/-- The fault of a section is true where the section is cut off. -/
theorem trueAt_of_records {s : Section} {post : List Section} {fault : Option Corruption} {c : Corruption}
    (h : Cut front.length rest ⟨s :: post, fault⟩) (hc : s.records.2 = some c) :
    c.TrueAt (front ++ rest) before front.length := by
  obtain ⟨hoffset, hsection⟩ := sectionAt_of_cut h
  have hdamaged : DamagedAt (front ++ rest) front.length s.kind s.payload :=
    ⟨hsection, fun _ => Section.not_spelled_of_records hc hsection.heading.lt⟩
  obtain ⟨fault, rfl, hfault⟩ | ⟨consumed, hconsumed, rfl⟩ := Section.fault_of_records hc
  · cases fault with
    | short => exact ⟨hoffset, s.payload, hdamaged⟩
    | badCode e => exact ⟨hoffset, s.payload, hdamaged, hfault⟩
    | parameterCount => exact ⟨s.kind, s.payload, hdamaged, hfault⟩
  · exact ⟨hoffset, hconsumed, hsection.trailer, s.payload, rfl, hdamaged⟩

/-- What ends the cutting is true where it ends. -/
theorem trueAt_of_cut {c : Corruption} (h : Cut front.length rest ⟨[], some c⟩) :
    c.TrueAt (front ++ rest) before front.length := by
  have hlength : (front ++ rest).length = front.length + rest.length := List.length_append
  cases h with
  | missing hlen =>
    show (front ++ rest).length < front.length + 2
    omega
  | truncated hlong hlen =>
    rw [Section.headerSize] at hlen
    exact ⟨rfl, by omega⟩
  | overrun hbody hdeclared =>
    simp only [List.length_cons] at hlength
    exact ⟨rfl, headingAt_append _ _ _ _, hdeclared, by omega⟩

/-- A module that is declared again is declared in the section that is cut off there. -/
theorem trueAt_of_placed {s : Section} {post : List Section} {fault : Option Corruption} {earlier later : List Record}
    {area : Area} {typeId id : Nat} {span : Span} (h : Cut front.length rest ⟨s :: post, fault⟩)
    (hs : s.records.1 = earlier ++ .placed area typeId id span :: later)
    (hmem : (area, id) ∈ (before.flatMap fun s => s.said.declared) ++ earlier.filterMap Record.declared?) :
    (Corruption.duplicateModule area id).TrueAt (front ++ rest) before front.length := by
  obtain ⟨-, hsection⟩ := sectionAt_of_cut h
  obtain ⟨hkind, count, entries, e, more, hbits, hid, hearlier⟩ := Section.exists_entries_of_placed hs
  rw [hearlier] at hmem
  rw [hkind] at hsection
  exact ⟨s.payload, entries, hsection, ⟨count, e, more, hid, hbits⟩, hmem⟩

end

/-- A fault of what comes after `front` is true after some sections of it. -/
theorem exists_trueAt {front body : List UInt8} {c : Corruption} {framing : Framing} (h : Cut front.length body framing)
    {records : List Record} {last : Option Corruption} (hscan : scan framing.fault framing.sections = (records, last))
    (hc : (untilRepeated [] records).2.or last = some c) :
    ∃ (before : List WrittenSection) (rest : List UInt8), body = before.flatMap WrittenSection.bytes ++ rest ∧
      c.TrueAt (front ++ before.flatMap WrittenSection.bytes ++ rest) before
        (front ++ before.flatMap WrittenSection.bytes).length := by
  cases hrepeated : (untilRepeated [] records).2 with
  | some c' =>
    obtain rfl : c' = c := by simpa [hrepeated] using hc
    obtain ⟨earlier, area, typeId, id, span, later, rfl, rfl, hmem⟩ := exists_repeated hrepeated
    obtain ⟨pre, s, post, own, back, hsections, hclean, hs, rfl⟩ := exists_section_of_scan (congrArg Prod.fst hscan)
    obtain ⟨before, rest, rfl, rfl, hrest⟩ := exists_written_of_cut h hsections hclean
    rw [← List.length_append] at hrest
    refine ⟨before, rest, rfl, trueAt_of_placed hrest hs ?_⟩
    rw [← WrittenSection.declared_recordsFrom front.length, WrittenSection.recordsFrom, ← List.filterMap_append]
    exact hmem.resolve_left List.not_mem_nil
  | none =>
    rw [hrepeated, Option.none_or] at hc
    obtain ⟨pre, post, hsections, hclean, hpost⟩ := exists_clean_of_scan ((congrArg Prod.snd hscan).trans hc)
    obtain ⟨before, rest, rfl, -, hrest⟩ := exists_written_of_cut h hsections hclean
    rw [← List.length_append] at hrest
    obtain ⟨rfl, hlast⟩ | ⟨s, post', rfl, hs⟩ := hpost
    · rw [hlast] at hrest
      exact ⟨before, rest, rfl, trueAt_of_cut hrest⟩
    · exact ⟨before, rest, rfl, trueAt_of_records hrest hs⟩

/-- Decoding takes no byte, bit or slice from outside of its bytes and no difference below zero,
    and it comes to an end. Where it reports a corruption, the report is true of the file, after the
    sections that come before it. -/
theorem decoding_is_safe_and_faults_are_true (catalog : Catalog) (bytes : List UInt8) :
    Positions.decode catalog bytes = some (Patch.ofBytes catalog bytes).value ∧
    ∀ c, (Patch.ofBytes catalog bytes).value = .error (.corrupt c) →
      ∃ (text : List UInt8) (before : List WrittenSection) (rest : List UInt8) (here : Nat),
        magic <+: text ∧ 0 ∉ text ∧
        bytes = text ++ [0, formatVersion, patchFileType] ++ before.flatMap WrittenSection.bytes ++ rest ∧
        here = text.length + 3 + (before.flatMap WrittenSection.bytes).length ∧ c.TrueAt bytes before here := by
  refine ⟨Positions.decode_eq catalog bytes, fun c hc => ?_⟩
  unfold Patch.ofBytes at hc
  rcases hheader : header bytes with fault | ⟨offset, body⟩
  · simp [hheader] at hc
  obtain ⟨text, hstarts, hzero, rfl, rfl⟩ := exists_text_of_header hheader
  have hlen : (text ++ [0, formatVersion, patchFileType]).length = text.length + 3 := by simp
  rcases hscan : scan (frame (text.length + 3) body).fault (frame (text.length + 3) body).sections with ⟨records, last⟩
  simp only [hheader, hscan] at hc
  have hfault : (untilRepeated [] records).2.or last = some c := by
    split at hc
    · next fault hfault =>
      cases hc
      exact hfault
    · cases hc
  have hcut : Cut (text ++ [0, formatVersion, patchFileType]).length body (frame (text.length + 3) body) := by
    rw [hlen]
    exact cut_frame _ body
  obtain ⟨before, rest, rfl, htrue⟩ := exists_trueAt hcut hscan hfault
  rw [List.length_append, hlen] at htrue
  have hbytes := List.append_assoc (text ++ [0, formatVersion, patchFileType])
    (before.flatMap WrittenSection.bytes) rest
  exact ⟨text, before, rest, _, hstarts, hzero, hbytes.symm, rfl, hbytes ▸ htrue⟩

/-- A file that is cut in its second section, which starts at byte 45 and declares 15 bytes. -/
theorem decoding_is_safe_and_faults_are_true_sampleFile :
    (Patch.ofBytes sampleCatalog (sampleFile.bytes.take 52)).value = .error (.corrupt (.sectionOverrun 0x4a 45 15 2)) ∧
      Positions.decode sampleCatalog (sampleFile.bytes.take 52) =
        some (.error (.corrupt (.sectionOverrun 0x4a 45 15 2))) ∧
      HeadingAt (sampleFile.bytes.take 52) 45 0x4a 15 := by
  have h : (Patch.ofBytes sampleCatalog (sampleFile.bytes.take 52)).value =
      .error (.corrupt (.sectionOverrun 0x4a 45 15 2)) := by decide +kernel
  obtain ⟨hdecode, htrue⟩ := decoding_is_safe_and_faults_are_true sampleCatalog (sampleFile.bytes.take 52)
  obtain ⟨text, before, rest, here, -, -, -, -, rfl, hheading, -⟩ := htrue _ h
  exact ⟨h, by rw [hdecode, h], hheading⟩

end Container

end Patchbay
