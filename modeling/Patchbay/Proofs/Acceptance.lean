/-
  Patchbay.Proofs.Acceptance — the bytes that decode are those of files.

  Each stage of decoding that finds no fault tells what its bytes were:
  - `exists_text_of_header`: the text and the header after it.
  - `exists_written_of_cut`: sections, and how the bytes after them are cut.
  - `clean_of_scan`, `nodup_of_untilRepeated`: every section is read without fault, and no
    module is declared twice.
  - `ofBytes_eq_ok_iff_exists_file`: bytes decode to a patch iff they are those of a file
    that says it.
-/

import Patchbay.Proofs.Spelling

namespace Patchbay.Container

theorem zero_notMem_magic : 0 ∉ magic := by decide

/-- What a text without zero bytes starts with, it starts with also if a zero byte follows. -/
theorem magic_isPrefix_text {text rest : List UInt8} (h : magic <+: text ++ 0 :: rest) : magic <+: text := by
  obtain ⟨after, h⟩ := h
  obtain ⟨more, rfl, -⟩ | ⟨more, hmore, hrest⟩ := List.append_eq_append_iff.1 h
  · exact List.prefix_append _ _
  · cases more with
    | nil =>
      have heq : magic = text := hmore.trans (List.append_nil text)
      exact heq ▸ List.prefix_rfl
    | cons b more =>
      obtain ⟨rfl, -⟩ := List.cons_eq_cons.1 hrest
      exact absurd (by rw [hmore]; simp) zero_notMem_magic

theorem exists_text_of_header {bytes body : List UInt8} {offset : Nat} (h : header bytes = .ok (offset, body)) :
    ∃ text, magic <+: text ∧ 0 ∉ text ∧ bytes = text ++ [0, formatVersion, patchFileType] ++ body ∧
      offset = text.length + 3 := by
  have hsplit : bytes.takeWhile (· ≠ 0) ++ bytes.dropWhile (· ≠ 0) = bytes := List.takeWhile_append_dropWhile
  have hzero : 0 ∉ bytes.takeWhile (· ≠ 0) := by
    intro hmem
    have := List.all_eq_true.1 (List.all_takeWhile (p := fun b : UInt8 => decide (b ≠ 0)) (l := bytes)) 0 hmem
    exact absurd rfl (of_decide_eq_true this)
  unfold header at h
  by_cases hmagic : magic.isPrefixOf bytes
  case neg => simp [hmagic] at h
  simp only [hmagic, Bool.not_true, Bool.false_eq_true, if_false] at h
  generalize bytes.takeWhile (· ≠ 0) = text at h hsplit hzero
  split at h
  · cases h
  · next zero version fileType after hdrop =>
    by_cases hversion : version = formatVersion
    case neg => simp [hversion] at h
    by_cases htype : fileType = patchFileType
    case neg => simp [hversion, htype] at h
    simp only [hversion, htype, ne_eq, not_true, if_false, Except.ok.injEq, Prod.mk.injEq] at h
    obtain ⟨rfl, rfl⟩ := h
    have hfirst : zero = 0 := by
      have := List.head?_dropWhile_not (fun b : UInt8 => decide (b ≠ 0)) bytes
      rw [hdrop] at this
      simpa using this
    rw [hdrop, hfirst, hversion, htype] at hsplit
    subst hsplit
    exact ⟨text, magic_isPrefix_text (List.isPrefixOf_iff_prefix.1 hmagic), hzero, by simp, rfl⟩
  · cases h

/-! ## Sections -/

theorem lengthOf_lt (high low : UInt8) : lengthOf high low < 2 ^ 16 := by
  have hhigh := high.toNat_lt
  have hlow := low.toNat_lt
  unfold lengthOf
  omega

theorem ofNat_lengthOf (high low : UInt8) :
    UInt8.ofNat (lengthOf high low / 256) = high ∧ UInt8.ofNat (lengthOf high low) = low := by
  have hlow := low.toNat_lt
  have hdiv : lengthOf high low / 256 = high.toNat := by unfold lengthOf; omega
  have hmod : lengthOf high low % 256 = low.toNat := by unfold lengthOf; omega
  refine ⟨by rw [hdiv, UInt8.ofNat_toNat], UInt8.toNat.inj ?_⟩
  rw [UInt8.toNat_ofNat', hmod]

/-- Sections without faults that are cut off were written so, and the others are cut from what is
    left after them. -/
theorem exists_written_of_cut {offset : Nat} {bytes : List UInt8} {framing : Framing} {pre post : List Section}
    (h : Cut offset bytes framing) (hsections : framing.sections = pre ++ post)
    (hclean : ∀ s ∈ pre, s.records.2 = none) :
    ∃ (ss : List WrittenSection) (rest : List UInt8), bytes = ss.flatMap WrittenSection.bytes ++ rest ∧
      pre = ((WrittenSection.located offset ss).map fun (s, span) => s.toSection span.start) ∧
      Cut (offset + (ss.flatMap WrittenSection.bytes).length) rest ⟨post, framing.fault⟩ := by
  induction pre generalizing offset bytes framing with
  | nil =>
    obtain rfl : framing.sections = post := hsections
    exact ⟨[], bytes, rfl, rfl, h⟩
  | cons s pre ih =>
    cases h with
    | @whole _ kind high low payload rest later hlen _ hlater =>
      obtain ⟨rfl, hrest⟩ := List.cons_eq_cons.1 hsections
      obtain ⟨content, rfl, hspelled⟩ := Section.exists_content_of_records (hclean _ List.mem_cons_self)
      have hlt : payload.length < 2 ^ 16 := by rw [hlen]; exact lengthOf_lt high low
      obtain ⟨hhigh, hlow⟩ := ofNat_lengthOf high low
      let w : WrittenSection := ⟨content, payload, hlt, hspelled⟩
      have hbytes : w.bytes = content.kind :: high :: low :: payload := by
        simp only [WrittenSection.bytes, w, hlen, hhigh, hlow]
      rw [Nat.add_assoc, ← w.length_bytes] at hlater
      obtain ⟨ss, more, rfl, hpre, hmore⟩ := ih hlater hrest fun t ht => hclean t (List.mem_cons_of_mem _ ht)
      refine ⟨w :: ss, more, ?_, ?_, ?_⟩
      · rw [List.flatMap_cons, List.append_assoc, hbytes]
        rfl
      · rw [WrittenSection.located, List.map_cons, ← hpre]
        rfl
      · rw [List.flatMap_cons, List.length_append, ← Nat.add_assoc]
        exact hmore
    | _ => cases hsections

/-! ## The stages after cutting -/

theorem clean_of_scan {last : Option Corruption} {ss : List Section} (h : (scan last ss).2 = none) :
    last = none ∧ ∀ s ∈ ss, s.records.2 = none := by
  induction ss with
  | nil => exact ⟨h, fun _ hs => absurd hs List.not_mem_nil⟩
  | cons s ss ih =>
    unfold scan at h
    rcases hs : s.records with ⟨records, fault⟩
    cases fault with
    | some fault => simp [hs] at h
    | none =>
      simp only [hs] at h
      obtain ⟨hlast, hss⟩ := ih h
      refine ⟨hlast, fun t ht => ?_⟩
      rcases List.mem_cons.1 ht with rfl | ht
      · rw [hs]
      · exact hss t ht

theorem nodup_of_untilRepeated {seen : List (Area × Nat)} {records : List Record}
    (h : (untilRepeated seen records).2 = none) :
    (∀ m ∈ records.filterMap Record.declared?, m ∉ seen) ∧ (records.filterMap Record.declared?).Nodup := by
  induction records generalizing seen with
  | nil => exact ⟨fun _ hm => absurd hm List.not_mem_nil, List.nodup_nil⟩
  | cons r records ih =>
    cases r with
    | placed area typeId id span =>
      unfold untilRepeated at h
      by_cases hseen : (area, id) ∈ seen
      · simp [hseen] at h
      · simp only [hseen, if_false] at h
        obtain ⟨hnew, hnodup⟩ := ih h
        rw [List.filterMap_cons_some (by rfl : Record.declared? _ = some (area, id))]
        refine ⟨fun m hm => ?_, List.nodup_cons.2 ⟨fun hm => hnew _ hm List.mem_cons_self, hnodup⟩⟩
        rcases List.mem_cons.1 hm with rfl | hm
        · exact hseen
        · exact fun hm' => hnew m hm (List.mem_cons_of_mem _ hm')
    | _ => exact ih h

/-! ## Accepted bytes -/

variable {catalog : Catalog} {bytes : List UInt8} {p : Patch}

theorem exists_file_of_ofBytes (h : (Patch.ofBytes catalog bytes).value = .ok p) : ∃ f : File, f.bytes = bytes := by
  unfold Patch.ofBytes at h
  rcases hheader : header bytes with fault | ⟨offset, body⟩
  · simp [hheader] at h
  rcases hscan : scan (frame offset body).fault (frame offset body).sections with ⟨records, fault⟩
  rcases huntil : untilRepeated [] records with ⟨kept, repeated⟩
  simp only [hheader, hscan, huntil] at h
  obtain rfl : repeated = none := by
    cases repeated with
    | none => rfl
    | some _ => simp at h
  obtain rfl : fault = none := by
    cases fault with
    | none => rfl
    | some _ => simp at h
  obtain ⟨text, hstarts, hzero, rfl, rfl⟩ := exists_text_of_header hheader
  obtain ⟨hfault, hclean⟩ := clean_of_scan (congrArg Prod.snd hscan)
  obtain ⟨ss, rest, rfl, -, hrest⟩ := exists_written_of_cut (cut_frame _ body) (List.append_nil _).symm hclean
  obtain ⟨first, second, rfl⟩ : ∃ first second, rest = [first, second] := by
    rw [hfault] at hrest
    cases hrest with
    | trailer hlen => exact List.length_eq_two.1 hlen
  rw [WrittenSection.frame_located, WrittenSection.scan_located] at hscan
  obtain ⟨rfl, -⟩ := Prod.mk.inj hscan
  -- What is declared can be read off the contents: the records are known by now.
  have hnodup := (nodup_of_untilRepeated (congrArg Prod.snd huntil)).2
  rw [WrittenSection.declared_recordsFrom] at hnodup
  exact ⟨⟨text, ss, (first, second), hstarts, hzero, hnodup⟩, by simp [File.bytes]⟩

/-- Bytes decode to a patch iff they are those of a file that says it. -/
theorem ofBytes_eq_ok_iff_exists_file :
    (Patch.ofBytes catalog bytes).value = .ok p ↔ ∃ f : File, f.bytes = bytes ∧ f.patch catalog = p := by
  constructor
  · intro h
    obtain ⟨f, rfl⟩ := exists_file_of_ofBytes h
    exact ⟨f, rfl, Except.ok.inj ((f.ofBytes_file catalog).symm.trans h)⟩
  · rintro ⟨f, rfl, rfl⟩
    exact f.ofBytes_file catalog

end Patchbay.Container
