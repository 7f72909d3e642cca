/-
  Patchbay.Proofs.Truncation — a file that ends too early.

  A file is cut after any number of its bytes. Two bytes that are left after a complete
  section are taken for the trailer, whatever they are; everywhere else the cut is noticed.
  - `exists_fault_of_frame_take`, `exists_file_of_take_stop`: a cut among the sections.
  - `exists_header_fault`: a cut before the end of the header.
  - `truncation_shows_off_boundaries`: which cuts of a file are files, and of what.
-/

import Patchbay.Proofs.Acceptance

namespace Patchbay

/-- Faults of bytes that end too early, or that are no patch at all. -/
def PatchError.IsTruncation : PatchError → Prop
  | .format _ | .corrupt .missingTrailer | .corrupt (.truncatedHeader _) | .corrupt (.sectionOverrun ..) => True
  | _ => False

namespace Container

/-! ## Sections -/

namespace WrittenSection

/-- Where the first `i` of some sections end, counted from the start of the first. -/
def sizeOfFirst (ss : List WrittenSection) (i : Nat) : Nat := ((ss.take i).flatMap bytes).length

theorem sizeOfFirst_cons_succ (s : WrittenSection) (ss : List WrittenSection) (i : Nat) :
    sizeOfFirst (s :: ss) (i + 1) = s.bytes.length + sizeOfFirst ss i := by
  simp only [sizeOfFirst, List.take_succ_cons, List.flatMap_cons, List.length_append]

/-- The bytes of a section come apart as the decoder cuts them. -/
theorem bytes_append (s : WrittenSection) (rest : List UInt8) :
    s.bytes ++ rest = s.content.kind :: UInt8.ofNat (s.payload.length / 256) :: UInt8.ofNat s.payload.length ::
      (s.payload ++ rest) := rfl

theorem frame_bytes_append (offset : Nat) (s : WrittenSection) {rest : List UInt8} (hrest : 2 ≤ rest.length) :
    frame offset (s.bytes ++ rest) =
      ⟨s.toSection offset :: (frame (offset + s.bytes.length) rest).sections,
        (frame (offset + s.bytes.length) rest).fault⟩ := by
  have hlen : s.payload.length ≤ 65535 := by have := s.length_payload; omega
  rw [bytes_append, frame_section _ _ _ _ (lengthOf_ofNat hlen).symm hrest, Nat.add_assoc, ← length_bytes]
  rfl

/-- A section that is cut inside, or so that no trailer is left behind it, is not read. -/
theorem exists_fault_of_frame_take_bytes (offset : Nat) (s : WrittenSection) {rest : List UInt8}
    (hrest : 2 ≤ rest.length) {k : Nat} (hk : k < s.bytes.length + 2) (hne : k ≠ 2) :
    ∃ c, (PatchError.corrupt c).IsTruncation ∧ frame offset ((s.bytes ++ rest).take k) = ⟨[], some c⟩ := by
  have hlen : ((s.bytes ++ rest).take k).length = k := by
    rw [List.length_take, List.length_append]
    omega
  generalize hbytes : (s.bytes ++ rest).take k = bytes at hlen ⊢
  have hcut := cut_frame offset bytes
  generalize frame offset bytes = framing at hcut ⊢
  cases hcut with
  | missing => exact ⟨.missingTrailer, trivial, rfl⟩
  | trailer htrailer => exact absurd (hlen.symm.trans htrailer) hne
  | truncated => exact ⟨.truncatedHeader offset, trivial, rfl⟩
  | overrun => exact ⟨.sectionOverrun .., trivial, rfl⟩
  | @whole _ kind high low payload more _ hpayload hmore =>
    -- The length that is stored is that of the whole payload, so there would be too many bytes.
    exfalso
    simp only [List.length_cons, List.length_append] at hlen
    obtain ⟨n, rfl⟩ : ∃ n, k = n + 3 := ⟨payload.length + more.length, hlen.symm⟩
    rw [bytes_append] at hbytes
    simp only [List.take_succ_cons, List.cons.injEq] at hbytes
    obtain ⟨-, rfl, rfl, -⟩ := hbytes
    rw [lengthOf_ofNat (Nat.le_of_lt_succ s.length_payload)] at hpayload
    rw [length_bytes, Section.headerSize] at hk
    omega

/-- A cut that leaves no trailer right after a complete section is found. -/
theorem exists_fault_of_frame_take (offset : Nat) (ss : List WrittenSection) (first second : UInt8) {k : Nat}
    (hk : k < (ss.flatMap bytes).length + 2) (hne : ∀ i < ss.length, k ≠ sizeOfFirst ss i + 2) :
    ∃ i c, (PatchError.corrupt c).IsTruncation ∧ frame offset ((ss.flatMap bytes ++ [first, second]).take k) =
      ⟨(located offset (ss.take i)).map fun (s, span) => s.toSection span.start, some c⟩ := by
  induction ss generalizing offset k with
  | nil =>
    match k, hk with
    | 0, _ =>
      refine ⟨0, .missingTrailer, trivial, ?_⟩
      rw [List.take_zero, frame]
      rfl
    | 1, _ =>
      refine ⟨0, .missingTrailer, trivial, ?_⟩
      rw [List.flatMap_nil, List.nil_append, List.take_succ_cons, List.take_zero, frame]
      rfl
  | cons s ss ih =>
    have hrest : 2 ≤ (ss.flatMap bytes ++ [first, second]).length := by simp
    rw [List.flatMap_cons, List.append_assoc]
    by_cases hcut : k < s.bytes.length + 2
    · obtain ⟨c, hc, hframe⟩ := s.exists_fault_of_frame_take_bytes offset hrest hcut (hne 0 (Nat.succ_pos _))
      exact ⟨0, c, hc, hframe⟩
    · rw [List.flatMap_cons, List.length_append] at hk
      have hlater : ∀ i < ss.length, k - s.bytes.length ≠ sizeOfFirst ss i + 2 := by
        intro i hi
        have := hne (i + 1) (Nat.succ_lt_succ hi)
        rw [sizeOfFirst_cons_succ] at this
        omega
      obtain ⟨i, c, hc, hframe⟩ := ih (offset + s.bytes.length) (k := k - s.bytes.length) (by omega) hlater
      have hlong : 2 ≤ ((ss.flatMap bytes ++ [first, second]).take (k - s.bytes.length)).length := by
        rw [List.length_take]
        omega
      refine ⟨i + 1, c, hc, ?_⟩
      rw [List.take_append, List.take_of_length_le (by omega), frame_bytes_append offset s hlong, hframe]
      rfl

end WrittenSection

/-! ## Files -/

namespace File

open WrittenSection

variable (f : File)

/-- Where the first `i` sections end; for 0 this is the end of the header. -/
def stop (i : Nat) : Nat := f.start + sizeOfFirst f.sections i

def upTo (i : Nat) : File where
  text := f.text
  sections := f.sections.take i
  trailer := f.trailer
  starts := f.starts
  zero_notMem := f.zero_notMem
  nodup_declared := by
    have h := f.nodup_declared
    rw [← List.take_append_drop i f.sections, List.flatMap_append] at h
    exact (List.nodup_append.1 h).1

theorem length_bytes : f.bytes.length = f.start + (f.sections.flatMap WrittenSection.bytes).length + 2 := by
  simp only [bytes, start, List.length_append, List.length_cons, List.length_nil]

/-- The first two bytes after some sections can be taken for a trailer. -/
theorem exists_file_of_take_stop (catalog : Catalog) (i : Nat) :
    ∃ g : File, g.bytes = f.bytes.take (f.stop i + 2) ∧ g.patch catalog = (f.upTo i).patch catalog := by
  have hlater : 2 ≤ ((f.sections.drop i).flatMap WrittenSection.bytes ++ [f.trailer.1, f.trailer.2]).length := by simp
  obtain ⟨first, second, later, hfirst⟩ : ∃ first second later,
      (f.sections.drop i).flatMap WrittenSection.bytes ++ [f.trailer.1, f.trailer.2] = first :: second :: later := by
    match (f.sections.drop i).flatMap WrittenSection.bytes ++ [f.trailer.1, f.trailer.2], hlater with
    | first :: second :: later, _ => exact ⟨first, second, later, rfl⟩
  refine ⟨{ f.upTo i with trailer := (first, second) }, ?_, rfl⟩
  have hbytes : f.bytes = (f.text ++ [0, formatVersion, patchFileType] ++
      (f.sections.take i).flatMap WrittenSection.bytes ++ [first, second]) ++ later := by
    have hsections : f.sections.flatMap WrittenSection.bytes = (f.sections.take i).flatMap WrittenSection.bytes ++
        (f.sections.drop i).flatMap WrittenSection.bytes := by
      rw [← List.flatMap_append, List.take_append_drop]
    unfold bytes
    simp only [hsections, List.append_assoc, hfirst]
    rfl
  have hlen : f.stop i + 2 = (f.text ++ [0, formatVersion, patchFileType] ++
      (f.sections.take i).flatMap WrittenSection.bytes ++ [first, second]).length := by
    simp only [stop, start, sizeOfFirst, List.length_append, List.length_cons, List.length_nil]
  rw [hbytes, hlen, List.take_left]
  rfl

/-- A cut before the end of the header leaves none. -/
theorem exists_header_fault {k : Nat} (hk : k < f.start) : ∃ fault, header (f.bytes.take k) = .error fault := by
  rcases hheader : header (f.bytes.take k) with fault | ⟨offset, body⟩
  · exact ⟨fault, rfl⟩
  · -- A header that was read comes after a text without zero bytes, and there is one such text.
    exfalso
    obtain ⟨text, -, hzero, htake, -⟩ := exists_text_of_header hheader
    have hbytes : text ++ 0 :: (formatVersion :: patchFileType :: body ++ f.bytes.drop k) = f.bytes := by
      have := List.take_append_drop k f.bytes
      rw [htake] at this
      simpa using this
    have htext : text = f.text := by
      rw [← (takeWhile_ne_zero hzero _).1, hbytes]
      unfold bytes
      rw [List.append_assoc, List.append_assoc]
      exact (takeWhile_ne_zero f.zero_notMem _).1
    have hlen := congrArg List.length htake
    simp only [List.length_take, List.length_append, List.length_cons, List.length_nil, htext] at hlen
    rw [start] at hk
    omega

/-- A file that is cut elsewhere than right after a section and two bytes more is no patch. -/
theorem exists_fault_of_ofBytes_take (catalog : Catalog) {k : Nat} (hk : k < f.bytes.length)
    (hne : ∀ i < f.sections.length, k ≠ f.stop i + 2) :
    ∃ e, e.IsTruncation ∧ (Patch.ofBytes catalog (f.bytes.take k)).value = .error e := by
  by_cases hheader : k < f.start
  · obtain ⟨fault, hfault⟩ := f.exists_header_fault hheader
    exact ⟨.format fault, trivial, by simp only [Patch.ofBytes, hfault]⟩
  · rw [length_bytes] at hk
    have hsections : ∀ i < f.sections.length, k - f.start ≠ sizeOfFirst f.sections i + 2 := by
      intro i hi
      have := hne i hi
      rw [stop] at this
      omega
    obtain ⟨i, c, hc, hframe⟩ := exists_fault_of_frame_take f.start f.sections f.trailer.1 f.trailer.2
      (k := k - f.start) (by omega) hsections
    have htake : f.bytes.take k = f.text ++ [0, formatVersion, patchFileType] ++
        (f.sections.flatMap WrittenSection.bytes ++ [f.trailer.1, f.trailer.2]).take (k - f.start) := by
      have hlen : (f.text ++ [0, formatVersion, patchFileType]).length = f.start := by simp [start]
      unfold bytes
      rw [List.append_assoc _ (f.sections.flatMap WrittenSection.bytes), List.take_append, hlen,
        List.take_of_length_le (by omega)]
    have hfirst : header (f.bytes.take k) = .ok (f.start,
        (f.sections.flatMap WrittenSection.bytes ++ [f.trailer.1, f.trailer.2]).take (k - f.start)) := by
      rw [htake]
      exact header_append f.starts f.zero_notMem _
    have hkept : untilRepeated [] (recordsFrom f.start (f.sections.take i)) =
        (recordsFrom f.start (f.sections.take i), none) := (f.upTo i).untilRepeated_records
    refine ⟨.corrupt c, hc, ?_⟩
    simp only [Patch.ofBytes, hfirst, hframe, scan_located, hkept]
    rfl

end File

/-- Bytes that decode are those of a file, and a part of them from the start decodes iff it ends
    two bytes after the header or after one of the sections; it is then the file of the sections
    before. Any other part is refused for being cut. -/
theorem truncation_shows_off_boundaries {catalog : Catalog} {bytes : List UInt8} {p : Patch}
    (h : (Patch.ofBytes catalog bytes).value = .ok p) :
    (∃ f : File, f.bytes = bytes) ∧ ∀ f : File, f.bytes = bytes → f.patch catalog = p ∧ ∀ k < bytes.length,
      (∃ i < f.sections.length, k = f.stop i + 2 ∧
        (Patch.ofBytes catalog (bytes.take k)).value = .ok ((f.upTo i).patch catalog)) ∨
      ((∀ i < f.sections.length, k ≠ f.stop i + 2) ∧
        ∃ e, e.IsTruncation ∧ (Patch.ofBytes catalog (bytes.take k)).value = .error e) := by
  refine ⟨exists_file_of_ofBytes h, ?_⟩
  rintro f rfl
  refine ⟨Except.ok.inj ((f.ofBytes_file catalog).symm.trans h), fun k hk => ?_⟩
  by_cases hstop : ∃ i < f.sections.length, k = f.stop i + 2
  · obtain ⟨i, hi, rfl⟩ := hstop
    obtain ⟨g, hbytes, hpatch⟩ := f.exists_file_of_take_stop catalog i
    exact .inl ⟨i, hi, rfl, by rw [← hbytes, g.ofBytes_file, hpatch]⟩
  · have hne : ∀ i < f.sections.length, k ≠ f.stop i + 2 := fun i hi heq => hstop ⟨i, hi, heq⟩
    exact .inr ⟨hne, f.exists_fault_of_ofBytes_take catalog hk hne⟩

/-- With two bytes after the description, a file has that section alone; with three it is cut. -/
theorem truncation_shows_off_boundaries_sampleFile :
    (Patch.ofBytes sampleCatalog sampleFile.bytes).value = .ok (sampleFile.patch sampleCatalog) ∧
      (Patch.ofBytes sampleCatalog (sampleFile.bytes.take 47)).value = .ok { description := ⟨3, 8, true⟩ } ∧
      ∃ e, e.IsTruncation ∧ (Patch.ofBytes sampleCatalog (sampleFile.bytes.take 48)).value = .error e := by
  have h := sampleFile.ofBytes_file sampleCatalog
  have hcuts := ((truncation_shows_off_boundaries h).2 sampleFile rfl).2
  refine ⟨h, ?_, ?_⟩
  · have hfirst : ∀ i < sampleFile.sections.length, 47 = sampleFile.stop i + 2 → i = 1 := by decide
    obtain ⟨i, hi, hstop, hvalue⟩ | ⟨hne, -⟩ := hcuts 47 (by decide)
    · obtain rfl := hfirst i hi hstop
      rw [hvalue]
      decide
    · exact absurd (by decide) (hne 1 (by decide))
  · have hnone : ∀ i < sampleFile.sections.length, 48 ≠ sampleFile.stop i + 2 := by decide
    obtain ⟨i, hi, hstop, -⟩ | ⟨-, hfault⟩ := hcuts 48 (by decide)
    · exact absurd hstop (hnone i hi)
    · exact hfault

end Container

end Patchbay
