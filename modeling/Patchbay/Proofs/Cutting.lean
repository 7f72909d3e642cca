/-
  Patchbay.Proofs.Cutting — the header and the sections of bytes that were put together.

  - `header_append`: a text with the magic at its start and no zero byte in it, followed by
    the three bytes of the header, is cut off whole.
  - `frame_section`, `frame_trailer`: what follows is cut section by section, down to the
    two bytes of the trailer.
  - `cut_frame`: any bytes are cut in one of the ways of `Cut`.
-/

import Patchbay.Container.Framing

namespace Patchbay.Container

theorem takeWhile_ne_zero {text : List UInt8} (h : 0 ∉ text) (rest : List UInt8) :
    (text ++ 0 :: rest).takeWhile (· ≠ 0) = text ∧ (text ++ 0 :: rest).dropWhile (· ≠ 0) = 0 :: rest := by
  have hall : ∀ b ∈ text, (decide (b ≠ 0)) = true := fun b hb => decide_eq_true fun e => h (e ▸ hb)
  rw [List.takeWhile_append_of_pos hall, List.dropWhile_append_of_pos hall]
  simp

theorem header_append {text : List UInt8} (hmagic : magic <+: text) (h : 0 ∉ text) (body : List UInt8) :
    header (text ++ [0, formatVersion, patchFileType] ++ body) = .ok (text.length + 3, body) := by
  obtain ⟨htake, hdrop⟩ := takeWhile_ne_zero h (formatVersion :: patchFileType :: body)
  have hstart : magic.isPrefixOf (text ++ 0 :: formatVersion :: patchFileType :: body) = true :=
    List.isPrefixOf_iff_prefix.2 (hmagic.trans (List.prefix_append _ _))
  have happ : text ++ [0, formatVersion, patchFileType] ++ body =
      text ++ 0 :: formatVersion :: patchFileType :: body := by simp
  rw [happ, header, hstart, hdrop, htake]
  rfl

theorem frame_trailer (offset : Nat) (first second : UInt8) : frame offset [first, second] = ⟨[], none⟩ := by
  rw [frame]

theorem frame_section (offset : Nat) (kind high low : UInt8) {payload rest : List UInt8}
    (hlen : payload.length = lengthOf high low) (hrest : 2 ≤ rest.length) :
    frame offset (kind :: high :: low :: (payload ++ rest)) =
      ⟨⟨kind, offset, payload⟩ :: (frame (offset + Section.headerSize + payload.length) rest).sections,
        (frame (offset + Section.headerSize + payload.length) rest).fault⟩ := by
  obtain ⟨first, second, rest, rfl⟩ : ∃ first second rest', rest = first :: second :: rest' := by
    match rest, hrest with
    | first :: second :: rest, _ => exact ⟨first, second, rest, rfl⟩
  have hdrop : (payload ++ first :: second :: rest).drop (lengthOf high low) = first :: second :: rest :=
    List.drop_left' hlen
  have htake : (payload ++ first :: second :: rest).take (lengthOf high low) = payload := List.take_left' hlen
  rw [frame]
  · split
    · next first' second' rest' h =>
      rw [hdrop] at h
      cases h
      rw [htake, ← hlen]
    · next h => exact absurd hdrop (h _ _ _)
  · intro h
    simpa using congrArg List.length h
  · intro b h
    have := congrArg List.length h
    simp only [List.length_append, List.length_cons, List.length_nil] at this
    omega

/-! ## Any bytes -/

inductive Cut : Nat → List UInt8 → Framing → Prop
  | missing {offset : Nat} {bytes : List UInt8} : bytes.length < 2 → Cut offset bytes ⟨[], some .missingTrailer⟩
  | trailer {offset : Nat} {bytes : List UInt8} : bytes.length = 2 → Cut offset bytes ⟨[], none⟩
  /-- More than a trailer, but less than the heading of a section before it. -/
  | truncated {offset : Nat} {bytes : List UInt8} : 2 < bytes.length → bytes.length < 2 + Section.headerSize →
    Cut offset bytes ⟨[], some (.truncatedHeader offset)⟩
  | overrun {offset : Nat} {kind high low : UInt8} {body : List UInt8} : 2 ≤ body.length →
    body.length - 2 < lengthOf high low → Cut offset (kind :: high :: low :: body)
      ⟨[], some (.sectionOverrun kind offset (lengthOf high low) (body.length - 2))⟩
  | whole {offset : Nat} {kind high low : UInt8} {payload rest : List UInt8} {later : Framing} :
    payload.length = lengthOf high low → 2 ≤ rest.length →
    Cut (offset + Section.headerSize + payload.length) rest later →
    Cut offset (kind :: high :: low :: (payload ++ rest)) ⟨⟨kind, offset, payload⟩ :: later.sections, later.fault⟩

theorem cut_frame (offset : Nat) (bytes : List UInt8) : Cut offset bytes (frame offset bytes) := by
  fun_induction frame offset bytes with
  | case1 | case2 => exact .missing (by simp)
  | case3 => exact .trailer rfl
  | case4 | case5 => exact .truncated (by simp) (by simp [Section.headerSize])
  | case6 offset kind high low body _ _ declared first second rest hrest later ih =>
    -- The payload is as long as declared, since the trailer's two bytes come after it.
    have hlen : (body.take declared).length = declared := by
      have := congrArg List.length hrest
      simp only [List.length_drop, List.length_cons] at this
      rw [List.length_take]
      omega
    have hwhole : Cut offset (kind :: high :: low :: (body.take declared ++ first :: second :: rest))
        ⟨⟨kind, offset, body.take declared⟩ :: later.sections, later.fault⟩ :=
      .whole hlen (by simp) (by rw [hlen]; exact ih)
    rw [← hrest, List.take_append_drop] at hwhole
    exact hwhole
  | case7 offset kind high low body hne hne' declared hrest =>
    have hlen : 2 ≤ body.length := by
      match body with
      | [] => exact absurd rfl hne
      | [b] => exact absurd rfl (hne' b)
      | _ :: _ :: _ => simp
    have hshort : (body.drop declared).length < 2 := by
      match hdrop : body.drop declared with
      | [] | [_] => simp
      | first :: second :: rest => exact absurd hdrop (hrest _ _ _)
    rw [List.length_drop] at hshort
    exact .overrun hlen (by omega)

end Patchbay.Container
