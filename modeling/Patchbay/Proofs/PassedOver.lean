/-
  Patchbay.Proofs.PassedOver — what decoding passes over does not show in the patch.

  The pattern of a file says bit by bit what is kept of it; the bits of the fields that decoding
  passes over are left open. Bytes that agree with the pattern of a file decode as the file does.
  - `Content.agrees_bits`, `Content.exists_of_agrees`: the bits that agree with the pattern of a
    content are those of contents that say the same, its own among them.
  - `File.exists_of_alike`: bytes that agree with a file are those of a file that says the same.
  - `passed_over_bits_change_nothing`: they decode to the same patch.
-/

import Mathlib.Data.List.Forall2
import Patchbay.Proofs.Acceptance

namespace Patchbay.Container

open Bits

/-! ## Patterns -/

/-- Bits that are kept, and `none` for each that is passed over. -/
abbrev Pattern := List (Option Bool)

namespace Pattern

def kept (bits : List Bool) : Pattern := bits.map some

def free (n : Nat) : Pattern := List.replicate n none

def Agrees (bits : List Bool) (pattern : Pattern) : Prop := List.Forall₂ (fun b kept => ∀ k ∈ kept, b = k) bits pattern

instance (bits : List Bool) (pattern : Pattern) : Decidable (Agrees bits pattern) :=
  decidable_of_iff (bits.length = pattern.length ∧ (bits.zip pattern).all fun a => a.2.all (a.1 == ·)) <| by
    simp only [Agrees, List.forall₂_iff_zip, List.all_eq_true, Option.all_eq_true, beq_iff_eq, Prod.forall,
      Option.mem_def]

variable {bits bits' : List Bool} {p q : Pattern}

theorem Agrees.length_eq (h : Agrees bits p) : bits.length = p.length := List.Forall₂.length_eq h

theorem Agrees.append (hp : Agrees bits p) (hq : Agrees bits' q) : Agrees (bits ++ bits') (p ++ q) :=
  List.rel_append hp hq

theorem Agrees.split (h : Agrees bits (p ++ q)) :
    ∃ front rest, bits = front ++ rest ∧ Agrees front p ∧ Agrees rest q :=
  ⟨_, _, (List.take_append_drop p.length bits).symm, List.forall₂_take_append bits p q h,
    List.forall₂_drop_append bits p q h⟩

theorem agrees_kept (bits : List Bool) : Agrees bits (kept bits) := by
  unfold Agrees kept
  rw [List.forall₂_map_right_iff, List.forall₂_same]
  intro b _ k hk
  exact Option.mem_some_iff.1 hk

theorem eq_of_agrees_kept (h : Agrees bits (kept bits')) : bits = bits' := by
  unfold Agrees kept at h
  rw [List.forall₂_map_right_iff] at h
  have h : List.Forall₂ Eq bits bits' := h.imp fun b k hk => hk k rfl
  rwa [List.forall₂_eq_eq_eq] at h

theorem agrees_free_iff {n : Nat} : Agrees bits (free n) ↔ bits.length = n := by
  constructor
  · intro h
    rw [h.length_eq, free, List.length_replicate]
  · rintro rfl
    induction bits with
    | nil => exact List.Forall₂.nil
    | cons b bits ih => exact List.Forall₂.cons (by simp) ih

theorem agrees_flatMap {γ : Type} {layout : γ → List Bool} {pattern : γ → Pattern}
    (h : ∀ e, Agrees (layout e) (pattern e)) (es : List γ) : Agrees (es.flatMap layout) (es.flatMap pattern) := by
  induction es with
  | nil => exact List.Forall₂.nil
  | cons e es ih => exact (h e).append ih

/-- Bits that agree item by item are those of as many items that mean the same. -/
theorem exists_of_agrees_flatMap {γ α : Type} {layout : γ → List Bool} {pattern : γ → Pattern} {meaning : γ → α}
    (h : ∀ e bits, Agrees bits (pattern e) → ∃ e', layout e' = bits ∧ meaning e' = meaning e) {es : List γ}
    {bits : List Bool} (hes : Agrees bits (es.flatMap pattern)) :
    ∃ es' : List γ, es'.flatMap layout = bits ∧ es'.map meaning = es.map meaning := by
  induction es generalizing bits with
  | nil => exact ⟨[], (List.forall₂_nil_right_iff.1 hes).symm, rfl⟩
  | cons e es ih =>
    obtain ⟨front, rest, rfl, hfront, hrest⟩ := Agrees.split hes
    obtain ⟨e', rfl, he⟩ := h e front hfront
    obtain ⟨es', rfl, hes'⟩ := ih hrest
    exact ⟨e' :: es', rfl, by rw [List.map_cons, List.map_cons, he, hes']⟩

end Pattern

open Pattern

/-! ## Patterns of entries -/

def ModuleEntry.pattern (e : ModuleEntry) : Pattern :=
  kept (fieldBits e.typeId ++ fieldBits e.id) ++ (free (7 + 7 + 8 + 1 + 1 + 6) ++
    (kept e.modes.countBits ++ free (e.modes.1.length * 6)))

namespace VariationEntry

variable {declared : Nat}

def pattern (v : VariationEntry declared) : Pattern :=
  free 8 ++ kept (ofNat 7 v.values.length ++ v.values.flatMap fieldBits)

def laterPattern (v : VariationEntry declared) : Pattern :=
  free 8 ++ (kept (ofNat 7 v.values.length) ++ free (v.values.length * 7))

/-- Only the first of several variations keeps its values. -/
def patterns : List (VariationEntry declared) → Pattern
  | [] => []
  | v :: vs => v.pattern ++ vs.flatMap laterPattern

end VariationEntry

def ParameterEntry.pattern {variations : Nat} (e : ParameterEntry variations) : Pattern :=
  kept (fieldBits e.moduleId ++ fieldBits e.declared) ++ VariationEntry.patterns e.stored

theorem ModuleEntry.agrees_bits (e : ModuleEntry) : Agrees e.bits e.pattern := by
  have hlooks : e.looks.length = 30 := by simp only [looks, List.length_append, length_fieldBits]
  unfold bits
  rw [List.append_assoc, List.append_assoc]
  exact (agrees_kept _).append ((agrees_free_iff.2 hlooks).append
    ((agrees_kept _).append (agrees_free_iff.2 (length_flatMap_fieldBits e.modes.1))))

theorem ModuleEntry.exists_of_agrees (e : ModuleEntry) (bits : List Bool) (h : Agrees bits e.pattern) :
    ∃ e' : ModuleEntry, e'.bits = bits ∧ e'.key = e.key := by
  obtain ⟨_, _, rfl, hkey, h⟩ := h.split
  obtain ⟨looks, _, rfl, hlooks, h⟩ := h.split
  obtain ⟨_, modeBits, rfl, hcount, hmodes⟩ := h.split
  obtain rfl := eq_of_agrees_kept hkey
  obtain rfl := eq_of_agrees_kept hcount
  obtain ⟨x, y, color, uprate, leds, reserved, rfl⟩ := exists_looks (agrees_free_iff.1 hlooks)
  obtain ⟨modes, hlen, rfl⟩ := exists_flatMap_fieldBits (agrees_free_iff.1 hmodes)
  refine ⟨⟨e.typeId, e.id, x, y, color, uprate, leds, reserved, ⟨modes, by rw [hlen]; exact e.modes.2⟩⟩, ?_, rfl⟩
  simp only [ModuleEntry.bits, ModuleEntry.looks, Counted.countBits, hlen, List.append_assoc]

namespace VariationEntry

variable {declared : Nat} (v : VariationEntry declared)

theorem agrees_bits : Agrees v.bits v.pattern := by
  unfold bits
  rw [List.append_assoc]
  exact (agrees_free_iff.2 (length_fieldBits v.number)).append (agrees_kept _)

theorem agrees_bits_later : Agrees v.bits v.laterPattern := by
  unfold bits
  rw [List.append_assoc]
  exact (agrees_free_iff.2 (length_fieldBits v.number)).append
    ((agrees_kept _).append (agrees_free_iff.2 (length_flatMap_fieldBits v.values)))

theorem exists_of_agrees (bits : List Bool) (h : Agrees bits v.pattern) :
    ∃ v' : VariationEntry declared, v'.bits = bits ∧ v'.values = v.values := by
  obtain ⟨_, _, rfl, hnumber, hvalues⟩ := h.split
  obtain rfl := eq_of_agrees_kept hvalues
  obtain ⟨number, rfl⟩ := exists_fieldBits (agrees_free_iff.1 hnumber)
  exact ⟨{ v with number }, by simp only [VariationEntry.bits, List.append_assoc], rfl⟩

theorem exists_of_agrees_later (bits : List Bool) (h : Agrees bits v.laterPattern) :
    ∃ v' : VariationEntry declared, v'.bits = bits ∧ v'.values.length = v.values.length := by
  obtain ⟨_, _, rfl, hnumber, h⟩ := h.split
  obtain ⟨_, _, rfl, hcount, hvalues⟩ := h.split
  obtain rfl := eq_of_agrees_kept hcount
  obtain ⟨number, rfl⟩ := exists_fieldBits (agrees_free_iff.1 hnumber)
  obtain ⟨values, hlen, rfl⟩ := exists_flatMap_fieldBits (agrees_free_iff.1 hvalues)
  refine ⟨⟨number, values, hlen.trans v.length_values⟩, ?_, hlen⟩
  simp only [VariationEntry.bits, hlen, List.append_assoc]

end VariationEntry

namespace ParameterEntry

variable {variations : Nat} (e : ParameterEntry variations)

theorem agrees_bits : Agrees e.bits e.pattern := by
  obtain ⟨moduleId, declared, stored, hlen⟩ := e
  refine (agrees_kept (fieldBits moduleId ++ fieldBits declared)).append ?_
  cases stored with
  | nil => exact List.Forall₂.nil
  | cons v vs => exact v.agrees_bits.append (agrees_flatMap VariationEntry.agrees_bits_later vs)

theorem exists_of_agrees (bits : List Bool) (h : Agrees bits e.pattern) :
    ∃ e' : ParameterEntry variations, e'.bits = bits ∧ e'.block? = e.block? := by
  obtain ⟨moduleId, declared, stored, hlen⟩ := e
  obtain ⟨_, rest, rfl, hhead, hstored⟩ := h.split
  obtain rfl := eq_of_agrees_kept hhead
  cases stored with
  | nil =>
    obtain rfl := List.forall₂_nil_right_iff.1 hstored
    exact ⟨⟨moduleId, declared, [], hlen⟩, rfl, rfl⟩
  | cons v vs =>
    obtain ⟨_, _, rfl, hfirst, hlater⟩ := Agrees.split hstored
    obtain ⟨v', rfl, hv⟩ := v.exists_of_agrees _ hfirst
    obtain ⟨vs', rfl, hvs⟩ := exists_of_agrees_flatMap VariationEntry.exists_of_agrees_later hlater
    have hcount : vs'.length = vs.length := by simpa using congrArg List.length hvs
    refine ⟨⟨moduleId, declared, v' :: vs', by rw [← hlen, List.length_cons, hcount, List.length_cons]⟩, rfl, ?_⟩
    simp only [block?, List.head?_cons, Option.map_some, hv]

end ParameterEntry

/-! ## Patterns of contents -/

namespace Content

/-- Nothing is kept of a section that is not looked into. -/
def pattern : Content → Pattern
  | .description activeVariation voices mono _ =>
    kept (fieldBits activeVariation ++ fieldBits voices ++ ofNat 1 mono.toNat) ++ free 2
  | .modules area entries => kept (ofNat 2 area.code ++ entries.countBits) ++ entries.1.flatMap ModuleEntry.pattern
  | .cables area _ entries =>
    kept (ofNat 2 area.code) ++ (free 12 ++ kept (entries.countBits ++ entries.1.flatMap CableEntry.bits))
  | .parameters area variations entries =>
    kept (ofNat 2 area.code ++ entries.countBits ++ fieldBits variations) ++
      entries.1.flatMap ParameterEntry.pattern
  | .other .. => []

theorem agrees_bits {c : Content} {bits : List Bool} (h : c.bits? = some bits) : Agrees bits c.pattern := by
  cases c with
  | description activeVariation voices mono reserved =>
    cases h
    exact (agrees_kept _).append (agrees_free_iff.2 (length_fieldBits reserved))
  | modules area entries =>
    cases h
    exact (agrees_kept _).append (agrees_flatMap ModuleEntry.agrees_bits entries.1)
  | cables area reserved entries =>
    cases h
    rw [List.append_assoc, List.append_assoc]
    exact (agrees_kept _).append ((agrees_free_iff.2 (length_fieldBits reserved)).append (agrees_kept _))
  | parameters area variations entries =>
    cases h
    exact (agrees_kept _).append (agrees_flatMap ParameterEntry.agrees_bits entries.1)
  | other => cases h

/-- A counted list with other entries of the same count. -/
theorem exists_counted_of_agrees {width : Nat} {γ α : Type} {layout : γ → List Bool} {pattern : γ → Pattern}
    {meaning : γ → α} (h : ∀ e bits, Agrees bits (pattern e) → ∃ e', layout e' = bits ∧ meaning e' = meaning e)
    (entries : Counted width γ) {bits : List Bool} (hes : Agrees bits (entries.1.flatMap pattern)) :
    ∃ entries' : Counted width γ, entries'.countBits = entries.countBits ∧ entries'.1.flatMap layout = bits ∧
      entries'.1.map meaning = entries.1.map meaning := by
  obtain ⟨es, hbits, hmeaning⟩ := exists_of_agrees_flatMap h hes
  have hlen : es.length = entries.1.length := by simpa using congrArg List.length hmeaning
  exact ⟨⟨es, hlen ▸ entries.2⟩, by simp only [Counted.countBits, hlen], hbits, hmeaning⟩

/-- Bits that agree with a content are those of a content that says the same. -/
theorem exists_of_agrees {c : Content} {bits bits' : List Bool} (hc : c.bits? = some bits) (h : Agrees bits' c.pattern) :
    ∃ c' : Content, c'.kind = c.kind ∧ c'.bits? = some bits' ∧ ∀ payload payload', c'.said payload' = c.said payload := by
  cases c with
  | description activeVariation voices mono reserved =>
    obtain ⟨_, _, rfl, hhead, hreserved⟩ := h.split
    obtain rfl := eq_of_agrees_kept hhead
    obtain ⟨reserved', rfl⟩ := exists_fieldBits (agrees_free_iff.1 hreserved)
    exact ⟨.description activeVariation voices mono reserved', rfl, rfl, fun _ _ => rfl⟩
  | modules area entries =>
    obtain ⟨_, _, rfl, hhead, hentries⟩ := h.split
    obtain rfl := eq_of_agrees_kept hhead
    obtain ⟨entries', hcount, rfl, hkeys⟩ := exists_counted_of_agrees ModuleEntry.exists_of_agrees entries hentries
    exact ⟨.modules area entries', rfl, by simp only [bits?, hcount], fun _ _ => by simp only [said, hkeys]⟩
  | cables area reserved entries =>
    obtain ⟨_, _, rfl, hhead, h⟩ := h.split
    obtain ⟨_, _, rfl, hreserved, hentries⟩ := h.split
    obtain rfl := eq_of_agrees_kept hhead
    obtain rfl := eq_of_agrees_kept hentries
    obtain ⟨reserved', rfl⟩ := exists_fieldBits (agrees_free_iff.1 hreserved)
    exact ⟨.cables area reserved' entries, rfl, by simp only [bits?, List.append_assoc], fun _ _ => rfl⟩
  | parameters area variations entries =>
    obtain ⟨_, _, rfl, hhead, hentries⟩ := h.split
    obtain rfl := eq_of_agrees_kept hhead
    obtain ⟨entries', hcount, rfl, hblocks⟩ :=
      exists_counted_of_agrees ParameterEntry.exists_of_agrees entries hentries
    have hsaid : entries'.1.filterMap ParameterEntry.block? = entries.1.filterMap ParameterEntry.block? := by
      simpa only [List.filterMap_map, Function.id_comp] using congrArg (List.filterMap id) hblocks
    exact ⟨.parameters area variations entries', rfl, by simp only [bits?, hcount],
      fun _ _ => by simp only [said, hsaid]⟩
  | other => cases hc

end Content

/-! ## Sections -/

def Part.mute : Part → Part
  | .raw kind _ => .raw kind []
  | p => p

namespace WrittenSection

def heading (s : WrittenSection) : List UInt8 :=
  [s.content.kind, UInt8.ofNat (s.payload.length / 256), UInt8.ofNat s.payload.length]

def pattern (s : WrittenSection) : Pattern :=
  kept (ofBytes s.heading) ++ (s.content.pattern ++ free (8 * s.payload.length - s.content.pattern.length))

/-- What shows of a section: what it says, and its size. -/
def gist (s : WrittenSection) : Part × Nat := (s.said.mute, s.bytes.length)

theorem ofBytes_bytes (s : WrittenSection) : ofBytes s.bytes = ofBytes s.heading ++ ofBytes s.payload :=
  ofBytes_append s.heading s.payload

/-- A payload is the bits of its content, if it has any, and what the pattern leaves free. -/
theorem exists_payload_bits (s : WrittenSection) : ∃ bits rest, ofBytes s.payload = bits ++ rest ∧
    Agrees bits s.content.pattern ∧ ∀ bits', s.content.bits? = some bits' → bits' = bits ∧ rest.length < 8 := by
  cases hbits : s.content.bits? with
  | some bits =>
    obtain ⟨padding, hpad, hpayload⟩ := s.spelled bits hbits
    refine ⟨bits, padding, hpayload, Content.agrees_bits hbits, ?_⟩
    rintro _ ⟨⟩
    exact ⟨rfl, hpad⟩
  | none =>
    have hpattern : s.content.pattern = [] := by
      cases hc : s.content with
      | other => rfl
      | _ => simp [hc, Content.bits?] at hbits
    exact ⟨[], ofBytes s.payload, rfl, hpattern ▸ List.Forall₂.nil, fun _ h => by cases h⟩

theorem agrees_bytes (s : WrittenSection) : Agrees (ofBytes s.bytes) s.pattern := by
  obtain ⟨bits, rest, hpayload, hbits, -⟩ := s.exists_payload_bits
  rw [ofBytes_bytes, hpayload]
  refine (agrees_kept _).append (hbits.append (agrees_free_iff.2 ?_))
  have hlen := congrArg List.length hpayload
  rw [length_ofBytes, List.length_append] at hlen
  rw [hlen, ← hbits.length_eq]
  omega

theorem exists_of_agrees (s : WrittenSection) (bits : List Bool) (h : Agrees bits s.pattern) :
    ∃ t : WrittenSection, ofBytes t.bytes = bits ∧ t.gist = s.gist := by
  obtain ⟨own, ownRest, hown, hagrees, hpad⟩ := s.exists_payload_bits
  have hsize := congrArg List.length hown
  rw [length_ofBytes, List.length_append] at hsize
  have hpattern := hagrees.length_eq
  obtain ⟨_, payloadBits, rfl, hheading, hpayload⟩ := h.split
  obtain rfl := eq_of_agrees_kept hheading
  have hlength : payloadBits.length = 8 * s.payload.length := by
    rw [hpayload.length_eq, List.length_append, free, List.length_replicate]
    omega
  obtain ⟨payload, hlen, rfl⟩ := exists_ofBytes_eq hlength
  obtain ⟨front, rest, hfront, hcontent, hrest⟩ := hpayload.split
  have hgist (content : Content) (hspelled : content.Spelled payload) (hkind : content.kind = s.content.kind)
      (hsaid : (content.said payload).mute = s.said.mute) :
      ∃ t : WrittenSection, ofBytes t.bytes = ofBytes s.heading ++ ofBytes payload ∧ t.gist = s.gist := by
    refine ⟨⟨content, payload, by rw [hlen]; exact s.length_payload, hspelled⟩, ?_, ?_⟩
    · rw [ofBytes_bytes]
      simp only [heading, hkind, hlen]
    · simp only [gist, length_bytes, hlen, hsaid, said]
  cases hbits : s.content.bits? with
  | some bits =>
    obtain ⟨content, hkind, hbits', hsaid⟩ := Content.exists_of_agrees hbits hcontent
    obtain ⟨rfl, hlt⟩ := hpad bits hbits
    refine hgist content (fun b hb => ?_) hkind (by rw [hsaid s.payload, said])
    obtain rfl : front = b := Option.some.inj (hbits'.symm.trans hb)
    refine ⟨rest, ?_, hfront⟩
    rw [agrees_free_iff.1 hrest]
    omega
  | none =>
    refine hgist s.content (fun b hb => ?_) rfl ?_
    · rw [hbits] at hb
      cases hb
    · unfold said
      cases hc : s.content with
      | other => rfl
      | _ => simp [hc, Content.bits?] at hbits

/-! ## What shows of sections -/

variable {ss ts : List WrittenSection} (h : ss.map gist = ts.map gist)

include h

theorem flatMap_said_eq {α : Type} {f : Part → List α} (hf : ∀ p : Part, f p.mute = f p) :
    (ss.flatMap fun s => f s.said) = ts.flatMap fun s => f s.said := by
  have hgist (us : List WrittenSection) : (us.flatMap fun s => f s.said) = (us.map gist).flatMap fun g => f g.1 := by
    rw [List.flatMap_map]
    exact List.flatMap_congr fun s _ => (hf s.said).symm
  rw [hgist ss, hgist ts, h]

theorem flatMap_located_said_eq {α : Type} {f : Span → Part → List α} (hf : ∀ span (p : Part), f span p.mute = f span p)
    (offset : Nat) :
    ((located offset ss).flatMap fun (s, span) => f span s.said) =
      (located offset ts).flatMap fun (s, span) => f span s.said := by
  induction ss generalizing ts offset with
  | nil =>
    obtain rfl := List.map_eq_nil_iff.1 h.symm
    rfl
  | cons s ss ih =>
    cases ts with
    | nil => cases h
    | cons t ts =>
      obtain ⟨hfirst, hrest⟩ := List.cons_eq_cons.1 h
      obtain ⟨hsaid, hsize⟩ := Prod.mk.inj hfirst
      rw [located, located, List.flatMap_cons, List.flatMap_cons, hsize, ih hrest]
      simp only [← hf _ s.said, ← hf _ t.said, hsaid]

end WrittenSection

/-! ## Files -/

namespace File

open WrittenSection

variable (f : File)

def pattern : Pattern :=
  kept (ofBytes magic) ++ (free (8 * (f.text.length - magic.length)) ++
    (kept (ofBytes [0, formatVersion, patchFileType]) ++ (f.sections.flatMap WrittenSection.pattern ++ free 16)))

/-- Bytes with the bits of the file that are kept, and no zero byte in the text. -/
def Alike (bytes : List UInt8) : Prop := Agrees (ofBytes bytes) f.pattern ∧ 0 ∉ bytes.take f.text.length

instance (bytes : List UInt8) : Decidable (f.Alike bytes) := inferInstanceAs (Decidable (_ ∧ _))

theorem alike_bytes : f.Alike f.bytes := by
  obtain ⟨more, htext⟩ := f.starts
  have hmore : more.length = f.text.length - magic.length := by rw [← htext, List.length_append]; omega
  have hsections : Agrees (ofBytes (f.sections.flatMap WrittenSection.bytes))
      (f.sections.flatMap WrittenSection.pattern) := by
    rw [ofBytes_flatMap]
    exact agrees_flatMap WrittenSection.agrees_bytes f.sections
  have hbytes : f.bytes = magic ++ (more ++ ([0, formatVersion, patchFileType] ++
      (f.sections.flatMap WrittenSection.bytes ++ [f.trailer.1, f.trailer.2]))) := by
    simp only [bytes, ← htext, List.append_assoc]
  refine ⟨?_, ?_⟩
  · rw [hbytes, ofBytes_append, ofBytes_append, ofBytes_append, ofBytes_append]
    exact (agrees_kept _).append ((agrees_free_iff.2 (by rw [length_ofBytes, hmore])).append
      ((agrees_kept _).append (hsections.append (agrees_free_iff.2 (length_ofBytes _)))))
  · have htake : f.bytes.take f.text.length = f.text := by
      rw [bytes, List.append_assoc, List.append_assoc, List.take_left]
    rw [htake]
    exact f.zero_notMem

/-- What shows of its sections and the length of its text is all that shows of a file. -/
theorem patch_eq_of_gists {f g : File} (htext : f.text.length = g.text.length)
    (h : f.sections.map gist = g.sections.map gist) (catalog : Catalog) : f.patch catalog = g.patch catalog := by
  have hstart : f.start = g.start := by rw [start, start, htext]
  have hdescription : (f.sections.filterMap fun s => s.said.description?) =
      g.sections.filterMap fun s => s.said.description? := by
    rw [List.filterMap_eq_flatMap_toList, List.filterMap_eq_flatMap_toList]
    exact flatMap_said_eq h (f := fun p => p.description?.toList) fun p => by cases p <;> rfl
  have hplaced := flatMap_said_eq h (f := Part.placed catalog) fun p => by cases p <;> rfl
  have hwired := flatMap_said_eq h (f := Part.wired) fun p => by cases p <;> rfl
  have hstored := flatMap_said_eq h (f := Part.stored) fun p => by cases p <;> rfl
  have hfindings := flatMap_located_said_eq h (f := fun span p => p.findings catalog span)
    (fun _ p => by cases p <;> rfl) f.start
  rw [hstart] at hfindings
  simp only [patch, findings, hdescription, hplaced, hwired, hstored, hstart, hfindings]

theorem exists_of_alike {bytes : List UInt8} (h : f.Alike bytes) :
    ∃ g : File, g.bytes = bytes ∧ g.text.length = f.text.length ∧ g.sections.map gist = f.sections.map gist := by
  obtain ⟨hagrees, hzero⟩ := h
  obtain ⟨_, _, hbits, hmagic, h⟩ := hagrees.split
  obtain ⟨textBits, _, rfl, htext, h⟩ := h.split
  obtain ⟨_, _, rfl, hheader, h⟩ := h.split
  obtain ⟨_, trailerBits, rfl, hsections, htrailer⟩ := h.split
  obtain rfl := eq_of_agrees_kept hmagic
  obtain rfl := eq_of_agrees_kept hheader
  obtain ⟨more, hmore, rfl⟩ := exists_ofBytes_eq (agrees_free_iff.1 htext)
  obtain ⟨trailer, hlen, rfl⟩ := exists_ofBytes_eq (n := 2) (agrees_free_iff.1 htrailer)
  obtain ⟨ss, rfl, hgists⟩ := exists_of_agrees_flatMap WrittenSection.exists_of_agrees hsections
  obtain ⟨first, second, rfl⟩ := List.length_eq_two.1 hlen
  rw [← ofBytes_flatMap, ← ofBytes_append, ← ofBytes_append, ← ofBytes_append, ← ofBytes_append] at hbits
  have hbytes := ofBytes_injective hbits
  have hlength : (magic ++ more).length = f.text.length := by
    have := f.starts.length_le
    rw [List.length_append, hmore]
    omega
  have hnodup : (ss.flatMap fun s => s.said.declared).Nodup := by
    rw [flatMap_said_eq hgists (f := Part.declared) fun p => by cases p <;> rfl]
    exact f.nodup_declared
  have hnew : 0 ∉ magic ++ more := by
    rw [← hlength, hbytes, ← List.append_assoc, List.take_left] at hzero
    exact hzero
  refine ⟨⟨magic ++ more, ss, (first, second), List.prefix_append _ _, hnew, hnodup⟩, ?_, hlength, hgists⟩
  rw [hbytes]
  simp only [File.bytes, List.append_assoc]

end File

/-- Bytes that decode are those of a file. All bytes that agree with what is kept of the file, its
    own among them, are as many and decode to the same patch. -/
theorem passed_over_bits_change_nothing {catalog : Catalog} {bytes : List UInt8} {p : Patch}
    (h : (Patch.ofBytes catalog bytes).value = .ok p) :
    (∃ f : File, f.bytes = bytes) ∧ ∀ f : File, f.bytes = bytes → f.Alike bytes ∧
      ∀ bytes', f.Alike bytes' → bytes'.length = bytes.length ∧ (Patch.ofBytes catalog bytes').value = .ok p := by
  refine ⟨exists_file_of_ofBytes h, ?_⟩
  rintro f rfl
  refine ⟨f.alike_bytes, fun bytes' hbytes' => ⟨?_, ?_⟩⟩
  · have hown := f.alike_bytes.1.length_eq
    have hother := hbytes'.1.length_eq
    rw [length_ofBytes] at hown hother
    omega
  · obtain ⟨g, rfl, htext, hgists⟩ := f.exists_of_alike hbytes'
    rw [g.ofBytes_file, File.patch_eq_of_gists htext hgists, ← h, f.ofBytes_file]

def alteredBytes : List UInt8 :=
  magic ++ [0x21, 0x32, 0, 0x17, 0, 0x21, 0, 2, 3, 71,
    0x4a, 0, 15, 64, 129, 192, 66, 134, 200, 225, 26, 2, 64, 128, 130, 3, 68, 15, 0x69, 0, 3, 7, 8, 9,
    0x4d, 0, 12, 64, 64, 128, 65, 4, 130, 129, 255, 32, 22, 64, 31, 0x12, 0x34]

theorem passed_over_bits_change_nothing_alteredBytes :
    (Patch.ofBytes sampleCatalog sampleFile.bytes).value = .ok (sampleFile.patch sampleCatalog) ∧
      alteredBytes ≠ sampleFile.bytes ∧ sampleFile.Alike alteredBytes ∧
      (Patch.ofBytes sampleCatalog alteredBytes).value = .ok (sampleFile.patch sampleCatalog) := by
  have h := sampleFile.ofBytes_file sampleCatalog
  have halike : sampleFile.Alike alteredBytes := by decide +kernel
  have hsame := ((passed_over_bits_change_nothing h).2 sampleFile rfl).2 alteredBytes halike
  exact ⟨h, by decide, halike, hsame.2⟩

end Patchbay.Container
