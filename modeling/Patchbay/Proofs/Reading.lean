/-
  Patchbay.Proofs.Reading — what a reader of fields makes of the bits of a layout.

  `Reads m bits a` says that `m` reads just the bits `bits`, wherever they stand and whatever
  follows, and makes `a` of them. It goes through sequencing and repetition, so a layout
  read field by field is read as a whole.
  - `answers_field`, `answers_skip`: what a field and what is passed over have in common, that a
    number of bits is passed and answered by.
  - `reads_description`, `reads_moduleRecord`, `reads_cableRecord`, `reads_variationRecord`,
    `reads_parameterRecord`: the layouts of the records; bits that are passed over are free.
  - `Section.records_eq`: a section that holds a list's opening and its records, and less than
    a byte more, is read to its end.
-/

import Patchbay.Container.Record
import Patchbay.Proofs.BitStrings

namespace Patchbay.Container

open Bits

namespace Fields

def Reads {α : Type} (m : Fields α) (bits : List Bool) (a : α) : Prop :=
  ∀ n rest, m ⟨n, bits ++ rest⟩ = .ok (a, ⟨n + bits.length, rest⟩)

section

variable {α β : Type} {m : Fields α} {bits : List Bool} {a : α}

/-! ## Sequences -/

theorem reads_pure (a : α) : Reads (pure a) [] a := fun _ _ => rfl

theorem Reads.bind {f : α → Fields β} {bits' : List Bool} {b : β} (hm : Reads m bits a) (hf : Reads (f a) bits' b) :
    Reads (m >>= f) (bits ++ bits') b := by
  intro n rest
  show Except.bind (m ⟨n, bits ++ bits' ++ rest⟩) _ = _
  rw [List.append_assoc, hm]
  show f a ⟨n + bits.length, bits' ++ rest⟩ = _
  rw [hf, List.length_append, Nat.add_assoc]

theorem Reads.bind_pure {f : α → Fields β} {b : β} (hm : Reads m bits a) (hf : f a = pure b) :
    Reads (m >>= f) bits b := by
  have := hm.bind (hf ▸ reads_pure b)
  rwa [List.append_nil] at this

/-! ## Fields -/

/-- `width` bits are passed and answered by, or there are fewer. -/
def Answers {α : Type} (width : Nat) (answer : List Bool → α) (m : Fields α) : Prop :=
  ∀ r, m r = if width ≤ r.rest.length
    then .ok (answer (r.rest.take width), ⟨r.position + width, r.rest.drop width⟩) else .error .short

theorem answers_field (width : Nat) : Answers width toNat (field width) := by
  intro r
  rw [field, Reader.read?_eq]
  by_cases h : width ≤ r.rest.length
  · rw [if_pos h, if_pos h]
  · rw [if_neg h, if_neg h]

theorem answers_skip (width : Nat) : Answers width (fun _ => ()) (skip width) := by
  intro r
  rw [skip, Reader.skip?_eq]
  by_cases h : width ≤ r.rest.length
  · rw [if_pos h, if_pos h]
  · rw [if_neg h, if_neg h]

theorem Answers.reads {answer : List Bool → α} (h : Answers bits.length answer m) : Reads m bits (answer bits) := by
  intro n rest
  rw [h, if_pos (by simp), List.take_left, List.drop_left]

theorem reads_field {width value : Nat} (h : value < 2 ^ width) : Reads (field width) (ofNat width value) value := by
  have hanswers := answers_field width
  rw [← length_ofNat width value] at hanswers
  have hreads := hanswers.reads
  rwa [length_ofNat, toNat_ofNat, Nat.mod_eq_of_lt h] at hreads

theorem reads_skip (bits : List Bool) : Reads (skip bits.length) bits () := (answers_skip bits.length).reads

theorem reads_coded {width code : Nat} {ofCode : Nat → Except UnknownCode α} (h : code < 2 ^ width)
    (hcode : ofCode code = .ok a) : Reads (coded width ofCode) (ofNat width code) a := by
  refine (reads_field h).bind_pure ?_
  rw [hcode]

/-! ## Repetition -/

variable {γ : Type} {layout : γ → List Bool} (meaning : γ → α)

theorem reads_times {items : List γ} (h : ∀ i ∈ items, Reads m (layout i) (meaning i)) :
    Reads (times items.length m) (items.flatMap layout) (items.map meaning) := by
  induction items with
  | nil => exact reads_pure []
  | cons i items ih =>
    have hi := h i List.mem_cons_self
    exact hi.bind ((ih fun i hi => h i (List.mem_cons_of_mem _ hi)).bind_pure rfl)

theorem collect_eq {items : List γ} (h : ∀ i ∈ items, Reads m (layout i) (meaning i)) (n : Nat) (rest : List Bool) :
    collect items.length m ⟨n, items.flatMap layout ++ rest⟩ =
      (items.map meaning, .ok ⟨n + (items.flatMap layout).length, rest⟩) := by
  induction items generalizing n with
  | nil => rfl
  | cons i items ih =>
    have hi := h i List.mem_cons_self
    rw [List.length_cons, collect, List.flatMap_cons, List.append_assoc, hi]
    simp only [ih fun i hi => h i (List.mem_cons_of_mem _ hi), List.map_cons, List.length_append, Nat.add_assoc]

end

end Fields

open Fields

/-! ## Records -/

theorem reads_description {activeVariation voices : Nat} (mono : Bool) {reserved : List Bool}
    (hv : activeVariation < 2 ^ 8) (hp : voices < 2 ^ 5) (hr : reserved.length = 2) :
    Reads description (ofNat 8 activeVariation ++ (ofNat 5 voices ++ (ofNat 1 mono.toNat ++ reserved)))
      ⟨activeVariation, voices, mono⟩ := by
  have hmono : mono.toNat < 2 ^ 1 := by cases mono <;> decide
  have hskip : Reads (skip 2) reserved () := hr ▸ reads_skip reserved
  refine (reads_field hv).bind ((reads_field hp).bind ((reads_field hmono).bind ?_))
  cases mono <;> exact hskip.bind_pure rfl

theorem reads_moduleRecord {typeId id modes : Nat} {looks modeBits : List Bool} (ht : typeId < 2 ^ 8) (hi : id < 2 ^ 8)
    (hl : looks.length = 30) (hn : modes < 2 ^ 4) (hm : modeBits.length = modes * 6) :
    Reads moduleRecord (ofNat 8 typeId ++ (ofNat 8 id ++ (looks ++ (ofNat 4 modes ++ modeBits)))) (typeId, id) := by
  have hskip : Reads (skip 30) looks () := hl ▸ reads_skip looks
  have hskip' : Reads (skip (modes * 6)) modeBits () := hm ▸ reads_skip modeBits
  exact (reads_field ht).bind ((reads_field hi).bind (hskip.bind ((reads_field hn).bind (hskip'.bind_pure rfl))))

theorem reads_cableRecord (area : Area) (color : CableColor) (kind : CableKind)
    {moduleFrom jackFrom moduleTo jackTo : Nat} (hm : moduleFrom < 2 ^ 8) (hj : jackFrom < 2 ^ 6)
    (hm' : moduleTo < 2 ^ 8) (hj' : jackTo < 2 ^ 6) :
    Reads (cableRecord area) (ofNat 3 color.code ++ (ofNat 8 moduleFrom ++ (ofNat 6 jackFrom ++
      (ofNat 1 kind.code ++ (ofNat 8 moduleTo ++ ofNat 6 jackTo)))))
      ⟨area, kind, color, moduleFrom, jackFrom, moduleTo, jackTo⟩ := by
  exact (reads_coded color.code_lt color.ofCode_code).bind ((reads_field hm).bind ((reads_field hj).bind
    ((reads_coded kind.code_lt kind.ofCode_code).bind ((reads_field hm').bind ((reads_field hj').bind_pure rfl)))))

theorem reads_variationRecord (area : Area) (moduleId : Nat) {number : List Bool} {values : List Nat}
    (hn : number.length = 8) (hlen : values.length < 2 ^ 7) (hv : ∀ v ∈ values, v < 2 ^ 7) :
    Reads (variationRecord area moduleId values.length)
      (number ++ (ofNat 7 values.length ++ values.flatMap (ofNat 7))) values := by
  have hskip : Reads (skip 8) number () := hn ▸ reads_skip number
  have hvalues := reads_times id fun v hv' => reads_field (hv v hv')
  rw [List.map_id] at hvalues
  refine hskip.bind ((reads_field hlen).bind ?_)
  simpa using hvalues

def variationLayout (v : List Bool × List Nat) : List Bool := v.1 ++ (ofNat 7 v.2.length ++ v.2.flatMap (ofNat 7))

theorem reads_parameterRecord (area : Area) {moduleId declared : Nat} {variations : List (List Bool × List Nat)}
    (hm : moduleId < 2 ^ 8) (hd : declared < 2 ^ 7)
    (hv : ∀ v ∈ variations, v.1.length = 8 ∧ v.2.length = declared ∧ ∀ n ∈ v.2, n < 2 ^ 7) :
    Reads (parameterRecord area variations.length)
      (ofNat 8 moduleId ++ (ofNat 7 declared ++ variations.flatMap variationLayout))
      (variations.head?.map fun v => ⟨area, moduleId, declared, v.2⟩) := by
  have hvariations : Reads (times variations.length (variationRecord area moduleId declared))
      (variations.flatMap variationLayout) (variations.map Prod.snd) := by
    refine reads_times Prod.snd fun v hmem => ?_
    obtain ⟨hn, rfl, hvalues⟩ := hv v hmem
    exact reads_variationRecord area moduleId hn hd hvalues
  have hfirst :
      ((variations.map Prod.snd).head?.map fun first => (⟨area, moduleId, declared, first⟩ : ParameterBlock)) =
      variations.head?.map fun v => ⟨area, moduleId, declared, v.2⟩ := by cases variations <;> rfl
  rw [← hfirst]
  exact (reads_field hm).bind ((reads_field hd).bind (hvariations.bind_pure rfl))

/-! ## Sections -/

namespace Section

variable {s : Section} {padding : List Bool} (hpad : padding.length < 8)

include hpad

/-- A section whose opening and records leave less than a byte of its payload is read to its end. -/
theorem records_eq {opening : Fields Opening} {head : List Bool} {o : Opening} {γ : Type} (items : List γ)
    (layout : γ → List Bool) (meaning : γ → List Record) (hopening : s.opening? = some opening)
    (hhead : Reads opening head o) (hcount : o.count = items.length)
    (hitems : ∀ i ∈ items, Reads o.item (layout i) (meaning i))
    (hbits : ofBytes s.payload = head ++ (items.flatMap layout ++ padding)) :
    s.records = (o.record :: items.flatMap meaning, none) := by
  have hlen : 8 * s.payload.length = head.length + (items.flatMap layout).length + padding.length := by
    rw [← length_ofBytes, hbits, List.length_append, List.length_append, Nat.add_assoc]
  have hconsumed : (0 + head.length + (items.flatMap layout).length + 7) / 8 = s.payload.length := by omega
  simp only [records, hopening, Reader.ofBytes, hbits]
  rw [hhead]
  simp only [hcount, collect_eq meaning hitems, ending, Reader.bytesConsumed, hconsumed, ne_eq, not_true, if_false]
  rw [List.flatMap_def]

theorem records_description (hkind : s.kind = descriptionKind) {activeVariation voices : Nat} {mono : Bool}
    {reserved : List Bool} (hv : activeVariation < 2 ^ 8) (hp : voices < 2 ^ 5) (hr : reserved.length = 2)
    (hbits : ofBytes s.payload =
      ofNat 8 activeVariation ++ (ofNat 5 voices ++ (ofNat 1 mono.toNat ++ (reserved ++ padding)))) :
    s.records = ([.description ⟨activeVariation, voices, mono⟩], none) := by
  have hopening : s.opening? = some descriptionOpening := by rw [opening?, hkind]; rfl
  have hhead := reads_description mono hv hp hr
  refine records_eq hpad ([] : List Unit) (fun _ => []) (fun _ => []) hopening (hhead.bind_pure rfl) rfl (by simp) ?_
  simpa using hbits

section

variable {γ : Type} {area : Area} {items : List γ} {layout : γ → List Bool}

theorem records_moduleList (hkind : s.kind = moduleListKind) (meaning : γ → Nat × Nat) (hcount : items.length < 2 ^ 8)
    (hitems : ∀ i ∈ items, Reads moduleRecord (layout i) (meaning i))
    (hbits : ofBytes s.payload = ofNat 2 area.code ++ (ofNat 8 items.length ++ (items.flatMap layout ++ padding))) :
    s.records = (.moduleList area items.length ::
      items.map fun i => .placed area (meaning i).1 (meaning i).2 s.span, none) := by
  have hopening : s.opening? = some (moduleListOpening s.span) := by rw [opening?, hkind]; rfl
  rw [records_eq hpad items layout (fun i => [.placed area (meaning i).1 (meaning i).2 s.span]) hopening
    ((reads_coded area.code_lt area.ofCode_code).bind ((reads_field hcount).bind_pure rfl)) rfl
    (fun i hi => (hitems i hi).bind_pure rfl) (by simpa using hbits), List.map_eq_flatMap]

theorem records_cableList (hkind : s.kind = cableListKind) {meaning : γ → Cable} {reserved : List Bool}
    (hr : reserved.length = 12) (hcount : items.length < 2 ^ 10)
    (hitems : ∀ i ∈ items, Reads (cableRecord area) (layout i) (meaning i))
    (hbits : ofBytes s.payload =
      ofNat 2 area.code ++ (reserved ++ (ofNat 10 items.length ++ (items.flatMap layout ++ padding)))) :
    s.records = (.cableList area items.length :: items.map fun i => .cable (meaning i), none) := by
  have hopening : s.opening? = some cableListOpening := by rw [opening?, hkind]; rfl
  have hskip : Reads (skip 12) reserved () := hr ▸ reads_skip reserved
  rw [records_eq hpad items layout (fun i => [.cable (meaning i)]) hopening
    ((reads_coded area.code_lt area.ofCode_code).bind (hskip.bind ((reads_field hcount).bind_pure rfl))) rfl
    (fun i hi => (hitems i hi).bind_pure rfl) (by simpa using hbits), List.map_eq_flatMap]

theorem records_parameters (hkind : s.kind = parametersKind) {meaning : γ → Option ParameterBlock} {variations : Nat}
    (hv : variations < 2 ^ 8) (hcount : items.length < 2 ^ 8)
    (hitems : ∀ i ∈ items, Reads (parameterRecord area variations) (layout i) (meaning i))
    (hbits : ofBytes s.payload =
      ofNat 2 area.code ++ (ofNat 8 items.length ++ (ofNat 8 variations ++ (items.flatMap layout ++ padding)))) :
    s.records = (.parameterList area items.length variations ::
      items.flatMap fun i => (meaning i).toList.map .parameters, none) := by
  have hopening : s.opening? = some parametersOpening := by rw [opening?, hkind]; rfl
  exact records_eq hpad items layout _ hopening
    ((reads_coded area.code_lt area.ofCode_code).bind ((reads_field hcount).bind ((reads_field hv).bind_pure rfl))) rfl
    (fun i hi => (hitems i hi).bind_pure rfl) (by simpa using hbits)

end

omit hpad in
theorem records_of_unknown_kind (hd : s.kind ≠ descriptionKind) (hm : s.kind ≠ moduleListKind)
    (hc : s.kind ≠ cableListKind) (hp : s.kind ≠ parametersKind) :
    s.records = ([.skipped s.kind s.payload.length], none) := by
  have hopening : s.opening? = none := by
    rw [opening?, if_neg hd, if_neg hm, if_neg hc, if_neg hp]
  simp only [records, hopening]

end Section

end Patchbay.Container
