/-
  Patchbay.Proofs.Resolution — a catalog says what the modules of a file are, not how the file is
  read.

  Decoding is written here as it can be done in place: each record goes into the patch as it
  comes, and whether a module is declared a second time is looked up in the patch so far, among
  modules that have what the catalog gave them. A `Draft` is what the records say by themselves.
  - `inPlace_eq`: decoding in place gives what decoding gives.
  - `takeUp_resolve`, `foldlM_takeUp_resolve`: a draft that is resolved takes up a record, and any
    number of them, as the draft does.
  - `catalog_only_resolves`: bytes have one fault or one draft, for all catalogs.
-/

import Patchbay.Proofs.DecodedPatch

namespace Patchbay

open Container

/-! ## Decoding in place -/

def Container.orFault {α : Type} (fault : Option Corruption) (a : α) : Except Corruption α :=
  match fault with
  | some fault => .error fault
  | none => .ok a

namespace Patch

/-- The patch with one record more. A module whose address is taken is refused; one of a type
    that the catalog lacks is a finding. -/
def takeUp (catalog : Catalog) (p : Patch) : Record → Except Corruption Patch
  | .description d => .ok { p with description := d }
  | .placed area typeId id span =>
    let m := PatchModule.place catalog area typeId id
    if (p.findModule? id area).isSome then .error (.duplicateModule area id)
    else if m.isKnown then .ok { p with modules := p.modules ++ [m] }
    else .ok { p with
      modules := p.modules ++ [m]
      diagnostics := p.diagnostics ++ [unknownModule area typeId id span] }
  | .cable c => .ok { p with cables := p.cables ++ [c] }
  | .parameters b => .ok { p with params := p.params ++ [b] }
  | .moduleList .. | .cableList .. | .parameterList .. | .skipped .. => .ok p

def takeUpSection (catalog : Catalog) (p : Patch) (s : Section) : Except Corruption Patch :=
  s.records.1.foldlM (takeUp catalog) p >>= orFault s.records.2

/-- Put all that is read into a patch that is empty at first. -/
def inPlace (catalog : Catalog) (bytes : List UInt8) : Except PatchError Patch :=
  match header bytes with
  | .error fault => .error (.format fault)
  | .ok (offset, body) =>
    let framing := frame offset body
    (framing.sections.foldlM (takeUpSection catalog) {} >>= orFault framing.fault).mapError .corrupt

variable {catalog : Catalog}

/-- A second declaration is one that is found in the patch. -/
theorem isSome_findModule?_ofRecords (before : List Record) (area : Area) (id : Nat) :
    ((ofRecords catalog before).findModule? id area).isSome ↔ (area, id) ∈ before.filterMap Record.declared? := by
  have haddress : (ofRecords catalog before).modules.map PatchModule.address = before.filterMap Record.declared? := by
    rw [ofRecords, List.map_filterMap]
    refine List.filterMap_congr fun r _ => ?_
    cases r with
    | placed area typeId id span =>
      simp only [Record.placedModule?, Record.declared?, Option.map_some, PatchModule.address,
        PatchModule.area_place, PatchModule.id_place]
    | _ => rfl
  rw [← haddress, List.mem_map, Option.isSome_iff_ne_none, ne_eq, findModule?_eq_none_iff]
  simp only [PatchModule.address, Prod.mk.injEq, not_forall, not_not, exists_prop, and_comm]

theorem takeUp_of_taken {p : Patch} {area : Area} {typeId id : Nat} {span : Span}
    (h : (p.findModule? id area).isSome) :
    takeUp catalog p (.placed area typeId id span) = .error (.duplicateModule area id) := if_pos h

/-- What a record adds to those before it. -/
theorem ofRecords_concat (before : List Record) (r : Record) :
    ofRecords catalog (before ++ [r]) =
      { description := r.description?.getD (ofRecords catalog before).description
        modules := (ofRecords catalog before).modules ++ (r.placedModule? catalog).toList
        cables := (ofRecords catalog before).cables ++ r.cable?.toList
        params := (ofRecords catalog before).params ++ r.parameters?.toList
        diagnostics := (ofRecords catalog before).diagnostics ++ (r.diagnostic? catalog).toList } := by
  have hlast {α : Type} (f : Record → Option α) : [r].filterMap f = (f r).toList := by
    rw [List.filterMap_cons, List.filterMap_nil]
    cases f r <;> rfl
  simp only [ofRecords, List.filterMap_append, hlast, Patch.mk.injEq, and_true]
  cases r.description? with
  | none => rw [Option.toList_none, List.append_nil, Option.getD_none]
  | some d => rw [Option.toList_some, List.getLast?_concat, Option.getD_some, Option.getD_some]

/-- What the records before say is taken up by one record more. -/
theorem takeUp_ofRecords {before : List Record} {r : Record}
    (h : ∀ a ∈ r.declared?, a ∉ before.filterMap Record.declared?) :
    takeUp catalog (ofRecords catalog before) r = .ok (ofRecords catalog (before ++ [r])) := by
  cases r with
  | placed area typeId id span =>
    have hnew : ((ofRecords catalog before).findModule? id area).isSome = false := by
      rw [Bool.eq_false_iff]
      exact fun hfound => h _ rfl ((isSome_findModule?_ofRecords before area id).1 hfound)
    have hknown := (PatchModule.asCataloged_place catalog area typeId id).isKnown_eq
    rw [PatchModule.typeId_place] at hknown
    rw [ofRecords_concat]
    simp only [takeUp, hnew, hknown]
    cases hlookup : (catalog.lookup typeId).isSome <;>
      simp [Record.description?, Record.placedModule?, Record.cable?, Record.parameters?, Record.diagnostic?, hlookup]
  | _ =>
    rw [ofRecords_concat]
    simp only [takeUp, Record.description?, Record.placedModule?, Record.cable?, Record.parameters?,
      Record.diagnostic?, Option.toList_none, Option.toList_some, Option.getD_none, Option.getD_some, List.append_nil]

/-- All records are taken up, or up to the first that declares a module again. -/
theorem foldlM_takeUp_ofRecords {before rs : List Record} {seen : List (Area × Nat)}
    (hseen : ∀ a, a ∈ seen ↔ a ∈ before.filterMap Record.declared?) :
    rs.foldlM (takeUp catalog) (ofRecords catalog before) =
      match untilRepeated seen rs with
      | (_, some fault) => .error fault
      | (kept, none) => .ok (ofRecords catalog (before ++ kept)) := by
  induction rs generalizing before seen with
  | nil =>
    simp only [untilRepeated, List.append_nil]
    rfl
  | cons r rs ih =>
    have hstep (hnew : ∀ a ∈ r.declared?, a ∉ before.filterMap Record.declared?) :
        (r :: rs).foldlM (takeUp catalog) (ofRecords catalog before) =
          rs.foldlM (takeUp catalog) (ofRecords catalog (before ++ [r])) := by
      rw [List.foldlM_cons, takeUp_ofRecords hnew]
      rfl
    cases r with
    | placed area typeId id span =>
      by_cases htaken : (area, id) ∈ seen
      · have hfound := (@isSome_findModule?_ofRecords catalog before area id).2 ((hseen _).1 htaken)
        rw [List.foldlM_cons, takeUp_of_taken hfound, untilRepeated, if_pos htaken]
        rfl
      · have hnew : ∀ a ∈ Record.declared? (.placed area typeId id span), a ∉ before.filterMap Record.declared? := by
          rintro a ⟨⟩ ha
          exact htaken ((hseen _).2 ha)
        have hseen' : ∀ a, a ∈ (area, id) :: seen ↔
            a ∈ (before ++ [Record.placed area typeId id span]).filterMap Record.declared? := by
          intro a
          rw [List.filterMap_append, List.mem_append, ← hseen, List.mem_cons, or_comm]
          exact or_congr_right List.mem_singleton.symm
        rw [hstep hnew, ih hseen', untilRepeated, if_neg htaken]
        rcases untilRepeated ((area, id) :: seen) rs with ⟨kept, _ | fault⟩
        · simp only [List.append_assoc, List.singleton_append]
        · rfl
    | _ =>
      have hseen' {r : Record} (hr : r.declared? = none) :
          ∀ a, a ∈ seen ↔ a ∈ (before ++ [r]).filterMap Record.declared? := by
        intro a
        rw [List.filterMap_append, List.filterMap_cons_none hr, List.filterMap_nil, List.append_nil, hseen]
      rw [hstep (by rintro a ⟨⟩), ih (hseen' rfl), untilRepeated]
      · rcases untilRepeated seen rs with ⟨kept, _ | fault⟩
        · simp only [List.append_assoc, List.singleton_append]
        · rfl
      · rintro area typeId id span ⟨⟩

/-- Section after section, or all records of the sections and then the fault that ends them. -/
theorem foldlM_takeUpSection (last : Option Corruption) (ss : List Section) (p : Patch) :
    ss.foldlM (takeUpSection catalog) p >>= orFault last =
      (scan last ss).1.foldlM (takeUp catalog) p >>= orFault (scan last ss).2 := by
  induction ss generalizing p with
  | nil => rfl
  | cons s ss ih =>
    rw [List.foldlM_cons, takeUpSection, scan]
    rcases s.records with ⟨records, _ | fault⟩
    · simp only [List.foldlM_append, bind_assoc, ← ih]
      rfl
    · simp only [bind_assoc]
      rfl

/-- Decoding in place gives what decoding gives. -/
theorem inPlace_eq (catalog : Catalog) (bytes : List UInt8) : inPlace catalog bytes = (ofBytes catalog bytes).value := by
  unfold inPlace ofBytes
  rcases header bytes with fault | ⟨offset, body⟩
  · rfl
  have hrecords := @foldlM_takeUp_ofRecords catalog [] (scan (frame offset body).fault (frame offset body).sections).1
    [] fun a => Iff.rfl
  have hempty : ofRecords catalog [] = {} := rfl
  rw [hempty] at hrecords
  simp only [foldlM_takeUpSection, hrecords]
  rcases scan (frame offset body).fault (frame offset body).sections with ⟨records, fault⟩
  rcases untilRepeated [] records with ⟨kept, _ | repeated⟩
  · cases fault <;> rfl
  · rfl

end Patch

/-! ## Records without a catalog -/

/-- A module as its record has it, with the bytes of the section of the record. -/
structure Placement where
  area : Area
  typeId : Nat
  id : Nat
  span : Span
  deriving DecidableEq, Repr

namespace Placement

def resolve (catalog : Catalog) (a : Placement) : PatchModule := .place catalog a.area a.typeId a.id

def finding? (catalog : Catalog) (a : Placement) : Option Diagnostic :=
  if (catalog.lookup a.typeId).isSome then none else some (unknownModule a.area a.typeId a.id a.span)

end Placement

/-- What records say by themselves. -/
structure Draft where
  description : Description := {}
  placements : List Placement := []
  cables : List Cable := []
  params : List ParameterBlock := []
  deriving DecidableEq, Repr

namespace Draft

def resolve (catalog : Catalog) (d : Draft) : Patch where
  description := d.description
  modules := d.placements.map (Placement.resolve catalog)
  cables := d.cables
  params := d.params
  diagnostics := d.placements.filterMap (Placement.finding? catalog)

def takeUp (d : Draft) : Record → Except Corruption Draft
  | .description description => .ok { d with description }
  | .placed area typeId id span =>
    if d.placements.any fun a => a.id == id && a.area == area then .error (.duplicateModule area id)
    else .ok { d with placements := d.placements ++ [⟨area, typeId, id, span⟩] }
  | .cable c => .ok { d with cables := d.cables ++ [c] }
  | .parameters b => .ok { d with params := d.params ++ [b] }
  | .moduleList .. | .cableList .. | .parameterList .. | .skipped .. => .ok d

variable (catalog : Catalog)

theorem isSome_findModule?_resolve (d : Draft) (id : Nat) (area : Area) :
    ((d.resolve catalog).findModule? id area).isSome = d.placements.any fun a => a.id == id && a.area == area := by
  unfold Patch.findModule? resolve
  rw [List.isSome_find?, List.any_map]
  refine congrArg d.placements.any (funext fun a => ?_)
  simp only [Function.comp_apply, Placement.resolve, PatchModule.id_place, PatchModule.area_place]

/-- A draft that is resolved takes up a record as the draft does. -/
theorem takeUp_resolve (d : Draft) (r : Record) :
    (d.resolve catalog).takeUp catalog r = (d.takeUp r).map (resolve catalog) := by
  cases r with
  | placed area typeId id span =>
    have hknown := (PatchModule.asCataloged_place catalog area typeId id).isKnown_eq
    rw [PatchModule.typeId_place] at hknown
    simp only [Patch.takeUp, takeUp, isSome_findModule?_resolve]
    split
    · rfl
    · -- A module of a known and one of an unknown type differ in the finding alone.
      cases hlookup : (catalog.lookup typeId).isSome with
      | true => simp [hknown, hlookup, resolve, Except.map, Placement.resolve, Placement.finding?]
      | false => simp [hknown, hlookup, resolve, Except.map, Placement.resolve, Placement.finding?]
  | _ => rfl

theorem foldlM_takeUp_resolve (rs : List Record) (d : Draft) :
    rs.foldlM (Patch.takeUp catalog) (d.resolve catalog) = (rs.foldlM takeUp d).map (resolve catalog) := by
  induction rs generalizing d with
  | nil => rfl
  | cons r rs ih =>
    rw [List.foldlM_cons, List.foldlM_cons, takeUp_resolve]
    cases d.takeUp r with
    | error fault => rfl
    | ok d => exact ih d

def ofBytes (bytes : List UInt8) : Except PatchError Draft :=
  match header bytes with
  | .error fault => .error (.format fault)
  | .ok (offset, body) =>
    let framing := frame offset body
    let (records, fault) := scan framing.fault framing.sections
    (records.foldlM takeUp {} >>= orFault fault).mapError .corrupt

theorem inPlace_eq_map_ofBytes (bytes : List UInt8) :
    Patch.inPlace catalog bytes = (ofBytes bytes).map (resolve catalog) := by
  unfold Patch.inPlace ofBytes
  rcases header bytes with fault | ⟨offset, body⟩
  · rfl
  have hempty : ({} : Patch) = resolve catalog {} := rfl
  simp only [Patch.foldlM_takeUpSection, hempty, foldlM_takeUp_resolve]
  rcases scan (frame offset body).fault (frame offset body).sections with ⟨records, fault⟩
  cases records.foldlM takeUp {} with
  | error repeated => rfl
  | ok d => cases fault <;> rfl

end Draft

/-! ## Two catalogs -/

structure PatchModule.SameRecord (m n : PatchModule) : Prop where
  typeId_eq : m.typeId = n.typeId
  id_eq : m.id = n.id
  area_eq : m.area = n.area

structure Patch.SameRecords (p q : Patch) : Prop where
  description_eq : p.description = q.description
  modules : List.Forall₂ PatchModule.SameRecord p.modules q.modules
  cables_eq : p.cables = q.cables
  params_eq : p.params = q.params

theorem Draft.sameRecords_resolve (d : Draft) (catalog catalog' : Catalog) :
    (d.resolve catalog).SameRecords (d.resolve catalog') where
  description_eq := rfl
  modules := by
    unfold resolve
    rw [List.forall₂_map_left_iff, List.forall₂_map_right_iff, List.forall₂_same]
    intro a _
    constructor <;> simp [Placement.resolve]
  cables_eq := rfl
  params_eq := rfl

/-- Bytes have the same fault for all catalogs, or the same draft, from which a catalog makes the
    patch: in two patches that two catalogs make of them, the description, the cables, the
    parameters and, one by one, the type ids and addresses of the modules are the same. It is so
    although decoding in place, which gives the same, looks addresses up among modules that the
    catalog has resolved. -/
theorem catalog_only_resolves (bytes : List UInt8) :
    ((∃ e, ∀ catalog, (Patch.ofBytes catalog bytes).value = .error e) ∨
      ∃ d : Draft, (∀ catalog, (Patch.ofBytes catalog bytes).value = .ok (d.resolve catalog)) ∧
        (∀ catalog, ∀ m ∈ (d.resolve catalog).modules, m.AsCataloged catalog) ∧
        ∀ catalog catalog', (d.resolve catalog).SameRecords (d.resolve catalog')) ∧
      ∀ catalog, (Patch.ofBytes catalog bytes).value = Patch.inPlace catalog bytes := by
  have hdraft (catalog : Catalog) :
      (Patch.ofBytes catalog bytes).value = (Draft.ofBytes bytes).map (Draft.resolve catalog) := by
    rw [← Patch.inPlace_eq, Draft.inPlace_eq_map_ofBytes]
  refine ⟨?_, fun catalog => (Patch.inPlace_eq catalog bytes).symm⟩
  cases hbytes : Draft.ofBytes bytes with
  | error e => exact Or.inl ⟨e, fun catalog => by rw [hdraft, hbytes]; rfl⟩
  | ok d =>
    refine Or.inr ⟨d, fun catalog => by rw [hdraft, hbytes]; rfl, fun catalog m hm => ?_, d.sameRecords_resolve⟩
    obtain ⟨a, -, rfl⟩ := List.mem_map.1 hm
    exact PatchModule.asCataloged_place ..

end Patchbay
