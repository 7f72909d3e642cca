/-
  Patchbay.Proofs.Whereabouts — a document does not say where its files were.

  A template keeps the path it was read from, a conversion that of its input, and errors name
  both. Two runs whose files have the same contents in different places are compared stage by
  stage; what they come to is the same but for such paths:
  - `load_alike`, `loadInto_alike`: one template, then all of a patch.
  - `render_eq`, `validations_eq`: nothing of a path is printed or validated.
  - `compile_alike`, `prepare_alike`: the stages put together.
  - `conversion_does_not_show_places`: both runs fail, or both give the same document.
-/

import Patchbay.Proofs.Compilation

namespace Patchbay

/-- Both fail, or both succeed, with errors or values that are related. -/
inductive Alike {ε α : Type} (E : ε → ε → Prop) (V : α → α → Prop) : Except ε α → Except ε α → Prop
  | error {e e' : ε} : E e e' → Alike E V (.error e) (.error e')
  | ok {a a' : α} : V a a' → Alike E V (.ok a) (.ok a')

/-! ## Templates -/

structure Template.SameButOrigin (t t' : Template) : Prop where
  typeId_eq : t.typeId = t'.typeId
  slots_eq : t.slots = t'.slots
  body_eq : t.body = t'.body

inductive TemplateError.SameButPath : TemplateError → TemplateError → Prop
  | notFound (typeId : Nat) : SameButPath (.notFound typeId) (.notFound typeId)
  | unreadable (path path' : Path) (fault : IoFault) : SameButPath (.unreadable path fault) (.unreadable path' fault)
  | malformed (origin origin' : String) (line : Nat) (fault : DirectiveFault) :
      SameButPath (.malformed origin line fault) (.malformed origin' line fault)

/-- Directories, perhaps on two machines, in which the file of each type reads the same: there is
    none in both, or one with the same text in both, or it cannot be read for the same reason. -/
def Template.SameTexts (d d' : Disk) (root root' : Path) : Prop :=
  ∀ typeId, d.readText (Source.pathFor root typeId) = d'.readText (Source.pathFor root' typeId)

/-! ## Files in a directory -/

def Path.lead (p : Path) : String :=
  if p.text = "" then "" else if p.text.toList.getLast? = some '/' then p.text else p.text ++ "/"

theorem Path.join_eq (p : Path) (name : String) : p.join name = ⟨p.lead ++ name⟩ := by
  unfold join lead
  split
  · rw [String.empty_append]
  · split <;> rfl

theorem Path.join_inj (p : Path) {name name' : String} : p.join name = p.join name' ↔ name = name' := by
  rw [join_eq, join_eq, mk.injEq, String.append_right_inj]

def Disk.ofFile (path : Path) (bytes : List UInt8) : Disk where
  read p := if p = path then .ok bytes else .error .notFound
  isFile p := p = path

theorem Disk.read_ofFile (path : Path) (bytes : List UInt8) : (ofFile path bytes).read path = .ok bytes := if_pos rfl

namespace Template

def diskOf (root : Path) (typeId : Nat) (text : String) : Disk :=
  .ofFile (Source.pathFor root typeId) text.toUTF8.toList

theorem sameTexts_diskOf (root root' : Path) (typeId : Nat) (text : String) :
    SameTexts (diskOf root typeId text) (diskOf root' typeId text) root root' := by
  intro n
  simp only [Disk.readText, diskOf, Disk.ofFile, Source.pathFor, Path.join_inj]

theorem isFile_diskOf (root root' : Path) (typeId : Nat) (text : String) (n : Nat) :
    (diskOf root typeId text).isFile (Source.pathFor root n) =
      (diskOf root' typeId text).isFile (Source.pathFor root' n) := by
  simp only [diskOf, Disk.ofFile, Source.pathFor, Path.join_inj]

variable {d d' : Disk} {root root' : Path}

theorem parse_alike (typeId : Nat) (text origin origin' : String) :
    Alike TemplateError.SameButPath SameButOrigin (parse typeId text origin) (parse typeId text origin') := by
  unfold parse
  dsimp only
  split
  · exact .error (.malformed ..)
  · exact .ok ⟨rfl, rfl, rfl⟩

theorem load_alike (h : SameTexts d d' root root') (typeId : Nat) :
    Alike TemplateError.SameButPath SameButOrigin ((Source.directory d root).load typeId).value
      ((Source.directory d' root').load typeId).value := by
  simp only [Source.load, h typeId]
  split
  · exact .error (.notFound typeId)
  · exact .error (.unreadable ..)
  · exact parse_alike ..

/-- Nothing of the origin stands in the definition. -/
theorem SameButOrigin.definition_eq {t t' : Template} (h : t.SameButOrigin t') (name : Option String) :
    t.definition name = t'.definition name := by
  obtain ⟨typeId, slots, body, origin⟩ := t
  obtain ⟨typeId', slots', body', origin'⟩ := t'
  obtain ⟨rfl, rfl, rfl⟩ := h
  rfl

theorem SameButOrigin.validate_eq {t t' : Template} (h : t.SameButOrigin t') (catalog : Catalog) :
    t.validate catalog = t'.validate catalog := by
  unfold validate
  rw [h.typeId_eq, h.slots_eq]

end Template

/-! ## Sets of templates -/

structure TemplateSet.SameButOrigins (s s' : TemplateSet) : Prop where
  get? : ∀ typeId, Option.Rel Template.SameButOrigin (s.get? typeId) (s'.get? typeId)
  missing_eq : s.missing = s'.missing

namespace TemplateSet

theorem SameButOrigins.insert {s s' : TemplateSet} (h : s.SameButOrigins s') {t t' : Template}
    (ht : t.SameButOrigin t') : (s.insert t).SameButOrigins (s'.insert t') where
  get? typeId := by
    rw [get?_insert, get?_insert, ht.typeId_eq]
    split
    · exact .some ht
    · exact h.get? typeId
  missing_eq := h.missing_eq

theorem loadInto_alike {source source' : Template.Source}
    (hload : ∀ typeId, Alike TemplateError.SameButPath Template.SameButOrigin (source.load typeId).value
      (source'.load typeId).value) {s s' : TemplateSet} (h : s.SameButOrigins s') (ids : List Nat) :
    Alike TemplateError.SameButPath SameButOrigins (loadInto source s ids).value (loadInto source' s' ids).value := by
  induction ids generalizing s s' with
  | nil => exact .ok h
  | cons typeId ids ih =>
    simp only [loadInto, Logged.value_bind]
    have hfirst := hload typeId
    generalize (source.load typeId).value = outcome at hfirst ⊢
    generalize (source'.load typeId).value = outcome' at hfirst ⊢
    cases hfirst with
    | ok ht => exact ih (h.insert ht)
    | error he =>
      cases he with
      | notFound => exact ih ⟨h.get?, by rw [h.missing_eq]⟩
      | unreadable => exact .error (.unreadable ..)
      | malformed => exact .error (.malformed ..)

variable {s s' : TemplateSet}

theorem SameButOrigins.validations_eq (h : s.SameButOrigins s') (catalog : Catalog) (types : List UsedType) :
    s.validations catalog types = s'.validations catalog types := by
  unfold validations
  rw [List.map_filterMap, List.map_filterMap]
  refine List.filterMap_congr fun u _ => ?_
  have hget := h.get? u.typeId
  generalize s.get? u.typeId = found at hget ⊢
  generalize s'.get? u.typeId = found' at hget ⊢
  cases hget with
  | some ht => exact congrArg some (ht.validate_eq catalog)
  | none => rfl

theorem SameButOrigins.render_eq (h : s.SameButOrigins s') (p : Patch) (counter : BusCounter)
    (types : List UsedType) (o : DocumentOptions) :
    Document.render p counter types s o = Document.render p counter types s' o := by
  have hdefinitions : types.map (Document.definition s) = types.map (Document.definition s') := by
    refine List.map_congr_left fun u _ => ?_
    unfold Document.definition
    have hget := h.get? u.typeId
    generalize s.get? u.typeId = found at hget ⊢
    generalize s'.get? u.typeId = found' at hget ⊢
    cases hget with
    | some ht => simp only [ht.definition_eq]
    | none => rfl
  unfold Document.render
  rw [hdefinitions]

end TemplateSet

/-! ## Compiled patches -/

structure Compiled.SameButOrigins (c c' : Compiled) : Prop where
  patch_eq : c.patch = c'.patch
  types_eq : c.types = c'.types
  templates : c.templates.SameButOrigins c'.templates
  validations_eq : c.validations = c'.validations
  text_eq : c.text = c'.text

inductive ConversionError.SameButPath : ConversionError → ConversionError → Prop
  | badExtension (p p' : Path) : SameButPath (.patch (.format (.badExtension p))) (.patch (.format (.badExtension p')))
  | patch (e : PatchError) : SameButPath (.patch e) (.patch e)
  | routing (e : RoutingError) : SameButPath (.routing e) (.routing e)
  | template {e e' : TemplateError} : e.SameButPath e' → SameButPath (.template e) (.template e')

theorem Patch.compile_alike {d d' : Disk} {root root' : Path} (h : Template.SameTexts d d' root root') (p : Patch)
    (catalog : Catalog) (o : DocumentOptions) :
    Alike ConversionError.SameButPath Compiled.SameButOrigins (p.compile catalog (.directory d root) o).value
      (p.compile catalog (.directory d' root') o).value := by
  unfold compile
  cases p.connect {} with
  | error e => exact .error (.routing e)
  | ok routed =>
    simp only [Logged.value_bind]
    have hload : Alike TemplateError.SameButPath TemplateSet.SameButOrigins
        (TemplateSet.load (.directory d root) routed.types).value
        (TemplateSet.load (.directory d' root') routed.types).value :=
      TemplateSet.loadInto_alike (Template.load_alike h) ⟨fun _ => .none, rfl⟩ _
    generalize (TemplateSet.load (.directory d root) routed.types).value = loaded at hload ⊢
    generalize (TemplateSet.load (.directory d' root') routed.types).value = loaded' at hload ⊢
    cases hload with
    | error he => exact .error (.template he)
    | ok ht => exact .ok ⟨rfl, rfl, ht, ht.validations_eq catalog _, ht.render_eq ..⟩

/-! ## Conversions -/

namespace Conversion

structure ShowsSame (c c' : Conversion) : Prop where
  document_eq : c.document = c'.document
  missing_eq : c.compiled.missing = c'.compiled.missing
  validations_eq : c.compiled.validations = c'.compiled.validations

section

variable {disk disk' : Disk} {input input' : Path} {bytes : List UInt8}

theorem readBytes_alike (hname : input.fileName? = input'.fileName?) (hread : disk.read input = .ok bytes)
    (hread' : disk'.read input' = .ok bytes) :
    (Patch.readBytes disk input).value = .ok bytes ∧ (Patch.readBytes disk' input').value = .ok bytes ∨
      (Patch.readBytes disk input).value = .error (.format (.badExtension input)) ∧
        (Patch.readBytes disk' input').value = .error (.format (.badExtension input')) := by
  have hextension : Patch.isPatchPath input = Patch.isPatchPath input' := by
    unfold Patch.isPatchPath Path.hasExtension Path.extension?
    rw [hname]
  unfold Patch.readBytes
  rw [← hextension, hread, hread']
  cases Patch.isPatchPath input with
  | true => exact Or.inl ⟨rfl, rfl⟩
  | false => exact Or.inr ⟨rfl, rfl⟩

variable {d d' : Disk} {root root' : Path}

theorem prepare_alike (hname : input.fileName? = input'.fileName?) (hread : disk.read input = .ok bytes)
    (hread' : disk'.read input' = .ok bytes) (h : Template.SameTexts d d' root root') (catalog : Catalog)
    (o : DocumentOptions) :
    Alike ConversionError.SameButPath ShowsSame (prepare catalog disk input (.directory d root) o).value
      (prepare catalog disk' input' (.directory d' root') o).value := by
  unfold prepare
  simp only [Logged.value_bind]
  rcases readBytes_alike hname hread hread' with ⟨hok, hok'⟩ | ⟨herror, herror'⟩
  · rw [hok, hok']
    simp only [Logged.value_bind]
    cases (Patch.ofBytes catalog bytes).value with
    | error e => exact .error (.patch e)
    | ok p =>
      simp only [Logged.value_bind]
      have hcompiled := p.compile_alike h catalog o
      generalize (p.compile catalog (.directory d root) o).value = compiled at hcompiled ⊢
      generalize (p.compile catalog (.directory d' root') o).value = compiled' at hcompiled ⊢
      cases hcompiled with
      | error he => exact .error he
      | ok hc =>
        refine .ok ⟨?_, hc.templates.missing_eq, hc.validations_eq⟩
        simp only [document, hname, hc.text_eq]
  · rw [herror, herror']
    exact .error (.badExtension ..)

/-- Two runs over the same patch, in files of one name, and over the same templates: both fail,
    with errors that differ at most in paths, or both give the same document, the same missing
    types and the same validations. -/
theorem conversion_does_not_show_places (hname : input.fileName? = input'.fileName?)
    (hread : disk.read input = .ok bytes) (hread' : disk'.read input' = .ok bytes)
    (hsame : Template.SameTexts d d' root root') (catalog : Catalog) (o : DocumentOptions) :
    (∃ e e', (prepare catalog disk input (.directory d root) o).value = .error e ∧
        (prepare catalog disk' input' (.directory d' root') o).value = .error e' ∧ e.SameButPath e') ∨
      ∃ c c', (prepare catalog disk input (.directory d root) o).value = .ok c ∧
        (prepare catalog disk' input' (.directory d' root') o).value = .ok c' ∧ c.document = c'.document ∧
        c.compiled.missing = c'.compiled.missing ∧ c.compiled.validations = c'.compiled.validations := by
  have halike := prepare_alike hname hread hread' hsame catalog o
  generalize (prepare catalog disk input (.directory d root) o).value = outcome at halike ⊢
  generalize (prepare catalog disk' input' (.directory d' root') o).value = outcome' at halike ⊢
  cases halike with
  | error he => exact Or.inl ⟨_, _, rfl, rfl, he⟩
  | ok hc => exact Or.inr ⟨_, _, rfl, rfl, hc.document_eq, hc.missing_eq, hc.validations_eq⟩

end

def mixerDisk (root : Path) : Disk := Template.diskOf root 7 ";@ args\n;@ ins a\n;@ outs a\n"

open Routing in
theorem conversion_does_not_show_places_bridgedMixers :
    Path.fileName? ⟨"left/mixers.pch2"⟩ = Path.fileName? ⟨"right/mixers.pch2"⟩ ∧
    (Disk.ofFile ⟨"left/mixers.pch2"⟩ bridgedMixersFile).read ⟨"left/mixers.pch2"⟩ = .ok bridgedMixersFile ∧
    (Disk.ofFile ⟨"right/mixers.pch2"⟩ bridgedMixersFile).read ⟨"right/mixers.pch2"⟩ = .ok bridgedMixersFile ∧
    Template.SameTexts (mixerDisk ⟨"left"⟩) (mixerDisk ⟨"right/templates/"⟩) ⟨"left"⟩ ⟨"right/templates/"⟩ ∧
    ∃ c c', (prepare mixers (.ofFile ⟨"left/mixers.pch2"⟩ bridgedMixersFile) ⟨"left/mixers.pch2"⟩
        (.directory (mixerDisk ⟨"left"⟩) ⟨"left"⟩) {}).value = .ok c ∧
      (prepare mixers (.ofFile ⟨"right/mixers.pch2"⟩ bridgedMixersFile) ⟨"right/mixers.pch2"⟩
        (.directory (mixerDisk ⟨"right/templates/"⟩) ⟨"right/templates/"⟩) {}).value = .ok c' ∧
      c.document = c'.document ∧ c.compiled.templates.size = 1 := by
  have hname : Path.fileName? ⟨"left/mixers.pch2"⟩ = Path.fileName? ⟨"right/mixers.pch2"⟩ := by decide
  have hread := Disk.read_ofFile ⟨"left/mixers.pch2"⟩ bridgedMixersFile
  have hread' := Disk.read_ofFile ⟨"right/mixers.pch2"⟩ bridgedMixersFile
  have hsame : Template.SameTexts (mixerDisk ⟨"left"⟩) (mixerDisk ⟨"right/templates/"⟩) ⟨"left"⟩ ⟨"right/templates/"⟩ :=
    Template.sameTexts_diskOf ⟨"left"⟩ ⟨"right/templates/"⟩ 7 _
  have hloaded : ((prepare mixers (.ofFile ⟨"left/mixers.pch2"⟩ bridgedMixersFile) ⟨"left/mixers.pch2"⟩
      (.directory (mixerDisk ⟨"left"⟩) ⟨"left"⟩) {}).value.toOption.map fun c => c.compiled.templates.size) =
      some 1 := by decide +kernel
  obtain ⟨c, hc, hsize⟩ := Option.map_eq_some_iff.1 hloaded
  have hc := eq_ok_of_toOption_eq_some hc
  rcases conversion_does_not_show_places hname hread hread' hsame mixers {} with
    ⟨e, -, he, -, -⟩ | ⟨d, d', hd, hd', hdocument, -, -⟩
  · cases hc.symm.trans he
  · obtain rfl : c = d := Except.ok.inj (hc.symm.trans hd)
    exact ⟨hname, hread, hread', hsame, c, d', hc, hd', hdocument, hsize⟩

end Conversion

end Patchbay
