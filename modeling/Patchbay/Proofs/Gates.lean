/-
  Patchbay.Proofs.Gates — a run that converts writes its document whole or leaves the tree as
  it is.

  A `Course` is what such a run meets, up to the first thing that ends it, with the exit code
  and the tree that come of it, by the flags it was given:
  - `missing_eq_nil_iff`, `hasInvalid_eq_false_iff`: the gates, by what the source gives.
  - `result_of_course`, `exists_course`: a run takes the one course that is open to it.
  - `convertFile_of_prepared`: converting the file by itself writes the same.
  - `convert_writes_whole_or_nothing`: the exit codes, and the tree after the run.
-/

import Patchbay.Command.Run
import Patchbay.Container.Builder
import Patchbay.Proofs.Compilation
import Patchbay.Proofs.Writing

namespace Patchbay

/-! ## Templates of a patch -/

namespace Compilation

variable {catalog : Catalog} {source : Template.Source} {o : DocumentOptions} {p : Patch} {c : Compiled}

theorem get?_eq_given? (h : Compilation catalog source o p c) {m : PatchModule} (hm : m ∈ c.patch.modules) :
    c.templates.get? m.typeId = source.given? m.typeId := by
  obtain ⟨u, hu, hum⟩ := Patch.exists_usedType_of_mem hm
  rw [← h.usedTypes_eq, h.types_eq] at hu
  rw [TemplateSet.get?_of_load h.load_eq, if_pos]
  rw [← hum]
  exact List.mem_map_of_mem hu

/-- What is said of the templates of all types is said of those of all modules. -/
theorem forall_types_iff (h : Compilation catalog source o p c) {P : Option Template → Prop} :
    (∀ u ∈ c.types, P (c.templates.get? u.typeId)) ↔ ∀ m ∈ c.patch.modules, P (source.given? m.typeId) := by
  constructor
  · intro hall m hm
    obtain ⟨u, hu, hum⟩ := Patch.exists_usedType_of_mem hm
    rw [← h.get?_eq_given? hm, ← hum]
    exact hall u (h.usedTypes_eq ▸ hu)
  · intro hall u hu
    obtain ⟨m, hm, rfl⟩ := Patch.exists_module_of_mem_usedTypes (h.usedTypes_eq ▸ hu)
    rw [h.get?_eq_given? hm]
    exact hall m hm

theorem missing_eq_nil_iff (h : Compilation catalog source o p c) :
    c.missing = [] ↔ ∀ m ∈ c.patch.modules, ∃ t, source.given? m.typeId = some t := by
  unfold Compiled.missing
  rw [TemplateSet.missing_eq_nil_of_load h.load_eq, ← h.types_eq]
  exact h.forall_types_iff (P := fun given => ∃ t, given = some t)

theorem hasInvalid_eq_false_iff (h : Compilation catalog source o p c) :
    c.hasInvalid = false ↔
      ∀ m ∈ c.patch.modules, ∀ t, source.given? m.typeId = some t → (t.validate catalog).mismatches = [] := by
  have hall : c.hasInvalid = false ↔ ∀ v ∈ c.validations, v.mismatches = [] := by
    simp [Compiled.hasInvalid, Compiled.invalid, Validation.isValid]
  have hvalid : (∀ v ∈ c.validations, v.mismatches = []) ↔
      ∀ u ∈ c.types, ∀ t, c.templates.get? u.typeId = some t → (t.validate catalog).mismatches = [] := by
    constructor
    · intro hv u hu t ht
      exact hv _ (h.mem_validations_iff.2 ⟨u, hu, t, ht, rfl⟩)
    · intro ht v hv
      obtain ⟨u, hu, t, hget, rfl⟩ := h.mem_validations_iff.1 hv
      exact ht u hu t hget
  rw [hall, hvalid]
  exact h.forall_types_iff (P := fun given => ∀ t, given = some t → (t.validate catalog).mismatches = [])

end Compilation

theorem Conversion.exists_compilation {catalog : Catalog} {disk : Disk} {input : Path} {source : Template.Source}
    {o : DocumentOptions} {c : Conversion} (h : (prepare catalog disk input source o).value = .ok c) :
    c.input = input ∧ ∃ p, Nonempty (Compilation catalog source o p c.compiled) := by
  unfold prepare at h
  simp only [Logged.value_bind] at h
  cases hread : (Patch.readBytes disk input).value with
  | error e => simp only [hread] at h; cases h
  | ok bytes =>
    cases hp : (Patch.ofBytes catalog bytes).value with
    | error e => simp only [hread, Logged.value_bind, hp] at h; cases h
    | ok p =>
      cases hc : (p.compile catalog source o).value with
      | error e => simp only [hread, Logged.value_bind, hp, hc] at h; cases h
      | ok compiled =>
        simp only [hread, Logged.value_bind, hp, hc] at h
        cases h
        exact ⟨rfl, p, Patch.exists_compilation hc⟩

namespace Command

/-! ## Results of runs -/

theorem Outcome.code_note (before : List Notice) (o : Outcome) : (o.note before).code = o.code := rfl

theorem Outcome.code_shown (verbose : Bool) (o : Outcome) : (o.shown verbose).code = o.code := rfl

namespace Run

def result (tree : FileTree) (r : Run) : Nat × FileTree := ((r.onTree tree).1.code, (r.onTree tree).2)

variable {tree : FileTree}

/-- What is added to an outcome does not touch the result. -/
theorem result_mapOutcome {f : Outcome → Outcome} (hf : ∀ o, (f o).code = o.code) (r : Run) :
    (r.mapOutcome f).result tree = r.result tree := by
  unfold result
  cases r with
  | finished o => simp only [mapOutcome, onTree, hf]
  | write path text after =>
    cases hw : tree.write path text.toUTF8.toList with
    | ok t => simp only [mapOutcome, onTree, hw, hf]
    | error fault => simp only [mapOutcome, onTree, hw, hf]

theorem result_logged (l : Logged Run) : (logged l).result tree = l.value.result tree :=
  result_mapOutcome (Outcome.code_note _) _

end Run

/-! ## Courses -/

def target (o : Options) (input : Path) : Path := o.output.getD ⟨input.text ++ ".csd"⟩

/-- Nothing forbids the document of a converted file: each type has a template, or need not
    have one, and all templates are valid, or need not be. -/
structure Released (catalog : Catalog) (source : Template.Source) (o : Options) (c : Conversion) : Prop where
  complete : (∀ m ∈ c.compiled.patch.modules, ∃ t, source.given? m.typeId = some t) ∨ o.allowUnimplemented = true
  valid : (∀ m ∈ c.compiled.patch.modules, ∀ t, source.given? m.typeId = some t →
    (t.validate catalog).mismatches = []) ∨ o.strict = false

/-- The catalog that a run goes by: the file that is named, else the built-in one. -/
def UsesCatalog (disk : Disk) (o : Options) (catalog : Catalog) : Prop :=
  (o.catalog = none ∧ catalog = .builtin) ∨ ∃ path, o.catalog = some path ∧ Catalog.load disk path = .ok catalog

theorem usesCatalog_iff {disk : Disk} {o : Options} {catalog : Catalog} :
    UsesCatalog disk o catalog ↔ catalogOf disk o = .ok catalog := by
  unfold UsesCatalog catalogOf
  cases o.catalog with
  | none => simp [eq_comm]
  | some path => simp

theorem catalogOf_eq_error_iff {disk : Disk} {o : Options} {e : CatalogError} :
    catalogOf disk o = .error e ↔ ∃ path, o.catalog = some path ∧ Catalog.load disk path = .error e := by
  unfold catalogOf
  cases o.catalog with
  | none => simp
  | some path => simp

/-- A run has a catalog and an input that it can convert. The templates are in the directory that is
    named, else in that of the program's own; the four numbers are for the document. -/
structure Prepared (tree : FileTree) (shipped : Path) (o : Options) (catalog : Catalog) (input : Path)
    (c : Conversion) : Prop where
  catalog_eq : UsesCatalog tree.disk o catalog
  argument_eq : o.argument = some input.text
  prepare_eq : (Conversion.prepare catalog tree.disk input (.directory tree.disk (o.templates.getD shipped))
    ⟨o.sampleRate, o.ksmps, o.nchnls, o.duration⟩).value = .ok c

/-- What a run that converts meets, with its exit code and the tree after it. -/
inductive Course (tree : FileTree) (shipped : Path) (o : Options) : Nat × FileTree → Prop
  | noCatalog {path : Path} {e : CatalogError} : o.catalog = some path → Catalog.load tree.disk path = .error e →
      Course tree shipped o (2, tree)
  | noArgument {catalog : Catalog} : UsesCatalog tree.disk o catalog → o.argument = none →
      Course tree shipped o (2, tree)
  | unprepared {catalog : Catalog} {input : Path} {e : ConversionError} : UsesCatalog tree.disk o catalog →
      o.argument = some input.text →
      (Conversion.prepare catalog tree.disk input (.directory tree.disk (o.templates.getD shipped))
        ⟨o.sampleRate, o.ksmps, o.nchnls, o.duration⟩).value = .error e →
      Course tree shipped o (if e.isIo then 2 else 1, tree)
  | held {catalog : Catalog} {input : Path} {c : Conversion} : Prepared tree shipped o catalog input c →
      ¬Released catalog (.directory tree.disk (o.templates.getD shipped)) o c → Course tree shipped o (1, tree)
  | unwritten {catalog : Catalog} {input : Path} {c : Conversion} {fault : IoFault} :
      Prepared tree shipped o catalog input c →
      Released catalog (.directory tree.disk (o.templates.getD shipped)) o c →
      tree.write (target o input) c.document.toUTF8.toList = .error fault → Course tree shipped o (2, tree)
  | written {catalog : Catalog} {input : Path} {c : Conversion} {after : FileTree} :
      Prepared tree shipped o catalog input c →
      Released catalog (.directory tree.disk (o.templates.getD shipped)) o c →
      tree.write (target o input) c.document.toUTF8.toList = .ok after → Course tree shipped o (0, after)

section

variable {tree : FileTree} {shipped : Path} {o : Options} {catalog : Catalog} {input : Path}

section

variable {source : Template.Source} {disk : Disk} {d : DocumentOptions} {c : Conversion}
  (h : (Conversion.prepare catalog disk input source d).value = .ok c)

include h

theorem released_iff : Released catalog source o c ↔
    ¬(!c.compiled.missing.isEmpty && !o.allowUnimplemented) ∧ ¬(c.compiled.hasInvalid && o.strict) := by
  obtain ⟨-, p, ⟨hc⟩⟩ := Conversion.exists_compilation h
  have hcomplete : ¬(!c.compiled.missing.isEmpty && !o.allowUnimplemented) ↔
      c.compiled.missing = [] ∨ o.allowUnimplemented = true := by
    rw [Bool.not_eq_true, Bool.and_eq_false_iff, Bool.not_eq_false', Bool.not_eq_false', List.isEmpty_iff]
  have hvalid : ¬(c.compiled.hasInvalid && o.strict) ↔ c.compiled.hasInvalid = false ∨ o.strict = false := by
    rw [Bool.not_eq_true, Bool.and_eq_false_iff]
  rw [hcomplete, hvalid, hc.missing_eq_nil_iff, hc.hasInvalid_eq_false_iff]
  exact ⟨fun h => ⟨h.complete, h.valid⟩, fun h => ⟨h.1, h.2⟩⟩

theorem result_release_of_released (hr : Released catalog source o c) :
    (release o c).result tree = match tree.write (target o input) c.document.toUTF8.toList with
      | .ok after => (0, after)
      | .error _ => (2, tree) := by
  obtain ⟨hcomplete, hvalid⟩ := (released_iff h).1 hr
  have hwrite : (release o c).result tree = (writeDocument c (target o input)).result tree := by
    unfold release
    rw [if_neg hcomplete, if_neg hvalid, (Conversion.exists_compilation h).1]
    refine Run.result_mapOutcome ?_ _
    intro done
    rfl
  rw [hwrite]
  cases hw : tree.write (target o input) c.document.toUTF8.toList with
  | ok after => simp only [writeDocument, Run.result, Run.onTree, hw]
  | error fault => simp only [writeDocument, Run.result, Run.onTree, hw, Outcome.fail]

theorem result_release_of_held (hr : ¬Released catalog source o c) : (release o c).result tree = (1, tree) := by
  unfold release
  split
  · rfl
  next hcomplete =>
  split
  · rfl
  next hvalid => exact absurd ((released_iff h).2 ⟨hcomplete, hvalid⟩) hr

end

variable {source : Template.Source}

theorem result_convert_of_ok {c : Conversion} (h : (Conversion.prepare catalog tree.disk input source
    ⟨o.sampleRate, o.ksmps, o.nchnls, o.duration⟩).value = .ok c) :
    (convert catalog tree.disk source o input).result tree = (release o c).result tree := by
  unfold convert documentOptions
  rw [Run.result_logged]
  simp only [Logged.value_bind, h, Logged.value_pure]
  exact Run.result_mapOutcome (Outcome.code_note _) _

theorem result_convert_of_error {e : ConversionError} (h : (Conversion.prepare catalog tree.disk input source
    ⟨o.sampleRate, o.ksmps, o.nchnls, o.duration⟩).value = .error e) :
    (convert catalog tree.disk source o input).result tree = (if e.isIo then 2 else 1, tree) := by
  unfold convert documentOptions
  rw [Run.result_logged]
  simp only [Logged.value_bind, h, Logged.value_pure]
  rfl

theorem result_run_of_error {e : CatalogError} (h : catalogOf tree.disk o = .error e) :
    (run tree.disk shipped o).result tree = (2, tree) := by
  unfold run
  rw [Run.result_mapOutcome (Outcome.code_shown _), h]
  rfl

theorem result_run_of_usesCatalog (h : UsesCatalog tree.disk o catalog) : (run tree.disk shipped o).result tree =
    (perform catalog tree.disk (.directory tree.disk (o.templates.getD shipped)) o).result tree := by
  unfold run
  rw [Run.result_mapOutcome (Outcome.code_shown _), usesCatalog_iff.1 h]
  exact Run.result_mapOutcome (Outcome.code_note _) _

theorem perform_eq (hemit : o.emit = .document) (hprint : o.print = false) (hcheck : o.check = false) :
    perform catalog tree.disk source o =
      Run.withArgument o "a patch file" fun a => convert catalog tree.disk source o ⟨a⟩ := by
  simp [perform, hemit, hprint, hcheck]

section

variable (hemit : o.emit = .document) (hprint : o.print = false) (hcheck : o.check = false)

include hemit hprint hcheck

theorem result_run_of_argument (h : UsesCatalog tree.disk o catalog) (ha : o.argument = some input.text) :
    (run tree.disk shipped o).result tree =
      (convert catalog tree.disk (.directory tree.disk (o.templates.getD shipped)) o input).result tree := by
  rw [result_run_of_usesCatalog h, perform_eq hemit hprint hcheck]
  simp only [Run.withArgument, ha]

/-- A run has the result of its course. -/
theorem result_of_course {r : Nat × FileTree} (h : Course tree shipped o r) :
    (run tree.disk shipped o).result tree = r := by
  cases h with
  | noCatalog h he => exact result_run_of_error (catalogOf_eq_error_iff.2 ⟨_, h, he⟩)
  | noArgument h ha =>
    rw [result_run_of_usesCatalog h, perform_eq hemit hprint hcheck]
    simp only [Run.withArgument, ha]
    rfl
  | unprepared h ha hp => rw [result_run_of_argument hemit hprint hcheck h ha, result_convert_of_error hp]
  | held h hr =>
    rw [result_run_of_argument hemit hprint hcheck h.catalog_eq h.argument_eq, result_convert_of_ok h.prepare_eq,
      result_release_of_held h.prepare_eq hr]
  | unwritten h hr hw | written h hr hw =>
    rw [result_run_of_argument hemit hprint hcheck h.catalog_eq h.argument_eq, result_convert_of_ok h.prepare_eq,
      result_release_of_released h.prepare_eq hr, hw]

end

/-- Some course is open to a run. -/
theorem exists_course (tree : FileTree) (shipped : Path) (o : Options) : ∃ r, Course tree shipped o r := by
  cases hcatalog : catalogOf tree.disk o with
  | error e =>
    obtain ⟨path, h, he⟩ := catalogOf_eq_error_iff.1 hcatalog
    exact ⟨_, .noCatalog h he⟩
  | ok catalog =>
    have huses := usesCatalog_iff.2 hcatalog
    cases hargument : o.argument with
    | none => exact ⟨_, .noArgument huses hargument⟩
    | some a =>
      cases hprepare : (Conversion.prepare catalog tree.disk ⟨a⟩ (.directory tree.disk (o.templates.getD shipped))
          ⟨o.sampleRate, o.ksmps, o.nchnls, o.duration⟩).value with
      | error e => exact ⟨_, .unprepared huses hargument hprepare⟩
      | ok c =>
        have h : Prepared tree shipped o catalog ⟨a⟩ c := ⟨huses, hargument, hprepare⟩
        by_cases hr : Released catalog (.directory tree.disk (o.templates.getD shipped)) o c
        · cases hwrite : tree.write (target o ⟨a⟩) c.document.toUTF8.toList with
          | error fault => exact ⟨_, .unwritten h hr hwrite⟩
          | ok after => exact ⟨_, .written h hr hwrite⟩
        · exact ⟨_, .held h hr⟩

theorem Course.written_of_zero {code : Nat} {after : FileTree} (h : Course tree shipped o (code, after))
    (hcode : code = 0) : ∃ catalog input c, Prepared tree shipped o catalog input c ∧
      Released catalog (.directory tree.disk (o.templates.getD shipped)) o c ∧
      tree.write (target o input) c.document.toUTF8.toList = .ok after := by
  cases h with
  | unprepared => split at hcode <;> cases hcode
  | written h hr hw => exact ⟨_, _, _, h, hr, hw⟩
  | _ => cases hcode

/-- Converting the input by itself writes the same document to the same place. -/
theorem convertFile_of_prepared {c : Conversion} (h : Prepared tree shipped o catalog input c) {after : FileTree}
    (hw : tree.write (target o input) c.document.toUTF8.toList = .ok after) :
    (Conversion.convertFile catalog tree input (.directory tree.disk (o.templates.getD shipped))
      ⟨o.sampleRate, o.ksmps, o.nchnls, o.duration⟩ o.output).value = .ok (after, target o input) := by
  have hwrite : (c.write tree (o.output.getD (Conversion.outputPath input))).value = .ok after := by
    unfold Conversion.write
    rw [show o.output.getD (Conversion.outputPath input) = target o input from rfl, hw]
  unfold Conversion.convertFile
  simp only [Logged.value_bind, h.prepare_eq, hwrite, Logged.value_pure]
  rfl

/-- A run that converts exits with 0 iff there is a catalog and an input that can be converted,
    nothing forbids the document, and it can be written; with 2 iff the catalog, the argument,
    the reading of a file or the writing fails, and with 1 otherwise. If it does not exit with 0
    the tree is as it was, and if it does, one file was written, as converting the input by
    itself writes it. -/
theorem convert_writes_whole_or_nothing {tree : FileTree} {shipped : Path} {o : Options} (hemit : o.emit = .document)
    (hprint : o.print = false) (hcheck : o.check = false) {code : Nat} {after : FileTree}
    (hrun : (run tree.disk shipped o).result tree = (code, after)) :
    (code = 0 ↔ ∃ catalog input c, Prepared tree shipped o catalog input c ∧
      Released catalog (.directory tree.disk (o.templates.getD shipped)) o c ∧
      ∃ written, tree.write (target o input) c.document.toUTF8.toList = .ok written) ∧
    (code = 2 ↔ (∃ path e, o.catalog = some path ∧ Catalog.load tree.disk path = .error e) ∨ o.argument = none ∨
      (∃ catalog a e, UsesCatalog tree.disk o catalog ∧ o.argument = some a ∧
        (Conversion.prepare catalog tree.disk ⟨a⟩ (.directory tree.disk (o.templates.getD shipped))
          ⟨o.sampleRate, o.ksmps, o.nchnls, o.duration⟩).value = .error e ∧ e.isIo = true) ∨
      ∃ catalog input c, Prepared tree shipped o catalog input c ∧
        Released catalog (.directory tree.disk (o.templates.getD shipped)) o c ∧
        ∃ fault, tree.write (target o input) c.document.toUTF8.toList = .error fault) ∧
    (code ≠ 0 → code ≠ 2 → code = 1) ∧
    (code ≠ 0 → after = tree) ∧
    (code = 0 → ∃ catalog input c, Prepared tree shipped o catalog input c ∧
      (Conversion.convertFile catalog tree input (.directory tree.disk (o.templates.getD shipped))
        ⟨o.sampleRate, o.ksmps, o.nchnls, o.duration⟩ o.output).value = .ok (after, target o input) ∧
      tree.Written (target o input) c.document.toUTF8.toList after) := by
  have hresult {r : Nat × FileTree} (h : Course tree shipped o r) : (code, after) = r :=
    hrun.symm.trans (result_of_course hemit hprint hcheck h)
  -- Cases on the course give what a code means; a course that is known gives the code.
  obtain ⟨r, hcourse⟩ := exists_course tree shipped o
  obtain rfl := hresult hcourse
  refine ⟨⟨fun hcode => ?_, fun hx => ?_⟩, ⟨fun hcode => ?_, fun hx => ?_⟩, fun hzero htwo => ?_, fun hcode => ?_,
    fun hcode => ?_⟩
  · obtain ⟨catalog, input, c, h, hr, hw⟩ := hcourse.written_of_zero hcode
    exact ⟨catalog, input, c, h, hr, after, hw⟩
  · obtain ⟨catalog, input, c, h, hr, written, hw⟩ := hx
    exact congrArg Prod.fst (hresult (.written h hr hw))
  · cases hcourse with
    | noCatalog h he => exact Or.inl ⟨_, _, h, he⟩
    | noArgument h ha => exact Or.inr (Or.inl ha)
    | unprepared h ha hp =>
      split at hcode
      · next hio => exact Or.inr (Or.inr (Or.inl ⟨_, _, _, h, ha, hp, hio⟩))
      · cases hcode
    | unwritten h hr hw => exact Or.inr (Or.inr (Or.inr ⟨_, _, _, h, hr, _, hw⟩))
    | _ => cases hcode
  · rcases hx with ⟨path, e, h, he⟩ | hargument | ⟨catalog, a, e, h, ha, hp, hio⟩ |
      ⟨catalog, input, c, h, hr, fault, hw⟩
    · exact congrArg Prod.fst (hresult (.noCatalog h he))
    · cases hcatalog : catalogOf tree.disk o with
      | error e =>
        obtain ⟨path, h, he⟩ := catalogOf_eq_error_iff.1 hcatalog
        exact congrArg Prod.fst (hresult (.noCatalog h he))
      | ok catalog => exact congrArg Prod.fst (hresult (.noArgument (usesCatalog_iff.2 hcatalog) hargument))
    · have := congrArg Prod.fst (hresult (@Course.unprepared tree shipped o catalog ⟨a⟩ e h ha hp))
      rw [if_pos hio] at this
      exact this
    · exact congrArg Prod.fst (hresult (.unwritten h hr hw))
  · cases hcourse with
    | unprepared =>
      split at htwo
      · exact absurd rfl htwo
      · next hio => exact if_neg hio
    | held => rfl
    | written => exact absurd rfl hzero
    | _ => exact absurd rfl htwo
  · cases hcourse with
    | written => exact absurd rfl hcode
    | _ => rfl
  · obtain ⟨catalog, input, c, h, hr, hw⟩ := hcourse.written_of_zero hcode
    exact ⟨catalog, input, c, h, convertFile_of_prepared h hw, FileTree.written_of_write hw⟩

end

def constantTree : FileTree where
  files := [(["constant.pch2"], Container.build [.modules .voice [(127, 1)]]),
    (["shipped", "127.txt"], ";@ args k k\n;@ ins\n;@ outs k\nkvalue, kbipolar, iOut xin\n".toUTF8.toList)]

theorem convert_writes_whole_or_nothing_constantTree : ∃ after document,
    (run constantTree.disk ⟨"shipped"⟩ { argument := some "constant.pch2" }).result constantTree = (0, after) ∧
      constantTree.Written ⟨"constant.pch2.csd"⟩ document after := by
  obtain ⟨code, after, hrun⟩ : ∃ code after,
      (run constantTree.disk ⟨"shipped"⟩ { argument := some "constant.pch2" }).result constantTree = (code, after) :=
    ⟨_, _, rfl⟩
  have hcode : ((run constantTree.disk ⟨"shipped"⟩ { argument := some "constant.pch2" }).result constantTree).1 = 0 := by
    decide +kernel
  obtain rfl : code = 0 := (congrArg Prod.fst hrun).symm.trans hcode
  obtain ⟨-, -, -, -, hwritten⟩ := convert_writes_whole_or_nothing rfl rfl rfl hrun
  obtain ⟨catalog, input, c, h, -, hdocument⟩ := hwritten rfl
  obtain rfl : input = ⟨"constant.pch2"⟩ := congrArg Path.mk (Option.some.inj h.argument_eq).symm
  exact ⟨after, _, hrun, hdocument⟩

end Command

end Patchbay
