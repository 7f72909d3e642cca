/-
  Patchbay.Proofs.CallLines — the calls of a document, read back from its text.

  The calls stand in one text with definitions that may hold anything, lines `instr 1` among it. No
  line after the calls is such a line, so they start behind the last one, and they end where the
  buses are cleared.
  - `parts_intercalate`, `readCall?_callChars`: one call.
  - `callLines_assembled`: the call lines of a document, whatever its definitions are.
  - `paramValues_patch`, `map_modules_patch`: modules and parameters as a file stores them.
  - `calls_read_back`: the calls of a compiled patch against its file.
-/

import Mathlib.Data.List.DropRight
import Patchbay.Proofs.DecodedPatch
import Patchbay.Report.PatchTables
import Patchbay.Text.Lines
import Patchbay.Text.Numeral
import Patchbay.Text.Split

namespace Patchbay

theorem mapM_map_eq_some {α β γ : Type} {f : β → Option γ} {g : α → β} {h : α → γ}
    (hfg : ∀ a, f (g a) = some (h a)) (l : List α) : (l.map g).mapM f = some (l.map h) := by
  induction l with
  | nil => rfl
  | cons a l ih =>
    rw [List.map_cons, List.mapM_cons, hfg, ih]
    rfl

namespace Document

/-! ## Reading calls -/

/-- The parts of a text that a comma and a blank set apart. -/
def parts : List Char → List (List Char)
  | [] => [[]]
  | ',' :: ' ' :: cs => [] :: parts cs
  | c :: cs =>
    match parts cs with
    | [] => [[c]]
    | part :: rest => (c :: part) :: rest

/-- The number of a type and the arguments that a line passes to its opcode. -/
def readCall? : List Char → Option (Nat × List Nat)
  | 'M' :: 'o' :: 'd' :: cs => do
    let typeId ← Text.digits? (cs.takeWhile (· ≠ ' '))
    match cs.dropWhile (· ≠ ' ') with
    | [] => return (typeId, [])
    | _ :: cs => return (typeId, ← (parts cs).mapM Text.digits?)
  | _ => none

def instrLine : List Char := "instr 1".toList

theorem instrLine_eq : instrLine = ['i', 'n', 's', 't', 'r', ' ', '1'] := rfl

/-- The lines after the last line `instr 1`, up to the first that starts with `zacl`. -/
def callLines (text : String) : List (List Char) :=
  ((Text.lines text.toList).rtakeWhile (· ≠ instrLine)).takeWhile fun l => !"zacl".toList.isPrefixOf l

/-! ## Single calls -/

theorem parts_cons {c : Char} (hc : c ≠ ',') (cs : List Char) :
    parts (c :: cs) = match parts cs with
      | [] => [[c]]
      | part :: rest => (c :: part) :: rest := by
  rw [parts]
  exact fun _ h => absurd h hc

theorem parts_of_notMem {part : List Char} (h : ',' ∉ part) : parts part = [part] := by
  induction part with
  | nil => rfl
  | cons c cs ih =>
    have hc : c ≠ ',' := fun e => h (e ▸ List.mem_cons_self)
    rw [parts_cons hc, ih fun hm => h (List.mem_cons_of_mem _ hm)]

theorem parts_append {part : List Char} (h : ',' ∉ part) (rest : List Char) :
    parts (part ++ ',' :: ' ' :: rest) = part :: parts rest := by
  induction part with
  | nil => rfl
  | cons c cs ih =>
    have hc : c ≠ ',' := fun e => h (e ▸ List.mem_cons_self)
    rw [List.cons_append, parts_cons hc, ih fun hm => h (List.mem_cons_of_mem _ hm)]

/-- Parts without commas are set apart again. -/
theorem parts_intercalate {ps : List (List Char)} (hne : ps ≠ []) (h : ∀ part ∈ ps, ',' ∉ part) :
    parts ([',', ' '].intercalate ps) = ps := by
  induction ps with
  | nil => exact absurd rfl hne
  | cons part ps ih =>
    have hpart := h part List.mem_cons_self
    cases ps with
    | nil => rw [List.intercalate_singleton, parts_of_notMem hpart]
    | cons next ps =>
      have hrest := ih (List.cons_ne_nil _ _) fun q hq => h q (List.mem_cons_of_mem _ hq)
      rw [List.intercalate_cons_cons, List.append_assoc]
      exact (parts_append hpart _).trans (congrArg _ hrest)

def numeral (n : Nat) : List Char := (toString n).toList

theorem notMem_numeral {c : Char} (hc : c.isDigit = false) (n : Nat) : c ∉ numeral n := Text.notMem_toString hc n

def callChars (typeId : Nat) (arguments : List Nat) : List Char :=
  'M' :: 'o' :: 'd' :: numeral typeId ++
    if arguments = [] then [] else ' ' :: [',', ' '].intercalate (arguments.map numeral)

theorem toList_callOf (typeId : Nat) (arguments : List Nat) :
    (callOf typeId arguments).toList = callChars typeId arguments ++ ['\n'] := by
  have hname : (toString "Mod").toList = ['M', 'o', 'd'] := rfl
  unfold callOf callChars numeral
  split <;> simp [String.toList_intercalate, Function.comp_def, hname]

/-- The line of a call says which opcode is called and what is passed to it. -/
theorem readCall?_callChars (typeId : Nat) (arguments : List Nat) :
    readCall? (callChars typeId arguments) = some (typeId, arguments) := by
  have hdigits : ∀ c ∈ numeral typeId, decide (c ≠ ' ') = true :=
    fun c hc => decide_eq_true fun h => notMem_numeral (by decide) typeId (h ▸ hc)
  have htypeId : Text.digits? (numeral typeId) = some typeId := Text.digits?_toString typeId
  unfold callChars
  by_cases hnone : arguments = []
  · subst hnone
    rw [if_pos rfl, List.append_nil]
    simp only [readCall?, List.takeWhile_eq_self_iff.2 hdigits, List.dropWhile_eq_nil_iff.2 hdigits, htypeId]
    rfl
  · rw [if_neg hnone]
    have hcommas : ∀ part ∈ arguments.map numeral, ',' ∉ part := by
      intro part hpart
      obtain ⟨n, -, rfl⟩ := List.mem_map.1 hpart
      exact notMem_numeral (by decide) n
    have hparts := parts_intercalate (mt List.map_eq_nil_iff.1 hnone) hcommas
    have hnumbers : (arguments.map numeral).mapM Text.digits? = some arguments := by
      rw [mapM_map_eq_some (g := numeral) Text.digits?_toString, List.map_id']
    have hname : (numeral typeId ++ ' ' :: [',', ' '].intercalate (arguments.map numeral)).takeWhile (· ≠ ' ') =
        numeral typeId := by
      rw [List.takeWhile_append_of_pos hdigits]
      simp
    have hrest : (numeral typeId ++ ' ' :: [',', ' '].intercalate (arguments.map numeral)).dropWhile (· ≠ ' ') =
        ' ' :: [',', ' '].intercalate (arguments.map numeral) := by
      rw [List.dropWhile_append_of_pos hdigits]
      simp
    simp only [readCall?, List.cons_append, hname, hrest, htypeId, hparts, hnumbers]
    rfl

/-! ## Lines of a document -/

/-- A call has no line ends in it. -/
theorem notMem_callChars {c : Char} (hdigit : c.isDigit = false) (hc : c ∉ ['M', 'o', 'd', ',', ' ']) (typeId : Nat)
    (arguments : List Nat) : c ∉ callChars typeId arguments := by
  have hnumeral (n : Nat) : c ∉ numeral n := notMem_numeral hdigit n
  have hsep : c ∉ [',', ' '] := fun h => hc (List.mem_append_right ['M', 'o', 'd'] h)
  have hlist : c ∉ [',', ' '].intercalate (arguments.map numeral) := by
    refine Text.notMem_intercalate hsep fun part hpart => ?_
    obtain ⟨n, -, rfl⟩ := List.mem_map.1 hpart
    exact hnumeral n
  simp only [List.mem_cons, List.not_mem_nil, or_false, not_or] at hc
  unfold callChars
  split <;> simp [hc, hnumeral, hlist]

def closing (o : DocumentOptions) (space : Rate → Nat) : List (List Char) :=
  ["zacl 0, ".toList ++ numeral (space .audio - 1), "zkcl 0, ".toList ++ numeral (space .control - 1), "endin".toList,
    "</CsInstruments>".toList, "<CsScore>".toList, "i 1 0 ".toList ++ numeral o.duration, "</CsScore>".toList,
    "</CsoundSynthesizer>".toList]

theorem toList_closing (o : DocumentOptions) (space : Rate → Nat) :
    (s!"zacl 0, {space .audio - 1}\nzkcl 0, {space .control - 1}\n" ++ "endin\n</CsInstruments>\n<CsScore>\n" ++
      score o ++ "</CsScore>\n</CsoundSynthesizer>\n").toList = (closing o space).flatMap (· ++ ['\n']) := by
  have htext (s : String) : toString s = s := rfl
  simp [closing, score, numeral, htext]

theorem plain_closing (o : DocumentOptions) (space : Rate → Nat) :
    ∀ l ∈ closing o space, '\n' ∉ l ∧ '\r' ∉ l := by
  have hfeed (n : Nat) : '\n' ∉ numeral n := notMem_numeral (by decide) n
  have hreturn (n : Nat) : '\r' ∉ numeral n := notMem_numeral (by decide) n
  simp [closing, hfeed, hreturn]

theorem ne_of_mem_closing (o : DocumentOptions) (space : Rate → Nat) :
    ∀ l ∈ closing o space, l ≠ instrLine := by
  simp [closing, instrLine_eq]

theorem rtakeWhile_append_cons {α : Type} {p : α → Bool} {x : α} (hx : p x = false) {bs : List α}
    (hbs : ∀ b ∈ bs, p b = true) (as : List α) : (as ++ x :: bs).rtakeWhile p = bs := by
  have hrev : ∀ b ∈ bs.reverse, p b = true := fun b hb => hbs b (List.mem_reverse.1 hb)
  rw [List.rtakeWhile, List.reverse_append, List.reverse_cons, List.append_assoc, List.takeWhile_append_of_pos hrev]
  simp [hx]

def EndsLine (s : String) : Prop := ∃ cs, s.toList = cs ++ ['\n']

theorem EndsLine.append (s : String) {t : String} (h : EndsLine t) : EndsLine (s ++ t) := by
  obtain ⟨cs, hcs⟩ := h
  exact ⟨s.toList ++ cs, by rw [String.toList_append, hcs, List.append_assoc]⟩

theorem EndsLine.append_join {s : String} (hs : EndsLine s) {ts : List String} (h : ∀ t ∈ ts, EndsLine t) :
    EndsLine (s ++ String.join ts) := by
  induction ts generalizing s with
  | nil => simpa using hs
  | cons t ts ih =>
    rw [String.join_cons, ← String.append_assoc]
    exact ih ((h t List.mem_cons_self).append s) fun u hu => h u (List.mem_cons_of_mem _ hu)

/-- The text of a document: what stands before the calls, and all lines from there on. -/
theorem exists_toList_assembled (o : DocumentOptions) (space : Rate → Nat) {definitions : List String}
    (h : ∀ d ∈ definitions, EndsLine d) (calls : List (Nat × List Nat)) :
    ∃ before, (assembled o space definitions (calls.map fun c => callOf c.1 c.2)).toList =
      before ++ '\n' :: (instrLine :: calls.map (fun c => callChars c.1 c.2) ++ closing o space).flatMap
        (· ++ ['\n']) := by
  have hend : EndsLine (toString "\n\n") := ⟨['\n'], rfl⟩
  have hopening : EndsLine ("<CsoundSynthesizer>\n<CsInstruments>\n" ++ settings o ++
      s!"zakinit {space .audio}, {space .control}\n\n") := (hend.append _).append _
  obtain ⟨before, hbefore⟩ := hopening.append_join h
  refine ⟨before, ?_⟩
  have hassoc (a b c d e f g h i j : String) : a ++ b ++ c ++ d ++ e ++ f ++ g ++ h ++ i ++ j =
      (a ++ b ++ c ++ d) ++ (e ++ (f ++ (g ++ h ++ i ++ j))) := by
    simp only [String.append_assoc]
  have hcalls : (String.join (calls.map fun c => callOf c.1 c.2)).toList =
      (calls.map fun c => callChars c.1 c.2).flatMap (· ++ ['\n']) := by
    rw [String.toList_join, List.flatMap_map, List.flatMap_map]
    exact List.flatMap_congr fun c _ => toList_callOf c.1 c.2
  have hstart : "instr 1\n".toList = instrLine ++ ['\n'] := rfl
  have hlines : (instrLine :: calls.map (fun c => callChars c.1 c.2) ++ closing o space).flatMap (· ++ ['\n']) =
      instrLine ++ ['\n'] ++ ((calls.map fun c => callChars c.1 c.2).flatMap (· ++ ['\n']) ++
        (closing o space).flatMap (· ++ ['\n'])) := by
    rw [List.flatMap_append, List.flatMap_cons, List.append_assoc]
  unfold assembled
  rw [hlines, hassoc, String.toList_append, hbefore, String.toList_append, String.toList_append, hcalls,
    toList_closing, hstart, List.append_assoc, List.singleton_append]

/-- The calls of a document are its call lines, whatever its definitions are and whatever stands before it. -/
theorem callLines_assembled (comments : String) (o : DocumentOptions) (space : Rate → Nat) {definitions : List String}
    (h : ∀ d ∈ definitions, EndsLine d) (calls : List (Nat × List Nat)) :
    callLines (comments ++ assembled o space definitions (calls.map fun c => callOf c.1 c.2)) =
      calls.map fun c => callChars c.1 c.2 := by
  obtain ⟨before, hbefore⟩ := exists_toList_assembled o space h calls
  have hplain : ∀ l ∈ instrLine :: calls.map (fun c => callChars c.1 c.2) ++ closing o space,
      '\n' ∉ l ∧ '\r' ∉ l := by
    intro l hl
    rw [List.cons_append, List.mem_cons, List.mem_append] at hl
    rcases hl with rfl | hl | hl
    · decide
    · obtain ⟨c, -, rfl⟩ := List.mem_map.1 hl
      exact ⟨notMem_callChars (by decide) (by decide) _ _, notMem_callChars (by decide) (by decide) _ _⟩
    · exact plain_closing o space l hl
  have hother : ∀ l ∈ calls.map (fun c => callChars c.1 c.2) ++ closing o space,
      decide (l ≠ instrLine) = true := by
    intro l hl
    refine decide_eq_true ?_
    rcases List.mem_append.1 hl with hl | hl
    · obtain ⟨c, -, rfl⟩ := List.mem_map.1 hl
      simp [callChars, instrLine_eq]
    · exact ne_of_mem_closing o space l hl
  have hcalls : ∀ l ∈ calls.map (fun c => callChars c.1 c.2), (!"zacl".toList.isPrefixOf l) = true := by
    intro l hl
    obtain ⟨c, -, rfl⟩ := List.mem_map.1 hl
    rfl
  have hended : ∀ l ∈ instrLine :: calls.map (fun c => callChars c.1 c.2) ++ closing o space,
      '\n' ∉ l ∧ l.getLast? ≠ some '\r' :=
    fun l hl => ⟨(hplain l hl).1, fun h => (hplain l hl).2 (List.mem_of_getLast? h)⟩
  have hclosing : (closing o space).takeWhile (fun l => !"zacl".toList.isPrefixOf l) = [] := rfl
  have hinstr : decide (instrLine ≠ instrLine) = false := decide_eq_false fun h => h rfl
  rw [callLines, String.toList_append, hbefore, ← List.append_assoc, Text.lines_append_feed,
    Text.lines_flatMap hended, List.cons_append,
    rtakeWhile_append_cons (p := fun l => decide (l ≠ instrLine)) hinstr hother,
    List.takeWhile_append_of_pos hcalls, hclosing, List.append_nil]

theorem endsLine_definition (templates : TemplateSet) (u : UsedType) : EndsLine (definition templates u) :=
  .append _ ⟨[], rfl⟩

end Document

namespace Container

/-! ## Stored parameters -/

structure StoredParameters where
  area : Area
  moduleId : Nat
  declared : Nat
  variations : List (List Nat)
  deriving DecidableEq, Repr

def StoredParameters.block? (s : StoredParameters) : Option ParameterBlock :=
  s.variations.head?.map fun values => ⟨s.area, s.moduleId, s.declared, values⟩

def Content.storedParameters : Content → List StoredParameters
  | .parameters area _ entries => entries.1.map fun e =>
    ⟨area, e.moduleId.toNat, e.declared.toNat, e.stored.map fun v => v.values.map BitVec.toNat⟩
  | _ => []

def Content.declaredModules : Content → List (Area × Nat × Nat)
  | .modules area entries => entries.1.map fun e => (area, e.typeId.toNat, e.id.toNat)
  | _ => []

namespace File

def storedParameters (f : File) : List StoredParameters := f.sections.flatMap fun s => s.content.storedParameters

def declaredModules (f : File) : List (Area × Nat × Nat) := f.sections.flatMap fun s => s.content.declaredModules

/-- The values of the first variation that a file stores for a module, none if it stores no variation. -/
def firstValues (f : File) (area : Area) (id : Nat) : List Nat :=
  match f.storedParameters.find? fun s => s.area == area && s.moduleId == id && !s.variations.isEmpty with
  | some s => s.variations.headD []
  | none => []

theorem filterMap_block?_storedParameters (catalog : Catalog) (f : File) :
    f.storedParameters.filterMap StoredParameters.block? = (f.patch catalog).params := by
  unfold storedParameters File.patch
  rw [List.filterMap_flatMap]
  refine List.flatMap_congr fun s _ => ?_
  obtain ⟨content, payload, hlen, hspelled⟩ := s
  cases content with
  | parameters area variations entries =>
    show (entries.1.map _).filterMap _ = (entries.1.filterMap _).map _
    rw [List.filterMap_map, List.map_filterMap]
    refine List.filterMap_congr fun e _ => ?_
    simp only [Function.comp_apply, StoredParameters.block?, ParameterEntry.block?, List.head?_map, Option.map_map]
    rfl
  | _ => rfl

/-- A module has the first values that its file stores for it. -/
theorem paramValues_patch (catalog : Catalog) (f : File) (area : Area) (id : Nat) :
    (f.patch catalog).paramValues area id = f.firstValues area id := by
  unfold Patch.paramValues Patch.findParams? firstValues
  have hkept (s : StoredParameters) : (s.block?.any fun b => b.moduleId == id && b.area == area) =
      (s.area == area && s.moduleId == id && !s.variations.isEmpty) := by
    unfold StoredParameters.block?
    cases s.variations with
    | nil => simp
    | cons values rest => simp [Bool.and_comm]
  rw [← filterMap_block?_storedParameters, List.find?_filterMap]
  simp only [hkept]
  cases hfind : f.storedParameters.find? fun s => s.area == area && s.moduleId == id && !s.variations.isEmpty with
  | none => rfl
  | some s =>
    rw [Option.bind_some, StoredParameters.block?]
    cases hvariations : s.variations with
    | nil => simp [hvariations]
    | cons values rest => simp [hvariations]

theorem map_modules_patch (catalog : Catalog) (f : File) :
    (f.patch catalog).modules.map (fun m => (m.area, m.typeId, m.id)) = f.declaredModules := by
  unfold declaredModules File.patch
  rw [List.map_flatMap]
  refine List.flatMap_congr fun s _ => ?_
  obtain ⟨content, payload, hlen, hspelled⟩ := s
  cases content with
  | modules area entries =>
    show ((entries.1.map _).map _).map _ = entries.1.map _
    rw [List.map_map, List.map_map]
    refine List.map_congr_left fun e _ => ?_
    simp only [Function.comp_apply, PatchModule.area_place, PatchModule.typeId_place, PatchModule.id_place]
    rfl
  | _ => rfl

end File

end Container

open Document in
/-- Every call of a document is read back from its text, whatever comments stand before it. There is
    one line for each module that the file declares, in its order, and it passes the values of the
    first variation that the file stores for the module, which the report shows too, then the buses
    of its inlets and outlets. -/
theorem calls_read_back {catalog : Catalog} {bytes : List UInt8} {p : Patch} {source : Template.Source}
    {o : DocumentOptions} {c : Compiled} (hp : (Patch.ofBytes catalog bytes).value = .ok p)
    (hc : (p.compile catalog source o).value = .ok c) :
    (∃ f : Container.File, f.bytes = bytes) ∧
    ∀ f : Container.File, f.bytes = bytes →
      c.patch.modules.map (fun m => (m.area, m.typeId, m.id)) = f.declaredModules ∧
      (∀ comments, (callLines (comments ++ c.text)).mapM readCall? = some (c.patch.modules.map fun m =>
        (m.typeId, f.firstValues m.area m.id ++ m.inletBuses ++ m.outletBuses))) ∧
      (Report.moduleRows p).map Report.ModuleRow.params = p.modules.map (fun m => f.firstValues m.area m.id) ∧
      (Report.moduleRows c.patch).map Report.ModuleRow.params =
        c.patch.modules.map fun m => f.firstValues m.area m.id := by
  obtain ⟨h⟩ := Patch.exists_compilation hc
  refine ⟨Container.exists_file_of_ofBytes hp, fun f hf => ?_⟩
  subst hf
  obtain rfl : f.patch catalog = p := Except.ok.inj ((f.ofBytes_file catalog).symm.trans hp)
  have hkeys : c.patch.modules.map (fun m => (m.area, m.typeId, m.id)) = f.declaredModules := by
    rw [← f.map_modules_patch catalog]
    have hmap := congrArg (List.map fun m => (m.area, m.typeId, m.id)) (Patch.map_withoutBuses_eq h.withoutBuses_eq)
    rw [List.map_map, List.map_map] at hmap
    exact hmap
  have hparams (area : Area) (id : Nat) : c.patch.paramValues area id = f.firstValues area id :=
    (Patch.paramValues_of_withoutBuses h.withoutBuses_eq area id).trans (f.paramValues_patch catalog area id)
  have hdefinitions : ∀ d ∈ c.types.map (definition c.templates), EndsLine d := by
    intro d hd
    obtain ⟨u, -, rfl⟩ := List.mem_map.1 hd
    exact endsLine_definition c.templates u
  have hlines (comments : String) : callLines (comments ++ c.text) = (c.patch.modules.map fun m =>
      (m.typeId, f.firstValues m.area m.id ++ m.inletBuses ++ m.outletBuses)).map fun call =>
        callChars call.1 call.2 := by
    rw [h.text_eq, render_eq_assembled,
      ← callLines_assembled comments o h.routed.counter.spaceSize hdefinitions, List.map_map]
    simp only [hparams]
    rfl
  refine ⟨hkeys, fun comments => ?_, ?_, ?_⟩
  · rw [hlines, mapM_map_eq_some (h := id) fun call => readCall?_callChars call.1 call.2, List.map_id]
  · rw [Report.moduleRows, List.map_map]
    exact List.map_congr_left fun m _ => f.paramValues_patch catalog m.area m.id
  · rw [Report.moduleRows, List.map_map]
    exact List.map_congr_left fun m _ => hparams m.area m.id

open Container Document in
theorem calls_read_back_sampleFile :
    (Patch.ofBytes sampleCatalog sampleFile.bytes).value = .ok (sampleFile.patch sampleCatalog) ∧
    ∃ c, ((sampleFile.patch sampleCatalog).compile sampleCatalog (.texts []) {}).value = .ok c ∧
      (callLines ("; a comment\n" ++ c.text)).mapM readCall? = some [(7, [64, 127, 0, 1]), (9, [])] ∧
      (Report.moduleRows c.patch).map Report.ModuleRow.params = [[64, 127], []] := by
  have hbytes := sampleFile.ofBytes_file sampleCatalog
  have hsome : ((sampleFile.patch sampleCatalog).compile sampleCatalog (.texts []) {}).value.toOption.map
      (fun c => c.patch.modules) = some [.place sampleCatalog .voice 7 1, .place sampleCatalog .voice 9 2] := by
    decide +kernel
  obtain ⟨c, hc, hmodules⟩ := Option.map_eq_some_iff.1 hsome
  have hc := eq_ok_of_toOption_eq_some hc
  obtain ⟨-, hread⟩ := calls_read_back hbytes hc
  obtain ⟨-, hcalls, -, hparams⟩ := hread sampleFile rfl
  simp only [hmodules] at hcalls hparams
  exact ⟨hbytes, c, hc, hcalls _, hparams⟩

end Patchbay
