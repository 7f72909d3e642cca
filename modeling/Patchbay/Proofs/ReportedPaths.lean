/-
  Patchbay.Proofs.ReportedPaths — which reports name the directory of the templates.

  A template that is there but cannot be loaded is reported with its path (`Faulty`), and that is
  the one way for a path to get into a check or the status page. Two directories with the same
  texts are compared as in `Patchbay.Proofs.Whereabouts`:
  - `shows_checkReport`, `shows_statusRow`: a text is the same for both, or has the path in one
    place if the template is faulty.
  - `eq_of_join_eq`: pages that agree do so row by row, if the rows of one are never the longer ones.
  - `reports_agree_iff`: the verdicts always agree; the texts agree if and only if the path of
    every faulty template is the same.
-/

import Patchbay.Proofs.TemplateChecks
import Patchbay.Proofs.Whereabouts

namespace Patchbay

/-! ## Texts with a path in them -/

/-- If `shown` holds, the texts are the same but for a path in one place; else they are the same. -/
inductive ShowsPath (p p' : Path) (shown : Prop) : String → String → Prop
  | path (start rest : String) : shown → ShowsPath p p' shown (start ++ p.text ++ rest) (start ++ p'.text ++ rest)
  | none (text : String) : ¬shown → ShowsPath p p' shown text text

namespace ShowsPath

variable {p p' : Path} {shown : Prop} {s s' : String}

theorem prepend (h : ShowsPath p p' shown s s') (text : String) :
    ShowsPath p p' shown (text ++ s) (text ++ s') := by
  cases h with
  | path start rest hshown =>
    simpa only [String.append_assoc] using @ShowsPath.path p p' shown (text ++ start) rest hshown
  | none _ hshown => exact .none _ hshown

theorem append (h : ShowsPath p p' shown s s') (text : String) :
    ShowsPath p p' shown (s ++ text) (s' ++ text) := by
  cases h with
  | path start rest hshown =>
    simpa only [String.append_assoc] using @ShowsPath.path p p' shown start (rest ++ text) hshown
  | none _ hshown => exact .none _ hshown

theorem eq_iff (h : ShowsPath p p' shown s s') : s = s' ↔ (shown → p = p') := by
  cases h with
  | path start rest hshown =>
    rw [String.append_left_inj, String.append_right_inj, ← Path.mk.injEq]
    exact ⟨fun heq _ => heq, fun heq => heq hshown⟩
  | none text hshown => exact iff_of_true rfl fun h => absurd h hshown

theorem length_le (h : ShowsPath p p' shown s s') (hle : p.text.length ≤ p'.text.length) : s.length ≤ s'.length := by
  cases h with
  | path start rest => simp only [String.length_append]; omega
  | none => exact le_rfl

theorem symm (h : ShowsPath p p' shown s s') : ShowsPath p' p shown s' s := by
  cases h with
  | path start rest hshown => exact .path start rest hshown
  | none _ hshown => exact .none _ hshown

end ShowsPath

theorem length_join_le {rows rows' : List String}
    (hle : List.Forall₂ (fun s s' => s.length ≤ s'.length) rows rows') :
    (String.join rows).length ≤ (String.join rows').length := by
  induction hle with
  | nil => exact le_rfl
  | cons hrow _ ih =>
    rw [String.join_cons, String.join_cons, String.length_append, String.length_append]
    exact Nat.add_le_add hrow ih

/-- The rows of two pages agree if the pages do and the rows of one are never the longer ones. -/
theorem eq_of_join_eq {rows rows' : List String} (hle : List.Forall₂ (fun s s' => s.length ≤ s'.length) rows rows')
    (h : String.join rows = String.join rows') : rows = rows' := by
  induction hle with
  | nil => rfl
  | @cons s s' rows rows' hrow hrows ih =>
    rw [String.join_cons, String.join_cons] at h
    have hletters := congrArg String.toList h
    rw [String.toList_append, String.toList_append] at hletters
    -- Nothing that one row lacks can be made up for by the rows after it.
    have hlength : s.toList.length = s'.toList.length := by
      have htotal := congrArg String.length h
      have hrest := length_join_le hrows
      rw [String.length_append, String.length_append] at htotal
      rw [String.length_toList, String.length_toList]
      omega
    obtain ⟨hfirst, hrest⟩ := List.append_inj hletters hlength
    rw [String.toList_inj.1 hfirst, ih (String.toList_inj.1 hrest)]

/-! ## Errors of a file -/

def TemplateError.complaint : TemplateError → String
  | .notFound _ => ""
  | .unreadable _ fault => s!": {fault.message}"
  | .malformed _ line fault => s!":{line}: {fault.message}"

theorem TemplateError.message_unreadable (path : Path) (fault : IoFault) :
    (unreadable path fault).message = path.text ++ (unreadable path fault).complaint := by
  unfold message complaint
  simp only [String.append_assoc]
  rfl

theorem TemplateError.message_malformed (origin : String) (line : Nat) (fault : DirectiveFault) :
    (malformed origin line fault).message = origin ++ (malformed origin line fault).complaint := by
  unfold message complaint
  simp only [String.append_assoc]
  rfl

theorem TemplateError.SameButPath.complaint_eq {e e' : TemplateError} (h : e.SameButPath e') :
    e.complaint = e'.complaint := by
  cases h <;> rfl

/-- An error of a file that is there is no absence elsewhere. -/
theorem TemplateError.SameButPath.ne_notFound {e e' : TemplateError} (h : e.SameButPath e')
    (hfault : ∀ n, e ≠ .notFound n) : ∀ n, e' ≠ .notFound n := by
  rintro n rfl
  cases h
  exact hfault n rfl

namespace Report

open Template (Source)

/-- The catalog has the type, and its template is not absent but cannot be loaded. -/
def Faulty (catalog : Catalog) (source : Source) (typeId : Nat) : Prop :=
  (catalog.lookup typeId).isSome ∧ ∃ e, (source.load typeId).value = .error e ∧ ∀ n, e ≠ .notFound n

variable {d d' : Disk} {root root' : Path} {typeId : Nat}

theorem message_of_load {e : TemplateError} (h : ((Source.directory d root).load typeId).value = .error e)
    (hfault : ∀ n, e ≠ .notFound n) : e.message = (Source.pathFor root typeId).text ++ e.complaint := by
  simp only [Source.load] at h
  split at h
  · exact absurd (Except.error.inj h).symm (hfault typeId)
  · rw [← Except.error.inj h]
    exact TemplateError.message_unreadable ..
  · unfold Template.parse at h
    dsimp only at h
    split at h
    · rw [← Except.error.inj h]
      exact TemplateError.message_malformed ..
    · cases h

/-! ## Checks -/

section

variable {catalog : Catalog} {source : Source} {m : ModuleType}

theorem checkTemplate_of_fault {e : TemplateError} (hlookup : catalog.lookup typeId = some m)
    (hload : (source.load typeId).value = .error e) (hfault : ∀ n, e ≠ .notFound n) :
    (checkTemplate catalog source typeId).value = failed ("error: " ++ e.message) := by
  simp only [checkTemplate, hlookup, Logged.value_bind, hload]
  cases e with
  | notFound n => exact absurd rfl (hfault n)
  | unreadable | malformed => rfl

theorem checkTemplate_of_load {t : Template} (hlookup : catalog.lookup typeId = some m)
    (hload : (source.load typeId).value = .ok t) : (checkTemplate catalog source typeId).value =
      ⟨(t.validate catalog).isValid, (t.validate catalog).diagnostics.map Diagnostic.text⟩ := by
  simp only [checkTemplate, hlookup, Logged.value_bind, hload, Logged.value_pure]

end

theorem checkTemplate_alike (h : Template.SameTexts d d' root root') (catalog : Catalog) (typeId : Nat) :
    (∃ rest, Faulty catalog (.directory d root) typeId ∧
      (checkTemplate catalog (.directory d root) typeId).value =
        failed ("error: " ++ (Source.pathFor root typeId).text ++ rest) ∧
      (checkTemplate catalog (.directory d' root') typeId).value =
        failed ("error: " ++ (Source.pathFor root' typeId).text ++ rest)) ∨
    (¬Faulty catalog (.directory d root) typeId ∧ (checkTemplate catalog (.directory d root) typeId).value =
      (checkTemplate catalog (.directory d' root') typeId).value) := by
  cases hlookup : catalog.lookup typeId with
  | none =>
    refine Or.inr ⟨fun hfaulty => ?_, by simp only [checkTemplate, hlookup]⟩
    have hknown := hfaulty.1
    rw [hlookup] at hknown
    cases hknown
  | some m =>
    have halike := Template.load_alike h typeId
    generalize hload : ((Source.directory d root).load typeId).value = outcome at halike
    generalize hload' : ((Source.directory d' root').load typeId).value = outcome' at halike
    cases halike with
    | ok ht =>
      refine Or.inr ⟨?_, ?_⟩
      · rintro ⟨-, e, herror, -⟩
        cases hload.symm.trans herror
      · rw [checkTemplate_of_load hlookup hload, checkTemplate_of_load hlookup hload', ht.validate_eq]
    | @error e e' he =>
      by_cases habsent : ∃ n, e = .notFound n
      · obtain ⟨n, rfl⟩ := habsent
        cases he
        refine Or.inr ⟨?_, ?_⟩
        · rintro ⟨-, e, herror, hfault⟩
          exact hfault n (Except.error.inj (herror.symm.trans hload))
        · rw [checkTemplate_of_absent hlookup hload, checkTemplate_of_absent hlookup hload']
      · have hfault : ∀ n, e ≠ .notFound n := fun n heq => habsent ⟨n, heq⟩
        have hfault' := he.ne_notFound hfault
        refine Or.inl ⟨e.complaint, ⟨hlookup ▸ rfl, e, hload, hfault⟩, ?_, ?_⟩
        · rw [checkTemplate_of_fault hlookup hload hfault, message_of_load hload hfault, String.append_assoc]
        · rw [checkTemplate_of_fault hlookup hload' hfault', message_of_load hload' hfault', String.append_assoc,
            he.complaint_eq]

/-- A report names the path of the template if and only if it is faulty. -/
theorem shows_checkReport (h : Template.SameTexts d d' root root') (catalog : Catalog) (typeId : Nat) :
    ShowsPath (Source.pathFor root typeId) (Source.pathFor root' typeId) (Faulty catalog (.directory d root) typeId)
      (checkReport catalog (.directory d root) typeId).value.1
      (checkReport catalog (.directory d' root') typeId).value.1 := by
  simp only [checkReport, Logged.value_bind, Logged.value_pure]
  rcases checkTemplate_alike h catalog typeId with ⟨rest, hfaulty, hcheck, hcheck'⟩ | ⟨hsound, heq⟩
  · rw [hcheck, hcheck']
    simp only [failed, List.map_cons, List.map_nil, String.join_cons, String.join_nil, String.append_empty]
    exact (((ShowsPath.path "error: " rest hfaulty).append "\n").prepend _).append _
  · rw [heq]
    exact .none _ hsound

theorem verdict_checkReport (h : Template.SameTexts d d' root root') (catalog : Catalog) (typeId : Nat) :
    (checkReport catalog (.directory d root) typeId).value.2 =
      (checkReport catalog (.directory d' root') typeId).value.2 := by
  simp only [checkReport, Logged.value_bind, Logged.value_pure]
  rcases checkTemplate_alike h catalog typeId with ⟨rest, -, hcheck, hcheck'⟩ | ⟨-, heq⟩
  · rw [hcheck, hcheck']
    rfl
  · rw [heq]

/-! ## Status page -/

theorem shows_statusRow (h : Template.SameTexts d d' root root')
    (hfiles : ∀ typeId, d.isFile (Source.pathFor root typeId) = d'.isFile (Source.pathFor root' typeId))
    (catalog : Catalog) (t : ModuleType) :
    ShowsPath (Source.pathFor root t.id) (Source.pathFor root' t.id)
      ((Source.directory d root).contains t.id ∧ Faulty catalog (.directory d root) t.id)
      (statusRow catalog (.directory d root) t).value (statusRow catalog (.directory d' root') t).value := by
  simp only [statusRow, Logged.value_bind, Logged.value_pure]
  refine (ShowsPath.prepend ?_ _).append _
  have hcontains : (Source.directory d root).contains t.id = (Source.directory d' root').contains t.id := hfiles t.id
  unfold templateStatus
  rw [← hcontains]
  cases (Source.directory d root).contains t.id with
  | false => exact .none _ fun hshown => Bool.false_ne_true hshown.1
  | true =>
    simp only [if_true, Logged.value_bind, Logged.value_pure]
    rcases checkTemplate_alike h catalog t.id with ⟨rest, hfaulty, hcheck, hcheck'⟩ | ⟨hsound, heq⟩
    · rw [hcheck, hcheck']
      exact ShowsPath.path "error: " rest ⟨trivial, hfaulty⟩
    · rw [heq]
      exact .none _ fun hshown => hsound hshown.2

theorem length_pathFor_le (hle : root.lead.length ≤ root'.lead.length) (typeId : Nat) :
    (Source.pathFor root typeId).text.length ≤ (Source.pathFor root' typeId).text.length := by
  simp only [Source.pathFor, Path.join_eq, String.length_append]
  omega

/-- Over directories with the same files, the verdicts on a type are the same. The texts of its
    check are the same if and only if its template is not faulty or has the same path in both. The
    status pages are the same if and only if that holds of each type of the catalog whose template
    is a regular file. -/
theorem reports_agree_iff (h : Template.SameTexts d d' root root')
    (hfiles : ∀ typeId, d.isFile (Source.pathFor root typeId) = d'.isFile (Source.pathFor root' typeId))
    (catalog : Catalog) :
    (∀ typeId,
      (checkReport catalog (.directory d root) typeId).value.2 =
        (checkReport catalog (.directory d' root') typeId).value.2 ∧
      ((checkReport catalog (.directory d root) typeId).value.1 =
          (checkReport catalog (.directory d' root') typeId).value.1 ↔
        (Faulty catalog (.directory d root) typeId → Source.pathFor root typeId = Source.pathFor root' typeId))) ∧
    ((statusPage catalog (.directory d root)).value = (statusPage catalog (.directory d' root')).value ↔
      ∀ t ∈ catalog.types, (Source.directory d root).contains t.id ∧ Faulty catalog (.directory d root) t.id →
        Source.pathFor root t.id = Source.pathFor root' t.id) := by
  refine ⟨fun typeId => ⟨verdict_checkReport h catalog typeId, (shows_checkReport h catalog typeId).eq_iff⟩, ?_⟩
  have hrows := shows_statusRow h hfiles catalog
  rw [value_statusPage, value_statusPage, String.append_right_inj]
  refine ⟨fun hjoin t ht => (hrows t).eq_iff.1 ?_, fun hpaths => ?_⟩
  · have hall : catalog.types.map (fun t => (statusRow catalog (.directory d root) t).value) =
        catalog.types.map fun t => (statusRow catalog (.directory d' root') t).value := by
      rcases le_total root.lead.length root'.lead.length with hle | hle
      · refine eq_of_join_eq ?_ hjoin
        rw [List.forall₂_map_left_iff, List.forall₂_map_right_iff, List.forall₂_same]
        exact fun t _ => (hrows t).length_le (length_pathFor_le hle t.id)
      · refine (eq_of_join_eq ?_ hjoin.symm).symm
        rw [List.forall₂_map_left_iff, List.forall₂_map_right_iff, List.forall₂_same]
        exact fun t _ => (hrows t).symm.length_le (length_pathFor_le hle t.id)
    exact List.map_inj_left.1 hall t ht
  · exact congrArg String.join (List.map_congr_left fun t ht => (hrows t).eq_iff.2 (hpaths t ht))

def emptyDirectiveDisk (root : Path) : Disk := Template.diskOf root 7 ";@\n"

open Routing in
theorem reports_agree_iff_emptyDirective :
    Template.SameTexts (emptyDirectiveDisk ⟨"left"⟩) (emptyDirectiveDisk ⟨"right/"⟩) ⟨"left"⟩ ⟨"right/"⟩ ∧
    (∀ typeId, (emptyDirectiveDisk ⟨"left"⟩).isFile (Source.pathFor ⟨"left"⟩ typeId) =
      (emptyDirectiveDisk ⟨"right/"⟩).isFile (Source.pathFor ⟨"right/"⟩ typeId)) ∧
    Faulty mixers (.directory (emptyDirectiveDisk ⟨"left"⟩) ⟨"left"⟩) 7 ∧
    (checkReport mixers (.directory (emptyDirectiveDisk ⟨"left"⟩) ⟨"left"⟩) 7).value.1 ≠
      (checkReport mixers (.directory (emptyDirectiveDisk ⟨"right/"⟩) ⟨"right/"⟩) 7).value.1 ∧
    (statusPage mixers (.directory (emptyDirectiveDisk ⟨"left"⟩) ⟨"left"⟩)).value ≠
      (statusPage mixers (.directory (emptyDirectiveDisk ⟨"right/"⟩) ⟨"right/"⟩)).value := by
  have hsame : Template.SameTexts (emptyDirectiveDisk ⟨"left"⟩) (emptyDirectiveDisk ⟨"right/"⟩) ⟨"left"⟩ ⟨"right/"⟩ :=
    Template.sameTexts_diskOf ⟨"left"⟩ ⟨"right/"⟩ 7 _
  have hfiles (typeId : Nat) : (emptyDirectiveDisk ⟨"left"⟩).isFile (Source.pathFor ⟨"left"⟩ typeId) =
      (emptyDirectiveDisk ⟨"right/"⟩).isFile (Source.pathFor ⟨"right/"⟩ typeId) :=
    Template.isFile_diskOf ⟨"left"⟩ ⟨"right/"⟩ 7 _ typeId
  obtain ⟨hreports, hpage⟩ := reports_agree_iff hsame hfiles mixers
  have hload : ((Source.directory (emptyDirectiveDisk ⟨"left"⟩) ⟨"left"⟩).load 7).value =
      .error (.malformed "left/7.txt" 1 .empty) := by decide +kernel
  have hfaulty : Faulty mixers (.directory (emptyDirectiveDisk ⟨"left"⟩) ⟨"left"⟩) 7 :=
    ⟨rfl, _, hload, by rintro n ⟨⟩⟩
  have hcontains : (Source.directory (emptyDirectiveDisk ⟨"left"⟩) ⟨"left"⟩).contains 7 = true := by decide +kernel
  have hplaces : Source.pathFor ⟨"left"⟩ 7 ≠ Source.pathFor ⟨"right/"⟩ 7 := by decide +kernel
  have hmixer : ⟨7, "Mixer", [.audio], [.audio], 0⟩ ∈ mixers.types := List.mem_cons_self
  refine ⟨hsame, hfiles, hfaulty, fun heq => hplaces ((hreports 7).2.1 heq hfaulty), fun heq => ?_⟩
  have hplace := hpage.1 heq _ hmixer ⟨hcontains, hfaulty⟩
  exact hplaces hplace

open Routing in
/-- One template in two places, and reports that say where. -/
theorem emptyDirective_reported_with_path :
    Template.SameTexts (emptyDirectiveDisk ⟨"left"⟩) (emptyDirectiveDisk ⟨"right"⟩) ⟨"left"⟩ ⟨"right"⟩ ∧
    (∀ typeId, (emptyDirectiveDisk ⟨"left"⟩).isFile (Source.pathFor ⟨"left"⟩ typeId) =
      (emptyDirectiveDisk ⟨"right"⟩).isFile (Source.pathFor ⟨"right"⟩ typeId)) ∧
    (checkReport mixers (.directory (emptyDirectiveDisk ⟨"left"⟩) ⟨"left"⟩) 7).value =
      ("checking module type '7' (7.txt)\nmodule name: Mixer\nerror: left/7.txt:1: empty directive\n", false) ∧
    (checkReport mixers (.directory (emptyDirectiveDisk ⟨"right"⟩) ⟨"right"⟩) 7).value =
      ("checking module type '7' (7.txt)\nmodule name: Mixer\nerror: right/7.txt:1: empty directive\n", false) ∧
    (statusPage mixers (.directory (emptyDirectiveDisk ⟨"left"⟩) ⟨"left"⟩)).value =
      statusHeading ++ "| 7.txt | Mixer | error: left/7.txt:1: empty directive |\n" ∧
    (statusPage mixers (.directory (emptyDirectiveDisk ⟨"right"⟩) ⟨"right"⟩)).value =
      statusHeading ++ "| 7.txt | Mixer | error: right/7.txt:1: empty directive |\n" :=
  ⟨Template.sameTexts_diskOf _ _ 7 _, Template.isFile_diskOf _ _ 7 _, by decide +kernel, by decide +kernel,
    by decide +kernel, by decide +kernel⟩

end Report

end Patchbay
