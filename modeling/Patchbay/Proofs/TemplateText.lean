/-
  Patchbay.Proofs.TemplateText — a template's text, taken apart.

  The lines of a text are directive lines, wherever they stand, and others. The slots of a
  template hang on the first alone, its body on the second:
  - `directiveText?_eq_some_iff`: which lines are directive lines.
  - `Slots.DeclaredBy.add`: what one directive does to slots declared by those before it.
  - `declareLines_spec`: what all lines do. The first line at fault is reported by its number.
  - `trimmed_bodyLines`: the body has the other lines up to the last that is not blank.
  - `parse_takes_text_apart`: whole texts, and texts with the same lines in other places.
-/

import Mathlib.Data.List.DropRight
import Mathlib.Data.List.Nodup
import Patchbay.Template

namespace Patchbay

/-! ## Slots -/

namespace Slots

def isDeclared (s : Slots) : SlotKind → Bool
  | .args => s.args.isSome
  | .inlets => s.inlets.isSome
  | .outlets => s.outlets.isSome

def add (s : Slots) : Directive → Slots
  | .args rates => { s with args := some rates }
  | .inlets rates => { s with inlets := some rates }
  | .outlets rates => { s with outlets := some rates }

theorem declare_eq (s : Slots) (d : Directive) :
    s.declare d = if s.isDeclared d.kind then .error (.duplicate d.kind) else .ok (s.add d) := by
  cases d <;> rfl

/-- Slots as directives declare them: each group has the rates of a directive of its kind. -/
structure DeclaredBy (s : Slots) (ds : List Directive) : Prop where
  args : ∀ rates, s.args = some rates ↔ .args rates ∈ ds
  inlets : ∀ rates, s.inlets = some rates ↔ .inlets rates ∈ ds
  outlets : ∀ rates, s.outlets = some rates ↔ .outlets rates ∈ ds

variable {s t : Slots} {d : Directive} {ds es : List Directive}

theorem declaredBy_nil : DeclaredBy {} [] := ⟨by simp, by simp, by simp⟩

namespace DeclaredBy

/-- The order of the directives does not show in the slots. -/
theorem eq_of_perm (hs : s.DeclaredBy ds) (ht : t.DeclaredBy es) (h : ds.Perm es) : s = t := by
  have hargs : s.args = t.args := Option.ext fun rates => by rw [hs.args, ht.args, h.mem_iff]
  have hinlets : s.inlets = t.inlets := Option.ext fun rates => by rw [hs.inlets, ht.inlets, h.mem_iff]
  have houtlets : s.outlets = t.outlets := Option.ext fun rates => by rw [hs.outlets, ht.outlets, h.mem_iff]
  cases s
  cases t
  rw [mk.injEq]
  exact ⟨hargs, hinlets, houtlets⟩

theorem isDeclared_iff (hs : s.DeclaredBy ds) (kind : SlotKind) :
    s.isDeclared kind = true ↔ kind ∈ ds.map Directive.kind := by
  constructor
  · intro h
    cases kind with
    | args =>
      obtain ⟨rates, hrates⟩ := Option.isSome_iff_exists.1 h
      exact List.mem_map_of_mem ((hs.args rates).1 hrates)
    | inlets =>
      obtain ⟨rates, hrates⟩ := Option.isSome_iff_exists.1 h
      exact List.mem_map_of_mem ((hs.inlets rates).1 hrates)
    | outlets =>
      obtain ⟨rates, hrates⟩ := Option.isSome_iff_exists.1 h
      exact List.mem_map_of_mem ((hs.outlets rates).1 hrates)
  · intro h
    obtain ⟨d, hd, rfl⟩ := List.mem_map.1 h
    cases d with
    | args rates => exact Option.isSome_of_eq_some ((hs.args rates).2 hd)
    | inlets rates => exact Option.isSome_of_eq_some ((hs.inlets rates).2 hd)
    | outlets rates => exact Option.isSome_of_eq_some ((hs.outlets rates).2 hd)

theorem add (hs : s.DeclaredBy ds) (hnew : s.isDeclared d.kind = false) : (s.add d).DeclaredBy (ds ++ [d]) := by
  obtain ⟨hargs, hinlets, houtlets⟩ := hs
  cases d <;> constructor <;> grind [Slots.add, isDeclared, Directive.kind]

end DeclaredBy

end Slots

namespace Template

/-! ## Directive lines -/

variable {line rest : List Char} {before lines : List (List Char)}

theorem directiveText?_eq_some_iff : directiveText? line = some rest ↔
    ∃ blanks, (∀ c ∈ blanks, Text.isBlank c = true) ∧ line = blanks ++ ';' :: '@' :: rest := by
  constructor
  · intro h
    unfold directiveText? at h
    split at h
    · next tail htrim =>
      obtain rfl := Option.some.inj h
      refine ⟨line.takeWhile Text.isBlank, fun c hc => List.mem_takeWhile_imp hc, ?_⟩
      rw [← htrim]
      exact List.takeWhile_append_dropWhile.symm
    · cases h
  · rintro ⟨blanks, hblanks, rfl⟩
    have htrim : Text.trimStart (blanks ++ ';' :: '@' :: rest) = ';' :: '@' :: rest :=
      List.dropWhile_append_of_pos hblanks
    unfold directiveText?
    rw [htrim]
    rfl

def directiveTexts (lines : List (List Char)) : List (List Char) := lines.filterMap directiveText?

def otherLines (lines : List (List Char)) : List (List Char) := lines.filter fun l => (directiveText? l).isNone

/-- The directives that directive lines spell; a line at fault spells none. -/
def directives (lines : List (List Char)) : List Directive :=
  (directiveTexts lines).filterMap fun rest => (Directive.ofText rest).toOption

structure Readable (lines : List (List Char)) : Prop where
  spelled : ∀ rest ∈ directiveTexts lines, ∃ d, Directive.ofText rest = .ok d
  once : ((directives lines).map Directive.kind).Nodup

/-- The line with this number, counted from 1, is the first at fault: it spells no directive, or one
    of a kind that a line before it declares. -/
def FaultAt (lines : List (List Char)) (number : Nat) (fault : DirectiveFault) : Prop :=
  ∃ before line after rest, lines = before ++ line :: after ∧ number = before.length + 1 ∧
    directiveText? line = some rest ∧ Readable before ∧
    (Directive.ofText rest = .error fault ∨ ∃ d, Directive.ofText rest = .ok d ∧
      d.kind ∈ (directives before).map Directive.kind ∧ fault = .duplicate d.kind)

theorem directiveTexts_append (as bs : List (List Char)) :
    directiveTexts (as ++ bs) = directiveTexts as ++ directiveTexts bs := List.filterMap_append

theorem directives_append (as bs : List (List Char)) : directives (as ++ bs) = directives as ++ directives bs := by
  unfold directives
  rw [directiveTexts_append, List.filterMap_append]

theorem readable_nil : Readable [] := ⟨fun _ h => absurd h List.not_mem_nil, List.nodup_nil⟩

namespace Readable

theorem of_append {as bs : List (List Char)} (h : Readable (as ++ bs)) : Readable as := by
  refine ⟨fun rest hrest => h.spelled rest ?_, ?_⟩
  · rw [directiveTexts_append]
    exact List.mem_append_left _ hrest
  · have honce := h.once
    rw [directives_append, List.map_append] at honce
    exact honce.of_append_left

/-- The order of the directive lines and their places do not matter. -/
theorem of_perm {as bs : List (List Char)} (h : Readable as) (hperm : (directiveTexts as).Perm (directiveTexts bs)) :
    Readable bs :=
  ⟨fun rest hrest => h.spelled rest (hperm.mem_iff.2 hrest), ((hperm.filterMap _).map _).nodup_iff.1 h.once⟩

/-- One line more that is no directive line. -/
theorem concat_other (h : Readable before) (hline : directiveText? line = none) :
    Readable (before ++ [line]) ∧ directives (before ++ [line]) = directives before := by
  have htexts : directiveTexts (before ++ [line]) = directiveTexts before := by
    rw [directiveTexts_append]
    simp [directiveTexts, hline]
  have hds : directives (before ++ [line]) = directives before := by rw [directives, htexts, directives]
  exact ⟨⟨htexts ▸ h.spelled, hds ▸ h.once⟩, hds⟩

end Readable

theorem directives_concat {d : Directive} (hline : directiveText? line = some rest) (hd : Directive.ofText rest = .ok d) :
    directives (before ++ [line]) = directives before ++ [d] := by
  rw [directives_append]
  simp [directives, directiveTexts, hline, hd, Except.toOption]

/-- One directive line more: it spells a directive of a new kind. -/
theorem readable_concat_iff (hline : directiveText? line = some rest) : Readable (before ++ [line]) ↔
    Readable before ∧ ∃ d, Directive.ofText rest = .ok d ∧ d.kind ∉ (directives before).map Directive.kind := by
  have hlast : directiveTexts [line] = [rest] := by simp [directiveTexts, hline]
  constructor
  · intro h
    have hrest : rest ∈ directiveTexts (before ++ [line]) := by
      rw [directiveTexts_append, hlast]
      exact List.mem_append_right _ (List.mem_singleton_self rest)
    obtain ⟨d, hd⟩ := h.spelled rest hrest
    have honce := h.once
    rw [directives_concat hline hd, List.map_append] at honce
    exact ⟨h.of_append, d, hd, fun hmem => (List.nodup_append.1 honce).2.2 _ hmem _ (List.mem_singleton_self _) rfl⟩
  · rintro ⟨h, d, hd, hnew⟩
    refine ⟨fun r hr => ?_, ?_⟩
    · rw [directiveTexts_append, hlast] at hr
      rcases List.mem_append.1 hr with hr | hr
      · exact h.spelled r hr
      · obtain rfl := List.mem_singleton.1 hr
        exact ⟨d, hd⟩
    · rw [directives_concat hline hd, List.map_append, List.map_singleton, ← List.concat_eq_append]
      exact List.Nodup.concat hnew h.once

/-- A first fault and none at all exclude each other. -/
theorem FaultAt.not_readable {number : Nat} {fault : DirectiveFault} (h : FaultAt lines number fault) :
    ¬Readable lines := by
  obtain ⟨before, line, after, rest, rfl, -, hline, -, hfault⟩ := h
  intro hall
  have hsplit : Readable (before ++ [line] ++ after) := by rwa [List.append_assoc]
  obtain ⟨-, d, hd, hnew⟩ := (readable_concat_iff hline).1 hsplit.of_append
  rcases hfault with herror | ⟨e, he, hold, -⟩
  · rw [hd] at herror
    cases herror
  · obtain rfl : d = e := Except.ok.inj (hd.symm.trans he)
    exact hnew hold

/-- The lines of a text one by one. What is kept is that the lines before are readable, and that the
    slots are those their directives declare. -/
theorem declareLines_spec (lines : List (List Char)) {s : Slots} (hbefore : Readable before)
    (hs : s.DeclaredBy (directives before)) :
    match declareLines (before.length + 1) s lines with
    | .ok t => Readable (before ++ lines) ∧ t.DeclaredBy (directives (before ++ lines))
    | .error (number, fault) => FaultAt (before ++ lines) number fault := by
  induction lines generalizing before s with
  | nil =>
    rw [List.append_nil]
    exact ⟨hbefore, hs⟩
  | cons line lines ih =>
    have hlength : before.length + 1 + 1 = (before ++ [line]).length + 1 := by rw [List.length_append]; rfl
    have hmove : before ++ line :: lines = before ++ [line] ++ lines := (List.append_assoc before [line] lines).symm
    rw [declareLines]
    cases hline : directiveText? line with
    | none =>
      obtain ⟨hreadable, hds⟩ := hbefore.concat_other hline
      dsimp only
      rw [hlength, hmove]
      exact ih hreadable (hds ▸ hs)
    | some rest =>
      dsimp only
      cases hd : Directive.ofText rest with
      | error fault => exact ⟨before, line, lines, rest, rfl, rfl, hline, hbefore, .inl hd⟩
      | ok d =>
        have hstep : (Except.ok d >>= s.declare) =
            if s.isDeclared d.kind then .error (.duplicate d.kind) else .ok (s.add d) := s.declare_eq d
        rw [hstep]
        by_cases hdeclared : s.isDeclared d.kind = true
        · rw [if_pos hdeclared]
          exact ⟨before, line, lines, rest, rfl, rfl, hline, hbefore,
            .inr ⟨d, hd, (hs.isDeclared_iff d.kind).1 hdeclared, rfl⟩⟩
        · rw [if_neg hdeclared]
          have hnew : d.kind ∉ (directives before).map Directive.kind := fun h =>
            hdeclared ((hs.isDeclared_iff d.kind).2 h)
          dsimp only
          rw [hlength, hmove]
          refine ih ((readable_concat_iff hline).2 ⟨hbefore, d, hd, hnew⟩) ?_
          rw [directives_concat hline hd]
          exact hs.add (Bool.not_eq_true _ ▸ hdeclared)

/-! ## Body -/

def Trimmed (lines kept : List (List Char)) : Prop :=
  ∃ blank, lines = kept ++ blank ∧ (∀ l ∈ blank, ∀ c ∈ l, Text.isBlank c = true) ∧
    ∀ l, kept.getLast? = some l → ∃ c ∈ l, Text.isBlank c = false

theorem trimmed_bodyLines (lines : List (List Char)) : Trimmed (otherLines lines) (bodyLines lines) := by
  have hbody : bodyLines lines = (otherLines lines).rdropWhile isBlankLine := rfl
  refine ⟨(otherLines lines).rtakeWhile isBlankLine, ?_, fun l hl => ?_, fun l hl => ?_⟩
  · rw [hbody, List.rdropWhile_append_rtakeWhile]
  · have hblank : isBlankLine l = true := List.mem_rtakeWhile_imp hl
    exact List.all_eq_true.1 hblank
  · rw [hbody] at hl
    have hne : (otherLines lines).rdropWhile isBlankLine ≠ [] := fun h => by rw [h] at hl; cases hl
    obtain rfl : _ = l := Option.some.inj ((List.getLast?_eq_getLast_of_ne_nil hne).symm.trans hl)
    have hlast := List.rdropWhile_last_not isBlankLine (otherLines lines) hne
    simpa [isBlankLine] using hlast

/-! ## Texts -/

/-- A text is read, and its directives and other lines are the template; or its first fault is
    reported. -/
theorem parse_cases (typeId : Nat) (text origin : String) :
    (Readable (Text.lines text.toList) ∧ ∃ slots, slots.DeclaredBy (directives (Text.lines text.toList)) ∧
      parse typeId text origin = .ok ⟨typeId, slots,
        "\n".intercalate ((bodyLines (Text.lines text.toList)).map String.ofList), origin⟩) ∨
      ∃ number fault, FaultAt (Text.lines text.toList) number fault ∧
        parse typeId text origin = .error (.malformed origin number fault) := by
  have hspec := declareLines_spec (Text.lines text.toList) readable_nil Slots.declaredBy_nil
  unfold parse
  dsimp only
  rw [List.length_nil, Nat.zero_add] at hspec
  cases h : declareLines 1 {} (Text.lines text.toList) with
  | ok slots =>
    rw [h] at hspec
    exact .inl ⟨hspec.1, slots, hspec.2, rfl⟩
  | error fault =>
    rw [h] at hspec
    exact .inr ⟨fault.1, fault.2, hspec, rfl⟩

variable {typeId : Nat} {text text' origin : String} {t : Template}

theorem exists_parse_eq_ok_iff : (∃ t, parse typeId text origin = .ok t) ↔ Readable (Text.lines text.toList) := by
  rcases parse_cases typeId text origin with ⟨hreadable, slots, -, hok⟩ | ⟨number, fault, hfault, herror⟩
  · exact iff_of_true ⟨_, hok⟩ hreadable
  · refine iff_of_false (fun ⟨t, ht⟩ => ?_) hfault.not_readable
    rw [herror] at ht
    cases ht

theorem exists_trimmed_of_parse (h : parse typeId text origin = .ok t) : t.typeId = typeId ∧ t.origin = origin ∧
    t.slots.DeclaredBy (directives (Text.lines text.toList)) ∧
    ∃ kept, Trimmed (otherLines (Text.lines text.toList)) kept ∧
      t.body = "\n".intercalate (kept.map String.ofList) := by
  rcases parse_cases typeId text origin with ⟨-, slots, hslots, hok⟩ | ⟨number, fault, -, herror⟩
  · obtain rfl := Except.ok.inj (hok.symm.trans h)
    exact ⟨rfl, rfl, hslots, _, trimmed_bodyLines _, rfl⟩
  · rw [herror] at h
    cases h

theorem exists_faultAt_of_parse {e : TemplateError} (h : parse typeId text origin = .error e) :
    ∃ number fault, e = .malformed origin number fault ∧ FaultAt (Text.lines text.toList) number fault := by
  rcases parse_cases typeId text origin with ⟨-, slots, -, hok⟩ | ⟨number, fault, hfault, herror⟩
  · rw [hok] at h
    cases h
  · exact ⟨number, fault, (Except.error.inj (herror.symm.trans h)).symm, hfault⟩

/-- Directive lines may stand anywhere and in any order. -/
theorem parse_eq_of_perm (typeId : Nat) (origin : String)
    (hothers : otherLines (Text.lines text.toList) = otherLines (Text.lines text'.toList))
    (hperm : (directiveTexts (Text.lines text.toList)).Perm (directiveTexts (Text.lines text'.toList))) :
    (∃ t, parse typeId text origin = .ok t ∧ parse typeId text' origin = .ok t) ∨
      ∃ e e', parse typeId text origin = .error e ∧ parse typeId text' origin = .error e' := by
  rcases parse_cases typeId text origin with ⟨hreadable, slots, hslots, hok⟩ | ⟨number, fault, hfault, herror⟩
  · rcases parse_cases typeId text' origin with ⟨-, slots', hslots', hok'⟩ | ⟨number', fault', hfault', -⟩
    · have hbody : bodyLines (Text.lines text.toList) = bodyLines (Text.lines text'.toList) :=
        congrArg (List.rdropWhile isBlankLine) hothers
      obtain rfl := hslots.eq_of_perm hslots' (hperm.filterMap _)
      rw [← hbody] at hok'
      exact .inl ⟨_, hok, hok'⟩
    · exact absurd (hreadable.of_perm hperm) hfault'.not_readable
  · rcases parse_cases typeId text' origin with ⟨hreadable', -⟩ | ⟨number', fault', -, herror'⟩
    · exact absurd (hreadable'.of_perm hperm.symm) hfault.not_readable
    · exact .inr ⟨_, _, herror, herror'⟩

/-- A directive line is blanks, the marker and a text. A text is read iff that of each of its
    directive lines is a directive, and no two of them are of one kind. Then each group of slots
    has the rates of its one directive, or is not declared, and the body is the other lines in
    order, with line feeds between them and without the blank ones at the end. Else the first line
    at fault is reported, by its number among all lines. Where the directive lines stand, and in
    which order, decides nothing but which fault is the first. -/
theorem parse_takes_text_apart (typeId : Nat) (text origin : String) :
    (∀ line rest, directiveText? line = some rest ↔
      ∃ blanks, (∀ c ∈ blanks, Text.isBlank c = true) ∧ line = blanks ++ ';' :: '@' :: rest) ∧
    ((∃ t, parse typeId text origin = .ok t) ↔ Readable (Text.lines text.toList)) ∧
    (∀ t, parse typeId text origin = .ok t → t.typeId = typeId ∧ t.origin = origin ∧
      t.slots.DeclaredBy (directives (Text.lines text.toList)) ∧
      ∃ kept, Trimmed (otherLines (Text.lines text.toList)) kept ∧
        t.body = "\n".intercalate (kept.map String.ofList)) ∧
    (∀ e, parse typeId text origin = .error e → ∃ number fault, e = .malformed origin number fault ∧
      FaultAt (Text.lines text.toList) number fault) ∧
    ∀ text', otherLines (Text.lines text.toList) = otherLines (Text.lines text'.toList) →
      (directiveTexts (Text.lines text.toList)).Perm (directiveTexts (Text.lines text'.toList)) →
      (∃ t, parse typeId text origin = .ok t ∧ parse typeId text' origin = .ok t) ∨
        ∃ e e', parse typeId text origin = .error e ∧ parse typeId text' origin = .error e' :=
  ⟨fun _ _ => directiveText?_eq_some_iff, exists_parse_eq_ok_iff, fun _ => exists_trimmed_of_parse,
    fun _ => exists_faultAt_of_parse, fun _ => parse_eq_of_perm typeId origin⟩

def scatteredText : String := ";@ outs k\nkin xin\r\n  ;@ args k i\n\nzkw kin, 2\n;@ ins\n \t\n"

def gatheredText : String := "kin xin\n\nzkw kin, 2\n \t\n;@ args k i\n;@ ins\n\t;@ outs k"

theorem parse_takes_text_apart_scatteredText :
    otherLines (Text.lines scatteredText.toList) = otherLines (Text.lines gatheredText.toList) ∧
    (directiveTexts (Text.lines scatteredText.toList)).Perm (directiveTexts (Text.lines gatheredText.toList)) ∧
    (∃ t, parse 7 scatteredText "7.txt" = .ok t ∧ parse 7 gatheredText "7.txt" = .ok t ∧
      t.slots = ⟨some [.control, .init], some [], some [.control]⟩ ∧ t.body = "kin xin\n\nzkw kin, 2") ∧
    FaultAt (Text.lines (scatteredText ++ ";@ ins a").toList) 8 (.duplicate .inlets) := by
  have hothers : otherLines (Text.lines scatteredText.toList) = otherLines (Text.lines gatheredText.toList) := by
    decide +kernel
  have hperm : (directiveTexts (Text.lines scatteredText.toList)).Perm
      (directiveTexts (Text.lines gatheredText.toList)) := by decide +kernel
  have hread : parse 7 scatteredText "7.txt" =
      .ok ⟨7, ⟨some [.control, .init], some [], some [.control]⟩, "kin xin\n\nzkw kin, 2", "7.txt"⟩ := by
    decide +kernel
  have hfaulty : parse 7 (scatteredText ++ ";@ ins a") "7.txt" =
      .error (.malformed "7.txt" 8 (.duplicate .inlets)) := by decide +kernel
  obtain ⟨-, -, -, -, hplaces⟩ := parse_takes_text_apart 7 scatteredText "7.txt"
  obtain ⟨-, -, -, hfaults, -⟩ := parse_takes_text_apart 7 (scatteredText ++ ";@ ins a") "7.txt"
  refine ⟨hothers, hperm, ?_, ?_⟩
  · rcases hplaces gatheredText hothers hperm with ⟨t, ht, ht'⟩ | ⟨e, -, he, -⟩
    · obtain rfl := Except.ok.inj (hread.symm.trans ht)
      exact ⟨_, ht, ht', rfl, rfl⟩
    · rw [hread] at he
      cases he
  · obtain ⟨number, fault, heq, hfault⟩ := hfaults _ hfaulty
    cases heq
    exact hfault

end Template

end Patchbay
