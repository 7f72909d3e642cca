/-
  Patchbay.Proofs.JsonPrinting — what is printed as JSON spells the value and is read back as it.

  A value can be printed if its numbers are numbers and its strings and keys have texts (`Printable`).
  - `spells_pretty`: the text of such a value spells it, however deep it stands.
  - `ofText?_pretty`: so it is read back.
  - `Patch.ofText?_printed`: patches are such values.
-/

import Mathlib.Data.List.Basic
import Patchbay.Json.Pretty
import Patchbay.Patch.Json
import Patchbay.Proofs.JsonTexts

namespace Patchbay.Json

/-- Values with a text: strings without broken surrogates, numbers with digits. -/
inductive Printable : Value → Prop where
  | null : Printable .null
  | bool (b : Bool) : Printable (.bool b)
  | number {literal : String} : IsNumber literal.toList → Printable (.number literal)
  | string (s : String) : Printable (.string (some s))
  | array {items : List Value} : (∀ v ∈ items, Printable v) → Printable (.array items)
  | object {members : List (Option String × Value)} : (∀ m ∈ members, m.1.isSome = true) →
      (∀ m ∈ members, Printable m.2) → Printable (.object members)

/-! ## Strings -/

theorem hexDigit_hexDigit {n : Nat} (h : n < 16) : HexDigit (Text.hexDigit n) n := by
  have hall : ∀ n < 16, "0123456789abcdef".toList[n]? = some (Text.hexDigit n) := by decide
  exact .inl (hall n h)

theorem spellsUnit_escape (c : Char) : SpellsUnit c.toNat (escape c) := by
  unfold escape
  -- the characters with a short escape, then the other control characters, then the rest
  iterate 7
    split
    · next h => subst h; exact .short (by decide)
  split
  · next h =>
    have hunit := SpellsUnit.digits (hexDigit_hexDigit (n := 0) (by decide)) (hexDigit_hexDigit (n := 0) (by decide))
      (hexDigit_hexDigit (n := c.toNat / 16) (by omega)) (hexDigit_hexDigit (n := c.toNat % 16) (by omega))
    have hjoin : ((0 * 16 + 0) * 16 + c.toNat / 16) * 16 + c.toNat % 16 = c.toNat := by omega
    rwa [hjoin] at hunit
  · next hquote hescape _ _ _ _ _ hlow => exact .plain (by omega) hquote hescape

theorem spellsUnits_escape (cs : List Char) : SpellsUnits (cs.map Char.toNat) (cs.flatMap escape) := by
  induction cs with
  | nil => exact .nil
  | cons c cs ih => exact .cons (spellsUnit_escape c) ih

theorem denotes_map_toNat (cs : List Char) : Denotes (cs.map Char.toNat) cs := by
  induction cs with
  | nil => exact .nil
  | cons c cs ih => exact .unit ih

theorem spellsString_quote (s : String) : SpellsString (some s) (quote s).toList := by
  have htext : (quote s).toList = '"' :: s.toList.flatMap escape ++ ['"'] := by simp [quote]
  rw [htext]
  exact .text (spellsUnits_escape s.toList) (denotes_map_toNat s.toList)

/-! ## Lines -/

theorem blanks_indentation (depth : Nat) : Blanks ('\n' :: (indentation depth).toList) := by
  intro c hc
  rw [indentation, String.toList_ofList, List.mem_cons, List.mem_replicate] at hc
  rcases hc with rfl | ⟨-, rfl⟩
  · exact .inr (.inr (.inl rfl))
  · exact .inl rfl

theorem spells_prettyItems {depth : Nat} {vs : List Value} (hvs : vs ≠ [])
    (h : ∀ v ∈ vs, Spells (.value v) (v.pretty depth).toList) {tail : List Char} (htail : Blanks tail) :
    Spells (.items vs) ('\n' :: [',', '\n'].intercalate ((prettyItems depth vs).map String.toList) ++ tail) := by
  induction vs with
  | nil => exact absurd rfl hvs
  | cons v vs ih =>
    have hv := h v List.mem_cons_self
    cases vs with
    | nil =>
      have hitem := Spells.item (.padded (blanks_indentation depth) hv htail)
      simpa [prettyItems] using hitem
    | cons w vs =>
      have hrest := ih (by simp) fun u hu => h u (List.mem_cons_of_mem v hu)
      have hitems := Spells.nextItem (.padded (blanks_indentation depth) hv blanks_nil) hrest
      simpa [prettyItems] using hitems

theorem spells_prettyMembers {depth : Nat} {ms : List (Option String × Value)} (hms : ms ≠ [])
    (hkeys : ∀ m ∈ ms, m.1.isSome = true) (h : ∀ m ∈ ms, Spells (.value m.2) (m.2.pretty depth).toList)
    {tail : List Char} (htail : Blanks tail) :
    Spells (.members ms) ('\n' :: [',', '\n'].intercalate ((prettyMembers depth ms).map String.toList) ++ tail) := by
  have hspace : Blanks [' '] := fun c hc => .inl (List.mem_singleton.1 hc)
  induction ms with
  | nil => exact absurd rfl hms
  | cons m ms ih =>
    obtain ⟨key, v⟩ := m
    obtain ⟨key, rfl⟩ := Option.isSome_iff_exists.1 (hkeys _ List.mem_cons_self)
    have hv := h _ List.mem_cons_self
    cases ms with
    | nil =>
      have hmember := Spells.lastMember
        (.member (blanks_indentation depth) (spellsString_quote key) blanks_nil (.padded hspace hv htail))
      simpa [prettyMembers] using hmember
    | cons m' ms =>
      have hrest := ih (by simp) (fun u hu => hkeys u (List.mem_cons_of_mem _ hu))
        fun u hu => h u (List.mem_cons_of_mem _ hu)
      have hmembers := Spells.nextMember
        (.member (blanks_indentation depth) (spellsString_quote key) blanks_nil (.padded hspace hv blanks_nil)) hrest
      simpa [prettyMembers] using hmembers

/-! ## Values -/

theorem spells_pretty {v : Value} (h : Printable v) (depth : Nat) : Spells (.value v) (v.pretty depth).toList := by
  induction h generalizing depth with
  | null =>
    have htext : (Value.pretty depth .null).toList = ['n', 'u', 'l', 'l'] := by rw [Value.pretty]; decide
    rw [htext]
    exact .null
  | bool b =>
    cases b with
    | true =>
      have htext : (Value.pretty depth (.bool true)).toList = ['t', 'r', 'u', 'e'] := by rw [Value.pretty]; decide
      rw [htext]
      exact .true
    | false =>
      have htext : (Value.pretty depth (.bool false)).toList = ['f', 'a', 'l', 's', 'e'] := by rw [Value.pretty]; decide
      rw [htext]
      exact .false
  | @number literal h =>
    have hnumber := Spells.number h
    rwa [String.ofList_toList] at hnumber
  | string s => exact .string (spellsString_quote s)
  | @array items _ ih =>
    rw [Value.pretty]
    cases items with
    | nil => simpa using Spells.emptyArray blanks_nil
    | cons v vs =>
      have hitems := spells_prettyItems (List.cons_ne_nil v vs) (fun u hu => ih u hu (depth + 1))
        (blanks_indentation depth)
      simpa [String.toList_intercalate] using Spells.array hitems
  | @object members hkeys _ ih =>
    rw [Value.pretty]
    cases members with
    | nil => simpa using Spells.emptyObject blanks_nil
    | cons m ms =>
      have hmembers := spells_prettyMembers (List.cons_ne_nil m ms) hkeys (fun u hu => ih u hu (depth + 1))
        (blanks_indentation depth)
      simpa [String.toList_intercalate] using Spells.object hmembers

/-- The lines of a value, with the end of the last one. -/
theorem spellsText_pretty {v : Value} (h : Printable v) : SpellsText v (v.pretty 0 ++ "\n") := by
  have hfeed : Blanks "\n".toList := fun c hc => .inr (.inr (.inl (by simpa using hc)))
  have htext := Spells.padded blanks_nil (spells_pretty h 0) hfeed
  rwa [List.nil_append, ← String.toList_append] at htext

/-- What is printed is read back. -/
theorem ofText?_pretty {v : Value} (h : Printable v) : Value.ofText? (v.pretty 0 ++ "\n") = some v :=
  ofText?_of_spells (spellsText_pretty h)

/-! ## Parts of values -/

theorem isNumber_toString (n : Nat) : IsNumber (toString n).toList := by
  have hdigits : Digits (toString n).toList := by
    have htext : (toString n).toList = Nat.toDigits 10 n := Nat.toList_repr
    exact ⟨htext ▸ Nat.toDigits_ne_nil, fun c hc => Text.isDigit_of_mem_toString hc⟩
  have hzero : (toString n).toList.head? = some '0' → (toString n).toList = ['0'] := fun h => by
    rw [Text.eq_zero_of_head?_toString h]
    decide
  exact ⟨[], (toString n).toList, [], [], by simp, .inl rfl, ⟨hdigits, hzero⟩, .inl rfl, .inl rfl⟩

theorem printable_ofNat (n : Nat) : Printable (.ofNat n) := .number (isNumber_toString n)

theorem printable_ofString (s : String) : Printable (.ofString s) := .string s

theorem printable_array {α : Type} {f : α → Value} (h : ∀ a, Printable (f a)) (l : List α) :
    Printable (.array (l.map f)) := by
  refine .array fun v hv => ?_
  obtain ⟨a, -, rfl⟩ := List.mem_map.1 hv
  exact h a

theorem printable_object {members : List (String × Value)} (h : members.Forall fun m => Printable m.2) :
    Printable (jsonObject members) := by
  refine .object (fun m hm => ?_) fun m hm => ?_
  · obtain ⟨m', -, rfl⟩ := List.mem_map.1 hm
    rfl
  · obtain ⟨m', hm', rfl⟩ := List.mem_map.1 hm
    exact List.forall_iff_forall_mem.1 h m' hm'

end Patchbay.Json

namespace Patchbay

open Json

/-! ## Patches -/

theorem Description.printable_toJson (d : Description) : Printable d.toJson :=
  printable_object ⟨printable_ofNat _, printable_ofNat _, .bool _⟩

theorem PatchModule.printable_toJson (m : PatchModule) : Printable m.toJson := by
  have hrates : ∀ rates : List Rate, Printable (.array (rates.map Rate.toJson)) :=
    printable_array fun r => printable_ofString (toString r)
  have hbuses : ∀ buses : List Nat, Printable (.array (buses.map Value.ofNat)) := printable_array printable_ofNat
  have hname : Printable ((m.typeName.map Value.ofString).getD .null) := by
    cases m.typeName with
    | none => exact .null
    | some name => exact printable_ofString name
  exact printable_object ⟨printable_ofNat _, hname, printable_ofNat _, printable_ofString _, hrates _, hrates _,
    hbuses _, hbuses _⟩

theorem Cable.printable_toJson (c : Cable) : Printable c.toJson :=
  printable_object ⟨printable_ofString _, printable_ofString _, printable_ofString _, printable_ofNat _,
    printable_ofNat _, printable_ofNat _, printable_ofNat _⟩

theorem ParameterBlock.printable_toJson (b : ParameterBlock) : Printable b.toJson :=
  printable_object ⟨printable_ofString _, printable_ofNat _, printable_ofNat _, printable_array printable_ofNat _⟩

theorem Patch.printable_toJson (p : Patch) : Printable p.toJson :=
  printable_object ⟨p.description.printable_toJson, printable_array PatchModule.printable_toJson _,
    printable_array Cable.printable_toJson _, printable_array ParameterBlock.printable_toJson _⟩

/-- The text a patch is printed as is JSON and is read back as the patch's value. -/
theorem Patch.ofText?_printed (p : Patch) : Value.ofText? (p.toJson.pretty 0 ++ "\n") = some p.toJson :=
  ofText?_pretty p.printable_toJson

end Patchbay
