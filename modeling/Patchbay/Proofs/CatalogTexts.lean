/-
  Patchbay.Proofs.CatalogTexts — a catalog written as JSON is read as what was written.

  `WritesType` says what an object must hold to stand for a module type, whatever the order of its
  members and whatever else it has; `FileText` says the same of a file. Both leave the text free.
  - `moduleType?_of_writes`: such an object is read as its type, `moduleType?_of_defective`: an
    object with a member written twice, or without id or name, is not read.
  - `exists_fileText`: every list of types has such a file, `ofJson_reads_written`: how files are read.
-/

import Mathlib
import Patchbay.Catalog.Reading
import Patchbay.Proofs.JsonExactness
import Patchbay.Proofs.JsonPrinting

namespace Patchbay.Catalog

open Json (Value SpellsText)

/-! ## What is written -/

abbrev Members := List (Option String × Value)

/-- An object has the members `known` in any order, and any others of names other than `names`. -/
def Holds (names : List String) (known : List (String × Value)) (members : Members) : Prop :=
  (known.map Prod.fst).Nodup ∧ ∃ extras : List (String × Value), (∀ e ∈ extras, e.1 ∉ names) ∧
    members.Perm ((known ++ extras).map fun m => (some m.1, m.2))

inductive Field where
  | id
  | name
  | inlets
  | outlets
  | params
  deriving DecidableEq

namespace Field

def key : Field → String
  | id => "id"
  | name => "name"
  | inlets => "inlets"
  | outlets => "outlets"
  | params => "params"

def all : List Field := [id, name, inlets, outlets, params]

def ofRates (rates : List Rate) : Value := .array (rates.map fun r => Value.ofString (toString r))

def value (t : ModuleType) : Field → Value
  | id => Value.ofNat t.id
  | name => Value.ofString t.name
  | inlets => ofRates t.inlets
  | outlets => ofRates t.outlets
  | params => Value.ofNat t.params

/-- What may be left out. -/
def Omissible (t : ModuleType) : Field → Prop
  | id => False
  | name => False
  | inlets => t.inlets = []
  | outlets => t.outlets = []
  | params => t.params = 0

theorem key_injective {f g : Field} (h : f.key = g.key) : f = g := by
  revert h
  cases f <;> cases g <;> decide

end Field

def fieldNames : List String := Field.all.map Field.key

/-- An object that has the parts of `t` in some order, perhaps not those that may be left out. -/
def WritesType (t : ModuleType) (v : Value) : Prop :=
  ∃ (written : List Field) (members : Members), v = .object members ∧ (∀ f, f ∉ written → f.Omissible t) ∧
    Holds fieldNames (written.map fun f => (f.key, f.value t)) members

def FileText (items : List Value) (text : String) : Prop :=
  ∃ members, Holds ["modules"] [("modules", .array items)] members ∧ SpellsText (.object members) text

/-- A member of a known name written twice, or one left out that must be there. -/
def Defective (names required : List String) (members : Members) : Prop :=
  (∃ n ∈ names, List.Duplicate (some n) (members.map Prod.fst)) ∨ ∃ n ∈ required, some n ∉ members.map Prod.fst

/-! ## Records -/

theorem lookup_eq_filter {α β : Type} [BEq α] [LawfulBEq α] (a : α) (l : List (α × β)) :
    l.lookup a = ((l.filter fun m => m.1 == a).head?).map Prod.snd := by
  induction l with
  | nil => rfl
  | cons m l ih =>
    rw [List.lookup_cons, List.filter_cons]
    by_cases h : m.1 = a
    · simp [h]
    · have h' : (a == m.1) = false := beq_eq_false_iff_ne.2 fun e => h e.symm
      simp [h, h', ih]

theorem filter_eq_lookup {known : List (String × Value)} (h : (known.map Prod.fst).Nodup) (n : String) :
    known.filter (fun m => m.1 == n) = (known.lookup n).toList.map fun v => (n, v) := by
  induction known with
  | nil => rfl
  | cons m known ih =>
    obtain ⟨hm, h⟩ := List.nodup_cons.1 h
    rw [List.lookup_cons, List.filter_cons]
    by_cases hn : m.1 = n
    · have hnone : known.filter (fun m => m.1 == n) = [] := by
        rw [List.filter_eq_nil_iff]
        intro m' hm' hname
        exact hm (hn ▸ beq_iff_eq.1 hname ▸ List.mem_map_of_mem hm')
      subst hn
      simp [hnone]
    · have hn' : (n == m.1) = false := beq_eq_false_iff_ne.2 fun e => hn e.symm
      simp [hn, hn', ih h]

/-- The members of a known name are the one that is known, if it is. -/
theorem filter_of_holds {names : List String} {known : List (String × Value)} {members : Members}
    (h : Holds names known members) {n : String} (hn : n ∈ names) :
    members.filter (fun m => m.1 == some n) = (known.lookup n).toList.map fun v => (some n, v) := by
  obtain ⟨hknown, extras, hextras, hperm⟩ := h
  have hothers : extras.filter (fun m => m.1 == n) = [] := by
    rw [List.filter_eq_nil_iff]
    intro m hm hname
    exact hextras m hm (beq_iff_eq.1 hname ▸ hn)
  have hnamed : ((known ++ extras).map fun m => (some m.1, m.2)).filter (fun m => m.1 == some n) =
      (known.lookup n).toList.map fun v => (some n, v) := by
    have hpred : ((fun m : Option String × Value => m.1 == some n) ∘ fun m : String × Value => (some m.1, m.2)) =
        fun m => m.1 == n := rfl
    rw [List.filter_map, hpred, List.filter_append, hothers, List.append_nil, filter_eq_lookup hknown, List.map_map]
    rfl
  have hfilter := hperm.filter fun m => m.1 == some n
  rw [hnamed] at hfilter
  cases hv : known.lookup n with
  | none => rw [hv] at hfilter; exact hfilter.eq_nil
  | some v => rw [hv] at hfilter; exact List.perm_singleton.1 hfilter

theorem record?_of_holds {names : List String} {known : List (String × Value)} {members : Members}
    (h : Holds names known members) :
    ∃ r, record? names (.object members) = some r ∧ ∀ n ∈ names, r n = known.lookup n := by
  have hfilter := fun n (hn : n ∈ names) => filter_of_holds h hn
  have hnamed : members.all (fun m => m.1.isSome) = true := by
    obtain ⟨-, extras, -, hperm⟩ := h
    refine List.all_eq_true.2 fun m hm => ?_
    obtain ⟨m', -, rfl⟩ := List.mem_map.1 (hperm.mem_iff.1 hm)
    rfl
  have honce : names.all (fun n => (members.filter fun m => m.1 == some n).length ≤ 1) = true := by
    refine List.all_eq_true.2 fun n hn => decide_eq_true ?_
    rw [hfilter n hn]
    cases known.lookup n <;> simp
  refine ⟨fun n => members.lookup (some n), by rw [record?, hnamed, honce]; rfl, fun n hn => ?_⟩
  change members.lookup (some n) = known.lookup n
  rw [lookup_eq_filter, hfilter n hn]
  cases known.lookup n <;> rfl

theorem record?_of_twice {names : List String} {n : String} (hn : n ∈ names) {members : Members}
    (h : List.Duplicate (some n) (members.map Prod.fst)) : record? names (.object members) = none := by
  have hcount : 2 ≤ (members.filter fun m => m.1 == some n).length := by
    have htwo := ((List.duplicate_iff_sublist.1 h).filter fun k => k == some n).length_le
    have hself : [some n, some n].filter (fun k => k == some n) = [some n, some n] := by simp
    rw [hself, List.filter_map, List.length_map] at htwo
    exact htwo
  have honce : names.all (fun n => (members.filter fun m => m.1 == some n).length ≤ 1) = false := by
    refine List.all_eq_false.2 ⟨n, hn, ?_⟩
    simpa using Nat.lt_of_succ_le hcount
  rw [record?, honce, Bool.and_false]
  rfl

theorem record?_lacks {names : List String} {n : String} {members : Members} {r : Record}
    (hn : some n ∉ members.map Prod.fst) (hr : record? names (.object members) = some r) : r n = none := by
  rw [record?] at hr
  split at hr
  · cases hr
    refine List.lookup_eq_none_iff.2 fun m hm => bne_iff_ne.2 ?_
    rintro hname
    exact hn (hname ▸ List.mem_map_of_mem hm)
  · cases hr

/-- An object with a defect is no record, or a record that lacks a member it must have. -/
theorem exists_lacked_of_defective {names required : List String} {members : Members} {r : Record}
    (h : Defective names required members) (hr : record? names (.object members) = some r) :
    ∃ n ∈ required, r n = none := by
  rcases h with ⟨n, hn, htwice⟩ | ⟨n, hn, hlacks⟩
  · rw [record?_of_twice hn htwice] at hr
    cases hr
  · exact ⟨n, hn, record?_lacks hlacks hr⟩

/-! ## Module types -/

theorem lookup_written {t : ModuleType} {written : List Field} (f : Field) :
    (written.map fun f => (f.key, f.value t)).lookup f.key = if f ∈ written then some (f.value t) else none := by
  induction written with
  | nil => rfl
  | cons g written ih =>
    rw [List.map_cons, List.lookup_cons, ih]
    by_cases hg : f = g
    · simp [hg]
    · have hkey : (f.key == g.key) = false := beq_eq_false_iff_ne.2 fun h => hg (Field.key_injective h)
      simp [hg, hkey]

theorem rate?_ofString (r : Rate) : rate? (.ofString (toString r)) = some r := by cases r <;> rfl

theorem mapM_eq_some_of_forall₂ {α β : Type} {read? : α → Option β} {R : β → α → Prop} {bs : List β} {as : List α}
    (h : List.Forall₂ R bs as) (hread : ∀ b ∈ bs, ∀ a, R b a → read? a = some b) : as.mapM read? = some bs := by
  induction h with
  | nil => rfl
  | cons hr _ ih =>
    rw [List.mapM_cons, hread _ List.mem_cons_self _ hr, ih fun b hb => hread b (List.mem_cons_of_mem _ hb)]
    rfl

theorem mapM_eq_none_of_mem {α β : Type} {read? : α → Option β} {a : α} {as : List α} (ha : a ∈ as)
    (hread : read? a = none) : as.mapM read? = none := by
  induction as with
  | nil => cases ha
  | cons b as ih =>
    rw [List.mapM_cons]
    rcases List.mem_cons.1 ha with rfl | ha
    · rw [hread]; rfl
    · rw [ih ha]; cases read? b <;> rfl

theorem list?_ofRates (rates : List Rate) : list? rate? (Field.ofRates rates) = some rates := by
  have hletter : (rate? ∘ fun r : Rate => Value.ofString (toString r)) = fun r => pure (id r) := funext rate?_ofString
  have hitems : (rates.map fun r => Value.ofString (toString r)).mapM rate? = some rates := by
    rw [List.mapM_map, hletter, List.mapM_pure, List.map_id]
    rfl
  exact hitems

theorem below?_ofNat {n bound : Nat} (h : n < bound) : below? bound (.ofNat n) = some n := by
  have hnatural : (Value.ofNat n).natural? = some n := Text.digits?_toString n
  rw [below?, hnatural]
  exact if_pos h

/-- A part of a type is read from an object that stands for the type, whether it is written or left out. -/
theorem member?_written {α : Type} {t : ModuleType} {written : List Field} {r : Record}
    (hr : ∀ n ∈ fieldNames, r n = (written.map fun f => (f.key, f.value t)).lookup n)
    (hleft : ∀ f, f ∉ written → f.Omissible t) (f : Field) {read? : Value → Option α} {default : Option α} {a : α}
    (hread : read? (f.value t) = some a) (hdefault : f.Omissible t → default = some a) :
    r.member? f.key read? default = some a := by
  have hname : f.key ∈ fieldNames := by cases f <;> decide
  rw [Record.member?, hr _ hname, lookup_written]
  by_cases hf : f ∈ written
  · rw [if_pos hf]; exact hread
  · rw [if_neg hf]; exact hdefault (hleft f hf)

theorem moduleType?_of_writes {t : ModuleType} {v : Value} (hid : t.id < idLimit) (hparams : t.params < countLimit)
    (h : WritesType t v) : moduleType? v = some t := by
  obtain ⟨written, members, rfl, hleft, hholds⟩ := h
  obtain ⟨r, hrecord, hr⟩ := record?_of_holds hholds
  have hid' : r.member? "id" (below? idLimit) none = some t.id :=
    member?_written hr hleft .id (below?_ofNat hid) fun h => h.elim
  have hname : r.member? "name" Value.text? none = some t.name :=
    member?_written hr hleft .name rfl fun h => h.elim
  have hinlets : r.member? "inlets" (list? rate?) (some []) = some t.inlets :=
    member?_written hr hleft .inlets (list?_ofRates t.inlets) fun h => congrArg some h.symm
  have houtlets : r.member? "outlets" (list? rate?) (some []) = some t.outlets :=
    member?_written hr hleft .outlets (list?_ofRates t.outlets) fun h => congrArg some h.symm
  have hparams' : r.member? "params" (below? countLimit) (some 0) = some t.params :=
    member?_written hr hleft .params (below?_ofNat hparams) fun h => congrArg some h.symm
  have hrecord : record? ["id", "name", "inlets", "outlets", "params"] (.object members) = some r := hrecord
  rw [moduleType?, hrecord]
  simp only [Option.bind_eq_bind, Option.bind_some, hid', hname, hinlets, houtlets, hparams']
  rfl

theorem moduleType?_of_defective {members : Members} (h : Defective fieldNames ["id", "name"] members) :
    moduleType? (.object members) = none := by
  rw [moduleType?]
  cases hrecord : record? ["id", "name", "inlets", "outlets", "params"] (.object members) with
  | none => rfl
  | some r =>
    obtain ⟨n, hn, hnone⟩ := exists_lacked_of_defective h hrecord
    simp only [List.mem_cons, List.not_mem_nil, or_false] at hn
    rcases hn with rfl | rfl
    · simp [Record.member?, hnone]
    · cases r.member? "id" (below? idLimit) none <;> simp [Record.member?, hnone]

/-! ## Files -/

theorem moduleTypes?_of_holds {items : List Value} {members : Members}
    (h : Holds ["modules"] [("modules", .array items)] members) :
    moduleTypes? (.object members) = items.mapM moduleType? := by
  obtain ⟨r, hrecord, hr⟩ := record?_of_holds h
  have hmodules : r "modules" = some (.array items) := hr "modules" (List.mem_singleton_self _)
  rw [moduleTypes?, hrecord, Option.bind_eq_bind, Option.bind_some, Record.member?, hmodules]
  rfl

theorem moduleTypes?_of_defective {members : Members} (h : Defective ["modules"] ["modules"] members) :
    moduleTypes? (.object members) = none := by
  rw [moduleTypes?]
  cases hrecord : record? ["modules"] (.object members) with
  | none => rfl
  | some r =>
    obtain ⟨n, hn, hnone⟩ := exists_lacked_of_defective h hrecord
    obtain rfl := List.mem_singleton.1 hn
    simp [Record.member?, hnone]

theorem ofJson_of_none {v : Value} {text origin : String} (htext : SpellsText v text) (h : moduleTypes? v = none) :
    ofJson text origin = .error (.malformed origin) := by
  rw [ofJson, Json.ofText?_of_spells htext, Option.bind_some, h]

def wholeItem (t : ModuleType) : Value := jsonObject (Field.all.map fun f => (f.key, f.value t))

theorem writesType_wholeItem (t : ModuleType) : WritesType t (wholeItem t) := by
  refine ⟨Field.all, _, rfl, fun f hf => absurd ?_ hf, ?_, [], List.forall_mem_nil _, ?_⟩
  · cases f <;> decide
  · exact (by decide : ["id", "name", "inlets", "outlets", "params"].Nodup)
  · rw [List.append_nil]

theorem printable_wholeItem (t : ModuleType) : Json.Printable (wholeItem t) := by
  have hrates (rates : List Rate) : Json.Printable (Field.ofRates rates) :=
    Json.printable_array (fun r => Json.printable_ofString (toString r)) rates
  exact Json.printable_object ⟨Json.printable_ofNat _, Json.printable_ofString _, hrates _, hrates _,
    Json.printable_ofNat _⟩

/-- Every list of types can be written in a file. -/
theorem exists_fileText (types : List ModuleType) :
    ∃ items text, List.Forall₂ WritesType types items ∧ FileText items text := by
  have hwrites : List.Forall₂ WritesType types (types.map wholeItem) :=
    List.forall₂_map_right_iff.2 (List.forall₂_same.2 fun t _ => writesType_wholeItem t)
  have hprintable : Json.Printable (jsonObject [("modules", .array (types.map wholeItem))]) :=
    Json.printable_object (Json.printable_array printable_wholeItem types)
  exact ⟨_, _, hwrites, _, ⟨by simp, [], List.forall_mem_nil _, .refl _⟩, Json.spellsText_pretty hprintable⟩

/-- Any list of types can be written, and a text in which it is written is read as the types, whatever the
    text does with the order of members, with what may be left out, with other members and with
    spelling. A text with a member written twice or left out is not read. -/
theorem ofJson_reads_written (origin : String) :
    (∀ types, ∃ items text, List.Forall₂ WritesType types items ∧ FileText items text) ∧
    (∀ types items text, (∀ t ∈ types, t.id < idLimit ∧ t.params < countLimit) → List.Forall₂ WritesType types items →
      FileText items text → ofJson text origin = ofTypes types) ∧
    (∀ items members text, .object members ∈ items → Defective fieldNames ["id", "name"] members →
      FileText items text → ofJson text origin = .error (.malformed origin)) ∧
    ∀ members text, Defective ["modules"] ["modules"] members → SpellsText (.object members) text →
      ofJson text origin = .error (.malformed origin) := by
  refine ⟨exists_fileText, fun types items text hrange hwrites hfile => ?_,
    fun items members text hmem hdefective hfile => ?_,
    fun members text hdefective htext => ofJson_of_none htext (moduleTypes?_of_defective hdefective)⟩
  · obtain ⟨members, hholds, htext⟩ := hfile
    have htypes : items.mapM moduleType? = some types :=
      mapM_eq_some_of_forall₂ hwrites fun t ht v hv => moduleType?_of_writes (hrange t ht).1 (hrange t ht).2 hv
    rw [ofJson, Json.ofText?_of_spells htext, Option.bind_some, moduleTypes?_of_holds hholds, htypes]
  · obtain ⟨outer, hholds, htext⟩ := hfile
    refine ofJson_of_none htext ?_
    rw [moduleTypes?_of_holds hholds]
    exact mapM_eq_none_of_mem hmem (moduleType?_of_defective hdefective)

def clefType : ModuleType := ⟨4294967295, "𝄞\n", [], [.audio, .control], 0⟩

def clefItem : Value :=
  .object [(some "outlets", .array [.string (some "a"), .string (some "k")]),
    (some "hue", .array [.number "-1.5e9", .object [(some "id", .null)]]), (some "name", .string (some "𝄞\n")),
    (some "id", .number "4294967295")]

/-- Members out of order, others beside them, a key and a name in escapes, a string that is no text. -/
def clefText : String :=
  "\x7b\"modules\": [\x7b\"outlets\": [\"a\", \"k\"], \"hue\": [-1.5e9, \x7b\"id\": null\x7d],\r\n" ++
    "\"name\": \"\\ud834\\uDD1e\\n\", \"\\u0069d\": 4294967295\x7d], \"version\": \"\\ud800\"\x7d\n"

theorem ofJson_reads_written_clefText :
    FileText [clefItem] clefText ∧ WritesType clefType clefItem ∧
      ofJson clefText "user.json" = ofTypes [clefType] ∧
      ofJson "\x7b\"modules\": [\x7b\"id\": 7, \"name\": \"\", \"id\": 7\x7d]\x7d" "user.json" =
        .error (.malformed "user.json") ∧
      ofJson "\x7b\"kinds\": []\x7d" "user.json" = .error (.malformed "user.json") := by
  have hfile : FileText [clefItem] clefText := by
    refine ⟨[(some "modules", .array [clefItem]), (some "version", .string none)],
      ⟨by decide, [("version", .string none)], by decide, .refl _⟩, Json.spells_of_ofText? ?_⟩
    cbv
  have hwrites : WritesType clefType clefItem := by
    refine ⟨[.outlets, .name, .id], _, rfl, fun f hf => ?_, by decide, [("hue", _)], by decide,
      .cons _ (List.perm_append_singleton _ [_, _]).symm⟩
    cases f with
    | inlets => rfl
    | params => rfl
    | id | name | outlets => exact absurd hf (by decide)
  let twice : Members := [(some "id", .number "7"), (some "name", .string (some "")), (some "id", .number "7")]
  have hreads := ofJson_reads_written "user.json"
  refine ⟨hfile, hwrites, hreads.2.1 _ _ _ (by decide) (.cons hwrites .nil) hfile, ?_, ?_⟩
  · refine hreads.2.2.1 [.object twice] twice _ List.mem_cons_self (.inl ⟨"id", by decide, .cons_mem (by decide)⟩)
      ⟨[(some "modules", .array [.object twice])], ⟨by decide, [], by decide, .refl _⟩, Json.spells_of_ofText? ?_⟩
    cbv
  · refine hreads.2.2.2 [(some "kinds", .array [])] _ (.inr ⟨"modules", by decide, by decide⟩)
      (Json.spells_of_ofText? ?_)
    cbv

end Patchbay.Catalog
