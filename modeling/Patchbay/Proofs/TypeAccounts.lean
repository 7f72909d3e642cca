/-
  Patchbay.Proofs.TypeAccounts — the types of a patch, and what becomes of each when it compiles.

  The types a patch uses, the templates of a set, its list of missing types, the validations and
  the blocks of a document are separate lists. One list of accounts, a type and its template, is
  behind all of them:
  - `find?_of_mem_usedTypes`: each type has the name of its first module.
  - `missing_exact_iff_none_inserted`: what is put into a loaded set does not leave the list of
    missing types, so that list is exact until a missing type is put in
    (`inserted_type_stays_missing`).
  - `templates_of_loadInto`, `loadInto_of_first_fault`: all that loading leaves in a set, and what
    ends it.
  - `Compilation.accountedBy`, `compile_accounts_for_types`: a compiled patch.
-/

import Patchbay.Proofs.Compilation

namespace Patchbay

/-! ## Used types -/

namespace Patch

theorem find?_of_mem_firstBy {α : Type} {key : α → Nat} {l : List α} {a : α} (h : a ∈ firstBy key l) :
    l.find? (key · == key a) = some a := by
  induction l using List.reverseRecOn with
  | nil => cases h
  | append_singleton l b ih =>
    rw [firstBy_concat] at h
    rw [List.find?_append]
    split at h
    · rw [ih h]
      rfl
    · next hb =>
      rcases List.mem_append.1 h with h | h
      · rw [ih h]
        rfl
      · obtain rfl := List.mem_singleton.1 h
        have hnone : l.find? (key · == key a) = none := by
          refine List.find?_eq_none.2 fun c hc heq => hb (mem_map_firstBy.2 ?_)
          rw [← beq_iff_eq.1 heq]
          exact List.mem_map_of_mem hc
        rw [hnone]
        simp

variable {p : Patch}

theorem find?_of_mem_usedTypes {u : UsedType} (h : u ∈ p.usedTypes) :
    ∃ m, p.modules.find? (·.typeId == u.typeId) = some m ∧ m.typeName = u.name := by
  have hfirst := find?_of_mem_firstBy h
  rw [List.find?_map] at hfirst
  obtain ⟨m, hm, rfl⟩ := Option.map_eq_some_iff.1 hfirst
  exact ⟨m, hm, rfl⟩

theorem types_eq_of_connect {counter : BusCounter} {routed : Routing.Routed} (h : p.connect counter = .ok routed) :
    routed.types = p.usedTypes := by
  obtain ⟨ls, -, hrouted⟩ := exists_links_of_connect h
  rw [types_of_connect h, hrouted]
  exact usedTypes_of_withoutBuses (Routing.withoutBuses_committed _ _)

end Patch

namespace TemplateSet

variable {source : Template.Source} {s s' : TemplateSet} {p : Patch}

/-! ## Templates put in -/

theorem missing_foldl_insert (s : TemplateSet) (ts : List Template) : (ts.foldl insert s).missing = s.missing := by
  induction ts generalizing s with
  | nil => rfl
  | cons t ts ih => exact ih (s.insert t)

/-- The last template of a type that is put in counts. -/
theorem get?_foldl_insert (s : TemplateSet) (ts : List Template) (typeId : Nat) :
    (ts.foldl insert s).get? typeId = (ts.reverse.find? (·.typeId == typeId)).or (s.get? typeId) := by
  induction ts using List.reverseRecOn with
  | nil => rfl
  | append_singleton ts t ih =>
    rw [List.foldl_concat, get?_insert, ih, List.reverse_concat]
    by_cases h : t.typeId = typeId
    · rw [if_pos h, List.find?_cons_of_pos (by simpa using h)]
      rfl
    · rw [if_neg h, List.find?_cons_of_neg (by simpa using h)]

theorem missing_of_load {types : List UsedType} (h : (load source types).value = .ok s) :
    s.missing = (types.map UsedType.typeId).filter fun typeId => (s.get? typeId).isNone := by
  rw [missing_of_loadInto h, List.nil_append]
  refine List.filter_congr fun typeId hmem => ?_
  rw [get?_of_load h, if_pos hmem]

/-- Once a set is loaded for the types of a patch, its missing types are those without a template,
    each once, in the order of the types, and they stay as they are whatever is put in. So they are
    exact as long as, and only as long as, no template of a missing type is put in. -/
theorem missing_exact_iff_none_inserted (h : (load source p.usedTypes).value = .ok s) (ts : List Template) :
    (ts.foldl insert s).missing = s.missing ∧ s.missing.Nodup ∧
    (∀ typeId, (ts.foldl insert s).get? typeId = (ts.reverse.find? (·.typeId == typeId)).or (s.get? typeId)) ∧
    s.missing = (p.usedTypes.map UsedType.typeId).filter (fun typeId => (s.get? typeId).isNone) ∧
    ((ts.foldl insert s).missing =
        (p.usedTypes.map UsedType.typeId).filter (fun typeId => ((ts.foldl insert s).get? typeId).isNone) ↔
      ∀ t ∈ ts, t.typeId ∉ s.missing) := by
  have hmissing := missing_of_load h
  refine ⟨missing_foldl_insert s ts, ?_, get?_foldl_insert s ts, hmissing, ?_⟩
  · rw [hmissing]
    exact p.nodup_usedTypes.filter _
  · rw [missing_foldl_insert]
    constructor
    · intro hexact t ht hmem
      rw [hexact, List.mem_filter, get?_foldl_insert] at hmem
      have hnone := Option.isNone_iff_eq_none.1 hmem.2
      rw [Option.or_eq_none_iff, List.find?_eq_none] at hnone
      exact hnone.1 t (List.mem_reverse.2 ht) (beq_self_eq_true t.typeId)
    · intro hnew
      rw [hmissing]
      refine List.filter_congr fun typeId hmem => ?_
      rw [get?_foldl_insert]
      cases hget : s.get? typeId with
      | some t => simp
      | none =>
        have hmiss : typeId ∈ s.missing := by
          rw [hmissing, List.mem_filter, hget]
          exact ⟨hmem, rfl⟩
        have hput : ts.reverse.find? (·.typeId == typeId) = none :=
          List.find?_eq_none.2 fun t ht heq => hnew t (List.mem_reverse.1 ht) (beq_iff_eq.1 heq ▸ hmiss)
        rw [hput]
        rfl

def loneModule : Patch where
  modules := [.place .empty .voice 9 1]

theorem missing_exact_iff_none_inserted_loneModule :
    (load (.texts [(7, ";@ args\n")]) loneModule.usedTypes).value = .ok ⟨[], [9]⟩ ∧
    (∀ t ∈ [(⟨7, {}, "", "7.txt"⟩ : Template)], t.typeId ∉ [9]) ∧
    (insert ⟨[], [9]⟩ ⟨7, {}, "", "7.txt"⟩).missing = (loneModule.usedTypes.map UsedType.typeId).filter
      fun typeId => ((insert ⟨[], [9]⟩ ⟨7, {}, "", "7.txt"⟩).get? typeId).isNone := by
  have hload : (load (.texts [(7, ";@ args\n")]) loneModule.usedTypes).value = .ok ⟨[], [9]⟩ := rfl
  have hother : ∀ t ∈ [(⟨7, {}, "", "7.txt"⟩ : Template)], t.typeId ∉ [9] := by decide
  obtain ⟨-, -, -, -, hexact⟩ := missing_exact_iff_none_inserted hload [⟨7, {}, "", "7.txt"⟩]
  exact ⟨hload, hother, hexact.2 hother⟩

/-- A type stays among the missing ones although its template was put in. -/
theorem inserted_type_stays_missing :
    (load (.texts []) loneModule.usedTypes).value = .ok ⟨[], [9]⟩ ∧
    (insert ⟨[], [9]⟩ ⟨9, {}, "", "9.txt"⟩).get? 9 = some ⟨9, {}, "", "9.txt"⟩ ∧
    (insert ⟨[], [9]⟩ ⟨9, {}, "", "9.txt"⟩).missing = [9] ∧
    (loneModule.usedTypes.map UsedType.typeId).filter
      (fun typeId => ((insert ⟨[], [9]⟩ ⟨9, {}, "", "9.txt"⟩).get? typeId).isNone) = [] :=
  ⟨rfl, rfl, rfl, rfl⟩

/-! ## Loading -/

/-- Loading leaves in a set what it was given for the types, and nothing else. -/
theorem templates_of_loadInto {ids : List Nat} (h : (loadInto source s ids).value = .ok s') (hnodup : ids.Nodup)
    (hfresh : ∀ t ∈ s.templates, t.typeId ∉ ids) :
    s'.templates = (ids.filterMap source.given?).reverse ++ s.templates := by
  induction ids generalizing s with
  | nil =>
    cases h
    rfl
  | cons first ids ih =>
    obtain ⟨hfirst, hnodup⟩ := List.nodup_cons.1 hnodup
    rcases loadInto_cons h with ⟨t, ht, h, -⟩ | ⟨hnone, h, -⟩
    · have htype : t.typeId = first := Template.typeId_of_given? ht
      have hinsert : (s.insert t).templates = t :: s.templates := by
        refine congrArg (t :: ·) (List.filter_eq_self.2 fun u hu => decide_eq_true fun heq => hfresh u hu ?_)
        rw [heq, htype]
        exact List.mem_cons_self
      have hfresh' : ∀ u ∈ (s.insert t).templates, u.typeId ∉ ids := by
        rw [hinsert]
        intro u hu
        rcases List.mem_cons.1 hu with rfl | hu
        · rwa [htype]
        · exact fun hmem => hfresh u hu (List.mem_cons_of_mem _ hmem)
      rw [ih h hnodup hfresh', hinsert, List.filterMap_cons_some ht, List.reverse_cons, List.append_assoc]
      rfl
    · rw [ih h hnodup fun u hu hmem => hfresh u hu (List.mem_cons_of_mem _ hmem), List.filterMap_cons_none hnone]

/-- The first type whose template is there but cannot be loaded ends the loading. -/
theorem loadInto_of_first_fault {before after : List Nat} {typeId : Nat} {e : TemplateError}
    (hbefore : ∀ k ∈ before, ∀ e, (source.load k).value = .error e → ∃ n, e = .notFound n)
    (hload : (source.load typeId).value = .error e) (hfault : ∀ n, e ≠ .notFound n) :
    (loadInto source s (before ++ typeId :: after)).value = .error e := by
  induction before generalizing s with
  | nil =>
    simp only [List.nil_append, loadInto, Logged.value_bind, hload]
    cases e with
    | notFound n => exact absurd rfl (hfault n)
    | unreadable | malformed => rfl
  | cons k before ih =>
    have hrest := fun s => @ih s fun i hi => hbefore i (List.mem_cons_of_mem _ hi)
    simp only [List.cons_append, loadInto, Logged.value_bind]
    cases hk : (source.load k).value with
    | ok t => exact hrest _
    | error e' =>
      obtain ⟨n, rfl⟩ := hbefore k List.mem_cons_self e' hk
      exact hrest _

end TemplateSet

/-! ## Accounts -/

structure Account where
  type : UsedType
  template : Option Template

namespace Account

def TrueOf (a : Account) (source : Template.Source) : Prop :=
  match a.template with
  | some t => (source.load a.type.typeId).value = .ok t ∧ t.typeId = a.type.typeId
  | none => ∃ n, (source.load a.type.typeId).value = .error (.notFound n)

/-- The block of a document: a definition, or a comment that there is none, and an empty line. -/
def block (a : Account) : String :=
  (match a.template with
  | some t => Document.definitionOf t.typeId a.type.name t.signature t.body
  | none =>
    let name := a.type.name.getD "?"
    s!"; {name} (type {a.type.typeId}): no template for Mod{a.type.typeId}\n") ++ "\n"

theorem block_eq (templates : TemplateSet) (u : UsedType) :
    block ⟨u, templates.get? u.typeId⟩ = Document.definition templates u := by
  unfold block Document.definition
  cases templates.get? u.typeId with
  | some t => simp only [Document.definition_eq_definitionOf]
  | none =>
    have hwords : toString "): no template for Mod" = toString "): no template for " ++ "Mod" := rfl
    have hname : toString (Template.opcodeName u.typeId) = "Mod" ++ toString u.typeId := rfl
    simp only [hwords, hname, ← String.append_assoc]

theorem trueOf_of_load {source : Template.Source} {types : List UsedType} {s : TemplateSet}
    (h : (TemplateSet.load source types).value = .ok s) {u : UsedType} (hu : u ∈ types) :
    TrueOf ⟨u, s.get? u.typeId⟩ source := by
  have hmem : u.typeId ∈ types.map UsedType.typeId := List.mem_map_of_mem hu
  have hget : s.get? u.typeId = (source.load u.typeId).value.toOption := by
    rw [TemplateSet.get?_of_load h, if_pos hmem]
    rfl
  rw [hget]
  rcases TemplateSet.load_of_loadInto h hmem with ⟨t, ht⟩ | ⟨n, hn⟩
  · rw [ht]
    exact ⟨ht, Template.typeId_of_load ht⟩
  · rw [hn]
    exact ⟨n, hn⟩

end Account

/-- All that a compiled patch says of its types is what the accounts say, in their order. -/
structure Compiled.AccountedBy (c : Compiled) (catalog : Catalog) (source : Template.Source) (o : DocumentOptions)
    (accounts : List Account) : Prop where
  types : c.types = accounts.map Account.type
  sources : ∀ a ∈ accounts, a.TrueOf source
  found : ∀ a ∈ accounts, c.templates.get? a.type.typeId = a.template
  loaded : c.templates.templates.Perm (accounts.filterMap Account.template)
  missing : c.missing = (accounts.filter fun a => a.template.isNone).map fun a => a.type.typeId
  apart : ∀ a ∈ accounts, a.type.typeId ∈ c.missing ↔ a.template = none
  validations : c.validations = (accounts.filterMap Account.template).map (Template.validate catalog)
  text : ∃ space, c.text = Document.assembled o space (accounts.map Account.block) (c.patch.modules.map fun m =>
    Document.callOf m.typeId (c.patch.paramValues m.area m.id ++ m.inletBuses ++ m.outletBuses))

theorem Compilation.accountedBy {catalog : Catalog} {source : Template.Source} {o : DocumentOptions} {p : Patch}
    {c : Compiled} (h : Compilation catalog source o p c) :
    c.AccountedBy catalog source o (c.types.map fun u => ⟨u, c.templates.get? u.typeId⟩) := by
  have hload : (TemplateSet.load source c.types).value = .ok c.templates := h.types_eq ▸ h.load_eq
  have hnodup : (c.types.map UsedType.typeId).Nodup := h.usedTypes_eq ▸ c.patch.nodup_usedTypes
  have htemplates : (c.types.map fun u => (⟨u, c.templates.get? u.typeId⟩ : Account)).filterMap Account.template =
      c.types.filterMap fun u => c.templates.get? u.typeId := List.filterMap_map
  refine ⟨?_, fun a ha => ?_, fun a ha => ?_, ?_, ?_, fun a ha => ?_, ?_, ?_⟩
  · rw [List.map_map]
    exact (List.map_id _).symm
  · obtain ⟨u, hu, rfl⟩ := List.mem_map.1 ha
    exact Account.trueOf_of_load hload hu
  · obtain ⟨u, -, rfl⟩ := List.mem_map.1 ha
    rfl
  · have hgiven : (c.types.map UsedType.typeId).filterMap source.given? =
        c.types.filterMap fun u => c.templates.get? u.typeId := by
      rw [List.filterMap_map]
      refine List.filterMap_congr fun u hu => ?_
      rw [TemplateSet.get?_of_load hload, if_pos (List.mem_map_of_mem hu)]
      rfl
    have hleft := TemplateSet.templates_of_loadInto hload hnodup fun t ht => absurd ht List.not_mem_nil
    rw [htemplates, ← hgiven, hleft, List.append_nil]
    exact List.reverse_perm _
  · unfold Compiled.missing
    rw [TemplateSet.missing_of_load hload, List.filter_map, List.filter_map, List.map_map]
    rfl
  · obtain ⟨u, hu, rfl⟩ := List.mem_map.1 ha
    exact TemplateSet.mem_missing_of_load hload hu
  · rw [htemplates, h.validations_eq]
    rfl
  · have hblocks : (c.types.map fun u => (⟨u, c.templates.get? u.typeId⟩ : Account)).map Account.block =
        c.types.map (Document.definition c.templates) := by
      rw [List.map_map]
      exact List.map_congr_left fun u _ => Account.block_eq c.templates u
    refine ⟨h.routed.counter.spaceSize, ?_⟩
    rw [h.text_eq, Document.render_eq_assembled, hblocks]

/-- The types of a patch are those of its modules, each once, in the order of the first module of
    each and with the name of that module. If the patch compiles, each type is accounted for once:
    its template is missing, or it is in the set, has its validation and its definition. If it is
    routed and some template is there but cannot be loaded, the first such fault is what compiling
    comes to. -/
theorem compile_accounts_for_types (catalog : Catalog) (source : Template.Source) (o : DocumentOptions) (p : Patch) :
    (Patch.FirstSeen (p.modules.map PatchModule.typeId) (p.usedTypes.map UsedType.typeId) ∧
      (p.usedTypes.map UsedType.typeId).Nodup ∧
      ∀ u ∈ p.usedTypes, ∃ m, p.modules.find? (·.typeId == u.typeId) = some m ∧ m.typeName = u.name) ∧
    (∀ c, (p.compile catalog source o).value = .ok c → c.types = p.usedTypes ∧
      ∃ accounts, c.AccountedBy catalog source o accounts) ∧
    ∀ routed before u after e, p.connect {} = .ok routed → routed.types = before ++ u :: after →
      (∀ v ∈ before, ∀ e', (source.load v.typeId).value = .error e' → ∃ n, e' = .notFound n) →
      (source.load u.typeId).value = .error e → (∀ n, e ≠ .notFound n) →
      routed.types = p.usedTypes ∧ (p.compile catalog source o).value = .error (.template e) := by
  refine ⟨⟨p.firstSeen_usedTypes, p.nodup_usedTypes, fun u hu => Patch.find?_of_mem_usedTypes hu⟩,
    fun c hc => ?_, fun routed before u after e hrouted hsplit hbefore hload hfault => ?_⟩
  · obtain ⟨h⟩ := Patch.exists_compilation hc
    exact ⟨h.types_eq.trans (Patch.types_eq_of_connect h.connect_eq), _, h.accountedBy⟩
  · refine ⟨Patch.types_eq_of_connect hrouted, ?_⟩
    have hset : (TemplateSet.load source routed.types).value = .error e := by
      unfold TemplateSet.load
      rw [hsplit, List.map_append, List.map_cons]
      refine TemplateSet.loadInto_of_first_fault (fun k hk => ?_) hload hfault
      obtain ⟨v, hv, rfl⟩ := List.mem_map.1 hk
      exact hbefore v hv
    unfold Patch.compile
    simp only [hrouted, Logged.value_bind, hset]
    rfl

def mixedTypes : Patch where
  modules := [.place Routing.mixers .voice 7 1, .place Routing.mixers .voice 9 2, .place Routing.mixers .fx 7 1]

def mixerOnly : Template.Source := .texts [(7, ";@ args\n;@ ins a\n;@ outs a\niIn, iOut xin\n")]

def mixedAccounts : List Account :=
  [⟨⟨7, some "Mixer"⟩, some ⟨7, ⟨some [], some [.audio], some [.audio]⟩, "iIn, iOut xin", "<template 7>"⟩⟩,
    ⟨⟨9, none⟩, none⟩]

def faultyOnly : Template.Source := .texts [(9, ";@ ins x\n")]

open Routing in
theorem compile_accounts_for_types_mixedTypes :
    mixedTypes.usedTypes = [⟨7, some "Mixer"⟩, ⟨9, none⟩] ∧
    (∃ c, (mixedTypes.compile mixers mixerOnly {}).value = .ok c ∧ c.missing = [9] ∧
      c.AccountedBy mixers mixerOnly {} mixedAccounts) ∧
    mixedAccounts.map Account.block = ["; Mixer (type 7)\nopcode Mod7, 0, ii\niIn, iOut xin\nendop\n\n",
      "; ? (type 9): no template for Mod9\n\n"] ∧
    (mixedTypes.compile mixers faultyOnly {}).value =
      .error (.template (.malformed "<template 9>" 1 (.notJackRate "x"))) := by
  have htypes : mixedTypes.usedTypes = [⟨7, some "Mixer"⟩] ++ ⟨9, none⟩ :: [] := by decide
  refine ⟨htypes, ?_, by decide +kernel, ?_⟩
  · obtain ⟨-, haccounts, -⟩ := compile_accounts_for_types mixers mixerOnly {} mixedTypes
    have hcompiles : (mixedTypes.compile mixers mixerOnly {}).value.toOption.map (fun c =>
        (c.missing, c.types.map fun u => (u, c.templates.get? u.typeId))) =
          some ([9], mixedAccounts.map fun a => (a.type, a.template)) := by decide +kernel
    obtain ⟨c, hc, hparts⟩ := Option.map_eq_some_iff.1 hcompiles
    have hc := eq_ok_of_toOption_eq_some hc
    obtain ⟨hmissing, hfound⟩ := Prod.mk.inj hparts
    obtain ⟨-, accounts, hall⟩ := haccounts c hc
    have heq : accounts.map (fun a => (a.type, a.template)) = mixedAccounts.map fun a => (a.type, a.template) := by
      rw [← hfound, hall.types, List.map_map]
      exact List.map_congr_left fun a ha => Prod.ext rfl (hall.found a ha).symm
    have hinjective : Function.Injective fun a : Account => (a.type, a.template) := by
      rintro ⟨_, _⟩ ⟨_, _⟩ h
      cases h
      rfl
    obtain rfl := List.map_injective_iff.2 hinjective heq
    exact ⟨c, hc, hmissing, hall⟩
  · obtain ⟨-, -, hfaults⟩ := compile_accounts_for_types mixers faultyOnly {} mixedTypes
    obtain ⟨routed, hrouted⟩ : ∃ routed, mixedTypes.connect {} = .ok routed := ⟨_, rfl⟩
    have hsplit := (Patch.types_eq_of_connect hrouted).trans htypes
    refine (hfaults routed _ _ _ _ hrouted hsplit (fun v hv e he => ?_) ?_ ?_).2
    · obtain rfl := List.mem_singleton.1 hv
      exact ⟨7, (Except.error.inj he).symm⟩
    · decide +kernel
    · rintro n ⟨⟩

end Patchbay
