/-
  Patchbay.Proofs.DirectiveTokens — directives and the pieces of their texts.

  The lexer of directives goes by rules: three keywords, three letters and words are tokens, runs of
  separators are passed over, the longest match counts, and of two rules that match as much a fixed
  text goes before a word. What no rule matches is a lexeme of one character. Although a letter also
  starts words, and characters that start no word need no separator before them, the directives are
  those that plain splitting at separators gives:
  - `Tokenized.text_eq`: the lexemes are those of the longest matches.
  - `Tokenized.rule_eq_iff`: a lexeme is a keyword or a letter iff that is all of its text.
  - `lexemes_eq_iff`: if all are words, the lexemes are the pieces between separators.
  - `ofText_reads_pieces`: the directives that are read, and the texts with none.
-/

import Mathlib.Data.List.DropRight
import Mathlib.Data.Set.List
import Patchbay.Template.Directive

namespace Patchbay.Directive

/-! ## Rules -/

def IsWord (cs : List Char) : Prop :=
  ∃ c rest, cs = c :: rest ∧ isWordStart c = true ∧ ∀ d ∈ rest, isWordRest d = true

inductive Fixed where
  | keyword (kind : SlotKind)
  | audio
  | control
  | init
  deriving DecidableEq, Repr

def Fixed.text : Fixed → String
  | .keyword kind => kind.keyword
  | .audio => "a"
  | .control => "k"
  | .init => "i"

inductive TokenRule where
  | fixed (f : Fixed)
  | word
  deriving DecidableEq, Repr

namespace TokenRule

def Matches : TokenRule → List Char → Prop
  | .fixed f, cs => cs = f.text.toList
  | .word, cs => IsWord cs

/-- Of the rules that match a lexeme the one of the highest rank makes the token. -/
def rank : TokenRule → Nat
  | .fixed _ => 1
  | .word => 0

end TokenRule

def Matched (cs : List Char) : Prop :=
  (cs ≠ [] ∧ ∀ c ∈ cs, isSeparator c = true) ∨ ∃ r : TokenRule, r.Matches cs

/-- `lexeme` is matched, and nothing longer is that `lexeme ++ rest` starts with. -/
def Longest (lexeme rest : List Char) : Prop :=
  Matched lexeme ∧ ∀ start, start <+: lexeme ++ rest → Matched start → start.length ≤ lexeme.length

structure Token where
  /-- `none` where no rule applies. -/
  rule : Option TokenRule
  text : String
  deriving DecidableEq, Repr

inductive Tokenized : List Char → List Token → Prop where
  | nil : Tokenized [] []
  | skip {run rest : List Char} {tokens : List Token} : Longest run rest → (∀ c ∈ run, isSeparator c = true) →
      Tokenized rest tokens → Tokenized (run ++ rest) tokens
  | token {lexeme rest : List Char} {r : TokenRule} {tokens : List Token} : Longest lexeme rest →
      r.Matches lexeme → (∀ r' : TokenRule, r'.Matches lexeme → r'.rank ≤ r.rank) → Tokenized rest tokens →
      Tokenized (lexeme ++ rest) (⟨some r, String.ofList lexeme⟩ :: tokens)
  | fault {c : Char} {rest : List Char} {tokens : List Token} : (∀ start, start <+: c :: rest → ¬Matched start) →
      Tokenized rest tokens → Tokenized (c :: rest) (⟨none, c.toString⟩ :: tokens)

/-! ## Characters -/

theorem isWordRest_of_isWordStart {c : Char} (h : isWordStart c = true) : isWordRest c = true := by
  simp only [isWordStart, isWordRest, Char.isAlphanum, Bool.or_eq_true] at h ⊢
  tauto

theorem not_isSeparator_of_isWordRest {c : Char} (h : isWordRest c = true) : isSeparator c = false := by
  by_contra hsep
  simp only [isSeparator, Bool.not_eq_false, Bool.or_eq_true, decide_eq_true_eq] at hsep
  rcases hsep with (rfl | rfl) | rfl <;> exact absurd h (by decide)

theorem not_isSeparator_of_isWordStart {c : Char} (h : isWordStart c = true) : isSeparator c = false :=
  not_isSeparator_of_isWordRest (isWordRest_of_isWordStart h)

theorem IsWord.isWordRest {cs : List Char} (h : IsWord cs) : ∀ c ∈ cs, isWordRest c = true := by
  obtain ⟨c, rest, rfl, hc, hrest⟩ := h
  intro d hd
  rcases List.mem_cons.1 hd with rfl | hd
  · exact isWordRest_of_isWordStart hc
  · exact hrest d hd

theorem IsWord.ofList_ne {cs : List Char} (h : IsWord cs) {d : Char} (hd : isWordStart d = false) :
    String.ofList cs ≠ d.toString := by
  obtain ⟨c, rest, rfl, hc, -⟩ := h
  intro heq
  have hcons := congrArg String.toList heq
  rw [String.toList_ofList, Char.toString, String.toList_singleton] at hcons
  rw [← (List.cons.inj hcons).1, hc] at hd
  cases hd

theorem Fixed.isWord_text (f : Fixed) : IsWord f.text.toList := by
  rcases f with (_ | _ | _) | _ | _ | _ <;> exact ⟨_, _, rfl, by decide, List.all_eq_true.1 (by decide)⟩

theorem Fixed.text_injective {f g : Fixed} (h : f.text = g.text) : f = g := by
  rcases f with (_ | _ | _) | _ | _ | _ <;> rcases g with (_ | _ | _) | _ | _ | _ <;>
    first | rfl | exact absurd h (by decide)

theorem TokenRule.Matches.isWord {r : TokenRule} {cs : List Char} (h : r.Matches cs) : IsWord cs := by
  cases r with
  | fixed f =>
    obtain rfl : cs = f.text.toList := h
    exact f.isWord_text
  | word => exact h

/-! ## Lexemes -/

variable {cs rest : List Char} {c : Char}

theorem lexemes_cons_of_isSeparator (h : isSeparator c = true) : lexemes (c :: rest) = lexemes rest := by
  rw [lexemes, if_pos h]

theorem lexemes_append_of_isSeparator {run : List Char} (h : ∀ c ∈ run, isSeparator c = true) (rest : List Char) :
    lexemes (run ++ rest) = lexemes rest := by
  induction run with
  | nil => rfl
  | cons c run ih =>
    rw [List.cons_append, lexemes_cons_of_isSeparator (h c List.mem_cons_self)]
    exact ih fun d hd => h d (List.mem_cons_of_mem _ hd)

theorem lexemes_cons_of_isWordStart (h : isWordStart c = true) : lexemes (c :: rest) =
    String.ofList (c :: rest.takeWhile isWordRest) :: lexemes (rest.dropWhile isWordRest) := by
  rw [lexemes, if_neg (by simp [not_isSeparator_of_isWordStart h]), if_pos h]

theorem lexemes_cons_of_not (hsep : isSeparator c = false) (hword : isWordStart c = false) :
    lexemes (c :: rest) = c.toString :: lexemes rest := by
  rw [lexemes, if_neg (by simp [hsep]), if_neg (by simp [hword])]

/-- A word that ends where no character goes on with it is a lexeme. -/
theorem lexemes_append_of_isWord {word : List Char} (hword : IsWord word)
    (hend : ∀ d, rest.head? = some d → isWordRest d = false) :
    lexemes (word ++ rest) = String.ofList word :: lexemes rest := by
  obtain ⟨c, run, rfl, hc, hrun⟩ := hword
  have hstop : rest.takeWhile isWordRest = [] ∧ rest.dropWhile isWordRest = rest := by
    cases rest with
    | nil => exact ⟨rfl, rfl⟩
    | cons d ds => simp [hend d rfl]
  rw [List.cons_append, lexemes_cons_of_isWordStart hc, List.takeWhile_append_of_pos hrun,
    List.dropWhile_append_of_pos hrun, hstop.1, hstop.2, List.append_nil]

/-! ## Longest matches -/

theorem Longest.end_of_isWord {word : List Char} (h : Longest word rest) (hword : IsWord word) :
    ∀ d, rest.head? = some d → isWordRest d = false := by
  intro d hd
  by_contra hgoes
  obtain ⟨c, run, rfl, hc, hrun⟩ := hword
  have hlonger : Matched (c :: run ++ [d]) := by
    refine .inr ⟨.word, c, run ++ [d], rfl, hc, fun e he => ?_⟩
    rcases List.mem_append.1 he with he | he
    · exact hrun e he
    · obtain rfl := List.mem_singleton.1 he
      exact Bool.not_eq_false _ ▸ hgoes
  have hstart : c :: run ++ [d] <+: c :: run ++ rest := by
    cases rest with
    | nil => cases hd
    | cons e es =>
      obtain rfl : e = d := Option.some.inj hd
      exact ⟨es, by rw [List.append_assoc, List.singleton_append]⟩
  have := h.2 _ hstart hlonger
  rw [List.length_append, List.length_singleton] at this
  omega

/-- What is matched starts with a separator and holds nothing else, or is a word. -/
theorem Matched.cases {start : List Char} (h : Matched start) :
    (∃ c run, start = c :: run ∧ ∀ d ∈ start, isSeparator d = true) ∨ IsWord start := by
  rcases h with ⟨hne, hsep⟩ | ⟨r, hr⟩
  · obtain ⟨c, run, rfl⟩ := List.exists_cons_of_ne_nil hne
    exact .inl ⟨c, run, rfl, hsep⟩
  · exact .inr hr.isWord

/-- The longest run of characters of one kind is a longest match, where those kinds exclude each other. -/
theorem longest_of_forall {p : Char → Bool} {lexeme : List Char} (hmatched : Matched lexeme)
    (hall : ∀ start c, start <+: lexeme ++ rest → Matched start → c ∈ start → p c = true)
    (hend : ∀ d, rest.head? = some d → p d = false) : Longest lexeme rest := by
  refine ⟨hmatched, fun start hstart hs => ?_⟩
  by_contra hlonger
  -- A longer start would take in the character that ends the run.
  obtain ⟨more, rfl⟩ : lexeme <+: start :=
    List.prefix_of_prefix_length_le (List.prefix_append _ _) hstart (by omega)
  cases more with
  | nil => exact hlonger (by simp)
  | cons d more =>
    have hrest : d :: more <+: rest := (List.prefix_append_right_inj _).1 hstart
    have hd : rest.head? = some d := by
      obtain ⟨tail, rfl⟩ := hrest
      rfl
    have hp := hall _ d hstart hs (List.mem_append_right _ List.mem_cons_self)
    rw [hend d hd] at hp
    cases hp

theorem head?_dropWhile {p : Char → Bool} (cs : List Char) : ∀ d, (cs.dropWhile p).head? = some d → p d = false := by
  intro d hd
  have := List.head?_dropWhile_not p cs
  rw [hd] at this
  simpa using this

theorem longest_takeWhile_isSeparator (hc : isSeparator c = true) :
    Longest (c :: rest.takeWhile isSeparator) (rest.dropWhile isSeparator) := by
  have hrun : ∀ d ∈ c :: rest.takeWhile isSeparator, isSeparator d = true := by
    intro d hd
    rcases List.mem_cons.1 hd with rfl | hd
    · exact hc
    · exact List.mem_takeWhile_imp hd
  refine longest_of_forall (.inl ⟨List.cons_ne_nil _ _, hrun⟩) (fun start d hstart hs hd => ?_) (head?_dropWhile rest)
  rcases hs.cases with ⟨-, -, -, hsep⟩ | ⟨e, run, rfl, he, -⟩
  · exact hsep d hd
  · obtain rfl : e = c := (List.cons_prefix_cons.1 hstart).1
    rw [not_isSeparator_of_isWordStart he] at hc
    cases hc

theorem longest_takeWhile_isWordRest (hc : isWordStart c = true) :
    Longest (c :: rest.takeWhile isWordRest) (rest.dropWhile isWordRest) := by
  have hword : IsWord (c :: rest.takeWhile isWordRest) := ⟨c, _, rfl, hc, fun d hd => List.mem_takeWhile_imp hd⟩
  refine longest_of_forall (.inr ⟨.word, hword⟩) (fun start d hstart hs hd => ?_) (head?_dropWhile rest)
  rcases hs.cases with ⟨e, run, rfl, hsep⟩ | hword
  · obtain rfl : e = c := (List.cons_prefix_cons.1 hstart).1
    have := hsep e List.mem_cons_self
    rw [not_isSeparator_of_isWordStart hc] at this
    cases this
  · exact hword.isWordRest d hd

/-- Some rule of the highest rank matches a word. -/
theorem exists_rule_of_isWord (h : IsWord cs) :
    ∃ r : TokenRule, r.Matches cs ∧ ∀ r' : TokenRule, r'.Matches cs → r'.rank ≤ r.rank := by
  by_cases hfixed : ∃ f : Fixed, cs = f.text.toList
  · obtain ⟨f, hf⟩ := hfixed
    refine ⟨.fixed f, hf, fun r' _ => ?_⟩
    cases r' with
    | fixed g => exact Nat.le_refl 1
    | word => exact Nat.zero_le 1
  · refine ⟨.word, h, fun r' hr' => ?_⟩
    cases r' with
    | fixed f => exact absurd ⟨f, hr'⟩ hfixed
    | word => exact Nat.le_refl _

/-! ## Tokens -/

/-- Every text has tokens. -/
theorem exists_tokenized (cs : List Char) : ∃ tokens, Tokenized cs tokens := by
  match cs with
  | [] => exact ⟨[], .nil⟩
  | c :: rest =>
    by_cases hsep : isSeparator c = true
    · have hshorter := (List.dropWhile_sublist isSeparator (l := rest)).length_le
      obtain ⟨tokens, h⟩ := exists_tokenized (rest.dropWhile isSeparator)
      have hskip := h.skip (longest_takeWhile_isSeparator hsep) fun d hd => by
        rcases List.mem_cons.1 hd with rfl | hd
        · exact hsep
        · exact List.mem_takeWhile_imp hd
      rw [List.cons_append, List.takeWhile_append_dropWhile] at hskip
      exact ⟨tokens, hskip⟩
    by_cases hword : isWordStart c = true
    · have hshorter := (List.dropWhile_sublist isWordRest (l := rest)).length_le
      obtain ⟨tokens, h⟩ := exists_tokenized (rest.dropWhile isWordRest)
      have hlongest : Longest (c :: rest.takeWhile isWordRest) (rest.dropWhile isWordRest) :=
        longest_takeWhile_isWordRest hword
      obtain ⟨r, hr, hrank⟩ := exists_rule_of_isWord
        (⟨c, _, rfl, hword, fun d hd => List.mem_takeWhile_imp hd⟩ : IsWord (c :: rest.takeWhile isWordRest))
      have htoken := h.token hlongest hr hrank
      rw [List.cons_append, List.takeWhile_append_dropWhile] at htoken
      exact ⟨_, htoken⟩
    · obtain ⟨tokens, h⟩ := exists_tokenized rest
      refine ⟨_, h.fault fun start hstart hs => ?_⟩
      rcases hs.cases with ⟨d, run, rfl, hrun⟩ | ⟨d, run, rfl, hd, -⟩
      · obtain rfl : d = c := (List.cons_prefix_cons.1 hstart).1
        exact hsep (hrun d List.mem_cons_self)
      · obtain rfl : d = c := (List.cons_prefix_cons.1 hstart).1
        exact hword hd
termination_by cs.length
decreasing_by
  · exact Nat.lt_succ_of_le hshorter
  · exact Nat.lt_succ_of_le hshorter
  · exact Nat.lt_succ_self _

variable {ts : List Token}

namespace Tokenized

theorem text_eq (h : Tokenized cs ts) : ts.map Token.text = lexemes cs := by
  induction h with
  | nil => simp [lexemes]
  | skip _ hsep _ ih => rw [lexemes_append_of_isSeparator hsep, ih]
  | token hlongest hr _ _ ih =>
    rw [lexemes_append_of_isWord hr.isWord (hlongest.end_of_isWord hr.isWord), List.map_cons, ih]
  | @fault c rest tokens hnone _ ih =>
    have hfirst (hm : Matched [c]) : False := hnone [c] ⟨rest, rfl⟩ hm
    have hsep : isSeparator c = false := by
      by_contra h
      exact hfirst (.inl ⟨by simp, by simpa using h⟩)
    have hword : isWordStart c = false := by
      by_contra h
      exact hfirst (.inr ⟨.word, c, [], rfl, by simpa using h, by simp⟩)
    rw [lexemes_cons_of_not hsep hword, List.map_cons, ih]

/-- The rule of a token is that of a fixed text iff it has that text. -/
theorem rule_eq_iff (h : Tokenized cs ts) :
    ∀ t ∈ ts, ∀ f : Fixed, t.rule = some (.fixed f) ↔ t.text = f.text := by
  induction h with
  | nil => simp
  | skip _ _ _ ih => exact ih
  | @token lexeme rest r tokens _ hr hrank _ ih =>
    intro t ht f
    rcases List.mem_cons.1 ht with rfl | ht
    · constructor
      · rintro hrule
        obtain rfl := Option.some.inj hrule
        obtain rfl : lexeme = f.text.toList := hr
        exact String.ofList_toList
      · intro htext
        have hf : lexeme = f.text.toList := by rw [← htext, String.toList_ofList]
        have hhigh : 1 ≤ r.rank := hrank (.fixed f) hf
        cases r with
        | word => cases hhigh
        | fixed g =>
          have hg : lexeme = g.text.toList := hr
          rw [Fixed.text_injective (String.toList_inj.1 (hg.symm.trans hf))]
    · exact ih t ht f
  | @fault c rest tokens hnone _ ih =>
    intro t ht f
    rcases List.mem_cons.1 ht with rfl | ht
    · refine iff_of_false (by rintro ⟨⟩) fun htext => hnone [c] ⟨rest, rfl⟩ (.inr ⟨.fixed f, ?_⟩)
      show [c] = f.text.toList
      rw [← htext, Char.toString, String.toList_singleton]
    · exact ih t ht f

end Tokenized

/-! ## Pieces -/

def pieces (cs : List Char) : List (List Char) := (cs.splitOnP isSeparator).filter fun piece => !piece.isEmpty

theorem pieces_cons_of_isSeparator (h : isSeparator c = true) : pieces (c :: rest) = pieces rest := by
  unfold pieces
  rw [List.splitOnP_cons_eq_if_modifyHead, if_pos h]
  rfl

theorem pieces_append {piece : List Char} (hne : piece ≠ []) (hpiece : ∀ c ∈ piece, isSeparator c = false)
    (hend : ∀ d, rest.head? = some d → isSeparator d = true) : pieces (piece ++ rest) = piece :: pieces rest := by
  have hkept : (!piece.isEmpty) = true := by simpa using hne
  cases rest with
  | nil =>
    unfold pieces
    rw [List.append_nil, List.splitOnP_eq_singleton hpiece, List.filter_cons_of_pos (by exact hkept)]
    rfl
  | cons d rest =>
    have hd := hend d rfl
    rw [pieces_cons_of_isSeparator hd]
    unfold pieces
    rw [List.splitOnP_append_cons _ _ hd, List.splitOnP_eq_singleton hpiece, List.singleton_append,
      List.filter_cons_of_pos (by exact hkept)]

/-- The first piece takes in all up to the next separator. -/
theorem pieces_cons_of_not_isSeparator (h : isSeparator c = false) : pieces (c :: rest) =
    (c :: rest.takeWhile fun d => !isSeparator d) :: pieces (rest.dropWhile fun d => !isSeparator d) := by
  have hcut : c :: rest = (c :: rest.takeWhile fun d => !isSeparator d) ++ rest.dropWhile fun d => !isSeparator d := by
    rw [List.cons_append, List.takeWhile_append_dropWhile]
  rw [hcut]
  refine pieces_append (List.cons_ne_nil _ _) (fun d hd => ?_) fun d hd => ?_
  · rcases List.mem_cons.1 hd with rfl | hd
    · exact h
    · simpa using List.mem_takeWhile_imp hd
  · simpa using head?_dropWhile rest d hd

/-- A piece that is a word has no lexeme but itself. -/
theorem pieces_append_of_isWord {word : List Char} (hword : IsWord word)
    (hend : ∀ d, rest.head? = some d → isSeparator d = true) : pieces (word ++ rest) = word :: pieces rest := by
  refine pieces_append ?_ (fun c hc => not_isSeparator_of_isWordRest (hword.isWordRest c hc)) hend
  obtain ⟨c, run, rfl, -⟩ := hword
  exact List.cons_ne_nil _ _

/-- Words are the lexemes of a text iff they are its pieces. -/
theorem lexemes_eq_iff (cs : List Char) {words : List (List Char)} (hwords : ∀ w ∈ words, IsWord w) :
    lexemes cs = words.map String.ofList ↔ pieces cs = words := by
  induction cs using lexemes.induct generalizing words with
  | case1 => simp [lexemes, pieces, eq_comm]
  | case2 c rest hsep ih => rw [lexemes_cons_of_isSeparator hsep, pieces_cons_of_isSeparator hsep, ih hwords]
  | case3 c rest hsep hword ih =>
    have hlexeme : IsWord (c :: rest.takeWhile isWordRest) := ⟨c, _, rfl, hword, fun d hd => List.mem_takeWhile_imp hd⟩
    rw [lexemes_cons_of_isWordStart hword]
    by_cases hend : ∀ d, (rest.dropWhile isWordRest).head? = some d → isSeparator d = true
    · have hpieces := pieces_append_of_isWord hlexeme hend
      rw [List.cons_append, List.takeWhile_append_dropWhile] at hpieces
      rw [hpieces]
      cases words with
      | nil => simp
      | cons w words =>
        rw [List.map_cons, List.cons.injEq, List.cons.injEq, String.ofList_inj,
          ih fun v hv => hwords v (List.mem_cons_of_mem _ hv)]
    · -- The character after the lexeme is a lexeme by itself, in the same piece, so neither list is of words.
      obtain ⟨d, hd, hsepd⟩ : ∃ d, (rest.dropWhile isWordRest).head? = some d ∧ isSeparator d = false := by
        simpa using hend
      have hrestd : isWordRest d = false := head?_dropWhile rest d hd
      have hstartd : isWordStart d = false := by
        by_contra h
        rw [isWordRest_of_isWordStart (Bool.not_eq_false _ ▸ h)] at hrestd
        cases hrestd
      obtain ⟨tail, htail⟩ : ∃ tail, rest.dropWhile isWordRest = d :: tail := List.head?_eq_some_iff.1 hd
      refine iff_of_false (fun hlexemes => ?_) fun hpieces => ?_
      · rw [htail, lexemes_cons_of_not hsepd hstartd] at hlexemes
        have hmem : d.toString ∈ words.map String.ofList := by simp [← hlexemes]
        obtain ⟨w, hw, heq⟩ := List.mem_map.1 hmem
        exact (hwords w hw).ofList_ne hstartd heq
      · have hmem : d ∈ c :: rest.takeWhile fun e => !isSeparator e := by
          have hcut : rest = rest.takeWhile isWordRest ++ d :: tail := by
            rw [← htail, List.takeWhile_append_dropWhile]
          have hrun : ∀ e ∈ rest.takeWhile isWordRest, (!isSeparator e) = true := fun e he => by
            rw [not_isSeparator_of_isWordRest (List.mem_takeWhile_imp he)]
            rfl
          rw [hcut, List.takeWhile_append_of_pos hrun, List.takeWhile_cons_of_pos (by rw [hsepd]; rfl)]
          simp
        rw [pieces_cons_of_not_isSeparator (not_isSeparator_of_isWordStart hword)] at hpieces
        have := (hwords _ (hpieces ▸ List.mem_cons_self)).isWordRest d hmem
        rw [hrestd] at this
        cases this
  | case4 c rest hsep hword ih =>
    have hsep : isSeparator c = false := by simpa using hsep
    have hword : isWordStart c = false := by simpa using hword
    refine iff_of_false (fun hlexemes => ?_) fun hpieces => ?_
    · rw [lexemes_cons_of_not hsep hword] at hlexemes
      have hmem : c.toString ∈ words.map String.ofList := by simp [← hlexemes]
      obtain ⟨w, hw, heq⟩ := List.mem_map.1 hmem
      exact (hwords w hw).ofList_ne hword heq
    · rw [pieces_cons_of_not_isSeparator hsep] at hpieces
      obtain ⟨e, run, hcons, he, -⟩ := hwords _ (hpieces ▸ List.mem_cons_self)
      obtain rfl := (List.cons.inj hcons).1
      rw [he] at hword
      cases hword

/-! ## Directives -/

def argRates : ArgRate → Fixed
  | .control => .control
  | .init => .init

def jackRates : Rate → Fixed
  | .audio => .audio
  | .control => .control

def tokens : Directive → List Fixed
  | .args rates => .keyword .args :: rates.map argRates
  | .inlets rates => .keyword .inlets :: rates.map jackRates
  | .outlets rates => .keyword .outlets :: rates.map jackRates

theorem argRate_eq_ok_iff {lexeme : String} {r : ArgRate} :
    argRate lexeme = .ok r ↔ lexeme = (argRates r).text := by
  unfold argRate
  cases r <;> grind [argRates, Fixed.text]

theorem jackRate_eq_ok_iff {lexeme : String} {r : Rate} : jackRate lexeme = .ok r ↔ lexeme = (jackRates r).text := by
  unfold jackRate
  cases r <;> grind [jackRates, Fixed.text]

/-- Reading one by one what is written one by one. -/
theorem mapM_eq_ok_iff {ε α β : Type} {read : α → Except ε β} {write : β → α}
    (h : ∀ a b, read a = .ok b ↔ a = write b) {as : List α} {bs : List β} :
    as.mapM read = .ok bs ↔ as = bs.map write := by
  induction as generalizing bs with
  | nil => cases bs <;> simp [pure, Except.pure]
  | cons a as ih =>
    rw [List.mapM_cons]
    cases ha : read a with
    | error e =>
      refine iff_of_false (by rintro ⟨⟩) fun heq => ?_
      cases bs with
      | nil => cases heq
      | cons b bs =>
        rw [(h a b).2 (List.cons.inj heq).1] at ha
        cases ha
    | ok b =>
      obtain rfl := (h a b).1 ha
      have hcons : (Except.ok (ε := ε) b >>= fun b => as.mapM read >>= fun bs => pure (b :: bs)) =
          (as.mapM read).map (b :: ·) := by
        cases as.mapM read <;> rfl
      rw [hcons]
      constructor
      · intro hread
        cases hrest : as.mapM read with
        | error e => rw [hrest] at hread; cases hread
        | ok cs =>
          rw [hrest] at hread
          obtain rfl : b :: cs = bs := Except.ok.inj hread
          rw [List.map_cons, ih.1 hrest]
      · intro heq
        cases bs with
        | nil => cases heq
        | cons c bs =>
          obtain ⟨hhead, htail⟩ := List.cons.inj heq
          obtain rfl : c = b := Except.ok.inj (((h _ _).2 hhead).symm.trans ha)
          rw [ih.2 htail]
          rfl

theorem mapM_ne_error {ε α β : Type} {read : α → Except ε β} {e : ε} (h : ∀ a, read a ≠ .error e) (as : List α) :
    as.mapM read ≠ .error e := by
  induction as with
  | nil => rintro ⟨⟩
  | cons a as ih =>
    rw [List.mapM_cons]
    cases ha : read a with
    | error e' => exact fun herror => h a (ha.trans (congrArg Except.error (Except.error.inj herror)))
    | ok b =>
      cases hrest : as.mapM read with
      | error e' => exact fun herror => ih (hrest.trans (congrArg Except.error (Except.error.inj herror)))
      | ok bs => rintro ⟨⟩

theorem map_eq_ok_iff {ε α β : Type} {x : Except ε α} {f : α → β} {b : β} :
    x.map f = .ok b ↔ ∃ a, x = .ok a ∧ f a = b := by
  cases x <;> simp [Except.map]

/-- Lexemes are read as a directive iff they are its tokens. -/
theorem ofLexemes_eq_ok_iff {ls : List String} {d : Directive} :
    ofLexemes ls = .ok d ↔ ls = d.tokens.map Fixed.text := by
  cases ls with
  | nil => cases d <;> exact iff_of_false (by rintro ⟨⟩) (by rintro ⟨⟩)
  | cons keyword rates =>
    have hargs (rs : List ArgRate) : rates.mapM argRate = .ok rs ↔ rates = rs.map fun r => (argRates r).text :=
      mapM_eq_ok_iff fun _ _ => argRate_eq_ok_iff
    have hjacks (rs : List Rate) : rates.mapM jackRate = .ok rs ↔ rates = rs.map fun r => (jackRates r).text :=
      mapM_eq_ok_iff fun _ _ => jackRate_eq_ok_iff
    have htext (kind : SlotKind) : (Fixed.keyword kind).text = kind.keyword := rfl
    have hdiffer : ∀ kind kind' : SlotKind, kind.keyword = kind'.keyword ↔ kind = kind' := by
      intro kind kind'
      cases kind <;> cases kind' <;> decide
    unfold ofLexemes
    dsimp only
    split_ifs with hkeyword hkeyword hkeyword
    · subst hkeyword
      cases d <;> simp [map_eq_ok_iff, hargs, tokens, htext, hdiffer, Function.comp_def]
    · subst hkeyword
      cases d <;> simp [map_eq_ok_iff, hjacks, tokens, htext, hdiffer, Function.comp_def]
    · subst hkeyword
      cases d <;> simp [map_eq_ok_iff, hjacks, tokens, htext, hdiffer, Function.comp_def]
    · cases d <;> simp_all [tokens]

theorem ofLexemes_eq_empty_iff {ls : List String} : ofLexemes ls = .error .empty ↔ ls = [] := by
  cases ls with
  | nil => exact iff_of_true rfl rfl
  | cons keyword rates =>
    refine iff_of_false (fun h => ?_) (List.cons_ne_nil _ _)
    have hargs : rates.mapM argRate ≠ .error .empty := mapM_ne_error (fun a => by unfold argRate; grind) rates
    have hjacks : rates.mapM jackRate ≠ .error .empty := mapM_ne_error (fun a => by unfold jackRate; grind) rates
    have hmap {α : Type} {x : Except DirectiveFault α} {f : α → Directive} (hx : x ≠ .error .empty) :
        x.map f ≠ .error .empty := by
      cases x with
      | error e => exact fun he => hx (congrArg Except.error (Except.error.inj he))
      | ok a => rintro ⟨⟩
    unfold ofLexemes at h
    dsimp only at h
    split_ifs at h
    · exact hmap hargs h
    · exact hmap hjacks h
    · exact hmap hjacks h
    · cases h

/-- The rules of tokens are those of a directive iff their texts are. -/
theorem Tokenized.map_rule_eq_iff (h : Tokenized cs ts) (fs : List Fixed) :
    ts.map Token.rule = fs.map (fun f => some (.fixed f)) ↔ ts.map Token.text = fs.map Fixed.text := by
  have hiff := h.rule_eq_iff
  clear h
  induction ts generalizing fs with
  | nil => simp
  | cons t ts ih =>
    cases fs with
    | nil => simp
    | cons f fs =>
      rw [List.map_cons, List.map_cons, List.map_cons, List.map_cons, List.cons.injEq, List.cons.injEq]
      exact and_congr (hiff t List.mem_cons_self f) (ih fs fun u hu => hiff u (List.mem_cons_of_mem _ hu))

/-- A keyword, then rates of its kind. -/
def IsDirective (pieces : List (List Char)) : Prop :=
  ∃ keyword rates, pieces = keyword :: rates ∧
    ((keyword = "args".toList ∧ ∀ r ∈ rates, r = ['k'] ∨ r = ['i']) ∨
      ((keyword = "ins".toList ∨ keyword = "outs".toList) ∧ ∀ r ∈ rates, r = ['a'] ∨ r = ['k']))

/-- Pieces that are rates of a kind are the texts of a list of such rates, and these are nothing else. -/
theorem forall_mem_or_iff {α : Type} (text : α → List Char) {x y : α} (hall : ∀ a, a = x ∨ a = y)
    {pieces : List (List Char)} :
    (∀ r ∈ pieces, r = text x ∨ r = text y) ↔ ∃ rates : List α, pieces = rates.map text := by
  have hrange : pieces ∈ Set.range (List.map text) ↔ ∀ r ∈ pieces, r ∈ Set.range text := by
    rw [Set.range_list_map, Set.mem_ofPred_eq]
  simp only [Set.mem_range] at hrange
  constructor
  · intro h
    obtain ⟨rates, hrates⟩ := hrange.2 fun r hr => (h r hr).elim (fun e => ⟨x, e.symm⟩) fun e => ⟨y, e.symm⟩
    exact ⟨rates, hrates.symm⟩
  · rintro ⟨rates, rfl⟩ r hr
    obtain ⟨a, -, rfl⟩ := List.mem_map.1 hr
    exact (hall a).imp (congrArg text) (congrArg text)

theorem isDirective_iff {pieces : List (List Char)} :
    IsDirective pieces ↔ ∃ d : Directive, pieces = d.tokens.map fun f => f.text.toList := by
  have hargs (rates : List (List Char)) : (∀ r ∈ rates, r = ['k'] ∨ r = ['i']) ↔
      ∃ rs : List ArgRate, rates = rs.map fun r => (argRates r).text.toList :=
    forall_mem_or_iff (fun r => (argRates r).text.toList) fun a => by
      cases a
      · exact .inl rfl
      · exact .inr rfl
  have hjacks (rates : List (List Char)) : (∀ r ∈ rates, r = ['a'] ∨ r = ['k']) ↔
      ∃ rs : List Rate, rates = rs.map fun r => (jackRates r).text.toList :=
    forall_mem_or_iff (fun r => (jackRates r).text.toList) fun a => by
      cases a
      · exact .inl rfl
      · exact .inr rfl
  unfold IsDirective
  simp only [hargs, hjacks]
  constructor
  · rintro ⟨keyword, rates, rfl, ⟨rfl, rs, rfl⟩ | ⟨rfl | rfl, rs, rfl⟩⟩
    · exact ⟨.args rs, by simp [tokens, Fixed.text, SlotKind.keyword, Function.comp_def]⟩
    · exact ⟨.inlets rs, by simp [tokens, Fixed.text, SlotKind.keyword, Function.comp_def]⟩
    · exact ⟨.outlets rs, by simp [tokens, Fixed.text, SlotKind.keyword, Function.comp_def]⟩
  · rintro ⟨d, rfl⟩
    cases d with
    | args rs => exact ⟨_, _, rfl, .inl ⟨rfl, rs, by rw [List.map_map]; rfl⟩⟩
    | inlets rs => exact ⟨_, _, rfl, .inr ⟨.inl rfl, rs, by rw [List.map_map]; rfl⟩⟩
    | outlets rs => exact ⟨_, _, rfl, .inr ⟨.inr rfl, rs, by rw [List.map_map]; rfl⟩⟩

/-- The tokens of a text, by the longest matches, are those of a directive iff the directive is read
    from it. That is so iff the pieces between separators are the texts of these tokens: so a text is
    read iff there is a first piece, it is a keyword, and every other is a rate of its kind; and what
    has no pieces is the empty directive. -/
theorem ofText_reads_pieces (cs : List Char) :
    (∃ ts, Tokenized cs ts) ∧
    (∀ ts, Tokenized cs ts →
      (∀ d, ofText cs = .ok d ↔ ts.map Token.rule = d.tokens.map fun f => some (.fixed f)) ∧
      (ofText cs = .error .empty ↔ ts = [])) ∧
    (∀ d, ofText cs = .ok d ↔ pieces cs = d.tokens.map fun f => f.text.toList) ∧
    ((∃ d, ofText cs = .ok d) ↔ IsDirective (pieces cs)) ∧
    (ofText cs = .error .empty ↔ pieces cs = []) := by
  have hpieces (d : Directive) : ofText cs = .ok d ↔ pieces cs = d.tokens.map fun f => f.text.toList := by
    have hwords : ∀ w ∈ d.tokens.map fun f => f.text.toList, IsWord w := by
      intro w hw
      obtain ⟨f, -, rfl⟩ := List.mem_map.1 hw
      exact f.isWord_text
    have htexts : (d.tokens.map fun f => f.text.toList).map String.ofList = d.tokens.map Fixed.text := by
      rw [List.map_map]
      exact List.map_congr_left fun f _ => String.ofList_toList
    rw [← lexemes_eq_iff cs hwords, htexts]
    exact ofLexemes_eq_ok_iff
  refine ⟨exists_tokenized cs, fun ts hts => ⟨fun d => ?_, ?_⟩, hpieces, ?_, ?_⟩
  · rw [hts.map_rule_eq_iff, hts.text_eq]
    exact ofLexemes_eq_ok_iff
  · rw [← List.map_eq_nil_iff (f := Token.text), hts.text_eq]
    exact ofLexemes_eq_empty_iff
  · rw [isDirective_iff]
    exact exists_congr hpieces
  · exact ofLexemes_eq_empty_iff.trans (lexemes_eq_iff cs (List.forall_mem_nil _))

/-- Letters that stand apart are rates; letters with another character between them are one piece. -/
theorem ofText_reads_pieces_spacedRates :
    ofText " ins a,\tk".toList = .ok (.inlets [.audio, .control]) ∧
    (∃ ts, Tokenized " ins a,\tk".toList ts ∧
      ts.map Token.rule = [some (.fixed (.keyword .inlets)), some (.fixed .audio), some (.fixed .control)]) ∧
    ¬∃ d, ofText "ins a+k".toList = .ok d := by
  obtain ⟨⟨ts, hts⟩, htokens, hpieces, -, -⟩ := ofText_reads_pieces " ins a,\tk".toList
  obtain ⟨-, -, -, hgrammar, -⟩ := ofText_reads_pieces "ins a+k".toList
  have hread : ofText " ins a,\tk".toList = .ok (.inlets [.audio, .control]) := (hpieces _).2 (by decide)
  refine ⟨hread, ⟨ts, hts, ((htokens ts hts).1 _).1 hread⟩, fun hsome => ?_⟩
  obtain ⟨keyword, rates, hcut, hrates⟩ := hgrammar.1 hsome
  have htwo : pieces "ins a+k".toList = ["ins".toList, "a+k".toList] := by decide
  rw [htwo] at hcut
  obtain ⟨rfl, rfl⟩ := List.cons.inj hcut
  revert hrates
  decide

end Patchbay.Directive
