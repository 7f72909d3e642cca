/-
  Patchbay.Json.Token — the tokens of a strict JSON text.

  Blanks are space, tab, line feed and carriage return. Numbers keep their literal. A
  string keeps its text, or `none` when one of its escapes names a surrogate that has no
  partner: such a string is no text, but it is well formed.
-/

import Patchbay.Text.Numeral

namespace Patchbay.Json

inductive Token where
  | openArray
  | closeArray
  | openObject
  | closeObject
  | colon
  | comma
  | null
  | bool (b : Bool)
  | number (literal : String)
  | string (text : Option String)
  deriving DecidableEq, Repr

/-! ## Strings -/

/-- What one character after a backslash stands for. -/
def escaped? : Char → Option Nat
  | '"' => some 0x22
  | '\\' => some 0x5c
  | '/' => some 0x2f
  | 'b' => some 0x08
  | 'f' => some 0x0c
  | 'n' => some 0x0a
  | 'r' => some 0x0d
  | 't' => some 0x09
  | _ => none

def hex4? (a b c d : Char) : Option Nat := do
  let a ← Text.hexValue? a
  let b ← Text.hexValue? b
  let c ← Text.hexValue? c
  let d ← Text.hexValue? d
  return ((a * 16 + b) * 16 + c) * 16 + d

/-- The code units of a string up to its closing quote, and the text after that. -/
def stringBody? : List Char → Option (List Nat × List Char)
  | [] => none
  | '"' :: rest => some ([], rest)
  | '\\' :: 'u' :: a :: b :: c :: d :: rest => do
    let unit ← hex4? a b c d
    let (units, after) ← stringBody? rest
    return (unit :: units, after)
  | '\\' :: c :: rest => do
    let unit ← escaped? c
    let (units, after) ← stringBody? rest
    return (unit :: units, after)
  | c :: rest =>
    if c.toNat < 0x20 then none
    else do
      let (units, after) ← stringBody? rest
      return (c.toNat :: units, after)

def isHighSurrogate (n : Nat) : Bool := 0xd800 ≤ n && n ≤ 0xdbff

def isLowSurrogate (n : Nat) : Bool := 0xdc00 ≤ n && n ≤ 0xdfff

/-- Code units as characters; a high surrogate stands only before a low one, which it takes in. -/
def charsOfUnits? : List Nat → Option (List Char)
  | [] => some []
  | [n] => if isHighSurrogate n || isLowSurrogate n then none else some [Char.ofNat n]
  | n :: m :: rest =>
    if isHighSurrogate n then
      if isLowSurrogate m then
        (charsOfUnits? rest).map (Char.ofNat (0x10000 + (n - 0xd800) * 0x400 + (m - 0xdc00)) :: ·)
      else none
    else if isLowSurrogate n then none
    else (charsOfUnits? (m :: rest)).map (Char.ofNat n :: ·)

/-! ## Numbers -/

/-- One or more digits. -/
def someDigits? (cs : List Char) : Option (List Char × List Char) :=
  if (cs.takeWhile Char.isDigit).isEmpty then none else some (cs.takeWhile Char.isDigit, cs.dropWhile Char.isDigit)

/-- Digits with no needless zero in front. -/
def wholePart? (cs : List Char) : Option (List Char × List Char) := do
  let (run, rest) ← someDigits? cs
  if run.head? = some '0' && run.length ≠ 1 then none else some (run, rest)

def signPart : List Char → List Char × List Char
  | '-' :: cs => (['-'], cs)
  | cs => ([], cs)

def fraction? : List Char → Option (List Char × List Char)
  | '.' :: cs => (someDigits? cs).map fun (run, rest) => ('.' :: run, rest)
  | cs => some ([], cs)

def exponentSign : List Char → List Char × List Char
  | '+' :: cs => (['+'], cs)
  | '-' :: cs => (['-'], cs)
  | cs => ([], cs)

def exponent? : List Char → Option (List Char × List Char)
  | [] => some ([], [])
  | c :: cs =>
    if c = 'e' || c = 'E' then
      let (sign, cs) := exponentSign cs
      (someDigits? cs).map fun (run, rest) => (c :: sign ++ run, rest)
    else some ([], c :: cs)

def number? (cs : List Char) : Option (Token × List Char) := do
  let (sign, cs) := signPart cs
  let (whole, cs) ← wholePart? cs
  let (fraction, cs) ← fraction? cs
  let (exponent, cs) ← exponent? cs
  return (.number (String.ofList (sign ++ whole ++ fraction ++ exponent)), cs)

/-! ## Token lists -/

def isSpace (c : Char) : Bool := c = ' ' || c = '\t' || c = '\n' || c = '\r'

/-- The token that starts a text which does not start with a blank. -/
def token? : List Char → Option (Token × List Char)
  | '[' :: cs => some (.openArray, cs)
  | ']' :: cs => some (.closeArray, cs)
  | '\x7b' :: cs => some (.openObject, cs)
  | '\x7d' :: cs => some (.closeObject, cs)
  | ':' :: cs => some (.colon, cs)
  | ',' :: cs => some (.comma, cs)
  | 'n' :: 'u' :: 'l' :: 'l' :: cs => some (.null, cs)
  | 't' :: 'r' :: 'u' :: 'e' :: cs => some (.bool true, cs)
  | 'f' :: 'a' :: 'l' :: 's' :: 'e' :: cs => some (.bool false, cs)
  | '"' :: cs => (stringBody? cs).map fun (units, rest) => (.string ((charsOfUnits? units).map String.ofList), rest)
  | cs => number? cs

theorem length_stringBody? {cs rest : List Char} {units : List Nat} (h : stringBody? cs = some (units, rest)) :
    rest.length < cs.length := by
  fun_induction stringBody? cs generalizing units rest with
  | case1 => cases h
  | case2 => cases h; simp
  | case3 a b c d cs ih =>
    simp only [Option.bind_eq_bind, Option.bind_eq_some_iff, Prod.exists] at h
    obtain ⟨_, _, us, after, hs, h⟩ := h
    cases h
    have := ih hs
    simp; omega
  | case4 c cs _ ih =>
    simp only [Option.bind_eq_bind, Option.bind_eq_some_iff, Prod.exists] at h
    obtain ⟨_, _, us, after, hs, h⟩ := h
    cases h
    have := ih hs
    simp; omega
  | case5 => cases h
  | case6 c cs _ _ _ _ ih =>
    simp only [Option.bind_eq_bind, Option.bind_eq_some_iff, Prod.exists] at h
    obtain ⟨us, after, hs, h⟩ := h
    cases h
    have := ih hs
    simp; omega

theorem length_someDigits? {cs run rest : List Char} (h : someDigits? cs = some (run, rest)) :
    rest.length < cs.length := by
  unfold someDigits? at h
  split at h
  · cases h
  · next hne =>
    cases h
    have hcut := congrArg List.length (List.takeWhile_append_dropWhile (p := Char.isDigit) (l := cs))
    have : (cs.takeWhile Char.isDigit).length ≠ 0 := by
      simpa using hne
    simp only [List.length_append] at hcut
    omega

theorem length_number? {cs rest : List Char} {t : Token} (h : number? cs = some (t, rest)) :
    rest.length < cs.length := by
  simp only [number?, Option.bind_eq_bind, Option.bind_eq_some_iff, Prod.exists] at h
  obtain ⟨whole, cs₁, hw, frac, cs₂, hf, expo, cs₃, he, h⟩ := h
  cases h
  have h₀ : (signPart cs).2.length ≤ cs.length := by
    unfold signPart; split <;> simp
  have h₁ : cs₁.length < (signPart cs).2.length := by
    simp only [wholePart?, Option.bind_eq_bind, Option.bind_eq_some_iff, Prod.exists] at hw
    obtain ⟨run, r, hr, hw⟩ := hw
    split at hw
    · cases hw
    · cases hw; exact length_someDigits? hr
  have h₂ : cs₂.length ≤ cs₁.length := by
    unfold fraction? at hf
    split at hf
    · simp only [Option.map_eq_some_iff, Prod.exists] at hf
      obtain ⟨run, r, hr, hf⟩ := hf
      cases hf
      have := length_someDigits? hr
      simp; omega
    · cases hf; exact Nat.le_refl _
  have h₃ : rest.length ≤ cs₂.length := by
    unfold exponent? at he
    split at he
    · cases he; exact Nat.le_refl _
    · split at he
      · next c cs _ =>
        simp only [Option.map_eq_some_iff, Prod.exists] at he
        obtain ⟨run, r, hr, he⟩ := he
        cases he
        have hs : (exponentSign cs).2.length ≤ cs.length := by unfold exponentSign; split <;> simp
        have := length_someDigits? hr
        simp; omega
      · cases he; exact Nat.le_refl _
  omega

theorem length_token? {cs rest : List Char} {t : Token} (h : token? cs = some (t, rest)) :
    rest.length < cs.length := by
  unfold token? at h
  split at h
  case h_10 =>
    simp only [Option.map_eq_some_iff, Prod.exists] at h
    obtain ⟨us, r, hr, h⟩ := h
    cases h
    have := length_stringBody? hr
    simp; omega
  case h_11 => exact length_number? h
  all_goals (cases h; simp <;> omega)

/-- All tokens of a text, or nothing when a part of it is no token. -/
def tokens? (cs : List Char) : Option (List Token) :=
  match cs with
  | [] => some []
  | c :: rest =>
    if isSpace c then tokens? rest
    else
      match _h : token? (c :: rest) with
      | none => none
      | some (t, after) => (tokens? after).map (t :: ·)
termination_by cs.length
decreasing_by
  · simp
  · exact length_token? _h

end Patchbay.Json
