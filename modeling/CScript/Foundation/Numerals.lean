/-
Numbers in text, as regular languages.

`number` is the number of a JSON text, `floating` what C99 lets `strtod` read
behind blanks.  The bytes of a language, and those its texts can begin with, are
read off its expression.
-/

import Mathlib.Computability.RegularExpressions
import Mathlib.Data.Nat.Find
import Mathlib.Order.CompletePartialOrder

namespace Foundation.Numerals

open RegularExpression
open scoped Computability

/-! ### Expressions -/

section

variable {α : Type}

def oneOf : List α → RegularExpression α
  | [] => 0
  | c :: rest => char c + oneOf rest

def word : List α → RegularExpression α
  | [] => 1
  | c :: rest => char c * word rest

def optional (P : RegularExpression α) : RegularExpression α :=
  1 + P

def atLeastOne (P : RegularExpression α) : RegularExpression α :=
  P * P.star

def symbols : RegularExpression α → List α
  | 0 => []
  | 1 => []
  | char a => [a]
  | P + Q => symbols P ++ symbols Q
  | P * Q => symbols P ++ symbols Q
  | .star P => symbols P

def firsts : RegularExpression α → List α
  | 0 => []
  | 1 => []
  | char a => [a]
  | P + Q => firsts P ++ firsts Q
  | P * Q => firsts P ++ if P.matchEpsilon then firsts Q else []
  | .star P => firsts P

theorem mem_oneOf {symbols : List α} {text : List α} :
    text ∈ (oneOf symbols).matches' ↔ ∃ c ∈ symbols, text = [c] := by
  induction symbols with
  | nil => simp [oneOf]
  | cons c rest ih =>
      rw [oneOf, matches'_add, Language.mem_add, ih]
      constructor
      · rintro (first | ⟨other, inside, rfl⟩)
        · exact ⟨c, List.mem_cons_self, first⟩
        · exact ⟨other, List.mem_cons_of_mem c inside, rfl⟩
      · rintro ⟨other, inside, rfl⟩
        rcases List.mem_cons.mp inside with rfl | later
        · exact Or.inl rfl
        · exact Or.inr ⟨other, later, rfl⟩

theorem mem_symbols {P : RegularExpression α} {text : List α} (matched : text ∈ P.matches') :
    ∀ a ∈ text, a ∈ symbols P := by
  induction P generalizing text with
  | zero => cases matched
  | epsilon =>
      obtain rfl : text = [] := matched
      nofun
  | char c =>
      obtain rfl : text = [c] := matched
      exact fun a member => member
  | plus P Q left right =>
      rcases matched with one | other
      · exact fun a member => List.mem_append_left _ (left one a member)
      · exact fun a member => List.mem_append_right _ (right other a member)
  | comp P Q left right =>
      obtain ⟨front, fronts, back, backs, rfl⟩ := Language.mem_mul.mp matched
      intro a member
      rcases List.mem_append.mp member with early | late
      · exact List.mem_append_left _ (left fronts a early)
      · exact List.mem_append_right _ (right backs a late)
  | star P inner =>
      obtain ⟨parts, rfl, all⟩ := Language.mem_kstar.mp matched
      intro a member
      obtain ⟨part, inside, holds⟩ := List.mem_flatten.mp member
      exact inner (all part inside) a holds

theorem matchEpsilon_iff [DecidableEq α] (P : RegularExpression α) :
    P.matchEpsilon = true ↔ [] ∈ P.matches' :=
  rmatch_iff_matches' P []

theorem mem_firsts [DecidableEq α] {P : RegularExpression α} {a : α} {rest : List α}
    (matched : a :: rest ∈ P.matches') : a ∈ firsts P := by
  induction P generalizing rest with
  | zero => cases matched
  | epsilon => cases matched
  | char c =>
      have same : a :: rest = [c] := matched
      rw [(List.cons.inj same).1]
      exact List.mem_singleton_self c
  | plus P Q left right =>
      rcases matched with one | other
      · exact List.mem_append_left _ (left one)
      · exact List.mem_append_right _ (right other)
  | comp P Q left right =>
      obtain ⟨front, fronts, back, backs, same⟩ := Language.mem_mul.mp matched
      cases front with
      | nil =>
          rw [List.nil_append] at same
          rw [same] at backs
          refine List.mem_append_right _ ?_
          rw [if_pos ((matchEpsilon_iff P).mpr fronts)]
          exact right backs
      | cons c front =>
          rw [(List.cons.inj same).1] at fronts
          exact List.mem_append_left _ (left fronts)
  | star P inner =>
      obtain ⟨parts, same, all⟩ := Language.mem_kstar_iff_exists_nonempty.mp matched
      cases parts with
      | nil => cases same
      | cons part parts =>
          obtain ⟨isPart, nonempty⟩ := all part List.mem_cons_self
          obtain ⟨c, more, rfl⟩ := List.exists_cons_of_ne_nil nonempty
          rw [List.flatten_cons, List.cons_append] at same
          rw [← (List.cons.inj same).1] at isPart
          exact inner isPart

end

/-! ### The two grammars -/

def digit : RegularExpression UInt8 :=
  oneOf [48, 49, 50, 51, 52, 53, 54, 55, 56, 57]

def nonzeroDigit : RegularExpression UInt8 :=
  oneOf [49, 50, 51, 52, 53, 54, 55, 56, 57]

def exponent : RegularExpression UInt8 :=
  oneOf ['e'.toUInt8, 'E'.toUInt8] *
    (optional (oneOf ['+'.toUInt8, '-'.toUInt8]) * atLeastOne digit)

/-- `number` of RFC 8259. -/
def number : RegularExpression UInt8 :=
  optional (char '-'.toUInt8) *
    ((char '0'.toUInt8 + nonzeroDigit * digit.star) *
      (optional (char '.'.toUInt8 * atLeastOne digit) * optional exponent))

def hexadecimal : RegularExpression UInt8 :=
  digit + oneOf [65, 66, 67, 68, 69, 70, 97, 98, 99, 100, 101, 102]

def anyCase (letters : List UInt8) : RegularExpression UInt8 :=
  letters.foldr (fun letter rest => oneOf [letter, letter + 32] * rest) 1

def letters : List UInt8 :=
  (List.range 26).map fun n => UInt8.ofNat (65 + n)

def pointed (one : RegularExpression UInt8) : RegularExpression UInt8 :=
  atLeastOne one * optional (char '.'.toUInt8 * one.star) +
    char '.'.toUInt8 * atLeastOne one

def decimal : RegularExpression UInt8 :=
  pointed digit * optional exponent

def hexFloat : RegularExpression UInt8 :=
  char '0'.toUInt8 * (oneOf ['x'.toUInt8, 'X'.toUInt8] * (pointed hexadecimal *
    optional (oneOf ['p'.toUInt8, 'P'.toUInt8] *
      (optional (oneOf ['+'.toUInt8, '-'.toUInt8]) * atLeastOne digit))))

def infinity : RegularExpression UInt8 :=
  anyCase ['I'.toUInt8, 'N'.toUInt8, 'F'.toUInt8] *
    optional (anyCase ['I'.toUInt8, 'N'.toUInt8, 'I'.toUInt8, 'T'.toUInt8, 'Y'.toUInt8])

def notANumber : RegularExpression UInt8 :=
  anyCase ['N'.toUInt8, 'A'.toUInt8, 'N'.toUInt8] *
    optional (char '('.toUInt8 *
      ((digit + oneOf letters + oneOf (letters.map (· + 32)) + char '_'.toUInt8).star *
        char ')'.toUInt8))

/-- What `strtod` converts, by C99. -/
def floating : RegularExpression UInt8 :=
  optional (oneOf ['+'.toUInt8, '-'.toUInt8]) * (decimal + hexFloat + infinity + notANumber)

/-- White space of the C locale. -/
def spaces : RegularExpression UInt8 :=
  (oneOf [32, 9, 10, 11, 12, 13]).star

def Subject (text : List UInt8) : Prop :=
  text ∈ (spaces * floating).matches'

instance : DecidablePred Subject := fun text =>
  inferInstanceAs (Decidable (text ∈ (spaces * floating).matches'))

/-- `strtod` takes the longest front of a text that is a subject, if there is one. -/
structure Strtod {Number : Type} (strtod : List UInt8 → Option (Number × List UInt8)) :
    Prop where
  refused : ∀ {text}, strtod text = none → ∀ front rest, front ++ rest = text → ¬Subject front
  longest : ∀ {text n rest}, strtod text = some (n, rest) →
    ∃ front, front ++ rest = text ∧ Subject front ∧
      ∀ other left, other ++ left = text → Subject other → other.length ≤ front.length

/-! ### How they compare -/

theorem spaces_plain {text : List UInt8} (blank : text ∈ spaces.matches') :
    ∀ c ∈ text, c ∉ firsts floating := by
  intro c member
  have space : c ∈ [32, 9, 10, 11, 12, 13] := mem_symbols blank c member
  have apart : ∀ n ∈ [32, 9, 10, 11, 12, 13], UInt8.ofNat n ∉ firsts floating := by decide
  have same : c = UInt8.ofNat c.toNat := UInt8.ofNat_toNat.symm
  rw [same]
  refine apart c.toNat ?_
  simp only [List.mem_cons, List.not_mem_nil, or_false] at space ⊢
  rcases space with rfl | rfl | rfl | rfl | rfl | rfl <;> decide

theorem floating_nonempty : [] ∉ floating.matches' := by
  rw [← matchEpsilon_iff]
  decide

theorem subject_longer {front rest : List UInt8} {c : UInt8} (subject : Subject front)
    (longer : Subject (front ++ c :: rest)) : c ∈ symbols floating := by
  obtain ⟨blanks, isBlanks, body, isBody, rfl⟩ := Language.mem_mul.mp subject
  obtain ⟨blanks', isBlanks', body', isBody', same⟩ := Language.mem_mul.mp longer
  rcases List.append_eq_append_iff.mp same with ⟨more, whole, tail⟩ | ⟨more, whole, tail⟩
  · refine mem_symbols isBody' c ?_
    rw [tail]
    exact List.mem_append_right _ List.mem_cons_self
  · exfalso
    cases body with
    | nil => exact floating_nonempty isBody
    | cons first others =>
        refine spaces_plain isBlanks' first ?_ (mem_firsts isBody)
        rw [whole]
        exact List.mem_append_left _ (List.mem_append_right _ List.mem_cons_self)

theorem Strtod.takes {Number : Type} {strtod : List UInt8 → Option (Number × List UInt8)}
    (reads : Strtod strtod) {front rest : List UInt8} (subject : Subject front)
    (stops : ∀ c, rest.head? = some c → c ∉ symbols floating) :
    ∃ n, strtod (front ++ rest) = some (n, rest) := by
  cases read : strtod (front ++ rest) with
  | none => exact absurd subject (reads.refused read front rest rfl)
  | some taken =>
      obtain ⟨n, left⟩ := taken
      obtain ⟨other, whole, isSubject, longest⟩ := reads.longest read
      have length := longest front rest rfl subject
      obtain ⟨more, rfl⟩ : ∃ more, other = front ++ more := by
        rcases List.append_eq_append_iff.mp whole with ⟨more, same, _⟩ | ⟨more, same, _⟩
        · rw [same, List.length_append] at length
          have none_ : more = [] := List.length_eq_zero_iff.mp (by omega)
          rw [none_, List.append_nil] at same
          exact ⟨[], by rw [List.append_nil, same]⟩
        · exact ⟨more, same⟩
      cases more with
      | nil =>
          rw [List.append_nil] at whole
          exact ⟨n, by rw [List.append_cancel_left whole]⟩
      | cons c more =>
          rw [List.append_assoc] at whole
          have next := List.append_cancel_left whole
          exact absurd (subject_longer subject isSubject) (stops c (by rw [← next]; rfl))

end Foundation.Numerals
