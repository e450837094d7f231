/-
The reader on the text of a plain value.

Each function of the reader takes its own text off the front of what follows it.
The value of a string is read byte by byte, so that the loss of the bytes 8 and 12 is
that of one escape.
-/

import CScript.Library.JsonText

namespace CScript.StdJson

open Foundation

/-! ### Escapes -/

theorem source_quote : source "\\\"" = ['"'.toUInt8] := by decide

theorem source_backslash : source "\\\\" = ['\\'.toUInt8] := by decide

theorem hexText_length : ∀ code < 32, (hexText code).length = 4 := by decide

theorem hexValue_hexText : ∀ code < 32, hexValue (hexText code) = some code := by decide

theorem stringLoop_byte {c : UInt8} (unquoted : c ≠ '"'.toUInt8) (unescaped : c ≠ '\\'.toUInt8)
    (fuel at_ : Nat) (rest out : List UInt8) :
    stringLoop (fuel + 1) { at_ := at_, rest := c :: rest } out =
      stringLoop fuel { at_ := at_ + 1, rest := rest } (out ++ [c]) := by
  rw [stringLoop]
  dsimp only
  rw [if_neg unquoted, if_neg unescaped]
  rfl

theorem stringLoop_escape {letter : UInt8} {fuel at_ : Nat} {rest out bytes : List UInt8}
    {after : Cursor}
    (read : readEscape (some letter) { at_ := at_ + 2, rest := rest } = .ok (bytes, after)) :
    stringLoop (fuel + 1) { at_ := at_, rest := '\\'.toUInt8 :: letter :: rest } out =
      stringLoop fuel after (out ++ bytes) := by
  have advanced : (Cursor.advance { at_ := at_, rest := '\\'.toUInt8 :: letter :: rest } 2) =
      { at_ := at_ + 2, rest := rest } := rfl
  have head : ('\\'.toUInt8 :: letter :: rest).drop 1 = letter :: rest := rfl
  have unquoted : '\\'.toUInt8 ≠ '"'.toUInt8 := by decide
  rw [stringLoop]
  dsimp only
  rw [if_neg unquoted, if_pos rfl, advanced, head, List.head?_cons, read]
  rfl

theorem joinSurrogates_small {value : Nat} (small : value < 32) (cursor : Cursor) :
    joinSurrogates value cursor = (value, cursor) := by
  rw [joinSurrogates, if_neg]
  rintro ⟨high, -⟩
  omega

theorem readEscape_number {code : Nat} (small : code < 32) (at_ : Nat) (rest : List UInt8) :
    readEscape (some 'u'.toUInt8) { at_ := at_, rest := hexText code ++ rest } =
      .ok ([UInt8.ofNat code], { at_ := at_ + 4, rest := rest }) := by
  have four := hexText_length code small
  have digits : (hexText code ++ rest).take 4 = hexText code := by
    rw [← four, List.take_left]
  have after : Cursor.advance { at_ := at_, rest := hexText code ++ rest } 4 =
      { at_ := at_ + 4, rest := rest } := by
    simp only [Cursor.advance, ← four, List.drop_left]
  have byte : utf8 code = [UInt8.ofNat code] := by rw [utf8, if_pos (by omega)]
  simp only [readEscape, digits, hexValue_hexText code small, after, joinSurrogates_small small,
    byte]
  rfl

theorem stringLoop_quoteChar (c : UInt8) (fuel at_ : Nat) (rest out : List UInt8) :
    ∃ after, stringLoop (fuel + 1) { at_ := at_, rest := quoteChar c ++ rest } out =
      stringLoop fuel { at_ := after, rest := rest } (out ++ [readByte c]) := by
  by_cases quoted : [c] = source "\\\""
  · obtain rfl : c = '"'.toUInt8 := by simpa [source_quote] using quoted
    exact ⟨at_ + 2, stringLoop_escape rfl⟩
  by_cases backslash : [c] = source "\\\\"
  · obtain rfl : c = '\\'.toUInt8 := by simpa [source_backslash] using backslash
    exact ⟨at_ + 2, stringLoop_escape rfl⟩
  by_cases newline : [c] = source "\\n"
  · obtain rfl : c = 10 := by simpa [show source "\\n" = [10] by decide] using newline
    exact ⟨at_ + 2, stringLoop_escape rfl⟩
  by_cases tab : [c] = source "\\t"
  · obtain rfl : c = 9 := by simpa [show source "\\t" = [9] by decide] using tab
    exact ⟨at_ + 2, stringLoop_escape rfl⟩
  by_cases carriage : [c] = source "\\r"
  · obtain rfl : c = 13 := by simpa [show source "\\r" = [13] by decide] using carriage
    exact ⟨at_ + 2, stringLoop_escape rfl⟩
  by_cases back : c = 8
  · subst back
    exact ⟨at_ + 2, stringLoop_escape rfl⟩
  by_cases feed : c = 12
  · subst feed
    exact ⟨at_ + 2, stringLoop_escape rfl⟩
  have kept : readByte c = c := by rw [readByte, if_neg back, if_neg feed]
  by_cases control : c < 32
  · have written : quoteChar c = '\\'.toUInt8 :: 'u'.toUInt8 :: hexText c.toNat := by
      rw [quoteChar, if_neg quoted, if_neg backslash, if_neg newline, if_neg tab,
        if_neg carriage, if_neg back, if_neg feed, if_pos control]
      rfl
    have small : c.toNat < 32 := control
    rw [written, kept]
    refine ⟨at_ + 2 + 4, stringLoop_escape ?_⟩
    have read := readEscape_number small (at_ + 2) rest
    rwa [UInt8.ofNat_toNat] at read
  · have written : quoteChar c = [c] := by
      rw [quoteChar, if_neg quoted, if_neg backslash, if_neg newline, if_neg tab,
        if_neg carriage, if_neg back, if_neg feed, if_neg control]
    rw [written, kept]
    refine ⟨at_ + 1, stringLoop_byte ?_ ?_ fuel at_ rest out⟩
    · rintro rfl
      exact quoted source_quote.symm
    · rintro rfl
      exact backslash source_backslash.symm

theorem quoteChar_length (c : UInt8) : 1 ≤ (quoteChar c).length := by
  by_contra empty
  have written : quoteChar c = [] := by
    apply List.length_eq_zero_iff.mp
    omega
  obtain ⟨after, read⟩ := stringLoop_quoteChar c 0 0 ['"'.toUInt8] []
  rw [written] at read
  cases read

theorem stringLoop_quoted (text rest out : List UInt8) (fuel at_ : Nat)
    (enough : text.length + 1 ≤ fuel) :
    ∃ after, stringLoop fuel
        { at_ := at_, rest := text.flatMap quoteChar ++ '"'.toUInt8 :: rest } out =
      .ok (out ++ text.map readByte, { at_ := after, rest := rest }) := by
  induction text generalizing fuel at_ out with
  | nil =>
      obtain ⟨fuel, rfl⟩ : ∃ left, fuel = left + 1 := ⟨fuel - 1, by simp at enough; omega⟩
      refine ⟨at_ + 1, ?_⟩
      simp only [List.flatMap_nil, List.nil_append, List.map_nil, List.append_nil]
      rw [stringLoop]
      dsimp only
      rw [if_pos rfl]
      rfl
  | cons c text ih =>
      obtain ⟨fuel, rfl⟩ : ∃ left, fuel = left + 1 := ⟨fuel - 1, by simp at enough; omega⟩
      obtain ⟨after, first⟩ := stringLoop_quoteChar c fuel at_
        (text.flatMap quoteChar ++ '"'.toUInt8 :: rest) out
      obtain ⟨last, others⟩ := ih (out ++ [readByte c]) fuel after (by simp at enough; omega)
      refine ⟨last, ?_⟩
      rw [List.flatMap_cons, List.append_assoc, first, others]
      simp only [List.map_cons, List.append_assoc, List.singleton_append]

theorem length_le_flatMap (text : List UInt8) :
    text.length ≤ (text.flatMap quoteChar).length := by
  induction text with
  | nil => exact Nat.le_refl 0
  | cons c text ih =>
      have one := quoteChar_length c
      rw [List.flatMap_cons, List.length_append, List.length_cons]
      omega

theorem quote_eq (text : List UInt8) :
    quote text = '"'.toUInt8 :: (text.flatMap quoteChar ++ ['"'.toUInt8]) := by
  rw [quote, source_quote]
  rfl

theorem parseString_quote (text rest : List UInt8) (at_ : Nat) :
    ∃ after, parseString { at_ := at_, rest := quote text ++ rest } =
      .ok (text.map readByte, { at_ := after, rest := rest }) := by
  have enough := length_le_flatMap text
  obtain ⟨after, read⟩ := stringLoop_quoted text rest []
    ('"'.toUInt8 :: (text.flatMap quoteChar ++ ['"'.toUInt8]) ++ rest).length (at_ + 1)
    (by simp only [List.length_append, List.length_cons]; omega)
  refine ⟨after, ?_⟩
  rw [quote_eq, parseString, ← List.nil_append (text.map readByte), ← read]
  simp only [Cursor.advance, List.cons_append, List.append_assoc, List.drop_one, List.tail_cons,
    List.nil_append]

/-! ### Numbers -/

def Delimited (rest : List UInt8) : Prop :=
  ∀ c ∈ rest.head?, isDigit c = false ∧ c ≠ '.'.toUInt8 ∧ c ≠ 'e'.toUInt8 ∧ c ≠ 'E'.toUInt8

theorem isDigit_head {digits : List UInt8} (form : IsDigits digits) :
    ∃ c rest, digits = c :: rest ∧ isDigit c = true := by
  cases digits with
  | nil => exact absurd rfl form.1
  | cons c rest => exact ⟨c, rest, rfl, form.2 c List.mem_cons_self⟩

theorem isDigit_bounds {c : UInt8} (digit : isDigit c = true) : 48 ≤ c.toNat ∧ c.toNat ≤ 57 := by
  have bounds : 48 ≤ c ∧ c ≤ 57 := by simpa [isDigit] using digit
  exact ⟨UInt8.le_iff_toNat_le.mp bounds.1, UInt8.le_iff_toNat_le.mp bounds.2⟩

theorem takeWhile_digits {digits rest : List UInt8} (form : IsDigits digits)
    (ends : ∀ c ∈ rest.head?, isDigit c = false) :
    (digits ++ rest).takeWhile isDigit = digits := by
  rw [List.takeWhile_append_of_pos form.2]
  cases rest with
  | nil => simp
  | cons c rest => simp [ends c rfl]

theorem dropWhile_digits {digits rest : List UInt8} (form : IsDigits digits)
    (ends : ∀ c ∈ rest.head?, isDigit c = false) :
    (digits ++ rest).dropWhile isDigit = rest := by
  rw [List.dropWhile_append_of_pos form.2]
  cases rest with
  | nil => simp
  | cons c rest => simp [ends c rfl]

theorem isDigit_marks {c : UInt8} (digit : isDigit c = true) :
    c ≠ '-'.toUInt8 ∧ c ≠ '+'.toUInt8 := by
  have bounds := isDigit_bounds digit
  constructor
  · rintro rfl
    exact absurd bounds (by decide)
  · rintro rfl
    exact absurd bounds (by decide)

def pointSplit (rest : List UInt8) : List UInt8 × List UInt8 :=
  let point := if rest.head? = some '.'.toUInt8 then rest.take 1 else []
  let rest := rest.drop point.length
  let fraction := if point = [] then [] else rest.takeWhile isDigit
  (point ++ fraction, rest.drop fraction.length)

def exponentSplit (rest : List UInt8) : List UInt8 × List UInt8 :=
  let mark := if rest.head? = some 'e'.toUInt8 ∨ rest.head? = some 'E'.toUInt8 then rest.take 1
    else []
  let rest := rest.drop mark.length
  let power := if mark ≠ [] ∧ (rest.head? = some '+'.toUInt8 ∨ rest.head? = some '-'.toUInt8) then
    rest.take 1 else []
  let rest := rest.drop power.length
  let exponent := if mark = [] then [] else rest.takeWhile isDigit
  (mark ++ power ++ exponent, rest.drop exponent.length)

theorem numberSplit_eq {rest sign left : List UInt8}
    (signed : (if rest.head? = some '-'.toUInt8 then rest.take 1 else []) = sign)
    (after : rest.drop sign.length = left) :
    numberSplit rest =
      (sign ++ (left.takeWhile isDigit ++ ((pointSplit (left.dropWhile isDigit)).1 ++
        (exponentSplit (pointSplit (left.dropWhile isDigit)).2).1)),
        (exponentSplit (pointSplit (left.dropWhile isDigit)).2).2) := by
  subst signed after
  have grouped (a b c d e f g : List UInt8) :
      a ++ b ++ c ++ d ++ e ++ f ++ g = a ++ (b ++ (c ++ d ++ (e ++ f ++ g))) := by
    simp only [List.append_assoc]
  exact Prod.ext (grouped _ _ _ _ _ _ _) rfl

theorem pointSplit_fraction {fraction rest : List UInt8}
    (form : fraction = [] ∨ ∃ digits, IsDigits digits ∧ fraction = '.'.toUInt8 :: digits)
    (noDigit : ∀ c ∈ rest.head?, isDigit c = false) (noPoint : rest.head? ≠ some '.'.toUInt8) :
    pointSplit (fraction ++ rest) = (fraction, rest) := by
  rcases form with rfl | ⟨digits, form, rfl⟩
  · simp [pointSplit, noPoint]
  · simp [pointSplit, takeWhile_digits form noDigit]

theorem exponentSplit_exponent {exponent rest : List UInt8}
    (form : exponent = [] ∨ ∃ mark power digits,
      (mark = 'e'.toUInt8 ∨ mark = 'E'.toUInt8) ∧
        (power = [] ∨ power = ascii "+" ∨ power = ascii "-") ∧ IsDigits digits ∧
          exponent = mark :: (power ++ digits))
    (noDigit : ∀ c ∈ rest.head?, isDigit c = false)
    (noMark : ¬(rest.head? = some 'e'.toUInt8 ∨ rest.head? = some 'E'.toUInt8)) :
    exponentSplit (exponent ++ rest) = (exponent, rest) := by
  rcases form with rfl | ⟨mark, power, digits, marked, powered, form, rfl⟩
  · simp [exponentSplit, noMark]
  · obtain ⟨c, tail, shape, digit⟩ := isDigit_head form
    have unsigned := isDigit_marks digit
    have head : (digits ++ rest).head? = some c := by simp [shape]
    have taken := takeWhile_digits form noDigit
    rcases powered with rfl | rfl | rfl
    · simp [exponentSplit, marked, head, unsigned, taken]
    · simp [exponentSplit, marked, taken, ascii]
    · simp [exponentSplit, marked, taken, ascii]

theorem numberSplit_number {text rest : List UInt8} (form : JsonNumber text)
    (ends : Delimited rest) :
    numberSplit (text ++ rest) = (text, rest) := by
  obtain ⟨sign, whole, fraction, exponent, signed, wholeDigits, fractional, scaled⟩ := form
  have noDigit : ∀ c ∈ rest.head?, isDigit c = false := fun c head => (ends c head).1
  have noPoint : rest.head? ≠ some '.'.toUInt8 := fun head => (ends _ head).2.1 rfl
  have noMark : ¬(rest.head? = some 'e'.toUInt8 ∨ rest.head? = some 'E'.toUInt8) := by
    rintro (head | head)
    · exact (ends _ head).2.2.1 rfl
    · exact (ends _ head).2.2.2 rfl
  -- The exponent starts with its mark, the fraction with its point: neither is a digit.
  have afterFraction : ∀ c ∈ (exponent ++ rest).head?, isDigit c = false ∧ c ≠ '.'.toUInt8 := by
    rcases scaled with rfl | ⟨mark, power, digits, marked | marked, -, -, rfl⟩
    · exact fun c head => ⟨noDigit c head, (ends c head).2.1⟩
    · rintro c head
      obtain rfl : mark = c := by simpa using head
      subst marked
      decide
    · rintro c head
      obtain rfl : mark = c := by simpa using head
      subst marked
      decide
  have afterWhole : ∀ c ∈ (fraction ++ (exponent ++ rest)).head?, isDigit c = false := by
    rcases fractional with rfl | ⟨digits, -, rfl⟩
    · exact fun c head => (afterFraction c head).1
    · rintro c head
      obtain rfl : '.'.toUInt8 = c := by simpa using head
      decide
  have signTaken : (if (sign ++ (whole ++ (fraction ++ (exponent ++ rest)))).head? =
      some '-'.toUInt8 then (sign ++ (whole ++ (fraction ++ (exponent ++ rest)))).take 1
      else []) = sign := by
    rcases signed with rfl | rfl
    · obtain ⟨c, tail, rfl, digit⟩ := isDigit_head wholeDigits
      rw [if_neg]
      simpa using (isDigit_marks digit).1
    · rfl
  have pointTaken := pointSplit_fraction fractional (fun c head => (afterFraction c head).1)
    (fun head => (afterFraction _ head).2 rfl)
  have exponentTaken := exponentSplit_exponent scaled noDigit noMark
  simp only [List.append_assoc]
  rw [numberSplit_eq signTaken List.drop_left, takeWhile_digits wholeDigits afterWhole,
    dropWhile_digits wholeDigits afterWhole, pointTaken, exponentTaken]

/-! ### Blanks -/

def Opens (c : UInt8) : Prop :=
  isSpace c = false ∧ c ≠ '/'.toUInt8

instance (c : UInt8) : Decidable (Opens c) :=
  inferInstanceAs (Decidable (_ ∧ _))

theorem skipSpace_blanks {blanks : List UInt8} (blank : ∀ c ∈ blanks, isSpace c = true)
    {c : UInt8} (opens : Opens c) (at_ : Nat) (rest : List UInt8) :
    ∃ after, skipSpace { at_ := at_, rest := blanks ++ c :: rest } =
      .ok { at_ := after, rest := c :: rest } := by
  unfold skipSpace
  dsimp only
  induction blanks generalizing at_ with
  | nil =>
      refine ⟨at_, ?_⟩
      rw [List.nil_append, skipSpaceFrom, if_neg (by simp [opens.1]), if_neg opens.2]
  | cons first blanks ih =>
      obtain ⟨after, skipped⟩ := ih (fun c member => blank c (List.mem_cons_of_mem _ member))
        (at_ + 1)
      refine ⟨after, ?_⟩
      rw [List.cons_append, skipSpaceFrom, if_pos (blank first List.mem_cons_self), skipped]

theorem skipSpace_none {c : UInt8} (opens : Opens c) (at_ : Nat) (rest : List UInt8) :
    skipSpace { at_ := at_, rest := c :: rest } = .ok { at_ := at_, rest := c :: rest } := by
  unfold skipSpace
  dsimp only
  rw [skipSpaceFrom, if_neg (by simp [opens.1]), if_neg opens.2]

theorem pad_blank (layout : Layout) (depth : Nat) :
    ∀ c ∈ layout.pad depth, isSpace c = true := by
  have newline : ∀ c ∈ layout.newline, isSpace c = true := by
    unfold Layout.newline
    split
    · exact List.all_eq_true.mp (by decide)
    · simp
  have spaces : ∀ c ∈ layout.spaces depth, isSpace c = true := by
    unfold Layout.spaces
    split
    · intro c member
      obtain ⟨-, rfl⟩ := List.mem_replicate.mp member
      decide
    · simp
  intro c member
  rcases List.mem_append.mp member with member | member
  · exact newline c member
  · exact spaces c member

def StartsValue (text : List UInt8) : Prop :=
  ∃ c rest, text = c :: rest ∧ Opens c ∧ c ≠ ']'.toUInt8

theorem number_starts {text : List UInt8} (form : JsonNumber text) :
    ∃ c rest, text = c :: rest ∧ (c = '-'.toUInt8 ∨ isDigit c = true) := by
  obtain ⟨sign, whole, fraction, exponent, rfl | rfl, wholeDigits, -, -⟩ := form
  · obtain ⟨c, rest, rfl, digit⟩ := isDigit_head wholeDigits
    exact ⟨c, _, rfl, .inr digit⟩
  · exact ⟨_, _, rfl, .inl rfl⟩

theorem digit_opens {c : UInt8} (mark : c = '-'.toUInt8 ∨ isDigit c = true) :
    Opens c ∧ c ≠ ']'.toUInt8 := by
  rcases mark with rfl | digit
  · decide
  · have bounds := isDigit_bounds digit
    refine ⟨⟨?_, ?_⟩, ?_⟩
    · rw [← Bool.not_eq_true]
      intro space
      have cases : c = ' '.toUInt8 ∨ c = 9 ∨ c = 10 ∨ c = 13 := by
        simpa [isSpace, or_assoc] using space
      rcases cases with rfl | rfl | rfl | rfl <;> exact absurd bounds (by decide)
    · rintro rfl
      exact absurd bounds (by decide)
    · rintro rfl
      exact absurd bounds (by decide)

theorem textOf_starts {numbers : NumberText} {layout : Layout} {depth : Nat} {value : JsonValue}
    (plain : Plain numbers value) :
    StartsValue (textOf numbers layout depth value) := by
  cases value with
  | null => exact ⟨_, _, rfl, by decide⟩
  | boolean b => cases b <;> exact ⟨_, _, rfl, by decide⟩
  | number n =>
      obtain ⟨c, rest, shape, mark⟩ := number_starts plain.2.2.form
      exact ⟨c, rest, by rw [textOf, shape], digit_opens mark⟩
  | string chars =>
      rw [textOf, quote_eq]
      exact ⟨_, _, rfl, by decide⟩
  | array elements =>
      cases elements with
      | nil => exact ⟨_, _, rfl, by decide⟩
      | cons element rest => exact ⟨_, _, by rw [textOf], by decide⟩
  | object members =>
      cases members with
      | nil => exact ⟨_, _, rfl, by decide⟩
      | cons member rest => exact ⟨_, _, by rw [textOf], by decide⟩
  | undefined => exact plain.elim
  | bigint => exact plain.elim
  | set elements => exact plain.elim
  | date iso => exact plain.elim
  | other kind => exact plain.elim

/-! ### Values -/

section

variable (numbers : NumberText)

/-- The rest of a round of `elementLoop`, once its value is read. -/
def elementTail (fuel : Nat) (cursor : Cursor) (out : List JsonValue) :
    Except (List UInt8) (JsonValue × Cursor) := do
  let cursor ← skipSpace cursor
  if cursor.rest.head? = some ','.toUInt8 then do
    let cursor ← skipSpace (cursor.advance 1)
    if cursor.rest.head? = some ']'.toUInt8 then
      cursor.fail (ascii "JSON has no trailing commas")
    else elementLoop numbers fuel cursor out
  else if cursor.rest.head? = some ']'.toUInt8 then return (.array out, cursor.advance 1)
  else cursor.fail (ascii "expected ',' or ']' in an array")

/-- The rest of a round of `memberLoop`, once its value is read. -/
def memberTail (fuel : Nat) (cursor : Cursor) (out : List (List UInt8 × JsonValue)) :
    Except (List UInt8) (JsonValue × Cursor) := do
  let cursor ← skipSpace cursor
  if cursor.rest.head? = some ','.toUInt8 then do
    let cursor ← skipSpace (cursor.advance 1)
    if cursor.rest.head? = some '\x7d'.toUInt8 then
      cursor.fail (ascii "JSON has no trailing commas")
    else memberLoop numbers fuel cursor out
  else if cursor.rest.head? = some '\x7d'.toUInt8 then
    return (.object out, cursor.advance 1)
  else cursor.fail (ascii "expected ',' or '\x7d' in an object")

variable {numbers}

theorem elementLoop_round {fuel : Nat} {cursor start after : Cursor} {value : JsonValue}
    (out : List JsonValue) (skipped : skipSpace cursor = .ok start)
    (read : parseValue numbers fuel start = .ok (value, after)) :
    elementLoop numbers (fuel + 1) cursor out =
      elementTail numbers fuel after (out ++ [value]) := by
  rw [elementLoop, skipped]
  simp only [bind, Except.bind, read]
  rfl

theorem elementTail_bracket {cursor : Cursor} {at_ : Nat} {rest : List UInt8} (fuel : Nat)
    (out : List JsonValue)
    (skipped : skipSpace cursor = .ok { at_ := at_, rest := ']'.toUInt8 :: rest }) :
    elementTail numbers fuel cursor out = .ok (.array out, { at_ := at_ + 1, rest := rest }) := by
  rw [elementTail, skipped]
  rfl

theorem elementTail_comma {cursor : Cursor} {at_ after : Nat} {c : UInt8}
    {text rest : List UInt8} (fuel : Nat) (out : List JsonValue)
    (skipped : skipSpace cursor = .ok { at_ := at_, rest := ','.toUInt8 :: text })
    (blanks : skipSpace { at_ := at_ + 1, rest := text } = .ok { at_ := after, rest := c :: rest })
    (unclosed : c ≠ ']'.toUInt8) :
    elementTail numbers fuel cursor out =
      elementLoop numbers fuel { at_ := after, rest := c :: rest } out := by
  have advanced : Cursor.advance { at_ := at_, rest := ','.toUInt8 :: text } 1 =
      { at_ := at_ + 1, rest := text } := rfl
  rw [elementTail, skipped]
  simp only [bind, Except.bind, List.head?_cons, if_pos, advanced, blanks]
  exact if_neg (by simpa using unclosed)

theorem parseArray_open {fuel at_ after : Nat} {c : UInt8} {text rest : List UInt8}
    (blanks : skipSpace { at_ := at_ + 1, rest := text } = .ok { at_ := after, rest := c :: rest })
    (unclosed : c ≠ ']'.toUInt8) :
    parseValue numbers (fuel + 2) { at_ := at_, rest := '['.toUInt8 :: text } =
      elementLoop numbers fuel { at_ := after, rest := c :: rest } [] := by
  have entered : parseValue numbers (fuel + 2) { at_ := at_, rest := '['.toUInt8 :: text } =
      parseArray numbers (fuel + 1) { at_ := at_, rest := '['.toUInt8 :: text } := by
    rw [parseValue]
    rfl
  have advanced : Cursor.advance { at_ := at_, rest := '['.toUInt8 :: text } 1 =
      { at_ := at_ + 1, rest := text } := rfl
  rw [entered, parseArray, advanced, blanks]
  simp only [bind, Except.bind, List.head?_cons]
  exact if_neg (by simpa using unclosed)

theorem parseArray_empty (fuel at_ : Nat) (rest : List UInt8) :
    parseValue numbers (fuel + 2) { at_ := at_, rest := ascii "[]" ++ rest } =
      .ok (.array [], { at_ := at_ + 2, rest := rest }) := by
  have skipped := skipSpace_none (c := ']'.toUInt8) (by decide) (at_ + 1) rest
  have entered : parseValue numbers (fuel + 2) { at_ := at_, rest := ascii "[]" ++ rest } =
      parseArray numbers (fuel + 1) { at_ := at_, rest := ascii "[]" ++ rest } := by
    rw [parseValue]
    rfl
  have advanced : Cursor.advance { at_ := at_, rest := ascii "[]" ++ rest } 1 =
      { at_ := at_ + 1, rest := ']'.toUInt8 :: rest } := rfl
  rw [entered, parseArray, advanced, skipped]
  rfl

theorem memberLoop_round {fuel at_ colon : Nat} {cursor start after : Cursor} {value : JsonValue}
    {key text rest : List UInt8} (out : List (List UInt8 × JsonValue))
    (skipped : skipSpace cursor = .ok { at_ := at_, rest := '"'.toUInt8 :: rest })
    (named : parseString { at_ := at_, rest := '"'.toUInt8 :: rest } =
      .ok (key, { at_ := colon, rest := ':'.toUInt8 :: text }))
    (blanks : skipSpace { at_ := colon + 1, rest := text } = .ok start)
    (read : parseValue numbers fuel start = .ok (value, after)) :
    memberLoop numbers (fuel + 1) cursor out =
      memberTail numbers fuel after (OrderedMap.put OrderedMap.equal out key value) := by
  have noBlank := skipSpace_none (c := ':'.toUInt8) (by decide) colon text
  have advanced : Cursor.advance { at_ := colon, rest := ':'.toUInt8 :: text } 1 =
      { at_ := colon + 1, rest := text } := rfl
  rw [memberLoop, skipped]
  simp only [bind, Except.bind, List.head?_cons, named, noBlank, advanced, blanks, read]
  rfl

theorem memberTail_brace {cursor : Cursor} {at_ : Nat} {rest : List UInt8} (fuel : Nat)
    (out : List (List UInt8 × JsonValue))
    (skipped : skipSpace cursor = .ok { at_ := at_, rest := '\x7d'.toUInt8 :: rest }) :
    memberTail numbers fuel cursor out = .ok (.object out, { at_ := at_ + 1, rest := rest }) := by
  rw [memberTail, skipped]
  rfl

theorem memberTail_comma {cursor : Cursor} {at_ after : Nat} {text rest : List UInt8}
    (fuel : Nat) (out : List (List UInt8 × JsonValue))
    (skipped : skipSpace cursor = .ok { at_ := at_, rest := ','.toUInt8 :: text })
    (blanks : skipSpace { at_ := at_ + 1, rest := text } =
      .ok { at_ := after, rest := '"'.toUInt8 :: rest }) :
    memberTail numbers fuel cursor out =
      memberLoop numbers fuel { at_ := after, rest := '"'.toUInt8 :: rest } out := by
  have advanced : Cursor.advance { at_ := at_, rest := ','.toUInt8 :: text } 1 =
      { at_ := at_ + 1, rest := text } := rfl
  rw [memberTail, skipped]
  simp only [bind, Except.bind, List.head?_cons, if_pos, advanced, blanks]
  rfl

theorem parseObject_open {fuel at_ after : Nat} {text rest : List UInt8}
    (blanks : skipSpace { at_ := at_ + 1, rest := text } =
      .ok { at_ := after, rest := '"'.toUInt8 :: rest }) :
    parseValue numbers (fuel + 2) { at_ := at_, rest := '\x7b'.toUInt8 :: text } =
      memberLoop numbers fuel { at_ := after, rest := '"'.toUInt8 :: rest } [] := by
  have entered : parseValue numbers (fuel + 2) { at_ := at_, rest := '\x7b'.toUInt8 :: text } =
      parseObject numbers (fuel + 1) { at_ := at_, rest := '\x7b'.toUInt8 :: text } := by
    rw [parseValue]
    rfl
  have advanced : Cursor.advance { at_ := at_, rest := '\x7b'.toUInt8 :: text } 1 =
      { at_ := at_ + 1, rest := text } := rfl
  rw [entered, parseObject, advanced, blanks]
  rfl

theorem parseObject_empty (fuel at_ : Nat) (rest : List UInt8) :
    parseValue numbers (fuel + 2) { at_ := at_, rest := ascii "\x7b\x7d" ++ rest } =
      .ok (.object [], { at_ := at_ + 2, rest := rest }) := by
  have skipped := skipSpace_none (c := '\x7d'.toUInt8) (by decide) (at_ + 1) rest
  have entered : parseValue numbers (fuel + 2) { at_ := at_, rest := ascii "\x7b\x7d" ++ rest } =
      parseObject numbers (fuel + 1) { at_ := at_, rest := ascii "\x7b\x7d" ++ rest } := by
    rw [parseValue]
    rfl
  have advanced : Cursor.advance { at_ := at_, rest := ascii "\x7b\x7d" ++ rest } 1 =
      { at_ := at_ + 1, rest := '\x7d'.toUInt8 :: rest } := rfl
  rw [entered, parseObject, advanced, skipped]
  rfl

theorem parseValue_string {chars rest : List UInt8} {after : Cursor} {fuel at_ : Nat}
    (read : parseString { at_ := at_, rest := '"'.toUInt8 :: rest } = .ok (chars, after)) :
    parseValue numbers (fuel + 1) { at_ := at_, rest := '"'.toUInt8 :: rest } =
      .ok (.string chars, after) := by
  have entered : parseValue numbers (fuel + 1) { at_ := at_, rest := '"'.toUInt8 :: rest } =
      (parseString { at_ := at_, rest := '"'.toUInt8 :: rest } >>= fun read =>
        pure (.string read.1, read.2)) := by
    rw [parseValue]
    rfl
  rw [entered, read]
  rfl

theorem parseValue_number {text rest : List UInt8} {fuel at_ : Nat} {n : Double}
    (form : JsonNumber text) (ends : Delimited rest) (read : numbers.read text = n)
    (isNumber : n.isNaN = false) :
    parseValue numbers (fuel + 1) { at_ := at_, rest := text ++ rest } =
      .ok (.number n, { at_ := at_ + text.length, rest := rest }) := by
  obtain ⟨c, tail, shape, mark⟩ := number_starts form
  have parsed : parseNumber numbers { at_ := at_, rest := text ++ rest } =
      .ok (.number n, { at_ := at_ + text.length, rest := rest }) := by
    unfold parseNumber
    simp only [numberSplit_number form ends, read, isNumber, Bool.false_eq_true, if_false]
  rw [← parsed, shape, List.cons_append, parseValue]
  dsimp only
  rcases mark with rfl | digit
  · rfl
  · have bounds := isDigit_bounds digit
    have unlike : ∀ other : UInt8, (other.toNat < 48 ∨ 57 < other.toNat) → c ≠ other := by
      rintro other outside rfl
      omega
    rw [if_neg (unlike _ (by decide)), if_neg (unlike _ (by decide)),
      if_neg (unlike _ (by decide)), if_neg (unlike _ (by decide)),
      if_neg (unlike _ (by decide)), if_neg (unlike _ (by decide)),
      if_neg (unlike _ (by decide)), if_pos (by simp [digit])]

/-! ### The text of a value -/

variable {layout : Layout}

theorem separator_eq (layout : Layout) :
    ∃ gap, layout.separator = ':'.toUInt8 :: gap ∧ ∀ c ∈ gap, isSpace c = true := by
  unfold Layout.separator
  split
  · exact ⟨[' '.toUInt8], rfl, List.all_eq_true.mp (by decide)⟩
  · exact ⟨[], rfl, nofun⟩

theorem skipSpace_value {blanks text : List UInt8} (blank : ∀ c ∈ blanks, isSpace c = true)
    (starts : StartsValue text) (at_ : Nat) (rest : List UInt8) :
    ∃ after c tail, skipSpace { at_ := at_, rest := blanks ++ (text ++ rest) } =
      .ok { at_ := after, rest := c :: tail } ∧ c :: tail = text ++ rest ∧ Opens c ∧
        c ≠ ']'.toUInt8 := by
  obtain ⟨c, tail, rfl, opens, unclosed⟩ := starts
  obtain ⟨after, skipped⟩ := skipSpace_blanks blank opens at_ (tail ++ rest)
  exact ⟨after, c, tail ++ rest, skipped, rfl, opens, unclosed⟩

theorem delimited_blanks {blanks : List UInt8} (blank : ∀ c ∈ blanks, isSpace c = true) {c : UInt8}
    (ends : c = ','.toUInt8 ∨ c = ']'.toUInt8 ∨ c = '\x7d'.toUInt8) (rest : List UInt8) :
    Delimited (blanks ++ c :: rest) := by
  cases blanks with
  | nil =>
      intro d head
      obtain rfl : c = d := by simpa using head
      rcases ends with rfl | rfl | rfl <;> decide
  | cons first blanks =>
      intro d head
      obtain rfl : first = d := by simpa using head
      have cases : first = ' '.toUInt8 ∨ first = 9 ∨ first = 10 ∨ first = 13 := by
        simpa [isSpace, or_assoc] using blank first List.mem_cons_self
      rcases cases with rfl | rfl | rfl | rfl <;> decide

theorem elementsText_delimited (depth : Nat) (elements : List JsonValue) (rest : List UInt8) :
    Delimited (elementsText numbers layout depth elements ++ rest) := by
  cases elements with
  | nil =>
      rw [elementsText, List.append_assoc]
      exact delimited_blanks (pad_blank layout depth) (.inr (.inl rfl)) rest
  | cons element others =>
      rw [elementsText]
      exact @delimited_blanks [] nofun _ (.inl rfl) _

theorem membersText_delimited (depth : Nat) (members : List (List UInt8 × JsonValue))
    (rest : List UInt8) :
    Delimited (membersText numbers layout depth members ++ rest) := by
  cases members with
  | nil =>
      rw [membersText, List.append_assoc]
      exact delimited_blanks (pad_blank layout depth) (.inr (.inr rfl)) rest
  | cons member others =>
      rw [membersText]
      exact @delimited_blanks [] nofun _ (.inl rfl) _

theorem skipSpace_key {blanks : List UInt8} (blank : ∀ c ∈ blanks, isSpace c = true)
    (key : List UInt8) (at_ : Nat) (rest : List UInt8) :
    ∃ after, skipSpace { at_ := at_, rest := blanks ++ (quote key ++ rest) } =
      .ok { at_ := after, rest := quote key ++ rest } := by
  have opens : Opens '"'.toUInt8 := by decide
  rw [quote_eq]
  exact skipSpace_blanks blank opens at_ _

theorem fuel_pos {value : JsonValue} {fuel depth : Nat} (plain : Plain numbers value)
    (enough : 3 * (textOf numbers layout depth value).length ≤ fuel) : fuel = fuel - 1 + 1 := by
  obtain ⟨c, rest, shape, -⟩ : StartsValue (textOf numbers layout depth value) :=
    textOf_starts plain
  rw [shape, List.length_cons] at enough
  omega

theorem memberLoop_text {held : JsonValue} {fuel depth : Nat} {rest : List UInt8}
    (key : List UInt8) (at_ : Nat) (out : List (List UInt8 × JsonValue))
    (plain : Plain numbers held)
    (read : ∀ at_, ∃ after, parseValue numbers fuel
      { at_ := at_, rest := textOf numbers layout depth held ++ rest } =
        .ok (readBack held, { at_ := after, rest := rest })) :
    ∃ after, memberLoop numbers (fuel + 1) { at_ := at_, rest := quote key ++ (layout.separator ++
        (textOf numbers layout depth held ++ rest)) } out =
      memberTail numbers fuel { at_ := after, rest := rest }
        (OrderedMap.put OrderedMap.equal out (key.map readByte) (readBack held)) := by
  obtain ⟨gap, shape, blank⟩ := separator_eq layout
  obtain ⟨colon, named⟩ := parseString_quote key
    (layout.separator ++ (textOf numbers layout depth held ++ rest)) at_
  have starts : StartsValue (textOf numbers layout depth held) := textOf_starts plain
  obtain ⟨start, c, tail, skipped, same, -, -⟩ := skipSpace_value blank starts (colon + 1) rest
  obtain ⟨after, value⟩ := read start
  rw [← same] at value
  rw [quote_eq, shape] at named ⊢
  have opening := skipSpace_none (c := '"'.toUInt8) (by decide) at_
  exact ⟨after, memberLoop_round out (opening _) named skipped value⟩

mutual

theorem parseValue_text :
    ∀ (value : JsonValue) (depth fuel at_ : Nat) (rest : List UInt8), Plain numbers value →
      Delimited rest → 3 * (textOf numbers layout depth value).length ≤ fuel →
        ∃ after, parseValue numbers fuel
            { at_ := at_, rest := textOf numbers layout depth value ++ rest } =
          .ok (readBack value, { at_ := after, rest := rest })
  | .null, depth, fuel, at_, rest, plain, _, enough => by
      obtain ⟨fuel, rfl⟩ : ∃ left, fuel = left + 1 := ⟨fuel - 1, fuel_pos plain enough⟩
      exact ⟨at_ + 4, by rw [parseValue, textOf]; rfl⟩
  | .boolean b, depth, fuel, at_, rest, plain, _, enough => by
      obtain ⟨fuel, rfl⟩ : ∃ left, fuel = left + 1 := ⟨fuel - 1, fuel_pos plain enough⟩
      cases b with
      | true => exact ⟨at_ + 4, by rw [parseValue, textOf]; rfl⟩
      | false => exact ⟨at_ + 5, by rw [parseValue, textOf]; rfl⟩
  | .number n, depth, fuel, at_, rest, plain, ends, enough => by
      obtain ⟨fuel, rfl⟩ : ∃ left, fuel = left + 1 := ⟨fuel - 1, fuel_pos plain enough⟩
      rw [textOf]
      exact ⟨_, parseValue_number plain.2.2.form ends plain.2.2.inverse plain.1⟩
  | .string chars, depth, fuel, at_, rest, plain, _, enough => by
      obtain ⟨fuel, rfl⟩ : ∃ left, fuel = left + 1 := ⟨fuel - 1, fuel_pos plain enough⟩
      obtain ⟨after, read⟩ := parseString_quote chars rest at_
      rw [textOf, quote_eq] at *
      exact ⟨after, parseValue_string read⟩
  | .array [], depth, fuel, at_, rest, _, _, enough => by
      obtain ⟨fuel, rfl⟩ : ∃ left, fuel = left + 2 := by
        rw [textOf] at enough
        exact ⟨fuel - 2, by simp [ascii] at enough; omega⟩
      rw [textOf]
      exact ⟨at_ + 2, parseArray_empty fuel at_ rest⟩
  | .array (element :: others), depth, fuel, at_, rest, plain, ends, enough => by
      rw [textOf] at enough ⊢
      simp only [List.length_cons, List.length_append] at enough
      obtain ⟨fuel, rfl⟩ : ∃ left, fuel = left + 3 := ⟨fuel - 3, by omega⟩
      obtain ⟨start, c, tail, skipped, same, opens, unclosed⟩ :=
        skipSpace_value (pad_blank layout (depth + 1)) (textOf_starts plain.1) (at_ + 1)
          (elementsText numbers layout depth others ++ rest)
      obtain ⟨middle, first⟩ := parseValue_text element (depth + 1) fuel start
        (elementsText numbers layout depth others ++ rest) plain.1
        (elementsText_delimited depth others rest) (by omega)
      obtain ⟨after, last⟩ := elementTail_text others depth fuel middle rest
        [readBack element] plain.2 (by omega)
      refine ⟨after, ?_⟩
      simp only [List.cons_append, List.append_assoc]
      rw [← same] at first
      rw [parseArray_open skipped unclosed,
        elementLoop_round [] (skipSpace_none opens start tail) first]
      exact last
  | .object [], depth, fuel, at_, rest, _, _, enough => by
      obtain ⟨fuel, rfl⟩ : ∃ left, fuel = left + 2 := by
        rw [textOf] at enough
        exact ⟨fuel - 2, by simp [ascii] at enough; omega⟩
      rw [textOf]
      exact ⟨at_ + 2, parseObject_empty fuel at_ rest⟩
  | .object ((key, held) :: others), depth, fuel, at_, rest, plain, ends, enough => by
      rw [textOf] at enough ⊢
      simp only [List.length_cons, List.length_append] at enough
      obtain ⟨fuel, rfl⟩ : ∃ left, fuel = left + 3 := ⟨fuel - 3, by omega⟩
      obtain ⟨start, skipped⟩ := skipSpace_key (pad_blank layout (depth + 1)) key (at_ + 1)
        (layout.separator ++ (textOf numbers layout (depth + 1) held ++
          (membersText numbers layout depth others ++ rest)))
      obtain ⟨middle, first⟩ := memberLoop_text key start [] plain.2.1
        (fun at_ => parseValue_text held (depth + 1) fuel at_
          (membersText numbers layout depth others ++ rest) plain.2.1
          (membersText_delimited depth others rest) (by omega))
      obtain ⟨after, last⟩ := memberTail_text others depth fuel middle rest
        (OrderedMap.put OrderedMap.equal [] (key.map readByte) (readBack held)) plain.2.2
        (by omega)
      refine ⟨after, ?_⟩
      simp only [List.cons_append, List.append_assoc]
      rw [quote_eq] at skipped first ⊢
      rw [parseObject_open skipped]
      exact first.trans last

theorem elementTail_text :
    ∀ (elements : List JsonValue) (depth fuel at_ : Nat) (rest : List UInt8)
      (out : List JsonValue), PlainElements numbers elements →
        3 * (elementsText numbers layout depth elements).length ≤ fuel →
          ∃ after, elementTail numbers fuel
              { at_ := at_, rest := elementsText numbers layout depth elements ++ rest } out =
            .ok (.array (out ++ readElements elements), { at_ := after, rest := rest })
  | [], depth, fuel, at_, rest, out, _, _ => by
      have opens : Opens ']'.toUInt8 := by decide
      obtain ⟨after, skipped⟩ := skipSpace_blanks (pad_blank layout depth) opens at_ rest
      rw [elementsText, List.append_assoc, readElements, List.append_nil]
      exact ⟨after + 1, elementTail_bracket fuel out skipped⟩
  | element :: others, depth, fuel, at_, rest, out, plain, enough => by
      rw [elementsText] at enough ⊢
      simp only [List.length_cons, List.length_append] at enough
      obtain ⟨fuel, rfl⟩ : ∃ left, fuel = left + 1 := ⟨fuel - 1, by omega⟩
      obtain ⟨start, c, tail, skipped, same, opens, unclosed⟩ :=
        skipSpace_value (pad_blank layout (depth + 1)) (textOf_starts plain.1) (at_ + 1)
          (elementsText numbers layout depth others ++ rest)
      obtain ⟨middle, first⟩ := parseValue_text element (depth + 1) fuel start
        (elementsText numbers layout depth others ++ rest) plain.1
        (elementsText_delimited depth others rest) (by omega)
      obtain ⟨after, last⟩ := elementTail_text others depth fuel middle rest
        (out ++ [readBack element]) plain.2 (by omega)
      refine ⟨after, ?_⟩
      simp only [List.cons_append, List.append_assoc]
      rw [← same] at first
      rw [elementTail_comma (fuel + 1) out (skipSpace_none (by decide) at_ _) skipped unclosed,
        elementLoop_round out (skipSpace_none opens start tail) first, last]
      simp only [readElements, List.append_assoc, List.singleton_append]

theorem memberTail_text :
    ∀ (members : List (List UInt8 × JsonValue)) (depth fuel at_ : Nat) (rest : List UInt8)
      (out : List (List UInt8 × JsonValue)), PlainMembers numbers members →
        3 * (membersText numbers layout depth members).length ≤ fuel →
          ∃ after, memberTail numbers fuel
              { at_ := at_, rest := membersText numbers layout depth members ++ rest } out =
            .ok (.object (assignAll out (readMembers members)), { at_ := after, rest := rest })
  | [], depth, fuel, at_, rest, out, _, _ => by
      have opens : Opens '\x7d'.toUInt8 := by decide
      obtain ⟨after, skipped⟩ := skipSpace_blanks (pad_blank layout depth) opens at_ rest
      rw [membersText, List.append_assoc, readMembers]
      exact ⟨after + 1, memberTail_brace fuel out skipped⟩
  | (key, held) :: others, depth, fuel, at_, rest, out, plain, enough => by
      rw [membersText] at enough ⊢
      simp only [List.length_cons, List.length_append] at enough
      obtain ⟨fuel, rfl⟩ : ∃ left, fuel = left + 1 := ⟨fuel - 1, by omega⟩
      obtain ⟨start, skipped⟩ := skipSpace_key (pad_blank layout (depth + 1)) key (at_ + 1)
        (layout.separator ++ (textOf numbers layout (depth + 1) held ++
          (membersText numbers layout depth others ++ rest)))
      obtain ⟨middle, first⟩ := memberLoop_text key start out plain.1
        (fun at_ => parseValue_text held (depth + 1) fuel at_
          (membersText numbers layout depth others ++ rest) plain.1
          (membersText_delimited depth others rest) (by omega))
      obtain ⟨after, last⟩ := memberTail_text others depth fuel middle rest
        (OrderedMap.put OrderedMap.equal out (key.map readByte) (readBack held)) plain.2
        (by omega)
      refine ⟨after, ?_⟩
      simp only [List.cons_append, List.append_assoc]
      rw [quote_eq] at skipped first ⊢
      rw [memberTail_comma (fuel + 1) out (skipSpace_none (by decide) at_ _) skipped]
      exact first.trans last

end

theorem parse_textOf {value : JsonValue} (plain : Plain numbers value) :
    parse numbers (textOf numbers layout 0 value) = .ok (readBack value) := by
  have starts : StartsValue (textOf numbers layout 0 value) := textOf_starts plain
  obtain ⟨start, c, tail, skipped, same, -, -⟩ :=
    @skipSpace_value [] _ nofun starts 0 []
  obtain ⟨after, read⟩ := @parseValue_text _ layout value 0
    (3 * (textOf numbers layout 0 value).length + 3) start [] plain nofun (by omega)
  rw [List.append_nil] at same
  rw [List.nil_append, List.append_nil, same] at skipped
  rw [List.append_nil] at read
  simp only [parse, bind, Except.bind, skipped, read]
  rfl

end

end CScript.StdJson
