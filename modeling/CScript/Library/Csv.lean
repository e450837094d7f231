/-
Comma-separated values, in std:csv.

The reader goes through the text once, with the rows so far, the row and the field it is
in, and whether it is between quotes.  The writer quotes a field that needs it; what it
writes is read back whatever the fields hold.
-/

import CScript.Foundation.Formatted
import CScript.Runtime.Value
import Mathlib.Data.List.Infix

namespace CScript.Csv

open Foundation.Formatted (isspace)

abbrev Text := List UInt8

def quoteMark : UInt8 := '"'.toUInt8

def isLineEnd (c : UInt8) : Bool :=
  c = '\n'.toUInt8 || c = '\r'.toUInt8

structure Options where
  delimiter : Text := ascii ","
  trim : Bool := false
  skipEmpty : Bool := true
  quoteAll : Bool := false

/-! ### Reading -/

def trimmed (text : Text) : Text :=
  ((text.dropWhile isspace).reverse.dropWhile isspace).reverse

def finish (field : Text) (trim wasQuoted : Bool) : Text :=
  if trim && !wasQuoted then trimmed field else field

/-- The variables of `parse`. -/
structure Reading where
  rows : List (List Text)
  row : List Text
  field : Text
  quoted : Bool
  fieldWasQuoted : Bool

namespace Reading

def start : Reading := ⟨[], [], [], false, false⟩

def endField (reading : Reading) (options : Options) : Reading :=
  { reading with
    row := reading.row ++ [finish reading.field options.trim reading.fieldWasQuoted]
    field := []
    fieldWasQuoted := false }

def endRow (reading : Reading) (options : Options) : Reading :=
  { reading.endField options with
    rows := reading.rows ++ [(reading.endField options).row]
    row := [] }

def append (reading : Reading) (character : UInt8) : Reading :=
  { reading with field := reading.field ++ [character] }

def openQuote (reading : Reading) : Reading :=
  { reading with quoted := true, fieldWasQuoted := true }

def closeQuote (reading : Reading) : Reading :=
  { reading with quoted := false }

end Reading

/-- The loop of `parse`. -/
def parseLoop (options : Options) (reading : Reading) : Text → Reading
  | [] => reading
  | character :: rest =>
      if reading.quoted then
        if character = quoteMark then
          if rest.head? = some quoteMark then
            parseLoop options (reading.append quoteMark) rest.tail
          else parseLoop options reading.closeQuote rest
        else parseLoop options (reading.append character) rest
      else if character = quoteMark ∧ reading.field = [] then
        parseLoop options reading.openQuote rest
      else if [character] = options.delimiter then
        parseLoop options (reading.endField options) rest
      else if isLineEnd character then
        if character = '\r'.toUInt8 ∧ rest.head? = some '\n'.toUInt8 then
          parseLoop options (reading.endRow options) rest.tail
        else parseLoop options (reading.endRow options) rest
      else parseLoop options (reading.append character) rest
termination_by text => text.length
decreasing_by all_goals simp only [List.length_tail, List.length_cons]; omega

def parse (text : Text) (options : Options) : Except Text (List (List Text)) :=
  let reading := parseLoop options .start text
  if reading.quoted then .error (ascii "a quoted field is never closed")
  else
    let rows :=
      if reading.field ≠ [] ∨ reading.fieldWasQuoted ∨ reading.row ≠ [] then
        (reading.endRow options).rows
      else reading.rows
    if !options.skipEmpty then .ok rows
    else .ok (rows.filter fun candidate => candidate ≠ [[]])

/-! ### Writing -/

/-- `text.replaceAll("\"", "\"\"")` -/
def doubled (text : Text) : Text :=
  text.flatMap fun c => if c = quoteMark then [quoteMark, quoteMark] else [c]

def quote (text delimiter : Text) (always : Bool) : Text :=
  if always || decide (delimiter <:+: text) || text.contains quoteMark ||
      text.contains '\n'.toUInt8 || text.contains '\r'.toUInt8 then
    [quoteMark] ++ doubled text ++ [quoteMark]
  else text

def format (rows : List (List Text)) (options : Options) : Text :=
  let lines := rows.map fun row =>
    options.delimiter.intercalate (row.map (quote · options.delimiter options.quoteAll))
  if lines = [] then [] else (ascii "\n").intercalate lines ++ ascii "\n"

/-! ### One step of the reader -/

section

variable {options : Options} {reading : Reading} {c : UInt8} {rest : Text}

theorem parseLoop_inside (quoted : reading.quoted = true) (other : c ≠ quoteMark) :
    parseLoop options reading (c :: rest) = parseLoop options (reading.append c) rest := by
  rw [parseLoop, if_pos quoted, if_neg other]

theorem parseLoop_doubled (quoted : reading.quoted = true) :
    parseLoop options reading (quoteMark :: quoteMark :: rest) =
      parseLoop options (reading.append quoteMark) rest := by
  rw [parseLoop, if_pos quoted, if_pos rfl]
  exact if_pos rfl

theorem parseLoop_close (quoted : reading.quoted = true) (single : rest.head? ≠ some quoteMark) :
    parseLoop options reading (quoteMark :: rest) = parseLoop options reading.closeQuote rest := by
  rw [parseLoop, if_pos quoted, if_pos rfl, if_neg single]

theorem parseLoop_open (unquoted : reading.quoted = false) (empty : reading.field = []) :
    parseLoop options reading (quoteMark :: rest) = parseLoop options reading.openQuote rest := by
  rw [parseLoop, if_neg (Bool.not_eq_true _ ▸ unquoted), if_pos ⟨rfl, empty⟩]

theorem parseLoop_delimiter (unquoted : reading.quoted = false)
    (closed : ¬(c = quoteMark ∧ reading.field = [])) (delimits : [c] = options.delimiter) :
    parseLoop options reading (c :: rest) = parseLoop options (reading.endField options) rest := by
  rw [parseLoop, if_neg (Bool.not_eq_true _ ▸ unquoted), if_neg closed, if_pos delimits]

theorem parseLoop_lineEnd (unquoted : reading.quoted = false)
    (plain : [c] ≠ options.delimiter) (ends : isLineEnd c = true) :
    parseLoop options reading (c :: rest) =
      parseLoop options (reading.endRow options)
        (if c = '\r'.toUInt8 ∧ rest.head? = some '\n'.toUInt8 then rest.tail else rest) := by
  have other : ¬(c = quoteMark ∧ reading.field = []) := by
    rintro ⟨rfl, _⟩
    cases ends
  rw [parseLoop, if_neg (Bool.not_eq_true _ ▸ unquoted), if_neg other, if_neg plain, if_pos ends]
  split <;> rfl

theorem parseLoop_plain (unquoted : reading.quoted = false)
    (closed : ¬(c = quoteMark ∧ reading.field = [])) (plain : [c] ≠ options.delimiter)
    (ordinary : isLineEnd c = false) :
    parseLoop options reading (c :: rest) = parseLoop options (reading.append c) rest := by
  rw [parseLoop, if_neg (Bool.not_eq_true _ ▸ unquoted), if_neg closed, if_neg plain,
    if_neg (Bool.not_eq_true _ ▸ ordinary)]

end

/-! ### What is written is read back -/

def IsSeparator (options : Options) (c : UInt8) : Prop :=
  [c] = options.delimiter ∨ isLineEnd c = true

def Reading.withField (reading : Reading) (field : Text) : Reading :=
  { reading with field := reading.field ++ field }

theorem Reading.withField_nil (reading : Reading) : reading.withField [] = reading := by
  unfold Reading.withField
  rw [List.append_nil]

theorem Reading.withField_append (reading : Reading) (c : UInt8) (field : Text) :
    (reading.append c).withField field = reading.withField (c :: field) := by
  unfold Reading.append Reading.withField
  rw [List.append_assoc, List.singleton_append]

theorem parseLoop_stretch {options : Options} {reading : Reading}
    (unquoted : reading.quoted = false) {text : Text}
    (started : reading.field ≠ [] ∨ text.head? ≠ some quoteMark)
    (ordinary : ∀ c ∈ text, ¬IsSeparator options c) (rest : Text) :
    parseLoop options reading (text ++ rest) = parseLoop options (reading.withField text) rest := by
  induction text generalizing reading with
  | nil => rw [Reading.withField_nil, List.nil_append]
  | cons c more ih =>
      have plain := ordinary c List.mem_cons_self
      rw [IsSeparator, not_or, Bool.not_eq_true] at plain
      have closed : ¬(c = quoteMark ∧ reading.field = []) := by
        rintro ⟨rfl, empty⟩
        exact started.elim (· empty) (· rfl)
      have onward := @ih (reading.append c) unquoted
        (.inl (List.append_ne_nil_of_right_ne_nil _ (List.cons_ne_nil _ _)))
        fun d there => ordinary d (List.mem_cons_of_mem _ there)
      rw [List.cons_append, parseLoop_plain unquoted closed plain.1 plain.2, onward,
        Reading.withField_append]

theorem parseLoop_doubledText {options : Options} {reading : Reading}
    (quoted : reading.quoted = true) (text rest : Text) :
    parseLoop options reading (doubled text ++ rest) =
      parseLoop options (reading.withField text) rest := by
  induction text generalizing reading with
  | nil => rw [Reading.withField_nil, doubled, List.flatMap_nil, List.nil_append]
  | cons c more ih =>
      have onward := @ih (reading.append c) quoted
      rw [Reading.withField_append] at onward
      rw [doubled, List.flatMap_cons, List.append_assoc, ← doubled]
      by_cases mark : c = quoteMark
      · subst mark
        rw [if_pos rfl, ← onward]
        exact parseLoop_doubled quoted
      · rw [if_neg mark, ← onward]
        exact parseLoop_inside quoted mark

theorem parseLoop_quotedField {options : Options} {reading : Reading}
    (unquoted : reading.quoted = false) (empty : reading.field = []) (text : Text) {rest : Text}
    (single : rest.head? ≠ some quoteMark) :
    parseLoop options reading (quoteMark :: (doubled text ++ quoteMark :: rest)) =
      parseLoop options { reading with field := text, fieldWasQuoted := true } rest := by
  rw [parseLoop_open unquoted empty, parseLoop_doubledText rfl, parseLoop_close rfl single]
  simp only [Reading.openQuote, Reading.withField, Reading.closeQuote, empty, unquoted,
    List.nil_append]

theorem parseLoop_quote {options : Options} {delimiter : UInt8}
    (is : options.delimiter = [delimiter]) (rows : List (List Text)) (row : List Text)
    (text : Text) {rest : Text} (single : rest.head? ≠ some quoteMark) :
    ∃ wasQuoted, parseLoop options ⟨rows, row, [], false, false⟩
        (quote text options.delimiter options.quoteAll ++ rest) =
      parseLoop options ⟨rows, row, text, false, wasQuoted⟩ rest := by
  unfold quote
  split
  · refine ⟨true, ?_⟩
    rw [List.append_assoc, List.append_assoc, List.singleton_append, List.singleton_append]
    exact parseLoop_quotedField rfl rfl text single
  · next plain =>
      refine ⟨false, ?_⟩
      simp only [Bool.or_eq_true, decide_eq_true_eq, not_or, is, List.contains_iff_mem] at plain
      obtain ⟨⟨⟨⟨_, delimits⟩, marks⟩, lines⟩, returns⟩ := plain
      apply @parseLoop_stretch options ⟨rows, row, [], false, false⟩ rfl
      · exact .inr fun opens => marks (List.mem_of_head? opens)
      · rintro c there (same | ends)
        · rw [is] at same
          cases same
          exact delimits ((List.singleton_infix_iff _ _).mpr there)
        · rw [isLineEnd, Bool.or_eq_true, decide_eq_true_eq, decide_eq_true_eq] at ends
          rcases ends with rfl | rfl
          · exact lines there
          · exact returns there

theorem finish_untrimmed (field : Text) (wasQuoted : Bool) : finish field false wasQuoted = field :=
  rfl

section

variable {options : Options} {delimiter : UInt8} (is : options.delimiter = [delimiter])
  (apart : delimiter ≠ quoteMark) (inline : isLineEnd delimiter = false)
  (untrimmed : options.trim = false)

include is apart inline untrimmed

theorem parseLoop_line (rows : List (List Text)) (row : List Text) (field : Text)
    (fields : List Text) (rest : Text) :
    parseLoop options ⟨rows, row, [], false, false⟩
        (options.delimiter.intercalate
          ((field :: fields).map (quote · options.delimiter options.quoteAll)) ++
            '\n'.toUInt8 :: rest) =
      parseLoop options ⟨rows ++ [row ++ field :: fields], [], [], false, false⟩ rest := by
  induction fields generalizing row field with
  | nil =>
      have ends : ['\n'.toUInt8] ≠ options.delimiter := by
        rintro same
        rw [is] at same
        cases same
        cases inline
      have single : ('\n'.toUInt8 :: rest).head? ≠ some quoteMark := nofun
      obtain ⟨wasQuoted, read⟩ := parseLoop_quote is rows row field single
      rw [List.map_singleton, List.intercalate_singleton, read, parseLoop_lineEnd rfl ends rfl,
        if_neg (fun both => absurd both.1 (by decide))]
      simp only [Reading.endRow, Reading.endField, untrimmed, finish_untrimmed]
  | cons next more ih =>
      have single : (delimiter :: (options.delimiter.intercalate
          ((next :: more).map (quote · options.delimiter options.quoteAll)) ++
            '\n'.toUInt8 :: rest)).head? ≠ some quoteMark :=
        fun same => apart (Option.some.inj same)
      obtain ⟨wasQuoted, read⟩ := parseLoop_quote is rows row field single
      have split : options.delimiter.intercalate
          ((field :: next :: more).map (quote · options.delimiter options.quoteAll)) ++
            '\n'.toUInt8 :: rest =
          quote field options.delimiter options.quoteAll ++
            delimiter :: (options.delimiter.intercalate
              ((next :: more).map (quote · options.delimiter options.quoteAll)) ++
                '\n'.toUInt8 :: rest) := by
        rw [List.map_cons, List.map_cons, List.intercalate_cons_cons, is, List.append_assoc,
          List.append_assoc, List.singleton_append]
      rw [split, read, parseLoop_delimiter rfl (fun opens => apart opens.1) is.symm]
      simp only [Reading.endField, untrimmed, finish_untrimmed]
      rw [ih, List.append_assoc, List.singleton_append]

theorem parseLoop_lines (rows before : List (List Text)) (nonempty : ∀ row ∈ rows, row ≠ []) :
    parseLoop options ⟨before, [], [], false, false⟩
        (rows.flatMap fun row => options.delimiter.intercalate
          (row.map (quote · options.delimiter options.quoteAll)) ++ ['\n'.toUInt8]) =
      ⟨before ++ rows, [], [], false, false⟩ := by
  induction rows generalizing before with
  | nil => rw [List.flatMap_nil, parseLoop, List.append_nil]
  | cons row more ih =>
      cases row with
      | nil => exact absurd rfl (nonempty [] List.mem_cons_self)
      | cons field fields =>
          rw [List.flatMap_cons, List.append_assoc, List.singleton_append,
            parseLoop_line is apart inline untrimmed,
            ih _ fun row there => nonempty row (List.mem_cons_of_mem _ there), List.nil_append,
            List.append_assoc, List.singleton_append]

end

theorem intercalate_lines (lines : List Text) (some : lines ≠ []) :
    (ascii "\n").intercalate lines ++ ascii "\n" = lines.flatMap (· ++ ['\n'.toUInt8]) := by
  have newline : ascii "\n" = ['\n'.toUInt8] := by decide
  rw [newline]
  induction lines with
  | nil => exact absurd rfl some
  | cons line more ih =>
      cases more with
      | nil => rw [List.intercalate_singleton, List.flatMap_singleton]
      | cons next rest =>
          rw [List.intercalate_cons_cons, List.append_assoc, List.append_assoc,
            ih (List.cons_ne_nil _ _), List.flatMap_cons (x := line), List.append_assoc]

theorem format_eq (rows : List (List Text)) (options : Options) :
    format rows options = rows.flatMap fun row =>
      options.delimiter.intercalate (row.map (quote · options.delimiter options.quoteAll)) ++
        ['\n'.toUInt8] := by
  simp only [format]
  split
  · next none =>
      rw [List.map_eq_nil_iff.mp none, List.flatMap_nil]
  · next some => rw [intercalate_lines _ some, List.flatMap_map]

theorem parse_format {options : Options} {delimiter : UInt8} (is : options.delimiter = [delimiter])
    (apart : delimiter ≠ quoteMark) (inline : isLineEnd delimiter = false)
    (untrimmed : options.trim = false) (unskipped : options.skipEmpty = false)
    (rows : List (List Text)) (nonempty : ∀ row ∈ rows, row ≠ []) :
    parse (format rows options) options = .ok rows := by
  have read := parseLoop_lines is apart inline untrimmed rows [] nonempty
  rw [List.nil_append, ← format_eq] at read
  simp only [parse, Reading.start, read, unskipped]
  rfl

/-! ### A quoted field that is never closed -/

inductive Unclosed (options : Options) : Text → Prop
  | here (text : Text) : Unclosed options (quoteMark :: doubled text)
  | afterPlain {field rest : Text} {separator : UInt8}
      (ordinary : ∀ c ∈ field, ¬IsSeparator options c) (separates : IsSeparator options separator)
      (bare : (field ++ separator :: rest).head? ≠ some quoteMark)
      (further : Unclosed options rest) : Unclosed options (field ++ separator :: rest)
  | afterQuoted (text : Text) {trailing rest : Text} {separator : UInt8}
      (ordinary : ∀ c ∈ trailing, ¬IsSeparator options c)
      (separates : IsSeparator options separator)
      (single : (trailing ++ separator :: rest).head? ≠ some quoteMark)
      (further : Unclosed options rest) :
      Unclosed options
        (quoteMark :: (doubled text ++ quoteMark :: (trailing ++ separator :: rest)))

theorem quoted_congr {options : Options} {reading other : Reading}
    (quoted : reading.quoted = other.quoted) (field : reading.field = other.field) (text : Text) :
    (parseLoop options reading text).quoted = (parseLoop options other text).quoted := by
  induction reading, text using parseLoop.induct options generalizing other with
  | case1 reading =>
      rw [parseLoop, parseLoop]
      exact quoted
  | case2 reading rest inside double ih =>
      obtain ⟨more, rfl⟩ : ∃ more, rest = quoteMark :: more :=
        ⟨rest.tail, (List.cons_head?_tail double).symm⟩
      rw [parseLoop_doubled inside, parseLoop_doubled (quoted ▸ inside)]
      exact @ih (other.append quoteMark) quoted (congrArg (· ++ [quoteMark]) field)
  | case3 reading rest inside single ih =>
      rw [parseLoop_close inside single, parseLoop_close (quoted ▸ inside) single]
      exact @ih other.closeQuote rfl field
  | case4 reading c rest inside mark ih =>
      rw [parseLoop_inside inside mark, parseLoop_inside (quoted ▸ inside) mark]
      exact @ih (other.append c) quoted (congrArg (· ++ [c]) field)
  | case5 reading c rest outside opens ih =>
      rw [Bool.not_eq_true] at outside
      rw [opens.1, parseLoop_open outside opens.2, parseLoop_open (quoted ▸ outside)
        (field ▸ opens.2)]
      exact @ih other.openQuote rfl field
  | case6 reading c rest outside closed delimits ih =>
      rw [Bool.not_eq_true] at outside
      rw [parseLoop_delimiter outside closed delimits,
        parseLoop_delimiter (quoted ▸ outside) (field ▸ closed) delimits]
      exact @ih (other.endField options) quoted rfl
  | case7 reading c rest outside closed plain ends pair ih =>
      rw [Bool.not_eq_true] at outside
      rw [parseLoop_lineEnd outside plain ends, parseLoop_lineEnd (quoted ▸ outside) plain ends,
        if_pos pair]
      exact @ih (other.endRow options) quoted rfl
  | case8 reading c rest outside closed plain ends lone ih =>
      rw [Bool.not_eq_true] at outside
      rw [parseLoop_lineEnd outside plain ends, parseLoop_lineEnd (quoted ▸ outside) plain ends,
        if_neg lone]
      exact @ih (other.endRow options) quoted rfl
  | case9 reading c rest outside closed plain ordinary ih =>
      rw [Bool.not_eq_true] at outside ordinary
      rw [parseLoop_plain outside closed plain ordinary,
        parseLoop_plain (quoted ▸ outside) (field ▸ closed) plain ordinary]
      exact @ih (other.append c) quoted (congrArg (· ++ [c]) field)

theorem parseLoop_separator {options : Options} {reading : Reading}
    (unquoted : reading.quoted = false) {c : UInt8} (separates : IsSeparator options c)
    (closed : ¬(c = quoteMark ∧ reading.field = [])) (rest : Text) :
    ∃ next : Reading, next.quoted = false ∧ next.field = [] ∧
      parseLoop options reading (c :: rest) =
        parseLoop options next
          (if [c] ≠ options.delimiter ∧ c = '\r'.toUInt8 ∧ rest.head? = some '\n'.toUInt8 then
            rest.tail else rest) := by
  by_cases delimits : [c] = options.delimiter
  · refine ⟨reading.endField options, unquoted, rfl, ?_⟩
    rw [parseLoop_delimiter unquoted closed delimits, if_neg (fun both => both.1 delimits)]
  · refine ⟨reading.endRow options, unquoted, rfl, ?_⟩
    rw [parseLoop_lineEnd unquoted delimits (separates.resolve_left delimits)]
    simp only [ne_eq, delimits, not_false_eq_true, true_and]

theorem quoted_separator {options : Options} {reading : Reading}
    (unquoted : reading.quoted = false) {c : UInt8} (separates : IsSeparator options c)
    (closed : ¬(c = quoteMark ∧ reading.field = [])) (rest : Text) :
    (parseLoop options reading (c :: rest)).quoted =
      (parseLoop options .start rest).quoted := by
  obtain ⟨next, outside, empty, read⟩ := parseLoop_separator unquoted separates closed rest
  rw [read]
  split
  · next pair =>
      obtain ⟨more, rfl⟩ : ∃ more, rest = '\n'.toUInt8 :: more :=
        ⟨rest.tail, (List.cons_head?_tail pair.2.2).symm⟩
      obtain ⟨after, outside', empty', read'⟩ := @parseLoop_separator options .start
        rfl '\n'.toUInt8 (.inr rfl) (fun both => nomatch both.1) more
      rw [read', if_neg (fun both => nomatch both.2.1)]
      exact quoted_congr (outside.trans outside'.symm) (empty.trans empty'.symm) _
  · exact quoted_congr outside empty _

theorem doubled_or (text : Text) :
    (∃ body, text = doubled body) ∨
      ∃ body rest, text = doubled body ++ quoteMark :: rest ∧ rest.head? ≠ some quoteMark := by
  induction size : text.length using Nat.strong_induction_on generalizing text with
  | _ n ih =>
      match text with
      | [] => exact .inl ⟨[], rfl⟩
      | c :: rest =>
          by_cases mark : c = quoteMark
          · subst mark
            by_cases double : rest.head? = some quoteMark
            · obtain ⟨more, rfl⟩ : ∃ more, rest = quoteMark :: more :=
                ⟨rest.tail, (List.cons_head?_tail double).symm⟩
              have twice : ∀ body, doubled (quoteMark :: body) =
                  quoteMark :: quoteMark :: doubled body := fun body => rfl
              rcases ih more.length (by rw [← size, List.length_cons, List.length_cons]; omega)
                more rfl with ⟨body, is⟩ | ⟨body, rest, is, single⟩
              · exact .inl ⟨quoteMark :: body, by rw [twice, ← is]⟩
              · exact .inr ⟨quoteMark :: body, rest, by rw [twice, is]; rfl, single⟩
            · exact .inr ⟨[], rest, rfl, double⟩
          · have once : ∀ body, doubled (c :: body) = c :: doubled body := fun body => by
              rw [doubled, List.flatMap_cons, if_neg mark, List.singleton_append, doubled]
            rcases ih rest.length (by rw [← size, List.length_cons]; omega)
              rest rfl with ⟨body, is⟩ | ⟨body, more, is, single⟩
            · exact .inl ⟨c :: body, by rw [once, ← is]⟩
            · exact .inr ⟨c :: body, more, by rw [once, is]; rfl, single⟩

theorem ordinary_or (options : Options) (text : Text) :
    (∀ c ∈ text, ¬IsSeparator options c) ∨
      ∃ field separator rest, text = field ++ separator :: rest ∧
        (∀ c ∈ field, ¬IsSeparator options c) ∧ IsSeparator options separator := by
  induction text with
  | nil => exact .inl fun c there => absurd there List.not_mem_nil
  | cons c rest ih =>
      by_cases separates : IsSeparator options c
      · exact .inr ⟨[], c, rest, rfl, fun d there => absurd there List.not_mem_nil, separates⟩
      · rcases ih with none | ⟨field, separator, more, rfl, none, is⟩
        · exact .inl (List.forall_mem_cons.mpr ⟨separates, none⟩)
        · exact .inr ⟨c :: field, separator, more, rfl,
            List.forall_mem_cons.mpr ⟨separates, none⟩, is⟩

theorem quoted_stretch {options : Options} {reading : Reading}
    (unquoted : reading.quoted = false) {field rest : Text} {separator : UInt8}
    (ordinary : ∀ c ∈ field, ¬IsSeparator options c) (separates : IsSeparator options separator)
    (closed : reading.field ≠ [] ∨ (field ++ separator :: rest).head? ≠ some quoteMark) :
    (parseLoop options reading (field ++ separator :: rest)).quoted =
      (parseLoop options .start rest).quoted := by
  have started : reading.field ≠ [] ∨ field.head? ≠ some quoteMark := by
    refine closed.imp_right fun other opens => other ?_
    rw [List.head?_append, opens, Option.some_or]
  rw [parseLoop_stretch unquoted started ordinary]
  apply @quoted_separator options (reading.withField field) unquoted _ separates
  rintro ⟨rfl, empty⟩
  obtain ⟨none, rfl⟩ := List.append_eq_nil_iff.mp empty
  exact closed.elim (· none) (· rfl)

theorem quoted_of_unclosed {options : Options} {text : Text} (unclosed : Unclosed options text) :
    (parseLoop options .start text).quoted = true := by
  induction unclosed with
  | here text =>
      have read := @parseLoop_doubledText options Reading.start.openQuote rfl text []
      rw [List.append_nil, parseLoop] at read
      rw [parseLoop_open rfl rfl, read]
      rfl
  | afterPlain ordinary separates bare further ih =>
      rw [quoted_stretch rfl ordinary separates (.inr bare), ih]
  | afterQuoted text ordinary separates single further ih =>
      rw [parseLoop_quotedField rfl rfl text single,
        quoted_stretch rfl ordinary separates (.inr single), ih]

theorem unclosed_of_quoted {options : Options} (text : Text)
    (quoted : (parseLoop options .start text).quoted = true) : Unclosed options text := by
  induction size : text.length using Nat.strong_induction_on generalizing text with
  | _ n ih =>
      by_cases opens : text.head? = some quoteMark
      · obtain ⟨more, rfl⟩ : ∃ more, text = quoteMark :: more :=
          ⟨text.tail, (List.cons_head?_tail opens).symm⟩
        rcases doubled_or more with ⟨body, rfl⟩ | ⟨body, rest, rfl, single⟩
        · exact .here body
        · rw [parseLoop_quotedField rfl rfl body single] at quoted
          rcases ordinary_or options rest with ordinary | ⟨field, separator, after, rfl, none, is⟩
          · have read := @parseLoop_stretch options
              { Reading.start with field := body, fieldWasQuoted := true } rfl rest
              (.inr single) ordinary []
            rw [List.append_nil, parseLoop] at read
            rw [read] at quoted
            cases quoted
          · rw [quoted_stretch rfl none is (.inr single)] at quoted
            refine .afterQuoted body none is single (ih after.length ?_ after quoted rfl)
            simp only [List.length_cons, List.length_append] at size
            omega
      · rcases ordinary_or options text with ordinary | ⟨field, separator, after, rfl, none, is⟩
        · have read := @parseLoop_stretch options .start rfl text (.inr opens) ordinary []
          rw [List.append_nil, parseLoop] at read
          rw [read] at quoted
          cases quoted
        · rw [quoted_stretch rfl none is (.inr opens)] at quoted
          refine .afterPlain none is opens (ih after.length ?_ after quoted rfl)
          simp only [List.length_cons, List.length_append] at size
          omega

theorem parse_error_iff (text : Text) (options : Options) :
    (∃ message, parse text options = .error message) ↔ Unclosed options text := by
  simp only [parse]
  split
  · next quoted => exact ⟨fun _ => unclosed_of_quoted text quoted, fun _ => ⟨_, rfl⟩⟩
  · next closed =>
      refine iff_of_false ?_ (fun unclosed => closed (quoted_of_unclosed unclosed))
      rintro ⟨message, same⟩
      split at same
      · cases same
      · cases same

/-- Whatever the fields hold, what has been written is read back; and only a quoted field that
is never closed is refused. -/
theorem csv_roundTrips {options : Options} {delimiter : UInt8}
    (is : options.delimiter = [delimiter]) (apart : delimiter ≠ quoteMark)
    (inline : isLineEnd delimiter = false) (untrimmed : options.trim = false)
    (unskipped : options.skipEmpty = false) :
    (∀ rows : List (List Text), (∀ row ∈ rows, row ≠ []) →
      parse (format rows options) options = .ok rows) ∧
    ∀ (text : Text) (any : Options),
      (∃ message, parse text any = .error message) ↔ Unclosed any text :=
  ⟨parse_format is apart inline untrimmed unskipped, parse_error_iff⟩

/-- With a semicolon between the fields. -/
theorem csv_roundTrips_semicolon :
    parse (format [[ascii "a;b", ascii ""], [ascii "\"\r\n"]]
        ⟨ascii ";", false, false, false⟩) ⟨ascii ";", false, false, false⟩ =
      .ok [[ascii "a;b", ascii ""], [ascii "\"\r\n"]] :=
  (@csv_roundTrips ⟨ascii ";", false, false, false⟩ ';'.toUInt8 (by decide) (by decide) (by decide) rfl rfl).1 _ (by decide)

end CScript.Csv
