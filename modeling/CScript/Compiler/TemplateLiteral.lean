/-
Template literals.

The lexer takes a template whole and the parser takes it apart, each counting braces by
itself.  The lexer steps over the byte after a backslash everywhere and the parser only
between interpolations; a piece goes through a buffer of 1023 bytes.
-/

import CScript.Compiler.NumberLiteral
import CScript.Library.Json

namespace CScript.TemplateLiteral

open StdJson (escaped decodeEscapes makeStringLiteral)

/-! ### The lexer -/

/-- What the loop does with a byte: stop at the end of the source, close the literal, or
take one byte or two, which leaves the depth as given. -/
inductive Turn where
  | stop
  | close
  | one (depth : Nat)
  | two (depth : Nat)

def turn (depth : Nat) (c next : UInt8) : Turn :=
  if c = 0 then .stop
  else if c = '\\'.toUInt8 ∧ next ≠ 0 then .two depth
  else if depth = 0 ∧ c = '`'.toUInt8 then .close
  else if c = '$'.toUInt8 ∧ next = '{'.toUInt8 then .two (depth + 1)
  else if 0 < depth ∧ c = '{'.toUInt8 then .one (depth + 1)
  else if 0 < depth ∧ c = '}'.toUInt8 then .one (depth - 1)
  else .one depth

/-- The source after the closing backtick, from just past the opening one. -/
def templateLiteral (depth : Nat) : List UInt8 → Option (List UInt8)
  | [] => none
  | [c] =>
      match turn depth c 0 with
      | .close => some []
      | _ => none
  | c :: next :: rest =>
      match turn depth c next with
      | .stop => none
      | .close => some (next :: rest)
      | .one depth => templateLiteral depth (next :: rest)
      | .two depth => templateLiteral depth rest

def record (before after : Nat) (bytes : List UInt8) (spans : List (List UInt8)) :
    List (List UInt8) :=
  if (before = 0 ↔ after = 0) then (bytes ++ spans.headD []) :: spans.tail else [] :: spans

/-- The same loop with what its depth says: pieces and interpolations by turns. -/
def templateSpans (depth : Nat) : List UInt8 → Option (List (List UInt8) × List UInt8)
  | [] => none
  | [c] =>
      match turn depth c 0 with
      | .close => some ([[]], [])
      | _ => none
  | c :: next :: rest =>
      match turn depth c next with
      | .stop => none
      | .close => some ([[]], next :: rest)
      | .one after =>
          (templateSpans after (next :: rest)).map fun found =>
            (record depth after [c] found.1, found.2)
      | .two after =>
          (templateSpans after rest).map fun found =>
            (record depth after [c, next] found.1, found.2)

/-! ### The parser -/

/-- An escape of a piece: those of the backtick, the dollar sign and the backslash are the
byte itself, as any other is. -/
def unescape (c : UInt8) : UInt8 :=
  if c = 'n'.toUInt8 then 10
  else if c = 't'.toUInt8 then 9
  else if c = 'r'.toUInt8 then 13
  else c

/-- A piece decoded, as written, and what follows the `${` that ends it, if one does. -/
def scanPiece : List UInt8 → List UInt8 × List UInt8 × Option (List UInt8)
  | [] => ([], [], none)
  | [c] => ([c], [c], none)
  | c :: next :: rest =>
      if c = '$'.toUInt8 ∧ next = '{'.toUInt8 then ([], [], some rest)
      else if c = '\\'.toUInt8 then
        let (cooked, raw, more) := scanPiece rest
        (unescape next :: cooked, c :: next :: raw, more)
      else
        let (cooked, raw, more) := scanPiece (next :: rest)
        (c :: cooked, c :: raw, more)

/-- The text of an interpolation, and what follows the `}` that ends it. -/
def scanExpression (depth : Nat) : List UInt8 → Option (List UInt8 × List UInt8)
  | [] => none
  | c :: rest =>
      let depth :=
        if c = '{'.toUInt8 then depth + 1 else if c = '}'.toUInt8 then depth - 1 else depth
      if depth = 0 then some ([], rest)
      else (scanExpression depth rest).map fun found => (c :: found.1, found.2)

@[ext]
structure Scanned where
  cooked : List (List UInt8)
  raw : List (List UInt8)
  expressions : List (List UInt8)
  deriving DecidableEq, Repr

/-- `chunk` holds 1024 bytes, the last of which is never used. -/
def chunkSize : Nat := 1023

/-- The outer loop, a turn for each piece: `body` is what stands between the backticks. -/
def scanPieces : Nat → List UInt8 → Option Scanned
  | 0, _ => none
  | fuel + 1, body =>
      let (cooked, raw, more) := scanPiece body
      match more with
      | none => some ⟨[cooked.take chunkSize], [raw], []⟩
      | some rest =>
          match scanExpression 1 rest with
          | none => none
          | some (expression, rest) =>
              (scanPieces fuel rest).map fun found =>
                ⟨cooked.take chunkSize :: found.cooked, raw :: found.raw,
                  expression :: found.expressions⟩

def scanTemplate (body : List UInt8) : Option Scanned :=
  scanPieces (body.length + 1) body

/-! ### Templates as they are written -/

inductive Part where
  | plain (c : UInt8)
  | escape (c : UInt8)
  deriving DecidableEq, Repr

def Part.text : Part → List UInt8
  | .plain c => [c]
  | .escape c => ['\\'.toUInt8, c]

abbrev Piece := List Part

def pieceText (piece : Piece) : List UInt8 :=
  piece.flatMap Part.text

inductive WellFormed : Piece → Prop
  | nil : WellFormed []
  | escape {c : UInt8} {rest : Piece} (byte : c ≠ 0) (more : WellFormed rest) :
      WellFormed (.escape c :: rest)
  | plain {c : UInt8} {rest : Piece} (byte : c ≠ 0) (noEscape : c ≠ '\\'.toUInt8)
      (noEnd : c ≠ '`'.toUInt8)
      (noOpening : c = '$'.toUInt8 → rest.head? ≠ some (.plain '{'.toUInt8))
      (more : WellFormed rest) : WellFormed (.plain c :: rest)

structure Template where
  first : Piece
  rest : List (List UInt8 × Piece)

def restText : List (List UInt8 × Piece) → List UInt8
  | [] => []
  | (expression, piece) :: rest =>
      '$'.toUInt8 :: '{'.toUInt8 ::
        (expression ++ '}'.toUInt8 :: (pieceText piece ++ restText rest))

namespace Template

def pieces (template : Template) : List Piece :=
  template.first :: template.rest.map Prod.snd

def expressions (template : Template) : List (List UInt8) :=
  template.rest.map Prod.fst

def text (template : Template) : List UInt8 :=
  pieceText template.first ++ restText template.rest

def spans (template : Template) : List (List UInt8) :=
  pieceText template.first ::
    template.rest.flatMap fun part => [part.1, pieceText part.2]

structure IsWritten (template : Template) : Prop where
  pieces : ∀ piece ∈ template.pieces, WellFormed piece
  bytes : ∀ expression ∈ template.expressions, (0 : UInt8) ∉ expression

end Template

def depthAfter (depth : Nat) : List UInt8 → Option Nat
  | [] => some depth
  | c :: rest =>
      if c = '{'.toUInt8 then depthAfter (depth + 1) rest
      else if c = '}'.toUInt8 then
        match depth with
        | 0 => none
        | depth + 1 => depthAfter depth rest
      else depthAfter depth rest

def Balanced (text : List UInt8) : Prop :=
  depthAfter 0 text = some 0

def unescaped : List UInt8 → Option (List UInt8)
  | [] => some []
  | [c] => if c = '\\'.toUInt8 then none else some [c]
  | c :: next :: rest =>
      if c = '\\'.toUInt8 then unescaped rest
      else (unescaped (next :: rest)).map (c :: ·)

def EscapedBalanced (text : List UInt8) : Prop :=
  ∃ kept, unescaped text = some kept ∧ Balanced kept

/-! ### Pieces -/

theorem pieceText_cons (part : Part) (rest : Piece) :
    pieceText (part :: rest) = part.text ++ pieceText rest := rfl

inductive PieceEnds : List UInt8 → Option (List UInt8) → Prop
  | last : PieceEnds [] none
  | opening (more : List UInt8) : PieceEnds ('$'.toUInt8 :: '{'.toUInt8 :: more) (some more)

def Part.cooked : Part → UInt8
  | .plain c => c
  | .escape c => unescape c

theorem scanPiece_ends {tail : List UInt8} {more : Option (List UInt8)}
    (ends : PieceEnds tail more) : scanPiece tail = ([], [], more) := by
  cases ends with
  | last => rfl
  | opening more => rfl

theorem PieceEnds.noBrace {tail : List UInt8} {more : Option (List UInt8)}
    (ends : PieceEnds tail more) : tail.head? ≠ some '{'.toUInt8 := by
  cases ends with
  | last => exact nofun
  | opening more =>
      intro same
      exact absurd (Option.some.inj same) (by decide)

theorem opens_nothing {rest : Piece} {tail : List UInt8} (ends : tail.head? ≠ some '{'.toUInt8)
    (noOpening : rest.head? ≠ some (.plain '{'.toUInt8)) {next : UInt8} {following : List UInt8}
    (same : pieceText rest ++ tail = next :: following) : next ≠ '{'.toUInt8 := by
  rintro rfl
  cases rest with
  | nil =>
      apply ends
      change tail = _ at same
      rw [same]
      rfl
  | cons part rest =>
      cases part with
      | plain c =>
          cases same
          exact noOpening rfl
      | escape c => cases same

theorem scanPiece_text {piece : Piece} (wellFormed : WellFormed piece) {tail : List UInt8}
    {more : Option (List UInt8)} (ends : PieceEnds tail more) :
    scanPiece (pieceText piece ++ tail) = (piece.map Part.cooked, pieceText piece, more) := by
  induction wellFormed with
  | nil => exact scanPiece_ends ends
  | @escape c rest byte wellFormed ih =>
      change scanPiece ('\\'.toUInt8 :: c :: (pieceText rest ++ tail)) = _
      unfold scanPiece
      rw [if_neg (by rintro ⟨same, _⟩; exact absurd same (by decide)), if_pos rfl, ih]
      rfl
  | @plain c rest byte noEscape noEnd noOpening wellFormed ih =>
      change scanPiece (c :: (pieceText rest ++ tail)) = _
      cases following : pieceText rest ++ tail with
      | nil =>
          rw [following] at ih
          have parts : (([] : List UInt8), ([] : List UInt8), (none : Option (List UInt8))) =
              (rest.map Part.cooked, pieceText rest, more) := ih
          simp only [Prod.mk.injEq] at parts
          obtain ⟨nothing, text, last⟩ := parts
          rw [List.map_cons, ← nothing, pieceText_cons, ← text, ← last]
          rfl
      | cons next following' =>
          unfold scanPiece
          have notOpening : ¬(c = '$'.toUInt8 ∧ next = '{'.toUInt8) := by
            rintro ⟨dollar, brace⟩
            exact opens_nothing ends.noBrace (noOpening dollar) following brace
          rw [if_neg notOpening, if_neg noEscape, ← following, ih]
          rfl

/-! ### Interpolations, as the parser reads them -/

theorem scanExpression_closes (expression : List UInt8) {depth : Nat} (more : List UInt8)
    (balanced : depthAfter depth expression = some 0) :
    scanExpression (depth + 1) (expression ++ '}'.toUInt8 :: more) = some (expression, more) := by
  induction expression generalizing depth with
  | nil =>
      cases balanced
      rfl
  | cons c rest ih =>
      change scanExpression (depth + 1) (c :: (rest ++ '}'.toUInt8 :: more)) = _
      unfold scanExpression
      unfold depthAfter at balanced
      by_cases opens : c = '{'.toUInt8
      · rw [if_pos opens] at balanced
        simp only [if_pos opens]
        rw [if_neg (Nat.succ_ne_zero _), ih balanced]
        rfl
      · rw [if_neg opens] at balanced
        simp only [if_neg opens]
        by_cases closes : c = '}'.toUInt8
        · rw [if_pos closes] at balanced
          cases depth with
          | zero => cases balanced
          | succ depth =>
              rw [if_pos closes, Nat.add_sub_cancel, if_neg (Nat.succ_ne_zero _), ih balanced]
              rfl
        · rw [if_neg closes] at balanced
          rw [if_neg closes, if_neg (Nat.succ_ne_zero _), ih balanced]
          rfl

theorem scanExpression_balanced {source expression more : List UInt8} {depth : Nat}
    (found : scanExpression (depth + 1) source = some (expression, more)) :
    source = expression ++ '}'.toUInt8 :: more ∧ depthAfter depth expression = some 0 := by
  induction source generalizing depth expression with
  | nil => cases found
  | cons c rest ih =>
      unfold scanExpression at found
      by_cases opens : c = '{'.toUInt8
      · simp only [if_pos opens] at found
        rw [if_neg (Nat.succ_ne_zero _)] at found
        obtain ⟨⟨inner, left⟩, inside, same⟩ := Option.map_eq_some_iff.mp found
        cases same
        obtain ⟨split, balanced⟩ := ih inside
        refine ⟨by rw [split]; rfl, ?_⟩
        unfold depthAfter
        rw [if_pos opens]
        exact balanced
      · simp only [if_neg opens] at found
        by_cases closes : c = '}'.toUInt8
        · rw [if_pos closes, Nat.add_sub_cancel] at found
          cases depth with
          | zero =>
              cases found
              rw [closes]
              exact ⟨rfl, rfl⟩
          | succ depth =>
              rw [if_neg (Nat.succ_ne_zero _)] at found
              obtain ⟨⟨inner, left⟩, inside, same⟩ := Option.map_eq_some_iff.mp found
              cases same
              obtain ⟨split, balanced⟩ := ih inside
              refine ⟨by rw [split]; rfl, ?_⟩
              unfold depthAfter
              rw [if_neg opens, if_pos closes]
              exact balanced
        · rw [if_neg closes, if_neg (Nat.succ_ne_zero _)] at found
          obtain ⟨⟨inner, left⟩, inside, same⟩ := Option.map_eq_some_iff.mp found
          cases same
          obtain ⟨split, balanced⟩ := ih inside
          refine ⟨by rw [split]; rfl, ?_⟩
          unfold depthAfter
          rw [if_neg opens, if_neg closes]
          exact balanced

/-! ### The lexer's steps -/

def extend (bytes : List UInt8) (spans : List (List UInt8)) : List (List UInt8) :=
  (bytes ++ spans.headD []) :: spans.tail

abbrev Spans := List (List UInt8) × List UInt8

def Spans.extend (bytes : List UInt8) (found : Spans) : Spans :=
  (TemplateLiteral.extend bytes found.1, found.2)

def Spans.cut (found : Spans) : Spans :=
  ([] :: found.1, found.2)

theorem record_within (before after : Nat) (same : before = 0 ↔ after = 0) (bytes : List UInt8)
    (spans : List (List UInt8)) : record before after bytes spans = extend bytes spans :=
  if_pos same

theorem record_across (before after : Nat) (other : ¬(before = 0 ↔ after = 0))
    (bytes : List UInt8) (spans : List (List UInt8)) :
    record before after bytes spans = [] :: spans :=
  if_neg other

theorem spans_one {depth after : Nat} {c next : UInt8} (takes : turn depth c next = .one after)
    (rest : List UInt8) :
    templateSpans depth (c :: next :: rest) = (templateSpans after (next :: rest)).map fun found =>
      (record depth after [c] found.1, found.2) := by
  rw [templateSpans, takes]

theorem spans_two {depth after : Nat} {c next : UInt8} (takes : turn depth c next = .two after)
    (rest : List UInt8) :
    templateSpans depth (c :: next :: rest) = (templateSpans after rest).map fun found =>
      (record depth after [c, next] found.1, found.2) := by
  rw [templateSpans, takes]

theorem spans_last {depth after : Nat} {c : UInt8} (takes : turn depth c 0 = .one after) :
    templateSpans depth [c] = none := by
  unfold templateSpans
  rw [takes]

theorem spans_escape (depth : Nat) {c : UInt8} (byte : c ≠ 0) (rest : List UInt8) :
    templateSpans depth ('\\'.toUInt8 :: c :: rest) =
      (templateSpans depth rest).map (Spans.extend ['\\'.toUInt8, c]) := by
  have takes : turn depth '\\'.toUInt8 c = .two depth := by
    unfold turn
    rw [if_neg (by decide), if_pos ⟨rfl, byte⟩]
  rw [spans_two takes]
  simp only [record_within depth depth Iff.rfl]
  rfl

theorem spans_plain {c next : UInt8} (byte : c ≠ 0) (noEscape : c ≠ '\\'.toUInt8)
    (noEnd : c ≠ '`'.toUInt8) (noOpening : c = '$'.toUInt8 → next ≠ '{'.toUInt8)
    (rest : List UInt8) :
    templateSpans 0 (c :: next :: rest) =
      (templateSpans 0 (next :: rest)).map (Spans.extend [c]) := by
  have takes : turn 0 c next = .one 0 := by
    unfold turn
    rw [if_neg byte, if_neg (fun both => noEscape both.1), if_neg (fun both => noEnd both.2),
      if_neg (fun both => noOpening both.1 both.2), if_neg (fun both => Nat.lt_irrefl 0 both.1),
      if_neg (fun both => Nat.lt_irrefl 0 both.1)]
  rw [spans_one takes]
  simp only [record_within 0 0 Iff.rfl]
  rfl

theorem spans_opening (more : List UInt8) :
    templateSpans 0 ('$'.toUInt8 :: '{'.toUInt8 :: more) =
      (templateSpans 1 more).map Spans.cut := by
  have across : ¬((0 : Nat) = 0 ↔ 1 = 0) := by decide
  change (templateSpans 1 more).map _ = _
  simp only [record_across 0 1 across]
  rfl

theorem spans_close (following : List UInt8) :
    templateSpans 0 ('`'.toUInt8 :: following) = some ([[]], following) := by
  cases following with
  | nil => rfl
  | cons next rest => rfl

def within (depth : Nat) (c : UInt8) : Nat :=
  if c = '{'.toUInt8 then depth + 2 else if c = '}'.toUInt8 then depth else depth + 1

theorem turn_within (depth : Nat) {c next : UInt8} (byte : c ≠ 0) (noEscape : c ≠ '\\'.toUInt8)
    (noOpening : ¬(c = '$'.toUInt8 ∧ next = '{'.toUInt8)) :
    turn (depth + 1) c next = .one (within depth c) := by
  unfold turn within
  rw [if_neg byte, if_neg (fun both => noEscape both.1),
    if_neg (fun both => Nat.succ_ne_zero depth both.1), if_neg noOpening]
  by_cases opens : c = '{'.toUInt8
  · rw [if_pos ⟨Nat.succ_pos depth, opens⟩, if_pos opens]
  · rw [if_neg (fun both => opens both.2), if_neg opens]
    by_cases closes : c = '}'.toUInt8
    · rw [if_pos ⟨Nat.succ_pos depth, closes⟩, if_pos closes]
      rfl
    · rw [if_neg (fun both => closes both.2), if_neg closes]

def Spans.step (depth : Nat) (c : UInt8) (found : Spans) : Spans :=
  (record (depth + 1) (within depth c) [c] found.1, found.2)

/-- Within an interpolation every byte but a backslash may be taken alone, since `${` opens
what its brace does. -/
theorem spans_within (depth : Nat) {c : UInt8} (byte : c ≠ 0) (noEscape : c ≠ '\\'.toUInt8)
    (rest : List UInt8) :
    templateSpans (depth + 1) (c :: rest) =
      (templateSpans (within depth c) rest).map (Spans.step depth c) := by
  cases rest with
  | nil =>
      have noBrace : ¬(c = '$'.toUInt8 ∧ (0 : UInt8) = '{'.toUInt8) :=
        fun both => absurd both.2 (by decide)
      rw [spans_last (turn_within depth byte noEscape noBrace)]
      rfl
  | cons next rest =>
      by_cases opening : c = '$'.toUInt8 ∧ next = '{'.toUInt8
      · obtain ⟨rfl, rfl⟩ := opening
        -- two bytes at once, and one after the other
        have takes : turn (depth + 1) '$'.toUInt8 '{'.toUInt8 = .two (depth + 2) := by
          unfold turn
          rw [if_neg (by decide), if_neg (by decide), if_neg (by omega), if_pos ⟨rfl, rfl⟩]
        have brace (third : UInt8) :
            turn (depth + 1) '{'.toUInt8 third = .one (within depth '{'.toUInt8) :=
          turn_within depth (by decide) (by decide) (fun both => absurd both.1 (by decide))
        have inside : depth + 1 = 0 ↔ depth + 2 = 0 := by omega
        have still : depth + 1 = 0 ↔ depth + 1 = 0 := Iff.rfl
        rw [spans_two takes]
        change _ = (templateSpans (depth + 1) ('{'.toUInt8 :: rest)).map _
        cases rest with
        | nil =>
            rw [spans_last (brace 0)]
            rfl
        | cons third rest =>
            rw [spans_one (brace third), Option.map_map]
            refine congrArg (fun change => Option.map change _) (funext fun found => ?_)
            change (record (depth + 1) (depth + 2) _ _, _) =
              (record (depth + 1) (depth + 1) _ (record (depth + 1) (depth + 2) _ _), _)
            rw [record_within _ _ inside, record_within _ _ inside, record_within _ _ still]
            rfl
      · exact spans_one (turn_within depth byte noEscape opening) rest

/-! ### Pieces and interpolations, as the lexer reads them -/

theorem templateSpans_piece {piece : Piece} (wellFormed : WellFormed piece) {tail : List UInt8}
    (nonempty : tail ≠ []) (noBrace : tail.head? ≠ some '{'.toUInt8) {found : Option Spans}
    (ends : templateSpans 0 tail = found.map Spans.cut) :
    templateSpans 0 (pieceText piece ++ tail) =
      found.map fun spans => (pieceText piece :: spans.1, spans.2) := by
  induction wellFormed with
  | nil => exact ends
  | @escape c rest byte wellFormed ih =>
      change templateSpans 0 ('\\'.toUInt8 :: c :: (pieceText rest ++ tail)) = _
      rw [spans_escape 0 byte, ih, Option.map_map]
      rfl
  | @plain c rest byte noEscape noEnd noOpening wellFormed ih =>
      change templateSpans 0 (c :: (pieceText rest ++ tail)) = _
      cases following : pieceText rest ++ tail with
      | nil => exact absurd (List.append_eq_nil_iff.mp following).2 nonempty
      | cons next following' =>
          rw [spans_plain byte noEscape noEnd
            (fun dollar => opens_nothing noBrace (noOpening dollar) following), ← following, ih,
            Option.map_map]
          rfl

theorem unescaped_escape (c : UInt8) (rest : List UInt8) :
    unescaped ('\\'.toUInt8 :: c :: rest) = unescaped rest := by
  rw [unescaped, if_pos rfl]

theorem unescaped_plain {c : UInt8} (noEscape : c ≠ '\\'.toUInt8) (rest : List UInt8) :
    unescaped (c :: rest) = (unescaped rest).map (c :: ·) := by
  cases rest with
  | nil => exact if_neg noEscape
  | cons next rest => exact if_neg noEscape

theorem depthAfter_opens (depth : Nat) (rest : List UInt8) :
    depthAfter depth ('{'.toUInt8 :: rest) = depthAfter (depth + 1) rest := by
  cases depth <;> rfl

theorem depthAfter_closes (depth : Nat) (rest : List UInt8) :
    depthAfter (depth + 1) ('}'.toUInt8 :: rest) = depthAfter depth rest := rfl

theorem depthAfter_other {c : UInt8} (noOpening : c ≠ '{'.toUInt8) (noClosing : c ≠ '}'.toUInt8)
    (depth : Nat) (rest : List UInt8) :
    depthAfter depth (c :: rest) = depthAfter depth rest := by
  unfold depthAfter
  rw [if_neg noOpening, if_neg noClosing]
  cases rest <;> rfl

theorem depthAfter_within {depth : Nat} {c : UInt8} {inner : Nat}
    (goes : within depth c = inner + 1) (rest : List UInt8) :
    depthAfter depth (c :: rest) = depthAfter inner rest := by
  unfold within at goes
  by_cases opens : c = '{'.toUInt8
  · rw [if_pos opens] at goes
    cases Nat.succ.inj goes
    rw [opens, depthAfter_opens]
  · rw [if_neg opens] at goes
    by_cases closes : c = '}'.toUInt8
    · rw [if_pos closes] at goes
      rw [goes, closes, depthAfter_closes]
    · rw [if_neg closes] at goes
      cases Nat.succ.inj goes
      exact depthAfter_other opens closes depth rest

theorem within_zero {depth : Nat} {c : UInt8} (ends : within depth c = 0) :
    depth = 0 ∧ c = '}'.toUInt8 := by
  unfold within at ends
  split at ends
  · cases ends
  · split at ends
    · next closes => exact ⟨ends, closes⟩
    · cases ends

theorem Spans.step_goes {depth inner : Nat} {c : UInt8} (goes : within depth c = inner + 1)
    (found : Spans) : Spans.step depth c found = Spans.extend [c] found := by
  unfold Spans.step
  rw [goes, record_within (depth + 1) (inner + 1) (by omega)]
  rfl

theorem Spans.step_ends (found : Spans) : Spans.step 0 '}'.toUInt8 found = Spans.cut found := by
  have across : ¬((0 : Nat) + 1 = 0 ↔ within 0 '}'.toUInt8 = 0) := by decide
  unfold Spans.step
  rw [record_across _ _ across]
  rfl

theorem spans_closing (more : List UInt8) :
    templateSpans 1 ('}'.toUInt8 :: more) = (templateSpans 0 more).map Spans.cut := by
  rw [spans_within 0 (by decide) (by decide)]
  exact congrArg (fun change => Option.map change _) (funext Spans.step_ends)

theorem templateSpans_closes {expression kept : List UInt8} {depth : Nat}
    (bytes : (0 : UInt8) ∉ expression) (drops : unescaped expression = some kept)
    (balanced : depthAfter depth kept = some 0) (more : List UInt8) :
    templateSpans (depth + 1) (expression ++ '}'.toUInt8 :: more) =
      (templateSpans 0 more).map fun spans => (expression :: spans.1, spans.2) := by
  induction size : expression.length using Nat.strong_induction_on
    generalizing expression kept depth with
  | _ size ih =>
      cases expression with
      | nil =>
          cases drops
          cases balanced
          exact spans_closing more
      | cons c rest =>
          have byte : c ≠ 0 := fun zero => bytes (zero ▸ List.mem_cons_self)
          have bytesRest : (0 : UInt8) ∉ rest := fun there => bytes (List.mem_cons_of_mem c there)
          by_cases escapes : c = '\\'.toUInt8
          · subst escapes
            cases rest with
            | nil => cases drops
            | cons next rest =>
                rw [unescaped_escape] at drops
                have second : next ≠ 0 := fun zero => bytesRest (zero ▸ List.mem_cons_self)
                have tail := ih rest.length (by rw [← size]; simp)
                  (fun there => bytesRest (List.mem_cons_of_mem next there)) drops balanced rfl
                change templateSpans (depth + 1)
                  ('\\'.toUInt8 :: next :: (rest ++ '}'.toUInt8 :: more)) = _
                rw [spans_escape (depth + 1) second, tail, Option.map_map]
                rfl
          · rw [unescaped_plain escapes] at drops
            obtain ⟨keptRest, dropsRest, rfl⟩ := Option.map_eq_some_iff.mp drops
            change templateSpans (depth + 1) (c :: (rest ++ '}'.toUInt8 :: more)) = _
            rw [spans_within depth byte escapes]
            cases goes : within depth c with
            | zero =>
                obtain ⟨rfl, rfl⟩ := within_zero goes
                cases balanced
            | succ inner =>
                rw [depthAfter_within goes] at balanced
                have tail := ih rest.length (by rw [← size]; simp) bytesRest dropsRest balanced rfl
                rw [tail, Option.map_map]
                refine congrArg (fun change => Option.map change _) (funext fun found => ?_)
                exact Spans.step_goes goes _

theorem templateSpans_nonempty {depth : Nat} {source : List UInt8} {found : Spans}
    (spans : templateSpans depth source = some found) : ∃ head tail, found.1 = head :: tail := by
  have record_cons (before after : Nat) (bytes : List UInt8) (spans : List (List UInt8)) :
      ∃ head tail, record before after bytes spans = head :: tail := by
    unfold record
    split
    · exact ⟨_, _, rfl⟩
    · exact ⟨_, _, rfl⟩
  unfold templateSpans at spans
  split at spans
  · cases spans
  · split at spans
    · cases spans
      exact ⟨_, _, rfl⟩
    · cases spans
  · split at spans
    · cases spans
    · cases spans
      exact ⟨_, _, rfl⟩
    · obtain ⟨inner, _, rfl⟩ := Option.map_eq_some_iff.mp spans
      exact record_cons _ _ _ _
    · obtain ⟨inner, _, rfl⟩ := Option.map_eq_some_iff.mp spans
      exact record_cons _ _ _ _

theorem spans_zero (depth : Nat) (rest : List UInt8) : templateSpans depth (0 :: rest) = none := by
  have stops (next : UInt8) : turn depth 0 next = .stop := rfl
  cases rest with
  | nil =>
      unfold templateSpans
      rw [stops]
  | cons next rest => rw [templateSpans, stops]

theorem spans_backslash (depth : Nat) {rest : List UInt8}
    (alone : rest = [] ∨ ∃ more, rest = 0 :: more) :
    templateSpans (depth + 1) ('\\'.toUInt8 :: rest) = none := by
  have takes : turn (depth + 1) '\\'.toUInt8 0 = .one (depth + 1) := by
    unfold turn
    rw [if_neg (by decide), if_neg (by decide), if_neg (by omega), if_neg (by decide),
      if_neg (fun both => absurd both.2 (by decide)),
      if_neg (fun both => absurd both.2 (by decide))]
  rcases alone with rfl | ⟨more, rfl⟩
  · exact spans_last takes
  · rw [spans_one takes, spans_zero]
    rfl

theorem templateSpans_balanced {source : List UInt8} {depth : Nat} {expression : List UInt8}
    {spans : List (List UInt8)} {left : List UInt8}
    (found : templateSpans (depth + 1) source = some (expression :: spans, left)) :
    ∃ more kept, source = expression ++ '}'.toUInt8 :: more ∧
      unescaped expression = some kept ∧ depthAfter depth kept = some 0 ∧
      templateSpans 0 more = some (spans, left) := by
  induction size : source.length using Nat.strong_induction_on
    generalizing source expression depth with
  | _ size ih =>
      cases source with
      | nil => cases found
      | cons c rest =>
          by_cases zero : c = 0
          · rw [zero, spans_zero] at found
            cases found
          · by_cases escapes : c = '\\'.toUInt8
            · subst escapes
              cases rest with
              | nil =>
                  rw [spans_backslash depth (.inl rfl)] at found
                  cases found
              | cons next rest =>
                  by_cases last : next = 0
                  · rw [spans_backslash depth (.inr ⟨rest, by rw [last]⟩)] at found
                    cases found
                  · rw [spans_escape (depth + 1) last] at found
                    obtain ⟨⟨inner, left'⟩, inside, same⟩ := Option.map_eq_some_iff.mp found
                    obtain ⟨head, tail, rfl⟩ := templateSpans_nonempty inside
                    cases same
                    obtain ⟨more, kept, split, drops, balanced, after⟩ :=
                      ih rest.length (by rw [← size]; simp) inside rfl
                    refine ⟨more, kept, ?_, ?_, balanced, after⟩
                    · rw [split]
                      rfl
                    · exact (unescaped_escape next head).trans drops
            · rw [spans_within depth zero escapes] at found
              obtain ⟨⟨inner, left'⟩, inside, same⟩ := Option.map_eq_some_iff.mp found
              cases goes : within depth c with
              | zero =>
                  obtain ⟨rfl, rfl⟩ := within_zero goes
                  rw [Spans.step_ends] at same
                  cases same
                  exact ⟨rest, [], rfl, rfl, rfl, inside⟩
              | succ depthInside =>
                  rw [Spans.step_goes goes] at same
                  rw [goes] at inside
                  obtain ⟨head, tail, rfl⟩ := templateSpans_nonempty inside
                  cases same
                  obtain ⟨more, kept, split, drops, balanced, after⟩ :=
                    ih rest.length (by rw [← size]; simp) inside rfl
                  refine ⟨more, c :: kept, ?_, ?_, ?_, after⟩
                  · rw [split]
                    rfl
                  · refine (unescaped_plain escapes head).trans ?_
                    rw [drops]
                    rfl
                  · rw [depthAfter_within goes]
                    exact balanced

theorem templateSpans_interpolation {expression : List UInt8} (bytes : (0 : UInt8) ∉ expression)
    (more : List UInt8) (spans : List (List UInt8)) (left : List UInt8) :
    templateSpans 1 (expression ++ '}'.toUInt8 :: more) = some (expression :: spans, left) ↔
      EscapedBalanced expression ∧ templateSpans 0 more = some (spans, left) := by
  constructor
  · intro found
    obtain ⟨rest, kept, split, drops, balanced, after⟩ := templateSpans_balanced found
    have same := List.append_cancel_left split
    cases same
    exact ⟨⟨kept, drops, balanced⟩, after⟩
  · rintro ⟨⟨kept, drops, balanced⟩, after⟩
    rw [templateSpans_closes bytes drops balanced, after]
    rfl

theorem templateLiteral_eq (depth : Nat) (source : List UInt8) :
    templateLiteral depth source = (templateSpans depth source).map Prod.snd := by
  induction depth, source using templateLiteral.induct with
  | case1 depth => rfl
  | case2 depth c closes =>
      unfold templateLiteral templateSpans
      rw [closes]
      rfl
  | case3 depth c other =>
      unfold templateLiteral templateSpans
      cases taken : turn depth c 0 with
      | close => exact absurd taken other
      | stop | one _ | two _ => rfl
  | case4 depth c next rest stops =>
      rw [templateLiteral, templateSpans, stops]
      rfl
  | case5 depth c next rest closes =>
      rw [templateLiteral, templateSpans, closes]
      rfl
  | case6 depth c next rest after takes ih =>
      rw [templateLiteral, templateSpans, takes, Option.map_map]
      exact ih
  | case7 depth c next rest after takes ih =>
      rw [templateLiteral, templateSpans, takes, Option.map_map]
      exact ih

/-! ### Decoding -/

def Part.decoded : Part → UInt8
  | .plain c => c
  | .escape c => escaped c

theorem decodeEscapes_text {piece : Piece} (wellFormed : WellFormed piece) :
    decodeEscapes (pieceText piece) = piece.map Part.decoded := by
  induction wellFormed with
  | nil => rfl
  | @escape c rest byte wellFormed ih =>
      change decodeEscapes ('\\'.toUInt8 :: c :: pieceText rest) = _
      rw [decodeEscapes, if_neg (fun other => other rfl), ih]
      rfl
  | @plain c rest byte noEscape noEnd noOpening wellFormed ih =>
      change decodeEscapes (c :: pieceText rest) = c :: rest.map Part.decoded
      rw [← ih]
      cases pieceText rest with
      | nil => rfl
      | cons next following => rw [decodeEscapes, if_pos noEscape]

def quoted (text : List UInt8) : List UInt8 :=
  '"'.toUInt8 :: (text ++ ['"'.toUInt8])

theorem makeStringLiteral_quoted (text : List UInt8) :
    makeStringLiteral (quoted text) = decodeEscapes text := by
  have count : (quoted text).length - 2 = text.length := by
    unfold quoted
    rw [List.length_cons, List.length_append, List.length_singleton]
    omega
  unfold makeStringLiteral
  rw [count]
  exact congrArg decodeEscapes List.take_left

theorem unescape_eq_iff (c : UInt8) : unescape c = escaped c ↔ c ≠ '0'.toUInt8 := by
  constructor
  · rintro same rfl
    exact absurd same (by decide)
  · intro notZero
    unfold unescape escaped
    rw [if_neg notZero]

def Kept (piece : Piece) : Prop :=
  piece.length ≤ chunkSize ∧ Part.escape '0'.toUInt8 ∉ piece

theorem cooked_iff {piece : Piece} (wellFormed : WellFormed piece) :
    (piece.map Part.cooked).take chunkSize = makeStringLiteral (quoted (pieceText piece)) ↔
      Kept piece := by
  rw [makeStringLiteral_quoted, decodeEscapes_text wellFormed]
  constructor
  · intro same
    have length := congrArg List.length same
    rw [List.length_take, List.length_map, List.length_map] at length
    have fits : piece.length ≤ chunkSize := by omega
    rw [List.take_of_length_le (by rw [List.length_map]; exact fits), List.map_inj_left] at same
    exact ⟨fits, fun there => (unescape_eq_iff _).mp (same _ there) rfl⟩
  · rintro ⟨fits, noZero⟩
    rw [List.take_of_length_le (by rw [List.length_map]; exact fits), List.map_inj_left]
    intro part there
    cases part with
    | plain c => rfl
    | escape c =>
        apply (unescape_eq_iff c).mpr
        rintro rfl
        exact noZero there

/-! ### Whole templates -/

/-- The lexer finds the end of the literal and both find the same pieces and interpolations;
each piece is decoded as a string literal is, and kept as it was written. -/
structure ReadWhole (template : Template) : Prop where
  ends : ∀ following, templateLiteral 0 (template.text ++ '`'.toUInt8 :: following) = some following
  spans : ∀ following, templateSpans 0 (template.text ++ '`'.toUInt8 :: following) =
    some (template.spans, following)
  pieces : scanTemplate template.text = some
    { cooked := template.pieces.map fun piece => makeStringLiteral (quoted (pieceText piece))
      raw := template.pieces.map pieceText
      expressions := template.expressions }

def restSpans (rest : List (List UInt8 × Piece)) : List (List UInt8) :=
  rest.flatMap fun part => [part.1, pieceText part.2]

theorem lexer_iff {first : Piece} {rest : List (List UInt8 × Piece)}
    (firstFormed : WellFormed first) (restFormed : ∀ part ∈ rest, WellFormed part.2)
    (bytes : ∀ part ∈ rest, (0 : UInt8) ∉ part.1) (following : List UInt8) :
    templateSpans 0 (pieceText first ++ (restText rest ++ '`'.toUInt8 :: following)) =
        some (pieceText first :: restSpans rest, following) ↔
      ∀ part ∈ rest, EscapedBalanced part.1 := by
  induction rest generalizing first with
  | nil =>
      have closes : templateSpans 0 ('`'.toUInt8 :: following) =
          (some ([], following) : Option Spans).map Spans.cut := spans_close following
      have reads := templateSpans_piece firstFormed (List.cons_ne_nil _ _) (by
        intro same
        exact absurd (Option.some.inj same) (by decide)) closes
      exact ⟨fun _ part there => absurd there List.not_mem_nil, fun _ => reads⟩
  | cons part rest ih =>
      obtain ⟨expression, piece⟩ := part
      have tail : restText ((expression, piece) :: rest) ++ '`'.toUInt8 :: following =
          '$'.toUInt8 :: '{'.toUInt8 :: (expression ++ '}'.toUInt8 ::
            (pieceText piece ++ (restText rest ++ '`'.toUInt8 :: following))) := by
        simp [restText]
      rw [tail, templateSpans_piece firstFormed (List.cons_ne_nil _ _) (by
        intro same
        exact absurd (Option.some.inj same) (by decide)) (spans_opening _)]
      have inner := templateSpans_interpolation (bytes _ List.mem_cons_self)
        (pieceText piece ++ (restText rest ++ '`'.toUInt8 :: following))
        (pieceText piece :: restSpans rest) following
      rw [ih (restFormed _ List.mem_cons_self)
        (fun part there => restFormed part (List.mem_cons_of_mem _ there))
        (fun part there => bytes part (List.mem_cons_of_mem _ there))] at inner
      rw [List.forall_mem_cons, ← inner]
      constructor
      · intro same
        obtain ⟨⟨spans, left⟩, inside, whole⟩ := Option.map_eq_some_iff.mp same
        obtain ⟨sameSpans, sameLeft⟩ := Prod.mk.inj whole
        have spansEq : spans = restSpans ((expression, piece) :: rest) :=
          (List.cons.inj sameSpans).2
        have leftEq : left = following := sameLeft
        rw [inside, spansEq, leftEq]
        rfl
      · intro inside
        rw [inside]
        rfl

theorem restText_length (rest : List (List UInt8 × Piece)) :
    rest.length ≤ (restText rest).length := by
  induction rest with
  | nil => exact Nat.le_refl 0
  | cons part rest ih =>
      obtain ⟨expression, piece⟩ := part
      simp only [restText, List.length_cons, List.length_append]
      omega

theorem scanPieces_last (fuel : Nat) {piece : Piece} (wellFormed : WellFormed piece) :
    scanPieces (fuel + 1) (pieceText piece ++ []) =
      some ⟨[(piece.map Part.cooked).take chunkSize], [pieceText piece], []⟩ := by
  simp only [scanPieces, scanPiece_text wellFormed PieceEnds.last]

theorem scanPieces_closed (fuel : Nat) {piece : Piece} (wellFormed : WellFormed piece)
    {expression more rest : List UInt8}
    (closes : scanExpression 1 rest = some (expression, more)) :
    scanPieces (fuel + 1) (pieceText piece ++ '$'.toUInt8 :: '{'.toUInt8 :: rest) =
      (scanPieces fuel more).map fun found =>
        ⟨(piece.map Part.cooked).take chunkSize :: found.cooked, pieceText piece :: found.raw,
          expression :: found.expressions⟩ := by
  simp only [scanPieces, scanPiece_text wellFormed (PieceEnds.opening rest), closes]

theorem scanPieces_open (fuel : Nat) {piece : Piece} (wellFormed : WellFormed piece)
    {rest : List UInt8} (never : scanExpression 1 rest = none) :
    scanPieces (fuel + 1) (pieceText piece ++ '$'.toUInt8 :: '{'.toUInt8 :: rest) = none := by
  simp only [scanPieces, scanPiece_text wellFormed (PieceEnds.opening rest), never]

def expected (first : Piece) (rest : List (List UInt8 × Piece)) : Scanned :=
  { cooked := (first :: rest.map Prod.snd).map fun piece =>
      makeStringLiteral (quoted (pieceText piece))
    raw := (first :: rest.map Prod.snd).map pieceText
    expressions := rest.map Prod.fst }

theorem parser_iff {first : Piece} {rest : List (List UInt8 × Piece)} {fuel : Nat}
    (enough : rest.length < fuel) (firstFormed : WellFormed first)
    (restFormed : ∀ part ∈ rest, WellFormed part.2) :
    scanPieces fuel (pieceText first ++ restText rest) = some (expected first rest) ↔
      Kept first ∧ ∀ part ∈ rest, Kept part.2 ∧ Balanced part.1 := by
  induction rest generalizing first fuel with
  | nil =>
      obtain ⟨fuel, rfl⟩ := Nat.exists_eq_succ_of_ne_zero (Nat.ne_of_gt enough)
      change scanPieces (fuel + 1) (pieceText first ++ []) = _ ↔ _
      rw [scanPieces_last fuel firstFormed, ← cooked_iff firstFormed]
      constructor
      · intro same
        have cooked := congrArg Scanned.cooked (Option.some.inj same)
        exact ⟨(List.cons.inj cooked).1, fun part there => absurd there List.not_mem_nil⟩
      · rintro ⟨cooked, _⟩
        rw [cooked]
        rfl
  | cons part rest ih =>
      obtain ⟨expression, piece⟩ := part
      obtain ⟨fuel, rfl⟩ := Nat.exists_eq_succ_of_ne_zero (Nat.ne_of_gt (Nat.zero_lt_of_lt enough))
      have inner := @ih piece fuel (Nat.lt_of_succ_lt_succ enough)
        (restFormed _ List.mem_cons_self)
        (fun part there => restFormed part (List.mem_cons_of_mem _ there))
      change scanPieces (fuel + 1) (pieceText first ++ '$'.toUInt8 :: '{'.toUInt8 ::
        (expression ++ '}'.toUInt8 :: (pieceText piece ++ restText rest))) = _ ↔ _
      rw [List.forall_mem_cons, ← cooked_iff firstFormed]
      constructor
      · intro same
        cases closes : scanExpression 1
            (expression ++ '}'.toUInt8 :: (pieceText piece ++ restText rest)) with
        | none =>
            rw [scanPieces_open fuel firstFormed closes] at same
            cases same
        | some found =>
            obtain ⟨read, more⟩ := found
            rw [scanPieces_closed fuel firstFormed closes] at same
            obtain ⟨others, scanned, whole⟩ := Option.map_eq_some_iff.mp same
            have cooked := List.cons.inj (congrArg Scanned.cooked whole)
            have raw := List.cons.inj (congrArg Scanned.raw whole)
            have expressions := List.cons.inj (congrArg Scanned.expressions whole)
            have readSame : read = expression := expressions.1
            obtain ⟨split, balanced⟩ := scanExpression_balanced closes
            rw [readSame] at split balanced
            have moreSame : pieceText piece ++ restText rest = more :=
              (List.cons.inj (List.append_cancel_left split)).2
            have othersSame : others = expected piece rest :=
              Scanned.ext cooked.2 raw.2 expressions.2
            rw [← moreSame, othersSame] at scanned
            obtain ⟨kept, rest⟩ := inner.mp scanned
            exact ⟨cooked.1, ⟨kept, balanced⟩, rest⟩
      · rintro ⟨cooked, ⟨kept, balanced⟩, others⟩
        rw [scanPieces_closed fuel firstFormed
          (scanExpression_closes expression (pieceText piece ++ restText rest) balanced),
          inner.mpr ⟨kept, others⟩, cooked]
        rfl

/-- A template is read whole exactly where each piece has at most 1023 bytes decoded and no
`\0`, and the braces of each interpolation balance, both counting all of them and leaving out
those after backslashes. -/
theorem template_readWhole_iff (template : Template) (written : template.IsWritten) :
    ReadWhole template ↔
      (∀ piece ∈ template.pieces, Kept piece) ∧
        ∀ expression ∈ template.expressions,
          Balanced expression ∧ EscapedBalanced expression := by
  obtain ⟨first, rest⟩ := template
  have firstFormed : WellFormed first := written.pieces first List.mem_cons_self
  have restFormed : ∀ part ∈ rest, WellFormed part.2 := fun part there =>
    written.pieces part.2 (List.mem_cons_of_mem first (List.mem_map.mpr ⟨part, there, rfl⟩))
  have bytes : ∀ part ∈ rest, (0 : UInt8) ∉ part.1 := fun part there =>
    written.bytes part.1 (List.mem_map.mpr ⟨part, there, rfl⟩)
  have lexer (following : List UInt8) :=
    lexer_iff firstFormed restFormed bytes following
  have enough : rest.length < (Template.text ⟨first, rest⟩).length + 1 := by
    have longer := restText_length rest
    change rest.length < (pieceText first ++ restText rest).length + 1
    rw [List.length_append]
    omega
  have parser := parser_iff enough firstFormed restFormed
  have split : (∀ piece ∈ first :: rest.map Prod.snd, Kept piece) ↔
      Kept first ∧ ∀ part ∈ rest, Kept part.2 := by
    rw [List.forall_mem_cons, List.forall_mem_map]
  change _ ↔ (∀ piece ∈ first :: rest.map Prod.snd, Kept piece) ∧
    ∀ expression ∈ rest.map Prod.fst, Balanced expression ∧ EscapedBalanced expression
  rw [split, List.forall_mem_map]
  constructor
  · intro whole
    obtain ⟨keptFirst, others⟩ := parser.mp whole.pieces
    have spans := whole.spans []
    rw [Template.text, List.append_assoc] at spans
    have escaped := (lexer []).mp spans
    exact ⟨⟨keptFirst, fun part there => (others part there).1⟩,
      fun part there => ⟨(others part there).2, escaped part there⟩⟩
  · rintro ⟨⟨keptFirst, keptRest⟩, balanced⟩
    have spans (following : List UInt8) :
        templateSpans 0 (Template.text ⟨first, rest⟩ ++ '`'.toUInt8 :: following) =
          some (Template.spans ⟨first, rest⟩, following) := by
      rw [Template.text, List.append_assoc]
      exact (lexer following).mpr fun part there => (balanced part there).2
    refine ⟨fun following => ?_, spans, ?_⟩
    · rw [templateLiteral_eq, spans]
      rfl
    · exact parser.mpr ⟨keptFirst, fun part there =>
        ⟨keptRest part there, (balanced part there).1⟩⟩

/-! ### Two templates that are not, and one that is -/

def around (before expression after : String) : Template :=
  { first := (ascii before).map Part.plain
    rest := [(ascii expression, (ascii after).map Part.plain)] }

def plainText (text : List UInt8) : Bool :=
  text.all fun c => c != 0 && c != '\\'.toUInt8 && c != '`'.toUInt8 && c != '$'.toUInt8

theorem wellFormed_plain {text : List UInt8} (plain : plainText text = true) :
    WellFormed (text.map Part.plain) := by
  induction text with
  | nil => exact .nil
  | cons c rest ih =>
      unfold plainText at plain
      rw [List.all_cons, Bool.and_eq_true] at plain
      obtain ⟨here, there⟩ := plain
      simp only [Bool.and_eq_true, bne_iff_ne] at here
      exact .plain here.1.1.1 here.1.1.2 here.1.2 (fun dollar => absurd dollar here.2) (ih there)

theorem around_written {before expression after : String}
    (first : plainText (ascii before) = true) (last : plainText (ascii after) = true)
    (bytes : (ascii expression).all (fun c => c != 0) = true) :
    (around before expression after).IsWritten := by
  constructor
  · intro piece there
    rcases List.mem_cons.mp there with rfl | there
    · exact wellFormed_plain first
    · rw [List.mem_singleton.mp there]
      exact wellFormed_plain last
  · intro text there zero
    rw [List.mem_singleton.mp there] at zero
    have nonzero := List.all_eq_true.mp bytes 0 zero
    exact absurd nonzero (by decide)

theorem kept_plain {text : List UInt8} (fits : text.length ≤ chunkSize) :
    Kept (text.map Part.plain) := by
  constructor
  · rw [List.length_map]
    exact fits
  · intro there
    obtain ⟨c, _, same⟩ := List.mem_map.mp there
    cases same

/-- The interpolation is `f({ b: ... })`, an object literal with a nested template in it. -/
theorem template_readWhole_nested : ReadWhole (around "a " "f(\x7b b: \x60$\x7bc\x7d\x60 \x7d)" " d") :=
  (template_readWhole_iff _ (around_written rfl rfl rfl)).mpr (by
    constructor
    · intro piece there
      rcases List.mem_cons.mp there with rfl | there
      · exact kept_plain (by decide)
      · rw [List.mem_singleton.mp there]
        exact kept_plain (by decide)
    · intro text there
      rw [List.mem_singleton.mp there]
      exact ⟨rfl, _, rfl, rfl⟩)

/-- `a\0b`, which is cooked to `a0b`. -/
def zeroEscape : Template :=
  { first := [.plain 'a'.toUInt8, .escape '0'.toUInt8, .plain 'b'.toUInt8], rest := [] }

/-- The escape of a zero byte is lost, and a brace in a string ends the interpolation. -/
theorem template_not_readWhole :
    (zeroEscape.IsWritten ∧ ¬ReadWhole zeroEscape) ∧
      (around "" "f(\"\x7d\")" "").IsWritten ∧ ¬ReadWhole (around "" "f(\"\x7d\")" "") := by
  refine ⟨⟨⟨?_, nofun⟩, fun whole => ?_⟩, around_written rfl rfl rfl, fun whole => ?_⟩
  · intro piece there
    rw [List.mem_singleton.mp there]
    exact .plain (by decide) (by decide) (by decide) nofun
      (.escape (by decide) (.plain (by decide) (by decide) (by decide) nofun .nil))
  · exact absurd whole.pieces (by decide)
  · exact absurd whole.pieces (by decide)

end CScript.TemplateLiteral
