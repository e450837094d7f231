/-
`split` with a pattern.

One place is searched from and another is where the piece begins.  Both move
behind a separator; an empty match moves only the first of them.
-/

import CScript.Native.ReplaceMatches

namespace CScript.RegexReplace

/-! ### The source -/

structure SplitState where
  pieces : List (List UInt8)
  place : Int
  pieceStart : Int

inductive SplitTurn where
  | next (state : SplitState)
  /-- The loop is left. -/
  | leaves (state : SplitState)
  | failed (message : List UInt8)
  | undefined

inductive SplitResult where
  | parts (pieces : List (List UInt8)) (lastIndex : Int)
  | failed (message : List UInt8)
  | undefined
  /-- The turns have run out. -/
  | running
  deriving DecidableEq, Repr

section

variable (subject : List UInt8) (regex : ObjRegex)

def takePiece (state : SplitState) (start finish place : Int) : SplitTurn :=
  if SpanOf subject state.pieceStart start then
    .next
      { pieces := state.pieces ++ [span subject state.pieceStart start]
        place := if place < finish then finish else place
        pieceStart := finish }
  else .undefined

/-- One turn of the loop.  A search does not begin before the subject. -/
def splitTurn (state : SplitState) : SplitTurn :=
  if state.place < 0 then .undefined
  else
    match csRegexSearch regex.program subject state.place.toNat with
    | .outOfSteps => .failed (tookTooLong regex)
    | .outsideSubject => .undefined
    | .outsideProgram => .undefined
    | .missing => .leaves state
    | .found result =>
        if (subject.length : Int) < state.place then .leaves state
        else
          let (start, finish) := groupOf result 0
          if finish = start then
            if (subject.length : Int) ≤ start then .leaves state
            else if start = state.pieceStart ∧ state.pieceStart = 0 then
              .next { state with place := start + 1 }
            else takePiece subject state start finish (start + 1)
          else takePiece subject state start finish state.place

def finishSplit (state : SplitState) : SplitResult :=
  if SpanOf subject state.pieceStart subject.length then
    .parts (state.pieces ++ [span subject state.pieceStart subject.length])
      (if regex.global then 0 else regex.lastIndex)
  else .undefined

/-- The loop, for so many turns. -/
def splitLoop : Nat → SplitState → SplitResult
  | 0, _ => .running
  | turns + 1, state =>
      match splitTurn subject regex state with
      | .next state => splitLoop turns state
      | .leaves state => finishSplit subject regex state
      | .failed message => .failed message
      | .undefined => .undefined

def csRegexStringSplit (turns : Nat) : SplitResult :=
  splitLoop subject regex turns { pieces := [], place := 0, pieceStart := 0 }

/-! ### The rule -/

def Matches (place : Int) (result : RegexMatch) : Prop :=
  csRegexSearch regex.program subject place.toNat = .found result ∧
    Leftmost regex.program subject place.toNat result ∧
    place ≤ startOf result ∧ SpanOf subject (startOf result) (endOf result)

def EmptyAt (pieceStart : Int) (result : RegexMatch) : Prop :=
  endOf result = startOf result ∧ startOf result = pieceStart

/-- The separators from a place on, in a piece that begins at another.  The flag
says that a search gave up. -/
inductive Separators : Int → Int → List RegexMatch → Bool → Prop where
  | missing {place pieceStart : Int}
      (none_ : csRegexSearch regex.program subject place.toNat = .missing) :
      Separators place pieceStart [] false
  | gaveUp {place pieceStart : Int}
      (stopped : csRegexSearch regex.program subject place.toNat = .outOfSteps) :
      Separators place pieceStart [] true
  | atEnd {place pieceStart : Int} {result : RegexMatch}
      (found : Matches subject regex place result)
      (last : (subject.length : Int) ≤ startOf result) : Separators place pieceStart [] false
  | skipped {place pieceStart : Int} {result : RegexMatch} {results : List RegexMatch}
      {gaveUp : Bool} (found : Matches subject regex place result)
      (inside : startOf result < subject.length) (empty : EmptyAt pieceStart result)
      (rest : Separators (nextPlace result) pieceStart results gaveUp) :
      Separators place pieceStart results gaveUp
  | next {place pieceStart : Int} {result : RegexMatch} {results : List RegexMatch}
      {gaveUp : Bool} (found : Matches subject regex place result)
      (inside : startOf result < subject.length) (separates : ¬EmptyAt pieceStart result)
      (rest : Separators (nextPlace result) (endOf result) results gaveUp) :
      Separators place pieceStart (result :: results) gaveUp

end

def piecesBetween (subject : List UInt8) : Int → List RegexMatch → List (List UInt8)
  | pieceStart, [] => [span subject pieceStart subject.length]
  | pieceStart, result :: results =>
      span subject pieceStart (startOf result) :: piecesBetween subject (endOf result) results

def matchedText (subject : List UInt8) (result : RegexMatch) : List UInt8 :=
  span subject (startOf result) (endOf result)

/-- What the call should come to: the pieces between the separators, none of
them empty before an empty separator, which with the separators make up the
subject, unless a search gives up. -/
def Splits (subject : List UInt8) (regex : ObjRegex) : Prop :=
  ∃ turns results gaveUp, Separators subject regex 0 0 results gaveUp ∧
    (∀ cut ∈ (piecesBetween subject 0 results).zip results,
      matchedText subject cut.2 = [] → cut.1 ≠ []) ∧
    (List.zipWith (· ++ ·) (piecesBetween subject 0 results)
      (results.map (matchedText subject) ++ [[]])).flatten = subject ∧
    csRegexStringSplit subject regex turns =
      if gaveUp then .failed (tookTooLong regex)
      else .parts (piecesBetween subject 0 results) (if regex.global then 0 else regex.lastIndex)

/-! ### What the searches have to keep -/

section

variable (subject : List UInt8) (regex : ObjRegex)

inductive Leads : Int → Int → Int → Int → Prop where
  | here {place pieceStart : Int} : Leads place pieceStart place pieceStart
  | skipped {place pieceStart last lastStart : Int} {result : RegexMatch}
      (found : csRegexSearch regex.program subject place.toNat = .found result)
      (inside : startOf result < subject.length) (empty : EmptyAt pieceStart result)
      (rest : Leads (nextPlace result) pieceStart last lastStart) :
      Leads place pieceStart last lastStart
  | next {place pieceStart last lastStart : Int} {result : RegexMatch}
      (found : csRegexSearch regex.program subject place.toNat = .found result)
      (inside : startOf result < subject.length) (separates : ¬EmptyAt pieceStart result)
      (rest : Leads (nextPlace result) (endOf result) last lastStart) :
      Leads place pieceStart last lastStart

def SearchesSoundly (place : Int) : Prop :=
  match csRegexSearch regex.program subject place.toNat with
  | .found result => place ≤ startOf result ∧ SpanOf subject (startOf result) (endOf result)
  | .missing => True
  | .outOfSteps => True
  | .outsideSubject => False
  | .outsideProgram => False

def EmptyBehind (place pieceStart : Int) : Prop :=
  pieceStart ≠ 0 ∧ ∃ result, csRegexSearch regex.program subject place.toNat = .found result ∧
    startOf result < subject.length ∧ EmptyAt pieceStart result

end

section

variable {subject : List UInt8} {regex : ObjRegex} {place pieceStart : Int}
  {result : RegexMatch} {results : List RegexMatch} {gaveUp : Bool}

theorem nextPlace_eq (result : RegexMatch) :
    nextPlace result = if endOf result = startOf result then endOf result + 1 else endOf result :=
  rfl

theorem nextPlace_further (inside : SpanOf subject (startOf result) (endOf result)) :
    startOf result < nextPlace result ∧ endOf result ≤ nextPlace result := by
  have order := inside.2.1
  rw [nextPlace_eq]
  split <;> omega

theorem matches_of_sound (sound : SearchesSoundly subject regex place)
    (found : csRegexSearch regex.program subject place.toNat = .found result) :
    Matches subject regex place result := by
  unfold SearchesSoundly at sound
  rw [found] at sound
  exact ⟨found, csRegexSearch_leftmost found, sound⟩

theorem Matches.same (found : Matches subject regex place result) {again : RegexMatch}
    (searched : csRegexSearch regex.program subject place.toNat = .found again) :
    again = result := by
  rw [found.1] at searched
  injection searched with same
  exact same.symm

theorem Matches.sound (found : Matches subject regex place result) :
    SearchesSoundly subject regex place := by
  unfold SearchesSoundly
  rw [found.1]
  exact found.2.2

theorem Separators.unique {others : List RegexMatch} {otherGaveUp : Bool}
    (separated : Separators subject regex place pieceStart results gaveUp)
    (other : Separators subject regex place pieceStart others otherGaveUp) :
    results = others ∧ gaveUp = otherGaveUp := by
  induction separated generalizing others with
  | missing none_ => cases other <;> simp_all [Matches]
  | gaveUp stopped => cases other <;> simp_all [Matches]
  | atEnd found last =>
      cases other with
      | missing none_ => exact ⟨rfl, rfl⟩
      | gaveUp stopped =>
          rw [found.1] at stopped
          cases stopped
      | atEnd again lastAgain => exact ⟨rfl, rfl⟩
      | skipped again inside empty rest =>
          rw [found.same again.1] at inside
          omega
      | next again inside separates rest =>
          rw [found.same again.1] at inside
          omega
  | skipped found inside empty rest ih =>
      cases other with
      | missing none_ =>
          rw [found.1] at none_
          cases none_
      | gaveUp stopped =>
          rw [found.1] at stopped
          cases stopped
      | atEnd again last =>
          rw [found.same again.1] at last
          omega
      | skipped again insideAgain emptyAgain restAgain =>
          rw [found.same again.1] at restAgain
          exact ih restAgain
      | next again insideAgain separates restAgain =>
          rw [found.same again.1] at separates
          exact absurd empty separates
  | next found inside separates rest ih =>
      cases other with
      | missing none_ =>
          rw [found.1] at none_
          cases none_
      | gaveUp stopped =>
          rw [found.1] at stopped
          cases stopped
      | atEnd again last =>
          rw [found.same again.1] at last
          omega
      | skipped again insideAgain empty restAgain =>
          rw [found.same again.1] at empty
          exact absurd empty separates
      | next again insideAgain separatesAgain restAgain =>
          rw [found.same again.1] at restAgain ⊢
          obtain ⟨equal, flag⟩ := ih restAgain
          exact ⟨congrArg _ equal, flag⟩

theorem Separators.sound (separated : Separators subject regex place pieceStart results gaveUp)
    {last lastStart : Int} (leads : Leads subject regex place pieceStart last lastStart) :
    SearchesSoundly subject regex last := by
  induction separated generalizing last lastStart with
  | missing none_ =>
      cases leads with
      | here =>
          unfold SearchesSoundly
          rw [none_]
          trivial
      | skipped found _ _ _ =>
          rw [none_] at found
          cases found
      | next found _ _ _ =>
          rw [none_] at found
          cases found
  | gaveUp stopped =>
      cases leads with
      | here =>
          unfold SearchesSoundly
          rw [stopped]
          trivial
      | skipped found _ _ _ =>
          rw [stopped] at found
          cases found
      | next found _ _ _ =>
          rw [stopped] at found
          cases found
  | atEnd found last =>
      cases leads with
      | here => exact found.sound
      | skipped again inside _ _ =>
          rw [found.same again] at inside
          omega
      | next again inside _ _ =>
          rw [found.same again] at inside
          omega
  | skipped found inside empty rest ih =>
      cases leads with
      | here => exact found.sound
      | skipped again _ _ restAgain =>
          rw [found.same again] at restAgain
          exact ih restAgain
      | next again _ separates _ =>
          rw [found.same again] at separates
          exact absurd empty separates
  | next found inside separates rest ih =>
      cases leads with
      | here => exact found.sound
      | skipped again _ empty _ =>
          rw [found.same again] at empty
          exact absurd empty separates
      | next again _ _ restAgain =>
          rw [found.same again] at restAgain
          exact ih restAgain

theorem separators_of_sound (subject : List UInt8) (regex : ObjRegex) :
    ∀ (left : Nat) (place pieceStart : Int),
      (∀ last lastStart, Leads subject regex place pieceStart last lastStart →
        SearchesSoundly subject regex last) →
      (subject.length + 1 - place).toNat ≤ left →
      ∃ results gaveUp, Separators subject regex place pieceStart results gaveUp := by
  intro left
  induction left using Nat.strong_induction_on with
  | _ left ih =>
      intro place pieceStart sound measure
      have here := sound place pieceStart .here
      cases searched : csRegexSearch regex.program subject place.toNat with
      | missing => exact ⟨[], false, .missing searched⟩
      | outOfSteps => exact ⟨[], true, .gaveUp searched⟩
      | outsideSubject =>
          unfold SearchesSoundly at here
          rw [searched] at here
          cases here
      | outsideProgram =>
          unfold SearchesSoundly at here
          rw [searched] at here
          cases here
      | found result =>
          have found := matches_of_sound here searched
          have order := found.2.2.1
          have spanned := found.2.2.2
          by_cases inside : startOf result < subject.length
          · have further := nextPlace_further spanned
            have shorter : left ≠ 0 := by omega
            by_cases empty : EmptyAt pieceStart result
            · obtain ⟨results, gaveUp, rest⟩ := ih (left - 1) (by omega) (nextPlace result) pieceStart
                (fun last lastStart leads => sound last lastStart
                  (.skipped searched inside empty leads)) (by omega)
              exact ⟨results, gaveUp, .skipped found inside empty rest⟩
            · obtain ⟨results, gaveUp, rest⟩ := ih (left - 1) (by omega) (nextPlace result)
                (endOf result) (fun last lastStart leads => sound last lastStart
                  (.next searched inside empty leads)) (by omega)
              exact ⟨result :: results, gaveUp, .next found inside empty rest⟩
          · exact ⟨[], false, .atEnd found (by omega)⟩

/-! ### The pieces -/

theorem piecesBetween_length (subject : List UInt8) (results : List RegexMatch) :
    ∀ pieceStart, (piecesBetween subject pieceStart results).length = results.length + 1 := by
  induction results with
  | nil => exact fun _ => rfl
  | cons result results ih => exact fun _ => congrArg (· + 1) (ih (endOf result))

theorem Separators.noEmpty (separated : Separators subject regex place pieceStart results gaveUp)
    (low : 0 ≤ pieceStart) (order : pieceStart ≤ place) :
    ∀ cut ∈ (piecesBetween subject pieceStart results).zip results,
      matchedText subject cut.2 = [] → cut.1 ≠ [] := by
  induction separated with
  | missing none_ => nofun
  | gaveUp stopped => nofun
  | atEnd found last => nofun
  | skipped found inside empty rest ih =>
      have further := nextPlace_further found.2.2.2
      exact ih low (by have := found.2.2.1; omega)
  | @next place pieceStart result results gaveUp found inside separates rest ih =>
      obtain ⟨_, _, behind, spanned⟩ := found
      have further := nextPlace_further spanned
      intro cut member
      rcases List.mem_cons.mp member with rfl | later
      · intro emptyText emptyPiece
        unfold matchedText span at emptyText
        unfold span at emptyPiece
        rw [List.drop_eq_nil_iff, List.length_take] at emptyText emptyPiece
        obtain ⟨first, second, third⟩ := spanned
        simp only at emptyText emptyPiece
        exact separates ⟨by omega, by omega⟩
      · exact ih (by have := spanned.1; have := spanned.2.1; omega) further.2 cut later

theorem Separators.joined (separated : Separators subject regex place pieceStart results gaveUp)
    (low : 0 ≤ pieceStart) (order : pieceStart ≤ place) :
    (List.zipWith (· ++ ·) (piecesBetween subject pieceStart results)
      (results.map (matchedText subject) ++ [[]])).flatten =
        span subject pieceStart subject.length := by
  induction separated with
  | missing none_ => simp [piecesBetween]
  | gaveUp stopped => simp [piecesBetween]
  | atEnd found last => simp [piecesBetween]
  | skipped found inside empty rest ih =>
      have further := nextPlace_further found.2.2.2
      exact ih low (by have := found.2.2.1; omega)
  | @next place pieceStart result results gaveUp found inside separates rest ih =>
      obtain ⟨_, _, behind, spanned⟩ := found
      have further := nextPlace_further spanned
      obtain ⟨first, second, third⟩ := spanned
      have later := ih (by omega) further.2
      rw [piecesBetween, List.map_cons, List.cons_append, List.zipWith_cons_cons,
        List.flatten_cons, later, matchedText,
        span_append subject low (show pieceStart ≤ endOf result by omega) third,
        span_append subject low (show pieceStart ≤ startOf result by omega) second]

/-! ### Turns -/

theorem splitTurn_atEnd {state : SplitState} (low : 0 ≤ state.place)
    (found : Matches subject regex state.place result)
    (last : (subject.length : Int) ≤ startOf result) :
    splitTurn subject regex state = .leaves state := by
  obtain ⟨searched, _, behind, spanned⟩ := found
  obtain ⟨_, order, finish⟩ := spanned
  have empty : (groupOf result 0).2 = (groupOf result 0).1 := by
    unfold startOf endOf at *
    omega
  unfold splitTurn
  rw [if_neg (Int.not_lt.mpr low)]
  simp only [searched, if_pos empty]
  split
  · rfl
  · exact if_pos last

/-- An empty match where the piece begins moves the search; behind the start of
the subject it leaves an empty piece as well. -/
theorem splitTurn_empty {state : SplitState} (low : 0 ≤ state.pieceStart)
    (order : state.pieceStart ≤ state.place) (found : Matches subject regex state.place result)
    (inside : startOf result < subject.length) (empty : EmptyAt state.pieceStart result) :
    splitTurn subject regex state = .next
      { pieces := state.pieces ++ if state.pieceStart = 0 then [] else [[]]
        place := nextPlace result
        pieceStart := state.pieceStart } := by
  obtain ⟨searched, _, behind, spanned⟩ := found
  obtain ⟨same, start⟩ := empty
  have within : ¬(subject.length : Int) < state.place := by omega
  have next : nextPlace result = startOf result + 1 := by rw [nextPlace_eq, if_pos same, same]
  unfold splitTurn
  rw [if_neg (show ¬state.place < 0 by omega)]
  simp only [searched, if_neg within]
  unfold startOf endOf at *
  rw [if_pos same, if_neg (show ¬(subject.length : Int) ≤ (groupOf result 0).1 by omega)]
  by_cases first : state.pieceStart = 0
  · rw [if_pos ⟨start, first⟩, if_pos first, List.append_nil, next]
  · have whole : SpanOf subject state.pieceStart (groupOf result 0).1 := ⟨low, by omega, by omega⟩
    rw [if_neg (fun both => first both.2), if_neg first, takePiece, if_pos whole,
      span_nil subject (Or.inr (by omega)), if_neg (by omega), next, same, start]

theorem splitTurn_separates {state : SplitState} (low : 0 ≤ state.pieceStart)
    (order : state.pieceStart ≤ state.place) (found : Matches subject regex state.place result)
    (inside : startOf result < subject.length) (separates : ¬EmptyAt state.pieceStart result) :
    splitTurn subject regex state = .next
      { pieces := state.pieces ++ [span subject state.pieceStart (startOf result)]
        place := nextPlace result
        pieceStart := endOf result } := by
  obtain ⟨searched, _, behind, spanned⟩ := found
  have within : ¬(subject.length : Int) < state.place := by omega
  have whole : SpanOf subject state.pieceStart (startOf result) := ⟨low, by omega, by omega⟩
  have next := nextPlace_eq result
  obtain ⟨first, second, third⟩ := spanned
  unfold splitTurn
  rw [if_neg (show ¬state.place < 0 by omega)]
  simp only [searched, if_neg within]
  unfold EmptyAt startOf endOf at *
  by_cases empty : (groupOf result 0).2 = (groupOf result 0).1
  · rw [if_pos empty] at next
    rw [if_pos empty, if_neg (show ¬(subject.length : Int) ≤ (groupOf result 0).1 by omega),
      if_neg (fun both => separates ⟨empty, both.1⟩), takePiece, if_pos whole, if_neg (by omega),
      next, empty]
  · rw [if_neg empty] at next
    rw [if_neg empty, takePiece, if_pos whole, if_pos (by omega), next]

theorem finishSplit_parts {state : SplitState} (low : 0 ≤ state.pieceStart)
    (within : state.pieceStart ≤ subject.length) :
    finishSplit subject regex state =
      .parts (state.pieces ++ [span subject state.pieceStart subject.length])
        (if regex.global then 0 else regex.lastIndex) :=
  if_pos ⟨low, within, Int.le_refl _⟩

/-- The pieces the loop writes: as many as the rule has, and one more for every
empty match behind the start of the subject where a piece begins. -/
structure Written (subject : List UInt8) (regex : ObjRegex) (place pieceStart : Int)
    (results : List RegexMatch) (pieces : List (List UInt8)) : Prop where
  enough : results.length + 1 ≤ pieces.length
  more : ∀ {last lastStart}, Leads subject regex place pieceStart last lastStart →
    EmptyBehind subject regex last lastStart → results.length + 1 < pieces.length
  exact_ : (∀ last lastStart, Leads subject regex place pieceStart last lastStart →
    ¬EmptyBehind subject regex last lastStart) → pieces = piecesBetween subject pieceStart results

theorem Written.last (ends : ∀ result,
      csRegexSearch regex.program subject place.toNat = .found result →
        (subject.length : Int) ≤ startOf result) :
    Written subject regex place pieceStart [] [span subject pieceStart subject.length] where
  enough := Nat.le_refl _
  more := by
    intro last lastStart leads behind
    cases leads with
    | here =>
        obtain ⟨_, result, found, inside, _⟩ := behind
        have beyond := ends result found
        omega
    | skipped found inside empty rest =>
        have beyond := ends _ found
        omega
    | next found inside separates rest =>
        have beyond := ends _ found
        omega
  exact_ := fun _ => rfl

theorem Separators.runs (separated : Separators subject regex place pieceStart results gaveUp) :
    ∀ pieces, 0 ≤ pieceStart → pieceStart ≤ place → pieceStart ≤ subject.length →
      ∃ turns written,
        splitLoop subject regex turns
            { pieces := pieces, place := place, pieceStart := pieceStart } =
          (if gaveUp then .failed (tookTooLong regex)
          else .parts (pieces ++ written) (if regex.global then 0 else regex.lastIndex)) ∧
        (gaveUp = false → Written subject regex place pieceStart results written) := by
  induction separated with
  | @missing place pieceStart none_ =>
      intro pieces low order within
      refine ⟨1, [span subject pieceStart subject.length], ?_, fun _ => .last (fun result found => ?_)⟩
      · have notBefore : ¬place < 0 := by omega
        simp only [splitLoop, splitTurn, if_neg notBefore, none_]
        exact finishSplit_parts low within
      · rw [none_] at found
        cases found
  | @gaveUp place pieceStart stopped =>
      intro pieces low order within
      have notBefore : ¬place < 0 := by omega
      refine ⟨1, [], ?_, nofun⟩
      simp only [splitLoop, splitTurn, if_neg notBefore, stopped, if_true]
  | @atEnd place pieceStart result found last =>
      intro pieces low order within
      refine ⟨1, [span subject pieceStart subject.length], ?_, fun _ => .last (fun again searched => ?_)⟩
      · have turned := splitTurn_atEnd (show 0 ≤ (SplitState.mk pieces place pieceStart).place by
          exact Int.le_trans low order) found last
        simp only [splitLoop, turned]
        exact finishSplit_parts low within
      · rw [found.same searched]
        exact last
  | @skipped place pieceStart result results gaveUp found inside empty rest ih =>
      intro pieces low order within
      have turned := splitTurn_empty (show 0 ≤ (SplitState.mk pieces place pieceStart).pieceStart
        from low) order found inside empty
      have further := nextPlace_further found.2.2.2
      have behind := found.2.2.1
      obtain ⟨turns, written, ran, wrote⟩ := ih
        (pieces ++ if pieceStart = 0 then [] else [[]]) low (by omega) within
      refine ⟨turns + 1, (if pieceStart = 0 then [] else [[]]) ++ written, ?_, fun whole => ?_⟩
      · simp only [splitLoop, turned]
        rw [ran, List.append_assoc]
      · obtain ⟨enough, more, exact_⟩ := wrote whole
        refine ⟨by rw [List.length_append]; omega, ?_, ?_⟩
        · intro last lastStart leads emptyBehind
          rw [List.length_append]
          cases leads with
          | here =>
              rw [if_neg emptyBehind.1]
              exact Nat.lt_of_lt_of_le (Nat.lt_succ_of_le enough) (by
                rw [List.length_singleton]
                omega)
          | skipped again _ _ restAgain =>
              rw [found.same again] at restAgain
              have longer := more restAgain emptyBehind
              omega
          | next again _ separates _ =>
              rw [found.same again] at separates
              exact absurd empty separates
        · intro clean
          have first : pieceStart = 0 := by
            by_contra later
            exact clean place pieceStart .here ⟨later, result, found.1, inside, empty⟩
          rw [if_pos first, List.nil_append]
          exact exact_ (fun last lastStart leads =>
            clean last lastStart (.skipped found.1 inside empty leads))
  | @next place pieceStart result results gaveUp found inside separates rest ih =>
      intro pieces low order within
      have turned := splitTurn_separates (show 0 ≤ (SplitState.mk pieces place pieceStart).pieceStart
        from low) order found inside separates
      have further := nextPlace_further found.2.2.2
      obtain ⟨first, second, third⟩ := found.2.2.2
      obtain ⟨turns, written, ran, wrote⟩ := ih
        (pieces ++ [span subject pieceStart (startOf result)]) (by omega) further.2 third
      refine ⟨turns + 1, span subject pieceStart (startOf result) :: written, ?_, fun whole => ?_⟩
      · simp only [splitLoop, turned]
        rw [ran, List.append_assoc, List.singleton_append]
      · obtain ⟨enough, more, exact_⟩ := wrote whole
        refine ⟨Nat.succ_le_succ enough, ?_, ?_⟩
        · intro last lastStart leads emptyBehind
          cases leads with
          | here =>
              obtain ⟨_, again, searched, _, empty⟩ := emptyBehind
              rw [found.same searched] at empty
              exact absurd empty separates
          | skipped again _ empty _ =>
              rw [found.same again] at empty
              exact absurd empty separates
          | next again _ _ restAgain =>
              rw [found.same again] at restAgain
              exact Nat.succ_lt_succ (more restAgain emptyBehind)
        · intro clean
          rw [exact_ (fun last lastStart leads =>
            clean last lastStart (.next found.1 inside separates leads)), piecesBetween]

theorem splitLoop_more (subject : List UInt8) (regex : ObjRegex) {turns : Nat} {state : SplitState}
    (ended : splitLoop subject regex turns state ≠ .running) (more : Nat) :
    splitLoop subject regex (turns + more) state = splitLoop subject regex turns state := by
  induction turns generalizing state with
  | zero => exact absurd rfl ended
  | succ turns ih =>
      have sum : turns + 1 + more = turns + more + 1 := by omega
      rw [sum]
      unfold splitLoop at ended ⊢
      cases stepped : splitTurn subject regex state with
      | next following =>
          rw [stepped] at ended
          exact ih ended
      | leaves following => rfl
      | failed message => rfl
      | undefined => rfl

end

/-! ### Splitting -/

theorem Splits.sound {subject : List UInt8} {regex : ObjRegex} (splits : Splits subject regex)
    {place pieceStart : Int} (leads : Leads subject regex 0 0 place pieceStart) :
    SearchesSoundly subject regex place := by
  obtain ⟨_, _, _, separated, _⟩ := splits
  exact separated.sound leads

theorem Splits.clean {subject : List UInt8} {regex : ObjRegex} (splits : Splits subject regex)
    {results : List RegexMatch} (separated : Separators subject regex 0 0 results false)
    {place pieceStart : Int} (leads : Leads subject regex 0 0 place pieceStart) :
    ¬EmptyBehind subject regex place pieceStart := by
  obtain ⟨turns, others, gaveUp, again, _, _, ended⟩ := splits
  intro behind
  obtain ⟨rfl, rfl⟩ := separated.unique again
  obtain ⟨otherTurns, written, ran, wrote⟩ :=
    separated.runs [] (Int.le_refl 0) (Int.le_refl 0) (Int.natCast_nonneg _)
  rw [if_neg Bool.false_ne_true] at ended ran
  have ends : splitLoop subject regex turns { pieces := [], place := 0, pieceStart := 0 } ≠
      .running := by
    intro runs
    rw [csRegexStringSplit, runs] at ended
    cases ended
  have othersEnd : splitLoop subject regex otherTurns
      { pieces := [], place := 0, pieceStart := 0 } ≠ .running := by
    rw [ran]
    nofun
  have same : csRegexStringSplit subject regex turns = splitLoop subject regex otherTurns
      { pieces := [], place := 0, pieceStart := 0 } := by
    rw [csRegexStringSplit, ← splitLoop_more subject regex ends otherTurns, Nat.add_comm,
      splitLoop_more subject regex othersEnd turns]
  rw [ended, ran] at same
  injection same with pieces
  have longer := (wrote rfl).more leads behind
  rw [List.nil_append] at pieces
  rw [← pieces, piecesBetween_length] at longer
  omega

/-- Every subject, pattern and flag: the pieces are those of the rule if and only
if the searches are sound and, unless one gives up, no piece that does not begin
the subject begins with an empty match. -/
theorem csRegexStringSplit_splits_iff (subject : List UInt8) (regex : ObjRegex) :
    Splits subject regex ↔
      (∀ place pieceStart, Leads subject regex 0 0 place pieceStart →
        SearchesSoundly subject regex place) ∧
      ∀ results, Separators subject regex 0 0 results false →
        ∀ place pieceStart, Leads subject regex 0 0 place pieceStart →
          ¬EmptyBehind subject regex place pieceStart := by
  constructor
  · intro splits
    exact ⟨fun _ _ leads => splits.sound leads, fun _ separated _ _ leads =>
      splits.clean separated leads⟩
  · rintro ⟨sound, clean⟩
    obtain ⟨results, gaveUp, separated⟩ :=
      separators_of_sound subject regex _ 0 0 sound (Nat.le_refl _)
    obtain ⟨turns, written, ran, wrote⟩ :=
      separated.runs [] (Int.le_refl 0) (Int.le_refl 0) (Int.natCast_nonneg _)
    refine ⟨turns, results, gaveUp, separated, separated.noEmpty (Int.le_refl 0) (Int.le_refl 0),
      ?_, ?_⟩
    · rw [separated.joined (Int.le_refl 0) (Int.le_refl 0)]
      unfold span
      rw [Int.toNat_natCast, List.take_length]
      rfl
    · rw [csRegexStringSplit, ran]
      cases gaveUp with
      | true => rfl
      | false =>
          rw [if_neg Bool.false_ne_true, if_neg Bool.false_ne_true, List.nil_append,
            (wrote rfl).exact_ (clean results separated)]

/-- Behind the separator `b` the pattern matches the empty string, where the next
piece begins. -/
theorem empty_match_makes_piece :
    ¬∀ (pattern subject : List UInt8) (flags : ReFlags) (program : Regex) (global : Bool)
      (lastIndex : Int), csRegexCompile pattern flags = .ok program →
      Splits subject
        { program := program, source := pattern, global := global, lastIndex := lastIndex } := by
  intro claim
  have searches : (csRegexCompile (ascii "b*") noFlags).toOption.any (fun program =>
      decide (csRegexSearch program (ascii "abc") 0 = .found { groups := [(0, 0)] }) &&
      decide (csRegexSearch program (ascii "abc") 1 = .found { groups := [(1, 2)] }) &&
      decide (csRegexSearch program (ascii "abc") 2 = .found { groups := [(2, 2)] }) &&
      decide (csRegexSearch program (ascii "abc") 3 = .found { groups := [(3, 3)] })) = true := by
    decide +kernel
  cases accepted : csRegexCompile (ascii "b*") noFlags with
  | error failure =>
      rw [accepted] at searches
      cases searches
  | ok program =>
      rw [accepted] at searches
      simp only [Except.toOption, Option.any_some, Bool.and_eq_true, decide_eq_true_eq] at searches
      obtain ⟨⟨⟨first, second⟩, third⟩, fourth⟩ := searches
      have splits := claim _ (ascii "abc") noFlags program false 0 accepted
      refine splits.clean
        (.skipped ⟨first, csRegexSearch_leftmost first, by decide, by decide⟩ (by decide)
          ⟨rfl, rfl⟩
          (.next ⟨second, csRegexSearch_leftmost second, by decide, by decide⟩ (by decide)
            (by nofun)
            (.skipped ⟨third, csRegexSearch_leftmost third, by decide, by decide⟩ (by decide)
              ⟨rfl, rfl⟩
              (.atEnd ⟨fourth, csRegexSearch_leftmost fourth, by decide, by decide⟩ (by decide)))))
        (.skipped first (by decide) ⟨rfl, rfl⟩ (.next second (by decide) (by nofun) .here))
        ⟨by decide, _, third, by decide, rfl, rfl⟩

end CScript.RegexReplace
