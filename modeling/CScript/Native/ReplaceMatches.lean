/-
What a replacement with a template returns.

The matches are found one behind the other, an empty one being stepped over by a
byte.  The result is the text between them with the expansion of the template in
place of each; how the loop copies the byte it steps over does not show.
-/

import CScript.Native.ReplaceBuffer
import Mathlib.Data.List.TakeWhile

namespace CScript.RegexReplace

/-! ### Expansions -/

section

variable (regex : Regex) (subject : List UInt8) (result : RegexMatch)

/-- The text of a group, or nothing if it is not set or there is none. -/
def capture (group : Nat) : List UInt8 :=
  if group < result.groups.length ∧ 0 ≤ (groupOf result group).1 then
    span subject (groupOf result group).1 (groupOf result group).2
  else []

def namedCapture (name : List UInt8) : List UInt8 :=
  match csRegexGroupNamed regex name with
  | none => []
  | some group => capture subject result group

/-- `$` and what follows it are text of the template. -/
structure Literal (next : UInt8) (behind : List UInt8) : Prop where
  notDollar : next ≠ '$'.toUInt8
  notWhole : next ≠ '&'.toUInt8
  notNumber : ¬('1'.toUInt8 ≤ next ∧ next ≤ '9'.toUInt8)
  notName : next = '<'.toUInt8 → 0 < csRegexNameCount regex → '>'.toUInt8 ∉ behind

inductive Expands : List UInt8 → List UInt8 → Prop where
  | done : Expands [] []
  | plain {c : UInt8} {template text : List UInt8} (notDollar : c ≠ '$'.toUInt8)
      (rest : Expands template text) : Expands (c :: template) (c :: text)
  | last : Expands ['$'.toUInt8] ['$'.toUInt8]
  | dollar {template text : List UInt8} (rest : Expands template text) :
      Expands ('$'.toUInt8 :: '$'.toUInt8 :: template) ('$'.toUInt8 :: text)
  | whole {template text : List UInt8} (rest : Expands template text) :
      Expands ('$'.toUInt8 :: '&'.toUInt8 :: template)
        (span subject (groupOf result 0).1 (groupOf result 0).2 ++ text)
  | number {digit : UInt8} {template text : List UInt8} (low : '1'.toUInt8 ≤ digit)
      (high : digit ≤ '9'.toUInt8) (rest : Expands template text) :
      Expands ('$'.toUInt8 :: digit :: template)
        (capture subject result (digit - '0'.toUInt8).toNat ++ text)
  | name {name template text : List UInt8} (ends : '>'.toUInt8 ∉ name)
      (named : 0 < csRegexNameCount regex) (rest : Expands template text) :
      Expands ('$'.toUInt8 :: '<'.toUInt8 :: (name ++ '>'.toUInt8 :: template))
        (namedCapture regex subject result name ++ text)
  | literal {next : UInt8} {template text : List UInt8} (literal : Literal regex next template)
      (rest : Expands (next :: template) text) :
      Expands ('$'.toUInt8 :: next :: template) ('$'.toUInt8 :: text)

def unitText : TemplateUnit → List UInt8
  | .character c => [c]
  | .whole => span subject (groupOf result 0).1 (groupOf result 0).2
  | .group group => capture subject result group
  | .nothing => []

def expansion : Nat → List UInt8 → List UInt8
  | _, [] => []
  | used + 1, _ :: template => expansion used template
  | 0, c :: template =>
      let (unit, used) := templateUnit regex c template
      unitText subject result unit ++ expansion used template

end

theorem expansion_drop (regex : Regex) (subject : List UInt8) (result : RegexMatch) :
    ∀ (used : Nat) (template : List UInt8), expansion regex subject result used template =
      expansion regex subject result 0 (template.drop used)
  | 0, _ => rfl
  | _ + 1, [] => by simp only [expansion, List.drop_nil]
  | used + 1, _ :: template => by
      rw [expansion, List.drop_succ_cons]
      exact expansion_drop regex subject result used template

private theorem split_name {behind : List UInt8}
    (ended : ¬behind.length ≤ (behind.takeWhile (fun c => c ≠ '>'.toUInt8)).length) :
    '>'.toUInt8 ∉ behind.takeWhile (fun c => c ≠ '>'.toUInt8) ∧
      ∃ template, behind =
        behind.takeWhile (fun c => c ≠ '>'.toUInt8) ++ '>'.toUInt8 :: template := by
  induction behind with
  | nil => exact absurd (Nat.le_refl 0) ended
  | cons c rest ih =>
      by_cases closing : c = '>'.toUInt8
      · rw [closing, List.takeWhile_cons_of_neg (by simp)]
        exact ⟨List.not_mem_nil, rest, rfl⟩
      · have goesOn : (c :: rest).takeWhile (fun c => c ≠ '>'.toUInt8) =
            c :: rest.takeWhile (fun c => c ≠ '>'.toUInt8) := by
          rw [List.takeWhile_cons, if_pos (decide_eq_true closing)]
        rw [goesOn] at ended ⊢
        obtain ⟨free, template, split⟩ := ih (fun shorter => ended (by
          rw [List.length_cons, List.length_cons]
          omega))
        refine ⟨?_, template, congrArg (List.cons c) split⟩
        rw [List.mem_cons, not_or]
        exact ⟨fun same => closing same.symm, free⟩

private theorem unended_name {behind : List UInt8}
    (all : behind.length ≤ (behind.takeWhile (fun c => c ≠ '>'.toUInt8)).length) :
    '>'.toUInt8 ∉ behind := by
  have before : behind.takeWhile (fun c => decide (c ≠ '>'.toUInt8)) <+: behind :=
    List.takeWhile_prefix _
  have same := List.takeWhile_eq_self_iff.mp (before.eq_of_length_le all)
  intro member
  have differs := same _ member
  simp at differs

theorem expansion_expands (regex : Regex) (subject : List UInt8) (result : RegexMatch)
    (template : List UInt8) :
    Expands regex subject result template (expansion regex subject result 0 template) := by
  match template with
  | [] => exact .done
  | [c] =>
      have text : expansion regex subject result 0 [c] = [c] := rfl
      rw [text]
      by_cases dollar : c = '$'.toUInt8
      · rw [dollar]
        exact .last
      · exact .plain dollar .done
  | c :: next :: behind =>
      have later := expansion_expands regex subject result (next :: behind)
      have beyond := expansion_expands regex subject result behind
      unfold expansion templateUnit
      by_cases dollar : c ≠ '$'.toUInt8
      · simp only [if_pos dollar]
        exact .plain dollar later
      · simp only [if_neg dollar]
        rw [not_not] at dollar
        rw [dollar]
        by_cases double : next = '$'.toUInt8
        · simp only [if_pos double]
          rw [double]
          exact .dollar beyond
        · simp only [if_neg double]
          by_cases whole : next = '&'.toUInt8
          · simp only [if_pos whole]
            rw [whole]
            exact .whole beyond
          · simp only [if_neg whole]
            by_cases number : '1'.toUInt8 ≤ next ∧ next ≤ '9'.toUInt8
            · simp only [if_pos number]
              exact .number number.1 number.2 beyond
            · simp only [if_neg number]
              by_cases opens : next = '<'.toUInt8
              · simp only [if_pos opens]
                by_cases unnamed : (!decide (0 < csRegexNameCount regex) || decide (behind.length ≤
                    (behind.takeWhile (fun c => c ≠ '>'.toUInt8)).length)) = true
                · simp only [if_pos unnamed]
                  refine .literal ⟨double, whole, number, fun _ named => ?_⟩ later
                  rw [decide_eq_true named] at unnamed
                  exact unended_name (of_decide_eq_true unnamed)
                · simp only [if_neg unnamed]
                  rw [Bool.not_eq_true, Bool.or_eq_false_iff, Bool.not_eq_false',
                    decide_eq_true_eq, decide_eq_false_iff_not] at unnamed
                  obtain ⟨free, template, split⟩ := split_name unnamed.2
                  have shorter : template.length < behind.length := by
                    rw [split, List.length_append, List.length_cons]
                    omega
                  have rest := expansion_expands regex subject result template
                  generalize behind.takeWhile (fun c => c ≠ '>'.toUInt8) = name at free split ⊢
                  have dropped : (next :: behind).drop (name.length + 2) = template := by
                    rw [List.drop_succ_cons, split]
                    simp
                  have stands := Expands.name free unnamed.1 rest
                  rw [← split] at stands
                  rw [opens] at dropped ⊢
                  unfold namedCapture at stands
                  cases named : csRegexGroupNamed regex name with
                  | none =>
                      rw [named] at stands
                      simp only [unitText]
                      rw [expansion_drop, dropped]
                      exact stands
                  | some group =>
                      rw [named] at stands
                      simp only [unitText]
                      rw [expansion_drop, dropped]
                      exact stands
              · simp only [if_neg opens]
                exact .literal ⟨double, whole, number, fun same => absurd same opens⟩ later
  termination_by template.length

/-! ### Copies -/

theorem writeUnit_text (subject : List UInt8) (result : RegexMatch) (buffer : Buffer)
    {unit : TemplateUnit} (inside : unitInside subject result unit = true) :
    ∃ written, writeUnit subject result buffer unit = .ok written ∧
      written.out = buffer.out ++ unitText subject result unit := by
  cases unit with
  | character c => exact ⟨_, rfl, rfl⟩
  | whole =>
      refine ⟨_, if_pos (of_decide_eq_true inside), rfl⟩
  | group group =>
      simp only [unitInside] at inside
      simp only [writeUnit, unitText, capture]
      by_cases captured : group < result.groups.length ∧ 0 ≤ (groupOf result group).1
      · simp only [if_pos captured] at inside ⊢
        exact ⟨_, if_pos (of_decide_eq_true inside), rfl⟩
      · simp only [if_neg captured]
        exact ⟨_, rfl, (List.append_nil _).symm⟩
  | nothing => exact ⟨_, rfl, (List.append_nil _).symm⟩

theorem writeTemplate_text (regex : Regex) (subject : List UInt8) (result : RegexMatch) :
    ∀ (used : Nat) (template : List UInt8) (buffer : Buffer),
      templateInside regex subject result used template = true →
      ∃ written, writeTemplate regex subject result used template buffer = .ok written ∧
        written.out = buffer.out ++ expansion regex subject result used template
  | _, [], buffer, _ => ⟨buffer, by unfold writeTemplate; rfl, by
      unfold expansion
      exact (List.append_nil _).symm⟩
  | used + 1, _ :: template, buffer, inside => by
      unfold templateInside at inside
      unfold writeTemplate expansion
      exact writeTemplate_text regex subject result used template buffer inside
  | 0, c :: template, buffer, inside => by
      unfold templateInside at inside
      rw [Bool.and_eq_true] at inside
      obtain ⟨first, ranFirst, firstOut⟩ := writeUnit_text subject result buffer inside.1
      obtain ⟨last, ranLast, lastOut⟩ :=
        writeTemplate_text regex subject result _ template first inside.2
      refine ⟨last, ?_, ?_⟩
      · unfold writeTemplate
        simp only [ranFirst]
        exact ranLast
      · unfold expansion
        rw [lastOut, firstOut, List.append_assoc]

theorem writeTemplate_inside {regex : Regex} {subject : List UInt8} {result : RegexMatch}
    {used : Nat} {template : List UInt8} {buffer written : Buffer}
    (ran : writeTemplate regex subject result used template buffer = .ok written) :
    templateInside regex subject result used template = true :=
  ((writeTemplate_wrote regex subject result used template buffer).goesOn written ran).1

/-! ### The matches -/

def startOf (result : RegexMatch) : Int :=
  (groupOf result 0).1

def endOf (result : RegexMatch) : Int :=
  (groupOf result 0).2

def Leftmost (regex : Regex) (subject : List UInt8) (place : Nat) (result : RegexMatch) : Prop :=
  ∃ at_, place ≤ at_ ∧ at_ ≤ subject.length ∧
    (∃ steps slots rest, runMatch regex subject steps (matchStart at_) =
      .answered true slots rest ∧ result = readGroups regex slots) ∧
    ∀ earlier, place ≤ earlier → earlier < at_ → ∃ steps slots rest,
      runMatch regex subject steps (matchStart earlier) = .answered false slots rest

private theorem searchFrom_leftmost (regex : Regex) (subject : List UInt8) {result : RegexMatch} :
    ∀ {places place steps : Nat}, searchFrom regex subject places place steps = .found result →
      ∃ at_, place ≤ at_ ∧ at_ < place + places ∧
        (∃ steps slots rest, runMatch regex subject steps (matchStart at_) =
          .answered true slots rest ∧ result = readGroups regex slots) ∧
        ∀ earlier, place ≤ earlier → earlier < at_ → ∃ steps slots rest,
          runMatch regex subject steps (matchStart earlier) = .answered false slots rest
  | 0, _, _, found => nomatch found
  | places + 1, place, steps, found => by
      unfold searchFrom at found
      cases ran : runMatch regex subject steps (matchStart place) with
      | answered matched slots rest =>
          rw [ran] at found
          cases matched with
          | true =>
              cases found
              exact ⟨place, Nat.le_refl _, by omega, ⟨steps, slots, rest, ran, rfl⟩,
                fun earlier low high => absurd high (by omega)⟩
          | false =>
              obtain ⟨at_, low, high, here, before⟩ := searchFrom_leftmost regex subject found
              refine ⟨at_, by omega, by omega, here, ?_⟩
              intro earlier lowEarlier highEarlier
              by_cases same : earlier = place
              · rw [same]
                exact ⟨steps, slots, rest, ran⟩
              · exact before earlier (by omega) highEarlier
      | exhausted =>
          rw [ran] at found
          cases found
      | outsideSubject =>
          rw [ran] at found
          cases found
      | outsideProgram =>
          rw [ran] at found
          cases found

theorem csRegexSearch_leftmost {regex : Regex} {subject : List UInt8} {place : Nat}
    {result : RegexMatch} (found : csRegexSearch regex subject place = .found result) :
    Leftmost regex subject place result := by
  obtain ⟨at_, low, high, here, before⟩ := searchFrom_leftmost regex subject found
  exact ⟨at_, low, by omega, here, before⟩

/-- The search at a place of the loop. -/
def Call.searches (call : Call) (place : Int) : SearchResult :=
  csRegexSearch call.regex.program call.subject place.toNat

/-- The matches one behind the other: the next search begins at the end of the
last match, or one byte behind an empty one.  The flag says that a search gave
up. -/
inductive Iterated (call : Call) : Int → List RegexMatch → Bool → Prop where
  | missing {place : Int} (none_ : call.searches place = .missing) : Iterated call place [] false
  | gaveUp {place : Int} (stopped : call.searches place = .outOfSteps) :
      Iterated call place [] true
  | last {place : Int} {result : RegexMatch} (found : call.searches place = .found result)
      (leftmost : Leftmost call.regex.program call.subject place.toNat result)
      (stops : call.stops result = true) : Iterated call place [result] false
  | next {place : Int} {result : RegexMatch} {results : List RegexMatch} {gaveUp : Bool}
      (found : call.searches place = .found result)
      (leftmost : Leftmost call.regex.program call.subject place.toNat result)
      (goesOn : call.stops result = false)
      (rest : Iterated call (nextPlace result) results gaveUp) :
      Iterated call place (result :: results) gaveUp

def assemble (subject : List UInt8) (text : RegexMatch → List UInt8) :
    Int → List RegexMatch → List UInt8
  | place, [] => span subject place subject.length
  | place, result :: results =>
      span subject place (startOf result) ++ text result ++
        assemble subject text (endOf result) results

def Call.text (call : Call) (template : List UInt8) (result : RegexMatch) : List UInt8 :=
  expansion call.regex.program call.subject result 0 template

/-- What the call should come to: the matches lie in the subject, apart from
each other and in order, and the result is the subject with each of them
expanded, unless a search gives up. -/
def Call.Replaces (call : Call) (template : List UInt8) : Prop :=
  ∃ turns results gaveUp, Iterated call 0 results gaveUp ∧
    (∀ result ∈ results, SpanOf call.subject (startOf result) (endOf result)) ∧
    results.Pairwise (fun earlier later =>
      endOf earlier ≤ startOf later ∧ startOf earlier < startOf later) ∧
    (∀ result ∈ results,
      Expands call.regex.program call.subject result template (call.text template result)) ∧
    (csRegexStringReplace call.subject call.regex (some call.replacement) call.all turns).1 =
      if gaveUp then .failed (tookTooLong call.regex)
      else .replaced (assemble call.subject (call.text template) 0 results)
        (if call.regex.global then 0 else call.regex.lastIndex)

def templateCall (subject : List UInt8) (regex : ObjRegex) (template : List UInt8) (all : Bool) :
    Call :=
  { subject := subject, regex := regex, replacement := .text template, all := all }

inductive Reaches (call : Call) : Int → Prop where
  | start : Reaches call 0
  | next {place : Int} {result : RegexMatch} (before : Reaches call place)
      (found : call.searches place = .found result) (goesOn : call.stops result = false) :
      Reaches call (nextPlace result)

/-- A search stays inside the subject, and the match it reports and the captures
the template copies of it are spans of the subject behind the place. -/
def Sound (call : Call) (template : List UInt8) (place : Int) : Prop :=
  match call.searches place with
  | .found result =>
      place ≤ startOf result ∧ SpanOf call.subject (startOf result) (endOf result) ∧
        templateInside call.regex.program call.subject result 0 template = true
  | .missing => True
  | .outOfSteps => True
  | .outsideSubject => False
  | .outsideProgram => False

/-! ### Spans -/

theorem span_append (subject : List UInt8) {start middle finish : Int} (low : 0 ≤ start)
    (first : start ≤ middle) (second : middle ≤ finish) :
    span subject start finish = span subject start middle ++ span subject middle finish := by
  unfold span
  obtain ⟨a, rfl⟩ := Int.eq_ofNat_of_zero_le low
  obtain ⟨b, rfl⟩ := Int.eq_ofNat_of_zero_le (show 0 ≤ middle by omega)
  obtain ⟨c, rfl⟩ := Int.eq_ofNat_of_zero_le (show 0 ≤ finish by omega)
  simp only [Int.toNat_natCast]
  have shorter : subject.take b = (subject.take c).take b := by
    rw [List.take_take, Nat.min_eq_left (by omega)]
  rw [shorter]
  generalize subject.take c = taken
  have split := congrArg (List.drop a) (List.take_append_drop b taken)
  rw [List.drop_append] at split
  rw [← split]
  congr 1
  by_cases within : b ≤ taken.length
  · rw [List.length_take, Nat.min_eq_left within, Nat.sub_eq_zero_of_le (by omega), List.drop_zero]
  · rw [List.drop_eq_nil_of_le (show taken.length ≤ b by omega), List.drop_nil]

theorem span_nil (subject : List UInt8) {start finish : Int}
    (beyond : (subject.length : Int) ≤ start ∨ finish ≤ start) : span subject start finish = [] := by
  unfold span
  rw [List.drop_eq_nil_iff, List.length_take]
  omega

/-- The byte the loop copies when it steps over an empty match. -/
def passedText (subject : List UInt8) (result : RegexMatch) : List UInt8 :=
  if endOf result = startOf result ∧ endOf result < subject.length then
    span subject (endOf result) (endOf result + 1)
  else []

theorem assemble_passed {subject : List UInt8} (text : RegexMatch → List UInt8)
    {result : RegexMatch} (inside : SpanOf subject (startOf result) (endOf result))
    {results : List RegexMatch}
    (later : ∀ next ∈ results, nextPlace result ≤ startOf next ∧
      startOf next ≤ subject.length) :
    assemble subject text (endOf result) results =
      passedText subject result ++ assemble subject text (nextPlace result) results := by
  have nextEq : nextPlace result =
      if endOf result = startOf result then endOf result + 1 else endOf result := rfl
  obtain ⟨low, order, high⟩ := inside
  unfold passedText
  by_cases empty : endOf result = startOf result
  · rw [if_pos empty] at nextEq
    by_cases within : endOf result < subject.length
    · rw [if_pos ⟨empty, within⟩, nextEq]
      cases results with
      | nil => exact span_append subject (by omega) (by omega) (by omega)
      | cons next rest =>
          have follows := later next List.mem_cons_self
          unfold assemble
          rw [span_append subject (by omega) (show endOf result ≤ endOf result + 1 by omega)
            (show endOf result + 1 ≤ startOf next by omega)]
          simp only [List.append_assoc]
    · rw [if_neg (fun both => within both.2), List.nil_append]
      cases results with
      | nil =>
          unfold assemble
          rw [span_nil subject (Or.inl (by omega)), span_nil subject (Or.inl (by omega))]
      | cons next rest =>
          have follows := later next List.mem_cons_self
          omega
  · rw [if_neg empty] at nextEq
    rw [if_neg (fun both => empty both.1), nextEq, List.nil_append]

/-! ### Turns -/

section

variable {call : Call} {template : List UInt8}

theorem passEmpty_text (subject : List UInt8) {result : RegexMatch} (low : 0 ≤ startOf result)
    (buffer : Buffer) :
    ∃ passed, passEmpty subject result buffer = .ok passed ∧
      passed.out = buffer.out ++ passedText subject result := by
  have same : passEmpty subject result buffer =
      if endOf result = startOf result ∧ endOf result < subject.length then
        copySpan subject (endOf result) (endOf result + 1) buffer
      else .ok buffer := rfl
  rw [same, passedText]
  by_cases empty : endOf result = startOf result ∧ endOf result < subject.length
  · rw [if_pos empty, if_pos empty]
    exact ⟨_, if_pos ⟨by omega, by omega, by omega⟩, rfl⟩
  · rw [if_neg empty, if_neg empty]
    exact ⟨buffer, rfl, (List.append_nil _).symm⟩

theorem replaceTurn_found (replacement : call.replacement = .text template)
    {state : ReplaceState} {result : RegexMatch}
    (found : call.searches state.place = .found result)
    (gap : SpanOf call.subject state.place (startOf result))
    (inside : templateInside call.regex.program call.subject result 0 template = true) :
    ∃ buffer, buffer.out = state.buffer.out ++ span call.subject state.place (startOf result) ++
        expansion call.regex.program call.subject result 0 template ++
        passedText call.subject result ∧
      replaceTurn call state =
        if call.stops result then
          .leaves { buffer := buffer, place := nextPlace result, turn := state.turn + 1 }
        else .next { buffer := buffer, place := nextPlace result, turn := state.turn + 1 } := by
  let needed := call.needed state (startOf result)
  let copied_ := (state.buffer.reserve needed (needed * 2)).put
    (span call.subject state.place (startOf result))
  have copiedOut : copied_.out =
      state.buffer.out ++ span call.subject state.place (startOf result) := by
    have kept : (state.buffer.reserve needed (needed * 2)).out = state.buffer.out := by
      unfold Buffer.reserve
      split <;> rfl
    exact congrArg (· ++ span call.subject state.place (startOf result)) kept
  obtain ⟨written, ranTemplate, writtenOut⟩ := writeTemplate_text call.regex.program call.subject
    result 0 template copied_ inside
  obtain ⟨passed, ranPassed, passedOut⟩ :=
    passEmpty_text call.subject (show 0 ≤ startOf result by have := gap.1; have := gap.2.1; omega)
      written
  refine ⟨passed, by rw [passedOut, writtenOut, copiedOut], ?_⟩
  have ranGap : copySpan call.subject state.place (groupOf result 0).1
      (state.buffer.reserve (call.needed state (groupOf result 0).1)
        (call.needed state (groupOf result 0).1 * 2)) = .ok copied_ := if_pos gap
  have search : csRegexSearch call.regex.program call.subject state.place.toNat = .found result :=
    found
  have notBefore : ¬state.place < 0 := by have := gap.1; omega
  unfold replaceTurn
  rw [if_neg notBefore]
  simp only [search, ranGap, Call.expand, replacement, ranTemplate, Call.advance, ranPassed]

theorem replaceTurn_inside (replacement : call.replacement = .text template)
    {state : ReplaceState} {result : RegexMatch}
    (found : call.searches state.place = .found result)
    (defined : ∀ buffer, replaceTurn call state ≠ .undefined buffer) :
    SpanOf call.subject state.place (startOf result) ∧
      templateInside call.regex.program call.subject result 0 template = true := by
  have search : csRegexSearch call.regex.program call.subject state.place.toNat = .found result :=
    found
  unfold replaceTurn at defined
  by_cases before : state.place < 0
  · rw [if_pos before] at defined
    exact absurd rfl (defined _)
  · rw [if_neg before] at defined
    simp only [search] at defined
    cases ranGap : copySpan call.subject state.place (groupOf result 0).1
        (state.buffer.reserve (call.needed state (groupOf result 0).1)
          (call.needed state (groupOf result 0).1 * 2)) with
    | error stopped =>
        rw [ranGap] at defined
        exact absurd rfl (defined stopped)
    | ok copied_ =>
        simp only [ranGap, Call.expand, replacement] at defined
        cases ranTemplate : writeTemplate call.regex.program call.subject result 0 template
            copied_ with
        | error stopped =>
            rw [ranTemplate] at defined
            exact absurd rfl (defined stopped)
        | ok written => exact ⟨(copySpan_ok ranGap).1, writeTemplate_inside ranTemplate⟩

theorem replaceTurn_searches {state : ReplaceState}
    (defined : ∀ buffer, replaceTurn call state ≠ .undefined buffer) :
    call.searches state.place ≠ .outsideSubject ∧ call.searches state.place ≠ .outsideProgram := by
  unfold replaceTurn at defined
  by_cases before : state.place < 0
  · rw [if_pos before] at defined
    exact absurd rfl (defined _)
  · rw [if_neg before] at defined
    constructor
    · intro outside
      have search : csRegexSearch call.regex.program call.subject state.place.toNat =
        .outsideSubject := outside
      simp only [search] at defined
      exact absurd rfl (defined _)
    · intro outside
      have search : csRegexSearch call.regex.program call.subject state.place.toNat =
        .outsideProgram := outside
      simp only [search] at defined
      exact absurd rfl (defined _)

end

/-! ### The end -/

def Call.made (call : Call) (out : List UInt8) : ReplaceResult :=
  if cInt out.length < 0 then .undefined
  else .replaced (out.take (cInt out.length).toNat)
    (if call.regex.global then 0 else call.regex.lastIndex)

theorem finishReplace_made (call : Call) {state : ReplaceState} (low : 0 ≤ state.place) :
    (finishReplace call state).1 =
      call.made (state.buffer.out ++ span call.subject state.place call.subject.length) := by
  have copied_ : ∃ buffer, call.copyRest state = .ok buffer ∧
      buffer.out = state.buffer.out ++ span call.subject state.place call.subject.length := by
    unfold Call.copyRest
    by_cases within : state.place ≤ call.subject.length
    · rw [if_pos within]
      refine ⟨_, if_pos ⟨low, within, Int.le_refl _⟩, ?_⟩
      have kept : ∀ needed, (state.buffer.reserve needed needed).out = state.buffer.out := by
        intro needed
        unfold Buffer.reserve
        split <;> rfl
      exact congrArg (· ++ span call.subject state.place call.subject.length) (kept _)
    · rw [if_neg within, span_nil call.subject (Or.inl (by omega))]
      exact ⟨state.buffer, rfl, (List.append_nil _).symm⟩
  obtain ⟨buffer, ran, out⟩ := copied_
  have length : buffer.length =
      (state.buffer.out ++ span call.subject state.place call.subject.length).length := by
    rw [← out]
    rfl
  unfold finishReplace Call.made
  simp only [ran, length, out]
  split <;> rfl

theorem made_eq_replaced_iff (call : Call) (out : List UInt8) :
    call.made out = .replaced out (if call.regex.global then 0 else call.regex.lastIndex) ↔
      out.length < 2 ^ 31 := by
  unfold Call.made
  constructor
  · intro same
    by_contra long
    have below : cInt out.length < 2 ^ 31 := Int.bmod_lt (by decide)
    split at same
    · cases same
    · rw [ReplaceResult.replaced.injEq] at same
      have lengths := congrArg List.length same.1
      rw [List.length_take] at lengths
      omega
  · intro short
    rw [cInt_small (by omega) (by omega), if_neg (by omega), Int.toNat_natCast, List.take_length]


/-! ### Sound searches -/

theorem replaceLoop_replaces {call : Call} {template : List UInt8}
    (replacement : call.replacement = .text template)
    (sound : ∀ place, Reaches call place → Sound call template place) :
    ∀ (left : Nat) (state : ReplaceState), Reaches call state.place → 0 ≤ state.place →
      (call.subject.length + 1 - state.place).toNat ≤ left →
      ∃ turns results gaveUp, Iterated call state.place results gaveUp ∧
        (∀ result ∈ results, state.place ≤ startOf result ∧
          SpanOf call.subject (startOf result) (endOf result)) ∧
        results.Pairwise (fun earlier later =>
          endOf earlier ≤ startOf later ∧ startOf earlier < startOf later) ∧
        (replaceLoop call turns state).1 =
          if gaveUp then .failed (tookTooLong call.regex)
          else call.made (state.buffer.out ++
            assemble call.subject (call.text template) state.place results) := by
  intro left
  induction left using Nat.strong_induction_on with
  | _ left ih =>
      intro state reached low measure
      have here := sound state.place reached
      have notBefore : ¬state.place < 0 := Int.not_lt.mpr low
      unfold Sound at here
      cases searched : call.searches state.place with
      | found result =>
          rw [searched] at here
          obtain ⟨order, spanned, inside⟩ := here
          have gap : SpanOf call.subject state.place (startOf result) :=
            ⟨low, order, Int.le_trans spanned.2.1 spanned.2.2⟩
          have leftmost := csRegexSearch_leftmost searched
          obtain ⟨buffer, out, turned⟩ := replaceTurn_found replacement searched gap inside
          have nextEq : nextPlace result =
              if endOf result = startOf result then endOf result + 1 else endOf result := rfl
          have further : endOf result ≤ nextPlace result ∧ startOf result < nextPlace result := by
            have ordered := spanned.2.1
            rw [nextEq]
            split <;> omega
          have joined : ∀ results, (∀ next ∈ results, nextPlace result ≤ startOf next ∧
              startOf next ≤ call.subject.length) →
              state.buffer.out ++
                  assemble call.subject (call.text template) state.place (result :: results) =
                buffer.out ++
                  assemble call.subject (call.text template) (nextPlace result) results := by
            intro results later
            rw [assemble, assemble_passed (call.text template) spanned later, out]
            simp only [List.append_assoc, Call.text]
          cases stops : call.stops result with
          | true =>
              rw [stops, if_pos rfl] at turned
              refine ⟨1, [result], false, .last searched leftmost stops, ?_,
                List.pairwise_singleton _ _, ?_⟩
              · intro one member
                rw [List.mem_singleton.mp member]
                exact ⟨order, spanned⟩
              · simp only [replaceLoop, turned, Bool.false_eq_true, if_false]
                rw [finishReplace_made call (show 0 ≤ nextPlace result by omega)]
                exact congrArg call.made (joined [] (List.forall_mem_nil _)).symm
          | false =>
              rw [stops, if_neg Bool.false_ne_true] at turned
              have shorter : left ≠ 0 := by
                have high := gap.2.2
                omega
              let following : ReplaceState :=
                { buffer := buffer, place := nextPlace result, turn := state.turn + 1 }
              obtain ⟨turns, results, gaveUp, iterated, inSubject, apart, ended⟩ :=
                ih (left - 1) (by omega) following (.next reached searched stops)
                  (show 0 ≤ nextPlace result by omega)
                  (show (call.subject.length + 1 - nextPlace result).toNat ≤ left - 1 by omega)
              have later : ∀ next ∈ results, nextPlace result ≤ startOf next ∧
                  startOf next ≤ call.subject.length := by
                intro next member
                obtain ⟨behind, one⟩ := inSubject next member
                exact ⟨behind, Int.le_trans one.2.1 one.2.2⟩
              refine ⟨turns + 1, result :: results, gaveUp,
                .next searched leftmost stops iterated, ?_, ?_, ?_⟩
              · intro one member
                rcases List.mem_cons.mp member with rfl | member
                · exact ⟨order, spanned⟩
                · have behind := later one member
                  exact ⟨by omega, (inSubject one member).2⟩
              · refine List.pairwise_cons.mpr ⟨?_, apart⟩
                intro one member
                have behind := later one member
                omega
              · simp only [replaceLoop, turned]
                rw [ended, joined results later]
      | missing =>
          have search : csRegexSearch call.regex.program call.subject state.place.toNat =
            .missing := searched
          refine ⟨1, [], false, .missing searched, List.forall_mem_nil _, .nil, ?_⟩
          simp only [replaceLoop, replaceTurn, if_neg notBefore, search, Bool.false_eq_true,
            if_false, assemble]
          exact finishReplace_made call low
      | outOfSteps =>
          have search : csRegexSearch call.regex.program call.subject state.place.toNat =
            .outOfSteps := searched
          refine ⟨1, [], true, .gaveUp searched, List.forall_mem_nil _, .nil, ?_⟩
          simp only [replaceLoop, replaceTurn, if_neg notBefore, search, if_true]
      | outsideSubject =>
          rw [searched] at here
          cases here
      | outsideProgram =>
          rw [searched] at here
          cases here

/-! ### Runs that end -/

theorem Iterated.unique {call : Call} {place : Int} {results others : List RegexMatch}
    {gaveUp otherGaveUp : Bool} (iterated : Iterated call place results gaveUp)
    (other : Iterated call place others otherGaveUp) :
    results = others ∧ gaveUp = otherGaveUp := by
  induction iterated generalizing others with
  | missing none_ => cases other <;> simp_all
  | gaveUp stopped => cases other <;> simp_all
  | last found leftmost stops => cases other <;> simp_all
  | next found leftmost goesOn rest ih =>
      cases other with
      | missing none_ =>
          rw [found] at none_
          cases none_
      | gaveUp stopped =>
          rw [found] at stopped
          cases stopped
      | last otherFound _ stops =>
          rw [found] at otherFound
          cases otherFound
          rw [goesOn] at stops
          cases stops
      | next otherFound _ _ otherRest =>
          rw [found] at otherFound
          cases otherFound
          obtain ⟨same, flag⟩ := ih otherRest
          exact ⟨congrArg _ same, flag⟩

theorem stateAfter_next {call : Call} {turn : Nat} {state reached following : ReplaceState}
    (after : stateAfter call turn state = some reached)
    (stepped : replaceTurn call reached = .next following) :
    stateAfter call (turn + 1) state = some following := by
  induction turn generalizing state with
  | zero =>
      cases after
      simp only [stateAfter, stepped]
  | succ turn ih =>
      rw [stateAfter] at after ⊢
      cases first : replaceTurn call state with
      | next second =>
          rw [first] at after
          exact ih after
      | leaves second =>
          rw [first] at after
          cases after
      | failed message buffer =>
          rw [first] at after
          cases after
      | undefined buffer =>
          rw [first] at after
          cases after

def Call.Ends (call : Call) : Prop :=
  ∃ turns, (replaceLoop call turns call.start).1 ≠ .running ∧
    (replaceLoop call turns call.start).1 ≠ .undefined

theorem replaceTurn_defined {call : Call} {turn : Nat} {state reached : ReplaceState}
    (after : stateAfter call turn state = some reached) {turns : Nat}
    (ended : (replaceLoop call turns state).1 ≠ .running)
    (defined : (replaceLoop call turns state).1 ≠ .undefined) :
    ∀ buffer, replaceTurn call reached ≠ .undefined buffer := by
  induction turn generalizing state turns with
  | zero =>
      cases after
      cases turns with
      | zero => exact absurd rfl ended
      | succ turns =>
          intro buffer stepped
          unfold replaceLoop at defined
          rw [stepped] at defined
          exact absurd rfl defined
  | succ turn ih =>
      cases turns with
      | zero => exact absurd rfl ended
      | succ turns =>
          unfold stateAfter at after
          unfold replaceLoop at ended defined
          cases stepped : replaceTurn call state with
          | next following =>
              rw [stepped] at after ended defined
              exact ih after ended defined
          | leaves following =>
              rw [stepped] at after
              cases after
          | failed message buffer =>
              rw [stepped] at after
              cases after
          | undefined buffer =>
              rw [stepped] at after
              cases after

theorem Reaches.stateAfter {call : Call} {template : List UInt8}
    (replacement : call.replacement = .text template) (ends : call.Ends) {place : Int}
    (reached : Reaches call place) :
    ∃ turn state, stateAfter call turn call.start = some state ∧ state.place = place := by
  induction reached with
  | start => exact ⟨0, call.start, rfl, rfl⟩
  | next before found goesOn ih =>
      obtain ⟨turn, state, after, here⟩ := ih
      obtain ⟨turns, ended, defined⟩ := ends
      have turnDefined := replaceTurn_defined after ended defined
      rw [← here] at found
      obtain ⟨gap, inside⟩ := replaceTurn_inside replacement found turnDefined
      obtain ⟨buffer, _, turned⟩ := replaceTurn_found replacement found gap inside
      rw [goesOn, if_neg Bool.false_ne_true] at turned
      exact ⟨turn + 1, _, stateAfter_next after turned, rfl⟩

theorem Reaches.iterated {call : Call} {results : List RegexMatch} {gaveUp : Bool}
    (iterated : Iterated call 0 results gaveUp) {place : Int} (reached : Reaches call place) :
    ∃ rest, Iterated call place rest gaveUp ∧ ∀ result ∈ rest, result ∈ results := by
  induction reached with
  | start => exact ⟨results, iterated, fun _ member => member⟩
  | next before found goesOn ih =>
      obtain ⟨rest, here, among⟩ := ih
      cases here with
      | missing none_ =>
          rw [found] at none_
          cases none_
      | gaveUp stopped =>
          rw [found] at stopped
          cases stopped
      | last otherFound _ stops =>
          rw [found] at otherFound
          cases otherFound
          rw [goesOn] at stops
          cases stops
      | next otherFound _ _ others =>
          rw [found] at otherFound
          cases otherFound
          exact ⟨_, others, fun one member => among one (List.mem_cons_of_mem _ member)⟩

theorem sound_of_ends {call : Call} {template : List UInt8}
    (replacement : call.replacement = .text template) (ends : call.Ends)
    {results : List RegexMatch} {gaveUp : Bool} (iterated : Iterated call 0 results gaveUp)
    (spans : ∀ result ∈ results, SpanOf call.subject (startOf result) (endOf result))
    {place : Int} (reached : Reaches call place) : Sound call template place := by
  obtain ⟨turn, state, after, here⟩ := reached.stateAfter replacement ends
  obtain ⟨rest, others, among⟩ := reached.iterated iterated
  obtain ⟨turns, ended, defined⟩ := ends
  have turnDefined := replaceTurn_defined after ended defined
  obtain ⟨insideSubject, insideProgram⟩ := replaceTurn_searches turnDefined
  rw [here] at insideSubject insideProgram
  unfold Sound
  cases searched : call.searches place with
  | found result =>
      have found := searched
      rw [← here] at found
      obtain ⟨gap, inside⟩ := replaceTurn_inside replacement found turnDefined
      have member : result ∈ rest := by
        cases others with
        | missing none_ =>
            rw [searched] at none_
            cases none_
        | gaveUp stopped =>
            rw [searched] at stopped
            cases stopped
        | last otherFound _ _ =>
            rw [searched] at otherFound
            cases otherFound
            exact List.mem_singleton_self _
        | next otherFound _ _ _ =>
            rw [searched] at otherFound
            cases otherFound
            exact List.mem_cons_self
      have order := gap.2.1
      rw [here] at order
      exact ⟨order, spans result (among result member), inside⟩
  | missing => exact trivial
  | outOfSteps => exact trivial
  | outsideSubject => exact insideSubject searched
  | outsideProgram => exact insideProgram searched

theorem replaceLoop_more (call : Call) {turns : Nat} {state : ReplaceState}
    (ended : (replaceLoop call turns state).1 ≠ .running) (more : Nat) :
    replaceLoop call (turns + more) state = replaceLoop call turns state := by
  induction turns generalizing state with
  | zero => exact absurd rfl ended
  | succ turns ih =>
      have sum : turns + 1 + more = turns + more + 1 := by omega
      rw [sum]
      unfold replaceLoop at ended ⊢
      cases stepped : replaceTurn call state with
      | next following =>
          rw [stepped] at ended
          exact ih ended
      | leaves following => rfl
      | failed message buffer => rfl
      | undefined buffer => rfl

theorem made_of_ends {call : Call} {template : List UInt8}
    (replacement : call.replacement = .text template)
    (sound : ∀ place, Reaches call place → Sound call template place)
    {results : List RegexMatch} {gaveUp : Bool} (iterated : Iterated call 0 results gaveUp)
    {turns : Nat} (ended : (replaceLoop call turns call.start).1 ≠ .running) :
    (replaceLoop call turns call.start).1 =
      if gaveUp then .failed (tookTooLong call.regex)
      else call.made (assemble call.subject (call.text template) 0 results) := by
  obtain ⟨others, found, flag, again, _, _, made⟩ :=
    replaceLoop_replaces replacement sound _ call.start .start (Int.le_refl 0) (Nat.le_refl _)
  obtain ⟨rfl, rfl⟩ := iterated.unique again
  have othersEnded : (replaceLoop call others call.start).1 ≠ .running := by
    rw [made]
    split
    · nofun
    · unfold Call.made
      split <;> nofun
  have same : replaceLoop call turns call.start = replaceLoop call others call.start := by
    rw [← replaceLoop_more call ended others, Nat.add_comm,
      replaceLoop_more call othersEnded turns]
  rw [same, made]
  rfl

theorem Call.replaces_iff {call : Call} {template : List UInt8}
    (replacement : call.replacement = .text template) :
    call.Replaces template ↔
      (∀ place, Reaches call place → Sound call template place) ∧
        ∀ results, Iterated call 0 results false →
          (assemble call.subject (call.text template) 0 results).length < 2 ^ 31 := by
  have runs : ∀ turns, (csRegexStringReplace call.subject call.regex (some call.replacement)
      call.all turns).1 = (replaceLoop call turns call.start).1 := fun _ => rfl
  unfold Call.Replaces
  simp only [runs]
  constructor
  · rintro ⟨turns, results, gaveUp, iterated, spans, _, _, ended⟩
    have notRunning : (replaceLoop call turns call.start).1 ≠ .running := by
      rw [ended]
      split <;> nofun
    have defined : (replaceLoop call turns call.start).1 ≠ .undefined := by
      rw [ended]
      split <;> nofun
    have sound : ∀ place, Reaches call place → Sound call template place :=
      fun _ reached => sound_of_ends replacement ⟨turns, notRunning, defined⟩ iterated spans reached
    refine ⟨sound, fun others again => ?_⟩
    obtain ⟨rfl, rfl⟩ := iterated.unique again
    have made := made_of_ends replacement sound iterated notRunning
    rw [ended, if_neg Bool.false_ne_true, if_neg Bool.false_ne_true] at made
    exact (made_eq_replaced_iff call _).mp made.symm
  · rintro ⟨sound, short⟩
    obtain ⟨turns, results, gaveUp, iterated, spans, apart, ended⟩ :=
      replaceLoop_replaces replacement sound _ call.start .start (Int.le_refl 0) (Nat.le_refl _)
    refine ⟨turns, results, gaveUp, iterated, fun one member => (spans one member).2, apart,
      fun one _ => expansion_expands call.regex.program call.subject one template, ?_⟩
    rw [ended]
    cases gaveUp with
    | true => rw [if_pos rfl, if_pos rfl]
    | false =>
        rw [if_neg Bool.false_ne_true, if_neg Bool.false_ne_true]
        exact (made_eq_replaced_iff call _).mpr (short results iterated)

/-- Every subject, pattern, template and flag: the result is the subject with
its matches expanded if and only if the searches are sound and the result fits
an int. -/
theorem csRegexStringReplace_replaces_iff (subject : List UInt8) (regex : ObjRegex)
    (template : List UInt8) (all : Bool) :
    (templateCall subject regex template all).Replaces template ↔
      (∀ place, Reaches (templateCall subject regex template all) place →
        Sound (templateCall subject regex template all) template place) ∧
      ∀ results, Iterated (templateCall subject regex template all) 0 results false →
        (assemble subject ((templateCall subject regex template all).text template) 0
          results).length < 2 ^ 31 :=
  Call.replaces_iff rfl

/-- A turn at the place goes on from the other. -/
def Call.goesTo (call : Call) (template : List UInt8) (place other : Int) : Bool :=
  match call.searches place with
  | .found result =>
      decide (SpanOf call.subject place (startOf result)) &&
        templateInside call.regex.program call.subject result 0 template &&
        !call.stops result && decide (nextPlace result = other)
  | _ => false

theorem replaceLoop_running {call : Call} {template : List UInt8}
    (replacement : call.replacement = .text template) {place other : Int}
    (there : call.goesTo template place other = true)
    (back : call.goesTo template other place = true) (turns : Nat) {state : ReplaceState}
    (here : state.place = place) : (replaceLoop call turns state).1 = .running := by
  induction turns generalizing place other state with
  | zero => rfl
  | succ turns ih =>
      have leads := there
      unfold Call.goesTo at leads
      rw [← here] at leads
      cases searched : call.searches state.place with
      | found result =>
          rw [searched] at leads
          simp only [Bool.and_eq_true, decide_eq_true_eq, Bool.not_eq_true'] at leads
          obtain ⟨⟨⟨gap, inside⟩, goesOn⟩, next⟩ := leads
          obtain ⟨buffer, _, turned⟩ := replaceTurn_found replacement searched gap inside
          rw [goesOn, if_neg Bool.false_ne_true] at turned
          unfold replaceLoop
          rw [turned]
          exact ih back there next
      | missing => rw [searched] at leads; cases leads
      | outOfSteps => rw [searched] at leads; cases leads
      | outsideSubject => rw [searched] at leads; cases leads
      | outsideProgram => rw [searched] at leads; cases leads

/-- A match that ends before it starts sends the loop back for ever. -/
theorem reversed_match_never_ends :
    ∃ program, csRegexCompile (ascii "(?:(a|\\1\\1\\1)b?){2}") noFlags = .ok program ∧
      let regex : ObjRegex :=
        { program := program, source := ascii "(?:(a|\\1\\1\\1)b?){2}", global := true
          lastIndex := 0 }
      (∀ turns, (csRegexStringReplace (ascii "xab") regex (some (.text (ascii "-"))) false
        turns).1 = .running) ∧
      ¬(templateCall (ascii "xab") regex (ascii "-") false).Replaces (ascii "-") := by
  have round : comesTo "(?:(a|\\1\\1\\1)b?){2}" "xab" "-" true 0 (fun program _ =>
      let call := templateCall (ascii "xab")
        { program := program, source := ascii "(?:(a|\\1\\1\\1)b?){2}", global := true
          lastIndex := 0 } (ascii "-") false
      call.goesTo (ascii "-") 0 1 && call.goesTo (ascii "-") 1 0) = true := by
    decide +kernel
  obtain ⟨program, accepted, both⟩ := exists_of_comesTo round
  simp only [Bool.and_eq_true] at both
  refine ⟨program, accepted, ?_⟩
  intro regex
  have running : ∀ turns, (csRegexStringReplace (ascii "xab") regex (some (.text (ascii "-")))
      false turns).1 = .running :=
    fun turns => replaceLoop_running rfl both.1 both.2 turns rfl
  refine ⟨running, ?_⟩
  rintro ⟨turns, results, gaveUp, _, _, _, _, ended⟩
  have same := (running turns).symm.trans ended
  split at same <;> cases same

end CScript.RegexReplace
