/-
Replacing and splitting by a plain string.

Both look for the needle from a cursor and go on behind each hit.  Behind a hit of the
empty needle the loop of `replace` puts its cursor one byte further on, and copies the
rest of the subject from there.  Offsets and lengths are of type `int`, and a sum that
leaves it is undefined.
-/

import CScript.Native.NativeCall
import CScript.Native.StringSearch
import Mathlib.Data.Int.LeastGreatest

namespace CScript.StringReplace

open NativeCall Rendering StringSearch

/-! ### The source -/

inductive Outcome (Ref World Result : Type) where
  | returned (world : World) (result : Result)
  | failed (world : World) (failure : Failure Ref)
  /-- A sum that is no `int`. -/
  | overflow

/-- `chars` from `start` to `stop`. -/
def slice (chars : List UInt8) (start stop : Int) : List UInt8 :=
  (chars.drop start.toNat).take (stop - start).toNat

section

variable {Ref World : Type} (shortestDigits : Double → Digits) (graph : World → Graph Ref)
  (depth : Nat)
  (csVMCallAdapted : World → Shown Ref → List (Shown Ref) →
    World × Except (Failure Ref) (Shown Ref))

/-- What stands in the place of a hit: the replacement, or what its call makes of the
match, of where it started and of the whole subject. -/
def pieceAt (subject needle : List UInt8) (replacement : Shown Ref) (world : World) (hit : Int) :
    World × Except (Failure Ref) (List UInt8) :=
  match replacement with
  | .string piece => (world, .ok piece.chars)
  | callee =>
      match csVMCallAdapted world callee
          [.string ⟨slice subject hit (hit + needle.length)⟩, .number (Double.ofNat hit.toNat),
            .string ⟨subject⟩] with
      | (world, .error failure) => (world, .error failure)
      | (world, .ok (.string produced)) => (world, .ok produced.chars)
      | (world, .ok produced) =>
          match csValueToCString shortestDigits (graph world) depth produced with
          | none => (world, .error (.runtimeError (ascii "out of memory building a string")))
          | some text => (world, .ok text)

end

section

variable {Ref World : Type} (subject needle : List UInt8)
  (produce : World → Int → World × Except (Failure Ref) (List UInt8))

/-- `csNativeFinishString`, whose length was counted as a `size_t`. -/
def csNativeFinishString (world : World) (buffer : List UInt8) :
    Outcome Ref World (List UInt8) :=
  if FitsInt buffer.length then .returned world buffer else .overflow

/-- What follows the loop: the rest of the subject. -/
def finish (world : World) (cursor : Int) (buffer : List UInt8) :
    Outcome Ref World (List UInt8) :=
  csNativeFinishString world
    (if cursor < subject.length then buffer ++ slice subject cursor subject.length else buffer)

def nextHit (all replaced : Bool) (cursor : Int) : FindResult :=
  if !replaced || all then csNativeFindFrom subject needle cursor else .answer (-1)

theorem findLoop_occurs {i hit : Int} (low : 0 ≤ i)
    (found : findLoop subject needle i = .answer hit) (there : 0 ≤ hit) :
    i ≤ hit ∧ Occurs subject needle hit := by
  unfold findLoop at found
  by_cases fits : FitsInt (i + needle.length)
  · rw [if_neg (not_not.mpr fits)] at found
    by_cases room : i + needle.length ≤ subject.length
    · obtain ⟨same, compared, occurs⟩ := compareAt_of_room low room
      rw [if_pos room, compared] at found
      cases same with
      | true =>
          rw [← FindResult.answer.inj found]
          exact ⟨Int.le_refl i, occurs.mp rfl⟩
      | false =>
          have later := findLoop_occurs (show 0 ≤ i + 1 by omega) found there
          exact ⟨by omega, later.2⟩
    · rw [if_neg room] at found
      have none_ := FindResult.answer.inj found
      omega
  · rw [if_pos fits] at found
    cases found
  termination_by (subject.length + 1 - (i + needle.length)).toNat

theorem nextHit_ge {all replaced : Bool} {cursor hit : Int} (inside : cursor ≤ subject.length)
    (found : nextHit subject needle all replaced cursor = .answer hit) (there : ¬hit < 0) :
    cursor ≤ hit := by
  unfold nextHit csNativeFindFrom at found
  split at found
  · split at found
    · exact Int.le_of_eq (FindResult.answer.inj found)
    · have start : (0 : Int) ≤ if cursor < 0 then 0 else cursor := by split <;> omega
      have clamped := (findLoop_occurs subject needle start found (Int.not_lt.mp there)).1
      split at clamped <;> omega
  · have none_ := FindResult.answer.inj found
    omega

inductive Turn (Ref World : Type) where
  | next (world : World) (cursor : Int) (buffer : List UInt8)
  | done (outcome : Outcome Ref World (List UInt8))

/-- One turn of the loop; to leave it is to do what follows it. -/
def replaceTurn (all replaced : Bool) (world : World) (cursor : Int) (buffer : List UInt8) :
    Turn Ref World :=
  if ¬cursor ≤ subject.length then .done (finish subject world cursor buffer)
  else
    match nextHit subject needle all replaced cursor with
    | .overflow => .done .overflow
    | .outside => .done .overflow
    | .answer hit =>
        -- An empty needle would match forever; stop after the first.
        if hit < 0 ∨ needle.length = 0 ∧ replaced then .done (finish subject world cursor buffer)
        else
          match produce world hit with
          | (world, .error failure) => .done (.failed world failure)
          | (world, .ok piece) =>
              if ¬FitsInt piece.length then .done .overflow
              else
                let buffer := buffer ++ slice subject cursor hit ++ piece
                let cursor := hit + if 0 < needle.length then needle.length else 1
                if !all then .done (finish subject world cursor buffer)
                else .next world cursor buffer

theorem replaceTurn_next {all replaced : Bool} {world world' : World} {cursor cursor' : Int}
    {buffer buffer' : List UInt8}
    (turn : replaceTurn subject needle produce all replaced world cursor buffer =
      .next world' cursor' buffer') : cursor ≤ subject.length ∧ cursor < cursor' := by
  unfold replaceTurn at turn
  by_cases inside : cursor ≤ subject.length
  · rw [if_neg (not_not.mpr inside)] at turn
    refine ⟨inside, ?_⟩
    cases found : nextHit subject needle all replaced cursor with
    | overflow =>
        rw [found] at turn
        cases turn
    | outside =>
        rw [found] at turn
        cases turn
    | answer hit =>
        rw [found] at turn
        simp only at turn
        split at turn
        · cases turn
        · rename_i goesOn
          have later := nextHit_ge subject needle inside found (fun below => goesOn (.inl below))
          split at turn
          · cases turn
          · split at turn
            · cases turn
            · split at turn
              · cases turn
              · have place := (Turn.next.inj turn).2.1
                split at place <;> omega
  · rw [if_pos inside] at turn
    cases turn

def replaceLoop (all replaced : Bool) (world : World) (cursor : Int) (buffer : List UInt8) :
    Outcome Ref World (List UInt8) :=
  match _turn : replaceTurn subject needle produce all replaced world cursor buffer with
  | .done outcome => outcome
  | .next world cursor buffer => replaceLoop all true world cursor buffer
  termination_by (subject.length + 1 - cursor).toNat
  decreasing_by
    have moved := replaceTurn_next subject needle produce _turn
    omega

end

section

variable {Ref World : Type} (shortestDigits : Double → Digits) (graph : World → Graph Ref)
  (depth : Nat)
  (csVMCallAdapted : World → Shown Ref → List (Shown Ref) →
    World × Except (Failure Ref) (Shown Ref))
  (csRegexStringReplace : World → List UInt8 → List (Shown Ref) → Bool →
    Outcome Ref World (List UInt8))

def stringReplaceImpl (world : World) (subject : List UInt8) (args : List (Shown Ref))
    (all : Bool) (method : List UInt8) : Outcome Ref World (List UInt8) :=
  match args.head? with
  | some (.regex _ _) => csRegexStringReplace world subject args all
  | _ =>
      match csNativeStringArg args 0 method with
      | .error failure => .failed world failure
      | .ok needle =>
          let replacement := args.getD 1 .undefined
          match if csValueIsCallable replacement then .ok []
            else csNativeStringArg args 1 method with
          | .error failure => .failed world failure
          | .ok _ =>
              replaceLoop subject needle
                (pieceAt shortestDigits graph depth csVMCallAdapted subject needle replacement)
                all false world 0 []

def stringReplace (world : World) (subject : List UInt8) (args : List (Shown Ref)) :
    Outcome Ref World (List UInt8) :=
  stringReplaceImpl shortestDigits graph depth csVMCallAdapted csRegexStringReplace world subject
    args false (ascii "replace")

def stringReplaceAll (world : World) (subject : List UInt8) (args : List (Shown Ref)) :
    Outcome Ref World (List UInt8) :=
  stringReplaceImpl shortestDigits graph depth csVMCallAdapted csRegexStringReplace world subject
    args true (ascii "replaceAll")

end

section

variable {Ref World : Type} (subject separator : List UInt8)

/-- The loop of `split`, with the pieces it has written. -/
def splitLoop (nonempty : separator ≠ []) (world : World) (cursor : Int)
    (pieces : List (List UInt8)) : Outcome Ref World (List (List UInt8)) :=
  match _found : csNativeFindFrom subject separator cursor with
  | .overflow => .overflow
  | .outside => .overflow
  | .answer hit =>
      let stop := if hit < 0 then (subject.length : Int) else hit
      if _last : hit < 0 then .returned world (pieces ++ [slice subject cursor stop])
      else
        splitLoop nonempty world (hit + separator.length) (pieces ++ [slice subject cursor stop])
  termination_by (subject.length - cursor).toNat
  decreasing_by
    have size : separator.length ≠ 0 := fun none_ => nonempty (List.length_eq_zero_iff.mp none_)
    unfold csNativeFindFrom at _found
    rw [if_neg size] at _found
    have start : (0 : Int) ≤ if cursor < 0 then 0 else cursor := by split <;> omega
    obtain ⟨behind, _, room, _⟩ :=
      findLoop_occurs subject separator start _found (Int.not_lt.mp _last)
    split at behind <;> omega

def stringSplit (csRegexStringSplit : World → List UInt8 → List (Shown Ref) →
      Outcome Ref World (List (List UInt8)))
    (world : World) (args : List (Shown Ref)) : Outcome Ref World (List (List UInt8)) :=
  match args.head? with
  | some (.regex _ _) => csRegexStringSplit world subject args
  | none => .returned world [subject]
  | some .undefined => .returned world [subject]
  | some (.string s) =>
      if empty : s.chars = [] then .returned world (subject.map (fun c => [c]))
      else splitLoop subject s.chars empty world 0 []
  | some given =>
      .failed world (.runtimeError (ascii "split expects a string, got " ++
        NativeCall.csValueTypeName given))

end

/-! ### Where the needle occurs -/

section

variable (subject needle : List UInt8)

inductive Occurrences : Int → List Int → Prop where
  | none {start : Int} (nowhere : ∀ k, start ≤ k → ¬Occurs subject needle k) :
      Occurrences start []
  | next {start hit : Int} {hits : List Int} (behind : start ≤ hit)
      (occurs : Occurs subject needle hit)
      (first : ∀ k, start ≤ k → k < hit → ¬Occurs subject needle k)
      (rest : Occurrences (hit + max needle.length 1) hits) : Occurrences start (hit :: hits)

def weave : Int → List (Int × List UInt8) → List UInt8
  | cursor, [] => slice subject cursor subject.length
  | cursor, (hit, piece) :: rest =>
      slice subject cursor hit ++ piece ++ weave (hit + needle.length) rest

def cuts : Int → List Int → List (List UInt8)
  | cursor, [] => [slice subject cursor subject.length]
  | cursor, hit :: rest => slice subject cursor hit :: cuts (hit + needle.length) rest

/-- No sum leaves `int` in the searches, of which one follows each hit if all are wanted,
nor in the pieces. -/
def SumsFit (all : Bool) : Int → List (Int × List UInt8) → Prop
  | cursor, [] => Searchable subject needle cursor
  | cursor, (hit, piece) :: rest =>
      Searchable subject needle cursor ∧ FitsInt piece.length ∧
        (all = true → SumsFit all (hit + needle.length) rest)

end

section

variable {Ref World : Type}
  (produce : World → Int → World × Except (Failure Ref) (List UInt8))

/-- The pieces for the hits in turn, and the failure that stopped their making. -/
def replacements : World → List Int → World × List (Int × List UInt8) × Option (Failure Ref)
  | world, [] => (world, [], none)
  | world, hit :: hits =>
      match produce world hit with
      | (world, .error failure) => (world, [], some failure)
      | (world, .ok piece) =>
          let (world, pieces, failure) := replacements world hits
          (world, (hit, piece) :: pieces, failure)

end

section

variable {subject needle : List UInt8}

theorem exists_occurrences {start : Int} (low : 0 ≤ start) :
    ∃ hits, Occurrences subject needle start hits := by
  by_cases there : ∃ k, start ≤ k ∧ Occurs subject needle k
  · obtain ⟨hit, ⟨behind, occurs⟩, least⟩ :=
      Int.exists_least_of_bdd ⟨start, fun _ found => found.1⟩ there
    have inside := occurs.2.1
    obtain ⟨hits, rest⟩ := exists_occurrences (show 0 ≤ hit + max needle.length 1 by omega)
    refine ⟨hit :: hits, .next behind occurs (fun k after before there => ?_) rest⟩
    have notBefore := least k ⟨after, there⟩
    omega
  · exact ⟨[], .none (fun k behind occurs => there ⟨k, behind, occurs⟩)⟩
  termination_by (subject.length + 1 - start).toNat

theorem slice_append {chars : List UInt8} {start middle stop : Int} (low : 0 ≤ start)
    (first : start ≤ middle) (second : middle ≤ stop) :
    slice chars start middle ++ slice chars middle stop = slice chars start stop := by
  have whole : (stop - start).toNat = (middle - start).toNat + (stop - middle).toNat := by omega
  have place : start.toNat + (middle - start).toNat = middle.toNat := by omega
  unfold slice
  rw [whole, List.take_add, List.drop_drop, place]

theorem slice_of_occurs {hit : Int} (occurs : Occurs subject needle hit) :
    slice subject hit (hit + needle.length) = needle := by
  have size : (hit + needle.length - hit).toNat = needle.length := by omega
  unfold slice
  rw [size]
  exact occurs.2.2

theorem slice_empty (chars : List UInt8) {start stop : Int} (before : stop ≤ start) :
    slice chars start stop = [] := by
  have none_ : (stop - start).toNat = 0 := by omega
  unfold slice
  rw [none_, List.take_zero]

theorem weave_needle (nonempty : needle ≠ []) {start : Int} {hits : List Int}
    (occurrences : Occurrences subject needle start hits) (low : 0 ≤ start) :
    weave subject needle start (hits.map (fun hit => (hit, needle))) =
      slice subject start subject.length := by
  have size : 0 < needle.length := List.length_pos_iff.mpr nonempty
  induction occurrences with
  | none nowhere => rfl
  | @next start hit hits behind occurs first rest ih =>
      have inside := occurs.2.1
      have step : hit + (max needle.length 1 : Nat) = hit + needle.length := by omega
      have rest := ih (by omega)
      rw [step] at rest
      rw [List.map_cons, weave, rest]
      have hitSlice := slice_of_occurs occurs
      calc slice subject start hit ++ needle ++ slice subject (hit + needle.length) subject.length
          = slice subject start hit ++ (slice subject hit (hit + needle.length) ++
              slice subject (hit + needle.length) subject.length) := by
            rw [hitSlice, List.append_assoc]
        _ = slice subject start subject.length := by
            rw [slice_append (by omega) (by omega) inside, slice_append low behind (by omega)]

theorem cuts_ne_nil (subject needle : List UInt8) (start : Int) (hits : List Int) :
    cuts subject needle start hits ≠ [] := by
  cases hits <;> exact List.cons_ne_nil _ _

theorem intercalate_cuts (piece : List UInt8) (start : Int) (hits : List Int) :
    List.intercalate piece (cuts subject needle start hits) =
      weave subject needle start (hits.map (fun hit => (hit, piece))) := by
  induction hits generalizing start with
  | nil => simp [cuts, weave]
  | cons hit hits ih =>
      rw [List.map_cons, weave, ← ih, cuts]
      obtain ⟨next, rest, split⟩ := List.exists_cons_of_ne_nil
        (cuts_ne_nil subject needle (hit + needle.length) hits)
      rw [split]
      simp [List.intercalate]

theorem occurs_of_slice (nonempty : needle ≠ []) {start stop k : Int} (low : 0 ≤ start)
    (inside : stop ≤ subject.length) (occurs : Occurs (slice subject start stop) needle k) :
    Occurs subject needle (start + k) ∧ start + k + needle.length ≤ stop := by
  have some_ : 0 < needle.length := List.length_pos_iff.mpr nonempty
  obtain ⟨behind, room, same⟩ := occurs
  have size : (slice subject start stop).length ≤ (stop - start).toNat := by
    unfold slice
    rw [List.length_take]
    exact Nat.min_le_left _ _
  have places : (start + k).toNat = start.toNat + k.toNat := by omega
  refine ⟨⟨by omega, by omega, ?_⟩, by omega⟩
  unfold slice at same
  rw [List.drop_take, List.take_take, List.drop_drop, Nat.min_eq_left (by omega), ← places] at same
  exact same

theorem cuts_plain (nonempty : needle ≠ []) {start : Int} {hits : List Int}
    (occurrences : Occurrences subject needle start hits) (low : 0 ≤ start) :
    ∀ piece ∈ cuts subject needle start hits, ∀ k, ¬Occurs piece needle k := by
  have size : 0 < needle.length := List.length_pos_iff.mpr nonempty
  induction occurrences with
  | @none start nowhere =>
      intro piece member k occurs
      rw [List.mem_singleton.mp member] at occurs
      have behind := occurs.1
      exact nowhere (start + k) (by omega) (occurs_of_slice nonempty low (by omega) occurs).1
  | @next start hit hits behind occurs first rest ih =>
      have inside := occurs.2.1
      have step : hit + (max needle.length 1 : Nat) = hit + needle.length := by omega
      rw [step] at ih
      intro piece member k within
      rcases List.mem_cons.mp member with rfl | member
      · have place := within.1
        obtain ⟨there, room⟩ := occurs_of_slice nonempty low (by omega) within
        exact first (start + k) (by omega) (by omega) there
      · exact ih (by omega) piece member k within

/-! ### The searches -/

theorem find_nonempty (nonempty : needle ≠ []) (subjectFits : subject.length < 2147483648)
    {cursor : Int} (searchable : Searchable subject needle cursor) :
    ∃ i, csNativeFindFrom subject needle cursor = .answer i ∧
      ((max cursor 0 ≤ i ∧ Occurs subject needle i ∧
        ∀ j, max cursor 0 ≤ j → j < i → ¬Occurs subject needle j) ∨
      (i = -1 ∧ ∀ j, max cursor 0 ≤ j → ¬Occurs subject needle j)) := by
  obtain ⟨i, answered, finds⟩ := csNativeFindFrom_finds subjectFits searchable
  unfold Finds at finds
  rw [if_neg nonempty] at finds
  exact ⟨i, answered, finds⟩

theorem find_hit (nonempty : needle ≠ []) (subjectFits : subject.length < 2147483648)
    {cursor hit : Int} (low : 0 ≤ cursor) (searchable : Searchable subject needle cursor)
    (behind : cursor ≤ hit) (occurs : Occurs subject needle hit)
    (first : ∀ k, cursor ≤ k → k < hit → ¬Occurs subject needle k) :
    csNativeFindFrom subject needle cursor = .answer hit := by
  obtain ⟨i, answered, found⟩ := find_nonempty nonempty subjectFits searchable
  rw [max_eq_left low] at found
  rcases found with ⟨after, there, least⟩ | ⟨_, nowhere⟩
  · have notBefore : ¬i < hit := fun before => first i after before there
    have notBehind : ¬hit < i := fun before => least hit behind before occurs
    have same : i = hit := by omega
    rw [answered, same]
  · exact absurd occurs (nowhere hit behind)

theorem find_none (nonempty : needle ≠ []) (subjectFits : subject.length < 2147483648)
    {cursor : Int} (low : 0 ≤ cursor) (searchable : Searchable subject needle cursor)
    (nowhere : ∀ k, cursor ≤ k → ¬Occurs subject needle k) :
    csNativeFindFrom subject needle cursor = .answer (-1) := by
  obtain ⟨i, answered, found⟩ := find_nonempty nonempty subjectFits searchable
  rw [max_eq_left low] at found
  rcases found with ⟨after, there, _⟩ | ⟨rfl, _⟩
  · exact absurd there (nowhere i after)
  · exact answered

theorem find_overflow (nonempty : needle ≠ []) (subjectFits : subject.length < 2147483648)
    {cursor : Int} (unsearchable : ¬Searchable subject needle cursor) :
    csNativeFindFrom subject needle cursor = .overflow := by
  have size : needle.length ≠ 0 := fun none_ => nonempty (List.length_eq_zero_iff.mp none_)
  unfold Searchable at unsearchable
  unfold csNativeFindFrom
  rw [if_neg nonempty] at unsearchable
  rw [if_neg size, clamped_start]
  by_cases first : FitsInt (max cursor 0 + needle.length)
  · have later := not_and.mp unsearchable first
    rw [not_or] at later
    exact findLoop_overflows (by omega) (by omega)
      (fun k behind there => later.2 ⟨k, behind, there⟩)
  · rw [findLoop, if_pos first]

theorem find_empty {cursor : Int} (inside : cursor ≤ subject.length) :
    csNativeFindFrom subject [] cursor = .answer cursor := by
  unfold csNativeFindFrom
  rw [List.length_nil, if_pos rfl, if_pos inside]

/-! ### The loops -/

variable {Ref World : Type}
  (produce : World → Int → World × Except (Failure Ref) (List UInt8))

theorem finish_eq (world : World) (cursor : Int) (buffer : List UInt8) :
    (finish subject world cursor buffer : Outcome Ref World (List UInt8)) =
      csNativeFinishString world (buffer ++ slice subject cursor subject.length) := by
  unfold finish
  by_cases more : cursor < subject.length
  · rw [if_pos more]
  · rw [if_neg more, slice_empty subject (Int.not_lt.mp more), List.append_nil]

abbrev Run (Ref World : Type) :=
  World × List (Int × List UInt8) × Option (Failure Ref)

def answered (subject needle : List UInt8) (cursor : Int) (buffer : List UInt8) :
    Run Ref World → Outcome Ref World (List UInt8)
  | (world, _, some failure) => .failed world failure
  | (world, pieces, none) => .returned world (buffer ++ weave subject needle cursor pieces)

/-- No sum and no length leaves `int`. -/
def Fits (subject needle : List UInt8) (all : Bool) (cursor : Int) (buffer : List UInt8)
    (run : Run Ref World) : Prop :=
  SumsFit subject needle all cursor run.2.1 ∧
    (run.2.2.isNone = true → FitsInt (buffer ++ weave subject needle cursor run.2.1).length)

theorem SumsFit.searchable {all : Bool} {cursor : Int} {pieces : List (Int × List UInt8)}
    (sums : SumsFit subject needle all cursor pieces) : Searchable subject needle cursor := by
  cases pieces with
  | nil => exact sums
  | cons piece pieces => exact sums.1

theorem nextHit_eq {all replaced : Bool} (asked : (!replaced || all) = true) (cursor : Int) :
    nextHit subject needle all replaced cursor = csNativeFindFrom subject needle cursor :=
  if_pos asked

theorem replaceTurn_overflow (nonempty : needle ≠ []) (subjectFits : subject.length < 2147483648)
    {all replaced : Bool} (asked : (!replaced || all) = true) {cursor : Int}
    (inside : cursor ≤ subject.length) (unsearchable : ¬Searchable subject needle cursor)
    (world : World) (buffer : List UInt8) :
    replaceTurn subject needle produce all replaced world cursor buffer = .done .overflow := by
  unfold replaceTurn
  rw [if_neg (not_not.mpr inside), nextHit_eq asked,
    find_overflow nonempty subjectFits unsearchable]

theorem replaceTurn_none (nonempty : needle ≠ []) (subjectFits : subject.length < 2147483648)
    {all replaced : Bool} (asked : (!replaced || all) = true) {cursor : Int} (low : 0 ≤ cursor)
    (inside : cursor ≤ subject.length) (searchable : Searchable subject needle cursor)
    (nowhere : ∀ k, cursor ≤ k → ¬Occurs subject needle k) (world : World) (buffer : List UInt8) :
    replaceTurn subject needle produce all replaced world cursor buffer =
      .done (csNativeFinishString world (buffer ++ slice subject cursor subject.length)) := by
  unfold replaceTurn
  rw [if_neg (not_not.mpr inside), nextHit_eq asked,
    find_none nonempty subjectFits low searchable nowhere, ← finish_eq]
  exact if_pos (.inl (by decide))

theorem replaceTurn_hit {all replaced : Bool} (asked : (!replaced || all) = true)
    {cursor hit : Int} (inside : cursor ≤ subject.length) (there : 0 ≤ hit)
    (found : csNativeFindFrom subject needle cursor = .answer hit)
    (goesOn : needle ≠ [] ∨ replaced = false) (world : World) (buffer : List UInt8) :
    replaceTurn subject needle produce all replaced world cursor buffer =
      match produce world hit with
      | (world, .error failure) => .done (.failed world failure)
      | (world, .ok piece) =>
          if ¬FitsInt piece.length then .done .overflow
          else
            let buffer := buffer ++ slice subject cursor hit ++ piece
            let cursor := hit + if 0 < needle.length then needle.length else 1
            if !all then
              .done (csNativeFinishString world (buffer ++ slice subject cursor subject.length))
            else .next world cursor buffer := by
  have stays : ¬(hit < 0 ∨ needle.length = 0 ∧ replaced = true) := by
    rintro (below | ⟨none_, again⟩)
    · omega
    · rcases goesOn with nonempty | first
      · exact nonempty (List.length_eq_zero_iff.mp none_)
      · rw [again] at first
        cases first
  unfold replaceTurn
  rw [if_neg (not_not.mpr inside), nextHit_eq asked, found]
  simp only [finish_eq]
  exact if_neg stays

theorem replaceLoop_done {all replaced : Bool} {world : World} {cursor : Int}
    {buffer : List UInt8} {outcome : Outcome Ref World (List UInt8)}
    (turn : replaceTurn subject needle produce all replaced world cursor buffer = .done outcome) :
    replaceLoop subject needle produce all replaced world cursor buffer = outcome := by
  rw [replaceLoop]
  split
  · rename_i same
    exact Turn.done.inj (same.symm.trans turn)
  · rename_i other
    rw [turn] at other
    cases other

theorem replaceLoop_next {all replaced : Bool} {world next : World} {cursor place : Int}
    {buffer grown : List UInt8}
    (turn : replaceTurn subject needle produce all replaced world cursor buffer =
      .next next place grown) :
    replaceLoop subject needle produce all replaced world cursor buffer =
      replaceLoop subject needle produce all true next place grown := by
  rw [replaceLoop]
  split
  · rename_i other
    rw [turn] at other
    cases other
  · rename_i same
    obtain ⟨rfl, rfl, rfl⟩ := Turn.next.inj (same.symm.trans turn)
    rfl

theorem finished_iff (world : World) {buffer result : List UInt8} (same : buffer = result) :
    (FitsInt result.length →
      (csNativeFinishString world buffer : Outcome Ref World (List UInt8)) =
        .returned world result) ∧
    (¬FitsInt result.length →
      (csNativeFinishString world buffer : Outcome Ref World (List UInt8)) = .overflow) := by
  subst same
  exact ⟨fun fits => if_pos fits, fun fits => if_neg fits⟩

/-- What a loop comes to: what is to be returned, unless a sum or a length is no `int`. -/
def ComesTo (outcome : Outcome Ref World (List UInt8)) (subject needle : List UInt8) (all : Bool)
    (cursor : Int) (buffer : List UInt8) (run : Run Ref World) : Prop :=
  (Fits subject needle all cursor buffer run →
    outcome = answered subject needle cursor buffer run) ∧
  (¬Fits subject needle all cursor buffer run → outcome = .overflow)

theorem comesTo_iff {outcome : Outcome Ref World (List UInt8)} {all : Bool} {cursor : Int}
    {buffer : List UInt8} {run : Run Ref World}
    (comes : ComesTo outcome subject needle all cursor buffer run) :
    outcome = answered subject needle cursor buffer run ↔
      Fits subject needle all cursor buffer run := by
  constructor
  · intro same
    by_contra unfit
    rw [comes.2 unfit] at same
    obtain ⟨world, pieces, failure⟩ := run
    cases failure <;> cases same
  · exact comes.1

theorem comesTo_hit {outcome : Outcome Ref World (List UInt8)} {all : Bool} {cursor hit : Int}
    {buffer : List UInt8} {hits : List Int} {world : World}
    (searchable : Searchable subject needle cursor)
    (failed : ∀ next failure, produce world hit = (next, .error failure) →
      outcome = .failed next failure)
    (long : ∀ next piece, produce world hit = (next, .ok piece) → ¬FitsInt piece.length →
      outcome = .overflow)
    (made : ∀ next piece, produce world hit = (next, .ok piece) → FitsInt piece.length →
      (all = true → ComesTo outcome subject needle all (hit + needle.length)
        (buffer ++ slice subject cursor hit ++ piece) (replacements produce next hits)) ∧
      (all = false → hits = [] ∧ outcome = csNativeFinishString next
        (buffer ++ slice subject cursor hit ++ piece ++
          slice subject (hit + needle.length) subject.length))) :
    ComesTo outcome subject needle all cursor buffer
      (replacements produce world (hit :: hits)) := by
  rw [replacements]
  cases produced : produce world hit with
  | mk next answer =>
      cases answer with
      | error failure =>
          exact ⟨fun _ => failed next failure produced,
            fun unfit => absurd ⟨searchable, fun none_ => by cases none_⟩ unfit⟩
      | ok piece =>
          by_cases size : FitsInt piece.length
          · obtain ⟨whenAll, whenFirst⟩ := made next piece produced size
            cases all with
            | true =>
                have rest := whenAll rfl
                cases run : replacements produce next hits with
                | mk last parts =>
                    obtain ⟨pieces, failure⟩ := parts
                    rw [run] at rest
                    have fits : Fits subject needle true cursor buffer
                        (last, (hit, piece) :: pieces, failure) ↔
                          Fits subject needle true (hit + needle.length)
                            (buffer ++ slice subject cursor hit ++ piece)
                            (last, pieces, failure) := by
                      simp [Fits, SumsFit, weave, searchable, size]
                    have same : answered subject needle cursor buffer
                        (last, (hit, piece) :: pieces, failure) =
                          answered subject needle (hit + needle.length)
                            (buffer ++ slice subject cursor hit ++ piece)
                            (last, pieces, failure) := by
                      cases failure <;> simp [answered, weave]
                    simp only [run]
                    constructor
                    · intro fit
                      exact (rest.1 (fits.mp fit)).trans same.symm
                    · exact fun unfit => rest.2 (fun fit => unfit (fits.mpr fit))
            | false =>
                obtain ⟨rfl, finished⟩ := whenFirst rfl
                have woven : buffer ++ slice subject cursor hit ++ piece ++
                    slice subject (hit + needle.length) subject.length =
                      buffer ++ weave subject needle cursor [(hit, piece)] := by
                  simp [weave]
                obtain ⟨returned, tooLong⟩ := @finished_iff Ref World next _ _ woven
                constructor
                · rintro ⟨_, fits⟩
                  exact finished.trans (returned (fits rfl))
                · intro unfit
                  apply finished.trans
                  apply tooLong
                  intro fits
                  have sums : SumsFit subject needle false cursor [(hit, piece)] :=
                    ⟨searchable, size, nofun⟩
                  exact unfit ⟨sums, fun _ => fits⟩
          · constructor
            · rintro ⟨⟨_, fits, _⟩, _⟩
              exact absurd fits size
            · exact fun _ => long next piece produced size

theorem replaceLoop_all (nonempty : needle ≠ []) (subjectFits : subject.length < 2147483648)
    {cursor : Int} {hits : List Int} (occurrences : Occurrences subject needle cursor hits)
    (low : 0 ≤ cursor) (inside : cursor ≤ subject.length) (replaced : Bool) (world : World)
    (buffer : List UInt8) :
    ComesTo (replaceLoop subject needle produce true replaced world cursor buffer) subject needle
      true cursor buffer (replacements produce world hits) := by
  have size : 0 < needle.length := List.length_pos_iff.mpr nonempty
  have asked : (!replaced || true) = true := Bool.or_true _
  induction occurrences generalizing replaced world buffer with
  | @none cursor nowhere =>
      by_cases searchable : Searchable subject needle cursor
      · have turn := replaceTurn_none produce nonempty subjectFits asked low inside
          searchable nowhere world buffer
        obtain ⟨returned, tooLong⟩ := @finished_iff Ref World world
          (buffer ++ slice subject cursor subject.length) _ rfl
        constructor
        · rintro ⟨_, fits⟩
          exact (replaceLoop_done produce turn).trans (returned (fits rfl))
        · intro unfit
          exact (replaceLoop_done produce turn).trans
            (tooLong (fun fits => unfit ⟨searchable, fun _ => fits⟩))
      · refine ⟨fun fits => absurd fits.1.searchable searchable, fun _ => ?_⟩
        exact replaceLoop_done produce
          (replaceTurn_overflow produce nonempty subjectFits asked inside searchable world buffer)
  | @next cursor hit hits behind occurs first rest ih =>
      have room := occurs.2.1
      have step : hit + (max needle.length 1 : Nat) = hit + needle.length := by omega
      rw [step] at ih
      by_cases searchable : Searchable subject needle cursor
      · have found := find_hit nonempty subjectFits low searchable behind occurs first
        have turn := replaceTurn_hit produce asked inside (by omega) found (.inl nonempty) world
          buffer
        refine comesTo_hit produce searchable ?_ ?_ ?_
        · intro next failure produced
          rw [produced] at turn
          exact replaceLoop_done produce turn
        · intro next piece produced long
          rw [produced] at turn
          exact replaceLoop_done produce (turn.trans (if_pos long))
        · intro next piece produced fits
          rw [produced] at turn
          have goesOn := replaceLoop_next produce (turn.trans (if_neg (not_not.mpr fits)))
          rw [if_pos size] at goesOn
          rw [goesOn]
          exact ⟨fun _ => ih (by omega) room true next _ rfl, nofun⟩
      · refine ⟨fun fits => absurd fits.1.searchable searchable, fun _ => ?_⟩
        exact replaceLoop_done produce
          (replaceTurn_overflow produce nonempty subjectFits asked inside searchable world buffer)

theorem replaceLoop_first (nonempty : needle ≠ []) (subjectFits : subject.length < 2147483648)
    {hits : List Int} (occurrences : Occurrences subject needle 0 hits) (world : World) :
    ComesTo (replaceLoop subject needle produce false false world 0 []) subject needle false 0 []
      (replacements produce world (hits.take 1)) := by
  have size : 0 < needle.length := List.length_pos_iff.mpr nonempty
  have inside : (0 : Int) ≤ subject.length := Int.natCast_nonneg _
  by_cases searchable : Searchable subject needle 0
  · cases occurrences with
    | none nowhere =>
        have turn := @replaceTurn_none _ _ _ _ produce nonempty subjectFits false false rfl _
          (Int.le_refl 0) inside searchable nowhere world []
        obtain ⟨returned, tooLong⟩ := @finished_iff Ref World world
          ([] ++ slice subject 0 subject.length) _ rfl
        constructor
        · rintro ⟨_, fits⟩
          exact (replaceLoop_done produce turn).trans (returned (fits rfl))
        · intro unfit
          exact (replaceLoop_done produce turn).trans
            (tooLong (fun fits => unfit ⟨searchable, fun _ => fits⟩))
    | @next _ hit hits behind occurs first rest =>
        have found := find_hit nonempty subjectFits (Int.le_refl 0) searchable behind occurs first
        have turn := @replaceTurn_hit _ _ _ _ produce false false rfl _ _ inside behind found
          (.inl nonempty) world []
        refine comesTo_hit produce searchable ?_ ?_ ?_
        · intro next failure produced
          rw [produced] at turn
          exact replaceLoop_done produce turn
        · intro next piece produced long
          rw [produced] at turn
          exact replaceLoop_done produce (turn.trans (if_pos long))
        · intro next piece produced fits
          rw [produced] at turn
          have done := replaceLoop_done produce (turn.trans (if_neg (not_not.mpr fits)))
          rw [if_pos size] at done
          exact ⟨nofun, fun _ => ⟨rfl, done⟩⟩
  · refine ⟨fun fits => absurd fits.1.searchable searchable, fun _ => ?_⟩
    exact replaceLoop_done produce
      (replaceTurn_overflow produce nonempty subjectFits rfl inside searchable world [])

theorem replaceLoop_empty (all : Bool) (world : World) :
    replaceLoop subject [] produce all false world 0 [] =
      match produce world 0 with
      | (world, .error failure) => .failed world failure
      | (world, .ok piece) =>
          if ¬FitsInt piece.length then .overflow
          else csNativeFinishString world (piece ++ slice subject 1 subject.length) := by
  have inside : (0 : Int) ≤ subject.length := Int.natCast_nonneg _
  have turn := @replaceTurn_hit subject [] _ _ produce all false rfl 0 0 inside (Int.le_refl 0)
    (find_empty inside) (.inr rfl) world []
  cases produced : produce world 0 with
  | mk next answer =>
      rw [produced] at turn
      cases answer with
      | error failure => exact replaceLoop_done produce turn
      | ok piece =>
          by_cases fits : FitsInt piece.length
          · have goesOn := turn.trans (if_neg (not_not.mpr fits))
            have start : [] ++ slice subject 0 0 ++ piece = piece := by
              rw [slice_empty subject (Int.le_refl 0), List.nil_append, List.nil_append]
            simp only [List.length_nil, Nat.lt_irrefl, if_false, Int.zero_add, start, Nat.cast_one]
              at goesOn
            refine Eq.trans ?_ (if_neg (not_not.mpr fits)).symm
            cases all with
            | false => exact replaceLoop_done produce goesOn
            | true =>
                refine (replaceLoop_next produce goesOn).trans (replaceLoop_done produce ?_)
                unfold replaceTurn
                rw [finish_eq]
                by_cases more : (1 : Int) ≤ subject.length
                · rw [if_neg (not_not.mpr more), nextHit_eq rfl, find_empty more]
                  exact if_pos (.inr ⟨rfl, rfl⟩)
                · exact if_pos more
          · exact (replaceLoop_done produce (turn.trans (if_pos fits))).trans (if_pos fits).symm

theorem weave_length {start : Int} {hits : List Int}
    (occurrences : Occurrences subject [] start hits) :
    ∀ (cursor : Int) (world : World), 0 ≤ cursor → cursor ≤ start → cursor ≤ subject.length →
      subject.length ≤
        cursor + (weave subject [] cursor (replacements produce world hits).2.1).length := by
  have rest (cursor : Int) (low : 0 ≤ cursor) (inside : cursor ≤ subject.length) :
      subject.length ≤ cursor + (slice subject cursor subject.length).length := by
    unfold slice
    rw [List.length_take, List.length_drop]
    omega
  induction occurrences with
  | none nowhere => exact fun cursor world low _ inside => rest cursor low inside
  | @next start hit hits behind occurs first occurrences ih =>
      intro cursor world low before inside
      rw [replacements]
      cases produced : produce world hit with
      | mk next answer =>
          cases answer with
          | error failure => exact rest cursor low inside
          | ok piece =>
              have room := occurs.2.1
              have later := ih (hit + ([] : List UInt8).length) next
                (by simp only [List.length_nil] at room ⊢; omega) (by simp) room
              have between : (slice subject cursor hit).length = (hit - cursor).toNat := by
                unfold slice
                rw [List.length_take, List.length_drop]
                simp only [List.length_nil] at room
                omega
              cases run : replacements produce next hits with
              | mk last parts =>
                  rw [run] at later
                  simp only [run, weave, List.length_append, between]
                  simp only [List.length_nil] at room later ⊢
                  omega

theorem occurrences_empty {hits : List Int} (occurrences : Occurrences subject [] 0 hits) :
    ∃ rest, hits = 0 :: rest ∧ Occurrences subject [] 1 rest := by
  have start : Occurs subject [] 0 := ⟨Int.le_refl 0, by simp, by simp⟩
  cases occurrences with
  | none nowhere => exact absurd start (nowhere 0 (Int.le_refl 0))
  | @next _ hit rest behind occurs first occurrences =>
      have same : hit = 0 := by
        by_contra other
        exact first 0 (Int.le_refl 0) (by omega) start
      subst same
      exact ⟨rest, rfl, occurrences⟩

theorem replaceLoop_empty_iff (all : Bool) {hits : List Int}
    (occurrences : Occurrences subject [] 0 hits) (world : World) :
    replaceLoop subject [] produce all false world 0 [] =
        answered subject [] 0 [] (replacements produce world (if all then hits else hits.take 1)) ↔
      (subject = [] ∨
        (replacements produce world (if all then hits else hits.take 1)).2.1 = []) ∧
      Fits subject [] all 0 []
        (replacements produce world (if all then hits else hits.take 1)) := by
  obtain ⟨rest, rfl, later⟩ := occurrences_empty occurrences
  obtain ⟨wanted, wantedEq, wantedOccur⟩ : ∃ wanted,
      (if all then 0 :: rest else (0 :: rest).take 1) = 0 :: wanted ∧
        (wanted = [] ∨ wanted = rest) := by
    cases all with
    | true => exact ⟨rest, rfl, .inr rfl⟩
    | false => exact ⟨[], rfl, .inl rfl⟩
  rw [wantedEq, replaceLoop_empty, replacements]
  have searchable : Searchable subject [] 0 := by
    unfold Searchable
    rw [if_pos rfl]
  cases produced : produce world 0 with
  | mk next answer =>
      cases answer with
      | error failure =>
          simp [answered, Fits, SumsFit, searchable]
      | ok piece =>
          cases run : replacements produce next wanted with
          | mk last parts =>
              obtain ⟨pieces, failure⟩ := parts
              have enough : subject.length ≤ (weave subject [] 0 pieces).length := by
                rcases wantedOccur with rfl | rfl
                · rw [replacements] at run
                  obtain ⟨rfl, rfl, rfl⟩ : next = last ∧ [] = pieces ∧ none = failure := by
                    simpa using run
                  simp [weave, slice]
                · have counted := weave_length produce later 0 next (Int.le_refl 0) (by decide)
                    (Int.natCast_nonneg _)
                  rw [run] at counted
                  simpa using counted
              simp only [run]
              by_cases empty : subject = []
              · have nothing : wanted = [] := by
                  rcases wantedOccur with rfl | rfl
                  · rfl
                  · cases later with
                    | none => rfl
                    | next behind occurs _ _ =>
                        have room := occurs.2.1
                        rw [empty] at room
                        simp only [List.length_nil] at room
                        omega
                subst empty nothing
                rw [replacements] at run
                obtain ⟨rfl, rfl, rfl⟩ : next = last ∧ [] = pieces ∧ none = failure := by
                  simpa using run
                by_cases fits : FitsInt piece.length
                · simp [answered, Fits, SumsFit, weave, slice, csNativeFinishString, fits,
                    searchable]
                · simp [answered, Fits, SumsFit, weave, slice, fits]
              · constructor
                · intro same
                  exfalso
                  have long : 0 < subject.length := List.length_pos_iff.mpr empty
                  cases failure with
                  | some failure =>
                      unfold csNativeFinishString at same
                      split at same
                      · cases same
                      · split at same <;> cases same
                  | none =>
                      have lengths : (piece ++ slice subject 1 subject.length).length =
                          (piece ++ weave subject [] 0 pieces).length := by
                        unfold csNativeFinishString at same
                        split at same
                        · cases same
                        · split at same
                          · have results := (Outcome.returned.inj same).2
                            rw [results]
                            simp [weave, slice]
                          · cases same
                      have behind : (slice subject 1 subject.length).length =
                          subject.length - 1 := by
                        unfold slice
                        rw [List.length_take, List.length_drop]
                        omega
                      rw [List.length_append, List.length_append, behind] at lengths
                      omega
                · rintro ⟨none_ | none_, _⟩
                  · exact absurd none_ empty
                  · cases none_

theorem splitLoop_overflow {separator : List UInt8} (nonempty : separator ≠ []) {cursor : Int}
    (found : csNativeFindFrom subject separator cursor = .overflow) (world : World)
    (pieces : List (List UInt8)) :
    (splitLoop subject separator nonempty world cursor pieces : Outcome Ref World _) =
      .overflow := by
  rw [splitLoop]
  split
  · rfl
  · rfl
  · rename_i other
    rw [found] at other
    cases other

theorem splitLoop_answer {separator : List UInt8} (nonempty : separator ≠ []) {cursor hit : Int}
    (found : csNativeFindFrom subject separator cursor = .answer hit) (world : World)
    (pieces : List (List UInt8)) :
    (splitLoop subject separator nonempty world cursor pieces : Outcome Ref World _) =
      if hit < 0 then .returned world (pieces ++ [slice subject cursor subject.length])
      else splitLoop subject separator nonempty world (hit + separator.length)
        (pieces ++ [slice subject cursor hit]) := by
  rw [splitLoop]
  split
  · rename_i other
    rw [found] at other
    cases other
  · rename_i other
    rw [found] at other
    cases other
  · rename_i answer same
    rw [found] at same
    obtain rfl := FindResult.answer.inj same
    by_cases none_ : hit < 0
    · simp only [if_pos none_, dif_pos none_]
    · simp only [if_neg none_, dif_neg none_]

theorem splitLoop_cuts (nonempty : needle ≠ []) (subjectFits : subject.length < 2147483648)
    {cursor : Int} {hits : List Int} (occurrences : Occurrences subject needle cursor hits)
    (low : 0 ≤ cursor) (world : World) (pieces : List (List UInt8)) :
    (splitLoop subject needle nonempty world cursor pieces : Outcome Ref World _) =
        .returned world (pieces ++ cuts subject needle cursor hits) ↔
      SumsFit subject needle true cursor (hits.map (fun hit => (hit, []))) := by
  have size : 0 < needle.length := List.length_pos_iff.mpr nonempty
  induction occurrences generalizing pieces with
  | @none cursor nowhere =>
      by_cases searchable : Searchable subject needle cursor
      · rw [splitLoop_answer nonempty (find_none nonempty subjectFits low searchable nowhere)]
        exact ⟨fun _ => searchable, fun _ => if_pos (by decide)⟩
      · rw [splitLoop_overflow nonempty (find_overflow nonempty subjectFits searchable)]
        exact ⟨nofun, fun sums => absurd sums.searchable searchable⟩
  | @next cursor hit hits behind occurs first rest ih =>
      have room := occurs.2.1
      have step : hit + (max needle.length 1 : Nat) = hit + needle.length := by omega
      rw [step] at ih
      by_cases searchable : Searchable subject needle cursor
      · have found := find_hit nonempty subjectFits low searchable behind occurs first
        have goesOn := @splitLoop_answer subject Ref World needle nonempty _ _ found world pieces
        have later := ih (by omega) (pieces ++ [slice subject cursor hit])
        rw [if_neg (by omega)] at goesOn
        rw [List.append_assoc, List.singleton_append] at later
        rw [goesOn, cuts, List.map_cons, SumsFit]
        exact ⟨fun returned => ⟨searchable, by decide, fun _ => later.mp returned⟩,
          fun sums => later.mpr (sums.2.2 rfl)⟩
      · rw [splitLoop_overflow nonempty (find_overflow nonempty subjectFits searchable)]
        exact ⟨nofun, fun sums => absurd sums.searchable searchable⟩

end

/-- With the empty needle, unless its one call fails, `replace` loses the first byte of a
subject that has one.  Otherwise the answer has each piece in the place of its hit and
every other byte once, where no sum leaves `int`; and so do the pieces of `split`. -/
theorem replace_split_iff {Ref World : Type} (shortestDigits : Double → Digits)
    (graph : World → Graph Ref) (depth : Nat)
    (csVMCallAdapted : World → Shown Ref → List (Shown Ref) →
      World × Except (Failure Ref) (Shown Ref))
    (csRegexStringReplace : World → List UInt8 → List (Shown Ref) → Bool →
      Outcome Ref World (List UInt8))
    (csRegexStringSplit : World → List UInt8 → List (Shown Ref) →
      Outcome Ref World (List (List UInt8)))
    (subject needle : List UInt8) (subjectFits : subject.length < 2147483648) :
    ∃ hits, Occurrences subject needle 0 hits ∧
      (∀ (all : Bool) (method : List UInt8) (replacement : Shown Ref) (more : List (Shown Ref))
        (world : World), (∃ s, replacement = .string s) ∨ csValueIsCallable replacement = true →
        ∀ run, run = replacements
            (pieceAt shortestDigits graph depth csVMCallAdapted subject needle replacement) world
            (if all then hits else hits.take 1) →
          (stringReplaceImpl shortestDigits graph depth csVMCallAdapted csRegexStringReplace world
              subject (.string ⟨needle⟩ :: replacement :: more) all method =
              answered subject needle 0 [] run ↔
            (needle ≠ [] ∨ subject = [] ∨ run.2.1 = []) ∧
              Fits subject needle all 0 [] run)) ∧
      (needle ≠ [] →
        (∀ (world : World) (more : List (Shown Ref)),
          stringSplit subject csRegexStringSplit world (.string ⟨needle⟩ :: more) =
              .returned world (cuts subject needle 0 hits) ↔
            SumsFit subject needle true 0 (hits.map (fun hit => (hit, [])))) ∧
        List.intercalate needle (cuts subject needle 0 hits) = subject ∧
        (∀ piece ∈ cuts subject needle 0 hits, ∀ k, ¬Occurs piece needle k) ∧
        ∀ piece, List.intercalate piece (cuts subject needle 0 hits) =
          weave subject needle 0 (hits.map (fun hit => (hit, piece)))) := by
  obtain ⟨hits, occurrences⟩ : ∃ hits, Occurrences subject needle 0 hits :=
    exists_occurrences (Int.le_refl 0)
  have inside : (0 : Int) ≤ subject.length := Int.natCast_nonneg _
  refine ⟨hits, occurrences, ?_, ?_⟩
  · rintro all method replacement more world given run rfl
    have taken : stringReplaceImpl shortestDigits graph depth csVMCallAdapted csRegexStringReplace
        world subject (.string ⟨needle⟩ :: replacement :: more) all method =
          replaceLoop subject needle
            (pieceAt shortestDigits graph depth csVMCallAdapted subject needle replacement) all
            false world 0 [] := by
      unfold stringReplaceImpl
      rcases given with ⟨s, rfl⟩ | callable
      · rfl
      · simp [csNativeStringArg, callable]
    rw [taken]
    generalize pieceAt shortestDigits graph depth csVMCallAdapted subject needle replacement =
      produce
    by_cases nonempty : needle ≠ []
    · have comes : ComesTo (replaceLoop subject needle produce all false world 0 []) subject needle
          all 0 [] (replacements produce world (if all then hits else hits.take 1)) := by
        cases all with
        | true =>
            exact replaceLoop_all produce nonempty subjectFits occurrences (Int.le_refl 0) inside
              false world []
        | false => exact replaceLoop_first produce nonempty subjectFits occurrences world
      rw [comesTo_iff comes, and_iff_right (.inl nonempty)]
    · obtain rfl := not_not.mp nonempty
      rw [replaceLoop_empty_iff _ all occurrences world]
      simp
  · intro nonempty
    refine ⟨fun world more => ?_, ?_, cuts_plain nonempty occurrences (Int.le_refl 0),
      fun piece => intercalate_cuts piece 0 hits⟩
    · unfold stringSplit
      simp only [List.head?_cons, dif_neg nonempty]
      exact splitLoop_cuts nonempty subjectFits occurrences (Int.le_refl 0) world []
    · rw [intercalate_cuts, weave_needle nonempty occurrences (Int.le_refl 0)]
      simp [slice]

section

def callNothing (world : Unit) (_ : Shown Unit) (_ : List (Shown Unit)) :
    Unit × Except (Failure Unit) (Shown Unit) :=
  (world, .ok .undefined)

def regexReplaceNothing (world : Unit) (_ : List UInt8) (_ : List (Shown Unit)) (_ : Bool) :
    Outcome Unit Unit (List UInt8) :=
  .failed world (.runtimeError [])

def regexSplitNothing (world : Unit) (_ : List UInt8) (_ : List (Shown Unit)) :
    Outcome Unit Unit (List (List UInt8)) :=
  .failed world (.runtimeError [])

theorem occurrences_comma {hits : List Int}
    (occurrences : Occurrences (ascii "a,b") (ascii ",") 0 hits) : hits = [1] := by
  have only : ∀ k, Occurs (ascii "a,b") (ascii ",") k → k = 1 := by
    rintro k ⟨low, room, same⟩
    have high : k ≤ 2 := by
      have size : (ascii "a,b").length = 3 ∧ (ascii ",").length = 1 := by decide
      omega
    have cases_ : k = 0 ∨ k = 1 ∨ k = 2 := by omega
    rcases cases_ with rfl | rfl | rfl
    · revert same
      decide
    · rfl
    · revert same
      decide
  have there : Occurs (ascii "a,b") (ascii ",") 1 := ⟨by decide, by decide, by decide⟩
  cases occurrences with
  | none nowhere => exact absurd there (nowhere 1 (by decide))
  | next behind occurs first rest =>
      obtain rfl := only _ occurs
      cases rest with
      | none _ => rfl
      | next after again _ _ =>
          have back := only _ again
          subst back
          exact absurd after (by decide)

theorem replace_split_comma :
    stringReplaceImpl noDigits (fun _ => emptyGraph) 1 callNothing regexReplaceNothing ()
        (ascii "a,b") [.string ⟨ascii ","⟩, .string ⟨ascii "; "⟩] true (ascii "replaceAll") =
      .returned () (ascii "a; b") ∧
    stringSplit (ascii "a,b") regexSplitNothing () [.string ⟨ascii ","⟩] =
      .returned () [ascii "a", ascii "b"] := by
  obtain ⟨hits, occurrences, replaced, split⟩ := replace_split_iff noDigits
    (fun _ : Unit => emptyGraph) 1 callNothing regexReplaceNothing regexSplitNothing (ascii "a,b")
    (ascii ",") (by decide)
  obtain rfl := occurrences_comma occurrences
  have searchable : ∀ cursor : Int, 0 ≤ cursor → cursor ≤ 2 →
      Searchable (ascii "a,b") (ascii ",") cursor := by
    intro cursor low high
    have size : (ascii "a,b").length = 3 ∧ (ascii ",").length = 1 := by decide
    unfold Searchable FitsInt
    rw [if_neg (by decide)]
    exact ⟨by omega, .inl (by omega)⟩
  constructor
  · refine (replaced true (ascii "replaceAll") (.string ⟨ascii "; "⟩) [] () (.inl ⟨_, rfl⟩) _
      rfl).mpr ⟨.inl (by decide), ?_, fun _ => by decide⟩
    exact ⟨searchable 0 (by decide) (by decide), by decide,
      fun _ => searchable 2 (by decide) (by decide)⟩
  · refine ((split (by decide)).1 () []).mpr ?_
    exact ⟨searchable 0 (by decide) (by decide), by decide,
      fun _ => searchable 2 (by decide) (by decide)⟩

/-- `"abc".replace("", "X")` has lost its first byte. -/
theorem replace_empty_loses :
    stringReplaceImpl noDigits (fun _ => emptyGraph) 1 callNothing regexReplaceNothing ()
        (ascii "abc") [.string ⟨[]⟩, .string ⟨ascii "X"⟩] false (ascii "replace") =
      .returned () (ascii "Xbc") ∧
    ∀ hits, Occurrences (ascii "abc") [] 0 hits →
      answered (ascii "abc") [] 0 [] (replacements
        (pieceAt noDigits (fun _ : Unit => emptyGraph) 1 callNothing (ascii "abc") []
          (.string ⟨ascii "X"⟩)) () (hits.take 1)) = .returned () (ascii "Xabc") := by
  constructor
  · have loop := @replaceLoop_empty (ascii "abc") Unit Unit
      (pieceAt noDigits (fun _ => emptyGraph) 1 callNothing (ascii "abc") []
        (.string ⟨ascii "X"⟩)) false ()
    refine (loop.trans (if_neg (show ¬¬FitsInt (ascii "X").length by decide))).trans ?_
    exact if_pos (by decide)
  · intro hits occurrences
    obtain ⟨rest, rfl, _⟩ := occurrences_empty occurrences
    rfl

end

end CScript.StringReplace
