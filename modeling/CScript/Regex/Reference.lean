/-
The reference matcher.

A tree has, from a place of the subject, the list of the places it can end at,
the preferred one first: an alternation prefers its left side, a greedy
quantifier one more turn, a lazy one to stop.  The leftmost place with a path
and the first path from there are the match.
-/

import CScript.Regex.Match
import CScript.Regex.Syntax

namespace CScript

structure Place where
  sp : Nat
  slots : Slots

def Place.record (place : Place) (slot : Nat) : Place :=
  { place with slots := Function.update place.slots slot place.sp }

def takePaths (subject : List UInt8) (accepts : UInt8 → Bool) (place : Place) : List Place :=
  match subject[place.sp]? with
  | none => []
  | some c => if accepts c then [{ place with sp := place.sp + 1 }] else []

def assertPaths (holds : Bool) (place : Place) : List Place :=
  if holds then [place] else []

def wordBefore (subject : List UInt8) (sp : Nat) : Bool :=
  0 < sp && subject[sp - 1]?.any csRegexIsWordByte

def wordAt (subject : List UInt8) (sp : Nat) : Bool :=
  subject[sp]?.any csRegexIsWordByte

def turns (body : Place → List Place) : Nat → Place → List Place
  | 0, place => [place]
  | count + 1, place => (body place).flatMap (turns body count)

def upTo (body : Place → List Place) (lazy : Bool) : Nat → Place → List Place
  | 0, place => [place]
  | count + 1, place =>
      let more := (body place).flatMap (upTo body lazy count)
      if lazy then place :: more else more ++ [place]

section

variable (flags : ReFlags) (subject : List UInt8)

def Node.paths : Node → Place → List Place
  | .empty, place => [place]
  | .literal byte, place =>
      takePaths subject (fun c => sameByte c byte flags.ignoreCase) place
  | .any, place => takePaths subject (fun c => flags.dotAll || c ≠ '\n'.toUInt8) place
  | .set members, place => takePaths subject (csRegexClassHas members) place
  | .lineStart, place =>
      assertPaths (place.sp = 0 ||
        (flags.multiline && subject[place.sp - 1]? = some '\n'.toUInt8)) place
  | .lineEnd, place =>
      assertPaths (place.sp = subject.length ||
        (flags.multiline && subject[place.sp]? = some '\n'.toUInt8)) place
  | .word positive, place =>
      assertPaths ((wordBefore subject place.sp != wordAt subject place.sp) = positive) place
  | .backref _, _ => []
  | .look _ _ _, _ => []
  | .group none body, place => body.paths place
  | .group (some number) body, place =>
      (body.paths (place.record (number * 2))).map (fun after => after.record (number * 2 + 1))
  | .sequence first rest, place => (first.paths place).flatMap rest.paths
  | .alternate left right, place => left.paths place ++ right.paths place
  | .repeated body least most lazy, place =>
      (turns body.paths least place).flatMap (fun middle =>
        -- A turn takes a byte, so there are no more turns than bytes left.
        upTo body.paths lazy
          (match most with
            | none => subject.length - middle.sp
            | some most => most - least) middle)

def referenceAt (tree : Node) (at_ : Nat) : Option (Nat → Int × Int) :=
  (tree.paths flags subject ({ sp := at_, slots := fun _ => -1 : Place }.record 0)).head?.map
    (fun path => fun group =>
      ((path.record 1).slots (group * 2), (path.record 1).slots (group * 2 + 1)))

def referenceFrom (tree : Node) : Nat → Nat → Option (Nat → Int × Int)
  | 0, _ => none
  | places + 1, at_ =>
      match referenceAt flags subject tree at_ with
      | some spans => some spans
      | none => referenceFrom tree places (at_ + 1)

def referenceSearch (tree : Node) (start : Nat) : Option (Nat → Int × Int) :=
  referenceFrom flags subject tree (subject.length + 1 - start) start

end

/-! ### The patterns the reference is for -/

def Node.plain : Node → Bool
  | .backref _ => false
  | .look _ _ _ => false
  | .group _ body => body.plain
  | .sequence first rest => first.plain && rest.plain
  | .alternate left right => left.plain && right.plain
  | .repeated body _ _ _ => body.plain
  | _ => true

/-- Every bound that is written fits an `int`. -/
def Node.fits : Node → Bool
  | .look _ _ body => body.fits
  | .group _ body => body.fits
  | .sequence first rest => first.fits && rest.fits
  | .alternate left right => left.fits && right.fits
  | .repeated body least most _ =>
      least < 2147483648 && most.all (fun most => most < 2147483648) && body.fits
  | _ => true

def Node.matchesEmpty (flags : ReFlags) (node : Node) : Prop :=
  ∃ (subject : List UInt8) (place after : Place), place.sp ≤ subject.length ∧
    after ∈ node.paths flags subject place ∧ after.sp = place.sp

def Node.productive (flags : ReFlags) : Node → Prop
  | .look _ _ body => body.productive flags
  | .group _ body => body.productive flags
  | .sequence first rest => first.productive flags ∧ rest.productive flags
  | .alternate left right => left.productive flags ∧ right.productive flags
  | .repeated body _ most _ =>
      (most = none → ¬body.matchesEmpty flags) ∧ body.productive flags
  | _ => True

/-! ### Paths stay in the subject -/

def Forward (subject : List UInt8) (paths : Place → List Place) : Prop :=
  ∀ place, place.sp ≤ subject.length → ∀ after ∈ paths place,
    place.sp ≤ after.sp ∧ after.sp ≤ subject.length

theorem takePaths_forward (subject : List UInt8) (accepts : UInt8 → Bool) :
    Forward subject (takePaths subject accepts) := by
  intro place inside after member
  unfold takePaths at member
  split at member
  · cases member
  · rename_i c here
    have below := (List.getElem?_eq_some_iff.mp here).1
    split at member
    · rw [List.mem_singleton.mp member]
      exact ⟨Nat.le_succ _, below⟩
    · cases member

theorem assertPaths_forward (subject : List UInt8) (holds : Place → Bool) :
    Forward subject (fun place => assertPaths (holds place) place) := by
  intro place inside after member
  simp only [assertPaths] at member
  split at member
  · rw [List.mem_singleton.mp member]
    exact ⟨Nat.le_refl _, inside⟩
  · cases member

theorem Forward.flatMap {subject : List UInt8} {first next : Place → List Place}
    (begun : Forward subject first) (ended : Forward subject next) :
    Forward subject (fun place => (first place).flatMap next) := by
  intro place inside after member
  obtain ⟨middle, middleMember, afterMember⟩ := List.mem_flatMap.mp member
  obtain ⟨low, high⟩ := begun place inside middle middleMember
  obtain ⟨lowAfter, highAfter⟩ := ended middle high after afterMember
  exact ⟨Nat.le_trans low lowAfter, highAfter⟩

theorem turns_forward {subject : List UInt8} {body : Place → List Place}
    (forward : Forward subject body) (count : Nat) : Forward subject (turns body count) := by
  induction count with
  | zero =>
      intro place inside after member
      rw [List.mem_singleton.mp member]
      exact ⟨Nat.le_refl _, inside⟩
  | succ count ih => exact forward.flatMap ih

theorem upTo_forward {subject : List UInt8} {body : Place → List Place}
    (forward : Forward subject body) (lazy : Bool) (count : Nat) :
    Forward subject (upTo body lazy count) := by
  induction count with
  | zero =>
      intro place inside after member
      rw [List.mem_singleton.mp member]
      exact ⟨Nat.le_refl _, inside⟩
  | succ count ih =>
      intro place inside after member
      have either : after = place ∨
          after ∈ (body place).flatMap (upTo body lazy count) := by
        unfold upTo at member
        cases lazy with
        | true => exact List.mem_cons.mp member
        | false =>
            rcases List.mem_append.mp member with more | stop
            · exact Or.inr more
            · exact Or.inl (List.mem_singleton.mp stop)
      rcases either with rfl | more
      · exact ⟨Nat.le_refl _, inside⟩
      · exact forward.flatMap ih place inside after more

theorem Node.paths_forward (flags : ReFlags) (subject : List UInt8) (node : Node) :
    Forward subject (node.paths flags subject) := by
  induction node with
  | empty => exact assertPaths_forward subject (fun _ => true)
  | literal byte => exact takePaths_forward subject _
  | any => exact takePaths_forward subject _
  | set members => exact takePaths_forward subject _
  | lineStart => exact assertPaths_forward subject (fun place => place.sp = 0 ||
      (flags.multiline && subject[place.sp - 1]? = some '\n'.toUInt8))
  | lineEnd => exact assertPaths_forward subject (fun place => place.sp = subject.length ||
      (flags.multiline && subject[place.sp]? = some '\n'.toUInt8))
  | word positive => exact assertPaths_forward subject (fun place =>
      (wordBefore subject place.sp != wordAt subject place.sp) = positive)
  | backref group => exact fun _ _ _ member => by cases member
  | look behind negated body ih => exact fun _ _ _ member => by cases member
  | group capture body ih =>
      cases capture with
      | none => exact ih
      | some group =>
          intro place inside after member
          obtain ⟨path, pathMember, rfl⟩ := List.mem_map.mp member
          exact ih (place.record (group * 2)) inside path pathMember
  | sequence first rest ihFirst ihRest => exact ihFirst.flatMap ihRest
  | alternate left right ihLeft ihRight =>
      intro place inside after member
      rcases List.mem_append.mp member with one | other
      · exact ihLeft place inside after one
      · exact ihRight place inside after other
  | repeated body least most lazy ih =>
      intro place inside after member
      obtain ⟨middle, middleMember, afterMember⟩ := List.mem_flatMap.mp member
      obtain ⟨low, high⟩ := turns_forward ih least place inside middle middleMember
      obtain ⟨lowAfter, highAfter⟩ := upTo_forward ih lazy _ middle high after afterMember
      exact ⟨Nat.le_trans low lowAfter, highAfter⟩

/-! ### Bodies that take a byte -/

def Node.consumes : Node → Bool
  | .literal _ => true
  | .any => true
  | .set _ => true
  | .group _ body => body.consumes
  | .sequence first rest => first.consumes || rest.consumes
  | .alternate left right => left.consumes && right.consumes
  | .repeated body least _ _ => least ≠ 0 && body.consumes
  | _ => false

def Node.loopsConsume : Node → Bool
  | .look _ _ body => body.loopsConsume
  | .group _ body => body.loopsConsume
  | .sequence first rest => first.loopsConsume && rest.loopsConsume
  | .alternate left right => left.loopsConsume && right.loopsConsume
  | .repeated body _ most _ => (most.isSome || body.consumes) && body.loopsConsume
  | _ => true

theorem takePaths_takes {subject : List UInt8} {accepts : UInt8 → Bool} {place after : Place}
    (member : after ∈ takePaths subject accepts place) : place.sp < after.sp := by
  unfold takePaths at member
  split at member
  · cases member
  · split at member
    · rw [List.mem_singleton.mp member]
      exact Nat.lt_succ_self _
    · cases member

theorem Node.consumes_takes {flags : ReFlags} {subject : List UInt8} {node : Node}
    (consumes : node.consumes = true) {place after : Place} (inside : place.sp ≤ subject.length)
    (member : after ∈ node.paths flags subject place) : place.sp < after.sp := by
  induction node generalizing place after with
  | empty | lineStart | lineEnd | word _ | backref _ | look _ _ _ => cases consumes
  | literal byte => exact takePaths_takes member
  | any => exact takePaths_takes member
  | set members => exact takePaths_takes member
  | group capture body ih =>
      cases capture with
      | none => exact ih consumes inside member
      | some group =>
          obtain ⟨path, pathMember, rfl⟩ := List.mem_map.mp member
          have recorded : (place.record (group * 2)).sp ≤ subject.length := inside
          exact show (place.record (group * 2)).sp < path.sp from ih consumes recorded pathMember
  | sequence first rest ihFirst ihRest =>
      obtain ⟨middle, middleMember, afterMember⟩ := List.mem_flatMap.mp member
      obtain ⟨low, high⟩ := first.paths_forward flags subject place inside middle middleMember
      have lowAfter := (rest.paths_forward flags subject middle high after afterMember).1
      rcases Bool.or_eq_true_iff.mp consumes with one | other
      · exact Nat.lt_of_lt_of_le (ihFirst one inside middleMember) lowAfter
      · exact Nat.lt_of_le_of_lt low (ihRest other high afterMember)
  | alternate left right ihLeft ihRight =>
      obtain ⟨leftConsumes, rightConsumes⟩ := Bool.and_eq_true_iff.mp consumes
      rcases List.mem_append.mp member with one | other
      · exact ihLeft leftConsumes inside one
      · exact ihRight rightConsumes inside other
  | repeated body least most lazy ih =>
      have parts := Bool.and_eq_true_iff.mp consumes
      have some_ := of_decide_eq_true parts.1
      have bodyConsumes := parts.2
      obtain ⟨count, rfl⟩ := Nat.exists_eq_succ_of_ne_zero some_
      have forward := body.paths_forward flags subject
      obtain ⟨middle, middleMember, afterMember⟩ := List.mem_flatMap.mp member
      obtain ⟨first, firstMember, turned⟩ := List.mem_flatMap.mp middleMember
      have taken := ih bodyConsumes inside firstMember
      obtain ⟨_, high⟩ := forward place inside first firstMember
      obtain ⟨low, highMiddle⟩ := turns_forward forward count first high middle turned
      have last := (upTo_forward forward lazy _ middle highMiddle after afterMember).1
      omega

theorem Node.productive_of_loopsConsume (flags : ReFlags) {node : Node}
    (loops : node.loopsConsume = true) : node.productive flags := by
  induction node with
  | empty | literal _ | any | set _ | lineStart | lineEnd | word _ | backref _ => exact trivial
  | group capture body ih => exact ih loops
  | look behind negated body ih => exact ih loops
  | sequence first rest ihFirst ihRest =>
      obtain ⟨one, other⟩ := Bool.and_eq_true_iff.mp loops
      exact ⟨ihFirst one, ihRest other⟩
  | alternate left right ihLeft ihRight =>
      obtain ⟨one, other⟩ := Bool.and_eq_true_iff.mp loops
      exact ⟨ihLeft one, ihRight other⟩
  | repeated body least most lazy ih =>
      obtain ⟨bounded, inner⟩ := Bool.and_eq_true_iff.mp loops
      refine ⟨?_, ih inner⟩
      rintro rfl ⟨subject, place, after, inside, member, stays⟩
      have taken := body.consumes_takes bounded inside member
      omega

theorem turns_short {subject : List UInt8} {body : Place → List Place}
    (forward : Forward subject body)
    (takes : ∀ place : Place, place.sp ≤ subject.length → ∀ after ∈ body place,
      place.sp < after.sp)
    {count : Nat} {place : Place} (inside : place.sp ≤ subject.length)
    (short : subject.length < place.sp + count) : turns body count place = [] := by
  induction count generalizing place with
  | zero => omega
  | succ count ih =>
      refine List.flatMap_eq_nil_iff.mpr (fun after member => ?_)
      have taken := takes place inside after member
      exact ih (forward place inside after member).2 (by omega)

end CScript
