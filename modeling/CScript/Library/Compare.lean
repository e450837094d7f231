/-
The comparators of std:cmp, and what std:array does with them.

A comparator is here the sign of its answer.  The laws are asked for among the values that are
compared: `compare` goes by the numbers of two numbers and otherwise by the texts, so among
values of several kinds the two have to agree.
-/

import CScript.Native.ArraySort

namespace CScript.Compare

open ArraySort NativeCall Rendering

/-! ### The comparators -/

def compareNumbers (a b : Double) : Int :=
  if CompareOp.less.numbers a b then -1
  else if CompareOp.greater.numbers a b then 1
  else 0

def toLowerCase (text : List UInt8) : List UInt8 :=
  text.map fun c => if 65 ≤ c ∧ c ≤ 90 then c + 32 else c

def compareStringsInsensitive (a b : List UInt8) : Int :=
  let folded := compareStrings (toLowerCase a) (toLowerCase b)
  if folded ≠ 0 then folded else compareStrings a b

def compareBooleans (a b : Bool) : Int :=
  if a = b then 0 else if a then 1 else -1

section

variable {Ref : Type} (text : Shown Ref → List UInt8)

/-- `String(value)`.  The parameter gives the text of what is neither a string nor a boolean. -/
def stringOf : Shown Ref → List UInt8
  | .string s => s.chars
  | .bool b => ascii (if b then "true" else "false")
  | value => text value

def compare : Shown Ref → Shown Ref → Int
  | .number a, .number b => compareNumbers a b
  | .string a, .string b => compareStrings a.chars b.chars
  | .bool a, .bool b => compareBooleans a b
  | a, b => compareStrings (stringOf text a) (stringOf text b)

end

/-! ### Building one -/

section

variable {A B : Type}

def by_ (keyOf : A → B) (order : B → B → Int) (a b : A) : Int :=
  order (keyOf a) (keyOf b)

def reversed (order : A → A → Int) (a b : A) : Int :=
  order b a

def byDescending (keyOf : A → B) (order : B → B → Int) : A → A → Int :=
  reversed (by_ keyOf order)

def then_ : List (A → A → Int) → A → A → Int
  | [], _, _ => 0
  | order :: orders, a, b =>
      let side := order a b
      if side ≠ 0 then side else then_ orders a b

variable {Ref : Type}

def missing : Shown Ref → Bool
  | .null | .undefined => true
  | _ => false

def nullsFirst (order : Shown Ref → Shown Ref → Int) (a b : Shown Ref) : Int :=
  if missing a && missing b then 0
  else if missing a then -1
  else if missing b then 1
  else order a b

def nullsLast (order : Shown Ref → Shown Ref → Int) : Shown Ref → Shown Ref → Int :=
  reversed (nullsFirst (reversed order))

/-! ### Using one -/

def isSortedLoop (order : A → A → Int) : A → List A → Bool
  | _, [] => true
  | previous, item :: rest =>
      if order previous item > 0 then false else isSortedLoop order item rest

def isSorted (order : A → A → Int) : List A → Bool
  | [] => true
  | first :: rest => isSortedLoop order first rest

/-- The copy is sorted by `Array.sort`, that takes the sign of what the comparator answers. -/
def sortWith (items : List (Shown Ref)) (order : Shown Ref → Shown Ref → Int) :
    Except (Failure Ref × List (Shown Ref)) (List (Shown Ref)) :=
  insertionSort (fun a b => .ok (order a b)) (partitionUndefined items).2
    (partitionUndefined items).1

def sortBy (text : Shown Ref → List UInt8) (items : List (Shown Ref))
    (keyOf : Shown Ref → Shown Ref) :
    Except (Failure Ref × List (Shown Ref)) (List (Shown Ref)) :=
  sortWith items (by_ keyOf (compare text))

/-- `side` compares the element at a place with the target. -/
def binaryLoop (side : Int → Int) (low high : Int) : Int :=
  if low ≤ high then
    let middle := (low + high) / 2
    if side middle = 0 then middle
    else if side middle < 0 then binaryLoop side (middle + 1) high
    else binaryLoop side low (middle - 1)
  else -1
termination_by (high + 1 - low).toNat

def sideOf (order : Shown Ref → Shown Ref → Int) (items : List (Shown Ref)) (target : Shown Ref)
    (place : Int) : Int :=
  order (items.getD place.toNat .undefined) target

def binarySearch (items : List (Shown Ref)) (target : Shown Ref)
    (order : Shown Ref → Shown Ref → Int) : Int :=
  binaryLoop (sideOf order items target) 0 (items.length - 1)

def insertionLoop (side : Int → Int) (low high : Int) : Int :=
  if low < high then
    let middle := (low + high) / 2
    if side middle < 0 then insertionLoop side (middle + 1) high
    else insertionLoop side low middle
  else low
termination_by (high - low).toNat

def insertionIndex (items : List (Shown Ref)) (target : Shown Ref)
    (order : Shown Ref → Shown Ref → Int) : Int :=
  insertionLoop (sideOf order items target) 0 items.length

end

/-! ### What is asked for -/

/-- A total preorder, of the values that are `within`. -/
structure Laws {A : Type} (order : A → A → Int) (within : A → Prop) : Prop where
  same : ∀ a, within a → order a a = 0
  sign : ∀ a b, within a → within b → (order a b).sign = -(order b a).sign
  trans : ∀ a b c, within a → within b → within c →
    order a b ≤ 0 → order b c ≤ 0 → order a c ≤ 0

def NaNsTie (within : Double → Prop) : Prop :=
  ∀ nan, within nan → nan.isNaN = true → ∀ a b, within a → within b →
    CompareOp.less.numbers a b = false

section

variable {Ref : Type}

def asNumber : Shown Ref → Option Double
  | .number n => some n
  | _ => none

/-- Where the text of another value comes between those of two numbers, the numbers are in the
order of their texts. -/
def TextsAgree (text : Shown Ref → List UInt8) (within : Shown Ref → Prop) : Prop :=
  ∀ a b value, within (.number a) → within (.number b) → within value → asNumber value = none →
    text (.number a) ≤ stringOf text value → stringOf text value ≤ text (.number b) →
      CompareOp.less.numbers a b = true ∨
        text (.number a) = text (.number b) ∧ CompareOp.less.numbers b a = false

def insertAt (items : List (Shown Ref)) (place : Nat) (target : Shown Ref) : List (Shown Ref) :=
  items.take place ++ target :: items.drop place

def Sorts (order : Shown Ref → Shown Ref → Int) (items : List (Shown Ref))
    (answer : Except (Failure Ref × List (Shown Ref)) (List (Shown Ref))) : Prop :=
  ∃ sorted, answer = .ok sorted ∧ sorted.Perm items ∧
    (isSorted order sorted = true ↔
      (.undefined ∈ items → ∀ value ∈ items, order value .undefined ≤ 0))

structure Searched (order : Shown Ref → Shown Ref → Int) (items : List (Shown Ref))
    (target : Shown Ref) : Prop where
  absent : binarySearch items target order = -1 ↔ ∀ value ∈ items, order value target ≠ 0
  equal : binarySearch items target order ≠ -1 → ∃ place value,
    binarySearch items target order = (place : Nat) ∧ items[place]? = some value ∧
      order value target = 0
  leftmost : ∃ place : Nat, insertionIndex items target order = place ∧ place ≤ items.length ∧
    isSorted order (insertAt items place target) = true ∧
      ∀ before < place, isSorted order (insertAt items before target) = false

end

/-! ### The laws -/

section

variable {A B : Type} {within : A → Prop} {order : A → A → Int}

theorem Laws.reversed (laws : Laws order within) : Laws (reversed order) within where
  same := laws.same
  sign a b left right := laws.sign b a right left
  trans a b c left middle right first second := laws.trans c b a right middle left second first

theorem Laws.by_ {keyOf : B → A} {among : B → Prop} (laws : Laws order within)
    (keys : ∀ b, among b → within (keyOf b)) : Laws (by_ keyOf order) among where
  same a left := laws.same _ (keys a left)
  sign a b left right := laws.sign _ _ (keys a left) (keys b right)
  trans a b c left middle right := laws.trans _ _ _ (keys a left) (keys b middle) (keys c right)

theorem Laws.neg_iff (laws : Laws order within) {a b : A} (left : within a) (right : within b) :
    order a b < 0 ↔ 0 < order b a := by
  rw [← Int.sign_eq_neg_one_iff_neg, ← Int.sign_eq_one_iff_pos, laws.sign a b left right]
  omega

theorem Laws.zero_iff (laws : Laws order within) {a b : A} (left : within a) (right : within b) :
    order a b = 0 ↔ order b a = 0 := by
  have forth := laws.neg_iff left right
  have back := laws.neg_iff right left
  omega

theorem Laws.lt_of_le_of_lt (laws : Laws order within) {a b c : A} (left : within a)
    (middle : within b) (right : within c) (first : order a b ≤ 0) (second : order b c < 0) :
    order a c < 0 := by
  have le := laws.trans a b c left middle right first (by omega)
  have back := laws.neg_iff middle right
  have other := laws.trans c a b right left middle
  have zero := laws.zero_iff left right
  have flip := laws.neg_iff right middle
  omega

theorem Laws.lt_of_lt_of_le (laws : Laws order within) {a b c : A} (left : within a)
    (middle : within b) (right : within c) (first : order a b < 0) (second : order b c ≤ 0) :
    order a c < 0 := by
  have turned := laws.reversed.lt_of_le_of_lt right middle left second first
  exact turned

theorem Laws.subset {among : A → Prop} (laws : Laws order within)
    (less : ∀ a, among a → within a) : Laws order among where
  same a left := laws.same a (less a left)
  sign a b left right := laws.sign a b (less a left) (less b right)
  trans a b c left middle right := laws.trans a b c (less a left) (less b middle) (less c right)

theorem Laws.orElse {other : A → A → Int} (laws : Laws order within) (others : Laws other within) :
    Laws (fun a b => if order a b ≠ 0 then order a b else other a b) within where
  same a left := by rw [if_neg (not_not.mpr (laws.same a left)), others.same a left]
  sign a b left right := by
    have zero := laws.zero_iff left right
    by_cases tie : order a b = 0
    · rw [if_neg (not_not.mpr tie), if_neg (not_not.mpr (zero.mp tie))]
      exact others.sign a b left right
    · rw [if_pos tie, if_pos fun back => tie (zero.mpr back)]
      exact laws.sign a b left right
  trans a b c left middle right first second := by
    have le := laws.trans a b c left middle right
    have one := laws.lt_of_lt_of_le left middle right
    have two := laws.lt_of_le_of_lt left middle right
    have rest := others.trans a b c left middle right
    grind

theorem then_laws {orders : List (A → A → Int)} (laws : ∀ order ∈ orders, Laws order within) :
    Laws (then_ orders) within := by
  induction orders with
  | nil => exact ⟨fun _ _ => rfl, fun _ _ _ _ => rfl, fun _ _ _ _ _ _ _ _ => Int.le_refl 0⟩
  | cons order orders ih =>
      exact (laws order List.mem_cons_self).orElse
        (ih fun other there => laws other (List.mem_cons_of_mem _ there))

theorem Laws.of_antisymm (anti : ∀ a b, order b a = -order a b)
    (trans : ∀ a b c, within a → within b → within c →
      order a b ≤ 0 → order b c ≤ 0 → order a c ≤ 0) : Laws order within where
  same a _ := by
    have self := anti a a
    omega
  sign a b _ _ := by rw [anti b a, Int.sign_neg]
  trans := trans

theorem compareStrings_antisymm (a b : List UInt8) : compareStrings b a = -compareStrings a b := by
  induction a generalizing b with
  | nil =>
      cases b with
      | nil => rfl
      | cons d b => simp [compareStrings, compareCodes, ArraySort.compareNumbers]
  | cons c a ih =>
      cases b with
      | nil => simp [compareStrings, compareCodes, ArraySort.compareNumbers]
      | cons d b =>
          rw [compareStrings_cons, compareStrings_cons, ih]
          by_cases less : c < d
          · rw [if_pos less, if_neg (UInt8.lt_asymm less), if_pos less]
            rfl
          · rw [if_neg less, if_neg less]
            split <;> rfl

theorem compareStrings_laws (within : List UInt8 → Prop) : Laws compareStrings within :=
  .of_antisymm compareStrings_antisymm fun a b c _ _ _ first second => by
    rw [compareStrings_le_iff] at first second ⊢
    exact List.le_trans first second

theorem compareStringsInsensitive_laws (within : List UInt8 → Prop) :
    Laws compareStringsInsensitive within :=
  have folded : Laws (by_ toLowerCase compareStrings) within :=
    (compareStrings_laws fun _ => True).by_ fun _ _ => trivial
  folded.orElse (compareStrings_laws within)

theorem compareBooleans_antisymm (a b : Bool) : compareBooleans b a = -compareBooleans a b := by
  cases a <;> cases b <;> rfl

theorem compareBooleans_laws (within : Bool → Prop) : Laws compareBooleans within :=
  .of_antisymm compareBooleans_antisymm fun a b c _ _ _ => by
    cases a <;> cases b <;> cases c <;> decide

end

/-! ### Numbers -/

theorem isNaN_iff {number : Double} : number.isNaN = true ↔ number.place = none := by
  unfold Double.place
  split
  next nan => exact iff_of_true nan rfl
  next known => split <;> exact iff_of_false known nofun

theorem less_iff {a b : Double} : CompareOp.less.numbers a b = true ↔
    ∃ x y, a.place = some x ∧ b.place = some y ∧ x < y := by
  unfold CompareOp.numbers
  cases a.place with
  | none => simp
  | some x =>
      cases b.place with
      | none => simp
      | some y =>
          dsimp only
          rw [decide_eq_true_iff]
          exact ⟨fun less => ⟨x, y, rfl, rfl, less⟩, fun ⟨_, _, one, other, less⟩ => by
            cases one
            cases other
            exact less⟩

theorem less_asymm {a b : Double} (less : CompareOp.less.numbers a b = true) :
    CompareOp.less.numbers b a = false := by
  rw [← Bool.not_eq_true, less_iff]
  rw [less_iff] at less
  obtain ⟨x, y, left, right, less⟩ := less
  rintro ⟨y', x', right', left', back⟩
  rw [right, Option.some.injEq] at right'
  rw [left, Option.some.injEq] at left'
  exact lt_asymm less (right' ▸ left' ▸ back)

theorem greater_eq (a b : Double) : CompareOp.greater.numbers a b = CompareOp.less.numbers b a := by
  unfold CompareOp.numbers
  cases a.place <;> cases b.place <;> rfl

theorem compareNumbers_antisymm (a b : Double) : compareNumbers b a = -compareNumbers a b := by
  unfold compareNumbers
  rw [greater_eq, greater_eq]
  by_cases less : CompareOp.less.numbers a b = true
  · rw [if_pos less, if_neg (Bool.not_eq_true _ ▸ less_asymm less), if_pos less]
    rfl
  · rw [if_neg less, if_neg less]
    split <;> rfl

theorem compareNumbers_le_iff {a b : Double} :
    compareNumbers a b ≤ 0 ↔ CompareOp.less.numbers b a = false := by
  unfold compareNumbers
  rw [greater_eq]
  by_cases less : CompareOp.less.numbers a b = true
  · rw [if_pos less]
    exact iff_of_true (by decide) (less_asymm less)
  · rw [if_neg less, ← Bool.not_eq_true]
    split
    next greater => exact iff_of_false (by decide) (not_not.mpr greater)
    next not => exact iff_of_true (by decide) not

theorem compareNumbers_trans {within : Double → Prop} (tie : NaNsTie within) {a b c : Double}
    (left : within a) (middle : within b) (right : within c) (first : compareNumbers a b ≤ 0)
    (second : compareNumbers b c ≤ 0) : compareNumbers a c ≤ 0 := by
  rw [compareNumbers_le_iff] at first second ⊢
  cases nan : b.isNaN with
  | true => exact tie b middle nan c a right left
  | false =>
      rw [← Bool.not_eq_true] at first second ⊢
      rw [← Bool.not_eq_true, isNaN_iff] at nan
      obtain ⟨y, place⟩ := Option.ne_none_iff_exists'.mp nan
      intro less
      obtain ⟨z, x, last, front, back⟩ := less_iff.mp less
      rcases lt_or_ge y x with before | behind
      · exact first (less_iff.mpr ⟨y, x, place, front, before⟩)
      · exact second (less_iff.mpr ⟨z, y, last, place, lt_of_lt_of_le back behind⟩)

theorem compareNumbers_laws_iff (within : Double → Prop) :
    Laws compareNumbers within ↔ NaNsTie within := by
  constructor
  · intro laws nan there isNaN a b left right
    have alone : ∀ other, CompareOp.less.numbers nan other = false ∧
        CompareOp.less.numbers other nan = false := by
      intro other
      rw [← Bool.not_eq_true, ← Bool.not_eq_true, less_iff, less_iff, isNaN_iff.mp isNaN]
      exact ⟨nofun, nofun⟩
    have le := laws.trans b nan a right there left (compareNumbers_le_iff.mpr (alone b).1)
      (compareNumbers_le_iff.mpr (alone a).2)
    exact compareNumbers_le_iff.mp le
  · intro tie
    exact .of_antisymm compareNumbers_antisymm fun a b c left middle right =>
      compareNumbers_trans tie left middle right

/-! ### Any values -/

section

variable {Ref : Type} {text : Shown Ref → List UInt8} {within : Shown Ref → Prop}

theorem compareBooleans_eq (a b : Bool) : compareBooleans a b =
    compareStrings (ascii (if a then "true" else "false"))
      (ascii (if b then "true" else "false")) := by
  cases a <;> cases b <;> decide

theorem asNumber_some {value : Shown Ref} {number : Double} (is : asNumber value = some number) :
    value = .number number := by
  cases value <;> cases is
  rfl

theorem compare_eq (a b : Shown Ref) : compare text a b =
    match asNumber a, asNumber b with
    | some x, some y => compareNumbers x y
    | _, _ => compareStrings (stringOf text a) (stringOf text b) := by
  cases a <;> cases b <;> first | rfl | exact compareBooleans_eq _ _

theorem compare_texts {a b : Shown Ref} (other : asNumber a = none ∨ asNumber b = none) :
    compare text a b = compareStrings (stringOf text a) (stringOf text b) := by
  rw [compare_eq]
  rcases other with is | is
  · rw [is]
  · rw [is]
    cases asNumber a <;> rfl

theorem compare_texts_le {a b : Shown Ref} (other : asNumber a = none ∨ asNumber b = none) :
    compare text a b ≤ 0 ↔ stringOf text a ≤ stringOf text b := by
  rw [compare_texts other, compareStrings_le_iff]

theorem compare_antisymm (a b : Shown Ref) : compare text b a = -compare text a b := by
  rw [compare_eq, compare_eq]
  cases asNumber a <;> cases asNumber b <;>
    first | exact compareNumbers_antisymm _ _ | exact compareStrings_antisymm _ _

theorem texts_agree (laws : Laws (compare text) within) : TextsAgree text within := by
  intro a b value left right there other low high
  have first := (@compare_texts_le _ text (.number a) value (.inr other)).mpr low
  have second := (@compare_texts_le _ text value (.number b) (.inl other)).mpr high
  have notLess := compareNumbers_le_iff.mp (laws.trans _ _ _ left there right first second)
  by_cases same : text (.number a) = text (.number b)
  · exact .inr ⟨same, notLess⟩
  · refine .inl ?_
    by_contra less
    have back : compare text (.number b) (.number a) ≤ 0 :=
      compareNumbers_le_iff.mpr (Bool.eq_false_of_not_eq_true less)
    have up := (@compare_texts_le _ text value (.number a) (.inl other)).mp
      (laws.trans _ _ _ there right left second back)
    have down := (@compare_texts_le _ text (.number b) value (.inr other)).mp
      (laws.trans _ _ _ right left there back first)
    exact same (List.le_antisymm (List.le_trans low high) (List.le_trans down up))

theorem compare_trans (tie : NaNsTie fun n => within (.number n)) (agree : TextsAgree text within)
    (a b c : Shown Ref) (left : within a) (middle : within b) (right : within c)
    (first : compare text a b ≤ 0) (second : compare text b c ≤ 0) : compare text a c ≤ 0 := by
  cases one : asNumber a with
  | none =>
      rw [compare_texts_le (.inl one)] at first ⊢
      cases two : asNumber b with
      | none =>
          rw [compare_texts_le (.inl two)] at second
          exact List.le_trans first second
      | some y =>
          cases three : asNumber c with
          | none =>
              rw [compare_texts_le (.inr three)] at second
              exact List.le_trans first second
          | some z =>
              cases asNumber_some two
              cases asNumber_some three
              -- the text of `a` is between those of `c` and `b`
              by_contra above
              have below := List.not_le.mp above
              rcases agree z y a right middle left one (List.le_of_lt below) first with less | same
              · rw [compareNumbers_le_iff.mp second] at less
                cases less
              · have equal : stringOf text (.number z) = stringOf text (.number y) := same.1
                exact above (equal ▸ first)
  | some x =>
      cases asNumber_some one
      cases two : asNumber b with
      | none =>
          rw [compare_texts_le (.inr two)] at first
          rw [compare_texts_le (.inl two)] at second
          cases three : asNumber c with
          | none =>
              rw [compare_texts_le (.inr three)]
              exact List.le_trans first second
          | some z =>
              cases asNumber_some three
              refine compareNumbers_le_iff.mpr ?_
              rcases agree x z b left right middle two first second with less | same
              · exact less_asymm less
              · exact same.2
      | some y =>
          cases asNumber_some two
          cases three : asNumber c with
          | none =>
              rw [compare_texts_le (.inr three)] at second ⊢
              by_contra above
              have below := List.not_le.mp above
              rcases agree y x c middle left right three second (List.le_of_lt below) with
                less | same
              · rw [compareNumbers_le_iff.mp first] at less
                cases less
              · have equal : stringOf text (.number y) = stringOf text (.number x) := same.1
                exact above (equal ▸ second)
          | some z =>
              cases asNumber_some three
              exact compareNumbers_trans tie left middle right first second

theorem compare_laws_iff (within : Shown Ref → Prop) : Laws (compare text) within ↔
    NaNsTie (fun n => within (.number n)) ∧ TextsAgree text within := by
  constructor
  · intro laws
    have numbers : Laws (by_ Shown.number (compare text)) fun n => within (.number n) :=
      laws.by_ fun _ there => there
    exact ⟨(compareNumbers_laws_iff _).mp numbers, texts_agree laws⟩
  · rintro ⟨tie, agree⟩
    exact .of_antisymm compare_antisymm (compare_trans tie agree)

theorem nullsFirst_laws {order : Shown Ref → Shown Ref → Int}
    (laws : Laws order fun value => within value ∧ missing value = false) :
    Laws (nullsFirst order) within := by
  unfold nullsFirst
  refine ⟨fun a left => ?_, fun a b left right => ?_, fun a b c left middle right => ?_⟩
  · cases is : missing a with
    | true => rfl
    | false => exact laws.same a ⟨left, is⟩
  · cases first : missing a <;> cases second : missing b
    · exact laws.sign a b ⟨left, first⟩ ⟨right, second⟩
    all_goals rfl
  · have trans := laws.trans a b c
    cases first : missing a <;> cases second : missing b <;> cases third : missing c <;> grind

end

/-! ### Sorting -/

section

variable {Ref : Type} {order : Shown Ref → Shown Ref → Int} {items : List (Shown Ref)}

theorem isSorted_iff {A : Type} {order : A → A → Int} {items : List A}
    (trans : ∀ a ∈ items, ∀ b ∈ items, ∀ c ∈ items, order a b ≤ 0 → order b c ≤ 0 → order a c ≤ 0) :
    isSorted order items = true ↔ items.Pairwise fun a b => order a b ≤ 0 := by
  cases items with
  | nil => exact iff_of_true rfl List.Pairwise.nil
  | cons first rest =>
      change isSortedLoop order first rest = true ↔ _
      induction rest generalizing first with
      | nil => exact iff_of_true rfl (List.pairwise_singleton _ _)
      | cons item rest ih =>
          rw [isSortedLoop]
          split
          next after =>
            refine iff_of_false Bool.false_ne_true fun sorted => ?_
            exact absurd ((List.pairwise_cons.mp sorted).1 item List.mem_cons_self) (by omega)
          next before =>
            have later := ih item fun a left b middle c right =>
              trans a (List.mem_cons_of_mem _ left) b (List.mem_cons_of_mem _ middle) c
                (List.mem_cons_of_mem _ right)
            rw [later, List.pairwise_cons (a := first)]
            refine (and_iff_right_of_imp fun sorted value there => ?_).symm
            rcases List.mem_cons.mp there with rfl | behind
            · exact Int.not_lt.mp before
            · exact trans first List.mem_cons_self item (List.mem_cons_of_mem _ List.mem_cons_self)
                value (List.mem_cons_of_mem _ there) (Int.not_lt.mp before)
                ((List.pairwise_cons.mp sorted).1 value behind)

theorem Laws.preorder (laws : Laws order (· ∈ items)) : TotalPreorder order items where
  total a left b right := by
    have flip := laws.neg_iff right left
    omega
  trans a left b middle c right := laws.trans a b c left middle right

theorem sortWith_sorts (laws : Laws order (· ∈ items)) :
    Sorts order items (sortWith items order) := by
  have inside : ∀ value ∈ definedOf items, value ∈ items := fun _ => List.mem_of_mem_filter
  obtain ⟨sorted, answer, stable⟩ := sorts_of_preorder items (fun _ _ _ _ => rfl)
    (laws.subset inside).preorder
  refine ⟨sorted, answer, stable.perm, ?_⟩
  have same := fun value => stable.perm.mem_iff (a := value)
  rw [isSorted_iff fun a left b middle c right =>
    laws.trans a b c ((same a).mp left) ((same b).mp middle) ((same c).mp right)]
  obtain ⟨holes, last⟩ := stable.undefinedLast
  have hole : ∀ {value}, value ∈ List.replicate holes (.undefined : Shown Ref) →
      value = .undefined := fun there => (List.mem_replicate.mp there).2
  rw [last, List.pairwise_append]
  constructor
  · rintro ⟨-, -, across⟩ there value member
    cases undefined : isUndefined value with
    | true =>
        rw [(isUndefined_iff value).mp undefined]
        exact Int.le_of_eq (laws.same _ there)
    | false =>
        refine across value (List.mem_filter.mpr ⟨(same value).mpr member, by rw [undefined]; rfl⟩)
          .undefined ?_
        have inSorted := (same .undefined).mpr there
        rw [last] at inSorted
        exact (List.mem_append.mp inSorted).resolve_left fun defined =>
          nomatch (List.mem_filter.mp defined).2
  · intro behind
    have member : ∀ {value}, value ∈ List.replicate holes .undefined → value ∈ items :=
      fun there => (same _).mp (last ▸ List.mem_append_right _ there)
    refine ⟨stable.inOrder, List.pairwise_replicate.mpr ?_, fun value defined other there => ?_⟩
    · rcases Nat.eq_zero_or_pos holes with zero | positive
      · exact .inl (zero ▸ Nat.zero_le 1)
      · exact .inr (Int.le_of_eq (laws.same _
          (member (List.mem_replicate.mpr ⟨Nat.ne_of_gt positive, rfl⟩))))
    · rw [hole there]
      exact behind (hole there ▸ member there) value
        ((same value).mp (List.mem_of_mem_filter defined))

end

/-! ### Searching -/

section

variable {side : Int → Int}

structure Rising (side : Int → Int) (length : Int) : Prop where
  less : ∀ i j, 0 ≤ i → i ≤ j → j < length → side j < 0 → side i < 0
  greater : ∀ i j, 0 ≤ i → i ≤ j → j < length → 0 < side i → 0 < side j

theorem binaryLoop_spec {length : Int} (rising : Rising side length) {low high : Int}
    (first : 0 ≤ low) (last : high < length) :
    (binaryLoop side low high = -1 ∧ ∀ i, low ≤ i → i ≤ high → side i ≠ 0) ∨
      low ≤ binaryLoop side low high ∧ binaryLoop side low high ≤ high ∧
        side (binaryLoop side low high) = 0 := by
  fun_induction binaryLoop side low high with
  | case1 low high within middle equal =>
      exact .inr ⟨by omega, by omega, equal⟩
  | case2 low high within middle differs less ih =>
      rcases ih (by omega) last with ⟨absent, none⟩ | ⟨above, below, equal⟩
      · refine .inl ⟨absent, fun i after upto => ?_⟩
        rcases Int.lt_or_le middle i with behind | before
        · exact none i behind upto
        · have is := rising.less i middle (by omega) before (by omega) less
          omega
      · exact .inr ⟨by omega, below, equal⟩
  | case3 low high within middle differs notLess ih =>
      rcases ih first (by omega) with ⟨absent, none⟩ | ⟨above, below, equal⟩
      · refine .inl ⟨absent, fun i after upto => ?_⟩
        rcases Int.lt_or_le i middle with before | behind
        · exact none i after (by omega)
        · have is := rising.greater middle i (by omega) behind (by omega) (by omega)
          omega
      · exact .inr ⟨above, by omega, equal⟩
  | case4 low high empty => exact .inl ⟨rfl, fun i after upto => by omega⟩

theorem insertionLoop_spec {length : Int} (rising : Rising side length) {low high : Int}
    (first : 0 ≤ low) (inOrder : low ≤ high) (last : high ≤ length)
    (below : ∀ i, 0 ≤ i → i < low → side i < 0) (above : ∀ i, high ≤ i → i < length → 0 ≤ side i) :
    low ≤ insertionLoop side low high ∧ insertionLoop side low high ≤ high ∧
      (∀ i, 0 ≤ i → i < insertionLoop side low high → side i < 0) ∧
      ∀ i, insertionLoop side low high ≤ i → i < length → 0 ≤ side i := by
  fun_induction insertionLoop side low high with
  | case1 low high within middle less ih =>
      obtain ⟨least, most, before, behind⟩ := ih (by omega) (by omega) last (fun i positive upto =>
        rising.less i middle positive (by omega) (by omega) less) above
      exact ⟨by omega, most, before, behind⟩
  | case2 low high within middle notLess ih =>
      obtain ⟨least, most, before, behind⟩ := ih first (by omega) (by omega) below
        fun i after upto => by
          rcases Int.lt_or_eq_of_le (Int.not_lt.mp notLess) with greater | equal
          · have is := rising.greater middle i (by omega) after upto greater
            omega
          · by_contra is
            have early := rising.less middle i (by omega) after upto (by omega)
            omega
      exact ⟨least, by omega, before, behind⟩
  | case3 low high empty =>
      exact ⟨Int.le_refl _, inOrder, below, fun i after upto => above i (by omega) upto⟩

end

section

variable {Ref : Type} {order : Shown Ref → Shown Ref → Int} {items : List (Shown Ref)}
  {target : Shown Ref}

theorem sideOf_eq {place : Nat} (within : place < items.length) :
    sideOf order items target place = order items[place] target := by
  unfold sideOf
  rw [Int.toNat_natCast, List.getD_eq_getElem _ _ within]

theorem sideOf_rising (laws : Laws order fun value => value ∈ items ∨ value = target)
    (sorted : items.Pairwise fun a b => order a b ≤ 0) :
    Rising (sideOf order items target) items.length := by
  have places : ∀ i j, 0 ≤ i → i ≤ j → j < (items.length : Int) → ∃ a ∈ items, ∃ b ∈ items,
      sideOf order items target i = order a target ∧
        sideOf order items target j = order b target ∧ order a b ≤ 0 := by
    intro i j positive before last
    obtain ⟨i, rfl⟩ := Int.eq_ofNat_of_zero_le positive
    obtain ⟨j, rfl⟩ := Int.eq_ofNat_of_zero_le (Int.le_trans positive before)
    have first : i < items.length := by omega
    have second : j < items.length := by omega
    refine ⟨_, List.getElem_mem first, _, List.getElem_mem second, sideOf_eq first,
      sideOf_eq second, ?_⟩
    rcases Nat.lt_or_eq_of_le (Int.ofNat_le.mp before) with less | rfl
    · exact List.pairwise_iff_getElem.mp sorted i j first second less
    · exact Int.le_of_eq (laws.same _ (.inl (List.getElem_mem first)))
  constructor
  · intro i j positive before last less
    obtain ⟨a, inA, b, inB, first, second, le⟩ := places i j positive before last
    rw [second] at less
    rw [first]
    exact laws.lt_of_le_of_lt (.inl inA) (.inl inB) (.inr rfl) le less
  · intro i j positive before last greater
    obtain ⟨a, inA, b, inB, first, second, le⟩ := places i j positive before last
    rw [first, ← laws.neg_iff (.inr rfl) (.inl inA)] at greater
    rw [second, ← laws.neg_iff (.inr rfl) (.inl inB)]
    exact laws.lt_of_lt_of_le (.inr rfl) (.inl inA) (.inl inB) greater le

theorem searched (laws : Laws order fun value => value ∈ items ∨ value = target)
    (sorted : isSorted order items = true) : Searched order items target := by
  have pairs := (isSorted_iff fun a left b middle c right =>
    laws.trans a b c (.inl left) (.inl middle) (.inl right)).mp sorted
  have rising := sideOf_rising laws pairs
  have search : (binarySearch items target order = -1 ∧ ∀ value ∈ items, order value target ≠ 0) ∨
      ∃ place value, binarySearch items target order = (place : Nat) ∧
        items[place]? = some value ∧ order value target = 0 := by
    unfold binarySearch
    rcases binaryLoop_spec rising (Int.le_refl 0) (Int.sub_lt_self _ Int.one_pos) with
      ⟨absent, none⟩ | ⟨least, most, equal⟩
    · refine .inl ⟨absent, fun value there => ?_⟩
      obtain ⟨place, within, rfl⟩ := List.getElem_of_mem there
      exact (sideOf_eq within).symm.trans_ne (none place (by omega) (by omega))
    · generalize binaryLoop _ _ _ = answer at *
      obtain ⟨place, rfl⟩ := Int.eq_ofNat_of_zero_le least
      have within : place < items.length := by omega
      exact .inr ⟨place, items[place], rfl, List.getElem?_eq_getElem within,
        (sideOf_eq within).symm.trans equal⟩
  have insertion := insertionLoop_spec rising (Int.le_refl 0) (Int.natCast_nonneg items.length)
    (Int.le_refl _) (fun i _ _ => by omega) fun i _ _ => by omega
  refine ⟨?_, fun present => ?_, ?_⟩
  · rcases search with ⟨absent, none⟩ | ⟨place, value, answer, found, equal⟩
    · exact iff_of_true absent none
    · refine iff_of_false (by omega) fun none => ?_
      exact none value (List.mem_of_getElem? found) equal
  · exact search.resolve_left fun absent => present absent.1
  · obtain ⟨least, most, below, above⟩ := insertion
    unfold insertionIndex
    generalize insertionLoop _ _ _ = answer at *
    obtain ⟨place, rfl⟩ := Int.eq_ofNat_of_zero_le least
    have among : ∀ n, ∀ value ∈ insertAt items n target, value ∈ items ∨ value = target := by
      intro n value there
      rcases List.mem_append.mp there with front | rest
      · exact .inl (List.mem_of_mem_take front)
      · rcases List.mem_cons.mp rest with is | back
        · exact .inr is
        · exact .inl (List.mem_of_mem_drop back)
    have sorts := fun n => @isSorted_iff _ order (insertAt items n target)
      fun a left b middle c right =>
        laws.trans a b c (among n a left) (among n b middle) (among n c right)
    refine ⟨place, rfl, by omega, (sorts place).mpr ?_, fun before earlier => ?_⟩
    · unfold insertAt
      rw [List.pairwise_append, List.pairwise_cons]
      refine ⟨pairs.sublist (List.take_sublist _ _), ⟨fun value back => ?_,
        pairs.sublist (List.drop_sublist _ _)⟩, fun value front other rest => ?_⟩
      · obtain ⟨i, within, rfl⟩ := List.mem_drop_iff_getElem.mp back
        have here : place + i < items.length := by omega
        have side := above (place + i : Nat) (by omega) (by omega)
        rw [sideOf_eq here] at side
        have flip := laws.neg_iff (.inl (List.getElem_mem here)) (.inr rfl)
        omega
      · rcases List.mem_cons.mp rest with rfl | back
        · obtain ⟨i, bound, rfl⟩ := List.mem_take_iff_getElem.mp front
          have within : i < items.length := by omega
          have side := below i (by omega) (by omega)
          rw [sideOf_eq within] at side
          omega
        · rw [← List.take_append_drop place items] at pairs
          exact (List.pairwise_append.mp pairs).2.2 value front other back
    · refine Bool.eq_false_of_not_eq_true fun is => ?_
      have within : before < items.length := by omega
      have side := below before (by omega) (by omega)
      rw [sideOf_eq within] at side
      have rest := (List.pairwise_append.mp ((sorts before).mp is)).2.1
      have next := (List.pairwise_cons.mp rest).1 items[before]
        (List.mem_drop_iff_getElem.mpr ⟨0, by omega, rfl⟩)
      have flip := laws.neg_iff (.inl (List.getElem_mem within)) (.inr rfl)
      omega

end

/-! ### All together -/

/-- The laws hold of every comparator among the values of which the numbers and the texts agree,
and a sort and a search are then what they are for. -/
theorem std_cmp_orders {Ref : Type} (text : Shown Ref → List UInt8) :
    (∀ within, Laws compareNumbers within ↔ NaNsTie within) ∧
    (∀ within, Laws compareStrings within ∧ Laws compareStringsInsensitive within) ∧
    (∀ within, Laws compareBooleans within) ∧
    (∀ within, Laws (compare text) within ↔
      NaNsTie (fun n => within (.number n)) ∧ TextsAgree text within) ∧
    (∀ (within among : Shown Ref → Prop) order keyOf, Laws order within →
      (∀ value, among value → within (keyOf value)) →
        Laws (by_ keyOf order) among ∧ Laws (byDescending keyOf order) among) ∧
    (∀ (within : Shown Ref → Prop) order, Laws order within → Laws (reversed order) within) ∧
    (∀ (within : Shown Ref → Prop) orders, (∀ order ∈ orders, Laws order within) →
      Laws (then_ orders) within) ∧
    (∀ (within : Shown Ref → Prop) order,
      Laws order (fun value => within value ∧ missing value = false) →
        Laws (nullsFirst order) within ∧ Laws (nullsLast order) within) ∧
    (∀ (order : Shown Ref → Shown Ref → Int) items, Laws order (· ∈ items) →
      Sorts order items (sortWith items order)) ∧
    (∀ keyOf items, Laws (by_ keyOf (compare text)) (· ∈ items) →
      Sorts (by_ keyOf (compare text)) items (sortBy text items keyOf)) ∧
    (∀ (order : Shown Ref → Shown Ref → Int) items target,
      Laws order (fun value => value ∈ items ∨ value = target) →
        isSorted order items = true → Searched order items target) := by
  refine ⟨compareNumbers_laws_iff, fun within => ⟨compareStrings_laws within,
    compareStringsInsensitive_laws within⟩, compareBooleans_laws, compare_laws_iff,
    fun within among order keyOf laws keys => ⟨laws.by_ keys, (laws.by_ keys).reversed⟩,
    fun within order laws => laws.reversed, fun within orders laws => then_laws laws,
    fun within order laws => ⟨nullsFirst_laws laws, (nullsFirst_laws laws.reversed).reversed⟩,
    fun order items laws => sortWith_sorts laws, fun keyOf items laws => sortWith_sorts laws,
    fun order items target laws sorted => searched laws sorted⟩

def minusOne : Double :=
  ⟨0xbff0000000000000⟩

def minusInfinity : Double :=
  ⟨0xfff0000000000000⟩

def sampleText : Shown Unit → List UInt8
  | .number n => ascii (if n = minusOne then "-1" else "-Infinity")
  | .undefined => ascii "undefined"
  | _ => []

/-- `-1` comes before the string `"-A"` and that before `-Infinity`, but not `-1` before
`-Infinity`; of the string `"z"` and undefined the sort puts undefined last. -/
theorem compare_unlawful :
    ¬Laws (compare sampleText) (fun _ => True) ∧
      sortWith [.undefined, .string ⟨ascii "z"⟩] (compare sampleText) =
        .ok [.string ⟨ascii "z"⟩, .undefined] ∧
      isSorted (compare sampleText) [.string ⟨ascii "z"⟩, .undefined] = false := by
  refine ⟨fun laws => ?_, rfl, by decide⟩
  have numbers := laws.trans (.number minusOne) (.string ⟨ascii "-A"⟩) (.number minusInfinity)
    trivial trivial trivial (by decide) (by decide)
  have notLess := compareNumbers_le_iff.mp numbers
  rw [less_iff.mpr ⟨⊥, NumberPlace.ofRat minusOne.value, rfl, rfl, WithBot.bot_lt_coe _⟩] at notLess
  cases notLess

end CScript.Compare
